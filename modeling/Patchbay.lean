import Patchbay.Bench
import Patchbay.Draft
import Patchbay.Engine.Session
import Patchbay.Json.Records
import Patchbay.Listing
import Patchbay.Node.Session
import Patchbay.Patch.History
import Patchbay.Wave
import Patchbay.Proofs.Endings
import Patchbay.Proofs.SearchSound
import Patchbay.Proofs.PatchSound
import Patchbay.Proofs.ConnectSound
import Patchbay.Proofs.DraftSound
import Patchbay.Proofs.BusSound
import Patchbay.Proofs.OrderSound
import Patchbay.Proofs.StandardTypes
import Patchbay.Proofs.ScheduleSound
import Patchbay.Proofs.EngineSound
import Patchbay.Proofs.LinkSound
import Patchbay.Proofs.InletSound
import Patchbay.Proofs.StandardStates
import Patchbay.Proofs.TickSound
import Patchbay.Proofs.ControlSound
import Patchbay.Proofs.BuildSafe
import Patchbay.Proofs.RunSafe
import Patchbay.Proofs.RoutingSound
import Patchbay.Proofs.Moments
import Patchbay.Proofs.BindingSound
import Patchbay.Proofs.PublishSound
import Patchbay.Proofs.Spans
import Patchbay.Proofs.CutoffSound
import Patchbay.Proofs.WireSound
import Patchbay.Proofs.PhaseSound
import Patchbay.Proofs.LifecycleSound
import Patchbay.Proofs.EchoSound
import Patchbay.Proofs.RangeSound
import Patchbay.Proofs.RenderSound
import Patchbay.Proofs.ContainSound
import Patchbay.Proofs.TwinSound
import Patchbay.Proofs.BlockSound
import Patchbay.Proofs.TapSound
import Patchbay.Proofs.BenchSound
import Patchbay.Proofs.DetourSound
import Patchbay.Proofs.RebindSound
import Patchbay.Proofs.DropSound
import Patchbay.Proofs.DrainSound
import Patchbay.Proofs.PortSound
import Patchbay.Proofs.ToggleSound
import Patchbay.Proofs.MatchSound
import Patchbay.Proofs.SingleSound
import Patchbay.Proofs.SetSound
import Patchbay.Proofs.CrossoverSound
import Patchbay.Proofs.Streams
import Patchbay.Proofs.FilterSound
import Patchbay.Proofs.LowPassSound
import Patchbay.Proofs.ModeSound
import Patchbay.Proofs.RunTicks
import Patchbay.Proofs.InverseSound
import Patchbay.Proofs.OscillatorSound
import Patchbay.Proofs.NearestSound
import Patchbay.Proofs.ShortestSound
import Patchbay.Proofs.NumeralSound
import Patchbay.Proofs.LexemeSound
import Patchbay.Proofs.JsonSound
import Patchbay.Proofs.CodecSound
import Patchbay.Proofs.RecordsSound
import Patchbay.Proofs.SinglePrecision
import Patchbay.Proofs.WaveSound
