import Patchbay.Bench
import Patchbay.Engine.Session

/-!
# Driving one node

What can be asked of a node that stands alone: on a bench, or as the only node of an engine. A bench
does whatever it is asked to.
-/

namespace Patchbay

variable {R : Type} {F : Family R} [Sample R]

/-- A tick comes with zeros at all signal inlets. -/
inductive Drive (R : Type)
  | send (inlet : PortId) (msg : Message R)
  | publish (bus : String) (msg : Message R)
  | tick
  | take (outlet : Nat)

namespace Drive

/-- The same, asked of the only node of an engine. -/
def call : Drive R → Call R
  | send inlet msg => .send 0 inlet msg
  | publish bus msg => .publish bus msg
  | tick => .tick
  | take outlet => .take 0 outlet

/-- Messages go to message inlets only. -/
def meets (t : Topology) : Drive R → Bool
  | send inlet _ => (t.inlet? inlet).any (·.kind == .message)
  | publish .. | tick | take _ => true

end Drive

namespace Bench

def ofProgress (p : Progress R (Bench F)) : Outcome R (Bench F) (EngineError R) (Reply R) :=
  ⟨p.state, p.events, match p.fault with | none => .done .nothing | some f => .faulted f⟩

def ofTicked (t : Ticked R (Bench F)) : Outcome R (Bench F) (EngineError R) (Reply R) :=
  ⟨t.state, [], match t.fault with | none => .done (.samples t.outputs) | some f => .faulted f⟩

def perform (b : Bench F) : Drive R → Outcome R (Bench F) (EngineError R) (Reply R)
  | .send inlet msg => ofProgress (b.send inlet msg)
  | .publish bus msg => ofProgress (b.publish bus msg)
  | .tick => ofTicked (b.tick (List.replicate b.topology.inputWidth 0))
  | .take outlet => ⟨(b.take outlet).2, [], .done (.messages (b.take outlet).1)⟩

def after (b : Bench F) (drives : List (Drive R)) : Bench F :=
  drives.foldl (fun b drive => (b.perform drive).state) b

end Bench

end Patchbay
