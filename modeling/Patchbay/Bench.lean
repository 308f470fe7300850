import Patchbay.Config
import Patchbay.Node

/-!
# A bench for one node

Drives a single instance without a patch: its callback runs at once, everything it emits is
recorded, and its bus subscriptions are kept.
-/

namespace Patchbay

variable {R : Type} {F : Family R}

structure Bench {R : Type} (F : Family R) where
  state : F.State
  topology : Topology
  sampleRate : R
  sent : List (Nat × Message R)
  published : List (String × Message R)
  subscriptions : List (String × PortId)

namespace Bench

def apply (b : Bench F) : Emission R → Bench F
  | .send outlet msg => { b with sent := b.sent ++ [(outlet, msg)] }
  | .publish bus msg => { b with published := b.published ++ [(bus, msg)] }
  | .subscribe bus inlet =>
    if (bus, inlet) ∈ b.subscriptions then b
    else { b with subscriptions := b.subscriptions ++ [(bus, inlet)] }
  | .unsubscribe bus inlet =>
    { b with subscriptions := b.subscriptions.filter (· ≠ (bus, inlet)) }

def absorb (b : Bench F) (h : Handled R F.State) : Progress R (Bench F) :=
  let next := { b with state := h.state }
  ⟨if h.fault.isSome then next else h.emissions.foldl apply next, h.notices.map .notice, h.fault⟩

/-- A bench around a fresh instance; `inlets` are the signal inlets that count as wired. The
configuration is not looked at. -/
def start (type : NodeType F) (rawArgs : List (Token R)) (inlets : List Nat) (config : Config R) :
    Traced R NodeError (Bench F) := do
  let args ← .ofExcept (type.readArgs rawArgs)
  let topology ← type.build args
  let declared ← type.declare args (.ofInlets inlets)
  let fresh : Bench F :=
    ⟨declared.state, topology, config.sampleRate, [], [], declared.subscriptions⟩
  if declared.wantsConfigure then
    let p := fresh.absorb (F.configure fresh.state fresh.sampleRate)
    ⟨p.events, match p.fault with | some f => .faulted f | none => .done p.state⟩
  else return fresh

def send (b : Bench F) (inlet : PortId) (msg : Message R) : Progress R (Bench F) :=
  b.absorb (F.message b.state inlet msg b.sampleRate)

def publish (b : Bench F) (bus : String) (msg : Message R) : Progress R (Bench F) :=
  Progress.each (fun inlet b => b.send inlet msg)
    ((b.subscriptions.filter (·.1 == bus)).map (·.2)) b

def tick [Zero R] (b : Bench F) (inputs : List R) : Ticked R (Bench F) :=
  (F.tick b.state inputs (List.replicate b.topology.outputWidth 0) b.sampleRate).map fun s =>
    { b with state := s }

/-- Hands out the messages sent on one outlet and keeps the rest. -/
def take (b : Bench F) (outlet : Nat) : List (Message R) × Bench F :=
  ((b.sent.filter (·.1 == outlet)).map (·.2),
    { b with sent := b.sent.filter (·.1 != outlet) })

def takePublished (b : Bench F) : List (String × Message R) × Bench F :=
  (b.published, { b with published := [] })

end Bench

end Patchbay
