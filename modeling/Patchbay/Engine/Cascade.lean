import Patchbay.Engine

/-!
# Cascades

A delivered message is handled and all it sets off runs before the next delivery. Feedback is cut:
a delivery has `room` for so many nested ones, and where there is none left it is skipped and noted.
-/

namespace Patchbay

variable {R : Type} {F : Family R}

/-- Deliveries nested deeper than this are cut off. -/
def maxDepth : Nat := 256

namespace Engine

abbrev Deliver {R : Type} (F : Family R) :=
  Origin → NodeId → PortId → Message R → Engine F → Progress R (Engine F)

def publishWith (deliver : Deliver F) (publisher : Option NodeId) (bus : String) (msg : Message R)
    (e : Engine F) : Progress R (Engine F) :=
  Progress.each (fun s => deliver (.bus bus publisher) s.node s.inlet msg)
    (e.buses.subscribers bus) e

def applyWith (deliver : Deliver F) (node : NodeId) (emission : Emission R) (e : Engine F) :
    Progress R (Engine F) :=
  match emission with
  | .send outlet msg =>
    (⟨e.capture node outlet msg, [.sent node outlet msg], none⟩ : Progress R (Engine F)).andThen
      (Progress.each (fun t => deliver (.wire node outlet) t.node t.inlet msg)
        (e.schedule.targets node outlet))
  | .publish bus msg => publishWith deliver (some node) bus msg e
  | .subscribe bus inlet => .stay { e with buses := e.buses.subscribe bus ⟨node, inlet⟩ }
  | .unsubscribe bus inlet => .stay { e with buses := e.buses.unsubscribe bus ⟨node, inlet⟩ }

def absorb (e : Engine F) (node : NodeId) (first : Event R) (h : Handled R F.State) :
    Progress R (Engine F) :=
  ⟨e.setState node h.state, first :: h.notices.map Event.notice, h.fault⟩

def sampleRate [Zero R] (e : Engine F) : R :=
  match e.config with
  | some c => c.sampleRate
  | none => 0

def deliver [Zero R] : Nat → Deliver F
  | room, origin, node, inlet, msg, e =>
    match e.nodes[node]? with
    | none => .fail e .outOfRange
    | some live =>
      match room with
      | 0 =>
        ⟨e, [.cut origin node inlet msg, .notice (.cascadeCut live.name inlet msg)], none⟩
      | room + 1 =>
        let h := F.message live.state inlet msg e.sampleRate
        (e.absorb node (.delivered origin node inlet msg) h).andThen
          (Progress.each (applyWith (deliver room) node) h.emissions)

/-! ## Operations from outside -/

def runCallbacks (rate : R) : List NodeId → Engine F →
    Progress R (Engine F × List (NodeId × List (Emission R)))
  | [], e => .stay (e, [])
  | node :: rest, e =>
    match e.nodes[node]? with
    | none => .fail (e, []) .outOfRange
    | some live =>
      let h := F.configure live.state rate
      let p := e.absorb node (.configured node) h
      match p.fault with
      | some f => ⟨(p.state, []), p.events, some f⟩
      | none =>
        let q := runCallbacks rate rest p.state
        ⟨(q.state.1, (node, h.emissions) :: q.state.2), p.events ++ q.events, q.fault⟩

/-- Takes over a configuration, once. All callbacks run before anything they emit is applied. -/
def configure [Sample R] (e : Engine F) (config : Config R) :
    Except (EngineError R) (Progress R (Engine F)) :=
  if e.config.isSome then .error .alreadyConfigured
  else match config.validate with
    | .error err => .error (.config err)
    | .ok () =>
      let opened : Event R :=
        .notice (.configuring config.sampleRate config.blockSize e.pending.length)
      let p := runCallbacks config.sampleRate e.pending
        { e with config := some config, pending := [] }
      let ran : Progress R (Engine F) := ⟨p.state.1, opened :: p.events, p.fault⟩
      .ok <| ran.andThen <| Progress.each
        (fun (node, emissions) => Progress.each (applyWith (deliver maxDepth) node) emissions)
        p.state.2

/-- The inlet that takes a message addressed to `inlet`: a signal inlet passes it to its shadow. -/
def messageInlet? (live : Live F) (inlet : PortId) : Option PortId :=
  match live.topology.inlet? inlet with
  | some port => if port.kind = .message then some inlet else live.reroute inlet
  | none => none

def send [Zero R] (e : Engine F) (node : NodeId) (inlet : PortId) (msg : Message R) :
    Except (EngineError R) (Progress R (Engine F)) :=
  if e.config.isNone then .error .notConfigured
  else match e.nodes[node]? with
    | none => .error (.invalidNode node)
    | some live =>
      match messageInlet? live inlet with
      | none => .error (.invalidPort node inlet)
      | some target => .ok (deliver (maxDepth + 1) .outside node target msg e)

def publish [Zero R] (e : Engine F) (bus : String) (msg : Message R) :
    Except (EngineError R) (Progress R (Engine F)) :=
  if e.config.isNone then .error .notConfigured
  else .ok (publishWith (deliver (maxDepth + 1)) none bus msg e)

end Engine

end Patchbay
