import Patchbay.Buses
import Patchbay.Config
import Patchbay.Schedule

/-!
# Engines

A linked patch with an instance per node. An engine is declared first and configured once; only then
does it tick and take messages.
-/

namespace Patchbay

variable {R : Type} {F : Family R}

structure Live {R : Type} (F : Family R) where
  name : String
  topology : Topology
  reroute : PortId → Option PortId
  state : F.State

structure Engine {R : Type} (F : Family R) where
  schedule : Schedule
  nodes : List (Live F)
  buses : Buses
  /-- Nodes whose configure callback is still to run. -/
  pending : List NodeId
  config : Option (Config R)
  outputs : List R
  /-- The input samples of the node that ticked last, in a buffer wide enough for every node. -/
  inputs : List R
  captured : Std.TreeMap Outlet (List (Message R))

inductive EngineError (R : Type)
  | notConfigured
  | alreadyConfigured
  | config (e : ConfigError R)
  | node (e : NodeError)
  | invalidNode (node : NodeId)
  | invalidPort (node : NodeId) (port : PortId)

def EngineError.message [Sample R] : EngineError R → String
  | notConfigured => "runtime is not configured"
  | alreadyConfigured => "runtime is already configured"
  | config e => e.message
  | node e => e.message
  | invalidNode n => s!"no such node: NodeId({n})"
  | invalidPort n p => s!"no message port {p.text} on node NodeId({n})"

namespace Engine

def declareNode (wired : List Wired) (node : PatchNode F) :
    Traced R NodeError (Declared F.State) := do
  node.type.declare node.args (← Traced.at? wired[node.id]?)

/-- Declares nodes in order, and lists those that ask for the callback. -/
def declareAll (wired : List Wired) : List (PatchNode F) →
    Traced R NodeError (List (Live F) × List NodeId)
  | [] => pure ([], [])
  | node :: rest => do
    let declared ← declareNode wired node
    let (lives, pending) ← declareAll wired rest
    return (⟨node.typeName, node.topology, node.type.reroute, declared.state⟩ :: lives,
      if declared.wantsConfigure then node.id :: pending else pending)

/-- Enters the subscriptions of nodes in order, up to the first that cannot be declared. -/
def enterAll (wired : List Wired) : List (PatchNode F) → Buses → Buses
  | [], buses => buses
  | node :: rest, buses =>
    match (declareNode wired node).ending with
    | .done declared =>
      enterAll wired rest <| declared.subscriptions.foldl
        (fun b (bus, inlet) => b.subscribe bus ⟨node.id, inlet⟩) buses
    | .refused _ | .faulted _ => buses

/-- An engine for a patch; callbacks are only entered here. -/
def link [Zero R] (schedule : Schedule) (p : Patch F) (buses : Buses) :
    Traced R (EngineError R) (Engine F) :=
  Traced.mapError .node do
    let (nodes, pending) ← declareAll schedule.wired p.nodes
    return {
      schedule := schedule
      nodes := nodes
      buses := enterAll schedule.wired p.nodes buses
      pending := pending
      config := none
      outputs := List.replicate schedule.bufferLength 0
      inputs := List.replicate (schedule.inputWidths.foldr Nat.max 0) 0
      captured := ∅ }

def setState (e : Engine F) (node : NodeId) (state : F.State) : Engine F :=
  { e with nodes := e.nodes.modify node fun live => { live with state := state } }

def signal? (e : Engine F) (node : NodeId) (outlet : Nat) : Option R :=
  (e.schedule.slot? node outlet).bind (e.outputs[·]?)

def listen (e : Engine F) (node : NodeId) (outlet : Nat) : Engine F :=
  let o : Outlet := ⟨node, outlet⟩
  { e with captured := e.captured.insert o (e.captured.getD o []) }

def capture (e : Engine F) (node : NodeId) (outlet : Nat) (msg : Message R) : Engine F :=
  let o : Outlet := ⟨node, outlet⟩
  match e.captured[o]? with
  | some msgs => { e with captured := e.captured.insert o (msgs ++ [msg]) }
  | none => e

/-- Hands out what was captured on an outlet and goes on listening. -/
def take (e : Engine F) (node : NodeId) (outlet : Nat) : List (Message R) × Engine F :=
  let o : Outlet := ⟨node, outlet⟩
  match e.captured[o]? with
  | some msgs => (msgs, { e with captured := e.captured.insert o [] })
  | none => ([], e)

end Engine

end Patchbay
