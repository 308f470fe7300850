import Patchbay.Patch

/-!
# Connecting

A connection is looked at in a fixed order: both nodes, both ports, the kinds, whether the cable is
there already, and for a signal cable whether it would close a cycle. A message outlet that meets a
signal inlet is led to the inlet's shadow, if the node type names one.
-/

namespace Patchbay

/-! ## Search along signal cables -/

def searchEach (visit : NodeId → List NodeId → Except Fault (Bool × List NodeId)) :
    List NodeId → List NodeId → Except Fault (Bool × List NodeId)
  | [], seen => .ok (false, seen)
  | n :: ns, seen =>
    match visit n seen with
    | .error f => .error f
    | .ok (true, seen') => .ok (true, seen')
    | .ok (false, seen') => searchEach visit ns seen'

/-- Depth-first search for `target` from `current`, entering no node twice. `room` bounds the length
of the path; a path through a patch of `size` nodes never needs more. -/
def searchFrom (cables : List Cable) (size : Nat) (target : NodeId) :
    Nat → NodeId → List NodeId → Except Fault (Bool × List NodeId)
  | 0, _, seen => .ok (false, seen)
  | room + 1, current, seen =>
    if current = target then .ok (true, seen)
    else if size ≤ current then .error .outOfRange
    else if seen.contains current then .ok (false, seen)
    else searchEach (searchFrom cables size target room) (signalTargets cables current)
      (current :: seen)

namespace Patch

variable {R : Type} {F : Family R}

def wouldCycle (p : Patch F) (source target : NodeId) : Except Fault Bool :=
  (searchFrom p.cables p.nodes.length source (p.nodes.length + 1) target []).map (·.1)

def resolve (node : PatchNode F) (out : Kind) (port : Port) : Except PatchError PortId :=
  if out = port.kind then .ok port.id
  else if out = .message then
    match (node.type.reroute port.id).filter fun shadow =>
        (node.topology.inlet? shadow).any (·.kind == .message) with
    | some shadow => .ok shadow
    | none => .error (.kindMismatch out port.kind)
  else .error (.kindMismatch out port.kind)

def cableFor (p : Patch F) (source : NodeId) (outlet : Nat) (target : NodeId) (inlet : PortId) :
    Except PatchError Cable := do
  let some a := p.node? source | throw (.invalidNode source)
  let some b := p.node? target | throw (.invalidNode target)
  let some out := a.topology.outlet? outlet | throw (.invalidPort source (.regular outlet))
  let some port := b.topology.inlet? inlet | throw (.invalidPort target inlet)
  return ⟨source, outlet, target, ← resolve b out.kind port, out.kind⟩

def newCable (p : Patch F) (source : NodeId) (outlet : Nat) (target : NodeId) (inlet : PortId) :
    Traced R PatchError Cable :=
  match p.cableFor source outlet target inlet with
  | .error e => Traced.refuse e
  | .ok cable =>
    if cable ∈ p.cables then Traced.refuse .duplicateCable
    else if cable.isSignal then
      match p.wouldCycle source target with
      | .error f => Traced.fail f
      | .ok true => ⟨[.upheld Invariant.noSignalCycle], .refused .cycleDetected⟩
      | .ok false => pure cable
    else pure cable

def connect (p : Patch F) (source : NodeId) (outlet : Nat) (target : NodeId) (inlet : PortId) :
    Outcome R (Patch F) PatchError PortId :=
  (p.newCable source outlet target inlet).commit p fun cable =>
    ({ p with cables := p.cables ++ [cable] }, cable.inlet)

def appendUnchecked (p : Patch F) (cable : Cable) : Patch F :=
  { p with cables := p.cables ++ [cable] }

def copyArgs (p : Patch F) (node source : NodeId) : Option (Patch F) :=
  match p.node? node, p.node? source with
  | some a, some b => some { p with nodes := p.nodes.set node { a with args := b.args } }
  | _, _ => none

end Patch

end Patchbay
