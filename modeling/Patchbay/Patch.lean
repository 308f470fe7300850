import Patchbay.Catalog
import Patchbay.Invariant

/-!
# Patches

Nodes and the cables between them. A cable leads from an outlet to an inlet and carries one kind.
Signal cables never close a cycle; message cables may.
-/

namespace Patchbay

variable {R : Type} {F : Family R}

structure Cable where
  fromNode : NodeId
  outlet : Nat
  toNode : NodeId
  inlet : PortId
  kind : Kind
  deriving DecidableEq

def Cable.isSignal (c : Cable) : Bool := c.kind == .signal

def signalTargets (cables : List Cable) (node : NodeId) : List NodeId :=
  (cables.filter fun c => c.isSignal && c.fromNode == node).map (·.toNode)

structure PatchNode {R : Type} (F : Family R) where
  id : NodeId
  typeName : String
  rawArgs : List (Token R)
  args : F.Args
  topology : Topology
  type : NodeType F

/-- Node `i` of the list has the id `i`; cables stand in the order they were made. -/
structure Patch {R : Type} (F : Family R) where
  nodes : List (PatchNode F)
  cables : List Cable
  catalog : Catalog F

inductive PatchError
  | node (e : NodeError)
  | invalidNode (node : NodeId)
  | invalidPort (node : NodeId) (port : PortId)
  | kindMismatch (outlet inlet : Kind)
  | cycleDetected
  | duplicateCable
  deriving DecidableEq

def PatchError.message : PatchError → String
  | node e => e.message
  | invalidNode n => s!"no such node: NodeId({n})"
  | invalidPort n p => s!"no such port {p.text} on node NodeId({n})"
  | kindMismatch o i => s!"cannot connect {o.text} outlet to {i.text} inlet"
  | cycleDetected => "signal cycle detected"
  | duplicateCable => "connection already exists"

namespace Patch

def empty (catalog : Catalog F) : Patch F := ⟨[], [], catalog⟩

def makeNode (id : NodeId) (typeName : String) (type : NodeType F) (rawArgs : List (Token R)) :
    Traced R NodeError (PatchNode F) := do
  let args ← .ofExcept (type.readArgs rawArgs)
  let topology ← type.build args
  Invariant.check Invariant.uniquePorts topology.uniqueIds
    "Port ids must be unique within a node" (some typeName)
  return ⟨id, typeName, rawArgs, args, topology, type⟩

def push (p : Patch F) (node : PatchNode F) : Patch F × NodeId :=
  ({ p with nodes := p.nodes ++ [node] }, node.id)

def addNode (p : Patch F) (typeName : String) (rawArgs : List (Token R)) :
    Outcome R (Patch F) PatchError NodeId :=
  (Traced.mapError .node do
    let type ← .ofExcept (p.catalog.get typeName)
    makeNode p.nodes.length typeName type rawArgs).commit p p.push

def addExternal (p : Patch F) (typeName : String) (type : NodeType F) (rawArgs : List (Token R)) :
    Outcome R (Patch F) PatchError NodeId :=
  (Traced.mapError .node (makeNode p.nodes.length typeName type rawArgs)).commit p p.push

def node? (p : Patch F) (id : NodeId) : Option (PatchNode F) := p.nodes[id]?

def signalSources (p : Patch F) (node : NodeId) : List Cable :=
  p.cables.filter fun c => c.toNode == node && c.isSignal

end Patch

end Patchbay
