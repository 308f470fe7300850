import Patchbay.Patch.Connect

/-!
# Histories of a patch

The changes that can be asked of a patch, and what is left of it after any number of them, whether
they were made or not.
-/

namespace Patchbay

variable {R : Type} {F : Family R}

inductive Edit {R : Type} (F : Family R)
  | add (typeName : String) (rawArgs : List (Token R))
  | addExternal (typeName : String) (type : NodeType F) (rawArgs : List (Token R))
  | connect (source : NodeId) (outlet : Nat) (target : NodeId) (inlet : PortId)

inductive EditAnswer
  | node (id : NodeId)
  | inlet (port : PortId)
  deriving DecidableEq

/-- The change brings in no type from outside the catalog. -/
def Edit.fromCatalog : Edit F → Bool
  | add .. | connect .. => true
  | addExternal .. => false

namespace Patch

def perform (p : Patch F) : Edit F → Outcome R (Patch F) PatchError EditAnswer
  | .add typeName rawArgs => (p.addNode typeName rawArgs).map .node
  | .addExternal typeName type rawArgs => (p.addExternal typeName type rawArgs).map .node
  | .connect source outlet target inlet => (p.connect source outlet target inlet).map .inlet

def after (p : Patch F) (edits : List (Edit F)) : Patch F :=
  edits.foldl (fun p edit => (p.perform edit).state) p

end Patch

end Patchbay
