import Patchbay.Patch.Connect

/-! # Drafts: patches under construction, with names for nodes -/

namespace Patchbay

variable {R : Type} {F : Family R}

structure Draft {R : Type} (F : Family R) where
  patch : Patch F
  names : Std.TreeMap String NodeId

inductive DraftError
  | patch (e : PatchError)
  | missingNode (name : String)
  | duplicateName (name : String)
  deriving DecidableEq

def DraftError.message : DraftError → String
  | patch e => e.message
  | missingNode name => "no node named " ++ Text.quoted name
  | duplicateName name => "node name " ++ Text.quoted name ++ " is already used"

namespace Draft

def ofPatch (p : Patch F) : Draft F := ⟨p, ∅⟩

def onPatch {α : Type} (d : Draft F) (o : Outcome R (Patch F) PatchError α) :
    Outcome R (Draft F) DraftError α :=
  o.embed (fun p => { d with patch := p }) .patch

def node (d : Draft F) (typeName : String) (args : List (Token R)) :
    Outcome R (Draft F) DraftError NodeId :=
  d.onPatch (d.patch.addNode typeName args)

/-- A name in use is refused before the node is made. -/
def named (d : Draft F) (name typeName : String) (args : List (Token R)) :
    Outcome R (Draft F) DraftError NodeId :=
  if d.names.contains name then .refuse d (.duplicateName name)
  else
    let o := d.node typeName args
    match o.ending with
    | .done id => { o with state := { o.state with names := o.state.names.insert name id } }
    | .refused _ | .faulted _ => o

def get (d : Draft F) (name : String) : Except DraftError NodeId :=
  match d.names[name]? with
  | some id => .ok id
  | none => .error (.missingNode name)

def connect (d : Draft F) (source : NodeId) (outlet : Nat) (target : NodeId) (inlet : Nat) :
    Outcome R (Draft F) DraftError PortId :=
  d.onPatch (d.patch.connect source outlet target (.regular inlet))

def wire (d : Draft F) (source : String) (outlet : Nat) (target : String) (inlet : Nat) :
    Outcome R (Draft F) DraftError PortId :=
  match d.get source, d.get target with
  | .ok a, .ok b => d.connect a outlet b inlet
  | .error e, _ => .refuse d e
  | .ok _, .error e => .refuse d e

end Draft

end Patchbay
