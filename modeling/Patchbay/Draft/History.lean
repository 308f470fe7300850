import Patchbay.Draft
import Patchbay.Patch.History

/-!
# Histories of a draft

The calls that build a draft, what is left of it after any number of them, and which of them got
done with what answer.
-/

namespace Patchbay

variable {R : Type} {F : Family R}

inductive DraftCall (R : Type)
  | node (typeName : String) (args : List (Token R))
  | named (name typeName : String) (args : List (Token R))
  | get (name : String)
  | connect (source : NodeId) (outlet : Nat) (target : NodeId) (inlet : Nat)
  | wire (source : String) (outlet : Nat) (target : String) (inlet : Nat)

namespace Draft

def ofLookup (d : Draft F) (found : Except DraftError NodeId) :
    Outcome R (Draft F) DraftError NodeId :=
  match found with
  | .ok id => ⟨d, [], .done id⟩
  | .error e => .refuse d e

def perform (d : Draft F) : DraftCall R → Outcome R (Draft F) DraftError EditAnswer
  | .node typeName args => (d.node typeName args).map .node
  | .named name typeName args => (d.named name typeName args).map .node
  | .get name => (d.ofLookup (d.get name)).map .node
  | .connect source outlet target inlet => (d.connect source outlet target inlet).map .inlet
  | .wire source outlet target inlet => (d.wire source outlet target inlet).map .inlet

def after (d : Draft F) (calls : List (DraftCall R)) : Draft F :=
  calls.foldl (fun d call => (d.perform call).state) d

def done? (d : Draft F) (call : DraftCall R) : Option (DraftCall R × EditAnswer) :=
  match (d.perform call).ending with
  | .done a => some (call, a)
  | .refused _ | .faulted _ => none

/-- The calls that got done, in order, each with its answer. -/
def log : Draft F → List (DraftCall R) → List (DraftCall R × EditAnswer)
  | _, [] => []
  | d, call :: calls => (d.done? call).toList ++ log (d.perform call).state calls

end Draft

/-- How each of the changes ends, made of the patch that those before it leave behind. -/
def Patch.endings : Patch F → List (Edit F) → List (Ending PatchError EditAnswer)
  | _, [] => []
  | p, edit :: edits => (p.perform edit).ending :: endings (p.perform edit).state edits

end Patchbay
