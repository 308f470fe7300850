import Patchbay.Node
import Patchbay.Text.Quoted

/-! # Construction arguments -/

namespace Patchbay

variable {R : Type}

def floatArg (raw : List (Token R)) (i : Nat) (nodeType : String) : Except NodeError (Option R) :=
  match raw[i]? with
  | none => .ok none
  | some (.float v) => .ok (some v)
  | some (.symbol s) =>
    let shown := Text.quoted s
    .error (.invalidArguments nodeType s!"argument {i} must be a number, got {shown}")

def floatArgOr (raw : List (Token R)) (i : Nat) (nodeType : String) (default : R) :
    Except NodeError R :=
  (floatArg raw i nodeType).map (·.getD default)

/-- The bus named at a position. No argument, the empty name and the word `empty` leave it
unbound. -/
def busArg [Sample R] (raw : List (Token R)) (i : Nat) : Option String :=
  match raw[i]? with
  | none => none
  | some (.symbol s) => if s == "empty" || s.isEmpty then none else some s
  | some t => some t.text

end Patchbay
