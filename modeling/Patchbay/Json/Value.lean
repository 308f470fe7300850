/-!
# JSON values and their libraries

A value is what a document says, however it is spelled. The spelling is left to a library, of which
only a few laws are known: what it writes it reads again.
-/

namespace Patchbay.Json

structure FiniteFloat where
  value : Float
  finite : value.isFinite = true

/-- Numbers that are written as natural numbers are kept apart from all others. A number beyond the
doubles and a text with half of a surrogate pair can be stepped over, but they have no value. An
object keeps all its entries in order, also those of one name. -/
inductive Value
  | null
  | bool (b : Bool)
  | whole (n : Nat)
  | float (x : Option FiniteFloat)
  | text (s : Option (List Char))
  | array (items : List Value)
  | object (entries : List (Option (List Char) × Value))

/-- The largest number of a machine word. -/
def wordMax : Nat := Nat.pow 2 64 - 1

/-- All numbers and texts have a value, whole numbers fit a machine word, and at most `depth` arrays
and objects stand inside each other. -/
inductive Value.Written : Nat → Value → Prop
  | null {depth : Nat} : Written depth null
  | bool {depth : Nat} (b : Bool) : Written depth (bool b)
  | whole {depth n : Nat} (h : n ≤ wordMax) : Written depth (whole n)
  | float {depth : Nat} (x : FiniteFloat) : Written depth (float (some x))
  | text {depth : Nat} (s : List Char) : Written depth (text (some s))
  | array {depth : Nat} {vs : List Value} (h : ∀ v ∈ vs, Written depth v) :
    Written (depth + 1) (array vs)
  | object {depth : Nat} {es : List (Option (List Char) × Value)}
    (hkeys : ∀ e ∈ es, e.1.isSome = true) (h : ∀ e ∈ es, Written depth e.2) :
    Written (depth + 1) (object es)

structure Library where
  render : Value → String
  parse? : String → Option Value

namespace Library

def Returns (lib : Library) (v : Value) : Prop := lib.parse? (lib.render v) = some v

/-- Libraries need not read documents that nest more deeply. -/
def nesting : Nat := 127

/-- What is relied on in a library. The law for floats is that number texts are an inverse pair; the
others are those of JSON, which spells the rest of a value without loss. -/
structure Lawful (lib : Library) : Prop where
  null : lib.Returns .null
  bool : ∀ b, lib.Returns (.bool b)
  whole : ∀ n ≤ wordMax, lib.Returns (.whole n)
  float : ∀ x : FiniteFloat, lib.Returns (.float (some x))
  text : ∀ s, lib.Returns (.text (some s))
  array : ∀ (depth : Nat) (vs : List Value), depth < nesting →
    (∀ v ∈ vs, v.Written depth ∧ lib.Returns v) → lib.Returns (.array vs)
  object : ∀ (depth : Nat) (es : List (Option (List Char) × Value)), depth < nesting →
    (∀ e ∈ es, e.1.isSome = true ∧ e.2.Written depth ∧ lib.Returns e.2) → lib.Returns (.object es)

end Library

end Patchbay.Json
