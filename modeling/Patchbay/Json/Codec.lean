import Patchbay.Json.Text

/-!
# Types with a JSON form

A record is an object with its fields in order; it is also read from an array of them. A choice is
an object with the chosen name as its only key, or just the name where nothing goes with it.
-/

namespace Patchbay.Json

/-- A type that is written as JSON and read back. `absent` stands for a missing field. -/
class Codec (α : Type) where
  encode : α → Value
  decode? : Value → Option α
  absent : Option α

open Codec

variable {α β : Type}

def Value.ofString (s : String) : Value := .text (some s.toList)

namespace Library

variable (lib : Library)

def write [Codec α] (a : α) : String := lib.render (encode a)

def read? [Codec α] (s : String) : Option α := (lib.parse? s).bind decode?

end Library

def write [Codec α] (a : α) : String := Library.plain.write a

def read? [Codec α] (s : String) : Option α := Library.plain.read? s

/-! ## Records -/

def entriesNamed (name : String) (entries : List (Option (List Char) × Value)) : List Value :=
  (entries.filter fun e => e.1 = some name.toList).map (·.2)

/-- The values of the named fields. In an object each may stand once, in any place, among others
that are passed over. An array gives them in order, and all of them unless it may be `short`. -/
def fields? (short : Bool) (names : List String) : Value → Option (List (Option Value))
  | .object entries =>
    if entries.all (·.1.isSome) && names.all fun n => (entriesNamed n entries).length ≤ 1 then
      some (names.map fun n => (entriesNamed n entries).head?)
    else none
  | .array items =>
    if items.length = names.length || short && items.length < names.length then
      some ((List.range names.length).map fun i => items[i]?)
    else none
  | _ => none

def fieldOr [Codec α] (missing : Option α) : Option Value → Option α
  | some v => decode? v
  | none => missing

def field? [Codec α] : Option Value → Option α := fieldOr absent

def record (fields : List (String × Value)) : Value :=
  .object (fields.map fun (name, v) => (some name.toList, v))

/-! ## Choices -/

def choice (name : String) (v : Value) : Value := .object [(some name.toList, v)]

def choice? : Value → Option (String × Option Value)
  | .text (some s) => some (String.ofList s, none)
  | .object [(some s, v)] => some (String.ofList s, some v)
  | _ => none

/-- The name of a choice that nothing goes with; `null` may stand for the nothing. -/
def bareChoice? (v : Value) : Option String :=
  match choice? v with
  | some (name, none) => some name
  | some (name, some .null) => some name
  | _ => none

def fullChoice? (v : Value) : Option (String × Value) :=
  match choice? v with
  | some (name, some w) => some (name, w)
  | _ => none

/-! ## Plain types -/

/-- What is not finite cannot be written and becomes `null`. A whole number is read as the double
nearest to it. -/
instance : Codec Float where
  encode x := if h : x.isFinite then .float (some ⟨x, h⟩) else .null
  decode?
    | .float x => x.map FiniteFloat.value
    | .whole n => Decimal.toFloat? ⟨n, 0⟩
    | _ => none
  absent := none

instance : Codec Nat where
  encode := .whole
  decode?
    | .whole n => if n ≤ wordMax then some n else none
    | _ => none
  absent := none

instance : Codec Bool where
  encode := .bool
  decode?
    | .bool b => some b
    | _ => none
  absent := none

instance : Codec String where
  encode := .ofString
  decode?
    | .text s => s.map String.ofList
    | _ => none
  absent := none

/-- A field that is missing is the same as one that is `null`. -/
instance [Codec α] : Codec (Option α) where
  encode
    | some a => encode a
    | none => .null
  decode?
    | .null => some none
    | v => (decode? v).map some
  absent := some none

instance [Codec α] : Codec (List α) where
  encode as := .array (as.map encode)
  decode?
    | .array vs => vs.mapM decode?
    | _ => none
  absent := none

end Patchbay.Json
