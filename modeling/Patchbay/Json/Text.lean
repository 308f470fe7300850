import Patchbay.Decimal.Nearest
import Patchbay.Json.Lexeme
import Patchbay.Json.Value

/-!
# JSON texts

A library of its own for values and their texts. Numbers are read as the nearest double, and
documents may nest as deeply as they like.
-/

namespace Patchbay.Json

def FiniteFloat.of? (x : Float) : Option FiniteFloat := if h : x.isFinite then some ⟨x, h⟩ else none

namespace Value

/-! ## Reading -/

/-- The number that a numeral stands for. Only one without point, exponent and sign is whole. -/
def ofNumeral (n : Numeral) : Value :=
  match n.toNat?.filter (· ≤ wordMax) with
  | some k => whole k
  | none => float (n.toFloat?.bind FiniteFloat.of?)

mutual

/-- The value that a list of lexemes starts with, and what follows it. `bound` limits the nesting
together with the number of items. -/
def first? : Nat → List Lexeme → Option (Value × List Lexeme)
  | 0, _ => none
  | bound + 1, ls =>
    match ls with
    | .null :: rest => some (null, rest)
    | .bool b :: rest => some (bool b, rest)
    | .number n :: rest => some (ofNumeral n, rest)
    | .text s :: rest => some (text s, rest)
    | .openArray :: .closeArray :: rest => some (array [], rest)
    | .openArray :: rest => (items? bound rest).map fun (vs, rest') => (array vs, rest')
    | .openObject :: .closeObject :: rest => some (object [], rest)
    | .openObject :: rest => (entries? bound rest).map fun (es, rest') => (object es, rest')
    | _ => none

def items? : Nat → List Lexeme → Option (List Value × List Lexeme)
  | 0, _ => none
  | bound + 1, ls =>
    match first? bound ls with
    | some (v, .comma :: rest) => (items? bound rest).map fun (vs, rest') => (v :: vs, rest')
    | some (v, .closeArray :: rest) => some ([v], rest)
    | _ => none

def entries? : Nat → List Lexeme → Option (List (Option (List Char) × Value) × List Lexeme)
  | 0, _ => none
  | bound + 1, ls =>
    match ls with
    | .text k :: .colon :: ls' =>
      match first? bound ls' with
      | some (v, .comma :: rest) =>
        (entries? bound rest).map fun (es, rest') => ((k, v) :: es, rest')
      | some (v, .closeObject :: rest) => some ([(k, v)], rest)
      | _ => none
    | _ => none

end

def ofLexemes? (ls : List Lexeme) : Option Value :=
  match first? (2 * ls.length + 1) ls with
  | some (v, []) => some v
  | _ => none

def parse? (s : String) : Option Value := (Lexeme.read s.toList).bind ofLexemes?

/-! ## Writing -/

mutual

def lexemes : Value → List Lexeme
  | null => [.null]
  | bool b => [.bool b]
  | whole n => [.number (.ofNat n)]
  | float none => [.null]
  | float (some x) => [.number (.ofFloat .json x.value)]
  | text s => [.text s]
  | array vs => .openArray :: itemLexemes vs ++ [.closeArray]
  | object es => .openObject :: entryLexemes es ++ [.closeObject]

def itemLexemes : List Value → List Lexeme
  | [] => []
  | [v] => v.lexemes
  | v :: vs => v.lexemes ++ .comma :: itemLexemes vs

def entryLexemes : List (Option (List Char) × Value) → List Lexeme
  | [] => []
  | [(k, v)] => .text k :: .colon :: v.lexemes
  | (k, v) :: es => .text k :: .colon :: v.lexemes ++ .comma :: entryLexemes es

end

def render (v : Value) : String := String.ofList (v.lexemes.flatMap Lexeme.chars)

end Value

def Library.plain : Library := ⟨Value.render, Value.parse?⟩

end Patchbay.Json
