import Patchbay.Sample

/-!
# Tokens and messages

A message is a finite sequence of tokens, each a number or a symbol. The message `bang` is the
single symbol of that name.
-/

namespace Patchbay

inductive Token (R : Type)
  | float (value : R)
  | symbol (name : String)
  deriving DecidableEq

namespace Token

variable {R : Type}

def float? : Token R → Option R
  | float v => some v
  | symbol _ => none

def symbol? : Token R → Option String
  | float _ => none
  | symbol s => some s

def isFloat (t : Token R) : Bool := t.float?.isSome

def isSymbol (t : Token R) : Bool := t.symbol?.isSome

variable [Sample R]

def text : Token R → String
  | float v => Sample.text v
  | symbol s => s

/-- Floats are compared as samples, so one that is no number differs from itself. -/
def same : Token R → Token R → Bool
  | float a, float b => a == b
  | symbol a, symbol b => a == b
  | _, _ => false

end Token

abbrev Message (R : Type) := List (Token R)

namespace Message

variable {R : Type}

def bang : Message R := [.symbol "bang"]

def ofFloat (v : R) : Message R := [.float v]

def ofSymbol (s : String) : Message R := [.symbol s]

def isFloatAt (m : Message R) (i : Nat) : Bool := m[i]?.any Token.isFloat

def isSymbolAt (m : Message R) (i : Nat) : Bool := m[i]?.any Token.isSymbol

def floatAt? (m : Message R) (i : Nat) : Option R := m[i]?.bind Token.float?

def symbolAt? (m : Message R) (i : Nat) : Option String := m[i]?.bind Token.symbol?

def isBang (m : Message R) : Bool := m.length == 1 && symbolAt? m 0 == some "bang"

def isSingleFloat (m : Message R) : Bool := m.length == 1 && isFloatAt m 0

def singleFloat? (m : Message R) : Option R := if isSingleFloat m then floatAt? m 0 else none

def startsWith (m : Message R) (word : String) : Bool := symbolAt? m 0 == some word

def shift (m : Message R) : Message R := m.drop 1

def emptyToBang (m : Message R) : Message R := if m.isEmpty then bang else m

variable [Sample R]

def text (m : Message R) : String := " ".intercalate (m.map Token.text)

def same : Message R → Message R → Bool
  | [], [] => true
  | a :: as, b :: bs => a.same b && same as bs
  | _, _ => false

end Message

end Patchbay
