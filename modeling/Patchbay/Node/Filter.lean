import Patchbay.Node.Arguments

/-!
# One-pole and one-zero filters

Five filters over one skeleton: a coefficient, the previous input and the previous output. They
differ in the formula of a tick and in how a user value becomes the coefficient. The value comes
from signal inlet 1 when that is wired, and else from messages on its shadow.
-/

namespace Patchbay

inductive FilterKind
  | rpole
  | rzero
  | rzeroRev
  | lop
  | hip
  deriving DecidableEq

structure FilterArgs (R : Type) where
  initValue : R
  deriving DecidableEq

inductive FilterMode
  | signal
  | message
  deriving DecidableEq

structure FilterState (R : Type) where
  kind : FilterKind
  mode : FilterMode
  initValue : R
  coefficient : R
  lastInput : R
  lastOutput : R
  deriving DecidableEq

namespace FilterKind

def all : List FilterKind := [rpole, rzero, rzeroRev, lop, hip]

def name : FilterKind → String
  | rpole => "rpole~"
  | rzero => "rzero~"
  | rzeroRev => "rzero_rev~"
  | lop => "lop~"
  | hip => "hip~"

variable {R : Type} [Sample R]

/-- The output for input `x` and coefficient `c` after input `x₁` and output `y₁`. -/
def recurrence : FilterKind → (x c x₁ y₁ : R) → R
  | rpole, x, c, _, y₁ => x + c * y₁
  | rzero, x, c, x₁, _ => x - c * x₁
  | rzeroRev, x, c, x₁, _ => x₁ - c * x
  | lop, x, c, _, y₁ => y₁ + c * (x - y₁)
  | hip, x, c, x₁, y₁ => c * (y₁ + x - x₁)

/-- The coefficient for a user value; for the last two the value is a cutoff frequency. -/
def coefficient : FilterKind → (value sampleRate : R) → R
  | lop, f, rate => Sample.confine 0 1 (Sample.larger f 0 * Sample.turn / rate)
  | hip, f, rate => Sample.confine 0 1 (1 - Sample.larger f 0 * Sample.turn / rate)
  | _, v, _ => v

end FilterKind

namespace Filter

variable {R : Type}

def topology : Topology where
  inlets := [.signal 0, .signal 1, .messageShadow 1]
  outlets := [.signal 0]
  pushing := false

def reroute (inlet : PortId) : Option PortId :=
  if inlet = .regular 1 then some (.shadowOf 1) else none

variable [Sample R]

def declare (kind : FilterKind) (args : FilterArgs R) (wired : Wired) : Declared (FilterState R) :=
  let mode : FilterMode := if wired.hasSource 1 then .signal else .message
  ⟨⟨kind, mode, args.initValue, 0, 0, 0⟩, mode == .message, []⟩

def setting? (msg : Message R) : Option R :=
  if msg.isSingleFloat then msg.floatAt? 0
  else if msg.length = 2 && msg.startsWith "set" then msg.floatAt? 1
  else none

end Filter

namespace FilterState

variable {R : Type} [Sample R]

def configure (s : FilterState R) (rate : R) : Handled R (FilterState R) :=
  .quiet { s with coefficient := s.kind.coefficient s.initValue rate }

def step (s : FilterState R) (x c : R) : FilterState R :=
  { s with lastInput := x, lastOutput := s.kind.recurrence x c s.lastInput s.lastOutput }

/-- The coefficient in force at a tick; in signal mode inlet 1 has to be there. -/
def coefficient? (s : FilterState R) (inputs : List R) (rate : R) : Option R :=
  match s.mode with
  | .signal => inputs[1]?.map fun v => s.kind.coefficient v rate
  | .message => some s.coefficient

def tick (s : FilterState R) (inputs outputs : List R) (rate : R) : Ticked R (FilterState R) :=
  match inputs[0]?, s.coefficient? inputs rate with
  | some x, some c =>
    let s' := s.step x c
    .write s' outputs s'.lastOutput
  | _, _ => .fail s outputs

def message (s : FilterState R) (inlet : PortId) (msg : Message R) (rate : R) :
    Handled R (FilterState R) :=
  if inlet ≠ .shadowOf 1 || s.mode ≠ .message then .notify s (.dropped s.kind.name (some inlet) msg)
  else match Filter.setting? msg with
    | some v => .quiet { s with coefficient := s.kind.coefficient v rate }
    | none => .notify s (.unexpectedCoefficient s.kind.name msg)

end FilterState

def FilterKind.blueprint {R : Type} [Sample R] (kind : FilterKind) :
    Blueprint R (FilterArgs R) (FilterState R) where
  name := kind.name
  readArgs raw := (floatArgOr raw 0 kind.name 0).map FilterArgs.mk
  build _ := pure Filter.topology
  reroute := Filter.reroute
  declare args wired := pure (Filter.declare kind args wired)

end Patchbay
