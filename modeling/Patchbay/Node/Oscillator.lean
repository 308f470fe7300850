import Patchbay.Node.Arguments

/-!
# Oscillators

A phase that advances every tick by the frequencies on inlet 0 and from messages, divided by the
sample rate. The phase is read out before it advances, and it is never wrapped.
-/

namespace Patchbay

inductive OscillatorKind
  | cosine
  | ramp
  deriving DecidableEq

structure OscillatorArgs (R : Type) where
  frequency : R
  deriving DecidableEq

structure OscillatorState (R : Type) where
  kind : OscillatorKind
  phase : R
  frequency : R
  deriving DecidableEq

namespace OscillatorKind

def all : List OscillatorKind := [cosine, ramp]

def name : OscillatorKind → String
  | cosine => "osc~"
  | ramp => "phasor~"

def shape {R : Type} [Sample R] : OscillatorKind → R → R
  | cosine, phase => Sample.cos (Sample.turn * phase)
  | ramp, phase => phase

end OscillatorKind

namespace Oscillator

def topology : Topology where
  inlets := [.signal 0, .messageShadow 0, .message 1]
  outlets := [.signal 0]
  pushing := false

def reroute (inlet : PortId) : Option PortId :=
  if inlet = .regular 0 then some (.shadowOf 0) else none

/-- The construction frequency only counts while no signal is wired to inlet 0. -/
def declare {R : Type} [Sample R] (kind : OscillatorKind) (args : OscillatorArgs R)
    (wired : Wired) : Declared (OscillatorState R) :=
  ⟨⟨kind, 0, if wired.hasSource 0 then 0 else args.frequency⟩, false, []⟩

end Oscillator

namespace OscillatorState

variable {R : Type} [Sample R]

def output (s : OscillatorState R) : R := s.kind.shape s.phase

def advance (s : OscillatorState R) (frequency rate : R) : OscillatorState R :=
  { s with phase := s.phase + frequency / rate + s.frequency / rate }

def tick (s : OscillatorState R) (inputs outputs : List R) (rate : R) :
    Ticked R (OscillatorState R) :=
  let written : Ticked R (OscillatorState R) := .write s outputs s.output
  match written.fault, inputs[0]? with
  | none, some f => { written with state := s.advance f rate }
  | none, none => .fail s written.outputs
  | some _, _ => written

def message (s : OscillatorState R) (inlet : PortId) (msg : Message R) :
    Handled R (OscillatorState R) :=
  match msg.singleFloat? with
  | some v =>
    if inlet = .shadowOf 0 then .quiet { s with frequency := v }
    else if inlet = .regular 1 then .quiet { s with phase := v }
    else .notify s (.dropped s.kind.name (some inlet) msg)
  | none => .notify s (.dropped s.kind.name (some inlet) msg)

end OscillatorState

def OscillatorKind.blueprint {R : Type} [Sample R] (kind : OscillatorKind) :
    Blueprint R (OscillatorArgs R) (OscillatorState R) where
  name := kind.name
  readArgs raw := (floatArgOr raw 0 kind.name 0).map OscillatorArgs.mk
  build _ := pure Oscillator.topology
  reroute := Oscillator.reroute
  declare args wired := pure (Oscillator.declare kind args wired)

end Patchbay
