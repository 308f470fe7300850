import Patchbay.Node.BusEnds
import Patchbay.Node.Constant
import Patchbay.Node.Control
import Patchbay.Node.Filter
import Patchbay.Node.Oscillator
import Patchbay.Node.Print
import Patchbay.Node.Route

/-! # The family of the built-in node types -/

namespace Patchbay

inductive StandardArgs (R : Type)
  | filter (a : FilterArgs R)
  | oscillator (a : OscillatorArgs R)
  | constant (a : ConstantArgs R)
  | control (a : ControlArgs R)
  | route (a : RouteArgs R)
  | print (a : PrintArgs)
  | send (a : SendArgs)
  | receive (a : ReceiveArgs)
  deriving DecidableEq

inductive StandardState (R : Type)
  | filter (s : FilterState R)
  | oscillator (s : OscillatorState R)
  | constant (s : ConstantState R)
  | control (s : ControlState R)
  | route (s : RouteState R)
  | print (s : PrintState)
  | send (s : SendState)
  | receive (s : ReceiveState)
  deriving DecidableEq

namespace StandardState

variable {R : Type} [Sample R]

/-- Only filters and controls ever ask for the callback; for the others it does nothing. -/
def configure : StandardState R → R → Handled R (StandardState R)
  | filter s, rate => (s.configure rate).map filter
  | control s, _ => s.configure.map control
  | s, _ => .quiet s

def tick : StandardState R → List R → List R → R → Ticked R (StandardState R)
  | filter s, inputs, outputs, rate => (s.tick inputs outputs rate).map filter
  | oscillator s, inputs, outputs, rate => (s.tick inputs outputs rate).map oscillator
  | constant s, _, outputs, _ => (s.tick outputs).map constant
  | s, _, outputs, _ => .idle s outputs

def message : StandardState R → PortId → Message R → R → Handled R (StandardState R)
  | filter s, inlet, msg, rate => (s.message inlet msg rate).map filter
  | oscillator s, inlet, msg, _ => (s.message inlet msg).map oscillator
  | constant s, _, msg, _ => (s.message msg).map constant
  | control s, inlet, msg, _ => (s.message inlet msg).map control
  | route s, inlet, msg, _ => (s.message inlet msg).map route
  | print s, _, msg, _ => (s.message msg).map print
  | send s, inlet, msg, _ => (s.message inlet msg).map send
  | receive s, _, msg, _ => (s.message msg).map receive

end StandardState

@[reducible] def standard (R : Type) [Sample R] : Family R where
  Args := StandardArgs R
  State := StandardState R
  configure := StandardState.configure
  tick := StandardState.tick
  message := StandardState.message

namespace Standard

variable {R : Type} [Sample R]

def filter (kind : FilterKind) : NodeType (standard R) :=
  kind.blueprint.inFamily (standard R) .filter (fun | .filter a => some a | _ => none) .filter

def oscillator (kind : OscillatorKind) : NodeType (standard R) :=
  kind.blueprint.inFamily (standard R) .oscillator (fun | .oscillator a => some a | _ => none)
    .oscillator

def constant : NodeType (standard R) :=
  Constant.blueprint.inFamily (standard R) .constant (fun | .constant a => some a | _ => none)
    .constant

def control (kind : ControlKind) : NodeType (standard R) :=
  kind.blueprint.inFamily (standard R) .control (fun | .control a => some a | _ => none) .control

def route : NodeType (standard R) :=
  Route.blueprint.inFamily (standard R) .route (fun | .route a => some a | _ => none) .route

def print : NodeType (standard R) :=
  Print.blueprint.inFamily (standard R) .print (fun | .print a => some a | _ => none) .print

def send : NodeType (standard R) :=
  Send.blueprint.inFamily (standard R) .send (fun | .send a => some a | _ => none) .send

def receive : NodeType (standard R) :=
  Receive.blueprint.inFamily (standard R) .receive (fun | .receive a => some a | _ => none) .receive

def types : List (String × NodeType (standard R)) :=
  (FilterKind.all.map fun k => (k.name, filter k)) ++
  (OscillatorKind.all.map fun k => (k.name, oscillator k)) ++
  (ControlKind.all.map fun k => (k.name, control k)) ++
  [(Route.name, route), (Print.name, print), (Send.name, send), (Receive.name, receive),
    (Constant.name, constant)]

end Standard

end Patchbay
