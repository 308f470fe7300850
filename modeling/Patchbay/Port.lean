/-!
# Ports

A node meets the outside at its inlets and outlets. A port carries either one sample per tick or
discrete messages. A shadow is a message inlet that stands in for the signal inlet of the same
index.
-/

namespace Patchbay

abbrev NodeId := Nat

inductive Kind
  | signal
  | message
  deriving DecidableEq

def Kind.text : Kind → String
  | signal => "Signal"
  | message => "Message"

structure PortId where
  index : Nat
  shadow : Bool
  deriving DecidableEq

namespace PortId

def regular (index : Nat) : PortId := ⟨index, false⟩

def shadowOf (index : Nat) : PortId := ⟨index, true⟩

def text (p : PortId) : String :=
  if p.shadow then s!"{p.index}_message" else toString p.index

/-- By index, a regular port before its shadow. -/
def le (p q : PortId) : Bool :=
  p.index < q.index || p.index == q.index && (!p.shadow || q.shadow)

end PortId

structure Port where
  id : PortId
  kind : Kind
  deriving DecidableEq

namespace Port

def signal (index : Nat) : Port := ⟨.regular index, .signal⟩

def message (index : Nat) : Port := ⟨.regular index, .message⟩

def messageShadow (index : Nat) : Port := ⟨.shadowOf index, .message⟩

def isSignal (p : Port) : Bool := p.kind == .signal

end Port

/-- The ports of a node, in declaration order. `pushing` marks a node that sends on its own once it
is configured. -/
structure Topology where
  inlets : List Port
  outlets : List Port
  pushing : Bool
  deriving DecidableEq

namespace Topology

def inlet? (t : Topology) (id : PortId) : Option Port := t.inlets.find? (·.id == id)

def outlet? (t : Topology) (index : Nat) : Option Port :=
  t.outlets.find? (·.id == PortId.regular index)

def hasSignalPorts (t : Topology) : Bool := (t.inlets ++ t.outlets).any Port.isSignal

def signalWidth (ports : List Port) : Nat :=
  ((ports.filter Port.isSignal).map (·.id.index + 1)).foldr Nat.max 0

def inputWidth (t : Topology) : Nat := signalWidth t.inlets

def outputWidth (t : Topology) : Nat := signalWidth t.outlets

def distinctIds : List Port → Bool
  | [] => true
  | p :: ps => ps.all (fun q => q.id != p.id) && distinctIds ps

def uniqueIds (t : Topology) : Bool := distinctIds t.inlets && distinctIds t.outlets

def sortedInlets (t : Topology) : List PortId := (t.inlets.map (·.id)).mergeSort PortId.le

end Topology

end Patchbay
