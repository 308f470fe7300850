import Patchbay.Node.Arguments

/-!
# `send` and `receive`: the ends of a named bus

A `send` publishes what arrives on inlet 0 and is rebound on inlet 1. A `receive` has no drawn
inlet; its bus delivers to inlet 0 all the same.
-/

namespace Patchbay

structure SendArgs where
  bus : Option String
  deriving DecidableEq

structure SendState where
  bus : Option String
  deriving DecidableEq

structure ReceiveArgs where
  bus : String
  deriving DecidableEq

structure ReceiveState where
  deriving DecidableEq

namespace Send

def name : String := "send"

def topology : Topology where
  inlets := [.message 0, .message 1]
  outlets := []
  pushing := false

end Send

namespace Receive

def name : String := "receive"

def topology : Topology where
  inlets := []
  outlets := [.message 0]
  pushing := false

end Receive

variable {R : Type}

def SendState.message (s : SendState) (inlet : PortId) (msg : Message R) : Handled R SendState :=
  if inlet = .regular 1 then
    match msg.symbolAt? 0 with
    | some bus => .quiet ⟨some bus⟩
    | none => .notify s (.busNameNotSymbol Send.name msg)
  else
    match s.bus with
    | some bus => .emit s [.publish bus msg]
    | none => .notify s (.noBusBound Send.name msg)

def ReceiveState.message (s : ReceiveState) (msg : Message R) : Handled R ReceiveState :=
  .emit s [.send 0 msg]

def Send.blueprint [Sample R] : Blueprint R SendArgs SendState where
  name := Send.name
  readArgs raw := .ok ⟨busArg raw 0⟩
  build _ := pure Send.topology
  reroute _ := none
  declare args _ := pure ⟨⟨args.bus⟩, false, []⟩

def Receive.blueprint [Sample R] : Blueprint R ReceiveArgs ReceiveState where
  name := Receive.name
  readArgs raw :=
    match busArg raw 0 with
    | some bus => .ok ⟨bus⟩
    | none => .error (.invalidArguments Receive.name "missing bus name")
  build _ := pure Receive.topology
  reroute _ := none
  declare args _ := pure ⟨⟨⟩, false, [(args.bus, .regular 0)]⟩

end Patchbay
