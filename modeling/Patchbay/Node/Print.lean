import Patchbay.Node.Arguments

/-! # `print`: every message is logged behind a label -/

namespace Patchbay

structure PrintArgs where
  label : String
  deriving DecidableEq

structure PrintState where
  label : String
  deriving DecidableEq

namespace Print

def name : String := "print"

/-- The words of the arguments and a colon; a lone `-n` asks for no label. -/
def labelOf {R : Type} [Sample R] : List (Token R) → String
  | [] => "print:"
  | [.symbol "-n"] => ""
  | raw => Message.text raw ++ ":"

def topology : Topology where
  inlets := [.message 0]
  outlets := []
  pushing := false

end Print

def PrintState.message {R : Type} (s : PrintState) (msg : Message R) : Handled R PrintState :=
  .notify s (.printed s.label msg)

def Print.blueprint {R : Type} [Sample R] : Blueprint R PrintArgs PrintState where
  name := Print.name
  readArgs raw := .ok ⟨Print.labelOf raw⟩
  build _ := pure Print.topology
  reroute _ := none
  declare args _ := pure ⟨⟨args.label⟩, false, []⟩

end Patchbay
