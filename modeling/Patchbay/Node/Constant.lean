import Patchbay.Node.Arguments

/-! # `sig~`: a constant signal, changed by messages -/

namespace Patchbay

structure ConstantArgs (R : Type) where
  initValue : R
  deriving DecidableEq

structure ConstantState (R : Type) where
  value : R
  deriving DecidableEq

namespace Constant

def name : String := "sig~"

def topology : Topology where
  inlets := [.message 0]
  outlets := [.signal 0]
  pushing := false

end Constant

namespace ConstantState

variable {R : Type}

def tick (s : ConstantState R) (outputs : List R) : Ticked R (ConstantState R) :=
  .write s outputs s.value

def message (s : ConstantState R) (msg : Message R) : Handled R (ConstantState R) :=
  match msg.singleFloat? with
  | some v => .quiet ⟨v⟩
  | none => .notify s (.dropped Constant.name none msg)

end ConstantState

def Constant.blueprint {R : Type} [Sample R] : Blueprint R (ConstantArgs R) (ConstantState R) where
  name := Constant.name
  readArgs raw := (floatArgOr raw 0 Constant.name 0).map ConstantArgs.mk
  build _ := pure Constant.topology
  reroute _ := none
  declare args _ := pure ⟨⟨args.initValue⟩, false, []⟩

end Patchbay
