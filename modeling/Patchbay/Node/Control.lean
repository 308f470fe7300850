import Patchbay.Bounds
import Patchbay.Invariant
import Patchbay.Node.Arguments

/-!
# Controls

Number boxes, sliders, radios, the toggle and the atoms. Each keeps one value and sends it on outlet
0 and on its send bus. Values arrive on inlet 0, by wire or from the receive bus; both buses can be
rebound by messages.
-/

namespace Patchbay

inductive ControlKind
  | floatAtom
  | symbolAtom
  | listBox
  | numberBox
  | horizontalSlider
  | verticalSlider
  | horizontalRadio
  | verticalRadio
  | toggle
  deriving DecidableEq

inductive ControlValue (R : Type)
  | float (value : R)
  | symbol (name : String)
  | list (msg : Message R)
  deriving DecidableEq

structure ControlArgs (R : Type) where
  bounds : Option (Bounds R)
  initValue : ControlValue R
  outputOnLoad : Bool
  receiveBus : Option String
  sendBus : Option String
  deriving DecidableEq

inductive Store (R : Type)
  | float (value : R) (bounds : Option (Bounds R))
  | toggle (value max : R)
  | symbol (name : String)
  | list (msg : Message R)
  deriving DecidableEq

structure ControlState (R : Type) where
  kind : ControlKind
  store : Store R
  sendBus : Option String
  receiveBus : Option String
  deriving DecidableEq

namespace ControlKind

def all : List ControlKind :=
  [floatAtom, symbolAtom, listBox, numberBox, horizontalSlider, verticalSlider, horizontalRadio,
    verticalRadio, toggle]

def name : ControlKind → String
  | floatAtom => "floatatom"
  | symbolAtom => "symbolatom"
  | listBox => "listbox"
  | numberBox => "nbx"
  | horizontalSlider => "hsl"
  | verticalSlider => "vsl"
  | horizontalRadio => "hradio"
  | verticalRadio => "vradio"
  | toggle => "tgl"

end ControlKind

def ControlValue.message {R : Type} : ControlValue R → Message R
  | float v => .ofFloat v
  | symbol s => .ofSymbol s
  | list m => m

/-! ## Construction arguments -/

namespace Control

variable {R : Type} [Sample R]

def boundArgOr (raw : List (Token R)) (i : Nat) (nodeType : String) (default : R) :
    Except NodeError R := do
  match ← floatArg raw i nodeType with
  | none => return default
  | some v =>
    if Sample.isFinite v then return v
    else
      let shown := Sample.text v
      throw (.invalidArguments nodeType s!"argument {i} must be a finite bound, got {shown}")

/-- The arguments from the on-load flag on: flag, initial value, receive bus, send bus. -/
def loadedArgs (raw : List (Token R)) (i : Nat) (nodeType : String) (bounds : Bounds R) :
    Except NodeError (ControlArgs R) := do
  let load := !((← floatArgOr raw i nodeType 0) == 0)
  let init ← floatArgOr raw (i + 1) nodeType 0
  return ⟨some bounds, .float (if load then init else 0), load, busArg raw (i + 2),
    busArg raw (i + 3)⟩

def sliderArgs (raw : List (Token R)) (nodeType : String) (top : Nat) :
    Except NodeError (ControlArgs R) := do
  let a ← boundArgOr raw 0 nodeType 0
  let b ← boundArgOr raw 1 nodeType (top : R)
  loadedArgs raw 2 nodeType (.between a b)

def switchArgs (raw : List (Token R)) (nodeType : String) (top : Nat) :
    Except NodeError (ControlArgs R) := do
  loadedArgs raw 1 nodeType (.between 0 (← boundArgOr raw 0 nodeType (top : R)))

/-- Two bounds and two buses; only the float atom heeds the bounds, and none if both are zero. -/
def atomArgs (raw : List (Token R)) (nodeType : String) (bounded : Bool) (init : ControlValue R) :
    Except NodeError (ControlArgs R) := do
  let a ← boundArgOr raw 0 nodeType 0
  let b ← boundArgOr raw 1 nodeType 0
  let bounds := if bounded && (!(a == 0) || !(b == 0)) then some (Bounds.between a b) else none
  return ⟨bounds, init, false, busArg raw 2, busArg raw 3⟩

def readArgs (kind : ControlKind) (raw : List (Token R)) : Except NodeError (ControlArgs R) :=
  match kind with
  | .numberBox | .horizontalSlider | .verticalSlider => sliderArgs raw kind.name 127
  | .horizontalRadio | .verticalRadio => switchArgs raw kind.name 7
  | .toggle => switchArgs raw kind.name 1
  | .floatAtom => atomArgs raw kind.name true (.float 0)
  | .symbolAtom => atomArgs raw kind.name false (.symbol "")
  | .listBox => atomArgs raw kind.name false (.list .bang)

end Control

/-! ## Values -/

namespace Store

variable {R : Type}

def message : Store R → Message R
  | float v _ => .ofFloat v
  | toggle v _ => .ofFloat v
  | symbol s => .ofSymbol s
  | list m => m

variable [Sample R]

def accept? : Store R → Message R → Option (Store R)
  | float _ bounds, msg =>
    msg.singleFloat?.map fun v => float (match bounds with | some b => b.clamp v | none => v) bounds
  | toggle _ max, msg => msg.singleFloat?.map fun v => toggle v max
  | symbol _, msg =>
    (if msg.length = 1 then msg.symbolAt? 0
      else if msg.length = 2 && msg.startsWith "symbol" then msg.symbolAt? 1
      else none).map symbol
  | list _, msg => if msg.isEmpty then none else some (list msg)

/-- A bang flips the toggle between zero and its top, and leaves other values alone. -/
def onBang : Store R → Store R
  | toggle v max => toggle (if v == 0 then max else 0) max
  | s => s

def inBounds : Store R → Bool
  | float v (some b) => b.contains v
  | _ => true

end Store

/-! ## Instances -/

namespace Control

variable {R : Type} [Sample R]

def topology (args : ControlArgs R) : Topology where
  inlets := [.message 0]
  outlets := [.message 0]
  pushing := args.outputOnLoad

def startStore (kind : ControlKind) (args : ControlArgs R) : Traced R NodeError (Store R) :=
  match args.initValue with
  | .float v =>
    if kind = .toggle then
      pure (.toggle v (match args.bounds with | some b => b.max | none => 1))
    else do
      let store : Store R :=
        .float (match args.bounds with | some b => b.clamp v | none => v) args.bounds
      Invariant.check Invariant.controlInBounds store.inBounds
        "Initial control value must lie within bounds" (some kind.name)
      return store
  | .symbol s => pure (.symbol s)
  | .list m => pure (.list m)

def declare (kind : ControlKind) (args : ControlArgs R) :
    Traced R NodeError (Declared (ControlState R)) := do
  let store ← startStore kind args
  return ⟨⟨kind, store, args.sendBus, args.receiveBus⟩, args.outputOnLoad,
    args.receiveBus.toList.map fun bus => (bus, .regular 0)⟩

inductive Command (R : Type)
  | bang
  | bindSend (bus : Option String)
  | bindReceive (bus : Option String)
  | set (payload : Message R)
  | value (payload : Message R)

def rebindTarget? (msg : Message R) : Option (Option String) :=
  if msg.length ≠ 2 then none
  else msg[1]?.map fun
    | .symbol s => if s == "empty" then none else some s
    | t => some t.text

def Command.ofMessage (msg : Message R) : Command R :=
  if msg.isBang then .bang
  else match (if msg.startsWith "send" then rebindTarget? msg else none) with
    | some bus => .bindSend bus
    | none =>
      match (if msg.startsWith "receive" then rebindTarget? msg else none) with
      | some bus => .bindReceive bus
      | none => if msg.startsWith "set" && msg.length > 1 then .set msg.shift else .value msg

end Control

namespace ControlState

variable {R : Type}

/-- A control that listens to its own send bus would feed itself, so it does not publish there. -/
def emissions (s : ControlState R) : List (Emission R) :=
  .send 0 s.store.message ::
    match s.sendBus with
    | some bus => if some bus = s.receiveBus then [] else [.publish bus s.store.message]
    | none => []

def rebindReceive (s : ControlState R) (bus : Option String) : Handled R (ControlState R) :=
  .emit { s with receiveBus := bus }
    ((s.receiveBus.toList.map fun old => Emission.unsubscribe old (.regular 0)) ++
      bus.toList.map fun new => Emission.subscribe new (.regular 0))

def configure (s : ControlState R) : Handled R (ControlState R) :=
  ⟨s, s.emissions, [.outputOnLoad s.kind.name s.store.message], none⟩

variable [Sample R]

def settle (s : ControlState R) (store : Store R) : Handled R (ControlState R) :=
  if store.inBounds then .quiet { s with store := store }
  else ⟨s, [], [], some .outOfBounds⟩

def message (s : ControlState R) (inlet : PortId) (msg : Message R) : Handled R (ControlState R) :=
  if inlet ≠ .regular 0 then .notify s (.dropped s.kind.name (some inlet) msg)
  else match Control.Command.ofMessage msg with
    | .bang =>
      let s' := { s with store := s.store.onBang }
      .emit s' s'.emissions
    | .bindSend bus => .quiet { s with sendBus := bus }
    | .bindReceive bus => s.rebindReceive bus
    | .set payload =>
      match s.store.accept? payload with
      | some store => s.settle store
      | none => .notify s (.invalidSet s.kind.name msg)
    | .value payload =>
      match s.store.accept? payload with
      | some store =>
        let h := s.settle store
        { h with emissions := if h.fault.isNone then h.state.emissions else [] }
      | none => .notify s (.dropped s.kind.name none msg)

end ControlState

def ControlKind.blueprint {R : Type} [Sample R] (kind : ControlKind) :
    Blueprint R (ControlArgs R) (ControlState R) where
  name := kind.name
  readArgs := Control.readArgs kind
  build args := pure (Control.topology args)
  reroute _ := none
  declare args _ := Control.declare kind args

end Patchbay
