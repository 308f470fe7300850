import Patchbay.Message
import Patchbay.Port

/-!
# Traces

What happened during an operation, in order. A `Notice` is a log line before it is written, an
`Event` anything that a run leaves behind. Work that can be refused is `Traced`, and ends in an
`Outcome` where it was to change a state; work that moves a state along is a `Progress`. All of them
keep the events up to the point where they stopped.
-/

namespace Patchbay

structure Violation where
  invariant : Nat
  claim : String
  context : Option String
  deriving DecidableEq

def Violation.text (v : Violation) : String :=
  match v.context with
  | some place => s!"invariant {v.invariant} violated in {place}: {v.claim}"
  | none => s!"invariant {v.invariant} violated: {v.claim}"

inductive Fault
  | violated (v : Violation)
  | unmet (contract : String) (missing : List Nat)
  /-- A node gave up with words of its own. -/
  | raised (words : String)
  /-- Something was looked up where nothing is. -/
  | outOfRange
  /-- A count was to go below zero. -/
  | belowZero
  /-- A control would hold a value outside its bounds. -/
  | outOfBounds
  /-- A render was to be cut into blocks of no length. -/
  | emptyBlock
  /-- A sound file was to have no samples in a second. -/
  | zeroRate
  deriving DecidableEq

def Fault.text? : Fault → Option String
  | violated v => some v.text
  | unmet name missing =>
    let numbers := ", ".intercalate (missing.map toString)
    some s!"contract '{name}' broken, never enforced: [{numbers}]"
  | raised words => some words
  | outOfRange | belowZero | outOfBounds | emptyBlock | zeroRate => none

inductive Notice (R : Type)
  | violated (v : Violation)
  | replacedType (name : String)
  | configuring (sampleRate : R) (blockSize callbacks : Nat)
  | outputOnLoad (node : String) (value : Message R)
  | dropped (node : String) (inlet : Option PortId) (msg : Message R)
  | invalidSet (node : String) (msg : Message R)
  | unexpectedCoefficient (node : String) (msg : Message R)
  | emptyFilterUpdate (node : String)
  | busNameNotSymbol (node : String) (msg : Message R)
  | noBusBound (node : String) (msg : Message R)
  | printed (label : String) (msg : Message R)
  | cascadeCut (node : String) (inlet : PortId) (msg : Message R)
  | silenced (node : NodeId)

inductive Origin
  | outside
  | wire (node : NodeId) (outlet : Nat)
  | bus (name : String) (publisher : Option NodeId)
  deriving DecidableEq

inductive Event (R : Type)
  | notice (n : Notice R)
  | upheld (invariant : Nat)
  | configured (node : NodeId)
  | sent (node : NodeId) (outlet : Nat) (msg : Message R)
  | delivered (origin : Origin) (node : NodeId) (inlet : PortId) (msg : Message R)
  | cut (origin : Origin) (node : NodeId) (inlet : PortId) (msg : Message R)

namespace Event

variable {R : Type}

def notice? : Event R → Option (Notice R)
  | notice n => some n
  | _ => none

def upheld? : Event R → Option Nat
  | upheld i => some i
  | _ => none

end Event

/-! ## Log lines -/

namespace Notice

variable {R : Type} [Sample R]

def line : Notice R → String
  | violated v => s!"ERROR {v.text}"
  | replacedType name => s!"DEBUG replaced registered node type node_type={name}"
  | configuring rate block callbacks =>
    let shown := Sample.text rate
    s!"DEBUG configuring runtime sample_rate={shown} block_size={block} callbacks={callbacks}"
  | outputOnLoad node value => s!"DEBUG output on load node={node} value={Message.text value}"
  | dropped node none msg => s!"DEBUG dropped message node={node} msg={Message.text msg}"
  | dropped node (some inlet) msg =>
    s!"DEBUG dropped message node={node} inlet={inlet.text} msg={Message.text msg}"
  | invalidSet node msg => s!"DEBUG invalid set payload node={node} msg={Message.text msg}"
  | unexpectedCoefficient node msg =>
    s!"DEBUG unexpected coefficient node={node} msg={Message.text msg}"
  | emptyFilterUpdate node => s!"DEBUG empty filter update node={node}"
  | busNameNotSymbol node msg =>
    s!"DEBUG bus name must be a symbol node={node} msg={Message.text msg}"
  | noBusBound node msg => s!"DEBUG no bus bound node={node} msg={Message.text msg}"
  | printed label msg => s!"INFO {label} {Message.text msg}"
  | cascadeCut node inlet msg =>
    "ERROR message cascade too deep, cutting off" ++
      s!" node={node} inlet={inlet.text} msg={Message.text msg}"
  | silenced node => s!"ERROR node panicked during block, silencing output node={node}"

end Notice

/-! ## Work that can be refused -/

inductive Ending (ε α : Type)
  | done (result : α)
  | refused (error : ε)
  | faulted (fault : Fault)

namespace Ending

variable {ε ε' α β : Type}

def map (f : α → β) : Ending ε α → Ending ε β
  | done a => done (f a)
  | refused e => refused e
  | faulted f => faulted f

def mapError (f : ε → ε') : Ending ε α → Ending ε' α
  | done a => done a
  | refused e => refused (f e)
  | faulted f => faulted f

end Ending

structure Traced (R ε α : Type) where
  events : List (Event R)
  ending : Ending ε α

namespace Traced

variable {R ε α β : Type}

def pure (a : α) : Traced R ε α := ⟨[], .done a⟩

def bind (x : Traced R ε α) (f : α → Traced R ε β) : Traced R ε β :=
  match x.ending with
  | .done a =>
    let y := f a
    ⟨x.events ++ y.events, y.ending⟩
  | .refused e => ⟨x.events, .refused e⟩
  | .faulted e => ⟨x.events, .faulted e⟩

instance : Monad (Traced R ε) where
  pure := Traced.pure
  bind := Traced.bind

def refuse (e : ε) : Traced R ε α := ⟨[], .refused e⟩

def fail (f : Fault) : Traced R ε α := ⟨[], .faulted f⟩

def record (e : Event R) : Traced R ε Unit := ⟨[e], .done ()⟩

def ofExcept : Except ε α → Traced R ε α
  | .ok a => pure a
  | .error e => refuse e

def mapError {ε' : Type} (f : ε → ε') (x : Traced R ε α) : Traced R ε' α :=
  ⟨x.events, x.ending.mapError f⟩

def at? (found : Option α) : Traced R ε α :=
  match found with
  | some a => pure a
  | none => fail .outOfRange

end Traced

/-! ## Work that can be refused and changes a state -/

/-- What work on a state came to. The state is the one it left behind, however it ended. -/
structure Outcome (R σ ε α : Type) where
  state : σ
  events : List (Event R)
  ending : Ending ε α

namespace Outcome

variable {R σ τ ε ε' α β : Type}

def refuse (s : σ) (e : ε) : Outcome R σ ε α := ⟨s, [], .refused e⟩

def map (f : α → β) (o : Outcome R σ ε α) : Outcome R σ ε β := ⟨o.state, o.events, o.ending.map f⟩

def embed (whole : σ → τ) (f : ε → ε') (o : Outcome R σ ε α) : Outcome R τ ε' α :=
  ⟨whole o.state, o.events, o.ending.mapError f⟩

end Outcome

/-- Changes a state by what the work came to. Work that did not get done leaves the state alone. -/
def Traced.commit {R σ ε α β : Type} (x : Traced R ε α) (s : σ) (change : α → σ × β) :
    Outcome R σ ε β :=
  match x.ending with
  | .done a => ⟨(change a).1, x.events, .done (change a).2⟩
  | .refused e => ⟨s, x.events, .refused e⟩
  | .faulted f => ⟨s, x.events, .faulted f⟩

/-! ## Work that moves a state along -/

structure Progress (R σ : Type) where
  state : σ
  events : List (Event R)
  fault : Option Fault

namespace Progress

variable {R σ α : Type}

def stay (s : σ) : Progress R σ := ⟨s, [], none⟩

def fail (s : σ) (f : Fault) : Progress R σ := ⟨s, [], some f⟩

def andThen (p : Progress R σ) (f : σ → Progress R σ) : Progress R σ :=
  match p.fault with
  | some _ => p
  | none =>
    let q := f p.state
    ⟨q.state, p.events ++ q.events, q.fault⟩

def each (f : α → σ → Progress R σ) : List α → σ → Progress R σ
  | [], s => stay s
  | a :: as, s => (f a s).andThen (each f as)

end Progress

end Patchbay
