import Patchbay.Trace

/-!
# Nodes

A node type turns construction arguments into a checked record, the record into ports, and, once the
wiring is known, into a running instance with a per-sample and a per-message behaviour. A `Family`
fixes how the records and the instances of its node types are represented; patches, schedules and
hosts are written over any family. A `Blueprint` is a node type with a representation of its own,
which `Blueprint.inFamily` embeds into a family.
-/

namespace Patchbay

inductive NodeError
  | invalidArguments (nodeType reason : String)
  | unknownType (name : String)
  | argumentsMismatch (nodeType : String)
  deriving DecidableEq

def NodeError.message : NodeError → String
  | invalidArguments nodeType reason => s!"invalid arguments for {nodeType}: {reason}"
  | unknownType name => s!"unknown node type: {name}"
  | argumentsMismatch nodeType => s!"args type mismatch in {nodeType}"

/-! ## Wiring -/

/-- Puts a number where it belongs in an ascending list, unless it is there already. -/
def insertAscending (i : Nat) : List Nat → List Nat
  | [] => [i]
  | j :: js => if i < j then i :: j :: js else if i = j then j :: js else j :: insertAscending i js

/-- Looks for a number among ascending ones: in the middle, and then in the half where it would be.
`room` bounds the halvings; there are never more than numbers. -/
def searchAscending (i : Nat) : Nat → List Nat → Bool
  | 0, _ => false
  | room + 1, js =>
    match js.drop (js.length / 2) with
    | [] => false
    | j :: upper =>
      if i = j then true
      else if i < j then searchAscending i room (js.take (js.length / 2))
      else searchAscending i room upper

/-- The signal inlets of a node that have a source, ascending and without repetition. -/
structure Wired where
  inlets : List Nat
  deriving DecidableEq

namespace Wired

def ofInlets (inlets : List Nat) : Wired := ⟨inlets.foldr insertAscending []⟩

def hasSource (w : Wired) (inlet : Nat) : Bool := searchAscending inlet w.inlets.length w.inlets

end Wired

/-! ## What instances do -/

inductive Emission (R : Type)
  | send (outlet : Nat) (msg : Message R)
  | publish (bus : String) (msg : Message R)
  | subscribe (bus : String) (inlet : PortId)
  | unsubscribe (bus : String) (inlet : PortId)
  deriving DecidableEq

structure Declared (σ : Type) where
  state : σ
  wantsConfigure : Bool
  subscriptions : List (String × PortId)

namespace Declared

variable {σ τ : Type}

def map (f : σ → τ) (d : Declared σ) : Declared τ := ⟨f d.state, d.wantsConfigure, d.subscriptions⟩

def takeSubscriptions (d : Declared σ) : List (String × PortId) × Declared σ :=
  (d.subscriptions, { d with subscriptions := [] })

end Declared

/-- The outcome of a message or the callback; the host applies the emissions in order. -/
structure Handled (R σ : Type) where
  state : σ
  emissions : List (Emission R)
  notices : List (Notice R)
  fault : Option Fault

namespace Handled

variable {R σ τ : Type}

def quiet (s : σ) : Handled R σ := ⟨s, [], [], none⟩

def emit (s : σ) (emissions : List (Emission R)) : Handled R σ := ⟨s, emissions, [], none⟩

def notify (s : σ) (n : Notice R) : Handled R σ := ⟨s, [], [n], none⟩

def map (f : σ → τ) (h : Handled R σ) : Handled R τ := ⟨f h.state, h.emissions, h.notices, h.fault⟩

end Handled

structure Ticked (R σ : Type) where
  state : σ
  outputs : List R
  fault : Option Fault

namespace Ticked

variable {R σ τ : Type}

def idle (s : σ) (outputs : List R) : Ticked R σ := ⟨s, outputs, none⟩

def fail (s : σ) (outputs : List R) : Ticked R σ := ⟨s, outputs, some .outOfRange⟩

def write (s : σ) (outputs : List R) (y : R) : Ticked R σ :=
  match outputs with
  | [] => fail s []
  | _ :: rest => ⟨s, y :: rest, none⟩

def map (f : σ → τ) (t : Ticked R σ) : Ticked R τ := ⟨f t.state, t.outputs, t.fault⟩

end Ticked

/-! ## Node types -/

structure Blueprint (R A σ : Type) where
  name : String
  readArgs : List (Token R) → Except NodeError A
  build : A → Traced R NodeError Topology
  /-- The shadow that takes messages meant for a signal inlet. -/
  reroute : PortId → Option PortId
  declare : A → Wired → Traced R NodeError (Declared σ)

structure Family (R : Type) where
  Args : Type
  State : Type
  configure : State → R → Handled R State
  tick : State → List R → List R → R → Ticked R State
  message : State → PortId → Message R → R → Handled R State

structure NodeType {R : Type} (F : Family R) where
  readArgs : List (Token R) → Except NodeError F.Args
  build : F.Args → Traced R NodeError Topology
  reroute : PortId → Option PortId
  declare : F.Args → Wired → Traced R NodeError (Declared F.State)

/-- A record that was made for another node type is refused. -/
def Blueprint.inFamily {R A σ : Type} (b : Blueprint R A σ) (F : Family R) (wrap : A → F.Args)
    (unwrap : F.Args → Option A) (embed : σ → F.State) : NodeType F where
  readArgs raw := (b.readArgs raw).map wrap
  build args :=
    match unwrap args with
    | some a => b.build a
    | none => Traced.refuse (.argumentsMismatch b.name)
  reroute := b.reroute
  declare args wired :=
    match unwrap args with
    | some a => do return (← b.declare a wired).map embed
    | none => Traced.refuse (.argumentsMismatch b.name)

/-! ## Two families side by side -/

namespace Family

variable {R : Type}

@[reducible] def sum (F G : Family R) : Family R where
  Args := F.Args ⊕ G.Args
  State := F.State ⊕ G.State
  configure
    | .inl s, rate => (F.configure s rate).map .inl
    | .inr s, rate => (G.configure s rate).map .inr
  tick
    | .inl s, inputs, outputs, rate => (F.tick s inputs outputs rate).map .inl
    | .inr s, inputs, outputs, rate => (G.tick s inputs outputs rate).map .inr
  message
    | .inl s, inlet, msg, rate => (F.message s inlet msg rate).map .inl
    | .inr s, inlet, msg, rate => (G.message s inlet msg rate).map .inr

end Family

namespace NodeType

variable {R : Type} {F G : Family R}

def blueprint (t : NodeType F) (name : String) : Blueprint R F.Args F.State where
  name := name
  readArgs := t.readArgs
  build := t.build
  reroute := t.reroute
  declare := t.declare

def inl (t : NodeType F) (name : String) : NodeType (F.sum G) :=
  (t.blueprint name).inFamily (F.sum G) .inl (fun | .inl a => some a | .inr _ => none) .inl

def inr (t : NodeType G) (name : String) : NodeType (F.sum G) :=
  (t.blueprint name).inFamily (F.sum G) .inr (fun | .inl _ => none | .inr a => some a) .inr

end NodeType

end Patchbay
