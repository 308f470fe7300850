import Patchbay.Proofs.BenchSound

/-!
# Buses bound by an argument or by a message

A control can be bound to a bus when it is made, or later by a message. Both ways read the name of
the bus from a token, and read it alike but for the empty symbol: an argument leaves the control
unbound, a message binds it to the bus without a name.
-/

namespace Patchbay

variable {R : Type}

/-! ## The two buses of a control -/

inductive ControlBus
  | receive
  | send
  deriving DecidableEq

namespace ControlBus

def word : ControlBus → String
  | receive => "receive"
  | send => "send"

def offset : ControlBus → Nat
  | receive => 0
  | send => 1

end ControlBus

/-- The arguments for the buses come after those for bounds and values. -/
def ControlKind.firstBus : ControlKind → Nat
  | numberBox | horizontalSlider | verticalSlider => 4
  | horizontalRadio | verticalRadio | toggle => 3
  | floatAtom | symbolAtom | listBox => 2

namespace ControlState

def bus? (s : ControlState R) : ControlBus → Option String
  | .receive => s.receiveBus
  | .send => s.sendBus

def rebind (s : ControlState R) : ControlBus → Option String → ControlState R
  | .receive, name => { s with receiveBus := name }
  | .send, name => { s with sendBus := name }

@[simp] theorem bus?_rebind (s : ControlState R) (bus : ControlBus) (name : Option String) :
    (s.rebind bus name).bus? bus = name := by
  cases bus <;> rfl

@[simp] theorem rebind_rebind (s : ControlState R) (bus : ControlBus) (name name' : Option String) :
    (s.rebind bus name).rebind bus name' = s.rebind bus name' := by
  cases bus <;> rfl

end ControlState

namespace ControlArgs

def rebind (a : ControlArgs R) : ControlBus → Option String → ControlArgs R
  | .receive, name => { a with receiveBus := name }
  | .send, name => { a with sendBus := name }

def state (a : ControlArgs R) (kind : ControlKind) (store : Store R) : ControlState R :=
  ⟨kind, store, a.sendBus, a.receiveBus⟩

variable (a : ControlArgs R) (bus : ControlBus) (name : Option String)

@[simp] theorem state_rebind (kind : ControlKind) (store : Store R) :
    (a.rebind bus name).state kind store = (a.state kind store).rebind bus name := by
  cases bus <;> rfl

@[simp] theorem outputOnLoad_rebind : (a.rebind bus name).outputOnLoad = a.outputOnLoad := by
  cases bus <;> rfl

@[simp] theorem topology_rebind : Control.topology (a.rebind bus name) = Control.topology a := by
  cases bus <;> rfl

@[simp] theorem startStore_rebind [Sample R] (kind : ControlKind) :
    Control.startStore kind (a.rebind bus name) = Control.startStore kind a := by
  cases bus <;> rfl

end ControlArgs

namespace Control

variable [Sample R]

/-! ## Arguments -/

section
variable {raw raw' : List (Token R)}

omit [Sample R] in
theorem floatArg_congr {i : Nat} (h : raw'[i]? = raw[i]?) (nodeType : String) :
    floatArg raw' i nodeType = floatArg raw i nodeType := by
  simp only [floatArg, h]

theorem busArg_congr {i : Nat} (h : raw'[i]? = raw[i]?) : busArg raw' i = busArg raw i := by
  simp only [busArg, h]

variable {bus : ControlBus} {a : ControlArgs R} {nodeType : String}

theorem buses_rebind {first : Nat} (hrest : ∀ i ≠ first + bus.offset, raw'[i]? = raw[i]?)
    (bounds : Option (Bounds R)) (init : ControlValue R) (load : Bool) :
    (⟨bounds, init, load, busArg raw' first, busArg raw' (first + 1)⟩ : ControlArgs R) =
      ControlArgs.rebind ⟨bounds, init, load, busArg raw first, busArg raw (first + 1)⟩ bus
        (busArg raw' (first + bus.offset)) := by
  cases bus with
  | receive => rw [busArg_congr (hrest (first + 1) (by simp [ControlBus.offset]))]; rfl
  | send => rw [busArg_congr (hrest first (by simp [ControlBus.offset]))]; rfl

theorem loadedArgs_rebind {i : Nat} {bounds : Bounds R}
    (hrest : ∀ j ≠ i + 2 + bus.offset, raw'[j]? = raw[j]?)
    (h : loadedArgs raw i nodeType bounds = .ok a) :
    loadedArgs raw' i nodeType bounds =
      .ok (a.rebind bus (busArg raw' (i + 2 + bus.offset))) := by
  obtain ⟨load, hload, h⟩ := except_bind_ok.mp h
  obtain ⟨init, hinit, h⟩ := except_bind_ok.mp h
  cases h
  refine except_bind_ok.mpr ⟨load, ?_, except_bind_ok.mpr ⟨init, ?_, ?_⟩⟩
  · rwa [floatArgOr, floatArg_congr (hrest i (by omega))]
  · rwa [floatArgOr, floatArg_congr (hrest (i + 1) (by omega))]
  · exact congrArg Except.ok (buses_rebind hrest _ _ _)

theorem boundArgOr_congr {i : Nat} (h : raw'[i]? = raw[i]?) (nodeType : String) (default : R) :
    boundArgOr raw' i nodeType default = boundArgOr raw i nodeType default := by
  simp only [boundArgOr, floatArg_congr h]

theorem sliderArgs_rebind {top : Nat} (hrest : ∀ i ≠ 4 + bus.offset, raw'[i]? = raw[i]?)
    (h : sliderArgs raw nodeType top = .ok a) :
    sliderArgs raw' nodeType top = .ok (a.rebind bus (busArg raw' (4 + bus.offset))) := by
  obtain ⟨lo, hi, hlo, hhi, h⟩ := sliderArgs_ok h
  refine except_bind_ok.mpr ⟨lo, ?_, except_bind_ok.mpr ⟨hi, ?_, loadedArgs_rebind hrest h⟩⟩
  · rwa [boundArgOr_congr (hrest 0 (by omega))]
  · rwa [boundArgOr_congr (hrest 1 (by omega))]

theorem switchArgs_rebind {top : Nat} (hrest : ∀ i ≠ 3 + bus.offset, raw'[i]? = raw[i]?)
    (h : switchArgs raw nodeType top = .ok a) :
    switchArgs raw' nodeType top = .ok (a.rebind bus (busArg raw' (3 + bus.offset))) := by
  obtain ⟨hi, hhi, h⟩ := switchArgs_ok h
  refine except_bind_ok.mpr ⟨hi, ?_, loadedArgs_rebind hrest h⟩
  rwa [boundArgOr_congr (hrest 0 (by omega))]

theorem atomArgs_rebind {bounded : Bool} {init : ControlValue R}
    (hrest : ∀ i ≠ 2 + bus.offset, raw'[i]? = raw[i]?)
    (h : atomArgs raw nodeType bounded init = .ok a) :
    atomArgs raw' nodeType bounded init = .ok (a.rebind bus (busArg raw' (2 + bus.offset))) := by
  obtain ⟨lo, hlo, h⟩ := except_bind_ok.mp h
  obtain ⟨hi, hhi, h⟩ := except_bind_ok.mp h
  cases h
  refine except_bind_ok.mpr ⟨lo, ?_, except_bind_ok.mpr ⟨hi, ?_, ?_⟩⟩
  · rwa [boundArgOr_congr (hrest 0 (by omega))]
  · rwa [boundArgOr_congr (hrest 1 (by omega))]
  · exact congrArg Except.ok (buses_rebind hrest _ _ _)

/-- The argument for a bus matters to nothing but that bus. -/
theorem readArgs_rebind {kind : ControlKind}
    (hrest : ∀ i ≠ kind.firstBus + bus.offset, raw'[i]? = raw[i]?)
    (h : readArgs kind raw = .ok a) :
    readArgs kind raw' = .ok (a.rebind bus (busArg raw' (kind.firstBus + bus.offset))) := by
  cases kind with
  | numberBox | horizontalSlider | verticalSlider => exact sliderArgs_rebind hrest h
  | horizontalRadio | verticalRadio | toggle => exact switchArgs_rebind hrest h
  | floatAtom | symbolAtom | listBox => exact atomArgs_rebind hrest h

theorem rebind_readArgs {kind : ControlKind} (bus : ControlBus) (h : readArgs kind raw = .ok a) :
    a.rebind bus (busArg raw (kind.firstBus + bus.offset)) = a :=
  Except.ok.inj ((readArgs_rebind (fun _ _ => rfl) h).symm.trans h)

end

/-! ## Names of buses -/

def namedBus (t : Token R) : Option String :=
  match t with
  | .symbol s => if s == "empty" then none else some s
  | t => some t.text

theorem ofMessage_rebind (bus : ControlBus) (t : Token R) :
    Command.ofMessage [.symbol bus.word, t] = match bus with
      | .receive => .bindReceive (namedBus t)
      | .send => .bindSend (namedBus t) := by
  cases bus <;> cases t <;> rfl

variable {raw : List (Token R)} {i : Nat}

/-- An argument names the same bus as a message, but for the empty symbol. -/
theorem busArg_of_ne {t : Token R} (h : raw[i]? = some t) (hne : t ≠ .symbol "") :
    busArg raw i = namedBus t := by
  cases t with
  | float v => simp [busArg, h, namedBus]
  | symbol name =>
    have hname : name ≠ "" := fun hempty => hne (congrArg Token.symbol hempty)
    simp [busArg, h, namedBus, hname]

theorem busArg_of_nameless (h : raw[i]? = some (.symbol "")) : busArg raw i = none := by
  simp [busArg, h]

end Control

/-! ## Benches that differ in what was published on them -/

namespace Progress

variable {σ α : Type}

def map (f : σ → σ) (p : Progress R σ) : Progress R σ := ⟨f p.state, p.events, p.fault⟩

theorem each_comm {f : σ → σ} {g : α → σ → Progress R σ} (h : ∀ a s, g a (f s) = (g a s).map f) :
    ∀ (as : List α) (s : σ), each g as (f s) = (each g as s).map f
  | [], _ => rfl
  | a :: as, s => by
    have hrest := each_comm h as (g a s).state
    cases hfault : (g a s).fault with
    | none => simp [each, h, andThen, map, hfault, hrest]
    | some fault => simp [each, h, andThen, map, hfault]

end Progress

namespace Bench

variable {F : Family R}

def behind (earlier : List (String × Message R)) (b : Bench F) : Bench F :=
  { b with published := earlier ++ b.published }

section
variable (earlier : List (String × Message R)) (b : Bench F)

@[simp] theorem published_behind : (b.behind earlier).published = earlier ++ b.published := rfl

theorem apply_behind (em : Emission R) :
    (b.behind earlier).apply em = (b.apply em).behind earlier := by
  cases em with
  | subscribe bus inlet =>
    by_cases h : (bus, inlet) ∈ b.subscriptions <;> simp [apply, behind, h]
  | send | publish | unsubscribe => simp [apply, behind]

theorem foldl_behind : ∀ (ems : List (Emission R)) (b : Bench F),
    ems.foldl apply (b.behind earlier) = (ems.foldl apply b).behind earlier
  | [], _ => rfl
  | em :: ems, b => by
    rw [List.foldl_cons, apply_behind, foldl_behind ems, List.foldl_cons]

theorem absorb_behind (h : Handled R F.State) :
    (b.behind earlier).absorb h = (b.absorb h).map (behind earlier) := by
  cases hfault : h.fault with
  | none =>
    have hfold := foldl_behind earlier h.emissions { b with state := h.state }
    simp only [absorb, Progress.map, hfault, Option.isSome_none, Bool.false_eq_true, if_false]
    rw [← hfold]
    rfl
  | some fault => simp [absorb, Progress.map, hfault, behind]

theorem send_behind (inlet : PortId) (msg : Message R) :
    (b.behind earlier).send inlet msg = (b.send inlet msg).map (behind earlier) :=
  absorb_behind earlier b _

theorem publish_behind (bus : String) (msg : Message R) :
    (b.behind earlier).publish bus msg = (b.publish bus msg).map (behind earlier) :=
  Progress.each_comm (fun inlet b => send_behind earlier b inlet msg) _ b

variable [Sample R]

/-- What was published before makes no difference to what a bench does. -/
theorem perform_behind (drive : Drive R) :
    (b.behind earlier).perform drive =
      { b.perform drive with state := (b.perform drive).state.behind earlier } := by
  cases drive with
  | send inlet msg => simp only [perform, send_behind]; rfl
  | publish bus msg => simp only [perform, publish_behind]; rfl
  | tick | take => rfl

theorem after_behind : ∀ (drives : List (Drive R)) (b : Bench F),
    (b.behind earlier).after drives = (b.after drives).behind earlier
  | [], _ => rfl
  | drive :: drives, b => by
    have hrest := after_behind drives (b.perform drive).state
    simpa [after, perform_behind] using hrest

end

/-- From here on both benches do the same: whatever they are asked to do, they know the same, send
and publish the same, and answer the same to what they are asked next. -/
def GoesOnAs [Sample R] (b b' : Bench F) : Prop :=
  ∀ drives : List (Drive R), ∃ published,
    (b.after drives).published = b.published ++ published ∧
    b'.after drives = { b.after drives with published := b'.published ++ published } ∧
    ∀ drive : Drive R,
      ((b'.after drives).perform drive).events = ((b.after drives).perform drive).events ∧
      ((b'.after drives).perform drive).ending = ((b.after drives).perform drive).ending

theorem goesOnAs_behind [Sample R] (earlier earlier' : List (String × Message R)) {b : Bench F}
    (hb : b.published = []) : (b.behind earlier).GoesOnAs (b.behind earlier') := by
  intro drives
  refine ⟨(b.after drives).published, ?_, ?_, fun drive => ?_⟩
  · simp only [after_behind, published_behind, hb, List.append_nil]
  · simp only [after_behind, published_behind, hb, List.append_nil]
    rfl
  · simp [after_behind, perform_behind]

/-! ## A control on a bench -/

variable [Sample R]

def ofControl (s : ControlState R) (topology : Topology) (rate : R) (sent : List (Nat × Message R))
    (published : List (String × Message R)) : Bench (standard R) :=
  ⟨.control s, topology, rate, sent, published,
    s.receiveBus.toList.map fun name => (name, .regular 0)⟩

theorem perform_rebind {s : ControlState R} {bus : ControlBus} (h : s.bus? bus = none)
    (topology : Topology) (rate : R) (sent : List (Nat × Message R))
    (published : List (String × Message R)) (t : Token R) :
    ((ofControl s topology rate sent published).perform
      (.send (.regular 0) [.symbol bus.word, t])).state =
        ofControl (s.rebind bus (Control.namedBus t)) topology rate sent published := by
  have hcommand := Control.ofMessage_rebind bus t
  cases bus with
  | send => simp [perform, send, StandardState.message, ControlState.message, hcommand, ofProgress,
      absorb, ofControl, Handled.map, Handled.quiet, ControlState.rebind]
  | receive =>
    have hnone : s.receiveBus = none := h
    cases hname : Control.namedBus t <;>
      simp [perform, send, StandardState.message, ControlState.message, hcommand, hname, hnone,
        ControlState.rebindReceive, ofProgress, absorb, apply, ofControl, Handled.map, Handled.emit,
        ControlState.rebind]

/-- Once it is configured, a control that speaks on load has said what it holds. -/
theorem absorb_configure (s : ControlState R) (topology : Topology) (rate : R) :
    ∃ published, ((ofControl s topology rate [] []).absorb (s.configure.map .control)).state =
      ofControl s topology rate [(0, s.store.message)] published := by
  cases hsend : s.sendBus with
  | none => exact ⟨[], by simp [absorb, ControlState.configure, ControlState.emissions, hsend,
      ofControl, Handled.map, apply]⟩
  | some name =>
    by_cases hown : some name = s.receiveBus
    · exact ⟨[], by simp [absorb, ControlState.configure, ControlState.emissions, hsend,
        ← hown, ofControl, Handled.map, apply]⟩
    · exact ⟨[(name, s.store.message)], by simp [absorb, ControlState.configure,
        ControlState.emissions, hsend, hown, ofControl, Handled.map, apply]⟩

theorem start_control {kind : ControlKind} {raw : List (Token R)} {a : ControlArgs R}
    (hargs : Control.readArgs kind raw = .ok a) {store : Store R}
    (hstore : (Control.startStore kind a).ending = .done store) (inlets : List Nat) (c : Config R) :
    ∃ published, (start (Standard.control kind) raw inlets c).ending =
      .done (ofControl (a.state kind store) (Control.topology a) c.sampleRate
        (if a.outputOnLoad then [(0, store.message)] else []) published) := by
  have hread : (Standard.control kind).readArgs raw = .ok (.control a) := by
    simp [Standard.control, Blueprint.inFamily, ControlKind.blueprint, hargs, Except.map]
  have hdeclare : ((Standard.control kind).declare (.control a) (.ofInlets inlets)).ending =
      .done ⟨.control (a.state kind store), a.outputOnLoad,
        a.receiveBus.toList.map fun name => (name, .regular 0)⟩ :=
    Traced.bind_done.mpr ⟨_, Traced.bind_done.mpr ⟨store, hstore, rfl⟩, rfl⟩
  rw [start_done hread rfl hdeclare (StandardState.configure_fault _ c.sampleRate)]
  cases a.outputOnLoad with
  | false => exact ⟨[], rfl⟩
  | true =>
    obtain ⟨published, hpublished⟩ :=
      absorb_configure (a.state kind store) (Control.topology a) c.sampleRate
    exact ⟨published, congrArg Ending.done hpublished⟩

theorem goesOnAs_ofControl {s s' : ControlState R} {topology : Topology} {rate : R}
    {sent : List (Nat × Message R)} {published published' : List (String × Message R)} :
    (ofControl s topology rate sent published).GoesOnAs
      (ofControl s' topology rate sent published') ↔ s = s' := by
  constructor
  · intro h
    obtain ⟨_, -, hnow, -⟩ := h []
    exact StandardState.control.inj (congrArg Bench.state hnow).symm
  · intro h
    subst h
    have hgoes := goesOnAs_behind published published' (b := ofControl s topology rate sent []) rfl
    simpa [behind, ofControl] using hgoes

/-- A control that was built bound to the bus `t`, and one that was built unbound and then told of
`t` by a message, go on alike, unless `t` is the empty symbol: that leaves the first unbound, and
binds the second to the bus without a name. -/
theorem goes_on_as_rebound [LawfulSample R] (kind : ControlKind) (bus : ControlBus)
    {raw raw' : List (Token R)} {a : ControlArgs R} {t : Token R}
    (hargs : Control.readArgs kind raw = .ok a)
    (ht : raw[kind.firstBus + bus.offset]? = some t)
    (hnone : busArg raw' (kind.firstBus + bus.offset) = none)
    (hrest : ∀ i ≠ kind.firstBus + bus.offset, raw'[i]? = raw[i]?)
    (inlets : List Nat) (c : Config R) :
    ∃ b b' s s', (start (Standard.control kind) raw inlets c).ending = .done b ∧
      (start (Standard.control kind) raw' inlets c).ending = .done b' ∧
      let rebound := (b'.perform (.send (.regular 0) [.symbol bus.word, t])).state
      b.state = .control s ∧ rebound.state = .control s' ∧
      s.bus? bus = busArg raw (kind.firstBus + bus.offset) ∧ s'.bus? bus = Control.namedBus t ∧
      (b.GoesOnAs rebound ↔ t ≠ .symbol "") := by
  have hargs' := Control.readArgs_rebind hrest hargs
  rw [hnone] at hargs'
  obtain ⟨store, hstore, -⟩ := Control.startStore_done kind fun b => Control.readArgs_ordered hargs
  obtain ⟨published, hb⟩ := start_control hargs hstore inlets c
  obtain ⟨published', hb'⟩ :=
    start_control hargs' ((congrArg Traced.ending (a.startStore_rebind bus none kind)).trans hstore)
      inlets c
  rw [ControlArgs.state_rebind, ControlArgs.topology_rebind, ControlArgs.outputOnLoad_rebind] at hb'
  have hbound : (a.state kind store).rebind bus (busArg raw (kind.firstBus + bus.offset)) =
      a.state kind store := by
    rw [← ControlArgs.state_rebind, Control.rebind_readArgs bus hargs]
  refine ⟨_, _, a.state kind store, (a.state kind store).rebind bus (Control.namedBus t), hb, hb',
    ?_⟩
  rw [perform_rebind ((a.state kind store).bus?_rebind bus none), ControlState.rebind_rebind]
  refine ⟨rfl, rfl, ?_, ControlState.bus?_rebind _ _ _, goesOnAs_ofControl.trans ⟨?_, ?_⟩⟩
  · rw [← hbound, ControlState.bus?_rebind]
  · intro hsame hempty
    subst hempty
    have hbus := congrArg (ControlState.bus? · bus) (hbound.trans hsame)
    simp [Control.busArg_of_nameless ht, Control.namedBus] at hbus
  · intro hne
    rw [← Control.busArg_of_ne ht hne, hbound]

/-- A slider that speaks on load, and listens on the bus that it publishes on; and one with a bus
that has no name. -/
theorem goes_on_as_rebound_slider :
    let raw (t : Token Float) : List (Token Float) :=
      [.float 0, .float 10, .float 1, .float 5, t, .symbol "A"]
    let built (t : Token Float) :=
      (start (Standard.control .horizontalSlider) (raw t) [] ⟨44100, 64, 1⟩).ending
    let told (b : Bench (standard Float)) (t : Token Float) :=
      (b.perform (.send (.regular 0) [.symbol "receive", t])).state
    ∃ unbound own nameless, built (.symbol "empty") = .done unbound ∧
      built (.symbol "A") = .done own ∧ own.GoesOnAs (told unbound (.symbol "A")) ∧
      built (.symbol "") = .done nameless ∧ ¬ nameless.GoesOnAs (told unbound (.symbol "")) := by
  intro raw built told
  have hall : ∀ t, ∃ b b', built t = .done b ∧ built (.symbol "empty") = .done b' ∧
      (b.GoesOnAs (told b' t) ↔ t ≠ .symbol "") := by
    intro t
    obtain ⟨a, hargs⟩ : ∃ a, Control.readArgs .horizontalSlider (raw t) = .ok a := ⟨_, rfl⟩
    have hrest : ∀ i ≠ 4, (raw (.symbol "empty"))[i]? = (raw t)[i]? := by
      intro i hi
      match i with
      | 0 | 1 | 2 | 3 | 5 => rfl
      | 4 => exact absurd rfl hi
      | i + 6 => rfl
    obtain ⟨b, b', s, s', hb, hb', -, -, -, -, hgoes⟩ :=
      goes_on_as_rebound .horizontalSlider .receive hargs rfl rfl hrest [] ⟨44100, 64, 1⟩
    exact ⟨b, b', hb, hb', hgoes⟩
  obtain ⟨own, unbound, hown, hunbound, hgoes⟩ := hall (.symbol "A")
  obtain ⟨nameless, unbound', hnameless, hunbound', hparts⟩ := hall (.symbol "")
  cases hunbound.symm.trans hunbound'
  exact ⟨unbound, own, nameless, hunbound, hown, hgoes.mpr (by simp), hnameless,
    fun h => hparts.mp h rfl⟩

end Bench

end Patchbay
