import Patchbay.Proofs.DropSound
import Patchbay.Proofs.LifecycleSound

/-!
# The two values of a toggle

A bang moves a toggle to zero, or to its top if it is at zero, and makes it say so. The top is the
larger of zero and the number that it was built with: where that is negative both values are zero.
-/

namespace Patchbay

variable {R : Type} [Sample R]

omit [Sample R] in
def alternating (first second : R) : Nat → List R
  | 0 => []
  | n + 1 => first :: alternating second first n

namespace ControlState

/-- The outcome of being at `w` from now on and saying it: once on the outlet, and at most once on
the send bus. -/
def Utters (c : ControlState R) (w top : R) (h : Handled R (ControlState R)) : Prop :=
  ∃ published, h = .emit { c with store := .toggle w top } (.send 0 [.float w] :: published) ∧
    (published = [] ∨ ∃ bus, c.sendBus = some bus ∧ published = [.publish bus [.float w]])

def sends (c : ControlState R) : List (PortId × Message R) → List (Nat × Message R)
  | [] => []
  | (inlet, msg) :: given =>
    (c.message inlet msg).emissions.filterMap Emission.send? ++
      (c.message inlet msg).state.sends given

omit [Sample R] in
def isBangAt0 (given : PortId × Message R) : Bool := given.1 == .regular 0 && given.2.isBang

/-- The control is at `v`, bangs move it between zero and `top`, and it takes every other number as
it comes. As long as no number comes, what it says are the two values by turns. -/
structure Flips (c : ControlState R) (v top : R) : Prop where
  holds : c.store = .toggle v top
  bang : c.Utters (if v == 0 then top else 0) top (c.message (.regular 0) .bang)
  value : ∀ x, c.Utters x top (c.message (.regular 0) [.float x])
  set : ∀ x, c.message (.regular 0) [.symbol "set", .float x] =
    .quiet { c with store := .toggle x top }
  other : ∀ inlet msg, (inlet = .regular 0 → msg ≠ .bang ∧ ∀ x, ¬ msg.Offers x) →
    (c.message inlet msg).state.store = c.store ∧ (c.message inlet msg).fault = none ∧
      ∀ em ∈ (c.message inlet msg).emissions, em.message? = none
  alternates : ∀ given, (∀ msg, (.regular 0, msg) ∈ given → ∀ x, ¬ msg.Offers x) →
    c.sends given = ((if v == 0 then alternating top 0 else alternating 0 top)
      (given.countP isBangAt0)).map fun w => (0, .ofFloat w)

/-! ## One message -/

omit [Sample R] in
theorem utters_emissions (c : ControlState R) (w top : R) :
    c.Utters w top (.emit { c with store := .toggle w top }
      { c with store := .toggle w top : ControlState R }.emissions) := by
  refine ⟨_, rfl, ?_⟩
  cases hsend : c.sendBus with
  | none => exact Or.inl rfl
  | some bus =>
    by_cases hown : some bus = c.receiveBus
    · exact Or.inl (if_pos hown)
    · exact Or.inr ⟨bus, rfl, if_neg hown⟩

omit [Sample R] in
theorem Utters.send? {c : ControlState R} {w top : R} {h : Handled R (ControlState R)}
    (huttered : c.Utters w top h) : h.emissions.filterMap Emission.send? = [(0, .ofFloat w)] := by
  obtain ⟨published, rfl, rfl | ⟨bus, -, rfl⟩⟩ := huttered <;> rfl

section
variable {c : ControlState R} {v top : R} (hc : c.store = .toggle v top)
include hc

theorem bang_utters : c.Utters (if v == 0 then top else 0) top (c.message (.regular 0) .bang) := by
  have hmessage : c.message (.regular 0) .bang =
      .emit { c with store := c.store.onBang }
        { c with store := c.store.onBang : ControlState R }.emissions := rfl
  rw [hmessage, hc]
  exact c.utters_emissions _ top

theorem value_utters (x : R) : c.Utters x top (c.message (.regular 0) [.float x]) := by
  have haccept : c.store.accept? [.float x] = some (.toggle x top) := by rw [hc]; rfl
  have hcommand : Control.Command.ofMessage [Token.float x] = .value [.float x] := rfl
  have hmessage : c.message (.regular 0) [.float x] =
      .emit { c with store := .toggle x top }
        { c with store := .toggle x top : ControlState R }.emissions := by
    simp [message, hcommand, haccept, settle, Store.inBounds, Handled.quiet, Handled.emit]
  rw [hmessage]
  exact c.utters_emissions x top

theorem set_quiet (x : R) : c.message (.regular 0) [.symbol "set", .float x] =
    .quiet { c with store := .toggle x top } := by
  have haccept : c.store.accept? [.float x] = some (.toggle x top) := by rw [hc]; rfl
  have hcommand :
      Control.Command.ofMessage [.symbol "set", Token.float x] = .set [.float x] := rfl
  simp [message, hcommand, haccept, settle, Store.inBounds]

/-- What is neither a bang nor a number changes at most the buses. -/
theorem other_silent {inlet : PortId} {msg : Message R}
    (h : inlet = .regular 0 → msg ≠ .bang ∧ ∀ x, ¬ msg.Offers x) :
    (c.message inlet msg).state.store = c.store ∧ (c.message inlet msg).fault = none ∧
      ∀ em ∈ (c.message inlet msg).emissions, em.message? = none := by
  by_cases hinlet : inlet = .regular 0
  · obtain ⟨hbang, hoffers⟩ := h hinlet
    have hrefused : ∀ payload, msg = payload ∨ msg = .symbol "set" :: payload →
        c.store.accept? payload = none := by
      intro payload hpayload
      obtain ⟨x, _, rfl, -⟩ | ⟨-, hnone⟩ :=
        Store.accept?_numeric (by rw [hc]; rfl : c.store.isNumeric = true) payload
      · exact absurd hpayload (hoffers x)
      · exact hnone
    have hcases := Control.command_cases msg
    cases hcommand : Control.Command.ofMessage msg with
    | bang =>
      rw [hcommand] at hcases
      exact absurd hcases hbang
    | bindSend bus => simp [message, hinlet, hcommand, Handled.quiet]
    | bindReceive bus =>
      have hmessage : c.message inlet msg = c.rebindReceive bus := by
        simp [message, hinlet, hcommand]
      rw [hmessage]
      refine ⟨rfl, rfl, fun em hem => ?_⟩
      have hrebinds := c.rebinds_rebindReceive bus em hem
      cases em with
      | send | publish => cases hrebinds
      | subscribe | unsubscribe => rfl
    | set payload | value payload =>
      rw [hcommand] at hcases
      simp [message, hinlet, hcommand, hrefused payload hcases, Handled.notify]
  · simp [message, hinlet, Handled.notify]

end

/-! ## A history -/

section
variable [LawfulSample R] {top : R} (htop : (top == 0) = false ∨ top = 0)
include htop

/-- The value that a bang leads to is the one that the next bang leaves. -/
theorem alternating_bang (v : R) (n : Nat) :
    (if v == 0 then alternating top 0 else alternating 0 top) (n + 1) =
      (if v == 0 then top else 0) ::
        (if (if v == 0 then top else 0) == 0 then alternating top 0 else alternating 0 top) n := by
  have hzero : ((0 : R) == 0) = true :=
    LawfulSample.isNumber_of_isFinite LawfulSample.isFinite_zero
  cases hv : v == 0 with
  | true =>
    obtain hne | rfl := htop
    · simp [alternating, hne]
    · simp [alternating]
  | false => simp [alternating, hzero]

theorem sends_alternate (given : List (PortId × Message R))
    (hgiven : ∀ msg, (.regular 0, msg) ∈ given → ∀ x, ¬ msg.Offers x) :
    ∀ {c : ControlState R} {v : R}, c.store = .toggle v top →
      c.sends given = ((if v == 0 then alternating top 0 else alternating 0 top)
        (given.countP isBangAt0)).map fun w => (0, .ofFloat w) := by
  induction given with
  | nil =>
    intro c v _
    split <;> rfl
  | cons first given ih =>
    intro c v hc
    obtain ⟨inlet, msg⟩ := first
    have ih := @ih fun msg hmem => hgiven msg (List.mem_cons_of_mem _ hmem)
    -- a bang is said and makes the other value the next; all else is silent and keeps the value
    by_cases hbang : isBangAt0 (inlet, msg) = true
    · obtain ⟨hinlet, hmsg⟩ := Bool.and_eq_true_iff.mp hbang
      obtain rfl : inlet = .regular 0 := beq_iff_eq.mp hinlet
      obtain rfl : msg = .bang := Message.isBang_iff.mp hmsg
      have huttered := bang_utters hc
      have hstore : (c.message (.regular 0) .bang).state.store =
          .toggle (if v == 0 then top else 0) top := by
        obtain ⟨_, hemit, -⟩ := huttered
        rw [hemit]
        rfl
      rw [sends, huttered.send?, ih hstore, List.countP_cons_of_pos hbang, alternating_bang htop,
        List.map_cons]
      rfl
    · have hother : inlet = .regular 0 → msg ≠ .bang ∧ ∀ x, ¬ msg.Offers x := by
        rintro rfl
        refine ⟨fun hmsg => hbang ?_, hgiven msg (List.mem_cons_self ..)⟩
        rw [hmsg]
        rfl
      obtain ⟨hstore, -, hnone⟩ := other_silent hc hother
      have hsilent : (c.message inlet msg).emissions.filterMap Emission.send? = [] := by
        refine List.filterMap_eq_nil_iff.mpr fun em hem => ?_
        have hquiet := hnone em hem
        cases em with
        | send | publish => cases hquiet
        | subscribe | unsubscribe => rfl
      rw [sends, hsilent, List.nil_append, ih (hstore.trans hc), List.countP_cons_of_neg hbang]

theorem Flips.of_store {c : ControlState R} {v : R} (hc : c.store = .toggle v top) :
    c.Flips v top where
  holds := hc
  bang := bang_utters hc
  value := value_utters hc
  set := set_quiet hc
  other _ _ := other_silent hc
  alternates given hgiven := sends_alternate htop given hgiven hc

end

theorem message_toggle {c : ControlState R} {v top : R} (hc : c.store = .toggle v top)
    (inlet : PortId) (msg : Message R) :
    ∃ w, (c.message inlet msg).state.store = .toggle w top := by
  obtain hsame | hbang | ⟨payload, haccepted⟩ := (c.message_store inlet msg).2
  · exact ⟨v, hsame.trans hc⟩
  · exact ⟨_, by rw [hbang, hc]; rfl⟩
  · rw [hc, Store.accept?, Option.map_eq_some_iff] at haccepted
    obtain ⟨w, -, hw⟩ := haccepted
    exact ⟨w, hw.symm⟩

theorem after_toggle (given : List (PortId × Message R)) {c : ControlState R} {v top : R}
    (hc : c.store = .toggle v top) : ∃ w, (c.after given).store = .toggle w top := by
  refine after_keeps (I := fun c => ∃ w, c.store = .toggle w top) ?_ given ⟨v, hc⟩
  rintro c inlet msg ⟨w, hw⟩
  exact message_toggle hw inlet msg

end ControlState

/-! ## From the arguments on -/

theorem Control.boundArgOr_given {raw : List (Token R)} {i : Nat} {nodeType : String}
    {default m v : R} (hraw : raw[i]? = some (.float m))
    (h : boundArgOr raw i nodeType default = .ok v) : v = m := by
  obtain ⟨found, hfound, h⟩ := except_bind_ok.mp h
  rw [floatArg, hraw] at hfound
  cases hfound
  dsimp only at h
  split at h
  · cases h
    rfl
  · cases h

/-- A toggle that is built with a number other than zero flips between zero and that number if it
is positive. If it is negative the toggle goes to zero with every bang. In both cases it takes the
numbers that it is sent as they are, and goes on from there. -/
theorem ControlState.flips_between_zero_and_top [LawfulSample R] {raw : List (Token R)} {m : R}
    (hraw : raw[0]? = some (.float m)) (hm : (m == 0) = false) {a : ControlArgs R}
    (hread : ControlKind.toggle.blueprint.readArgs raw = .ok a) (wired : Wired) :
    let top := if Sample.le 0 m then m else 0
    ∃ d v, (ControlKind.toggle.blueprint.declare a wired).ending = .done d ∧
      a.initValue = .float v ∧ d.state.store = .toggle v top ∧
      ∀ given, ∃ w, (d.state.after given).Flips w top := by
  intro top
  obtain ⟨hi, hhi, hloaded⟩ := Control.switchArgs_ok hread
  obtain rfl := Control.boundArgOr_given hraw hhi
  obtain ⟨v, hv⟩ := Control.loadedArgs_init hloaded
  have hstart : (Control.startStore .toggle a).ending = .done (.toggle v top) := by
    have hmax : (Bounds.between 0 hi).max = top := by
      simp only [Bounds.between, top]
      split <;> rfl
    simp only [Control.startStore, hv, Control.loadedArgs_bounds hloaded, hmax]
    rfl
  refine ⟨_, v, Traced.bind_done.mpr ⟨_, hstart, rfl⟩, hv, rfl, fun given => ?_⟩
  have htop : (top == 0) = false ∨ top = 0 := by
    by_cases hle : Sample.le 0 hi = true
    · exact Or.inl (by simpa only [top, if_pos hle] using hm)
    · exact Or.inr (if_neg hle)
  obtain ⟨w, hw⟩ := after_toggle given (c := ⟨.toggle, .toggle v top, a.sendBus, a.receiveBus⟩) rfl
  exact ⟨w, .of_store htop hw⟩

/-- A toggle that is to flip between zero and minus five says zero at every bang. -/
theorem ControlState.flips_to_zero_only :
    let raw : List (Token Float) := [.float (-5)]
    raw[0]? = some (.float (-5)) ∧ ((-5 : Float) == 0) = false ∧
    ∃ a, ControlKind.toggle.blueprint.readArgs raw = .ok a ∧ ∀ wired,
      ∃ d v, (ControlKind.toggle.blueprint.declare a wired).ending = .done d ∧
        a.initValue = .float v ∧ d.state.store = .toggle v 0 ∧
        ∀ given, ∃ w, (d.state.after given).Flips w 0 := by
  intro raw
  have hm : ((-5 : Float) == 0) = false := by decide +kernel
  have htop : (if Sample.le 0 (-5 : Float) then (-5 : Float) else 0) = 0 := by decide +kernel
  refine ⟨rfl, hm, _, rfl, fun wired => ?_⟩
  have h := flips_between_zero_and_top (rfl : raw[0]? = some (.float (-5))) hm rfl wired
  simp only [htop] at h
  exact h

end Patchbay
