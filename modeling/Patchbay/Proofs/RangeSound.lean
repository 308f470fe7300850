import Patchbay.Proofs.BindingSound

/-!
# Values within their bounds

A number box, a slider, a radio and a bounded atom hold a number of their range, whatever they were
built with and whatever they are sent, and say no other. A number they accept becomes the nearest
one of the range.
-/

namespace Patchbay

variable {R : Type} [Sample R]

/-! ## The nearest value of a range -/

/-- `w` is what `v` becomes in the range: itself, or the end that it lies beyond. What is no number
becomes the lower end. -/
structure Bounds.Nearest (b : Bounds R) (v w : R) : Prop where
  inside : b.contains v = true → (w == v) = true
  below : Sample.lt v b.min = true → w = b.min
  above : Sample.lt b.max v = true → w = b.max
  otherwise : Sample.isNumber v = false → w = b.min

namespace Bounds

open LawfulSample LinearSample

section
variable [LawfulSample R] {b : Bounds R} (h : b.Ordered) {u v : R}
include h

theorem clamp_of_larger (hu : Sample.larger v b.min = u) (hnum : Sample.isNumber u = true) :
    b.clamp v = if Sample.lt b.max u then b.max else u := by
  obtain ⟨_, hmax⟩ := numbers_of_le h
  simp [clamp, hu, Sample.smaller, hnum, hmax]

theorem larger_of_number (hv : Sample.isNumber v = true) :
    Sample.larger v b.min = if Sample.lt v b.min then b.min else v := by
  obtain ⟨hmin, _⟩ := numbers_of_le h
  simp [Sample.larger, hv, hmin]

end

/-- Clamping finds the nearest value. -/
theorem nearest_clamp [LinearSample R] {b : Bounds R} (h : b.Ordered) (v : R) :
    b.Nearest v (b.clamp v) := by
  obtain ⟨hmin, hmax⟩ := numbers_of_le h
  have hlow : ∀ {u : R}, Sample.larger u b.min = b.min → b.clamp u = b.min := by
    intro u hu
    rw [clamp_of_larger h hu hmin, not_lt_of_le h]
    rfl
  constructor
  case inside =>
    intro hin
    obtain ⟨hlo, hhi⟩ := Bool.and_eq_true_iff.mp hin
    have hv := (numbers_of_le hlo).2
    have hlarger : Sample.larger v b.min = v := by
      rw [larger_of_number h hv, not_lt_of_le hlo]
      rfl
    rw [clamp_of_larger h hlarger hv, not_lt_of_le hhi]
    exact hv
  case below =>
    intro hlt
    have hv := (numbers_of_le (le_of_lt hlt)).1
    exact hlow (by rw [larger_of_number h hv, if_pos hlt])
  case above =>
    intro hlt
    have hv := (numbers_of_le (le_of_lt hlt)).2
    -- above the upper end is not below the lower one
    have hnot : Sample.lt v b.min = false := by
      refine Bool.eq_false_iff.mpr fun hbelow => ?_
      have hback := not_lt_of_le (le_of_lt (lt_of_lt_of_le hbelow h))
      rw [hlt] at hback
      cases hback
    have hlarger : Sample.larger v b.min = v := by
      rw [larger_of_number h hv, hnot]
      rfl
    rw [clamp_of_larger h hlarger hv, if_pos hlt]
  case otherwise =>
    exact fun hv => hlow (by simp [Sample.larger, hv])

end Bounds

/-! ## What a control with bounds holds -/

omit [Sample R] in
theorem Message.singleFloat?_eq_some {m : Message R} {v : R} :
    m.singleFloat? = some v ↔ m = [.float v] := by
  rcases m with _ | ⟨t, _ | ⟨u, m⟩⟩
  · simp [singleFloat?, isSingleFloat]
  · cases t <;> simp [singleFloat?, isSingleFloat, isFloatAt, floatAt?, Token.isFloat, Token.float?]
  · simp [singleFloat?, isSingleFloat]

omit [Sample R] in
def Emission.message? : Emission R → Option (Message R)
  | .send _ msg | .publish _ msg => some msg
  | .subscribe .. | .unsubscribe .. => none

def Emission.Within (b : Bounds R) (em : Emission R) : Prop :=
  ∀ msg, em.message? = some msg → ∃ w, msg = [.float w] ∧ b.contains w = true

def Message.Offers (msg : Message R) (v : R) : Prop :=
  msg = [.float v] ∨ msg = [.symbol "set", .float v]

def Store.Within (b : Bounds R) (st : Store R) : Prop :=
  ∃ v, st = .float v (some b) ∧ b.contains v = true

omit [Sample R] in
/-- What the control sends and publishes of itself is the value that it holds. -/
theorem ControlState.message?_emissions {c : ControlState R} :
    ∀ em ∈ c.emissions, em.message? = some c.store.message := by
  intro em hem
  obtain rfl | ⟨_, _, _, rfl⟩ := mem_emissions hem <;> rfl

theorem Store.Within.emissions_within {b : Bounds R} {c : ControlState R} (h : c.store.Within b) :
    ∀ em ∈ c.emissions, em.Within b := by
  intro em hem msg hmsg
  obtain ⟨v, hv, hin⟩ := h
  rw [ControlState.message?_emissions em hem, Option.some.injEq, hv] at hmsg
  exact ⟨v, hmsg.symm, hin⟩

theorem Store.Within.accept? {b : Bounds R} {st : Store R} (h : st.Within b) (m : Message R) :
    st.accept? m = m.singleFloat?.map fun v => .float (b.clamp v) (some b) := by
  obtain ⟨v, rfl, _⟩ := h
  rfl

omit [Sample R] in
theorem Message.eq_of_startsWith {msg : Message R} {word : String}
    (h : msg.startsWith word = true) : msg = .symbol word :: msg.shift := by
  rcases msg with _ | ⟨t, rest⟩
  · cases h
  · cases t with
    | float v => cases h
    | symbol name =>
      simp only [startsWith, symbolAt?, List.length_cons, Nat.zero_lt_succ, getElem?_pos,
        List.getElem_cons_zero, Option.bind_some, Token.symbol?, beq_iff_eq, Option.some.injEq] at h
      rw [h]
      rfl

/-- What a message hands over is the message, or what stands behind its word `set`. -/
theorem Control.payload_of_command {msg payload : Message R}
    (h : Command.ofMessage msg = .value payload ∨ Command.ofMessage msg = .set payload) :
    msg = payload ∨ msg = .symbol "set" :: payload := by
  unfold Command.ofMessage at h
  split at h
  · simp at h
  · split at h
    · simp at h
    · split at h
      · simp at h
      · split at h
        · rename_i hset
          simp only [reduceCtorEq, Command.set.injEq, false_or] at h
          rw [← h]
          exact Or.inr (Message.eq_of_startsWith (Bool.and_eq_true_iff.mp hset).1)
        · simp only [reduceCtorEq, Command.value.injEq, or_false] at h
          exact Or.inl h

namespace ControlState

section
variable {b : Bounds R} {c : ControlState R} (hc : c.store.Within b)
include hc

theorem store_of_no_offer {inlet : PortId} {msg : Message R}
    (h : inlet = .regular 0 → ∀ v, ¬ msg.Offers v) :
    (c.message inlet msg).state.store = c.store := by
  by_cases hinlet : inlet = .regular 0
  · have hnone : ∀ {payload}, Control.Command.ofMessage msg = .value payload ∨
        Control.Command.ofMessage msg = .set payload → c.store.accept? payload = none := by
      intro payload hcommand
      rw [hc.accept?, Option.map_eq_none_iff]
      refine Option.eq_none_iff_forall_ne_some.mpr fun v hv => h hinlet v ?_
      obtain rfl := Message.singleFloat?_eq_some.mp hv
      exact Control.payload_of_command hcommand
    cases hcommand : Control.Command.ofMessage msg with
    | bang =>
      obtain ⟨v, hv, _⟩ := hc
      simp [message, hinlet, hcommand, Handled.emit, hv, Store.onBang]
    | bindSend bus => simp [message, hinlet, hcommand, Handled.quiet]
    | bindReceive bus => simp [message, hinlet, hcommand, rebindReceive, Handled.emit]
    | set payload => simp [message, hinlet, hcommand, hnone (Or.inr hcommand), Handled.notify]
    | value payload => simp [message, hinlet, hcommand, hnone (Or.inl hcommand), Handled.notify]
  · simp [message, hinlet, Handled.notify]

variable [LawfulSample R] (hb : b.Ordered)
include hb

/-- A number that is offered is held as the nearest of the range. -/
theorem store_of_offers {msg : Message R} {v : R} (h : msg.Offers v) :
    (c.message (.regular 0) msg).state.store = .float (b.clamp v) (some b) := by
  have haccept : c.store.accept? [.float v] = some (.float (b.clamp v) (some b)) := by
    rw [hc.accept?, Message.singleFloat?_eq_some.mpr rfl, Option.map_some]
  have hin : (Store.float (b.clamp v) (some b)).inBounds = true := b.contains_clamp hb v
  have hsettle : c.settle (.float (b.clamp v) (some b)) =
      .quiet { c with store := .float (b.clamp v) (some b) } := by rw [settle, if_pos hin]
  rcases h with rfl | rfl
  · have hcommand : Control.Command.ofMessage [Token.float v] = .value [.float v] := rfl
    simp [message, hcommand, haccept, hsettle, Handled.quiet]
  · have hcommand :
        Control.Command.ofMessage [.symbol "set", Token.float v] = .set [.float v] := rfl
    simp [message, hcommand, haccept, hsettle, Handled.quiet]

theorem message_within (inlet : PortId) (msg : Message R) :
    (c.message inlet msg).state.store.Within b := by
  by_cases h : inlet = .regular 0 ∧ ∃ v, msg.Offers v
  · obtain ⟨rfl, v, hv⟩ := h
    exact ⟨b.clamp v, store_of_offers hc hb hv, b.contains_clamp hb v⟩
  · rw [store_of_no_offer hc fun hinlet v hv => h ⟨hinlet, v, hv⟩]
    exact hc

theorem message_emissions_within (inlet : PortId) (msg : Message R) :
    ∀ em ∈ (c.message inlet msg).emissions, em.Within b := by
  intro em hem
  rcases c.message_cases inlet msg with ⟨-, hnone | hown⟩ | ⟨bus, -, -, hbind⟩
  · rw [hnone] at hem
    cases hem
  · rw [hown] at hem
    exact (message_within hc hb inlet msg).emissions_within em hem
  · rw [hbind] at hem
    intro said hsaid
    have hrebinds := c.rebinds_rebindReceive bus em hem
    cases em with
    | send outlet said | publish name said => cases hrebinds
    | subscribe name port | unsubscribe name port => cases hsaid

end

/-! ## A control over its life -/

def after (c : ControlState R) (given : List (PortId × Message R)) : ControlState R :=
  given.foldl (fun c (inlet, msg) => (c.message inlet msg).state) c

theorem after_keeps {I : ControlState R → Prop}
    (hstep : ∀ c inlet msg, I c → I (c.message inlet msg).state)
    (given : List (PortId × Message R)) : ∀ {c : ControlState R}, I c → I (c.after given) := by
  induction given with
  | nil => exact fun hc => hc
  | cons first given ih => exact fun hc => ih (hstep _ first.1 first.2 hc)

theorem after_within [LawfulSample R] {b : Bounds R} (hb : b.Ordered)
    (given : List (PortId × Message R)) {c : ControlState R} (hc : c.store.Within b) :
    (c.after given).store.Within b :=
  after_keeps (I := fun c => c.store.Within b)
    (fun _ inlet msg hc => message_within hc hb inlet msg) given hc

/-- The control holds a number of its range, whatever it is told next leaves it one, and all it says
is such a number. It takes the numbers that inlet 0 offers, each as the nearest of the range, and
nothing else. -/
structure Confined (c : ControlState R) (b : Bounds R) : Prop where
  holds : c.store.Within b
  speaks : ∀ em ∈ c.configure.emissions, em.Within b
  goesOn : ∀ inlet msg, (c.message inlet msg).fault = none
  keeps : ∀ inlet msg, (c.message inlet msg).state.store.Within b
  answers : ∀ inlet msg, ∀ em ∈ (c.message inlet msg).emissions, em.Within b
  takes : ∀ msg v, msg.Offers v →
    ∃ w, (c.message (.regular 0) msg).state.store = .float w (some b) ∧ b.Nearest v w
  stays : ∀ inlet msg, (inlet = .regular 0 → ∀ v, ¬ msg.Offers v) →
    (c.message inlet msg).state.store = c.store

theorem Confined.of_within [LinearSample R] {b : Bounds R} (hb : b.Ordered) {c : ControlState R}
    (hc : c.store.Within b) : c.Confined b where
  holds := hc
  speaks := hc.emissions_within
  goesOn inlet msg := by
    obtain ⟨v, hv, _⟩ := hc
    exact (c.message_sound (by rw [hv]; exact hb) inlet msg).1
  keeps := message_within hc hb
  answers := message_emissions_within hc hb
  takes msg v h := ⟨b.clamp v, store_of_offers hc hb h, b.nearest_clamp hb v⟩
  stays _ _ := store_of_no_offer hc

end ControlState

/-! ## From the arguments on -/

def ControlKind.isNumeric : ControlKind → Bool
  | floatAtom | numberBox | horizontalSlider | verticalSlider | horizontalRadio | verticalRadio =>
    true
  | symbolAtom | listBox | toggle => false

namespace Control

theorem readArgs_numeric {kind : ControlKind} (hkind : kind.isNumeric = true)
    {raw : List (Token R)} {a : ControlArgs R} (h : readArgs kind raw = .ok a) :
    (∃ v, a.initValue = .float v) ∧ (kind ≠ .floatAtom → a.bounds.isSome = true) := by
  have loaded : ∀ {i : Nat} {bounds : Bounds R}, loadedArgs raw i kind.name bounds = .ok a →
      (∃ v, a.initValue = .float v) ∧ (kind ≠ .floatAtom → a.bounds.isSome = true) :=
    fun h => ⟨loadedArgs_init h, fun _ => by rw [loadedArgs_bounds h]; rfl⟩
  cases kind with
  | numberBox | horizontalSlider | verticalSlider =>
    obtain ⟨_, _, _, _, h⟩ := sliderArgs_ok h
    exact loaded h
  | horizontalRadio | verticalRadio =>
    obtain ⟨_, _, h⟩ := switchArgs_ok h
    exact loaded h
  | floatAtom =>
    obtain ⟨_, _, h⟩ := except_bind_ok.mp h
    obtain ⟨_, _, h⟩ := except_bind_ok.mp h
    cases h
    exact ⟨⟨0, rfl⟩, fun hne => absurd rfl hne⟩
  | symbolAtom | listBox | toggle => cases hkind

theorem declare_numeric [LawfulSample R] {kind : ControlKind} (hkind : kind.isNumeric = true)
    {a : ControlArgs R} {v : R} {b : Bounds R} (hv : a.initValue = .float v)
    (hb : a.bounds = some b) (hord : b.Ordered) :
    ∃ d, (declare kind a).ending = .done d ∧ d.state.store = .float (b.clamp v) (some b) := by
  have htoggle : kind ≠ .toggle := by
    rintro rfl
    cases hkind
  have hin : b.contains (b.clamp v) = true := b.contains_clamp hord v
  have hstore : (startStore kind a).ending = .done (.float (b.clamp v) (some b)) := by
    simp only [startStore, hv, hb, if_neg htoggle]
    exact Traced.bind_done.mpr ⟨(), Invariant.check_done.mpr hin, rfl⟩
  exact ⟨_, Traced.bind_done.mpr ⟨_, hstore, rfl⟩, rfl⟩

end Control

/-- A numeric control with a range, built from any arguments that can be read, has a finite range
with its ends in order. It starts with the nearest value of what it was built to hold, and keeps to
the range whatever it is told. -/
theorem ControlState.stays_in_range [LinearSample R] {kind : ControlKind}
    (hkind : kind.isNumeric = true) {raw : List (Token R)} {a : ControlArgs R}
    (hread : kind.blueprint.readArgs raw = .ok a) :
    (kind ≠ .floatAtom → a.bounds.isSome = true) ∧
    ∀ b, a.bounds = some b →
      (Sample.isFinite b.min = true ∧ Sample.isFinite b.max = true ∧ Sample.le b.min b.max = true) ∧
      ∀ wired, ∃ d v w, (kind.blueprint.declare a wired).ending = .done d ∧
        a.initValue = .float v ∧ d.state.store = .float w (some b) ∧ b.Nearest v w ∧
        ∀ given, (d.state.after given).Confined b := by
  obtain ⟨⟨v, hv⟩, hbounds⟩ := Control.readArgs_numeric hkind hread
  refine ⟨hbounds, fun b hb => ?_⟩
  have hord := Control.readArgs_ordered hread hb
  refine ⟨?_, fun wired => ?_⟩
  · obtain ⟨x, y, hx, hy, hbetween⟩ := Control.readArgs_between hread hb
    refine ⟨?_, ?_, hord⟩
    all_goals
      rw [hbetween, Bounds.between]
      split <;> assumption
  · obtain ⟨d, hd, hstore⟩ := Control.declare_numeric hkind hv hb hord
    have hstart : d.state.store.Within b := ⟨b.clamp v, hstore, b.contains_clamp hord v⟩
    exact ⟨d, v, b.clamp v, hd, hv, hstore, b.nearest_clamp hord v,
      fun given => .of_within hord (after_within hord given hstart)⟩

/-- A number box whose bounds are turned round and that is to start with no number. -/
theorem ControlState.stays_in_range_turned :
    let raw : List (Token Float) := [.float 10, .float (-5), .float 1, .float (0 / 0)]
    ∃ a, ControlKind.numberBox.isNumeric = true ∧
      ControlKind.numberBox.blueprint.readArgs raw = .ok a ∧ a.bounds = some ⟨-5, 10⟩ ∧
      ∀ wired, ∃ d v w, (ControlKind.numberBox.blueprint.declare a wired).ending = .done d ∧
        a.initValue = .float v ∧ d.state.store = .float w (some ⟨-5, 10⟩) ∧
        Bounds.Nearest ⟨-5, 10⟩ v w ∧ ∀ given, (d.state.after given).Confined ⟨-5, 10⟩ := by
  intro raw
  have hread : ∃ a, ControlKind.numberBox.blueprint.readArgs raw = .ok a ∧
      a.bounds = some ⟨-5, 10⟩ := ⟨_, rfl, by decide +kernel⟩
  obtain ⟨a, hread, hb⟩ := hread
  exact ⟨a, rfl, hread, hb, ((stays_in_range rfl hread).2 _ hb).2⟩

end Patchbay
