import Patchbay.Proofs.DropSound

/-!
# Setting a value and saying it

A control that is told to set a value holds it in silence, and says it at the next bang: together
that is what the value alone does. The toggle is left out, for it takes a bang as a flip.
-/

namespace Patchbay

variable {R : Type} [Sample R]

/-! ## What a control takes as a value -/

namespace Control

omit [Sample R] in
inductive IsCommand : Message R → Prop
  | bang : IsCommand .bang
  | rebind {msg : Message R} (h : msg.Rebinds) : IsCommand msg
  | set {t : Token R} {rest : Message R} : IsCommand (.symbol "set" :: t :: rest)

theorem ofMessage_value {msg : Message R} (h : ¬ IsCommand msg) :
    Command.ofMessage msg = .value msg := by
  have hbang : ¬ msg.isBang = true := fun hbang => h (Message.isBang_iff.mp hbang ▸ .bang)
  have hunbound : ∀ word, word = "send" ∨ word = "receive" →
      (if msg.startsWith word then rebindTarget? msg else none) = none := by
    refine fun word hword => Option.eq_none_iff_forall_ne_some.mpr fun bus hbus => ?_
    obtain ⟨t, ht⟩ := pair_of_word hbus
    obtain rfl | rfl := hword
    · exact h (.rebind ⟨t, Or.inl ht⟩)
    · exact h (.rebind ⟨t, Or.inr ht⟩)
  have hset : ¬ (msg.startsWith "set" && msg.length > 1) = true := by
    intro hset
    obtain ⟨hword, hlength⟩ := Bool.and_eq_true_iff.mp hset
    rw [Message.eq_of_startsWith hword] at h hlength
    cases hrest : msg.shift with
    | nil => simp [hrest] at hlength
    | cons t rest => exact h (hrest ▸ .set)
  simp only [Command.ofMessage, hbang, hunbound "send" (Or.inl rfl),
    hunbound "receive" (Or.inr rfl), hset, Bool.false_eq_true, if_false]

theorem ofMessage_set (first : Token R) (rest : Message R) :
    Command.ofMessage (.symbol "set" :: first :: rest) = .set (first :: rest) := by
  rfl

end Control

omit [Sample R] in
theorem Message.isSome_singleFloat? {msg : Message R} :
    msg.singleFloat?.isSome = true ↔ ∃ v, msg = [.float v] := by
  simp only [Option.isSome_iff_exists, singleFloat?_eq_some]

namespace Store

omit [Sample R] in
inductive Admits : Store R → Message R → Prop
  | float {held v : R} {bounds : Option (Bounds R)} : Admits (.float held bounds) [.float v]
  | toggle {held top v : R} : Admits (.toggle held top) [.float v]
  | symbol {held name : String} : Admits (.symbol held) [.symbol name]
  | named {held name : String} : Admits (.symbol held) [.symbol "symbol", .symbol name]
  | list {held : Message R} {first : Token R} {rest : Message R} :
    Admits (.list held) (first :: rest)

theorem accept?_isSome_iff (st : Store R) (payload : Message R) :
    (st.accept? payload).isSome = true ↔ st.Admits payload := by
  cases st with
  | float held bounds =>
    rw [accept?, Option.isSome_map, Message.isSome_singleFloat?]
    constructor
    · rintro ⟨v, rfl⟩
      exact .float
    · rintro (_ | _)
      exact ⟨_, rfl⟩
  | toggle held top =>
    rw [accept?, Option.isSome_map, Message.isSome_singleFloat?]
    constructor
    · rintro ⟨v, rfl⟩
      exact .toggle
    · rintro (_ | _)
      exact ⟨_, rfl⟩
  | symbol held =>
    constructor
    · intro h
      rcases payload with _ | ⟨first, _ | ⟨second, _ | ⟨third, rest⟩⟩⟩
      · cases h
      · cases first with
        | float v => cases h
        | symbol name => exact .symbol
      · by_cases hword : Message.startsWith [first, second] "symbol" = true
        · rw [Message.eq_of_startsWith hword] at h ⊢
          cases second with
          | float v => cases h
          | symbol name => exact .named
        · simp [accept?, hword] at h
      · simp [accept?] at h
    · rintro (_ | _) <;> rfl
  | list held =>
    cases payload with
    | nil => exact ⟨fun h => (by cases h), fun h => (by cases h)⟩
    | cons first rest => exact ⟨fun _ => .list, fun _ => rfl⟩

def isToggle : Store R → Bool
  | .toggle .. => true
  | .float .. | .symbol _ | .list _ => false

theorem onBang_of_not_toggle {st : Store R} (h : st.isToggle = false) : st.onBang = st := by
  cases st with
  | toggle => cases h
  | float | symbol | list => rfl

theorem accept?_isToggle {st st' : Store R} {payload : Message R}
    (h : st.accept? payload = some st') : st'.isToggle = st.isToggle := by
  cases st with
  | float | toggle | symbol =>
    obtain ⟨_, -, rfl⟩ := Option.map_eq_some_iff.mp h
    rfl
  | list held =>
    cases payload with
    | nil => cases h
    | cons first rest =>
      cases h
      rfl

end Store

namespace ControlState

structure Plain (c : ControlState R) : Prop where
  ordered : c.store.Ordered
  lasting : c.store.isToggle = false

/-! ## One payload, set or said -/

section
variable {c : ControlState R} (hc : c.Plain)
include hc

theorem message_bang_plain : c.message (.regular 0) .bang = .emit c c.emissions := by
  have hmessage : c.message (.regular 0) .bang =
      .emit { c with store := c.store.onBang }
        { c with store := c.store.onBang : ControlState R }.emissions := rfl
  rw [hmessage, Store.onBang_of_not_toggle hc.lasting]

variable [LawfulSample R] {payload : Message R} {store : Store R}
  (haccept : c.store.accept? payload = some store)
include haccept

theorem Plain.accept : ({ c with store := store } : ControlState R).Plain where
  ordered := (Store.accept?_sound hc.ordered haccept).2
  lasting := (Store.accept?_isToggle haccept).trans hc.lasting

theorem settle_accepted : c.settle store = .quiet { c with store := store } := by
  rw [settle, if_pos (Store.accept?_sound hc.ordered haccept).1]

theorem message_value_accepted (hvalue : ¬ Control.IsCommand payload) :
    c.message (.regular 0) payload =
      .emit { c with store := store } { c with store := store : ControlState R }.emissions := by
  simp [message, Control.ofMessage_value hvalue, haccept, settle_accepted hc haccept,
    Handled.quiet, Handled.emit]

end

theorem message_refused {c : ControlState R} {payload : Message R} (hempty : payload ≠ [])
    (hvalue : ¬ Control.IsCommand payload) (hrefused : c.store.accept? payload = none) :
    (c.message (.regular 0) (.symbol "set" :: payload)).Drops c ∧
      (c.message (.regular 0) payload).Drops c := by
  obtain ⟨first, rest, rfl⟩ := List.exists_cons_of_ne_nil hempty
  constructor
  · simp [message, Control.ofMessage_set, hrefused, Notice.isDrop]
  · simp [message, Control.ofMessage_value hvalue, hrefused, Notice.isDrop]

/-- Setting the payload is silent, and a bang after it comes to what the payload alone comes to: the
control holds the value and says it. A payload that is no value for the control is dropped both ways.
-/
def SetsAs (c : ControlState R) (payload : Message R) : Prop :=
  (c.store.Admits payload → ∃ store, c.store.accept? payload = some store ∧
    let holding := { c with store := store }
    c.message (.regular 0) (.symbol "set" :: payload) = .quiet holding ∧
      holding.message (.regular 0) .bang = .emit holding holding.emissions ∧
      c.message (.regular 0) payload = .emit holding holding.emissions) ∧
  (¬ c.store.Admits payload → (c.message (.regular 0) (.symbol "set" :: payload)).Drops c ∧
    (c.message (.regular 0) payload).Drops c)

theorem Plain.setsAs [LawfulSample R] {c : ControlState R} (hc : c.Plain) {payload : Message R}
    (hempty : payload ≠ []) (hvalue : ¬ Control.IsCommand payload) : c.SetsAs payload := by
  unfold SetsAs
  simp only [← Store.accept?_isSome_iff]
  cases haccept : c.store.accept? payload with
  | some store =>
    refine ⟨fun _ => ⟨store, rfl, ?_, ?_, ?_⟩, fun hnone => absurd rfl hnone⟩
    · obtain ⟨first, rest, rfl⟩ := List.exists_cons_of_ne_nil hempty
      simp [message, Control.ofMessage_set, haccept, settle_accepted hc haccept]
    · exact message_bang_plain (Plain.accept hc haccept)
    · exact message_value_accepted hc haccept hvalue
  | none =>
    exact ⟨fun hsome => absurd hsome Bool.false_ne_true,
      fun _ => message_refused hempty hvalue haccept⟩

/-! ## A control over its life -/

theorem Plain.message [LawfulSample R] {c : ControlState R} (hc : c.Plain) (inlet : PortId)
    (msg : Message R) : (c.message inlet msg).state.Plain where
  ordered := (c.message_sound hc.ordered inlet msg).2
  lasting := by
    obtain hsame | hbang | ⟨payload, haccepted⟩ := (c.message_store inlet msg).2
    · rw [hsame]
      exact hc.lasting
    · rw [hbang, Store.onBang_of_not_toggle hc.lasting]
      exact hc.lasting
    · exact (Store.accept?_isToggle haccepted).trans hc.lasting

end ControlState

theorem Control.startStore_isToggle {kind : ControlKind} (hkind : kind ≠ .toggle)
    {a : ControlArgs R} {store : Store R} (h : (startStore kind a).ending = .done store) :
    store.isToggle = false := by
  unfold startStore at h
  cases hinit : a.initValue with
  | float v =>
    simp only [hinit, if_neg hkind] at h
    obtain ⟨_, -, h⟩ := Traced.bind_done.mp h
    cases h
    rfl
  | symbol name =>
    simp only [hinit] at h
    cases h
    rfl
  | list msg =>
    simp only [hinit] at h
    cases h
    rfl

/-- Whatever a control other than a toggle was built with and was told before, setting a payload
that is no command and then a bang do what the payload alone does. -/
theorem ControlState.set_and_bang_as_value [LawfulSample R] {kind : ControlKind}
    (hkind : kind ≠ .toggle) {raw : List (Token R)} {a : ControlArgs R}
    (hread : kind.blueprint.readArgs raw = .ok a) (wired : Wired) :
    ∃ d, (kind.blueprint.declare a wired).ending = .done d ∧
      ∀ given payload, payload ≠ [] → ¬ Control.IsCommand payload →
        (d.state.after given).SetsAs payload := by
  obtain ⟨store, hstore, hordered⟩ :=
    Control.startStore_done kind fun b => Control.readArgs_ordered hread
  refine ⟨_, Traced.bind_done.mpr ⟨store, hstore, rfl⟩, fun given payload hempty hvalue => ?_⟩
  have hplain : (⟨kind, store, a.sendBus, a.receiveBus⟩ : ControlState R).Plain :=
    ⟨hordered, Control.startStore_isToggle hkind hstore⟩
  have hafter : (ControlState.after _ given).Plain :=
    after_keeps (fun _ inlet msg hc => hc.message inlet msg) given hplain
  exact hafter.setsAs hempty hvalue

/-- A symbol with its word in front, for an atom that was told to listen on its own send bus. -/
theorem ControlState.set_and_bang_as_value_named :
    let raw : List (Token Float) := [.float 0, .float 0, .symbol "empty", .symbol "A"]
    let given : List (PortId × Message Float) := [(.regular 0, [.symbol "receive", .symbol "A"])]
    let payload : Message Float := [.symbol "symbol", .symbol "x"]
    ControlKind.symbolAtom ≠ .toggle ∧ payload ≠ [] ∧ ¬ Control.IsCommand payload ∧
    ∃ a, ControlKind.symbolAtom.blueprint.readArgs raw = .ok a ∧ ∀ wired,
      ∃ d, (ControlKind.symbolAtom.blueprint.declare a wired).ending = .done d ∧
        let c := d.state.after given
        let holding : ControlState Float := { c with store := .symbol "x" }
        c.store.Admits payload ∧
          c.message (.regular 0) (.symbol "set" :: payload) = .quiet holding ∧
          holding.message (.regular 0) .bang = .emit holding [.send 0 [.symbol "x"]] ∧
          c.message (.regular 0) payload = .emit holding [.send 0 [.symbol "x"]] := by
  intro raw given payload
  have hkind : ControlKind.symbolAtom ≠ .toggle := by decide
  have hempty : payload ≠ [] := by decide
  have hvalue : ¬ Control.IsCommand payload := by
    intro h
    generalize hpayload : payload = p at h
    cases h with
    | bang => simp [payload, Message.bang] at hpayload
    | set => simp [payload] at hpayload
    | rebind h =>
      obtain ⟨t, rfl | rfl⟩ := h
      · simp [payload] at hpayload
      · simp [payload] at hpayload
  have hread : ControlKind.symbolAtom.blueprint.readArgs raw = .ok _ := rfl
  refine ⟨hkind, hempty, hvalue, _, hread, fun wired => ?_⟩
  obtain ⟨d, hd, hall⟩ := set_and_bang_as_value hkind hread wired
  refine ⟨d, hd, ?_⟩
  cases hd
  obtain ⟨store, haccept, hset, hbang, hsaid⟩ := (hall given payload hempty hvalue).1 .named
  cases haccept
  exact ⟨.named, hset, hbang, hsaid⟩

end Patchbay
