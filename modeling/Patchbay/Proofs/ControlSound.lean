import Patchbay.Proofs.SampleOrder
import Patchbay.Proofs.StandardStates

/-!
# Handlers never fault

Only a control can refuse to go on: where a value would leave its bounds. Bounds are read in order,
so a clamped value never does, and the handlers of the other nodes have nothing to trip over.
-/

namespace Patchbay

variable {R : Type} [Sample R]

/-! ## Values of controls -/

def Store.Ordered : Store R → Prop
  | .float _ (some b) => b.Ordered
  | _ => True

theorem Store.ordered_onBang {st : Store R} (h : st.Ordered) : st.onBang.Ordered := by
  cases st <;> exact h

section
variable [LawfulSample R]

/-- An accepted value is within the bounds, which stay as they are. -/
theorem Store.accept?_sound {st st' : Store R} {msg : Message R} (h : st.Ordered)
    (hacc : st.accept? msg = some st') : st'.inBounds = true ∧ st'.Ordered := by
  cases st with
  | float v bounds =>
    obtain ⟨w, _, rfl⟩ := Option.map_eq_some_iff.mp hacc
    cases bounds with
    | none => exact ⟨rfl, trivial⟩
    | some b => exact ⟨b.contains_clamp h w, h⟩
  | toggle v max =>
    obtain ⟨w, _, rfl⟩ := Option.map_eq_some_iff.mp hacc
    exact ⟨rfl, trivial⟩
  | symbol name =>
    obtain ⟨w, _, rfl⟩ := Option.map_eq_some_iff.mp hacc
    exact ⟨rfl, trivial⟩
  | list m =>
    simp only [accept?] at hacc
    split at hacc
    · cases hacc
    · cases hacc
      exact ⟨rfl, trivial⟩

theorem ControlState.message_sound (s : ControlState R) (h : s.store.Ordered) (inlet : PortId)
    (msg : Message R) :
    (s.message inlet msg).fault = none ∧ (s.message inlet msg).state.store.Ordered := by
  have hsettle : ∀ {payload store}, s.store.accept? payload = some store →
      s.settle store = .quiet { s with store := store } ∧ store.Ordered := by
    intro payload store hacc
    obtain ⟨hin, hord⟩ := Store.accept?_sound h hacc
    exact ⟨by rw [settle, if_pos hin], hord⟩
  unfold message
  split
  · exact ⟨rfl, h⟩
  · split
    · exact ⟨rfl, Store.ordered_onBang h⟩
    · exact ⟨rfl, h⟩
    · exact ⟨rfl, h⟩
    · split
      · rename_i store hacc
        rw [(hsettle hacc).1]
        exact ⟨rfl, (hsettle hacc).2⟩
      · exact ⟨rfl, h⟩
    · split
      · rename_i store hacc
        rw [(hsettle hacc).1]
        exact ⟨rfl, (hsettle hacc).2⟩
      · exact ⟨rfl, h⟩

end

/-! ## Arguments of controls -/

namespace Control

theorem boundArgOr_finite {raw : List (Token R)} {i : Nat} {nodeType : String} {default v : R}
    (hd : Sample.isFinite default = true) (h : boundArgOr raw i nodeType default = .ok v) :
    Sample.isFinite v = true := by
  obtain ⟨found, _, h⟩ := except_bind_ok.mp h
  cases found with
  | none =>
    cases h
    exact hd
  | some w =>
    dsimp only at h
    split at h
    · rename_i hfinite
      cases h
      exact hfinite
    · cases h

theorem loadedArgs_bounds {raw : List (Token R)} {i : Nat} {nodeType : String} {bounds : Bounds R}
    {a : ControlArgs R} (h : loadedArgs raw i nodeType bounds = .ok a) :
    a.bounds = some bounds := by
  obtain ⟨_, _, h⟩ := except_bind_ok.mp h
  obtain ⟨_, _, h⟩ := except_bind_ok.mp h
  cases h
  rfl

theorem loadedArgs_init {raw : List (Token R)} {i : Nat} {nodeType : String} {bounds : Bounds R}
    {a : ControlArgs R} (h : loadedArgs raw i nodeType bounds = .ok a) :
    ∃ v, a.initValue = .float v := by
  obtain ⟨_, _, h⟩ := except_bind_ok.mp h
  obtain ⟨_, _, h⟩ := except_bind_ok.mp h
  cases h
  exact ⟨_, rfl⟩

theorem sliderArgs_ok {raw : List (Token R)} {nodeType : String} {top : Nat} {a : ControlArgs R}
    (h : sliderArgs raw nodeType top = .ok a) :
    ∃ lo hi, boundArgOr raw 0 nodeType 0 = .ok lo ∧ boundArgOr raw 1 nodeType (top : R) = .ok hi ∧
      loadedArgs raw 2 nodeType (.between lo hi) = .ok a := by
  obtain ⟨lo, hlo, h⟩ := except_bind_ok.mp h
  obtain ⟨hi, hhi, h⟩ := except_bind_ok.mp h
  exact ⟨lo, hi, hlo, hhi, h⟩

theorem switchArgs_ok {raw : List (Token R)} {nodeType : String} {top : Nat} {a : ControlArgs R}
    (h : switchArgs raw nodeType top = .ok a) :
    ∃ hi, boundArgOr raw 0 nodeType (top : R) = .ok hi ∧
      loadedArgs raw 1 nodeType (.between 0 hi) = .ok a := by
  obtain ⟨hi, hhi, h⟩ := except_bind_ok.mp h
  exact ⟨hi, hhi, h⟩

variable [LawfulSample R]

/-- Both ends of bounds that were read are finite, in whichever order they came. -/
theorem readArgs_between {kind : ControlKind} {raw : List (Token R)} {a : ControlArgs R}
    (h : readArgs kind raw = .ok a) {b : Bounds R} (hb : a.bounds = some b) :
    ∃ x y, Sample.isFinite x = true ∧ Sample.isFinite y = true ∧ b = .between x y := by
  have hzero : Sample.isFinite (0 : R) = true := LawfulSample.isFinite_zero
  have slider : ∀ {top : Nat}, top < 128 → sliderArgs raw kind.name top = .ok a →
      ∃ x y, Sample.isFinite x = true ∧ Sample.isFinite y = true ∧ b = .between x y := by
    intro top htop h
    obtain ⟨lo, hi, hlo, hhi, h⟩ := sliderArgs_ok h
    cases hb.symm.trans (loadedArgs_bounds h)
    exact ⟨lo, hi, boundArgOr_finite hzero hlo,
      boundArgOr_finite (LawfulSample.isFinite_natCast htop) hhi, rfl⟩
  have switch : ∀ {top : Nat}, top < 128 → switchArgs raw kind.name top = .ok a →
      ∃ x y, Sample.isFinite x = true ∧ Sample.isFinite y = true ∧ b = .between x y := by
    intro top htop h
    obtain ⟨hi, hhi, h⟩ := switchArgs_ok h
    cases hb.symm.trans (loadedArgs_bounds h)
    exact ⟨0, hi, hzero, boundArgOr_finite (LawfulSample.isFinite_natCast htop) hhi, rfl⟩
  have atom : ∀ {bounded : Bool} {init : ControlValue R},
      atomArgs raw kind.name bounded init = .ok a →
      ∃ x y, Sample.isFinite x = true ∧ Sample.isFinite y = true ∧ b = .between x y := by
    intro bounded init h
    obtain ⟨lo, hlo, h⟩ := except_bind_ok.mp h
    obtain ⟨hi, hhi, h⟩ := except_bind_ok.mp h
    cases h
    dsimp only at hb
    split at hb
    · cases hb
      exact ⟨lo, hi, boundArgOr_finite hzero hlo, boundArgOr_finite hzero hhi, rfl⟩
    · cases hb
  cases kind with
  | numberBox | horizontalSlider | verticalSlider => exact slider (by decide) h
  | horizontalRadio | verticalRadio | toggle => exact switch (by decide) h
  | floatAtom | symbolAtom | listBox => exact atom h

theorem readArgs_ordered {kind : ControlKind} {raw : List (Token R)} {a : ControlArgs R}
    (h : readArgs kind raw = .ok a) {b : Bounds R} (hb : a.bounds = some b) : b.Ordered := by
  obtain ⟨x, y, hx, hy, rfl⟩ := readArgs_between h hb
  exact Bounds.between_ordered hx hy

theorem startStore_done (kind : ControlKind) {a : ControlArgs R}
    (ha : ∀ b, a.bounds = some b → b.Ordered) :
    ∃ store, (startStore kind a).ending = .done store ∧ store.Ordered := by
  obtain ⟨bounds, init, _, _, _⟩ := a
  unfold startStore
  cases init with
  | symbol s => exact ⟨_, rfl, trivial⟩
  | list m => exact ⟨_, rfl, trivial⟩
  | float v =>
    by_cases htoggle : kind = .toggle
    · simp only [htoggle, if_true]
      exact ⟨_, rfl, trivial⟩
    · simp only [htoggle, if_false]
      cases bounds with
      | none => exact ⟨_, Traced.bind_done.mpr ⟨(), Invariant.check_done.mpr rfl, rfl⟩, trivial⟩
      | some b =>
        have hin : b.contains (b.clamp v) = true := b.contains_clamp (ha b rfl) v
        exact ⟨_, Traced.bind_done.mpr ⟨(), Invariant.check_done.mpr hin, rfl⟩, ha b rfl⟩

theorem declare_done (kind : ControlKind) {a : ControlArgs R}
    (ha : ∀ b, a.bounds = some b → b.Ordered) :
    ∃ d, (declare kind a).ending = .done d ∧ d.state.store.Ordered := by
  obtain ⟨store, hstore, hord⟩ := startStore_done kind ha
  exact ⟨_, Traced.bind_done.mpr ⟨store, hstore, rfl⟩, hord⟩

end Control

/-! ## Instances of built-in nodes -/

namespace StandardState

def Tame : StandardState R → Prop
  | control s => s.store.Ordered
  | _ => True

theorem configure_sound (s : StandardState R) (h : s.Tame) (rate : R) :
    (s.configure rate).fault = none ∧ (s.configure rate).state.Tame := by
  cases s <;> exact ⟨rfl, h⟩

theorem tick_tame (s : StandardState R) (h : s.Tame) (inputs own : List R) (rate : R) :
    (s.tick inputs own rate).state.Tame := by
  cases s <;> exact h

variable [LawfulSample R]

theorem message_sound (s : StandardState R) (h : s.Tame) (inlet : PortId) (msg : Message R)
    (rate : R) :
    (s.message inlet msg rate).fault = none ∧ (s.message inlet msg rate).state.Tame := by
  cases s with
  | control s => exact s.message_sound h inlet msg
  | filter s =>
    refine ⟨?_, trivial⟩
    simp only [message, FilterState.message, Handled.map]
    repeat' split
    all_goals rfl
  | oscillator s =>
    refine ⟨?_, trivial⟩
    simp only [message, OscillatorState.message, Handled.map]
    repeat' split
    all_goals rfl
  | constant s =>
    refine ⟨?_, trivial⟩
    simp only [message, ConstantState.message, Handled.map]
    split <;> rfl
  | route s =>
    refine ⟨?_, trivial⟩
    simp only [message, RouteState.message, Handled.map]
    repeat' split
    all_goals rfl
  | print s => exact ⟨rfl, trivial⟩
  | send s =>
    refine ⟨?_, trivial⟩
    simp only [message, SendState.message, Handled.map]
    repeat' split
    all_goals rfl
  | receive s => exact ⟨rfl, trivial⟩

def Sound (s : StandardState R) (t : Topology) : Prop := s.Suits t ∧ s.Tame

theorem keeps_sound : (standard R).Keeps StandardState.Sound :=
  keeps.and (fun rate h => (configure_sound _ h rate).2)
    (fun inlet msg rate h => (message_sound _ h inlet msg rate).2)
    (fun inputs own rate h => tick_tame _ h inputs own rate)

end StandardState

theorem Builtin.declares [LawfulSample R] {node : PatchNode (standard R)}
    (h : Builtin node.type node.args node.topology) (wired : Wired) :
    ∃ d, (node.type.declare node.args wired).ending = .done d ∧
      StandardState.Sound d.state node.topology := by
  have hdone : ∃ d, (node.type.declare node.args wired).ending = .done d ∧ d.state.Tame := by
    obtain ⟨id, name, raw, args, topology, type⟩ := node
    cases h with
    | control kind raw a read =>
      obtain ⟨d, hd, hord⟩ := Control.declare_done kind
        fun b => Control.readArgs_ordered read
      exact ⟨d.map .control, Traced.bind_done.mpr ⟨d, hd, rfl⟩, hord⟩
    | _ => exact ⟨_, rfl, trivial⟩
  obtain ⟨d, hd, htame⟩ := hdone
  exact ⟨d, hd, h.starts wired d hd, htame⟩

end Patchbay
