import Patchbay.Proofs.LinkSound

/-!
# Instances of built-in nodes

Filters, oscillators and constants have signal ports of a known number, and their instances read and
write just these. All other instances let every tick pass.
-/

namespace Patchbay

variable {R : Type} [Sample R]

def StandardState.Suits : StandardState R → Topology → Prop
  | filter _, t => t = Filter.topology
  | oscillator _, t => t = Oscillator.topology
  | constant _, t => t = Constant.topology
  | _, t => t.hasSignalPorts = false

theorem Topology.widths_of_no_signal {t : Topology} (h : t.hasSignalPorts = false) :
    t.inputWidth = 0 ∧ t.outputWidth = 0 := by
  simp only [hasSignalPorts, List.any_append, Bool.or_eq_false_iff, List.any_eq_false] at h
  have hwidth : ∀ ports : List Port, (∀ p ∈ ports, ¬ p.isSignal = true) →
      signalWidth ports = 0 := by
    intro ports hports
    rw [signalWidth, List.filter_eq_nil_iff.mpr hports]
    rfl
  exact ⟨hwidth _ h.1, hwidth _ h.2⟩

/-! ## Ticks -/

omit [Sample R] in
theorem Ticked.write_first {σ : Type} (s : σ) (y : R) {own : List R} (h : 1 ≤ own.length) :
    write s own y = ⟨s, y :: own.drop 1, none⟩ := by
  cases own with
  | nil => cases h
  | cons x rest => rfl

theorem FilterState.tick_spec (s : FilterState R) (rate : R) {inputs : List R}
    (h : 2 ≤ inputs.length) : ∃ s' y, ∀ own, 1 ≤ own.length →
      s.tick inputs own rate = ⟨s', y :: own.drop 1, none⟩ := by
  obtain ⟨x, hx⟩ : ∃ x, inputs[0]? = some x := ⟨_, List.getElem?_eq_getElem (by omega)⟩
  obtain ⟨v, hv⟩ : ∃ v, inputs[1]? = some v := ⟨_, List.getElem?_eq_getElem (by omega)⟩
  obtain ⟨c, hc⟩ : ∃ c, s.coefficient? inputs rate = some c := by
    unfold coefficient?
    cases s.mode <;> simp [hv]
  refine ⟨s.step x c, (s.step x c).lastOutput, fun own ho => ?_⟩
  simp only [tick, hx, hc]
  exact Ticked.write_first _ _ ho

theorem OscillatorState.tick_spec (s : OscillatorState R) (rate : R) {inputs : List R}
    (h : 1 ≤ inputs.length) : ∃ s' y, ∀ own, 1 ≤ own.length →
      s.tick inputs own rate = ⟨s', y :: own.drop 1, none⟩ := by
  obtain ⟨x, hx⟩ : ∃ x, inputs[0]? = some x := ⟨_, List.getElem?_eq_getElem h⟩
  refine ⟨s.advance x rate, s.output, fun own ho => ?_⟩
  simp only [tick, Ticked.write_first _ _ ho, hx]

namespace StandardState

theorem suits_tick {s : StandardState R} {t : Topology} (h : s.Suits t) (inputs own : List R)
    (rate : R) : (s.tick inputs own rate).state.Suits t := by
  cases s <;> exact h

/-- A tick with a sample at every signal inlet fills the signal outlets. What stood there before
makes no difference, and what stands behind them stays. -/
theorem tick_spec {s : StandardState R} {t : Topology} (h : s.Suits t) {inputs : List R}
    (hi : t.inputWidth ≤ inputs.length) (rate : R) :
    ∃ s' ys, ys.length = t.outputWidth ∧ ∀ own, t.outputWidth ≤ own.length →
      s.tick inputs own rate = ⟨s', ys ++ own.drop t.outputWidth, none⟩ := by
  cases s with
  | filter s =>
    cases h
    obtain ⟨s', y, hy⟩ := s.tick_spec rate hi
    exact ⟨filter s', [y], rfl, fun own ho => by simp only [tick, hy own ho, Ticked.map]; rfl⟩
  | oscillator s =>
    cases h
    obtain ⟨s', y, hy⟩ := s.tick_spec rate hi
    exact ⟨oscillator s', [y], rfl, fun own ho => by simp only [tick, hy own ho, Ticked.map]; rfl⟩
  | constant s =>
    cases h
    refine ⟨constant s, [s.value], rfl, fun own ho => ?_⟩
    have hwrite := Ticked.write_first s s.value ho
    simp only [tick, ConstantState.tick, hwrite, Ticked.map]
    rfl
  | _ s =>
    rw [(Topology.widths_of_no_signal h).2]
    exact ⟨_, [], rfl, fun _ _ => rfl⟩

theorem keeps : (standard R).Keeps StandardState.Suits where
  configure {s t} rate h := by
    cases s <;> exact h
  message {s t} inlet msg rate h := by
    cases s <;> exact h
  tick {s t} inputs rate h hi := by
    obtain ⟨s', ys, hys, htick⟩ := tick_spec h hi.ge rate
    have hrun : ∀ own : List R, own.length = t.outputWidth →
        s.tick inputs own rate = ⟨s', ys, none⟩ := by
      intro own ho
      rw [htick own ho.ge, List.drop_eq_nil_of_le ho.le, List.append_nil]
    have hs' := suits_tick h inputs (List.replicate t.outputWidth 0) rate
    rw [hrun _ List.length_replicate] at hs'
    exact ⟨s', ys, hs', hys, hrun⟩

end StandardState

/-! ## Fresh instances -/

omit [Sample R] in
theorem Route.topology_no_signal (a : RouteArgs R) : (Route.topology a).hasSignalPorts = false := by
  have hports : ∀ p ∈ (Route.topology a).inlets ++ (Route.topology a).outlets,
      ∃ i, p = Port.message i := by
    intro p hp
    simp only [Route.topology, List.mem_append, List.mem_map] at hp
    rcases hp with hp | ⟨i, _, rfl⟩
    · split at hp
      · rcases List.mem_pair.mp hp with rfl | rfl <;> exact ⟨_, rfl⟩
      · exact ⟨0, List.mem_singleton.mp hp⟩
    · exact ⟨i, rfl⟩
  refine List.any_eq_false.mpr fun p hp => ?_
  obtain ⟨i, rfl⟩ := hports p hp
  simp [Port.isSignal, Port.message]

theorem Builtin.starts {node : PatchNode (standard R)}
    (h : Builtin node.type node.args node.topology) : Engine.Starts StandardState.Suits node := by
  intro wired d hd
  obtain ⟨id, name, raw, args, topology, type⟩ := node
  cases h with
  | control kind raw a read =>
    obtain ⟨d₀, hd₀, rfl⟩ := Blueprint.declared_of_inFamily hd rfl rfl fun _ => rfl
    rfl
  | route a =>
    obtain ⟨d₀, hd₀, rfl⟩ := Blueprint.declared_of_inFamily hd rfl rfl fun _ => rfl
    exact Route.topology_no_signal a
  | _ =>
    obtain ⟨d₀, hd₀, rfl⟩ := Blueprint.declared_of_inFamily hd rfl rfl fun _ => rfl
    rfl

end Patchbay
