import Mathlib.Order.Interval.Set.UnorderedInterval
import Mathlib.Tactic.Linarith
import Patchbay.Sample.Exact
import Patchbay.Proofs.FilterSound

/-!
# A low pass never overshoots

Counted without rounding, the coefficient of a low pass lies between zero and one, so that every
output lies between the one before it and the input. Outputs stay where the inputs are, and come
closer to an input that lasts.
-/

namespace Patchbay

/-! ## Trailing -/

/-- Every output lies between the one before it, which is `rest` for the first, and its input. -/
def Trails (rest : ℚ) (inputs outputs : List ℚ) : Prop :=
  ∀ (k : Nat) (x : ℚ), inputs[k]? = some x →
    ∃ y z, (rest :: outputs)[k]? = some y ∧ outputs[k]? = some z ∧ z ∈ Set.uIcc y x

namespace Trails

theorem nil (rest : ℚ) (outputs : List ℚ) : Trails rest [] outputs := by
  intro k x hx
  simp at hx

theorem cons {rest x y : ℚ} {inputs outputs : List ℚ} (hy : y ∈ Set.uIcc rest x)
    (h : Trails y inputs outputs) : Trails rest (x :: inputs) (y :: outputs)
  | 0, _, rfl => ⟨rest, y, rfl, rfl, hy⟩
  | k + 1, x', hx => h k x' hx

variable {rest : ℚ} {inputs outputs : List ℚ} (h : Trails rest inputs outputs)
include h

theorem exists_before : ∀ i ≤ inputs.length, ∃ y, (rest :: outputs)[i]? = some y
  | 0, _ => ⟨rest, rfl⟩
  | k + 1, hk => by
    obtain ⟨_, z, -, hz, -⟩ := h k inputs[k] (List.getElem?_eq_getElem hk)
    exact ⟨z, hz⟩

/-- Towards an input that lasts, later outputs lie closer than earlier ones. -/
theorem towards {x : ℚ} {i : Nat} : ∀ n : Nat, i + n ≤ inputs.length →
    (∀ k, i ≤ k → k < i + n → inputs[k]? = some x) →
      ∃ y z, (rest :: outputs)[i]? = some y ∧ (rest :: outputs)[i + n]? = some z ∧
        z ∈ Set.uIcc y x
  | 0, hroom, _ => by
    obtain ⟨y, hy⟩ := h.exists_before i hroom
    exact ⟨y, y, hy, hy, Set.left_mem_uIcc⟩
  | n + 1, hroom, hlasts => by
    obtain ⟨y, z, hy, hz, hbetween⟩ := towards n (by omega) fun k hi hk => hlasts k hi (by omega)
    obtain ⟨z', w, hz', hw, hnext⟩ := h (i + n) x (hlasts (i + n) (by omega) (by omega))
    cases hz.symm.trans hz'
    exact ⟨y, w, hy, hw, Set.uIcc_subset_uIcc_right hbetween hnext⟩

/-- Outputs that start where the inputs are stay there. -/
theorem stays {lo hi : ℚ} (hrest : rest ∈ Set.Icc lo hi)
    (hinputs : ∀ x ∈ inputs, x ∈ Set.Icc lo hi) : ∀ k ≤ inputs.length, ∀ z,
      (rest :: outputs)[k]? = some z → z ∈ Set.Icc lo hi
  | 0, _, _, rfl => hrest
  | k + 1, hk, w, hw => by
    obtain ⟨y, z, hy, hz, hbetween⟩ := h k inputs[k] (List.getElem?_eq_getElem hk)
    cases hw.symm.trans hz
    have hbefore : y ∈ Set.Icc lo hi := stays hrest hinputs k (Nat.le_of_succ_le hk) y hy
    exact Set.uIcc_subset_Icc hbefore (hinputs _ (List.getElem_mem hk)) hbetween

end Trails

variable [Tuning]

/-! ## One step and many -/

namespace FilterKind

theorem coefficient_lop_mem (v rate : ℚ) : lop.coefficient v rate ∈ Set.Icc (0 : ℚ) 1 := by
  simp only [coefficient, Sample.confine, Sample.lt, decide_eq_true_eq]
  split_ifs with hbelow habove
  · exact ⟨le_refl 0, zero_le_one⟩
  · exact ⟨zero_le_one, le_refl 1⟩
  · exact ⟨not_lt.mp hbelow, not_lt.mp habove⟩

theorem recurrence_lop_mem {c : ℚ} (hc : c ∈ Set.Icc (0 : ℚ) 1) (x x₁ y : ℚ) :
    lop.recurrence x c x₁ y ∈ Set.uIcc y x := by
  obtain ⟨hzero, hone⟩ := hc
  rcases le_total y x with hyx | hxy
  · rw [Set.uIcc_of_le hyx]
    constructor <;> simp only [recurrence] <;> nlinarith
  · rw [Set.uIcc_of_ge hxy]
    constructor <;> simp only [recurrence] <;> nlinarith

theorem play_lop : ∀ (inputs cs : List ℚ) (x₁ y₁ : ℚ), (∀ c ∈ cs, c ∈ Set.Icc (0 : ℚ) 1) →
    inputs.length = cs.length → Trails y₁ inputs (lop.play x₁ y₁ (inputs.zip cs))
  | [], _, _, y₁, _, _ => .nil y₁ _
  | x :: inputs, [], _, _, _, hlength => by cases hlength
  | x :: inputs, c :: cs, x₁, y₁, hcs, hlength => by
    obtain ⟨hc, hcs⟩ := List.forall_mem_cons.mp hcs
    exact .cons (recurrence_lop_mem hc x x₁ y₁)
      (play_lop inputs cs x _ hcs (Nat.succ.inj hlength))

end FilterKind

/-- Whatever a low pass is started with and given in between, every output lies between the one
before it and the input, so that outputs stay within bounds of the inputs that hold zero, and come
closer and closer to an input that lasts. -/
theorem Standard.lowpass_never_overshoots {raw : List (Token ℚ)} {args : StandardArgs ℚ}
    (hread : (Standard.filter .lop).readArgs raw = .ok args) (wired : Wired) :
    ∃ d, ((Standard.filter .lop).declare args wired).ending = .done d ∧
      ∀ stimuli : List (Stimulus ℚ), (∀ stimulus ∈ stimuli, stimulus.Fits Filter.topology) →
        let inputs := heard 0 stimuli
        let outputs := (standard ℚ).played 0 d.state stimuli
        outputs.length = inputs.length ∧
        (∀ lo hi : ℚ, (0 : ℚ) ∈ Set.Icc lo hi → (∀ x ∈ inputs, x ∈ Set.Icc lo hi) →
          ∀ y ∈ outputs, y ∈ Set.Icc lo hi) ∧
        (∀ (k : Nat) (x : ℚ), inputs[k]? = some x →
          ∃ y z, (0 :: outputs)[k]? = some y ∧ outputs[k]? = some z ∧ z ∈ Set.uIcc y x) ∧
        (∀ (x : ℚ) (i n : Nat), i + n ≤ inputs.length →
          (∀ k, i ≤ k → k < i + n → inputs[k]? = some x) →
          ∃ y z, (0 :: outputs)[i]? = some y ∧ (0 :: outputs)[i + n]? = some z ∧
            z ∈ Set.uIcc y x) := by
  obtain ⟨a, -, rfl, -⟩ := Blueprint.read_of_inFamily hread rfl fun _ => rfl
  refine ⟨(Filter.declare .lop a wired).map .filter, rfl, fun stimuli hfits => ?_⟩
  let s : FilterState ℚ := (Filter.declare .lop a wired).state
  obtain ⟨hlength, hplayed⟩ := StandardState.played_filter s hfits
  have hcoefficients := StandardState.coefficients_forall s hfits FilterKind.coefficient_lop_mem
    ⟨le_refl 0, zero_le_one⟩
  have htrails : Trails 0 (heard 0 stimuli) ((standard ℚ).played 0 (.filter s) stimuli) := by
    rw [hplayed]
    exact FilterKind.play_lop _ _ _ _ hcoefficients hlength.symm
  have hlengths := StandardState.length_played s hfits
  refine ⟨hlengths, fun lo hi hzero hinputs y hy => ?_, htrails, fun x i n => htrails.towards n⟩
  obtain ⟨k, hk⟩ := List.mem_iff_getElem?.mp hy
  have hroom : k + 1 ≤ (heard 0 stimuli).length :=
    hlengths ▸ (List.getElem?_eq_some_iff.mp hk).1
  exact htrails.stays hzero hinputs (k + 1) hroom y hk

omit [Tuning] in
/-- A cutoff below zero and one far above the rate, and an input that lasts from the second sample
on. -/
theorem Standard.lowpass_never_overshoots_swept :
    letI : Tuning := ⟨44 / 7, id, fun _ => ""⟩
    let raw : List (Token ℚ) := [.float 1000]
    let sample : ℚ → Stimulus ℚ := fun x => .tick [x, 0] [0] 48000
    let cutoff : ℚ → Stimulus ℚ := fun f => .message (.shadowOf 1) [.float f] 48000
    let stimuli := [.configure 48000, sample (-2), sample 3, cutoff (-5), sample 3, cutoff 1000000,
      sample 3]
    ∃ args, (Standard.filter .lop).readArgs raw = .ok args ∧
      ∃ d, ((Standard.filter .lop).declare args (.ofInlets [])).ending = .done d ∧
        heard 0 stimuli = [-2, 3, 3, 3] ∧
        let outputs := (standard ℚ).played 0 d.state stimuli
        outputs.length = 4 ∧ (∀ y ∈ outputs, y ∈ Set.Icc (-2 : ℚ) 3) ∧
        ∃ y z, (0 :: outputs)[1]? = some y ∧ (0 :: outputs)[4]? = some z ∧ z ∈ Set.uIcc y 3 := by
  let : Tuning := ⟨44 / 7, id, fun _ => ""⟩
  intro raw sample cutoff stimuli
  have hread : (Standard.filter .lop).readArgs raw = .ok (.filter ⟨1000⟩) := rfl
  obtain ⟨d, hd, hall⟩ := lowpass_never_overshoots hread (.ofInlets [])
  have hfits : ∀ stimulus ∈ stimuli, stimulus.Fits Filter.topology := by
    simp [stimuli, sample, cutoff, Stimulus.Fits]
  have hheard : heard 0 stimuli = [-2, 3, 3, 3] := rfl
  obtain ⟨hlength, hstays, -, htowards⟩ := hall stimuli hfits
  rw [hheard] at hlength hstays htowards
  refine ⟨_, hread, d, hd, hheard, hlength, hstays (-2) 3 (by norm_num) (by norm_num), ?_⟩
  refine htowards 3 1 3 (le_refl 4) fun k hfrom hto => ?_
  obtain rfl | rfl | rfl : k = 1 ∨ k = 2 ∨ k = 3 := by omega
  all_goals rfl

end Patchbay
