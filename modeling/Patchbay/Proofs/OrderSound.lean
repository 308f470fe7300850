import Mathlib.Data.List.Nodup
import Mathlib.Order.WellFoundedSet
import Patchbay.Proofs.SearchSound
import Patchbay.Schedule.Order

/-!
# The order of execution

The sort places every node behind its sources, the least node first wherever there is a choice, and
gets stuck exactly on a cycle. What it answers is therefore the least of all orders.
-/

namespace Patchbay

open Relation

structure Orders (cables : List Cable) (nodes order : List NodeId) : Prop where
  perm : order.Perm nodes
  before : ∀ l₁ b l₂, order = l₁ ++ b :: l₂ → ∀ a, Feeds cables a b → a ∈ l₁

def LeastOrder (cables : List Cable) (nodes order : List NodeId) : Prop :=
  Orders cables nodes order ∧
    ∀ other, Orders cables nodes other → order = other ∨ List.Lex (· < ·) order other

def Ready (cables : List Cable) (placed : List NodeId) (n : NodeId) : Prop :=
  ∀ a, Feeds cables a n → a ∈ placed

/-- At every place stands a node that is ready there, and none that could stand there is less. -/
structure LeastFirst (cables : List Cable) (nodes order : List NodeId) : Prop where
  ready : ∀ l₁ b l₂, order = l₁ ++ b :: l₂ → Ready cables l₁ b
  least : ∀ l₁ b l₂, order = l₁ ++ b :: l₂ → ∀ n ∈ nodes, n ∉ l₁ → Ready cables l₁ n → b ≤ n

theorem Orders.notMem_before {cables : List Cable} {nodes order l₁ l₂ : List NodeId} {b : NodeId}
    (h : Orders cables nodes order) (hnd : nodes.Nodup) (hs : order = l₁ ++ b :: l₂) : b ∉ l₁ := by
  have horder : (l₁ ++ b :: l₂).Nodup := hs ▸ h.perm.nodup_iff.mpr hnd
  exact fun hb => (List.nodup_append.mp horder).2.2 b hb b (by simp) rfl

/-! ## Least first is least of all -/

theorem append_cons_snoc {α : Type} {order l₁ l₂ : List α} {n b : α}
    (h : order ++ [n] = l₁ ++ b :: l₂) :
    (l₁ = order ∧ b = n) ∨ ∃ l₃, order = l₁ ++ b :: l₃ := by
  rcases List.eq_nil_or_concat l₂ with rfl | ⟨l₃, z, rfl⟩
  · obtain ⟨h₁, h₂⟩ := List.append_inj' h rfl
    exact Or.inl ⟨h₁.symm, by simpa using h₂.symm⟩
  · have h' : order ++ [n] = (l₁ ++ b :: l₃) ++ [z] := by simpa using h
    exact Or.inr ⟨l₃, (List.append_inj' h' rfl).1⟩

theorem LeastFirst.nil (cables : List Cable) (nodes : List NodeId) :
    LeastFirst cables nodes [] where
  ready l₁ b l₂ h := by simp at h
  least l₁ b l₂ h := by simp at h

theorem LeastFirst.snoc {cables : List Cable} {nodes order : List NodeId} {n : NodeId}
    (h : LeastFirst cables nodes order) (hn : Ready cables order n)
    (hle : ∀ m ∈ nodes, m ∉ order → Ready cables order m → n ≤ m) :
    LeastFirst cables nodes (order ++ [n]) where
  ready l₁ b l₂ hs := by
    rcases append_cons_snoc hs with ⟨rfl, rfl⟩ | ⟨l₃, hl⟩
    · exact hn
    · exact h.ready l₁ b l₃ hl
  least l₁ b l₂ hs := by
    rcases append_cons_snoc hs with ⟨rfl, rfl⟩ | ⟨l₃, hl⟩
    · exact hle
    · exact h.least l₁ b l₃ hl

/-- Behind a common beginning the order that takes the least node first comes first. -/
theorem LeastFirst.lex_behind {cables : List Cable} {nodes order other : List NodeId}
    (h : LeastFirst cables nodes order) (ho : Orders cables nodes other) (hnd : nodes.Nodup)
    (hlen : order.length = nodes.length) :
    ∀ (x y l : List NodeId), order = l ++ x → other = l ++ y → x = y ∨ List.Lex (· < ·) x y
  | [], [], _, _, _ => Or.inl rfl
  | [], c :: y, _, _, _ => Or.inr .nil
  | b :: x, [], l, hx, hy => by
    have := ho.perm.length_eq
    simp [hx, hy] at hlen this
    omega
  | b :: x, c :: y, l, hx, hy => by
    have hc : c ∈ nodes := ho.perm.mem_iff.mp (by simp [hy])
    have hcl : c ∉ l := ho.notMem_before hnd hy
    have hbc : b ≤ c := h.least l b x hx c hc hcl (ho.before l c y hy)
    rcases Nat.lt_or_eq_of_le hbc with hlt | rfl
    · exact Or.inr (.rel hlt)
    · rcases h.lex_behind ho hnd hlen x y (l ++ [b]) (by simp [hx]) (by simp [hy]) with rfl | hxy
      · exact Or.inl rfl
      · exact Or.inr (.cons hxy)

theorem LeastFirst.leastOrder {cables : List Cable} {nodes order : List NodeId}
    (h : LeastFirst cables nodes order) (hp : order.Perm nodes) (hnd : nodes.Nodup) :
    LeastOrder cables nodes order :=
  ⟨⟨hp, h.ready⟩, fun _ ho => h.lex_behind ho hnd hp.length_eq _ _ [] rfl rfl⟩

theorem LeastFirst.filter {cables : List Cable} {nodes order : List NodeId}
    (h : LeastFirst cables nodes order) {keep : NodeId → Bool}
    (hk : ∀ a b, Feeds cables a b → keep a = true) :
    LeastFirst cables (nodes.filter keep) (order.filter keep) := by
  have hsplit : ∀ l₁ b l₂, order.filter keep = l₁ ++ b :: l₂ →
      ∃ k₁ k₂, order = k₁ ++ b :: k₂ ∧ l₁ = k₁.filter keep := by
    intro l₁ b l₂ hs
    obtain ⟨k₁, k, rfl, hk₁, hk₂⟩ := List.filter_eq_append_iff.mp hs
    obtain ⟨d, k₂, rfl, hd, _, _⟩ := List.filter_eq_cons_iff.mp hk₂
    refine ⟨k₁ ++ d, k₂, by simp, ?_⟩
    rw [List.filter_append, hk₁, List.filter_eq_nil_iff.mpr hd, List.append_nil]
  constructor
  · intro l₁ b l₂ hs a ha
    obtain ⟨k₁, k₂, rfl, rfl⟩ := hsplit l₁ b l₂ hs
    exact List.mem_filter.mpr ⟨h.ready k₁ b k₂ rfl a ha, hk a b ha⟩
  · intro l₁ b l₂ hs n hn hnl hr
    obtain ⟨k₁, k₂, rfl, rfl⟩ := hsplit l₁ b l₂ hs
    obtain ⟨hn, hkn⟩ := List.mem_filter.mp hn
    refine h.least k₁ b k₂ rfl n hn (fun hnk => hnl (List.mem_filter.mpr ⟨hnk, hkn⟩)) ?_
    exact fun a ha => (List.mem_filter.mp (hr a ha)).1

/-! ## Ascending lists -/

theorem mem_insertAscending {i j : Nat} {l : List Nat} :
    j ∈ insertAscending i l ↔ j = i ∨ j ∈ l := by
  induction l with
  | nil => simp [insertAscending]
  | cons k l ih =>
    unfold insertAscending
    split
    · simp
    · split
      · rename_i h
        subst h
        simp
      · simp only [List.mem_cons, ih]
        tauto

theorem pairwise_insertAscending {i : Nat} {l : List Nat} (h : l.Pairwise (· < ·)) :
    (insertAscending i l).Pairwise (· < ·) := by
  induction l with
  | nil => simp [insertAscending]
  | cons k l ih =>
    unfold insertAscending
    rw [List.pairwise_cons] at h
    split
    · rename_i hik
      refine List.pairwise_cons.mpr ⟨fun m hm => ?_, List.pairwise_cons.mpr h⟩
      rcases List.mem_cons.mp hm with rfl | hm
      · exact hik
      · exact Nat.lt_trans hik (h.1 m hm)
    · split
      · exact List.pairwise_cons.mpr h
      · refine List.pairwise_cons.mpr ⟨fun m hm => ?_, ih h.2⟩
        rcases mem_insertAscending.mp hm with rfl | hm
        · omega
        · exact h.1 m hm

/-! ## Counting the cables into a node -/

def unplacedInto (cables : List Cable) (placed : List NodeId) (n : NodeId) : Nat :=
  cables.countP fun c => c.isSignal && c.toNode == n && !placed.contains c.fromNode

theorem unplacedInto_eq_zero {cables : List Cable} {placed : List NodeId} {n : NodeId} :
    unplacedInto cables placed n = 0 ↔ Ready cables placed n := by
  simp only [unplacedInto, List.countP_eq_zero, Bool.and_eq_true, beq_iff_eq, Bool.not_eq_true',
    List.contains_eq_mem, decide_eq_false_iff_not, not_and, not_not, Ready, Feeds]
  constructor
  · rintro h a ⟨c, hc, hs, rfl, hn⟩
    exact h c hc ⟨hs, hn⟩
  · rintro h c hc ⟨hs, hn⟩
    exact h _ ⟨c, hc, hs, rfl, hn⟩

theorem unplacedInto_snoc (cables : List Cable) {placed : List NodeId} {next : NodeId}
    (hnext : next ∉ placed) (n : NodeId) :
    unplacedInto cables placed n =
      unplacedInto cables (placed ++ [next]) n + (signalTargets cables next).count n := by
  induction cables with
  | nil => rfl
  | cons c cables ih =>
    have hhead : ∀ seen, unplacedInto (c :: cables) seen n = unplacedInto cables seen n +
        if (c.isSignal && c.toNode == n && !seen.contains c.fromNode) = true then 1 else 0 :=
      fun _ => List.countP_cons
    have htargets : (signalTargets (c :: cables) next).count n =
        (signalTargets cables next).count n +
          if (c.isSignal && c.fromNode == next && c.toNode == n) = true then 1 else 0 := by
      unfold signalTargets
      rw [List.filter_cons]
      split
      · rename_i h
        simp [List.count_cons, h]
      · rename_i h
        rw [Bool.not_eq_true] at h
        simp [h]
    rw [hhead, hhead, htargets, ih]
    by_cases hs : c.isSignal = true <;> by_cases hn : c.toNode = n <;>
      by_cases hf : c.fromNode = next
    all_goals simp [hs, hn, hf, hnext]
    all_goals omega

namespace Waiting

theorem count_done {counts : List Nat} {c : Cable}
    (hc : c.fromNode < counts.length ∧ c.toNode < counts.length) :
    count counts c = .ok (counts.modify c.toNode (· + 1)) := by
  simp [count, hc]

theorem foldlM_count {size : Nat} : ∀ (cables : List Cable) (counts : List Nat),
    (∀ c ∈ cables, c.fromNode < size ∧ c.toNode < size) → counts.length = size →
    ∃ counts', cables.foldlM count counts = .ok counts' ∧ counts'.length = size ∧
      ∀ n k, counts[n]? = some k → counts'[n]? = some (k + cables.countP (·.toNode == n))
  | [], counts, _, hl => ⟨counts, rfl, hl, fun _ _ h => h⟩
  | c :: cables, counts, hE, hl => by
    have hc := hE c (by simp)
    rw [← hl] at hc
    obtain ⟨counts', hrun, hl', hcounts⟩ := foldlM_count cables (counts.modify c.toNode (· + 1))
      (fun d hd => hE d (List.mem_cons_of_mem _ hd)) (by simpa using hl)
    refine ⟨counts', by rw [List.foldlM_cons, count_done hc]; exact hrun, hl', fun n k hk => ?_⟩
    have hstep : (counts.modify c.toNode (· + 1))[n]? =
        some (k + if (c.toNode == n) = true then 1 else 0) := by
      rw [List.getElem?_modify, hk]
      by_cases h : c.toNode = n <;> simp [h]
    rw [hcounts n _ hstep, List.countP_cons]
    congr 1
    omega

theorem countAll_spec {cables : List Cable} {size : Nat} (hE : EndsBelow size cables) :
    ∃ counts, countAll cables size = .ok counts ∧ counts.length = size ∧
      ∀ n < size, counts[n]? = some (unplacedInto cables [] n) := by
  have hends : ∀ c ∈ cables.filter Cable.isSignal, c.fromNode < size ∧ c.toNode < size :=
    fun c hc => hE c (List.mem_filter.mp hc).1 (List.mem_filter.mp hc).2
  obtain ⟨counts, hrun, hl, hcounts⟩ := foldlM_count _ (List.replicate size 0) hends (by simp)
  refine ⟨counts, hrun, hl, fun n hn => ?_⟩
  rw [hcounts n 0 (by simp [hn]), List.countP_filter, Nat.zero_add]
  congr 2
  funext c
  simp [Bool.and_comm]

/-! ## Placing a node -/

theorem release_spec {w : Waiting} {n k : Nat} (h : w.counts[n]? = some (k + 1)) :
    ∃ w', w.release n = .ok w' ∧ w'.counts.length = w.counts.length ∧
      w'.counts[n]? = some k ∧ (∀ m, m ≠ n → w'.counts[m]? = w.counts[m]?) ∧
      (w.ready.Pairwise (· < ·) → w'.ready.Pairwise (· < ·)) ∧
      ∀ m, m ∈ w'.ready ↔ m ∈ w.ready ∨ m = n ∧ k = 0 := by
  have hlt : n < w.counts.length := (List.getElem?_eq_some_iff.mp h).1
  refine ⟨⟨w.counts.set n k, if k = 0 then insertAscending n w.ready else w.ready⟩,
    by simp [release, h], List.length_set, List.getElem?_set_self hlt,
    fun m hm => List.getElem?_set_ne (Ne.symm hm), fun ha => ?_, fun m => ?_⟩
  · by_cases hz : k = 0
    · simpa only [if_pos hz] using pairwise_insertAscending ha
    · simpa only [if_neg hz] using ha
  · by_cases hz : k = 0
    · simp [hz, mem_insertAscending, or_comm]
    · simp [hz]

/-- Every node is released as often as it is listed, and is ready once it waits for nothing. -/
theorem foldlM_release : ∀ (ns : List Nat) (w : Waiting),
    (∀ n ∈ ns, ∃ k, w.counts[n]? = some k ∧ ns.count n ≤ k) → w.ready.Pairwise (· < ·) →
    ∃ w', ns.foldlM release w = .ok w' ∧ w'.counts.length = w.counts.length ∧
      (∀ n k, w.counts[n]? = some k → w'.counts[n]? = some (k - ns.count n)) ∧
      w'.ready.Pairwise (· < ·) ∧
      ∀ n, n ∈ w'.ready ↔ n ∈ w.ready ∨ n ∈ ns ∧ w'.counts[n]? = some 0
  | [], w, _, ha => ⟨w, rfl, rfl, fun _ _ h => h, ha, by simp⟩
  | n :: ns, w, hc, ha => by
    obtain ⟨k, hk, hle⟩ : ∃ k, w.counts[n]? = some (k + 1) ∧ ns.count n ≤ k := by
      obtain ⟨k, hk, hle⟩ := hc n (by simp)
      rw [List.count_cons_self] at hle
      exact ⟨k - 1, by rw [hk]; congr 1; omega, by omega⟩
    obtain ⟨w₁, hrun₁, hl₁, hself, hother, ha₁, hready₁⟩ := release_spec hk
    have hc₁ : ∀ m ∈ ns, ∃ k, w₁.counts[m]? = some k ∧ ns.count m ≤ k := by
      intro m hm
      by_cases hmn : m = n
      · subst hmn
        exact ⟨k, hself, hle⟩
      · obtain ⟨j, hj, hjle⟩ := hc m (List.mem_cons_of_mem _ hm)
        rw [List.count_cons_of_ne (Ne.symm hmn)] at hjle
        exact ⟨j, by rw [hother m hmn, hj], hjle⟩
    obtain ⟨w', hrun, hl, hcounts, ha', hready⟩ := foldlM_release ns w₁ hc₁ (ha₁ ha)
    refine ⟨w', by rw [List.foldlM_cons, hrun₁]; exact hrun, hl.trans hl₁, fun m j hj => ?_, ha',
      fun m => ?_⟩
    · by_cases hmn : m = n
      · subst hmn
        rw [hk] at hj
        cases hj
        rw [hcounts m k hself, List.count_cons_self]
        congr 1
        omega
      · rw [hcounts m j (by rw [hother m hmn, hj]), List.count_cons_of_ne (Ne.symm hmn)]
    · rw [hready, hready₁, or_assoc]
      refine or_congr_right ?_
      by_cases hmn : m = n
      · -- `n` ends up waiting for nothing either now or with its last release
        subst hmn
        have hfinal := hcounts m k hself
        have hmem : m ∈ ns ↔ 0 < ns.count m := List.count_pos_iff.symm
        simp only [hfinal, Option.some.injEq, List.mem_cons, true_or, true_and, hmem]
        omega
      · simp [hmn]

end Waiting

/-! ## The whole sort -/

structure Waiting.Sound (cables : List Cable) (size : Nat) (w : Waiting) (placed : List NodeId) :
    Prop where
  length : w.counts.length = size
  counts : ∀ n < size, w.counts[n]? = some (unplacedInto cables placed n)
  ascending : w.ready.Pairwise (· < ·)
  ready : ∀ n, n ∈ w.ready ↔ n < size ∧ n ∉ placed ∧ Ready cables placed n
  once : placed.Nodup
  below : ∀ n ∈ placed, n < size
  least : LeastFirst cables (List.range size) placed

namespace Waiting

theorem sound_start {cables : List Cable} {size : Nat} {counts : List Nat}
    (hl : counts.length = size)
    (hc : ∀ n < size, counts[n]? = some (unplacedInto cables [] n)) :
    (start counts).Sound cables size [] where
  length := hl
  counts := hc
  ascending := List.pairwise_lt_range.filter _
  ready n := by
    simp only [start, List.mem_filter, List.mem_range, beq_iff_eq, hl, List.not_mem_nil,
      not_false_eq_true, true_and]
    refine and_congr_right fun hn => ?_
    rw [hc n hn, Option.some.injEq, unplacedInto_eq_zero]
  once := List.nodup_nil
  below _ h := by cases h
  least := .nil _ _

theorem ready_snoc {cables : List Cable} {size : Nat} {placed : List NodeId} {next n : NodeId}
    (hE : EndsBelow size cables) (hl : LeastFirst cables (List.range size) placed)
    (hnew : next ∉ placed) (hnext : Ready cables placed next) :
    (n < size ∧ n ∉ placed ++ [next] ∧ Ready cables (placed ++ [next]) n) ↔
      (n ≠ next ∧ n < size ∧ n ∉ placed ∧ Ready cables placed n) ∨
        Feeds cables next n ∧ Ready cables (placed ++ [next]) n := by
  rw [List.mem_append, List.mem_singleton, not_or]
  constructor
  · rintro ⟨hn, ⟨hnp, hne⟩, hr⟩
    by_cases hf : Feeds cables next n
    · exact Or.inr ⟨hf, hr⟩
    · refine Or.inl ⟨hne, hn, hnp, fun a ha => ?_⟩
      rcases List.mem_append.mp (hr a ha) with h | h
      · exact h
      · rw [List.mem_singleton] at h
        exact absurd (h ▸ ha) hf
  · rintro (⟨hne, hn, hnp, hr⟩ | ⟨hf, hr⟩)
    · exact ⟨hn, ⟨hnp, hne⟩, fun a ha => List.mem_append_left _ (hr a ha)⟩
    · refine ⟨(feeds_lt hE hf).2, ⟨fun hnp => ?_, fun heq => ?_⟩, hr⟩
      · -- what is placed had all its sources placed before it, `next` among them
        obtain ⟨l₁, l₂, hs⟩ := List.append_of_mem hnp
        refine hnew ?_
        rw [hs]
        exact List.mem_append_left _ (hl.ready l₁ n l₂ hs next hf)
      · subst heq
        exact hnew (hnext n hf)

/-- Placing the first ready node releases those it feeds without a fault, and nothing else changes
hands. -/
theorem Sound.place {cables : List Cable} {size : Nat} {w : Waiting} {placed ready : List NodeId}
    {next : NodeId} (hE : EndsBelow size cables) (hw : w.Sound cables size placed)
    (hr : w.ready = next :: ready) :
    ∃ w', (signalTargets cables next).foldlM release { w with ready := ready } = .ok w' ∧
      w'.Sound cables size (placed ++ [next]) := by
  obtain ⟨hlt, hnew, hnext⟩ := (hw.ready next).mp (by simp [hr])
  obtain ⟨hfirst, hasc⟩ := List.pairwise_cons.mp (hr ▸ hw.ascending)
  obtain ⟨w', hrun, hl, hcounts, hasc', hready⟩ := foldlM_release (signalTargets cables next)
    { w with ready := ready } (fun n hn => by
      refine ⟨_, hw.counts n (feeds_lt hE (mem_signalTargets.mp hn)).2, ?_⟩
      rw [unplacedInto_snoc cables hnew n]
      exact Nat.le_add_left _ _) hasc
  have hcounts' : ∀ n < size, w'.counts[n]? = some (unplacedInto cables (placed ++ [next]) n) :=
    fun n hn => by
      rw [hcounts n _ (hw.counts n hn), unplacedInto_snoc cables hnew n, Nat.add_sub_cancel]
  refine ⟨w', hrun, hl.trans hw.length, hcounts', hasc', fun n => ?_, ?_, fun n hn => ?_, ?_⟩
  · have hold : n ∈ ready ↔ n ≠ next ∧ n < size ∧ n ∉ placed ∧ Ready cables placed n := by
      rw [← hw.ready n, hr, List.mem_cons]
      exact ⟨fun h => ⟨Nat.ne_of_gt (hfirst n h), Or.inr h⟩, fun h => h.2.resolve_left h.1⟩
    have hfed : Feeds cables next n →
        (w'.counts[n]? = some 0 ↔ Ready cables (placed ++ [next]) n) := by
      intro hf
      rw [hcounts' n (feeds_lt hE hf).2, Option.some.injEq, unplacedInto_eq_zero]
    rw [hready, hold, mem_signalTargets, and_congr_right hfed]
    exact (ready_snoc hE hw.least hnew hnext).symm
  · exact hw.once.append (List.nodup_singleton next) (by simpa using hnew)
  · rcases List.mem_append.mp hn with h | h
    · exact hw.below n h
    · rw [List.mem_singleton] at h
      exact h ▸ hlt
  · refine hw.least.snoc hnext fun m hm hmp hrm => ?_
    have : m ∈ w.ready := (hw.ready m).mpr ⟨List.mem_range.mp hm, hmp, hrm⟩
    rw [hr, List.mem_cons] at this
    rcases this with rfl | h
    · exact Nat.le_refl m
    · exact Nat.le_of_lt (hfirst m h)

end Waiting

theorem placeReady_spec {cables : List Cable} {size : Nat} (hE : EndsBelow size cables) :
    ∀ (room : Nat) (w : Waiting) (placed : List NodeId), w.Sound cables size placed →
      room + placed.length = size →
      ∃ (w' : Waiting) (placed' : List NodeId), placeReady cables room w placed = .ok placed' ∧
        w'.Sound cables size placed' ∧ w'.ready = []
  | 0, w, placed, hw, hroom => by
    refine ⟨w, placed, rfl, hw, List.eq_nil_iff_forall_not_mem.mpr fun n hn => ?_⟩
    obtain ⟨hlt, hnp, _⟩ := (hw.ready n).mp hn
    have hall : List.range size ⊆ placed :=
      (hw.once.subperm fun m hm => List.mem_range.mpr (hw.below m hm)).perm_of_length_le
        (by simp [← hroom]) |>.symm.subset
    exact hnp (hall (List.mem_range.mpr hlt))
  | room + 1, w, placed, hw, hroom => by
    unfold placeReady
    cases hr : w.ready with
    | nil => exact ⟨w, placed, rfl, hw, hr⟩
    | cons next ready =>
      obtain ⟨w', hrun, hw'⟩ := hw.place hE hr
      obtain ⟨w₂, placed₂, hrun₂, hw₂, hnil⟩ := placeReady_spec hE room w' (placed ++ [next]) hw'
        (by simp; omega)
      exact ⟨w₂, placed₂, by simp only [hrun]; exact hrun₂, hw₂, hnil⟩

theorem Orders.acyclic {cables : List Cable} {size : Nat} {order : List NodeId}
    (hE : EndsBelow size cables) (h : Orders cables (List.range size) order) : Acyclic cables := by
  have hlt : ∀ a b, TransGen (Feeds cables) a b → order.idxOf a < order.idxOf b := by
    intro a b hab
    have hstep : ∀ {a b}, Feeds cables a b → order.idxOf a < order.idxOf b := by
      intro a b hf
      have hb : b ∈ order := h.perm.mem_iff.mpr (List.mem_range.mpr (feeds_lt hE hf).2)
      obtain ⟨l₁, l₂, hs⟩ := List.append_of_mem hb
      have ha := h.before l₁ b l₂ hs a hf
      have hbl : b ∉ l₁ := h.notMem_before List.nodup_range hs
      rw [hs, List.idxOf_append_of_mem ha, List.idxOf_append_of_notMem hbl]
      exact Nat.lt_of_lt_of_le (List.idxOf_lt_length_of_mem ha) (Nat.le_add_right _ _)
    induction hab with
    | single hf => exact hstep hf
    | tail _ hf ih => exact Nat.lt_trans ih (hstep hf)
  exact fun n hn => Nat.lt_irrefl _ (hlt n n hn)

theorem Acyclic.exists_ready {cables : List Cable} {size : Nat} {placed : List NodeId}
    (hE : EndsBelow size cables) (hA : Acyclic cables) {n : Nat} (hn : n < size)
    (hnp : n ∉ placed) : ∃ m < size, m ∉ placed ∧ Ready cables placed m := by
  have : IsStrictOrder NodeId (TransGen (Feeds cables)) :=
    { irrefl := hA, trans := fun _ _ _ => TransGen.trans }
  have hfin : {m : NodeId | m < size ∧ m ∉ placed}.Finite :=
    (Set.finite_lt_nat size).subset fun _ h => h.1
  have hwf : {m : NodeId | m < size ∧ m ∉ placed}.WellFoundedOn (TransGen (Feeds cables)) :=
    hfin.wellFoundedOn
  by_contra hnone
  push Not at hnone
  have hfalse : ∀ m ∈ {m : NodeId | m < size ∧ m ∉ placed}, False := fun m hm =>
    hwf.induction (P := fun _ => False) hm fun m hm ih => by
      -- a node that is not ready has a source that is not placed either
      have hm' := hnone m hm.1 hm.2
      unfold Ready at hm'
      push Not at hm'
      obtain ⟨a, hf, ha⟩ := hm'
      exact ih a ⟨(feeds_lt hE hf).1, ha⟩ (.single hf)
  exact hfalse n ⟨hn, hnp⟩

/-- The sort always answers: with an order that takes the least ready node first, or, where signal
cables form a cycle, with none. -/
theorem executionOrder_spec {cables : List Cable} {size : Nat} (hE : EndsBelow size cables) :
    (∃ order, executionOrder cables size = .ok (some order) ∧ Acyclic cables ∧
      order.Perm (List.range size) ∧ LeastFirst cables (List.range size) order) ∨
    executionOrder cables size = .ok none ∧ ¬ Acyclic cables := by
  obtain ⟨counts, hcount, hl, hcounts⟩ := Waiting.countAll_spec hE
  obtain ⟨w, placed, hplace, hw, hnil⟩ := placeReady_spec hE size (.start counts) []
    (Waiting.sound_start hl hcounts) (by simp)
  have hrun : executionOrder cables size =
      .ok (if placed.length = size then some placed else none) := by
    unfold executionOrder
    rw [hcount]
    change (placeReady cables size (.start counts) [] >>= _) = _
    rw [hplace]
    rfl
  have hsub : placed.Subperm (List.range size) :=
    hw.once.subperm fun n hn => List.mem_range.mpr (hw.below n hn)
  by_cases hall : placed.length = size
  · have hperm : placed.Perm (List.range size) := hsub.perm_of_length_le (by simp [hall])
    refine Or.inl ⟨placed, by rw [hrun, if_pos hall], ?_, hperm, hw.least⟩
    exact Orders.acyclic hE ⟨hperm, hw.least.ready⟩
  · -- nodes are left although none is ready, which only a cycle explains
    refine Or.inr ⟨by rw [hrun, if_neg hall], fun hA => ?_⟩
    obtain ⟨n, hn, hnp⟩ : ∃ n < size, n ∉ placed := by
      by_contra hnone
      push Not at hnone
      have : (List.range size).Subperm placed :=
        List.nodup_range.subperm fun n hn => hnone n (List.mem_range.mp hn)
      exact hall (Nat.le_antisymm (by simpa using hsub.length_le) (by simpa using this.length_le))
    obtain ⟨m, hm⟩ := hA.exists_ready hE hn hnp
    have := (hw.ready m).mpr hm
    simp [hnil] at this

end Patchbay
