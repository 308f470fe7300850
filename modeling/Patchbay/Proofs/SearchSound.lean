import Mathlib.Data.Finset.Card
import Mathlib.Logic.Relation
import Patchbay.Patch.Connect

/-!
# The search along signal cables

A node feeds another if a signal cable leads there. The depth-first search with its list of seen
nodes ends, however deep it has to go, and answers `true` exactly if such cables lead from the start
to the target. It never faults while all cables end at nodes.
-/

namespace Patchbay

open Relation

/-! ## What feeds what -/

def Feeds (cables : List Cable) (a b : NodeId) : Prop :=
  ∃ c ∈ cables, c.isSignal = true ∧ c.fromNode = a ∧ c.toNode = b

def Acyclic (cables : List Cable) : Prop := ∀ n, ¬ TransGen (Feeds cables) n n

def EndsBelow (size : Nat) (cables : List Cable) : Prop :=
  ∀ c ∈ cables, c.isSignal = true → c.fromNode < size ∧ c.toNode < size

theorem mem_signalTargets {cables : List Cable} {a b : NodeId} :
    b ∈ signalTargets cables a ↔ Feeds cables a b := by
  simp only [signalTargets, List.mem_map, List.mem_filter, Bool.and_eq_true, beq_iff_eq, Feeds]
  constructor
  · rintro ⟨c, ⟨hc, hs, ha⟩, hb⟩; exact ⟨c, hc, hs, ha, hb⟩
  · rintro ⟨c, hc, hs, ha, hb⟩; exact ⟨c, ⟨hc, hs, ha⟩, hb⟩

theorem feeds_lt {cables : List Cable} {size : Nat} (hE : EndsBelow size cables) {a b : NodeId}
    (h : Feeds cables a b) : a < size ∧ b < size := by
  obtain ⟨c, hc, hs, rfl, rfl⟩ := h
  exact hE c hc hs

theorem feeds_snoc {cables : List Cable} {c : Cable} {a b : NodeId}
    (h : Feeds (cables ++ [c]) a b) :
    Feeds cables a b ∨ c.isSignal = true ∧ a = c.fromNode ∧ b = c.toNode := by
  obtain ⟨d, hd, hs, rfl, rfl⟩ := h
  rcases List.mem_append.mp hd with hd | hd
  · exact Or.inl ⟨d, hd, hs, rfl, rfl⟩
  · rw [List.mem_singleton] at hd
    subst hd
    exact Or.inr ⟨hs, rfl, rfl⟩

theorem acyclic_nil : Acyclic [] := by
  intro n h
  obtain ⟨m, ⟨c, hc, _⟩, _⟩ := TransGen.head'_iff.mp h
  cases hc

theorem transGen_snoc {cables : List Cable} {c : Cable} {a b : NodeId}
    (h : TransGen (Feeds (cables ++ [c])) a b) :
    TransGen (Feeds cables) a b ∨ c.isSignal = true ∧ ReflTransGen (Feeds cables) a c.fromNode ∧
      ReflTransGen (Feeds cables) c.toNode b := by
  induction h with
  | single h =>
    rcases feeds_snoc h with h | ⟨hs, rfl, rfl⟩
    · exact Or.inl (.single h)
    · exact Or.inr ⟨hs, .refl, .refl⟩
  | tail _ h ih =>
    rcases ih with ih | ⟨hs, h₁, h₂⟩
    · rcases feeds_snoc h with h | ⟨hs, rfl, rfl⟩
      · exact Or.inl (ih.tail h)
      · exact Or.inr ⟨hs, ih.to_reflTransGen, .refl⟩
    · rcases feeds_snoc h with h | ⟨_, rfl, rfl⟩
      · exact Or.inr ⟨hs, h₁, h₂.tail h⟩
      · exact Or.inr ⟨hs, h₁, .refl⟩

theorem acyclic_snoc {cables : List Cable} {c : Cable} (hA : Acyclic cables)
    (hc : c.isSignal = true → ¬ ReflTransGen (Feeds cables) c.toNode c.fromNode) :
    Acyclic (cables ++ [c]) := by
  intro n h
  rcases transGen_snoc h with h | ⟨hs, h₁, h₂⟩
  · exact hA n h
  · exact hc hs (h₂.trans h₁)

/-! ## The search -/

def unseen (size : Nat) (seen : List NodeId) : Finset NodeId :=
  (Finset.range size).filter (· ∉ seen)

theorem unseen_cons_lt {size : Nat} {seen : List NodeId} {n : NodeId} (hn : n < size)
    (hs : n ∉ seen) : (unseen size (n :: seen)).card < (unseen size seen).card := by
  apply Finset.card_lt_card
  refine Finset.ssubset_iff_of_subset ?_ |>.mpr ⟨n, ?_, ?_⟩
  · intro m hm
    simp only [unseen, Finset.mem_filter, List.mem_cons, not_or] at hm ⊢
    exact ⟨hm.1, hm.2.2⟩
  · simp [unseen, hn, hs]
  · simp [unseen]

theorem unseen_mono {size : Nat} {seen seen' : List NodeId} (h : seen ⊆ seen') :
    (unseen size seen').card ≤ (unseen size seen).card := by
  apply Finset.card_le_card
  intro m hm
  simp only [unseen, Finset.mem_filter] at hm ⊢
  exact ⟨hm.1, fun hs => hm.2 (h hs)⟩

/-- What a search that did not find the target leaves seen: what it entered is not the target, and
whatever that feeds was seen too. -/
structure Swept (cables : List Cable) (target : NodeId) (seen seen' : List NodeId) : Prop where
  grown : seen ⊆ seen'
  closed : ∀ n ∈ seen', n ∉ seen → n ≠ target ∧ ∀ m, Feeds cables n m → m ∈ seen'

theorem Swept.refl {cables : List Cable} {target : NodeId} (seen : List NodeId) :
    Swept cables target seen seen :=
  ⟨fun _ h => h, fun _ h hn => absurd h hn⟩

theorem Swept.trans {cables : List Cable} {target : NodeId} {s₁ s₂ s₃ : List NodeId}
    (h₁ : Swept cables target s₁ s₂) (h₂ : Swept cables target s₂ s₃) :
    Swept cables target s₁ s₃ := by
  refine ⟨fun _ h => h₂.grown (h₁.grown h), fun n hn hs => ?_⟩
  by_cases h : n ∈ s₂
  · obtain ⟨hne, hc⟩ := h₁.closed n h hs
    exact ⟨hne, fun m hm => h₂.grown (hc m hm)⟩
  · exact h₂.closed n hn h

/-- A depth-first search through a list of nodes, one after the other, with the nodes seen before it
and with its answer and the nodes seen after it. Nothing bounds its depth: a derivation is a search
that ends, and where it would run into a node that is not there it has none. -/
inductive Searches (cables : List Cable) (size : Nat) (target : NodeId) :
    List NodeId → List NodeId → Bool × List NodeId → Prop
  | nothing {seen} : Searches cables size target [] seen (false, seen)
  | found {ns seen} : Searches cables size target (target :: ns) seen (true, seen)
  | skip {n ns seen r} (hn : n ≠ target) (hlt : n < size) (hseen : n ∈ seen)
    (hrest : Searches cables size target ns seen r) : Searches cables size target (n :: ns) seen r
  | hit {n ns seen seen'} (hn : n ≠ target) (hlt : n < size) (hseen : n ∉ seen)
    (hsub : Searches cables size target (signalTargets cables n) (n :: seen) (true, seen')) :
    Searches cables size target (n :: ns) seen (true, seen')
  | miss {n ns seen seen' r} (hn : n ≠ target) (hlt : n < size) (hseen : n ∉ seen)
    (hsub : Searches cables size target (signalTargets cables n) (n :: seen) (false, seen'))
    (hrest : Searches cables size target ns seen' r) : Searches cables size target (n :: ns) seen r

namespace Searches

variable {cables : List Cable} {size : Nat} {target n : NodeId} {ns seen seen' : List NodeId}
  {r r' : Bool × List NodeId}

theorem determined (h : Searches cables size target ns seen r) :
    Searches cables size target ns seen r' → r' = r := by
  induction h generalizing r' with
  | nothing =>
    intro h'
    cases h'
    rfl
  | found =>
    intro h'
    cases h' with
    | found => rfl
    | skip hn | hit hn | miss hn => exact absurd rfl hn
  | skip hn _ hseen _ ih =>
    intro h'
    cases h' with
    | found => exact absurd rfl hn
    | skip _ _ _ hrest => exact ih hrest
    | hit _ _ hnew | miss _ _ hnew => exact absurd hseen hnew
  | hit hn _ hseen _ ih =>
    intro h'
    cases h' with
    | found => exact absurd rfl hn
    | skip _ _ hold => exact absurd hold hseen
    | hit _ _ _ hsub => exact ih hsub
    | miss _ _ _ hsub => cases ih hsub
  | miss hn _ hseen _ _ ihsub ih =>
    intro h'
    cases h' with
    | found => exact absurd rfl hn
    | skip _ _ hold => exact absurd hold hseen
    | hit _ _ _ hsub => cases ihsub hsub
    | miss _ _ _ hsub hrest =>
      cases ihsub hsub
      exact ih hrest

/-- Where the first node leads to the target, the others are not looked at. -/
theorem first (h : Searches cables size target [n] seen (true, seen')) :
    Searches cables size target (n :: ns) seen (true, seen') := by
  cases h with
  | found => exact found
  | skip _ _ _ hrest => cases hrest
  | hit hn hlt hseen hsub => exact hit hn hlt hseen hsub
  | miss _ _ _ _ hrest => cases hrest

theorem cons (h : Searches cables size target [n] seen (false, seen'))
    (hrest : Searches cables size target ns seen' r) :
    Searches cables size target (n :: ns) seen r := by
  cases h with
  | skip hn hlt hseen hnone =>
    cases hnone
    exact skip hn hlt hseen hrest
  | miss hn hlt hseen hsub hnone =>
    cases hnone
    exact miss hn hlt hseen hsub hrest

theorem grown (h : Searches cables size target ns seen r) : seen ⊆ r.2 := by
  induction h with
  | nothing | found => exact List.Subset.refl _
  | skip _ _ _ _ ih => exact ih
  | hit _ _ _ _ ih => exact fun m hm => ih (List.mem_cons_of_mem _ hm)
  | miss _ _ _ _ _ ihsub ih => exact fun m hm => ih (ihsub (List.mem_cons_of_mem _ hm))

theorem reaches (h : Searches cables size target ns seen r) :
    r.1 = true → ∃ n ∈ ns, ReflTransGen (Feeds cables) n target := by
  induction h with
  | nothing =>
    intro h
    cases h
  | found => exact fun _ => ⟨target, by simp, .refl⟩
  | skip _ _ _ _ ih | miss _ _ _ _ _ _ ih =>
    intro h
    obtain ⟨m, hm, hreach⟩ := ih h
    exact ⟨m, List.mem_cons_of_mem _ hm, hreach⟩
  | @hit n _ _ _ _ _ _ _ ih =>
    intro _
    obtain ⟨m, hm, hreach⟩ := ih rfl
    exact ⟨n, by simp, .head (mem_signalTargets.mp hm) hreach⟩

theorem swept (h : Searches cables size target ns seen r) :
    r.1 = false → Swept cables target seen r.2 ∧ ∀ n ∈ ns, n ∈ r.2 := by
  induction h with
  | nothing => exact fun _ => ⟨.refl _, by simp⟩
  | found | hit =>
    intro h
    cases h
  | skip _ _ hseen _ ih =>
    intro h
    obtain ⟨hsw, hall⟩ := ih h
    exact ⟨hsw, List.forall_mem_cons.mpr ⟨hsw.grown hseen, hall⟩⟩
  | @miss n ns seen seen' r hn _ hseen _ _ ihsub ih =>
    intro h
    obtain ⟨hsub, htargets⟩ := ihsub rfl
    obtain ⟨hsw, hall⟩ := ih h
    have hself : n ∈ seen' := hsub.grown (by simp)
    -- all that `n` feeds was looked at below it, so seeing `n` leaves nothing open
    have hentered : Swept cables target seen seen' := by
      refine ⟨fun m hm => hsub.grown (List.mem_cons_of_mem _ hm), fun m hm hms => ?_⟩
      by_cases hmn : m = n
      · subst hmn
        exact ⟨hn, fun k hk => htargets k (mem_signalTargets.mpr hk)⟩
      · exact hsub.closed m hm (by simp [hmn, hms])
    exact ⟨hentered.trans hsw, List.forall_mem_cons.mpr ⟨hsw.grown hself, hall⟩⟩

end Searches

/-! ## The bound on the search -/

theorem searchEach_searches {cables : List Cable} {target : NodeId} {size room : Nat}
    {visit : NodeId → List NodeId → Except Fault (Bool × List NodeId)} :
    ∀ (ns : List NodeId) (seen : List NodeId),
      (∀ n ∈ ns, ∀ seen', (unseen size seen').card < room →
        ∃ r, visit n seen' = .ok r ∧ Searches cables size target [n] seen' r) →
      (unseen size seen).card < room →
      ∃ r, searchEach visit ns seen = .ok r ∧ Searches cables size target ns seen r
  | [], seen, _, _ => ⟨(false, seen), rfl, .nothing⟩
  | n :: ns, seen, hv, hr => by
    obtain ⟨⟨found, seen₁⟩, h₁, hfirst⟩ := hv n (by simp) seen hr
    cases found with
    | true => exact ⟨(true, seen₁), by simp [searchEach, h₁], hfirst.first⟩
    | false =>
      have hr₁ : (unseen size seen₁).card < room :=
        Nat.lt_of_le_of_lt (unseen_mono hfirst.grown) hr
      obtain ⟨r, h₂, hrest⟩ := searchEach_searches ns seen₁
        (fun m hm => hv m (List.mem_cons_of_mem _ hm)) hr₁
      exact ⟨r, by simp [searchEach, h₁, h₂], hfirst.cons hrest⟩

/-- While there is room for every unseen node, the bound is not felt. -/
theorem searchFrom_searches {cables : List Cable} {size : Nat} (hE : EndsBelow size cables)
    (target : NodeId) : ∀ (room : Nat) (n : NodeId) (seen : List NodeId), n < size →
      (unseen size seen).card < room →
      ∃ r, searchFrom cables size target room n seen = .ok r ∧
        Searches cables size target [n] seen r
  | 0, _, _, _, hr => absurd hr (Nat.not_lt_zero _)
  | room + 1, n, seen, hn, hr => by
    unfold searchFrom
    by_cases ht : n = target
    · subst ht
      exact ⟨(true, seen), by simp, .found⟩
    by_cases hs : n ∈ seen
    · exact ⟨(false, seen), by simp [ht, Nat.not_le.mpr hn, hs], .skip ht hn hs .nothing⟩
    have hr' : (unseen size (n :: seen)).card < room := by
      have := unseen_cons_lt hn hs
      omega
    have hvisit : ∀ m ∈ signalTargets cables n, ∀ seen', (unseen size seen').card < room →
        ∃ r, searchFrom cables size target room m seen' = .ok r ∧
          Searches cables size target [m] seen' r := fun m hm seen' =>
      searchFrom_searches hE target room m seen' (feeds_lt hE (mem_signalTargets.mp hm)).2
    obtain ⟨⟨found, seen'⟩, h, hsub⟩ := searchEach_searches _ (n :: seen) hvisit hr'
    refine ⟨(found, seen'), by simp [ht, Nat.not_le.mpr hn, hs, h], ?_⟩
    cases found with
    | true => exact .hit ht hn hs hsub
    | false => exact .miss ht hn hs hsub .nothing

theorem Swept.not_reaches {cables : List Cable} {target n : NodeId} {seen : List NodeId}
    (h : Swept cables target [] seen) (hn : n ∈ seen) :
    ¬ ReflTransGen (Feeds cables) n target := by
  intro hr
  have hall : ∀ m, ReflTransGen (Feeds cables) n m → m ∈ seen := by
    intro m hm
    induction hm with
    | refl => exact hn
    | tail _ hf ih => exact (h.closed _ ih (by simp)).2 _ hf
  exact (h.closed target (hall target hr) (by simp)).1 rfl

namespace Patch

variable {R : Type} {F : Family R}

/-- The search ends, with one answer: whether signal cables lead from `target` to `source`. -/
theorem wouldCycle_searches {p : Patch F} (hE : EndsBelow p.nodes.length p.cables) (source : NodeId)
    {target : NodeId} (ht : target < p.nodes.length) :
    ∃ found seen, p.wouldCycle source target = .ok found ∧
      (∀ r, Searches p.cables p.nodes.length source [target] [] r ↔ r = (found, seen)) ∧
      (found = true ↔ ReflTransGen (Feeds p.cables) target source) := by
  obtain ⟨⟨found, seen⟩, h, hsearch⟩ := searchFrom_searches hE source (p.nodes.length + 1) target []
    ht (by simp [unseen])
  refine ⟨found, seen, by simp [wouldCycle, h, Except.map],
    fun r => ⟨hsearch.determined, fun hr => hr ▸ hsearch⟩, fun hfound => ?_, fun hreach => ?_⟩
  · obtain ⟨n, hn, hreach⟩ := hsearch.reaches hfound
    rwa [List.mem_singleton.mp hn] at hreach
  · by_contra hfound
    obtain ⟨hswept, hall⟩ := hsearch.swept (by simpa using hfound)
    exact hswept.not_reaches (hall target (by simp)) hreach

theorem wouldCycle_spec {p : Patch F} (hE : EndsBelow p.nodes.length p.cables) (source : NodeId)
    {target : NodeId} (ht : target < p.nodes.length) :
    ∃ b, p.wouldCycle source target = .ok b ∧
      (b = true ↔ ReflTransGen (Feeds p.cables) target source) := by
  obtain ⟨found, _, h, -, hfound⟩ := wouldCycle_searches hE source ht
  exact ⟨found, h, hfound⟩

end Patch

end Patchbay
