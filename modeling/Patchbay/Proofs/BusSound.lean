import Patchbay.Buses.History
import Patchbay.Proofs.RunSafe

/-!
# Buses as ordered sets

The subscribers of a bus are those whose last call on it was to subscribe, in the order in which
their memberships began. This is said of the calls alone, and it fixes the list of every bus.
-/

namespace Patchbay

/-! ## Memberships, told from the calls -/

namespace BusCall

def Joined (calls : List BusCall) (bus : String) (s : Subscriber) : Prop :=
  (calls.filter (concerns bus s)).getLast? = some (.subscribe bus s)

structure BeganAt (calls : List BusCall) (bus : String) (s : Subscriber) (k : Nat) : Prop where
  call : calls[k]? = some (.subscribe bus s)
  fresh : ¬ Joined (calls.take k) bus s
  lasts : ∀ j, k < j → calls[j]? ≠ some (.unsubscribe bus s)

/-- The members of the bus, each once and in the order in which their memberships began. -/
structure Roll (calls : List BusCall) (bus : String) (members : List Subscriber) : Prop where
  nodup : members.Nodup
  mem : ∀ s, s ∈ members ↔ Joined calls bus s
  ordered : members.Pairwise fun s t =>
    ∀ j k, BeganAt calls bus s j → BeganAt calls bus t k → j < k

variable {calls : List BusCall} {call : BusCall} {bus : String} {s t : Subscriber}

theorem not_joined_nil : ¬ Joined [] bus s := nofun

theorem concerns_iff :
    call.concerns bus s = true ↔ call = .subscribe bus s ∨ call = .unsubscribe bus s := by
  cases call <;> simp [concerns]

theorem joined_snoc : Joined (calls ++ [call]) bus s ↔
    call = .subscribe bus s ∨ (Joined calls bus s ∧ call ≠ .unsubscribe bus s) := by
  unfold Joined
  rw [List.filter_append, List.getLast?_append]
  by_cases h : call.concerns bus s = true
  · rcases concerns_iff.mp h with rfl | rfl
    · simp [h]
    · simp [h]
  · obtain ⟨hsubscribe, hunsubscribe⟩ := not_or.mp (mt concerns_iff.mpr h)
    simp [h, hsubscribe, hunsubscribe]

theorem beganAt_snoc {k : Nat} : BeganAt (calls ++ [call]) bus s k ↔
    (BeganAt calls bus s k ∧ call ≠ .unsubscribe bus s) ∨
      (k = calls.length ∧ call = .subscribe bus s ∧ ¬ Joined calls bus s) := by
  constructor
  · rintro ⟨hcall, hfresh, hlasts⟩
    rw [getElem?_snoc] at hcall
    -- it begins with the new call, or with an old one that the new call does not undo
    by_cases hk : k = calls.length
    · subst hk
      rw [if_pos rfl, Option.some.injEq] at hcall
      rw [List.take_left] at hfresh
      exact Or.inr ⟨rfl, hcall, hfresh⟩
    · rw [if_neg hk] at hcall
      have hlt : k < calls.length := (List.getElem?_eq_some_iff.mp hcall).1
      rw [List.take_append_of_le_length hlt.le] at hfresh
      refine Or.inl ⟨⟨hcall, hfresh, fun j hj hunsubscribed => ?_⟩, fun hcall => ?_⟩
      · have hj' : j < calls.length := (List.getElem?_eq_some_iff.mp hunsubscribed).1
        exact hlasts j hj (by rw [List.getElem?_append_left hj', hunsubscribed])
      · exact hlasts calls.length hlt (by rw [List.getElem?_concat_length, hcall])
  · rintro (⟨⟨hcall, hfresh, hlasts⟩, hlast⟩ | ⟨rfl, rfl, hfresh⟩)
    · have hlt : k < calls.length := (List.getElem?_eq_some_iff.mp hcall).1
      refine ⟨by rw [List.getElem?_append_left hlt, hcall], ?_, fun j hj => ?_⟩
      · rwa [List.take_append_of_le_length hlt.le]
      · rw [getElem?_snoc]
        split
        · simpa using hlast
        · exact hlasts j hj
    · refine ⟨List.getElem?_concat_length .., by rwa [List.take_left], fun j hj => ?_⟩
      rw [List.getElem?_eq_none (by simpa [Nat.succ_le_iff] using hj)]
      exact nofun

theorem BeganAt.lt {k : Nat} (h : BeganAt calls bus s k) : k < calls.length :=
  (List.getElem?_eq_some_iff.mp h.call).1

theorem BeganAt.joined {k : Nat} (h : BeganAt calls bus s k) : Joined calls bus s := by
  induction calls using List.reverseRecOn with
  | nil => cases h.call
  | append_singleton calls call ih =>
    rw [joined_snoc]
    rcases beganAt_snoc.mp h with ⟨hbegan, hlast⟩ | ⟨_, rfl, _⟩
    · exact Or.inr ⟨ih hbegan, hlast⟩
    · exact Or.inl rfl

/-- A member's membership began at some time, and only once. -/
theorem Joined.began (h : Joined calls bus s) : ∃! k, BeganAt calls bus s k := by
  induction calls using List.reverseRecOn with
  | nil => exact absurd h not_joined_nil
  | append_singleton calls call ih =>
    by_cases hold : Joined calls bus s
    · obtain ⟨k, hk, honly⟩ := ih hold
      have hlast : call ≠ .unsubscribe bus s := by
        rcases joined_snoc.mp h with rfl | ⟨_, hlast⟩
        · exact nofun
        · exact hlast
      refine ⟨k, beganAt_snoc.mpr (Or.inl ⟨hk, hlast⟩), fun j hj => ?_⟩
      rcases beganAt_snoc.mp hj with ⟨hj, _⟩ | ⟨_, _, hfresh⟩
      · exact honly j hj
      · exact absurd hold hfresh
    · have hcall := (joined_snoc.mp h).resolve_right fun h => hold h.1
      refine ⟨calls.length, beganAt_snoc.mpr (Or.inr ⟨rfl, hcall, hold⟩), fun j hj => ?_⟩
      rcases beganAt_snoc.mp hj with ⟨hj, _⟩ | ⟨hj, _⟩
      · exact absurd hj.joined hold
      · exact hj

theorem Roll.unique {members members' : List Subscriber} (h : Roll calls bus members)
    (h' : Roll calls bus members') : members = members' := by
  have hperm : members.Perm members' :=
    (List.perm_ext_iff_of_nodup h.nodup h'.nodup).mpr fun s => (h.mem s).trans (h'.mem s).symm
  refine hperm.eq_of_pairwise (fun s t hs ht hst hts => ?_) h.ordered h'.ordered
  obtain ⟨j, hj, _⟩ := ((h.mem s).mp hs).began
  obtain ⟨k, hk, _⟩ := ((h'.mem t).mp ht).began
  exact absurd (hst j k hj hk) (hts k j hk hj).not_gt

/-! ## The roll of a bus, call by call -/

variable {members : List Subscriber}

theorem Roll.nil : Roll [] bus [] :=
  ⟨List.nodup_nil, fun _ => iff_of_false List.not_mem_nil not_joined_nil, .nil⟩

/-- What is said on other buses, or to who is a member already, does not change the roll. -/
theorem Roll.same (h : Roll calls bus members)
    (hnew : ∀ s, call = .subscribe bus s → s ∈ members)
    (hold : ∀ s, call ≠ .unsubscribe bus s) : Roll (calls ++ [call]) bus members := by
  have hjoined : ∀ s, Joined (calls ++ [call]) bus s ↔ Joined calls bus s := by
    intro s
    rw [joined_snoc]
    constructor
    · rintro (hcall | ⟨hs, _⟩)
      · exact (h.mem s).mp (hnew s hcall)
      · exact hs
    · exact fun hs => Or.inr ⟨hs, hold s⟩
  have hbegan : ∀ s k, BeganAt (calls ++ [call]) bus s k → BeganAt calls bus s k := by
    intro s k hk
    rcases beganAt_snoc.mp hk with ⟨hk, _⟩ | ⟨_, hcall, hfresh⟩
    · exact hk
    · exact absurd ((h.mem s).mp (hnew s hcall)) hfresh
  exact ⟨h.nodup, fun s => (h.mem s).trans (hjoined s).symm,
    h.ordered.imp fun hst j k hj hk => hst j k (hbegan _ j hj) (hbegan _ k hk)⟩

theorem Roll.join (h : Roll calls bus members) (hs : s ∉ members) :
    Roll (calls ++ [.subscribe bus s]) bus (members ++ [s]) := by
  have hother : ∀ t ∈ members, ∀ k,
      BeganAt (calls ++ [.subscribe bus s]) bus t k → BeganAt calls bus t k := by
    intro t ht k hk
    rcases beganAt_snoc.mp hk with ⟨hk, _⟩ | ⟨_, hcall, _⟩
    · exact hk
    · cases hcall
      exact absurd ht hs
  refine ⟨?_, fun t => ?_, ?_⟩
  · rw [List.nodup_append]
    refine ⟨h.nodup, List.nodup_singleton s, fun t ht s' hs' => ?_⟩
    rw [List.mem_singleton] at hs'
    exact fun hts => hs (hs' ▸ hts ▸ ht)
  · rw [List.mem_append, List.mem_singleton, h.mem, joined_snoc, or_comm, and_iff_left nofun,
      BusCall.subscribe.injEq, and_iff_right rfl, eq_comm]
  · rw [List.pairwise_append]
    refine ⟨h.ordered.imp_of_mem fun ht ht' hlt j k hj hk =>
      hlt j k (hother _ ht j hj) (hother _ ht' k hk), List.pairwise_singleton _ s, ?_⟩
    intro t ht s' hs' j k hj hk
    rw [List.mem_singleton] at hs'
    subst hs'
    have hbefore := (hother t ht j hj).lt
    rcases beganAt_snoc.mp hk with ⟨hk, _⟩ | ⟨rfl, _⟩
    · exact absurd ((h.mem s').mpr hk.joined) hs
    · exact hbefore

theorem Roll.leave (h : Roll calls bus members) :
    Roll (calls ++ [.unsubscribe bus s]) bus (members.filter (· ≠ s)) := by
  refine ⟨h.nodup.filter _, fun t => ?_, ?_⟩
  · rw [List.mem_filter, h.mem, joined_snoc]
    simp [@eq_comm _ t s]
  · refine (h.ordered.filter _).imp fun hlt j k hj hk => ?_
    have hbegan : ∀ {t i}, BeganAt (calls ++ [.unsubscribe bus s]) bus t i →
        BeganAt calls bus t i := by
      intro t i hi
      rcases beganAt_snoc.mp hi with ⟨hi, _⟩ | ⟨_, hcall, _⟩
      · exact hi
      · cases hcall
    exact hlt j k (hbegan hj) (hbegan hk)

end BusCall

/-! ## The lists that are kept -/

namespace Buses

open BusCall (Roll)

theorem after_snoc (b : Buses) (calls : List BusCall) (call : BusCall) :
    b.after (calls ++ [call]) = (b.after calls).perform call := List.foldl_concat ..

theorem perform_elsewhere (b : Buses) {call : BusCall} {bus : String} (h : call.bus ≠ bus) :
    (b.perform call).subscribers bus = b.subscribers bus := by
  cases call with
  | subscribe name s => exact (b.subscribers_subscribe name bus s).trans (if_neg fun hs => h hs.1)
  | unsubscribe name s => exact (b.subscribers_unsubscribe name bus s).trans (if_neg h)

theorem roll_perform {b : Buses} {calls : List BusCall} {bus : String}
    (h : Roll calls bus (b.subscribers bus)) (call : BusCall) :
    Roll (calls ++ [call]) bus ((b.perform call).subscribers bus) := by
  by_cases hbus : call.bus = bus
  · subst hbus
    cases call with
    | subscribe name s =>
      dsimp only [BusCall.bus, perform] at h ⊢
      rw [subscribers_subscribe]
      by_cases hs : s ∈ b.subscribers name
      · rw [if_neg fun hnew => hnew.2 hs]
        exact h.same (fun t ht => by cases ht; exact hs) nofun
      · rw [if_pos ⟨rfl, hs⟩]
        exact h.join hs
    | unsubscribe name s =>
      dsimp only [BusCall.bus, perform] at h ⊢
      rw [subscribers_unsubscribe, if_pos rfl]
      exact h.leave
  · rw [b.perform_elsewhere hbus]
    exact h.same (fun s hs => absurd (hs ▸ rfl) hbus) fun s hs => hbus (hs ▸ rfl)

theorem roll_after (calls : List BusCall) (bus : String) :
    Roll calls bus ((empty.after calls).subscribers bus) := by
  induction calls using List.reverseRecOn with
  | nil =>
    have hnone : (empty.after []).subscribers bus = [] := by simp [after, empty, subscribers]
    rw [hnone]
    exact .nil
  | append_singleton calls call ih =>
    rw [after_snoc]
    exact roll_perform ih call

theorem perform_congr {b b' : Buses} {bus : String} (h : b.subscribers bus = b'.subscribers bus)
    (call : BusCall) : (b.perform call).subscribers bus = (b'.perform call).subscribers bus := by
  cases call with
  | subscribe name s => simp only [perform, subscribers_subscribe, h]
  | unsubscribe name s => simp only [perform, subscribers_unsubscribe, h]

theorem subscribers_after_filter (calls : List BusCall) (bus : String) :
    (empty.after (calls.filter (·.bus == bus))).subscribers bus =
      (empty.after calls).subscribers bus := by
  induction calls using List.reverseRecOn with
  | nil => rfl
  | append_singleton calls call ih =>
    rw [after_snoc, List.filter_append]
    by_cases hbus : call.bus = bus
    · rw [List.filter_singleton, beq_iff_eq.mpr hbus, cond_true, after_snoc]
      exact perform_congr ih call
    · rw [List.filter_singleton, beq_eq_false_iff_ne.mpr hbus, cond_false, List.append_nil, ih,
        perform_elsewhere _ hbus]

/-! ## The names that are stored -/

def Tidy (b : Buses) : Prop := ∀ bus : String, b.table[bus]? ≠ some []

theorem Tidy.perform {b : Buses} (h : b.Tidy) (call : BusCall) : (b.perform call).Tidy := by
  intro bus
  cases call with
  | subscribe name s =>
    unfold Buses.perform subscribe
    dsimp only
    split
    · exact h bus
    · rw [Std.TreeMap.getElem?_insert]
      split
      · simp
      · exact h bus
  | unsubscribe name s =>
    unfold Buses.perform unsubscribe
    dsimp only
    split
    · rw [Std.TreeMap.getElem?_erase]
      split
      · exact nofun
      · exact h bus
    · rename_i hrest
      rw [Std.TreeMap.getElem?_insert]
      split
      · simpa using hrest
      · exact h bus

theorem tidy_after (calls : List BusCall) : (empty.after calls).Tidy := by
  induction calls using List.reverseRecOn with
  | nil => exact fun bus => by simp [after, empty]
  | append_singleton calls call ih =>
    rw [after_snoc]
    exact ih.perform call

theorem Tidy.mem_toList {b : Buses} (h : b.Tidy) {bus : String} {members : List Subscriber} :
    (bus, members) ∈ b.toList ↔ b.subscribers bus = members ∧ members ≠ [] := by
  rw [toList, Std.TreeMap.mem_toList_iff_getElem?_eq_some, subscribers,
    Std.TreeMap.getD_eq_getD_getElem?]
  cases hfound : b.table[bus]? with
  | none => simp [eq_comm]
  | some stored =>
    have hne : stored ≠ [] := fun hnil => h bus (hnil ▸ hfound)
    simp only [Option.some.injEq, Option.getD_some]
    exact ⟨fun heq => ⟨heq, heq ▸ hne⟩, fun heq => heq.1⟩

/-- After any calls, the subscribers of a bus are its roll: those whose last call was to subscribe,
without repetition, in the order in which their memberships began. To subscribe again neither
doubles nor moves a member, and who comes back stands at the end. Only the calls on a bus matter to
it, and just the buses with subscribers are stored. -/
theorem lists_who_joined (calls : List BusCall) :
    let b := empty.after calls
    (∀ bus members, b.subscribers bus = members ↔ Roll calls bus members) ∧
    (∀ bus, ∀ s ∈ b.subscribers bus, ∃! k, BusCall.BeganAt calls bus s k) ∧
    (∀ bus, ∀ s ∈ b.subscribers bus, b.subscribe bus s = b) ∧
    (∀ bus s, ((b.unsubscribe bus s).subscribe bus s).subscribers bus =
      (b.subscribers bus).filter (· ≠ s) ++ [s]) ∧
    (∀ call bus, call.bus ≠ bus → (b.perform call).subscribers bus = b.subscribers bus) ∧
    (∀ bus, (empty.after (calls.filter (·.bus == bus))).subscribers bus = b.subscribers bus) ∧
    ∀ bus members, (bus, members) ∈ b.toList ↔ b.subscribers bus = members ∧ members ≠ [] := by
  intro b
  have hroll : ∀ bus, Roll calls bus (b.subscribers bus) := roll_after calls
  refine ⟨fun bus members => ⟨?_, fun h => (hroll bus).unique h⟩, ?_, ?_, ?_, ?_, ?_, ?_⟩
  · rintro rfl
    exact hroll bus
  · exact fun bus s hs => (((hroll bus).mem s).mp hs).began
  · exact fun bus s hs => if_pos hs
  · intro bus s
    rw [subscribers_subscribe, subscribers_unsubscribe, if_pos rfl, if_pos ⟨rfl, by simp⟩]
  · exact fun call bus hbus => b.perform_elsewhere hbus
  · exact subscribers_after_filter calls
  · exact fun bus members => (tidy_after calls).mem_toList

/-- Who leaves and comes back stands at the end. -/
theorem lists_who_joined_again : let s : Subscriber := ⟨0, .regular 0⟩
    let t : Subscriber := ⟨1, .regular 0⟩
    let calls : List BusCall := [.subscribe "a" s, .subscribe "a" t, .subscribe "b" s,
      .unsubscribe "a" s, .subscribe "a" s]
    s ∈ (empty.after calls).subscribers "a" ∧ Roll calls "a" [t, s] ∧
      ∃! k, BusCall.BeganAt calls "a" s k := by
  intro s t calls
  obtain ⟨hroll, hbegan, -⟩ := lists_who_joined calls
  have hlist : (empty.after calls).subscribers "a" = [t, s] := by decide +kernel
  have hmem : s ∈ (empty.after calls).subscribers "a" := by rw [hlist]; simp
  exact ⟨hmem, (hroll "a" _).mp hlist, hbegan "a" s hmem⟩

end Buses

end Patchbay
