import Patchbay.Proofs.PublishSound

/-!
# The span of a task

What a task sets off is put before the rest, so the rest waits until all of it is done. A span is
the time that takes. Every span ends, because each task leaves less room to what it sets off; and
where nothing faults, every task gets its turn.
-/

namespace Patchbay

variable {R : Type} {F : Family R}

/-! ## What tasks set off -/

namespace Task

def node : Task R → NodeId
  | callback _ n | deliver _ _ n _ _ | apply _ n _ => n

def isCallback : Task R → Bool
  | callback .. => true
  | deliver .. | apply .. => false

def enters (n : NodeId) : Task R → Bool
  | callback _ k | deliver (_ + 1) _ k _ _ => k == n
  | deliver 0 .. | apply .. => false

/-- A handler has its emissions applied, and an emission is delivered along wires or from a bus.
Only handing over takes room, and it takes the same on both ways. -/
inductive Begets : Task R → Task R → Prop
  | emits {room origin n inlet msg emission} :
    Begets (.deliver (room + 1) origin n inlet msg) (.apply room n emission)
  | wires {room n outlet msg target inlet} :
    Begets (.apply room n (.send outlet msg)) (.deliver room (.wire n outlet) target inlet msg)
  | buses {room n bus msg target inlet} :
    Begets (.apply room n (.publish bus msg)) (.deliver room (.bus bus (some n)) target inlet msg)

theorem Begets.calm {t t' : Task R} (h : t.Begets t') : t'.isCallback = false := by
  cases h <;> rfl

/-- What a task leaves to do: it is off the list, and what it sets off comes before the rest, but
what a callback emits comes behind. -/
inductive Leaves (rest : List (Task R)) : Task R → List (Task R) → Prop
  | above {task new} : task.isCallback = false → (∀ t ∈ new, task.Begets t) →
    Leaves rest task (new ++ rest)
  | behind {rate n} {emissions : List (Emission R)} :
    Leaves rest (.callback rate n) (rest ++ emissions.map (.apply maxDepth n))

theorem Leaves.nothing {rest : List (Task R)} {task : Task R} (h : task.isCallback = false) :
    Leaves rest task rest := by
  have hnone : ∀ t ∈ ([] : List (Task R)), task.Begets t := by simp
  exact .above h hnone

theorem run_leaves [Zero R] {task : Task R} {e : Engine F} {rest : List (Task R)}
    (h : (task.run e rest).fault = none) : task.Leaves rest (task.run e rest).state.2 := by
  cases task with
  | callback rate n =>
    cases hlive : e.nodes[n]? with
    | none => simp [run, hlive, Progress.fail] at h
    | some live => simpa only [run, hlive] using Leaves.behind
  | deliver room origin n inlet msg =>
    cases hlive : e.nodes[n]? with
    | none => simp [run, hlive, Progress.fail] at h
    | some live =>
      cases room with
      | zero =>
        simp only [run, hlive]
        exact .nothing rfl
      | succ room =>
        simp only [run, hlive]
        refine .above rfl fun t ht => ?_
        obtain ⟨emission, _, rfl⟩ := List.mem_map.mp ht
        exact .emits
  | apply room n emission =>
    cases emission with
    | send outlet msg =>
      refine .above rfl fun t ht => ?_
      obtain ⟨target, _, rfl⟩ := List.mem_map.mp ht
      exact .wires
    | publish bus msg =>
      refine .above rfl fun t ht => ?_
      obtain ⟨sub, _, rfl⟩ := List.mem_map.mp ht
      exact .buses
    | subscribe | unsubscribe => exact .nothing rfl

def carryOut [Zero R] : Task R → Engine F → Progress R (Engine F)
  | .callback .. => .stay
  | .deliver room origin n inlet msg => Engine.deliver room origin n inlet msg
  | .apply room n emission => Engine.applyWith (Engine.deliver room) n emission

end Task

namespace Moment

theorem enters_iff {m : Moment F} {n : NodeId} :
    m.Enters n ↔ (m.work.head?.any (·.enters n)) = true := by
  constructor
  · rintro (⟨rate, rest, hwork⟩ | ⟨room, origin, inlet, msg, rest, hwork⟩)
    all_goals simp [hwork, Task.enters]
  · intro h
    obtain ⟨task, htask, hn⟩ := (Option.any_eq_true _ _).mp h
    obtain ⟨rest, hwork⟩ := List.head?_eq_some_iff.mp htask
    cases task with
    | callback rate k =>
      obtain rfl : k = n := by simpa [Task.enters] using hn
      exact Or.inl ⟨rate, rest, hwork⟩
    | deliver room origin k inlet msg =>
      cases room with
      | zero => cases hn
      | succ room =>
        obtain rfl : k = n := by simpa [Task.enters] using hn
        exact Or.inr ⟨room, origin, inlet, msg, rest, hwork⟩
    | apply => cases hn

instance (m : Moment F) (n : NodeId) : Decidable (m.Enters n) := decidable_of_iff' _ enters_iff

section
variable [Zero R]

theorem Leads.next_next {m a : Moment F} (h : m.Leads a) : m.next.Leads a.next := by
  obtain ⟨k, rfl⟩ := h
  exact ⟨k, (Function.iterate_succ_apply _ k m).symm.trans (Function.iterate_succ_apply' _ k m)⟩

def Faultless (m : Moment F) : Prop :=
  ∀ task rest, m.work = task :: rest → (task.run m.engine rest).fault = none

theorem Faultless.next_work {m : Moment F} (h : m.Faultless) {task : Task R}
    {rest : List (Task R)} (hwork : m.work = task :: rest) : task.Leaves rest m.next.work := by
  have hnone := h task rest hwork
  have hnext : m.next.work = (task.run m.engine rest).state.2 := by
    simp [Moment.next, hwork, hnone]
  rw [hnext]
  exact Task.run_leaves hnone

theorem next_work {m : Moment F} {task : Task R} {rest : List (Task R)}
    (hwork : m.work = task :: rest) : m.next.work = [] ∨ task.Leaves rest m.next.work := by
  cases hfault : (task.run m.engine rest).fault with
  | some f => exact Or.inl (by simp [Moment.next, hwork, hfault])
  | none =>
    refine Or.inr (Faultless.next_work (fun task' rest' hwork' => ?_) hwork)
    obtain ⟨rfl, rfl⟩ := List.cons.inj (hwork.symm.trans hwork')
    exact hfault

theorem Faultless.callback {m : Moment F} (h : m.Faultless) {rate : R} {n : NodeId}
    {rest : List (Task R)} (hwork : m.work = .callback rate n :: rest) :
    ∃ live, m.engine.nodes[n]? = some live ∧ (F.configure live.state rate).fault = none := by
  have hnone := h _ rest hwork
  cases hlive : m.engine.nodes[n]? with
  | none => simp [Task.run, hlive, Progress.fail] at hnone
  | some live => exact ⟨live, rfl, by simpa [Task.run, hlive, Engine.absorb] using hnone⟩

theorem Faultless.exists_live {m : Moment F} (h : m.Faultless) {room : Nat} {origin : Origin}
    {n : NodeId} {inlet : PortId} {msg : Message R} {rest : List (Task R)}
    (hwork : m.work = .deliver room origin n inlet msg :: rest) :
    ∃ live, m.engine.nodes[n]? = some live := by
  have hnone := h _ rest hwork
  cases hlive : m.engine.nodes[n]? with
  | none => simp [Task.run, hlive, Progress.fail] at hnone
  | some live => exact ⟨live, rfl⟩

theorem Faultless.handler {m : Moment F} (h : m.Faultless) {room : Nat} {origin : Origin}
    {n : NodeId} {inlet : PortId} {msg : Message R} {rest : List (Task R)}
    (hwork : m.work = .deliver (room + 1) origin n inlet msg :: rest) {live : Live F}
    (hlive : m.engine.nodes[n]? = some live) :
    (F.message live.state inlet msg m.engine.sampleRate).fault = none := by
  simpa [Task.run, hlive, Engine.absorb] using h _ rest hwork

theorem Faultless.next_called {m : Moment F} (h : m.Faultless) {rate : R} {n : NodeId}
    {rest : List (Task R)} (hwork : m.work = .callback rate n :: rest) {live : Live F}
    (hlive : m.engine.nodes[n]? = some live) :
    let called := F.configure live.state rate
    m.next = ⟨m.trace ++ .configured n :: called.notices.map .notice,
      m.engine.setState n called.state, rest ++ called.emissions.map (.apply maxDepth n)⟩ := by
  obtain ⟨live', hlive', hnone⟩ := h.callback hwork
  cases hlive.symm.trans hlive'
  simp [Moment.next, hwork, Task.run, hlive, Engine.absorb, hnone]

theorem Faultless.next_handled {m : Moment F} (h : m.Faultless) {room : Nat} {origin : Origin}
    {n : NodeId} {inlet : PortId} {msg : Message R} {rest : List (Task R)}
    (hwork : m.work = .deliver (room + 1) origin n inlet msg :: rest) {live : Live F}
    (hlive : m.engine.nodes[n]? = some live) :
    let handled := F.message live.state inlet msg m.engine.sampleRate
    m.next = ⟨m.trace ++ .delivered origin n inlet msg :: handled.notices.map .notice,
      m.engine.setState n handled.state, handled.emissions.map (.apply room n) ++ rest⟩ := by
  have hnone := h.handler hwork hlive
  simp [Moment.next, hwork, Task.run, hlive, Engine.absorb, hnone]

theorem next_above {m : Moment F} {task first : Task R} {above front rest : List (Task R)}
    (hwork : m.work = task :: (above ++ rest)) (htask : task.isCallback = false)
    (hnext : m.next.work = first :: (front ++ rest)) :
    ∃ new, first :: front = new ++ above ∧ ∀ t ∈ new, task.Begets t := by
  rcases next_work hwork with hnone | hleaves
  · rw [hnone] at hnext
    cases hnext
  · generalize m.next.work = work at hleaves hnext
    cases hleaves with
    | @above _ new _ hbegets =>
      have hboth : first :: front ++ rest = new ++ above ++ rest := by
        rw [List.append_assoc, hnext, List.cons_append]
      exact ⟨new, List.append_cancel_right hboth, hbegets⟩
    | behind => cases htask

/-! ## Spans -/

/-- The second moment comes while the first task of `a` is carried out, after its own part: what was
to be done after the task still is. -/
inductive During (a : Moment F) (rest : List (Task R)) : Moment F → Prop
  | begun {task front} : a.next.work = task :: (front ++ rest) → During a rest a.next
  | next {m task front} : During a rest m → m.next.work = task :: (front ++ rest) →
    During a rest m.next

inductive Ends (a : Moment F) (rest : List (Task R)) : Moment F → Prop
  | alone : a.next.work = rest → Ends a rest a.next
  | last {m} : During a rest m → m.next.work = rest → Ends a rest m.next

theorem During.leads {a m : Moment F} {rest : List (Task R)} (h : During a rest m) :
    a.next.Leads m := by
  induction h with
  | begun => exact Leads.refl _
  | next _ _ ih => exact ih.trans (Leads.next _)

theorem During.trans {a b m : Moment F} {low high : List (Task R)} (ha : During a low b)
    (hb : During b high m) (h : low <:+ high) : During a low m := by
  obtain ⟨above, rfl⟩ := h
  have hstill : ∀ {task : Task R} {front : List (Task R)},
      task :: (front ++ (above ++ low)) = task :: ((front ++ above) ++ low) := by simp
  induction hb with
  | begun hnext => exact ha.next (hnext.trans hstill)
  | next _ hnext ih => exact ih.next (hnext.trans hstill)

theorem Ends.work {a z : Moment F} {rest : List (Task R)} (h : Ends a rest z) : z.work = rest := by
  cases h with
  | alone h => exact h
  | last _ h => exact h

theorem Ends.leads {a z : Moment F} {rest : List (Task R)} (h : Ends a rest z) :
    a.next.Leads z := by
  cases h with
  | alone => exact Leads.refl _
  | last h _ => exact h.leads.trans (Leads.next _)

/-- What the first task sets off has, and what all that sets off inherits, the work above the rest
has throughout the span. -/
theorem During.above {P : Task R → Prop} (hP : ∀ {t t'}, P t → t.Begets t' → P t')
    (hcalm : ∀ {t}, P t → t.isCallback = false) {a m : Moment F} {task : Task R}
    {rest : List (Task R)} (hwork : a.work = task :: rest) (htask : task.isCallback = false)
    (hbegun : ∀ {t}, task.Begets t → P t) (h : During a rest m) :
    ∃ first front, m.work = first :: (front ++ rest) ∧ ∀ t ∈ first :: front, P t := by
  induction h with
  | @begun first front hnext =>
    have hwork : a.work = task :: ([] ++ rest) := hwork
    obtain ⟨new, hnew, hbegets⟩ := next_above hwork htask hnext
    refine ⟨first, front, hnext, fun t ht => hbegun (hbegets t ?_)⟩
    rwa [hnew, List.append_nil] at ht
  | @next m first' front' _ hnext ih =>
    obtain ⟨first, front, hold, hfront⟩ := ih
    obtain ⟨new, hnew, hbegets⟩ :=
      next_above hold (hcalm (hfront first (List.mem_cons_self ..))) hnext
    refine ⟨first', front', hnext, fun t ht => ?_⟩
    rw [hnew] at ht
    rcases List.mem_append.mp ht with ht | ht
    · exact hP (hfront first (List.mem_cons_self ..)) (hbegets t ht)
    · exact hfront t (List.mem_cons_of_mem _ ht)

/-! ## Work comes to an end -/

theorem Does.carryOut {task : Task R} (h : task.isCallback = false) :
    Does (F := F) [task] task.carryOut := by
  cases task with
  | callback => cases h
  | deliver room origin n inlet msg => exact Does.deliver room origin n inlet msg
  | apply room n emission => exact Does.applyWith (Does.deliver room) n emission

/-- Whatever there is to do, and whichever nodes feed each other, some tasks later all is done. -/
theorem exists_idle (m : Moment F) : ∃ z, m.Leads z ∧ z.work = [] := by
  -- the callbacks are the only tasks that put others behind the rest, and nothing adds to them
  induction hcount : m.work.countP Task.isCallback generalizing m with
  | zero =>
    obtain ⟨trace, e, work⟩ := m
    have hcalm : ∀ t ∈ work, t.isCallback = false := by
      simpa [List.countP_eq_zero] using hcount
    have hdoes : Does (work.map id) (Progress.each (Task.carryOut (F := F)) work) :=
      Does.map fun t ht => Does.carryOut (hcalm t ht)
    refine ⟨_, by simpa using hdoes trace e [], ?_⟩
    simp [behind]
  | succ count ih =>
    obtain ⟨trace, e, work⟩ := m
    have hcount : work.countP Task.isCallback = count + 1 := hcount
    obtain ⟨front, task, rest, rfl, hfront, htask⟩ : ∃ front task rest,
        work = front ++ task :: rest ∧ (∀ t ∈ front, t.isCallback = false) ∧
          task.isCallback = true := by
      obtain ⟨task, hfound⟩ : ∃ task, work.find? Task.isCallback = some task := by
        rw [← Option.isSome_iff_exists, List.find?_isSome]
        exact List.countP_pos_iff.mp (by omega)
      obtain ⟨htask, front, rest, hsplit, hfront⟩ := List.find?_eq_some_iff_append.mp hfound
      exact ⟨front, task, rest, hsplit, by simpa using hfront, htask⟩
    have hdoes : Does (front.map id) (Progress.each (Task.carryOut (F := F)) front) :=
      Does.map fun t ht => Does.carryOut (hfront t ht)
    have hleads := hdoes trace e (task :: rest)
    rw [List.map_id] at hleads
    generalize hmid : behind trace _ (task :: rest) = mid at hleads
    by_cases hidle : mid.work = []
    · exact ⟨mid, hleads, hidle⟩
    have hwork : mid.work = task :: rest := by
      subst hmid
      unfold behind at hidle ⊢
      dsimp only at hidle ⊢
      split at hidle
      · rw [if_pos ‹_›]
      · exact absurd rfl hidle
    have hleads' : Leads ⟨trace, e, front ++ task :: rest⟩ mid.next :=
      hleads.trans (Leads.next mid)
    rcases next_work hwork with hnone | hleaves
    · exact ⟨mid.next, hleads', hnone⟩
    · obtain ⟨z, hz, hdone⟩ := ih mid.next (by
        generalize mid.next.work = work at hleaves
        cases hleaves with
        | above hcalm => cases htask.symm.trans hcalm
        | @behind _ n emissions =>
          have hnew : (emissions.map (Task.apply maxDepth n)).countP Task.isCallback = 0 := by
            simp [List.countP_eq_zero, Task.isCallback]
          have hold : front.countP Task.isCallback = 0 := by
            simpa [List.countP_eq_zero] using hfront
          simp only [List.countP_append, List.countP_cons_of_pos htask, hold] at hcount
          simp only [List.countP_append, hnew]
          omega)
      exact ⟨z, hleads'.trans hz, hdone⟩

theorem Leads.exists_le {m x : Moment F} (h : m.Leads x) {k : Nat}
    (hidle : (Moment.next^[k] m).work = []) : ∃ j ≤ k, Moment.next^[j] m = x := by
  obtain ⟨i, rfl⟩ := h
  rcases Nat.le_total i k with hle | hle
  · exact ⟨i, hle, rfl⟩
  · refine ⟨k, Nat.le_refl k, ?_⟩
    obtain ⟨d, rfl⟩ := Nat.le.dest hle
    rw [Nat.add_comm, Function.iterate_add_apply, Function.iterate_fixed (next_of_idle hidle)]

theorem Leads.of_idle {m x z : Moment F} (hx : m.Leads x) (hz : m.Leads z) (hidle : z.work = []) :
    x.Leads z := by
  obtain ⟨k, rfl⟩ := hz
  obtain ⟨j, hj, rfl⟩ := hx.exists_le hidle
  obtain ⟨d, rfl⟩ := Nat.le.dest hj
  exact ⟨d, by rw [Nat.add_comm j d, Function.iterate_add_apply]⟩

/-! ## Where nothing faults -/

def Smooth (m : Moment F) : Prop := ∀ x, m.Leads x → x.Faultless

theorem Smooth.leads {m x : Moment F} (hm : m.Smooth) (h : m.Leads x) : x.Smooth :=
  fun _ hx => hm _ (h.trans hx)

theorem Smooth.exists_ends {a : Moment F} (ha : a.Smooth) {task : Task R} {rest : List (Task R)}
    (hwork : a.work = task :: rest) (htask : task.isCallback = false) : ∃ z, Ends a rest z := by
  by_contra hnone
  push Not at hnone
  -- otherwise its span would never end, but work does
  have hspan : ∀ k, During a rest (next^[k] a.next) := by
    intro k
    induction k with
    | zero =>
      have hleaves := (ha a (Leads.refl a)).next_work hwork
      generalize hnext : a.next.work = work at hleaves
      cases hleaves with
      | @above _ new _ _ =>
        cases new with
        | nil => exact absurd (Ends.alone hnext) (hnone _)
        | cons first front => exact .begun hnext
      | behind => cases htask
    | succ k ih =>
      rw [Function.iterate_succ_apply']
      obtain ⟨first, front, habove, hcalm⟩ := ih.above (P := fun t => t.isCallback = false)
        (fun _ h => h.calm) id hwork htask Task.Begets.calm
      generalize next^[k] a.next = m at ih habove
      have hleaves := (ha m ((Leads.next a).trans ih.leads)).next_work habove
      generalize hnext : m.next.work = work at hleaves
      cases hleaves with
      | @above _ new _ _ =>
        rw [← List.append_assoc] at hnext
        cases hall : new ++ front with
        | nil => exact absurd (Ends.last ih (by rw [hnext, hall, List.nil_append])) (hnone _)
        | cons first' front' =>
          rw [hall] at hnext
          exact .next ih hnext
      | behind => cases hcalm _ (List.mem_cons_self ..)
  obtain ⟨z, ⟨k, rfl⟩, hdone⟩ := exists_idle a.next
  obtain ⟨first, front, habove, _⟩ := (hspan k).above (P := fun t => t.isCallback = false)
    (fun _ h => h.calm) id hwork htask Task.Begets.calm
  rw [hdone] at habove
  cases habove

/-- Every task gets its turn, and those behind it stay where they are until then. -/
theorem Smooth.turn {task : Task R} {rest : List (Task R)} : ∀ {front : List (Task R)}
    {m : Moment F}, m.Smooth → m.work = front ++ task :: rest →
      (∀ t ∈ front, t.isCallback = false) → ∃ x, m.Leads x ∧ x.work = task :: rest
  | [], m, _, hwork, _ => ⟨m, Leads.refl m, hwork⟩
  | first :: front, m, hm, hwork, hcalm => by
    obtain ⟨z, hz⟩ := hm.exists_ends hwork (hcalm first (List.mem_cons_self ..))
    have hlater : m.Leads z := (Leads.next m).trans hz.leads
    obtain ⟨x, hx, hturn⟩ := Smooth.turn (hm.leads hlater) hz.work
      fun t ht => hcalm t (List.mem_cons_of_mem _ ht)
    exact ⟨x, hlater.trans hx, hturn⟩

end

/-! ## Callbacks come first -/

/-- Either no callback is left, or callbacks come first and only what they emitted waits. -/
inductive Phased : List (Task R) → Prop
  | calm {work} : (∀ t ∈ work, t.isCallback = false) → Phased work
  | opening (rate : R) (nodes : List NodeId) (emitted : List (NodeId × List (Emission R))) :
    Phased (nodes.map (.callback rate) ++ queued emitted)

theorem calm_queued {R : Type} (emitted : List (NodeId × List (Emission R))) :
    ∀ t ∈ queued emitted, t.isCallback = false := by
  intro t ht
  obtain ⟨x, _, ht⟩ := List.mem_flatMap.mp ht
  obtain ⟨_, _, rfl⟩ := List.mem_map.mp ht
  rfl

theorem Phased.cons {task : Task R} {rest : List (Task R)} (h : Phased (task :: rest)) :
    (∀ t ∈ task :: rest, t.isCallback = false) ∨
      ∃ (rate : R) (n : NodeId) (nodes : List NodeId) (emitted : List (NodeId × List (Emission R))),
        task = .callback rate n ∧ rest = nodes.map (.callback rate) ++ queued emitted := by
  generalize hwork : task :: rest = whole at h
  cases h with
  | calm hcalm => exact Or.inl hcalm
  | opening rate nodes emitted =>
    cases nodes with
    | nil => exact Or.inl (calm_queued emitted)
    | cons n nodes =>
      obtain ⟨rfl, rfl⟩ := List.cons.inj hwork
      exact Or.inr ⟨rate, n, nodes, emitted, rfl, rfl⟩

theorem Phased.leaves {task : Task R} {rest work : List (Task R)} (h : Phased (task :: rest))
    (hleaves : task.Leaves rest work) : Phased work := by
  rcases h.cons with hcalm | ⟨rate, n, nodes, emitted, rfl, rfl⟩
  · cases hleaves with
    | @above _ new _ hbegets =>
      refine .calm fun t ht => ?_
      rcases List.mem_append.mp ht with ht | ht
      · exact (hbegets t ht).calm
      · exact hcalm t (List.mem_cons_of_mem _ ht)
    | behind => cases hcalm _ (List.mem_cons_self ..)
  · cases hleaves with
    | above htask => cases htask
    | @behind _ _ emissions =>
      have hqueued : nodes.map (.callback rate) ++ queued emitted ++
          emissions.map (.apply maxDepth n) =
            nodes.map (.callback rate) ++ queued (emitted ++ [(n, emissions)]) := by
        simp [queued]
      rw [hqueued]
      exact .opening rate nodes _

theorem OfRun.phased [Sample R] {fresh : Engine F} {m : Moment F} (hm : OfRun fresh m) :
    Phased m.work := by
  induction hm with
  | start => exact .calm (by simp)
  | @call m call _ hidle _ =>
    have hcall := begins_call m call
    generalize m.call call = m' at hcall ⊢
    cases hcall with
    | refused => exact .calm (by simp [hidle])
    | configured => simpa [queued] using Phased.opening (R := R) _ _ []
    | sent => exact .calm (by simp [Task.isCallback])
    | published => exact .calm (by simp [Engine.fanOut, Task.isCallback])
    | silent => exact .calm (by simp)
  | @step m m' _ hstep ih =>
    rw [hstep.eq_next]
    obtain ⟨trace, e, work⟩ := m
    cases work with
    | nil => exact ih
    | cons task rest =>
      rcases next_work (m := ⟨trace, e, task :: rest⟩) rfl with hnone | hleaves
      · rw [hnone]
        exact .calm (by simp)
      · exact ih.leaves hleaves

/-! ## Where tasks come from -/

end Moment

inductive Task.Root : Task R → Prop
  | callback {rate n} : Root (.callback rate n)
  | emitted {n emission} : Root (.apply maxDepth n emission)
  | sent {n inlet msg} : Root (.deliver (maxDepth + 1) .outside n inlet msg)
  | published {bus n inlet msg} : Root (.deliver (maxDepth + 1) (.bus bus none) n inlet msg)

namespace Moment

section
variable [Sample R]

def Sprung (start m : Moment F) (task : Task R) (back : List (Task R)) : Prop :=
  ∃ a parent rest, start.Leads a ∧ a.work = parent :: rest ∧ parent.Begets task ∧
    During a rest m ∧ rest <:+ back

theorem Sprung.next {start m : Moment F} {task : Task R} {back new : List (Task R)}
    (h : Sprung start m task back) (hnext : m.next.work = new ++ task :: back) :
    Sprung start m.next task back := by
  obtain ⟨a, parent, rest, ha, hwork, hbegets, hm, front, rfl⟩ := h
  refine ⟨a, parent, rest, ha, hwork, hbegets, ?_, List.suffix_append _ _⟩
  cases new with
  | nil => exact hm.next hnext
  | cons first new =>
    have hstill : m.next.work = first :: ((new ++ task :: front) ++ rest) := by simp [hnext]
    exact hm.next hstill

def Rooted (start m : Moment F) : Prop :=
  ∀ task back, task :: back <:+ m.work → task.Root ∨ Sprung start m task back

theorem Rooted.of_roots {start m : Moment F} (h : ∀ t ∈ m.work, t.Root) : Rooted start m :=
  fun task _ hsuffix => Or.inl (h task (hsuffix.subset (List.mem_cons_self ..)))

theorem Rooted.next {start m : Moment F} (h : Rooted start m) (hstart : start.Leads m)
    (hphased : Phased m.work) : Rooted start m.next := by
  cases hwork : m.work with
  | nil => rwa [next_of_idle hwork]
  | cons first rest =>
    rcases next_work hwork with hnone | hleaves
    · exact .of_roots (by simp [hnone])
    generalize hnext : m.next.work = work at hleaves
    cases hleaves with
    | @above _ new _ hbegets =>
      intro task back hsuffix
      rw [hnext] at hsuffix
      rcases cons_suffix_append hsuffix with hold | ⟨before, after, hnew, rfl⟩
      · refine (h task back (hwork ▸ hold.trans (List.suffix_cons _ _))).imp_right fun hsprung => ?_
        obtain ⟨middle, rfl⟩ := hold
        have hstill : m.next.work = (new ++ middle) ++ task :: back := by simp [hnext]
        exact hsprung.next hstill
      · refine Or.inr ⟨m, first, rest, hstart, hwork, hbegets task (by simp [hnew]), ?_,
          List.suffix_append _ _⟩
        cases new with
        | nil => simp at hnew
        | cons top new => exact .begun hnext
    | @behind rate n emissions =>
      -- while callbacks run there is nothing but callbacks and what they emitted
      rcases (hwork ▸ hphased).cons with hcalm | ⟨rate, n, nodes, emitted, hfirst, rfl⟩
      · cases hcalm _ (List.mem_cons_self ..)
      · refine .of_roots fun t ht => ?_
        rw [hnext] at ht
        simp only [List.mem_append, List.mem_map, queued, List.mem_flatMap] at ht
        rcases ht with (⟨_, _, rfl⟩ | ⟨_, _, _, _, rfl⟩) | ⟨_, _, rfl⟩
        · exact .callback
        · exact .emitted
        · exact .emitted

theorem Begins.roots {m m' : Moment F} {call : Call R} (h : Begins m call m')
    (hidle : m.work = []) : ∀ t ∈ m'.work, t.Root := by
  intro t ht
  cases h with
  | refused => simp [hidle] at ht
  | configured =>
    obtain ⟨_, _, rfl⟩ := List.mem_map.mp ht
    exact .callback
  | sent =>
    cases List.mem_singleton.mp ht
    exact .sent
  | published =>
    obtain ⟨_, _, rfl⟩ := List.mem_map.mp ht
    exact .published
  | silent => cases ht

theorem rooted {fresh : Engine F} {m x : Moment F} (hm : OfRun fresh m) (hidle : m.work = [])
    {call : Call R} (hx : (m.call call).Leads x) : Rooted (m.call call) x :=
  hx.keeps (.of_roots ((begins_call m call).roots hidle)) fun hleads hstep h =>
    hstep.eq_next ▸ h.next hleads ((hm.call call hidle).leads hleads).phased

theorem OfRun.exists_call {fresh : Engine F} {m : Moment F} (hm : OfRun fresh m) :
    m.work = [] ∨ ∃ a call, OfRun fresh a ∧ a.work = [] ∧ (a.call call).Leads m := by
  induction hm with
  | start => exact Or.inl rfl
  | call call hm hidle _ => exact Or.inr ⟨_, call, hm, hidle, Leads.refl _⟩
  | @step m m' _ hstep ih =>
    rw [hstep.eq_next]
    rcases ih with hidle | ⟨a, call, ha, hidle, hleads⟩
    · exact Or.inl ((next_of_idle hidle).symm ▸ hidle)
    · exact Or.inr ⟨a, call, ha, hidle, hleads.trans (Leads.next m)⟩

end

/-! ## Moments of a patch that never faults -/

structure Ready [Zero R] (Suits : F.State → Topology → Prop) (s : Schedule) (p : Patch F)
    (m : Moment F) : Prop where
  engine : m.engine.Ready Suits s p
  nodes : ∀ task ∈ m.work, task.node < p.nodes.length

section
variable [Sample R] {Suits : F.State → Topology → Prop} (hF : F.Keeps Suits) (hq : F.Quiet Suits)
  {s : Schedule} {p : Patch F} (hs : s.Links p) (hp : p.Sound)

include hq in
theorem Ready.faultless {m : Moment F} (h : m.Ready Suits s p) : m.Faultless := by
  intro task rest hwork
  have hn : task.node < p.nodes.length := h.nodes task (by rw [hwork]; exact List.mem_cons_self ..)
  cases task with
  | callback rate n =>
    obtain ⟨live, _, hlive, _, hsuits⟩ := h.engine.hosts.exists_live (n := n) hn
    simpa [Task.run, hlive, Engine.absorb] using hq.configure rate hsuits
  | deliver room origin n inlet msg =>
    obtain ⟨live, _, hlive, _, hsuits⟩ := h.engine.hosts.exists_live (n := n) hn
    cases room with
    | zero => simp [Task.run, hlive]
    | succ room => simpa [Task.run, hlive, Engine.absorb] using hq.message inlet msg _ hsuits
  | apply room n emission => cases emission <;> rfl

include hF hs hp

theorem Ready.step {m m' : Moment F} (h : m.Ready Suits s p) (hstep : Step m m') :
    m'.Ready Suits s p := by
  have hclosed := Engine.Ready.closed hF hs
  obtain ⟨he, hnodes⟩ := h
  cases hstep with
  | uncalled | undelivered => exact ⟨he, by simp⟩
  | @called _ e rate n rest live h hlive hconfigure =>
    subst hconfigure
    have hn : n < p.nodes.length := hnodes _ (List.mem_cons_self ..)
    refine ⟨hclosed.called rate he hlive, fun task htask => ?_⟩
    dsimp only at htask
    split at htask
    · rcases List.mem_append.mp htask with htask | htask
      · exact hnodes task (List.mem_cons_of_mem _ htask)
      · obtain ⟨_, _, rfl⟩ := List.mem_map.mp htask
        exact hn
    · cases htask
  | @handled _ e room origin n inlet msg rest live h hlive hmessage =>
    subst hmessage
    have hn : n < p.nodes.length := hnodes _ (List.mem_cons_self ..)
    refine ⟨hclosed.handled inlet msg he hlive, fun task htask => ?_⟩
    dsimp only at htask
    split at htask
    · rcases List.mem_append.mp htask with htask | htask
      · obtain ⟨_, _, rfl⟩ := List.mem_map.mp htask
        exact hn
      · exact hnodes task (List.mem_cons_of_mem _ htask)
    · cases htask
  | cut => exact ⟨he, fun task htask => hnodes task (List.mem_cons_of_mem _ htask)⟩
  | @sent _ e room n outlet msg rest =>
    refine ⟨hclosed.captured n outlet msg he, fun task htask => ?_⟩
    rcases List.mem_append.mp htask with htask | htask
    · obtain ⟨t, ht, rfl⟩ := List.mem_map.mp htask
      exact hs.targets_lt hp (he.hosts.schedule ▸ ht)
    · exact hnodes task (List.mem_cons_of_mem _ htask)
  | @published _ e room n bus msg rest =>
    refine ⟨he, fun task htask => ?_⟩
    rcases List.mem_append.mp htask with htask | htask
    · obtain ⟨sub, hsub, rfl⟩ := List.mem_map.mp htask
      exact he.subscribers bus sub hsub
    · exact hnodes task (List.mem_cons_of_mem _ htask)
  | subscribed =>
    exact ⟨hclosed.subscribed _ _ (hnodes _ (List.mem_cons_self ..)) he,
      fun task htask => hnodes task (List.mem_cons_of_mem _ htask)⟩
  | unsubscribed =>
    exact ⟨hclosed.unsubscribed _ _ he,
      fun task htask => hnodes task (List.mem_cons_of_mem _ htask)⟩

theorem Ready.leads {m m' : Moment F} (h : m.Ready Suits s p) (hleads : m.Leads m') :
    m'.Ready Suits s p :=
  hleads.keeps h fun _ hstep hx => hx.step hF hs hp hstep

omit hp in
theorem Ready.begins {m m' : Moment F} (h : m.Ready Suits s p) {call : Call R}
    (hcall : Begins m call m') : m'.Ready Suits s p := by
  have hclosed := Engine.Ready.closed hF hs
  obtain ⟨he, hnodes⟩ := h
  cases hcall with
  | refused => exact ⟨he, hnodes⟩
  | configured hconfig hvalid =>
    refine ⟨hclosed.configured hvalid he, fun task htask => ?_⟩
    obtain ⟨n, hn, rfl⟩ := List.mem_map.mp htask
    exact he.pending n hn
  | sent htarget =>
    refine ⟨he, fun task htask => ?_⟩
    rw [List.mem_singleton.mp htask]
    obtain ⟨live, hlive, _⟩ := Option.bind_eq_some_iff.mp htarget
    exact he.hosts.length ▸ (List.getElem?_eq_some_iff.mp hlive).1
  | published hconfig =>
    refine ⟨he, fun task htask => ?_⟩
    obtain ⟨sub, hsub, rfl⟩ := List.mem_map.mp htask
    exact he.subscribers _ sub hsub
  | silent hsilent => exact ⟨hclosed.toSteady.perform he hsilent, by simp⟩

theorem OfRun.ready {fresh : Engine F} (hfresh : fresh.Ready Suits s p) {m : Moment F}
    (hm : OfRun fresh m) : m.Ready Suits s p := by
  induction hm with
  | start => exact ⟨hfresh, by simp⟩
  | call call _ _ ih => exact ih.begins hF hs (begins_call _ call)
  | step _ hstep ih => exact ih.step hF hs hp hstep

include hq in
theorem Ready.smooth {m : Moment F} (h : m.Ready Suits s p) : m.Smooth :=
  fun _ hleads => (h.leads hF hs hp hleads).faultless hq

end

end Moment

/-! ## Built-in nodes -/

section
variable [Sample R] [LawfulSample R] {edits : List (Edit (standard R))}
  (hedits : ∀ edit ∈ edits, edit.fromCatalog = true) {s : Schedule} {fresh : Engine (standard R)}
  (hs : (Schedule.compile (Patch.built edits)).ending = .done s)
  (hfresh : (Engine.link s (Patch.built edits) .empty).ending = .done fresh)
include hedits hs hfresh

omit hs in
theorem Engine.ready_built : fresh.Ready StandardState.Sound s (Patch.built edits) := by
  refine ready_link (Patch.sound_built edits) (fun node hnode wired d hd => ?_) hfresh
  obtain ⟨d', hd', hsound⟩ := ((Patch.standard_built hedits).nodes node hnode).declares wired
  cases hd'.symm.trans hd
  exact hsound

theorem Moment.OfRun.ready_built {m : Moment (standard R)} (hm : OfRun fresh m) :
    m.Ready StandardState.Sound s (Patch.built edits) :=
  hm.ready StandardState.keeps_sound (Schedule.compile_done (Patch.sound_built edits) hs).1
    (Patch.sound_built edits) (Engine.ready_built hedits hfresh)

theorem Engine.ready_after_built (calls : List (Call R)) :
    (fresh.after calls).Ready StandardState.Sound s (Patch.built edits) := by
  have hlinks := (Schedule.compile_done (Patch.sound_built edits) hs).1
  have hready := Engine.ready_built hedits hfresh
  exact (Ready.closed StandardState.keeps_sound hlinks).after hready calls

theorem Moment.OfRun.faultless_built {m : Moment (standard R)} (hm : OfRun fresh m) : m.Faultless :=
  (hm.ready_built hedits hs hfresh).faultless StandardState.quiet

theorem Moment.OfRun.smooth_built {m : Moment (standard R)} (hm : OfRun fresh m) : m.Smooth :=
  (hm.ready_built hedits hs hfresh).smooth StandardState.keeps_sound StandardState.quiet
    (Schedule.compile_done (Patch.sound_built edits) hs).1 (Patch.sound_built edits)

end

end Patchbay
