import Patchbay.Proofs.Moments
import Patchbay.Proofs.RunSafe

/-!
# Bindings and subscriptions

A control remembers the bus it listens on, and the engine keeps a list of the subscribers of every
bus. The two agree whenever a handler or a callback is about to run: only the tasks that carry out a
rebinding come in between, and they come at once.
-/

namespace Patchbay

variable {R : Type}

/-! ## Counting subscriptions -/

namespace Buses

theorem count_subscribe (b : Buses) (bus name : String) (s t : Subscriber) :
    ((b.subscribe bus s).subscribers name).count t =
      if bus = name ∧ s = t then max 1 ((b.subscribers name).count t)
      else (b.subscribers name).count t := by
  rw [subscribers_subscribe]
  by_cases hst : s = t
  · subst hst
    by_cases hmem : s ∈ b.subscribers name
    · have hpos := List.count_pos_iff.mpr hmem
      rw [if_neg (fun h => h.2 hmem)]
      split
      · omega
      · rfl
    · have hzero := List.count_eq_zero.mpr hmem
      by_cases hbus : bus = name
      · simp [hbus, hmem, hzero]
      · simp [hbus]
  · have hnot : ¬ (bus = name ∧ s = t) := fun h => hst h.2
    rw [if_neg hnot]
    split
    · simp [hst]
    · rfl

theorem count_unsubscribe (b : Buses) (bus name : String) (s t : Subscriber) :
    ((b.unsubscribe bus s).subscribers name).count t =
      if bus = name ∧ s = t then 0 else (b.subscribers name).count t := by
  rw [subscribers_unsubscribe]
  by_cases hbus : bus = name
  · by_cases hst : s = t
    · subst hst
      rw [if_pos hbus, if_pos ⟨hbus, rfl⟩]
      exact List.count_eq_zero.mpr (by simp)
    · have hnot : ¬ (bus = name ∧ s = t) := fun h => hst h.2
      rw [if_pos hbus, if_neg hnot, List.count_filter (by simpa using Ne.symm hst)]
  · rw [if_neg hbus, if_neg (fun h => hbus h.1)]

end Buses

/-! ## Who listens where -/

def StandardArgs.receiveBus? : StandardArgs R → Option String
  | .control a => a.receiveBus
  | .receive a => some a.bus
  | _ => none

def StandardArgs.isControl : StandardArgs R → Bool
  | .control _ => true
  | _ => false

def StandardState.control? : StandardState R → Option (ControlState R)
  | .control c => some c
  | _ => none

def StandardState.binding? (s : StandardState R) : Option (Option String) :=
  s.control?.map (·.receiveBus)

variable [Sample R]

namespace Engine

def control? (e : Engine (standard R)) (n : NodeId) : Option (ControlState R) :=
  e.nodes[n]?.bind (·.state.control?)

def binding? (e : Engine (standard R)) (n : NodeId) : Option (Option String) :=
  (e.control? n).map (·.receiveBus)

/-- The bus that node `n` listens on: a control where it is bound now, any other node where it was
built to. -/
def listensOn? (e : Engine (standard R)) (p : Patch (standard R)) (n : NodeId) : Option String :=
  (e.binding? n).getD ((p.node? n).bind (·.args.receiveBus?))

structure Tuned (p : Patch (standard R)) (e : Engine (standard R)) : Prop where
  kinds : ∀ n, (e.control? n).isSome = (p.node? n).any (·.args.isControl)
  counts : ∀ bus sub, (e.buses.subscribers bus).count sub =
    if sub.inlet = .regular 0 ∧ e.listensOn? p sub.node = some bus then 1 else 0

theorem isSome_control? (e : Engine (standard R)) (n : NodeId) :
    (e.control? n).isSome = (e.binding? n).isSome := by simp [binding?]

/-- Only the bindings of the nodes matter, not their states. -/
theorem Tuned.of_bindings {p : Patch (standard R)} {e e' : Engine (standard R)} (he : e.Tuned p)
    (hbinding : ∀ n, e'.binding? n = e.binding? n) (hbuses : e'.buses = e.buses) : e'.Tuned p where
  kinds n := by rw [isSome_control?, hbinding, ← isSome_control?, he.kinds]
  counts bus sub := by
    rw [hbuses, he.counts]
    unfold listensOn?
    rw [hbinding]

theorem Tuned.congr {p : Patch (standard R)} {e e' : Engine (standard R)} (he : e.Tuned p)
    (hnodes : e'.nodes = e.nodes) (hbuses : e'.buses = e.buses) : e'.Tuned p := by
  refine he.of_bindings (fun n => ?_) hbuses
  unfold binding? control?
  rw [hnodes]

/-! ## Nodes that keep their binding -/

theorem control?_setState {e : Engine (standard R)} {n : NodeId} {live : Live (standard R)}
    (hlive : e.nodes[n]? = some live) (st : StandardState R) (k : NodeId) :
    (e.setState n st).control? k = if n = k then st.control? else e.control? k := by
  unfold control?
  rw [getElem?_setState]
  by_cases h : n = k
  · subst h
    simp [hlive]
  · simp [h]

theorem binding?_eq {e : Engine (standard R)} {n : NodeId} {live : Live (standard R)}
    (hlive : e.nodes[n]? = some live) : e.binding? n = live.state.binding? := by
  simp [binding?, control?, hlive, StandardState.binding?]

theorem binding?_setState {e : Engine (standard R)} {n : NodeId} {live : Live (standard R)}
    (hlive : e.nodes[n]? = some live) (st : StandardState R) (k : NodeId) :
    (e.setState n st).binding? k = if n = k then st.binding? else e.binding? k := by
  unfold binding?
  rw [control?_setState hlive]
  split <;> rfl

/-- A node that stays bound where it is may change its state at will. -/
theorem Tuned.setState {p : Patch (standard R)} {e : Engine (standard R)} (he : e.Tuned p)
    {n : NodeId} {live : Live (standard R)} (hlive : e.nodes[n]? = some live)
    {st : StandardState R} (hst : st.binding? = live.state.binding?) :
    (e.setState n st).Tuned p := by
  refine he.of_bindings (fun k => ?_) rfl
  rw [binding?_setState hlive]
  split
  · rename_i hk
    subst hk
    rw [hst, binding?_eq hlive]
  · rfl

end Engine

/-! ## Handlers -/

omit [Sample R] in
def Emission.rebinds : Emission R → Bool
  | .subscribe .. | .unsubscribe .. => true
  | .send .. | .publish .. => false

namespace ControlState

omit [Sample R] in
/-- A control sends its value, and publishes it unless it listens there itself. -/
theorem mem_emissions {c : ControlState R} {em : Emission R} (h : em ∈ c.emissions) :
    em = .send 0 c.store.message ∨
      ∃ bus, c.sendBus = some bus ∧ c.receiveBus ≠ some bus ∧
        em = .publish bus c.store.message := by
  unfold emissions at h
  rcases List.mem_cons.mp h with h | h
  · exact Or.inl h
  · split at h
    · rename_i bus hsend
      split at h
      · cases h
      · rename_i hne
        exact Or.inr ⟨bus, hsend, fun hown => hne hown.symm, List.mem_singleton.mp h⟩
    · cases h

omit [Sample R] in
theorem rebinds_emissions (c : ControlState R) : ∀ em ∈ c.emissions, em.rebinds = false := by
  intro em hem
  obtain rfl | ⟨_, _, _, rfl⟩ := mem_emissions hem <;> rfl

omit [Sample R] in
theorem rebinds_rebindReceive (c : ControlState R) (bus : Option String) :
    ∀ em ∈ (c.rebindReceive bus).emissions, em.rebinds = true := by
  intro em hem
  rcases List.mem_append.mp hem with hem | hem
  all_goals
    obtain ⟨_, _, rfl⟩ := List.mem_map.mp hem
    rfl

/-- A message either rebinds the control, or leaves it bound where it was and makes it emit its
value or nothing. -/
theorem message_cases (c : ControlState R) (inlet : PortId) (msg : Message R) :
    ((c.message inlet msg).state.receiveBus = c.receiveBus ∧
      ((c.message inlet msg).emissions = [] ∨
        (c.message inlet msg).emissions = (c.message inlet msg).state.emissions)) ∨
    ∃ bus, inlet = .regular 0 ∧ Control.Command.ofMessage msg = .bindReceive bus ∧
      c.message inlet msg = c.rebindReceive bus := by
  have hsettle : ∀ store, (c.settle store).state.receiveBus = c.receiveBus ∧
      (c.settle store).emissions = [] := by
    intro store
    unfold settle
    split <;> exact ⟨rfl, rfl⟩
  by_cases hinlet : inlet = .regular 0
  · cases hcommand : Control.Command.ofMessage msg with
    | bang =>
      refine Or.inl ?_
      simp [message, hinlet, hcommand, Handled.emit]
    | bindSend bus =>
      refine Or.inl ?_
      simp [message, hinlet, hcommand, Handled.quiet]
    | bindReceive bus =>
      exact Or.inr ⟨bus, hinlet, rfl, by simp [message, hinlet, hcommand]⟩
    | set payload =>
      refine Or.inl ?_
      cases haccept : c.store.accept? payload with
      | none => simp [message, hinlet, hcommand, haccept, Handled.notify]
      | some store => simp [message, hinlet, hcommand, haccept, hsettle store]
    | value payload =>
      refine Or.inl ?_
      cases haccept : c.store.accept? payload with
      | none => simp [message, hinlet, hcommand, haccept, Handled.notify]
      | some store =>
        simp only [message, hinlet, hcommand, haccept, ne_eq, not_true, if_false, hsettle store,
          true_and]
        split
        · exact Or.inr rfl
        · exact Or.inl rfl
  · refine Or.inl ?_
    simp [message, hinlet, Handled.notify]

end ControlState

namespace StandardState

omit [Sample R] in
theorem eq_control {s : StandardState R} {c : ControlState R} (h : s.control? = some c) :
    s = .control c := by
  cases s <;> cases h
  rfl

theorem configure_keeps (s : StandardState R) (rate : R) :
    (s.configure rate).state.binding? = s.binding? ∧
      ∀ em ∈ (s.configure rate).emissions, em.rebinds = false := by
  cases s with
  | control c => exact ⟨rfl, c.rebinds_emissions⟩
  | _ => exact ⟨rfl, fun em hem => by cases hem⟩

theorem tick_keeps (s : StandardState R) (inputs own : List R) (rate : R) :
    (s.tick inputs own rate).state.binding? = s.binding? := by
  cases s <;> rfl

/-- What is no control never asks for a subscription. -/
theorem message_of_no_control (s : StandardState R) (h : s.control? = none) (inlet : PortId)
    (msg : Message R) (rate : R) : (s.message inlet msg rate).state.control? = none ∧
      ∀ em ∈ (s.message inlet msg rate).emissions, em.rebinds = false := by
  cases s with
  | control c => cases h
  | filter s =>
    refine ⟨rfl, ?_⟩
    simp only [message, FilterState.message, Handled.map]
    repeat' split
    all_goals simp [Handled.quiet, Handled.notify]
  | oscillator s =>
    refine ⟨rfl, ?_⟩
    simp only [message, OscillatorState.message, Handled.map]
    repeat' split
    all_goals simp [Handled.quiet, Handled.notify]
  | constant s =>
    refine ⟨rfl, ?_⟩
    simp only [message, ConstantState.message, Handled.map]
    split <;> simp [Handled.quiet, Handled.notify]
  | route s =>
    refine ⟨rfl, ?_⟩
    simp only [message, RouteState.message, Handled.map]
    repeat' split
    all_goals simp [Handled.quiet, Handled.notify, Handled.emit, Emission.rebinds]
  | print s => exact ⟨rfl, fun em hem => by cases hem⟩
  | send s =>
    refine ⟨rfl, ?_⟩
    simp only [message, SendState.message, Handled.map]
    repeat' split
    all_goals simp [Handled.quiet, Handled.notify, Handled.emit, Emission.rebinds]
  | receive s =>
    refine ⟨rfl, ?_⟩
    simp [message, ReceiveState.message, Handled.map, Handled.emit, Emission.rebinds]

/-- A message either leaves a node bound where it was, and sets off nothing but messages, or rebinds
a control. -/
theorem message_cases (s : StandardState R) (inlet : PortId) (msg : Message R) (rate : R) :
    ((s.message inlet msg rate).state.binding? = s.binding? ∧
      ∀ em ∈ (s.message inlet msg rate).emissions, em.rebinds = false) ∨
    ∃ c bus, s = .control c ∧ inlet = .regular 0 ∧
      Control.Command.ofMessage msg = .bindReceive bus ∧
      s.message inlet msg rate = (c.rebindReceive bus).map .control := by
  cases hcontrol : s.control? with
  | none =>
    obtain ⟨hstate, hemissions⟩ := s.message_of_no_control hcontrol inlet msg rate
    refine Or.inl ⟨?_, hemissions⟩
    unfold binding?
    rw [hstate, hcontrol]
  | some c =>
    obtain rfl := eq_control hcontrol
    rcases c.message_cases inlet msg with ⟨hbinding, hemissions⟩ | ⟨bus, hinlet, hcommand, heq⟩
    · refine Or.inl ⟨congrArg some hbinding, fun em hem => ?_⟩
      have hem : em ∈ (c.message inlet msg).emissions := hem
      rcases hemissions with hnone | hown
      · rw [hnone] at hem
        cases hem
      · rw [hown] at hem
        exact (c.message inlet msg).state.rebinds_emissions em hem
    · refine Or.inr ⟨c, bus, rfl, hinlet, hcommand, ?_⟩
      rw [← heq]
      rfl

end StandardState

/-! ## Rebinding -/

namespace Task

omit [Sample R] in
def rebinds : Task R → Bool
  | .apply _ _ emission => emission.rebinds
  | .callback .. | .deliver .. => false

omit [Sample R] in
def rebind : Task R → Buses → Buses
  | .apply _ n (.subscribe bus inlet), b => b.subscribe bus ⟨n, inlet⟩
  | .apply _ n (.unsubscribe bus inlet), b => b.unsubscribe bus ⟨n, inlet⟩
  | _, b => b

end Task

namespace Engine

def rebound {F : Family R} (e : Engine F) (tasks : List (Task R)) : Engine F :=
  { e with buses := tasks.foldl (fun b task => task.rebind b) e.buses }

@[simp] theorem control?_rebound (e : Engine (standard R)) (tasks : List (Task R)) (n : NodeId) :
    (e.rebound tasks).control? n = e.control? n := rfl

@[simp] theorem binding?_rebound (e : Engine (standard R)) (tasks : List (Task R)) (n : NodeId) :
    (e.rebound tasks).binding? n = e.binding? n := rfl

theorem count_left (e : Engine (standard R)) (n room : Nat) (old : Option String) (name : String)
    (sub : Subscriber) :
    ((e.rebound ((old.toList.map fun bus => Emission.unsubscribe bus (.regular 0)).map
      (.apply room n))).buses.subscribers name).count sub =
      if old = some name ∧ sub = ⟨n, .regular 0⟩ then 0
      else (e.buses.subscribers name).count sub := by
  cases old with
  | none => simp [rebound]
  | some bus => simp [rebound, Task.rebind, Buses.count_unsubscribe, eq_comm]

theorem count_joined (e : Engine (standard R)) (n room : Nat) (new : Option String) (name : String)
    (sub : Subscriber) :
    ((e.rebound ((new.toList.map fun bus => Emission.subscribe bus (.regular 0)).map
      (.apply room n))).buses.subscribers name).count sub =
      if new = some name ∧ sub = ⟨n, .regular 0⟩ then max 1 ((e.buses.subscribers name).count sub)
      else (e.buses.subscribers name).count sub := by
  cases new with
  | none => simp [rebound]
  | some bus => simp [rebound, Task.rebind, Buses.count_subscribe, eq_comm]

omit [Sample R] in
theorem rebound_append {F : Family R} (e : Engine F) (first rest : List (Task R)) :
    e.rebound (first ++ rest) = (e.rebound first).rebound rest := by
  simp [rebound]

/-- A control that was subscribed where it was bound is subscribed where it is bound then. -/
theorem count_rebindReceive {e : Engine (standard R)} {n : NodeId} {c : ControlState R}
    (hc : ∀ name, (e.buses.subscribers name).count ⟨n, .regular 0⟩ =
      if c.receiveBus = some name then 1 else 0)
    (bus : Option String) (room : Nat) (name : String) (sub : Subscriber) :
    ((e.rebound ((c.rebindReceive bus).emissions.map (.apply room n))).buses.subscribers name).count
        sub =
      if sub = ⟨n, .regular 0⟩ then if bus = some name then 1 else 0
      else (e.buses.subscribers name).count sub := by
  have hsplit : (c.rebindReceive bus).emissions =
      (c.receiveBus.toList.map fun old => Emission.unsubscribe old (.regular 0)) ++
        bus.toList.map fun new => Emission.subscribe new (.regular 0) := rfl
  rw [hsplit, List.map_append, rebound_append, count_joined, count_left]
  by_cases hsub : sub = ⟨n, .regular 0⟩
  · have hleft : (if c.receiveBus = some name ∧ sub = ⟨n, .regular 0⟩ then 0
        else (e.buses.subscribers name).count sub) = 0 := by
      rw [hsub, hc name]
      by_cases hold : c.receiveBus = some name <;> simp [hold]
    rw [hleft]
    simp [hsub]
  · simp [hsub]

/-- A control that is rebound moves to its new bus as soon as its tasks are done. -/
theorem Tuned.rebindReceive {p : Patch (standard R)} {e : Engine (standard R)} (he : e.Tuned p)
    {n : NodeId} {live : Live (standard R)} (hlive : e.nodes[n]? = some live) {c : ControlState R}
    (hc : live.state = .control c) (bus : Option String) (room : Nat) :
    ((e.setState n (.control { c with receiveBus := bus })).rebound
      ((c.rebindReceive bus).emissions.map (.apply room n))).Tuned p := by
  have hcontrol : e.control? n = some c := by simp [control?, hlive, hc, StandardState.control?]
  have hlistens : ∀ k, ((e.setState n (.control { c with receiveBus := bus })).rebound
      ((c.rebindReceive bus).emissions.map (.apply room n))).listensOn? p k =
        if n = k then bus else e.listensOn? p k := by
    intro k
    unfold listensOn?
    rw [binding?_rebound, binding?_setState hlive]
    split <;> rfl
  have hown : ∀ name, (e.buses.subscribers name).count ⟨n, .regular 0⟩ =
      if c.receiveBus = some name then 1 else 0 := by
    intro name
    rw [he.counts name ⟨n, .regular 0⟩]
    simp [listensOn?, binding?, hcontrol]
  refine ⟨fun k => ?_, fun name sub => ?_⟩
  · rw [control?_rebound, control?_setState hlive, ← he.kinds k]
    split
    · rename_i hk
      rw [← hk, hcontrol]
      rfl
    · rfl
  · have hcount := count_rebindReceive (e := e.setState n (.control { c with receiveBus := bus }))
      hown bus room name sub
    rw [hcount, hlistens]
    obtain ⟨k, inlet⟩ := sub
    by_cases hk : n = k
    · subst hk
      by_cases hinlet : inlet = .regular 0
      · simp [hinlet]
      · have hold := he.counts name ⟨n, inlet⟩
        simp only [hinlet, false_and, if_false] at hold
        simp [hinlet, Engine.setState, hold]
    · have hold := he.counts name ⟨k, inlet⟩
      simp [hk, Ne.symm hk, Engine.setState, hold]

end Engine

/-! ## Moments in tune -/

namespace Moment

/-- The tasks that carry out a rebinding come first, and once they are done, bindings and
subscriptions agree. -/
def InTune (p : Patch (standard R)) (m : Moment (standard R)) : Prop :=
  ∃ front rest, m.work = front ++ rest ∧ (∀ task ∈ front, task.rebinds = true) ∧
    (∀ task ∈ rest, task.rebinds = false) ∧ (m.engine.rebound front).Tuned p

section
variable {p : Patch (standard R)} {trace trace' : List (Event R)} {e : Engine (standard R)}
  {task : Task R} {rest : List (Task R)}

theorem InTune.of_calm (he : e.Tuned p) (hrest : ∀ task ∈ rest, task.rebinds = false) :
    InTune p ⟨trace, e, rest⟩ :=
  ⟨[], rest, rfl, by simp, hrest, he⟩

theorem InTune.calm (h : InTune p ⟨trace, e, task :: rest⟩) (htask : task.rebinds = false) :
    e.Tuned p ∧ ∀ t ∈ rest, t.rebinds = false := by
  obtain ⟨front, back, hwork, hfront, hback, he⟩ := h
  cases front with
  | nil =>
    have hwork : task :: rest = back := hwork
    subst hwork
    exact ⟨he, fun t ht => hback t (List.mem_cons_of_mem _ ht)⟩
  | cons first front =>
    obtain ⟨rfl, -⟩ := List.cons.inj hwork
    exact absurd (hfront task (by simp)) (by simp [htask])

theorem InTune.rebind (h : InTune p ⟨trace, e, task :: rest⟩) (htask : task.rebinds = true) :
    InTune p ⟨trace', { e with buses := task.rebind e.buses }, rest⟩ := by
  obtain ⟨front, back, hwork, hfront, hback, he⟩ := h
  cases front with
  | nil =>
    have hwork : task :: rest = back := hwork
    subst hwork
    exact absurd (hback task (by simp)) (by simp [htask])
  | cons first front =>
    obtain ⟨rfl, hrest⟩ := List.cons.inj hwork
    exact ⟨front, back, hrest, fun t ht => hfront t (List.mem_cons_of_mem _ ht), hback, he⟩

theorem InTune.tuned {m : Moment (standard R)} (h : m.InTune p)
    (hnext : ∀ task ∈ m.work.head?, task.rebinds = false) : m.engine.Tuned p := by
  obtain ⟨trace, e, work⟩ := m
  cases work with
  | nil =>
    obtain ⟨front, back, hwork, _, _, he⟩ := h
    obtain ⟨rfl, -⟩ := List.append_eq_nil_iff.mp hwork.symm
    exact he
  | cons task rest => exact (h.calm (hnext task rfl)).1

end

omit [Sample R] in
theorem calm_applies {emissions : List (Emission R)} (h : ∀ em ∈ emissions, em.rebinds = false)
    (room : Nat) (n : NodeId) :
    ∀ task ∈ emissions.map (Task.apply room n), task.rebinds = false := by
  intro task htask
  obtain ⟨em, hem, rfl⟩ := List.mem_map.mp htask
  exact h em hem

omit [Sample R] in
theorem calm_append {first rest : List (Task R)} (hfirst : ∀ task ∈ first, task.rebinds = false)
    (hrest : ∀ task ∈ rest, task.rebinds = false) :
    ∀ task ∈ first ++ rest, task.rebinds = false := by
  intro task htask
  rcases List.mem_append.mp htask with htask | htask
  · exact hfirst task htask
  · exact hrest task htask

theorem InTune.step {p : Patch (standard R)} {m m' : Moment (standard R)} (h : m.InTune p)
    (hstep : Step m m') : m'.InTune p := by
  cases hstep with
  | uncalled => exact .of_calm (h.calm rfl).1 (by simp)
  | undelivered => exact .of_calm (h.calm rfl).1 (by simp)
  | called hlive hconfigure =>
    rename_i rate n rest live handled
    obtain ⟨he, hrest⟩ := h.calm rfl
    obtain ⟨hbinding, hemissions⟩ := live.state.configure_keeps rate
    subst hconfigure
    refine .of_calm (he.setState hlive hbinding) ?_
    split
    · exact calm_append hrest (calm_applies hemissions maxDepth n)
    · simp
  | handled hlive hmessage =>
    rename_i e room origin n inlet msg rest live handled
    obtain ⟨he, hrest⟩ := h.calm rfl
    subst hmessage
    rcases live.state.message_cases inlet msg e.sampleRate with
      ⟨hbinding, hemissions⟩ | ⟨c, bus, hc, _, _, heq⟩
    · refine .of_calm (he.setState hlive hbinding) ?_
      split
      · exact calm_append (calm_applies hemissions room n) hrest
      · simp
    · -- the control asks for its subscriptions: until they are applied, these tasks come first
      have heq : (standard R).message live.state inlet msg e.sampleRate =
          (c.rebindReceive bus).map .control := heq
      rw [heq]
      refine ⟨(c.rebindReceive bus).emissions.map (.apply room n), rest, rfl, ?_, hrest,
        he.rebindReceive hlive hc bus room⟩
      intro task htask
      obtain ⟨em, hem, rfl⟩ := List.mem_map.mp htask
      exact c.rebinds_rebindReceive bus em hem
  | cut => exact .of_calm (h.calm rfl).1 (h.calm rfl).2
  | sent =>
    rename_i e room n outlet msg rest
    obtain ⟨he, hrest⟩ := h.calm rfl
    refine .of_calm ?_ (calm_append (by simp [Task.rebinds]) hrest)
    rw [Engine.capture_eq]
    exact he.congr rfl rfl
  | published =>
    obtain ⟨he, hrest⟩ := h.calm rfl
    refine .of_calm he (calm_append ?_ hrest)
    simp [Engine.fanOut, Task.rebinds]
  | subscribed => exact h.rebind rfl
  | unsubscribed => exact h.rebind rfl

/-! ## Calls -/

theorem steady_tuned (p : Patch (standard R)) :
    Engine.Steady (Engine.Tuned p : Engine (standard R) → Prop) where
  ticked {e} rate n he := by
    rcases Engine.tickNode_cases rate n e with h | ⟨inputs, slots, live, _, _, hlive, _, h⟩
    · rwa [h]
    · rw [h]
      exact (he.setState hlive (live.state.tick_keeps inputs (e.samples n) rate)).congr rfl rfl
  listened n outlet he := he.congr rfl rfl
  taken {e} n outlet he := by
    rw [Engine.take_eq]
    exact he.congr rfl rfl

theorem InTune.begins {p : Patch (standard R)} {m m' : Moment (standard R)} {call : Call R}
    (h : m.InTune p) (hidle : m.work = []) (hcall : Begins m call m') : m'.InTune p := by
  have he : m.engine.Tuned p := h.tuned (by simp [hidle])
  cases hcall with
  | refused => exact h
  | configured => exact .of_calm (he.congr rfl rfl) (by simp [Task.rebinds])
  | sent => exact .of_calm he (by simp [Task.rebinds])
  | published => exact .of_calm he (by simp [Engine.fanOut, Task.rebinds])
  | silent hsilent => exact .of_calm ((steady_tuned p).perform he hsilent) (by simp)

theorem OfRun.inTune {p : Patch (standard R)} {fresh : Engine (standard R)} (hfresh : fresh.Tuned p)
    {m : Moment (standard R)} (hm : OfRun fresh m) : m.InTune p := by
  induction hm with
  | start => exact .of_calm hfresh (by simp)
  | call call _ hidle ih => exact ih.begins hidle (begins_call _ call)
  | step _ hstep ih => exact ih.step hstep

end Moment

/-! ## Linked engines -/

theorem Control.declare_buses {kind : ControlKind} {a : ControlArgs R}
    {d : Declared (ControlState R)} (h : (Control.declare kind a).ending = .done d) :
    d.state.receiveBus = a.receiveBus ∧
      d.subscriptions = a.receiveBus.toList.map fun bus => (bus, .regular 0) := by
  obtain ⟨store, _, h⟩ := Traced.bind_done.mp h
  cases h
  exact ⟨rfl, rfl⟩

/-- A fresh instance listens where its node was built to, and asks for just this subscription. -/
theorem Builtin.declares_buses {type : NodeType (standard R)} {args : StandardArgs R}
    {topology : Topology} (h : Builtin type args topology) {wired : Wired}
    {d : Declared (StandardState R)} (hd : (type.declare args wired).ending = .done d) :
    d.state.control?.isSome = args.isControl ∧
      d.state.binding?.getD args.receiveBus? = args.receiveBus? ∧
      d.subscriptions = args.receiveBus?.toList.map fun bus => (bus, .regular 0) := by
  cases h with
  | control kind raw a read =>
    obtain ⟨d₀, hd₀, rfl⟩ := Blueprint.declared_of_inFamily hd rfl rfl fun _ => rfl
    obtain ⟨hreceive, hsubscriptions⟩ := Control.declare_buses hd₀
    exact ⟨rfl, hreceive, hsubscriptions⟩
  | _ =>
    obtain ⟨d₀, hd₀, rfl⟩ := Blueprint.declared_of_inFamily hd rfl rfl fun _ => rfl
    cases hd₀
    exact ⟨rfl, rfl, rfl⟩

namespace Engine

def EntersBus (wired : List Wired) (node : PatchNode (standard R)) : Prop :=
  ∃ d, (declareNode wired node).ending = .done d ∧
    d.subscriptions = node.args.receiveBus?.toList.map fun bus => (bus, .regular 0)

theorem count_enterAll {wired : List Wired} : ∀ (nodes : List (PatchNode (standard R)))
    (b : Buses), (∀ node ∈ nodes, EntersBus wired node) → ∀ name sub,
      ((enterAll wired nodes b).subscribers name).count sub =
        if sub.inlet = .regular 0 ∧
          ∃ node ∈ nodes, node.id = sub.node ∧ node.args.receiveBus? = some name
        then max 1 ((b.subscribers name).count sub) else (b.subscribers name).count sub
  | [], b, _, name, sub => by simp [enterAll]
  | node :: nodes, b, h, name, sub => by
    obtain ⟨d, hd, hsubscriptions⟩ := h node (by simp)
    have hrest := fun b => count_enterAll nodes b (fun n hn => h n (List.mem_cons_of_mem _ hn)) name
      sub
    simp only [enterAll, hd, hsubscriptions]
    rw [hrest]
    obtain ⟨k, inlet⟩ := sub
    cases hbus : node.args.receiveBus? with
    | none => simp [hbus]
    | some bus =>
      simp only [Option.toList_some, List.map_cons, List.map_nil, List.foldl_cons, List.foldl_nil,
        Buses.count_subscribe, Subscriber.mk.injEq, List.mem_cons, exists_eq_or_imp, hbus,
        Option.some.injEq]
      by_cases hinlet : inlet = .regular 0
      · subst hinlet
        by_cases hown : node.id = k ∧ bus = name
        · simp [hown]
        · have hnot : ¬ (bus = name ∧ node.id = k) := fun h => hown ⟨h.2, h.1⟩
          simp [hown, hnot]
      · simp [hinlet, Ne.symm hinlet]

theorem tuned_link {p : Patch (standard R)} (hp : p.Sound) (hs : p.Standard) {s : Schedule}
    {e : Engine (standard R)} (h : (link s p .empty).ending = .done e) : e.Tuned p := by
  obtain ⟨lives, pending, hdeclare, rfl⟩ := link_done h
  have hlives := (declareAll_done hdeclare).1
  have henters : ∀ node ∈ p.nodes, EntersBus s.wired node := by
    intro node hnode
    obtain ⟨k, hk, rfl⟩ := List.mem_iff_getElem.mp hnode
    obtain ⟨_, d, hd, _⟩ := hlives.get hk (hlives.length_eq ▸ hk)
    obtain ⟨w, _, hdone⟩ := Traced.bind_done.mp hd
    exact ⟨d, hd, ((hs.nodes _ hnode).declares_buses hdone).2.2⟩
  let fresh : Engine (standard R) := ⟨s, lives, enterAll s.wired p.nodes .empty, pending, none,
    List.replicate s.bufferLength 0, List.replicate (s.inputWidths.foldr Nat.max 0) 0, ∅⟩
  have hfresh : ∀ n, (fresh.control? n).isSome = (p.node? n).any (·.args.isControl) ∧
      fresh.listensOn? p n = (p.node? n).bind (·.args.receiveBus?) := by
    intro n
    by_cases hn : n < p.nodes.length
    · have hn' : n < lives.length := hlives.length_eq ▸ hn
      have hnode : p.node? n = some p.nodes[n] := List.getElem?_eq_getElem hn
      have hlive : fresh.nodes[n]? = some lives[n] := List.getElem?_eq_getElem hn'
      obtain ⟨_, d, hd, hstate⟩ := hlives.get hn hn'
      obtain ⟨w, _, hdone⟩ := Traced.bind_done.mp hd
      obtain ⟨hkind, hbus, _⟩ := (hs.nodes _ (List.getElem_mem hn)).declares_buses hdone
      simp only [List.get_eq_getElem] at hstate
      refine ⟨?_, ?_⟩
      · simpa [control?, hlive, hnode, hstate] using hkind
      · simpa [listensOn?, binding?_eq hlive, hnode, hstate] using hbus
    · have hnode : p.node? n = none := List.getElem?_eq_none (Nat.le_of_not_lt hn)
      have hlive : fresh.nodes[n]? = none :=
        List.getElem?_eq_none (hlives.length_eq ▸ Nat.le_of_not_lt hn)
      simp [control?, listensOn?, binding?, hnode, hlive]
  have hbuilt : ∀ n name, (∃ node ∈ p.nodes, node.id = n ∧ node.args.receiveBus? = some name) ↔
      (p.node? n).bind (·.args.receiveBus?) = some name := by
    intro n name
    constructor
    · rintro ⟨node, hnode, rfl, hbus⟩
      obtain ⟨k, hk⟩ := List.mem_iff_getElem?.mp hnode
      rw [hp.ids k node hk]
      exact Option.bind_eq_some_iff.mpr ⟨node, hk, hbus⟩
    · intro h
      obtain ⟨node, hnode, hbus⟩ := Option.bind_eq_some_iff.mp h
      exact ⟨node, Patch.node?_mem hnode, hp.ids n node hnode, hbus⟩
  refine ⟨fun n => (hfresh n).1, fun name sub => ?_⟩
  have hcount := count_enterAll p.nodes .empty henters name sub
  have hempty : (Buses.empty.subscribers name).count sub = 0 := by
    simp [Buses.subscribers, Buses.empty]
  simp only [hempty, hbuilt, ← (hfresh sub.node).2] at hcount
  exact hcount

theorem tuned_built {edits : List (Edit (standard R))}
    (hedits : ∀ edit ∈ edits, edit.fromCatalog = true) {s : Schedule} {e : Engine (standard R)}
    (h : (link s (Patch.built edits) .empty).ending = .done e) : e.Tuned (Patch.built edits) :=
  tuned_link (Patch.sound_built edits) (Patch.standard_built hedits) h

/-! ## Every binding has its subscription -/

theorem Tuned.mem_subscribers {p : Patch (standard R)} {e : Engine (standard R)} (he : e.Tuned p)
    {bus : String} {sub : Subscriber} : sub ∈ e.buses.subscribers bus ↔
      sub.inlet = .regular 0 ∧ e.listensOn? p sub.node = some bus := by
  rw [← List.count_pos_iff, he.counts]
  split
  · simp [*]
  · simp [*]

theorem Tuned.control_mem {p : Patch (standard R)} {e : Engine (standard R)} (he : e.Tuned p)
    {n : NodeId} {c : ControlState R} (hc : e.control? n = some c) {bus : String} {inlet : PortId} :
    ⟨n, inlet⟩ ∈ e.buses.subscribers bus ↔ inlet = .regular 0 ∧ c.receiveBus = some bus := by
  rw [he.mem_subscribers]
  simp [listensOn?, binding?, hc]

/-- A control is subscribed to the bus it is bound to now and a `receive` to the one it was built
for, each at inlet 0 and once; nothing else is subscribed anywhere. -/
structure Bound (p : Patch (standard R)) (e : Engine (standard R)) : Prop where
  controls : ∀ n node a, p.node? n = some node → node.args = .control a →
    ∃ c, e.control? n = some c
  control : ∀ n c, e.control? n = some c → ∀ bus,
    (e.buses.subscribers bus).count ⟨n, .regular 0⟩ = if c.receiveBus = some bus then 1 else 0
  receive : ∀ n node a, p.node? n = some node → node.args = .receive a → ∀ bus,
    (e.buses.subscribers bus).count ⟨n, .regular 0⟩ = if a.bus = bus then 1 else 0
  nowhere_else : ∀ bus, ∀ sub ∈ e.buses.subscribers bus, sub.inlet = .regular 0 ∧
    ∃ node, p.node? sub.node = some node ∧
      ((∃ a, node.args = .control a) ∨ ∃ a, node.args = .receive a)

theorem Tuned.bound {p : Patch (standard R)} {e : Engine (standard R)} (he : e.Tuned p) :
    e.Bound p where
  controls n node a hnode ha := by
    have hkind := he.kinds n
    rw [hnode, Option.any_some, ha] at hkind
    exact Option.isSome_iff_exists.mp hkind
  control n c hc bus := by
    rw [he.counts]
    simp [listensOn?, binding?, hc]
  receive n node a hnode ha bus := by
    have hkind := he.kinds n
    rw [hnode, Option.any_some, ha] at hkind
    have hnone : e.control? n = none := by
      cases hc : e.control? n with
      | none => rfl
      | some c => simp [hc, StandardArgs.isControl] at hkind
    rw [he.counts]
    simp [listensOn?, binding?, hnone, hnode, ha, StandardArgs.receiveBus?]
  nowhere_else bus sub hsub := by
    obtain ⟨hinlet, hlistens⟩ := he.mem_subscribers.mp hsub
    refine ⟨hinlet, ?_⟩
    cases hc : e.control? sub.node with
    | some c =>
      have hkind := he.kinds sub.node
      rw [hc] at hkind
      obtain ⟨node, hnode, hcontrol⟩ := (Option.any_eq_true _ _).mp hkind.symm
      cases ha : node.args with
      | control a => exact ⟨node, hnode, Or.inl ⟨a, ha⟩⟩
      | _ => simp [ha, StandardArgs.isControl] at hcontrol
    | none =>
      simp only [listensOn?, binding?, hc, Option.map_none, Option.getD_none] at hlistens
      obtain ⟨node, hnode, hbus⟩ := Option.bind_eq_some_iff.mp hlistens
      cases ha : node.args with
      | control a => exact ⟨node, hnode, Or.inl ⟨a, ha⟩⟩
      | receive a => exact ⟨node, hnode, Or.inr ⟨a, ha⟩⟩
      | _ => simp [ha, StandardArgs.receiveBus?] at hbus

/-- Bindings and subscriptions never drift apart: after linking, after every call, and whenever a
handler or a callback is about to run in between. -/
theorem bound_throughout [LawfulSample R] {edits : List (Edit (standard R))}
    (hedits : ∀ edit ∈ edits, edit.fromCatalog = true) :
    ∃ s fresh, (Schedule.compile (Patch.built edits)).ending = .done s ∧
      (link s (Patch.built edits) .empty).ending = .done fresh ∧
      (∀ calls, (fresh.after calls).Bound (Patch.built edits)) ∧
      ∀ m, Moment.OfRun fresh m → (∀ task ∈ m.work.head?, task.rebinds = false) →
        m.engine.Bound (Patch.built edits) := by
  obtain ⟨s, fresh, hs, hfresh⟩ := link_built hedits
  have htuned := tuned_built hedits hfresh
  have hmoment : ∀ m, Moment.OfRun fresh m → (∀ task ∈ m.work.head?, task.rebinds = false) →
      m.engine.Bound (Patch.built edits) :=
    fun m hm hnext => ((hm.inTune htuned).tuned hnext).bound
  refine ⟨s, fresh, hs, hfresh, fun calls => ?_, hmoment⟩
  obtain ⟨trace, hm⟩ := Moment.ofRun_after fresh calls
  exact hmoment _ hm (by simp)

/-- A list box that is rebound from one bus to another, where a `receive` listens already. -/
theorem bound_throughout_rebound :
    let edits : List (Edit (standard Float)) :=
      [.add "listbox" [.float 0, .float 0, .symbol "A"], .add "receive" [.symbol "B"]]
    let calls : List (Call Float) :=
      [.configure ⟨44100, 64, 1⟩, .send 0 (.regular 0) [.symbol "receive", .symbol "B"]]
    (∀ edit ∈ edits, edit.fromCatalog = true) ∧
      ∃ s fresh, (Schedule.compile (Patch.built edits)).ending = .done s ∧
        (link s (Patch.built edits) .empty).ending = .done fresh ∧
        (fresh.after calls).Bound (Patch.built edits) ∧
        fresh.buses.subscribers "A" = [⟨0, .regular 0⟩] ∧
        (fresh.after calls).buses.subscribers "A" = [] ∧
        (fresh.after calls).buses.subscribers "B" = [⟨1, .regular 0⟩, ⟨0, .regular 0⟩] := by
  intro edits calls
  have hedits : ∀ edit ∈ edits, edit.fromCatalog = true := by simp [edits, Edit.fromCatalog]
  obtain ⟨s, fresh, hs, hfresh, hbound, _⟩ := bound_throughout hedits
  refine ⟨hedits, s, fresh, hs, hfresh, hbound calls, ?_⟩
  obtain rfl := Ending.done.inj (hs.symm.trans (rfl : _ = Ending.done _))
  obtain rfl := Ending.done.inj (hfresh.symm.trans (rfl : _ = Ending.done _))
  exact ⟨by decide +kernel, by decide +kernel, by decide +kernel⟩

end Engine

end Patchbay
