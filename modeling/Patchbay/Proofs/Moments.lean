import Mathlib.Logic.Function.Iterate
import Patchbay.Proofs.EngineSound

/-!
# Runs, moment by moment

A call runs its cascades in one go. Here the same work is cut into tasks, done one after the other,
so that statements can speak of the moments in between: of the engine when a message is handed over,
or when an emission is applied. Every call ends where its tasks end.
-/

namespace Patchbay

variable {R : Type} {F : Family R}

inductive Task (R : Type)
  | callback (rate : R) (node : NodeId)
  | deliver (room : Nat) (origin : Origin) (node : NodeId) (inlet : PortId) (msg : Message R)
  | apply (room : Nat) (node : NodeId) (emission : Emission R)
  deriving DecidableEq

/-- An engine, what has happened to it, and what it has still to do, first things first. -/
structure Moment {R : Type} (F : Family R) where
  trace : List (Event R)
  engine : Engine F
  work : List (Task R)

/-! ## Tasks -/

def Engine.fanOut (e : Engine F) (room : Nat) (bus : String) (publisher : Option NodeId)
    (msg : Message R) : List (Task R) :=
  (e.buses.subscribers bus).map fun s => .deliver room (.bus bus publisher) s.node s.inlet msg

namespace Task

variable [Zero R]

/-- What a task does by itself, and the work there is after it. What a delivery or an emission sets
off comes next; what a callback emits waits for all callbacks. -/
def run (e : Engine F) (rest : List (Task R)) : Task R → Progress R (Engine F × List (Task R))
  | .callback rate node =>
    match e.nodes[node]? with
    | none => .fail (e, rest) .outOfRange
    | some live =>
      let h := F.configure live.state rate
      let p := e.absorb node (.configured node) h
      ⟨(p.state, rest ++ h.emissions.map (.apply maxDepth node)), p.events, p.fault⟩
  | .deliver room origin node inlet msg =>
    match e.nodes[node]? with
    | none => .fail (e, rest) .outOfRange
    | some live =>
      match room with
      | 0 =>
        ⟨(e, rest), [.cut origin node inlet msg, .notice (.cascadeCut live.name inlet msg)], none⟩
      | room + 1 =>
        let h := F.message live.state inlet msg e.sampleRate
        let p := e.absorb node (.delivered origin node inlet msg) h
        ⟨(p.state, h.emissions.map (.apply room node) ++ rest), p.events, p.fault⟩
  | .apply room node (.send outlet msg) =>
    ⟨(e.capture node outlet msg, ((e.schedule.targets node outlet).map fun t =>
      .deliver room (.wire node outlet) t.node t.inlet msg) ++ rest), [.sent node outlet msg], none⟩
  | .apply room node (.publish bus msg) => .stay (e, e.fanOut room bus (some node) msg ++ rest)
  | .apply _ node (.subscribe bus inlet) =>
    .stay ({ e with buses := e.buses.subscribe bus ⟨node, inlet⟩ }, rest)
  | .apply _ node (.unsubscribe bus inlet) =>
    .stay ({ e with buses := e.buses.unsubscribe bus ⟨node, inlet⟩ }, rest)

end Task

namespace Moment

section
variable [Zero R]

def next (m : Moment F) : Moment F :=
  match m.work with
  | [] => m
  | task :: rest =>
    let p := task.run m.engine rest
    ⟨m.trace ++ p.events, p.state.1, if p.fault.isNone then p.state.2 else []⟩

/-- What one task may do, kind by kind. A fault drops all that was still to do. -/
inductive Step : Moment F → Moment F → Prop
  | uncalled {trace e rate n rest} : e.nodes[n]? = none →
    Step ⟨trace, e, .callback rate n :: rest⟩ ⟨trace, e, []⟩
  | undelivered {trace e room origin n inlet msg rest} : e.nodes[n]? = none →
    Step ⟨trace, e, .deliver room origin n inlet msg :: rest⟩ ⟨trace, e, []⟩
  | called {trace e rate n rest live h} : e.nodes[n]? = some live →
    F.configure live.state rate = h →
    Step ⟨trace, e, .callback rate n :: rest⟩ ⟨trace ++ .configured n :: h.notices.map .notice,
      e.setState n h.state,
      if h.fault.isNone then rest ++ h.emissions.map (.apply maxDepth n) else []⟩
  | handled {trace e room origin n inlet msg rest live h} : e.nodes[n]? = some live →
    F.message live.state inlet msg e.sampleRate = h →
    Step ⟨trace, e, .deliver (room + 1) origin n inlet msg :: rest⟩
      ⟨trace ++ .delivered origin n inlet msg :: h.notices.map .notice, e.setState n h.state,
        if h.fault.isNone then h.emissions.map (.apply room n) ++ rest else []⟩
  | cut {trace e origin n inlet msg rest live} : e.nodes[n]? = some live →
    Step ⟨trace, e, .deliver 0 origin n inlet msg :: rest⟩
      ⟨trace ++ [.cut origin n inlet msg, .notice (.cascadeCut live.name inlet msg)], e, rest⟩
  | sent {trace e room n outlet msg rest} :
    Step ⟨trace, e, .apply room n (.send outlet msg) :: rest⟩
      ⟨trace ++ [.sent n outlet msg], e.capture n outlet msg,
        ((e.schedule.targets n outlet).map fun t =>
          .deliver room (.wire n outlet) t.node t.inlet msg) ++ rest⟩
  | published {trace e room n bus msg rest} :
    Step ⟨trace, e, .apply room n (.publish bus msg) :: rest⟩
      ⟨trace, e, e.fanOut room bus (some n) msg ++ rest⟩
  | subscribed {trace e room n bus inlet rest} :
    Step ⟨trace, e, .apply room n (.subscribe bus inlet) :: rest⟩
      ⟨trace, { e with buses := e.buses.subscribe bus ⟨n, inlet⟩ }, rest⟩
  | unsubscribed {trace e room n bus inlet rest} :
    Step ⟨trace, e, .apply room n (.unsubscribe bus inlet) :: rest⟩
      ⟨trace, { e with buses := e.buses.unsubscribe bus ⟨n, inlet⟩ }, rest⟩

theorem step_next {m : Moment F} (h : m.work ≠ []) : Step m m.next := by
  obtain ⟨trace, e, work⟩ := m
  cases work with
  | nil => exact absurd rfl h
  | cons task rest =>
    cases task with
    | callback rate n =>
      cases hlive : e.nodes[n]? with
      | none => simpa [Moment.next, Task.run, hlive, Progress.fail] using Step.uncalled hlive
      | some live => simpa [Moment.next, Task.run, hlive, Engine.absorb] using Step.called hlive rfl
    | deliver room origin n inlet msg =>
      cases hlive : e.nodes[n]? with
      | none => simpa [Moment.next, Task.run, hlive, Progress.fail] using Step.undelivered hlive
      | some live =>
        cases room with
        | zero => simpa [Moment.next, Task.run, hlive] using Step.cut hlive
        | succ room =>
          simpa [Moment.next, Task.run, hlive, Engine.absorb] using Step.handled hlive rfl
    | apply room n emission =>
      cases emission with
      | send outlet msg => exact Step.sent
      | publish bus msg => simpa [Moment.next, Task.run, Progress.stay] using Step.published
      | subscribe bus inlet =>
        simpa [Moment.next, Task.run, Progress.stay] using Step.subscribed
      | unsubscribe bus inlet =>
        simpa [Moment.next, Task.run, Progress.stay] using Step.unsubscribed

theorem Step.eq_next {m m' : Moment F} (h : Step m m') : m' = m.next := by
  cases h with
  | uncalled hlive => simp [Moment.next, Task.run, hlive, Progress.fail]
  | undelivered hlive => simp [Moment.next, Task.run, hlive, Progress.fail]
  | called hlive hconfigure => simp [Moment.next, Task.run, hlive, hconfigure, Engine.absorb]
  | handled hlive hmessage => simp [Moment.next, Task.run, hlive, hmessage, Engine.absorb]
  | cut hlive => simp [Moment.next, Task.run, hlive]
  | sent => rfl
  | published | subscribed | unsubscribed => simp [Moment.next, Task.run, Progress.stay]

def Leads (m m' : Moment F) : Prop := ∃ k, next^[k] m = m'

theorem Leads.refl (m : Moment F) : m.Leads m := ⟨0, rfl⟩

theorem Leads.next (m : Moment F) : m.Leads m.next := ⟨1, rfl⟩

theorem Leads.trans {a b c : Moment F} (hab : a.Leads b) (hbc : b.Leads c) : a.Leads c := by
  obtain ⟨j, rfl⟩ := hab
  obtain ⟨k, rfl⟩ := hbc
  exact ⟨k + j, Function.iterate_add_apply _ k j a⟩

theorem next_of_idle {m : Moment F} (h : m.work = []) : m.next = m := by
  unfold Moment.next
  rw [h]

/-- What every step keeps on the way holds at the later moment. -/
theorem Leads.keeps {P : Moment F → Prop} {m m' : Moment F} (h : m.Leads m') (hm : P m)
    (hstep : ∀ {x x'}, m.Leads x → Step x x' → P x → P x') : P m' := by
  obtain ⟨k, rfl⟩ := h
  induction k with
  | zero => exact hm
  | succ k ih =>
    rw [Function.iterate_succ_apply']
    have hleads : m.Leads (Moment.next^[k] m) := ⟨k, rfl⟩
    by_cases hidle : (Moment.next^[k] m).work = []
    · rwa [next_of_idle hidle]
    · exact hstep hleads (step_next hidle) ih

/-! ## Cascades -/

def behind (trace : List (Event R)) (p : Progress R (Engine F)) (rest : List (Task R)) :
    Moment F :=
  ⟨trace ++ p.events, p.state, if p.fault.isNone then rest else []⟩

/-- The tasks do what the work does, whatever else there is to do. -/
def Does (tasks : List (Task R)) (f : Engine F → Progress R (Engine F)) : Prop :=
  ∀ trace e rest, Leads ⟨trace, e, tasks ++ rest⟩ (behind trace (f e) rest)

theorem Does.nothing : Does ([] : List (Task R)) (Progress.stay : Engine F → _) := by
  intro trace e rest
  have hstay : behind trace (Progress.stay e) rest = ⟨trace, e, rest⟩ := by
    simp [behind, Progress.stay]
  rw [hstay]
  exact Leads.refl _

theorem Does.each {α : Type} {f : α → Engine F → Progress R (Engine F)}
    {tasks : α → List (Task R)} : ∀ {as : List α}, (∀ a ∈ as, Does (tasks a) (f a)) →
      Does (as.flatMap tasks) (Progress.each f as)
  | [], _ => Does.nothing
  | a :: as, h => by
    intro trace e rest
    have hfirst := h a (by simp) trace e (as.flatMap tasks ++ rest)
    rw [← List.append_assoc, ← List.flatMap_cons] at hfirst
    refine hfirst.trans ?_
    cases hfault : (f a e).fault with
    | some fault =>
      have hstop : behind trace (Progress.each f (a :: as) e) rest =
          behind trace (f a e) (as.flatMap tasks ++ rest) := by
        simp [behind, Progress.each, Progress.andThen, hfault]
      rw [hstop]
      exact Leads.refl _
    | none =>
      have hrest := Does.each (fun b hb => h b (List.mem_cons_of_mem _ hb))
        (trace ++ (f a e).events) (f a e).state rest
      have hgo : behind trace (Progress.each f (a :: as) e) rest =
          behind (trace ++ (f a e).events) (Progress.each f as (f a e).state) rest := by
        simp [behind, Progress.each, Progress.andThen, hfault]
      rw [hgo]
      simpa [behind, hfault] using hrest

/-- A task does its own part, and then what the tasks it sets off do. -/
theorem leads_of_run {task : Task R} {e : Engine F} {own : Progress R (Engine F)}
    {tasks rest : List (Task R)} {f : Engine F → Progress R (Engine F)} (trace : List (Event R))
    (hrun : task.run e rest = ⟨(own.state, tasks ++ rest), own.events, own.fault⟩)
    (htasks : Does tasks f) :
    Leads ⟨trace, e, task :: rest⟩ (behind trace (own.andThen f) rest) := by
  refine (Leads.next _).trans ?_
  have hnext : Moment.next (⟨trace, e, task :: rest⟩ : Moment F) =
      behind trace own (tasks ++ rest) := by
    simp [Moment.next, hrun, behind]
  rw [hnext]
  cases hfault : own.fault with
  | some fault =>
    have hstop : behind trace (own.andThen f) rest = behind trace own (tasks ++ rest) := by
      simp [behind, Progress.andThen, hfault]
    rw [hstop]
    exact Leads.refl _
  | none =>
    have hrest := htasks (trace ++ own.events) own.state rest
    have hgo : behind trace (own.andThen f) rest =
        behind (trace ++ own.events) (f own.state) rest := by
      simp [behind, Progress.andThen, hfault]
    rw [hgo]
    simpa [behind, hfault] using hrest

/-- A task that sets nothing off does its own part. -/
theorem leads_of_run_alone {task : Task R} {e : Engine F} {own : Progress R (Engine F)}
    {rest : List (Task R)} (trace : List (Event R))
    (hrun : task.run e rest = ⟨(own.state, rest), own.events, own.fault⟩) :
    Leads ⟨trace, e, task :: rest⟩ (behind trace own rest) := by
  have hrun : task.run e rest = ⟨(own.state, [] ++ rest), own.events, own.fault⟩ := hrun
  have halone := leads_of_run trace hrun Does.nothing
  rwa [Progress.andThen_stay] at halone

/-- Each of a list of tasks does its part. -/
theorem Does.map {α : Type} {f : α → Engine F → Progress R (Engine F)} {task : α → Task R}
    {as : List α} (h : ∀ a ∈ as, Does [task a] (f a)) :
    Does (as.map task) (Progress.each f as) := by
  rw [List.map_eq_flatMap]
  exact Does.each h

section
variable {room : Nat} (hdeliver : ∀ origin node inlet msg, Does (F := F)
  [.deliver room origin node inlet msg] (Engine.deliver room origin node inlet msg))
include hdeliver

theorem Does.fanOut (e : Engine F) (bus : String) (publisher : Option NodeId) (msg : Message R) :
    Does (F := F) (e.fanOut room bus publisher msg) (Progress.each
      (fun s => Engine.deliver room (.bus bus publisher) s.node s.inlet msg)
      (e.buses.subscribers bus)) :=
  Does.map fun _ _ => hdeliver _ _ _ _

theorem Does.applyWith (node : NodeId) (emission : Emission R) :
    Does (F := F) [.apply room node emission]
      (Engine.applyWith (Engine.deliver room) node emission) := by
  intro trace e rest
  cases emission with
  | send outlet msg =>
    exact leads_of_run trace rfl (Does.map fun t _ => hdeliver _ _ _ _)
  | publish bus msg =>
    have hrun : (Task.apply room node (.publish bus msg)).run e rest =
        ⟨((Progress.stay e : Progress R (Engine F)).state,
          e.fanOut room bus (some node) msg ++ rest), [], none⟩ := rfl
    exact leads_of_run trace hrun (Does.fanOut hdeliver e bus (some node) msg)
  | subscribe bus inlet => exact leads_of_run_alone trace rfl
  | unsubscribe bus inlet => exact leads_of_run_alone trace rfl

end

/-- The tasks of a delivery do what the delivery does. -/
theorem Does.deliver (room : Nat) : ∀ origin node inlet msg,
    Does (F := F) [.deliver room origin node inlet msg]
      (Engine.deliver room origin node inlet msg) := by
  induction room with
  | zero =>
    intro origin node inlet msg trace e rest
    refine leads_of_run_alone trace ?_
    cases hlive : e.nodes[node]? with
    | none => simp [Task.run, Engine.deliver, hlive, Progress.fail]
    | some live => simp [Task.run, Engine.deliver, hlive]
  | succ room ih =>
    intro origin node inlet msg trace e rest
    cases hlive : e.nodes[node]? with
    | none =>
      refine leads_of_run_alone trace ?_
      simp [Task.run, Engine.deliver, hlive, Progress.fail]
    | some live =>
      have hrun : (Task.deliver (room + 1) origin node inlet msg).run e rest =
          let h := F.message live.state inlet msg e.sampleRate
          let p := e.absorb node (.delivered origin node inlet msg) h
          ⟨(p.state, h.emissions.map (.apply room node) ++ rest), p.events, p.fault⟩ := by
        simp only [Task.run, hlive]
      have hhandled := leads_of_run trace hrun
        (Does.map fun emission _ => Does.applyWith ih node emission)
      simpa [Engine.deliver, hlive] using hhandled

/-! ## Callbacks -/

def queued (emitted : List (NodeId × List (Emission R))) : List (Task R) :=
  emitted.flatMap fun x => x.2.map (.apply maxDepth x.1)

theorem Does.queued (emitted : List (NodeId × List (Emission R))) :
    Does (F := F) (queued emitted) (Progress.each
      (fun x => Progress.each (Engine.applyWith (Engine.deliver maxDepth) x.1) x.2) emitted) :=
  Does.each fun x _ => Does.map fun emission _ =>
    Does.applyWith (Does.deliver maxDepth) x.1 emission

theorem leads_runCallbacks (rate : R) (nodes : List NodeId) : ∀ trace (e : Engine F) queue,
    Leads ⟨trace, e, nodes.map (.callback rate) ++ queue⟩
      (let p := Engine.runCallbacks rate nodes e
      ⟨trace ++ p.events, p.state.1,
        if p.fault.isNone then queue ++ Moment.queued p.state.2 else []⟩) := by
  induction nodes with
  | nil =>
    intro trace e queue
    simpa [Engine.runCallbacks, Progress.stay, Moment.queued] using Leads.refl _
  | cons node nodes ih =>
    intro trace e queue
    refine (Leads.next _).trans ?_
    cases hlive : e.nodes[node]? with
    | none =>
      simpa [Moment.next, Task.run, Engine.runCallbacks, hlive, Progress.fail] using Leads.refl _
    | some live =>
      cases hfault : (F.configure live.state rate).fault with
      | some fault =>
        simpa [Moment.next, Task.run, Engine.runCallbacks, hlive, hfault, Engine.absorb]
          using Leads.refl _
      | none =>
        have hrest := ih (trace ++ (e.absorb node (.configured node)
          (F.configure live.state rate)).events)
          (e.setState node (F.configure live.state rate).state)
          (queue ++ (F.configure live.state rate).emissions.map (.apply maxDepth node))
        simpa [Moment.next, Task.run, Engine.runCallbacks, hlive, hfault, Engine.absorb,
          Moment.queued] using hrest

end

/-! ## Calls -/

section
variable [Sample R]

/-- The first moment of a call. A call that is refused, or that no message belongs to, is over at
once. -/
def call (m : Moment F) : Call R → Moment F
  | .configure config =>
    match m.engine.config, config.validate with
    | none, .ok () =>
      ⟨m.trace ++ [.notice (.configuring config.sampleRate config.blockSize
          m.engine.pending.length)],
        { m.engine with config := some config, pending := [] },
        m.engine.pending.map (.callback config.sampleRate)⟩
    | _, _ => m
  | .send node inlet msg =>
    match m.engine.config, m.engine.nodes[node]?.bind (Engine.messageInlet? · inlet) with
    | some _, some target =>
      { m with work := [.deliver (maxDepth + 1) .outside node target msg] }
    | _, _ => m
  | .publish bus msg =>
    match m.engine.config with
    | some _ => { m with work := m.engine.fanOut (maxDepth + 1) bus none msg }
    | none => m
  | call =>
    let o := m.engine.perform call
    ⟨m.trace ++ o.events, o.state, []⟩

inductive Begins : Moment F → Call R → Moment F → Prop
  | refused {m call} : Begins m call m
  | configured {m config} : m.engine.config = none → config.validate = .ok () →
    Begins m (.configure config)
      ⟨m.trace ++ [.notice (.configuring config.sampleRate config.blockSize
          m.engine.pending.length)],
        { m.engine with config := some config, pending := [] },
        m.engine.pending.map (.callback config.sampleRate)⟩
  | sent {m n inlet target msg} :
    m.engine.nodes[n]?.bind (Engine.messageInlet? · inlet) = some target →
    m.engine.config.isSome = true →
    Begins m (.send n inlet msg) { m with work := [.deliver (maxDepth + 1) .outside n target msg] }
  | published {m bus msg} : m.engine.config.isSome = true →
    Begins m (.publish bus msg) { m with work := m.engine.fanOut (maxDepth + 1) bus none msg }
  | silent {m call} : call.isSilent = true → Begins m call
    ⟨m.trace ++ (m.engine.perform call).events, (m.engine.perform call).state, []⟩

theorem begins_call (m : Moment F) (call : Call R) : Begins m call (m.call call) := by
  cases call with
  | configure config =>
    cases hconfig : m.engine.config with
    | some c => simpa [Moment.call, hconfig] using Begins.refused
    | none =>
      cases hvalid : config.validate with
      | error err => simpa [Moment.call, hconfig, hvalid] using Begins.refused
      | ok u => simpa [Moment.call, hconfig, hvalid] using Begins.configured hconfig hvalid
  | send n inlet msg =>
    cases hconfig : m.engine.config with
    | none => simpa [Moment.call, hconfig] using Begins.refused
    | some c =>
      cases htarget : m.engine.nodes[n]?.bind (Engine.messageInlet? · inlet) with
      | none => simpa [Moment.call, hconfig, htarget] using Begins.refused
      | some target =>
        have hsome : m.engine.config.isSome = true := by simp [hconfig]
        simpa [Moment.call, hconfig, htarget] using Begins.sent htarget hsome
  | publish bus msg =>
    cases hconfig : m.engine.config with
    | none => simpa [Moment.call, hconfig] using Begins.refused
    | some c =>
      have hsome : m.engine.config.isSome = true := by simp [hconfig]
      simpa [Moment.call, hconfig] using Begins.published hsome
  | _ => exact Begins.silent rfl

def answered (m : Moment F) (call : Call R) : Moment F :=
  ⟨m.trace ++ (m.engine.perform call).events, (m.engine.perform call).state, []⟩

theorem leads_of_refused {m : Moment F} (hm : m.work = []) {call : Call R} {err : EngineError R}
    (hcall : m.call call = m) (h : m.engine.perform call = .refuse m.engine err) :
    (m.call call).Leads (m.answered call) := by
  have hanswered : m.answered call = m := by
    obtain ⟨trace, e, work⟩ := m
    cases hm
    simp only [answered, h, Outcome.refuse, List.append_nil]
  rw [hcall, hanswered]
  exact Leads.refl m

theorem answered_of_progress {m : Moment F} {call : Call R} {p : Progress R (Engine F)}
    (h : m.engine.perform call = Engine.ofProgress p) : m.answered call = behind m.trace p [] := by
  simp only [answered, h, Engine.ofProgress, behind, ite_self]

theorem leads_configure {m : Moment F} (hm : m.work = []) (config : Config R) :
    (m.call (.configure config)).Leads (m.answered (.configure config)) := by
  cases hconfig : m.engine.config with
  | some c =>
    have hrefused : m.engine.perform (.configure config) = .refuse m.engine .alreadyConfigured := by
      simp [Engine.perform, Engine.configure, Engine.unlessRefused, hconfig]
    exact leads_of_refused hm (by simp [call, hconfig]) hrefused
  | none =>
    cases hvalid : config.validate with
    | error err =>
      have hrefused : m.engine.perform (.configure config) = .refuse m.engine (.config err) := by
        simp [Engine.perform, Engine.configure, Engine.unlessRefused, hconfig, hvalid]
      exact leads_of_refused hm (by simp [call, hconfig, hvalid]) hrefused
    | ok u =>
      let opened : Event R := .notice (.configuring config.sampleRate config.blockSize
        m.engine.pending.length)
      let started : Engine F := { m.engine with config := some config, pending := [] }
      let p := Engine.runCallbacks config.sampleRate m.engine.pending started
      let rest : Engine F → Progress R (Engine F) := Progress.each
        (fun x => Progress.each (Engine.applyWith (Engine.deliver maxDepth) x.1) x.2) p.state.2
      have hperform : m.engine.perform (.configure config) = Engine.ofProgress
          ((⟨p.state.1, opened :: p.events, p.fault⟩ : Progress R (Engine F)).andThen rest) := by
        simp [Engine.perform, Engine.configure, Engine.unlessRefused, hconfig, hvalid, p, rest,
          started, opened]
      have hcallbacks := leads_runCallbacks config.sampleRate m.engine.pending
        (m.trace ++ [opened]) started []
      rw [answered_of_progress hperform]
      have hcall : m.call (.configure config) = ⟨m.trace ++ [opened], started,
          m.engine.pending.map (.callback config.sampleRate) ++ []⟩ := by
        simp [call, hconfig, hvalid, opened, started]
      rw [hcall]
      refine hcallbacks.trans ?_
      cases hfault : p.fault with
      | some fault =>
        simpa [behind, Progress.andThen, p, hfault] using Leads.refl _
      | none =>
        have hqueued := Does.queued p.state.2 ((m.trace ++ [opened]) ++ p.events) p.state.1 []
        simpa [behind, Progress.andThen, p, hfault] using hqueued

theorem leads_send {m : Moment F} (hm : m.work = []) (node : NodeId) (inlet : PortId)
    (msg : Message R) :
    (m.call (.send node inlet msg)).Leads (m.answered (.send node inlet msg)) := by
  cases hconfig : m.engine.config with
  | none =>
    have hrefused : m.engine.perform (.send node inlet msg) = .refuse m.engine .notConfigured := by
      simp [Engine.perform, Engine.send, Engine.unlessRefused, hconfig]
    exact leads_of_refused hm (by simp [call, hconfig]) hrefused
  | some c =>
    cases hlive : m.engine.nodes[node]? with
    | none =>
      have hrefused : m.engine.perform (.send node inlet msg) =
          .refuse m.engine (.invalidNode node) := by
        simp [Engine.perform, Engine.send, Engine.unlessRefused, hconfig, hlive]
      exact leads_of_refused hm (by simp [call, hconfig, hlive]) hrefused
    | some live =>
      cases htarget : Engine.messageInlet? live inlet with
      | none =>
        have hrefused : m.engine.perform (.send node inlet msg) =
            .refuse m.engine (.invalidPort node inlet) := by
          simp [Engine.perform, Engine.send, Engine.unlessRefused, hconfig, hlive, htarget]
        exact leads_of_refused hm (by simp [call, hconfig, hlive, htarget]) hrefused
      | some target =>
        have hperform : m.engine.perform (.send node inlet msg) = Engine.ofProgress
            (Engine.deliver (maxDepth + 1) .outside node target msg m.engine) := by
          simp [Engine.perform, Engine.send, Engine.unlessRefused, hconfig, hlive, htarget]
        rw [answered_of_progress hperform]
        have hdeliver := Does.deliver (F := F) (maxDepth + 1) .outside node target msg m.trace
          m.engine []
        simpa [call, hconfig, hlive, htarget] using hdeliver

theorem leads_publish {m : Moment F} (hm : m.work = []) (bus : String) (msg : Message R) :
    (m.call (.publish bus msg)).Leads (m.answered (.publish bus msg)) := by
  cases hconfig : m.engine.config with
  | none =>
    have hrefused : m.engine.perform (.publish bus msg) = .refuse m.engine .notConfigured := by
      simp [Engine.perform, Engine.publish, Engine.unlessRefused, hconfig]
    exact leads_of_refused hm (by simp [call, hconfig]) hrefused
  | some c =>
    have hperform : m.engine.perform (.publish bus msg) = Engine.ofProgress
        (Engine.publishWith (Engine.deliver (maxDepth + 1)) none bus msg m.engine) := by
      simp [Engine.perform, Engine.publish, Engine.unlessRefused, hconfig]
    rw [answered_of_progress hperform]
    have hfan := Does.fanOut (Does.deliver (maxDepth + 1)) m.engine bus none msg m.trace m.engine []
    simpa [call, hconfig, Engine.publishWith] using hfan

/-- Every call ends where its tasks end. -/
theorem leads_answered {m : Moment F} (hm : m.work = []) (call : Call R) :
    (m.call call).Leads (m.answered call) := by
  cases call with
  | configure config => exact leads_configure hm config
  | send node inlet msg => exact leads_send hm node inlet msg
  | publish bus msg => exact leads_publish hm bus msg
  | _ => exact Leads.refl _

/-! ## Runs -/

inductive OfRun (fresh : Engine F) : Moment F → Prop
  | start : OfRun fresh ⟨[], fresh, []⟩
  | call {m : Moment F} (call : Call R) : OfRun fresh m → m.work = [] → OfRun fresh (m.call call)
  | step {m m' : Moment F} : OfRun fresh m → Step m m' → OfRun fresh m'

theorem OfRun.leads {fresh : Engine F} {m m' : Moment F} (hm : OfRun fresh m) (h : m.Leads m') :
    OfRun fresh m' :=
  h.keeps hm fun _ hstep hx => hx.step hstep

theorem OfRun.answered {fresh : Engine F} {m : Moment F} (hm : OfRun fresh m) (hidle : m.work = [])
    (call : Call R) : OfRun fresh (m.answered call) :=
  (hm.call call hidle).leads (leads_answered hidle call)

end

end Moment

/-! ### What calls came to -/

section
variable [Sample R]

def Engine.outcomes
    (perform : Engine F → Call R → Outcome R (Engine F) (EngineError R) (Reply R)) :
    Engine F → List (Call R) → List (Outcome R (Engine F) (EngineError R) (Reply R))
  | _, [] => []
  | e, call :: calls => perform e call :: outcomes perform (perform e call).state calls

theorem Moment.OfRun.outcomes {fresh : Engine F} (calls : List (Call R)) : ∀ {m : Moment F},
    OfRun fresh m → m.work = [] → OfRun fresh
      ⟨m.trace ++ (Engine.outcomes Engine.perform m.engine calls).flatMap (·.events),
        m.engine.after calls, []⟩ := by
  induction calls with
  | nil =>
    intro m hm hidle
    obtain ⟨trace, e, work⟩ := m
    cases hidle
    simpa [Engine.outcomes, Engine.after] using hm
  | cons call calls ih =>
    intro m hm hidle
    have hrest := ih (hm.answered hidle call) rfl
    unfold Moment.answered at hrest
    simpa [Engine.outcomes, Engine.after] using hrest

/-- Calls in a row leave the trace of all of them, and the engine that the last left behind. -/
theorem Moment.ofRun_outcomes (fresh : Engine F) (calls : List (Call R)) : OfRun fresh
    ⟨(Engine.outcomes Engine.perform fresh calls).flatMap (·.events), fresh.after calls, []⟩ := by
  simpa using OfRun.outcomes calls (.start : OfRun fresh ⟨[], fresh, []⟩) rfl

theorem Moment.ofRun_after (fresh : Engine F) (calls : List (Call R)) :
    ∃ trace, OfRun fresh ⟨trace, fresh.after calls, []⟩ := ⟨_, ofRun_outcomes fresh calls⟩

end

end Patchbay
