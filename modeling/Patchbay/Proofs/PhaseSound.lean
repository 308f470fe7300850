import Patchbay.Proofs.WireSound

/-!
# Phases of an engine

Before its configuration an engine can be listened to and nothing else. The first valid one enters
every callback, and from then on those that ran and those that wait are just those that were
entered. A call that is refused might as well not have been made.
-/

namespace Patchbay

variable {R : Type} {F : Family R}

/-! ## Callbacks that ran, and those that wait -/

def Event.configured? : Event R → Option NodeId
  | .configured n => some n
  | _ => none

def Task.awaited? : Task R → Option NodeId
  | .callback _ n => some n
  | .deliver .. | .apply .. => none

def ran (events : List (Event R)) : List NodeId := events.filterMap Event.configured?

def awaited (work : List (Task R)) : List NodeId := work.filterMap Task.awaited?

@[simp] theorem ran_nil : ran ([] : List (Event R)) = [] := rfl

@[simp] theorem awaited_nil : awaited ([] : List (Task R)) = [] := rfl

@[simp] theorem ran_cons (event : Event R) (events : List (Event R)) :
    ran (event :: events) = event.configured?.toList ++ ran events :=
  filterMap_cons ..

@[simp] theorem awaited_cons (task : Task R) (work : List (Task R)) :
    awaited (task :: work) = task.awaited?.toList ++ awaited work :=
  filterMap_cons ..

@[simp] theorem ran_append (events events' : List (Event R)) :
    ran (events ++ events') = ran events ++ ran events' :=
  List.filterMap_append

@[simp] theorem awaited_append (work work' : List (Task R)) :
    awaited (work ++ work') = awaited work ++ awaited work' :=
  List.filterMap_append

@[simp] theorem ran_notices (notices : List (Notice R)) : ran (notices.map .notice) = [] := by
  simp [ran, List.filterMap_map, Function.comp_def, Event.configured?]

@[simp] theorem awaited_callbacks (rate : R) (nodes : List NodeId) :
    awaited (nodes.map (.callback rate)) = nodes := by
  simp [awaited, List.filterMap_map, Function.comp_def, Task.awaited?]

@[simp] theorem awaited_applies (room : Nat) (n : NodeId) (emissions : List (Emission R)) :
    awaited (emissions.map (.apply room n)) = [] := by
  simp [awaited, List.filterMap_map, Function.comp_def, Task.awaited?]

theorem awaited_of_calm {work : List (Task R)} (h : ∀ t ∈ work, t.isCallback = false) :
    awaited work = [] := by
  refine List.filterMap_eq_nil_iff.mpr fun t ht => ?_
  cases t with
  | callback => cases h _ ht
  | deliver | apply => rfl

namespace Engine

variable [Sample R]

/-! ## Calls that are refused -/

omit [Sample R] in
theorem unlessRefused_refused {e : Engine F} {α : Type} {x : Except (EngineError R) α}
    {outcome : α → Outcome R (Engine F) (EngineError R) (Reply R)} {err : EngineError R}
    (hanswered : ∀ a, (outcome a).ending ≠ .refused err)
    (h : (e.unlessRefused x outcome).ending = .refused err) :
    e.unlessRefused x outcome = .refuse e err := by
  cases x with
  | error err' =>
    cases h
    rfl
  | ok a => exact absurd h (hanswered a)

theorem perform_refused {e : Engine F} {call : Call R} {err : EngineError R}
    (h : (e.perform call).ending = .refused err) : e.perform call = .refuse e err := by
  have hprogress : ∀ p : Progress R (Engine F), (ofProgress p).ending ≠ .refused err := by
    intro p hp
    simp only [ofProgress] at hp
    split at hp <;> cases hp
  have hblock : ∀ b : Block F, (ofBlock b).ending ≠ .refused err := by
    intro b hb
    simp only [ofBlock] at hb
    split at hb <;> cases hb
  cases call with
  | configure | tick | send | publish => exact unlessRefused_refused hprogress h
  | block | render => exact unlessRefused_refused hblock h
  | listen | take => cases h

def heeded (e : Engine F) : List (Call R) → List (Call R)
  | [] => []
  | call :: calls =>
    match (e.perform call).ending with
    | .refused _ => heeded e calls
    | .done _ | .faulted _ => call :: heeded (e.perform call).state calls

end Engine

namespace Ending

variable {ε α : Type}

def isRefused : Ending ε α → Bool
  | refused _ => true
  | done _ | faulted _ => false

instance : (x : Ending ε α) → Decidable (∃ a, x = .done a)
  | .done a => .isTrue ⟨a, rfl⟩
  | .refused _ | .faulted _ => .isFalse nofun

end Ending

namespace Engine

variable [Sample R]

theorem outcomes_heeded (calls : List (Call R)) : ∀ e : Engine F,
    outcomes perform e (e.heeded calls) =
      (outcomes perform e calls).filter fun o => !o.ending.isRefused := by
  induction calls with
  | nil => exact fun _ => rfl
  | cons call calls ih =>
    intro e
    cases h : (e.perform call).ending with
    | refused err =>
      have hstay : (e.perform call).state = e := by rw [perform_refused h]; rfl
      simp [heeded, outcomes, h, hstay, ih, Ending.isRefused]
    | done reply => simp [heeded, outcomes, h, ih, Ending.isRefused]
    | faulted f => simp [heeded, outcomes, h, ih, Ending.isRefused]

/-! ## Before and after the configuration -/

/-- Without a configuration a call can only be refused, ask for no samples, or be about listening,
unless it brings a valid configuration. -/
theorem perform_unconfigured {e : Engine F} (h : e.config = none) (call : Call R) :
    (∃ config, call = .configure config ∧ config.validate = .ok ()) ∨
    (∃ err, e.perform call = .refuse e err) ∨
    (∃ node outlet, call = .block node outlet 0 ∧
      e.perform call = ⟨e, [], .done (.samples [])⟩) ∨
    ∃ node outlet, call = .listen node outlet ∨ call = .take node outlet := by
  cases call with
  | configure config =>
    cases hvalid : config.validate with
    | ok u => exact Or.inl ⟨config, rfl, hvalid⟩
    | error err =>
      exact Or.inr (Or.inl ⟨.config err, by simp [perform, configure, h, hvalid, unlessRefused]⟩)
  | tick => exact Or.inr (Or.inl ⟨.notConfigured, by simp [perform, tick, h, unlessRefused]⟩)
  | block node outlet n =>
    refine Or.inr ?_
    cases hslot : e.schedule.slot? node outlet with
    | none =>
      exact Or.inl ⟨.invalidPort node (.regular outlet), by
        simp [perform, processBlock, hslot, unlessRefused]⟩
    | some slot =>
      cases n with
      | zero =>
        exact Or.inr (Or.inl ⟨node, outlet, rfl, by
          simp [perform, processBlock, hslot, h, unlessRefused, ofBlock]⟩)
      | succ n =>
        exact Or.inl ⟨.notConfigured, by simp [perform, processBlock, hslot, h, unlessRefused]⟩
  | render node outlet frames =>
    exact Or.inr (Or.inl ⟨.notConfigured, by simp [perform, render, h, unlessRefused]⟩)
  | send node inlet msg =>
    exact Or.inr (Or.inl ⟨.notConfigured, by simp [perform, send, h, unlessRefused]⟩)
  | publish bus msg =>
    exact Or.inr (Or.inl ⟨.notConfigured, by simp [perform, publish, h, unlessRefused]⟩)
  | listen node outlet => exact Or.inr (Or.inr (Or.inr ⟨node, outlet, Or.inl rfl⟩))
  | take node outlet => exact Or.inr (Or.inr (Or.inr ⟨node, outlet, Or.inr rfl⟩))

structure Waiting (fresh e : Engine F) : Prop where
  config : e.config = none
  nodes : e.nodes = fresh.nodes
  pending : e.pending = fresh.pending

theorem Waiting.perform {fresh e : Engine F} (he : Waiting fresh e) {call : Call R}
    (hcall : ∀ config, call = .configure config → config.validate ≠ .ok ()) :
    Waiting fresh (e.perform call).state ∧ (e.perform call).events = [] := by
  rcases perform_unconfigured he.config call with
    ⟨config, hconfig, hvalid⟩ | ⟨err, h⟩ | ⟨_, _, _, h⟩ | ⟨node, outlet, rfl | rfl⟩
  · exact absurd hvalid (hcall config hconfig)
  · rw [h]
    exact ⟨he, rfl⟩
  · rw [h]
    exact ⟨he, rfl⟩
  · exact ⟨⟨he.config, he.nodes, he.pending⟩, rfl⟩
  · refine ⟨?_, rfl⟩
    simp only [Engine.perform]
    rw [take_eq]
    exact ⟨he.config, he.nodes, he.pending⟩

end Engine

namespace Moment

variable [Sample R]

/-! ## Phases -/

inductive Phase (fresh : Engine F) (m : Moment F) : Prop
  | waiting : Engine.Waiting fresh m.engine → m.trace = [] → m.work = [] → Phase fresh m
  | configured : m.engine.config.isSome = true → ran m.trace ++ awaited m.work = fresh.pending →
    Phase fresh m

theorem Faultless.ran_next {m : Moment F} (h : m.Faultless) :
    ran m.next.trace ++ awaited m.next.work = ran m.trace ++ awaited m.work := by
  cases hwork : m.work with
  | nil => rw [next_of_idle hwork, hwork]
  | cons task rest =>
    have hawaited : awaited m.next.work = awaited rest := by
      have hleaves := h.next_work hwork
      generalize m.next.work = work at hleaves
      cases hleaves with
      | above _ hbegets =>
        rw [awaited_append, awaited_of_calm fun t ht => (hbegets t ht).calm, List.nil_append]
      | behind => rw [awaited_append, awaited_applies, List.append_nil]
    have hran : ran m.next.trace = ran m.trace ++ task.awaited?.toList := by
      cases task with
      | callback rate n =>
        obtain ⟨live, hlive, _⟩ := h.callback hwork
        simp [Moment.next, hwork, Task.run, hlive, Engine.absorb, Event.configured?, Task.awaited?]
      | deliver room origin n inlet msg =>
        obtain ⟨live, hlive⟩ := h.exists_live hwork
        cases room <;>
          simp [Moment.next, hwork, Task.run, hlive, Engine.absorb, Event.configured?,
            Task.awaited?]
      | apply room n emission =>
        cases emission <;>
          simp [Moment.next, hwork, Task.run, Progress.stay, Event.configured?, Task.awaited?]
    rw [hawaited, hran, awaited_cons, List.append_assoc]

theorem Step.config {m m' : Moment F} (h : Step m m') : m'.engine.config = m.engine.config := by
  cases h with
  | @sent _ e _ n outlet msg _ =>
    simp only [Engine.capture]
    split <;> rfl
  | _ => rfl

theorem Phase.step {fresh : Engine F} {m m' : Moment F} (h : Phase fresh m) (hfine : m.Faultless)
    (hstep : Step m m') : Phase fresh m' := by
  cases h with
  -- nothing is left to do, so the step changes nothing
  | waiting hwaiting htrace hidle =>
    rw [hstep.eq_next, next_of_idle hidle]
    exact .waiting hwaiting htrace hidle
  | configured hconfig hran =>
    refine .configured (hstep.config ▸ hconfig) ?_
    rw [hstep.eq_next, hfine.ran_next, hran]

theorem Phase.begins {fresh : Engine F} {m m' : Moment F} {call : Call R} (h : Phase fresh m)
    (hidle : m.work = []) (hcall : Begins m call m') : Phase fresh m' := by
  cases h with
  | waiting hwaiting htrace _ =>
    have hnone := hwaiting.config
    cases hcall with
    | refused => exact .waiting hwaiting htrace hidle
    | configured => exact .configured rfl (by simp [htrace, hwaiting.pending, Event.configured?])
    | sent _ hsome => simp [hnone] at hsome
    | published hsome => simp [hnone] at hsome
    | silent hsilent =>
      have hnot : ∀ config, call = .configure config → config.validate ≠ .ok () := by
        rintro _ rfl
        cases hsilent
      obtain ⟨hstill, hevents⟩ := hwaiting.perform hnot
      exact .waiting hstill (by simp [htrace, hevents]) rfl
  | configured hconfig hran =>
    rw [hidle, awaited_nil, List.append_nil] at hran
    cases hcall with
    | refused => exact .configured hconfig (by simpa [hidle] using hran)
    | configured hnone => simp [hnone] at hconfig
    | sent => exact .configured hconfig (by simpa [Task.awaited?] using hran)
    | published =>
      refine .configured hconfig ?_
      rw [awaited_of_calm (by simp [Engine.fanOut, Task.isCallback]), List.append_nil, hran]
    | silent hsilent =>
      have hsame := (Engine.steady_framed m.engine).perform (.refl _) hsilent
      refine .configured (hsame.config ▸ hconfig) ?_
      simp [Engine.events_of_silent m.engine hsilent, hran]

theorem OfRun.phase {fresh : Engine F} (hfresh : fresh.config = none)
    (hfine : ∀ x, OfRun fresh x → x.Faultless) {m : Moment F} (hm : OfRun fresh m) :
    Phase fresh m := by
  induction hm with
  | start => exact .waiting ⟨hfresh, rfl, rfl⟩ rfl rfl
  | call call _ hidle ih => exact ih.begins hidle (begins_call _ call)
  | step hm hstep ih => exact ih.step (hfine _ hm) hstep

omit [Sample R] in
theorem Phase.of_unconfigured {fresh : Engine F} {m : Moment F} (h : Phase fresh m)
    (hnone : m.engine.config = none) : Engine.Waiting fresh m.engine := by
  cases h with
  | waiting hwaiting => exact hwaiting
  | configured hconfig =>
    rw [hnone] at hconfig
    cases hconfig

theorem Begins.isSome_config {m m' : Moment F} {call : Call R} (h : Begins m call m')
    (hm : m.engine.config.isSome = true) : m'.engine.config.isSome = true := by
  cases h with
  | configured => rfl
  | silent hsilent => exact ((Engine.steady_framed m.engine).perform (.refl _) hsilent).config ▸ hm
  | refused | sent | published => exact hm

theorem Leads.config {m m' : Moment F} (h : m.Leads m') : m'.engine.config = m.engine.config :=
  h.keeps (P := fun x => x.engine.config = m.engine.config) rfl
    fun _ hstep hx => hstep.config.trans hx

end Moment

namespace Engine

variable [Sample R]

/-! ## Success -/

def Succeeds (e : Engine F) (calls : List (Call R)) : Prop :=
  ∃ before config after reply, calls = before ++ .configure config :: after ∧
    ((e.after before).perform (.configure config)).ending = .done reply

theorem succeeds_append_singleton {e : Engine F} {calls : List (Call R)} {call : Call R} :
    e.Succeeds (calls ++ [call]) ↔ e.Succeeds calls ∨ ∃ config reply, call = .configure config ∧
      ((e.after calls).perform (.configure config)).ending = .done reply := by
  constructor
  · rintro ⟨before, config, after, reply, hsplit, hdone⟩
    rcases List.eq_nil_or_concat after with rfl | ⟨after, last, rfl⟩
    · obtain ⟨rfl, hlast⟩ := List.append_inj' hsplit rfl
      exact Or.inr ⟨config, reply, List.singleton_inj.mp hlast, hdone⟩
    · rw [List.concat_eq_append, ← List.cons_append, ← List.append_assoc] at hsplit
      obtain ⟨rfl, _⟩ := List.append_inj' hsplit rfl
      exact Or.inl ⟨before, config, after, reply, rfl, hdone⟩
  · rintro (⟨before, config, after, reply, rfl, hdone⟩ | ⟨config, reply, rfl, hdone⟩)
    · exact ⟨before, config, after ++ [call], reply, by simp, hdone⟩
    · exact ⟨calls, config, [], reply, rfl, hdone⟩

theorem after_append_singleton (e : Engine F) (calls : List (Call R)) (call : Call R) :
    e.after (calls ++ [call]) = ((e.after calls).perform call).state := by
  simp [after]

theorem isSome_config_perform {e : Engine F} (h : e.config.isSome = true) (call : Call R) :
    (e.perform call).state.config.isSome = true := by
  have hopened := (Moment.begins_call ⟨[], e, []⟩ call).isSome_config h
  exact (e.opening_leads call).config ▸ hopened

theorem isSome_config_configure {e : Engine F} (h : e.config = none) {config : Config R}
    (hvalid : config.validate = .ok ()) :
    (e.perform (.configure config)).state.config.isSome = true := by
  have hopened : (e.opening (.configure config)).engine.config = some config := by
    simp [opening, Moment.call, h, hvalid]
  rw [(e.opening_leads (.configure config)).config, hopened]
  rfl

theorem isSome_config_iff {fresh : Engine F} (hfresh : fresh.config = none)
    (hfine : ∀ calls call f, ((fresh.after calls).perform call).ending ≠ .faulted f)
    (calls : List (Call R)) :
    (fresh.after calls).config.isSome = true ↔ fresh.Succeeds calls := by
  induction calls using List.reverseRecOn with
  | nil =>
    simp only [after, List.foldl_nil, hfresh, Option.isSome_none, Bool.false_eq_true, false_iff]
    rintro ⟨before, _, _, _, hsplit, _⟩
    simp at hsplit
  | append_singleton calls call ih =>
    have hfine := hfine calls call
    rw [after_append_singleton, succeeds_append_singleton, ← ih]
    generalize fresh.after calls = e at hfine ⊢
    cases hconfig : e.config with
    | some c =>
      have hsome : e.config.isSome = true := by simp [hconfig]
      exact ⟨fun _ => Or.inl rfl, fun _ => isSome_config_perform hsome call⟩
    | none =>
      simp only [Option.isSome_none, Bool.false_eq_true, false_or]
      rcases perform_unconfigured hconfig call with
        ⟨config, rfl, hvalid⟩ | ⟨err, h⟩ | ⟨_, _, rfl, h⟩ | ⟨node, outlet, rfl | rfl⟩
      · have hsome := isSome_config_configure hconfig hvalid
        refine ⟨fun _ => ⟨config, ?_⟩, fun _ => hsome⟩
        cases hending : (e.perform (.configure config)).ending with
        | done reply => exact ⟨reply, rfl, rfl⟩
        | refused err => simp [perform_refused hending, Outcome.refuse, hconfig] at hsome
        | faulted f => exact absurd hending (hfine f)
      · rw [h]
        simp only [Outcome.refuse, hconfig, Option.isSome_none, Bool.false_eq_true, false_iff]
        rintro ⟨config, reply, rfl, hdone⟩
        rw [h] at hdone
        cases hdone
      · simp [h, hconfig]
      · simp [perform, listen, hconfig]
      · simp only [perform, take]
        split <;> simp [hconfig]

/-! ## All or none -/

section
variable {fresh : Engine F} (hfresh : fresh.config = none)
  (hfine : ∀ x, Moment.OfRun fresh x → x.Faultless)
include hfresh hfine

theorem all_ran_before_delivery {m : Moment F} (hm : Moment.OfRun fresh m) {room : Nat}
    {origin : Origin} {n : NodeId} {inlet : PortId} {msg : Message R} {rest : List (Task R)}
    (hwork : m.work = .deliver room origin n inlet msg :: rest) :
    ran m.trace = fresh.pending ∧ awaited m.work = [] := by
  have hcalm : awaited m.work = [] := by
    rw [hwork]
    rcases (hwork ▸ hm.phased).cons with hcalm | ⟨_, _, _, _, htask, _⟩
    · exact awaited_of_calm hcalm
    · cases htask
  cases hm.phase hfresh hfine with
  | waiting _ _ hidle =>
    rw [hidle] at hwork
    cases hwork
  | configured _ hran =>
    rw [hcalm, List.append_nil] at hran
    exact ⟨hran, hcalm⟩

variable (hnever : ∀ calls call f, ((fresh.after calls).perform call).ending ≠ .faulted f)
include hnever

theorem ran_all_or_none (calls : List (Call R)) :
    let events := (outcomes perform fresh calls).flatMap (·.events)
    (fresh.Succeeds calls ∧ ran events = fresh.pending) ∨
      (¬ fresh.Succeeds calls ∧ events = [] ∧ Waiting fresh (fresh.after calls)) := by
  intro events
  have hrun : Moment.OfRun fresh ⟨events, fresh.after calls, []⟩ :=
    Moment.ofRun_outcomes fresh calls
  have hiff := isSome_config_iff hfresh hnever calls
  cases hrun.phase hfresh hfine with
  | waiting hwaiting hnone _ =>
    refine Or.inr ⟨fun h => ?_, hnone, hwaiting⟩
    have hsome := hiff.mpr h
    have hconfig : (fresh.after calls).config = none := hwaiting.config
    rw [hconfig] at hsome
    cases hsome
  | configured hconfig hran => exact Or.inl ⟨hiff.mp hconfig, by simpa using hran⟩

end

end Engine

end Patchbay
