import Patchbay.Proofs.BlockSound
import Patchbay.Proofs.LifecycleSound
import Patchbay.Proofs.Streams

/-!
# The ticks of a run

A block and what is rendered are ticks in a row. Between the ticks of a run an instance at most
heeds callbacks and messages, so that what these and ticks keep holds before every tick.
-/

namespace Patchbay

variable {R : Type} {F : Family R}

namespace Engine

def state? (e : Engine F) (n : NodeId) : Option F.State := e.nodes[n]?.map (·.state)

/-! ## Between ticks -/

def Tended (n : NodeId) (e e' : Engine F) : Prop :=
  ∃ life : List (Stimulus R), (∀ stimulus ∈ life, stimulus.isTick = false) ∧
    e'.state? n = (e.state? n).map fun s => F.after s life

namespace Tended

variable {n : NodeId} {e e' e'' : Engine F}

theorem of_state (h : e'.state? n = e.state? n) : Tended n e e' :=
  ⟨[], List.forall_mem_nil _, h.trans Option.map_id'.symm⟩

theorem of_nodes (h : e'.nodes = e.nodes) : Tended n e e' :=
  of_state (by rw [state?, state?, h])

theorem trans (h : Tended n e e') (h' : Tended n e' e'') : Tended n e e'' := by
  obtain ⟨life, hlife, hstate⟩ := h
  obtain ⟨later, hlater, hstate'⟩ := h'
  refine ⟨life ++ later, List.forall_mem_append.mpr ⟨hlife, hlater⟩, ?_⟩
  rw [hstate', hstate, Option.map_map]
  exact congrArg (Option.map · _) (funext fun s => (List.foldl_append).symm)

theorem setState {k : NodeId} {live : Live F} (hlive : e.nodes[k]? = some live)
    (stimulus : Stimulus R) (hcalm : stimulus.isTick = false) :
    Tended n e (e.setState k (F.heed live.state stimulus)) := by
  by_cases hk : k = n
  · subst hk
    refine ⟨[stimulus], by simpa using hcalm, ?_⟩
    simp [state?, getElem?_setState, hlive, Family.after]
  · exact of_state (by simp [state?, getElem?_setState, hk])

end Tended

end Engine

theorem Moment.Step.tended [Sample R] {m m' : Moment F} (h : Step m m') (n : NodeId) :
    Engine.Tended n m.engine m'.engine := by
  cases h with
  | @called _ _ rate _ _ _ _ hlive hconfigure =>
    subst hconfigure
    exact .setState hlive (.configure rate) rfl
  | @handled _ e _ _ _ inlet msg _ _ _ hlive hmessage =>
    subst hmessage
    exact .setState hlive (.message inlet msg e.sampleRate) rfl
  | sent =>
    rw [Engine.capture_eq]
    exact .of_nodes rfl
  | uncalled | undelivered | cut | published | subscribed | unsubscribed => exact .of_nodes rfl

namespace Engine

variable [Sample R]

/-- A call that does not tick tends the instances. -/
theorem tended_perform (e : Engine F) {call : Call R} (hcall : ticksNodes call = false)
    (n : NodeId) : Tended n e (e.perform call).state := by
  have hopening : Tended n e (e.opening call).engine := by
    have hbegins := Moment.begins_call ⟨[], e, []⟩ call
    generalize hm : Moment.call ⟨[], e, []⟩ call = m at hbegins
    rw [opening, hm]
    cases hbegins with
    | refused | configured | sent | published => exact .of_nodes rfl
    | silent hsilent =>
      cases call with
      | configure | send | publish => cases hsilent
      | tick | block | render => cases hcall
      | listen node outlet => exact .of_nodes rfl
      | take node outlet =>
        have hnodes : (e.take node outlet).2.nodes = e.nodes := by rw [take_eq]
        exact .of_nodes hnodes
  exact (opening_leads e call).keeps (P := fun m => Tended n e m.engine) hopening
    fun _ hstep h => h.trans (Moment.Step.tended hstep n)

/-! ## Ticks in a row -/

def ticksInRow (rate : R) : Nat → Engine F → List (Engine F × Engine F)
  | 0, _ => []
  | n + 1, e =>
    let e' := (tickAll rate e).state
    (e, e') :: ticksInRow rate n e'

def tickCount (e : Engine F) : Call R → Nat
  | .tick => 1
  | .block node outlet n | .render node outlet n =>
    if (e.schedule.slot? node outlet).isSome then n else 0
  | .configure .. | .send .. | .publish .. | .listen .. | .take .. => 0

def ticksIn (e : Engine F) (call : Call R) : List (Engine F × Engine F) :=
  match e.config with
  | some c => ticksInRow c.sampleRate (e.tickCount call) e
  | none => []

theorem ticksIn_of_calm (e : Engine F) {call : Call R} (hcall : ticksNodes call = false) :
    e.ticksIn call = [] := by
  unfold ticksIn
  cases e.config with
  | none => rfl
  | some c =>
    cases call with
    | tick | block | render => cases hcall
    | configure | send | publish | listen | take => rfl

def ticksOver : Engine F → List (Call R) → List (Engine F × Engine F)
  | _, [] => []
  | e, call :: calls => e.ticksIn call ++ ticksOver (e.perform call).state calls

def leftBy (e : Engine F) (ticks : List (Engine F × Engine F)) : Engine F :=
  ticks.foldl (fun _ t => t.2) e

section
variable {Suits : F.State → Topology → Prop} (hF : F.Keeps Suits) {s : Schedule} {p : Patch F}
  (hs : s.Links p) (hp : p.Sound) {nodes : List NodeId} (ho : Orders p.cables nodes s.order)
include hF hs hp ho

theorem Hosts.runBlock (rate : R) {slot : Nat} (hslot : slot < s.bufferLength) (n : Nat) :
    ∀ (done : List R) {e : Engine F},
      e.Hosts Suits s p →
        (Engine.runBlock rate slot n done e).engine = e.leftBy (ticksInRow rate n e) := by
  induction n with
  | zero => exact fun _ _ _ => rfl
  | succ n ih =>
    intro done e he
    -- no tick faults, and the slot is there
    obtain ⟨e', hrun, he', -⟩ := he.tickAll hF hs hp ho rate
    unfold Engine.runBlock
    dsimp only
    rw [hrun]
    dsimp only
    rw [List.getElem?_eq_getElem (he'.outputs.symm ▸ hslot)]
    simp only [ticksInRow, hrun, leftBy, List.foldl_cons]
    exact ih _ he'

/-- A call that ticks leaves the engine as its last tick does. -/
theorem Hosts.perform_ticks {e : Engine F} (he : e.Hosts Suits s p)
    (hsized : ∀ c, e.config = some c → c.blockSize ≠ 0) {call : Call R}
    (hcall : ticksNodes call = true) : (e.perform call).state = e.leftBy (e.ticksIn call) := by
  cases hc : e.config with
  | none =>
    have hnone : e.ticksIn call = [] := by simp [ticksIn, hc]
    rw [hnone]
    obtain ⟨err, h⟩ | h := ticks_unconfigured hc hcall
    · rw [h]
      rfl
    · rw [h]
      rfl
  | some c =>
    simp only [ticksIn, hc]
    cases call with
    | configure | send | publish | listen | take => cases hcall
    | tick => simp [perform_tick hc, ofProgress, tickCount, ticksInRow, leftBy]
    | block node outlet n =>
      cases hslot : e.schedule.slot? node outlet with
      | none =>
        simp [perform, processBlock, hslot, unlessRefused, Outcome.refuse, tickCount, ticksInRow,
          leftBy]
      | some slot =>
        have hrun := processBlock_eq hc hslot n
        simp only [perform, hrun, unlessRefused, ofBlock, tickCount, hslot, Option.isSome_some,
          if_true]
        exact Hosts.runBlock hF hs hp ho c.sampleRate (slot_lt hs he hslot) n [] he
    | render node outlet frames =>
      cases hslot : e.schedule.slot? node outlet with
      | none =>
        have hstill : (e.perform (.render node outlet frames)).state = e := by
          simp only [perform, render_eq hc (hsized c hc), processBlock, hslot]
          split <;> rfl
        simp [hstill, tickCount, hslot, ticksInRow, leftBy]
      | some slot =>
        have hrun := render_of_slot hc (hsized c hc) hslot frames
        simp only [perform, hrun, unlessRefused, ofBlock, tickCount, hslot, Option.isSome_some,
          if_true]
        exact Hosts.runBlock hF hs hp ho c.sampleRate (slot_lt hs he hslot) frames [] he

/-! ## What lasts over a run -/

structure Beat (Suits : F.State → Topology → Prop) (s : Schedule) (p : Patch F) (e e' : Engine F) :
    Prop where
  hosts : e.Hosts Suits s p
  steps : ∃ c, e.config = some c ∧ ∀ n ∈ s.order, Stepped p c.sampleRate e e' n

section
variable {I : Engine F → Prop} {P Q : Engine F → Engine F → Prop}
  (htick : ∀ {e e'}, Beat Suits s p e e' → P e e' → I e → Q e e' ∧ I e')
include htick

theorem ticksInRow_forall {c : Config R} (n : Nat) : ∀ {e : Engine F}, e.Hosts Suits s p →
    e.config = some c → I e → (∀ t ∈ ticksInRow c.sampleRate n e, P t.1 t.2) →
      (∀ t ∈ ticksInRow c.sampleRate n e, Q t.1 t.2) ∧
        I (e.leftBy (ticksInRow c.sampleRate n e)) := by
  induction n with
  | zero => exact fun _ _ hI _ => ⟨List.forall_mem_nil _, hI⟩
  | succ n ih =>
    intro e he hc hI hP
    obtain ⟨e', hrun, he', hstep, -⟩ := he.tickAll hF hs hp ho c.sampleRate
    have hc' : e'.config = some c := by
      have hsame := (steady_framed e).tickAll c.sampleRate (.refl e)
      rw [hrun] at hsame
      exact hsame.config.trans hc
    simp only [ticksInRow, hrun, List.forall_mem_cons] at hP ⊢
    obtain ⟨hfirst, hrest⟩ := hP
    obtain ⟨hQ, hI'⟩ := htick ⟨he, c, hc, hstep⟩ hfirst hI
    obtain ⟨hall, hlast⟩ := ih he' hc' hI' hrest
    exact ⟨⟨hQ, hall⟩, hlast⟩

variable (htended : ∀ {e e'}, (∀ n, Tended n e e') → I e → I e')
include htended

theorem ticksIn_forall {e : Engine F} (he : e.Hosts Suits s p)
    (hsized : ∀ c, e.config = some c → c.blockSize ≠ 0) (call : Call R) (hI : I e)
    (hP : ∀ t ∈ e.ticksIn call, P t.1 t.2) :
    (∀ t ∈ e.ticksIn call, Q t.1 t.2) ∧ I (e.perform call).state := by
  by_cases hcall : ticksNodes call = true
  · rw [he.perform_ticks hF hs hp ho hsized hcall]
    cases hc : e.config with
    | none =>
      simp only [ticksIn, hc]
      exact ⟨List.forall_mem_nil _, hI⟩
    | some c =>
      simp only [ticksIn, hc] at hP ⊢
      exact ticksInRow_forall hF hs hp ho htick _ he hc hI hP
  · have hcalm : ticksNodes call = false := by simpa using hcall
    rw [ticksIn_of_calm e hcalm]
    exact ⟨List.forall_mem_nil _, htended (tended_perform e hcalm) hI⟩

variable {fresh : Engine F} (hfresh : fresh.config = none)
  (hhosts : ∀ calls, (fresh.after calls).Hosts Suits s p)
include hfresh hhosts

/-- What every tick shows that finds an invariant, all ticks of a run show, if ticks keep the
invariant and tending does. -/
theorem ticksOver_forall : ∀ calls before : List (Call R), I (fresh.after before) →
    (∀ t ∈ (fresh.after before).ticksOver calls, P t.1 t.2) →
      ∀ t ∈ (fresh.after before).ticksOver calls, Q t.1 t.2
  | [], _, _, _ => List.forall_mem_nil _
  | call :: calls, before, hI, hP => by
    let e := fresh.after before
    have hnext : fresh.after (before ++ [call]) = (e.perform call).state :=
      after_append_singleton fresh before call
    obtain ⟨hhere, hlater⟩ := List.forall_mem_append.mp hP
    obtain ⟨hcall, hI'⟩ := ticksIn_forall hF hs hp ho htick htended (hhosts before)
      (fun c hc => sized_of_config hfresh hc) call hI hhere
    have hrest := ticksOver_forall calls (before ++ [call]) (hnext ▸ hI') (hnext ▸ hlater)
    exact List.forall_mem_append.mpr ⟨hcall, hnext ▸ hrest⟩

end

end

end Engine

end Patchbay
