import Patchbay.Bench.Session
import Patchbay.Proofs.PublishSound
import Patchbay.Proofs.TwinSound
import Patchbay.Proofs.WireSound

/-!
# Bench and engine agree

A node on a bench does what it does as the only node of an engine. The bench keeps what the node
publishes to itself, and the engine fans it out; but there is nobody else to hear it, and no node
publishes where it listens.
-/

namespace Patchbay

variable {R : Type}

/-! ## What a node sends on, and what it hears -/

namespace StandardState

def outletCount : StandardState R → Nat
  | control _ | receive _ => 1
  | route (.single _) => 2
  | route (.many filters) => filters.length + 1
  | filter _ | oscillator _ | constant _ | print _ | send _ => 0

def hears? : StandardState R → Option (List (String × PortId))
  | control c => some (c.receiveBus.toList.map fun bus => (bus, .regular 0))
  | receive _ => none
  | filter _ | oscillator _ | constant _ | route _ | print _ | send _ => some []

end StandardState

structure Handled.Proper (s : StandardState R) (h : Handled R (StandardState R)) : Prop where
  count : h.state.outletCount = s.outletCount
  sends : ∀ outlet sent, .send outlet sent ∈ h.emissions → outlet < s.outletCount
  publishes : ∀ bus sent, .publish bus sent ∈ h.emissions →
    ∃ subs, h.state.hears? = some subs ∧ ∀ sub ∈ subs, sub.1 ≠ bus
  hears : h.state.hears? = s.hears? ∧ (∀ em ∈ h.emissions, em.rebinds = false) ∨
    ∃ c bus, s = .control c ∧ h = (c.rebindReceive bus).map .control

theorem Handled.Proper.of_silent {s : StandardState R} {h : Handled R (StandardState R)}
    (hnone : h.emissions = []) (hcount : h.state.outletCount = s.outletCount)
    (hhears : h.state.hears? = s.hears?) : h.Proper s where
  count := hcount
  sends _ _ hem := by simp [hnone] at hem
  publishes _ _ hem := by simp [hnone] at hem
  hears := Or.inl ⟨hhears, by simp [hnone]⟩

namespace ControlState

/-- A control that says what it holds, and stays bound where it was. -/
theorem proper_of_emissions {c c' : ControlState R} {notices : List (Notice R)}
    {fault : Option Fault} (hbus : c'.receiveBus = c.receiveBus) :
    Handled.Proper (.control c) ⟨.control c', c'.emissions, notices, fault⟩ where
  count := rfl
  sends _ _ hem := by
    obtain hsend | ⟨_, _, _, hpublish⟩ := mem_emissions hem
    · cases hsend
      exact Nat.zero_lt_one
    · cases hpublish
  publishes bus _ hem := by
    refine ⟨_, rfl, fun sub hsub => ?_⟩
    obtain ⟨own, hown, rfl⟩ := List.mem_map.mp hsub
    rintro rfl
    exact (publishes hem).2.1 (Option.mem_toList.mp hown)
  hears := Or.inl ⟨by simp only [StandardState.hears?, hbus], c'.rebinds_emissions⟩

theorem proper_rebindReceive (c : ControlState R) (bus : Option String) :
    Handled.Proper (.control c) ((c.rebindReceive bus).map .control) where
  count := rfl
  sends _ _ hem := by cases c.rebinds_rebindReceive bus _ hem
  publishes _ _ hem := by cases c.rebinds_rebindReceive bus _ hem
  hears := Or.inr ⟨c, bus, rfl, rfl⟩

end ControlState

namespace RouteFilter

variable [Sample R]

theorem first?_lt {filters : List (RouteFilter R)} {msg out : Message R} : ∀ {start i : Nat},
    first? filters start msg = some (i, out) → i < start + filters.length := by
  induction filters with
  | nil =>
    intro start i h
    cases h
  | cons f fs ih =>
    intro start i h
    unfold first? at h
    rw [List.length_cons]
    split at h
    · cases h
      omega
    · have hrest := ih h
      omega

end RouteFilter

namespace StandardState

variable [Sample R]

theorem configure_fault (s : StandardState R) (rate : R) : (s.configure rate).fault = none := by
  cases s <;> rfl

theorem proper_configure (s : StandardState R) (rate : R) : (s.configure rate).Proper s := by
  cases s with
  | control c => exact ControlState.proper_of_emissions rfl
  | _ => exact .of_silent rfl rfl rfl

theorem proper_route (s : RouteState R) (inlet : PortId) (msg : Message R) :
    ((s.message inlet msg).map route).Proper (.route s) := by
  have hsend : ∀ {s' : RouteState R} {outlet : Nat} {sent : Message R},
      (route s').outletCount = (route s).outletCount → outlet < (route s).outletCount →
      ((Handled.emit s' [.send outlet sent]).map route).Proper (.route s) := by
    intro s' outlet sent hcount hlt
    refine ⟨hcount, fun o m hem => ?_, fun bus m hem => ?_, Or.inl ⟨rfl, fun em hem => ?_⟩⟩
    · cases List.mem_singleton.mp hem
      exact hlt
    · cases List.mem_singleton.mp hem
    · rw [List.mem_singleton.mp hem]
      rfl
  unfold RouteState.message
  cases s with
  | many filters =>
    dsimp only
    split
    · exact .of_silent rfl rfl rfl
    · split
      · rename_i i out hfirst
        have hlt := RouteFilter.first?_lt hfirst
        exact hsend rfl (by simp only [outletCount]; omega)
      · exact hsend rfl (Nat.lt_succ_self _)
  | single filter =>
    dsimp only
    split
    · split <;> exact .of_silent rfl rfl rfl
    · split
      · exact .of_silent rfl rfl rfl
      · split
        · exact hsend rfl Nat.zero_lt_two
        · exact hsend rfl Nat.one_lt_two

theorem proper_message (s : StandardState R) (inlet : PortId) (msg : Message R) (rate : R) :
    (s.message inlet msg rate).Proper s := by
  cases s with
  | control c =>
    rcases c.message_cases inlet msg with ⟨hbus, hnone | hown⟩ | ⟨bus, _, _, heq⟩
    · refine .of_silent hnone rfl ?_
      simp only [message, Handled.map, hears?, hbus]
    · have hproper : Handled.Proper (.control c) ⟨.control _, (c.message inlet msg).state.emissions,
          (c.message inlet msg).notices, (c.message inlet msg).fault⟩ :=
        ControlState.proper_of_emissions hbus
      rwa [← hown] at hproper
    · have hproper := c.proper_rebindReceive bus
      rwa [← heq] at hproper
  | route s => exact proper_route s inlet msg
  | filter s =>
    simp only [message, FilterState.message]
    repeat' split
    all_goals exact .of_silent rfl rfl rfl
  | oscillator s =>
    simp only [message, OscillatorState.message]
    repeat' split
    all_goals exact .of_silent rfl rfl rfl
  | constant s =>
    simp only [message, ConstantState.message]
    split <;> exact .of_silent rfl rfl rfl
  | print s => exact .of_silent rfl rfl rfl
  | send s =>
    simp only [message, SendState.message]
    split
    · split <;> exact .of_silent rfl rfl rfl
    · split
      · refine ⟨rfl, fun o m hem => ?_, fun bus m hem => ⟨[], rfl, List.forall_mem_nil _⟩,
          Or.inl ⟨rfl, fun em hem => ?_⟩⟩
        · cases List.mem_singleton.mp hem
        · rw [List.mem_singleton.mp hem]
          rfl
      · exact .of_silent rfl rfl rfl
  | receive s =>
    refine ⟨rfl, fun o m hem => ?_, fun bus m hem => ?_, Or.inl ⟨rfl, fun em hem => ?_⟩⟩
    · cases List.mem_singleton.mp hem
      exact Nat.zero_lt_one
    · cases List.mem_singleton.mp hem
    · rw [List.mem_singleton.mp hem]
      rfl

/-- Without signal ports a tick does nothing. -/
theorem tick_of_no_signal {s : StandardState R} {t : Topology} (hs : s.Suits t)
    (ht : t.hasSignalPorts = false) (inputs : List R) (rate : R) :
    s.tick inputs [] rate = ⟨s, [], none⟩ := by
  cases s with
  | filter | oscillator | constant =>
    cases hs
    cases ht
  | control | route | print | send | receive => rfl

theorem tick_hears (s : StandardState R) (inputs own : List R) (rate : R) :
    (s.tick inputs own rate).state.outletCount = s.outletCount ∧
      (s.tick inputs own rate).state.hears? = s.hears? := by
  cases s <;> exact ⟨rfl, rfl⟩

end StandardState

/-! ## Emissions on both hosts -/

namespace Bench

variable {F : Family R}

def Contained (b : Bench F) : Emission R → Prop
  | .send outlet _ => (b.topology.outlet? outlet).isSome = true
  | .publish bus _ => ∀ sub ∈ b.subscriptions, sub.1 ≠ bus
  | .subscribe .. | .unsubscribe .. => True

def Contains (b : Bench F) : List (Emission R) → Prop
  | [] => True
  | em :: ems => b.Contained em ∧ (b.apply em).Contains ems

theorem apply_frame (b : Bench F) (em : Emission R) : (b.apply em).state = b.state ∧
    (b.apply em).topology = b.topology ∧ (b.apply em).sampleRate = b.sampleRate := by
  cases em with
  | subscribe bus inlet =>
    by_cases h : (bus, inlet) ∈ b.subscriptions <;> simp [apply, h]
  | send | publish | unsubscribe => exact ⟨rfl, rfl, rfl⟩

theorem foldl_frame : ∀ (ems : List (Emission R)) (b : Bench F),
    (ems.foldl apply b).state = b.state ∧ (ems.foldl apply b).topology = b.topology ∧
      (ems.foldl apply b).sampleRate = b.sampleRate
  | [], _ => ⟨rfl, rfl, rfl⟩
  | em :: ems, b => by
    obtain ⟨hstate, htopology, hrate⟩ := foldl_frame ems (b.apply em)
    obtain ⟨hstate', htopology', hrate'⟩ := b.apply_frame em
    exact ⟨hstate.trans hstate', htopology.trans htopology', hrate.trans hrate'⟩

theorem topology_absorb (b : Bench F) (handled : Handled R F.State) :
    (b.absorb handled).state.topology = b.topology := by
  unfold absorb
  dsimp only
  split
  · rfl
  · exact (foldl_frame _ _).2.1

theorem subscriptions_apply (b : Bench F) {em : Emission R} (h : em.rebinds = false) :
    (b.apply em).subscriptions = b.subscriptions := by
  cases em with
  | send | publish => rfl
  | subscribe | unsubscribe => cases h

theorem contains_of_calm : ∀ {ems : List (Emission R)} {b : Bench F},
    (∀ em ∈ ems, em.rebinds = false) → (∀ em ∈ ems, b.Contained em) →
      b.Contains ems ∧ (ems.foldl apply b).subscriptions = b.subscriptions
  | [], _, _, _ => ⟨trivial, rfl⟩
  | em :: ems, b, hcalm, hcontained => by
    have hsame := b.subscriptions_apply (hcalm em (by simp))
    have hrest : ∀ em' ∈ ems, (b.apply em).Contained em' := by
      intro em' hem'
      have hold := hcontained em' (List.mem_cons_of_mem _ hem')
      cases em' with
      | send outlet msg =>
        unfold Contained
        rwa [(b.apply_frame em).2.1]
      | publish bus msg =>
        unfold Contained
        rwa [hsame]
      | subscribe | unsubscribe => trivial
    obtain ⟨hcontains, hsubscriptions⟩ :=
      contains_of_calm (fun em' hem' => hcalm em' (List.mem_cons_of_mem _ hem')) hrest
    exact ⟨⟨hcontained em (by simp), hcontains⟩, hsubscriptions.trans hsame⟩

theorem contains_of_rebinds : ∀ {ems : List (Emission R)} {b : Bench F},
    (∀ em ∈ ems, em.rebinds = true) → b.Contains ems
  | [], _, _ => trivial
  | em :: ems, b, h => by
    refine ⟨?_, contains_of_rebinds fun em' hem' => h em' (List.mem_cons_of_mem _ hem')⟩
    have hem := h em (by simp)
    cases em with
    | send | publish => cases hem
    | subscribe | unsubscribe => trivial

structure Mirrored (b : Bench F) (e : Engine F) : Prop where
  live : ∃ live, e.nodes[0]? = some live ∧ live.state = b.state ∧ live.topology = b.topology
  config : ∃ c, e.config = some c ∧ c.sampleRate = b.sampleRate
  targets : ∀ outlet, e.schedule.targets 0 outlet = []
  subscribers : ∀ bus, e.buses.subscribers bus =
    (b.subscriptions.filter (·.1 == bus)).map fun sub => ⟨0, sub.2⟩
  listening : ∀ outlet, (b.topology.outlet? outlet).isSome = true →
    (e.captured[(⟨0, outlet⟩ : Outlet)]?).isSome = true
  heard : ∀ outlet, (e.captured[(⟨0, outlet⟩ : Outlet)]?).getD [] =
    (b.sent.filter (·.1 == outlet)).map (·.2)

namespace Mirrored

variable {b : Bench F} {e : Engine F} (h : b.Mirrored e)
include h

theorem mem_subscribers {bus : String} {inlet : PortId} :
    ⟨0, inlet⟩ ∈ e.buses.subscribers bus ↔ (bus, inlet) ∈ b.subscriptions := by
  rw [h.subscribers]
  simp

theorem setSubscriptions {subscriptions : List (String × PortId)} {buses : Buses}
    (hsame : ∀ bus, buses.subscribers bus =
      (subscriptions.filter (·.1 == bus)).map fun sub => ⟨0, sub.2⟩) :
    Mirrored { b with subscriptions := subscriptions } { e with buses := buses } :=
  ⟨h.live, h.config, h.targets, hsame, h.listening, h.heard⟩

theorem subscribe (bus : String) (inlet : PortId) : Mirrored (b.apply (.subscribe bus inlet))
    { e with buses := e.buses.subscribe bus ⟨0, inlet⟩ } := by
  have hmem : ⟨0, inlet⟩ ∈ e.buses.subscribers bus ↔ _ := h.mem_subscribers
  unfold apply
  dsimp only
  split
  · rename_i hin
    unfold Buses.subscribe
    rw [if_pos (hmem.mpr hin)]
    exact h
  · rename_i hout
    refine h.setSubscriptions fun name => ?_
    rw [Buses.subscribers_subscribe, List.filter_append, List.map_append, ← h.subscribers]
    by_cases hname : bus = name
    · subst hname
      rw [if_pos ⟨rfl, fun hin => hout (hmem.mp hin)⟩]
      simp
    · rw [if_neg fun hand => hname hand.1]
      simp [hname]

theorem unsubscribe (bus : String) (inlet : PortId) : Mirrored (b.apply (.unsubscribe bus inlet))
    { e with buses := e.buses.unsubscribe bus ⟨0, inlet⟩ } := by
  refine h.setSubscriptions fun name => ?_
  rw [Buses.subscribers_unsubscribe, h.subscribers, List.filter_filter]
  by_cases hname : bus = name
  · subst hname
    rw [if_pos rfl, List.filter_map, List.filter_filter]
    congr 1
    refine List.filter_congr fun sub _ => ?_
    rcases sub with ⟨name, inlet'⟩
    by_cases hsub : name = bus
    · simp [hsub, eq_comm]
    · simp [beq_false_of_ne hsub]
  · rw [if_neg hname]
    congr 1
    refine List.filter_congr fun sub _ => ?_
    rcases sub with ⟨name', inlet'⟩
    by_cases hsub : name' = name
    · simp [hsub, Ne.symm hname]
    · simp [hsub]

theorem capture {outlet : Nat} (houtlet : (b.topology.outlet? outlet).isSome = true)
    (msg : Message R) : Mirrored (b.apply (.send outlet msg)) (e.capture 0 outlet msg) := by
  rw [Engine.capture_eq]
  refine ⟨h.live, h.config, h.targets, h.subscribers, fun o ho => ?_, fun o => ?_⟩
  · rw [Engine.capture_captured, Option.isSome_map]
    exact h.listening o ho
  · have hheard := h.heard o
    rw [Engine.capture_captured]
    unfold apply
    dsimp only
    rw [List.filter_append, List.map_append, ← hheard]
    by_cases ho : outlet = o
    · subst ho
      obtain ⟨old, hold⟩ := Option.isSome_iff_exists.mp (h.listening outlet houtlet)
      simp [hold]
    · simp [ho]

theorem setState (st : F.State) : Mirrored { b with state := st } (e.setState 0 st) := by
  obtain ⟨live, hlive, _, htopology⟩ := h.live
  refine ⟨⟨{ live with state := st }, ?_, rfl, htopology⟩, h.config, h.targets, h.subscribers,
    h.listening, h.heard⟩
  rw [Engine.getElem?_setState, if_pos rfl, hlive, Option.map_some]

/-! ### Emissions in a row -/

theorem applyWith (d : Engine.Deliver F) {em : Emission R} (hem : b.Contained em) :
    Engine.Together Mirrored (.stay (b.apply em)) (Engine.applyWith d 0 em e) := by
  cases em with
  | send outlet msg =>
    simp only [Engine.applyWith, h.targets]
    exact ⟨h.capture hem msg, rfl⟩
  | publish bus msg =>
    have hnone : e.buses.subscribers bus = [] := by
      rw [h.subscribers, List.map_eq_nil_iff, List.filter_eq_nil_iff]
      exact fun sub hsub heq => hem sub hsub (eq_of_beq heq)
    simp only [Engine.applyWith, Engine.publishWith, hnone]
    exact ⟨⟨h.live, h.config, h.targets, h.subscribers, h.listening, h.heard⟩, rfl⟩
  | subscribe bus inlet => exact ⟨h.subscribe bus inlet, rfl⟩
  | unsubscribe bus inlet => exact ⟨h.unsubscribe bus inlet, rfl⟩

omit h in
theorem applyAll (d : Engine.Deliver F) : ∀ {ems : List (Emission R)} {b : Bench F} {e : Engine F},
    b.Mirrored e → b.Contains ems →
      Engine.Together Mirrored (.stay (ems.foldl apply b))
        (Progress.each (Engine.applyWith d 0) ems e)
  | [], _, _, h, _ => ⟨h, rfl⟩
  | em :: ems, b, e, h, hcontains => by
    obtain ⟨hstate, hfault⟩ := h.applyWith d hcontains.1
    obtain ⟨hstate', hfault'⟩ := applyAll d hstate hcontains.2
    simp only [Progress.each, Progress.andThen, hfault, Progress.stay]
    exact ⟨hstate', hfault'⟩

theorem absorb (d : Engine.Deliver F) (first : Event R) {handled : Handled R F.State}
    (hcontains : Contains { b with state := handled.state } handled.emissions) :
    Engine.Together Mirrored (b.absorb handled) ((e.absorb 0 first handled).andThen
      (Progress.each (Engine.applyWith d 0) handled.emissions)) := by
  have hnext := h.setState handled.state
  unfold Bench.absorb Engine.absorb Progress.andThen
  cases handled.fault with
  | some f => exact ⟨hnext, rfl⟩
  | none =>
    obtain ⟨hstate, hfault⟩ := applyAll d hnext hcontains
    exact ⟨hstate, hfault⟩

end Mirrored

/-! ## Handlers on both hosts -/

section
variable [Sample R]

structure Sealed (b : Bench (standard R)) : Prop where
  outlets : ∀ outlet < b.state.outletCount, (b.topology.outlet? outlet).isSome = true
  hears : ∀ subs, b.state.hears? = some subs → b.subscriptions = subs

theorem Sealed.setState {b : Bench (standard R)} (h : b.Sealed) {st : StandardState R}
    (hcount : st.outletCount = b.state.outletCount) (hhears : st.hears? = b.state.hears?) :
    Sealed { b with state := st } :=
  ⟨fun outlet hlt => h.outlets outlet (hcount ▸ hlt),
    fun subs hsubs => h.hears subs (hhears ▸ hsubs)⟩

theorem Sealed.rebind {b : Bench (standard R)} (h : b.Sealed) {c : ControlState R}
    (hc : b.state = .control c) (bus : Option String) :
    Sealed ((c.rebindReceive bus).emissions.foldl apply
      ({ b with state := .control { c with receiveBus := bus } } : Bench (standard R))) := by
  have hsubs := h.hears _ (by rw [hc]; rfl)
  obtain ⟨hstate, htopology, -⟩ := foldl_frame (c.rebindReceive bus).emissions
    ({ b with state := .control { c with receiveBus := bus } } : Bench (standard R))
  refine ⟨fun outlet hlt => ?_, fun subs hhears => ?_⟩
  · rw [htopology]
    refine h.outlets outlet ?_
    rw [hc]
    rwa [hstate] at hlt
  · rw [hstate] at hhears
    cases hhears
    cases hold : c.receiveBus <;> cases bus <;>
      simp [ControlState.rebindReceive, Handled.emit, apply, hsubs, hold]

theorem Sealed.absorb {b : Bench (standard R)} (h : b.Sealed)
    {handled : Handled R (StandardState R)} (hproper : handled.Proper b.state) :
    Contains (F := standard R) { b with state := handled.state } handled.emissions ∧
      (b.absorb handled).state.Sealed := by
  rcases hproper.hears with ⟨hhears, hcalm⟩ | ⟨c, bus, hc, rfl⟩
  · have hnext := h.setState hproper.count hhears
    have hcontained : ∀ em ∈ handled.emissions,
        Contained (F := standard R) { b with state := handled.state } em := by
      intro em hem
      cases em with
      | send outlet msg => exact h.outlets outlet (hproper.sends outlet msg hem)
      | publish bus msg =>
        obtain ⟨subs, hsubs, hothers⟩ := hproper.publishes bus msg hem
        exact fun sub hsub => hothers sub (hnext.hears subs hsubs ▸ hsub)
      | subscribe | unsubscribe => trivial
    obtain ⟨hcontains, hsame⟩ := contains_of_calm hcalm hcontained
    obtain ⟨hstate, htopology, -⟩ := foldl_frame handled.emissions
      ({ b with state := handled.state } : Bench (standard R))
    refine ⟨hcontains, ?_⟩
    unfold Bench.absorb
    dsimp only
    split
    · exact hnext
    · refine ⟨fun outlet hlt => ?_, fun subs hsubs => ?_⟩
      · rw [htopology]
        exact hnext.outlets outlet (hstate ▸ hlt)
      · rw [hsame]
        exact hnext.hears subs (hstate ▸ hsubs)
  · exact ⟨contains_of_rebinds (c.rebinds_rebindReceive bus), h.rebind hc bus⟩

/-- Bench and engine both do what they are asked and reply the same. The samples of a tick are found
at the outlets of the engine. -/
def AnswersAs {F : Family R} (b : Bench F) (e : Engine F) (drive : Drive R) : Prop :=
  ∃ reply, (b.perform drive).ending = .done reply ∧
    match reply with
    | .samples ys => (e.perform drive.call).ending = .done .nothing ∧
      ∀ outlet, (e.perform drive.call).state.signal? 0 outlet = ys[outlet]?
    | .nothing | .messages _ => (e.perform drive.call).ending = .done reply

structure Abreast (b : Bench (standard R)) (e : Engine (standard R)) : Prop where
  closed : b.Sealed
  mirrored : b.Mirrored e

namespace Abreast

variable {b : Bench (standard R)} {e : Engine (standard R)} (h : b.Abreast e)
include h

theorem absorb (d : Engine.Deliver (standard R)) (first : Event R)
    {handled : Handled R (StandardState R)} (hproper : handled.Proper b.state) :
    Engine.Together Abreast (b.absorb handled) ((e.absorb 0 first handled).andThen
      (Progress.each (Engine.applyWith d 0) handled.emissions)) := by
  obtain ⟨hcontains, hsealed⟩ := h.closed.absorb hproper
  obtain ⟨hstate, hfault⟩ := h.mirrored.absorb d first hcontains
  exact ⟨⟨hsealed, hstate⟩, hfault⟩

theorem sampleRate : e.sampleRate = b.sampleRate := by
  obtain ⟨c, hc, hrate⟩ := h.mirrored.config
  unfold Engine.sampleRate
  rw [hc]
  exact hrate

theorem configured : e.config.isNone = false := by
  obtain ⟨c, hc, _⟩ := h.mirrored.config
  rw [hc]
  rfl

theorem deliver (room : Nat) (origin : Origin) (inlet : PortId) (msg : Message R) :
    Engine.Together Abreast (b.send inlet msg)
      (Engine.deliver (room + 1) origin 0 inlet msg e) := by
  obtain ⟨live, hlive, hstate, _⟩ := h.mirrored.live
  simp only [Engine.deliver, hlive, h.sampleRate, hstate]
  exact h.absorb _ _ (b.state.proper_message inlet msg b.sampleRate)

theorem publish (bus : String) (msg : Message R) :
    Engine.Together Abreast (b.publish bus msg)
      (Engine.publishWith (Engine.deliver (maxDepth + 1)) none bus msg e) := by
  unfold Bench.publish Engine.publishWith
  rw [h.mirrored.subscribers, Progress.each_map, Progress.each_map]
  exact Engine.Together.each_same _ (fun sub _ b e h => h.deliver _ _ sub.2 msg) h

theorem publish_heeded (bus : String) (msg : Message R) : e.publish bus msg =
    .ok (Engine.publishWith (Engine.deliver (maxDepth + 1)) none bus msg e) := by
  unfold Engine.publish
  rw [h.configured]
  rfl

theorem take (outlet : Nat) : (b.take outlet).2.Abreast (e.take 0 outlet).2 ∧
    (e.take 0 outlet).1 = (b.take outlet).1 := by
  refine ⟨⟨⟨h.closed.outlets, h.closed.hears⟩, ?_⟩, ?_⟩
  · rw [Engine.take_eq]
    refine ⟨h.mirrored.live, h.mirrored.config, h.mirrored.targets, h.mirrored.subscribers,
      fun o ho => ?_, fun o => ?_⟩
    · have hold := h.mirrored.listening o ho
      rw [Engine.take_captured]
      split
      · rwa [Option.isSome_map]
      · exact hold
    · have hheard := h.mirrored.heard o
      rw [Engine.take_captured]
      unfold Bench.take
      dsimp only
      rw [List.filter_filter]
      by_cases ho : outlet = o
      · subst ho
        rw [if_pos rfl]
        cases e.captured[(⟨0, outlet⟩ : Outlet)]? <;> simp
      · have hne : (⟨0, outlet⟩ : Outlet) ≠ ⟨0, o⟩ := fun heq => ho (congrArg Outlet.index heq)
        rw [if_neg hne, hheard]
        congr 1
        refine List.filter_congr fun sent _ => ?_
        by_cases hsent : sent.1 = o
        · simp [hsent, Ne.symm ho]
        · simp [hsent]
  · rw [Engine.take_fst, h.mirrored.heard]
    rfl

/-- A tick changes no more than the state of the node and what it left at the outlets. -/
theorem ticked {e' : Engine (standard R)} {live : Live (standard R)}
    (hframe : ∃ nodes outputs inputs,
      e' = { e with nodes := nodes, outputs := outputs, inputs := inputs })
    (hlive : e'.nodes[0]? = some live) (htopology : live.topology = b.topology)
    (hcount : live.state.outletCount = b.state.outletCount)
    (hhears : live.state.hears? = b.state.hears?) : Abreast { b with state := live.state } e' := by
  refine ⟨h.closed.setState hcount hhears, ?_⟩
  obtain ⟨nodes, outputs, inputs, rfl⟩ := hframe
  exact ⟨⟨live, hlive, rfl, htopology⟩, h.mirrored.config, h.mirrored.targets,
    h.mirrored.subscribers, h.mirrored.listening, h.mirrored.heard⟩

/-! ## Drives on both hosts -/

omit h in
/-- Nothing is wired to the inlets of a node alone. -/
theorem silent_inputs {node : PatchNode (standard R)} {catalog : Catalog (standard R)} {width : Nat}
    {inputs : List R}
    (hin : inputs.map some = (List.range width).map (e.inflow? ⟨[node], [], catalog⟩ 0)) :
    inputs = List.replicate width 0 := by
  have hsilent : ∀ i ∈ List.range width, e.inflow? ⟨[node], [], catalog⟩ 0 i = some 0 :=
    fun _ _ => rfl
  have hmap : inputs.map some = (List.replicate width 0).map some := by
    rw [hin, List.map_congr_left hsilent, List.map_const', List.length_range, List.map_replicate]
  exact List.map_injective_iff.mpr (Option.some_injective R) hmap

section
variable {node : PatchNode (standard R)} {s : Schedule} {catalog : Catalog (standard R)}
  (hs : s.Links ⟨[node], [], catalog⟩) (hp : Patch.Sound (F := standard R) ⟨[node], [], catalog⟩)
  (ho : Orders [] s.order s.order)
include hs hp ho

theorem tick [LawfulSample R] (he : e.Hosts StandardState.Sound s ⟨[node], [], catalog⟩) :
    ∃ b' ys e', b.tick (List.replicate b.topology.inputWidth 0) = ⟨b', ys, none⟩ ∧
      e.tick = .ok ⟨e', [], none⟩ ∧ b'.Abreast e' ∧
      ∀ outlet, e'.signal? 0 outlet = ys[outlet]? := by
  obtain ⟨c, hc, hrate⟩ := h.mirrored.config
  obtain ⟨live, hlive, hstate, htopology⟩ := h.mirrored.live
  obtain ⟨own, hown, htopology', hsuits⟩ := he.nodes 0 live hlive
  cases hown
  obtain ⟨e', hall, he', hstep, hframe, hrest⟩ :=
    he.tickAll StandardState.keeps_sound hs hp ho c.sampleRate
  have hrun : e.tick = .ok ⟨e', [], none⟩ := by rw [Engine.tick_of_config hc, hall]
  by_cases hin : 0 ∈ s.order
  · obtain ⟨own, live', zeros, st, hown, hlive', hzeros, htick, hnew⟩ := hstep 0 hin
    cases hown
    cases hlive.symm.trans hlive'
    have hboth : live.state.tick zeros (List.replicate node.topology.outputWidth 0) c.sampleRate =
        ⟨st, e'.samples 0, none⟩ := htick _ (by simp)
    obtain ⟨hcount, hhears⟩ := live.state.tick_hears zeros
      (List.replicate node.topology.outputWidth 0) c.sampleRate
    rw [hboth, hstate] at hcount hhears
    refine ⟨_, e'.samples 0, e', ?_, hrun, h.ticked hrest hnew htopology hcount hhears,
      fun outlet => Engine.signal?_eq e' 0 outlet⟩
    unfold Bench.tick
    rw [← htopology, htopology', ← silent_inputs hzeros, ← hstate, ← hrate]
    exact congrArg (Ticked.map _) hboth
  · have hsignal : node.topology.hasSignalPorts = false := by
      by_contra hports
      refine hin (hs.perm.mem_iff.mpr (List.mem_filter.mpr ⟨List.mem_range.mpr Nat.one_pos, ?_⟩))
      simpa [Patch.carriesSignal, Patch.node?] using hports
    have hsame : e'.nodes[0]? = some live := (hframe 0 hin).1.trans hlive
    refine ⟨_, [], e', ?_, hrun, h.ticked hrest hsame htopology (by rw [hstate]) (by rw [hstate]),
      fun outlet => ?_⟩
    · unfold Bench.tick
      rw [← htopology, htopology', (Topology.widths_of_no_signal hsignal).2,
        List.replicate_zero, ← hstate]
      exact congrArg (Ticked.map _) (StandardState.tick_of_no_signal hsuits.1 hsignal _ _)
    · rw [Engine.signal?_eq, he'.samples_nil hs hin]

omit hs hp ho in
theorem send_heeded (he : e.Hosts StandardState.Sound s ⟨[node], [], catalog⟩) {inlet : PortId}
    {msg : Message R} (hmeets : (Drive.send inlet msg).meets node.topology = true) :
    e.send 0 inlet msg = .ok (Engine.deliver (maxDepth + 1) .outside 0 inlet msg e) := by
  obtain ⟨live, hlive, -, -⟩ := h.mirrored.live
  obtain ⟨own, hown, htopology, -⟩ := he.nodes 0 live hlive
  cases hown
  obtain ⟨port, hport, hkind⟩ := (Option.any_eq_true _ _).mp hmeets
  have hinlet : Engine.messageInlet? live inlet = some inlet := by
    unfold Engine.messageInlet?
    rw [htopology, hport]
    exact if_pos (eq_of_beq hkind)
  unfold Engine.send
  simp only [h.configured, hlive, hinlet]
  rfl

omit h hs hp ho in
/-- What neither refused nor broke off. -/
theorem of_together {p : Progress R (Bench (standard R))} {q : Progress R (Engine (standard R))}
    {x : Except (EngineError R) (Progress R (Engine (standard R)))} (hx : x = .ok q)
    (hfault : q.fault = none) (hpq : Engine.Together Abreast p q) :
    (ofProgress p).ending = .done .nothing ∧
      (e.unlessRefused x Engine.ofProgress).ending = .done .nothing ∧
      (ofProgress p).state.Abreast (e.unlessRefused x Engine.ofProgress).state := by
  subst hx
  unfold ofProgress Engine.unlessRefused Engine.ofProgress
  dsimp only
  rw [← hpq.fault, hfault]
  exact ⟨rfl, rfl, hpq.state⟩

theorem perform [LawfulSample R] (he : e.Ready StandardState.Sound s ⟨[node], [], catalog⟩)
    {drive : Drive R} (hdrive : drive.meets node.topology = true) :
    b.AnswersAs e drive ∧ (b.perform drive).state.Abreast (e.perform drive.call).state := by
  cases drive with
  | send inlet msg =>
    have hsend := h.send_heeded he.hosts hdrive
    obtain ⟨hbench, hengine, hstate⟩ := of_together hsend
      (Engine.send_fault StandardState.keeps_sound StandardState.quiet hs hp he hsend)
      (h.deliver maxDepth .outside inlet msg)
    exact ⟨⟨_, hbench, hengine⟩, hstate⟩
  | publish bus msg =>
    have hpublish := h.publish_heeded bus msg
    obtain ⟨hbench, hengine, hstate⟩ := of_together hpublish
      (Engine.publish_fault StandardState.keeps_sound StandardState.quiet hs hp he hpublish)
      (h.publish bus msg)
    exact ⟨⟨_, hbench, hengine⟩, hstate⟩
  | tick =>
    obtain ⟨b', ys, e', hbench, hengine, hstate, hsamples⟩ := h.tick hs hp ho he.hosts
    have hreply : (b.perform .tick).ending = .done (.samples ys) := by
      simp only [Bench.perform, ofTicked, hbench]
    have hnext : (b.perform .tick).state = b' := by
      simp only [Bench.perform, ofTicked, hbench]
    have hticked : e.perform .tick = ⟨e', [], .done .nothing⟩ := by
      simp only [Engine.perform, hengine, Engine.unlessRefused, Engine.ofProgress]
    rw [AnswersAs, hnext, Drive.call, hticked]
    exact ⟨⟨_, hreply, rfl, hsamples⟩, hstate⟩
  | take outlet =>
    obtain ⟨hstate, hreply⟩ := h.take outlet
    exact ⟨⟨_, rfl, congrArg (fun msgs => Ending.done (Reply.messages msgs)) hreply⟩, hstate⟩

omit h in
theorem after [LawfulSample R] : ∀ (drives : List (Drive R)) {b : Bench (standard R)}
    {e : Engine (standard R)}, b.Abreast e →
    e.Ready StandardState.Sound s ⟨[node], [], catalog⟩ →
    (∀ drive ∈ drives, drive.meets node.topology = true) →
      (b.after drives).Abreast (e.after (drives.map (·.call))) ∧
        (e.after (drives.map (·.call))).Ready StandardState.Sound s ⟨[node], [], catalog⟩
  | [], _, _, h, he, _ => ⟨h, he⟩
  | drive :: drives, b, e, h, he, hdrives => by
    obtain ⟨-, hstate⟩ := h.perform hs hp ho he (hdrives drive (by simp))
    have hready := (Engine.Ready.closed StandardState.keeps_sound hs).perform he drive.call
    exact after drives hstate hready fun d hd => hdrives d (List.mem_cons_of_mem _ hd)

end

end Abreast

/-! ## Both hosts from the start -/

omit [Sample R] in
theorem start_done {F : Family R} {type : NodeType F} {raw : List (Token R)} {args : F.Args}
    {topology : Topology} {d : Declared F.State} {inlets : List Nat} {c : Config R}
    (hargs : type.readArgs raw = .ok args)
    (hbuild : (type.build args).ending = .done topology)
    (hd : (type.declare args (.ofInlets inlets)).ending = .done d)
    (hfine : (F.configure d.state c.sampleRate).fault = none) :
    let b : Bench F := ⟨d.state, topology, c.sampleRate, [], [], d.subscriptions⟩
    (start type raw inlets c).ending = .done (if d.wantsConfigure then
      (b.absorb (F.configure d.state c.sampleRate)).state else b) := by
  intro b
  simp only [start, Traced.bind_done]
  refine ⟨args, Traced.ofExcept_done.mpr hargs, topology, hbuild, d, hd, ?_⟩
  cases d.wantsConfigure with
  | true =>
    have hnone : (b.absorb (F.configure d.state c.sampleRate)).fault = none := hfine
    simp only [if_true]
    rw [hnone]
  | false => rfl

end

end Bench

/-- A fresh instance sends on message outlets of its node. -/
theorem Builtin.declares_outlets [Sample R] {type : NodeType (standard R)} {args : StandardArgs R}
    {topology : Topology} (h : Builtin type args topology) {wired : Wired}
    {d : Declared (StandardState R)} (hd : (type.declare args wired).ending = .done d) :
    ∀ outlet < d.state.outletCount, topology.outlet? outlet = some (.message outlet) := by
  intro outlet hlt
  cases h with
  | control kind raw a read =>
    obtain ⟨d₀, hd₀, rfl⟩ := Blueprint.declared_of_inFamily hd rfl rfl fun _ => rfl
    cases Nat.lt_one_iff.mp hlt
    rfl
  | route a =>
    obtain ⟨d₀, hd₀, rfl⟩ := Blueprint.declared_of_inFamily hd rfl rfl fun _ => rfl
    cases hd₀
    have hcount : (StandardState.route (Route.start a)).outletCount = a.filters.length + 1 := by
      unfold Route.start
      split
      · rename_i filter hfilters
        rw [hfilters]
        rfl
      · simp only [StandardState.outletCount, List.length_map]
    exact Route.outlet?_topology a (hcount ▸ hlt)
  | receive a =>
    obtain ⟨d₀, hd₀, rfl⟩ := Blueprint.declared_of_inFamily hd rfl rfl fun _ => rfl
    cases hd₀
    cases Nat.lt_one_iff.mp hlt
    rfl
  | _ =>
    obtain ⟨d₀, hd₀, rfl⟩ := Blueprint.declared_of_inFamily hd rfl rfl fun _ => rfl
    cases hd₀
    exact absurd hlt (Nat.not_lt_zero outlet)

/-- A fresh instance asks for the subscriptions that it hears. -/
theorem Builtin.declares_hears [Sample R] {type : NodeType (standard R)} {args : StandardArgs R}
    {topology : Topology} (h : Builtin type args topology) {wired : Wired}
    {d : Declared (StandardState R)} (hd : (type.declare args wired).ending = .done d) :
    ∀ subs, d.state.hears? = some subs → d.subscriptions = subs := by
  intro subs hsubs
  cases h with
  | control kind raw a read =>
    obtain ⟨d₀, hd₀, rfl⟩ := Blueprint.declared_of_inFamily hd rfl rfl fun _ => rfl
    obtain ⟨hreceive, hsubscriptions⟩ := Control.declare_buses hd₀
    cases hsubs
    rw [hreceive]
    exact hsubscriptions
  | receive a =>
    obtain ⟨d₀, hd₀, rfl⟩ := Blueprint.declared_of_inFamily hd rfl rfl fun _ => rfl
    cases hd₀
    cases hsubs
  | _ =>
    obtain ⟨d₀, hd₀, rfl⟩ := Blueprint.declared_of_inFamily hd rfl rfl fun _ => rfl
    cases hd₀
    exact Option.some.inj hsubs

namespace Engine

variable {F : Family R}

variable [Sample R]

theorem after_listens (outlets : List Nat) : ∀ (e : Engine F), ∃ captured,
    e.after (outlets.map (.listen 0 ·)) = { e with captured := captured } ∧
      ∀ o, captured[(⟨0, o⟩ : Outlet)]? =
        if o ∈ outlets then some ((e.captured[(⟨0, o⟩ : Outlet)]?).getD [])
        else e.captured[(⟨0, o⟩ : Outlet)]? := by
  induction outlets with
  | nil => exact fun e => ⟨e.captured, rfl, fun o => by simp⟩
  | cons outlet outlets ih =>
    intro e
    obtain ⟨captured, hafter, hcaptured⟩ := ih (e.listen 0 outlet)
    refine ⟨captured, hafter, fun o => ?_⟩
    rw [hcaptured, listen_captured]
    by_cases ho : outlet = o
    · subst ho
      simp
    · simp [ho, Ne.symm ho]

/-- What is left when a node alone waits for its callback, or none does. -/
theorem configure_alone {e : Engine F} {c : Config R} (hnone : e.config = none)
    (hvalid : c.validate = .ok ()) {waits : Bool} (hpending : e.pending = if waits then [0] else [])
    {live : Live F} (hlive : e.nodes[0]? = some live)
    (hfine : (F.configure live.state c.sampleRate).fault = none) :
    let opened : Engine F := { e with config := some c, pending := [] }
    let h := F.configure live.state c.sampleRate
    (e.perform (.configure c)).state = if waits then
      ((opened.absorb 0 (.configured 0) h).andThen
        (Progress.each (applyWith (deliver maxDepth) 0) h.emissions)).state else opened := by
  intro opened h
  have hlive' : opened.nodes[0]? = some live := hlive
  cases waits with
  | false =>
    simp only [Bool.false_eq_true, if_false] at hpending ⊢
    simp only [perform, configure, hnone, Option.isSome_none, hvalid, hpending, runCallbacks]
    rfl
  | true =>
    simp only [if_true] at hpending ⊢
    have hran : runCallbacks c.sampleRate [0] opened =
        ⟨((opened.absorb 0 (.configured 0) h).state, [(0, h.emissions)]),
          (opened.absorb 0 (.configured 0) h).events ++ [], none⟩ := by
      simp only [runCallbacks, hlive', absorb]
      rw [hfine]
      rfl
    have hnone' : (opened.absorb 0 (.configured 0) h).fault = none := hfine
    obtain ⟨events, hconfigure⟩ : ∃ events, e.configure c = .ok
        ((⟨(runCallbacks c.sampleRate [0] opened).state.1, events,
          (runCallbacks c.sampleRate [0] opened).fault⟩ : Progress R (Engine F)).andThen
          (Progress.each (fun x => Progress.each (applyWith (deliver maxDepth) x.1) x.2)
            (runCallbacks c.sampleRate [0] opened).state.2)) := by
      simp only [configure, hnone, Option.isSome_none, hvalid, hpending]
      exact ⟨_, rfl⟩
    rw [hran] at hconfigure
    simp only [perform, hconfigure, unlessRefused, ofProgress, Progress.andThen, hnone',
      Progress.each]
    cases (Progress.each (applyWith (deliver maxDepth) 0) h.emissions
      (opened.absorb 0 (.configured 0) h).state).fault <;> rfl

end Engine

/-! ## A patch of one node -/

theorem Patch.after_add {F : Family R} {catalog : Catalog F} {name : String} {type : NodeType F}
    {raw : List (Token R)} {args : F.Args} {topology : Topology}
    (htype : catalog.get name = .ok type) (hargs : type.readArgs raw = .ok args)
    (hbuild : (type.build args).ending = .done topology) (hunique : topology.uniqueIds = true) :
    (Patch.empty catalog).after [.add name raw] =
      ⟨[⟨0, name, raw, args, topology, type⟩], [], catalog⟩ := by
  have hmade : (Traced.mapError PatchError.node do
      let type ← .ofExcept (catalog.get name)
      makeNode 0 name type raw).ending = .done ⟨0, name, raw, args, topology, type⟩ := by
    refine Traced.mapError_done.mpr
      (Traced.bind_done.mpr ⟨type, Traced.ofExcept_done.mpr htype, ?_⟩)
    exact makeNode_done.mpr ⟨args, topology, hargs, hbuild, hunique, rfl⟩
  exact Traced.commit_state hmade (Patch.empty catalog) (Patch.empty catalog).push

section
variable [Sample R]

structure Engine.Alone (fresh : Engine (standard R)) (topology : Topology)
    (d : Declared (StandardState R)) : Prop where
  live : ∃ live, fresh.nodes[0]? = some live ∧ live.state = d.state ∧ live.topology = topology
  targets : ∀ outlet, fresh.schedule.targets 0 outlet = []
  subscribers : ∀ bus, fresh.buses.subscribers bus =
    (d.subscriptions.filter (·.1 == bus)).map fun sub => ⟨0, sub.2⟩
  pending : fresh.pending = if d.wantsConfigure then [0] else []
  config : fresh.config = none
  captured : fresh.captured = ∅

theorem Engine.alone_link {node : PatchNode (standard R)} (hid : node.id = 0)
    (hbuiltin : Builtin node.type node.args node.topology) {catalog : Catalog (standard R)}
    {s : Schedule} (hs : s.Links ⟨[node], [], catalog⟩) {fresh : Engine (standard R)}
    (hfresh : (link s ⟨[node], [], catalog⟩ .empty).ending = .done fresh) :
    ∃ d, (node.type.declare node.args (.ofInlets [])).ending = .done d ∧
      fresh.Alone node.topology d := by
  have hwired : s.wired[0]? = some (.ofInlets []) := hs.wire rfl
  obtain ⟨lives, pending, hdeclare, rfl⟩ := link_done hfresh
  have hdeclare : (declareAll s.wired ([] ++ [node])).ending = .done (lives, pending) := hdeclare
  obtain ⟨_, _, d, hnil, hd, rfl, rfl⟩ := declareAll_snoc hdeclare
  cases hnil
  obtain ⟨w, hw, hdone⟩ := Traced.bind_done.mp hd
  rw [hid] at hw
  cases hwired.symm.trans (Traced.at?_done.mp hw)
  refine ⟨d, hdone, ⟨_, rfl, rfl, rfl⟩, fun outlet => hs.targets_eq 0 outlet, fun bus => ?_, ?_,
    rfl, rfl⟩
  · simp only [enterAll, hd, (hbuiltin.declares_buses hdone).2.2, hid]
    cases node.args.receiveBus? with
    | none => simp [Buses.subscribers, Buses.empty]
    | some name =>
      have hempty : Buses.empty.subscribers bus = [] := by simp [Buses.subscribers, Buses.empty]
      simp only [Option.toList_some, List.map_cons, List.map_nil, List.foldl_cons, List.foldl_nil,
        Buses.subscribers_subscribe, hempty]
      by_cases hname : name = bus <;> simp [hname]
  · rw [hid]
    rfl

namespace Bench

/-- A bench and an engine that waits for its callback have the same ahead of them. -/
theorem abreast_configure {fresh : Engine (standard R)} {topology : Topology}
    {d : Declared (StandardState R)} (hfresh : fresh.Alone topology d) {b : Bench (standard R)}
    {c : Config R} (hb : b = ⟨d.state, topology, c.sampleRate, [], [], d.subscriptions⟩)
    (hsealed : b.Sealed) (hc : c.validate = .ok ()) :
    Abreast (if d.wantsConfigure then (b.absorb (d.state.configure c.sampleRate)).state else b)
      (fresh.after
        (topology.outlets.map (fun port => .listen 0 port.id.index) ++ [.configure c])) := by
  obtain ⟨live, hlive, hstate, htopology⟩ := hfresh.live
  obtain ⟨captured, hlisten, hcaptured⟩ :=
    Engine.after_listens (topology.outlets.map (·.id.index)) fresh
  have hopened : b.Abreast
      { fresh with captured := captured, config := some c, pending := [] } := by
    subst hb
    refine ⟨hsealed, ⟨live, hlive, hstate, htopology⟩, ⟨c, rfl, rfl⟩, hfresh.targets,
      hfresh.subscribers, fun outlet houtlet => ?_, fun outlet => ?_⟩
    · obtain ⟨port, hport, hid⟩ := List.find?_isSome.mp houtlet
      have hindex : port.id.index = outlet := congrArg PortId.index (eq_of_beq hid)
      rw [hcaptured, if_pos (List.mem_map.mpr ⟨port, hport, hindex⟩)]
      rfl
    · rw [hcaptured, hfresh.captured]
      split <;> simp
  have hlistens : topology.outlets.map (fun port => (.listen 0 port.id.index : Call R)) =
      (topology.outlets.map (·.id.index)).map (.listen 0 ·) := by rw [List.map_map]; rfl
  have hfine : (live.state.configure c.sampleRate).fault = none := live.state.configure_fault _
  have hconfigured := Engine.configure_alone (F := standard R)
    (e := { fresh with captured := captured }) hfresh.config hc hfresh.pending hlive hfine
  rw [hlistens, Engine.after_append, hlisten, Engine.after, List.foldl_cons, List.foldl_nil,
    hconfigured]
  cases d.wantsConfigure with
  | false => exact hopened
  | true =>
    have hproper : (d.state.configure c.sampleRate).Proper b.state := by
      rw [hb]
      exact d.state.proper_configure c.sampleRate
    have hstep := hopened.absorb (Engine.deliver maxDepth) (.configured 0) hproper
    rw [hstate]
    exact hstep.state

theorem exists_abreast {type : NodeType (standard R)} {raw : List (Token R)}
    {args : StandardArgs R} {topology : Topology} (hbuiltin : Builtin type args topology)
    (hargs : type.readArgs raw = .ok args) (hbuild : (type.build args).ending = .done topology)
    {d : Declared (StandardState R)} (hd : (type.declare args (.ofInlets [])).ending = .done d)
    {fresh : Engine (standard R)} (hfresh : fresh.Alone topology d) {c : Config R}
    (hc : c.validate = .ok ()) :
    ∃ b, (start type raw [] c).ending = .done b ∧ b.topology = topology ∧ b.Abreast (fresh.after
      (topology.outlets.map (fun port => .listen 0 port.id.index) ++ [.configure c])) := by
  have houtlets : ∀ outlet < d.state.outletCount, (topology.outlet? outlet).isSome = true := by
    intro outlet hlt
    rw [hbuiltin.declares_outlets hd outlet hlt]
    rfl
  refine ⟨_, start_done hargs hbuild hd (d.state.configure_fault c.sampleRate), ?_,
    abreast_configure hfresh rfl ⟨houtlets, hbuiltin.declares_hears hd⟩ hc⟩
  split
  · exact topology_absorb _ _
  · rfl

/-- Everything that can be asked of a node alone is answered alike by both its hosts: a bench, and
an engine that listens at all outlets before it is configured. Both know the same subscriptions at
any time. -/
theorem answers_as_engine [LawfulSample R] {name : String} {type : NodeType (standard R)}
    (htype : (Catalog.standard R).get name = .ok type) {raw : List (Token R)}
    {args : StandardArgs R} (hargs : type.readArgs raw = .ok args) {c : Config R}
    (hc : c.validate = .ok ()) :
    ∃ b s fresh, (start type raw [] c).ending = .done b ∧
      (Schedule.compile (Patch.built [.add name raw])).ending = .done s ∧
      (Engine.link s (Patch.built [.add name raw]) .empty).ending = .done fresh ∧
      ∀ drives : List (Drive R), (∀ drive ∈ drives, drive.meets b.topology = true) →
        let e := fresh.after (b.topology.outlets.map (fun port => .listen 0 port.id.index) ++
          .configure c :: drives.map (·.call))
        (∀ bus sub, sub ∈ e.buses.subscribers bus ↔
          sub.node = 0 ∧ (bus, sub.inlet) ∈ (b.after drives).subscriptions) ∧
        ∀ drive : Drive R, drive.meets b.topology = true → (b.after drives).AnswersAs e drive := by
  obtain ⟨topology, hbuild, hunique, hbuiltin⟩ := Standard.builds (Catalog.mem_of_get htype) hargs
  have hpatch : Patch.built [.add name raw] = ⟨[⟨0, name, raw, args, topology, type⟩], [],
      .standard R⟩ := Patch.after_add htype hargs hbuild hunique
  have hedits : ∀ edit ∈ [(.add name raw : Edit (standard R))], edit.fromCatalog = true := by
    simp [Edit.fromCatalog]
  obtain ⟨s, fresh, hs, hfresh⟩ := Engine.link_built hedits
  have hready := Engine.ready_after_built hedits hs hfresh
    (topology.outlets.map (fun port => .listen 0 port.id.index) ++ [.configure c])
  have hp := Patch.sound_built [(.add name raw : Edit (standard R))]
  obtain ⟨hlinks, hleast⟩ := Schedule.compile_done hp hs
  rw [hpatch] at hp hlinks hleast hready
  obtain ⟨d, hd, halone⟩ := Engine.alone_link rfl hbuiltin hlinks (hpatch ▸ hfresh)
  obtain ⟨b, hstart, rfl, habreast⟩ := exists_abreast hbuiltin hargs hbuild hd halone hc
  refine ⟨b, s, fresh, hstart, hs, hfresh, fun drives hdrives => ?_⟩
  have ho : Orders [] s.order s.order := ⟨.refl _, hleast.ready⟩
  obtain ⟨hafter, hready'⟩ := Abreast.after hlinks hp ho drives habreast hready hdrives
  intro e
  have he : e = (fresh.after (b.topology.outlets.map (fun port => .listen 0 port.id.index) ++
      [.configure c])).after (drives.map (·.call)) := by
    rw [← Engine.after_append, List.append_assoc, List.singleton_append]
  rw [he]
  refine ⟨fun bus sub => ?_, fun drive hdrive => (hafter.perform hlinks hp ho hready' hdrive).1⟩
  obtain ⟨n, inlet⟩ := sub
  rw [hafter.mirrored.subscribers]
  constructor
  · intro hsub
    obtain ⟨⟨name, inlet'⟩, hin, heq⟩ := List.mem_map.mp hsub
    obtain ⟨hheld, hname⟩ := List.mem_filter.mp hin
    cases heq
    cases eq_of_beq hname
    exact ⟨rfl, hheld⟩
  · rintro ⟨rfl, hin⟩
    exact List.mem_map.mpr ⟨_, List.mem_filter.mpr ⟨hin, beq_self_eq_true _⟩, rfl⟩

/-- A list box that takes a message from one bus, is rebound to another and takes one from it. -/
theorem answers_as_engine_rebound :
    let raw : List (Token Float) := [.float 0, .float 0, .symbol "A", .symbol "B"]
    let c : Config Float := ⟨44100, 64, 1⟩
    let drives (msg : Message Float) : List (Drive Float) := [.publish "A" msg,
      .send (.regular 0) [.symbol "receive", .symbol "C"], .tick, .publish "C" msg]
    ∃ type args, (Catalog.standard Float).get "listbox" = .ok type ∧
      type.readArgs raw = .ok args ∧ c.validate = .ok () ∧
      ∃ b s fresh, (start type raw [] c).ending = .done b ∧
        (Schedule.compile (Patch.built [.add "listbox" raw])).ending = .done s ∧
        (Engine.link s (Patch.built [.add "listbox" raw]) .empty).ending = .done fresh ∧
        b.topology.inlets = [.message 0] ∧
        ∀ msg, (b.after (drives msg)).AnswersAs
          (fresh.after (b.topology.outlets.map (fun port => .listen 0 port.id.index) ++
            .configure c :: (drives msg).map (·.call))) (.take 0) := by
  intro raw c drives
  let type : NodeType (standard Float) := Standard.control .listBox
  have htype : (Catalog.standard Float).get "listbox" = .ok type := rfl
  obtain ⟨args, hargs⟩ : ∃ args, type.readArgs raw = .ok args := ⟨_, rfl⟩
  have hc : (⟨44100, 64, 1⟩ : Config Float).validate = .ok () := rfl
  obtain ⟨b₀, hb₀, hinlets⟩ : ∃ b₀, (start type raw [] c).ending = .done b₀ ∧
      b₀.topology.inlets = [.message 0] := ⟨_, rfl, rfl⟩
  obtain ⟨b, s, fresh, hstart, hs, hfresh, hall⟩ := answers_as_engine htype hargs hc
  cases hb₀.symm.trans hstart
  refine ⟨type, args, htype, hargs, hc, b₀, s, fresh, hstart, hs, hfresh, hinlets, fun msg => ?_⟩
  refine (hall (drives msg) fun drive hdrive => ?_).2 (.take 0) rfl
  simp only [drives, List.mem_cons, List.not_mem_nil, or_false] at hdrive
  rcases hdrive with rfl | rfl | rfl | rfl
  · rfl
  · simp only [Drive.meets, Topology.inlet?, hinlets]
    rfl
  · rfl
  · rfl

end Bench

end

end Patchbay
