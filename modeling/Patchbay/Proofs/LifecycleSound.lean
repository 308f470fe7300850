import Patchbay.Proofs.PhaseSound

/-!
# Configured once

The first valid configuration runs every callback that was entered when the engine was linked, in
the order of the nodes, and only then does any node tick or take a message. What the callbacks
emitted is applied before the call is answered: so a control that sends on load sends its first
value.
-/

namespace Patchbay

variable {R : Type} {F : Family R}

namespace Engine

/-! ## What is entered when an engine is linked -/

def Registers (wired : List Wired) (node : PatchNode F) : Prop :=
  ∃ d, (declareNode wired node).ending = .done d ∧ d.wantsConfigure = true

theorem declareAll_pending {wired : List Wired} : ∀ {nodes : List (PatchNode F)}
    {lives : List (Live F)} {pending : List NodeId},
      (declareAll wired nodes).ending = .done (lives, pending) →
        pending.Sublist (nodes.map (·.id)) ∧
          ∀ n, n ∈ pending ↔ ∃ node ∈ nodes, node.id = n ∧ Registers wired node
  | [], _, _, h => by
    cases h
    simp
  | node :: nodes, _, _, h => by
    simp only [declareAll, Traced.bind_done, Traced.ending_pure, Ending.done.injEq,
      Prod.mk.injEq] at h
    obtain ⟨d, hd, ⟨lives, pending⟩, hrest, rfl, rfl⟩ := h
    obtain ⟨hsub, hmem⟩ := declareAll_pending hrest
    have hregisters : Registers wired node ↔ d.wantsConfigure = true := by
      constructor
      · rintro ⟨d', hd', hwants⟩
        cases hd.symm.trans hd'
        exact hwants
      · exact fun hwants => ⟨d, hd, hwants⟩
    cases hwants : d.wantsConfigure with
    | true =>
      refine ⟨hsub.cons_cons node.id, fun n => ?_⟩
      simp [hregisters, hwants, hmem, eq_comm]
    | false =>
      refine ⟨hsub.cons node.id, fun n => ?_⟩
      simp [hregisters, hwants, hmem]

theorem link_pending [Zero R] {s : Schedule} {p : Patch F} (hp : p.Sound) {buses : Buses}
    {e : Engine F} (h : (link s p buses).ending = .done e) : e.config = none ∧
      e.pending.Pairwise (· < ·) ∧
      ∀ n, n ∈ e.pending ↔ ∃ node, p.node? n = some node ∧ Registers s.wired node := by
  obtain ⟨lives, pending, hdeclare, rfl⟩ := link_done h
  obtain ⟨hsub, hmem⟩ := declareAll_pending hdeclare
  have hids : p.nodes.map (·.id) = List.range p.nodes.length := by
    refine List.ext_getElem (by simp) fun k hk _ => ?_
    have hlt : k < p.nodes.length := by simpa using hk
    simpa using hp.ids k p.nodes[k] (List.getElem?_eq_getElem hlt)
  refine ⟨rfl, ?_, fun n => ?_⟩
  · exact List.Pairwise.sublist (hids ▸ hsub) List.pairwise_lt_range
  · rw [hmem]
    constructor
    · rintro ⟨node, hnode, rfl, hregisters⟩
      obtain ⟨k, hk⟩ := List.mem_iff_getElem?.mp hnode
      exact ⟨node, hp.ids k node hk ▸ hk, hregisters⟩
    · rintro ⟨node, hnode, hregisters⟩
      exact ⟨node, Patch.node?_mem hnode, hp.ids n node hnode, hregisters⟩

theorem link_declared [Zero R] {s : Schedule} {p : Patch F} {buses : Buses} {e : Engine F}
    (h : (link s p buses).ending = .done e) {n : NodeId} {node : PatchNode F}
    (hn : p.node? n = some node) : ∃ live d, e.nodes[n]? = some live ∧
      (declareNode s.wired node).ending = .done d ∧ live.state = d.state := by
  obtain ⟨lives, pending, hdeclare, rfl⟩ := link_done h
  have hlives := (declareAll_done hdeclare).1
  obtain ⟨hlt, hget⟩ := List.getElem?_eq_some_iff.mp hn
  have hlt' : n < lives.length := hlives.length_eq ▸ hlt
  obtain ⟨_, d, hd, hstate⟩ := hlives.get hlt hlt'
  subst hget
  exact ⟨lives[n], d, List.getElem?_eq_getElem hlt', hd, hstate⟩

/-! ## Callbacks -/

def callback (e : Engine F) (rate : R) (n : NodeId) : List (Emission R) :=
  match e.nodes[n]? with
  | some live => (F.configure live.state rate).emissions
  | none => []

theorem runCallbacks_spec (rate : R) : ∀ (ns : List NodeId) (e : Engine F), ns.Nodup →
    (runCallbacks rate ns e).fault = none →
      (runCallbacks rate ns e).state.2 = (ns.map fun n => (n, e.callback rate n)) ∧
        ran (runCallbacks rate ns e).events = ns ∧
        ∀ o, sentOn o (runCallbacks rate ns e).events = []
  | [], _, _, _ => by simp [runCallbacks, Progress.stay]
  | n :: ns, e, hnodup, h => by
    obtain ⟨hn, hnodup⟩ := List.nodup_cons.mp hnodup
    unfold runCallbacks at h ⊢
    cases hlive : e.nodes[n]? with
    | none => simp [hlive, Progress.fail] at h
    | some live =>
      cases hfault : (F.configure live.state rate).fault with
      | some f => simp [hlive, absorb, hfault] at h
      | none =>
        simp only [hlive, absorb, hfault] at h ⊢
        obtain ⟨hemitted, hran, hsent⟩ := runCallbacks_spec rate ns _ hnodup h
        have hother : ∀ k ∈ ns, (e.setState n (F.configure live.state rate).state).callback rate k =
            e.callback rate k := by
          rintro k hk
          have hne : n ≠ k := fun h => hn (h ▸ hk)
          simp [callback, getElem?_setState, hne]
        refine ⟨?_, ?_, fun o => ?_⟩
        · rw [hemitted, List.map_cons]
          refine congrArg₂ List.cons (by simp [callback, hlive]) (List.map_congr_left ?_)
          exact fun k hk => by rw [hother k hk]
        · simp [hran, Event.configured?]
        · simp [hsent, Event.sentOn?]

variable [Sample R]

/-- There is a moment when all callbacks have run, and just what they emitted is still to be
applied. -/
theorem exists_loaded {e : Engine F} (hnone : e.config = none) {config : Config R}
    (hvalid : config.validate = .ok ()) (hnodup : e.pending.Nodup)
    (hfault : (runCallbacks config.sampleRate e.pending
      { e with config := some config, pending := [] }).fault = none) :
    ∃ loaded, (e.opening (.configure config)).Leads loaded ∧ ran loaded.trace = e.pending ∧
      (∀ o, sentOn o loaded.trace = []) ∧
      loaded.work =
        Moment.queued (e.pending.map fun n => (n, e.callback config.sampleRate n)) := by
  obtain ⟨hemitted, hran, hsent⟩ := runCallbacks_spec config.sampleRate e.pending _ hnodup hfault
  have hleads := Moment.leads_runCallbacks config.sampleRate e.pending
    [.notice (.configuring config.sampleRate config.blockSize e.pending.length)]
    { e with config := some config, pending := [] } []
  have hopening : e.opening (.configure config) =
      ⟨[.notice (.configuring config.sampleRate config.blockSize e.pending.length)],
        { e with config := some config, pending := [] },
        e.pending.map (.callback config.sampleRate) ++ []⟩ := by
    simp [opening, Moment.call, hnone, hvalid]
  rw [hopening]
  refine ⟨_, hleads, ?_, fun o => ?_, ?_⟩
  · simp [hran, Event.configured?]
  · simp [hsent, Event.sentOn?]
  · simp only [hfault, hemitted, Option.isNone_none, if_true, List.nil_append]
    rfl

end Engine

/-! ## Sending on load -/

def Emission.send? : Emission R → Option (Nat × Message R)
  | .send outlet msg => some (outlet, msg)
  | .publish .. | .subscribe .. | .unsubscribe .. => none

def Task.send? (n : NodeId) : Task R → Option (Nat × Message R)
  | .apply _ k emission => if k = n then emission.send? else none
  | .callback .. | .deliver .. => none

theorem Moment.send?_queued {ns : List NodeId} {n : NodeId} (hn : n ∉ ns)
    (emissions : NodeId → List (Emission R)) :
    (queued (ns.map fun k => (k, emissions k))).filterMap (Task.send? n) = [] := by
  refine List.filterMap_eq_nil_iff.mpr fun t ht => ?_
  obtain ⟨x, hx, ht⟩ := List.mem_flatMap.mp ht
  obtain ⟨k, hk, rfl⟩ := List.mem_map.mp hx
  obtain ⟨emission, _, rfl⟩ := List.mem_map.mp ht
  have hne : k ≠ n := fun h => hn (h ▸ hk)
  simp [Task.send?, hne]

/-- Where each node has its emissions once, a node that sends once does so at one place. -/
theorem Moment.exists_send {ns : List NodeId} (hns : ns.Nodup) {n : NodeId} (hn : n ∈ ns)
    (emissions : NodeId → List (Emission R)) {outlet : Nat} {msg : Message R}
    {more : List (Emission R)} (hfirst : emissions n = .send outlet msg :: more)
    (hmore : more.filterMap Emission.send? = []) :
    let work := queued (ns.map fun k => (k, emissions k))
    work.filterMap (Task.send? n) = [(outlet, msg)] ∧
      ∃ front rest, work = front ++ .apply maxDepth n (.send outlet msg) :: rest := by
  intro work
  obtain ⟨before, after, rfl⟩ := List.append_of_mem hn
  obtain ⟨_, hafter, hbefore⟩ := List.nodup_append.mp hns
  have hwork : work = queued (before.map fun k => (k, emissions k)) ++
      .apply maxDepth n (.send outlet msg) :: (more.map (.apply maxDepth n) ++
        queued (after.map fun k => (k, emissions k))) := by
    simp [work, queued, hfirst]
  refine ⟨?_, _, _, hwork⟩
  have hown : (more.map (Task.apply maxDepth n)).filterMap (Task.send? n) = [] := by
    rw [List.filterMap_map, ← hmore]
    exact List.filterMap_congr fun _ _ => by simp [Task.send?]
  have hahead : n ∉ before := fun h => hbefore n h n (List.mem_cons_self ..) rfl
  have hbehind : n ∉ after := (List.nodup_cons.mp hafter).1
  rw [hwork, List.filterMap_append, List.filterMap_cons, List.filterMap_append, hown,
    send?_queued hahead, send?_queued hbehind]
  simp [Task.send?, Emission.send?]

/-! ## Controls that send on load -/

section
variable [Sample R]

/-- What a control that sends on load says first. Only a toggle heeds no bounds. -/
def ControlKind.firstValue (kind : ControlKind) (b : Bounds R) (init : R) : R :=
  if kind = .toggle then init else b.clamp init

namespace Control

theorem readArgs_on_load {kind : ControlKind} {raw : List (Token R)} {a : ControlArgs R}
    (h : readArgs kind raw = .ok a) (hload : a.outputOnLoad = true) :
    ∃ b init, a.bounds = some b ∧ a.initValue = .float init := by
  have loaded : ∀ {i bounds}, loadedArgs raw i kind.name bounds = .ok a →
      ∃ b init, a.bounds = some b ∧ a.initValue = .float init := by
    intro i bounds h
    obtain ⟨init, hinit⟩ := loadedArgs_init h
    exact ⟨bounds, init, loadedArgs_bounds h, hinit⟩
  have atom : ∀ {bounded : Bool} {init : ControlValue R},
      atomArgs raw kind.name bounded init ≠ .ok a := by
    intro bounded init h
    obtain ⟨_, _, h⟩ := except_bind_ok.mp h
    obtain ⟨_, _, h⟩ := except_bind_ok.mp h
    cases h
    cases hload
  cases kind with
  | numberBox | horizontalSlider | verticalSlider =>
    obtain ⟨_, _, _, _, h⟩ := sliderArgs_ok h
    exact loaded h
  | horizontalRadio | verticalRadio | toggle =>
    obtain ⟨_, _, h⟩ := switchArgs_ok h
    exact loaded h
  | floatAtom | symbolAtom | listBox => exact absurd h atom

theorem startStore_message {kind : ControlKind} {a : ControlArgs R} {b : Bounds R} {init : R}
    (hbounds : a.bounds = some b) (hinit : a.initValue = .float init) {store : Store R}
    (h : (startStore kind a).ending = .done store) :
    store.message = .ofFloat (kind.firstValue b init) := by
  unfold startStore at h
  simp only [hinit, hbounds] at h
  by_cases htoggle : kind = .toggle
  · simp only [htoggle, if_true] at h
    cases h
    simp [Store.message, ControlKind.firstValue, htoggle]
  · simp only [htoggle, if_false, Traced.bind_done] at h
    obtain ⟨_, _, h⟩ := h
    cases h
    simp [Store.message, ControlKind.firstValue, htoggle]

end Control

omit [Sample R] in
theorem ControlState.sends_once (c : ControlState R) :
    ∃ more, c.emissions = .send 0 c.store.message :: more ∧
      more.filterMap Emission.send? = [] := by
  unfold emissions
  refine ⟨_, rfl, ?_⟩
  split
  · split <;> rfl
  · rfl

end

namespace Engine

variable [Sample R]

theorem link_on_load {s : Schedule} {p : Patch (standard R)} {buses : Buses}
    {e : Engine (standard R)} (h : (link s p buses).ending = .done e) {n : NodeId}
    {node : PatchNode (standard R)} (hn : p.node? n = some node)
    (hnode : Builtin node.type node.args node.topology) {a : ControlArgs R}
    (ha : node.args = .control a) (hload : a.outputOnLoad = true) :
    ∃ c b init, e.control? n = some c ∧ node.type = Standard.control c.kind ∧
      a.bounds = some b ∧ a.initValue = .float init ∧ Registers s.wired node ∧
      c.store.message = .ofFloat (c.kind.firstValue b init) := by
  obtain ⟨live, d, hlive, hd, hstate⟩ := link_declared h hn
  obtain ⟨id, name, raw, args, topology, type⟩ := node
  cases hnode with
  | control kind raw a read =>
    cases ha
    obtain ⟨b, init, hbounds, hinit⟩ := Control.readArgs_on_load read hload
    have hregisters := hd
    obtain ⟨w, _, hdone⟩ := Traced.bind_done.mp hd
    obtain ⟨d₀, hd₀, rfl⟩ := Blueprint.declared_of_inFamily hdone rfl rfl fun _ => rfl
    obtain ⟨store, hstore, hd₀⟩ := Traced.bind_done.mp hd₀
    cases hd₀
    refine ⟨⟨kind, store, a.sendBus, a.receiveBus⟩, b, init, ?_, rfl, hbounds, hinit,
      ⟨_, hregisters, hload⟩, Control.startStore_message hbounds hinit hstore⟩
    simp [control?, hlive, hstate, Declared.map, StandardState.control?]
  -- no other kind of node has the arguments of a control
  | _ => cases ha

/-! ## The two phases -/

def ticksNodes : Call R → Bool
  | .tick | .block .. | .render .. => true
  | .configure .. | .send .. | .publish .. | .listen .. | .take .. => false

theorem ticks_unconfigured {e : Engine F} (h : e.config = none) {call : Call R}
    (hcall : ticksNodes call = true) :
    (∃ err, e.perform call = .refuse e err) ∨ e.perform call = ⟨e, [], .done (.samples [])⟩ := by
  rcases perform_unconfigured h call with
    ⟨_, rfl, _⟩ | hrefused | ⟨_, _, _, hempty⟩ | ⟨_, _, rfl | rfl⟩
  · cases hcall
  · exact Or.inl hrefused
  · exact Or.inr hempty
  · cases hcall
  · cases hcall

/-- During the call the control sends the message on outlet 0 as its own doing, and nothing else:
when all callbacks have run and nothing was sent yet, this waits to be applied, once, and it is
applied before the call is over. -/
def SendsOnLoad (e : Engine F) (config : Config R) (n : NodeId) (msg : Message R) : Prop :=
  ∃ loaded x rest, (e.opening (.configure config)).Leads loaded ∧
    ran loaded.trace = e.pending ∧ awaited loaded.work = [] ∧
    (∀ o, sentOn o loaded.trace = []) ∧
    loaded.work.filterMap (Task.send? n) = [(0, msg)] ∧
    loaded.Leads x ∧ x.work = .apply maxDepth n (.send 0 msg) :: rest ∧
    x.Leads ⟨(e.perform (.configure config)).events, (e.perform (.configure config)).state, []⟩

/-- How an engine lives that was linked for the patch. Its callbacks run in one go, all of them, in
the order of the nodes, during the first call to configure that succeeds. -/
structure TwoPhase (s : Schedule) (p : Patch (standard R)) (fresh : Engine (standard R)) :
    Prop where
  ascending : fresh.pending.Pairwise (· < ·)
  entered : ∀ n, n ∈ fresh.pending ↔
    ∃ node, p.node? n = some node ∧ Registers s.wired node
  once : ∀ calls, fresh.Succeeds calls →
    ran ((outcomes perform fresh calls).flatMap (·.events)) = fresh.pending
  never : ∀ calls, ¬ fresh.Succeeds calls →
    ran ((outcomes perform fresh calls).flatMap (·.events)) = []
  handlers : ∀ m, Moment.OfRun fresh m → ∀ room origin n inlet msg rest,
    m.work = .deliver room origin n inlet msg :: rest →
      ran m.trace = fresh.pending ∧ awaited m.work = []
  ticks : ∀ calls call, ¬ fresh.Succeeds calls → ticksNodes call = true →
    let e := fresh.after calls
    (∃ err, e.perform call = .refuse e err) ∨ e.perform call = ⟨e, [], .done (.samples [])⟩
  refused : ∀ calls call err, ((fresh.after calls).perform call).ending = .refused err →
    (fresh.after calls).perform call = .refuse (fresh.after calls) err
  as_if : ∀ calls, outcomes perform fresh (fresh.heeded calls) =
    (outcomes perform fresh calls).filter fun o => !o.ending.isRefused
  loads : ∀ n node a, p.node? n = some node → node.args = .control a → a.outputOnLoad = true →
    ∃ c b init, fresh.control? n = some c ∧ node.type = Standard.control c.kind ∧
      a.bounds = some b ∧ a.initValue = .float init ∧ n ∈ fresh.pending ∧
      ∀ calls config reply,
        ((fresh.after calls).perform (.configure config)).ending = .done reply →
          (fresh.after calls).pending = fresh.pending ∧
          (fresh.after calls).SendsOnLoad config n (.ofFloat (c.kind.firstValue b init))

theorem configure_done {e : Engine F} {config : Config R} {reply : Reply R}
    (h : (e.perform (.configure config)).ending = .done reply) :
    e.config = none ∧ config.validate = .ok () := by
  cases hconfig : e.config with
  | some c => simp [perform, configure, unlessRefused, Outcome.refuse, hconfig] at h
  | none =>
    cases hvalid : config.validate with
    | error err => simp [perform, configure, unlessRefused, Outcome.refuse, hconfig, hvalid] at h
    | ok u => exact ⟨rfl, rfl⟩

theorem callback_control {e : Engine (standard R)} {n : NodeId} {c : ControlState R}
    (hc : e.control? n = some c) (rate : R) : e.callback rate n = c.emissions := by
  obtain ⟨live, hlive, hstate⟩ := Option.bind_eq_some_iff.mp hc
  simp [callback, hlive, StandardState.eq_control hstate, StandardState.configure,
    ControlState.configure, Handled.map]

theorem sends_on_load [LawfulSample R] {s : Schedule} {p : Patch (standard R)} (hs : s.Links p)
    (hp : p.Sound) {e : Engine (standard R)} (he : e.Ready StandardState.Sound s p)
    (hnodup : e.pending.Nodup) {config : Config R} (hnone : e.config = none)
    (hvalid : config.validate = .ok ()) {n : NodeId} (hn : n ∈ e.pending) {c : ControlState R}
    (hc : e.control? n = some c) : e.SendsOnLoad config n c.store.message := by
  have hopen := (Ready.closed StandardState.keeps_sound hs).configured hvalid he
  obtain ⟨loaded, hloaded, hran, hsent, hwork⟩ := exists_loaded hnone hvalid hnodup
    (runCallbacks_fault StandardState.keeps_sound StandardState.quiet hs _ _ _ he.pending hopen)
  have hstart : Moment.Ready StandardState.Sound s p ⟨[], e, []⟩ := ⟨he, by simp⟩
  have hsmooth : loaded.Smooth :=
    ((hstart.begins StandardState.keeps_sound hs (Moment.begins_call _ _)).smooth
      StandardState.keeps_sound StandardState.quiet hs hp).leads hloaded
  obtain ⟨more, hfirst, hmore⟩ := c.sends_once
  rw [← callback_control hc config.sampleRate] at hfirst
  obtain ⟨honce, front, rest, hplace⟩ :=
    Moment.exists_send hnodup hn (e.callback config.sampleRate) hfirst hmore
  rw [← hwork] at honce hplace
  have hcalm : ∀ t ∈ loaded.work, t.isCallback = false := hwork ▸ Moment.calm_queued _
  obtain ⟨x, hx, hturn⟩ := hsmooth.turn hplace fun t ht => hcalm t (by simp [hplace, ht])
  have hend := e.opening_leads (.configure config)
  exact ⟨loaded, x, rest, hloaded, hran, awaited_of_calm hcalm, hsent, honce, hx, hturn,
    (hloaded.trans hx).of_idle hend rfl⟩

/-- Until then a control waits with the value that it was linked with. -/
theorem Waiting.sends_on_load [LawfulSample R] {s : Schedule} {p : Patch (standard R)}
    (hs : s.Links p) (hp : p.Sound) {fresh e : Engine (standard R)} (hwaiting : Waiting fresh e)
    (he : e.Ready StandardState.Sound s p) (hnodup : fresh.pending.Nodup) {config : Config R}
    (hvalid : config.validate = .ok ()) {n : NodeId} (hn : n ∈ fresh.pending)
    {c : ControlState R} (hc : fresh.control? n = some c) :
    e.SendsOnLoad config n c.store.message := by
  have hc' : e.control? n = some c := by
    unfold control? at hc ⊢
    rwa [hwaiting.nodes]
  rw [← hwaiting.pending] at hnodup hn
  exact Engine.sends_on_load hs hp he hnodup hwaiting.config hvalid hn hc'

theorem two_phases [LawfulSample R] {edits : List (Edit (standard R))}
    (hedits : ∀ edit ∈ edits, edit.fromCatalog = true) :
    ∃ s fresh, (Schedule.compile (Patch.built edits)).ending = .done s ∧
      (link s (Patch.built edits) .empty).ending = .done fresh ∧
      TwoPhase s (Patch.built edits) fresh := by
  obtain ⟨s, fresh, hs, hfresh⟩ := link_built hedits
  have hp := Patch.sound_built edits
  have hlinks := (Schedule.compile_done hp hs).1
  have hready := ready_after_built hedits hs hfresh
  have hfine : ∀ x, Moment.OfRun fresh x → x.Faultless :=
    fun _ hx => hx.faultless_built hedits hs hfresh
  have hnever : ∀ calls call f, ((fresh.after calls).perform call).ending ≠ .faulted f :=
    fun calls => perform_not_faulted StandardState.keeps_sound StandardState.quiet hlinks hp
      (hready calls)
  obtain ⟨hnone, hascending, hentered⟩ := link_pending hp hfresh
  have hphases := ran_all_or_none hnone hfine hnever
  refine ⟨s, fresh, hs, hfresh, {
    ascending := hascending
    entered := hentered
    once := fun calls h => ?once
    never := fun calls h => ?never
    handlers := fun m hm _ _ _ _ _ _ => all_ran_before_delivery hnone hfine hm
    ticks := fun calls call h hcall => ?ticks
    refused := fun _ _ _ h => perform_refused h
    as_if := fun calls => outcomes_heeded calls fresh
    loads := fun n node a hn ha hload => ?loads }⟩
  case once =>
    rcases hphases calls with ⟨_, hran⟩ | ⟨hnot, _⟩
    · exact hran
    · exact absurd h hnot
  case never =>
    rcases hphases calls with ⟨hyes, _⟩ | ⟨_, hnone, _⟩
    · exact absurd hyes h
    · rw [hnone, ran_nil]
  case ticks =>
    rcases hphases calls with ⟨hyes, _⟩ | ⟨_, _, hwaiting⟩
    · exact absurd hyes h
    · exact ticks_unconfigured hwaiting.config hcall
  case loads =>
    have hnode := (Patch.standard_built hedits).nodes node (Patch.node?_mem hn)
    obtain ⟨c, b, init, hc, htype, hbounds, hinit, hregisters, hfirst⟩ :=
      link_on_load hfresh hn hnode ha hload
    have hn' : n ∈ fresh.pending := (hentered n).mpr ⟨node, hn, hregisters⟩
    refine ⟨c, b, init, hc, htype, hbounds, hinit, hn', fun calls config reply hdone => ?_⟩
    obtain ⟨hwait, hvalid⟩ := configure_done hdone
    have hwaiting : Waiting fresh (fresh.after calls) :=
      ((Moment.ofRun_outcomes fresh calls).phase hnone hfine).of_unconfigured hwait
    have hnodup : fresh.pending.Nodup := hascending.imp Nat.ne_of_lt
    rw [← hfirst]
    exact ⟨hwaiting.pending,
      hwaiting.sends_on_load hlinks hp (hready calls) hnodup hvalid hn' hc⟩

/-- A number box whose value is clamped and a toggle whose value is not, and a call to configure
that is refused before the one that succeeds, and one after. -/
theorem two_phases_refused :
    let edits : List (Edit (standard Float)) :=
      [.add "nbx" [.float 0, .float 10, .float 1, .float 12],
        .add "tgl" [.float 1, .float 1, .float 5], .connect 0 0 1 (.regular 0)]
    let config : Config Float := ⟨44100, 64, 1⟩
    let calls : List (Call Float) :=
      [.configure ⟨0, 64, 1⟩, .tick, .configure config, .configure config]
    (∀ edit ∈ edits, edit.fromCatalog = true) ∧
      ∃ s fresh, (Schedule.compile (Patch.built edits)).ending = .done s ∧
        (link s (Patch.built edits) .empty).ending = .done fresh ∧
        ran ((outcomes perform fresh calls).flatMap (·.events)) = [0, 1] ∧
        ran ((outcomes perform fresh (calls.take 2)).flatMap (·.events)) = [] ∧
        (fresh.after (calls.take 2)).SendsOnLoad config 0 [.float 10] ∧
        (fresh.after (calls.take 2)).SendsOnLoad config 1 [.float 5] := by
  intro edits config calls
  have hedits : ∀ edit ∈ edits, edit.fromCatalog = true := by simp [edits, Edit.fromCatalog]
  obtain ⟨s, fresh, hs, hfresh, hlife⟩ := two_phases hedits
  let a : ControlArgs Float := ⟨some ⟨0, 10⟩, .float 12, true, none, none⟩
  let a' : ControlArgs Float := ⟨some ⟨0, 1⟩, .float 5, true, none, none⟩
  obtain ⟨node, hnode, ha⟩ : ∃ node, (Patch.built edits).node? 0 = some node ∧
      node.args = .control a := Option.map_eq_some_iff.mp (by decide +kernel)
  obtain ⟨node', hnode', ha'⟩ : ∃ node, (Patch.built edits).node? 1 = some node ∧
      node.args = .control a' := Option.map_eq_some_iff.mp (by decide +kernel)
  obtain ⟨c, _, _, hc, _, hb, hinit, _, hsends⟩ := hlife.loads 0 node a hnode ha rfl
  obtain ⟨c', _, _, hc', _, hb', hinit', _, hsends'⟩ := hlife.loads 1 node' a' hnode' ha' rfl
  cases hb
  cases hinit
  cases hb'
  cases hinit'
  have hfacts : fresh.pending = [0, 1] ∧
      (fresh.control? 0).map (·.kind.firstValue ⟨0, 10⟩ 12) = some (10 : Float) ∧
      (fresh.control? 1).map (·.kind.firstValue ⟨0, 1⟩ 5) = some (5 : Float) ∧
      ran ((outcomes perform fresh (calls.take 2)).flatMap (·.events)) = [] ∧
      ∃ reply, ((fresh.after (calls.take 2)).perform (.configure config)).ending = .done reply := by
    obtain rfl := Ending.done.inj (hs.symm.trans (rfl : _ = Ending.done _))
    obtain rfl := Ending.done.inj (hfresh.symm.trans (rfl : _ = Ending.done _))
    exact ⟨by decide +kernel, by decide +kernel, by decide +kernel, by decide +kernel,
      by decide +kernel⟩
  obtain ⟨hpending, hvalue, hvalue', hbefore, reply, hdone⟩ := hfacts
  have hsucceeds : fresh.Succeeds calls := ⟨calls.take 2, config, [.configure config], reply, rfl,
    hdone⟩
  rw [hc, Option.map_some, Option.some.injEq] at hvalue
  rw [hc', Option.map_some, Option.some.injEq] at hvalue'
  have hten := (hsends (calls.take 2) config reply hdone).2
  have hfive := (hsends' (calls.take 2) config reply hdone).2
  rw [hvalue] at hten
  rw [hvalue'] at hfive
  exact ⟨hedits, s, fresh, hs, hfresh, (hlife.once calls hsucceeds).trans hpending,
    hbefore, hten, hfive⟩

end Engine

end Patchbay
