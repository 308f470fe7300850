import Patchbay.Proofs.BindingSound

/-!
# Whom a publication reaches

A publication goes to the subscribers that its bus has when it is applied. Its deliveries are made
one after the other, each with all that it sets off, and a rebinding on the way neither takes one
back nor adds one. A control that would publish to itself keeps silent, so it hears itself only
where it was rebound between the two.
-/

namespace Patchbay

variable {R : Type}

namespace Moment

section
variable {F : Family R} [Sample R]

/-! ## Fan-outs -/

inductive FanOut (fresh : Engine F) :
    Moment F → Nat → String → Option NodeId → Message R → List (Task R) → Prop
  | emitted {m room n bus msg rest} : OfRun fresh m →
    m.work = .apply room n (.publish bus msg) :: rest →
    FanOut fresh m.next room bus (some n) msg rest
  | called {m bus msg} : OfRun fresh m → m.work = [] → m.engine.config.isSome = true →
    FanOut fresh (m.call (.publish bus msg)) (maxDepth + 1) bus none msg []

theorem next_published {m : Moment F} {room : Nat} {n : NodeId} {bus : String} {msg : Message R}
    {rest : List (Task R)} (h : m.work = .apply room n (.publish bus msg) :: rest) :
    m.next = ⟨m.trace, m.engine, m.engine.fanOut room bus (some n) msg ++ rest⟩ := by
  simp [Moment.next, h, Task.run, Progress.stay]

theorem call_published {m : Moment F} (h : m.engine.config.isSome = true) (bus : String)
    (msg : Message R) : m.call (.publish bus msg) =
      { m with work := m.engine.fanOut (maxDepth + 1) bus none msg } := by
  obtain ⟨config, hconfig⟩ := Option.isSome_iff_exists.mp h
  simp [Moment.call, hconfig]

theorem FanOut.work {fresh : Engine F} {m : Moment F} {room : Nat} {bus : String}
    {publisher : Option NodeId} {msg : Message R} {rest : List (Task R)}
    (h : FanOut fresh m room bus publisher msg rest) :
    m.work = m.engine.fanOut room bus publisher msg ++ rest := by
  cases h with
  | emitted hm hwork => rw [next_published hwork]
  | called hm hidle hconfig => simp [call_published hconfig]

/-- A delivery that belongs to a fan-out: its subscriber was one of the bus when the publication was
applied, and those that came after it then are served after it. -/
def Due (fresh : Engine F) (m : Moment F) (room : Nat) (bus : String) (publisher : Option NodeId)
    (sub : Subscriber) (msg : Message R) (post : List (Task R)) : Prop :=
  ∃ start rest before after, FanOut fresh start room bus publisher msg rest ∧ start.Leads m ∧
    start.engine.buses.subscribers bus = before ++ sub :: after ∧
    (after.map fun s => Task.deliver room (.bus bus publisher) s.node s.inlet msg) <+: post

theorem Due.later {fresh : Engine F} {m m' : Moment F} {room : Nat} {bus : String}
    {publisher : Option NodeId} {sub : Subscriber} {msg : Message R} {post post' : List (Task R)}
    (h : Due fresh m room bus publisher sub msg post) (hleads : m.Leads m')
    (hpost : post <+: post') : Due fresh m' room bus publisher sub msg post' := by
  obtain ⟨start, rest, before, after, hfan, hstart, hsubs, hafter⟩ := h
  exact ⟨start, rest, before, after, hfan, hstart.trans hleads, hsubs, hafter.trans hpost⟩

theorem FanOut.due {fresh : Engine F} {m : Moment F} {room room' : Nat} {bus bus' : String}
    {publisher publisher' : Option NodeId} {msg msg' : Message R} {sub : Subscriber}
    {before after rest : List (Task R)} (h : FanOut fresh m room bus publisher msg rest)
    (hfan : m.engine.fanOut room bus publisher msg =
      before ++ .deliver room' (.bus bus' publisher') sub.node sub.inlet msg' :: after) :
    Due fresh m room' bus' publisher' sub msg' (after ++ rest) := by
  obtain ⟨first, last, hsubs, _, hlast⟩ := List.map_eq_append_iff.mp hfan
  obtain ⟨own, last, rfl, hown, hafter⟩ := List.map_eq_cons_iff.mp hlast
  obtain ⟨node, inlet⟩ := own
  obtain ⟨rfl, horigin, rfl, rfl, rfl⟩ := Task.deliver.inj hown
  obtain ⟨rfl, rfl⟩ := Origin.bus.inj horigin
  refine ⟨m, rest, first, last, h, Leads.refl m, hsubs, ?_⟩
  rw [hafter]
  exact List.prefix_append _ _

def Owing (fresh : Engine F) (m : Moment F) : Prop :=
  ∀ room bus publisher sub msg post,
    Task.deliver room (.bus bus publisher) sub.node sub.inlet msg :: post <:+ m.work →
      Due fresh m room bus publisher sub msg post

omit [Sample R] in
/-- Where a task and all that follows it stands at the end of two lists in a row. -/
theorem cons_suffix_append {task : Task R} {post rest : List (Task R)} : ∀ {new : List (Task R)},
    task :: post <:+ new ++ rest → task :: post <:+ rest ∨
      ∃ before after, new = before ++ task :: after ∧ post = after ++ rest
  | [], h => Or.inl h
  | first :: new, h => by
    rcases List.suffix_cons_iff.mp h with heq | h
    · obtain ⟨rfl, rfl⟩ := List.cons.inj heq
      exact Or.inr ⟨[], new, rfl, rfl⟩
    · rcases cons_suffix_append h with h | ⟨before, after, rfl, rfl⟩
      · exact Or.inl h
      · exact Or.inr ⟨first :: before, after, rfl, rfl⟩

omit [Sample R] in
theorem cons_suffix_of_notMem {task : Task R} {post rest new : List (Task R)}
    (h : task :: post <:+ new ++ rest) (hnew : task ∉ new) : task :: post <:+ rest := by
  rcases cons_suffix_append h with h | ⟨before, after, rfl, _⟩
  · exact h
  · exact absurd (by simp) hnew

theorem Owing.step {fresh : Engine F} {m m' : Moment F} (hm : OfRun fresh m) (h : Owing fresh m)
    (hstep : Step m m') : Owing fresh m' := by
  have hnext := hstep.eq_next
  have hleads : m.Leads m' := hnext ▸ Leads.next m
  intro room bus publisher sub msg post hpost
  -- what was owed before is still owed, with the same tasks behind it
  have hold : ∀ {task rest}, m.work = task :: rest →
      Task.deliver room (.bus bus publisher) sub.node sub.inlet msg :: post <:+ rest →
        Due fresh m' room bus publisher sub msg post := by
    intro task rest hwork hrest
    refine (h room bus publisher sub msg post ?_).later hleads (List.prefix_refl _)
    rw [hwork]
    exact hrest.trans (List.suffix_cons _ _)
  cases hstep with
  | uncalled => cases List.suffix_nil.mp hpost
  | undelivered => cases List.suffix_nil.mp hpost
  | called =>
    dsimp only at hpost
    split at hpost
    · rcases cons_suffix_append hpost with hpost | ⟨before, after, hrest, rfl⟩
      · have hmem := hpost.subset (List.mem_cons_self ..)
        simp at hmem
      · -- what a callback emits is put at the very end, so what is owed gets more behind it
        refine (h room bus publisher sub msg after ?_).later hleads (List.prefix_append _ _)
        rw [hrest]
        exact (List.suffix_append before _).trans (List.suffix_cons _ _)
    · cases List.suffix_nil.mp hpost
  | handled =>
    dsimp only at hpost
    split at hpost
    · exact hold rfl (cons_suffix_of_notMem hpost (by simp))
    · cases List.suffix_nil.mp hpost
  | cut => exact hold rfl hpost
  | sent => exact hold rfl (cons_suffix_of_notMem hpost (by simp))
  | published =>
    rcases cons_suffix_append hpost with hpost | ⟨before, after, hfan, rfl⟩
    · exact hold rfl hpost
    · refine FanOut.due ?_ hfan
      rw [hnext]
      exact .emitted hm rfl
  | subscribed => exact hold rfl hpost
  | unsubscribed => exact hold rfl hpost

theorem owing_call {fresh : Engine F} {m : Moment F} (hm : OfRun fresh m) (hidle : m.work = [])
    (call : Call R) : Owing fresh (m.call call) := by
  intro room bus publisher sub msg post hpost
  have hcall := begins_call m call
  generalize hbegun : m.call call = m' at hcall hpost ⊢
  cases hcall with
  | refused =>
    rw [hidle] at hpost
    cases List.suffix_nil.mp hpost
  | configured =>
    have hmem := hpost.subset (List.mem_cons_self ..)
    simp at hmem
  | sent =>
    have hmem := hpost.subset (List.mem_cons_self ..)
    simp at hmem
  | published hconfig =>
    rename_i bus' msg'
    have hfan : FanOut fresh (m.call (.publish bus' msg')) (maxDepth + 1) bus' none msg' [] :=
      .called hm hidle hconfig
    rw [hbegun] at hfan
    rcases cons_suffix_append (hfan.work ▸ hpost) with hpost | ⟨before, after, hsplit, rfl⟩
    · cases List.suffix_nil.mp hpost
    · exact hfan.due hsplit
  | silent => cases List.suffix_nil.mp hpost

theorem OfRun.owing {fresh : Engine F} {m : Moment F} (hm : OfRun fresh m) : Owing fresh m := by
  induction hm with
  | start =>
    intro room bus publisher sub msg post hpost
    cases List.suffix_nil.mp hpost
  | call call hm hidle => exact owing_call hm hidle call
  | step hm hstep ih => exact ih.step hm hstep

end

end Moment

variable [Sample R]

/-! ## What controls publish -/

omit [Sample R] in
theorem ControlState.publishes {c : ControlState R} {bus : String} {msg : Message R}
    (h : .publish bus msg ∈ c.emissions) :
    c.sendBus = some bus ∧ c.receiveBus ≠ some bus ∧ c.store.message = msg := by
  obtain hsend | ⟨_, hown, hother, hpublish⟩ := mem_emissions h
  · cases hsend
  · cases hpublish
    exact ⟨hown, hother, rfl⟩

theorem StandardState.publishes_configure {s : StandardState R} {rate : R} {c : ControlState R}
    (hc : (s.configure rate).state.control? = some c) {bus : String} {msg : Message R}
    (h : .publish bus msg ∈ (s.configure rate).emissions) :
    c.sendBus = some bus ∧ c.receiveBus ≠ some bus ∧ c.store.message = msg := by
  cases s <;> cases hc
  exact ControlState.publishes h

theorem StandardState.publishes_message {s : StandardState R} {inlet : PortId} {given : Message R}
    {rate : R} {c : ControlState R} (hc : (s.message inlet given rate).state.control? = some c)
    {bus : String} {msg : Message R}
    (h : .publish bus msg ∈ (s.message inlet given rate).emissions) :
    c.sendBus = some bus ∧ c.receiveBus ≠ some bus ∧ c.store.message = msg := by
  cases hcontrol : s.control? with
  | none =>
    rw [(s.message_of_no_control hcontrol inlet given rate).1] at hc
    cases hc
  | some old =>
    obtain rfl := eq_control hcontrol
    have hc : (old.message inlet given).state = c := Option.some.inj hc
    have h : .publish bus msg ∈ (old.message inlet given).emissions := h
    rcases old.message_cases inlet given with ⟨_, hnone | hown⟩ | ⟨new, _, _, heq⟩
    · rw [hnone] at h
      cases h
    · rw [hown, hc] at h
      exact ControlState.publishes h
    · rw [heq] at h
      have hrebinds := old.rebinds_rebindReceive new _ h
      cases hrebinds

namespace Moment

theorem FanOut.tuned {p : Patch (standard R)} {fresh : Engine (standard R)} (hfresh : fresh.Tuned p)
    {m : Moment (standard R)} {room : Nat} {bus : String} {publisher : Option NodeId}
    {msg : Message R} {rest : List (Task R)} (h : FanOut fresh m room bus publisher msg rest) :
    m.engine.Tuned p := by
  cases h with
  | emitted hm hwork =>
    rw [next_published hwork]
    exact (hm.inTune hfresh).tuned (by simp [hwork, Task.rebinds, Emission.rebinds])
  | called hm hidle hconfig =>
    rw [call_published hconfig]
    exact (hm.inTune hfresh).tuned (by simp [hidle])

/-! ## Bindings on the way -/

def Rebinds (m : Moment (standard R)) (n : NodeId) (bus : Option String) : Prop :=
  ∃ room origin msg rest, m.work = .deliver (room + 1) origin n (.regular 0) msg :: rest ∧
    Control.Command.ofMessage msg = .bindReceive bus

theorem Step.binding {m m' : Moment (standard R)} (h : Step m m') (n : NodeId) :
    m'.engine.binding? n = m.engine.binding? n ∨
      ∃ bus, m.Rebinds n bus ∧ (m.engine.binding? n).isSome = true ∧
        m'.engine.binding? n = some bus := by
  cases h with
  | called hlive hconfigure =>
    rename_i e rate k rest live handled
    refine Or.inl ?_
    dsimp only
    rw [Engine.binding?_setState hlive]
    split
    · rename_i hk
      subst hk
      rw [← hconfigure, Engine.binding?_eq hlive]
      exact (live.state.configure_keeps rate).1
    · rfl
  | handled hlive hmessage =>
    rename_i e room origin k inlet msg rest live handled
    dsimp only
    rw [Engine.binding?_setState hlive]
    by_cases hk : k = n
    · subst hk
      rw [if_pos rfl, Engine.binding?_eq hlive, ← hmessage]
      rcases live.state.message_cases inlet msg e.sampleRate with
        ⟨hbinding, _⟩ | ⟨c, bus, hc, rfl, hcommand, heq⟩
      · exact Or.inl hbinding
      · refine Or.inr ⟨bus, ⟨room, origin, msg, rest, rfl, hcommand⟩, by rw [hc]; rfl, ?_⟩
        exact congrArg (fun h => h.state.binding?) heq
    · exact Or.inl (by rw [if_neg hk])
  | sent =>
    rename_i e room k outlet msg rest
    refine Or.inl ?_
    unfold Engine.binding? Engine.control?
    rw [Engine.capture_eq]
  | _ => exact Or.inl rfl

/-- Between two moments a control stays bound where it is, or what bound it where it is at the later
was handed to it on the way. -/
theorem Leads.binding {m m' : Moment (standard R)} (h : m.Leads m') (n : NodeId) :
    m'.engine.binding? n = m.engine.binding? n ∨
      ∃ r bus, m.Leads r ∧ r.Rebinds n bus ∧ r.next.Leads m' ∧
        (m.engine.binding? n).isSome = true ∧ m'.engine.binding? n = some bus := by
  obtain ⟨k, rfl⟩ := h
  induction k with
  | zero => exact Or.inl rfl
  | succ k ih =>
    rw [Function.iterate_succ_apply']
    have hleads : m.Leads (Moment.next^[k] m) := ⟨k, rfl⟩
    generalize Moment.next^[k] m = mid at ih hleads ⊢
    by_cases hidle : mid.work = []
    · rw [next_of_idle hidle]
      exact ih
    · rcases (step_next hidle).binding n with hsame | ⟨bus, hrebinds, hsome, hbus⟩
      · rw [hsame]
        rcases ih with hold | ⟨r, bus, hr, hrebinds, hlater, hsome, hbus⟩
        · exact Or.inl hold
        · exact Or.inr ⟨r, bus, hr, hrebinds, hlater.trans (Leads.next mid), hsome, hbus⟩
      · refine Or.inr ⟨mid, bus, hleads, hrebinds, Leads.refl _, ?_, hbus⟩
        rcases ih with hold | ⟨_, _, _, _, _, hsome, _⟩
        · rwa [hold] at hsome
        · exact hsome

theorem Leads.isSome_binding {m m' : Moment (standard R)} (h : m.Leads m') {n : NodeId}
    (hn : (m'.engine.binding? n).isSome = true) : (m.engine.binding? n).isSome = true := by
  rcases h.binding n with hsame | ⟨_, _, _, _, _, hsome, _⟩
  · rwa [hsame] at hn
  · exact hsome

/-! ## The guard -/

def Enters {F : Family R} (m : Moment F) (n : NodeId) : Prop :=
  (∃ rate rest, m.work = .callback rate n :: rest) ∨
    ∃ room origin inlet msg rest, m.work = .deliver (room + 1) origin n inlet msg :: rest

/-- The control handled something earlier and published its value, on a bus that it did not listen
on then. -/
def Spoke (fresh : Engine (standard R)) (m : Moment (standard R)) (n : NodeId) (bus : String)
    (msg : Message R) : Prop :=
  ∃ spoken c, OfRun fresh spoken ∧ spoken.Enters n ∧ spoken.next.Leads m ∧
    spoken.next.engine.control? n = some c ∧
    (c.sendBus = some bus ∧ c.receiveBus ≠ some bus ∧ c.store.message = msg)

def Guarded (fresh : Engine (standard R)) (m : Moment (standard R)) : Prop :=
  ∀ room n bus msg, Task.apply room n (.publish bus msg) ∈ m.work →
    (m.engine.binding? n).isSome = true → Spoke fresh m n bus msg

theorem Guarded.step {fresh : Engine (standard R)} {m m' : Moment (standard R)}
    (hm : OfRun fresh m) (h : Guarded fresh m) (hstep : Step m m') : Guarded fresh m' := by
  have hnext := hstep.eq_next
  have hleads : m.Leads m' := hnext ▸ Leads.next m
  intro room n bus msg htask hcontrol
  have hcontrol' : (m.engine.binding? n).isSome = true := hleads.isSome_binding hcontrol
  -- a publication is either one of before, or the control speaks right now
  have hold : Task.apply room n (.publish bus msg) ∈ m.work → Spoke fresh m' n bus msg := by
    intro hmem
    obtain ⟨spoken, c, hspoken, henters, hlater, hc⟩ := h room n bus msg hmem hcontrol'
    exact ⟨spoken, c, hspoken, henters, hlater.trans hleads, hc⟩
  have hnew : ∀ c, m.Enters n → m'.engine.control? n = some c →
      c.sendBus = some bus ∧ c.receiveBus ≠ some bus ∧ c.store.message = msg →
      Spoke fresh m' n bus msg := by
    intro c henters hc hguard
    exact ⟨m, c, hm, henters, hnext ▸ Leads.refl m', hnext ▸ hc, hguard⟩
  obtain ⟨c, hc⟩ : ∃ c, m'.engine.control? n = some c := by
    simp only [Engine.binding?, Option.isSome_map] at hcontrol
    exact Option.isSome_iff_exists.mp hcontrol
  cases hstep with
  | uncalled => cases htask
  | undelivered => cases htask
  | called hlive hconfigure =>
    rename_i e rate k rest live handled
    subst hconfigure
    dsimp only at htask
    split at htask
    · rcases List.mem_append.mp htask with htask | htask
      · exact hold (List.mem_cons_of_mem _ htask)
      · obtain ⟨em, hem, heq⟩ := List.mem_map.mp htask
        obtain ⟨rfl, rfl, rfl⟩ := Task.apply.inj heq
        refine hnew c (Or.inl ⟨rate, rest, rfl⟩) hc ?_
        rw [Engine.control?_setState hlive, if_pos rfl] at hc
        exact StandardState.publishes_configure hc hem
    · cases htask
  | handled hlive hmessage =>
    rename_i e room' origin k inlet given rest live handled
    subst hmessage
    dsimp only at htask
    split at htask
    · rcases List.mem_append.mp htask with htask | htask
      · obtain ⟨em, hem, heq⟩ := List.mem_map.mp htask
        obtain ⟨rfl, rfl, rfl⟩ := Task.apply.inj heq
        refine hnew c (Or.inr ⟨room', origin, inlet, given, rest, rfl⟩) hc ?_
        rw [Engine.control?_setState hlive, if_pos rfl] at hc
        exact StandardState.publishes_message hc hem
      · exact hold (List.mem_cons_of_mem _ htask)
    · cases htask
  | cut => exact hold (List.mem_cons_of_mem _ htask)
  | sent =>
    rcases List.mem_append.mp htask with htask | htask
    · simp at htask
    · exact hold (List.mem_cons_of_mem _ htask)
  | published =>
    rcases List.mem_append.mp htask with htask | htask
    · simp [Engine.fanOut] at htask
    · exact hold (List.mem_cons_of_mem _ htask)
  | subscribed => exact hold (List.mem_cons_of_mem _ htask)
  | unsubscribed => exact hold (List.mem_cons_of_mem _ htask)

theorem OfRun.guarded {fresh : Engine (standard R)} {m : Moment (standard R)}
    (hm : OfRun fresh m) : Guarded fresh m := by
  induction hm with
  | start =>
    intro room n bus msg htask
    cases htask
  | @call m call hm hidle _ =>
    intro room n bus msg htask
    have hcall := begins_call m call
    generalize m.call call = m' at hcall htask ⊢
    cases hcall with
    | refused => simp [hidle] at htask
    | configured => simp at htask
    | sent => simp at htask
    | published => simp [Engine.fanOut] at htask
    | silent => cases htask
  | step hm hstep ih => exact ih.step hm hstep

end Moment

namespace Engine

/-! ## Whom a publication reaches -/

/-- A message from a bus is handed to nobody who was not subscribed when it was published: it goes
to the subscribers of that moment, in their order. So a control that is bound elsewhere by then
gets nothing of it. The moments of a call lead to where the engine answers it. -/
theorem delivers_to_subscribers_of_then [LawfulSample R] {edits : List (Edit (standard R))}
    (hedits : ∀ edit ∈ edits, edit.fromCatalog = true) :
    ∃ s fresh, (Schedule.compile (Patch.built edits)).ending = .done s ∧
      (link s (Patch.built edits) .empty).ending = .done fresh ∧
      (∀ m : Moment (standard R), m.work = [] →
        ∀ call, (m.call call).Leads (m.answered call)) ∧
      ∀ m, Moment.OfRun fresh m → ∀ room bus publisher sub msg post,
        m.work = .deliver room (.bus bus publisher) sub.node sub.inlet msg :: post →
        ∃ start rest before after,
          Moment.FanOut fresh start room bus publisher msg rest ∧ start.Leads m ∧
          start.engine.buses.subscribers bus = before ++ sub :: after ∧
          (after.map fun t => .deliver room (.bus bus publisher) t.node t.inlet msg) <+: post ∧
          ∀ c, start.engine.control? sub.node = some c → c.receiveBus = some bus := by
  obtain ⟨s, fresh, hs, hfresh⟩ := link_built hedits
  have htuned := tuned_built hedits hfresh
  refine ⟨s, fresh, hs, hfresh, fun m hidle call => Moment.leads_answered hidle call, ?_⟩
  intro m hm room bus publisher sub msg post hwork
  obtain ⟨start, rest, before, after, hfan, hleads, hsubs, hafter⟩ :=
    hm.owing room bus publisher sub msg post (hwork ▸ List.suffix_refl _)
  refine ⟨start, rest, before, after, hfan, hleads, hsubs, hafter, fun c hc => ?_⟩
  have hsub : (⟨sub.node, sub.inlet⟩ : Subscriber) ∈ start.engine.buses.subscribers bus := by
    rw [hsubs]
    simp
  exact (((hfan.tuned htuned).control_mem hc).mp hsub).2

/-- A list box hears a bus, and so does a router before it, which answers by unbinding the box. -/
def unbindingEdits : List (Edit (standard Float)) :=
  [.add "receive" [.symbol "A"], .add "route" [.symbol "x"],
    .add "listbox" [.float 0, .float 0, .symbol "A"], .connect 0 0 1 (.regular 0),
    .connect 1 0 2 (.regular 0)]

theorem unbound_on_the_way :
    let msg : Message Float := [.symbol "x", .symbol "receive", .symbol "empty"]
    (∀ edit ∈ unbindingEdits, edit.fromCatalog = true) ∧
      ∃ s fresh m, (Schedule.compile (Patch.built unbindingEdits)).ending = .done s ∧
        (link s (Patch.built unbindingEdits) .empty).ending = .done fresh ∧ Moment.OfRun fresh m ∧
        m.work = [.deliver 257 (.bus "A" none) 2 (.regular 0) msg] ∧
        ⟨2, .regular 0⟩ ∉ m.engine.buses.subscribers "A" := by
  intro msg
  have hedits : ∀ edit ∈ unbindingEdits, edit.fromCatalog = true := by
    simp [unbindingEdits, Edit.fromCatalog]
  obtain ⟨s, fresh, hs, hfresh⟩ := link_built hedits
  let configured := (⟨[], fresh, []⟩ : Moment (standard Float)).answered (.configure ⟨44100, 64, 1⟩)
  let m := Moment.next^[6] (configured.call (.publish "A" msg))
  have hm : Moment.OfRun fresh m := ((Moment.OfRun.start.answered rfl _).call _ rfl).leads ⟨6, rfl⟩
  refine ⟨hedits, s, fresh, m, hs, hfresh, hm, ?_⟩
  obtain rfl := Ending.done.inj (hs.symm.trans (rfl : _ = Ending.done _))
  obtain rfl := Ending.done.inj (hfresh.symm.trans (rfl : _ = Ending.done _))
  exact ⟨by decide +kernel, by decide +kernel⟩

/-- The subscriber need not be one any more when its turn comes. -/
theorem delivers_also_to_unsubscribed :
    ∃ s fresh, (Schedule.compile (Patch.built unbindingEdits)).ending = .done s ∧
      (link s (Patch.built unbindingEdits) .empty).ending = .done fresh ∧
      ¬ ∀ m, Moment.OfRun fresh m → ∀ room bus publisher sub msg post,
        m.work = .deliver (room + 1) (.bus bus publisher) sub.node sub.inlet msg :: post →
          sub ∈ m.engine.buses.subscribers bus := by
  obtain ⟨_, s, fresh, m, hs, hfresh, hm, hwork, hnot⟩ := unbound_on_the_way
  exact ⟨s, fresh, hs, hfresh, fun h => hnot (h m hm 256 "A" none ⟨2, .regular 0⟩ _ _ hwork)⟩

theorem delivers_to_subscribers_of_then_unbound :
    let msg : Message Float := [.symbol "x", .symbol "receive", .symbol "empty"]
    (∀ edit ∈ unbindingEdits, edit.fromCatalog = true) ∧
      ∃ s fresh m, (Schedule.compile (Patch.built unbindingEdits)).ending = .done s ∧
        (link s (Patch.built unbindingEdits) .empty).ending = .done fresh ∧ Moment.OfRun fresh m ∧
        m.work = [.deliver 257 (.bus "A" none) 2 (.regular 0) msg] ∧
        ∃ start rest before after, Moment.FanOut fresh start 257 "A" none msg rest ∧
          start.Leads m ∧
          start.engine.buses.subscribers "A" = before ++ ⟨2, .regular 0⟩ :: after := by
  intro msg
  obtain ⟨hedits, s, fresh, m, hs, hfresh, hm, hwork, _⟩ := unbound_on_the_way
  obtain ⟨s', fresh', hs', hfresh', _, hthen⟩ := delivers_to_subscribers_of_then hedits
  cases hs'.symm.trans hs
  cases hfresh'.symm.trans hfresh
  obtain ⟨start, rest, before, after, hfan, hleads, hsubs, _⟩ :=
    hthen m hm 257 "A" none ⟨2, .regular 0⟩ msg [] hwork
  exact ⟨hedits, s, fresh, m, hs, hfresh, hm, hwork, start, rest, before, after, hfan, hleads,
    hsubs⟩

/-! ## Controls that hear themselves -/

/-- A control publishes on no bus that it listens on. It is among those that its publication reaches
only if it is bound to that bus when the publication is applied, and then it was bound to it after
it spoke. So no control hears itself but one that a `receive` message reached in between. The
moments of a call lead to where the engine answers it. -/
theorem hears_itself_only_if_rebound [LawfulSample R] {edits : List (Edit (standard R))}
    (hedits : ∀ edit ∈ edits, edit.fromCatalog = true) :
    ∃ s fresh, (Schedule.compile (Patch.built edits)).ending = .done s ∧
      (link s (Patch.built edits) .empty).ending = .done fresh ∧
      (∀ m : Moment (standard R), m.work = [] →
        ∀ call, (m.call call).Leads (m.answered call)) ∧
      (∀ m, Moment.OfRun fresh m → ∀ room n bus msg rest c,
        m.work = .apply room n (.publish bus msg) :: rest → m.engine.control? n = some c →
          (⟨n, .regular 0⟩ ∈ m.engine.buses.subscribers bus ↔ c.receiveBus = some bus)) ∧
      ∀ m, Moment.OfRun fresh m → ∀ room bus n inlet msg post,
        m.work = .deliver room (.bus bus (some n)) n inlet msg :: post →
        (m.engine.control? n).isSome = true →
          ∃ spoken rebound published c rest,
            Moment.OfRun fresh spoken ∧ spoken.Enters n ∧
            spoken.next.engine.control? n = some c ∧
            (c.sendBus = some bus ∧ c.receiveBus ≠ some bus ∧ c.store.message = msg) ∧
            spoken.next.Leads rebound ∧ rebound.Rebinds n (some bus) ∧
            rebound.next.Leads published ∧
            published.work = .apply room n (.publish bus msg) :: rest ∧
            published.next.Leads m := by
  obtain ⟨s, fresh, hs, hfresh⟩ := link_built hedits
  have htuned := tuned_built hedits hfresh
  refine ⟨s, fresh, hs, hfresh, fun m hidle call => Moment.leads_answered hidle call, ?_, ?_⟩
  · intro m hm room n bus msg rest c hwork hc
    have he := (hm.inTune htuned).tuned (by simp [hwork, Task.rebinds, Emission.rebinds])
    rw [he.control_mem hc]
    simp
  · intro m hm room bus n inlet msg post hwork hcontrol
    obtain ⟨start, rest, before, after, hfan, hleads, hsubs, _⟩ :=
      hm.owing room bus (some n) ⟨n, inlet⟩ msg post (hwork ▸ List.suffix_refl _)
    have he := hfan.tuned htuned
    cases hfan with
    | @emitted published _ _ _ _ _ hpublished hwork' =>
      have hlater : published.Leads m := (Moment.Leads.next published).trans hleads
      rw [Moment.next_published hwork'] at he hsubs
      -- the publication reached the control, so it was bound to the bus by then
      have hsome : (m.engine.binding? n).isSome = true := by
        simpa [binding?] using hcontrol
      obtain ⟨own, hown⟩ : ∃ own, published.engine.control? n = some own := by
        have hthen := hlater.isSome_binding hsome
        simp only [binding?, Option.isSome_map] at hthen
        exact Option.isSome_iff_exists.mp hthen
      have hmem : (⟨n, inlet⟩ : Subscriber) ∈ published.engine.buses.subscribers bus := by
        simp [hsubs]
      have hbound : published.engine.binding? n = some (some bus) := by
        simp [binding?, hown, ((he.control_mem hown).mp hmem).2]
      -- but it was not when it spoke
      obtain ⟨spoken, c, hspoken, henters, hthen, hc, hguard⟩ :=
        hpublished.guarded room n bus msg (by simp [hwork']) (by simp [hbound])
      have helse : spoken.next.engine.binding? n = some c.receiveBus := by simp [binding?, hc]
      rcases hthen.binding n with hsame | ⟨rebound, new, hafter, hrebinds, hbefore, _, hnew⟩
      · rw [hbound, helse] at hsame
        exact absurd (Option.some.inj hsame).symm hguard.2.1
      · obtain rfl := Option.some.inj (hbound.symm.trans hnew)
        exact ⟨spoken, rebound, published, c, rest, hspoken, henters, hc, hguard, hafter, hrebinds,
          hbefore, hwork', hleads⟩

/-- A list box whose router answers by binding it to the bus it is about to publish on. -/
theorem hears_itself_only_if_rebound_by_router :
    let edits : List (Edit (standard Float)) :=
      [.add "listbox" [.float 0, .float 0, .symbol "empty", .symbol "S"],
        .add "route" [.symbol "x"], .connect 0 0 1 (.regular 0), .connect 1 0 0 (.regular 0)]
    let msg : Message Float := [.symbol "x", .symbol "receive", .symbol "S"]
    (∀ edit ∈ edits, edit.fromCatalog = true) ∧
      ∃ s fresh m, (Schedule.compile (Patch.built edits)).ending = .done s ∧
        (link s (Patch.built edits) .empty).ending = .done fresh ∧ Moment.OfRun fresh m ∧
        m.work = [.deliver 256 (.bus "S" (some 0)) 0 (.regular 0) msg] ∧
        ∃ spoken rebound published : Moment (standard Float), spoken.Enters 0 ∧
          spoken.next.Leads rebound ∧ rebound.Rebinds 0 (some "S") ∧
          rebound.next.Leads published ∧ published.next.Leads m := by
  intro edits msg
  have hedits : ∀ edit ∈ edits, edit.fromCatalog = true := by simp [edits, Edit.fromCatalog]
  obtain ⟨s, fresh, hs, hfresh, _, _, hears⟩ := hears_itself_only_if_rebound hedits
  let configured := (⟨[], fresh, []⟩ : Moment (standard Float)).answered (.configure ⟨44100, 64, 1⟩)
  let m := Moment.next^[7] (configured.call (.send 0 (.regular 0) msg))
  have hm : Moment.OfRun fresh m := ((Moment.OfRun.start.answered rfl _).call _ rfl).leads ⟨7, rfl⟩
  have hat : m.work = [.deliver 256 (.bus "S" (some 0)) 0 (.regular 0) msg] ∧
      (m.engine.control? 0).isSome = true := by
    obtain rfl := Ending.done.inj (hs.symm.trans (rfl : _ = Ending.done _))
    obtain rfl := Ending.done.inj (hfresh.symm.trans (rfl : _ = Ending.done _))
    exact ⟨by decide +kernel, by decide +kernel⟩
  obtain ⟨spoken, rebound, published, c, rest, _, henters, _, _, hafter, hrebinds, hbefore, _,
    hleads⟩ := hears m hm 256 "S" 0 (.regular 0) msg [] hat.1 hat.2
  exact ⟨hedits, s, fresh, m, hs, hfresh, hm, hat.1, spoken, rebound, published, henters, hafter,
    hrebinds, hbefore, hleads⟩

end Engine

end Patchbay
