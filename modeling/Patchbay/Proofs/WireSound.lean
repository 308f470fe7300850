import Patchbay.Proofs.RoutingSound
import Patchbay.Proofs.Spans

/-!
# Nothing is lost on a wire

What a node sends on an outlet is handed over along each cable from there, once, whatever the
cascades in between do. At any moment the messages handed over so far and those that still wait in
the work make up what was sent. They come in order unless the node is at it again before its own
emissions are through.
-/

namespace Patchbay

variable {R : Type} {F : Family R}

/-! ## What the trace tells -/

namespace Event

def sentOn? (o : Outlet) : Event R → Option (Message R)
  | .sent n outlet msg => if ⟨n, outlet⟩ = o then some msg else none
  | _ => none

end Event

def Origin.cable? (origin : Origin) (n : NodeId) (inlet : PortId) : Option Cable :=
  match origin with
  | .wire k outlet => some (Target.cable k outlet ⟨n, inlet⟩)
  | .outside | .bus .. => none

/-- The message, if it is handed over along the cable, be it handled or cut off. -/
def Event.handedOver? (c : Cable) : Event R → Option (Message R)
  | .delivered origin n inlet msg | .cut origin n inlet msg =>
    if origin.cable? n inlet = some c then some msg else none
  | _ => none

def Task.owed? (c : Cable) : Task R → Option (Message R)
  | .deliver _ origin n inlet msg => if origin.cable? n inlet = some c then some msg else none
  | .callback .. | .apply .. => none

def sentOn (o : Outlet) (events : List (Event R)) : List (Message R) :=
  events.filterMap (Event.sentOn? o)

def handedOver (c : Cable) (events : List (Event R)) : List (Message R) :=
  events.filterMap (Event.handedOver? c)

def owed (c : Cable) (work : List (Task R)) : List (Message R) := work.filterMap (Task.owed? c)

def Cable.source (c : Cable) : Outlet := ⟨c.fromNode, c.outlet⟩

theorem filterMap_cons {α β : Type} (f : α → Option β) (a : α) (as : List α) :
    (a :: as).filterMap f = (f a).toList ++ as.filterMap f := by
  cases h : f a <;> simp [h]

section
variable (o : Outlet) (c : Cable)

@[simp] theorem sentOn_nil : sentOn o ([] : List (Event R)) = [] := rfl

@[simp] theorem handedOver_nil : handedOver c ([] : List (Event R)) = [] := rfl

@[simp] theorem owed_nil : owed c ([] : List (Task R)) = [] := rfl

@[simp] theorem sentOn_cons (event : Event R) (events : List (Event R)) :
    sentOn o (event :: events) = (event.sentOn? o).toList ++ sentOn o events :=
  filterMap_cons ..

@[simp] theorem handedOver_cons (event : Event R) (events : List (Event R)) :
    handedOver c (event :: events) = (event.handedOver? c).toList ++ handedOver c events :=
  filterMap_cons ..

@[simp] theorem owed_cons (task : Task R) (work : List (Task R)) :
    owed c (task :: work) = (task.owed? c).toList ++ owed c work :=
  filterMap_cons ..

@[simp] theorem sentOn_append (events events' : List (Event R)) :
    sentOn o (events ++ events') = sentOn o events ++ sentOn o events' :=
  List.filterMap_append

@[simp] theorem handedOver_append (events events' : List (Event R)) :
    handedOver c (events ++ events') = handedOver c events ++ handedOver c events' :=
  List.filterMap_append

@[simp] theorem owed_append (work work' : List (Task R)) :
    owed c (work ++ work') = owed c work ++ owed c work' :=
  List.filterMap_append

@[simp] theorem sentOn_notices (notices : List (Notice R)) :
    sentOn o (notices.map .notice) = [] := by
  simp [sentOn, List.filterMap_map, Function.comp_def, Event.sentOn?]

@[simp] theorem handedOver_notices (notices : List (Notice R)) :
    handedOver c (notices.map .notice) = [] := by
  simp [handedOver, List.filterMap_map, Function.comp_def, Event.handedOver?]

@[simp] theorem owed_callbacks (rate : R) (nodes : List NodeId) :
    owed c (nodes.map (.callback rate)) = [] := by
  simp [owed, List.filterMap_map, Function.comp_def, Task.owed?]

@[simp] theorem owed_applies (room : Nat) (n : NodeId) (emissions : List (Emission R)) :
    owed c (emissions.map (.apply room n)) = [] := by
  simp [owed, List.filterMap_map, Function.comp_def, Task.owed?]

@[simp] theorem owed_fanOut (e : Engine F) (room : Nat) (bus : String)
    (publisher : Option NodeId) (msg : Message R) :
    owed c (e.fanOut room bus publisher msg) = [] := by
  simp [owed, Engine.fanOut, List.filterMap_map, Function.comp_def, Task.owed?, Origin.cable?]

end

/-! ## Targets -/

theorem owed_targets (c : Cable) (n outlet room : Nat) (msg : Message R) : ∀ ts : List Target,
    owed c (ts.map fun t => .deliver room (.wire n outlet) t.node t.inlet msg) =
      List.replicate ((ts.map (Target.cable n outlet)).count c) msg
  | [] => rfl
  | t :: ts => by
    rw [List.map_cons, owed_cons, owed_targets c n outlet room msg ts]
    by_cases ht : Target.cable n outlet t = c
    · simp [Task.owed?, Origin.cable?, ht, List.replicate_succ]
    · simp [Task.owed?, Origin.cable?, ht]

namespace Schedule

def HasOnce (s : Schedule) (c : Cable) : Prop :=
  ∀ n outlet, ((s.targets n outlet).map (Target.cable n outlet)).count c =
    if ⟨n, outlet⟩ = c.source then 1 else 0

theorem Carries.hasOnce {s : Schedule} {p : Patch F} (hs : s.Carries p) (hp : p.Sound) {c : Cable}
    (hc : c ∈ p.cables) (hkind : c.isSignal = false) : s.HasOnce c := by
  intro n outlet
  rw [hs.targets]
  by_cases hsource : (⟨n, outlet⟩ : Outlet) = c.source
  · obtain ⟨rfl, rfl⟩ := Outlet.mk.inj hsource
    rw [if_pos hsource, List.count_filter (by simp [hkind]), List.count_eq_one_of_mem hp.once hc]
  · rw [if_neg hsource, List.count_eq_zero]
    intro hmem
    obtain ⟨⟨_, hn⟩, houtlet⟩ : (c.isSignal = false ∧ c.fromNode = n) ∧ c.outlet = outlet := by
      simpa using (List.mem_filter.mp hmem).2
    exact hsource (by rw [Cable.source, hn, houtlet])

end Schedule

namespace Moment

variable [Sample R]

/-! ## The account of a cable -/

/-- A step leaves the account of a cable as it is, or it sends on the outlet that the cable is from:
then the message is sent, and it is the first that waits to be handed over. -/
theorem Step.account {c : Cable} {m m' : Moment F} (hstep : Step m m') (hfine : m.Faultless)
    (hone : m.engine.schedule.HasOnce c) :
    (sentOn c.source m'.trace = sentOn c.source m.trace ∧
      handedOver c m'.trace ++ owed c m'.work = handedOver c m.trace ++ owed c m.work) ∨
    ∃ room msg rest, m.work = .apply room c.fromNode (.send c.outlet msg) :: rest ∧
      sentOn c.source m'.trace = sentOn c.source m.trace ++ [msg] ∧
      handedOver c m'.trace = handedOver c m.trace ∧ owed c m.work = owed c rest ∧
      owed c m'.work = msg :: owed c rest := by
  cases hstep with
  | uncalled hnone =>
    obtain ⟨live, hlive, _⟩ := hfine.callback rfl
    cases hnone.symm.trans hlive
  | undelivered hnone =>
    obtain ⟨live, hlive⟩ := hfine.exists_live rfl
    cases hnone.symm.trans hlive
  | called hlive hconfigure =>
    subst hconfigure
    obtain ⟨live', hlive', hnone⟩ := hfine.callback rfl
    cases hlive.symm.trans hlive'
    exact Or.inl (by simp [hnone, Event.sentOn?, Event.handedOver?, Task.owed?])
  | handled hlive hmessage =>
    subst hmessage
    have hnone := hfine.handler rfl hlive
    exact Or.inl (by simp [hnone, Event.sentOn?, Event.handedOver?, Task.owed?])
  | cut => exact Or.inl (by simp [Event.sentOn?, Event.handedOver?, Task.owed?])
  | @sent trace e room n outlet msg rest =>
    have hown : owed c ((e.schedule.targets n outlet).map fun t =>
        .deliver room (.wire n outlet) t.node t.inlet msg) =
          List.replicate (if ⟨n, outlet⟩ = c.source then 1 else 0) msg := by
      rw [owed_targets, hone]
    by_cases hsource : (⟨n, outlet⟩ : Outlet) = c.source
    · obtain ⟨rfl, rfl⟩ := Outlet.mk.inj hsource
      refine Or.inr ⟨room, msg, rest, rfl, ?_⟩
      simp [hown, hsource, Event.sentOn?, Event.handedOver?, Task.owed?]
    · exact Or.inl (by simp [hown, hsource, Event.sentOn?, Event.handedOver?, Task.owed?])
  | published => exact Or.inl (by simp [Task.owed?])
  | subscribed | unsubscribed => exact Or.inl (by simp [Task.owed?])

/-! ## Re-entry -/

/-- On the way the node is at it again while something that it emitted is being applied. -/
def Reenters (start : Moment F) (n : NodeId) : Prop :=
  ∃ a room emission rest x, start.Leads a ∧ a.work = .apply room n emission :: rest ∧
    During a rest x ∧ x.Enters n

def Clear (n : NodeId) (work : List (Task R)) : Prop :=
  ∀ room emission back, .apply room n emission :: back <:+ work → ∀ t ∈ back, ∀ r outlet k i msg,
    t ≠ .deliver r (.wire n outlet) k i msg

omit [Sample R] in
theorem Clear.of_roots {n : NodeId} {work : List (Task R)} (h : ∀ t ∈ work, t.Root) :
    Clear n work := by
  intro room emission back hsuffix t ht r outlet k i msg
  have hroot := h t (hsuffix.subset (List.mem_cons_of_mem _ ht))
  rintro rfl
  cases hroot

/-- A node that is at it while a message of its own waits is re-entered: what waits is part of what
an emission of the node sets off. -/
theorem Rooted.reenters {start m : Moment F} (h : Rooted start m) {n outlet k : Nat} {room r : Nat}
    {origin : Origin} {inlet i : PortId} {msg msg' : Message R} {rest : List (Task R)}
    (hwork : m.work = .deliver (room + 1) origin n inlet msg :: rest)
    (hwaits : .deliver r (.wire n outlet) k i msg' ∈ rest) : Reenters start n := by
  obtain ⟨before, back, rfl⟩ := List.append_of_mem hwaits
  have hsuffix : .deliver r (.wire n outlet) k i msg' :: back <:+ m.work := by
    rw [hwork]
    exact (List.suffix_append before _).trans (List.suffix_cons _ _)
  rcases h _ back hsuffix with hroot | ⟨a, parent, above, ha, happly, hbegets, hduring, _⟩
  · cases hroot
  · cases hbegets
    exact ⟨a, _, _, above, m, ha, happly, hduring, Or.inr ⟨room, origin, inlet, msg, _, hwork⟩⟩

theorem Clear.next {start m : Moment F} {n : NodeId} (h : Clear n m.work) (hrooted : Rooted start m)
    (hphased : Phased m.work) (hnot : ¬ Reenters start n) : Clear n m.next.work := by
  cases hwork : m.work with
  | nil => rwa [next_of_idle hwork]
  | cons first rest =>
    rcases next_work hwork with hnone | hleaves
    · exact .of_roots (by simp [hnone])
    intro room emission back hsuffix t ht r outlet k i msg
    generalize m.next.work = work at hleaves hsuffix
    cases hleaves with
    | @above _ new _ hbegets =>
      rcases cons_suffix_append hsuffix with hold | ⟨before, after, hnew, rfl⟩
      · exact h room emission back (hwork ▸ hold.trans (List.suffix_cons _ _)) t ht r outlet k i msg
      · -- the node was at it just now, so none of its messages waits
        have hhandled := hbegets (.apply room n emission) (by simp [hnew])
        generalize hparent : first = parent at hhandled
        cases hhandled
        subst hparent
        rcases List.mem_append.mp ht with ht | ht
        · have hemitted := hbegets t (by simp [hnew, ht])
          cases hemitted
          exact fun h => by cases h
        · rintro rfl
          exact hnot (hrooted.reenters hwork ht)
    | @behind rate k' emissions =>
      rcases (hwork ▸ hphased).cons with hcalm | ⟨rate, k', nodes, emitted, _, rfl⟩
      · cases hcalm _ (List.mem_cons_self ..)
      · have hback := hsuffix.subset (List.mem_cons_of_mem _ ht)
        rintro rfl
        simp [queued] at hback

omit [Sample R] in
theorem Clear.owed_nil {c : Cable} {work : List (Task R)} (h : Clear c.fromNode work) {room : Nat}
    {emission : Emission R} {rest : List (Task R)}
    (hsuffix : .apply room c.fromNode emission :: rest <:+ work) : owed c rest = [] := by
  refine List.filterMap_eq_nil_iff.mpr fun t ht => ?_
  cases t with
  | callback | apply => rfl
  | deliver r origin k i msg =>
    cases origin with
    | outside | bus => rfl
    | wire n outlet =>
      have hother := h room emission rest hsuffix _ ht r outlet k i msg
      have hne : Target.cable n outlet ⟨k, i⟩ ≠ c := by
        rintro rfl
        exact hother rfl
      simp [Task.owed?, Origin.cable?, hne]

/-! ## From the start of a call to its end -/

end Moment

def Engine.opening [Sample R] (e : Engine F) (call : Call R) : Moment F :=
  Moment.call ⟨[], e, []⟩ call

namespace Engine

variable [Sample R]

theorem tickAll_events (rate : R) (e : Engine F) : (tickAll rate e).events = [] := by
  have hone : ∀ n (e : Engine F), (tickNode rate n e).events = [] := by
    intro n e
    unfold tickNode
    repeat' split
    all_goals rfl
  unfold tickAll
  generalize e.schedule.order = ns
  induction ns generalizing e with
  | nil => rfl
  | cons n ns ih =>
    simp only [Progress.each, Progress.andThen]
    split
    · exact hone n e
    · simp [hone, ih]

omit [Sample R] in
theorem unlessRefused_events {e : Engine F} {α : Type} (x : Except (EngineError R) α)
    {outcome : α → Outcome R (Engine F) (EngineError R) (Reply R)}
    (h : ∀ a, x = .ok a → (outcome a).events = []) : (e.unlessRefused x outcome).events = [] := by
  cases x with
  | error err => rfl
  | ok a => exact h a rfl

theorem events_of_silent (e : Engine F) {call : Call R} (h : call.isSilent = true) :
    (e.perform call).events = [] := by
  cases call with
  | configure | send | publish => cases h
  | tick =>
    refine unlessRefused_events _ fun p hp => ?_
    unfold tick at hp
    split at hp
    · cases hp
    · cases hp
      exact tickAll_events _ e
  | block node outlet n => exact unlessRefused_events _ fun _ _ => rfl
  | render node outlet frames => exact unlessRefused_events _ fun _ _ => rfl
  | listen | take => rfl

theorem opening_account (e : Engine F) (call : Call R) (o : Outlet) (c : Cable) :
    sentOn o (e.opening call).trace = [] ∧ handedOver c (e.opening call).trace = [] ∧
      owed c (e.opening call).work = [] := by
  have hcall : Moment.Begins ⟨[], e, []⟩ call (e.opening call) := Moment.begins_call _ call
  generalize e.opening call = m at hcall ⊢
  cases hcall with
  | refused => simp
  | configured => simp [Event.sentOn?, Event.handedOver?]
  | sent => simp [Task.owed?, Origin.cable?]
  | published => simp
  | silent hsilent => simp [events_of_silent e hsilent]

theorem opening_leads (e : Engine F) (call : Call R) : (e.opening call).Leads
    ⟨(e.perform call).events, (e.perform call).state, []⟩ :=
  Moment.leads_answered rfl call

section
variable {e : Engine F} {call : Call R} (hfine : (e.opening call).Smooth) {c : Cable}
  (hone : ∀ x, (e.opening call).Leads x → x.engine.schedule.HasOnce c)
include hfine hone

theorem account_perm {x : Moment F} (hx : (e.opening call).Leads x) :
    (handedOver c x.trace ++ owed c x.work).Perm (sentOn c.source x.trace) := by
  obtain ⟨hsent, hhanded, howed⟩ := e.opening_account call c.source c
  refine hx.keeps (P := fun x => (handedOver c x.trace ++ owed c x.work).Perm
    (sentOn c.source x.trace)) (by simp [hsent, hhanded, howed]) fun {x x'} hleads hstep h => ?_
  rcases hstep.account (hfine x hleads) (hone x hleads) with
    ⟨hsame, haccount⟩ | ⟨room, msg, rest, hwork, hmore, hhanded, howed, hfirst⟩
  · rwa [hsame, haccount]
  · rw [hmore, hhanded, hfirst]
    rw [howed] at h
    exact List.perm_middle.trans ((h.cons msg).trans (List.perm_append_singleton msg _).symm)

omit hfine hone in
theorem clear_of_not_reenters {n : NodeId} (hnot : ¬ (e.opening call).Reenters n) {x : Moment F}
    (hx : (e.opening call).Leads x) : Moment.Clear n x.work := by
  have hroots := (Moment.begins_call ⟨[], e, []⟩ call).roots rfl
  have hstart : Moment.OfRun e ⟨[], e, []⟩ := .start
  have hrun := hstart.call call rfl
  exact hx.keeps (P := fun x => Moment.Clear n x.work) (.of_roots hroots) fun hleads hstep h =>
    hstep.eq_next ▸ h.next (Moment.rooted .start rfl hleads) (hrun.leads hleads).phased hnot

theorem account_eq (hnot : ¬ (e.opening call).Reenters c.fromNode) {x : Moment F}
    (hx : (e.opening call).Leads x) :
    handedOver c x.trace ++ owed c x.work = sentOn c.source x.trace := by
  obtain ⟨hsent, hhanded, howed⟩ := e.opening_account call c.source c
  refine hx.keeps (P := fun x => handedOver c x.trace ++ owed c x.work = sentOn c.source x.trace)
    (by simp [hsent, hhanded, howed]) fun {x x'} hleads hstep h => ?_
  rcases hstep.account (hfine x hleads) (hone x hleads) with
    ⟨hsame, haccount⟩ | ⟨room, msg, rest, hwork, hmore, hhanded, howed, hfirst⟩
  · rwa [hsame, haccount]
  · have hself : .apply room c.fromNode (.send c.outlet msg) :: rest <:+ x.work :=
      hwork ▸ List.suffix_refl _
    have hnone : owed c rest = [] := (clear_of_not_reenters hnot hleads).owed_nil hself
    rw [hmore, hhanded, hfirst, hnone, ← h, howed, hnone, List.append_nil]

end

/-! ## What a listener hears -/

section

omit [Sample R]

theorem capture_captured (e : Engine F) (n : NodeId) (outlet : Nat) (msg : Message R) (o : Outlet) :
    (e.capture n outlet msg).captured[o]? =
      (e.captured[o]?).map (· ++ if ⟨n, outlet⟩ = o then [msg] else []) := by
  unfold capture
  dsimp only
  split
  · rename_i msgs hmsgs
    rw [Std.TreeMap.getElem?_insert]
    by_cases ho : (⟨n, outlet⟩ : Outlet) = o
    · subst ho
      simp [hmsgs]
    · simp [ho]
  · rename_i hnone
    by_cases ho : (⟨n, outlet⟩ : Outlet) = o
    · subst ho
      simp [hnone]
    · simp [ho]

theorem take_captured (e : Engine F) (n : NodeId) (outlet : Nat) (o : Outlet) :
    (e.take n outlet).2.captured[o]? =
      if ⟨n, outlet⟩ = o then (e.captured[o]?).map fun _ => [] else e.captured[o]? := by
  unfold take
  dsimp only
  split
  · rename_i msgs hmsgs
    rw [Std.TreeMap.getElem?_insert]
    by_cases ho : (⟨n, outlet⟩ : Outlet) = o
    · subst ho
      simp [hmsgs]
    · simp [ho]
  · rename_i hnone
    by_cases ho : (⟨n, outlet⟩ : Outlet) = o
    · subst ho
      simp [hnone]
    · simp [ho]

theorem listen_captured (e : Engine F) (n : NodeId) (outlet : Nat) (o : Outlet) :
    (e.listen n outlet).captured[o]? =
      if ⟨n, outlet⟩ = o then some ((e.captured[o]?).getD []) else e.captured[o]? := by
  unfold listen
  dsimp only
  rw [Std.TreeMap.getElem?_insert, Std.TreeMap.getD_eq_getD_getElem?]
  by_cases ho : (⟨n, outlet⟩ : Outlet) = o
  · subst ho
    simp
  · simp [ho]

end

theorem captured_sent {e : Engine F} {call : Call R} (hcall : call.isSilent = false) (o : Outlet)
    {x : Moment F} (hx : (e.opening call).Leads x) :
    x.engine.captured[o]? = (e.captured[o]?).map (· ++ sentOn o x.trace) := by
  refine hx.keeps (P := fun x => x.engine.captured[o]? =
    (e.captured[o]?).map (· ++ sentOn o x.trace)) ?_ fun {x x'} _ hstep h => ?_
  · have hbegins : Moment.Begins ⟨[], e, []⟩ call (e.opening call) := Moment.begins_call _ call
    generalize e.opening call = m at hbegins ⊢
    cases hbegins with
    | refused | configured | sent | published => simp [Event.sentOn?]
    | silent hsilent => cases hsilent.symm.trans hcall
  · cases hstep with
    | sent =>
      dsimp only at h ⊢
      rw [capture_captured, h]
      cases e.captured[o]? with
      | none => rfl
      | some old =>
        simp only [Option.map_some, sentOn_append, sentOn_cons, sentOn_nil, Event.sentOn?,
          List.append_assoc, List.append_nil]
        split <;> rfl
    | called | handled => simpa [Event.sentOn?, setState] using h
    | cut => simpa [Event.sentOn?] using h
    | _ => exact h

end Engine

namespace Moment

variable [Sample R]

/-! ## Depth first -/

theorem Smooth.serves {x : Moment F} (hx : x.Smooth) {room n outlet : Nat} {msg : Message R}
    {rest : List (Task R)} (hwork : x.work = .apply room n (.send outlet msg) :: rest)
    {before after : List Target} {t : Target}
    (htargets : x.engine.schedule.targets n outlet = before ++ t :: after) :
    let left := (after.map fun t => .deliver room (.wire n outlet) t.node t.inlet msg) ++ rest
    ∃ y z, x.next.Leads y ∧ y.work = .deliver room (.wire n outlet) t.node t.inlet msg :: left ∧
      Ends y left z := by
  intro left
  have hnext : x.next.work = (before.map fun t =>
      .deliver room (.wire n outlet) t.node t.inlet msg) ++
        .deliver room (.wire n outlet) t.node t.inlet msg :: left := by
    simp [Moment.next, hwork, Task.run, htargets, left]
  have hlater : x.next.Smooth := hx.leads (Leads.next x)
  obtain ⟨y, hy, hturn⟩ := hlater.turn hnext (by simp [Task.isCallback])
  obtain ⟨z, hz⟩ := (hlater.leads hy).exists_ends hturn rfl
  exact ⟨y, z, hy, hturn, hz⟩

end Moment

namespace Engine

variable [Sample R]

/-- During a call, what a node sends on an outlet is handed over along each cable from there, no
message lost or doubled, and in order unless the node is re-entered while its own emissions are
applied. A listener at the outlet captures the same. The targets of each emission are served in the
order of connection, each with all that it sets off before the next. -/
theorem hands_over_what_was_sent [LawfulSample R] {edits : List (Edit (standard R))}
    (hedits : ∀ edit ∈ edits, edit.fromCatalog = true) :
    ∃ s fresh, (Schedule.compile (Patch.built edits)).ending = .done s ∧
      (link s (Patch.built edits) .empty).ending = .done fresh ∧
      (∀ calls call c, c ∈ (Patch.built edits).cables → c.isSignal = false →
        let e := fresh.after calls
        let events := (e.perform call).events
        (handedOver c events).Perm (sentOn c.source events) ∧
          (¬ (e.opening call).Reenters c.fromNode →
            handedOver c events = sentOn c.source events)) ∧
      (∀ calls call o, call.isSilent = false →
        let e := fresh.after calls
        (e.perform call).state.captured[o]? =
          (e.captured[o]?).map (· ++ sentOn o (e.perform call).events)) ∧
      (∀ n outlet, (s.targets n outlet).map (Target.cable n outlet) =
        (Patch.built edits).cables.filter fun c =>
          !c.isSignal && c.fromNode == n && c.outlet == outlet) ∧
      ∀ x, Moment.OfRun fresh x → ∀ room n outlet msg rest before t after,
        x.work = .apply room n (.send outlet msg) :: rest →
        s.targets n outlet = before ++ t :: after →
          let left := (after.map fun t =>
            .deliver room (.wire n outlet) t.node t.inlet msg) ++ rest
          ∃ y z, x.next.Leads y ∧
            y.work = .deliver room (.wire n outlet) t.node t.inlet msg :: left ∧
            Moment.Ends y left z := by
  obtain ⟨s, fresh, hs, hfresh⟩ := link_built hedits
  have hp := Patch.sound_built edits
  have hlinks := (Schedule.compile_done hp hs).1
  have hcarries := hlinks.carries hp (Patch.standard_built hedits).regularSignals
  have hopening : ∀ calls call, ((fresh.after calls).opening call).Ready StandardState.Sound s
      (Patch.built edits) := fun calls call =>
    Moment.Ready.begins StandardState.keeps_sound hlinks
      ⟨ready_after_built hedits hs hfresh calls, by simp⟩ (Moment.begins_call _ call)
  refine ⟨s, fresh, hs, hfresh, ?_, ?_, hcarries.targets, ?_⟩
  · intro calls call c hc hkind e events
    have hready := hopening calls call
    have hfine := hready.smooth StandardState.keeps_sound StandardState.quiet hlinks hp
    have hone : ∀ x, (e.opening call).Leads x → x.engine.schedule.HasOnce c := by
      intro x hx
      rw [(hready.leads StandardState.keeps_sound hlinks hp hx).engine.hosts.schedule]
      exact hcarries.hasOnce hp hc hkind
    have hend := e.opening_leads call
    refine ⟨?_, fun hnot => ?_⟩
    · simpa using account_perm hfine hone hend
    · simpa using account_eq hfine hone hnot hend
  · intro calls call o hcall e
    exact captured_sent hcall o (e.opening_leads call)
  · intro x hx room n outlet msg rest before t after hwork htargets
    have hschedule := (hx.ready_built hedits hs hfresh).engine.hosts.schedule
    exact (hx.smooth_built hedits hs hfresh).serves hwork (hschedule ▸ htargets)

/-- A list box with two others behind it, and a listener at it. -/
theorem hands_over_what_was_sent_fan :
    let edits : List (Edit (standard Float)) :=
      [.add "listbox" [], .add "listbox" [], .add "listbox" [], .connect 0 0 1 (.regular 0),
        .connect 0 0 2 (.regular 0), .connect 1 0 2 (.regular 0)]
    let calls : List (Call Float) := [.configure ⟨44100, 64, 1⟩, .listen 0 0]
    let call : Call Float := .send 0 (.regular 0) [.symbol "a"]
    let c : Cable := ⟨0, 0, 2, .regular 0, .message⟩
    (∀ edit ∈ edits, edit.fromCatalog = true) ∧
      ∃ s fresh, (Schedule.compile (Patch.built edits)).ending = .done s ∧
        (link s (Patch.built edits) .empty).ending = .done fresh ∧
        let e := fresh.after calls
        let events := (e.perform call).events
        sentOn c.source events = [[.symbol "a"]] ∧
        ¬ (e.opening call).Reenters 0 ∧ handedOver c events = [[.symbol "a"]] ∧
        (e.perform call).state.captured[c.source]? = some [[.symbol "a"]] := by
  intro edits calls call c
  have hedits : ∀ edit ∈ edits, edit.fromCatalog = true := by simp [edits, Edit.fromCatalog]
  obtain ⟨s, fresh, hs, hfresh, hwires, hlistens, _⟩ := hands_over_what_was_sent hedits
  let e := fresh.after calls
  have hfacts : sentOn c.source (e.perform call).events = [[.symbol "a"]] ∧
      e.captured[c.source]? = some [] ∧ (Moment.next^[7] (e.opening call).next).work = [] ∧
      ∀ j ≤ 7, ¬ (Moment.next^[j] (e.opening call).next).Enters 0 := by
    obtain rfl := Ending.done.inj (hs.symm.trans (rfl : _ = Ending.done _))
    obtain rfl := Ending.done.inj (hfresh.symm.trans (rfl : _ = Ending.done _))
    exact ⟨by decide +kernel, by decide +kernel, by decide +kernel, by decide +kernel⟩
  obtain ⟨hsent, hlistener, hidle, hlater⟩ := hfacts
  -- the box is handed a message at the first moment of the call, and never again
  have hnot : ¬ (e.opening call).Reenters 0 := by
    rintro ⟨a, room, emission, rest, x, ha, _, hduring, henters⟩
    obtain ⟨j, hj, rfl⟩ := (ha.next_next.trans hduring.leads).exists_le hidle
    exact hlater j hj henters
  have hc : c ∈ (Patch.built edits).cables := by decide +kernel
  refine ⟨hedits, s, fresh, hs, hfresh, hsent, hnot, ?_, ?_⟩
  · exact ((hwires calls call c hc rfl).2 hnot).trans hsent
  · have hcaptured : (e.perform call).state.captured[c.source]? =
        (e.captured[c.source]?).map (· ++ sentOn c.source (e.perform call).events) :=
      hlistens calls call c.source rfl
    rw [hlistener, hsent] at hcaptured
    exact hcaptured

end Engine

end Patchbay
