import Patchbay.Proofs.PublishSound
import Patchbay.Proofs.Spans

/-!
# The cut-off

Cascades that feed back are cut off where they get too deep. The depth of a delivery is the number
of emissions that are being applied around it, and it is cut exactly where that number is above the
cap. A run in which nothing is cut does not depend on the cap.
-/

namespace Patchbay

variable {R : Type} {F : Family R}

/-! ## Depth -/

def Task.fits (d : Nat) : Task R → Prop
  | .callback .. => d = 0
  | .deliver room .. => d + room ≤ maxDepth + 1
  | .apply room .. => d + room ≤ maxDepth

namespace Task

theorem Begets.fits {t t' : Task R} (h : t.Begets t') {d : Nat} (ht : t.fits d) : t'.fits d := by
  cases h <;> simp only [Task.fits] at ht ⊢ <;> omega

theorem Root.fits {t : Task R} (h : t.Root) {d : Nat} (hd : t.fits d) : d = 0 := by
  cases h <;> simp only [Task.fits] at hd <;> omega

theorem calm_of_fits {t : Task R} {d : Nat} (h : t.fits (d + 1)) : t.isCallback = false := by
  cases t with
  | callback => cases h
  | deliver | apply => rfl

end Task

namespace Moment

variable [Sample R] {fresh : Engine F}

/-- The moment lies so many emissions deep: within the span of one emission, and so on. -/
inductive Nested (fresh : Engine F) : Nat → Moment F → Prop
  | outermost {m} : OfRun fresh m → Nested fresh 0 m
  | inside {d a room n emission rest m} : Nested fresh d a →
    a.work = .apply room n emission :: rest → During a rest m → Nested fresh (d + 1) m

theorem OfRun.fits {m : Moment F} (hm : OfRun fresh m) : ∀ t ∈ m.work, t.fits 0 := by
  induction hm with
  | start => simp
  | @call m call _ hidle _ =>
    have hcall := begins_call m call
    generalize m.call call = m' at hcall ⊢
    cases hcall with
    | refused => simp [hidle]
    | configured => simp [Task.fits]
    | sent => simp [Task.fits]
    | published => simp [Engine.fanOut, Task.fits]
    | silent => simp
  | @step m m' _ hstep ih =>
    rw [hstep.eq_next]
    obtain ⟨trace, e, work⟩ := m
    cases work with
    | nil => exact ih
    | cons task rest =>
      rcases next_work (m := ⟨trace, e, task :: rest⟩) rfl with hnone | hleaves
      · simp [hnone]
      · have hrest : ∀ t ∈ rest, t.fits 0 := fun t ht => ih t (List.mem_cons_of_mem _ ht)
        generalize (Moment.next ⟨trace, e, task :: rest⟩).work = work at hleaves
        intro t ht
        cases hleaves with
        | above _ hbegets =>
          rcases List.mem_append.mp ht with ht | ht
          · exact (hbegets t ht).fits (ih task (List.mem_cons_self ..))
          · exact hrest t ht
        | behind =>
          rcases List.mem_append.mp ht with ht | ht
          · exact hrest t ht
          · obtain ⟨_, _, rfl⟩ := List.mem_map.mp ht
            simp [Task.fits]

theorem Nested.fits {d : Nat} {m : Moment F} (h : Nested fresh d m) {task : Task R}
    {rest : List (Task R)} (hwork : m.work = task :: rest) : task.fits d := by
  induction h generalizing task rest with
  | outermost hm => exact hm.fits task (by simp [hwork])
  | @inside d a room n emission above m _ happly hm ih =>
    have hroom : d + room ≤ maxDepth := ih happly
    obtain ⟨first, front, hfirst, hfits⟩ := hm.above (P := fun t => t.fits (d + 1))
      (fun ht hbegets => hbegets.fits ht) (fun ht => Task.calm_of_fits ht) happly rfl
      (fun hbegets => by cases hbegets <;> simp only [Task.fits] <;> omega)
    obtain ⟨rfl, _⟩ := List.cons.inj (hwork.symm.trans hfirst)
    exact hfits task (List.mem_cons_self ..)

/-! ### Reaching the depth that there is room for -/

/-- So many emissions are being applied, and what is left to do behind is not part of what they set
off. -/
def Enclosed (fresh : Engine F) : Nat → List (Task R) → Moment F → Prop
  | 0, _, m => OfRun fresh m
  | d + 1, back, m => ∃ a room n emission rest, Nested fresh d a ∧
      a.work = .apply room n emission :: rest ∧ During a rest m ∧ rest <:+ back

theorem Enclosed.nested {d : Nat} {back : List (Task R)} {m : Moment F}
    (h : Enclosed fresh d back m) : Nested fresh d m := by
  cases d with
  | zero => exact .outermost h
  | succ d =>
    obtain ⟨a, room, n, emission, rest, ha, hwork, hm, _⟩ := h
    exact .inside ha hwork hm

theorem Enclosed.during {d : Nat} {a m : Moment F} {rest back : List (Task R)}
    (h : Enclosed fresh d rest a) (hm : During a rest m) (hback : rest <:+ back) :
    Enclosed fresh d back m := by
  cases d with
  | zero => exact OfRun.leads h ((Leads.next a).trans hm.leads)
  | succ d =>
    obtain ⟨b, room, n, emission, low, hb, hwork, ha, hlow⟩ := h
    exact ⟨b, room, n, emission, low, hb, hwork, ha.trans hm hlow, hlow.trans hback⟩

/-- A task within a call is as deep as the room it has says. -/
theorem enclosed {m : Moment F} (hm : OfRun fresh m) (hidle : m.work = []) {call : Call R}
    {d : Nat} : ∀ {x : Moment F} {task : Task R} {back : List (Task R)}, (m.call call).Leads x →
      task :: back <:+ x.work → task.fits d → Enclosed fresh d back x := by
  have hrun : ∀ {x}, (m.call call).Leads x → OfRun fresh x := (hm.call call hidle).leads
  induction d with
  | zero => exact fun hx _ _ => hrun hx
  | succ d ih =>
    -- a delivery is set off by an emission, one less deep
    have hdelivery : ∀ {x room origin n inlet msg back}, (m.call call).Leads x →
        .deliver room origin n inlet msg :: back <:+ x.work → d + 1 + room ≤ maxDepth + 1 →
          Enclosed fresh (d + 1) back x := by
      intro x room origin n inlet msg back hx hsuffix hroom
      rcases rooted hm hidle hx _ back hsuffix with hroot | ⟨a, parent, rest, ha, hwork, hbegets,
        hduring, hrest⟩
      · cases hroot.fits (d := d + 1) hroom
      · have hself : parent :: rest <:+ a.work := hwork ▸ List.suffix_refl _
        have hparent : parent.fits d := by
          cases hbegets <;> simp only [Task.fits] <;> omega
        have hnested := (ih ha hself hparent).nested
        cases hbegets <;> exact ⟨a, _, _, _, rest, hnested, hwork, hduring, hrest⟩
    intro x task back hx hsuffix hd
    cases task with
    | callback => cases hd
    | deliver => exact hdelivery hx hsuffix hd
    | apply room n emission =>
      -- and an emission by a delivery just as deep
      rcases rooted hm hidle hx _ back hsuffix with hroot | ⟨a, parent, rest, ha, hwork, hbegets,
        hduring, hrest⟩
      · cases hroot.fits hd
      · have hself : parent :: rest <:+ a.work := hwork ▸ List.suffix_refl _
        cases hbegets
        refine (hdelivery ha hself ?_).during hduring hrest
        simp only [Task.fits] at hd
        omega

/-- A delivery is nested just so deep that the room it has makes up for it. -/
theorem OfRun.nested_iff {m : Moment F} (hm : OfRun fresh m) {room : Nat} {origin : Origin}
    {n : NodeId} {inlet : PortId} {msg : Message R} {rest : List (Task R)}
    (hwork : m.work = .deliver room origin n inlet msg :: rest) (d : Nat) :
    Nested fresh d m ↔ d + room ≤ maxDepth + 1 := by
  refine ⟨fun h => h.fits hwork, fun h => ?_⟩
  rcases hm.exists_call with hidle | ⟨a, call, ha, hidle, hleads⟩
  · rw [hidle] at hwork
    cases hwork
  · have hself : .deliver room origin n inlet msg :: rest <:+ m.work := hwork ▸ List.suffix_refl _
    have hfits : (Task.deliver room origin n inlet msg).fits d := h
    exact (enclosed ha hidle hleads hself hfits).nested

theorem Nested.le_of_enters {d : Nat} {m : Moment F} (h : Nested fresh d m) {n : NodeId}
    (henters : m.Enters n) : d ≤ maxDepth := by
  rcases henters with ⟨rate, rest, hwork⟩ | ⟨room, origin, inlet, msg, rest, hwork⟩
  · have hzero : d = 0 := h.fits hwork
    exact hzero ▸ Nat.zero_le _
  · have hroom : d + (room + 1) ≤ maxDepth + 1 := h.fits hwork
    exact (Nat.le_add_right d room).trans (Nat.le_of_succ_le_succ hroom)

section
variable {m : Moment F} (hm : OfRun fresh m) {room : Nat} {origin : Origin} {n : NodeId}
  {inlet : PortId} {msg : Message R} {rest : List (Task R)}
  (hwork : m.work = .deliver room origin n inlet msg :: rest)
include hm hwork

/-- One error is noted, nothing else happens, and the rest is still to be done. -/
theorem OfRun.next_of_nested {live : Live F} (hlive : m.engine.nodes[n]? = some live)
    (h : Nested fresh (maxDepth + 1) m) : m.next = ⟨m.trace ++
      [.cut origin n inlet msg, .notice (.cascadeCut live.name inlet msg)], m.engine, rest⟩ := by
  have hroom := (hm.nested_iff hwork (maxDepth + 1)).mp h
  obtain rfl : room = 0 := Nat.le_zero.mp (Nat.le_of_add_le_add_left hroom)
  simp [Moment.next, hwork, Task.run, hlive]

theorem OfRun.enters_of_not_nested (h : ¬ Nested fresh (maxDepth + 1) m) : m.Enters n := by
  cases room with
  | zero => exact absurd ((hm.nested_iff hwork (maxDepth + 1)).mpr (Nat.le_refl _)) h
  | succ room => exact Or.inr ⟨room, origin, inlet, msg, rest, hwork⟩

end

end Moment

/-! ## Caps -/

def Event.isCut : Event R → Bool
  | .cut .. => true
  | _ => false

def Uncut (events : List (Event R)) : Prop := ∀ event ∈ events, event.isCut = false

instance (events : List (Event R)) : Decidable (Uncut events) :=
  inferInstanceAs (Decidable (∀ event ∈ events, event.isCut = false))

theorem uncut_append {events events' : List (Event R)} :
    Uncut (events ++ events') ↔ Uncut events ∧ Uncut events' := by
  simp [Uncut, or_imp, forall_and]

def Agrees {σ : Type} (f g : σ → Progress R σ) : Prop := ∀ s, Uncut (f s).events → g s = f s

namespace Agrees

variable {σ α : Type}

theorem refl (f : σ → Progress R σ) : Agrees f f := fun _ _ => rfl

theorem andThen {p : Progress R σ} {f g : σ → Progress R σ} (h : Agrees f g)
    (hp : Uncut (p.andThen f).events) : p.andThen g = p.andThen f := by
  unfold Progress.andThen at hp ⊢
  split at hp
  · rfl
  · rw [h _ (uncut_append.mp hp).2]

theorem each {f g : α → σ → Progress R σ} : ∀ {as : List α}, (∀ a ∈ as, Agrees (f a) (g a)) →
    Agrees (Progress.each f as) (Progress.each g as)
  | [], _ => refl _
  | a :: as, h => by
    intro s hs
    have hrest : Agrees (Progress.each f as) (Progress.each g as) :=
      each fun b hb => h b (List.mem_cons_of_mem _ hb)
    simp only [Progress.each] at hs ⊢
    have hfirst : Uncut (f a s).events := by
      unfold Progress.andThen at hs
      split at hs
      · exact hs
      · exact (uncut_append.mp hs).1
    rw [h a (List.mem_cons_self ..) s hfirst]
    exact andThen hrest hs

end Agrees

namespace Engine

section
variable {d d' : Deliver F}
  (hd : ∀ origin n inlet msg, Agrees (d origin n inlet msg) (d' origin n inlet msg))
include hd

theorem agrees_publishWith (publisher : Option NodeId) (bus : String) (msg : Message R) :
    Agrees (publishWith d publisher bus msg) (publishWith d' publisher bus msg) := fun e he =>
  Agrees.each (fun _ _ => hd _ _ _ _) e he

theorem agrees_applyWith (n : NodeId) (emission : Emission R) :
    Agrees (applyWith d n emission) (applyWith d' n emission) := by
  intro e he
  cases emission with
  | send outlet msg => exact Agrees.andThen (Agrees.each fun _ _ => hd _ _ _ _) he
  | publish bus msg => exact agrees_publishWith hd _ bus msg e he
  | subscribe | unsubscribe => rfl

end

theorem agrees_deliver [Zero R] {room room' : Nat} (h : room ≤ room') :
    ∀ (origin : Origin) (n : NodeId) (inlet : PortId) (msg : Message R),
      Agrees (deliver (F := F) room origin n inlet msg) (deliver room' origin n inlet msg) := by
  induction room generalizing room' with
  | zero =>
    intro origin n inlet msg e he
    cases hlive : e.nodes[n]? with
    | none => simp [deliver, hlive]
    | some live => simp [deliver, hlive, Uncut, Event.isCut] at he
  | succ room ih =>
    obtain ⟨room', rfl⟩ : ∃ k, room' = k + 1 := ⟨room' - 1, by omega⟩
    intro origin n inlet msg e he
    cases hlive : e.nodes[n]? with
    | none => simp [deliver, hlive]
    | some live =>
      simp only [deliver, hlive] at he ⊢
      exact Agrees.andThen (Agrees.each fun emission _ =>
        agrees_applyWith (ih (by omega)) n emission) he

/-! ### Calls with a cap of their own -/

section
variable [Sample R]

/-- `Engine.perform` with another cap in place of `maxDepth`. -/
def performWithin (cap : Nat) (e : Engine F) :
    Call R → Outcome R (Engine F) (EngineError R) (Reply R)
  | .configure config =>
    if e.config.isSome then .refuse e .alreadyConfigured
    else match config.validate with
      | .error err => .refuse e (.config err)
      | .ok () =>
        let opened : Event R :=
          .notice (.configuring config.sampleRate config.blockSize e.pending.length)
        let p := runCallbacks config.sampleRate e.pending
          { e with config := some config, pending := [] }
        let ran : Progress R (Engine F) := ⟨p.state.1, opened :: p.events, p.fault⟩
        ofProgress <| ran.andThen <| Progress.each
          (fun x => Progress.each (applyWith (deliver cap) x.1) x.2) p.state.2
  | .send node inlet msg =>
    if e.config.isNone then .refuse e .notConfigured
    else match e.nodes[node]? with
      | none => .refuse e (.invalidNode node)
      | some live =>
        match messageInlet? live inlet with
        | none => .refuse e (.invalidPort node inlet)
        | some target => ofProgress (deliver (cap + 1) .outside node target msg e)
  | .publish bus msg =>
    if e.config.isNone then .refuse e .notConfigured
    else ofProgress (publishWith (deliver (cap + 1)) none bus msg e)
  | call => e.perform call

theorem performWithin_maxDepth (e : Engine F) (call : Call R) :
    e.performWithin maxDepth call = e.perform call := by
  cases call with
  | configure config =>
    simp only [performWithin, perform, configure]
    cases hconfig : e.config.isSome with
    | true => simp [unlessRefused]
    | false => cases hvalid : config.validate <;> simp [unlessRefused]
  | send node inlet msg =>
    simp only [performWithin, perform, send]
    cases hconfig : e.config.isNone with
    | true => simp [unlessRefused]
    | false =>
      cases hlive : e.nodes[node]? with
      | none => simp [unlessRefused]
      | some live => cases htarget : messageInlet? live inlet <;> simp [htarget, unlessRefused]
  | publish bus msg =>
    simp only [performWithin, perform, publish]
    cases hconfig : e.config.isNone <;> simp [unlessRefused]
  | _ => rfl

theorem performWithin_eq {cap cap' : Nat} (hcap : cap ≤ cap') {e : Engine F} {call : Call R}
    (h : Uncut (e.performWithin cap call).events) :
    e.performWithin cap' call = e.performWithin cap call := by
  have hdeliver := agrees_deliver (F := F) (Nat.add_le_add_right hcap 1)
  cases call with
  | configure config =>
    simp only [performWithin] at h ⊢
    cases hconfig : e.config.isSome with
    | true => simp only [if_true]
    | false =>
      cases hvalid : config.validate with
      | error err => simp
      | ok u =>
        simp only [hconfig, hvalid] at h ⊢
        exact congrArg ofProgress (Agrees.andThen (Agrees.each fun x _ => Agrees.each
          fun emission _ => agrees_applyWith (agrees_deliver hcap) x.1 emission) h)
  | send node inlet msg =>
    simp only [performWithin] at h ⊢
    cases hconfig : e.config.isNone with
    | true => simp only [if_true]
    | false =>
      cases hlive : e.nodes[node]? with
      | none => simp
      | some live =>
        cases htarget : messageInlet? live inlet with
        | none => simp [htarget]
        | some target =>
          simp only [hconfig, hlive, htarget] at h ⊢
          exact congrArg ofProgress (hdeliver .outside node target msg e h)
  | publish bus msg =>
    simp only [performWithin] at h ⊢
    cases hconfig : e.config.isNone with
    | true => simp only [if_true]
    | false =>
      simp only [hconfig] at h
      exact congrArg ofProgress (agrees_publishWith hdeliver none bus msg e h)
  | _ => rfl

theorem outcomes_performWithin {cap cap' : Nat} (hcap : cap ≤ cap') (calls : List (Call R)) :
    ∀ {e : Engine F}, (∀ o ∈ outcomes (performWithin cap) e calls, Uncut o.events) →
      outcomes (performWithin cap') e calls = outcomes (performWithin cap) e calls := by
  induction calls with
  | nil => simp only [outcomes, implies_true]
  | cons call calls ih =>
    intro e h
    unfold outcomes at h ⊢
    obtain ⟨hfirst, hrest⟩ := List.forall_mem_cons.mp h
    rw [performWithin_eq hcap hfirst, ih hrest]

/-! ## What the cut-off does -/

/-- All work comes to an end, whichever nodes feed each other, that of a call where the engine
answers it. A delivery is cut exactly where it is nested deeper than the cap; then one error is
noted, and nothing else changes but that the rest is still to be done. With a cap that cuts nothing
off, a run goes as with any higher one. -/
theorem cuts_only_what_is_too_deep (fresh : Engine F) :
    (∀ m : Moment F, ∃ z, m.Leads z ∧ z.work = []) ∧
    (∀ m : Moment F, m.work = [] → ∀ call, (m.call call).Leads (m.answered call)) ∧
    (∀ m, Moment.OfRun fresh m → ∀ n, m.Enters n → ∀ d, m.Nested fresh d → d ≤ maxDepth) ∧
    (∀ m, Moment.OfRun fresh m → ∀ room origin n inlet msg rest live,
      m.work = .deliver room origin n inlet msg :: rest → m.engine.nodes[n]? = some live →
        (m.Nested fresh (maxDepth + 1) → m.next = ⟨m.trace ++
          [.cut origin n inlet msg, .notice (.cascadeCut live.name inlet msg)], m.engine, rest⟩) ∧
        (¬ m.Nested fresh (maxDepth + 1) → m.Enters n)) ∧
    (∀ (e : Engine F) call, e.performWithin maxDepth call = e.perform call) ∧
    ∀ (cap cap' : Nat) calls, cap ≤ cap' →
      (∀ o ∈ outcomes (performWithin cap) fresh calls, Uncut o.events) →
        outcomes (performWithin cap') fresh calls = outcomes (performWithin cap) fresh calls := by
  refine ⟨Moment.exists_idle, fun m hidle call => Moment.leads_answered hidle call,
    fun m _ n henters d hd => hd.le_of_enters henters, ?_, performWithin_maxDepth,
    fun _ _ calls h => outcomes_performWithin h calls⟩
  intro m hm room origin n inlet msg rest live hwork hlive
  exact ⟨hm.next_of_nested hwork hlive, hm.enters_of_not_nested hwork⟩

end

/-- Two list boxes wired to each other, and one wired to a `print`. -/
theorem cuts_only_what_is_too_deep_feedback :
    let edits : List (Edit (standard Float)) :=
      [.add "listbox" [], .add "listbox" [], .add "listbox" [], .add "print" [],
        .connect 0 0 1 (.regular 0), .connect 1 0 0 (.regular 0), .connect 2 0 3 (.regular 0)]
    let config : Config Float := ⟨44100, 64, 1⟩
    let calls : List (Call Float) := [.configure config, .send 2 (.regular 0) .bang]
    ∃ s fresh m name, (Schedule.compile (Patch.built edits)).ending = .done s ∧
      (link s (Patch.built edits) .empty).ending = .done fresh ∧ Moment.OfRun fresh m ∧
      m.work = [.deliver 0 (.wire 0 0) 1 (.regular 0) .bang] ∧
      m.Nested fresh (maxDepth + 1) ∧
      m.next = ⟨m.trace ++ [.cut (.wire 0 0) 1 (.regular 0) .bang,
        .notice (.cascadeCut name (.regular 0) .bang)], m.engine, []⟩ ∧
      (∀ o ∈ outcomes (performWithin 1) fresh calls, Uncut o.events) ∧
      outcomes (performWithin maxDepth) fresh calls = outcomes (performWithin 1) fresh calls := by
  intro edits config calls
  have hedits : ∀ edit ∈ edits, edit.fromCatalog = true := by simp [edits, Edit.fromCatalog]
  obtain ⟨s, fresh, hs, hfresh⟩ := link_built hedits
  obtain ⟨_, _, _, hcut, _, hcaps⟩ := cuts_only_what_is_too_deep fresh
  let configured := (⟨[], fresh, []⟩ : Moment (standard Float)).answered (.configure config)
  -- two tasks for each of the 257 deliveries on the way
  let m := Moment.next^[514] (configured.call (.send 0 (.regular 0) .bang))
  have hm : Moment.OfRun fresh m :=
    ((Moment.OfRun.start.answered rfl _).call _ rfl).leads ⟨514, rfl⟩
  have hwork : m.work = [.deliver 0 (.wire 0 0) 1 (.regular 0) .bang] := by
    obtain rfl := Ending.done.inj (hs.symm.trans (rfl : _ = Ending.done _))
    obtain rfl := Ending.done.inj (hfresh.symm.trans (rfl : _ = Ending.done _))
    decide +kernel
  have huncut : ∀ o ∈ outcomes (performWithin 1) fresh calls, Uncut o.events := by
    obtain rfl := Ending.done.inj (hs.symm.trans (rfl : _ = Ending.done _))
    obtain rfl := Ending.done.inj (hfresh.symm.trans (rfl : _ = Ending.done _))
    decide +kernel
  have hready := hm.ready_built hedits hs hfresh
  obtain ⟨live, _, hlive, _⟩ := hready.engine.hosts.exists_live
    (hready.nodes (.deliver 0 (.wire 0 0) 1 (.regular 0) .bang) (by simp [hwork]))
  obtain ⟨hskipped, hentered⟩ := hcut m hm 0 _ 1 _ _ [] live hwork hlive
  have hnested : m.Nested fresh (maxDepth + 1) := by
    by_contra hnot
    rcases hentered hnot with ⟨_, _, henters⟩ | ⟨_, _, _, _, _, henters⟩
    all_goals
      rw [hwork] at henters
      cases henters
  exact ⟨s, fresh, m, live.name, hs, hfresh, hm, hwork, hnested, hskipped hnested, huncut,
    hcaps 1 maxDepth calls (by decide) huncut⟩

end Engine

end Patchbay
