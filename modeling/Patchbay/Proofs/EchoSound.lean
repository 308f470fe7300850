import Patchbay.Proofs.LifecycleSound

/-!
# Controls tell what they hold

A control that takes a value sends it at once, before anything else happens, so the last that it
sent is what it holds. Two things come in between. A `set` changes the value and is not told. And
what a callback emits waits for all callbacks: if the control takes another value meanwhile, it
tells the new one first and the old one last.
-/

namespace Patchbay

variable {R : Type}

namespace Moment

section
variable {F : Family R} [Sample R]

/-! ## Later in a run -/

inductive Then (a : Moment F) : Moment F → Prop
  | refl : Then a a
  | call {m : Moment F} (call : Call R) : Then a m → m.work = [] → Then a (m.call call)
  | step {m m' : Moment F} : Then a m → Step m m' → Then a m'

theorem Then.next {a m : Moment F} (h : a.Then m) (hm : m.work ≠ []) : a.Then m.next :=
  h.step (step_next hm)

theorem Then.next_of_work {a m : Moment F} (h : a.Then m) (ha : a.work ≠ []) :
    m = a ∨ a.next.Then m := by
  induction h with
  | refl => exact Or.inl rfl
  | call call _ hidle ih =>
    rcases ih with rfl | ih
    · exact absurd hidle ha
    · exact Or.inr (ih.call call hidle)
  | step _ hstep ih =>
    rcases ih with rfl | ih
    · rw [hstep.eq_next]
      exact Or.inr .refl
    · exact Or.inr (ih.step hstep)

theorem Then.trace {a m : Moment F} (h : a.Then m) : a.trace <+: m.trace := by
  induction h with
  | refl => exact List.prefix_refl _
  | @call m call _ _ ih =>
    have hcall := begins_call m call
    generalize m.call call = m' at hcall ⊢
    cases hcall with
    | refused | sent | published => exact ih
    | configured | silent => exact ih.trans (List.prefix_append _ _)
  | step _ hstep ih =>
    cases hstep with
    | called | handled | cut | sent => exact ih.trans (List.prefix_append _ _)
    | uncalled | undelivered | published | subscribed | unsubscribed => exact ih

theorem Leads.eq_or_changes {α : Type} (f : Moment F → α) {m m' : Moment F} (h : m.Leads m') :
    f m' = f m ∨ ∃ x, m.Leads x ∧ f x.next ≠ f x ∧ x.next.Leads m' := by
  refine h.keeps (P := fun m' => f m' = f m ∨ ∃ x, m.Leads x ∧ f x.next ≠ f x ∧ x.next.Leads m')
    (Or.inl rfl) fun {x x'} hleads hstep hx => ?_
  rw [hstep.eq_next]
  by_cases hsame : f x.next = f x
  · rcases hx with hold | ⟨y, hy, hchanges, hlater⟩
    · exact Or.inl (hsame.trans hold)
    · exact Or.inr ⟨y, hy, hchanges, hlater.trans (Leads.next x)⟩
  · exact Or.inr ⟨x, hleads, hsame, Leads.refl _⟩

end

end Moment

variable [Sample R]

/-! ## Handlers of controls -/

omit [Sample R] in
theorem ControlState.send_mem_emissions {c : ControlState R} {outlet : Nat} {msg : Message R}
    (h : .send outlet msg ∈ c.emissions) : msg = c.store.message := by
  obtain hsend | ⟨_, _, _, hpublish⟩ := mem_emissions h
  · exact (Emission.send.inj hsend).2
  · cases hpublish

/-- A control that takes a message keeps its value and sends nothing, or tells the value that it
holds then, or is set to a value. -/
theorem ControlState.message_tells (c : ControlState R) (inlet : PortId) (given : Message R)
    (hfine : (c.message inlet given).fault = none) :
    let h := c.message inlet given
    (h.state.store = c.store ∧ h.emissions.filterMap Emission.send? = []) ∨
      h.emissions = h.state.emissions ∨
      ∃ payload store, inlet = .regular 0 ∧ Control.Command.ofMessage given = .set payload ∧
        c.store.accept? payload = some store ∧ h.emissions = [] := by
  intro h
  by_cases hinlet : inlet = .regular 0
  · cases hcommand : Control.Command.ofMessage given with
    | bang =>
      refine Or.inr (Or.inl ?_)
      simp [h, message, hinlet, hcommand, Handled.emit]
    | bindSend bus =>
      refine Or.inl ?_
      simp [h, message, hinlet, hcommand, Handled.quiet]
    | bindReceive bus =>
      refine Or.inl ?_
      simp [h, message, hinlet, hcommand, rebindReceive, Handled.emit, Emission.send?]
    | set payload =>
      cases haccept : c.store.accept? payload with
      | none =>
        refine Or.inl ?_
        simp [h, message, hinlet, hcommand, haccept, Handled.notify]
      | some store =>
        refine Or.inr (Or.inr ⟨payload, store, hinlet, rfl, haccept, ?_⟩)
        simp only [h, message, hinlet, hcommand, haccept, settle, ne_eq, not_true, if_false]
        split <;> rfl
    | value payload =>
      cases haccept : c.store.accept? payload with
      | none =>
        refine Or.inl ?_
        simp [h, message, hinlet, hcommand, haccept, Handled.notify]
      | some store =>
        refine Or.inr (Or.inl ?_)
        simp only [message, hinlet, hcommand, haccept, ne_eq, not_true, if_false] at hfine
        simp [h, message, hinlet, hcommand, haccept, hfine]
  · refine Or.inl ?_
    simp [h, message, hinlet, Handled.notify]

theorem StandardState.sends_configure {s : StandardState R} {c : ControlState R}
    (hc : s.control? = some c) {rate : R} {outlet : Nat} {msg : Message R}
    (h : .send outlet msg ∈ (s.configure rate).emissions) : msg = c.store.message := by
  obtain rfl := eq_control hc
  exact ControlState.send_mem_emissions h

theorem StandardState.message_tells {s : StandardState R} {c : ControlState R}
    (hc : s.control? = some c) {inlet : PortId} {given : Message R} {rate : R}
    (hfine : (s.message inlet given rate).fault = none) :
    let h := s.message inlet given rate
    ∃ c', h.state.control? = some c' ∧
      ((c'.store = c.store ∧ h.emissions.filterMap Emission.send? = []) ∨
        h.emissions = c'.emissions ∨
        ∃ payload store, inlet = .regular 0 ∧ Control.Command.ofMessage given = .set payload ∧
          c.store.accept? payload = some store ∧ h.emissions = []) := by
  obtain rfl := eq_control hc
  exact ⟨_, rfl, c.message_tells inlet given hfine⟩

namespace Moment

/-! ## What was told last -/

def stored? (m : Moment (standard R)) (n : NodeId) : Option (Message R) :=
  (m.engine.control? n).map (·.store.message)

def Sets (m : Moment (standard R)) (n : NodeId) : Prop :=
  ∃ room origin given rest payload c store,
    m.work = .deliver (room + 1) origin n (.regular 0) given :: rest ∧
    Control.Command.ofMessage given = .set payload ∧ m.engine.control? n = some c ∧
    c.store.accept? payload = some store

def Changes (m : Moment (standard R)) (n : NodeId) : Prop :=
  (∃ room origin inlet given rest, m.work = .deliver (room + 1) origin n inlet given :: rest) ∧
    m.next.stored? n ≠ m.stored? n

def SetSince (fresh : Engine (standard R)) (m : Moment (standard R)) (n : NodeId) : Prop :=
  ∃ x, OfRun fresh x ∧ x.Sets n ∧ x.Then m ∧
    sentOn ⟨n, 0⟩ x.trace = sentOn ⟨n, 0⟩ m.trace

/-- A callback of the control left the message to be sent, the control took another value before it
was, and has sent nothing since. -/
def Overtaken (fresh : Engine (standard R)) (m : Moment (standard R)) (n : NodeId)
    (msg : Message R) : Prop :=
  ∃ b x s rate back rest, OfRun fresh b ∧ b.work = .callback rate n :: back ∧
    b.next.stored? n = some msg ∧ b.next.Leads x ∧ x.Changes n ∧ x.next.Leads s ∧
    s.work = .apply maxDepth n (.send 0 msg) :: rest ∧ s.next.Then m ∧
    sentOn ⟨n, 0⟩ s.next.trace = sentOn ⟨n, 0⟩ m.trace

/-- What the control sent last is what it holds, or there is a reason that it is not. -/
def Told (fresh : Engine (standard R)) (m : Moment (standard R)) (n : NodeId) : Prop :=
  ∀ msg, (sentOn ⟨n, 0⟩ m.trace).getLast? = some msg →
    m.stored? n = some msg ∨ SetSince fresh m n ∨ Overtaken fresh m n msg

def Late (fresh : Engine (standard R)) (m : Moment (standard R)) (n : NodeId)
    (work : List (Task R)) : Prop :=
  ∀ room msg, .apply room n (.send 0 msg) ∈ work → room = maxDepth ∧
    ∃ b rate back, OfRun fresh b ∧ b.work = .callback rate n :: back ∧
      b.next.stored? n = some msg ∧ b.next.Leads m

inductive Telling (fresh : Engine (standard R)) (m : Moment (standard R)) (n : NodeId) : Prop
  | told : Told fresh m n → Late fresh m n m.work → Telling fresh m n
  | about {room msg rest} : m.work = .apply room n (.send 0 msg) :: rest →
    m.stored? n = some msg → Late fresh m n rest → Telling fresh m n

section
variable {fresh : Engine (standard R)} {m m' : Moment (standard R)} {n : NodeId}

theorem Told.later (h : Told fresh m n) (hthen : ∀ {x : Moment (standard R)}, x.Then m → x.Then m')
    (hsent : sentOn ⟨n, 0⟩ m'.trace = sentOn ⟨n, 0⟩ m.trace)
    (hstored : m'.stored? n = m.stored? n) : Told fresh m' n := by
  intro msg hlast
  rw [hsent] at hlast
  rcases h msg hlast with hsame | ⟨x, hx, hsets, hlater, hsince⟩ |
    ⟨b, x, s, rate, back, rest, hb, hcallback, hmsg, hx, hchanges, hs, hwork, hlater, hsince⟩
  · exact Or.inl (hstored.trans hsame)
  · exact Or.inr (Or.inl ⟨x, hx, hsets, hthen hlater, hsince.trans hsent.symm⟩)
  · exact Or.inr (Or.inr ⟨b, x, s, rate, back, rest, hb, hcallback, hmsg, hx, hchanges, hs, hwork,
      hthen hlater, hsince.trans hsent.symm⟩)

theorem Late.later {work work' : List (Task R)} (h : Late fresh m n work) (hleads : m.Leads m')
    (hwork : ∀ {room msg}, .apply room n (.send 0 msg) ∈ work' →
      .apply room n (.send 0 msg) ∈ work) : Late fresh m' n work' := by
  intro room msg hmem
  obtain ⟨hroom, b, rate, back, hb, hcallback, hmsg, hlater⟩ := h room msg (hwork hmem)
  exact ⟨hroom, b, rate, back, hb, hcallback, hmsg, hlater.trans hleads⟩

theorem stored?_next (h : ∀ room origin inlet given rest,
    m.work ≠ .deliver (room + 1) origin n inlet given :: rest) :
    m.next.stored? n = m.stored? n := by
  by_cases hidle : m.work = []
  · rw [next_of_idle hidle]
  have hstep := step_next hidle
  generalize m.next = m' at hstep ⊢
  cases hstep with
  | @called _ e rate k rest live handled hlive hconfigure =>
    subst hconfigure
    unfold stored?
    rw [Engine.control?_setState hlive]
    split
    · rename_i hk
      subst hk
      simp only [Engine.control?, hlive, Option.bind_some]
      cases live.state <;> rfl
    · rfl
  | @handled _ e room origin k inlet given rest live handled hlive hmessage =>
    have hk : k ≠ n := by
      rintro rfl
      exact h room origin inlet given rest rfl
    unfold stored?
    rw [Engine.control?_setState hlive, if_neg hk]
  | @sent _ e room k outlet msg rest =>
    unfold stored? Engine.control?
    rw [Engine.capture_eq]
  | _ => rfl

theorem changes_of_ne (h : m.next.stored? n ≠ m.stored? n) : m.Changes n := by
  by_contra hnot
  refine h (stored?_next fun room origin inlet given rest hwork => ?_)
  exact hnot ⟨⟨room, origin, inlet, given, rest, hwork⟩, h⟩

end

/-! ## One step -/

section
variable {fresh : Engine (standard R)} {m : Moment (standard R)} {n : NodeId}

theorem told_next {room : Nat} {msg : Message R} {rest : List (Task R)}
    (hwork : m.work = .apply room n (.send 0 msg) :: rest)
    (h : m.stored? n = some msg ∨ Overtaken fresh m.next n msg) : Told fresh m.next n := by
  have hsent : sentOn ⟨n, 0⟩ m.next.trace = sentOn ⟨n, 0⟩ m.trace ++ [msg] := by
    simp [Moment.next, hwork, Task.run, Event.sentOn?]
  have hstored : m.next.stored? n = m.stored? n := stored?_next (by simp [hwork])
  intro msg' hlast
  rw [hsent, List.getLast?_concat, Option.some.injEq] at hlast
  subst hlast
  exact h.imp hstored.trans Or.inr

theorem Late.told (h : Late fresh m n m.work) {room : Nat} {msg : Message R} {rest : List (Task R)}
    (hwork : m.work = .apply room n (.send 0 msg) :: rest) : Told fresh m.next n := by
  obtain ⟨rfl, b, rate, back, hb, hcallback, hmsg, hlater⟩ := h room msg (by simp [hwork])
  refine told_next hwork ?_
  -- the message is what the control held after the callback: it still is, or it was overtaken
  rcases hlater.eq_or_changes (stored? · n) with hsame | ⟨x, hx, hne, hafter⟩
  · exact Or.inl (hsame.trans hmsg)
  · exact Or.inr ⟨b, x, m, rate, back, rest, hb, hcallback, hmsg, hx, changes_of_ne hne, hafter,
      hwork, .refl, rfl⟩

theorem Telling.called (hm : OfRun fresh m) (hfine : m.Faultless) {c : ControlState R}
    (hc : m.engine.control? n = some c) (htold : Told fresh m n) (hlate : Late fresh m n m.work)
    {rate : R} {k : NodeId} {rest : List (Task R)} (hwork : m.work = .callback rate k :: rest) :
    Telling fresh m.next n := by
  obtain ⟨live, hlive, _⟩ := hfine.callback hwork
  have hnext := hfine.next_called hwork hlive
  have hstored : m.next.stored? n = m.stored? n := stored?_next (by simp [hwork])
  refine .told (htold.later (fun hx => hx.next (by simp [hwork])) ?_ hstored) ?_
  · rw [hnext]
    simp [Event.sentOn?]
  · intro room msg hmem
    rw [hnext] at hmem
    rcases List.mem_append.mp hmem with hmem | hmem
    · refine hlate.later (Leads.next m) (fun hmem => ?_) room msg hmem
      rw [hwork]
      exact List.mem_cons_of_mem _ hmem
    · obtain ⟨emission, hemission, heq⟩ := List.mem_map.mp hmem
      obtain ⟨rfl, rfl, rfl⟩ := Task.apply.inj heq
      have hown : live.state.control? = some c := by simpa [Engine.control?, hlive] using hc
      obtain rfl : msg = c.store.message := StandardState.sends_configure hown hemission
      refine ⟨rfl, m, rate, rest, hm, hwork, ?_, Leads.refl _⟩
      rw [hstored]
      simp [stored?, hc]

theorem Telling.still (htold : Told fresh m n) (hlate : Late fresh m n m.work)
    (hbusy : m.work ≠ []) (hnot : ∀ room origin inlet given rest,
      m.work ≠ .deliver (room + 1) origin n inlet given :: rest)
    (hsent : sentOn ⟨n, 0⟩ m.next.trace = sentOn ⟨n, 0⟩ m.trace)
    (hmem : ∀ {room msg}, .apply room n (.send 0 msg) ∈ m.next.work →
      .apply room n (.send 0 msg) ∈ m.work) : Telling fresh m.next n :=
  .told (htold.later (fun hx => hx.next hbusy) hsent (stored?_next hnot))
    (hlate.later (Leads.next m) hmem)

theorem Late.silent {rest : List (Task R)} (h : Late fresh m n rest) (k : NodeId)
    {emissions : List (Emission R)} (hsilent : emissions.filterMap Emission.send? = [])
    (room : Nat) : Late fresh m n (emissions.map (.apply room k) ++ rest) := by
  intro r msg hmem
  rcases List.mem_append.mp hmem with hmem | hmem
  · obtain ⟨emission, hemission, heq⟩ := List.mem_map.mp hmem
    obtain ⟨rfl, rfl, rfl⟩ := Task.apply.inj heq
    cases List.filterMap_eq_nil_iff.mp hsilent _ hemission
  · exact h r msg hmem

theorem Telling.handled (hm : OfRun fresh m) (hfine : m.Faultless) {c : ControlState R}
    (hc : m.engine.control? n = some c) (htold : Told fresh m n) (hlate : Late fresh m n m.work)
    {room : Nat} {origin : Origin} {inlet : PortId} {given : Message R} {rest : List (Task R)}
    (hwork : m.work = .deliver (room + 1) origin n inlet given :: rest) :
    Telling fresh m.next n := by
  obtain ⟨live, hlive⟩ := hfine.exists_live hwork
  have hnext := hfine.next_handled hwork hlive
  have hthen : ∀ {x : Moment (standard R)}, x.Then m → x.Then m.next :=
    fun hx => hx.next (by simp [hwork])
  have hrest : Late fresh m.next n rest := by
    refine hlate.later (Leads.next m) fun hmem => ?_
    rw [hwork]
    exact List.mem_cons_of_mem _ hmem
  have hsent : sentOn ⟨n, 0⟩ m.next.trace = sentOn ⟨n, 0⟩ m.trace := by
    rw [hnext]
    simp [Event.sentOn?]
  have hown : live.state.control? = some c := by simpa [Engine.control?, hlive] using hc
  obtain ⟨c', hc', htells⟩ := StandardState.message_tells hown (hfine.handler hwork hlive)
  have hstored : m.next.stored? n = some c'.store.message := by
    unfold stored?
    rw [hnext, Engine.control?_setState hlive, if_pos rfl, hc']
    rfl
  -- the value is kept, or the control is about to tell it, or it was set just now
  rcases htells with ⟨hstore, hsilent⟩ | htells | ⟨payload, store, rfl, hset, haccept, hsilent⟩
  · have hsame : m.next.stored? n = m.stored? n := by
      rw [hstored, hstore]
      simp [stored?, hc]
    refine .told (htold.later hthen hsent hsame) ?_
    have hwork' := congrArg Moment.work hnext
    rw [hwork']
    exact hrest.silent n hsilent room
  · obtain ⟨more, hfirst, hmore⟩ := c'.sends_once
    have hfront : m.next.work = .apply room n (.send 0 c'.store.message) ::
        (more.map (.apply room n) ++ rest) := by
      rw [hnext, htells, hfirst]
      rfl
    exact .about hfront hstored (hrest.silent n hmore room)
  · have hnow : SetSince fresh m.next n :=
      ⟨m, hm, ⟨room, origin, given, rest, payload, c, store, hwork, hset, hc, haccept⟩,
        hthen .refl, hsent.symm⟩
    refine .told (fun _ _ => Or.inr (Or.inl hnow)) ?_
    have hwork' := congrArg Moment.work hnext
    rw [hwork', hsilent]
    exact hrest

theorem Telling.next (h : Telling fresh m n) (hm : OfRun fresh m) (hfine : m.Faultless)
    {c : ControlState R} (hc : m.engine.control? n = some c) : Telling fresh m.next n := by
  cases h with
  -- between taking a value and sending it no other task has its turn
  | @about room msg rest hwork hstored hlate =>
    refine .told (told_next hwork (Or.inl hstored)) (hlate.later (Leads.next m) fun hmem => ?_)
    simpa [Moment.next, hwork, Task.run] using hmem
  | told htold hlate =>
    cases hwork : m.work with
    | nil =>
      rw [next_of_idle hwork]
      exact .told htold hlate
    | cons task rest =>
      have hbusy : m.work ≠ [] := by simp [hwork]
      cases task with
      | callback rate k => exact .called hm hfine hc htold hlate hwork
      | deliver room origin k inlet given =>
        obtain ⟨live, hlive⟩ := hfine.exists_live hwork
        cases room with
        | zero =>
          refine .still htold hlate hbusy (by simp [hwork]) ?_ fun hmem => ?_
          · simp [Moment.next, hwork, Task.run, hlive, Event.sentOn?]
          · simpa [Moment.next, hwork, Task.run, hlive] using hmem
        | succ room =>
          by_cases hk : k = n
          · subst hk
            exact .handled hm hfine hc htold hlate hwork
          · have hnext := hfine.next_handled hwork hlive
            refine .still htold hlate hbusy (by simp [hwork, hk]) ?_ fun hmem => ?_
            · rw [hnext]
              simp [Event.sentOn?]
            · rw [hnext] at hmem
              simpa [hwork, hk] using hmem
      | apply room k emission =>
        cases emission with
        | send outlet msg =>
          by_cases hk : k = n ∧ outlet = 0
          · obtain ⟨rfl, rfl⟩ := hk
            refine .told (hlate.told hwork) (hlate.later (Leads.next m) fun hmem => ?_)
            rw [hwork]
            exact List.mem_cons_of_mem _ (by simpa [Moment.next, hwork, Task.run] using hmem)
          · refine .still htold hlate hbusy (by simp [hwork]) ?_ fun hmem => ?_
            · simp [Moment.next, hwork, Task.run, Event.sentOn?, hk]
            · rw [hwork]
              exact List.mem_cons_of_mem _ (by simpa [Moment.next, hwork, Task.run] using hmem)
        | publish bus msg =>
          refine .still htold hlate hbusy (by simp [hwork]) ?_ fun hmem => ?_
          · simp [Moment.next, hwork, Task.run, Progress.stay]
          · simpa [Moment.next, hwork, Task.run, Progress.stay, Engine.fanOut] using hmem
        | subscribe | unsubscribe =>
          refine .still htold hlate hbusy (by simp [hwork]) ?_ fun hmem => ?_
          · simp [Moment.next, hwork, Task.run, Progress.stay]
          · simpa [Moment.next, hwork, Task.run, Progress.stay] using hmem

end

end Moment

/-! ## Whole runs -/

theorem Engine.steady_control (n : NodeId) (c : Option (ControlState R)) :
    Steady (fun e : Engine (standard R) => e.control? n = c) where
  ticked {e} rate k he := by
    rcases tickNode_cases rate k e with h | ⟨inputs, slots, live, _, _, hlive, _, h⟩
    · rwa [h]
    · rw [h]
      have hticked := control?_setState hlive
        ((standard R).tick live.state inputs (e.samples k) rate).state n
      have hkept : ((standard R).tick live.state inputs (e.samples k) rate).state.control? =
          live.state.control? := by cases live.state <;> rfl
      by_cases hk : k = n
      · subst hk
        rw [if_pos rfl, hkept] at hticked
        exact hticked.trans (by simpa [control?, hlive] using he)
      · rw [if_neg hk] at hticked
        exact hticked.trans he
  listened _ _ he := he
  taken {e} k outlet he := by
    rw [take_eq]
    exact he

namespace Moment

section
variable {fresh : Engine (standard R)} {m : Moment (standard R)} {n : NodeId}

theorem Telling.call (h : Telling fresh m n) (hidle : m.work = []) (call : Call R) :
    Telling fresh (m.call call) n := by
  cases h with
  | about hwork =>
    rw [hidle] at hwork
    cases hwork
  | told htold hlate =>
    have hthen : ∀ {x : Moment (standard R)}, x.Then m → x.Then (m.call call) :=
      fun hx => hx.call call hidle
    have hcall := begins_call m call
    generalize m.call call = m' at hcall hthen ⊢
    cases hcall with
    | refused => exact .told htold hlate
    | configured =>
      exact .told (htold.later hthen (by simp [Event.sentOn?]) rfl) fun _ _ hmem => by simp at hmem
    | sent => exact .told (htold.later hthen rfl rfl) fun _ _ hmem => by simp at hmem
    | published =>
      exact .told (htold.later hthen rfl rfl) fun _ _ hmem => by simp [Engine.fanOut] at hmem
    | silent hsilent =>
      have hkept := (Engine.steady_control n (m.engine.control? n)).perform rfl hsilent
      refine .told (htold.later hthen ?_ ?_) fun _ _ hmem => by cases hmem
      · simp [Engine.events_of_silent m.engine hsilent]
      · unfold stored?
        rw [hkept]

theorem OfRun.telling (hfine : ∀ x, OfRun fresh x → x.Faultless)
    (hcontrol : ∀ x, OfRun fresh x → ∃ c, x.engine.control? n = some c) (hm : OfRun fresh m) :
    Telling fresh m n := by
  induction hm with
  | start => exact .told (fun _ h => by simp at h) fun _ _ h => by cases h
  | call call _ hidle ih => exact ih.call hidle call
  | @step m m' hm hstep ih =>
    obtain ⟨c, hc⟩ := hcontrol m hm
    rw [hstep.eq_next]
    exact ih.next hm (hfine m hm) hc

theorem OfRun.isSome_control {p : Patch (standard R)} (hfresh : fresh.Tuned p)
    (hm : OfRun fresh m) (n : NodeId) :
    (m.engine.control? n).isSome = (p.node? n).any (·.args.isControl) := by
  obtain ⟨front, _, _, _, _, htuned⟩ := hm.inTune hfresh
  simpa using htuned.kinds n

end

end Moment

namespace Moment

theorem not_setSince {fresh : Engine (standard R)} {m : Moment (standard R)} {n : NodeId}
    (hidle : m.work = []) {event : Event R} (hlast : m.trace.getLast? = some event)
    (hsent : (event.sentOn? ⟨n, 0⟩).isSome = true) : ¬ SetSince fresh m n := by
  rintro ⟨x, _, ⟨room, origin, given, rest, _, _, _, hwork, _, hc, _⟩, hthen, hsince⟩
  obtain ⟨live, hlive, _⟩ := Option.bind_eq_some_iff.mp hc
  rcases hthen.next_of_work (by simp [hwork]) with rfl | hlater
  · rw [hidle] at hwork
    cases hwork
  · -- the control sends last of all, so also after the `set` was handed to it
    obtain ⟨tail, htail⟩ := hlater.trace
    have hnext : ∃ notices, x.next.trace = x.trace ++ .delivered origin n (.regular 0) given ::
        notices := ⟨_, by simp [Moment.next, hwork, Task.run, hlive, Engine.absorb]; rfl⟩
    obtain ⟨notices, hnext⟩ := hnext
    rw [hnext, List.append_assoc] at htail
    have hnone : sentOn ⟨n, 0⟩
        (.delivered origin n (.regular 0) given :: notices ++ tail) = [] := by
      rw [← htail, sentOn_append] at hsince
      exact List.self_eq_append_right.mp hsince
    have hmem : event ∈ .delivered origin n (.regular 0) given :: notices ++ tail := by
      rw [← htail, List.getLast?_append_of_ne_nil _ (by simp)] at hlast
      exact List.mem_of_getLast? hlast
    rw [List.filterMap_eq_nil_iff.mp hnone event hmem] at hsent
    cases hsent

end Moment

namespace Engine

/-- After every call, what a control sent last on its outlet is what it holds, unless it accepted a
`set` since, or what it sent last was left by its callback and had to wait while the control took
another value. -/
theorem tells_what_it_holds [LawfulSample R] {edits : List (Edit (standard R))}
    (hedits : ∀ edit ∈ edits, edit.fromCatalog = true) :
    ∃ s fresh, (Schedule.compile (Patch.built edits)).ending = .done s ∧
      (link s (Patch.built edits) .empty).ending = .done fresh ∧
      ∀ calls n c msg,
        let events := (outcomes perform fresh calls).flatMap (·.events)
        let m : Moment (standard R) := ⟨events, fresh.after calls, []⟩
        (fresh.after calls).control? n = some c → (sentOn ⟨n, 0⟩ events).getLast? = some msg →
          msg = c.store.message ∨ Moment.SetSince fresh m n ∨ Moment.Overtaken fresh m n msg := by
  obtain ⟨s, fresh, hs, hfresh⟩ := link_built hedits
  have htuned := tuned_built hedits hfresh
  refine ⟨s, fresh, hs, hfresh, ?_⟩
  intro calls n c msg events m hc hlast
  have hm : Moment.OfRun fresh m := Moment.ofRun_outcomes fresh calls
  have hfine : ∀ x, Moment.OfRun fresh x → x.Faultless :=
    fun _ hx => hx.faultless_built hedits hs hfresh
  have hcontrol : ∀ x, Moment.OfRun fresh x → ∃ c, x.engine.control? n = some c := by
    intro x hx
    have hkind := hm.isSome_control htuned n
    rw [← hx.isSome_control htuned n] at hkind
    have hsome : (m.engine.control? n).isSome = true := by simp [m, hc]
    exact Option.isSome_iff_exists.mp (hkind ▸ hsome)
  cases hm.telling hfine hcontrol with
  | about hwork => cases hwork
  | told htold _ =>
    refine (htold msg hlast).imp_left fun hstored => ?_
    simpa [Moment.stored?, m, hc, eq_comm] using hstored

def twoBoxes : List (Edit (standard Float)) :=
  [.add "nbx" [.float 0, .float 10, .float 1, .float 5],
    .add "nbx" [.float 0, .float 10, .float 1, .float 7], .connect 0 0 1 (.regular 0)]

theorem fromCatalog_twoBoxes : ∀ edit ∈ twoBoxes, edit.fromCatalog = true := by
  simp [twoBoxes, Edit.fromCatalog]

set_option maxRecDepth 1024 in
/-- The second box takes what the first one sends before it has sent its own value. -/
theorem old_value_last :
    let calls : List (Call Float) := [.configure ⟨44100, 64, 1⟩]
    ∃ s fresh c, (Schedule.compile (Patch.built twoBoxes)).ending = .done s ∧
      (link s (Patch.built twoBoxes) .empty).ending = .done fresh ∧
      let events := (outcomes perform fresh calls).flatMap (·.events)
      (fresh.after calls).control? 1 = some c ∧ c.store.message = [.float 5] ∧
        (sentOn ⟨1, 0⟩ events).getLast? = some [.float 7] ∧
        ¬ Moment.SetSince fresh ⟨events, fresh.after calls, []⟩ 1 := by
  intro calls
  obtain ⟨s, fresh, hs, hfresh⟩ := link_built fromCatalog_twoBoxes
  let events := (outcomes perform fresh calls).flatMap (·.events)
  have hfacts : ((fresh.after calls).control? 1).map (·.store.message) = some [.float 5] ∧
      (sentOn ⟨1, 0⟩ events).getLast? = some [.float 7] ∧
      events.getLast?.bind (Event.sentOn? ⟨1, 0⟩) = some [.float 7] := by
    obtain rfl := Ending.done.inj (hs.symm.trans (rfl : _ = Ending.done _))
    obtain rfl := Ending.done.inj (hfresh.symm.trans (rfl : _ = Ending.done _))
    exact ⟨by decide +kernel, by decide +kernel, by decide +kernel⟩
  obtain ⟨hholds, hlast, hevent⟩ := hfacts
  obtain ⟨c, hc, hmsg⟩ := Option.map_eq_some_iff.mp hholds
  obtain ⟨event, hevent, hsent⟩ := Option.bind_eq_some_iff.mp hevent
  exact ⟨s, fresh, c, hs, hfresh, hc, hmsg, hlast,
    Moment.not_setSince rfl hevent (by rw [hsent]; rfl)⟩

theorem holds_another_value :
    ∃ s fresh, (Schedule.compile (Patch.built twoBoxes)).ending = .done s ∧
      (link s (Patch.built twoBoxes) .empty).ending = .done fresh ∧
      ¬ ∀ calls n c msg,
        let events := (outcomes perform fresh calls).flatMap (·.events)
        (fresh.after calls).control? n = some c → (sentOn ⟨n, 0⟩ events).getLast? = some msg →
          msg = c.store.message ∨
            Moment.SetSince fresh ⟨events, fresh.after calls, []⟩ n := by
  obtain ⟨s, fresh, c, hs, hfresh, hc, hmsg, hlast, hnot⟩ := old_value_last
  refine ⟨s, fresh, hs, hfresh, fun h => ?_⟩
  rcases h _ 1 c _ hc hlast with hsame | hset
  · rw [hmsg] at hsame
    exact absurd hsame (by decide +kernel)
  · exact hnot hset

theorem tells_what_it_holds_on_load :
    let calls : List (Call Float) := [.configure ⟨44100, 64, 1⟩]
    (∀ edit ∈ twoBoxes, edit.fromCatalog = true) ∧
      ∃ s fresh c, (Schedule.compile (Patch.built twoBoxes)).ending = .done s ∧
        (link s (Patch.built twoBoxes) .empty).ending = .done fresh ∧
        let events := (outcomes perform fresh calls).flatMap (·.events)
        (fresh.after calls).control? 1 = some c ∧
          c.store.message = [.float 5] ∧
          (sentOn ⟨1, 0⟩ events).getLast? = some [.float 7] ∧
          Moment.Overtaken fresh ⟨events, fresh.after calls, []⟩ 1 [.float 7] := by
  intro calls
  obtain ⟨s, fresh, c, hs, hfresh, hc, hmsg, hlast, hnot⟩ := old_value_last
  obtain ⟨s', fresh', hs', hfresh', htells⟩ := tells_what_it_holds fromCatalog_twoBoxes
  cases hs'.symm.trans hs
  cases hfresh'.symm.trans hfresh
  refine ⟨fromCatalog_twoBoxes, s, fresh, c, hs, hfresh, hc, hmsg, hlast, ?_⟩
  rcases htells calls 1 c _ hc hlast with hsame | hset | hovertaken
  · rw [hmsg] at hsame
    exact absurd hsame (by decide +kernel)
  · exact absurd hset hnot
  · exact hovertaken

end Engine

end Patchbay
