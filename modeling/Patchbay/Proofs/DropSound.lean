import Patchbay.Node.Session
import Patchbay.Proofs.RangeSound

/-!
# Dropped messages leave no trace

A handler that notes that it dropped a message did nothing else, and its instance goes on as if the
message had never come. Where an instance takes numbers, everything but the messages of a short list
is dropped.
-/

namespace Patchbay

variable {R : Type}

namespace Notice

def isDrop : Notice R → Bool
  | dropped .. | invalidSet .. | unexpectedCoefficient .. | emptyFilterUpdate ..
  | busNameNotSymbol .. | noBusBound .. => true
  | violated .. | replacedType .. | configuring .. | outputOnLoad .. | printed .. | cascadeCut ..
  | silenced .. => false

end Notice

/-! ## Dropping -/

namespace Handled

variable {σ τ : Type} {s : σ} {h : Handled R σ}

def Drops (h : Handled R σ) (s : σ) : Prop := ∃ n : Notice R, n.isDrop = true ∧ h = .notify s n

def Decided (h : Handled R σ) (s : σ) : Prop := h.Drops s ∨ ∀ n ∈ h.notices, n.isDrop = false

theorem Drops.notices (hd : h.Drops s) : ∃ n ∈ h.notices, n.isDrop = true := by
  obtain ⟨n, hn, rfl⟩ := hd
  exact ⟨n, by simp [notify], hn⟩

theorem drops_notify {n : Notice R} (hn : n.isDrop = true) : (notify s n).Drops s := ⟨n, hn, rfl⟩

@[simp] theorem drops_notify_iff {n : Notice R} : (notify s n).Drops s ↔ n.isDrop = true := by
  refine ⟨fun hd => ?_, drops_notify⟩
  obtain ⟨n', hn', heq⟩ := hd
  cases heq
  exact hn'

@[simp] theorem not_drops_quiet {t : σ} : ¬ (quiet t : Handled R σ).Drops s := by
  simp [Drops, quiet, notify]

theorem Decided.of_drop {n : Notice R} (hn : n.isDrop = true) : (notify s n).Decided s :=
  Or.inl (drops_notify hn)

theorem Decided.of_silent (hnone : h.notices = []) : h.Decided s := Or.inr (by simp [hnone])

theorem drops_map {f : σ → τ} (hf : f.Injective) : (h.map f).Drops (f s) ↔ h.Drops s := by
  obtain ⟨state, emissions, notices, fault⟩ := h
  simp [Drops, map, notify, hf.eq_iff]

theorem Decided.map {f : σ → τ} (hd : h.Decided s) : (h.map f).Decided (f s) := by
  refine hd.imp ?_ id
  rintro ⟨n, hn, rfl⟩
  exact ⟨n, hn, rfl⟩

theorem Decided.drops (hd : h.Decided s) (hdrop : ∃ n ∈ h.notices, n.isDrop = true) :
    h.Drops s := by
  obtain ⟨n, hn, hdropped⟩ := hdrop
  refine hd.resolve_right fun hall => ?_
  rw [hall n hn] at hdropped
  cases hdropped

end Handled

variable [Sample R]

theorem ControlState.notices_settle (s : ControlState R) (store : Store R) :
    (s.settle store).notices = [] := by
  unfold settle
  split <;> rfl

theorem ControlState.message_decided (s : ControlState R) (inlet : PortId) (msg : Message R) :
    (s.message inlet msg).Decided s := by
  unfold message
  split
  · exact .of_drop rfl
  · split
    · exact .of_silent rfl
    · exact .of_silent rfl
    · exact .of_silent rfl
    · split
      · exact .of_silent (s.notices_settle _)
      · exact .of_drop rfl
    · split
      · exact .of_silent (s.notices_settle _)
      · exact .of_drop rfl

theorem StandardState.message_decided (s : StandardState R) (inlet : PortId) (msg : Message R)
    (rate : R) : (s.message inlet msg rate).Decided s := by
  cases s with
  | control s => exact (s.message_decided inlet msg).map
  | filter s =>
    refine Handled.Decided.map (?_ : (s.message inlet msg rate).Decided s)
    unfold FilterState.message
    split
    · exact .of_drop rfl
    · split
      · exact .of_silent rfl
      · exact .of_drop rfl
  | oscillator s =>
    refine Handled.Decided.map (?_ : (s.message inlet msg).Decided s)
    unfold OscillatorState.message
    split
    · split
      · exact .of_silent rfl
      · split
        · exact .of_silent rfl
        · exact .of_drop rfl
    · exact .of_drop rfl
  | constant s =>
    refine Handled.Decided.map (?_ : (s.message msg).Decided s)
    unfold ConstantState.message
    split
    · exact .of_silent rfl
    · exact .of_drop rfl
  | route s =>
    refine Handled.Decided.map (?_ : (s.message inlet msg).Decided s)
    cases s with
    | many filters =>
      simp only [RouteState.message]
      split
      · exact .of_drop rfl
      · split <;> exact .of_silent rfl
    | single filter =>
      simp only [RouteState.message]
      split
      · split
        · exact .of_silent rfl
        · exact .of_drop rfl
      · split
        · exact .of_drop rfl
        · split <;> exact .of_silent rfl
  | print s => exact Or.inr fun n hn => by rw [List.mem_singleton.mp hn]; rfl
  | send s =>
    refine Handled.Decided.map (?_ : (s.message inlet msg).Decided s)
    unfold SendState.message
    split
    · split
      · exact .of_silent rfl
      · exact .of_drop rfl
    · split
      · exact .of_silent rfl
      · exact .of_drop rfl
  | receive s => exact .of_silent rfl

/-! ## Instances that take numbers -/

section
omit [Sample R]

theorem Message.isBang_iff {msg : Message R} : msg.isBang = true ↔ msg = bang := by
  rcases msg with _ | ⟨t, _ | ⟨u, msg⟩⟩
  · simp [isBang, bang]
  · cases t <;> simp [isBang, symbolAt?, Token.symbol?, bang]
  · simp [isBang, bang]

def Message.Rebinds (msg : Message R) : Prop :=
  ∃ t, msg = [.symbol "send", t] ∨ msg = [.symbol "receive", t]

end

namespace Control

theorem rebindTarget?_length {msg : Message R} {bus : Option String}
    (h : rebindTarget? msg = some bus) : msg.length = 2 := by
  by_contra hlength
  simp [rebindTarget?, hlength] at h

theorem pair_of_word {msg : Message R} {word : String} {bus : Option String}
    (h : (if msg.startsWith word then rebindTarget? msg else none) = some bus) :
    ∃ t, msg = [.symbol word, t] := by
  by_cases hword : msg.startsWith word = true
  · rw [if_pos hword] at h
    have hlength := rebindTarget?_length h
    rw [Message.eq_of_startsWith hword, List.length_cons, Nat.add_right_cancel_iff,
      List.length_eq_one_iff] at hlength
    obtain ⟨t, ht⟩ := hlength
    exact ⟨t, by rw [Message.eq_of_startsWith hword, ht]⟩
  · simp [hword] at h

/-- Which messages are commands of their own. -/
theorem command_cases (msg : Message R) : match Command.ofMessage msg with
    | .bang => msg = .bang
    | .bindSend _ | .bindReceive _ => msg.Rebinds
    | .set payload | .value payload => msg = payload ∨ msg = .symbol "set" :: payload := by
  by_cases hbang : msg.isBang = true
  · have hcommand : Command.ofMessage msg = .bang := by simp [Command.ofMessage, hbang]
    rw [hcommand]
    exact Message.isBang_iff.mp hbang
  · cases hsend : (if msg.startsWith "send" then rebindTarget? msg else none) with
    | some bus =>
      have hcommand : Command.ofMessage msg = .bindSend bus := by
        simp only [Command.ofMessage, hbang, hsend, Bool.false_eq_true, if_false]
      rw [hcommand]
      exact (pair_of_word hsend).imp fun _ => Or.inl
    | none =>
      cases hreceive : (if msg.startsWith "receive" then rebindTarget? msg else none) with
      | some bus =>
        have hcommand : Command.ofMessage msg = .bindReceive bus := by
          simp only [Command.ofMessage, hbang, hsend, hreceive, Bool.false_eq_true, if_false]
        rw [hcommand]
        exact (pair_of_word hreceive).imp fun _ => Or.inr
      | none =>
        cases hcommand : Command.ofMessage msg with
        | set payload => exact payload_of_command (Or.inr hcommand)
        | value payload => exact payload_of_command (Or.inl hcommand)
        | bang | bindSend | bindReceive =>
          simp only [Command.ofMessage, hbang, hsend, hreceive, Bool.false_eq_true,
            if_false] at hcommand
          split at hcommand <;> cases hcommand

end Control

namespace Store

def isNumeric : Store R → Bool
  | float .. | toggle .. => true
  | symbol _ | list _ => false

theorem accept?_numeric {st : Store R} (h : st.isNumeric = true) (payload : Message R) :
    (∃ v st', payload = [.float v] ∧ st.accept? payload = some st' ∧ st'.isNumeric = true) ∨
      (∀ v, payload ≠ [.float v]) ∧ st.accept? payload = none := by
  cases hv : payload.singleFloat? with
  | some v =>
    have hpayload := Message.singleFloat?_eq_some.mp hv
    cases st with
    | float | toggle => exact Or.inl ⟨v, _, hpayload, by rw [accept?, hv]; rfl, rfl⟩
    | symbol | list => cases h
  | none =>
    refine Or.inr ⟨?_, ?_⟩
    · intro v hpayload
      rw [Message.singleFloat?_eq_some.mpr hpayload] at hv
      cases hv
    · cases st with
      | float | toggle => simp [accept?, hv]
      | symbol | list => cases h

end Store

namespace ControlState

/-- A message leaves a control what it is. If it gives it another store, then by a bang or a payload
that the store accepts. -/
theorem message_store (s : ControlState R) (inlet : PortId) (msg : Message R) :
    (s.message inlet msg).state.kind = s.kind ∧
      let st := (s.message inlet msg).state.store
      st = s.store ∨ st = s.store.onBang ∨ ∃ payload, s.store.accept? payload = some st := by
  have hsettle : ∀ {payload store}, s.store.accept? payload = some store →
      (s.settle store).state.kind = s.kind ∧
        let st := (s.settle store).state.store
        st = s.store ∨ st = s.store.onBang ∨ ∃ payload, s.store.accept? payload = some st := by
    intro payload store hacc
    unfold settle
    split
    · exact ⟨rfl, Or.inr (Or.inr ⟨payload, hacc⟩)⟩
    · exact ⟨rfl, Or.inl rfl⟩
  unfold message
  split
  · exact ⟨rfl, Or.inl rfl⟩
  · split
    · exact ⟨rfl, Or.inr (Or.inl rfl)⟩
    · exact ⟨rfl, Or.inl rfl⟩
    · exact ⟨rfl, Or.inl rfl⟩
    · split
      · exact hsettle ‹_›
      · exact ⟨rfl, Or.inl rfl⟩
    · split
      · exact hsettle ‹_›
      · exact ⟨rfl, Or.inl rfl⟩

theorem message_numeric {s : ControlState R} (h : s.store.isNumeric = true) (inlet : PortId)
    (msg : Message R) : (s.message inlet msg).state.store.isNumeric = true := by
  rcases (s.message_store inlet msg).2 with hsame | hbang | ⟨payload, haccepted⟩
  · rwa [hsame]
  · rw [hbang]
    cases hstore : s.store with
    | float | toggle => rfl
    | symbol | list => rw [hstore] at h; cases h
  · obtain ⟨_, st, -, hst, hnumeric⟩ | ⟨-, hnone⟩ := Store.accept?_numeric h payload
    · cases haccepted.symm.trans hst
      exact hnumeric
    · rw [hnone] at haccepted
      cases haccepted

/-- A control that holds a number heeds numbers, a bang and the names of its buses. -/
theorem drops_iff {s : ControlState R} (h : s.store.isNumeric = true) (msg : Message R) :
    (s.message (.regular 0) msg).Drops s ↔
      ¬ ((∃ v, msg.Offers v) ∨ msg = .bang ∨ msg.Rebinds) := by
  have haccept : ∀ v, ∃ st, s.store.accept? [.float v] = some st := by
    intro v
    obtain ⟨_, st, -, hst, -⟩ | ⟨hnone, -⟩ := Store.accept?_numeric h [.float v]
    · exact ⟨st, hst⟩
    · exact absurd rfl (hnone v)
  constructor
  · intro hdrops hheeds
    have hsilent : (s.message (.regular 0) msg).notices = [] := by
      obtain ⟨v, rfl | rfl⟩ | rfl | ⟨t, rfl | rfl⟩ := hheeds
      · obtain ⟨st, hst⟩ := haccept v
        have hcommand : Control.Command.ofMessage [Token.float v] = .value [.float v] := rfl
        simp [message, hcommand, hst, notices_settle]
      · obtain ⟨st, hst⟩ := haccept v
        have hcommand :
            Control.Command.ofMessage [.symbol "set", Token.float v] = .set [.float v] := rfl
        simp [message, hcommand, hst, notices_settle]
      · rfl
      · rfl
      · rfl
    obtain ⟨n, hn, -⟩ := hdrops.notices
    rw [hsilent] at hn
    cases hn
  · intro hnot
    have hrefused : ∀ payload, msg = payload ∨ msg = .symbol "set" :: payload →
        s.store.accept? payload = none := by
      intro payload hpayload
      obtain ⟨v, _, rfl, -⟩ | ⟨-, hnone⟩ := Store.accept?_numeric h payload
      · exact absurd (Or.inl ⟨v, hpayload⟩) hnot
      · exact hnone
    have hcases := Control.command_cases msg
    cases hcommand : Control.Command.ofMessage msg with
    | bang =>
      rw [hcommand] at hcases
      exact absurd (Or.inr (Or.inl hcases)) hnot
    | bindSend bus | bindReceive bus =>
      rw [hcommand] at hcases
      exact absurd (Or.inr (Or.inr hcases)) hnot
    | set payload | value payload =>
      rw [hcommand] at hcases
      simp only [message, hcommand, hrefused payload hcases]
      exact Handled.drops_notify rfl

end ControlState

omit [Sample R] in
theorem Filter.setting?_eq_some {msg : Message R} {v : R} :
    setting? msg = some v ↔ msg.Offers v := by
  rcases msg with _ | ⟨t, _ | ⟨u, _ | ⟨w, msg⟩⟩⟩
  · simp [setting?, Message.isSingleFloat, Message.Offers]
  · cases t <;> simp [setting?, Message.isSingleFloat, Message.isFloatAt, Message.floatAt?,
      Token.isFloat, Token.float?, Message.Offers]
  · cases t <;> cases u <;> simp [setting?, Message.isSingleFloat, Message.startsWith,
      Message.symbolAt?, Message.floatAt?, Token.symbol?, Token.float?, Message.Offers]
  · simp [setting?, Message.isSingleFloat, Message.Offers]

theorem FilterState.drops_iff {s : FilterState R} (hmode : s.mode = .message) (msg : Message R)
    (rate : R) : (s.message (.shadowOf 1) msg rate).Drops s ↔ ¬ ∃ v, msg.Offers v := by
  simp only [← Filter.setting?_eq_some]
  cases hv : Filter.setting? msg with
  | some v => simp [message, hmode, hv]
  | none => simp [message, hmode, hv, Notice.isDrop]

omit [Sample R] in
theorem ConstantState.drops_iff (s : ConstantState R) (msg : Message R) :
    (s.message msg).Drops s ↔ ¬ ∃ v, msg = [.float v] := by
  simp only [← Message.singleFloat?_eq_some]
  cases hv : msg.singleFloat? with
  | some v => simp [message, hv]
  | none => simp [message, hv, Notice.isDrop]

theorem OscillatorState.drops_iff {s : OscillatorState R} {inlet : PortId}
    (hinlet : inlet = .shadowOf 0 ∨ inlet = .regular 1) (msg : Message R) :
    (s.message inlet msg).Drops s ↔ ¬ ∃ v, msg = [.float v] := by
  simp only [← Message.singleFloat?_eq_some]
  cases hv : msg.singleFloat? with
  | some v =>
    by_cases hfrequency : inlet = .shadowOf 0
    · simp [message, hv, hfrequency]
    · have hphase := hinlet.resolve_left hfrequency
      rw [message, hv]
      simp only [if_neg hfrequency, if_pos hphase, Handled.not_drops_quiet, Option.some.injEq,
        exists_eq', not_true_eq_false]
  | none => simp [message, hv, Notice.isDrop]

/-! ## Instances over their life -/

namespace Family

variable {F : Family R}

omit [Sample R] in
theorem responses_append (later : List (Stimulus R)) : ∀ (before : List (Stimulus R)) (s : F.State),
    F.responses s (before ++ later) = F.responses s before ++ F.responses (F.after s before) later
  | [], _ => rfl
  | stimulus :: before, s =>
    congrArg (F.respond s stimulus :: ·) (responses_append later before (F.heed s stimulus))

omit [Sample R] in
theorem length_responses : ∀ (stimuli : List (Stimulus R)) (s : F.State),
    (F.responses s stimuli).length = stimuli.length
  | [], _ => rfl
  | stimulus :: stimuli, s => congrArg Nat.succ (length_responses stimuli (F.heed s stimulus))

omit [Sample R] in
theorem getElem?_responses : ∀ (stimuli : List (Stimulus R)) (k : Nat) (s : F.State),
    (F.responses s stimuli)[k]? = stimuli[k]?.map (F.respond (F.after s (stimuli.take k)))
  | [], _, _ => rfl
  | _ :: _, 0, _ => rfl
  | stimulus :: stimuli, k + 1, s => getElem?_responses stimuli k (F.heed s stimulus)

omit [Sample R] in
theorem after_keeps {I : F.State → Prop} (hstep : ∀ s stimulus, I s → I (F.heed s stimulus))
    (history : List (Stimulus R)) : ∀ {s : F.State}, I s → I (F.after s history) := by
  induction history with
  | nil => exact fun h => h
  | cons stimulus history ih => exact fun h => ih (hstep _ stimulus h)

end Family

def ControlKind.takesNumbers (kind : ControlKind) : Bool := kind.isNumeric || kind == .toggle

namespace Control

theorem readArgs_takesNumbers {kind : ControlKind} (hkind : kind.takesNumbers = true)
    {raw : List (Token R)} {a : ControlArgs R} (h : readArgs kind raw = .ok a) :
    ∃ v, a.initValue = .float v := by
  by_cases hnumeric : kind.isNumeric = true
  · exact (readArgs_numeric hnumeric h).1
  · obtain rfl : kind = .toggle := by simpa [ControlKind.takesNumbers, hnumeric] using hkind
    obtain ⟨_, _, h⟩ := switchArgs_ok h
    exact loadedArgs_init h

theorem startStore_numeric {kind : ControlKind} {a : ControlArgs R} {store : Store R}
    (hinit : ∃ v, a.initValue = .float v) (h : (startStore kind a).ending = .done store) :
    store.isNumeric = true := by
  obtain ⟨v, hv⟩ := hinit
  simp only [startStore, hv] at h
  by_cases htoggle : kind = .toggle
  · rw [if_pos htoggle] at h
    cases h
    rfl
  · rw [if_neg htoggle] at h
    obtain ⟨_, -, h⟩ := Traced.bind_done.mp h
    cases h
    rfl

end Control

namespace StandardState

def TakesNumbers : StandardState R → PortId → Prop
  | filter s, inlet => s.mode = .message ∧ inlet = .shadowOf 1
  | oscillator _, inlet => inlet = .shadowOf 0 ∨ inlet = .regular 1
  | constant _, _ => True
  | control s, inlet => s.kind.takesNumbers = true ∧ inlet = .regular 0
  | route _, _ | print _, _ | send _, _ | receive _, _ => False

def Heeds : StandardState R → Message R → Prop
  | filter _, msg => ∃ v, msg.Offers v
  | control _, msg => (∃ v, msg.Offers v) ∨ msg = .bang ∨ msg.Rebinds
  | _, msg => ∃ v, msg = [.float v]

def Fitting : StandardState R → Prop
  | control s => s.kind.takesNumbers = true → s.store.isNumeric = true
  | _ => True

theorem heed_fitting (s : StandardState R) (stimulus : Stimulus R) (h : s.Fitting) :
    Fitting ((standard R).heed s stimulus) := by
  cases s with
  | control s =>
    cases stimulus with
    | configure | tick => exact h
    | message inlet msg rate =>
      intro hkind
      have hsame : (s.message inlet msg).state.kind = s.kind := (s.message_store inlet msg).1
      exact ControlState.message_numeric (h (hsame ▸ hkind)) inlet msg
  | _ => cases stimulus <;> trivial

theorem drops_iff {s : StandardState R} (h : s.Fitting) {inlet : PortId}
    (hinlet : s.TakesNumbers inlet) (msg : Message R) (rate : R) :
    (s.message inlet msg rate).Drops s ↔ ¬ s.Heeds msg := by
  cases s with
  | filter s =>
    obtain ⟨hmode, rfl⟩ := hinlet
    exact (Handled.drops_map fun _ _ => filter.inj).trans (FilterState.drops_iff hmode msg rate)
  | oscillator s =>
    exact (Handled.drops_map fun _ _ => oscillator.inj).trans (OscillatorState.drops_iff hinlet msg)
  | constant s => exact (Handled.drops_map fun _ _ => constant.inj).trans (s.drops_iff msg)
  | control s =>
    obtain ⟨hkind, rfl⟩ := hinlet
    exact (Handled.drops_map fun _ _ => control.inj).trans (ControlState.drops_iff (h hkind) msg)
  | route | print | send | receive => cases hinlet

end StandardState

theorem Builtin.declares_fitting {type : NodeType (standard R)} {args : StandardArgs R}
    {topology : Topology} (h : Builtin type args topology) {wired : Wired}
    {d : Declared (StandardState R)} (hd : (type.declare args wired).ending = .done d) :
    d.state.Fitting := by
  cases h with
  | control kind raw a read =>
    obtain ⟨d₀, hd₀, rfl⟩ := Blueprint.declared_of_inFamily hd rfl rfl fun _ => rfl
    intro hkind
    obtain ⟨store, hstore, hd₀⟩ := Traced.bind_done.mp hd₀
    cases hd₀
    exact Control.startStore_numeric (Control.readArgs_takesNumbers hkind read) hstore
  | _ =>
    obtain ⟨d₀, hd₀, rfl⟩ := Blueprint.declared_of_inFamily hd rfl rfl fun _ => rfl
    cases hd₀
    trivial

/-- Whatever an instance has been through, a message that it notes as dropped changes nothing, sets
nothing off, and makes no difference to what the instance answers from then on. Where it takes
numbers, it drops all messages but those that it heeds. -/
theorem Standard.drops_leave_no_trace [LawfulSample R] {name : String}
    {type : NodeType (standard R)} (htype : (Catalog.standard R).get name = .ok type)
    {raw : List (Token R)} {args : StandardArgs R} (hargs : type.readArgs raw = .ok args)
    (wired : Wired) : ∃ d, (type.declare args wired).ending = .done d ∧
      ∀ (history : List (Stimulus R)) (inlet : PortId) (msg : Message R) (rate : R),
        let s := (standard R).after d.state history
        let h := s.message inlet msg rate
        ((∃ n ∈ h.notices, n.isDrop = true) → h.Drops s ∧
          ∀ later, ∃ before after note, note.isDrop = true ∧
            (standard R).responses d.state (history ++ later) = before ++ after ∧
            (standard R).responses d.state (history ++ .message inlet msg rate :: later) =
              before ++ .handled [] [note] none :: after ∧
            before.length = history.length) ∧
        (s.TakesNumbers inlet → (h.Drops s ↔ ¬ s.Heeds msg)) := by
  obtain ⟨topology, hbuild, hunique, hbuiltin⟩ := Standard.builds (Catalog.mem_of_get htype) hargs
  obtain ⟨d, hd, -⟩ := @Builtin.declares _ _ _ ⟨0, name, raw, args, topology, type⟩ hbuiltin wired
  refine ⟨d, hd, fun history inlet msg rate => ?_⟩
  intro s h
  have hfitting : s.Fitting := Family.after_keeps
    (fun _ _ => StandardState.heed_fitting _ _) history (hbuiltin.declares_fitting hd)
  refine ⟨fun hnoted => ?_, fun hinlet => StandardState.drops_iff hfitting hinlet msg rate⟩
  have hdrops := (s.message_decided inlet msg rate).drops hnoted
  refine ⟨hdrops, fun later => ?_⟩
  obtain ⟨note, hnote, heq⟩ := hdrops
  have hrest : (standard R).responses s (.message inlet msg rate :: later) =
      .handled [] [note] none :: (standard R).responses s later := by
    simp only [Family.responses, Family.respond, Family.heed, heq, Handled.notify]
  refine ⟨(standard R).responses d.state history, (standard R).responses s later, note, hnote,
    Family.responses_append later history _, ?_, Family.length_responses history _⟩
  rw [Family.responses_append, hrest]

/-- A filter that is running, told to set two numbers at once. -/
theorem Standard.drops_leave_no_trace_filter :
    let history : List (Stimulus Float) := [.configure 44100,
      .message (.shadowOf 1) [.float 200] 44100, .tick [1, 0] [0] 44100]
    let twice : Message Float := [.symbol "set", .float 1, .float 2]
    ∃ type args d, (Catalog.standard Float).get "lop~" = .ok type ∧
      type.readArgs [.float 100] = .ok args ∧
      (type.declare args (.ofInlets [])).ending = .done d ∧
      let s := (standard Float).after d.state history
      (s.message (.shadowOf 1) twice 44100).Drops s ∧
      ∀ later, ∃ before after note, note.isDrop = true ∧
        (standard Float).responses d.state (history ++ later) = before ++ after ∧
        (standard Float).responses d.state
            (history ++ .message (.shadowOf 1) twice 44100 :: later) =
          before ++ .handled [] [note] none :: after ∧
        before.length = history.length := by
  intro history twice
  have htype : (Catalog.standard Float).get "lop~" = .ok (Standard.filter .lop) := rfl
  have hargs : (Standard.filter .lop).readArgs [.float (100 : Float)] = .ok (.filter ⟨100⟩) := rfl
  obtain ⟨d, hd, hall⟩ := drops_leave_no_trace htype hargs (.ofInlets [])
  refine ⟨_, _, d, htype, hargs, hd, ?_⟩
  cases hd
  obtain ⟨hnoted, hdropped⟩ := hall history (.shadowOf 1) twice 44100
  have hunheeded : ¬ ∃ v, twice.Offers v := by simp [twice, Message.Offers]
  exact hnoted ((hdropped ⟨rfl, rfl⟩).mpr hunheeded).notices

end Patchbay
