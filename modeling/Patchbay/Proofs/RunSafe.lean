import Patchbay.Proofs.BuildSafe
import Patchbay.Proofs.TickSound

/-!
# Running never faults

Everything a running engine looks up is there: targets and subscribers are nodes of the patch, slots
lie within the buffers, blocks have a length. Together with handlers that never fault this leaves no
call that could.
-/

namespace Patchbay

variable {R : Type} {F : Family R}

/-! ## Buses -/

namespace Buses

theorem subscribers_subscribe (b : Buses) (bus name : String) (s : Subscriber) :
    (b.subscribe bus s).subscribers name =
      if bus = name ∧ s ∉ b.subscribers name then b.subscribers name ++ [s]
      else b.subscribers name := by
  unfold subscribe
  by_cases hmem : s ∈ b.subscribers bus
  · rw [if_pos hmem, if_neg]
    rintro ⟨rfl, hnot⟩
    exact hnot hmem
  · rw [if_neg hmem, subscribers, Std.TreeMap.getD_insert]
    by_cases hbus : bus = name
    · subst hbus
      simp [hmem]
    · simp [hbus, subscribers]

theorem subscribers_unsubscribe (b : Buses) (bus name : String) (s : Subscriber) :
    (b.unsubscribe bus s).subscribers name =
      if bus = name then (b.subscribers name).filter (· ≠ s) else b.subscribers name := by
  unfold unsubscribe
  split
  · rename_i hnone
    rw [subscribers, Std.TreeMap.getD_erase]
    by_cases hbus : bus = name
    · subst hbus
      rw [if_pos rfl, hnone]
      simp
    · simp [hbus, subscribers]
  · rw [subscribers, Std.TreeMap.getD_insert]
    by_cases hbus : bus = name
    · subst hbus
      simp
    · simp [hbus, subscribers]

theorem mem_subscribe {b : Buses} {bus name : String} {s t : Subscriber}
    (h : t ∈ (b.subscribe bus s).subscribers name) : t = s ∨ ∃ old, t ∈ b.subscribers old := by
  rw [subscribers_subscribe] at h
  split at h
  · rcases List.mem_append.mp h with h | h
    · exact Or.inr ⟨name, h⟩
    · exact Or.inl (List.mem_singleton.mp h)
  · exact Or.inr ⟨name, h⟩

theorem mem_unsubscribe {b : Buses} {bus name : String} {s t : Subscriber}
    (h : t ∈ (b.unsubscribe bus s).subscribers name) : ∃ old, t ∈ b.subscribers old := by
  rw [subscribers_unsubscribe] at h
  split at h
  · exact ⟨name, (List.mem_filter.mp h).1⟩
  · exact ⟨name, h⟩

end Buses

/-! ## What an engine may look up -/

structure Family.Quiet (F : Family R) (Suits : F.State → Topology → Prop) : Prop where
  configure : ∀ {s t} rate, Suits s t → (F.configure s rate).fault = none
  message : ∀ {s t} inlet msg rate, Suits s t → (F.message s inlet msg rate).fault = none

namespace Engine

structure Ready (Suits : F.State → Topology → Prop) (s : Schedule) (p : Patch F) (e : Engine F) :
    Prop where
  hosts : e.Hosts Suits s p
  subscribers : ∀ bus, ∀ sub ∈ e.buses.subscribers bus, sub.node < p.nodes.length
  pending : ∀ n ∈ e.pending, n < p.nodes.length
  config : ∀ c, e.config = some c → c.blockSize ≠ 0

variable [Sample R]

theorem blockSize_of_validate {c : Config R} (h : c.validate = .ok ()) : c.blockSize ≠ 0 := by
  unfold Config.validate at h
  split at h
  · cases h
  · split at h
    · cases h
    · assumption

section
variable {Suits : F.State → Topology → Prop} (hF : F.Keeps Suits) {s : Schedule} {p : Patch F}
  (hs : s.Links p)
include hF hs

theorem Ready.closed : Closed p.nodes.length (Ready Suits s p) where
  length he := he.hosts.length
  called rate he hlive :=
    ⟨(Hosts.closed hF hs).called rate he.hosts hlive, he.subscribers, he.pending, he.config⟩
  handled inlet msg he hlive :=
    ⟨(Hosts.closed hF hs).handled inlet msg he.hosts hlive, he.subscribers, he.pending, he.config⟩
  ticked {e} rate n he := by
    have hhosts := (Hosts.closed hF hs).ticked rate n he.hosts
    rcases tickNode_cases rate n e with h | ⟨_, _, _, _, _, _, _, h⟩
    · rw [h]; exact he
    · rw [h] at hhosts ⊢
      exact ⟨hhosts, he.subscribers, he.pending, he.config⟩
  captured {e} n outlet msg he := by
    have hhosts := (Hosts.closed hF hs).captured n outlet msg he.hosts
    rw [capture_eq] at hhosts ⊢
    exact ⟨hhosts, he.subscribers, he.pending, he.config⟩
  subscribed {e n} bus inlet hn he := by
    refine ⟨(Hosts.closed hF hs).subscribed bus inlet hn he.hosts, fun name t ht => ?_, he.pending,
      he.config⟩
    rcases Buses.mem_subscribe ht with rfl | ⟨old, ht⟩
    · exact hn
    · exact he.subscribers old t ht
  unsubscribed bus inlet he := by
    refine ⟨(Hosts.closed hF hs).unsubscribed bus inlet he.hosts, fun name t ht => ?_, he.pending,
      he.config⟩
    obtain ⟨old, ht⟩ := Buses.mem_unsubscribe ht
    exact he.subscribers old t ht
  configured hvalid he := by
    refine ⟨(Hosts.closed hF hs).configured hvalid he.hosts, he.subscribers, by simp,
      fun c hc => ?_⟩
    cases hc
    exact blockSize_of_validate hvalid
  listened n outlet he :=
    ⟨(Hosts.closed hF hs).listened n outlet he.hosts, he.subscribers, he.pending, he.config⟩
  taken {e} n outlet he := by
    have hhosts := (Hosts.closed hF hs).taken n outlet he.hosts
    rw [take_eq] at hhosts ⊢
    exact ⟨hhosts, he.subscribers, he.pending, he.config⟩

end

/-! ## Cascades -/

section
variable {Suits : F.State → Topology → Prop} (hF : F.Keeps Suits) (hq : F.Quiet Suits)
  {s : Schedule} {p : Patch F} (hs : s.Links p) (hp : p.Sound)

structure Safe (Suits : F.State → Topology → Prop) (s : Schedule) (p : Patch F) (d : Deliver F) :
    Prop where
  keeps : ∀ o n i m e, Ready Suits s p e → Ready Suits s p (d o n i m e).state
  faultless : ∀ o n i m e, n < p.nodes.length → Ready Suits s p e → (d o n i m e).fault = none

omit [Sample R] in
theorem publishWith_fault {d : Deliver F} (hd : Safe Suits s p d) (publisher : Option NodeId)
    (bus : String) (msg : Message R) {e : Engine F} (he : e.Ready Suits s p) :
    (publishWith d publisher bus msg e).fault = none :=
  Progress.each_fault (I := Ready Suits s p) _ _ (fun _ _ _ h => hd.keeps _ _ _ _ _ h)
    (fun sub hsub _ h => hd.faultless _ _ _ _ _ (he.subscribers bus sub hsub) h) he

include hF hs hp

theorem applyWith_fault {d : Deliver F} (hd : Safe Suits s p d) {n : NodeId}
    (emission : Emission R) {e : Engine F} (he : e.Ready Suits s p) :
    (applyWith d n emission e).fault = none := by
  cases emission with
  | send outlet msg =>
    refine Progress.andThen_fault rfl (Progress.each_fault (I := Ready Suits s p) _ _
      (fun _ _ _ h => hd.keeps _ _ _ _ _ h) (fun t ht _ h => hd.faultless _ _ _ _ _ ?_ h)
      ((Ready.closed hF hs).captured n outlet msg he))
    rw [he.hosts.schedule] at ht
    exact hs.targets_lt hp ht
  | publish bus msg => exact publishWith_fault hd _ bus msg he
  | subscribe => rfl
  | unsubscribe => rfl

include hq

theorem safe_deliver (room : Nat) : Safe Suits s p (deliver room) := by
  induction room with
  | zero =>
    refine ⟨(Ready.closed hF hs).deliver 0, fun o n i m e hn he => ?_⟩
    obtain ⟨_, _, hlive, _⟩ := he.hosts.exists_live hn
    unfold deliver
    rw [hlive]
  | succ room ih =>
    refine ⟨(Ready.closed hF hs).deliver (room + 1), fun o n i m e hn he => ?_⟩
    obtain ⟨_, _, hlive, _, hsuits⟩ := he.hosts.exists_live hn
    unfold deliver
    rw [hlive]
    exact Progress.andThen_fault (hq.message i m _ hsuits) <|
      Progress.each_fault (I := Ready Suits s p) _ _
        (fun emission _ _ h => (Ready.closed hF hs).applyWith ih.keeps hn emission h)
        (fun emission _ _ h => applyWith_fault hF hs hp ih emission h)
        ((Ready.closed hF hs).handled i m he hlive)

omit hp in
theorem runCallbacks_fault (rate : R) (ns : List NodeId) : ∀ (e : Engine F),
    (∀ n ∈ ns, n < p.nodes.length) → e.Ready Suits s p → (runCallbacks rate ns e).fault = none := by
  induction ns with
  | nil => exact fun _ _ _ => rfl
  | cons n ns ih =>
    intro e hns he
    obtain ⟨_, _, hlive, _, hsuits⟩ := he.hosts.exists_live (hns n (by simp))
    have hquiet := hq.configure rate hsuits
    unfold runCallbacks
    rw [hlive]
    dsimp only [absorb]
    rw [hquiet]
    exact ih _ (fun m hm => hns m (List.mem_cons_of_mem _ hm))
      ((Ready.closed hF hs).called rate he hlive)

/-! ## Calls -/

theorem configure_fault {e : Engine F} (he : e.Ready Suits s p) {config : Config R}
    {q : Progress R (Engine F)} (h : e.configure config = .ok q) : q.fault = none := by
  unfold configure at h
  split at h
  · cases h
  · split at h
    · cases h
    · rename_i hvalid
      cases h
      have hopen := (Ready.closed hF hs).configured hvalid he
      obtain ⟨hran, hnodes⟩ := (Ready.closed hF hs).runCallbacks config.sampleRate e.pending _ hopen
      have hsafe := safe_deliver hF hq hs hp maxDepth
      have hkeeps : ∀ x ∈ (runCallbacks config.sampleRate e.pending
          { e with config := some config, pending := [] }).state.2, ∀ emission ∈ x.2,
            ∀ e', Ready Suits s p e' → Ready Suits s p (applyWith (deliver maxDepth) x.1 emission
              e').state :=
        fun x hx emission _ e' h =>
          (Ready.closed hF hs).applyWith hsafe.keeps (hnodes x hx) emission h
      refine Progress.andThen_fault (runCallbacks_fault hF hq hs _ _ _ he.pending hopen) ?_
      refine Progress.each_fault (I := Ready Suits s p) _ _
        (fun x hx e' h => Progress.each_keeps _ _ (hkeeps x hx) h)
        (fun x hx e' h => Progress.each_fault (I := Ready Suits s p) _ _ (hkeeps x hx)
          (fun emission _ e' h => applyWith_fault hF hs hp hsafe emission h) h) hran

theorem send_fault {e : Engine F} (he : e.Ready Suits s p) {n : NodeId} {inlet : PortId}
    {msg : Message R} {q : Progress R (Engine F)} (h : e.send n inlet msg = .ok q) :
    q.fault = none := by
  unfold send at h
  split at h
  · cases h
  · split at h
    · cases h
    · rename_i live hlive
      split at h
      · cases h
      · cases h
        have hn := he.hosts.length ▸ (List.getElem?_eq_some_iff.mp hlive).1
        exact (safe_deliver hF hq hs hp _).faultless _ _ _ _ _ hn he

theorem publish_fault {e : Engine F} (he : e.Ready Suits s p) {bus : String} {msg : Message R}
    {q : Progress R (Engine F)} (h : e.publish bus msg = .ok q) : q.fault = none := by
  unfold publish at h
  split at h
  · cases h
  · cases h
    exact publishWith_fault (safe_deliver hF hq hs hp _) _ _ _ he

omit hq in
theorem tickAll_fault (rate : R) {e : Engine F} (he : e.Ready Suits s p) :
    (tickAll rate e).fault = none := by
  refine Progress.each_fault (I := Ready Suits s p) _ _
    (fun n _ _ h => (Ready.closed hF hs).ticked rate n h) (fun n hn e' h => ?_) he
  rw [he.hosts.schedule] at hn
  obtain ⟨node, hnode⟩ : ∃ node, p.node? n = some node :=
    ⟨_, List.getElem?_eq_getElem (hs.order_lt hn)⟩
  obtain ⟨e₁, hrun, _⟩ := h.hosts.tickNode hF hs hp rate hnode
  rw [hrun]

omit hF hq hp [Sample R] in
theorem slot_lt {e : Engine F} (he : e.Hosts Suits s p) {n : NodeId} {outlet slot : Nat}
    (h : e.schedule.slot? n outlet = some slot) : slot < s.bufferLength := by
  unfold Schedule.slot? at h
  split at h
  · rename_i slots hslots
    split at h
    · rename_i hlt
      cases h
      have hn : n < p.nodes.length := hs.slots_lt (he.schedule ▸ hslots)
      have hstop := (he.slots hs (show p.node? n = _ from List.getElem?_eq_getElem hn) hslots).2
      rw [he.outputs] at hstop
      unfold Slots.width at hlt
      omega
    · cases h
  · cases h

omit hq in
theorem runBlock_fault (rate : R) {slot : Nat} (hslot : slot < s.bufferLength) (n : Nat) :
    ∀ (done : List R) (e : Engine F), e.Ready Suits s p →
      (runBlock rate slot n done e).fault = none := by
  induction n with
  | zero => exact fun _ _ _ => rfl
  | succ n ih =>
    intro done e he
    have hticked := (Ready.closed hF hs).tickAll rate he
    unfold runBlock
    dsimp only
    rw [tickAll_fault hF hs hp rate he]
    dsimp only
    rw [List.getElem?_eq_getElem (hticked.hosts.outputs.symm ▸ hslot)]
    exact ih _ _ hticked

omit hq in
theorem processBlock_fault {e : Engine F} (he : e.Ready Suits s p) {node : NodeId}
    {outlet n : Nat} {b : Block F} (h : e.processBlock node outlet n = .ok b) : b.fault = none := by
  unfold processBlock at h
  split at h
  · cases h
  · rename_i slot hslot
    split at h
    · cases h
      exact runBlock_fault hF hs hp _ (slot_lt hs he.hosts hslot) _ _ _ he
    · split at h
      · cases h
        rfl
      · cases h

omit hq in
theorem renderBlocks_fault {node : NodeId} {outlet : Nat} (ns : List Nat) : ∀ {e : Engine F}
    {b : Block F}, e.Ready Suits s p → renderBlocks node outlet ns e = .ok b → b.fault = none := by
  induction ns with
  | nil =>
    intro e b _ h
    cases h
    rfl
  | cons n ns ih =>
    intro e b he h
    obtain ⟨first, hfirst, h⟩ := except_bind_ok.mp h
    have hnone := processBlock_fault hF hs hp he hfirst
    rw [hnone] at h
    obtain ⟨rest, hrest, h⟩ := except_bind_ok.mp h
    cases h
    have hnext : rest.fault = none := ih ((Ready.closed hF hs).processBlock he hfirst) hrest
    exact hnext

omit hq in
theorem render_fault {e : Engine F} (he : e.Ready Suits s p) {node : NodeId}
    {outlet frames : Nat} {b : Block F} (h : e.render node outlet frames = .ok b) :
    b.fault = none := by
  unfold render at h
  split at h
  · cases h
  · rename_i c hc
    rw [if_neg (he.config c hc)] at h
    exact renderBlocks_fault hF hs hp _ he h

theorem perform_not_faulted {e : Engine F} (he : e.Ready Suits s p) (call : Call R) (f : Fault) :
    (e.perform call).ending ≠ .faulted f := by
  have progress : ∀ {x : Except (EngineError R) (Progress R (Engine F))},
      (∀ q, x = .ok q → q.fault = none) → (e.unlessRefused x ofProgress).ending ≠ .faulted f := by
    intro x hx h
    cases x with
    | error err => cases h
    | ok q =>
      simp only [unlessRefused, ofProgress, hx q rfl] at h
      cases h
  have block : ∀ {x : Except (EngineError R) (Block F)}, (∀ b, x = .ok b → b.fault = none) →
      (e.unlessRefused x ofBlock).ending ≠ .faulted f := by
    intro x hx h
    cases x with
    | error err => cases h
    | ok b =>
      simp only [unlessRefused, ofBlock, hx b rfl] at h
      cases h
  cases call with
  | configure config => exact progress fun _ h => configure_fault hF hq hs hp he h
  | tick =>
    refine progress fun q h => ?_
    unfold tick at h
    split at h
    · cases h
    · cases h
      exact tickAll_fault hF hs hp _ he
  | block node outlet n => exact block fun _ h => processBlock_fault hF hs hp he h
  | render node outlet frames => exact block fun _ h => render_fault hF hs hp he h
  | send node inlet msg => exact progress fun _ h => send_fault hF hq hs hp he h
  | publish bus msg => exact progress fun _ h => publish_fault hF hq hs hp he h
  | listen node outlet => exact fun h => by cases h
  | take node outlet => exact fun h => by cases h

end

/-! ## Linked engines -/

omit [Sample R] in
theorem mem_foldl_subscribe {node : NodeId} {t : Subscriber} :
    ∀ (subs : List (String × PortId)) (buses : Buses) {bus : String},
      t ∈ (subs.foldl (fun b sub => b.subscribe sub.1 ⟨node, sub.2⟩) buses).subscribers bus →
        t.node = node ∨ ∃ old, t ∈ buses.subscribers old := by
  intro subs
  induction subs with
  | nil => exact fun buses old h => Or.inr ⟨old, h⟩
  | cons sub subs ih =>
    intro buses bus h
    rcases ih _ h with h | ⟨old, h⟩
    · exact Or.inl h
    · rcases Buses.mem_subscribe h with rfl | h
      · exact Or.inl rfl
      · exact Or.inr h

omit [Sample R] in
theorem mem_enterAll {wired : List Wired} : ∀ (nodes : List (PatchNode F)) (buses : Buses)
    {bus : String} {t : Subscriber}, t ∈ (enterAll wired nodes buses).subscribers bus →
      (∃ node ∈ nodes, t.node = node.id) ∨ ∃ old, t ∈ buses.subscribers old := by
  intro nodes
  induction nodes with
  | nil => exact fun buses bus t h => Or.inr ⟨bus, h⟩
  | cons node nodes ih =>
    intro buses bus t h
    unfold enterAll at h
    split at h
    · rcases ih _ h with ⟨m, hm, ht⟩ | ⟨old, h⟩
      · exact Or.inl ⟨m, List.mem_cons_of_mem _ hm, ht⟩
      · exact (mem_foldl_subscribe _ _ h).imp_left fun ht => ⟨node, by simp, ht⟩
    · exact Or.inr ⟨bus, h⟩
    · exact Or.inr ⟨bus, h⟩

omit [Sample R] in
theorem ready_link [Zero R] {Suits : F.State → Topology → Prop} {s : Schedule} {p : Patch F}
    (hp : p.Sound) (hstart : ∀ node ∈ p.nodes, Starts Suits node) {e : Engine F}
    (h : (link s p .empty).ending = .done e) : e.Ready Suits s p := by
  have hhosts := hosts_link hstart h
  obtain ⟨lives, pending, hdeclare, rfl⟩ := link_done h
  have hid : ∀ node ∈ p.nodes, node.id < p.nodes.length := by
    intro node hnode
    obtain ⟨k, hk⟩ := List.mem_iff_getElem?.mp hnode
    rw [hp.ids k node hk]
    exact Patch.node?_lt hk
  refine ⟨hhosts, fun bus t ht => ?_, fun n hn => ?_, fun c hc => by cases hc⟩
  · rcases mem_enterAll _ _ ht with ⟨node, hnode, ht⟩ | ⟨old, ht⟩
    · exact ht ▸ hid node hnode
    · simp [Buses.subscribers, Buses.empty] at ht
  · obtain ⟨node, hnode, rfl⟩ := (declareAll_done hdeclare).2 n hn
    exact hid node hnode

end Engine

/-! ## Built-in nodes -/

theorem StandardState.quiet [Sample R] [LawfulSample R] :
    (standard R).Quiet StandardState.Sound where
  configure rate h := (configure_sound _ h.2 rate).1
  message inlet msg rate h := (message_sound _ h.2 inlet msg rate).1

/-- From the empty patch to the last call nothing ever faults: every change over the built-in
catalog is made or refused, what was built is scheduled and linked, and whatever was called before,
a call to the engine is answered or refused. -/
theorem Engine.never_faults {edits : List (Edit (standard Float))}
    (hedits : ∀ edit ∈ edits, edit.fromCatalog = true) :
    (∀ edit, edit.fromCatalog = true → ∀ f,
      ((Patch.built edits).perform edit).ending ≠ .faulted f) ∧
    ∃ s fresh, (Schedule.compile (Patch.built edits)).ending = .done s ∧
      (link s (Patch.built edits) .empty).ending = .done fresh ∧
      ∀ calls call f, ((fresh.after calls).perform call).ending ≠ .faulted f := by
  have hp := Patch.sound_built edits
  have hstd := Patch.standard_built hedits
  refine ⟨fun edit hedit f => Patch.perform_not_faulted hp hstd hedit f, ?_⟩
  obtain ⟨s, fresh, hs, hfresh⟩ := link_built hedits
  have hlinks := (Schedule.compile_done hp hs).1
  have hready : fresh.Ready StandardState.Sound s (Patch.built edits) := by
    refine ready_link hp (fun node hnode wired d hd => ?_) hfresh
    obtain ⟨d', hd', hsound⟩ := (hstd.nodes node hnode).declares wired
    cases hd'.symm.trans hd
    exact hsound
  refine ⟨s, fresh, hs, hfresh, fun calls call f => ?_⟩
  exact perform_not_faulted StandardState.keeps_sound StandardState.quiet hlinks hp
    ((Ready.closed StandardState.keeps_sound hlinks).after hready calls) call f

/-- A slider without end and one whose bounds are turned round, wired to each other. -/
theorem Engine.never_faults_feedback :
    let edits : List (Edit (standard Float)) :=
      [.add "hsl" [.float (1 / 0)], .add "hsl" [.float 5, .float (-5)], .add "floatatom" [],
        .connect 1 0 2 (.regular 0), .connect 2 0 1 (.regular 0)]
    (∀ edit ∈ edits, edit.fromCatalog = true) ∧
      ∃ s fresh, (Schedule.compile (Patch.built edits)).ending = .done s ∧
        (link s (Patch.built edits) .empty).ending = .done fresh ∧
        ∀ calls call f, ((fresh.after calls).perform call).ending ≠ .faulted f := by
  intro edits
  have hedits : ∀ edit ∈ edits, edit.fromCatalog = true := by simp [edits, Edit.fromCatalog]
  exact ⟨hedits, (never_faults hedits).2⟩

end Patchbay
