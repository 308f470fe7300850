import Patchbay.Proofs.EngineSound
import Patchbay.Proofs.ScheduleSound

/-!
# Linked engines

An engine hosts a patch if there is an instance for every node, suited to the ports of the node, and
buffers as long as the schedule says. A linked engine hosts its patch, and whatever is called later,
it goes on doing so.
-/

namespace Patchbay

variable {R : Type} {F : Family R}

/-- What a host may rely on: an instance that suits the ports of its node goes on suiting them. Its
tick never faults, and fills the outlets with samples that do not depend on those before. -/
structure Family.Keeps (F : Family R) (Suits : F.State → Topology → Prop) : Prop where
  configure : ∀ {s t} rate, Suits s t → Suits (F.configure s rate).state t
  message : ∀ {s t} inlet msg rate, Suits s t → Suits (F.message s inlet msg rate).state t
  tick : ∀ {s t} inputs rate, Suits s t → inputs.length = t.inputWidth →
    ∃ st ys, Suits st t ∧ ys.length = t.outputWidth ∧
      ∀ own, own.length = t.outputWidth → F.tick s inputs own rate = ⟨st, ys, none⟩

/-- The same without the promise about ticks. One may fault, halfway through its outlets, but the
instance that it leaves suits the ports. -/
structure Family.Preserves (F : Family R) (Suits : F.State → Topology → Prop) : Prop where
  configure : ∀ {s t} rate, Suits s t → Suits (F.configure s rate).state t
  message : ∀ {s t} inlet msg rate, Suits s t → Suits (F.message s inlet msg rate).state t
  tick : ∀ {s t} inputs own rate, Suits s t → inputs.length = t.inputWidth →
    own.length = t.outputWidth → Suits (F.tick s inputs own rate).state t

theorem Family.Keeps.preserves {Suits : F.State → Topology → Prop} (h : F.Keeps Suits) :
    F.Preserves Suits where
  configure := h.configure
  message := h.message
  tick inputs own rate hs hi ho := by
    obtain ⟨st, ys, hst, _, hrun⟩ := h.tick inputs rate hs hi
    rw [hrun own ho]
    exact hst

/-- A property that callbacks, messages and ticks keep may be added to what is kept already. -/
theorem Family.Keeps.and [Zero R] {Suits Has : F.State → Topology → Prop} (h : F.Keeps Suits)
    (hconfigure : ∀ {s t} rate, Has s t → Has (F.configure s rate).state t)
    (hmessage : ∀ {s t} inlet msg rate, Has s t → Has (F.message s inlet msg rate).state t)
    (htick : ∀ {s t} inputs own rate, Has s t → Has (F.tick s inputs own rate).state t) :
    F.Keeps fun s t => Suits s t ∧ Has s t where
  configure rate hs := ⟨h.configure rate hs.1, hconfigure rate hs.2⟩
  message inlet msg rate hs := ⟨h.message inlet msg rate hs.1, hmessage inlet msg rate hs.2⟩
  tick {s t} inputs rate hs hi := by
    obtain ⟨st, ys, hst, hys, hrun⟩ := h.tick inputs rate hs.1 hi
    have hnext := htick inputs (List.replicate t.outputWidth 0) rate hs.2
    rw [hrun _ (by simp)] at hnext
    exact ⟨st, ys, ⟨hst, hnext⟩, hys, hrun⟩

namespace Engine

structure Hosts (Suits : F.State → Topology → Prop) (s : Schedule) (p : Patch F) (e : Engine F) :
    Prop where
  schedule : e.schedule = s
  length : e.nodes.length = p.nodes.length
  nodes : ∀ k live, e.nodes[k]? = some live → ∃ node, p.node? k = some node ∧
    live.topology = node.topology ∧ Suits live.state node.topology
  outputs : e.outputs.length = s.bufferLength
  inputs : e.inputs.length = s.inputWidths.foldr Nat.max 0

/-! ## One node at a time -/

section
variable {Suits : F.State → Topology → Prop} {s : Schedule} {p : Patch F} {e : Engine F}

theorem getElem?_setState (e : Engine F) (n k : NodeId) (st : F.State) :
    (e.setState n st).nodes[k]? =
      if n = k then e.nodes[k]?.map fun live => { live with state := st } else e.nodes[k]? := by
  unfold setState
  rw [List.getElem?_modify]
  by_cases h : n = k <;> simp [h]

theorem Hosts.suits (he : e.Hosts Suits s p) {n : NodeId} {live : Live F} {node : PatchNode F}
    (hlive : e.nodes[n]? = some live) (hn : p.node? n = some node) :
    Suits live.state node.topology := by
  obtain ⟨node', hn', _, hsuits⟩ := he.nodes n live hlive
  cases hn.symm.trans hn'
  exact hsuits

theorem Hosts.exists_live (he : e.Hosts Suits s p) {n : NodeId} (hn : n < p.nodes.length) :
    ∃ live node, e.nodes[n]? = some live ∧ p.node? n = some node ∧
      Suits live.state node.topology := by
  have hlive := List.getElem?_eq_getElem (he.length.symm ▸ hn)
  obtain ⟨node, hnode, _, hsuits⟩ := he.nodes n _ hlive
  exact ⟨_, node, hlive, hnode, hsuits⟩

theorem Hosts.of_frame (he : e.Hosts Suits s p) {e' : Engine F}
    (hschedule : e'.schedule = e.schedule) (hnodes : e'.nodes = e.nodes)
    (houtputs : e'.outputs = e.outputs) (hinputs : e'.inputs = e.inputs) :
    e'.Hosts Suits s p where
  schedule := hschedule.trans he.schedule
  length := hnodes ▸ he.length
  nodes k live h := he.nodes k live (hnodes ▸ h)
  outputs := houtputs ▸ he.outputs
  inputs := hinputs ▸ he.inputs

theorem Hosts.setState (he : e.Hosts Suits s p) {n : NodeId} {st : F.State}
    (hst : ∀ live node, e.nodes[n]? = some live → p.node? n = some node →
      Suits st node.topology) : (e.setState n st).Hosts Suits s p where
  schedule := he.schedule
  length := by simp [Engine.setState, he.length]
  nodes k live h := by
    rw [getElem?_setState] at h
    split at h
    · rename_i hk
      subst hk
      obtain ⟨old, hold, rfl⟩ := Option.map_eq_some_iff.mp h
      obtain ⟨node, hnode, ht, _⟩ := he.nodes n old hold
      exact ⟨node, hnode, ht, hst old node hold hnode⟩
    · exact he.nodes k live h
  outputs := he.outputs
  inputs := he.inputs

def samples (e : Engine F) (n : NodeId) : List R :=
  match e.schedule.slots[n]? with
  | some slots => (e.outputs.drop slots.start).take slots.width
  | none => []

@[simp] theorem length_writeSlots (outputs samples : List R) (slots : Slots) :
    (writeSlots outputs slots samples).length = outputs.length := by
  simp [writeSlots]

theorem Hosts.slots (he : e.Hosts Suits s p) (hs : s.Links p) {n : NodeId} {node : PatchNode F}
    (hn : p.node? n = some node) {slots : Slots} (h : e.schedule.slots[n]? = some slots) :
    slots.width = node.topology.outputWidth ∧ slots.stop ≤ e.outputs.length := by
  rw [he.schedule, hs.slot hn] at h
  cases h
  refine ⟨Nat.add_sub_cancel_left _ _, ?_⟩
  rw [he.outputs, hs.bufferLength,
    ← Schedule.totalWidth_take_succ (Patch.getElem?_outputWidths hn)]
  exact Schedule.totalWidth_take_le _ _

theorem Hosts.length_samples (he : e.Hosts Suits s p) (hs : s.Links p) {n : NodeId}
    {node : PatchNode F} (hn : p.node? n = some node) :
    (e.samples n).length = node.topology.outputWidth := by
  obtain ⟨slots, hslot⟩ : ∃ slots, e.schedule.slots[n]? = some slots :=
    ⟨_, he.schedule ▸ hs.slot hn⟩
  obtain ⟨hwidth, hstop⟩ := he.slots hs hn hslot
  simp only [samples, hslot, List.length_take, List.length_drop]
  unfold Slots.width at hwidth ⊢
  omega

end

/-! ## Ticking one node -/

section
variable [Sample R]

theorem sumSources_length {slots : List Slots} {outputs : List R} :
    ∀ (sources : List SignalSource) (inputs inputs' : List R),
      sumSources slots outputs sources inputs = some inputs' → inputs'.length = inputs.length
  | [], _, _, h => by
    cases h
    rfl
  | s :: rest, inputs, inputs', h => by
    simp only [sumSources, Option.bind_eq_bind, Option.bind_eq_some_iff] at h
    obtain ⟨_, _, _, _, _, _, hrest⟩ := h
    simpa using sumSources_length rest _ _ hrest

theorem inputs?_length {e : Engine F} {n : NodeId} {inputs : List R}
    (h : e.inputs? n = some inputs) :
    e.schedule.inputWidths[n]? = some inputs.length ∧ inputs.length ≤ e.inputs.length := by
  simp only [inputs?, Option.bind_eq_bind, Option.bind_eq_some_iff] at h
  obtain ⟨width, hwidth, sources, _, h⟩ := h
  split at h
  · have hlen := sumSources_length _ _ _ h
    rw [List.length_replicate] at hlen
    rw [hlen]
    exact ⟨hwidth, by assumption⟩
  · cases h

theorem tickNode_cases (rate : R) (n : NodeId) (e : Engine F) :
    (tickNode rate n e).state = e ∨
      ∃ inputs slots live, e.inputs? n = some inputs ∧ e.schedule.slots[n]? = some slots ∧
        e.nodes[n]? = some live ∧ slots.stop ≤ e.outputs.length ∧
        tickNode rate n e =
          let t := F.tick live.state inputs (e.samples n) rate
          ⟨{ e.setState n t.state with
              inputs := inputs ++ e.inputs.drop inputs.length
              outputs := writeSlots e.outputs slots t.outputs }, [], t.fault⟩ := by
  unfold tickNode
  split
  · rename_i inputs slots live hinputs hslots hlive
    split
    · rename_i hstop
      exact Or.inr ⟨inputs, slots, live, hinputs, hslots, hlive, hstop, by simp [samples, hslots]⟩
    · exact Or.inl rfl
  · exact Or.inl rfl

structure Framed (e e' : Engine F) : Prop where
  schedule : e'.schedule = e.schedule
  config : e'.config = e.config
  length : e'.outputs.length = e.outputs.length

omit [Sample R] in
theorem Framed.refl (e : Engine F) : Framed e e := ⟨rfl, rfl, rfl⟩

theorem steady_framed (e : Engine F) : Steady (Framed e) where
  ticked {e'} rate n h := by
    rcases tickNode_cases rate n e' with heq | ⟨_, _, _, _, _, _, _, heq⟩
    · rwa [heq]
    · rw [heq]
      exact ⟨h.schedule, h.config, (length_writeSlots _ _ _).trans h.length⟩
  listened _ _ h := ⟨h.schedule, h.config, h.length⟩
  taken _ _ h := by
    rw [take_eq]
    exact ⟨h.schedule, h.config, h.length⟩

theorem Hosts.closed_of_preserves {Suits : F.State → Topology → Prop} (hF : F.Preserves Suits)
    {s : Schedule} {p : Patch F} (hs : s.Links p) :
    Closed p.nodes.length (Hosts Suits s p) where
  length he := he.length
  called rate he hlive := he.setState fun _ _ _ hnode => hF.configure rate (he.suits hlive hnode)
  handled inlet msg he hlive := he.setState fun _ _ _ hnode =>
    hF.message inlet msg _ (he.suits hlive hnode)
  ticked {e} rate n he := by
    rcases tickNode_cases rate n e with
      h | ⟨inputs, slots, live, hinputs, hslots, hlive, _, h⟩
    · rw [h]; exact he
    · obtain ⟨hwidth, hle⟩ := inputs?_length hinputs
      have hnew : (e.setState n (F.tick live.state inputs (e.samples n) rate).state).Hosts
          Suits s p := he.setState fun live' node hlive' hnode => by
        cases hlive.symm.trans hlive'
        rw [he.schedule, hs.inputWidth hnode, Option.some.injEq] at hwidth
        exact hF.tick inputs _ rate (he.suits hlive hnode) hwidth.symm
          (he.length_samples hs hnode)
      rw [h]
      refine ⟨hnew.schedule, hnew.length, hnew.nodes, ?_, ?_⟩
      · simpa using he.outputs
      · rw [← he.inputs]
        simp only [List.length_append, List.length_drop]
        omega
  captured n outlet msg he := by
    rw [capture_eq]
    exact he.of_frame rfl rfl rfl rfl
  subscribed _ _ _ he := he.of_frame rfl rfl rfl rfl
  unsubscribed _ _ he := he.of_frame rfl rfl rfl rfl
  configured _ he := he.of_frame rfl rfl rfl rfl
  listened _ _ he := he.of_frame rfl rfl rfl rfl
  taken n outlet he := by
    rw [take_eq]
    exact he.of_frame rfl rfl rfl rfl

theorem Hosts.closed {Suits : F.State → Topology → Prop} (hF : F.Keeps Suits) {s : Schedule}
    {p : Patch F} (hs : s.Links p) : Closed p.nodes.length (Hosts Suits s p) :=
  Hosts.closed_of_preserves hF.preserves hs

end

/-! ## Linking -/

def DeclaredFor (wired : List Wired) (node : PatchNode F) (live : Live F) : Prop :=
  live.topology = node.topology ∧
    ∃ d, (declareNode wired node).ending = .done d ∧ live.state = d.state

theorem declareAll_done {wired : List Wired} :
    ∀ {nodes : List (PatchNode F)} {lives : List (Live F)} {pending : List NodeId},
      (declareAll wired nodes).ending = .done (lives, pending) →
        List.Forall₂ (DeclaredFor wired) nodes lives ∧
          ∀ n ∈ pending, ∃ node ∈ nodes, node.id = n
  | [], _, _, h => by
    cases h
    exact ⟨.nil, by simp⟩
  | node :: nodes, _, _, h => by
    simp only [declareAll, Traced.bind_done, Traced.ending_pure, Ending.done.injEq,
      Prod.mk.injEq] at h
    obtain ⟨d, hd, ⟨lives, pending⟩, hrest, rfl, rfl⟩ := h
    obtain ⟨hlives, hpending⟩ := declareAll_done hrest
    refine ⟨.cons ⟨rfl, d, hd, rfl⟩ hlives, fun n hn => ?_⟩
    have hold : n ∈ pending → ∃ m ∈ node :: nodes, m.id = n := fun hn => by
      obtain ⟨m, hm, hid⟩ := hpending n hn
      exact ⟨m, List.mem_cons_of_mem _ hm, hid⟩
    split at hn
    · rcases List.mem_cons.mp hn with rfl | hn
      · exact ⟨node, by simp, rfl⟩
      · exact hold hn
    · exact hold hn

/-- The last node is declared after all others. -/
theorem declareAll_snoc {wired : List Wired} {last : PatchNode F} :
    ∀ {nodes : List (PatchNode F)} {lives : List (Live F)} {pending : List NodeId},
      (declareAll wired (nodes ++ [last])).ending = .done (lives, pending) →
        ∃ before waiting d, (declareAll wired nodes).ending = .done (before, waiting) ∧
          (declareNode wired last).ending = .done d ∧
          lives = before ++ [⟨last.typeName, last.topology, last.type.reroute, d.state⟩] ∧
          pending = waiting ++ if d.wantsConfigure then [last.id] else []
  | [], _, _, h => by
    simp only [List.nil_append, declareAll, Traced.bind_done, Traced.ending_pure,
      Ending.done.injEq, Prod.mk.injEq] at h
    obtain ⟨d, hd, _, rfl, rfl, rfl⟩ := h
    exact ⟨[], [], d, rfl, hd, rfl, rfl⟩
  | node :: nodes, _, _, h => by
    simp only [List.cons_append, declareAll, Traced.bind_done, Traced.ending_pure,
      Ending.done.injEq, Prod.mk.injEq] at h
    obtain ⟨d₀, hd₀, ⟨lives, pending⟩, hrest, rfl, rfl⟩ := h
    obtain ⟨before, waiting, d, hbefore, hd, rfl, rfl⟩ := declareAll_snoc hrest
    simp only [declareAll, Traced.bind_done]
    refine ⟨_, _, d, ⟨d₀, hd₀, _, hbefore, rfl⟩, hd, rfl, ?_⟩
    cases d₀.wantsConfigure <;> rfl

theorem link_done [Zero R] {s : Schedule} {p : Patch F} {buses : Buses} {e : Engine F}
    (h : (link s p buses).ending = .done e) :
    ∃ lives pending, (declareAll s.wired p.nodes).ending = .done (lives, pending) ∧
      e = ⟨s, lives, enterAll s.wired p.nodes buses, pending, none,
        List.replicate s.bufferLength 0, List.replicate (s.inputWidths.foldr Nat.max 0) 0, ∅⟩ := by
  simp only [link, Traced.mapError_done, Traced.bind_done, Traced.ending_pure,
    Ending.done.injEq] at h
  obtain ⟨⟨lives, pending⟩, hdeclare, rfl⟩ := h
  exact ⟨lives, pending, hdeclare, rfl⟩

def Starts (Suits : F.State → Topology → Prop) (node : PatchNode F) : Prop :=
  ∀ wired d, (node.type.declare node.args wired).ending = .done d → Suits d.state node.topology

theorem hosts_link [Zero R] {Suits : F.State → Topology → Prop} {s : Schedule} {p : Patch F}
    (hstart : ∀ node ∈ p.nodes, Starts Suits node) {buses : Buses} {e : Engine F}
    (h : (link s p buses).ending = .done e) : e.Hosts Suits s p := by
  obtain ⟨lives, pending, hdeclare, rfl⟩ := link_done h
  have hlives := (declareAll_done hdeclare).1
  refine ⟨rfl, hlives.length_eq.symm, fun k live hk => ?_, by simp, by simp⟩
  obtain ⟨hlt, hget⟩ := List.getElem?_eq_some_iff.mp hk
  have hlt' : k < p.nodes.length := hlives.length_eq ▸ hlt
  obtain ⟨ht, d, hd, hstate⟩ := hlives.get hlt' hlt
  refine ⟨p.nodes[k], List.getElem?_eq_getElem hlt', by rw [← hget]; exact ht, ?_⟩
  obtain ⟨w, _, hdone⟩ := Traced.bind_done.mp hd
  rw [← hget]
  exact hstate ▸ hstart _ (List.getElem_mem hlt') w d hdone

end Engine

end Patchbay
