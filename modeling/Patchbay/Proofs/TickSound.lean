import Patchbay.Proofs.StandardStates

/-!
# One tick is one step of the signals

In a tick every scheduled node steps once, on the samples that its sources put out in this same
tick. Slots do not overlap, so nothing else is overwritten, and the order among nodes that do not
feed one another makes no difference.
-/

namespace Patchbay

variable {R : Type} [Sample R] {F : Family R}

def Patch.wires (p : Patch F) (n : NodeId) (i : Nat) : List Cable :=
  p.cables.filter fun c => c.isSignal && c.toNode == n && c.inlet.index == i

namespace Engine

/-- What arrives at a signal inlet: the samples wired to it, added up from zero one by one. -/
def inflow? (e : Engine F) (p : Patch F) (n : NodeId) (i : Nat) : Option R :=
  ((p.wires n i).mapM fun c => e.signal? c.fromNode c.outlet).map fun xs => xs.foldl (· + ·) 0

/-- Between `e` and `e'` the node ticked once, on what arrives at its inlets in `e'`. -/
def Stepped (p : Patch F) (rate : R) (e e' : Engine F) (n : NodeId) : Prop :=
  ∃ node live inputs st, p.node? n = some node ∧ e.nodes[n]? = some live ∧
    inputs.map some = (List.range node.topology.inputWidth).map (e'.inflow? p n) ∧
    (∀ own, own.length = node.topology.outputWidth →
      F.tick live.state inputs own rate = ⟨st, e'.samples n, none⟩) ∧
    e'.nodes[n]? = some { live with state := st }

/-! ## Slots -/

omit [Sample R] in
theorem signal?_eq (e : Engine F) (n : NodeId) (outlet : Nat) :
    e.signal? n outlet = (e.samples n)[outlet]? := by
  unfold signal? samples Schedule.slot?
  cases e.schedule.slots[n]? with
  | none => rfl
  | some slots =>
    by_cases h : outlet < slots.width
    · simp [h, List.getElem?_drop]
    · simp [h]

omit [Sample R] in
theorem getElem?_writeSlots_inside {outputs samples : List R} {slots : Slots} {i : Nat}
    (hl : samples.length = slots.width) (hi : i < outputs.length)
    (h : slots.start ≤ i ∧ i < slots.stop) :
    (writeSlots outputs slots samples)[i]? = samples[i - slots.start]? := by
  have hlt : i - slots.start < samples.length := by
    rw [hl, Slots.width]
    omega
  unfold writeSlots
  rw [List.getElem?_mapIdx, List.getElem?_eq_getElem hi]
  simp [h, hlt]

omit [Sample R] in
theorem getElem?_writeSlots_outside (outputs samples : List R) {slots : Slots} {i : Nat}
    (h : ¬ (slots.start ≤ i ∧ i < slots.stop)) :
    (writeSlots outputs slots samples)[i]? = outputs[i]? := by
  unfold writeSlots
  rw [List.getElem?_mapIdx]
  simp only [Bool.and_eq_true, decide_eq_true_eq, if_neg h, Option.map_id']

omit [Sample R] in
theorem slice_writeSlots_self {outputs samples : List R} {slots : Slots}
    (hl : samples.length = slots.width) (hstop : slots.stop ≤ outputs.length) :
    ((writeSlots outputs slots samples).drop slots.start).take slots.width = samples := by
  refine List.ext_getElem? fun i => ?_
  unfold Slots.width at hl ⊢
  rw [List.getElem?_take]
  split
  · rename_i hi
    rw [List.getElem?_drop, getElem?_writeSlots_inside hl (by omega) (by omega),
      Nat.add_sub_cancel_left]
  · rw [List.getElem?_eq_none (by omega)]

omit [Sample R] in
theorem slice_writeSlots_apart (outputs samples : List R) {slots other : Slots}
    (h : slots.stop ≤ other.start ∨ other.stop ≤ slots.start) :
    ((writeSlots outputs slots samples).drop other.start).take other.width =
      (outputs.drop other.start).take other.width := by
  refine List.ext_getElem? fun i => ?_
  unfold Slots.width
  rw [List.getElem?_take, List.getElem?_take]
  split
  · rename_i hi
    rw [List.getElem?_drop, List.getElem?_drop,
      getElem?_writeSlots_outside _ _ (show ¬ (_ ∧ _) by omega)]
  · rfl

section
variable {Suits : F.State → Topology → Prop} {s : Schedule} {p : Patch F} {e : Engine F}

omit [Sample R] in
theorem Hosts.slots_apart (he : e.Hosts Suits s p) (hs : s.Links p) {m n : NodeId}
    (hmn : m ≠ n) {a b : Slots} {node node' : PatchNode F} (hm : p.node? m = some node)
    (hn : p.node? n = some node') (ha : e.schedule.slots[m]? = some a)
    (hb : e.schedule.slots[n]? = some b) : a.stop ≤ b.start ∨ b.stop ≤ a.start := by
  rw [he.schedule, hs.slot hm] at ha
  rw [he.schedule, hs.slot hn] at hb
  cases ha
  cases hb
  simp only [← Schedule.totalWidth_take_succ (Patch.getElem?_outputWidths hm),
    ← Schedule.totalWidth_take_succ (Patch.getElem?_outputWidths hn)]
  rcases Nat.lt_or_gt_of_ne hmn with h | h
  · exact Or.inl (Schedule.totalWidth_take_mono _ h)
  · exact Or.inr (Schedule.totalWidth_take_mono _ h)

end

/-! ## Summing up the sources -/

def read? (slots : List Slots) (outputs : List R) (s : SignalSource) : Option R :=
  slots[s.node]?.bind fun own => outputs[own.start + s.outlet]?

theorem sumSources_spec {slots : List Slots} {outputs : List R} :
    ∀ (sources : List SignalSource) (inputs : List R),
      (∀ s ∈ sources, s.inlet < inputs.length ∧ ∃ x, read? slots outputs s = some x) →
      ∃ inputs', sumSources slots outputs sources inputs = some inputs' ∧
        ∀ i x, inputs[i]? = some x → inputs'[i]? =
          ((sources.filter (·.inlet == i)).mapM (read? slots outputs)).map fun xs =>
            xs.foldl (· + ·) x
  | [], inputs, _ => ⟨inputs, rfl, fun i x hx => by simpa using hx⟩
  | s :: rest, inputs, h => by
    obtain ⟨hlt, y, hy⟩ := h s (by simp)
    obtain ⟨inputs', hrun, hval⟩ := sumSources_spec rest (inputs.modify s.inlet (· + y))
      fun s' hs' => by simpa using h s' (List.mem_cons_of_mem _ hs')
    refine ⟨inputs', ?_, fun i x hx => ?_⟩
    · obtain ⟨own, hown, hout⟩ := Option.bind_eq_some_iff.mp hy
      simp only [sumSources, hown, hout, List.getElem?_eq_getElem hlt, Option.bind_eq_bind,
        Option.bind_some, hrun]
    · by_cases hi : s.inlet = i
      · have hstep : (inputs.modify s.inlet (· + y))[i]? = some (x + y) := by
          simp [hi, hx]
        rw [hval i _ hstep, List.filter_cons_of_pos (by simpa using hi), List.mapM_cons, hy]
        cases (rest.filter (·.inlet == i)).mapM (read? slots outputs) <;> rfl
      · have hstep : (inputs.modify s.inlet (· + y))[i]? = some x := by
          simp [hi, hx]
        rw [hval i _ hstep, List.filter_cons_of_neg (by simpa using hi)]

omit [Sample R] in
theorem mapM_congr {α β : Type} {f g : α → Option β} {l : List α} (h : ∀ a ∈ l, f a = g a) :
    l.mapM f = l.mapM g := by
  induction l with
  | nil => rfl
  | cons a l ih =>
    rw [List.mapM_cons, List.mapM_cons, h a (by simp),
      ih fun b hb => h b (List.mem_cons_of_mem _ hb)]

omit [Sample R] in
theorem mem_wires {p : Patch F} {n : NodeId} {i : Nat} {c : Cable} (h : c ∈ p.wires n i) :
    c ∈ p.cables ∧ c.isSignal = true ∧ c.toNode = n := by
  simp only [Patch.wires, List.mem_filter, Bool.and_eq_true, beq_iff_eq] at h
  exact ⟨h.1, h.2.1.1, h.2.1.2⟩

theorem inflow?_congr {p : Patch F} {e e' : Engine F} {n : NodeId}
    (h : ∀ a, Feeds p.cables a n → e.samples a = e'.samples a) (i : Nat) :
    e.inflow? p n i = e'.inflow? p n i := by
  unfold inflow?
  rw [mapM_congr fun c hc => ?_]
  obtain ⟨hmem, hs, hn⟩ := mem_wires hc
  rw [signal?_eq, signal?_eq, h _ ⟨c, hmem, hs, rfl, hn⟩]

section
variable {Suits : F.State → Topology → Prop} {s : Schedule} {p : Patch F} {e : Engine F}

omit [Sample R] in
theorem Hosts.source (he : e.Hosts Suits s p) (hs : s.Links p) (hp : p.Sound) {c : Cable}
    (hc : c ∈ p.cables) (hsig : c.isSignal = true) :
    (∃ x, read? e.schedule.slots e.outputs ⟨c.inlet.index, c.fromNode, c.outlet⟩ = some x) ∧
      read? e.schedule.slots e.outputs ⟨c.inlet.index, c.fromNode, c.outlet⟩ =
        e.signal? c.fromNode c.outlet ∧
      ∀ node, p.node? c.toNode = some node → c.inlet.index < node.topology.inputWidth := by
  have hk : c.kind = .signal := by simpa [Cable.isSignal] using hsig
  obtain ⟨⟨a, out, ha, hout, houtk⟩, ⟨b, inl, hb, hin, hink⟩⟩ := hp.fits c hc
  obtain ⟨slots, hslots⟩ : ∃ slots, e.schedule.slots[c.fromNode]? = some slots :=
    ⟨_, he.schedule ▸ hs.slot ha⟩
  obtain ⟨hwidth, hstop⟩ := he.slots hs ha hslots
  have hlt : c.outlet < slots.width := hwidth ▸ Topology.outlet?_lt hout (houtk.trans hk)
  have hin' : slots.start + c.outlet < e.outputs.length := by
    rw [Slots.width] at hlt
    omega
  refine ⟨⟨e.outputs[slots.start + c.outlet], ?_⟩, ?_, fun node hnode => ?_⟩
  · simp [read?, hslots, List.getElem?_eq_getElem hin']
  · simp [read?, signal?, Schedule.slot?, hslots, hlt]
  · cases hb.symm.trans hnode
    exact Topology.inlet?_lt hin (hink.trans hk)

theorem Hosts.reads (he : e.Hosts Suits s p) (hs : s.Links p) (hp : p.Sound) {n : NodeId}
    {node : PatchNode F} (hn : p.node? n = some node) :
    ∃ inputs, e.inputs? n = some inputs ∧
      inputs.map some = (List.range node.topology.inputWidth).map (e.inflow? p n) := by
  let width := node.topology.inputWidth
  have hsources : ∀ src ∈ Schedule.sourcesOf p.cables n,
      src.inlet < (List.replicate width (0 : R)).length ∧
        ∃ x, read? e.schedule.slots e.outputs src = some x := by
    intro src hsrc
    obtain ⟨c, hc, hsig, rfl, rfl⟩ := Schedule.mem_sourcesOf.mp hsrc
    obtain ⟨hread, _, hlt⟩ := he.source hs hp hc hsig
    exact ⟨by simpa using hlt node hn, hread⟩
  obtain ⟨inputs, hrun, hval⟩ := sumSources_spec _ _ hsources
  have hlen : inputs.length = width := by simpa using sumSources_length _ _ _ hrun
  have hle : width ≤ e.inputs.length :=
    he.inputs ▸ le_foldr_max (List.mem_of_getElem? (hs.inputWidth hn))
  refine ⟨inputs, ?_, ?_⟩
  · simp only [inputs?, he.schedule, hs.inputWidth hn, hs.source hn, Option.bind_eq_bind,
      Option.bind_some, if_pos (show node.topology.inputWidth ≤ e.inputs.length from hle)]
    rw [← hrun, he.schedule]
  · refine List.ext_getElem? fun i => ?_
    by_cases hi : i < width
    · rw [List.getElem?_map, List.getElem?_map, List.getElem?_range hi, Option.map_some,
        List.getElem?_eq_getElem (hlen ▸ hi), Option.map_some, ← List.getElem?_eq_getElem,
        hval i 0 (by simp [hi])]
      have hwires : (Schedule.sourcesOf p.cables n).filter (·.inlet == i) =
          (p.wires n i).map fun c => ⟨c.inlet.index, c.fromNode, c.outlet⟩ := by
        unfold Schedule.sourcesOf Patch.wires
        rw [List.filter_map, List.filter_filter]
        congr 2
        funext c
        simp [Bool.and_comm]
      rw [hwires, List.mapM_map]
      unfold inflow?
      rw [mapM_congr fun c hc => ?_]
      obtain ⟨hmem, hsig, _⟩ := mem_wires hc
      exact (he.source hs hp hmem hsig).2.1
    · rw [List.getElem?_eq_none (by simpa [hlen] using hi),
        List.getElem?_eq_none (by simpa using hi)]

/-! ## Single nodes -/

omit [Sample R] in
/-- Whatever is written into the slots of a node, the samples of the others stay. -/
theorem Hosts.samples_apart (he : e.Hosts Suits s p) (hs : s.Links p) {n : NodeId}
    {node : PatchNode F} (hn : p.node? n = some node) {slots : Slots}
    (hslots : e.schedule.slots[n]? = some slots) {ys : List R} {e' : Engine F}
    (hschedule : e'.schedule = e.schedule)
    (houtputs : e'.outputs = writeSlots e.outputs slots ys) :
    ∀ m, m ≠ n → e'.samples m = e.samples m := by
  intro m hm
  simp only [samples, hschedule, houtputs]
  cases hother : e.schedule.slots[m]? with
  | none => rfl
  | some other =>
    obtain ⟨node', hm'⟩ : ∃ node', p.node? m = some node' :=
      ⟨_, List.getElem?_eq_getElem (hs.slots_lt (he.schedule ▸ hother))⟩
    have hapart : slots.stop ≤ other.start ∨ other.stop ≤ slots.start :=
      he.slots_apart hs (Ne.symm hm) hn hm' hslots hother
    exact slice_writeSlots_apart _ _ hapart

/-- A hosted node that ticks reads its inlets, and the engine then has its new state and what it put
out, also if it faulted. -/
theorem Hosts.tickNode_eq (he : e.Hosts Suits s p) (hs : s.Links p) (hp : p.Sound) (rate : R)
    {n : NodeId} {node : PatchNode F} (hn : p.node? n = some node) :
    ∃ inputs slots live, e.inputs? n = some inputs ∧
      inputs.map some = (List.range node.topology.inputWidth).map (e.inflow? p n) ∧
      e.schedule.slots[n]? = some slots ∧ e.nodes[n]? = some live ∧
      Engine.tickNode rate n e =
        let t := F.tick live.state inputs (e.samples n) rate
        ⟨{ e.setState n t.state with
            inputs := inputs ++ e.inputs.drop inputs.length
            outputs := writeSlots e.outputs slots t.outputs }, [], t.fault⟩ := by
  obtain ⟨inputs, hinputs, hinflow⟩ := he.reads hs hp hn
  obtain ⟨slots, hslots⟩ : ∃ slots, e.schedule.slots[n]? = some slots :=
    ⟨_, he.schedule ▸ hs.slot hn⟩
  obtain ⟨live, _, hlive, _⟩ := he.exists_live (Patch.node?_lt hn)
  refine ⟨inputs, slots, live, hinputs, hinflow, hslots, hlive, ?_⟩
  unfold Engine.tickNode
  rw [hinputs, hslots, hlive]
  simp only [if_pos (he.slots hs hn hslots).2, samples, hslots]

/-- A tick of one node takes it to its next state and puts out its next samples. It never faults and
leaves the other nodes and their samples as they are. -/
theorem Hosts.tickNode (hF : F.Keeps Suits) (he : e.Hosts Suits s p) (hs : s.Links p)
    (hp : p.Sound) (rate : R) {n : NodeId} {node : PatchNode F} (hn : p.node? n = some node) :
    ∃ e', tickNode rate n e = ⟨e', [], none⟩ ∧ e'.Hosts Suits s p ∧
      (∃ live inputs st, e.nodes[n]? = some live ∧
        inputs.map some = (List.range node.topology.inputWidth).map (e.inflow? p n) ∧
        (∀ own, own.length = node.topology.outputWidth →
          F.tick live.state inputs own rate = ⟨st, e'.samples n, none⟩) ∧
        e'.nodes[n]? = some { live with state := st }) ∧
      ∀ m, m ≠ n → e'.nodes[m]? = e.nodes[m]? ∧ e'.samples m = e.samples m := by
  obtain ⟨inputs, slots, live, -, hinflow, hslots, hlive, hrun⟩ := he.tickNode_eq hs hp rate hn
  have hlen : inputs.length = node.topology.inputWidth := by
    simpa using congrArg List.length hinflow
  obtain ⟨st, ys, hst, hys, htick⟩ := hF.tick inputs rate (he.suits hlive hn) hlen
  let e' : Engine F := { e.setState n st with
    inputs := inputs ++ e.inputs.drop inputs.length
    outputs := writeSlots e.outputs slots ys }
  have hrun' : Engine.tickNode rate n e = ⟨e', [], none⟩ := by
    rw [hrun, htick _ (he.length_samples hs hn)]
  have he' : e'.Hosts Suits s p := by
    have := (Hosts.closed hF hs).ticked rate n he
    rwa [hrun'] at this
  have hstate : ∀ m : NodeId, e'.nodes[m]? = (e.setState n st).nodes[m]? := fun _ => rfl
  have hself : e'.samples n = ys := by
    obtain ⟨hwidth, hstop⟩ := he.slots hs hn hslots
    have hslots' : e'.schedule.slots[n]? = some slots := hslots
    simp only [samples, hslots']
    exact slice_writeSlots_self (hys.trans hwidth.symm) hstop
  have hrest : ∀ m, m ≠ n → e'.samples m = e.samples m := he.samples_apart hs hn hslots rfl rfl
  refine ⟨e', hrun', he', ⟨live, inputs, st, hlive, hinflow, hself ▸ htick, ?_⟩,
    fun m hm => ⟨?_, hrest m hm⟩⟩
  · rw [hstate, getElem?_setState]
    simp [hlive]
  · rw [hstate, getElem?_setState]
    simp [Ne.symm hm]

/-! ## All nodes in turn -/

abbrev Timely (cables : List Cable) (order : List NodeId) : Prop :=
  order.Pairwise fun n m => n ≠ m ∧ ¬ Feeds cables m n

omit [Sample R] in
theorem timely_of_orders {cables : List Cable} {nodes order : List NodeId} (hnd : nodes.Nodup)
    (h : Orders cables nodes order) : Timely cables order := by
  have hsuffix : ∀ (l₂ l₁ : List NodeId), order = l₁ ++ l₂ → Timely cables l₂ := by
    intro l₂
    induction l₂ with
    | nil => exact fun _ _ => .nil
    | cons n l₂ ih =>
      intro l₁ hs
      have hdup : (l₁ ++ n :: l₂).Nodup := hs ▸ h.perm.nodup_iff.mpr hnd
      obtain ⟨_, htail, hapart⟩ := List.nodup_append.mp hdup
      refine List.pairwise_cons.mpr ⟨fun m hm => ⟨?_, fun hf => ?_⟩, ih (l₁ ++ [n]) (by simp [hs])⟩
      · exact fun hnm => (List.nodup_cons.mp htail).1 (hnm ▸ hm)
      · exact hapart m (h.before l₁ n l₂ hs m hf) m (List.mem_cons_of_mem _ hm) rfl
  exact hsuffix order [] rfl

theorem Hosts.tickEach (hF : F.Keeps Suits) (hs : s.Links p) (hp : p.Sound) (rate : R) :
    ∀ (order : List NodeId) (e : Engine F), e.Hosts Suits s p → (∀ n ∈ order, n < p.nodes.length) →
      Timely p.cables order →
      ∃ e', Progress.each (Engine.tickNode rate) order e = ⟨e', [], none⟩ ∧ e'.Hosts Suits s p ∧
        (∀ n ∈ order, Stepped p rate e e' n) ∧
        ∀ m, m ∉ order → e'.nodes[m]? = e.nodes[m]? ∧ e'.samples m = e.samples m
  | [], e, he, _, _ => ⟨e, rfl, he, by simp, fun _ _ => ⟨rfl, rfl⟩⟩
  | n :: order, e, he, hlt, ht => by
    obtain ⟨hhead, htail⟩ := List.pairwise_cons.mp ht
    have hnlt : n < p.nodes.length := hlt n (by simp)
    obtain ⟨node, hn⟩ : ∃ node, p.node? n = some node := ⟨_, List.getElem?_eq_getElem hnlt⟩
    obtain ⟨e₁, hrun₁, he₁, ⟨live, inputs, st, hlive, hin, htick, hnew⟩, hframe₁⟩ :=
      he.tickNode hF hs hp rate hn
    obtain ⟨e', hrun, he', hstep, hframe⟩ := Hosts.tickEach hF hs hp rate order e₁ he₁
      (fun m hm => hlt m (List.mem_cons_of_mem _ hm)) htail
    have hnot : n ∉ order := fun h => (hhead n h).1 rfl
    refine ⟨e', ?_, he', fun m hm => ?_, fun m hm => ?_⟩
    · simp only [Progress.each, Progress.andThen, hrun₁, hrun, List.nil_append]
    · by_cases hmn : m = n
      · subst hmn
        -- its sources are done with, so what it read is what arrives in the end
        have hsources : ∀ a, Feeds p.cables a m → e.samples a = e'.samples a := by
          intro a hf
          have ham : a ≠ m := fun h => hp.acyclic m (.single (h ▸ hf))
          have ha : a ∉ order := fun h => (hhead a h).2 hf
          rw [(hframe a ha).2, (hframe₁ a ham).2]
        refine ⟨node, live, inputs, st, hn, hlive, ?_, ?_, ?_⟩
        · rw [hin]
          exact List.map_congr_left fun i _ => inflow?_congr hsources i
        · rw [(hframe m hnot).2]
          exact htick
        · rw [(hframe m hnot).1, hnew]
      · obtain ⟨node', live', inputs', st', hn', hlive', hrest⟩ :=
          hstep m ((List.mem_cons.mp hm).resolve_left hmn)
        exact ⟨node', live', inputs', st', hn', by rw [← hlive', (hframe₁ m hmn).1], hrest⟩
    · obtain ⟨hmn, hm⟩ := not_or.mp (mt List.mem_cons.mpr hm)
      rw [(hframe m hm).1, (hframe m hm).2]
      exact hframe₁ m hmn

omit [Sample R] in
theorem Hosts.samples_nil (he : e.Hosts Suits s p) (hs : s.Links p) {n : NodeId}
    (hn : n ∉ s.order) : e.samples n = [] := by
  cases hnode : p.node? n with
  | none =>
    have hslots : e.schedule.slots[n]? = none := by
      refine Option.eq_none_iff_forall_ne_some.mpr fun slots h => ?_
      have hlt := hs.slots_lt (he.schedule ▸ h)
      simp [Patch.node?, List.getElem?_eq_getElem hlt] at hnode
    simp [samples, hslots]
  | some node =>
    have hsignal : p.carriesSignal n = false := by
      by_contra h
      refine hn (hs.perm.mem_iff.mpr (List.mem_filter.mpr ⟨?_, by simpa using h⟩))
      exact List.mem_range.mpr (Patch.node?_lt hnode)
    have hnone : node.topology.hasSignalPorts = false := by
      simpa [Patch.carriesSignal, hnode] using hsignal
    have := he.length_samples hs hnode
    rw [(Topology.widths_of_no_signal hnone).2] at this
    exact List.length_eq_zero_iff.mp this

/-! ## Confluence -/

theorem Stepped.determined {rate : R} {e₁ e₂ e₁' e₂' : Engine F} {n : NodeId}
    (h₁ : Stepped p rate e₁ e₁' n) (h₂ : Stepped p rate e₂ e₂' n)
    (hnodes : e₁.nodes[n]? = e₂.nodes[n]?)
    (hsources : ∀ a, Feeds p.cables a n → e₁'.samples a = e₂'.samples a) :
    e₁'.nodes[n]? = e₂'.nodes[n]? ∧ e₁'.samples n = e₂'.samples n := by
  obtain ⟨node, live, inputs, st, hn, hlive, hin, htick, hnew⟩ := h₁
  obtain ⟨node', live', inputs', st', hn', hlive', hin', htick', hnew'⟩ := h₂
  cases hn.symm.trans hn'
  cases hlive.symm.trans (hnodes.trans hlive')
  have hsame : inputs = inputs' := by
    have : inputs.map some = inputs'.map some := by
      rw [hin, hin']
      exact List.map_congr_left fun i _ => inflow?_congr hsources i
    exact (Option.some_injective R).list_map this
  subst hsame
  have heq := (htick (List.replicate node.topology.outputWidth 0) (by simp)).symm.trans
    (htick' (List.replicate node.topology.outputWidth 0) (by simp))
  simp only [Ticked.mk.injEq, and_true] at heq
  rw [hnew, hnew', heq.1]
  exact ⟨rfl, heq.2⟩

theorem stepped_agree {rate : R} {e₁ e₂ e₁' e₂' : Engine F} {nodes order : List NodeId}
    (ho : Orders p.cables nodes order) (h₁ : ∀ n ∈ order, Stepped p rate e₁ e₁' n)
    (h₂ : ∀ n ∈ order, Stepped p rate e₂ e₂' n)
    (hnodes : ∀ n ∈ order, e₁.nodes[n]? = e₂.nodes[n]?) :
    ∀ n ∈ order, e₁'.nodes[n]? = e₂'.nodes[n]? ∧ e₁'.samples n = e₂'.samples n := by
  -- by induction on the rest of the order: whatever feeds its first node was compared before
  have hprefix : ∀ (l₂ l₁ : List NodeId), order = l₁ ++ l₂ →
      (∀ n ∈ l₁, e₁'.nodes[n]? = e₂'.nodes[n]? ∧ e₁'.samples n = e₂'.samples n) →
      ∀ n ∈ order, e₁'.nodes[n]? = e₂'.nodes[n]? ∧ e₁'.samples n = e₂'.samples n := by
    intro l₂
    induction l₂ with
    | nil => exact fun l₁ hs hl n hn => hl n (by simpa [hs] using hn)
    | cons b l₂ ih =>
      intro l₁ hs hl
      have hb : b ∈ order := by simp [hs]
      refine ih (l₁ ++ [b]) (by simp [hs]) fun n hn => ?_
      rcases List.mem_append.mp hn with hn | hn
      · exact hl n hn
      · rw [List.mem_singleton] at hn
        subst hn
        exact (h₁ n hb).determined (h₂ n hb) (hnodes n hb) fun a hf =>
          (hl a (ho.before l₁ n l₂ hs a hf)).2
  exact hprefix order [] rfl (by simp)

omit [Sample R] in
theorem Hosts.outputs_eq {s' : Schedule} {e' : Engine F} (he : e.Hosts Suits s p)
    (he' : e'.Hosts Suits s' p) (hs : s.Links p) (hs' : s'.Links p)
    (h : ∀ n, e.samples n = e'.samples n) : e.outputs = e'.outputs := by
  have hplace : ∀ {s : Schedule} {e : Engine F}, e.Hosts Suits s p → s.Links p →
      ∀ {k w o : Nat}, (p.nodes.map (·.topology.outputWidth))[k]? = some w → o < w →
        e.outputs[Schedule.totalWidth ((p.nodes.map (·.topology.outputWidth)).take k) + o]? =
          (e.samples k)[o]? := by
    intro s e he hs k w o hw ho
    obtain ⟨node, hn, rfl⟩ := List.getElem?_map .. ▸ hw |> Option.map_eq_some_iff.mp
    have hslots := he.schedule ▸ hs.slot (show p.node? k = some node from hn)
    simp [samples, hslots, Slots.width, ho, List.getElem?_drop]
  refine List.ext_getElem? fun i => ?_
  by_cases hi : i < Schedule.totalWidth (p.nodes.map (·.topology.outputWidth))
  · obtain ⟨k, w, o, hw, ho, rfl⟩ := Schedule.exists_slot hi
    rw [hplace he hs hw ho, hplace he' hs' hw ho, h k]
  · rw [List.getElem?_eq_none (by rw [he.outputs, hs.bufferLength]; omega),
      List.getElem?_eq_none (by rw [he'.outputs, hs'.bufferLength]; omega)]

/-! ## Whole ticks -/

/-- A tick only touches instances and samples. -/
theorem tickAll_frame (rate : R) (e : Engine F) : ∃ nodes outputs inputs,
    (tickAll rate e).state = { e with nodes := nodes, outputs := outputs, inputs := inputs } := by
  refine Progress.each_keeps (I := fun e₁ : Engine F => ∃ nodes outputs inputs,
    e₁ = { e with nodes := nodes, outputs := outputs, inputs := inputs }) _ _ ?_ ⟨_, _, _, rfl⟩
  rintro n - _ ⟨nodes, outputs, inputs, rfl⟩
  rcases tickNode_cases rate n { e with nodes := nodes, outputs := outputs, inputs := inputs } with
    h | ⟨_, _, _, _, _, _, _, h⟩
  · exact ⟨nodes, outputs, inputs, h⟩
  · rw [h]
    exact ⟨_, _, _, rfl⟩

theorem tick_of_config {e : Engine F} {c : Config R} (h : e.config = some c) :
    e.tick = .ok (tickAll c.sampleRate e) := by
  unfold tick
  rw [h]

theorem Hosts.tickAll (hF : F.Keeps Suits) (he : e.Hosts Suits s p) (hs : s.Links p) (hp : p.Sound)
    {nodes : List NodeId} (ho : Orders p.cables nodes s.order) (rate : R) :
    ∃ e', Engine.tickAll rate e = ⟨e', [], none⟩ ∧ e'.Hosts Suits s p ∧
      (∀ n ∈ s.order, Stepped p rate e e' n) ∧
      (∀ n, n ∉ s.order → e'.nodes[n]? = e.nodes[n]? ∧ e'.samples n = e.samples n) ∧
      ∃ lives outputs inputs,
        e' = { e with nodes := lives, outputs := outputs, inputs := inputs } := by
  have hnodup : nodes.Nodup := ho.perm.nodup_iff.mp hs.order_nodup
  obtain ⟨e', hrun, he', hstep, hframe⟩ := Hosts.tickEach hF hs hp rate s.order e he
    (fun n hn => hs.order_lt hn) (timely_of_orders hnodup ho)
  have hall : Engine.tickAll rate e = ⟨e', [], none⟩ := by
    unfold Engine.tickAll
    rw [he.schedule, hrun]
  have hrest := tickAll_frame rate e
  rw [hall] at hrest
  exact ⟨e', hall, he', hstep, hframe, hrest⟩

theorem Hosts.tick (hF : F.Keeps Suits) (he : e.Hosts Suits s p) (hs : s.Links p) (hp : p.Sound)
    {nodes : List NodeId} (ho : Orders p.cables nodes s.order) {c : Config R}
    (hc : e.config = some c) :
    ∃ e', e.tick = .ok ⟨e', [], none⟩ ∧ e'.Hosts Suits s p ∧
      (∀ n ∈ s.order, Stepped p c.sampleRate e e' n) ∧
      ∀ n, n ∉ s.order → e'.nodes[n]? = e.nodes[n]? := by
  obtain ⟨e', hall, he', hstep, hframe, -⟩ := he.tickAll hF hs hp ho c.sampleRate
  refine ⟨e', ?_, he', hstep, fun n hn => (hframe n hn).1⟩
  rw [tick_of_config hc, hall]

theorem Hosts.writes_own (hF : F.Keeps Suits) (he : e.Hosts Suits s p) (hs : s.Links p)
    (hp : p.Sound) (rate : R) (before : List NodeId) {n m : NodeId} (hn : n ∈ s.order)
    (hm : m ≠ n) :
    let mid := (Progress.each (Engine.tickNode rate) before e).state
    (Engine.tickNode rate n mid).state.samples m = mid.samples m := by
  intro mid
  have hmid : mid.Hosts Suits s p :=
    Progress.each_keeps _ _ (fun k _ _ h => (Hosts.closed hF hs).ticked rate k h) he
  obtain ⟨node, hnode⟩ : ∃ node, p.node? n = some node :=
    ⟨_, List.getElem?_eq_getElem (hs.order_lt hn)⟩
  obtain ⟨e', hrun, _, _, hframe⟩ := hmid.tickNode hF hs hp rate hnode
  rw [hrun]
  exact (hframe m hm).2

/-- Ticks in two orders of the same nodes come to the same, whatever samples they find. -/
theorem Hosts.tick_order_irrelevant (hF : F.Keeps Suits) (he : e.Hosts Suits s p) (hs : s.Links p)
    (hp : p.Sound) (ho : Orders p.cables s.order s.order) {c : Config R} (hc : e.config = some c)
    {order : List NodeId} (ho₂ : Orders p.cables s.order order) {stale : List R}
    (hstale : stale.length = e.outputs.length) {e' : Engine F}
    (htick : e.tick = .ok ⟨e', [], none⟩) :
    ∃ e'', { e with schedule := { s with order := order }, outputs := stale }.tick =
        .ok ⟨e'', [], none⟩ ∧
      e''.outputs = e'.outputs ∧ e''.nodes = e'.nodes := by
  let s₂ : Schedule := { s with order := order }
  let e₂ : Engine F := { e with schedule := s₂, outputs := stale }
  have hs₂ : s₂.Links p := ⟨ho₂.perm.trans hs.perm, hs.wired, hs.sources, hs.inputWidths, hs.slots,
    hs.bufferLength, hs.routes⟩
  have he₂ : e₂.Hosts Suits s₂ p := ⟨rfl, he.length, he.nodes, hstale.trans he.outputs, he.inputs⟩
  obtain ⟨e₁', hrun₁, he₁', hstep₁, hframe₁⟩ := he.tick hF hs hp ho hc
  cases htick.symm.trans hrun₁
  obtain ⟨e'', hrun₂, he'', hstep₂, hframe₂⟩ := he₂.tick hF hs₂ hp ho₂ hc
  have hagree := stepped_agree ho hstep₁ (fun n hn => hstep₂ n (ho₂.perm.mem_iff.mpr hn))
    fun _ _ => rfl
  have hout : ∀ n, n ∉ s.order → n ∉ order := fun n hn h => hn (ho₂.perm.mem_iff.mp h)
  refine ⟨e'', hrun₂, Hosts.outputs_eq he'' he₁' hs₂ hs fun n => ?_, List.ext_getElem? fun n => ?_⟩
  · by_cases hn : n ∈ s.order
    · exact (hagree n hn).2.symm
    · rw [he''.samples_nil hs₂ (hout n hn), he₁'.samples_nil hs hn]
  · by_cases hn : n ∈ s.order
    · exact (hagree n hn).1.symm
    · rw [hframe₁ n hn, hframe₂ n (hout n hn)]

end

/-! ## Ticks of built-in nodes -/

theorem hosts_after {edits : List (Edit (standard R))}
    (hedits : ∀ edit ∈ edits, edit.fromCatalog = true) {s : Schedule}
    (hs : (Schedule.compile (Patch.built edits)).ending = .done s) {buses : Buses}
    {e : Engine (standard R)} (he : (link s (Patch.built edits) buses).ending = .done e)
    (calls : List (Call R)) :
    (e.after calls).Hosts StandardState.Suits s (Patch.built edits) := by
  have hlinks := (Schedule.compile_done (Patch.sound_built edits) hs).1
  have hstart : ∀ node ∈ (Patch.built edits).nodes, Starts StandardState.Suits node :=
    fun node hnode => ((Patch.standard_built hedits).nodes node hnode).starts
  exact (Hosts.closed StandardState.keeps hlinks).after (hosts_link hstart he) calls

/-- A tick of a configured engine is one synchronous step of its signals. Every scheduled node steps
once, on the samples that its sources put out in this tick, and writes only its own slots. Neither
the samples of the tick before nor the choice of the order make a difference. -/
theorem tick_is_one_step {edits : List (Edit (standard R))}
    (hedits : ∀ edit ∈ edits, edit.fromCatalog = true) {s : Schedule}
    (hs : (Schedule.compile (Patch.built edits)).ending = .done s) {buses : Buses}
    {fresh : Engine (standard R)} (hlink : (link s (Patch.built edits) buses).ending = .done fresh)
    (calls : List (Call R)) {c : Config R} (hc : (fresh.after calls).config = some c) :
    let p := Patch.built edits
    let e := fresh.after calls
    ∃ e', e.tick = .ok ⟨e', [], none⟩ ∧ s.order.Nodup ∧
      (∀ n ∈ s.order, Stepped p c.sampleRate e e' n) ∧
      (∀ n, n ∉ s.order → e'.nodes[n]? = e.nodes[n]?) ∧
      (∀ l₁ n l₂, s.order = l₁ ++ n :: l₂ →
        let mid := (Progress.each (tickNode c.sampleRate) l₁ e).state
        ∀ m, m ≠ n → (tickNode c.sampleRate n mid).state.samples m = mid.samples m) ∧
      ∀ order stale, Orders p.cables s.order order → stale.length = e.outputs.length →
        ∃ e'', { e with schedule := { s with order := order }, outputs := stale }.tick =
            .ok ⟨e'', [], none⟩ ∧
          e''.outputs = e'.outputs ∧ e''.nodes = e'.nodes := by
  intro p e
  have hp : p.Sound := Patch.sound_built edits
  obtain ⟨hlinks, hleast⟩ := Schedule.compile_done hp hs
  have he : e.Hosts StandardState.Suits s p := hosts_after hedits hs hlink calls
  have horder : Orders p.cables s.order s.order := ⟨.refl _, hleast.ready⟩
  obtain ⟨e', hrun, _, hstep, hframe⟩ := he.tick StandardState.keeps hlinks hp horder hc
  refine ⟨e', hrun, hlinks.order_nodup, hstep, hframe, ?_, ?_⟩
  · intro l₁ n l₂ hl mid m hm
    exact he.writes_own StandardState.keeps hlinks hp c.sampleRate l₁ (by simp [hl]) hm
  · intro order stale ho hstale
    exact he.tick_order_irrelevant StandardState.keeps hlinks hp horder hc ho hstale hrun

/-- A constant feeding an oscillator, configured. -/
theorem tick_is_one_step_fed :
    let edits : List (Edit (standard Float)) :=
      [.add "sig~" [.float 1], .add "phasor~" [], .connect 0 0 1 (.regular 0)]
    ∃ s fresh c, (∀ edit ∈ edits, edit.fromCatalog = true) ∧
      (Schedule.compile (Patch.built edits)).ending = .done s ∧
      (link s (Patch.built edits) .empty).ending = .done fresh ∧
      (fresh.after [.configure ⟨44100, 64, 1⟩]).config = some c ∧ s.order = [0, 1] ∧
      ∃ e', (fresh.after [.configure ⟨44100, 64, 1⟩]).tick = .ok ⟨e', [], none⟩ ∧
        ∀ n ∈ s.order, Stepped (Patch.built edits) c.sampleRate
          (fresh.after [.configure ⟨44100, 64, 1⟩]) e' n := by
  intro edits
  have hedits : ∀ edit ∈ edits, edit.fromCatalog = true := by simp [edits, Edit.fromCatalog]
  refine ⟨_, _, _, hedits, rfl, rfl, rfl, rfl, ?_⟩
  obtain ⟨e', hrun, _, hstep, _⟩ := tick_is_one_step hedits rfl rfl [.configure ⟨44100, 64, 1⟩] rfl
  exact ⟨e', hrun, hstep⟩

end Engine

end Patchbay
