import Patchbay.Proofs.OrderSound
import Patchbay.Proofs.StandardTypes
import Patchbay.Sample.Binary64
import Patchbay.Schedule

/-!
# Schedules of sound patches

The tables of a schedule are read off the patch, and its order is the least one of the nodes with
signal ports. A patch of built-in nodes can always be scheduled.
-/

namespace Patchbay

variable {R : Type} {F : Family R}

/-! ## Signal ports -/

theorem le_foldr_max {i : Nat} {l : List Nat} (h : i ∈ l) : i ≤ l.foldr Nat.max 0 := by
  induction l with
  | nil => cases h
  | cons j l ih =>
    rcases List.mem_cons.mp h with rfl | h
    · exact Nat.le_max_left _ _
    · exact Nat.le_trans (ih h) (Nat.le_max_right _ _)

namespace Topology

theorem lt_signalWidth {ports : List Port} {port : Port} (hp : port ∈ ports)
    (hs : port.kind = .signal) : port.id.index < signalWidth ports := by
  refine le_foldr_max (List.mem_map.mpr ⟨port, List.mem_filter.mpr ⟨hp, ?_⟩, rfl⟩)
  simp [Port.isSignal, hs]

theorem inlet?_lt {t : Topology} {id : PortId} {port : Port} (h : t.inlet? id = some port)
    (hs : port.kind = .signal) : id.index < t.inputWidth := by
  have := lt_signalWidth (List.mem_of_find?_eq_some h) hs
  rwa [Patch.inlet?_id h] at this

theorem outlet?_lt {t : Topology} {index : Nat} {port : Port} (h : t.outlet? index = some port)
    (hs : port.kind = .signal) : index < t.outputWidth := by
  have hid : port.id = .regular index := by simpa using List.find?_some h
  have := lt_signalWidth (List.mem_of_find?_eq_some h) hs
  rwa [hid] at this

theorem hasSignalPorts_of_inlet {t : Topology} {id : PortId} {port : Port}
    (h : t.inlet? id = some port) (hs : port.kind = .signal) : t.hasSignalPorts = true := by
  refine List.any_eq_true.mpr ⟨port, ?_, by simp [Port.isSignal, hs]⟩
  exact List.mem_append_left _ (List.mem_of_find?_eq_some h)

theorem hasSignalPorts_of_outlet {t : Topology} {index : Nat} {port : Port}
    (h : t.outlet? index = some port) (hs : port.kind = .signal) : t.hasSignalPorts = true := by
  refine List.any_eq_true.mpr ⟨port, ?_, by simp [Port.isSignal, hs]⟩
  exact List.mem_append_right _ (List.mem_of_find?_eq_some h)

end Topology

namespace Patch

def carriesSignal (p : Patch F) (id : NodeId) : Bool :=
  (p.node? id).any (·.topology.hasSignalPorts)

def signalNodes (p : Patch F) : List NodeId := (List.range p.nodes.length).filter p.carriesSignal

theorem Sound.feeds_carries {p : Patch F} (hp : p.Sound) {a b : NodeId}
    (h : Feeds p.cables a b) : p.carriesSignal a = true ∧ p.carriesSignal b = true := by
  obtain ⟨c, hc, hs, rfl, rfl⟩ := h
  have hk : c.kind = .signal := by simpa [Cable.isSignal] using hs
  obtain ⟨⟨a, out, ha, hout, houtk⟩, ⟨b, inl, hb, hin, hink⟩⟩ := hp.fits c hc
  refine ⟨?_, ?_⟩
  · simp [carriesSignal, ha, Topology.hasSignalPorts_of_outlet hout (houtk.trans hk)]
  · simp [carriesSignal, hb, Topology.hasSignalPorts_of_inlet hin (hink.trans hk)]

theorem getElem?_outputWidths {p : Patch F} {n : NodeId} {node : PatchNode F}
    (hn : p.node? n = some node) :
    (p.nodes.map (·.topology.outputWidth))[n]? = some node.topology.outputWidth := by
  rw [List.getElem?_map, show p.nodes[n]? = some node from hn, Option.map_some]

/-- No shadow is a signal inlet, so the index alone finds the far end of a signal cable. -/
def RegularSignals (p : Patch F) : Prop :=
  ∀ node ∈ p.nodes, ∀ port ∈ node.topology.inlets, port.isSignal = true → port.id.shadow = false

theorem Standard.regularSignals [Sample R] {p : Patch (standard R)} (hs : p.Standard) :
    p.RegularSignals := fun node hnode => (hs.nodes node hnode).inlet_regular

theorem Sound.regular_inlet {p : Patch F} (hp : p.Sound) (hr : p.RegularSignals) {c : Cable}
    (hc : c ∈ p.cables) (hsig : c.isSignal = true) : c.inlet = .regular c.inlet.index := by
  obtain ⟨node, port, hnode, hport, hkind⟩ := (hp.fits c hc).inlet
  have hsignal : port.isSignal = true := by
    rw [Port.isSignal, hkind]
    exact hsig
  have hshadow := hr node (node?_mem hnode) port (List.mem_of_find?_eq_some hport) hsignal
  rw [inlet?_id hport] at hshadow
  rw [PortId.regular, ← hshadow]

theorem Sound.lands_on_signal {p : Patch F} (hp : p.Sound) (hr : p.RegularSignals) {c : Cable}
    (hc : c ∈ p.cables) (hsig : c.isSignal = true) {node : PatchNode F}
    (hn : p.node? c.toNode = some node) :
    (node.topology.inlet? (.regular c.inlet.index)).any Port.isSignal = true := by
  obtain ⟨node', port, hnode', hport, hkind⟩ := (hp.fits c hc).inlet
  cases hn.symm.trans hnode'
  rw [← hp.regular_inlet hr hc hsig, hport, Option.any_some, Port.isSignal, hkind]
  exact hsig

end Patch

/-! ## Slots -/

namespace Schedule

theorem totalWidth_append (vs ws : List Nat) :
    totalWidth (vs ++ ws) = totalWidth vs + totalWidth ws := by
  induction vs with
  | nil => simp [totalWidth]
  | cons v vs ih => simp only [List.cons_append, totalWidth, ih, Nat.add_assoc]

theorem totalWidth_take_succ {ws : List Nat} {k w : Nat} (h : ws[k]? = some w) :
    totalWidth (ws.take (k + 1)) = totalWidth (ws.take k) + w := by
  rw [List.take_add_one, h, totalWidth_append]
  rfl

theorem totalWidth_take_mono (ws : List Nat) {j k : Nat} (h : j ≤ k) :
    totalWidth (ws.take j) ≤ totalWidth (ws.take k) := by
  obtain ⟨d, rfl⟩ := Nat.exists_eq_add_of_le h
  rw [List.take_add, totalWidth_append]
  exact Nat.le_add_right _ _

theorem totalWidth_take_le (ws : List Nat) (k : Nat) :
    totalWidth (ws.take k) ≤ totalWidth ws := by
  have h := totalWidth_append (ws.take k) (ws.drop k)
  rw [List.take_append_drop] at h
  omega

theorem getElem?_slotsFrom (start : Nat) {k w : Nat} {ws : List Nat} (h : ws[k]? = some w) :
    (slotsFrom start ws)[k]? =
      some ⟨start + totalWidth (ws.take k), start + totalWidth (ws.take k) + w⟩ := by
  induction ws generalizing start k with
  | nil => simp at h
  | cons v ws ih =>
    cases k with
    | zero =>
      cases h
      simp [slotsFrom, totalWidth]
    | succ k =>
      rw [List.getElem?_cons_succ] at h
      simp only [slotsFrom, List.getElem?_cons_succ, ih _ h, List.take_succ_cons, totalWidth,
        Nat.add_assoc]

theorem exists_slot {ws : List Nat} : ∀ {i : Nat}, i < totalWidth ws →
    ∃ k w o, ws[k]? = some w ∧ o < w ∧ i = totalWidth (ws.take k) + o := by
  induction ws with
  | nil => intro i h; simp [totalWidth] at h
  | cons v ws ih =>
    intro i h
    rw [totalWidth] at h
    by_cases hi : i < v
    · exact ⟨0, v, i, rfl, hi, by simp [totalWidth]⟩
    · obtain ⟨k, w, o, hw, ho, heq⟩ := ih (show i - v < totalWidth ws by omega)
      refine ⟨k + 1, w, o, hw, ho, ?_⟩
      rw [List.take_succ_cons, totalWidth]
      omega

@[simp] theorem length_slotsFrom (start : Nat) (ws : List Nat) :
    (slotsFrom start ws).length = ws.length := by
  induction ws generalizing start with
  | nil => rfl
  | cons w ws ih => simp [slotsFrom, ih]

/-! ## Linking -/

theorem orderOf_done {p : Patch F} {order : List NodeId} :
    (orderOf p).ending = .done order ↔
      executionOrder p.cables p.nodes.length = .ok (some order) := by
  unfold orderOf
  split <;> simp_all

structure Links (s : Schedule) (p : Patch F) : Prop where
  perm : s.order.Perm p.signalNodes
  wired : s.wired = (List.range p.nodes.length).map fun n =>
    Wired.ofInlets ((sourcesOf p.cables n).map (·.inlet))
  sources : s.sources = (List.range p.nodes.length).map (sourcesOf p.cables)
  inputWidths : s.inputWidths = p.nodes.map (·.topology.inputWidth)
  slots : s.slots = slotsFrom 0 (p.nodes.map (·.topology.outputWidth))
  bufferLength : s.bufferLength = totalWidth (p.nodes.map (·.topology.outputWidth))
  routes : s.routes = routesOf p.cables

/-- A schedule links its patch and takes the least ready node first. -/
theorem compile_done {p : Patch F} (hp : p.Sound) {s : Schedule}
    (h : (compile p).ending = .done s) :
    s.Links p ∧ LeastFirst p.cables p.signalNodes s.order := by
  simp only [compile, Traced.bind_done, Traced.ending_pure, Ending.done.injEq, orderOf_done] at h
  obtain ⟨order, horder, _, _, _, _, rfl⟩ := h
  rcases executionOrder_spec hp.endsBelow with ⟨order', hrun, _, hperm, hleast⟩ | ⟨hrun, _⟩
  · cases horder.symm.trans hrun
    refine ⟨⟨hperm.filter _, ?_, rfl, rfl, rfl, rfl, rfl⟩,
      hleast.filter fun a b hf => (hp.feeds_carries hf).1⟩
    exact List.map_map
  · cases horder.symm.trans hrun

theorem checkSources_done (sources : List (List SignalSource)) :
    ∀ (nodes : List (PatchNode F)) (i : Nat),
      (∀ k node, nodes[k]? = some node → ∀ s ∈ sources.getD (i + k) [],
        (node.topology.inlet? (.regular s.inlet)).any Port.isSignal = true) →
      (checkSources sources nodes i).ending = .done ()
  | [], _, _ => rfl
  | node :: rest, i, h => by
    unfold checkSources
    refine Traced.bind_done.mpr ⟨(), ?_, checkSources_done sources rest (i + 1) fun k n hn => ?_⟩
    · have := h 0 node rfl
      rw [Nat.add_zero] at this
      exact Invariant.check_done.mpr (List.all_eq_true.mpr this)
    · have := h (k + 1) n hn
      rwa [← Nat.add_assoc, Nat.add_right_comm] at this

theorem mem_sourcesOf {cables : List Cable} {n : NodeId} {s : SignalSource} :
    s ∈ sourcesOf cables n ↔ ∃ c ∈ cables, c.isSignal = true ∧ c.toNode = n ∧
      s = ⟨c.inlet.index, c.fromNode, c.outlet⟩ := by
  simp only [sourcesOf, List.mem_map, List.mem_filter, Bool.and_eq_true, beq_iff_eq]
  constructor
  · rintro ⟨c, ⟨hc, hs, hn⟩, rfl⟩; exact ⟨c, hc, hs, hn, rfl⟩
  · rintro ⟨c, hc, hs, hn, rfl⟩; exact ⟨c, ⟨hc, hs, hn⟩, rfl⟩

theorem compile_regular {p : Patch F} (hp : p.Sound) (hr : p.RegularSignals) :
    ∃ s, (compile p).ending = .done s := by
  rcases executionOrder_spec hp.endsBelow with ⟨order, hrun, _, hperm, _⟩ | ⟨_, hcyclic⟩
  · have hcheck :=
      checkSources_done ((List.range p.nodes.length).map (sourcesOf p.cables)) p.nodes 0
      fun k node hk src hmem => by
        have hlt : k < p.nodes.length := (List.getElem?_eq_some_iff.mp hk).1
        simp only [Nat.zero_add, List.getD_eq_getElem?_getD, List.getElem?_map,
          List.getElem?_range hlt, Option.map_some, Option.getD_some] at hmem
        obtain ⟨c, hc, hsig, rfl, rfl⟩ := mem_sourcesOf.mp hmem
        exact hp.lands_on_signal hr hc hsig hk
    exact ⟨tables p order, Traced.bind_done.mpr ⟨order, orderOf_done.mpr hrun,
      Traced.bind_done.mpr ⟨(), Invariant.check_done.mpr (by simp [hperm.length_eq]),
        Traced.bind_done.mpr ⟨(), hcheck, rfl⟩⟩⟩⟩
  · exact absurd hp.acyclic hcyclic

theorem compile_standard [Sample R] {p : Patch (standard R)} (hp : p.Sound) (hs : p.Standard) :
    ∃ s, (compile p).ending = .done s := compile_regular hp hs.regularSignals

/-! ## Reading the tables -/

section
variable {s : Schedule} {p : Patch F} (hs : s.Links p) {n : NodeId} {node : PatchNode F}
  (hn : p.node? n = some node)
include hs

theorem Links.order_lt {k : NodeId} (hk : k ∈ s.order) : k < p.nodes.length :=
  List.mem_range.mp (List.mem_filter.mp (hs.perm.mem_iff.mp hk)).1

theorem Links.order_nodup : s.order.Nodup := hs.perm.nodup_iff.mpr (List.nodup_range.filter _)

theorem Links.slots_lt {k : Nat} {slots : Slots} (hk : s.slots[k]? = some slots) :
    k < p.nodes.length := by
  have hlt := (List.getElem?_eq_some_iff.mp hk).1
  rwa [hs.slots, length_slotsFrom, List.length_map] at hlt

include hn

theorem Links.inputWidth : s.inputWidths[n]? = some node.topology.inputWidth := by
  rw [hs.inputWidths, List.getElem?_map, show p.nodes[n]? = some node from hn, Option.map_some]

theorem Links.source : s.sources[n]? = some (sourcesOf p.cables n) := by
  rw [hs.sources, List.getElem?_map, List.getElem?_range (Patch.node?_lt hn), Option.map_some]

theorem Links.wire :
    s.wired[n]? = some (Wired.ofInlets ((sourcesOf p.cables n).map (·.inlet))) := by
  rw [hs.wired, List.getElem?_map, List.getElem?_range (Patch.node?_lt hn), Option.map_some]

theorem Links.slot :
    s.slots[n]? = some ⟨totalWidth ((p.nodes.map (·.topology.outputWidth)).take n),
      totalWidth ((p.nodes.map (·.topology.outputWidth)).take n) +
        node.topology.outputWidth⟩ := by
  have := getElem?_slotsFrom 0 (Patch.getElem?_outputWidths hn)
  rwa [Nat.zero_add, ← hs.slots] at this

end

/-! ## Routes -/

instance : Std.TransOrd Outlet :=
  inferInstanceAs (Std.TransCmp (compareLex (compareOn Outlet.node) (compareOn Outlet.index)))

theorem foldl_addRoute {P : Target → Prop} : ∀ (cables : List Cable)
    (routes : Std.TreeMap Outlet (List Target)), (∀ c ∈ cables, P ⟨c.toNode, c.inlet⟩) →
      (∀ o, ∀ t ∈ routes.getD o [], P t) → ∀ o, ∀ t ∈ (cables.foldl addRoute routes).getD o [], P t
  | [], _, _, hr => hr
  | c :: cables, routes, hc, hr => by
    refine foldl_addRoute cables _ (fun d hd => hc d (List.mem_cons_of_mem _ hd)) fun o t ht => ?_
    rw [addRoute, Std.TreeMap.getD_insert] at ht
    split at ht
    · rcases List.mem_append.mp ht with ht | ht
      · exact hr _ t ht
      · rw [List.mem_singleton.mp ht]
        exact hc c (by simp)
    · exact hr o t ht

theorem Links.targets_lt {s : Schedule} {p : Patch F} (hs : s.Links p) (hp : p.Sound)
    {n : NodeId} {outlet : Nat} {t : Target} (ht : t ∈ s.targets n outlet) :
    t.node < p.nodes.length := by
  rw [targets, hs.routes] at ht
  refine foldl_addRoute (P := fun t => t.node < p.nodes.length) _ _ (fun c hc => ?_) ?_ _ t ht
  · obtain ⟨_, _, hb, _⟩ := (hp.fits c (List.mem_filter.mp hc).1).inlet
    exact Patch.node?_lt hb
  · intro o t ht
    simp at ht

/-- However its cables came about, a patch has an order of execution unless its signal cables form a
cycle, and it is the least order of all nodes. A patch of built-in nodes is always scheduled, in the
least order of the nodes with signal ports. -/
theorem order_is_least [Sample R] :
    (∀ (F : Family R) (p : Patch F), EndsBelow p.nodes.length p.cables →
      ((orderOf p).ending = .refused .cycleDetected ↔ ¬ Acyclic p.cables) ∧
      (Acyclic p.cables → ∃ order, (orderOf p).ending = .done order ∧
        LeastOrder p.cables (List.range p.nodes.length) order)) ∧
    ∀ edits : List (Edit (standard R)), (∀ edit ∈ edits, edit.fromCatalog = true) →
      ∃ s, (compile (Patch.built edits)).ending = .done s ∧
        LeastOrder (Patch.built edits).cables (Patch.built edits).signalNodes s.order := by
  refine ⟨fun F p hE => ?_, fun edits hedits => ?_⟩
  · rcases executionOrder_spec hE with ⟨order, hrun, hA, hperm, hleast⟩ | ⟨hrun, hC⟩
    · have hdone : (orderOf p).ending = .done order := orderOf_done.mpr hrun
      refine ⟨by simp [hdone, hA], fun _ => ⟨order, hdone, ?_⟩⟩
      exact hleast.leastOrder hperm List.nodup_range
    · exact ⟨by simp [orderOf, hrun, hC], fun hA => absurd hA hC⟩
  · have hp := Patch.sound_built edits
    obtain ⟨s, hs⟩ := compile_standard hp (Patch.standard_built hedits)
    obtain ⟨hlinks, hleast⟩ := compile_done hp hs
    exact ⟨s, hs, hleast.leastOrder hlinks.perm (List.nodup_range.filter _)⟩

/-- Two oscillators, the later one feeding the earlier: the later one runs first. -/
theorem order_is_least_backward :
    let cable : Cable := ⟨1, 0, 0, .regular 0, .signal⟩
    let node (id : NodeId) : PatchNode (standard Float) :=
      ⟨id, "osc~", [], .oscillator ⟨0⟩, Oscillator.topology, Standard.oscillator .cosine⟩
    let p : Patch (standard Float) := ⟨[node 0, node 1], [cable], .standard Float⟩
    let edits : List (Edit (standard Float)) :=
      [.add "osc~" [], .add "osc~" [], .connect 1 0 0 (.regular 0)]
    EndsBelow p.nodes.length p.cables ∧ (orderOf p).ending = .done [1, 0] ∧
      LeastOrder p.cables [0, 1] [1, 0] ∧ (∀ edit ∈ edits, edit.fromCatalog = true) ∧
      ∃ s, (compile (Patch.built edits)).ending = .done s ∧
        LeastOrder (Patch.built edits).cables (Patch.built edits).signalNodes s.order := by
  intro cable node p edits
  have hE : EndsBelow p.nodes.length p.cables := by simp [EndsBelow, p, cable]
  have hrun : (orderOf p).ending = .done [1, 0] := rfl
  have hedits : ∀ edit ∈ edits, edit.fromCatalog = true := by simp [edits, Edit.fromCatalog]
  obtain ⟨hiff, hleast⟩ := (order_is_least (R := Float)).1 _ p hE
  have hA : Acyclic p.cables := by
    by_contra hC
    cases hrun.symm.trans (hiff.mpr hC)
  obtain ⟨order, horder, hl⟩ := hleast hA
  cases hrun.symm.trans horder
  exact ⟨hE, hrun, hl, hedits, (order_is_least (R := Float)).2 edits hedits⟩

end Schedule

end Patchbay
