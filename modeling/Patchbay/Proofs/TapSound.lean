import Patchbay.Proofs.BindingSound
import Patchbay.Proofs.RoutingSound
import Patchbay.Proofs.TwinSound
import Patchbay.Proofs.WireSound

/-!
# Taps go unnoticed

A node that neither publishes nor subscribes, and has no cable out of it, is a tap: cables may lead
into it from anywhere. It changes the order of ticks, the places of samples and the lists of
targets, but nothing that is heard of the other nodes.
-/

namespace Patchbay

variable {R : Type} [Sample R]

/-! ## Nodes that only listen -/

def StandardArgs.isTap : StandardArgs R → Bool
  | .filter _ | .oscillator _ | .constant _ | .route _ | .print _ => true
  | .control _ | .send _ | .receive _ => false

namespace StandardState

def isTap : StandardState R → Bool
  | filter _ | oscillator _ | constant _ | route _ | print _ => true
  | control _ | send _ | receive _ => false

theorem configure_of_tap {s : StandardState R} (h : s.isTap = true) (rate : R) :
    (s.configure rate).state.isTap = true ∧ (s.configure rate).fault = none ∧
      (s.configure rate).emissions = [] := by
  cases s with
  | control | send | receive => cases h
  | _ => exact ⟨rfl, rfl, rfl⟩

theorem tick_of_tap {s : StandardState R} (h : s.isTap = true) (inputs own : List R) (rate : R) :
    (s.tick inputs own rate).state.isTap = true := by
  cases s <;> exact h

/-- A tap takes every message, and sends at most. -/
theorem message_of_tap {s : StandardState R} (h : s.isTap = true) (inlet : PortId) (msg : Message R)
    (rate : R) : (s.message inlet msg rate).state.isTap = true ∧
      (s.message inlet msg rate).fault = none ∧
      ∀ em ∈ (s.message inlet msg rate).emissions, ∃ outlet sent, em = .send outlet sent := by
  cases s with
  | control | send | receive => cases h
  | print s => exact ⟨rfl, rfl, List.forall_mem_nil _⟩
  | filter s =>
    refine ⟨rfl, ?_⟩
    simp only [message, FilterState.message, Handled.map]
    repeat' split
    all_goals exact ⟨rfl, List.forall_mem_nil _⟩
  | oscillator s =>
    refine ⟨rfl, ?_⟩
    simp only [message, OscillatorState.message, Handled.map]
    repeat' split
    all_goals exact ⟨rfl, List.forall_mem_nil _⟩
  | constant s =>
    refine ⟨rfl, ?_⟩
    simp only [message, ConstantState.message, Handled.map]
    split <;> exact ⟨rfl, List.forall_mem_nil _⟩
  | route s =>
    refine ⟨rfl, ?_⟩
    simp only [message, RouteState.message, Handled.map]
    repeat' split
    all_goals simp [Handled.quiet, Handled.notify, Handled.emit]

end StandardState

theorem Builtin.declares_tap {type : NodeType (standard R)} {args : StandardArgs R}
    {topology : Topology} (h : Builtin type args topology) (htap : args.isTap = true)
    {wired : Wired} {d : Declared (StandardState R)}
    (hd : (type.declare args wired).ending = .done d) :
    d.state.isTap = true ∧ d.subscriptions = [] := by
  cases h with
  | control | send | receive => cases htap
  | _ =>
    obtain ⟨d₀, hd₀, rfl⟩ := Blueprint.declared_of_inFamily hd rfl rfl fun _ => rfl
    cases hd₀
    exact ⟨rfl, rfl⟩

/-! ## A patch with a tap -/

structure Patch.Taps (p p' : Patch (standard R)) : Prop where
  node : ∃ tap, p'.nodes = p.nodes ++ [tap] ∧ tap.args.isTap = true
  cables : p.cables = p'.cables.filter fun c => c.toNode != p.nodes.length
  outlets : ∀ c ∈ p'.cables, c.fromNode ≠ p.nodes.length

namespace Patch.Taps

variable {p p' : Patch (standard R)} (h : p.Taps p')
include h

theorem length : p'.nodes.length = p.nodes.length + 1 := by
  obtain ⟨tap, hnodes, -⟩ := h.node
  simp [hnodes]

theorem node? {n : NodeId} (hn : n ≠ p.nodes.length) : p'.node? n = p.node? n := by
  obtain ⟨tap, hnodes, -⟩ := h.node
  unfold Patch.node?
  rw [hnodes, getElem?_snoc, if_neg hn]

theorem filter_cables {keep : Cable → Bool}
    (hkeep : ∀ c, keep c = true → c.toNode ≠ p.nodes.length) :
    p'.cables.filter keep = p.cables.filter keep := by
  rw [h.cables, List.filter_filter]
  refine List.filter_congr fun c _ => ?_
  cases hc : keep c with
  | true => simp [hkeep c hc]
  | false => rfl

theorem wires {n : NodeId} (hn : n ≠ p.nodes.length) (i : Nat) : p'.wires n i = p.wires n i := by
  refine h.filter_cables fun c hc => ?_
  simp only [Bool.and_eq_true, beq_iff_eq] at hc
  exact hc.1.2 ▸ hn

theorem sourcesOf {n : NodeId} (hn : n ≠ p.nodes.length) :
    Schedule.sourcesOf p'.cables n = Schedule.sourcesOf p.cables n := by
  unfold Schedule.sourcesOf
  rw [h.filter_cables fun c hc => ?_]
  simp only [Bool.and_eq_true, beq_iff_eq] at hc
  exact hc.2 ▸ hn

/-! ## Its schedule -/

variable {s s' : Schedule} (hs : s.Links p) (hs' : s'.Links p')
include hs'

theorem targets_tap (outlet : Nat) : s'.targets p.nodes.length outlet = [] := by
  rw [hs'.targets_eq, List.map_eq_nil_iff, List.filter_eq_nil_iff]
  intro c hc
  simp [h.outlets c hc]

include hs

theorem targets (n : NodeId) (outlet : Nat) : s.targets n outlet =
    (s'.targets n outlet).filter (·.node != p.nodes.length) := by
  rw [hs.targets_eq, hs'.targets_eq, h.cables, List.filter_map, List.filter_filter,
    List.filter_filter]
  congr 2
  funext c
  simp [Bool.and_comm]

theorem slots {n : NodeId} (hn : n ≠ p.nodes.length) : s'.slots[n]? = s.slots[n]? := by
  cases hnode : p.node? n with
  | none =>
    have hout : p.nodes.length < n :=
      Nat.lt_of_le_of_ne (List.getElem?_eq_none_iff.mp hnode) (Ne.symm hn)
    rw [List.getElem?_eq_none, List.getElem?_eq_none]
    · rw [hs.slots, Schedule.length_slotsFrom, List.length_map]
      exact Nat.le_of_lt hout
    · rw [hs'.slots, Schedule.length_slotsFrom, List.length_map, h.length]
      exact hout
  | some node =>
    obtain ⟨tap, hnodes, -⟩ := h.node
    have hlt := Patch.node?_lt hnode
    rw [hs.slot hnode, hs'.slot ((h.node? hn).trans hnode), hnodes, List.map_append,
      List.take_append_of_le_length (by simpa using Nat.le_of_lt hlt)]

theorem wired (hp : p.Sound) : ∀ node ∈ p.nodes, s'.wired[node.id]? = s.wired[node.id]? := by
  intro node hnode
  obtain ⟨k, hk, rfl⟩ := List.mem_iff_getElem.mp hnode
  have hat : p.node? k = some p.nodes[k] := List.getElem?_eq_getElem hk
  have hne : k ≠ p.nodes.length := Nat.ne_of_lt hk
  rw [hp.ids k _ hat, hs.wire hat, hs'.wire ((h.node? hne).trans hat), h.sourcesOf hne]

theorem mem_order {n : NodeId} : n ∈ s.order ↔ n ∈ s'.order ∧ n ≠ p.nodes.length := by
  rw [hs.perm.mem_iff, hs'.perm.mem_iff]
  simp only [Patch.signalNodes, List.mem_filter, List.mem_range, h.length]
  constructor
  · rintro ⟨hlt, hsignal⟩
    have hne : n ≠ p.nodes.length := Nat.ne_of_lt hlt
    refine ⟨⟨Nat.lt_succ_of_lt hlt, ?_⟩, hne⟩
    rwa [Patch.carriesSignal, h.node? hne]
  · rintro ⟨⟨hlt, hsignal⟩, hne⟩
    refine ⟨Nat.lt_of_le_of_ne (Nat.le_of_lt_succ hlt) hne, ?_⟩
    rwa [Patch.carriesSignal, h.node? hne] at hsignal

end Patch.Taps

/-! ## Two engines, one with the tap -/

namespace Engine

structure Tapped (s s' : Schedule) (p p' : Patch (standard R)) (e e' : Engine (standard R)) :
    Prop where
  hosts : e.Hosts StandardState.Suits s p
  hosts' : e'.Hosts StandardState.Suits s' p'
  nodes : ∀ n, n ≠ p.nodes.length → e'.nodes[n]? = e.nodes[n]?
  samples : ∀ n, n ≠ p.nodes.length → e'.samples n = e.samples n
  tap : ∀ live, e'.nodes[p.nodes.length]? = some live → live.state.isTap = true
  buses : e'.buses = e.buses
  listeners : ∀ bus, ∀ sub ∈ e.buses.subscribers bus, sub.node ≠ p.nodes.length
  pending : e.pending = e'.pending.filter (· != p.nodes.length)
  config : e.config = none ∧ e'.config = none ∨
    ∃ c c', e.config = some c ∧ e'.config = some c' ∧ c.Alike c'
  captured : ∀ n outlet, n ≠ p.nodes.length →
    e'.captured[(⟨n, outlet⟩ : Outlet)]? = e.captured[(⟨n, outlet⟩ : Outlet)]?

/-! ### Single steps -/

namespace Tapped

variable {s s' : Schedule} {p p' : Patch (standard R)} {e e' : Engine (standard R)}
  (h : Tapped s s' p p' e e')
include h

theorem setState {n : NodeId} {live : Live (standard R)} {st : StandardState R}
    (hn : n ≠ p.nodes.length) (hlive : e.nodes[n]? = some live)
    (hst : ∀ t, StandardState.Suits live.state t → StandardState.Suits st t) :
    Tapped s s' p p' (e.setState n st) (e'.setState n st) := by
  refine ⟨h.hosts.setState fun live' _ hlive' hnode => ?_,
    h.hosts'.setState fun live' _ hlive' hnode => ?_, fun k hk => ?_, h.samples,
    fun live' hlive' => ?_, h.buses, h.listeners, h.pending, h.config, h.captured⟩
  · exact hst _ (h.hosts.suits hlive hnode)
  · exact hst _ (h.hosts'.suits ((h.nodes n hn).trans hlive) hnode)
  · rw [getElem?_setState, getElem?_setState, h.nodes k hk]
  · rw [getElem?_setState, if_neg hn] at hlive'
    exact h.tap live' hlive'

theorem setState_tap {live : Live (standard R)} {st : StandardState R}
    (hlive : e'.nodes[p.nodes.length]? = some live)
    (hst : ∀ t, StandardState.Suits live.state t → StandardState.Suits st t)
    (htap : st.isTap = true) : Tapped s s' p p' e (e'.setState p.nodes.length st) := by
  refine ⟨h.hosts, h.hosts'.setState fun live' _ hlive' hnode => hst _ (h.hosts'.suits hlive hnode),
    fun k hk => ?_, h.samples, fun live' hlive' => ?_, h.buses, h.listeners, h.pending, h.config,
    h.captured⟩
  · rw [getElem?_setState, if_neg (Ne.symm hk), h.nodes k hk]
  · rw [getElem?_setState, if_pos rfl, hlive, Option.map_some, Option.some.injEq] at hlive'
    exact hlive' ▸ htap

theorem setCaptured {captured captured' : Std.TreeMap Outlet (List (Message R))}
    (hsame : ∀ n outlet, n ≠ p.nodes.length →
      captured'[(⟨n, outlet⟩ : Outlet)]? = captured[(⟨n, outlet⟩ : Outlet)]?) :
    Tapped s s' p p' { e with captured := captured } { e' with captured := captured' } :=
  ⟨h.hosts.of_frame rfl rfl rfl rfl, h.hosts'.of_frame rfl rfl rfl rfl, h.nodes, h.samples, h.tap,
    h.buses, h.listeners, h.pending, h.config, hsame⟩

theorem setBuses {buses : Buses}
    (hlisteners : ∀ bus, ∀ sub ∈ buses.subscribers bus, sub.node ≠ p.nodes.length) :
    Tapped s s' p p' { e with buses := buses } { e' with buses := buses } :=
  ⟨h.hosts.of_frame rfl rfl rfl rfl, h.hosts'.of_frame rfl rfl rfl rfl, h.nodes, h.samples, h.tap,
    rfl, hlisteners, h.pending, h.config, h.captured⟩

theorem setConfig {c c' : Config R} (halike : c.Alike c') :
    Tapped s s' p p' { e with config := some c, pending := [] }
      { e' with config := some c', pending := [] } :=
  ⟨h.hosts.of_frame rfl rfl rfl rfl, h.hosts'.of_frame rfl rfl rfl rfl, h.nodes, h.samples, h.tap,
    h.buses, h.listeners, rfl, Or.inr ⟨c, c', rfl, rfl, halike⟩, h.captured⟩

end Tapped

/-! ### Ticks -/

/-- To the nodes of `p` the cables of `p'` are those of `p`. -/
theorem Stepped.untapped {p p' : Patch (standard R)} (htaps : p.Taps p') {rate : R}
    {e e' : Engine (standard R)} {n : NodeId} (hn : n ≠ p.nodes.length)
    (h : Stepped p' rate e e' n) : Stepped p rate e e' n := by
  obtain ⟨node, live, inputs, st, hnode, hlive, hin, hrest⟩ := h
  refine ⟨node, live, inputs, st, (htaps.node? hn).symm.trans hnode, hlive, ?_, hrest⟩
  rw [hin]
  refine List.map_congr_left fun i _ => ?_
  unfold inflow?
  rw [htaps.wires hn]

theorem Stepped.isTap {p : Patch (standard R)} {rate : R} {e e' : Engine (standard R)} {n : NodeId}
    (h : Stepped p rate e e' n) (htap : ∀ live, e.nodes[n]? = some live → live.state.isTap = true) :
    ∀ live, e'.nodes[n]? = some live → live.state.isTap = true := by
  intro live' hlive'
  obtain ⟨node, live, inputs, st, _, hlive, _, htick, hnew⟩ := h
  cases hlive'.symm.trans hnew
  have hst := StandardState.tick_of_tap (htap live hlive) inputs
    (List.replicate node.topology.outputWidth 0) rate
  rwa [show live.state.tick inputs _ rate = _ from htick _ (by simp)] at hst

section
variable {p p' : Patch (standard R)} (htaps : p.Taps p') (hp : p.Sound) (hp' : p'.Sound)
  {s s' : Schedule} (hs : s.Links p) (hs' : s'.Links p') (ho : Orders p.cables s.order s.order)
  (ho' : Orders p'.cables s'.order s'.order)
include htaps hp hp' hs hs' ho ho'

theorem Tapped.tickAll (rate : R) {e e' : Engine (standard R)} (h : Tapped s s' p p' e e') :
    Together (Tapped s s' p p') (tickAll rate e) (tickAll rate e') := by
  obtain ⟨e₁, hall, he₁, hstep, hframe, _, _, _, heq⟩ :=
    h.hosts.tickAll StandardState.keeps hs hp ho rate
  obtain ⟨e₁', hall', he₁', hstep', hframe', _, _, _, heq'⟩ :=
    h.hosts'.tickAll StandardState.keeps hs' hp' ho' rate
  have hsame : ∀ n ∈ s.order, Stepped p rate e' e₁' n := fun n hn =>
    (hstep' n ((htaps.mem_order hs hs').mp hn).1).untapped htaps (Nat.ne_of_lt (hs.order_lt hn))
  have hagree := stepped_agree ho hstep hsame fun n hn =>
    (h.nodes n (Nat.ne_of_lt (hs.order_lt hn))).symm
  have hnode : ∀ n, n ≠ p.nodes.length →
      e₁'.nodes[n]? = e₁.nodes[n]? ∧ e₁'.samples n = e₁.samples n := by
    intro n hne
    by_cases hn : n ∈ s.order
    · exact ⟨(hagree n hn).1.symm, (hagree n hn).2.symm⟩
    · have hn' : n ∉ s'.order := fun hn' => hn ((htaps.mem_order hs hs').mpr ⟨hn', hne⟩)
      rw [(hframe n hn).1, (hframe' n hn').1, (hframe n hn).2, (hframe' n hn').2]
      exact ⟨h.nodes n hne, h.samples n hne⟩
  have htap : ∀ live, e₁'.nodes[p.nodes.length]? = some live → live.state.isTap = true := by
    by_cases hn : p.nodes.length ∈ s'.order
    · exact (hstep' _ hn).isTap h.tap
    · rw [(hframe' _ hn).1]
      exact h.tap
  rw [hall, hall']
  subst heq
  subst heq'
  exact ⟨⟨he₁, he₁', fun n hn => (hnode n hn).1, fun n hn => (hnode n hn).2, htap, h.buses,
    h.listeners, h.pending, h.config, h.captured⟩, rfl⟩

/-- Whatever happens at the tap goes unnoticed, and whatever happens elsewhere happens to both. -/
theorem twins_tapped : Twins (fun n => n != p.nodes.length) (Tapped s s' p p') where
  exists_live {e e' n} h hn := by
    cases (bne_eq_false_iff_eq.mp hn : n = p.nodes.length)
    have hlt : p.nodes.length < p'.nodes.length := htaps.length ▸ Nat.lt_succ_self _
    obtain ⟨live, _, hlive, _⟩ := h.hosts'.exists_live hlt
    exact ⟨live, hlive⟩
  targets {e e' n} outlet h hn := by
    cases (bne_eq_false_iff_eq.mp hn : n = p.nodes.length)
    rw [h.hosts'.schedule]
    exact htaps.targets_tap hs' outlet
  called {e e' n live} rate h hn hlive := by
    cases (bne_eq_false_iff_eq.mp hn : n = p.nodes.length)
    obtain ⟨htap, hquiet⟩ := StandardState.configure_of_tap (h.tap live hlive) rate
    exact ⟨h.setState_tap hlive (fun _ => StandardState.keeps.configure rate) htap, hquiet⟩
  handled {e e' n live} inlet msg rate h hn hlive := by
    cases (bne_eq_false_iff_eq.mp hn : n = p.nodes.length)
    obtain ⟨htap, hquiet⟩ := StandardState.message_of_tap (h.tap live hlive) inlet msg rate
    exact ⟨h.setState_tap hlive (fun _ => StandardState.keeps.message inlet msg rate) htap, hquiet⟩
  captured {e e' n} outlet msg h hn := by
    cases (bne_eq_false_iff_eq.mp hn : n = p.nodes.length)
    rw [capture_eq e']
    refine h.setCaptured fun k outlet' hk => ?_
    have hother : (⟨p.nodes.length, outlet⟩ : Outlet) ≠ ⟨k, outlet'⟩ :=
      fun heq => hk (congrArg Outlet.node heq).symm
    rw [capture_captured, if_neg hother, h.captured k outlet' hk]
    simp
  nodes h hn := h.nodes _ (bne_iff_ne.mp hn)
  wires outlet h _ := by
    rw [h.hosts.schedule, h.hosts'.schedule]
    exact htaps.targets hs hs' _ outlet
  buses h := h.buses
  listeners h bus sub hsub := bne_iff_ne.mpr (h.listeners bus sub hsub)
  pending h := h.pending
  config h := h.config
  slot outlet h hn := by
    unfold Schedule.slot?
    rw [h.hosts.schedule, h.hosts'.schedule, htaps.slots hs hs' (bne_iff_ne.mp hn)]
  signal outlet h hn := by
    rw [signal?_eq, signal?_eq, h.samples _ (bne_iff_ne.mp hn)]
  heard outlet h hn := by
    rw [take_fst, take_fst, h.captured _ _ (bne_iff_ne.mp hn)]
  call rate h hn hlive :=
    h.setState (bne_iff_ne.mp hn) hlive fun _ => StandardState.keeps.configure rate
  handle inlet msg h hn hlive :=
    h.setState (bne_iff_ne.mp hn) hlive fun _ => StandardState.keeps.message inlet msg _
  capture {e e' n} outlet msg h _ := by
    rw [capture_eq e, capture_eq e']
    refine h.setCaptured fun k outlet' hk => ?_
    rw [capture_captured, capture_captured, h.captured k outlet' hk]
  subscribe {e e' n} bus inlet h hn := by
    rw [h.buses]
    refine h.setBuses fun name sub hsub => ?_
    rcases Buses.mem_subscribe hsub with rfl | ⟨old, hold⟩
    · exact bne_iff_ne.mp hn
    · exact h.listeners old sub hold
  unsubscribe {e e' n} bus inlet h _ := by
    rw [h.buses]
    refine h.setBuses fun name sub hsub => ?_
    obtain ⟨old, hold⟩ := Buses.mem_unsubscribe hsub
    exact h.listeners old sub hold
  listen {e e' n} outlet h _ := by
    change Tapped s s' p p' { e with captured := (e.listen n outlet).captured }
      { e' with captured := (e'.listen n outlet).captured }
    refine h.setCaptured fun k outlet' hk => ?_
    rw [listen_captured, listen_captured, h.captured k outlet' hk]
  take {e e' n} outlet h _ := by
    rw [take_eq e, take_eq e']
    refine h.setCaptured fun k outlet' hk => ?_
    rw [take_captured, take_captured, h.captured k outlet' hk]
  configure h halike := h.setConfig halike
  tick rate h := h.tickAll htaps hp hp' hs hs' ho ho' rate

end

/-! ## Linking -/

section
variable {F : Family R} {wired wired' : List Wired}

omit [Sample R]

theorem declareAll_congr : ∀ {nodes : List (PatchNode F)},
    (∀ node ∈ nodes, wired'[node.id]? = wired[node.id]?) →
      declareAll wired' nodes = declareAll wired nodes
  | [], _ => rfl
  | node :: nodes, h => by
    have hrest := declareAll_congr fun n hn => h n (List.mem_cons_of_mem _ hn)
    simp only [declareAll, declareNode, h node (by simp), hrest]

theorem enterAll_congr : ∀ {nodes : List (PatchNode F)} (buses : Buses),
    (∀ node ∈ nodes, wired'[node.id]? = wired[node.id]?) →
      enterAll wired' nodes buses = enterAll wired nodes buses
  | [], _, _ => rfl
  | node :: nodes, buses, h => by
    have hrest := fun b => enterAll_congr b fun n hn => h n (List.mem_cons_of_mem node hn)
    simp only [enterAll, declareNode, h node (by simp), hrest]

/-- A last node without subscriptions leaves the buses as they are. -/
theorem enterAll_snoc {last : PatchNode F} {d : Declared F.State}
    (hd : (declareNode wired last).ending = .done d) (hnone : d.subscriptions = []) :
    ∀ (nodes : List (PatchNode F)) (buses : Buses),
      enterAll wired (nodes ++ [last]) buses = enterAll wired nodes buses
  | [], buses => by simp only [List.nil_append, enterAll, hd, hnone, List.foldl_nil]
  | node :: nodes, buses => by
    simp only [List.cons_append, enterAll, enterAll_snoc hd hnone nodes]

end

theorem samples_link {F : Family R} {s : Schedule} {p : Patch F} {buses : Buses} {e : Engine F}
    (h : (link s p buses).ending = .done e) (n : NodeId) :
    e.samples n = List.replicate (e.samples n).length 0 := by
  obtain ⟨_, _, _, rfl⟩ := link_done h
  refine List.eq_replicate_of_mem fun x hx => ?_
  unfold samples at hx
  split at hx
  · exact List.eq_of_mem_replicate (List.mem_of_mem_drop (List.mem_of_mem_take hx))
  · cases hx

theorem fresh_samples {p p' : Patch (standard R)} (htaps : p.Taps p') {s s' : Schedule}
    (hs : s.Links p) (hs' : s'.Links p') {buses : Buses} {e e' : Engine (standard R)}
    (he : (link s p buses).ending = .done e) (he' : (link s' p' buses).ending = .done e')
    (hhosts : e.Hosts StandardState.Suits s p) (hhosts' : e'.Hosts StandardState.Suits s' p')
    {n : NodeId} (hn : n ≠ p.nodes.length) : e'.samples n = e.samples n := by
  suffices hlen : (e'.samples n).length = (e.samples n).length by
    rw [samples_link he, samples_link he', hlen]
  cases hnode : p.node? n with
  | some node =>
    rw [hhosts.length_samples hs hnode,
      hhosts'.length_samples hs' ((htaps.node? hn).trans hnode)]
  | none =>
    have hslot : s.slots[n]? = none := by
      rw [List.getElem?_eq_none_iff, hs.slots, Schedule.length_slotsFrom, List.length_map]
      exact List.getElem?_eq_none_iff.mp hnode
    have hslot' : e'.schedule.slots[n]? = none := by
      rw [hhosts'.schedule, htaps.slots hs hs' hn, hslot]
    simp only [samples, hslot', hhosts.schedule, hslot]

theorem tapped_link {p p' : Patch (standard R)} (htaps : p.Taps p') (hp : p.Sound) (hp' : p'.Sound)
    (hstd : p.Standard) (hstd' : p'.Standard) {s s' : Schedule} (hs : s.Links p) (hs' : s'.Links p')
    {e e' : Engine (standard R)} (he : (link s p .empty).ending = .done e)
    (he' : (link s' p' .empty).ending = .done e') : Tapped s s' p p' e e' := by
  have hready := ready_link hp (fun node hnode => (hstd.nodes node hnode).starts) he
  have hhosts' := hosts_link (fun node hnode => (hstd'.nodes node hnode).starts) he'
  obtain ⟨tap, hnodes, htap⟩ := htaps.node
  have hlast : p'.node? p.nodes.length = some tap := by simp [Patch.node?, hnodes]
  have hid : tap.id = p.nodes.length := hp'.ids _ _ hlast
  have hwired := htaps.wired hs hs' hp
  have hlink := he
  have hlink' := he'
  obtain ⟨lives, pending, hdeclare, rfl⟩ := link_done he
  obtain ⟨lives', pending', hdeclare', rfl⟩ := link_done he'
  rw [hnodes] at hdeclare'
  obtain ⟨before, waiting, d, hbefore, hd, rfl, rfl⟩ := declareAll_snoc hdeclare'
  rw [declareAll_congr hwired] at hbefore
  cases hdeclare.symm.trans hbefore
  obtain ⟨hstate, hnone⟩ : d.state.isTap = true ∧ d.subscriptions = [] := by
    obtain ⟨w, _, hdone⟩ := Traced.bind_done.mp hd
    exact (hstd'.nodes tap (Patch.node?_mem hlast)).declares_tap htap hdone
  have hlength : lives.length = p.nodes.length := (declareAll_done hdeclare).1.length_eq.symm
  exact {
    hosts := hready.hosts
    hosts' := hhosts'
    nodes := by
      intro n hn
      dsimp only
      rw [getElem?_snoc, hlength, if_neg hn]
    samples := fun _ hn => fresh_samples htaps hs hs' hlink hlink' hready.hosts hhosts' hn
    tap := by
      intro live hlive
      rw [← hlength, List.getElem?_concat_length] at hlive
      cases hlive
      exact hstate
    buses := by
      dsimp only
      rw [hnodes, enterAll_snoc hd hnone, enterAll_congr _ hwired]
    listeners := fun bus sub hsub => Nat.ne_of_lt (hready.subscribers bus sub hsub)
    pending := by
      have hold : pending.filter (· != p.nodes.length) = pending :=
        List.filter_eq_self.mpr fun n hn => bne_iff_ne.mpr (Nat.ne_of_lt (hready.pending n hn))
      rw [List.filter_append, hold, hid]
      cases d.wantsConfigure <;> simp
    config := Or.inl ⟨rfl, rfl⟩
    captured := fun _ _ _ => rfl }

/-! ## Runs with and without the tap -/

/-- A patch and the same patch with a tap, wherever its cables were made among the others: as long
as nobody asks for the tap itself, both engines answer every call alike, and agree at any time on
the samples and the captured messages of all other nodes, and on the subscribers of the buses. -/
theorem taps_go_unnoticed [LawfulSample R] {edits edits' : List (Edit (standard R))}
    (hedits : ∀ edit ∈ edits, edit.fromCatalog = true)
    (hedits' : ∀ edit ∈ edits', edit.fromCatalog = true)
    (htaps : (Patch.built edits).Taps (Patch.built edits')) :
    ∃ s s' fresh fresh', (Schedule.compile (Patch.built edits)).ending = .done s ∧
      (link s (Patch.built edits) .empty).ending = .done fresh ∧
      (Schedule.compile (Patch.built edits')).ending = .done s' ∧
      (link s' (Patch.built edits') .empty).ending = .done fresh' ∧
      ∀ calls : List (Call R), (∀ call ∈ calls, ∀ n, call.node? = some n →
          n < (Patch.built edits).nodes.length) →
        (outcomes perform fresh' calls).map (·.ending) =
          (outcomes perform fresh calls).map (·.ending) ∧
        (∀ n < (Patch.built edits).nodes.length, ∀ outlet,
          (fresh'.after calls).signal? n outlet = (fresh.after calls).signal? n outlet ∧
          (fresh'.after calls).captured[(⟨n, outlet⟩ : Outlet)]? =
            (fresh.after calls).captured[(⟨n, outlet⟩ : Outlet)]?) ∧
        (fresh'.after calls).buses = (fresh.after calls).buses := by
  obtain ⟨s, fresh, hs, hfresh⟩ := link_built hedits
  obtain ⟨s', fresh', hs', hfresh'⟩ := link_built hedits'
  have hp := Patch.sound_built edits
  have hp' := Patch.sound_built edits'
  obtain ⟨hlinks, hleast⟩ := Schedule.compile_done hp hs
  obtain ⟨hlinks', hleast'⟩ := Schedule.compile_done hp' hs'
  have htwins := twins_tapped htaps hp hp' hlinks hlinks' ⟨.refl _, hleast.ready⟩
    ⟨.refl _, hleast'.ready⟩
  have hstart := tapped_link htaps hp hp' (Patch.standard_built hedits)
    (Patch.standard_built hedits') hlinks hlinks' hfresh hfresh'
  refine ⟨s, s', fresh, fresh', hs, hfresh, hs', hfresh', fun calls hcalls => ?_⟩
  obtain ⟨htapped, hendings⟩ := htwins.outcomes (Call.alike_self calls) hstart
    fun call hcall n hn => bne_iff_ne.mpr (Nat.ne_of_lt (hcalls call hcall n hn))
  refine ⟨hendings, fun n hn outlet => ⟨?_, ?_⟩, htapped.buses⟩
  · exact htwins.signal outlet htapped (bne_iff_ne.mpr (Nat.ne_of_lt hn))
  · exact htapped.captured n outlet (Nat.ne_of_lt hn)

/-- An oscillator that a list box drives, and a filter that listens to both, its cables made
first. -/
theorem taps_go_unnoticed_filter :
    let edits : List (Edit (standard Float)) :=
      [.add "listbox" [.float 0, .float 0, .symbol "A"], .add "osc~" [.float 440],
        .connect 0 0 1 (.regular 0)]
    let edits' : List (Edit (standard Float)) :=
      [.add "listbox" [.float 0, .float 0, .symbol "A"], .add "osc~" [.float 440], .add "lop~" [],
        .connect 0 0 2 (.regular 1), .connect 1 0 2 (.regular 0), .connect 0 0 1 (.regular 0)]
    (Patch.built edits).Taps (Patch.built edits') ∧ (Patch.built edits').cables.length = 3 ∧
      ∃ s s' fresh fresh', (Schedule.compile (Patch.built edits)).ending = .done s ∧
        (link s (Patch.built edits) .empty).ending = .done fresh ∧
        (Schedule.compile (Patch.built edits')).ending = .done s' ∧
        (link s' (Patch.built edits') .empty).ending = .done fresh' ∧
        ∀ msg frames,
          let calls := [.configure ⟨44100, 64, 1⟩, .send 0 (.regular 0) msg, .render 1 0 frames]
          (outcomes perform fresh' calls).map (·.ending) =
            (outcomes perform fresh calls).map (·.ending) := by
  intro edits edits'
  have htaps : (Patch.built edits).Taps (Patch.built edits') :=
    ⟨⟨_, rfl, rfl⟩, rfl, by decide⟩
  have hedits : ∀ edit ∈ edits, edit.fromCatalog = true := by simp [edits, Edit.fromCatalog]
  have hedits' : ∀ edit ∈ edits', edit.fromCatalog = true := by simp [edits', Edit.fromCatalog]
  obtain ⟨s, s', fresh, fresh', hs, hfresh, hs', hfresh', halike⟩ :=
    taps_go_unnoticed hedits hedits' htaps
  refine ⟨htaps, rfl, s, s', fresh, fresh', hs, hfresh, hs', hfresh', fun msg frames => ?_⟩
  refine (halike _ fun call hcall n hn => ?_).1
  simp only [List.mem_cons, List.not_mem_nil, or_false] at hcall
  rcases hcall with rfl | rfl | rfl
  · cases hn
  · cases hn
    exact Nat.zero_lt_succ 1
  · cases hn
    exact Nat.one_lt_succ_succ 0

end Engine

end Patchbay
