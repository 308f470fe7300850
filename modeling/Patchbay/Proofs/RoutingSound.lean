import Patchbay.Proofs.ScheduleSound

/-!
# Routing tables of sound patches

Every cable of a sound patch stands in exactly one table of its schedule, once and in the order of
connection, and no table holds anything else. The slots of the nodes lie one behind the other and
fill the shared buffer.
-/

namespace Patchbay

variable {R : Type} {F : Family R}

/-! ## Inlets with a source -/

theorem searchAscending_iff {i room : Nat} : ∀ {js : List Nat}, js.length ≤ room →
    js.Pairwise (· < ·) → (searchAscending i room js = true ↔ i ∈ js) := by
  induction room with
  | zero =>
    intro js hlen _
    have hnil : js = [] := List.length_eq_zero_iff.mp (Nat.le_zero.mp hlen)
    simp [hnil, searchAscending]
  | succ room ih =>
    intro js hlen hasc
    unfold searchAscending
    split
    · rename_i hnil
      -- half of the numbers are all of them only where there are none
      have hlen : js.length ≤ js.length / 2 := List.drop_eq_nil_iff.mp hnil
      have hnil : js = [] := List.length_eq_zero_iff.mp (by omega)
      simp [hnil]
    · rename_i j upper hupper
      have hsplit := List.take_append_drop (js.length / 2) js
      rw [hupper] at hsplit
      generalize js.take (js.length / 2) = lower at hsplit ⊢
      subst hsplit
      obtain ⟨hlower, hupper, hcross⟩ := List.pairwise_append.mp hasc
      obtain ⟨hj, hupper⟩ := List.pairwise_cons.mp hupper
      have hbelow : ∀ a ∈ lower, a < j := fun a ha => hcross a ha j (by simp)
      simp only [List.length_append, List.length_cons] at hlen
      by_cases heq : i = j
      · simp [heq]
      by_cases hlt : i < j
      · have habove : i ∉ upper := fun hi => absurd (hj i hi) (by omega)
        rw [if_neg heq, if_pos hlt, ih (by omega) hlower]
        simp [heq, habove]
      · have hnot : i ∉ lower := fun hi => absurd (hbelow i hi) hlt
        rw [if_neg heq, if_neg hlt, ih (by omega) hupper]
        simp [heq, hnot]

namespace Wired

theorem mem_ofInlets {inlets : List Nat} {i : Nat} : i ∈ (ofInlets inlets).inlets ↔ i ∈ inlets := by
  unfold ofInlets
  induction inlets with
  | nil => simp
  | cons j inlets ih => simp only [List.foldr_cons, mem_insertAscending, ih, List.mem_cons]

theorem pairwise_ofInlets (inlets : List Nat) : (ofInlets inlets).inlets.Pairwise (· < ·) := by
  unfold ofInlets
  induction inlets with
  | nil => exact List.Pairwise.nil
  | cons j inlets ih => exact pairwise_insertAscending ih

/-- In whatever order and however often the inlets were listed, just these have a source. -/
theorem hasSource_ofInlets {inlets : List Nat} {i : Nat} :
    (ofInlets inlets).hasSource i = true ↔ i ∈ inlets := by
  unfold hasSource
  rw [searchAscending_iff (Nat.le_refl _) (pairwise_ofInlets inlets), mem_ofInlets]

end Wired

/-! ## Slots -/

def Slots.Tiles : Nat → List Slots → Nat → Prop
  | start, [], stop => start = stop
  | start, own :: rest, stop => own.start = start ∧ own.start ≤ own.stop ∧ Tiles own.stop rest stop

def Slots.Owns (slots : List Slots) (n i : Nat) : Prop :=
  ∃ own, slots[n]? = some own ∧ own.start ≤ i ∧ i < own.stop

namespace Slots

theorem tiles_slotsFrom (start : Nat) (ws : List Nat) :
    Tiles start (Schedule.slotsFrom start ws) (start + Schedule.totalWidth ws) := by
  induction ws generalizing start with
  | nil => rfl
  | cons w ws ih =>
    refine ⟨rfl, Nat.le_add_right _ _, ?_⟩
    rw [Schedule.totalWidth, ← Nat.add_assoc]
    exact ih (start + w)

theorem Tiles.le_start {slots : List Slots} : ∀ {start stop : Nat}, Tiles start slots stop →
    ∀ own ∈ slots, start ≤ own.start := by
  induction slots with
  | nil => intro _ _ _ own h; cases h
  | cons first rest ih =>
    intro start stop h own hown
    obtain ⟨hstart, hle, hrest⟩ := h
    rcases List.mem_cons.mp hown with rfl | hown
    · exact Nat.le_of_eq hstart.symm
    · have := ih hrest own hown
      omega

theorem Tiles.existsUnique_owner {slots : List Slots} : ∀ {start stop i : Nat},
    Tiles start slots stop → start ≤ i → i < stop → ∃! n, Owns slots n i := by
  induction slots with
  | nil =>
    intro start stop i h hle hlt
    have : start = stop := h
    omega
  | cons first rest ih =>
    intro start stop i h hle hlt
    obtain ⟨hstart, hwidth, hrest⟩ := h
    by_cases hi : i < first.stop
    · refine ⟨0, ⟨first, rfl, hstart ▸ hle, hi⟩, ?_⟩
      rintro (_ | n) ⟨own, hown, hlow, hup⟩
      · rfl
      · have := hrest.le_start own (List.mem_of_getElem? hown)
        omega
    · obtain ⟨n, hn, huniq⟩ := ih hrest (Nat.le_of_not_lt hi) hlt
      refine ⟨n + 1, hn, ?_⟩
      rintro (_ | m) ⟨own, hown, hlow, hup⟩
      · cases hown
        exact absurd hup hi
      · rw [huniq m ⟨own, hown, hlow, hup⟩]

end Slots

/-! ## Routes -/

instance : Std.LawfulEqOrd Outlet where
  eq_of_compare {a b} h := by
    have hboth : compare a.node b.node = .eq ∧ compare a.index b.index = .eq :=
      Ordering.then_eq_eq.mp h
    obtain ⟨hnode, hindex⟩ := hboth
    have hnode := Std.LawfulEqCmp.eq_of_compare hnode
    have hindex := Std.LawfulEqCmp.eq_of_compare hindex
    cases a
    cases b
    simp_all

namespace Schedule

theorem getD_foldl_addRoute (cables : List Cable) (o : Outlet) :
    ∀ routes : Std.TreeMap Outlet (List Target), (cables.foldl addRoute routes).getD o [] =
      routes.getD o [] ++ (cables.filter fun c => c.fromNode == o.node && c.outlet == o.index).map
        fun c => ⟨c.toNode, c.inlet⟩ := by
  induction cables with
  | nil => intro routes; simp
  | cons c cables ih =>
    intro routes
    rw [List.foldl_cons, ih, addRoute, Std.TreeMap.getD_insert]
    by_cases ho : (⟨c.fromNode, c.outlet⟩ : Outlet) = o
    · subst ho
      simp
    · have hne : ¬ (c.fromNode = o.node ∧ c.outlet = o.index) := fun h => ho (by rw [h.1, h.2])
      simp [ho, hne]

end Schedule

/-! ## Every cable in its place -/

def SignalSource.cable (n : NodeId) (s : SignalSource) : Cable :=
  ⟨s.node, s.outlet, n, .regular s.inlet, .signal⟩

def Target.cable (n : NodeId) (outlet : Nat) (t : Target) : Cable :=
  ⟨n, outlet, t.node, t.inlet, .message⟩

namespace Schedule

/-- The tables hold the cables of the patch, each once and in the order of connection, and nothing
else. -/
structure Carries (s : Schedule) (p : Patch F) : Prop where
  rows : s.sources.length = p.nodes.length ∧ s.wired.length = p.nodes.length ∧
    s.slots.length = p.nodes.length ∧ s.inputWidths.length = p.nodes.length
  sources : ∀ n ss, s.sources[n]? = some ss →
    ss.map (SignalSource.cable n) = p.cables.filter fun c => c.isSignal && c.toNode == n
  targets : ∀ n o, (s.targets n o).map (Target.cable n o) =
    p.cables.filter fun c => !c.isSignal && c.fromNode == n && c.outlet == o
  wired : ∀ n w, s.wired[n]? = some w → ∀ i, w.hasSource i = true ↔
    ∃ c ∈ p.cables, c.isSignal = true ∧ c.toNode = n ∧ c.inlet = .regular i
  widths : ∀ n node own, p.node? n = some node → s.slots[n]? = some own →
    own.width = node.topology.outputWidth
  ends : ∀ c ∈ p.cables, c.isSignal = true → ∃ own width,
    s.slots[c.fromNode]? = some own ∧ c.outlet < own.width ∧
      s.inputWidths[c.toNode]? = some width ∧ c.inlet.index < width

theorem Links.targets_eq {s : Schedule} {p : Patch F} (hs : s.Links p) (n : NodeId) (o : Nat) :
    s.targets n o = (p.cables.filter fun c => !c.isSignal && c.fromNode == n && c.outlet == o).map
      fun c => ⟨c.toNode, c.inlet⟩ := by
  rw [targets, hs.routes, routesOf, getD_foldl_addRoute, List.filter_filter]
  simp only [Std.TreeMap.getD_emptyc, List.nil_append]
  congr 2
  funext c
  cases c.isSignal <;> simp

theorem Links.carries {s : Schedule} {p : Patch F} (hs : s.Links p) (hp : p.Sound)
    (hr : p.RegularSignals) : s.Carries p where
  rows := by simp [hs.sources, hs.wired, hs.slots, hs.inputWidths]
  sources n ss h := by
    have hn : n < p.nodes.length := by
      have := (List.getElem?_eq_some_iff.mp h).1
      simpa [hs.sources] using this
    rw [hs.source (List.getElem?_eq_getElem hn)] at h
    cases h
    rw [sourcesOf, List.map_map]
    refine (List.map_congr_left fun c hc => ?_).trans (List.map_id _)
    obtain ⟨hc, hkind⟩ := List.mem_filter.mp hc
    obtain ⟨hsig, hto⟩ : c.isSignal = true ∧ c.toNode = n := by simpa using hkind
    have hregular := hp.regular_inlet hr hc hsig
    have hkind : c.kind = .signal := by simpa [Cable.isSignal] using hsig
    simp only [Function.comp_apply, SignalSource.cable, ← hregular, ← hto, ← hkind, id]
  targets n o := by
    rw [hs.targets_eq, List.map_map]
    refine (List.map_congr_left fun c hc => ?_).trans (List.map_id _)
    obtain ⟨⟨hsig, hfrom⟩, ho⟩ : (c.isSignal = false ∧ c.fromNode = n) ∧ c.outlet = o := by
      simpa using (List.mem_filter.mp hc).2
    have hkind : c.kind = .message := by
      cases hk : c.kind with
      | signal => simp [Cable.isSignal, hk] at hsig
      | message => rfl
    simp only [Function.comp_apply, Target.cable, ← hfrom, ← ho, ← hkind, id]
  wired n w h i := by
    have hn : n < p.nodes.length := by
      have := (List.getElem?_eq_some_iff.mp h).1
      simpa [hs.wired] using this
    rw [hs.wire (List.getElem?_eq_getElem hn)] at h
    cases h
    simp only [Wired.hasSource_ofInlets, List.mem_map, mem_sourcesOf]
    constructor
    · rintro ⟨_, ⟨c, hc, hsig, hto, rfl⟩, rfl⟩
      exact ⟨c, hc, hsig, hto, hp.regular_inlet hr hc hsig⟩
    · rintro ⟨c, hc, hsig, hto, hinlet⟩
      exact ⟨_, ⟨c, hc, hsig, hto, rfl⟩, by rw [hinlet]; rfl⟩
  widths n node own hn h := by
    rw [hs.slot hn] at h
    cases h
    exact Nat.add_sub_cancel_left _ _
  ends c hc hsig := by
    have hkind : c.kind = .signal := by simpa [Cable.isSignal] using hsig
    obtain ⟨⟨a, out, ha, hout, houtk⟩, ⟨b, inl, hb, hin, hink⟩⟩ := hp.fits c hc
    refine ⟨_, _, hs.slot ha, ?_, hs.inputWidth hb, Topology.inlet?_lt hin (hink.trans hkind)⟩
    have hwidth := Topology.outlet?_lt hout (houtk.trans hkind)
    simpa [Slots.width] using hwidth

/-- Whatever was asked of a patch whose signal inlets are no shadows, it is scheduled, and its
schedule carries its cables. The ranges of the nodes lie one behind the other, and every place of
the buffer belongs to one of them. -/
theorem carries_every_cable (catalog : Catalog F) (edits : List (Edit F))
    (hr : ((Patch.empty catalog).after edits).RegularSignals) :
    (∀ inlets i, (Wired.ofInlets inlets).hasSource i = true ↔ i ∈ inlets) ∧
    ∃ s, (compile ((Patch.empty catalog).after edits)).ending = .done s ∧
      s.Carries ((Patch.empty catalog).after edits) ∧ Slots.Tiles 0 s.slots s.bufferLength ∧
      ∀ i, i < s.bufferLength → ∃! n, Slots.Owns s.slots n i := by
  refine ⟨fun _ _ => Wired.hasSource_ofInlets, ?_⟩
  have hp : ((Patch.empty catalog).after edits).Sound := (Patch.sound_empty catalog).after edits
  obtain ⟨s, hs⟩ := compile_regular hp hr
  obtain ⟨hlinks, _⟩ := compile_done hp hs
  have htiles : Slots.Tiles 0 s.slots s.bufferLength := by
    rw [hlinks.slots, hlinks.bufferLength]
    simpa using Slots.tiles_slotsFrom 0 (((Patch.empty catalog).after edits).nodes.map
      (·.topology.outputWidth))
  exact ⟨s, hs, hlinks.carries hp hr, htiles,
    fun i hi => htiles.existsUnique_owner (Nat.zero_le i) hi⟩

/-- An oscillator on both inlets of a filter, wired in descending order, and a number on its
shadow. -/
theorem carries_every_cable_filter :
    let edits : List (Edit (standard Float)) :=
      [.add "osc~" [], .add "lop~" [], .add "floatatom" [], .connect 0 0 1 (.regular 1),
        .connect 0 0 1 (.regular 0), .connect 2 0 1 (.regular 1)]
    (Patch.built edits).RegularSignals ∧
      (Patch.built edits).cables = [⟨0, 0, 1, .regular 1, .signal⟩, ⟨0, 0, 1, .regular 0, .signal⟩,
        ⟨2, 0, 1, .shadowOf 1, .message⟩] ∧
      ∃ s, (compile (Patch.built edits)).ending = .done s ∧ s.Carries (Patch.built edits) ∧
        Slots.Tiles 0 s.slots s.bufferLength ∧
        ∀ i, i < s.bufferLength → ∃! n, Slots.Owns s.slots n i := by
  intro edits
  have hr : (Patch.built edits).RegularSignals :=
    (Patch.standard_built (by simp [edits, Edit.fromCatalog])).regularSignals
  exact ⟨hr, by decide +kernel, (carries_every_cable _ edits hr).2⟩

end Schedule

end Patchbay
