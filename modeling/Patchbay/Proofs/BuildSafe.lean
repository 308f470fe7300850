import Patchbay.Proofs.ControlSound

/-!
# Building never faults

A patch of built-in nodes may refuse a change, but no change faults: the types make distinct ports,
and the search for cycles stays within the patch. Linking such a patch always gets done.
-/

namespace Patchbay

variable {R : Type} [Sample R]

/-! ## Changes -/

theorem Patch.makeNode_not_faulted {name : String} {type : NodeType (standard R)}
    (htype : (name, type) ∈ Standard.types) (id : NodeId) (raw : List (Token R)) (f : Fault) :
    (makeNode id name type raw).ending ≠ .faulted f := by
  intro h
  rcases Traced.bind_faulted.mp h with h | ⟨args, hargs, h⟩
  · exact Traced.ofExcept_not_faulted _ f h
  obtain ⟨t, ht, hunique, _⟩ := Standard.builds htype (Traced.ofExcept_done.mp hargs)
  rcases Traced.bind_faulted.mp h with h | ⟨topology, htopology, h⟩
  · rw [ht] at h
    cases h
  cases ht.symm.trans htopology
  rcases Traced.bind_faulted.mp h with h | ⟨_, _, h⟩
  · rw [(Invariant.check_done (u := ())).mpr hunique] at h
    cases h
  · cases h

omit [Sample R] in
theorem Patch.newCable_not_faulted {F : Family R} {p : Patch F} (hp : p.Sound)
    (source : NodeId) (outlet : Nat) (target : NodeId) (inlet : PortId) (f : Fault) :
    (p.newCable source outlet target inlet).ending ≠ .faulted f := by
  intro h
  unfold newCable at h
  split at h
  · cases h
  · rename_i cable hfor
    split at h
    · cases h
    · split at h
      · split at h
        · rename_i hcycle
          obtain ⟨hfits, _, rfl⟩ := cableFor_spec hfor
          obtain ⟨_, _, hb, _⟩ := hfits.inlet
          obtain ⟨found, hfound, _⟩ := wouldCycle_spec hp.endsBelow source (node?_lt hb)
          cases hcycle.symm.trans hfound
        · cases h
        · cases h
      · cases h

theorem Patch.perform_not_faulted {p : Patch (standard R)} (hp : p.Sound) (hs : p.Standard)
    {edit : Edit (standard R)} (hedit : edit.fromCatalog = true) (f : Fault) :
    (p.perform edit).ending ≠ .faulted f := by
  intro h
  cases edit with
  | add typeName raw =>
    rw [perform, Outcome.map_faulted, addNode, Traced.commit_faulted, Traced.mapError_faulted] at h
    rcases Traced.bind_faulted.mp h with h | ⟨type, hget, h⟩
    · exact Traced.ofExcept_not_faulted _ f h
    · have hget := Traced.ofExcept_done.mp hget
      rw [hs.catalog] at hget
      exact makeNode_not_faulted (Catalog.mem_of_get hget) _ _ f h
  | addExternal => cases hedit
  | connect source outlet target inlet =>
    rw [perform, Outcome.map_faulted, connect, Traced.commit_faulted] at h
    exact newCable_not_faulted hp _ _ _ _ f h

/-! ## Linking -/

namespace Engine

omit [Sample R] in
theorem declareAll_total {F : Family R} {wired : List Wired} : ∀ {nodes : List (PatchNode F)},
    (∀ node ∈ nodes, ∃ d, (declareNode wired node).ending = .done d) →
      ∃ r, (declareAll wired nodes).ending = .done r
  | [], _ => ⟨_, rfl⟩
  | node :: nodes, h => by
    obtain ⟨d, hd⟩ := h node (by simp)
    obtain ⟨r, hr⟩ := declareAll_total fun n hn => h n (List.mem_cons_of_mem _ hn)
    exact ⟨_, Traced.bind_done.mpr ⟨d, hd, Traced.bind_done.mpr ⟨r, hr, rfl⟩⟩⟩

theorem link_total [LawfulSample R] {p : Patch (standard R)} (hp : p.Sound) (hs : p.Standard)
    {s : Schedule} (hlinks : s.Links p) (buses : Buses) :
    ∃ e, (link s p buses).ending = .done e := by
  have hdeclare : ∀ node ∈ p.nodes, ∃ d, (declareNode s.wired node).ending = .done d := by
    intro node hnode
    obtain ⟨k, hk⟩ := List.mem_iff_getElem?.mp hnode
    have hwired := hlinks.wire (show p.node? k = some node from hk)
    rw [← hp.ids k node hk] at hwired
    obtain ⟨d, hd, _⟩ := (hs.nodes node hnode).declares
      (Wired.ofInlets ((Schedule.sourcesOf p.cables node.id).map (·.inlet)))
    exact ⟨d, Traced.bind_done.mpr ⟨_, Traced.at?_done.mpr hwired, hd⟩⟩
  obtain ⟨⟨lives, pending⟩, h⟩ := declareAll_total hdeclare
  exact ⟨_, Traced.mapError_done.mpr (Traced.bind_done.mpr ⟨_, h, rfl⟩)⟩

/-- Whatever was built over the built-in catalog is scheduled and linked. -/
theorem link_built [LawfulSample R] {edits : List (Edit (standard R))}
    (hedits : ∀ edit ∈ edits, edit.fromCatalog = true) :
    ∃ s fresh, (Schedule.compile (Patch.built edits)).ending = .done s ∧
      (link s (Patch.built edits) .empty).ending = .done fresh := by
  have hp := Patch.sound_built edits
  have hstd := Patch.standard_built hedits
  obtain ⟨s, hs⟩ := Schedule.compile_standard hp hstd
  obtain ⟨fresh, hfresh⟩ := link_total hp hstd (Schedule.compile_done hp hs).1 .empty
  exact ⟨s, fresh, hs, hfresh⟩

end Engine

end Patchbay
