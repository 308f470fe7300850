import Patchbay.Patch.History
import Patchbay.Proofs.Endings
import Patchbay.Proofs.SearchSound

/-!
# Sound patches

What holds of a patch whatever was asked of it: nodes carry their position as id and have distinct
ports, cables join ports of their kind, none is there twice, and signals run in no circle. Adding
and connecting keep this, and where they are refused or break off they change nothing.
-/

namespace Patchbay

open Relation

variable {R : Type} {F : Family R}

structure Cable.Fits (c : Cable) (p : Patch F) : Prop where
  outlet : ∃ node port, p.node? c.fromNode = some node ∧
    node.topology.outlet? c.outlet = some port ∧ port.kind = c.kind
  inlet : ∃ node port, p.node? c.toNode = some node ∧
    node.topology.inlet? c.inlet = some port ∧ port.kind = c.kind

structure PatchNode.DistinctPorts (node : PatchNode F) : Prop where
  inlets : (node.topology.inlets.map (·.id)).Nodup
  outlets : (node.topology.outlets.map (·.id)).Nodup

structure Patch.Sound (p : Patch F) : Prop where
  ids : ∀ k node, p.node? k = some node → node.id = k
  ports : ∀ node ∈ p.nodes, node.DistinctPorts
  fits : ∀ c ∈ p.cables, c.Fits p
  once : p.cables.Nodup
  acyclic : Acyclic p.cables

/-! ## Nodes -/

theorem Topology.distinctIds_iff {ports : List Port} :
    distinctIds ports = true ↔ (ports.map (·.id)).Nodup := by
  induction ports with
  | nil => simp [distinctIds]
  | cons p ps ih =>
    simp only [distinctIds, Bool.and_eq_true, List.all_eq_true, bne_iff_ne, ih, List.map_cons,
      List.nodup_cons, List.mem_map, not_exists, not_and]

theorem Cable.Fits.mono {c : Cable} {p q : Patch F} (h : c.Fits p)
    (hpq : ∀ k node, p.node? k = some node → q.node? k = some node) : c.Fits q := by
  obtain ⟨⟨a, out, ha, hout⟩, ⟨b, inl, hb, hin⟩⟩ := h
  exact ⟨⟨a, out, hpq _ _ ha, hout⟩, ⟨b, inl, hpq _ _ hb, hin⟩⟩

theorem getElem?_snoc {α : Type} (xs : List α) (x : α) (k : Nat) :
    (xs ++ [x])[k]? = if k = xs.length then some x else xs[k]? := by
  rcases Nat.lt_trichotomy k xs.length with hlt | rfl | hgt
  · rw [List.getElem?_append_left hlt, if_neg (Nat.ne_of_lt hlt)]
  · rw [List.getElem?_concat_length, if_pos rfl]
  · have hout : (xs ++ [x]).length ≤ k := by
      rw [List.length_append]
      exact hgt
    rw [List.getElem?_eq_none hout, List.getElem?_eq_none (Nat.le_of_lt hgt),
      if_neg (Nat.ne_of_gt hgt)]

namespace Patch

theorem node?_lt {p : Patch F} {k : NodeId} {node : PatchNode F} (h : p.node? k = some node) :
    k < p.nodes.length := (List.getElem?_eq_some_iff.mp h).1

theorem node?_mem {p : Patch F} {k : NodeId} {node : PatchNode F} (h : p.node? k = some node) :
    node ∈ p.nodes := List.mem_of_getElem? h

theorem makeNode_done {id : NodeId} {typeName : String} {type : NodeType F}
    {rawArgs : List (Token R)} {node : PatchNode F} :
    (makeNode id typeName type rawArgs).ending = .done node ↔
      ∃ args topology, type.readArgs rawArgs = .ok args ∧
        (type.build args).ending = .done topology ∧ topology.uniqueIds = true ∧
        node = ⟨id, typeName, rawArgs, args, topology, type⟩ := by
  simp only [makeNode, Traced.bind_done, Traced.ofExcept_done, Invariant.check_done,
    Traced.ending_pure, Ending.done.injEq]
  constructor
  · rintro ⟨args, hargs, topology, hbuild, _, hunique, rfl⟩
    exact ⟨args, topology, hargs, hbuild, hunique, rfl⟩
  · rintro ⟨args, topology, hargs, hbuild, hunique, rfl⟩
    exact ⟨args, hargs, topology, hbuild, (), hunique, rfl⟩

theorem node?_push {p : Patch F} {node : PatchNode F} {k : Nat} :
    (p.push node).1.node? k =
      if k = p.nodes.length then some node else p.node? k :=
  getElem?_snoc p.nodes node k

theorem Sound.push {p : Patch F} (hp : p.Sound) {node : PatchNode F}
    (hid : node.id = p.nodes.length) (hports : node.DistinctPorts) : (p.push node).1.Sound where
  ids k n h := by
    rw [node?_push] at h
    split at h
    · rename_i hk
      cases h
      rw [hid, hk]
    · exact hp.ids k n h
  ports n h := by
    rcases List.mem_append.mp h with h | h
    · exact hp.ports n h
    · rw [List.mem_singleton] at h
      exact h ▸ hports
  fits c hc := (hp.fits c hc).mono fun k n h => by
    rw [node?_push, if_neg (Nat.ne_of_lt (node?_lt h)), h]
  once := hp.once
  acyclic := hp.acyclic

theorem Sound.makeNode {p : Patch F} (hp : p.Sound) {typeName : String} {type : NodeType F}
    {rawArgs : List (Token R)} {node : PatchNode F}
    (h : (makeNode p.nodes.length typeName type rawArgs).ending = .done node) :
    (p.push node).1.Sound := by
  obtain ⟨args, topology, _, _, hunique, rfl⟩ := makeNode_done.mp h
  unfold Topology.uniqueIds at hunique
  rw [Bool.and_eq_true, Topology.distinctIds_iff, Topology.distinctIds_iff] at hunique
  exact hp.push rfl ⟨hunique.1, hunique.2⟩

/-! ## Cables -/

theorem Sound.endsBelow {p : Patch F} (hp : p.Sound) : EndsBelow p.nodes.length p.cables := by
  intro c hc _
  obtain ⟨⟨_, _, ha, _⟩, ⟨_, _, hb, _⟩⟩ := hp.fits c hc
  exact ⟨node?_lt ha, node?_lt hb⟩

theorem inlet?_id {t : Topology} {id : PortId} {port : Port} (h : t.inlet? id = some port) :
    port.id = id := by
  simpa using List.find?_some h

theorem resolve_spec {node : PatchNode F} {out : Kind} {inlet found : PortId} {port : Port}
    (hport : node.topology.inlet? inlet = some port) (h : resolve node out port = .ok found) :
    ∃ q, node.topology.inlet? found = some q ∧ q.kind = out := by
  unfold resolve at h
  split at h
  · rename_i hk
    cases h
    rw [inlet?_id hport]
    exact ⟨port, hport, hk.symm⟩
  · split at h
    · rename_i hm
      split at h
      · rename_i shadow hs
        cases h
        obtain ⟨_, hany⟩ := Option.filter_eq_some_iff.mp hs
        obtain ⟨q, hq, hqk⟩ := Option.any_eq_true _ _ |>.mp hany
        exact ⟨q, hq, by rw [hm]; simpa using hqk⟩
      · cases h
    · cases h

theorem cableFor_spec {p : Patch F} {source target : NodeId} {outlet : Nat} {inlet : PortId}
    {c : Cable} (h : p.cableFor source outlet target inlet = .ok c) :
    c.Fits p ∧ c.fromNode = source ∧ c.toNode = target := by
  unfold cableFor at h
  cases ha : p.node? source with
  | none => simp [ha] at h
  | some a =>
    cases hb : p.node? target with
    | none => simp [ha, hb] at h
    | some b =>
      cases hout : a.topology.outlet? outlet with
      | none => simp [ha, hb, hout] at h
      | some out =>
        cases hport : b.topology.inlet? inlet with
        | none => simp [ha, hb, hout, hport] at h
        | some port =>
          cases hfound : resolve b out.kind port with
          | error e => simp [ha, hb, hout, hport, hfound] at h
          | ok found =>
            simp only [ha, hb, hout, hport, hfound] at h
            cases h
            exact ⟨⟨⟨a, out, ha, hout, rfl⟩, ⟨b, _, hb, (resolve_spec hport hfound).choose_spec⟩⟩,
              rfl, rfl⟩

theorem newCable_done {p : Patch F} {source target : NodeId} {outlet : Nat} {inlet : PortId}
    {c : Cable} (h : (p.newCable source outlet target inlet).ending = .done c) :
    p.cableFor source outlet target inlet = .ok c ∧ c ∉ p.cables ∧
      (c.isSignal = true → p.wouldCycle source target = .ok false) := by
  unfold newCable at h
  split at h
  · cases h
  · rename_i cable hfor
    split at h
    · cases h
    · rename_i hnew
      split at h
      · split at h
        · cases h
        · cases h
        · rename_i hcycle
          cases h
          exact ⟨hfor, hnew, fun _ => hcycle⟩
      · rename_i hsig
        cases h
        exact ⟨hfor, hnew, fun hs => absurd hs hsig⟩

theorem Sound.addCable {p : Patch F} (hp : p.Sound) {source target : NodeId} {outlet : Nat}
    {inlet : PortId} {c : Cable} (h : (p.newCable source outlet target inlet).ending = .done c) :
    Sound { p with cables := p.cables ++ [c] } := by
  obtain ⟨hfor, hnew, hcycle⟩ := newCable_done h
  obtain ⟨hfits, rfl, rfl⟩ := cableFor_spec hfor
  refine ⟨hp.ids, hp.ports, fun d hd => ?_, ?_, acyclic_snoc hp.acyclic fun hs => ?_⟩
  · rcases List.mem_append.mp hd with hd | hd
    · exact (hp.fits d hd).mono fun _ _ h => h
    · rw [List.mem_singleton] at hd
      subst hd
      exact hfits.mono fun _ _ h => h
  · rw [List.nodup_append]
    refine ⟨hp.once, List.nodup_singleton c, fun a ha b hb => ?_⟩
    rw [List.mem_singleton] at hb
    exact fun hab => hnew (hb ▸ hab ▸ ha)
  · -- the search said that nothing leads back, and it is right
    obtain ⟨_, _, hb, _⟩ := hfits.inlet
    obtain ⟨found, hfound, hiff⟩ := wouldCycle_spec hp.endsBelow c.fromNode (node?_lt hb)
    rw [hcycle hs] at hfound
    cases hfound
    simpa using hiff

/-! ## Histories -/

theorem sound_empty (catalog : Catalog F) : (Patch.empty catalog).Sound where
  ids _ _ h := by simp [empty, node?] at h
  ports _ h := by cases h
  fits _ h := by cases h
  once := List.nodup_nil
  acyclic := acyclic_nil

/-- A change is made in full, or not at all: it adds one node or one cable, or leaves the patch as
it was. -/
theorem perform_cases (p : Patch F) (edit : Edit F) :
    (p.perform edit).state = p ∨
      (∃ a, (p.perform edit).ending = .done a) ∧
        ((∃ typeName type rawArgs node,
            (edit.fromCatalog = true → p.catalog.get typeName = .ok type) ∧
            (makeNode p.nodes.length typeName type rawArgs).ending = .done node ∧
              (p.perform edit).state = (p.push node).1) ∨
          ∃ source outlet target inlet c,
            (p.newCable source outlet target inlet).ending = .done c ∧
              (p.perform edit).state = { p with cables := p.cables ++ [c] }) := by
  cases edit with
  | add typeName rawArgs =>
    rcases Traced.commit_cases (rfl : p.addNode typeName rawArgs = _) with
      ⟨hs, _⟩ | ⟨node, hn, hs, he⟩
    · exact Or.inl hs
    · rw [Traced.mapError_done, Traced.bind_done] at hn
      obtain ⟨type, hget, hmake⟩ := hn
      exact Or.inr ⟨⟨_, Outcome.map_done.mpr ⟨_, he, rfl⟩⟩,
        Or.inl ⟨typeName, type, rawArgs, node, fun _ => Traced.ofExcept_done.mp hget, hmake, hs⟩⟩
  | addExternal typeName type rawArgs =>
    rcases Traced.commit_cases (rfl : p.addExternal typeName type rawArgs = _) with
      ⟨hs, _⟩ | ⟨node, hn, hs, he⟩
    · exact Or.inl hs
    · rw [Traced.mapError_done] at hn
      exact Or.inr ⟨⟨_, Outcome.map_done.mpr ⟨_, he, rfl⟩⟩,
        Or.inl ⟨typeName, type, rawArgs, node, nofun, hn, hs⟩⟩
  | connect source outlet target inlet =>
    rcases Traced.commit_cases (rfl : p.connect source outlet target inlet = _) with
      ⟨hs, _⟩ | ⟨c, hc, hs, he⟩
    · exact Or.inl hs
    · exact Or.inr ⟨⟨_, Outcome.map_done.mpr ⟨_, he, rfl⟩⟩,
        Or.inr ⟨source, outlet, target, inlet, c, hc, hs⟩⟩

theorem Sound.perform {p : Patch F} (hp : p.Sound) (edit : Edit F) :
    (p.perform edit).state.Sound := by
  rcases perform_cases p edit with hs | ⟨_, ⟨_, _, _, node, _, hnode, hs⟩ | ⟨_, _, _, _, c, hc, hs⟩⟩
  · rw [hs]; exact hp
  · rw [hs]; exact hp.makeNode hnode
  · rw [hs]; exact hp.addCable hc

theorem Sound.after {p : Patch F} (hp : p.Sound) (edits : List (Edit F)) :
    (p.after edits).Sound := by
  induction edits generalizing p with
  | nil => exact hp
  | cons edit edits ih => exact ih (hp.perform edit)

def Catalogued (p : Patch F) : Prop :=
  ∀ node ∈ p.nodes, p.catalog.get node.typeName = .ok node.type ∧
    node.type.readArgs node.rawArgs = .ok node.args

theorem catalogued_empty (catalog : Catalog F) : (Patch.empty catalog).Catalogued :=
  fun _ h => by cases h

theorem Catalogued.perform {p : Patch F} (hp : p.Catalogued) {edit : Edit F}
    (hedit : edit.fromCatalog = true) : (p.perform edit).state.Catalogued := by
  rcases perform_cases p edit with
    hs | ⟨_, ⟨_, _, _, _, hget, hnode, hs⟩ | ⟨_, _, _, _, c, _, hs⟩⟩
  · rw [hs]; exact hp
  · rw [hs]
    intro n hn
    rcases List.mem_append.mp hn with hn | hn
    · exact hp n hn
    · rw [List.mem_singleton] at hn
      subst hn
      obtain ⟨args, topology, hargs, _, _, rfl⟩ := makeNode_done.mp hnode
      exact ⟨hget hedit, hargs⟩
  · rw [hs]; exact hp

theorem Catalogued.after {p : Patch F} (hp : p.Catalogued) {edits : List (Edit F)}
    (hedits : ∀ edit ∈ edits, edit.fromCatalog = true) : (p.after edits).Catalogued := by
  induction edits generalizing p with
  | nil => exact hp
  | cons edit edits ih =>
    exact ih (hp.perform (hedits edit (by simp))) fun e he => hedits e (List.mem_cons_of_mem _ he)

/-- Whatever was asked of a patch, it is sound, and what is asked next is answered or changes
nothing. -/
theorem sound_whatever_asked (catalog : Catalog F) (edits : List (Edit F)) :
    ((Patch.empty catalog).after edits).Sound ∧
      ∀ edit, (∃ a, (((Patch.empty catalog).after edits).perform edit).ending = .done a) ∨
        (((Patch.empty catalog).after edits).perform edit).state =
          (Patch.empty catalog).after edits := by
  refine ⟨(sound_empty catalog).after edits, fun edit => ?_⟩
  rcases perform_cases ((Patch.empty catalog).after edits) edit with hs | ⟨hdone, _⟩
  · exact Or.inr hs
  · exact Or.inl hdone

end Patch

end Patchbay
