import Patchbay.Catalog
import Patchbay.Draft.History
import Patchbay.Proofs.PatchSound
import Patchbay.Sample.Binary64

/-!
# Drafts follow patches

A draft is a patch and a table of names. What gets done on a draft is done on its patch, with names
in place of ids, and a name stands for the node it was given to. What does not get done changes
neither the patch nor the table.
-/

namespace Patchbay

variable {R : Type} {F : Family R}

/-! ## Names, told from what got done -/

def DraftCall.gives? (name : String) : DraftCall R × EditAnswer → Option NodeId
  | (.named given _ _, .node id) => if given = name then some id else none
  | _ => none

def accepted (log : List (DraftCall R × EditAnswer)) (name : String) : Option NodeId :=
  log.findSome? (DraftCall.gives? name)

def DraftCall.edit? (resolve : String → Option NodeId) : DraftCall R → Option (Edit F)
  | .node typeName args | .named _ typeName args => some (.add typeName args)
  | .get _ => none
  | .connect source outlet target inlet => some (.connect source outlet target (.regular inlet))
  | .wire source outlet target inlet =>
    match resolve source, resolve target with
    | some a, some b => some (.connect a outlet b (.regular inlet))
    | _, _ => none

def directEdits (F : Family R) (log : List (DraftCall R × EditAnswer)) :
    List (Edit F × EditAnswer) :=
  log.filterMap fun x => (x.1.edit? (accepted log)).map (·, x.2)

theorem accepted_snoc (log : List (DraftCall R × EditAnswer)) (x : DraftCall R × EditAnswer)
    (name : String) :
    accepted (log ++ [x]) name = (accepted log name).or (DraftCall.gives? name x) := by
  rw [accepted, List.findSome?_append, List.findSome?_singleton]
  rfl

theorem accepted_mono {log : List (DraftCall R × EditAnswer)} (later) {name : String} {id : NodeId}
    (h : accepted log name = some id) : accepted (log ++ later) name = some id := by
  rw [accepted, List.findSome?_append]
  exact Option.or_eq_some_iff.mpr (Or.inl h)

theorem accepted_nameless (log : List (DraftCall R × EditAnswer)) {x : DraftCall R × EditAnswer}
    (h : ∀ name, DraftCall.gives? name x = none) : accepted (log ++ [x]) = accepted log := by
  funext name
  rw [accepted_snoc, h, Option.or_none]

theorem accepted_named {log : List (DraftCall R × EditAnswer)} {name : String}
    (h : accepted log name = none) (typeName : String) (args : List (Token R)) (id : NodeId)
    (other : String) : accepted (log ++ [(.named name typeName args, .node id)]) other =
      if name = other then some id else accepted log other := by
  rw [accepted_snoc]
  by_cases hother : name = other
  · subst hother
    simp [h, DraftCall.gives?]
  · simp [DraftCall.gives?, hother]

theorem DraftCall.edit?_congr {resolve resolve' : String → Option NodeId} (call : DraftCall R)
    (h : ∀ source outlet target inlet, call = .wire source outlet target inlet →
      resolve source = resolve' source ∧ resolve target = resolve' target) :
    (call.edit? resolve : Option (Edit F)) = call.edit? resolve' := by
  cases call with
  | wire source outlet target inlet =>
    obtain ⟨hsource, htarget⟩ := h _ _ _ _ rfl
    simp only [edit?, hsource, htarget]
  | node | named | get | connect => rfl

namespace Patch

theorem endings_snoc (edits : List (Edit F)) (edit : Edit F) : ∀ p : Patch F,
    p.endings (edits ++ [edit]) = p.endings edits ++ [((p.after edits).perform edit).ending] := by
  induction edits with
  | nil => exact fun p => rfl
  | cons first edits ih => exact fun p => congrArg _ (ih _)

theorem after_snoc (p : Patch F) (edits : List (Edit F)) (edit : Edit F) :
    p.after (edits ++ [edit]) = ((p.after edits).perform edit).state := List.foldl_concat ..

/-- A new node takes the first free id. -/
theorem add_done {p : Patch F} {typeName : String} {args : List (Token R)} {a : EditAnswer}
    (h : (p.perform (.add typeName args)).ending = .done a) : a = .node p.nodes.length ∧
      (p.perform (.add typeName args)).state.nodes.length = p.nodes.length + 1 := by
  obtain ⟨id, hid, rfl⟩ := Outcome.map_done.mp h
  rcases Traced.commit_cases (rfl : p.addNode typeName args = _) with
    ⟨_, hnot⟩ | ⟨node, hnode, hstate, hending⟩
  · exact absurd hid (hnot id)
  · rw [Traced.mapError_done, Traced.bind_done] at hnode
    obtain ⟨type, _, hmake⟩ := hnode
    obtain ⟨_, _, _, _, _, rfl⟩ := makeNode_done.mp hmake
    cases hid.symm.trans hending
    refine ⟨rfl, ?_⟩
    show (p.addNode typeName args).state.nodes.length = _
    rw [hstate]
    exact List.length_append

theorem connect_nodes (p : Patch F) (source : NodeId) (outlet : Nat) (target : NodeId)
    (inlet : PortId) : (p.perform (.connect source outlet target inlet)).state.nodes = p.nodes := by
  show (p.connect source outlet target inlet).state.nodes = p.nodes
  rcases Traced.commit_cases (rfl : p.connect source outlet target inlet = _) with
    ⟨hstate, _⟩ | ⟨c, _, hstate, _⟩
  · rw [hstate]
  · rw [hstate]

end Patch

/-! ## What a call does -/

namespace Draft

inductive Takes (d : Draft F) : DraftCall R → EditAnswer → Draft F → Prop
  | node {typeName args a} : (d.patch.perform (.add typeName args)).ending = .done a →
    Takes d (.node typeName args) a
      { d with patch := (d.patch.perform (.add typeName args)).state }
  | named {name typeName args id} : d.names[name]? = none →
    (d.patch.perform (.add typeName args)).ending = .done (.node id) →
    Takes d (.named name typeName args) (.node id)
      ⟨(d.patch.perform (.add typeName args)).state, d.names.insert name id⟩
  | got {name id} : d.names[name]? = some id → Takes d (.get name) (.node id) d
  | connected {source outlet target inlet a} :
    (d.patch.perform (.connect source outlet target (.regular inlet))).ending = .done a →
    Takes d (.connect source outlet target inlet) a
      { d with patch := (d.patch.perform (.connect source outlet target (.regular inlet))).state }
  | wired {source outlet target inlet s t a} : d.names[source]? = some s →
    d.names[target]? = some t →
    (d.patch.perform (.connect s outlet t (.regular inlet))).ending = .done a →
    Takes d (.wire source outlet target inlet) a
      { d with patch := (d.patch.perform (.connect s outlet t (.regular inlet))).state }

theorem onPatch_map {α β : Type} (d : Draft F) (o : Outcome R (Patch F) PatchError α) (f : α → β) :
    (d.onPatch o).map f = d.onPatch (o.map f) := by
  obtain ⟨p, events, ending⟩ := o
  cases ending <;> rfl

theorem onPatch_cases (d : Draft F) (edit : Edit F) :
    (∃ a, (d.patch.perform edit).ending = .done a ∧
      (d.onPatch (d.patch.perform edit)).ending = .done a ∧
      (d.onPatch (d.patch.perform edit)).state =
        { d with patch := (d.patch.perform edit).state }) ∨
    (∀ a, (d.onPatch (d.patch.perform edit)).ending ≠ .done a) ∧
      (d.onPatch (d.patch.perform edit)).state = d := by
  cases hending : (d.patch.perform edit).ending with
  | done a =>
    refine Or.inl ⟨a, rfl, ?_, rfl⟩
    simp [onPatch, Outcome.embed, hending, Ending.mapError]
  | refused | faulted =>
    have hsame : (d.patch.perform edit).state = d.patch := by
      rcases d.patch.perform_cases edit with hsame | ⟨⟨a, ha⟩, _⟩
      · exact hsame
      · cases hending.symm.trans ha
    refine Or.inr ⟨?_, ?_⟩
    · simp [onPatch, Outcome.embed, hending, Ending.mapError]
    · show ({ d with patch := (d.patch.perform edit).state } : Draft F) = d
      rw [hsame]

theorem perform_node (d : Draft F) (typeName : String) (args : List (Token R)) :
    d.perform (.node typeName args) = d.onPatch (d.patch.perform (.add typeName args)) :=
  d.onPatch_map _ _

theorem perform_connect (d : Draft F) (source : NodeId) (outlet : Nat) (target : NodeId)
    (inlet : Nat) : d.perform (.connect source outlet target inlet) =
      d.onPatch (d.patch.perform (.connect source outlet target (.regular inlet))) :=
  d.onPatch_map _ _

theorem get_of_none {d : Draft F} {name : String} (h : d.names[name]? = none) :
    d.get name = .error (.missingNode name) := by
  unfold get
  rw [h]

theorem get_of_some {d : Draft F} {name : String} {id : NodeId} (h : d.names[name]? = some id) :
    d.get name = .ok id := by
  unfold get
  rw [h]

theorem perform_named_taken {d : Draft F} {name : String} {id : NodeId}
    (h : d.names[name]? = some id) (typeName : String) (args : List (Token R)) :
    d.perform (.named name typeName args) = .refuse d (.duplicateName name) := by
  have htaken : d.names.contains name = true := by
    rw [Std.TreeMap.contains_eq_isSome_getElem?, h]
    rfl
  simp only [perform, named, htaken, if_true]
  rfl

theorem perform_named_free {d : Draft F} {name : String} (h : d.names[name]? = none)
    (typeName : String) (args : List (Token R)) :
    (d.perform (.named name typeName args)).ending = (d.perform (.node typeName args)).ending ∧
      (d.perform (.named name typeName args)).state =
        match (d.perform (.node typeName args)).ending with
        | .done (.node id) =>
          ⟨(d.perform (.node typeName args)).state.patch, d.names.insert name id⟩
        | _ => (d.perform (.node typeName args)).state := by
  have hfree : d.names.contains name = false := by
    rw [Std.TreeMap.contains_eq_isSome_getElem?, h]
    rfl
  simp only [perform, named, hfree, Bool.false_eq_true, if_false]
  cases hending : (d.node typeName args).ending with
  | done id =>
    have hnode : ((d.node typeName args).map EditAnswer.node).ending = .done (.node id) := by
      rw [Outcome.map, hending]
      rfl
    refine ⟨hnode.symm, ?_⟩
    rw [hnode]
    rfl
  | refused | faulted => simp [Outcome.map, hending, Ending.map]

theorem perform_cases (d : Draft F) (call : DraftCall R) :
    (∃ a, (d.perform call).ending = .done a ∧ Takes d call a (d.perform call).state) ∨
      (∀ a, (d.perform call).ending ≠ .done a) ∧ (d.perform call).state = d := by
  cases call with
  | node typeName args =>
    rw [perform_node]
    rcases d.onPatch_cases (.add typeName args) with ⟨a, ha, hending, hstate⟩ | hnot
    · exact Or.inl ⟨a, hending, hstate ▸ .node ha⟩
    · exact Or.inr hnot
  | named name typeName args =>
    cases hname : d.names[name]? with
    | some id =>
      rw [perform_named_taken hname]
      exact Or.inr ⟨nofun, rfl⟩
    | none =>
      obtain ⟨hsame, hgiven⟩ := perform_named_free hname typeName args
      rw [hsame, hgiven, perform_node]
      rcases d.onPatch_cases (.add typeName args) with ⟨a, ha, hending, hstate⟩ | ⟨hnot, hstate⟩
      · obtain ⟨rfl, _⟩ := Patch.add_done ha
        rw [hending, hstate]
        exact Or.inl ⟨_, rfl, .named hname ha⟩
      · refine Or.inr ⟨hnot, ?_⟩
        split
        · rename_i id hid
          exact absurd hid (hnot _)
        · exact hstate
  | get name =>
    cases hname : d.names[name]? with
    | some id =>
      simp only [perform, get_of_some hname]
      exact Or.inl ⟨.node id, rfl, .got hname⟩
    | none =>
      simp only [perform, get_of_none hname]
      exact Or.inr ⟨nofun, rfl⟩
  | connect source outlet target inlet =>
    rw [perform_connect]
    rcases d.onPatch_cases (.connect source outlet target (.regular inlet)) with
      ⟨a, ha, hending, hstate⟩ | hnot
    · exact Or.inl ⟨a, hending, hstate ▸ .connected ha⟩
    · exact Or.inr hnot
  | wire source outlet target inlet =>
    cases hs : d.names[source]? with
    | none =>
      simp only [perform, wire, get_of_none hs]
      exact Or.inr ⟨nofun, rfl⟩
    | some s =>
      cases ht : d.names[target]? with
      | none =>
        simp only [perform, wire, get_of_some hs, get_of_none ht]
        exact Or.inr ⟨nofun, rfl⟩
      | some t =>
        have hwire : d.perform (.wire source outlet target inlet) =
            d.perform (.connect s outlet t inlet) := by
          simp only [perform, wire, get_of_some hs, get_of_some ht]
        rw [hwire, perform_connect]
        rcases d.onPatch_cases (.connect s outlet t (.regular inlet)) with
          ⟨a, ha, hending, hstate⟩ | hnot
        · exact Or.inl ⟨a, hending, hstate ▸ .wired hs ht ha⟩
        · exact Or.inr hnot

/-! ## What a draft has become -/

/-- The draft has come from the patch by what the log tells: the changes behind it lead to its
patch, and its table has just the names that were accepted, each with the node it was first accepted
for. -/
structure Follows (start : Patch F) (log : List (DraftCall R × EditAnswer)) (d : Draft F) :
    Prop where
  patch : start.after ((directEdits F log).map (·.1)) = d.patch
  endings : start.endings ((directEdits F log).map (·.1)) = (directEdits F log).map (.done ·.2)
  names : ∀ name : String, d.names[name]? = accepted log name
  wired : ∀ source outlet target inlet a, (.wire source outlet target inlet, a) ∈ log →
    (accepted log source).isSome = true ∧ (accepted log target).isSome = true
  below : ∀ name id, accepted log name = some id → id < d.patch.nodes.length
  distinct : ∀ name name' id, accepted log name = some id → accepted log name' = some id →
    name = name'

theorem follows_ofPatch (start : Patch F) : Follows start [] (ofPatch start) where
  patch := rfl
  endings := rfl
  names name := by simp [ofPatch, accepted]
  wired _ _ _ _ _ h := by cases h
  below _ _ h := by cases h
  distinct _ _ _ h := by cases h

namespace Follows

variable {start : Patch F} {log : List (DraftCall R × EditAnswer)} {d : Draft F}

theorem directEdits_snoc (h : Follows start log d) (x : DraftCall R × EditAnswer) :
    directEdits F (log ++ [x]) =
      directEdits F log ++ ((x.1.edit? (accepted (log ++ [x]))).map (·, x.2)).toList := by
  unfold directEdits
  rw [List.filterMap_append]
  refine congrArg₂ (· ++ ·) (List.filterMap_congr fun y hy => ?_) ?_
  · -- a wire got done when its names were accepted already, so they stand for the same nodes later
    have hsame : (y.1.edit? (accepted (log ++ [x])) : Option (Edit F)) =
        y.1.edit? (accepted log) := by
      refine DraftCall.edit?_congr _ fun source outlet target inlet hwire => ?_
      obtain ⟨hsource, htarget⟩ := h.wired source outlet target inlet y.2 (hwire ▸ hy)
      obtain ⟨s, hs⟩ := Option.isSome_iff_exists.mp hsource
      obtain ⟨t, ht⟩ := Option.isSome_iff_exists.mp htarget
      exact ⟨(accepted_mono [x] hs).trans hs.symm, (accepted_mono [x] ht).trans ht.symm⟩
    rw [hsame]
  · cases hx : x.1.edit? (accepted (log ++ [x])) <;> simp [hx]

theorem patch_snoc (h : Follows start log d) {x : DraftCall R × EditAnswer} {edit : Edit F}
    (hedit : x.1.edit? (accepted (log ++ [x])) = some edit)
    (hending : (d.patch.perform edit).ending = .done x.2) :
    start.after ((directEdits F (log ++ [x])).map (·.1)) = (d.patch.perform edit).state ∧
      start.endings ((directEdits F (log ++ [x])).map (·.1)) =
        (directEdits F (log ++ [x])).map (.done ·.2) := by
  rw [h.directEdits_snoc, hedit]
  simp only [Option.map_some, Option.toList_some, List.map_append, List.map_singleton]
  rw [Patch.after_snoc, Patch.endings_snoc, h.patch, h.endings, hending]
  exact ⟨rfl, rfl⟩

/-- A call that gives no name: where it changes the patch, it does so in one way. -/
theorem nameless (h : Follows start log d) {call : DraftCall R} {a : EditAnswer} {p : Patch F}
    (hnone : ∀ name, DraftCall.gives? name (call, a) = none)
    (hpatch : start.after ((directEdits F (log ++ [(call, a)])).map (·.1)) = p ∧
      start.endings ((directEdits F (log ++ [(call, a)])).map (·.1)) =
        (directEdits F (log ++ [(call, a)])).map (.done ·.2))
    (hlength : d.patch.nodes.length ≤ p.nodes.length)
    (hwired : ∀ source outlet target inlet, call = .wire source outlet target inlet →
      (accepted log source).isSome = true ∧ (accepted log target).isSome = true) :
    Follows start (log ++ [(call, a)]) { d with patch := p } := by
  have hsame := accepted_nameless log hnone
  refine ⟨hpatch.1, hpatch.2, ?_, ?_, ?_, ?_⟩
  · rw [hsame]
    exact h.names
  · rw [hsame]
    intro source outlet target inlet a' hmem
    rcases List.mem_append.mp hmem with hold | hnew
    · exact h.wired _ _ _ _ a' hold
    · cases List.mem_singleton.mp hnew
      exact hwired _ _ _ _ rfl
  · rw [hsame]
    exact fun name id hid => (h.below name id hid).trans_le hlength
  · rw [hsame]
    exact h.distinct

theorem named (h : Follows start log d) {name typeName : String} {args : List (Token R)}
    (hfree : d.names[name]? = none) (hending : (d.patch.perform (.add typeName args)).ending =
      .done (.node d.patch.nodes.length)) :
    Follows start (log ++ [(.named name typeName args, .node d.patch.nodes.length)])
      ⟨(d.patch.perform (.add typeName args)).state,
        d.names.insert name d.patch.nodes.length⟩ := by
  obtain ⟨-, hlength⟩ := Patch.add_done hending
  obtain ⟨hpatch, hendings⟩ := h.patch_snoc (x := (.named name typeName args, _)) rfl hending
  have haccepted := accepted_named ((h.names name).symm.trans hfree) typeName args
    d.patch.nodes.length
  refine ⟨hpatch, hendings, fun other => ?_, ?_, fun other id hother => ?_, ?_⟩
  · rw [haccepted, Std.TreeMap.getElem?_insert, h.names]
    simp
  · intro source outlet target inlet a hmem
    rcases List.mem_append.mp hmem with hold | hnew
    · obtain ⟨hsource, htarget⟩ := h.wired _ _ _ _ a hold
      rw [haccepted, haccepted]
      constructor <;> split <;> simp [*]
    · cases List.mem_singleton.mp hnew
  · rw [haccepted] at hother
    show id < (d.patch.perform _).state.nodes.length
    rw [hlength]
    split at hother
    · cases hother
      exact Nat.lt_succ_self _
    · exact (h.below other id hother).trans (Nat.lt_succ_self _)
  · -- the new node has an id that no name had before
    intro one other id hone hother
    rw [haccepted] at hone hother
    split at hone
    · rename_i hnew
      cases hone
      split at hother
      · rename_i hnew'
        exact hnew.symm.trans hnew'
      · exact absurd (h.below other _ hother) (lt_irrefl _)
    · split at hother
      · cases hother
        exact absurd (h.below one _ hone) (lt_irrefl _)
      · exact h.distinct one other id hone hother

theorem takes (h : Follows start log d) {call : DraftCall R} {a : EditAnswer} {d' : Draft F}
    (ht : Takes d call a d') : Follows start (log ++ [(call, a)]) d' := by
  cases ht with
  | node hending =>
    obtain ⟨_, hlength⟩ := Patch.add_done hending
    exact h.nameless (fun _ => rfl) (h.patch_snoc rfl hending) (hlength ▸ Nat.le_succ _) nofun
  | @got name id hname =>
    have hnothing : directEdits F (log ++ [(.get name, .node id)]) = directEdits F log :=
      (h.directEdits_snoc _).trans (List.append_nil _)
    refine h.nameless (fun _ => rfl) ?_ (le_refl _) nofun
    rw [hnothing]
    exact ⟨h.patch, h.endings⟩
  | connected hending =>
    refine h.nameless (fun _ => rfl) (h.patch_snoc rfl hending) ?_ nofun
    rw [Patch.connect_nodes]
  | @wired source outlet target inlet s t a hs ht hending =>
    have hsource : accepted log source = some s := (h.names source).symm.trans hs
    have htarget : accepted log target = some t := (h.names target).symm.trans ht
    refine h.nameless (fun _ => rfl) (h.patch_snoc ?_ hending) ?_ ?_
    · simp only [DraftCall.edit?, accepted_mono _ hsource, accepted_mono _ htarget]
    · rw [Patch.connect_nodes]
    · rintro _ _ _ _ ⟨⟩
      simp [hsource, htarget]
  | @named name typeName args id hfree hending =>
    obtain ⟨hid, _⟩ := Patch.add_done hending
    cases hid
    exact h.named hfree hending

end Follows

/-! ## Every run -/

theorem after_append (d : Draft F) (calls later : List (DraftCall R)) :
    d.after (calls ++ later) = (d.after calls).after later := List.foldl_append

theorem log_append (calls later : List (DraftCall R)) : ∀ d : Draft F,
    d.log (calls ++ later) = d.log calls ++ (d.after calls).log later := by
  induction calls with
  | nil => exact fun d => rfl
  | cons call calls ih =>
    intro d
    show (d.done? call).toList ++ log _ (calls ++ later) = ((d.done? call).toList ++ _) ++ _
    rw [ih, List.append_assoc]
    rfl

theorem log_single (d : Draft F) (call : DraftCall R) : d.log [call] = (d.done? call).toList :=
  List.append_nil _

theorem done?_of_done {d : Draft F} {call : DraftCall R} {a : EditAnswer}
    (h : (d.perform call).ending = .done a) : d.done? call = some (call, a) := by
  rw [done?, h]

theorem done?_of_not {d : Draft F} {call : DraftCall R}
    (h : ∀ a, (d.perform call).ending ≠ .done a) : d.done? call = none := by
  rw [done?]
  split
  · rename_i a ha
    exact absurd ha (h a)
  · rfl
  · rfl

theorem Follows.perform {start : Patch F} {log : List (DraftCall R × EditAnswer)} {d : Draft F}
    (h : Follows start log d) (call : DraftCall R) :
    Follows start (log ++ (d.done? call).toList) (d.perform call).state := by
  rcases d.perform_cases call with ⟨a, hdone, htakes⟩ | ⟨hnot, hsame⟩
  · rw [done?_of_done hdone]
    exact h.takes htakes
  · rw [done?_of_not hnot, hsame, Option.toList_none, List.append_nil]
    exact h

theorem follows_after (start : Patch F) (calls : List (DraftCall R)) :
    Follows start ((ofPatch start).log calls) ((ofPatch start).after calls) := by
  induction calls using List.reverseRecOn with
  | nil => exact follows_ofPatch start
  | append_singleton calls call ih =>
    rw [log_append, after_append, log_single]
    exact ih.perform call

theorem Follows.get {start : Patch F} {log : List (DraftCall R × EditAnswer)} {d : Draft F}
    (h : Follows start log d) (name : String) :
    d.get name = match accepted log name with
      | some id => .ok id
      | none => .error (.missingNode name) := by
  cases hname : accepted log name with
  | some id => exact get_of_some ((h.names name).trans hname)
  | none => exact get_of_none ((h.names name).trans hname)

theorem Follows.get_ok {start : Patch F} {log : List (DraftCall R × EditAnswer)} {d : Draft F}
    (h : Follows start log d) {name : String} {id : NodeId} :
    d.get name = .ok id ↔ accepted log name = some id := by
  rw [h.get]
  cases accepted log name <;> simp

/-- Of what got done, only to ask for a name is no change to the patch. -/
theorem Follows.edit?_isSome {start : Patch F} {log : List (DraftCall R × EditAnswer)} {d : Draft F}
    (h : Follows start log d) {call : DraftCall R} {a : EditAnswer} (hmem : (call, a) ∈ log) :
    (∃ name, call = .get name) ∨
      (call.edit? (accepted log) : Option (Edit F)).isSome = true := by
  cases call with
  | get name => exact Or.inl ⟨name, rfl⟩
  | node | named | connect => exact Or.inr rfl
  | wire source outlet target inlet =>
    obtain ⟨hsource, htarget⟩ := h.wired source outlet target inlet a hmem
    obtain ⟨s, hs⟩ := Option.isSome_iff_exists.mp hsource
    obtain ⟨t, ht⟩ := Option.isSome_iff_exists.mp htarget
    simp only [DraftCall.edit?, hs, ht]
    exact Or.inr rfl

/-- After any calls, the patch of a draft is what the calls that got done make of the patch it
started from when they are asked of that patch directly, with ids for names, and there they get the
answers they got; none is left out but those that only ask for a name. A name stands for the node it
was first accepted for from then on, and no two names stand for one node. A call that does not get
done changes nothing, so a name whose node was not made is as free as before. -/
theorem patches_with_names (start : Patch F) (calls : List (DraftCall R)) :
    let d := (ofPatch start).after calls
    let log := (ofPatch start).log calls
    let direct := directEdits F log
    start.after (direct.map (·.1)) = d.patch ∧
    start.endings (direct.map (·.1)) = direct.map (.done ·.2) ∧
    (∀ call a, (call, a) ∈ log → (∃ name, call = .get name) ∨
      (call.edit? (accepted log) : Option (Edit F)).isSome = true) ∧
    (∀ name, d.get name = match accepted log name with
      | some id => .ok id
      | none => .error (.missingNode name)) ∧
    (∀ later name id, d.get name = .ok id →
      ((ofPatch start).after (calls ++ later)).get name = .ok id) ∧
    (∀ name name' id, d.get name = .ok id → d.get name' = .ok id → name = name') ∧
    (∀ call, (∃ a, (d.perform call).ending = .done a) ∨ (d.perform call).state = d) ∧
    ∀ name typeName args,
      let named := d.perform (.named name typeName args)
      (accepted log name = none → named.ending = (d.perform (.node typeName args)).ending ∧
        ∀ id, named.ending = .done (.node id) → named.state.get name = .ok id) ∧
      ∀ id, accepted log name = some id → named = .refuse d (.duplicateName name) := by
  intro d log direct
  have h : Follows start log d := follows_after start calls
  refine ⟨h.patch, h.endings, fun _ _ => h.edit?_isSome, h.get, ?_, ?_, ?_, ?_⟩
  · intro later name id hid
    have hlater := follows_after start (calls ++ later)
    rw [log_append] at hlater
    exact hlater.get_ok.mpr (accepted_mono _ (h.get_ok.mp hid))
  · exact fun name name' id hname hname' =>
      h.distinct name name' id (h.get_ok.mp hname) (h.get_ok.mp hname')
  · intro call
    rcases d.perform_cases call with ⟨a, hdone, _⟩ | ⟨_, hsame⟩
    · exact Or.inl ⟨a, hdone⟩
    · exact Or.inr hsame
  · intro name typeName args named
    refine ⟨fun hfree => ?_, fun id hid => perform_named_taken ((h.names name).trans hid) _ _⟩
    have hsame := (perform_named_free ((h.names name).trans hfree) typeName args).1
    refine ⟨hsame, fun id hid => ?_⟩
    have hnext := h.perform (.named name typeName args)
    rw [done?_of_done hid] at hnext
    refine hnext.get_ok.mpr ?_
    rw [Option.toList_some, accepted_snoc, hfree]
    simp [DraftCall.gives?]

/-- A name that is free again after its node was not made, and a wire between names. -/
theorem patches_with_names_again : let start : Patch (standard Float) := .empty (.standard Float)
    let calls : List (DraftCall Float) := [.named "a" "listbox" [], .named "b" "nothing" []]
    let later : List (DraftCall Float) := [.named "b" "listbox" [], .wire "a" 0 "b" 0]
    let d := (ofPatch start).after calls
    let last := (ofPatch start).after (calls ++ later)
    d.get "a" = .ok 0 ∧ d.get "b" = .error (.missingNode "b") ∧
      last.get "a" = .ok 0 ∧ last.get "b" = .ok 1 ∧
      start.after [.add "listbox" [], .add "listbox" [], .connect 0 0 1 (.regular 0)] =
        last.patch := by
  intro start calls later d last
  have hgiven : d.get "a" = .ok 0 := rfl
  obtain ⟨-, -, -, -, hkept, -⟩ := patches_with_names start calls
  obtain ⟨hpatch, -, -, hget, -⟩ := patches_with_names start (calls ++ later)
  have hlog : (ofPatch start).log (calls ++ later) = [(.named "a" "listbox" [], .node 0),
      (.named "b" "listbox" [], .node 1), (.wire "a" 0 "b" 0, .inlet (.regular 0))] := rfl
  rw [hlog] at hpatch hget
  exact ⟨hgiven, rfl, hkept later "a" 0 hgiven, hget "b", hpatch⟩

end Draft

end Patchbay
