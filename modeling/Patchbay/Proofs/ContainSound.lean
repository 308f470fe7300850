import Patchbay.Proofs.RenderSound
import Patchbay.Proofs.RunSafe

/-!
# Faults are contained

An instance may give up in any tick of a block, halfway through its outlets. A safe block is then
silent from its first sample on, and the engine stands as the fault left it: since the last whole
tick only the nodes up to the culprit had their turn. If nobody gives up, a safe block is a block.
-/

namespace Patchbay

variable {R : Type} {F : Family R}

/-- Nothing is asked of instances, so that they may do anything. -/
theorem Family.preserves_true (F : Family R) : F.Preserves fun _ _ => True :=
  ⟨fun _ _ => trivial, fun _ _ _ _ => trivial, fun _ _ _ _ _ _ => trivial⟩

namespace Engine

variable [Sample R]

/-! ## Safe blocks -/

section
variable {e : Engine F} {node : NodeId} {outlet n : Nat}

theorem block_refused {err : EngineError R} :
    (e.serve (.call (.block node outlet n))).ending = .refused err ↔
      e.processBlock node outlet n = .error err := by
  cases h : e.processBlock node outlet n with
  | error err' => simp [serve, perform, h, unlessRefused, Outcome.refuse]
  | ok b => cases hb : b.fault <;> simp [serve, perform, h, unlessRefused, ofBlock, hb]

theorem serve_safe_of_error {err : EngineError R} (h : e.processBlock node outlet n = .error err) :
    e.serve (.safeBlock node outlet n) = e.serve (.call (.block node outlet n)) := by
  simp only [serve, perform, processBlockSafe, h, Except.map, unlessRefused]

theorem serve_safe_of_whole {b : Block F} (h : e.processBlock node outlet n = .ok b)
    (hb : b.fault = none) :
    e.serve (.safeBlock node outlet n) = e.serve (.call (.block node outlet n)) := by
  simp only [serve, perform, processBlockSafe, h, Except.map, unlessRefused, hb, ofBlock,
    List.map_nil]

theorem serve_safe_of_fault {b : Block F} (h : e.processBlock node outlet n = .ok b) {f : Fault}
    (hb : b.fault = some f) :
    e.serve (.safeBlock node outlet n) =
      ⟨b.engine, [.notice (.silenced node)], .done (.samples (List.replicate n 0))⟩ := by
  simp only [serve, processBlockSafe, h, Except.map, unlessRefused, hb, ofBlock, List.map_cons,
    List.map_nil]

end

/-! ## Giving up -/

abbrev ticked (e : Engine F) (k : Nat) : Engine F := e.after (List.replicate k .tick)

abbrev turns (rate : R) (nodes : List NodeId) (e : Engine F) : Progress R (Engine F) :=
  Progress.each (tickNode rate) nodes e

def fault? (e : Engine F) (rate : R) (n : NodeId) : Option Fault := do
  let live ← e.nodes[n]?
  let inputs ← e.inputs? n
  (F.tick live.state inputs (e.samples n) rate).fault

structure GivesUp (rate : R) (e : Engine F) (k : Nat) (before : List NodeId) (culprit : NodeId)
    (f : Fault) : Prop where
  whole : ∀ j < k, ∀ f, ((e.ticked j).perform .tick).ending ≠ .faulted f
  reached : (turns rate before (e.ticked k)).fault = none
  fails : (turns rate before (e.ticked k)).state.fault? rate culprit = some f

/-- Between the engines nothing happened but turns of these nodes, the last perhaps broken off. -/
structure TickedOnly (nodes : List NodeId) (e e' : Engine F) : Prop where
  schedule : e'.schedule = e.schedule
  config : e'.config = e.config
  buses : e'.buses = e.buses
  pending : e'.pending = e.pending
  captured : e'.captured = e.captured
  spared : ∀ m ∉ nodes, e'.nodes[m]? = e.nodes[m]? ∧ e'.samples m = e.samples m

omit [Sample R] in
theorem TickedOnly.refl (nodes : List NodeId) (e : Engine F) : TickedOnly nodes e e :=
  ⟨rfl, rfl, rfl, rfl, rfl, fun _ _ => ⟨rfl, rfl⟩⟩

omit [Sample R] in
theorem TickedOnly.cons {n : NodeId} {nodes : List NodeId} {e e' e'' : Engine F}
    (h : TickedOnly [n] e e') (h' : TickedOnly nodes e' e'') : TickedOnly (n :: nodes) e e'' where
  schedule := h'.schedule.trans h.schedule
  config := h'.config.trans h.config
  buses := h'.buses.trans h.buses
  pending := h'.pending.trans h.pending
  captured := h'.captured.trans h.captured
  spared m hm := by
    obtain ⟨hn, hnodes⟩ := not_or.mp (mt List.mem_cons.mpr hm)
    obtain ⟨hstate, hsamples⟩ := h.spared m (by simpa using hn)
    obtain ⟨hstate', hsamples'⟩ := h'.spared m hnodes
    exact ⟨hstate'.trans hstate, hsamples'.trans hsamples⟩

section
variable {Suits : F.State → Topology → Prop} {s : Schedule} {p : Patch F} {e : Engine F}

/-! ## Single nodes -/

theorem Hosts.fault_tickNode (he : e.Hosts Suits s p) (hs : s.Links p) (hp : p.Sound) (rate : R)
    {n : NodeId} (hn : n < p.nodes.length) :
    (Engine.tickNode rate n e).fault = e.fault? rate n := by
  obtain ⟨inputs, _, live, hinputs, -, -, hlive, hrun⟩ :=
    he.tickNode_eq hs hp rate (List.getElem?_eq_getElem hn)
  rw [hrun]
  simp only [fault?, hlive, hinputs, Option.bind_eq_bind, Option.bind_some]

theorem Hosts.tickedOnly_tickNode (he : e.Hosts Suits s p) (hs : s.Links p) (hp : p.Sound)
    (rate : R) {n : NodeId} (hn : n < p.nodes.length) :
    TickedOnly [n] e (Engine.tickNode rate n e).state := by
  have hnode : p.node? n = some p.nodes[n] := List.getElem?_eq_getElem hn
  obtain ⟨inputs, slots, live, -, -, hslots, -, hrun⟩ := he.tickNode_eq hs hp rate hnode
  have hschedule : (Engine.tickNode rate n e).state.schedule = e.schedule := by
    rw [hrun]
    rfl
  have houtputs : (Engine.tickNode rate n e).state.outputs = writeSlots e.outputs slots
      (F.tick live.state inputs (e.samples n) rate).outputs := by rw [hrun]
  have hsamples := he.samples_apart hs hnode hslots hschedule houtputs
  rw [hrun] at hsamples ⊢
  refine ⟨rfl, rfl, rfl, rfl, rfl, fun m hm => ?_⟩
  have hmn : m ≠ n := by simpa using hm
  exact ⟨(getElem?_setState e n m _).trans (if_neg (Ne.symm hmn)), hsamples m hmn⟩

variable (hF : F.Preserves Suits)
include hF

theorem Hosts.turns (hs : s.Links p) (rate : R) (nodes : List NodeId) (he : e.Hosts Suits s p) :
    (turns rate nodes e).state.Hosts Suits s p :=
  Progress.each_keeps _ _ (fun n _ _ he => (closed_of_preserves hF hs).ticked rate n he) he

/-- Turns that break off leave out some nodes at the end. -/
theorem Hosts.tickedOnly_turns (hs : s.Links p) (hp : p.Sound) (rate : R) :
    ∀ (nodes : List NodeId) {e : Engine F}, e.Hosts Suits s p →
      (∀ n ∈ nodes, n < p.nodes.length) → TickedOnly nodes e (Engine.turns rate nodes e).state
  | [], _, _, _ => .refl ..
  | n :: nodes, e, he, hlt => by
    have hone := he.tickedOnly_tickNode hs hp rate (hlt n (by simp))
    have he' := (closed_of_preserves hF hs).ticked rate n he
    unfold Engine.turns Progress.each Progress.andThen
    split
    · exact hone.cons (.refl ..)
    · exact hone.cons <|
        Hosts.tickedOnly_turns hs hp rate nodes he' fun m hm => hlt m (List.mem_cons_of_mem _ hm)

/-! ## Whole ticks -/

section
variable (he : e.Hosts Suits s p) (hs : s.Links p) (hp : p.Sound) (rate : R) {f : Fault}
include he hs hp

/-- A tick that faults does so where a node gives up as its turn comes. -/
theorem Hosts.tickAll_faulted (hf : (Engine.tickAll rate e).fault = some f) :
    ∃ before culprit later, s.order = before ++ culprit :: later ∧
      (Engine.turns rate before e).fault = none ∧
      (Engine.turns rate before e).state.fault? rate culprit = some f := by
  obtain ⟨before, culprit, later, horder, hbefore, hculprit⟩ := Progress.each_first_fault hf
  rw [he.schedule] at horder
  have hlt : culprit < p.nodes.length := hs.order_lt (by simp [horder])
  have hmid := he.turns hF hs rate before
  exact ⟨before, culprit, later, horder, hbefore,
    (hmid.fault_tickNode hs hp rate hlt).symm.trans hculprit⟩

/-- The nodes behind one that gives up do not have their turns. -/
theorem Hosts.tickAll_breaks {before later : List NodeId} {culprit : NodeId}
    (horder : s.order = before ++ culprit :: later)
    (hbefore : (Engine.turns rate before e).fault = none)
    (hculprit : (Engine.turns rate before e).state.fault? rate culprit = some f) :
    Engine.tickAll rate e = Engine.turns rate (before ++ [culprit]) e ∧
      (Engine.tickAll rate e).fault = some f := by
  have hlt : culprit < p.nodes.length := hs.order_lt (by simp [horder])
  have hmid := he.turns hF hs rate before
  have hfault := (hmid.fault_tickNode hs hp rate hlt).trans hculprit
  obtain ⟨hall, hone⟩ := Progress.each_breaks hbefore hfault later
  have htick : Engine.tickAll rate e = Engine.turns rate (before ++ [culprit]) e := by
    rw [Engine.tickAll, he.schedule, horder]
    exact hall
  exact ⟨htick, htick ▸ hone⟩

end

theorem Hosts.ticks_whole (he : e.Hosts Suits s p) (hs : s.Links p) (hp : p.Sound) {c : Config R}
    (hc : e.config = some c) {n : Nat}
    (hnobody : ∀ k < n, ∀ before culprit later f, s.order = before ++ culprit :: later →
      ¬ e.GivesUp c.sampleRate k before culprit f) :
    ∀ k < n, ∀ f, ((e.ticked k).perform .tick).ending ≠ .faulted f := by
  intro k
  -- by induction on all ticks before, which have to be whole for a node to give up
  induction k using Nat.strong_induction_on with
  | h k ih =>
    intro hk f hf
    have hc' : (e.ticked k).config = some c := (framed_ticks e k).config.trans hc
    have hlast : (e.ticked k).Hosts Suits s p := (closed_of_preserves hF hs).after he _
    obtain ⟨before, culprit, later, horder, hbefore, hculprit⟩ :=
      hlast.tickAll_faulted hF hs hp c.sampleRate ((faulted_tick hc').mp hf)
    exact hnobody k hk before culprit later f horder
      ⟨fun j hj => ih j hj (hj.trans hk), hbefore, hculprit⟩

/-! ## Blocks -/

variable (he : e.Hosts Suits s p) (hs : s.Links p) (hp : p.Sound) {c : Config R}
  (hc : e.config = some c) (node : NodeId) (outlet n : Nat)
include he hs hp hc

theorem Hosts.serve_safe_of_nobody
    (hnobody : ∀ k < n, ∀ before culprit later f, s.order = before ++ culprit :: later →
      ¬ e.GivesUp c.sampleRate k before culprit f) :
    let block := e.serve (.call (.block node outlet n))
    e.serve (.safeBlock node outlet n) = block ∧ ((∃ err, block.ending = .refused err) ∨
      ∃ xs, xs.length = n ∧ block.ending = .done (.samples xs)) := by
  intro block
  cases hslot : e.schedule.slot? node outlet with
  | none =>
    have herror : e.processBlock node outlet n = .error (.invalidPort node (.regular outlet)) := by
      simp only [Engine.processBlock, hslot]
    exact ⟨serve_safe_of_error herror, Or.inl ⟨_, block_refused.mpr herror⟩⟩
  | some slot =>
    obtain ⟨xs, hwhole, hlen⟩ := runBlock_whole n hc (he.outputs ▸ slot_lt hs he hslot)
      (he.ticks_whole hF hs hp hc hnobody)
    have hdone : e.processBlock node outlet n = .ok ⟨e.ticked n, xs, none⟩ :=
      (processBlock_eq hc hslot n).trans (congrArg _ hwhole)
    refine ⟨serve_safe_of_whole hdone rfl, Or.inr ⟨xs, hlen, ?_⟩⟩
    simp only [block, serve, Engine.perform, hdone, unlessRefused, ofBlock]

/-- If a node gives up, the block breaks off there with the samples so far, and the safe block is
silence. -/
theorem Hosts.serve_safe_of_givesUp {k : Nat} (hk : k < n) {before later : List NodeId}
    {culprit : NodeId} (horder : s.order = before ++ culprit :: later) {f : Fault}
    (hgives : e.GivesUp c.sampleRate k before culprit f)
    (hserved : ∀ err, (e.serve (.call (.block node outlet n))).ending ≠ .refused err) :
    let left := (Engine.turns c.sampleRate (before ++ [culprit]) (e.ticked k)).state
    (∃ written, written.length = k ∧
      e.processBlock node outlet n = .ok ⟨left, written, some f⟩) ∧
    e.serve (.safeBlock node outlet n) =
      ⟨left, [.notice (.silenced node)], .done (.samples (List.replicate n 0))⟩ ∧
    TickedOnly (before ++ [culprit]) (e.ticked k) left := by
  intro left
  have hlast : (e.ticked k).Hosts Suits s p := (closed_of_preserves hF hs).after he _
  obtain ⟨htick, hfault⟩ :=
    hlast.tickAll_breaks hF hs hp c.sampleRate horder hgives.reached hgives.fails
  obtain ⟨slot, hslot⟩ : ∃ slot, e.schedule.slot? node outlet = some slot := by
    refine Option.ne_none_iff_exists'.mp fun hnone =>
      hserved (.invalidPort node (.regular outlet)) (block_refused.mpr ?_)
    simp only [Engine.processBlock, hnone]
  obtain ⟨written, hlen, hbreaks⟩ :=
    runBlock_breaks hc (he.outputs ▸ slot_lt hs he hslot) hk hgives.whole hfault
  have hbroken : e.processBlock node outlet n = .ok ⟨left, written, some f⟩ := by
    rw [processBlock_eq hc hslot, hbreaks, htick]
  have hmem : ∀ m ∈ before ++ [culprit], m < p.nodes.length := fun m hm =>
    hs.order_lt (by rw [horder, List.append_cons]; exact List.mem_append_left _ hm)
  exact ⟨⟨written, hlen, hbroken⟩, serve_safe_of_fault hbroken rfl,
    hlast.tickedOnly_turns hF hs hp c.sampleRate _ hmem⟩

end

/-- Whatever instances there are and whatever was asked of the engine before, a safe block is the
block if that is refused or if nobody gives up in it. If a node gives up in it, the safe block is
silence, also where samples were written already, and since the last whole tick the engine has only
changed where the nodes up to the culprit ticked. -/
theorem safe_block_contains_faults {catalog : Catalog F} {edits : List (Edit F)} {s : Schedule}
    (hs : (Schedule.compile ((Patch.empty catalog).after edits)).ending = .done s)
    {buses : Buses} {fresh : Engine F}
    (hfresh : (link s ((Patch.empty catalog).after edits) buses).ending = .done fresh)
    {requests : List (Request R)} {c : Config R} (hc : (fresh.served requests).config = some c)
    (node : NodeId) (outlet n : Nat) :
    let e := fresh.served requests
    let block := e.serve (.call (.block node outlet n))
    let safe := e.serve (.safeBlock node outlet n)
    (∀ err, block.ending = .refused err → safe = block) ∧
    ((∀ k < n, ∀ before culprit later f, s.order = before ++ culprit :: later →
        ¬ e.GivesUp c.sampleRate k before culprit f) →
      safe = block ∧ ((∃ err, block.ending = .refused err) ∨
        ∃ xs, xs.length = n ∧ block.ending = .done (.samples xs))) ∧
    ∀ k < n, ∀ before culprit later f, s.order = before ++ culprit :: later →
      e.GivesUp c.sampleRate k before culprit f → (∀ err, block.ending ≠ .refused err) →
      let last := e.ticked k
      (∃ written, written.length = k ∧
        e.processBlock node outlet n = .ok ⟨safe.state, written, some f⟩) ∧
      safe.ending = .done (.samples (List.replicate n 0)) ∧
      safe.events = [.notice (.silenced node)] ∧
      safe.state = (turns c.sampleRate (before ++ [culprit]) last).state ∧
      TickedOnly (before ++ [culprit]) last safe.state ∧
      ∀ m ∈ later, safe.state.nodes[m]? = last.nodes[m]? := by
  intro e block safe
  have hp := (Patch.sound_empty catalog).after edits
  obtain ⟨hlinks, -⟩ := Schedule.compile_done hp hs
  have hF := F.preserves_true
  have hhosts : e.Hosts (fun _ _ => True) s ((Patch.empty catalog).after edits) :=
    (Hosts.closed_of_preserves hF hlinks).served requests <|
      hosts_link (fun _ _ _ _ _ => trivial) hfresh
  refine ⟨fun err herr => serve_safe_of_error (block_refused.mp herr),
    hhosts.serve_safe_of_nobody hF hlinks hp hc node outlet n, ?_⟩
  intro k hk before culprit later f horder hgives hserved last
  obtain ⟨hbroken, hsafe, htouched⟩ :=
    hhosts.serve_safe_of_givesUp hF hlinks hp hc node outlet n hk horder hgives hserved
  have hnodup : (before ++ culprit :: later).Nodup := horder ▸ hlinks.order_nodup
  rw [show safe = _ from hsafe]
  refine ⟨hbroken, rfl, rfl, rfl, htouched, fun m hm => (htouched.spared m fun hin => ?_).1⟩
  -- no node stands twice in the order
  rw [List.append_cons] at hnodup
  exact (List.nodup_append.mp hnodup).2.2 m hin m hm rfl

@[reducible] def fuses (R : Type) [Sample R] : Family R where
  Args := Nat
  State := Nat
  configure left _ := .quiet left
  tick left _ outputs _ :=
    match left with
    | 0 => ⟨0, outputs.map fun _ => 1, some (.raised "burnt down")⟩
    | left + 1 => .idle left (outputs.map fun _ => 1)
  message left _ _ _ := .quiet left

def fuse : NodeType (fuses R) where
  readArgs raw := .ok raw.length
  build _ := pure ⟨[], [.signal 0], false⟩
  reroute _ := none
  declare left _ := pure ⟨left, false, []⟩

/-- Of three fuses the one in the middle burns down in the second tick of a block, after the first
and before the last had their turns. -/
theorem safe_block_contains_faults_midway :
    let long : List (Token Float) := List.replicate 9 (.symbol "cord")
    let edits : List (Edit (fuses Float)) := [.addExternal "long" fuse long,
      .addExternal "short" fuse [.symbol "cord"], .addExternal "long" fuse long]
    let p := (Patch.empty Catalog.empty).after edits
    let requests : List (Request Float) := [.call (.configure ⟨44100, 4, 1⟩)]
    ∃ s fresh, (Schedule.compile p).ending = .done s ∧ (link s p .empty).ending = .done fresh ∧
      let e := fresh.served requests
      let safe := e.serve (.safeBlock 0 0 4)
      e.config = some ⟨44100, 4, 1⟩ ∧ s.order = [0] ++ 1 :: [2] ∧
      e.GivesUp 44100 1 [0] 1 (.raised "burnt down") ∧
      safe.ending = .done (.samples [0, 0, 0, 0]) ∧
      safe.state.nodes.map (·.state) = [7, 0, 8] := by
  intro long edits p requests
  obtain ⟨s, fresh, hs, hfresh, hc⟩ : ∃ s fresh, (Schedule.compile p).ending = .done s ∧
      (link s p .empty).ending = .done fresh ∧
      (fresh.served requests).config = some ⟨44100, 4, 1⟩ := ⟨_, _, rfl, rfl, rfl⟩
  obtain ⟨horder, hslot, hfirst, hturns, hfails, hleft⟩ : s.order = [0] ++ 1 :: [2] ∧
      (fresh.served requests).schedule.slot? 0 0 = some 0 ∧
      (tickAll 44100 (fresh.served requests)).fault = none ∧
      (turns 44100 [0] ((fresh.served requests).ticked 1)).fault = none ∧
      (turns 44100 [0] ((fresh.served requests).ticked 1)).state.fault? 44100 1 =
        some (.raised "burnt down") ∧
      (turns 44100 [0, 1] ((fresh.served requests).ticked 1)).state.nodes.map (·.state) =
        [7, 0, 8] := by
    obtain rfl := Ending.done.inj (hs.symm.trans (rfl : _ = Ending.done _))
    obtain rfl := Ending.done.inj (hfresh.symm.trans (rfl : _ = Ending.done _))
    decide +kernel
  have hgives : (fresh.served requests).GivesUp 44100 1 [0] 1 (.raised "burnt down") := by
    refine ⟨fun j hj f hf => ?_, hturns, hfails⟩
    obtain rfl : j = 0 := by omega
    exact nomatch hfirst.symm.trans ((faulted_tick hc).mp hf)
  obtain ⟨-, -, hcontained⟩ := safe_block_contains_faults hs hfresh hc 0 0 4
  obtain ⟨-, hsilent, -, hstate, -⟩ := hcontained 1 (by decide) [0] 1 [2] _ horder hgives
    fun err herr => nomatch (processBlock_eq hc hslot 4).symm.trans (block_refused.mp herr)
  exact ⟨s, fresh, hs, hfresh, hc, horder, hgives, hsilent, by rw [hstate]; exact hleft⟩

end Engine

end Patchbay
