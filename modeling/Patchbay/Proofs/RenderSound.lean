import Mathlib.Algebra.BigOperators.Group.List.Basic
import Mathlib.Algebra.Ring.Nat
import Patchbay.Proofs.LinkSound

/-!
# Rendering

A render is cut into blocks, and a block is made of ticks. Where it is cut makes no difference: a
render comes to as many single ticks as it has frames, with a look at the outlet after each.
-/

namespace Patchbay

variable {R : Type} {F : Family R}

namespace Engine

def Block.andThen (b : Block F) (next : Engine F → Except (EngineError R) (Block F)) :
    Except (EngineError R) (Block F) :=
  match b.fault with
  | some _ => .ok b
  | none => (next b.engine).map fun rest => ⟨rest.engine, b.samples ++ rest.samples, rest.fault⟩

theorem Block.andThen_congr {b : Block F} {f g : Engine F → Except (EngineError R) (Block F)}
    (h : f b.engine = g b.engine) : b.andThen f = b.andThen g := by
  unfold andThen
  rw [h]

variable [Sample R]

def sampleTick (e : Engine F) (node : NodeId) (outlet : Nat) :
    Except (EngineError R) (Block F) :=
  e.tick.map fun p =>
    match p.fault, p.state.signal? node outlet with
    | none, some x => ⟨p.state, [x], none⟩
    | none, none => ⟨p.state, [], some .outOfRange⟩
    | some f, _ => ⟨p.state, [], some f⟩

def sampleTicks (node : NodeId) (outlet : Nat) : Nat → Engine F → Except (EngineError R) (Block F)
  | 0, e => .ok ⟨e, [], none⟩
  | n + 1, e => do (← e.sampleTick node outlet).andThen (sampleTicks node outlet n)

/-! ## Blocks in a row -/

theorem runBlock_done (rate : R) (slot n : Nat) : ∀ (done : List R) (e : Engine F),
    runBlock rate slot n done e =
      ⟨(runBlock rate slot n [] e).engine, done.reverse ++ (runBlock rate slot n [] e).samples,
        (runBlock rate slot n [] e).fault⟩ := by
  induction n with
  | zero => simp [runBlock]
  | succ n ih =>
    intro done e
    cases hfault : (tickAll rate e).fault with
    | some f => simp [runBlock, hfault]
    | none =>
      cases hx : (tickAll rate e).state.outputs[slot]? with
      | none => simp [runBlock, hfault, hx]
      | some x =>
        simp only [runBlock, hfault, hx]
        rw [ih (x :: done), ih [x]]
        simp

theorem runBlock_add (rate : R) (slot m n : Nat) : ∀ e : Engine F,
    .ok (runBlock rate slot (m + n) [] e) =
      (runBlock rate slot m [] e).andThen fun e => .ok (runBlock rate slot n [] e) := by
  induction m with
  | zero => simp [runBlock, Block.andThen, Except.map]
  | succ m ih =>
    intro e
    rw [Nat.succ_add]
    cases hfault : (tickAll rate e).fault with
    | some f => simp [runBlock, hfault, Block.andThen]
    | none =>
      cases hx : (tickAll rate e).state.outputs[slot]? with
      | none => simp [runBlock, hfault, hx, Block.andThen]
      | some x =>
        simp only [runBlock, hfault, hx]
        rw [runBlock_done rate slot (m + n) [x], runBlock_done rate slot m [x]]
        have hrest := ih (tickAll rate e).state
        cases hm : (runBlock rate slot m [] (tickAll rate e).state).fault with
        | some f =>
          simp only [Block.andThen, hm, Except.ok.injEq] at hrest
          simp [Block.andThen, hrest, hm]
        | none =>
          simp only [Block.andThen, hm, Except.map, Except.ok.injEq] at hrest
          simp [Block.andThen, hrest, Except.map]

/-! ## Renders -/

section
variable {e : Engine F} {c : Config R} {node : NodeId} {outlet slot : Nat}

theorem processBlock_eq (hc : e.config = some c) (hslot : e.schedule.slot? node outlet = some slot)
    (n : Nat) : e.processBlock node outlet n = .ok (runBlock c.sampleRate slot n [] e) := by
  simp [processBlock, hslot, hc]

theorem renderBlocks_cons (n : Nat) (ns : List Nat) :
    renderBlocks node outlet (n :: ns) e =
      (e.processBlock node outlet n).bind (·.andThen (renderBlocks node outlet ns)) := by
  unfold renderBlocks
  cases e.processBlock node outlet n with
  | error err => rfl
  | ok b =>
    simp only [bind, Except.bind, Block.andThen]
    cases b.fault with
    | some f => rfl
    | none => cases renderBlocks node outlet ns b.engine <;> rfl

theorem renderBlocks_eq (ns : List Nat) : ∀ {e : Engine F}, e.config = some c →
    e.schedule.slot? node outlet = some slot →
    renderBlocks node outlet ns e = .ok (runBlock c.sampleRate slot ns.sum [] e) := by
  induction ns with
  | nil => exact fun _ _ => rfl
  | cons n ns ih =>
    intro e hc hslot
    rw [renderBlocks_cons, processBlock_eq hc hslot, List.sum_cons, runBlock_add]
    have hsame := (steady_framed e).runBlock c.sampleRate slot n [] e (.refl e)
    exact Block.andThen_congr (ih (hsame.config.trans hc) (hsame.schedule ▸ hslot))

omit [Sample R] in
theorem sum_blockLengths (frames size : Nat) : (blockLengths frames size).sum = frames := by
  have hdiv := Nat.div_add_mod' frames size
  unfold blockLengths
  split
  · rename_i hzero
    simp only [List.append_nil, List.sum_replicate_nat]
    omega
  · simp only [List.sum_append, List.sum_replicate_nat, List.sum_cons, List.sum_nil]
    omega

/-- However long its blocks are, a render is one block of all its frames. -/
theorem render_eq (hc : e.config = some c) (hsize : c.blockSize ≠ 0) (node : NodeId)
    (outlet frames : Nat) :
    e.render node outlet frames =
      if frames = 0 then .ok ⟨e, [], none⟩ else e.processBlock node outlet frames := by
  have hrender : e.render node outlet frames =
      renderBlocks node outlet (blockLengths frames c.blockSize) e := by
    simp [render, hc, hsize]
  rw [hrender]
  cases hslot : e.schedule.slot? node outlet with
  | some slot =>
    rw [renderBlocks_eq _ hc hslot, sum_blockLengths, processBlock_eq hc hslot]
    split
    · rename_i hzero
      rw [hzero]
      rfl
    · rfl
  | none =>
    cases hlengths : blockLengths frames c.blockSize with
    | nil =>
      have hsum := sum_blockLengths frames c.blockSize
      rw [hlengths, List.sum_nil] at hsum
      rw [if_pos hsum.symm]
      rfl
    | cons n ns =>
      have hzero : frames ≠ 0 := by
        rintro rfl
        simp [blockLengths] at hlengths
      rw [if_neg hzero, renderBlocks_cons]
      simp [processBlock, hslot, Except.bind]

theorem render_of_slot (hc : e.config = some c) (hsize : c.blockSize ≠ 0)
    (hslot : e.schedule.slot? node outlet = some slot) (frames : Nat) :
    e.render node outlet frames = .ok (runBlock c.sampleRate slot frames [] e) := by
  rw [render_eq hc hsize, processBlock_eq hc hslot]
  split
  · rename_i hzero
    rw [hzero]
    rfl
  · rfl

/-! ## Cutting a render -/

/-- A render may be cut anywhere. -/
theorem render_add (hc : e.config = some c) (hsize : c.blockSize ≠ 0)
    (hslot : e.schedule.slot? node outlet = some slot) (m n : Nat) :
    e.render node outlet (m + n) =
      (e.render node outlet m).bind (·.andThen fun mid => mid.render node outlet n) := by
  rw [render_of_slot hc hsize hslot, render_of_slot hc hsize hslot, runBlock_add]
  have hsame := (steady_framed e).runBlock c.sampleRate slot m [] e (.refl e)
  dsimp only [Except.bind]
  refine Block.andThen_congr ?_
  exact (render_of_slot (hsame.config.trans hc) hsize (hsame.schedule ▸ hslot) n).symm

theorem sampleTick_eq (hc : e.config = some c) (hslot : e.schedule.slot? node outlet = some slot) :
    e.sampleTick node outlet = .ok (runBlock c.sampleRate slot 1 [] e) := by
  have hsame := (steady_framed e).tickAll c.sampleRate (.refl e)
  have hlook : (tickAll c.sampleRate e).state.signal? node outlet =
      (tickAll c.sampleRate e).state.outputs[slot]? := by
    unfold signal?
    rw [hsame.schedule, hslot]
    rfl
  simp only [sampleTick, tick, hc, Except.map, hlook, runBlock]
  cases (tickAll c.sampleRate e).fault with
  | some f => rfl
  | none => cases (tickAll c.sampleRate e).state.outputs[slot]? <;> rfl

/-- A render is a row of single ticks. -/
theorem sampleTicks_eq (n : Nat) : ∀ {e : Engine F}, e.config = some c →
    e.schedule.slot? node outlet = some slot →
    sampleTicks node outlet n e = .ok (runBlock c.sampleRate slot n [] e) := by
  induction n with
  | zero => exact fun _ _ => rfl
  | succ n ih =>
    intro e hc hslot
    rw [Nat.add_comm n 1, runBlock_add, Nat.add_comm 1 n]
    unfold sampleTicks
    rw [sampleTick_eq hc hslot]
    have hsame := (steady_framed e).runBlock c.sampleRate slot 1 [] e (.refl e)
    exact Block.andThen_congr (ih (hsame.config.trans hc) (hsame.schedule ▸ hslot))

/-! ## Blocks to the end, or to a fault -/

theorem perform_tick (hc : e.config = some c) :
    e.perform .tick = ofProgress (tickAll c.sampleRate e) := by
  simp [perform, tick, hc, unlessRefused]

theorem faulted_tick (hc : e.config = some c) {f : Fault} :
    (e.perform .tick).ending = .faulted f ↔ (tickAll c.sampleRate e).fault = some f := by
  rw [perform_tick hc, ofProgress]
  cases (tickAll c.sampleRate e).fault <;> simp

theorem whole_tick (hc : e.config = some c) (h : ∀ f, (e.perform .tick).ending ≠ .faulted f) :
    (tickAll c.sampleRate e).fault = none :=
  Option.eq_none_iff_forall_ne_some.mpr fun f hf => h f ((faulted_tick hc).mpr hf)

omit [Sample R] in
theorem slot_of_signal (h : (e.signal? node outlet).isSome = true) :
    ∃ slot, e.schedule.slot? node outlet = some slot ∧ slot < e.outputs.length := by
  obtain ⟨x, hx⟩ := Option.isSome_iff_exists.mp h
  obtain ⟨slot, hslot, hx⟩ := Option.bind_eq_some_iff.mp hx
  exact ⟨slot, hslot, (List.getElem?_eq_some_iff.mp hx).1⟩

/-- Where no tick faults, a block has all its samples and leaves the engine as the ticks do. -/
theorem runBlock_whole (n : Nat) : ∀ {e : Engine F}, e.config = some c →
    slot < e.outputs.length →
    (∀ k < n, ∀ f, ((e.after (List.replicate k .tick)).perform .tick).ending ≠ .faulted f) →
    ∃ xs, runBlock c.sampleRate slot n [] e = ⟨e.after (List.replicate n .tick), xs, none⟩ ∧
      xs.length = n := by
  induction n with
  | zero => exact fun _ _ _ => ⟨[], rfl, rfl⟩
  | succ n ih =>
    intro e hc hslot hfine
    have hsame := (steady_framed e).tickAll c.sampleRate (.refl e)
    have htick := perform_tick hc
    have hfault : (tickAll c.sampleRate e).fault = none :=
      whole_tick hc (hfine 0 (by simp))
    have hslot' : slot < (tickAll c.sampleRate e).state.outputs.length := hsame.length ▸ hslot
    obtain ⟨xs, hrun, hall⟩ := ih (e := (tickAll c.sampleRate e).state)
      (hsame.config.trans hc) hslot' fun k hk f => by
        have hnext := hfine (k + 1) (by omega) f
        rwa [List.replicate_succ, after, List.foldl_cons, htick] at hnext
    refine ⟨(tickAll c.sampleRate e).state.outputs[slot] :: xs, ?_, by simp [hall]⟩
    have hlast : e.after (List.replicate (n + 1) .tick) =
        (tickAll c.sampleRate e).state.after (List.replicate n .tick) := by
      rw [List.replicate_succ, after, List.foldl_cons, htick]
      rfl
    simp only [runBlock, hfault, List.getElem?_eq_getElem hslot']
    rw [runBlock_done, hrun, hlast]
    rfl

theorem runBlock_complete (n : Nat) {e : Engine F} (hc : e.config = some c)
    (hslot : slot < e.outputs.length)
    (hfine : ∀ k < n, ∀ f, ((e.after (List.replicate k .tick)).perform .tick).ending ≠ .faulted f) :
    ∃ last xs, runBlock c.sampleRate slot n [] e = ⟨last, xs, none⟩ ∧ xs.length = n :=
  ⟨_, runBlock_whole n hc hslot hfine⟩

theorem framed_ticks (e : Engine F) (k : Nat) : Framed e (e.after (List.replicate k .tick)) :=
  (steady_framed e).after (fun _ h => List.eq_of_mem_replicate h ▸ rfl) (.refl e)

/-- A block breaks off in the first tick that faults, with the samples of those before it. -/
theorem runBlock_breaks {e : Engine F} (hc : e.config = some c) (hslot : slot < e.outputs.length)
    {k n : Nat} (hk : k < n)
    (hfine : ∀ j < k, ∀ f, ((e.after (List.replicate j .tick)).perform .tick).ending ≠ .faulted f)
    {f : Fault} (hf : (tickAll c.sampleRate (e.after (List.replicate k .tick))).fault = some f) :
    ∃ written, written.length = k ∧ runBlock c.sampleRate slot n [] e =
      ⟨(tickAll c.sampleRate (e.after (List.replicate k .tick))).state, written, some f⟩ := by
  obtain ⟨m, rfl⟩ : ∃ m, n = k + (m + 1) := ⟨n - k - 1, by omega⟩
  obtain ⟨written, hwhole, hlen⟩ := runBlock_whole k hc hslot hfine
  have hbreak : runBlock c.sampleRate slot (m + 1) [] (e.after (List.replicate k .tick)) =
      ⟨(tickAll c.sampleRate (e.after (List.replicate k .tick))).state, [], some f⟩ := by
    simp only [runBlock, hf, List.reverse_nil]
  have hcut := runBlock_add c.sampleRate slot k (m + 1) e
  simp only [hwhole, Block.andThen, hbreak, Except.map, List.append_nil, Except.ok.injEq] at hcut
  exact ⟨written, hlen, hcut⟩

end

end Engine

end Patchbay
