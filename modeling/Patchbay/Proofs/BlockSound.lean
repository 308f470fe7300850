import Patchbay.Proofs.Spans
import Patchbay.Proofs.TwinSound

/-!
# Blocks cannot be heard

The length of the blocks and the number of channels leave no trace in what an engine does, and a
render may be cut into blocks, calls or single ticks at will.
-/

namespace Patchbay

variable {R : Type} {F : Family R}

namespace Engine

def Reblocked (e e' : Engine F) : Prop :=
  ∃ config, e' = { e with config := config } ∧
    (e.config = none ∧ config = none ∨ ∃ c c', e.config = some c ∧ config = some c' ∧ c.Alike c')

theorem Reblocked.unconfigured {e : Engine F} (h : e.config = none) : Reblocked e e :=
  ⟨none, by rw [← h], Or.inl ⟨h, rfl⟩⟩

theorem Reblocked.of_frame {e e' e₁ : Engine F} (h : Reblocked e e')
    (hconfig : e₁.config = e.config) : Reblocked e₁ { e₁ with config := e'.config } := by
  obtain ⟨config, rfl, hc⟩ := h
  refine ⟨config, rfl, ?_⟩
  rwa [hconfig]

variable [Sample R]

theorem Reblocked.tickNode (rate : R) (n : NodeId) {e e' : Engine F} (h : Reblocked e e') :
    Together Reblocked (tickNode rate n e) (tickNode rate n e') := by
  have hsame := (steady_framed e).ticked rate n (.refl e)
  obtain ⟨config, rfl, hc⟩ := h
  have hticked : Engine.tickNode rate n { e with config := config } =
      ⟨{ (Engine.tickNode rate n e).state with config := config },
        (Engine.tickNode rate n e).events, (Engine.tickNode rate n e).fault⟩ := by
    have hinputs : inputs? { e with config := config } n = e.inputs? n := rfl
    unfold Engine.tickNode
    rw [hinputs]
    dsimp only
    split
    · split <;> rfl
    · rfl
  rw [hticked]
  exact ⟨Reblocked.of_frame ⟨config, rfl, hc⟩ hsame.config, rfl⟩

theorem twins_reblocked : Twins (fun _ => true) (Reblocked (F := F)) where
  exists_live := nofun
  targets := nofun
  called := nofun
  handled := nofun
  captured := nofun
  nodes := by
    rintro e _ n ⟨config, rfl, -⟩ -
    rfl
  wires := by
    rintro e _ n outlet ⟨config, rfl, -⟩ -
    rw [List.filter_true]
  buses := by
    rintro e _ ⟨config, rfl, -⟩
    rfl
  listeners _ _ _ _ := rfl
  pending := by
    rintro e _ ⟨config, rfl, -⟩
    rw [List.filter_true]
  config := by
    rintro e _ ⟨config, rfl, hc⟩
    exact hc
  slot := by
    rintro e _ n outlet ⟨config, rfl, -⟩ -
    rfl
  signal := by
    rintro e _ n outlet ⟨config, rfl, -⟩ -
    rfl
  heard := by
    rintro e _ n outlet ⟨config, rfl, -⟩ -
    rw [take_fst, take_fst]
  call := by
    rintro e _ n live rate ⟨config, rfl, hc⟩ - -
    exact ⟨config, rfl, hc⟩
  handle := by
    rintro e _ n live inlet msg ⟨config, rfl, hc⟩ - -
    exact ⟨config, rfl, hc⟩
  capture := by
    rintro e _ n outlet msg ⟨config, rfl, hc⟩ -
    exact ⟨config, by simp only [Engine.capture]; split <;> rfl, by rwa [capture_eq]⟩
  subscribe := by
    rintro e _ n bus inlet ⟨config, rfl, hc⟩ -
    exact ⟨config, rfl, hc⟩
  unsubscribe := by
    rintro e _ n bus inlet ⟨config, rfl, hc⟩ -
    exact ⟨config, rfl, hc⟩
  listen := by
    rintro e _ n outlet ⟨config, rfl, hc⟩ -
    exact ⟨config, rfl, hc⟩
  take := by
    rintro e _ n outlet ⟨config, rfl, hc⟩ -
    unfold Engine.take
    dsimp only
    split <;> exact ⟨config, rfl, hc⟩
  configure := by
    rintro e _ c c' ⟨config, rfl, -⟩ halike
    exact ⟨some c', rfl, Or.inr ⟨c, c', rfl, rfl, halike⟩⟩
  tick := by
    rintro e e' rate h
    have hschedule : e'.schedule = e.schedule := by
      obtain ⟨config, rfl, -⟩ := h
      rfl
    unfold tickAll
    rw [hschedule]
    exact Together.each_same _ (fun n _ _ _ h => h.tickNode rate n) h

/-- A call to a configured engine is answered out of blocks of some length. -/
theorem sized_of_config {fresh : Engine F} (hfresh : fresh.config = none) {calls : List (Call R)}
    {c : Config R} (hc : (fresh.after calls).config = some c) : c.blockSize ≠ 0 := by
  have hakin := (twins_reblocked.outcomes (Call.alike_self calls) (.unconfigured hfresh)
    fun _ _ _ _ => rfl).1
  rcases twins_reblocked.config hakin with ⟨hnone, -⟩ | ⟨c₁, c₂, hc₁, -, halike⟩
  · cases hnone.symm.trans hc
  · cases hc₁.symm.trans hc
    exact halike.sized

/-- In a configured engine a render at an outlet may be cut anywhere, and is as many single ticks
with a look at the outlet after each. As long as no tick faults it has all its samples. Had the
engine been configured with other blocks, it would be in the same state, and would answer whatever
it is asked next with the same. -/
theorem renders_in_any_blocks {fresh : Engine F} (hfresh : fresh.config = none)
    {calls : List (Call R)} {c : Config R} (hc : (fresh.after calls).config = some c)
    {node : NodeId} {outlet : Nat}
    (houtlet : ((fresh.after calls).signal? node outlet).isSome = true) :
    let e := fresh.after calls
    (∀ a b, e.render node outlet (a + b) =
      (e.render node outlet a).bind (·.andThen fun mid => mid.render node outlet b)) ∧
    (∀ frames, e.render node outlet frames = sampleTicks node outlet frames e) ∧
    (∀ frames,
      (∀ k < frames, ∀ f, ((e.after (List.replicate k .tick)).perform .tick).ending ≠ .faulted f) →
      ∃ last xs, e.render node outlet frames = .ok ⟨last, xs, none⟩ ∧ xs.length = frames) ∧
    ∀ calls', List.Forall₂ Call.Alike calls calls' →
      (∃ config, fresh.after calls' = { e with config := config }) ∧
      ∀ call, ((fresh.after calls').perform call).ending = (e.perform call).ending := by
  intro e
  have hsize := sized_of_config hfresh hc
  obtain ⟨slot, hslot, hlt⟩ := slot_of_signal houtlet
  refine ⟨render_add hc hsize hslot, fun frames => ?_, fun frames hfine => ?_,
    fun calls' hcalls => ?_⟩
  · rw [render_of_slot hc hsize hslot, sampleTicks_eq _ hc hslot]
  · obtain ⟨last, xs, hrun, hall⟩ := runBlock_complete frames hc hlt hfine
    exact ⟨last, xs, by rw [render_of_slot hc hsize hslot, hrun], hall⟩
  · obtain ⟨hakin, -⟩ := twins_reblocked.outcomes hcalls (.unconfigured hfresh) fun _ _ _ _ => rfl
    refine ⟨?_, fun call => (twins_reblocked.perform hakin (.same call) fun _ _ => rfl).ending⟩
    obtain ⟨config, hconfig, -⟩ := hakin
    exact ⟨config, hconfig⟩

/-- An oscillator that another one drives, in blocks of seven and of sixty-four frames. -/
theorem renders_in_any_blocks_driven :
    let edits : List (Edit (standard Float)) :=
      [.add "osc~" [.float 440], .add "phasor~" [], .connect 0 0 1 (.regular 0)]
    ∃ s fresh, (Schedule.compile (Patch.built edits)).ending = .done s ∧
      (link s (Patch.built edits) .empty).ending = .done fresh ∧ fresh.config = none ∧
      (fresh.after [.configure ⟨44100, 7, 1⟩]).config = some ⟨44100, 7, 1⟩ ∧
      ((fresh.after [.configure ⟨44100, 7, 1⟩]).signal? 1 0).isSome = true ∧
      (∀ frames, ∃ last xs, (fresh.after [.configure ⟨44100, 7, 1⟩]).render 1 0 frames =
        .ok ⟨last, xs, none⟩ ∧ xs.length = frames) ∧
      ∀ frames, ((fresh.after [.configure ⟨44100, 64, 2⟩]).perform (.render 1 0 frames)).ending =
        ((fresh.after [.configure ⟨44100, 7, 1⟩]).perform (.render 1 0 frames)).ending := by
  intro edits
  have hedits : ∀ edit ∈ edits, edit.fromCatalog = true := by simp [edits, Edit.fromCatalog]
  obtain ⟨s, fresh, hs, hfresh, hnone, hc, hsignal⟩ : ∃ s fresh,
      (Schedule.compile (Patch.built edits)).ending = .done s ∧
      (link s (Patch.built edits) .empty).ending = .done fresh ∧ fresh.config = none ∧
      (fresh.after [.configure ⟨44100, 7, 1⟩]).config = some ⟨44100, 7, 1⟩ ∧
      ((fresh.after [.configure ⟨44100, 7, 1⟩]).signal? 1 0).isSome = true :=
    ⟨_, _, rfl, rfl, rfl, rfl, rfl⟩
  obtain ⟨-, -, hwhole, hblocks⟩ := renders_in_any_blocks hnone hc hsignal
  refine ⟨s, fresh, hs, hfresh, hnone, hc, hsignal, fun frames => ?_, fun frames => ?_⟩
  · have hlinks := (Schedule.compile_done (Patch.sound_built edits) hs).1
    refine hwhole frames fun k _ f => ?_
    have hready := (Ready.closed StandardState.keeps_sound hlinks).after
      (ready_after_built hedits hs hfresh [.configure ⟨44100, 7, 1⟩]) (List.replicate k .tick)
    exact perform_not_faulted StandardState.keeps_sound StandardState.quiet hlinks
      (Patch.sound_built edits) hready .tick f
  · have hcalls : List.Forall₂ Call.Alike [.configure (⟨44100, 7, 1⟩ : Config Float)]
        [.configure ⟨44100, 64, 2⟩] :=
      .cons (.blocks (by decide) (by decide) (by decide) (by decide)) .nil
    exact (hblocks _ hcalls).2 (.render 1 0 frames)

end Engine

end Patchbay
