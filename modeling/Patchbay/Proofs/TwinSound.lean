import Patchbay.Proofs.Moments
import Patchbay.Proofs.RenderSound
import Patchbay.Proofs.RunSafe

/-!
# Two engines side by side

Two engines share nodes, and the second may have nodes of its own. What a relation of the two has to
survive is said here once: whatever a shared node does in both, and whatever the others do in the
second alone. Then the two answer every call alike.
-/

namespace Patchbay

variable {R : Type} {F : Family R}

/-! ## Calls and configurations alike -/

def Call.node? : Call R → Option NodeId
  | .block node .. | .render node .. | .send node .. | .listen node _ | .take node _ => some node
  | .configure _ | .tick | .publish .. => none

structure Config.Alike (c c' : Config R) : Prop where
  sampleRate : c'.sampleRate = c.sampleRate
  sized : c.blockSize ≠ 0
  sized' : c'.blockSize ≠ 0

inductive Call.Alike : Call R → Call R → Prop
  | same (call : Call R) : Alike call call
  | blocks {rate : R} {size channels size' channels' : Nat} : 0 < size → 0 < channels →
    0 < size' → 0 < channels' →
    Alike (.configure ⟨rate, size, channels⟩) (.configure ⟨rate, size', channels'⟩)

theorem Call.alike_self (calls : List (Call R)) : List.Forall₂ Call.Alike calls calls :=
  List.forall₂_same.mpr fun call _ => .same call

namespace Engine

/-! ## What comes out alike -/

section
variable {σ τ : Type} (Akin : σ → τ → Prop)

structure Together (p : Progress R σ) (p' : Progress R τ) : Prop where
  state : Akin p.state p'.state
  fault : p'.fault = p.fault

inductive Answered {ε α : Type} (Rel : α → α → Prop) : Except ε α → Except ε α → Prop
  | refused (err : ε) : Answered Rel (.error err) (.error err)
  | heeded {a a' : α} : Rel a a' → Answered Rel (.ok a) (.ok a')

structure Matches {ε α : Type} (o : Outcome R σ ε α) (o' : Outcome R τ ε α) : Prop where
  state : Akin o.state o'.state
  ending : o'.ending = o.ending

structure SameBlock (Akin : Engine F → Engine F → Prop) (b b' : Block F) : Prop where
  engine : Akin b.engine b'.engine
  samples : b'.samples = b.samples
  fault : b'.fault = b.fault

end

section
variable {σ τ : Type} {Akin : σ → τ → Prop}

theorem Together.andThen {p : Progress R σ} {p' : Progress R τ} {f : σ → Progress R σ}
    {f' : τ → Progress R τ} (h : Together Akin p p')
    (hf : ∀ s s', Akin s s' → Together Akin (f s) (f' s')) :
    Together Akin (p.andThen f) (p'.andThen f') := by
  unfold Progress.andThen
  rw [h.fault]
  cases hfault : p.fault with
  | some g => exact ⟨h.state, h.fault⟩
  | none =>
    obtain ⟨hstate, hnext⟩ := hf _ _ h.state
    exact ⟨hstate, hnext⟩

/-- The second may do more than the first, as long as that leaves them akin. -/
theorem Together.each {α : Type} {keep : α → Bool} {f : α → σ → Progress R σ}
    {f' : α → τ → Progress R τ} : ∀ (as : List α),
      (∀ a ∈ as, keep a = true → ∀ s s', Akin s s' → Together Akin (f a s) (f' a s')) →
      (∀ a ∈ as, keep a = false → ∀ s s', Akin s s' →
        Together Akin (.stay s) (f' a s')) →
      ∀ s s', Akin s s' → Together Akin (.each f (as.filter keep) s) (.each f' as s')
  | [], _, _, s, s', hs => ⟨hs, rfl⟩
  | a :: as, hkeep, hskip, s, s', hs => by
    have hrest := Together.each as (fun b hb => hkeep b (List.mem_cons_of_mem _ hb))
      fun b hb => hskip b (List.mem_cons_of_mem _ hb)
    cases ha : keep a with
    | true =>
      rw [List.filter_cons_of_pos ha]
      exact (hkeep a (by simp) ha s s' hs).andThen hrest
    | false =>
      rw [List.filter_cons_of_neg (by simp [ha])]
      obtain ⟨hstate, hfault⟩ := hskip a (by simp) ha s s' hs
      obtain ⟨hstate', hfault'⟩ := hrest s _ hstate
      simp only [Progress.each, Progress.andThen, hfault, Progress.stay]
      exact ⟨hstate', hfault'⟩

/-- The case where both do the same. -/
theorem Together.each_same {α : Type} {f : α → σ → Progress R σ} {f' : α → τ → Progress R τ}
    (as : List α) (h : ∀ a ∈ as, ∀ s s', Akin s s' → Together Akin (f a s) (f' a s')) {s : σ}
    {s' : τ} (hs : Akin s s') : Together Akin (.each f as s) (.each f' as s') := by
  have hall : Together Akin (.each f (as.filter fun _ => true) s) (.each f' as s') := by
    refine Together.each as (fun a ha _ => h a ha) ?_ s s' hs
    exact nofun
  rwa [List.filter_true] at hall

end

/-! ## Twins -/

variable [Sample R]

structure Aside (shared : NodeId → Bool) (Akin : Engine F → Engine F → Prop) : Prop where
  exists_live : ∀ {e e' n}, Akin e e' → shared n = false → ∃ live, e'.nodes[n]? = some live
  targets : ∀ {e e' n} outlet, Akin e e' → shared n = false → e'.schedule.targets n outlet = []
  called : ∀ {e e' n live} rate, Akin e e' → shared n = false → e'.nodes[n]? = some live →
    Akin e (e'.setState n (F.configure live.state rate).state) ∧
      (F.configure live.state rate).fault = none ∧ (F.configure live.state rate).emissions = []
  handled : ∀ {e e' n live} inlet msg rate, Akin e e' → shared n = false →
    e'.nodes[n]? = some live →
    Akin e (e'.setState n (F.message live.state inlet msg rate).state) ∧
      (F.message live.state inlet msg rate).fault = none ∧
      ∀ em ∈ (F.message live.state inlet msg rate).emissions, ∃ outlet sent, em = .send outlet sent
  captured : ∀ {e e' n} outlet msg, Akin e e' → shared n = false → Akin e (e'.capture n outlet msg)

/-- A relation of engines that no single step at a shared node breaks, nor one of the second engine
at its own. -/
structure Twins (shared : NodeId → Bool) (Akin : Engine F → Engine F → Prop) : Prop
    extends Aside shared Akin where
  nodes : ∀ {e e' n}, Akin e e' → shared n = true → e'.nodes[n]? = e.nodes[n]?
  wires : ∀ {e e' n} outlet, Akin e e' → shared n = true →
    e.schedule.targets n outlet = (e'.schedule.targets n outlet).filter (shared ·.node)
  buses : ∀ {e e'}, Akin e e' → e'.buses = e.buses
  listeners : ∀ {e e'}, Akin e e' → ∀ bus, ∀ sub ∈ e.buses.subscribers bus, shared sub.node = true
  pending : ∀ {e e'}, Akin e e' → e.pending = e'.pending.filter shared
  config : ∀ {e e'}, Akin e e' → e.config = none ∧ e'.config = none ∨
    ∃ c c', e.config = some c ∧ e'.config = some c' ∧ c.Alike c'
  slot : ∀ {e e' n} outlet, Akin e e' → shared n = true →
    e'.schedule.slot? n outlet = e.schedule.slot? n outlet
  signal : ∀ {e e' n} outlet, Akin e e' → shared n = true →
    e'.signal? n outlet = e.signal? n outlet
  heard : ∀ {e e' n} outlet, Akin e e' → shared n = true →
    (e'.take n outlet).1 = (e.take n outlet).1
  call : ∀ {e e' n live} rate, Akin e e' → shared n = true → e.nodes[n]? = some live →
    Akin (e.setState n (F.configure live.state rate).state)
      (e'.setState n (F.configure live.state rate).state)
  handle : ∀ {e e' n live} inlet msg, Akin e e' → shared n = true → e.nodes[n]? = some live →
    Akin (e.setState n (F.message live.state inlet msg e.sampleRate).state)
      (e'.setState n (F.message live.state inlet msg e.sampleRate).state)
  capture : ∀ {e e' n} outlet msg, Akin e e' → shared n = true →
    Akin (e.capture n outlet msg) (e'.capture n outlet msg)
  subscribe : ∀ {e e' n} bus inlet, Akin e e' → shared n = true →
    Akin { e with buses := e.buses.subscribe bus ⟨n, inlet⟩ }
      { e' with buses := e'.buses.subscribe bus ⟨n, inlet⟩ }
  unsubscribe : ∀ {e e' n} bus inlet, Akin e e' → shared n = true →
    Akin { e with buses := e.buses.unsubscribe bus ⟨n, inlet⟩ }
      { e' with buses := e'.buses.unsubscribe bus ⟨n, inlet⟩ }
  listen : ∀ {e e' n} outlet, Akin e e' → shared n = true →
    Akin (e.listen n outlet) (e'.listen n outlet)
  take : ∀ {e e' n} outlet, Akin e e' → shared n = true →
    Akin (e.take n outlet).2 (e'.take n outlet).2
  configure : ∀ {e e'} {c c' : Config R}, Akin e e' → c.Alike c' →
    Akin { e with config := some c, pending := [] } { e' with config := some c', pending := [] }
  tick : ∀ {e e'} rate, Akin e e' → Together Akin (tickAll rate e) (tickAll rate e')

/-! ## Cascades in the second alone -/

namespace Aside

variable {shared : NodeId → Bool} {Akin : Engine F → Engine F → Prop}
  (hA : Aside shared Akin)
include hA

theorem deliver (room : Nat) (origin : Origin) {n : NodeId} (inlet : PortId) (msg : Message R)
    {e e' : Engine F} (h : Akin e e') (hn : shared n = false) :
    Together Akin (.stay e) (deliver room origin n inlet msg e') := by
  obtain ⟨live, hlive⟩ := hA.exists_live h hn
  cases room with
  | zero =>
    simp only [Engine.deliver, hlive]
    exact ⟨h, rfl⟩
  | succ room =>
    obtain ⟨hstate, hfault, hsends⟩ := hA.handled inlet msg e'.sampleRate h hn hlive
    have happly : ∀ em ∈ (F.message live.state inlet msg e'.sampleRate).emissions, ∀ e₁, Akin e e₁ →
        Akin e (applyWith (Engine.deliver room) n em e₁).state ∧
          (applyWith (Engine.deliver room) n em e₁).fault = none := by
      intro em hem e₁ h₁
      obtain ⟨outlet, sent, rfl⟩ := hsends em hem
      simp only [applyWith, hA.targets outlet h₁ hn]
      exact ⟨hA.captured outlet sent h₁ hn, rfl⟩
    simp only [Engine.deliver, hlive]
    refine ⟨?_, ?_⟩
    · exact Progress.andThen_keeps hstate fun e₁ h₁ =>
        Progress.each_keeps _ _ (fun em hem e₁ h₁ => (happly em hem e₁ h₁).1) h₁
    · exact Progress.andThen_fault hfault <| Progress.each_fault (I := Akin e) _ _
        (fun em hem e₁ h₁ => (happly em hem e₁ h₁).1)
        (fun em hem e₁ h₁ => (happly em hem e₁ h₁).2) hstate

end Aside

/-! ## Cascades in both -/

namespace Twins

variable {shared : NodeId → Bool} {Akin : Engine F → Engine F → Prop} (hT : Twins shared Akin)
  {e e' : Engine F} (h : Akin e e')
include hT h

theorem sampleRate : e'.sampleRate = e.sampleRate := by
  unfold Engine.sampleRate
  rcases hT.config h with ⟨hc, hc'⟩ | ⟨c, c', hc, hc', halike⟩
  · rw [hc, hc']
  · rw [hc, hc']
    exact halike.sampleRate

omit h

theorem publishWith {d : Deliver F}
    (hd : ∀ o n i m e e', Akin e e' → shared n = true → Together Akin (d o n i m e) (d o n i m e'))
    (publisher : Option NodeId) (bus : String) (msg : Message R) (h : Akin e e') :
    Together Akin (publishWith d publisher bus msg e) (publishWith d publisher bus msg e') := by
  unfold Engine.publishWith
  rw [hT.buses h]
  exact Together.each_same _
    (fun sub hsub e e' h' => hd (.bus bus publisher) sub.node sub.inlet msg e e' h'
      (hT.listeners h bus sub hsub)) h

theorem applyWith {d : Deliver F}
    (hd : ∀ o n i m e e', Akin e e' → shared n = true → Together Akin (d o n i m e) (d o n i m e'))
    (hskip : ∀ o n i m e e', Akin e e' → shared n = false →
      Together Akin (.stay e) (d o n i m e'))
    {n : NodeId} (hn : shared n = true) (emission : Emission R) (h : Akin e e') :
    Together Akin (applyWith d n emission e) (applyWith d n emission e') := by
  cases emission with
  | send outlet msg =>
    simp only [Engine.applyWith, hT.wires outlet h hn]
    refine Together.andThen ⟨hT.capture outlet msg h hn, rfl⟩ ?_
    exact Together.each _ (fun t _ ht e e' h => hd _ _ _ _ e e' h ht)
      fun t _ ht e e' h => hskip _ _ _ _ e e' h ht
  | publish bus msg => exact hT.publishWith hd _ bus msg h
  | subscribe bus inlet => exact ⟨hT.subscribe bus inlet h hn, rfl⟩
  | unsubscribe bus inlet => exact ⟨hT.unsubscribe bus inlet h hn, rfl⟩

theorem deliver (room : Nat) : ∀ (origin : Origin) (n : NodeId) (inlet : PortId)
    (msg : Message R) (e e' : Engine F), Akin e e' → shared n = true →
    Together Akin (deliver room origin n inlet msg e) (deliver room origin n inlet msg e') := by
  induction room with
  | zero =>
    intro origin n inlet msg e e' h hn
    simp only [Engine.deliver, hT.nodes h hn]
    cases e.nodes[n]? <;> exact ⟨h, rfl⟩
  | succ room ih =>
    intro origin n inlet msg e e' h hn
    simp only [Engine.deliver, hT.nodes h hn]
    cases hlive : e.nodes[n]? with
    | none => exact ⟨h, rfl⟩
    | some live =>
      dsimp only
      rw [hT.sampleRate h]
      refine Together.andThen ⟨hT.handle inlet msg h hn hlive, rfl⟩ fun e e' h => ?_
      exact Together.each_same _ (fun em _ e e' h => hT.applyWith ih
        (fun o n i m e e' h hn => hT.toAside.deliver room o i m h hn) hn em h) h

theorem runCallbacks (rate : R) (ns : List NodeId) : ∀ {e e' : Engine F}, Akin e e' →
    Akin (runCallbacks rate (ns.filter shared) e).state.1 (runCallbacks rate ns e').state.1 ∧
      (runCallbacks rate ns e').fault = (runCallbacks rate (ns.filter shared) e).fault ∧
      (runCallbacks rate (ns.filter shared) e).state.2 =
        (runCallbacks rate ns e').state.2.filter (shared ·.1) ∧
      ∀ x ∈ (runCallbacks rate ns e').state.2, shared x.1 = false → x.2 = [] := by
  induction ns with
  | nil => exact fun h => ⟨h, rfl, rfl, List.forall_mem_nil _⟩
  | cons n ns ih =>
    intro e e' h
    cases hn : shared n with
    | true =>
      rw [List.filter_cons_of_pos hn]
      simp only [Engine.runCallbacks, hT.nodes h hn]
      cases hlive : e.nodes[n]? with
      | none => exact ⟨h, rfl, rfl, List.forall_mem_nil _⟩
      | some live =>
        simp only [absorb]
        have hcalled := hT.call rate h hn hlive
        cases hfault : (F.configure live.state rate).fault with
        | some f => exact ⟨hcalled, rfl, rfl, List.forall_mem_nil _⟩
        | none =>
          dsimp only
          obtain ⟨hstate, hrest, hqueue, hempty⟩ := ih hcalled
          refine ⟨hstate, hrest, ?_, fun x hx hout => ?_⟩
          · simp [hn, hqueue]
          · rcases List.mem_cons.mp hx with rfl | hx
            · rw [hn] at hout
              cases hout
            · exact hempty x hx hout
    | false =>
      rw [List.filter_cons_of_neg (by simp [hn])]
      obtain ⟨live, hlive⟩ := hT.exists_live h hn
      obtain ⟨hcalled, hfault, hnone⟩ := hT.called rate h hn hlive
      obtain ⟨hstate, hrest, hqueue, hempty⟩ := ih hcalled
      simp only [Engine.runCallbacks, hlive, absorb, hfault]
      refine ⟨hstate, hrest, ?_, fun x hx hout => ?_⟩
      · simp [hn, hqueue]
      · rcases List.mem_cons.mp hx with rfl | hx
        · exact hnone
        · exact hempty x hx hout

/-! ## Blocks -/

theorem runBlock (rate : R) {n : NodeId} {outlet slot : Nat} (hn : shared n = true) (frames : Nat) :
    ∀ (done : List R) {e e' : Engine F}, Akin e e' → e.schedule.slot? n outlet = some slot →
      SameBlock Akin (runBlock rate slot frames done e) (runBlock rate slot frames done e') := by
  induction frames with
  | zero => exact fun _ _ _ h _ => ⟨h, rfl, rfl⟩
  | succ frames ih =>
    intro done e e' h hslot
    obtain ⟨hstate, hfault⟩ := hT.tick rate h
    have hslots : (tickAll rate e).state.schedule.slot? n outlet = some slot := by
      rw [((steady_framed e).tickAll rate (.refl e)).schedule, hslot]
    have hread :
        (tickAll rate e').state.outputs[slot]? = (tickAll rate e).state.outputs[slot]? := by
      have hsignal := hT.signal outlet hstate hn
      rwa [signal?, hT.slot outlet hstate hn, signal?, hslots] at hsignal
    simp only [Engine.runBlock, hfault, hread]
    cases (tickAll rate e).fault with
    | some f => exact ⟨hstate, rfl, rfl⟩
    | none =>
      cases (tickAll rate e).state.outputs[slot]? with
      | none => exact ⟨hstate, rfl, rfl⟩
      | some x => exact ih _ hstate hslots

/-! ## Calls -/

theorem processBlock {n : NodeId} (outlet frames : Nat) (h : Akin e e') (hn : shared n = true) :
    Answered (SameBlock Akin) (e.processBlock n outlet frames)
      (e'.processBlock n outlet frames) := by
  simp only [Engine.processBlock, hT.slot outlet h hn]
  cases hslot : e.schedule.slot? n outlet with
  | none => exact .refused _
  | some slot =>
    rcases hT.config h with ⟨hc, hc'⟩ | ⟨c, c', hc, hc', halike⟩
    · simp only [hc, hc']
      split
      · exact .heeded ⟨h, rfl, rfl⟩
      · exact .refused _
    · simp only [hc, hc', halike.sampleRate]
      exact .heeded (hT.runBlock c.sampleRate hn frames [] h hslot)

theorem render {n : NodeId} (outlet frames : Nat) (h : Akin e e') (hn : shared n = true) :
    Answered (SameBlock Akin) (e.render n outlet frames) (e'.render n outlet frames) := by
  rcases hT.config h with ⟨hc, hc'⟩ | ⟨c, c', hc, hc', halike⟩
  · simp only [Engine.render, hc, hc']
    exact .refused _
  · rw [render_eq hc halike.sized, render_eq hc' halike.sized']
    split
    · exact .heeded ⟨h, rfl, rfl⟩
    · exact hT.processBlock outlet frames h hn

theorem tick_answered (h : Akin e e') : Answered (Together Akin) e.tick e'.tick := by
  unfold Engine.tick
  rcases hT.config h with ⟨hc, hc'⟩ | ⟨c, c', hc, hc', halike⟩
  · simp only [hc, hc']
    exact .refused _
  · simp only [hc, hc', halike.sampleRate]
    exact .heeded (hT.tick c.sampleRate h)

theorem configured_both (h : Akin e e') :
    e'.config.isSome = e.config.isSome ∧ e'.config.isNone = e.config.isNone := by
  rcases hT.config h with ⟨hc, hc'⟩ | ⟨c, c', hc, hc', -⟩
  · rw [hc, hc']
    exact ⟨rfl, rfl⟩
  · rw [hc, hc']
    exact ⟨rfl, rfl⟩

theorem send {n : NodeId} (inlet : PortId) (msg : Message R) (h : Akin e e')
    (hn : shared n = true) :
    Answered (Together Akin) (e.send n inlet msg) (e'.send n inlet msg) := by
  simp only [Engine.send, (hT.configured_both h).2, hT.nodes h hn]
  split
  · exact .refused _
  · cases e.nodes[n]? with
    | none => exact .refused _
    | some live =>
      dsimp only
      cases messageInlet? live inlet with
      | none => exact .refused _
      | some target => exact .heeded (hT.deliver _ _ _ _ _ _ _ h hn)

theorem publish (bus : String) (msg : Message R) (h : Akin e e') :
    Answered (Together Akin) (e.publish bus msg) (e'.publish bus msg) := by
  simp only [Engine.publish, (hT.configured_both h).2]
  split
  · exact .refused _
  · exact .heeded (hT.publishWith (hT.deliver _) none bus msg h)

theorem configure_answered {c c' : Config R} (hrate : c'.sampleRate = c.sampleRate)
    (hvalid : c'.validate = c.validate) (h : Akin e e') :
    Answered (Together Akin) (e.configure c) (e'.configure c') := by
  simp only [Engine.configure, (hT.configured_both h).1, hvalid]
  split
  · exact .refused _
  · cases hok : c.validate with
    | error err => exact .refused _
    | ok =>
      have halike : c.Alike c' :=
        ⟨hrate, blockSize_of_validate hok, blockSize_of_validate (hvalid.trans hok)⟩
      have hopen := hT.configure h halike
      have hskip : ∀ o n i m e e', Akin e e' → shared n = false →
          Together Akin (.stay e) (Engine.deliver maxDepth o n i m e') :=
        fun o n i m e e' h hn => hT.toAside.deliver maxDepth o i m h hn
      obtain ⟨hstate, hfault, hqueue, hempty⟩ := hT.runCallbacks c.sampleRate e'.pending hopen
      simp only [hrate, hT.pending h]
      refine .heeded (Together.andThen ⟨hstate, hfault⟩ ?_)
      rw [hqueue]
      refine Together.each _ (fun x _ hx e e' h => ?_) fun x hmem hx e e' h => ?_
      · exact Together.each_same _
          (fun em _ e e' h => hT.applyWith (hT.deliver maxDepth) hskip hx em h) h
      · rw [hempty x hmem hx]
        exact ⟨h, rfl⟩

end Twins

/-! ## Sessions -/

omit [Sample R] in
theorem matches_of_answered {Akin : Engine F → Engine F → Prop} {e e' : Engine F} (h : Akin e e')
    {α : Type} {Rel : α → α → Prop} {x x' : Except (EngineError R) α} (hx : Answered Rel x x')
    {outcome : α → Outcome R (Engine F) (EngineError R) (Reply R)}
    (hout : ∀ a a', Rel a a' → Matches Akin (outcome a) (outcome a')) :
    Matches Akin (e.unlessRefused x outcome) (e'.unlessRefused x' outcome) := by
  cases hx with
  | refused err => exact ⟨h, rfl⟩
  | heeded hrel => exact hout _ _ hrel

omit [Sample R] in
theorem matches_ofProgress {Akin : Engine F → Engine F → Prop} {p p' : Progress R (Engine F)}
    (h : Together Akin p p') : Matches Akin (ofProgress p) (ofProgress p') := by
  refine ⟨h.state, ?_⟩
  unfold ofProgress
  rw [h.fault]

omit [Sample R] in
theorem matches_ofBlock {Akin : Engine F → Engine F → Prop} {b b' : Block F}
    (h : SameBlock Akin b b') : Matches Akin (ofBlock b) (ofBlock b') := by
  refine ⟨h.engine, ?_⟩
  unfold ofBlock
  rw [h.fault, h.samples]

namespace Twins

variable {shared : NodeId → Bool} {Akin : Engine F → Engine F → Prop} (hT : Twins shared Akin)
include hT

/-- Twins answer a call alike and stay twins. -/
theorem perform {e e' : Engine F} (h : Akin e e') {call call' : Call R} (hcall : call.Alike call')
    (hnode : ∀ n, call.node? = some n → shared n = true) :
    Matches Akin (e.perform call) (e'.perform call') := by
  cases hcall with
  | blocks hsize hchannels hsize' hchannels' =>
    refine matches_of_answered h ?_ fun _ _ => matches_ofProgress
    refine hT.configure_answered rfl ?_ h
    simp [Config.validate, Nat.ne_of_gt, *]
  | same =>
    cases call with
    | configure config =>
      exact matches_of_answered h (hT.configure_answered rfl rfl h) fun _ _ => matches_ofProgress
    | tick => exact matches_of_answered h (hT.tick_answered h) fun _ _ => matches_ofProgress
    | block n outlet frames =>
      exact matches_of_answered h (hT.processBlock outlet frames h (hnode n rfl))
        fun _ _ => matches_ofBlock
    | render n outlet frames =>
      exact matches_of_answered h (hT.render outlet frames h (hnode n rfl))
        fun _ _ => matches_ofBlock
    | send n inlet msg =>
      exact matches_of_answered h (hT.send inlet msg h (hnode n rfl)) fun _ _ => matches_ofProgress
    | publish bus msg =>
      exact matches_of_answered h (hT.publish bus msg h) fun _ _ => matches_ofProgress
    | listen n outlet => exact ⟨hT.listen outlet h (hnode n rfl), rfl⟩
    | take n outlet =>
      refine ⟨hT.take outlet h (hnode n rfl), ?_⟩
      simp only [Engine.perform, hT.heard outlet h (hnode n rfl)]

/-- Twins stay twins over any calls, and answer them alike. -/
theorem outcomes {calls calls' : List (Call R)} (hcalls : List.Forall₂ Call.Alike calls calls') :
    ∀ {e e' : Engine F}, Akin e e' →
      (∀ call ∈ calls, ∀ n, call.node? = some n → shared n = true) →
      Akin (e.after calls) (e'.after calls') ∧
        (Engine.outcomes Engine.perform e' calls').map (·.ending) =
          (Engine.outcomes Engine.perform e calls).map (·.ending) := by
  induction hcalls with
  | nil => exact fun h _ => ⟨h, rfl⟩
  | cons hcall _ ih =>
    intro e e' h hnode
    obtain ⟨hstate, hending⟩ := hT.perform h hcall (hnode _ (by simp))
    obtain ⟨hafter, hendings⟩ := ih hstate fun call hmem => hnode call (List.mem_cons_of_mem _ hmem)
    exact ⟨hafter, congrArg₂ List.cons hending hendings⟩

end Twins

end Engine

end Patchbay
