import Patchbay.Bench.History

/-!
# Invariants of an engine

What an invariant of an engine has to survive: the handlers, callbacks and ticks of single nodes,
and the bookkeeping around them. Then it survives every cascade and every call, also one that breaks
off.
-/

namespace Patchbay

/-! ## Progress -/

namespace Progress

variable {R σ α : Type} {I : σ → Prop}

theorem andThen_keeps {p : Progress R σ} {f : σ → Progress R σ} (hp : I p.state)
    (hf : ∀ s, I s → I (f s).state) : I (p.andThen f).state := by
  unfold andThen
  split
  · exact hp
  · exact hf _ hp

theorem each_keeps {f : α → σ → Progress R σ} :
    ∀ (as : List α) (s : σ), (∀ a ∈ as, ∀ s, I s → I (f a s).state) → I s →
      I (each f as s).state
  | [], _, _, hs => hs
  | a :: as, s, hf, hs => andThen_keeps (hf a (by simp) s hs) fun s hs =>
      each_keeps as s (fun a ha => hf a (List.mem_cons_of_mem _ ha)) hs

theorem andThen_fault {p : Progress R σ} {f : σ → Progress R σ} (hp : p.fault = none)
    (hf : (f p.state).fault = none) : (p.andThen f).fault = none := by
  unfold andThen
  rw [hp]
  exact hf

theorem each_fault {f : α → σ → Progress R σ} :
    ∀ (as : List α) (s : σ), (∀ a ∈ as, ∀ s, I s → I (f a s).state) →
      (∀ a ∈ as, ∀ s, I s → (f a s).fault = none) → I s → (each f as s).fault = none
  | [], _, _, _, _ => rfl
  | a :: as, s, hk, hf, hs => andThen_fault (hf a (by simp) s hs) <|
      each_fault as _ (fun a ha => hk a (List.mem_cons_of_mem _ ha))
        (fun a ha => hf a (List.mem_cons_of_mem _ ha)) (hk a (by simp) s hs)

@[simp] theorem andThen_stay (p : Progress R σ) : p.andThen stay = p := by
  unfold andThen stay
  cases h : p.fault with
  | some f => rfl
  | none => simp [← h]

theorem andThen_assoc (p : Progress R σ) (f g : σ → Progress R σ) :
    (p.andThen f).andThen g = p.andThen fun s => (f s).andThen g := by
  cases p with | mk s events fault =>
  cases fault with
  | some _ => rfl
  | none =>
    cases hf : (f s).fault with
    | some _ => simp only [andThen, hf]
    | none => simp only [andThen, hf, List.append_assoc]

theorem each_append (f : α → σ → Progress R σ) (later : List α) : ∀ (before : List α) (s : σ),
    each f (before ++ later) s = (each f before s).andThen (each f later)
  | [], s => by simp [each, stay, andThen]
  | a :: before, s => by
    rw [List.cons_append, each, each, andThen_assoc]
    exact congrArg _ (funext (each_append f later before))

/-- Nothing comes after a fault. -/
theorem each_breaks {f : α → σ → Progress R σ} {before : List α} {a : α} {s : σ} {x : Fault}
    (hbefore : (each f before s).fault = none)
    (ha : (f a (each f before s).state).fault = some x) (later : List α) :
    each f (before ++ a :: later) s = each f (before ++ [a]) s ∧
      (each f (before ++ [a]) s).fault = some x := by
  have hstops : ∀ rest, each f (a :: rest) (each f before s).state =
      f a (each f before s).state := by
    intro rest
    rw [each, andThen, ha]
  rw [each_append, each_append, andThen, andThen, hbefore]
  simp only [hstops, ha, and_self]

/-- Work that faults does so at the first of its parts that does. -/
theorem each_first_fault {f : α → σ → Progress R σ} {x : Fault} :
    ∀ {as : List α} {s : σ}, (each f as s).fault = some x →
      ∃ before a later, as = before ++ a :: later ∧ (each f before s).fault = none ∧
        (f a (each f before s).state).fault = some x
  | [], _, h => by cases h
  | a :: as, s, h => by
    cases ha : (f a s).fault with
    | some y =>
      rw [each, andThen, ha] at h
      exact ⟨[], a, as, rfl, rfl, ha.trans (ha.symm.trans h)⟩
    | none =>
      rw [each, andThen, ha] at h
      obtain ⟨before, b, later, rfl, hbefore, hb⟩ := each_first_fault h
      have hstep : each f (a :: before) s = (f a s).andThen (each f before) := rfl
      rw [andThen, ha] at hstep
      exact ⟨a :: before, b, later, rfl, by rw [hstep]; exact hbefore, by rw [hstep]; exact hb⟩

theorem each_map {β : Type} (f : α → σ → Progress R σ) (g : β → α) : ∀ (bs : List β),
    each f (bs.map g) = each (fun b => f (g b)) bs
  | [] => rfl
  | b :: bs => by
    funext s
    simp only [List.map_cons, each, each_map f g bs]

end Progress

def Call.isSilent {R : Type} : Call R → Bool
  | .configure .. | .send .. | .publish .. => false
  | .tick | .block .. | .render .. | .listen .. | .take .. => true

namespace Engine

variable {R : Type} {F : Family R} [Sample R]

/-! ## Listeners -/

section

omit [Sample R]

theorem capture_eq (e : Engine F) (n : NodeId) (outlet : Nat) (msg : Message R) :
    e.capture n outlet msg = { e with captured := (e.capture n outlet msg).captured } := by
  unfold capture
  dsimp only
  split <;> rfl

theorem take_eq (e : Engine F) (n : NodeId) (outlet : Nat) :
    (e.take n outlet).2 = { e with captured := (e.take n outlet).2.captured } := by
  unfold take
  dsimp only
  split <;> rfl

theorem take_fst (e : Engine F) (n : NodeId) (outlet : Nat) :
    (e.take n outlet).1 = (e.captured[(⟨n, outlet⟩ : Outlet)]?).getD [] := by
  unfold take
  dsimp only
  split
  · rename_i msgs h
    rw [h]
    rfl
  · rename_i h
    rw [h]
    rfl

end

/-! ## Invariants -/

structure Ticking (I : Engine F → Prop) : Prop where
  ticked : ∀ {e} rate n, I e → I (tickNode rate n e).state

structure Steady (I : Engine F → Prop) : Prop extends Ticking I where
  listened : ∀ {e} n outlet, I e → I (e.listen n outlet)
  taken : ∀ {e} n outlet, I e → I (e.take n outlet).2

/-- An invariant of engines of `size` nodes that no single step breaks. -/
structure Closed (size : Nat) (I : Engine F → Prop) : Prop extends Steady I where
  length : ∀ {e}, I e → e.nodes.length = size
  called : ∀ {e n live} rate, I e → e.nodes[n]? = some live →
    I (e.setState n (F.configure live.state rate).state)
  handled : ∀ {e n live} inlet msg, I e → e.nodes[n]? = some live →
    I (e.setState n (F.message live.state inlet msg e.sampleRate).state)
  captured : ∀ {e} n outlet msg, I e → I (e.capture n outlet msg)
  subscribed : ∀ {e n} bus inlet, n < size → I e →
    I { e with buses := e.buses.subscribe bus ⟨n, inlet⟩ }
  unsubscribed : ∀ {e n} bus inlet, I e →
    I { e with buses := e.buses.unsubscribe bus ⟨n, inlet⟩ }
  configured : ∀ {e} {config : Config R}, config.validate = .ok () → I e →
    I { e with config := some config, pending := [] }

theorem after_append (e : Engine F) (first rest : List (Call R)) :
    e.after (first ++ rest) = (e.after first).after rest := List.foldl_append

omit [Sample R] in
theorem unlessRefused_keeps {I : Engine F → Prop} {e : Engine F} (he : I e) {α : Type}
    {x : Except (EngineError R) α} {outcome : α → Outcome R (Engine F) (EngineError R) (Reply R)}
    (h : ∀ a, x = .ok a → I (outcome a).state) : I (e.unlessRefused x outcome).state := by
  cases x with
  | ok a => exact h a rfl
  | error err => exact he

/-! ## Ticks and blocks -/

namespace Ticking

variable {I : Engine F → Prop} (hI : Ticking I)
include hI

theorem tickAll (rate : R) {e : Engine F} (he : I e) : I (tickAll rate e).state :=
  Progress.each_keeps _ _ (fun n _ _ he => hI.ticked rate n he) he

theorem tick {e : Engine F} (he : I e) {p : Progress R (Engine F)} (h : e.tick = .ok p) :
    I p.state := by
  unfold Engine.tick at h
  split at h
  · cases h
  · cases h
    exact hI.tickAll _ he

theorem runBlock (rate : R) (slot n : Nat) : ∀ (done : List R) (e : Engine F), I e →
    I (runBlock rate slot n done e).engine := by
  induction n with
  | zero => exact fun _ _ he => he
  | succ n ih =>
    intro done e he
    have hticked := hI.tickAll rate he
    unfold Engine.runBlock
    dsimp only
    split
    · exact hticked
    · split
      · exact ih _ _ hticked
      · exact hticked

theorem processBlock {e : Engine F} (he : I e) {node : NodeId} {outlet n : Nat} {b : Block F}
    (h : e.processBlock node outlet n = .ok b) : I b.engine := by
  unfold Engine.processBlock at h
  split at h
  · cases h
  · split at h
    · cases h
      exact hI.runBlock _ _ _ _ _ he
    · split at h
      · cases h
        exact he
      · cases h

theorem renderBlocks {node : NodeId} {outlet : Nat} (ns : List Nat) : ∀ {e : Engine F}
    {b : Block F}, I e → renderBlocks node outlet ns e = .ok b → I b.engine := by
  induction ns with
  | nil =>
    intro e b he h
    cases h
    exact he
  | cons n ns ih =>
    intro e b he h
    unfold Engine.renderBlocks at h
    cases hb : e.processBlock node outlet n with
    | error err => simp [hb, bind, Except.bind] at h
    | ok first =>
      have hfirst := hI.processBlock he hb
      simp only [hb, bind, Except.bind] at h
      split at h
      · cases h
        exact hfirst
      · split at h
        · cases h
        · rename_i rest hrest
          cases h
          have hlast : I rest.engine := ih hfirst hrest
          exact hlast

theorem render {e : Engine F} (he : I e) {node : NodeId} {outlet frames : Nat} {b : Block F}
    (h : e.render node outlet frames = .ok b) : I b.engine := by
  unfold Engine.render at h
  split at h
  · cases h
  · split at h
    · cases h
      exact he
    · exact hI.renderBlocks _ he h

theorem safeBlock {e : Engine F} (he : I e) (node : NodeId) (outlet n : Nat) :
    I (e.next (.safeBlock node outlet n)) := by
  simp only [next, serve, processBlockSafe]
  cases hblock : e.processBlock node outlet n with
  | error err => exact he
  | ok b =>
    have hb := hI.processBlock he hblock
    simp only [Except.map, unlessRefused, ofBlock]
    split <;> exact hb

end Ticking

theorem Steady.perform {I : Engine F → Prop} (hI : Steady I) {e : Engine F} (he : I e)
    {call : Call R} (hcall : call.isSilent = true) : I (e.perform call).state := by
  cases call with
  | configure | send | publish => cases hcall
  | tick => exact unlessRefused_keeps he fun _ h => hI.tick he h
  | block node outlet n => exact unlessRefused_keeps he fun _ h => hI.processBlock he h
  | render node outlet frames => exact unlessRefused_keeps he fun _ h => hI.render he h
  | listen node outlet => exact hI.listened node outlet he
  | take node outlet => exact hI.taken node outlet he

theorem Steady.after {I : Engine F → Prop} (hI : Steady I) : ∀ {calls : List (Call R)},
    (∀ call ∈ calls, call.isSilent = true) → ∀ {e : Engine F}, I e → I (e.after calls)
  | [], _, _, he => he
  | _ :: _, h, _, he =>
    hI.after (fun call hcall => h call (List.mem_cons_of_mem _ hcall)) <|
      hI.perform he (h _ (List.mem_cons_self ..))

namespace Closed

variable {size : Nat} {I : Engine F → Prop} (hI : Closed size I)
include hI

/-! ## Cascades -/

omit [Sample R] hI in
theorem publishWith {d : Deliver F} (hd : ∀ o n i m e, I e → I (d o n i m e).state)
    (publisher : Option NodeId) (bus : String) (msg : Message R) {e : Engine F} (he : I e) :
    I (publishWith d publisher bus msg e).state :=
  Progress.each_keeps _ _ (fun _ _ e he => hd _ _ _ _ e he) he

theorem applyWith {d : Deliver F} (hd : ∀ o n i m e, I e → I (d o n i m e).state) {n : NodeId}
    (hn : n < size) (emission : Emission R) {e : Engine F} (he : I e) :
    I (applyWith d n emission e).state := by
  cases emission with
  | send outlet msg =>
    exact Progress.andThen_keeps (hI.captured n outlet msg he) fun e he =>
      Progress.each_keeps _ _ (fun _ _ e he => hd _ _ _ _ e he) he
  | publish bus msg => exact publishWith hd _ bus msg he
  | subscribe bus inlet => exact hI.subscribed bus inlet hn he
  | unsubscribe bus inlet => exact hI.unsubscribed bus inlet he

theorem deliver (room : Nat) : ∀ (origin : Origin) (n : NodeId) (inlet : PortId)
    (msg : Message R) (e : Engine F), I e → I (deliver room origin n inlet msg e).state := by
  -- what a node sends on is delivered with less room, so `ih` covers it for any engine
  induction room with
  | zero =>
    intro origin n inlet msg e he
    unfold Engine.deliver
    split <;> exact he
  | succ room ih =>
    intro origin n inlet msg e he
    unfold Engine.deliver
    split
    · exact he
    · rename_i live hlive
      have hn : n < size := hI.length he ▸ (List.getElem?_eq_some_iff.mp hlive).1
      exact Progress.andThen_keeps (hI.handled inlet msg he hlive) fun e he =>
        Progress.each_keeps _ _ (fun emission _ e he => hI.applyWith ih hn emission he) he

theorem runCallbacks (rate : R) (ns : List NodeId) : ∀ (e : Engine F), I e →
    I (runCallbacks rate ns e).state.1 ∧
      ∀ x ∈ (runCallbacks rate ns e).state.2, x.1 < size := by
  induction ns with
  | nil => exact fun e he => ⟨he, by simp [Engine.runCallbacks, Progress.stay]⟩
  | cons n ns ih =>
    intro e he
    unfold Engine.runCallbacks
    split
    · exact ⟨he, by simp [Progress.fail]⟩
    · rename_i live hlive
      have hn : n < size := hI.length he ▸ (List.getElem?_eq_some_iff.mp hlive).1
      have hcalled : I (e.setState n (F.configure live.state rate).state) :=
        hI.called rate he hlive
      dsimp only
      split
      · exact ⟨hcalled, by simp⟩
      · obtain ⟨hrest, hnodes⟩ := ih _ hcalled
        refine ⟨hrest, fun x hx => ?_⟩
        rcases List.mem_cons.mp hx with rfl | hx
        · exact hn
        · exact hnodes x hx

/-! ## Calls -/

theorem configure {e : Engine F} (he : I e) {config : Config R} {p : Progress R (Engine F)}
    (h : e.configure config = .ok p) : I p.state := by
  unfold Engine.configure at h
  split at h
  · cases h
  · split at h
    · cases h
    · rename_i hvalid
      cases h
      obtain ⟨hran, hnodes⟩ := hI.runCallbacks config.sampleRate e.pending _
        (hI.configured hvalid he)
      exact Progress.andThen_keeps hran fun e he =>
        Progress.each_keeps _ _ (fun x hx e he => Progress.each_keeps _ _
          (fun emission _ e he => hI.applyWith (hI.deliver maxDepth) (hnodes x hx) emission he)
          he) he

theorem send {e : Engine F} (he : I e) {n : NodeId} {inlet : PortId} {msg : Message R}
    {p : Progress R (Engine F)} (h : e.send n inlet msg = .ok p) : I p.state := by
  unfold Engine.send at h
  split at h
  · cases h
  · split at h
    · cases h
    · split at h
      · cases h
      · cases h
        exact hI.deliver _ _ _ _ _ _ he

theorem publish {e : Engine F} (he : I e) {bus : String} {msg : Message R}
    {p : Progress R (Engine F)} (h : e.publish bus msg = .ok p) : I p.state := by
  unfold Engine.publish at h
  split at h
  · cases h
  · cases h
    exact publishWith (hI.deliver _) _ _ _ he

theorem perform {e : Engine F} (he : I e) (call : Call R) : I (e.perform call).state := by
  cases call with
  | configure config => exact unlessRefused_keeps he fun _ h => hI.configure he h
  | send node inlet msg => exact unlessRefused_keeps he fun _ h => hI.send he h
  | publish bus msg => exact unlessRefused_keeps he fun _ h => hI.publish he h
  | _ => exact hI.toSteady.perform he rfl

theorem after {e : Engine F} (he : I e) (calls : List (Call R)) : I (e.after calls) := by
  induction calls generalizing e with
  | nil => exact he
  | cons call calls ih => exact ih (hI.perform he call)

theorem served : ∀ (requests : List (Request R)) {e : Engine F}, I e → I (e.served requests)
  | [], _, he => he
  | .call call :: requests, _, he => served requests (hI.perform he call)
  | .safeBlock node outlet n :: requests, _, he =>
    served requests (hI.toTicking.safeBlock he node outlet n)

end Closed

end Engine

end Patchbay
