import Patchbay.Bench.History
import Patchbay.Proofs.BenchSound
import Patchbay.Proofs.DropSound
import Patchbay.Proofs.LifecycleSound

/-!
# Draining loses nothing

What was taken from an outlet and what still waits there make up what was sent on it, on an engine
since somebody began to listen and on a bench from the start. It does not matter when it is taken,
nor what is taken from other outlets in between.
-/

namespace Patchbay

variable {R : Type} {F : Family R}

/-! ## Accounts -/

/-- If whatever a request hands out was held before or has just come in, so it is for any number of
requests. -/
theorem yields_balanced {σ ρ α : Type} (next : σ → ρ → σ) (held : σ → List α)
    {out into : σ → ρ → List α} {I : σ → Prop}
    (hstep : ∀ s r, I s → I (next s r) ∧ out s r ++ held (next s r) = held s ++ into s r) :
    ∀ (rs : List ρ) (s : σ), I s → I (rs.foldl next s) ∧
      yields next out s rs ++ held (rs.foldl next s) = held s ++ yields next into s rs
  | [], s, hs => ⟨hs, by simp [yields]⟩
  | r :: rs, s, hs => by
    obtain ⟨hnext, hone⟩ := hstep s r hs
    obtain ⟨hlast, hrest⟩ := yields_balanced next held hstep rs (next s r) hnext
    refine ⟨hlast, ?_⟩
    calc (out s r ++ yields next out (next s r) rs) ++ held (rs.foldl next (next s r))
        = out s r ++ (held (next s r) ++ yields next into (next s r) rs) := by
          rw [List.append_assoc, hrest]
      _ = (held s ++ into s r) ++ yields next into (next s r) rs := by
          rw [← List.append_assoc, hone]
      _ = held s ++ (into s r ++ yields next into (next s r) rs) := List.append_assoc ..

theorem yields_append {σ ρ α : Type} (next : σ → ρ → σ) (yield : σ → ρ → List α) (later : List ρ) :
    ∀ (before : List ρ) (s : σ), yields next yield s (before ++ later) =
      yields next yield s before ++ yields next yield (before.foldl next s) later
  | [], _ => rfl
  | r :: before, s => by
    show yield s r ++ yields next yield (next s r) (before ++ later) = _
    rw [yields_append next yield later before, ← List.append_assoc]
    rfl

/-! ## Engines -/

namespace Engine

variable [Sample R]

def sentThrough (o : Outlet) : Engine F → List (Request R) → List (Message R) :=
  yields next fun e r => sentOn o (e.serve r).events

theorem ticking_captured (captured : Std.TreeMap Outlet (List (Message R))) :
    Ticking fun e : Engine F => e.captured = captured where
  ticked {e} rate n h := by
    rcases tickNode_cases rate n e with heq | ⟨_, _, _, _, _, _, _, heq⟩
    · rwa [heq]
    · rw [heq]
      exact h

theorem Ticking.perform {I : Engine F → Prop} (hI : Ticking I) {e : Engine F} (he : I e)
    {call : Call R} (hcall : ticksNodes call = true) : I (e.perform call).state := by
  cases call with
  | tick => exact unlessRefused_keeps he fun _ h => hI.tick he h
  | block node outlet n => exact unlessRefused_keeps he fun _ h => hI.processBlock he h
  | render node outlet frames => exact unlessRefused_keeps he fun _ h => hI.render he h
  | configure | send | publish | listen | take => cases hcall

theorem captured_safeBlock (e : Engine F) (o : Outlet) (node : NodeId) (outlet n : Nat) :
    (e.next (.safeBlock node outlet n)).captured = e.captured ∧
      sentOn o (e.serve (.safeBlock node outlet n)).events = [] := by
  refine ⟨(ticking_captured e.captured).safeBlock rfl node outlet n, ?_⟩
  simp only [serve, processBlockSafe]
  cases e.processBlock node outlet n with
  | error err => rfl
  | ok b =>
    simp only [Except.map, unlessRefused]
    split <;> rfl

/-- What comes of a request for a listener: it begins to listen, it hands out all it has, or it
keeps what is sent. -/
theorem serve_cases (o : Outlet) (e : Engine F) (r : Request R) :
    (r = .call (.listen o.node o.index) ∧ sentOn o (e.serve r).events = [] ∧
      handsOut o e r = [] ∧ (e.next r).captured[o]? = some (e.captured[o]?.getD [])) ∨
    (sentOn o (e.serve r).events = [] ∧ handsOut o e r = e.captured[o]?.getD [] ∧
      (e.next r).captured[o]? = e.captured[o]?.map fun _ => []) ∨
    (handsOut o e r = [] ∧
      (e.next r).captured[o]? = e.captured[o]?.map (· ++ sentOn o (e.serve r).events)) := by
  have hquiet : (e.next r).captured = e.captured → sentOn o (e.serve r).events = [] →
      (e.next r).captured[o]? = e.captured[o]?.map (· ++ sentOn o (e.serve r).events) := by
    intro hsame hnone
    simp [hsame, hnone]
  have hsilent : ∀ {call : Call R}, call.isSilent = true →
      sentOn o (e.serve (.call call)).events = [] := fun h => by
    rw [serve, events_of_silent e h, sentOn_nil]
  have hticking := ticking_captured (F := F) e.captured
  cases r with
  | safeBlock node outlet n =>
    obtain ⟨hsame, hnone⟩ := e.captured_safeBlock o node outlet n
    exact Or.inr (Or.inr ⟨rfl, hquiet hsame hnone⟩)
  | call call =>
    cases call with
    | configure | send | publish =>
      exact Or.inr (Or.inr ⟨rfl, captured_sent rfl o (e.opening_leads _)⟩)
    | tick | block | render =>
      exact Or.inr (Or.inr ⟨rfl, hquiet (hticking.perform rfl rfl) (hsilent rfl)⟩)
    | listen node outlet =>
      by_cases ho : (⟨node, outlet⟩ : Outlet) = o
      · subst ho
        refine Or.inl ⟨rfl, rfl, rfl, ?_⟩
        show (e.listen node outlet).captured[_]? = _
        rw [listen_captured, if_pos rfl]
      · refine Or.inr (Or.inr ⟨rfl, ?_⟩)
        show (e.listen node outlet).captured[o]? = _
        rw [listen_captured, if_neg ho, hsilent rfl]
        simp
    | take node outlet =>
      have hgives : handsOut o e (.call (.take node outlet)) =
          if ⟨node, outlet⟩ = o then (e.take node outlet).1 else [] := rfl
      have hleaves : (e.next (.call (.take node outlet))).captured[o]? =
          if ⟨node, outlet⟩ = o then e.captured[o]?.map fun _ => [] else e.captured[o]? :=
        take_captured ..
      by_cases ho : (⟨node, outlet⟩ : Outlet) = o
      · rw [if_pos ho] at hgives hleaves
        subst ho
        exact Or.inr (Or.inl ⟨rfl, hgives.trans (e.take_fst node outlet), hleaves⟩)
      · rw [if_neg ho] at hgives hleaves
        refine Or.inr (Or.inr ⟨hgives, ?_⟩)
        rw [hleaves, hsilent rfl]
        simp

theorem serve_balanced (o : Outlet) (e : Engine F) (r : Request R)
    (h : e.captured[o]?.isSome = true) : (e.next r).captured[o]?.isSome = true ∧
      handsOut o e r ++ (e.next r).captured[o]?.getD [] =
        e.captured[o]?.getD [] ++ sentOn o (e.serve r).events := by
  obtain ⟨held, hheld⟩ := Option.isSome_iff_exists.mp h
  rcases e.serve_cases o r with ⟨-, hsent, hout, hnext⟩ | ⟨hsent, hout, hnext⟩ | ⟨hout, hnext⟩
  · simp [hsent, hout, hnext]
  · simp [hsent, hout, hnext, hheld]
  · simp [hout, hnext, hheld]

theorem serve_unheard {o : Outlet} {e : Engine F} {r : Request R} (h : e.captured[o]? = none)
    (hr : r ≠ .call (.listen o.node o.index)) :
    (e.next r).captured[o]? = none ∧ handsOut o e r = [] := by
  rcases e.serve_cases o r with ⟨hlisten, -⟩ | ⟨-, hout, hnext⟩ | ⟨hout, hnext⟩
  · exact absurd hlisten hr
  · simp [hout, hnext, h]
  · simp [hout, hnext, h]

theorem unheard {o : Outlet} : ∀ {requests : List (Request R)} {e : Engine F},
    e.captured[o]? = none → .call (.listen o.node o.index) ∉ requests →
      (e.served requests).captured[o]? = none ∧ taken o e requests = []
  | [], _, h, _ => ⟨h, rfl⟩
  | r :: requests, e, h, hnot => by
    obtain ⟨hr, hnot⟩ := List.ne_and_not_mem_of_not_mem_cons hnot
    obtain ⟨hnext, hout⟩ := serve_unheard h (Ne.symm hr)
    obtain ⟨hlast, hrest⟩ := unheard hnext hnot
    refine ⟨hlast, ?_⟩
    show handsOut o e r ++ taken o (e.next r) requests = []
    rw [hout, hrest, List.append_nil]

/-- From the first request to listen on: it starts with nothing. -/
theorem heard {o : Outlet} {e : Engine F} (h : e.captured[o]? = none) (after : List (Request R)) :
    let since : List (Request R) := .call (.listen o.node o.index) :: after
    ∃ waiting, (e.served since).captured[o]? = some waiting ∧
      taken o e since ++ waiting = sentThrough o e since := by
  intro since
  have hlisten : (e.next (.call (.listen o.node o.index))).captured[o]? = some [] := by
    show (e.listen o.node o.index).captured[o]? = _
    rw [listen_captured, if_pos rfl, h]
    rfl
  obtain ⟨hlast, hall⟩ := yields_balanced next (fun e => e.captured[o]?.getD [])
    (serve_balanced o) after (e.next (.call (.listen o.node o.index))) (by rw [hlisten]; rfl)
  obtain ⟨waiting, hwaiting⟩ := Option.isSome_iff_exists.mp hlast
  rw [hlisten, hwaiting] at hall
  exact ⟨waiting, hwaiting, hall⟩

theorem captured_link {s : Schedule} {p : Patch F} {buses : Buses} {fresh : Engine F}
    (h : (link s p buses).ending = .done fresh) (o : Outlet) : fresh.captured[o]? = none := by
  obtain ⟨_, _, _, rfl⟩ := link_done h
  exact Std.TreeMap.getElem?_emptyc

end Engine

/-! ## Benches -/

def Declared.opening (d : Declared F.State) (sampleRate : R) : List (Stimulus R) :=
  if d.wantsConfigure then [.configure sampleRate] else []

def Response.sends : Response R → List (Nat × Message R)
  | handled emissions _ none => emissions.filterMap Emission.send?
  | handled _ _ (some _) | ticked .. => []

def Family.sends (F : Family R) (s : F.State) (stimuli : List (Stimulus R)) :
    List (Nat × Message R) :=
  (F.responses s stimuli).flatMap Response.sends

def onOutlet (outlet : Nat) (sent : List (Nat × Message R)) : List (Message R) :=
  (sent.filter (·.1 == outlet)).map (·.2)

theorem onOutlet_append (outlet : Nat) (sent later : List (Nat × Message R)) :
    onOutlet outlet (sent ++ later) = onOutlet outlet sent ++ onOutlet outlet later := by
  rw [onOutlet, List.filter_append, List.map_append]
  rfl

theorem onOutlet_filter_ne (outlet taken : Nat) (sent : List (Nat × Message R)) :
    onOutlet outlet (sent.filter (·.1 != taken)) =
      if taken = outlet then [] else onOutlet outlet sent := by
  rw [onOutlet, List.filter_filter]
  by_cases ho : taken = outlet
  · subst ho
    simp
  · rw [if_neg ho, onOutlet]
    congr 1
    refine List.filter_congr fun x _ => ?_
    by_cases hx : x.1 = outlet
    · simp [hx, Ne.symm ho]
    · simp [hx]

theorem Family.sends_append (s : F.State) (before later : List (Stimulus R)) :
    F.sends s (before ++ later) = F.sends s before ++ F.sends (F.after s before) later := by
  rw [sends, responses_append, List.flatMap_append]
  rfl

theorem Family.sends_cons (s : F.State) (stimulus : Stimulus R) (later : List (Stimulus R)) :
    F.sends s (stimulus :: later) =
      (F.respond s stimulus).sends ++ F.sends (F.heed s stimulus) later := rfl

namespace Bench

theorem sent_foldl : ∀ (ems : List (Emission R)) (b : Bench F),
    (ems.foldl apply b).sent = b.sent ++ ems.filterMap Emission.send?
  | [], b => (List.append_nil _).symm
  | em :: ems, b => by
    have hone : (b.apply em).sent = b.sent ++ em.send?.toList := by
      cases em with
      | send | publish | unsubscribe => simp [apply, Emission.send?]
      | subscribe bus inlet =>
        by_cases h : (bus, inlet) ∈ b.subscriptions <;> simp [apply, h, Emission.send?]
    rw [List.foldl_cons, sent_foldl ems, hone, filterMap_cons, List.append_assoc]

structure Heeds (b : Bench F) (stimuli : List (Stimulus R)) (b' : Bench F) : Prop where
  state : b'.state = F.after b.state stimuli
  sent : b'.sent = b.sent ++ F.sends b.state stimuli
  sampleRate : b'.sampleRate = b.sampleRate

theorem heeds_absorb (b : Bench F) (h : Handled R F.State) {stimulus : Stimulus R}
    (hstate : h.state = F.heed b.state stimulus)
    (hrespond : F.respond b.state stimulus = .handled h.emissions h.notices h.fault) :
    b.Heeds [stimulus] (b.absorb h).state := by
  have hsends : F.sends b.state [stimulus] =
      (Response.handled h.emissions h.notices h.fault).sends := by
    rw [Family.sends_cons, hrespond]
    exact List.append_nil _
  unfold absorb
  cases hfault : h.fault with
  | some f =>
    refine ⟨hstate, ?_, rfl⟩
    rw [hsends, hfault]
    exact (List.append_nil _).symm
  | none =>
    obtain ⟨hsame, -, hrate⟩ := foldl_frame h.emissions { b with state := h.state }
    refine ⟨hsame.trans hstate, ?_, hrate⟩
    rw [hsends, hfault]
    exact sent_foldl _ _

theorem heeds_send (b : Bench F) (inlet : PortId) (msg : Message R) :
    b.Heeds [.message inlet msg b.sampleRate] (b.send inlet msg).state :=
  b.heeds_absorb _ rfl rfl

theorem Heeds.cons {b b' b'' : Bench F} {stimulus : Stimulus R} {stimuli : List (Stimulus R)}
    (h : b.Heeds [stimulus] b') (h' : b'.Heeds stimuli b'') :
    b.Heeds (stimulus :: stimuli) b'' := by
  have hstate : b'.state = F.heed b.state stimulus := h.state
  refine ⟨?_, ?_, h'.sampleRate.trans h.sampleRate⟩
  · rw [h'.state, hstate]
    rfl
  · have hall : F.sends b.state (stimulus :: stimuli) =
        F.sends b.state [stimulus] ++ F.sends b'.state stimuli := by
      rw [← List.singleton_append, Family.sends_append, h.state]
    rw [h'.sent, h.sent, hall, List.append_assoc]

theorem heeds_publish (msg : Message R) : ∀ (inlets : List PortId) (b : Bench F),
    b.Heeds (F.untilFault b.state (inlets.map fun inlet => .message inlet msg b.sampleRate))
      (Progress.each (fun inlet b => b.send inlet msg) inlets b).state
  | [], b => ⟨rfl, (List.append_nil _).symm, rfl⟩
  | inlet :: inlets, b => by
    have hone := b.heeds_send inlet msg
    have hfault : (b.send inlet msg).fault =
        (F.respond b.state (.message inlet msg b.sampleRate)).fault := rfl
    simp only [Progress.each, Progress.andThen, List.map_cons, Family.untilFault, hfault]
    cases (F.respond b.state (.message inlet msg b.sampleRate)).fault with
    | some f => exact hone
    | none =>
      have hrest := heeds_publish msg inlets (b.send inlet msg).state
      rw [hone.sampleRate, hone.state] at hrest
      exact hone.cons hrest

section
variable [Sample R]

/-- Only to take from an outlet changes what the bench keeps of what its node sent. -/
theorem next_cases (b : Bench F) (r : BenchRequest R) : (∃ outlet, r = .take outlet) ∨
    b.Heeds (b.stimuli r) (b.next r) ∧ ∀ outlet, handsOut outlet b r = [] := by
  cases r with
  | send inlet msg => exact Or.inr ⟨b.heeds_send inlet msg, fun _ => rfl⟩
  | publish bus msg =>
    have h := heeds_publish msg ((b.subscriptions.filter (·.1 == bus)).map (·.2)) b
    rw [List.map_map] at h
    exact Or.inr ⟨h, fun _ => rfl⟩
  | tick | takePublished => exact Or.inr ⟨⟨rfl, (List.append_nil _).symm, rfl⟩, fun _ => rfl⟩
  | take outlet => exact Or.inl ⟨outlet, rfl⟩

theorem state_next (b : Bench F) (r : BenchRequest R) :
    (b.next r).state = F.after b.state (b.stimuli r) := by
  rcases b.next_cases r with ⟨_, rfl⟩ | ⟨h, -⟩
  · rfl
  · exact h.state

theorem next_balanced (outlet : Nat) (b : Bench F) (r : BenchRequest R) :
    handsOut outlet b r ++ onOutlet outlet (b.next r).sent =
      onOutlet outlet b.sent ++ onOutlet outlet (F.sends b.state (b.stimuli r)) := by
  rcases b.next_cases r with ⟨taken, rfl⟩ | ⟨h, hnone⟩
  · have hgives : handsOut outlet b (.take taken) =
        if taken = outlet then onOutlet taken b.sent else [] := rfl
    have hleaves : onOutlet outlet (b.next (.take taken)).sent =
        if taken = outlet then [] else onOutlet outlet b.sent := onOutlet_filter_ne ..
    have hnothing : onOutlet outlet (F.sends b.state (b.stimuli (.take taken))) = [] := rfl
    rw [hgives, hleaves, hnothing, List.append_nil]
    by_cases ho : taken = outlet
    · rw [if_pos ho, if_pos ho, ho, List.append_nil]
    · rw [if_neg ho, if_neg ho, List.nil_append]
  · rw [hnone, h.sent, onOutlet_append, List.nil_append]

theorem state_served : ∀ (requests : List (BenchRequest R)) (b : Bench F),
    (b.served requests).state = F.after b.state (b.given requests)
  | [], _ => rfl
  | r :: requests, b => by
    show ((b.next r).served requests).state =
      F.after b.state (b.stimuli r ++ (b.next r).given requests)
    rw [state_served requests, state_next]
    exact List.foldl_append.symm

theorem sends_given (outlet : Nat) : ∀ (requests : List (BenchRequest R)) (b : Bench F),
    onOutlet outlet (F.sends b.state (b.given requests)) =
      yields next (fun b r => onOutlet outlet (F.sends b.state (b.stimuli r))) b requests
  | [], _ => rfl
  | r :: requests, b => by
    show onOutlet outlet (F.sends b.state (b.stimuli r ++ (b.next r).given requests)) = _ ++ _
    rw [Family.sends_append, onOutlet_append, ← state_next, sends_given outlet requests]

theorem served_balanced (outlet : Nat) (b : Bench F) (requests : List (BenchRequest R)) :
    taken outlet b requests ++ onOutlet outlet (b.served requests).sent =
      onOutlet outlet b.sent ++ onOutlet outlet (F.sends b.state (b.given requests)) := by
  obtain ⟨-, hall⟩ := yields_balanced (I := fun _ => True) next (fun b => onOutlet outlet b.sent)
    (fun b r _ => ⟨trivial, next_balanced outlet b r⟩) requests b trivial
  rw [sends_given]
  exact hall

end

/-! ### From the start -/

/-- A fresh bench has what its node was declared as, after the callback if there is one. -/
theorem start_heeds {type : NodeType F} {raw : List (Token R)} {inlets : List Nat} {c : Config R}
    {b : Bench F} (h : (start type raw inlets c).ending = .done b) :
    ∃ args d, type.readArgs raw = .ok args ∧
      (type.declare args (.ofInlets inlets)).ending = .done d ∧
      b.state = F.after d.state (d.opening c.sampleRate) ∧
      b.sent = F.sends d.state (d.opening c.sampleRate) := by
  simp only [start, Traced.bind_done] at h
  obtain ⟨args, hargs, topology, _, d, hd, hstart⟩ := h
  refine ⟨args, d, Traced.ofExcept_done.mp hargs, hd, ?_⟩
  unfold Declared.opening
  cases hwants : d.wantsConfigure with
  | false =>
    rw [hwants] at hstart
    cases hstart
    exact ⟨rfl, rfl⟩
  | true =>
    rw [hwants] at hstart
    have hheeds : Heeds _ [.configure c.sampleRate] _ :=
      heeds_absorb ⟨d.state, topology, c.sampleRate, [], [], d.subscriptions⟩
        (F.configure d.state c.sampleRate) rfl rfl
    simp only [if_true] at hstart ⊢
    split at hstart
    · cases hstart
    · cases hstart
      exact ⟨hheeds.state, hheeds.sent⟩

end Bench

/-- On an engine, nothing is captured at an outlet until the first request to listen there, and from
then on what was taken from it and what waits make up what its node sent on it, in order. On a bench
it is so from the start: its node is what it becomes of the stimuli that it was given, and all that
it sent on an outlet was taken from there or is still to be taken. -/
theorem draining_loses_nothing [Sample R] (F : Family R) :
    (∀ (s : Schedule) (p : Patch F) (buses : Buses) (fresh : Engine F),
      (Engine.link s p buses).ending = .done fresh →
      ∀ (o : Outlet) (before : List (Request R)), .call (.listen o.node o.index) ∉ before →
        ((fresh.served before).captured[o]? = none ∧ Engine.taken o fresh before = []) ∧
        ∀ after : List (Request R),
          let since := .call (.listen o.node o.index) :: after
          ∃ waiting, (fresh.served (before ++ since)).captured[o]? = some waiting ∧
            Engine.taken o fresh (before ++ since) ++ waiting =
              Engine.sentThrough o (fresh.served before) since) ∧
    ∀ (type : NodeType F) (raw : List (Token R)) (inlets : List Nat) (c : Config R) (b : Bench F),
      (Bench.start type raw inlets c).ending = .done b →
      ∃ args d, type.readArgs raw = .ok args ∧
        (type.declare args (.ofInlets inlets)).ending = .done d ∧
        ∀ requests : List (BenchRequest R),
          let stimuli := d.opening c.sampleRate ++ b.given requests
          (b.served requests).state = F.after d.state stimuli ∧
          ∀ outlet, Bench.taken outlet b requests ++ onOutlet outlet (b.served requests).sent =
            onOutlet outlet (F.sends d.state stimuli) := by
  refine ⟨fun s p buses fresh hfresh o before hnot => ?_, fun type raw inlets c b hb => ?_⟩
  · obtain ⟨hnone, hnothing⟩ := Engine.unheard (Engine.captured_link hfresh o) hnot
    refine ⟨⟨hnone, hnothing⟩, fun after => ?_⟩
    intro since
    obtain ⟨waiting, hwaiting, hall⟩ := Engine.heard hnone after
    have hserved : fresh.served (before ++ since) = (fresh.served before).served since :=
      List.foldl_append
    have htaken : Engine.taken o fresh (before ++ since) =
        Engine.taken o (fresh.served before) since := by
      refine (yields_append ..).trans ?_
      rw [show yields _ _ fresh before = [] from hnothing]
      rfl
    exact ⟨waiting, hserved ▸ hwaiting, htaken ▸ hall⟩
  · obtain ⟨args, d, hargs, hd, hstate, hsent⟩ := Bench.start_heeds hb
    refine ⟨args, d, hargs, hd, fun requests => ⟨?_, fun outlet => ?_⟩⟩
    · rw [Bench.state_served, hstate]
      exact List.foldl_append.symm
    · rw [Bench.served_balanced, Family.sends_append, onOutlet_append, hsent, hstate]

/-- A list box that is drained between two messages, and a router that is drained at one outlet. -/
theorem draining_loses_nothing_midway :
    let edits : List (Edit (standard Float)) := [.add "listbox" []]
    let c : Config Float := ⟨44100, 64, 1⟩
    let box : Outlet := ⟨0, 0⟩
    let before : List (Request Float) := [.call (.configure c)]
    let after : List (Request Float) := [.call (.send 0 (.regular 0) [.symbol "a"]),
      .call (.take 0 0), .call (.send 0 (.regular 0) [.symbol "b"])]
    let run := before ++ .call (.listen 0 0) :: after
    let raw : List (Token Float) := [.symbol "a", .symbol "b"]
    let requests : List (BenchRequest Float) := [.send (.regular 0) [.symbol "a", .symbol "x"],
      .send (.regular 0) [.symbol "y"], .take 2]
    ∃ s fresh b, (Schedule.compile (Patch.built edits)).ending = .done s ∧
      (Engine.link s (Patch.built edits) .empty).ending = .done fresh ∧
      .call (.listen box.node box.index) ∉ before ∧
      (Bench.start Standard.route raw [] c).ending = .done b ∧
      Engine.taken box fresh run ++ ((fresh.served run).captured[box]?).getD [] =
        [[.symbol "a"], [.symbol "b"]] ∧
      Bench.taken 0 b requests ++ onOutlet 0 (b.served requests).sent = [[.symbol "x"]] ∧
      Bench.taken 2 b requests ++ onOutlet 2 (b.served requests).sent = [[.symbol "y"]] := by
  intro edits c box before after run raw requests
  have hedits : ∀ edit ∈ edits, edit.fromCatalog = true := by simp [edits, Edit.fromCatalog]
  obtain ⟨s, fresh, hs, hfresh⟩ := Engine.link_built hedits
  have hnot : .call (.listen box.node box.index) ∉ before := by simp [before]
  obtain ⟨b, hb⟩ : ∃ b, (Bench.start Standard.route raw [] c).ending = .done b := ⟨_, rfl⟩
  obtain ⟨hengine, hbench⟩ := draining_loses_nothing (standard Float)
  obtain ⟨waiting, hwaiting, hheard⟩ := (hengine s _ _ fresh hfresh box before hnot).2 after
  obtain ⟨args, d, hargs, hd, hall⟩ := hbench Standard.route raw [] c b hb
  have hsent : Engine.sentThrough box (fresh.served before) (.call (.listen 0 0) :: after) =
      [[.symbol "a"], [.symbol "b"]] := by
    obtain rfl := Ending.done.inj (hs.symm.trans (rfl : _ = Ending.done _))
    obtain rfl := Ending.done.inj (hfresh.symm.trans (rfl : _ = Ending.done _))
    decide +kernel
  let sent := (standard Float).sends d.state (d.opening c.sampleRate ++ b.given requests)
  have hrouted : onOutlet 0 sent = [[.symbol "x"]] ∧ onOutlet 2 sent = [[.symbol "y"]] := by
    obtain rfl := Except.ok.inj (hargs.symm.trans (rfl : _ = Except.ok _))
    obtain rfl := Ending.done.inj (hd.symm.trans (rfl : _ = Ending.done _))
    obtain rfl := Ending.done.inj (hb.symm.trans (rfl : _ = Ending.done _))
    exact ⟨by decide +kernel, by decide +kernel⟩
  refine ⟨s, fresh, b, hs, hfresh, hnot, hb, ?_, ?_, ?_⟩
  · rw [hwaiting]
    exact hheard.trans hsent
  · exact ((hall requests).2 0).trans hrouted.1
  · exact ((hall requests).2 2).trans hrouted.2

end Patchbay
