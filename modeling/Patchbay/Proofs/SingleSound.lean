import Patchbay.Proofs.MatchSound

/-!
# Routers with one filter

Inlet 1 replaces the filter of such a router. At any time it is the router that would be built with
the filter in force. Routers with one filter each, the misses of one going to the next, do what one
router with all their filters does.
-/

namespace Patchbay

variable {R : Type} [Sample R]

/-! ## One filter and one message -/

def Token.Describes (t : Token R) (msg : Message R) : Prop :=
  ∃ name ∈ Keyword.words, t = .symbol name ∧ t.Passes msg msg

/-- The message leaves a router with this one filter on an outlet: whole where the filter describes
it, without its first token where that is the filter, and else as a miss. -/
inductive Token.Sends (filter : Token R) : Message R → Nat → Message R → Prop
  | whole {msg : Message R} (h : filter.Describes msg) : Sends filter msg 0 msg
  | stripped {first : Token R} {rest out : Message R} (h : ¬ filter.Describes (first :: rest))
    (hequal : first.same filter = true) (hout : rest.GoesOnAs out) :
    Sends filter (first :: rest) 0 out
  | missed {msg : Message R} (h : ¬ filter.Describes msg)
    (hother : ∀ first ∈ msg.head?, first.same filter = false) : Sends filter msg 1 msg

theorem Token.Passes.whole {name : String} (hword : name ∈ Keyword.words) {msg out : Message R}
    (h : (Token.symbol name).Passes msg out) : out = msg := by
  cases h with
  | word hfree _ => exact absurd hword hfree
  | float | symbol | list | bang => rfl

theorem Token.Sends.lt {filter : Token R} {msg out : Message R} {outlet : Nat}
    (h : filter.Sends msg outlet out) : outlet < 2 := by
  cases h <;> decide

namespace RouteFilter

def literal : Token R → RouteFilter R
  | .float v => .float v
  | .symbol name => .symbol name

theorem pass?_literal (t first : Token R) (rest : Message R) : (literal t).pass? (first :: rest) =
    if first.same t then some rest.emptyToBang else none := by
  cases t <;> cases first <;> rfl

theorem pass?_literal_nil (t : Token R) : (literal t).pass? [] = none := by
  cases t <;> rfl

end RouteFilter

namespace Route

theorem passSingle?_of_describes {filter : Token R} {msg : Message R}
    (h : filter.Describes msg) : passSingle? filter msg = some msg := by
  obtain ⟨name, hword, rfl, hpasses⟩ := h
  obtain ⟨k, hk⟩ : ∃ k, Keyword.ofWord? name = some k := by
    refine Option.ne_none_iff_exists'.mp fun hnone => ?_
    exact Keyword.ofWord?_none.mp hnone hword
  simp only [passSingle?, hk, Option.bind_some, (RouteFilter.pass?_keyword hk msg msg).mpr hpasses]

theorem passSingle?_of_not_describes {filter : Token R} {msg : Message R}
    (h : ¬ filter.Describes msg) :
    passSingle? filter msg = (RouteFilter.literal filter).pass? msg := by
  cases filter with
  | float v => rfl
  | symbol name =>
    cases hk : Keyword.ofWord? name with
    | none => simp only [passSingle?, hk, Option.bind_none, RouteFilter.literal]
    | some k =>
      have hword : name ∈ Keyword.words := by
        by_contra hfree
        rw [Keyword.ofWord?_none.mpr hfree] at hk
        cases hk
      have hnone : (RouteFilter.keyword k).pass? msg = none := by
        refine Option.eq_none_iff_forall_ne_some.mpr fun out hout => h ?_
        have hpasses := (RouteFilter.pass?_keyword hk msg out).mp hout
        obtain rfl := hpasses.whole hword
        exact ⟨name, hword, rfl, hpasses⟩
      simp only [passSingle?, hk, Option.bind_some, hnone, RouteFilter.literal]

end Route

/-! ## One filter over a history -/

namespace Route

def replacement? : Stimulus R → Option (Token R)
  | .message inlet msg _ => if inlet = .regular 1 then msg.head? else none
  | .configure _ | .tick .. => none

def inForce (filter : Token R) (history : List (Stimulus R)) : Token R :=
  (history.filterMap replacement?).getLast?.getD filter

omit [Sample R] in
theorem inForce_cons (filter : Token R) (stimulus : Stimulus R) (history : List (Stimulus R)) :
    inForce filter (stimulus :: history) = inForce ((replacement? stimulus).getD filter) history := by
  cases h : replacement? stimulus with
  | none => simp only [inForce, List.filterMap_cons_none h, Option.getD_none]
  | some t => simp only [inForce, List.filterMap_cons_some h, List.getLast?_cons, Option.getD_some]

theorem heed_single (filter : Token R) (stimulus : Stimulus R) :
    (standard R).heed (.route (.single filter)) stimulus =
      .route (.single ((replacement? stimulus).getD filter)) := by
  cases stimulus with
  | configure | tick => rfl
  | message inlet msg rate =>
    simp only [Family.heed, StandardState.message, RouteState.message, replacement?]
    by_cases hinlet : inlet = .regular 1
    · rw [if_pos hinlet, if_pos hinlet]
      cases msg <;> rfl
    · rw [if_neg hinlet, if_neg hinlet]
      split
      · rfl
      · split <;> rfl

theorem after_single (history : List (Stimulus R)) : ∀ filter : Token R,
    (standard R).after (.route (.single filter)) history =
      .route (.single (inForce filter history)) := by
  induction history with
  | nil => exact fun _ => rfl
  | cons stimulus history ih =>
    intro filter
    rw [inForce_cons, ← ih, ← heed_single]
    rfl

theorem passSingle?_sends (filter : Token R) (msg : Message R) :
    (∃ out, passSingle? filter msg = some out ∧ filter.Sends msg 0 out) ∨
      passSingle? filter msg = none ∧ filter.Sends msg 1 msg := by
  by_cases hshape : filter.Describes msg
  · exact Or.inl ⟨msg, passSingle?_of_describes hshape, .whole hshape⟩
  · rw [passSingle?_of_not_describes hshape]
    cases msg with
    | nil => exact Or.inr ⟨RouteFilter.pass?_literal_nil filter, .missed hshape (by simp)⟩
    | cons first rest =>
      rw [RouteFilter.pass?_literal]
      cases hequal : first.same filter with
      | true => exact Or.inl ⟨_, rfl, .stripped hshape hequal (Message.goesOnAs_iff.mpr rfl)⟩
      | false =>
        refine Or.inr ⟨rfl, .missed hshape ?_⟩
        intro first' hfirst
        cases hfirst
        exact hequal

theorem message_single_of_pass {filter : Token R} {msg out : Message R}
    (h : passSingle? filter msg = some out) (rate : R) :
    let s : StandardState R := .route (.single filter)
    s.message (.regular 0) msg rate = .emit s [.send 0 out] := by
  have hne : (PortId.regular 0) ≠ .regular 1 := by decide
  simp [StandardState.message, RouteState.message, hne, h, Handled.map, Handled.emit]

theorem message_single_of_miss {filter : Token R} {msg : Message R}
    (h : passSingle? filter msg = none) (rate : R) :
    let s : StandardState R := .route (.single filter)
    s.message (.regular 0) msg rate = .emit s [.send 1 msg] := by
  have hne : (PortId.regular 0) ≠ .regular 1 := by decide
  simp [StandardState.message, RouteState.message, hne, h, Handled.map, Handled.emit]

theorem message_single (filter : Token R) (msg : Message R) (rate : R) :
    let s : StandardState R := .route (.single filter)
    ∃ outlet out, s.message (.regular 0) msg rate = .emit s [.send outlet out] ∧
      filter.Sends msg outlet out := by
  obtain ⟨out, hpass, hsends⟩ | ⟨hnone, hsends⟩ := passSingle?_sends filter msg
  · exact ⟨0, out, message_single_of_pass hpass rate, hsends⟩
  · exact ⟨1, msg, message_single_of_miss hnone rate, hsends⟩

/-- A router that is built with no filter or with one has two outlets, and one filter in force: the
first token of the last message to inlet 1 that has one, else the one that it was built with, else
zero. It sends every message once, whole, stripped or as a miss, and it is the router that would be
built with the filter in force. -/
theorem acts_as_built_with (given : Option (Token R)) (wired : Wired) :
    ∃ args t d, Standard.route.readArgs given.toList = .ok args ∧
      (Standard.route.build args).ending = .done t ∧
      (Standard.route.declare args wired).ending = .done d ∧
      ∀ history,
        let filter := inForce (given.getD (.float 0)) history
        let s := (standard R).after d.state history
        (∀ msg rate, ∃ outlet out,
          (standard R).message s (.regular 0) msg rate = .emit s [.send outlet out] ∧
          t.outlet? outlet = some (.message outlet) ∧ filter.Sends msg outlet out) ∧
        ∃ args', Standard.route.readArgs [filter] = .ok args' ∧
          (Standard.route.build args').ending = .done t ∧
          ∀ wired', (Standard.route.declare args' wired').ending = .done { d with state := s } := by
  have hargs : Standard.route.readArgs given.toList =
      .ok (.route ⟨[given.getD (.float 0)]⟩) := by
    cases given <;> rfl
  refine ⟨_, topology ⟨[given.getD (.float 0)]⟩, _, hargs, build_argsOf [given.getD (.float 0)],
    rfl, fun history => ?_⟩
  intro filter s
  have hs : s = .route (.single filter) := after_single history _
  refine ⟨fun msg rate => ?_, _, rfl, build_argsOf [filter], fun wired' => ?_⟩
  · obtain ⟨outlet, out, hmessage, hsends⟩ := message_single filter msg rate
    rw [hs]
    exact ⟨outlet, out, hmessage, outlet?_topology _ hsends.lt, hsends⟩
  · rw [hs]
    rfl

/-! ## Routers one behind the other -/

/-- What leaves a row of instances that hand on to inlet 0 of the next one what they send on outlet
1, and the place in the row that it comes from. -/
def relay (rate : R) : List (StandardState R) → Nat → Message R → List (Nat × Emission R)
  | [], _, _ => []
  | [s], place, msg => (s.message (.regular 0) msg rate).emissions.map (place, ·)
  | s :: next :: behind, place, msg =>
    (s.message (.regular 0) msg rate).emissions.flatMap fun
      | .send 1 handed => relay rate (next :: behind) (place + 1) handed
      | em => [(place, em)]

def Builds (filter : Token R) (s : StandardState R) : Prop :=
  ∃ args d, Standard.route.readArgs [filter] = .ok args ∧
    (∀ wired, (Standard.route.declare args wired).ending = .done d) ∧ d.state = s

def row (filters : List (Token R)) : List (StandardState R) :=
  filters.map fun filter => .route (.single filter)

theorem builds_row : ∀ filters : List (Token R), List.Forall₂ Builds filters (row filters)
  | [] => .nil
  | _ :: filters => .cons ⟨_, _, rfl, fun _ => rfl, rfl⟩ (builds_row filters)

theorem relay_of_pass {filter : Token R} {msg out : Message R}
    (h : passSingle? filter msg = some out) (rate : R) (behind : List (StandardState R))
    (place : Nat) :
    relay rate (.route (.single filter) :: behind) place msg = [(place, .send 0 out)] := by
  have hmessage := message_single_of_pass h rate
  cases behind with
  | nil => simp [relay, hmessage, Handled.emit]
  | cons next behind => simp [relay, hmessage, Handled.emit]

theorem relay_of_miss {filter : Token R} {msg : Message R} (h : passSingle? filter msg = none)
    (rate : R) (next : StandardState R) (behind : List (StandardState R)) (place : Nat) :
    relay rate (.route (.single filter) :: next :: behind) place msg =
      relay rate (next :: behind) (place + 1) msg := by
  simp [relay, message_single_of_miss h rate, Handled.emit]

theorem passSingle?_of_free {t : Token R} (h : ∀ name ∈ Keyword.words, t ≠ .symbol name)
    (msg : Message R) : passSingle? t msg = (RouteFilter.ofToken t).pass? msg := by
  cases t with
  | float v => rfl
  | symbol name =>
    have hnone : Keyword.ofWord? name = none :=
      Keyword.ofWord?_none.mpr fun hword => h name hword rfl
    simp only [passSingle?, RouteFilter.ofToken, hnone, Option.bind_none]

theorem passSingle?_none {t : Token R} (h : ∀ name ∈ Keyword.words, t ≠ .symbol name)
    {msg : Message R} (hnot : ∀ out, ¬ t.Passes msg out) : passSingle? t msg = none := by
  rw [passSingle?_of_free h]
  exact Option.eq_none_iff_forall_ne_some.mpr fun out hout =>
    hnot out (RouteFilter.pass?_ofToken.mp hout)

theorem relay_of_firstMatch (rate : R) {msg out : Message R} : ∀ {filters : List (Token R)},
    (∀ t ∈ filters, ∀ name ∈ Keyword.words, t ≠ .symbol name) → ∀ {k : Nat},
    FirstMatch filters msg k out → ∀ place,
    relay rate (row filters) place msg = [(place + k, .send 0 out)]
  | [], _, _, h, _ => absurd h.lt (Nat.not_lt_zero _)
  | t :: filters, hfree, 0, h, place => by
    refine relay_of_pass ?_ rate (row filters) place
    rw [passSingle?_of_free (hfree t (List.mem_cons_self ..))]
    exact RouteFilter.pass?_ofToken.mpr (firstMatch_zero.mp h)
  | [t], _, k + 1, h, _ => absurd (firstMatch_succ.mp h).2.lt (Nat.not_lt_zero _)
  | t :: u :: filters, hfree, k + 1, h, place => by
    obtain ⟨hnot, hlater⟩ := firstMatch_succ.mp h
    have hmiss := passSingle?_none (hfree t (List.mem_cons_self ..)) hnot
    have hrest := relay_of_firstMatch rate (fun t ht => hfree t (List.mem_cons_of_mem _ ht)) hlater
      (place + 1)
    rw [Nat.add_right_comm, Nat.add_assoc] at hrest
    exact (relay_of_miss hmiss rate _ _ place).trans hrest

theorem relay_of_noMatch (rate : R) {msg : Message R} : ∀ {t : Token R} {filters : List (Token R)},
    (∀ u ∈ t :: filters, ∀ name ∈ Keyword.words, u ≠ .symbol name) → NoMatch (t :: filters) msg →
    ∀ place, relay rate (row (t :: filters)) place msg = [(place + filters.length, .send 1 msg)]
  | t, [], hfree, h, place => by
    have hmiss := passSingle?_none (hfree t (List.mem_cons_self ..)) (h t (List.mem_cons_self ..))
    simp [row, relay, message_single_of_miss hmiss rate, Handled.emit]
  | t, u :: filters, hfree, h, place => by
    have hmiss := passSingle?_none (hfree t (List.mem_cons_self ..)) (h t (List.mem_cons_self ..))
    have hrest := relay_of_noMatch rate (fun t ht => hfree t (List.mem_cons_of_mem _ ht))
      (fun t ht => h t (List.mem_cons_of_mem _ ht)) (place + 1)
    rw [Nat.add_right_comm, Nat.add_assoc] at hrest
    exact (relay_of_miss hmiss rate _ _ place).trans hrest

theorem state_message_single (filter : Token R) (msg : Message R) (rate : R) :
    (StandardState.message (.route (.single filter)) (.regular 0) msg rate).state =
      .route (.single filter) := by
  obtain ⟨outlet, out, hmessage, -⟩ := message_single filter msg rate
  rw [hmessage]
  rfl

/-- A router with several filters, none of them a reserved word, and a row of routers with one of
these filters each, the misses of one going to the next: a message leaves the router on the outlet
of a filter if it leaves the row there, and as the same message, and it leaves the router on the last
outlet if it leaves the row as the last miss. Neither changes by it. -/
theorem dispatches_as_row {filters : List (Token R)} (hmany : 2 ≤ filters.length)
    (hfree : ∀ name ∈ Keyword.words, .symbol name ∉ filters) (wired : Wired) :
    ∃ args d row, Standard.route.readArgs filters = .ok args ∧
      (Standard.route.declare args wired).ending = .done d ∧ List.Forall₂ Builds filters row ∧
      (∀ s ∈ row, ∀ msg rate, (s.message (.regular 0) msg rate).state = s) ∧
      ∀ msg rate,
        (∃ k out, k < filters.length ∧
          (standard R).message d.state (.regular 0) msg rate = .emit d.state [.send k out] ∧
          relay rate row 0 msg = [(k, .send 0 out)]) ∨
        (standard R).message d.state (.regular 0) msg rate =
            .emit d.state [.send filters.length msg] ∧
          relay rate row 0 msg = [(filters.length - 1, .send 1 msg)] := by
  obtain ⟨hargs, hstart⟩ := start_many hmany
  have hread : Standard.route.readArgs filters = .ok (.route ⟨filters⟩) := by
    rw [← hargs]
    rfl
  have hdeclare : (Standard.route.declare (.route ⟨filters⟩) wired).ending =
      .done ⟨.route (.many (filters.map RouteFilter.ofToken)), false, []⟩ := by
    rw [← hstart]
    rfl
  have hfree' : ∀ t ∈ filters, ∀ name ∈ Keyword.words, t ≠ .symbol name := by
    rintro t ht name hword rfl
    exact hfree name hword ht
  refine ⟨_, _, row filters, hread, hdeclare, builds_row filters, ?_, fun msg rate => ?_⟩
  · intro s hs
    obtain ⟨filter, -, rfl⟩ := List.mem_map.mp hs
    exact state_message_single filter
  -- the row stops where the first filter passes, and behind its last router if none does
  obtain ⟨outlet, out, hsent, hdispatched⟩ := message_many filters msg rate
  obtain hlt | heq := Nat.lt_succ_iff_lt_or_eq.mp hdispatched.bound
  · have hrelay := relay_of_firstMatch rate hfree' (hdispatched.forwarded hlt) 0
    rw [Nat.zero_add] at hrelay
    exact Or.inl ⟨outlet, out, hlt, hsent, hrelay⟩
  · obtain rfl := hdispatched.whole heq
    have hnone := hdispatched.unmatched.mp heq
    rw [heq] at hsent
    refine Or.inr ⟨hsent, ?_⟩
    cases filters with
    | nil => cases hmany
    | cons t filters =>
      rw [relay_of_noMatch rate hfree' hnone 0, Nat.zero_add]
      rfl

/-- Two filters for the same word, one for what is no number, and the empty message. -/
theorem dispatches_as_row_missed :
    let filters : List (Token Float) := [.symbol "a", .float (0 / 0), .symbol "a"]
    2 ≤ filters.length ∧ (∀ name ∈ Keyword.words, .symbol name ∉ filters) ∧ ∀ wired,
      ∃ args d row, Standard.route.readArgs filters = .ok args ∧
        (Standard.route.declare args wired).ending = .done d ∧ List.Forall₂ Builds filters row ∧
        ∀ rate, (standard Float).message d.state (.regular 0) [] rate =
            .emit d.state [.send 3 []] ∧
          relay rate row 0 [] = [(2, .send 1 [])] := by
  intro filters
  have hmany : 2 ≤ filters.length := by decide
  have hfree : ∀ name ∈ Keyword.words, .symbol name ∉ filters := by
    simp [filters, Keyword.words]
  refine ⟨hmany, hfree, fun wired => ?_⟩
  obtain ⟨args, d, row, hread, hdeclare, hrow, -, hall⟩ := dispatches_as_row hmany hfree wired
  refine ⟨args, d, row, hread, hdeclare, hrow, fun rate => ?_⟩
  obtain ⟨k, out, hk, hsent, -⟩ | hmissed := hall [] rate
  · cases hread
    cases hdeclare
    have hlast : (standard Float).message (.route (.many (filters.map RouteFilter.ofToken)))
        (.regular 0) [] rate = .emit _ [.send 3 []] := rfl
    cases hsent.symm.trans hlast
    exact absurd hk (by decide)
  · exact hmissed

end Route

end Patchbay
