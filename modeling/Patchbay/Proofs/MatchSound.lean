import Patchbay.Proofs.SampleOrder
import Patchbay.Proofs.DropSound

/-!
# First match wins

Which messages pass a filter of a router, and what they are forwarded as. A router with several
filters sends every message once: where the first filter stands that it passes, or on the last
outlet, as it came.
-/

namespace Patchbay

variable {R : Type} [Sample R]

/-! ## What passes a filter -/

omit [Sample R] in
inductive Message.GoesOnAs : Message R → Message R → Prop
  | nothing : GoesOnAs [] .bang
  | rest {t : Token R} {rest : Message R} : GoesOnAs (t :: rest) (t :: rest)

def Keyword.words : List String := ["float", "symbol", "list", "bang"]

/-- The message passes a filter made of the token, and is forwarded as the last message. A number or
a word of no other use is matched against the first token, which is taken off. -/
inductive Token.Passes : Token R → Message R → Message R → Prop
  | number {v w : R} {rest out : Message R} (hequal : (w == v) = true) (hout : rest.GoesOnAs out) :
    Passes (.float v) (.float w :: rest) out
  | word {name : String} {rest out : Message R} (hfree : name ∉ Keyword.words)
    (hout : rest.GoesOnAs out) : Passes (.symbol name) (.symbol name :: rest) out
  | float {w : R} {rest : Message R} :
    Passes (.symbol "float") (.float w :: rest) (.float w :: rest)
  | symbol {name : String} {rest : Message R} :
    Passes (.symbol "symbol") (.symbol name :: rest) (.symbol name :: rest)
  | list {t u : Token R} {rest : Message R} :
    Passes (.symbol "list") (t :: u :: rest) (t :: u :: rest)
  | bang : Passes (.symbol "bang") .bang .bang

omit [Sample R] in
theorem Message.goesOnAs_iff {rest out : Message R} :
    rest.GoesOnAs out ↔ rest.emptyToBang = out := by
  constructor
  · rintro (_ | _) <;> rfl
  · rintro rfl
    cases rest with
    | nil => exact .nothing
    | cons => exact .rest

theorem Keyword.ofWord?_none {name : String} : ofWord? name = none ↔ name ∉ words := by
  unfold ofWord? words
  split <;> simp_all

namespace RouteFilter

theorem pass?_float (v : R) (msg out : Message R) :
    (RouteFilter.float v).pass? msg = some out ↔ (Token.float v).Passes msg out := by
  constructor
  · intro h
    rcases msg with _ | ⟨w | name, rest⟩
    · cases h
    · obtain ⟨hequal, hout⟩ := Option.ite_none_right_eq_some.mp h
      exact .number hequal (Message.goesOnAs_iff.mpr (Option.some.inj hout))
    · cases h
  · intro h
    cases h with
    | number hequal hout =>
      exact Option.ite_none_right_eq_some.mpr
        ⟨hequal, congrArg some (Message.goesOnAs_iff.mp hout)⟩

theorem pass?_symbol {name : String} (hfree : name ∉ Keyword.words) (msg out : Message R) :
    (RouteFilter.symbol name).pass? msg = some out ↔ (Token.symbol name).Passes msg out := by
  constructor
  · intro h
    rcases msg with _ | ⟨w | first, rest⟩
    · cases h
    · cases h
    · obtain ⟨hequal, hout⟩ := Option.ite_none_right_eq_some.mp h
      obtain rfl : first = name := Option.some.inj (beq_iff_eq.mp hequal)
      exact .word hfree (Message.goesOnAs_iff.mpr (Option.some.inj hout))
  · intro h
    cases h with
    | word _ hout =>
      exact Option.ite_none_right_eq_some.mpr
        ⟨beq_self_eq_true _, congrArg some (Message.goesOnAs_iff.mp hout)⟩
    | float | symbol | list | bang => exact absurd (by decide) hfree

theorem pass?_keyword {name : String} {k : Keyword} (hk : Keyword.ofWord? name = some k)
    (msg out : Message R) :
    (RouteFilter.keyword k).pass? msg = some out ↔ (Token.symbol name).Passes msg out := by
  constructor
  · intro h
    obtain ⟨haccepts, hout⟩ := Option.ite_none_right_eq_some.mp h
    obtain rfl := Option.some.inj hout
    unfold Keyword.ofWord? at hk
    split at hk
    all_goals cases hk
    · rcases msg with _ | ⟨w | first, rest⟩
      · cases haccepts
      · exact .float
      · cases haccepts
    · rcases msg with _ | ⟨w | first, rest⟩
      · cases haccepts
      · cases haccepts
      · exact .symbol
    · rcases msg with _ | ⟨t, _ | ⟨u, rest⟩⟩
      · cases haccepts
      · cases haccepts
      · exact .list
    · rw [Message.isBang_iff.mp haccepts]
      exact .bang
  · intro h
    have hshape : k.accepts msg = true ∧ msg = out := by
      cases h with
      | word hfree =>
        rw [Keyword.ofWord?_none.mpr hfree] at hk
        cases hk
      | float =>
        obtain rfl : Keyword.float = k := Option.some.inj hk
        exact ⟨rfl, rfl⟩
      | symbol =>
        obtain rfl : Keyword.symbol = k := Option.some.inj hk
        exact ⟨rfl, rfl⟩
      | list =>
        obtain rfl : Keyword.list = k := Option.some.inj hk
        exact ⟨by simp [Keyword.accepts], rfl⟩
      | bang =>
        obtain rfl : Keyword.bang = k := Option.some.inj hk
        exact ⟨rfl, rfl⟩
    exact Option.ite_none_right_eq_some.mpr ⟨hshape.1, congrArg some hshape.2⟩

theorem pass?_ofToken {t : Token R} {msg out : Message R} :
    (ofToken t).pass? msg = some out ↔ t.Passes msg out := by
  cases t with
  | float v => exact pass?_float v msg out
  | symbol name =>
    cases hk : Keyword.ofWord? name with
    | none =>
      simp only [ofToken, hk]
      exact pass?_symbol (Keyword.ofWord?_none.mp hk) msg out
    | some k =>
      simp only [ofToken, hk]
      exact pass?_keyword hk msg out

end RouteFilter

theorem Token.Passes.determined {t : Token R} {msg out other : Message R} (h : t.Passes msg out)
    (hother : t.Passes msg other) : out = other :=
  Option.some.inj ((RouteFilter.pass?_ofToken.mpr h).symm.trans
    (RouteFilter.pass?_ofToken.mpr hother))

/-! ## The first filter -/

namespace Route

structure FirstMatch (filters : List (Token R)) (msg : Message R) (k : Nat) (out : Message R) :
    Prop where
  passes : ∃ t, filters[k]? = some t ∧ t.Passes msg out
  first : ∀ t ∈ filters.take k, ∀ other, ¬ t.Passes msg other

def NoMatch (filters : List (Token R)) (msg : Message R) : Prop :=
  ∀ t ∈ filters, ∀ out, ¬ t.Passes msg out

structure Dispatches (filters : List (Token R)) (msg : Message R) (outlet : Nat)
    (out : Message R) : Prop where
  bound : outlet < filters.length + 1
  matched : ∀ k < filters.length, outlet = k ↔ ∃ other, FirstMatch filters msg k other
  forwarded : outlet < filters.length → FirstMatch filters msg outlet out
  unmatched : outlet = filters.length ↔ NoMatch filters msg
  whole : outlet = filters.length → out = msg

section
variable {t : Token R} {filters : List (Token R)} {msg out : Message R}

theorem firstMatch_zero : FirstMatch (t :: filters) msg 0 out ↔ t.Passes msg out := by
  constructor
  · rintro ⟨⟨t', ht', hpasses⟩, -⟩
    cases ht'
    exact hpasses
  · exact fun h => ⟨⟨t, rfl, h⟩, by simp⟩

theorem firstMatch_succ {k : Nat} : FirstMatch (t :: filters) msg (k + 1) out ↔
    (∀ other, ¬ t.Passes msg other) ∧ FirstMatch filters msg k out := by
  constructor
  · rintro ⟨hpasses, hfirst⟩
    rw [List.take_succ_cons, List.forall_mem_cons] at hfirst
    exact ⟨hfirst.1, hpasses, hfirst.2⟩
  · rintro ⟨hnot, hpasses, hfirst⟩
    refine ⟨hpasses, ?_⟩
    rw [List.take_succ_cons, List.forall_mem_cons]
    exact ⟨hnot, hfirst⟩

end

theorem FirstMatch.lt {filters : List (Token R)} {msg out : Message R} {k : Nat}
    (h : FirstMatch filters msg k out) : k < filters.length := by
  obtain ⟨t, ht, -⟩ := h.passes
  exact (List.getElem?_eq_some_iff.mp ht).1

theorem FirstMatch.not_noMatch {filters : List (Token R)} {msg out : Message R} {k : Nat}
    (h : FirstMatch filters msg k out) : ¬ NoMatch filters msg := by
  obtain ⟨t, ht, hpasses⟩ := h.passes
  exact fun hnone => hnone t (List.mem_of_getElem? ht) out hpasses

theorem FirstMatch.le {filters : List (Token R)} {msg out other : Message R} {k j : Nat}
    (h : FirstMatch filters msg k out) (hother : FirstMatch filters msg j other) : k ≤ j := by
  by_contra hlt
  obtain ⟨t, ht, hpasses⟩ := hother.passes
  rw [← List.getElem?_take_of_lt (Nat.lt_of_not_le hlt)] at ht
  exact h.first t (List.mem_of_getElem? ht) other hpasses

theorem FirstMatch.determined {filters : List (Token R)} {msg out other : Message R} {k j : Nat}
    (h : FirstMatch filters msg k out) (hother : FirstMatch filters msg j other) :
    k = j ∧ out = other := by
  obtain rfl := Nat.le_antisymm (h.le hother) (hother.le h)
  obtain ⟨t, ht, hpasses⟩ := h.passes
  obtain ⟨t', ht', hpasses'⟩ := hother.passes
  cases ht.symm.trans ht'
  exact ⟨rfl, hpasses.determined hpasses'⟩

theorem FirstMatch.dispatches {filters : List (Token R)} {msg out : Message R} {k : Nat}
    (h : FirstMatch filters msg k out) : Dispatches filters msg k out where
  bound := Nat.lt_succ_of_lt h.lt
  matched _ _ := ⟨fun heq => ⟨out, heq ▸ h⟩, fun ⟨_, hother⟩ => (h.determined hother).1⟩
  forwarded _ := h
  unmatched := ⟨fun heq => absurd heq h.lt.ne, fun hnone => absurd hnone h.not_noMatch⟩
  whole heq := absurd heq h.lt.ne

theorem NoMatch.dispatches {filters : List (Token R)} {msg : Message R}
    (h : NoMatch filters msg) : Dispatches filters msg filters.length msg where
  bound := Nat.lt_succ_self _
  matched _ hk := ⟨fun heq => absurd heq.symm hk.ne, fun ⟨_, hother⟩ => absurd h hother.not_noMatch⟩
  forwarded hlt := absurd hlt (Nat.lt_irrefl _)
  unmatched := ⟨fun _ => h, fun _ => rfl⟩
  whole _ := rfl

end Route

namespace RouteFilter

theorem first?_ofTokens (filters : List (Token R)) (msg : Message R) : ∀ start,
    (∃ k out, first? (filters.map ofToken) start msg = some (start + k, out) ∧
      Route.FirstMatch filters msg k out) ∨
    first? (filters.map ofToken) start msg = none ∧ Route.NoMatch filters msg := by
  induction filters with
  | nil => exact fun _ => Or.inr ⟨rfl, List.forall_mem_nil _⟩
  | cons t filters ih =>
    intro start
    cases hpass : (ofToken t).pass? msg with
    | some out =>
      refine Or.inl ⟨0, out, ?_, Route.firstMatch_zero.mpr (pass?_ofToken.mp hpass)⟩
      simp only [List.map_cons, first?, hpass, Nat.add_zero]
    | none =>
      have hnot : ∀ other, ¬ t.Passes msg other := by
        intro other hother
        rw [pass?_ofToken.mpr hother] at hpass
        cases hpass
      have hrest : first? ((t :: filters).map ofToken) start msg =
          first? (filters.map ofToken) (start + 1) msg := by
        simp only [List.map_cons, first?, hpass]
      rw [hrest]
      rcases ih (start + 1) with ⟨k, out, hfirst, hmatch⟩ | ⟨hnone, hall⟩
      · refine Or.inl ⟨k + 1, out, ?_, Route.firstMatch_succ.mpr ⟨hnot, hmatch⟩⟩
        rw [hfirst, Nat.add_right_comm, Nat.add_assoc]
      · exact Or.inr ⟨hnone, List.forall_mem_cons.mpr ⟨hnot, hall⟩⟩

end RouteFilter

/-! ## Routers with several filters -/

namespace Route

theorem message_many (filters : List (Token R)) (msg : Message R) (rate : R) :
    let s : StandardState R := .route (.many (filters.map RouteFilter.ofToken))
    ∃ outlet out, s.message (.regular 0) msg rate = .emit s [.send outlet out] ∧
      Dispatches filters msg outlet out := by
  intro s
  rcases RouteFilter.first?_ofTokens filters msg 0 with ⟨k, out, hfirst, hmatch⟩ | ⟨hnone, hall⟩
  · refine ⟨k, out, ?_, hmatch.dispatches⟩
    simp [s, StandardState.message, RouteState.message, hfirst, Handled.map, Handled.emit]
  · refine ⟨filters.length, msg, ?_, hall.dispatches⟩
    simp [s, StandardState.message, RouteState.message, hnone, Handled.map, Handled.emit]

/-- Nothing that it is told changes the filters of a router that has several. -/
theorem after_many (filters : List (RouteFilter R)) (history : List (Stimulus R)) :
    (standard R).after (.route (.many filters)) history = .route (.many filters) := by
  let I : StandardState R → Prop := fun s => s = .route (.many filters)
  refine Family.after_keeps (F := standard R) (I := I) ?_ history rfl
  rintro _ stimulus rfl
  cases stimulus with
  | configure | tick => rfl
  | message inlet msg rate =>
    simp only [Family.heed, StandardState.message, RouteState.message]
    split
    · rfl
    · split <;> rfl

theorem start_many {filters : List (Token R)} (hmany : 2 ≤ filters.length) :
    argsOf filters = ⟨filters⟩ ∧ start ⟨filters⟩ = .many (filters.map RouteFilter.ofToken) := by
  rcases filters with _ | ⟨t, _ | ⟨u, rest⟩⟩
  · cases hmany
  · simp at hmany
  · exact ⟨rfl, rfl⟩

end Route

/-! ### Numbers as filters -/

/-- Nothing passes what is no number, and it passes no number. -/
theorem Token.not_passes_nan {x : Float} (hx : x.isNaN = true) :
    (∀ msg out, ¬ (Token.float x).Passes msg out) ∧
      ∀ y rest out, ¬ (Token.float y).Passes (.float x :: rest) out := by
  have hnumbers : ∀ {a b : Float}, (a == b) = true → a.isNaN = false ∧ b.isNaN = false :=
    fun h => numbers_of_compare (beq_iff_eq.mp h)
  constructor
  · rintro msg out (⟨hequal, -⟩)
    rw [(hnumbers hequal).2] at hx
    cases hx
  · rintro y rest out (⟨hequal, -⟩)
    rw [(hnumbers hequal).1] at hx
    cases hx

theorem Token.passes_of_equal {v w : R} (hequal : (w == v) = true) {rest out : Message R} :
    (Token.float v).Passes (.float w :: rest) out ↔ rest.GoesOnAs out := by
  constructor
  · rintro (⟨-, hout⟩)
    exact hout
  · exact .number hequal

/-- A router with several filters never changes, and sends each message once, on an outlet that it
has: that of the first filter which the message passes, as this filter forwards it, or else the last
one, as it came. What is no number matches no number, and the two zeros match each other. -/
theorem Route.sends_at_first_match {filters : List (Token Float)} (hmany : 2 ≤ filters.length)
    (wired : Wired) :
    (∃ args t d, Standard.route.readArgs filters = .ok args ∧
      (Standard.route.build args).ending = .done t ∧
      (Standard.route.declare args wired).ending = .done d ∧
      ∀ history, (standard Float).after d.state history = d.state ∧
        ∀ msg rate, ∃ outlet out,
          (standard Float).message d.state (.regular 0) msg rate =
            .emit d.state [.send outlet out] ∧
          t.outlet? outlet = some (.message outlet) ∧ Dispatches filters msg outlet out) ∧
    (∀ x : Float, x.isNaN = true → (∀ msg out, ¬ (Token.float x).Passes msg out) ∧
      ∀ y rest out, ¬ (Token.float y).Passes (.float x :: rest) out) ∧
    ∀ rest out : Message Float,
      ((Token.float 0).Passes (.float (-0) :: rest) out ↔ rest.GoesOnAs out) ∧
      ((Token.float (-0)).Passes (.float 0 :: rest) out ↔ rest.GoesOnAs out) := by
  refine ⟨?_, fun x => Token.not_passes_nan, fun rest out => ⟨?_, ?_⟩⟩
  · obtain ⟨hargs, hstart⟩ := start_many hmany
    have hread : Standard.route.readArgs filters = .ok (.route ⟨filters⟩) := by
      rw [← hargs]
      rfl
    have hdeclare : (Standard.route.declare (.route ⟨filters⟩) wired).ending =
        .done ⟨.route (.many (filters.map RouteFilter.ofToken)), false, []⟩ := by
      rw [← hstart]
      rfl
    have hbuild : (Standard.route.build (.route ⟨filters⟩)).ending = .done (topology ⟨filters⟩) :=
      hargs ▸ build_argsOf filters
    refine ⟨_, _, _, hread, hbuild, hdeclare, fun history => ?_⟩
    refine ⟨after_many _ history, fun msg rate => ?_⟩
    obtain ⟨outlet, out, hsent, hdispatched⟩ := message_many filters msg rate
    exact ⟨outlet, out, hsent, outlet?_topology _ hdispatched.bound, hdispatched⟩
  · exact Token.passes_of_equal (by decide +kernel)
  · exact Token.passes_of_equal (by decide +kernel)

/-- The negative zero passes a filter for zero, which stands before one for any number. -/
theorem Route.sends_at_first_match_zero :
    let filters : List (Token Float) := [.symbol "bang", .float 0, .symbol "float"]
    2 ≤ filters.length ∧ ∀ wired, ∃ args d, Standard.route.readArgs filters = .ok args ∧
      (Standard.route.declare args wired).ending = .done d ∧ ∀ history rate,
        let s := (standard Float).after d.state history
        (standard Float).message s (.regular 0) [.float (-0)] rate = .emit s [.send 1 .bang] := by
  intro filters
  have hmany : 2 ≤ filters.length := by decide
  refine ⟨hmany, fun wired => ?_⟩
  obtain ⟨⟨args, t, d, hread, -, hdeclare, hall⟩, -, hzeros⟩ := sends_at_first_match hmany wired
  refine ⟨args, d, hread, hdeclare, fun history rate => ?_⟩
  obtain ⟨hstate, hsends⟩ := hall history
  have hmatch : FirstMatch filters [.float (-0)] 1 .bang := by
    refine firstMatch_succ.mpr ⟨?_, firstMatch_zero.mpr ((hzeros [] .bang).1.mpr .nothing)⟩
    intro other hother
    cases RouteFilter.pass?_ofToken.mpr hother
  obtain ⟨outlet, out, hsent, -, hdispatched⟩ := hsends [.float (-0)] rate
  obtain rfl := (hdispatched.matched 1 (by decide)).mpr ⟨_, hmatch⟩
  obtain ⟨-, rfl⟩ := hmatch.determined (hdispatched.forwarded (by decide))
  rw [hstate]
  exact hsent

end Patchbay
