import Patchbay.Json.Text
import Patchbay.Proofs.LexemeSound

/-!
# JSON values read back

The plain library keeps to the laws. A value is written as a list of lexemes. They can be told apart
in the text, and the value is the only one that they spell.
-/

namespace Patchbay.Json.Value

open Lexeme (Reads Written chars)

/-! ## Lexemes of a value -/

theorem itemLexemes_cons (v w : Value) (vs : List Value) :
    itemLexemes (v :: w :: vs) = v.lexemes ++ .comma :: itemLexemes (w :: vs) := by
  rw [itemLexemes]
  exact List.cons_ne_nil w vs

theorem entryLexemes_cons (k : Option (List Char)) (v : Value) (e : Option (List Char) × Value)
    (es : List (Option (List Char) × Value)) : entryLexemes ((k, v) :: e :: es) =
      .text k :: .colon :: (v.lexemes ++ .comma :: entryLexemes (e :: es)) := by
  rw [entryLexemes]
  · rfl
  · exact List.cons_ne_nil e es

def Spelled (v : Value) : Prop := ∀ l ∈ v.lexemes, l.Written

theorem Spelled.array {vs : List Value} (hvs : ∀ v ∈ vs, v.Spelled) : (array vs).Spelled := by
  have hitems : ∀ l ∈ itemLexemes vs, l.Written := by
    induction vs with
    | nil => exact fun _ hl => absurd hl List.not_mem_nil
    | cons v vs ih =>
      obtain ⟨hv, hvs⟩ := List.forall_mem_cons.mp hvs
      cases vs with
      | nil => exact hv
      | cons w vs =>
        rw [itemLexemes_cons]
        exact List.forall_mem_append.mpr ⟨hv, List.forall_mem_cons.mpr ⟨trivial, ih hvs⟩⟩
  have hclose : ∀ l ∈ [Lexeme.closeArray], l.Written := List.forall_mem_singleton.mpr trivial
  exact List.forall_mem_cons.mpr ⟨trivial, List.forall_mem_append.mpr ⟨hitems, hclose⟩⟩

theorem Spelled.object {es : List (Option (List Char) × Value)}
    (hes : ∀ e ∈ es, e.1.isSome = true ∧ e.2.Spelled) : (object es).Spelled := by
  have hentries : ∀ l ∈ entryLexemes es, l.Written := by
    induction es with
    | nil => exact fun _ hl => absurd hl List.not_mem_nil
    | cons e es ih =>
      obtain ⟨⟨hk, hv⟩, hes⟩ := List.forall_mem_cons.mp hes
      cases es with
      | nil => exact List.forall_mem_cons.mpr ⟨hk, List.forall_mem_cons.mpr ⟨trivial, hv⟩⟩
      | cons e' es =>
        rw [entryLexemes_cons, List.forall_mem_cons, List.forall_mem_cons, List.forall_mem_append,
          List.forall_mem_cons]
        exact ⟨hk, trivial, hv, trivial, ih hes⟩
  have hclose : ∀ l ∈ [Lexeme.closeObject], l.Written := List.forall_mem_singleton.mpr trivial
  exact List.forall_mem_cons.mpr ⟨trivial, List.forall_mem_append.mpr ⟨hentries, hclose⟩⟩

theorem Written.spelled {depth : Nat} {v : Value} (h : v.Written depth) : v.Spelled := by
  induction h with
  | null => exact List.forall_mem_singleton.mpr trivial
  | bool b => exact List.forall_mem_singleton.mpr trivial
  | whole h => exact List.forall_mem_singleton.mpr (.ofNat _)
  | float x => exact List.forall_mem_singleton.mpr (.ofFloat .json x.finite)
  | text s => exact List.forall_mem_singleton.mpr rfl
  | array _ ih => exact .array ih
  | object hkeys _ ih => exact .object fun e he => ⟨hkeys e he, ih e he⟩

theorem stops_cons {c : Char} (hc : c = ',' ∨ c = ']' ∨ c = '\x7d') (rest : List Char) :
    Stops (c :: rest) := by
  intro d hd
  obtain rfl : c = d := Option.some.inj hd
  obtain rfl | rfl | rfl := hc <;> decide

/-- What follows a mark is read after it. -/
theorem reads_mark {l : Lexeme} {ls : List Lexeme} {rest : List Char} (hl : l.Written)
    (hmark : l.isNumber = false) (h : Reads ls rest) : Reads (l :: ls) rest :=
  .cons hl (fun hnumber => absurd (hmark.symm.trans hnumber) Bool.false_ne_true) h

mutual

/-- Numerals end where the next mark begins. -/
theorem reads : ∀ {v : Value} {rest : List Char}, v.Spelled → Stops rest → Reads v.lexemes rest
  | null, _, _, _ => reads_mark trivial rfl (.nil _)
  | bool _, _, _, _ => reads_mark trivial rfl (.nil _)
  | whole n, _, hv, hrest => .cons (hv _ List.mem_cons_self) (fun _ => hrest) (.nil _)
  | float none, _, _, _ => reads_mark trivial rfl (.nil _)
  | float (some x), _, hv, hrest => .cons (hv _ List.mem_cons_self) (fun _ => hrest) (.nil _)
  | text s, _, hv, _ => reads_mark (hv _ List.mem_cons_self) rfl (.nil _)
  | array vs, rest, hv, _ => by
    have hvs : ∀ l ∈ itemLexemes vs, l.Written := fun l hl => hv l (by simp [lexemes, hl])
    have hclose : Stops ([Lexeme.closeArray].flatMap chars ++ rest) := stops_cons (by simp) rest
    exact reads_mark trivial rfl
      (.append (reads_items hvs hclose) (reads_mark trivial rfl (.nil _)))
  | object es, rest, hv, _ => by
    have hes : ∀ l ∈ entryLexemes es, l.Written := fun l hl => hv l (by simp [lexemes, hl])
    have hclose : Stops ([Lexeme.closeObject].flatMap chars ++ rest) := stops_cons (by simp) rest
    exact reads_mark trivial rfl
      (.append (reads_entries hes hclose) (reads_mark trivial rfl (.nil _)))

theorem reads_items : ∀ {vs : List Value} {rest : List Char}, (∀ l ∈ itemLexemes vs, l.Written) →
    Stops rest → Reads (itemLexemes vs) rest
  | [], _, _, _ => .nil _
  | [v], _, hvs, hrest => reads (v := v) hvs hrest
  | v :: w :: vs, rest, hvs, hrest => by
    rw [itemLexemes_cons] at hvs ⊢
    obtain ⟨hv, hvs⟩ := List.forall_mem_append.mp hvs
    obtain ⟨-, hws⟩ := List.forall_mem_cons.mp hvs
    have hcomma : Stops ((Lexeme.comma :: itemLexemes (w :: vs)).flatMap chars ++ rest) :=
      stops_cons (by simp) _
    exact .append (reads hv hcomma) (reads_mark trivial rfl (reads_items hws hrest))

theorem reads_entries : ∀ {es : List (Option (List Char) × Value)} {rest : List Char},
    (∀ l ∈ entryLexemes es, l.Written) → Stops rest → Reads (entryLexemes es) rest
  | [], _, _, _ => .nil _
  | [(k, v)], _, hes, hrest => by
    obtain ⟨hk, hes⟩ := List.forall_mem_cons.mp hes
    obtain ⟨-, hv⟩ := List.forall_mem_cons.mp hes
    exact reads_mark hk rfl (reads_mark trivial rfl (reads hv hrest))
  | (k, v) :: e :: es, rest, hes, hrest => by
    rw [entryLexemes_cons] at hes ⊢
    obtain ⟨hk, hes⟩ := List.forall_mem_cons.mp hes
    obtain ⟨-, hes⟩ := List.forall_mem_cons.mp hes
    obtain ⟨hv, hes⟩ := List.forall_mem_append.mp hes
    obtain ⟨-, hrests⟩ := List.forall_mem_cons.mp hes
    have hcomma : Stops ((Lexeme.comma :: entryLexemes (e :: es)).flatMap chars ++ rest) :=
      stops_cons (by simp) _
    exact reads_mark hk rfl (reads_mark trivial rfl
      (.append (reads hv hcomma) (reads_mark trivial rfl (reads_entries hrests hrest))))

end

/-! ## The value that is spelled -/

theorem ofNumeral_ofNat {n : Nat} (hn : n ≤ wordMax) : ofNumeral (.ofNat n) = whole n := by
  have hvalue : (Numeral.ofNat n).toNat? = some n := congrArg some (natOfDigits_digitsOf n)
  rw [ofNumeral, hvalue, Option.filter_some, if_pos (decide_eq_true hn)]

theorem ofNumeral_ofFloat (x : FiniteFloat) :
    ofNumeral (.ofFloat .json x.value) = float (some x) := by
  rw [ofNumeral, Numeral.toNat?_ofFloat .json rfl, Option.filter_none,
    Numeral.toFloat?_ofFloat .json x.finite, Option.bind_some, FiniteFloat.of?, dif_pos x.finite]

theorem lexemes_head (v : Value) : ∃ l ls, v.lexemes = l :: ls ∧ l ≠ .closeArray := by
  cases v with
  | float x => cases x <;> exact ⟨_, _, rfl, by simp⟩
  | _ => exact ⟨_, _, rfl, by simp⟩

theorem itemLexemes_head (v : Value) (vs : List Value) :
    ∃ l ls, itemLexemes (v :: vs) = l :: ls ∧ l ≠ .closeArray := by
  obtain ⟨l, ls, hls, hl⟩ := lexemes_head v
  cases vs with
  | nil => exact ⟨l, ls, hls, hl⟩
  | cons w vs =>
    rw [itemLexemes_cons, hls]
    exact ⟨l, _, rfl, hl⟩

theorem entryLexemes_head (e : Option (List Char) × Value)
    (es : List (Option (List Char) × Value)) :
    ∃ l ls, entryLexemes (e :: es) = l :: ls ∧ l ≠ .closeObject := by
  cases es with
  | nil => exact ⟨.text e.1, _, rfl, by simp⟩
  | cons e' es => exact ⟨.text e.1, _, entryLexemes_cons e.1 e.2 e' es, by simp⟩

theorem first?_openArray {l : Lexeme} (hl : l ≠ .closeArray) (bound : Nat) (ls : List Lexeme) :
    first? (bound + 1) (.openArray :: l :: ls) =
      (items? bound (l :: ls)).map fun p => (array p.1, p.2) := by
  rw [first?]
  exact fun _ h => hl (List.cons.inj h).1

theorem first?_openObject {l : Lexeme} (hl : l ≠ .closeObject) (bound : Nat) (ls : List Lexeme) :
    first? (bound + 1) (.openObject :: l :: ls) =
      (entries? bound (l :: ls)).map fun p => (object p.1, p.2) := by
  rw [first?]
  exact fun _ h => hl (List.cons.inj h).1

mutual

/-- Twice the number of lexemes is bound enough: each value or item that is begun takes one, and
there is a lexeme in front of it or behind it. -/
theorem first?_lexemes : ∀ {v : Value} {depth bound : Nat} {rest : List Lexeme}, v.Written depth →
    2 * v.lexemes.length ≤ bound → first? bound (v.lexemes ++ rest) = some (v, rest)
  | v, _, 0, _, _, hbound => by
    obtain ⟨l, ls, hls, -⟩ := lexemes_head v
    rw [hls, List.length_cons] at hbound
    omega
  | null, _, _ + 1, _, _, _ => rfl
  | bool _, _, _ + 1, _, _, _ => rfl
  | whole _, _, _ + 1, _, .whole hn, _ => congrArg (fun v => some (v, _)) (ofNumeral_ofNat hn)
  | float (some x), _, _ + 1, _, _, _ => congrArg (fun v => some (v, _)) (ofNumeral_ofFloat x)
  | text _, _, _ + 1, _, _, _ => rfl
  | array [], _, _ + 1, _, _, _ => rfl
  | array (v :: vs), _, bound + 1, rest, .array hvs, hbound => by
    have hitems : items? bound (itemLexemes (v :: vs) ++ .closeArray :: rest) =
        some (v :: vs, rest) := by
      refine items?_lexemes hvs ?_
      simp only [lexemes, List.cons_append, List.length_cons, List.length_append] at hbound
      omega
    obtain ⟨l, ls, hls, hl⟩ := itemLexemes_head v vs
    rw [hls] at hitems
    rw [lexemes, hls, List.append_assoc]
    exact (first?_openArray hl bound _).trans (congrArg (Option.map _) hitems)
  | object [], _, _ + 1, _, _, _ => rfl
  | object (e :: es), _, bound + 1, rest, .object _ hes, hbound => by
    have hentries : entries? bound (entryLexemes (e :: es) ++ .closeObject :: rest) =
        some (e :: es, rest) := by
      refine entries?_lexemes hes ?_
      simp only [lexemes, List.cons_append, List.length_cons, List.length_append] at hbound
      omega
    obtain ⟨l, ls, hls, hl⟩ := entryLexemes_head e es
    rw [hls] at hentries
    rw [lexemes, hls, List.append_assoc]
    exact (first?_openObject hl bound _).trans (congrArg (Option.map _) hentries)

theorem items?_lexemes : ∀ {v : Value} {vs : List Value} {depth bound : Nat} {rest : List Lexeme},
    (∀ w ∈ v :: vs, w.Written depth) → 2 * (itemLexemes (v :: vs)).length < bound →
      items? bound (itemLexemes (v :: vs) ++ .closeArray :: rest) = some (v :: vs, rest)
  | _, _, _, 0, _, _, hbound => absurd hbound (Nat.not_lt_zero _)
  | v, [], _, bound + 1, rest, hvs, hbound => by
    have hv := List.forall_mem_singleton.mp hvs
    rw [itemLexemes, items?, first?_lexemes hv (Nat.le_of_lt_succ hbound)]
  | v, w :: vs, _, bound + 1, rest, hvs, hbound => by
    obtain ⟨hv, hvs⟩ := List.forall_mem_cons.mp hvs
    rw [itemLexemes_cons, List.length_append, List.length_cons] at hbound
    rw [itemLexemes_cons, List.append_assoc, items?, first?_lexemes hv (by omega)]
    exact congrArg (Option.map _) (items?_lexemes hvs (by omega))

theorem entries?_lexemes : ∀ {e : Option (List Char) × Value}
    {es : List (Option (List Char) × Value)} {depth bound : Nat} {rest : List Lexeme},
    (∀ f ∈ e :: es, f.2.Written depth) → 2 * (entryLexemes (e :: es)).length < bound →
      entries? bound (entryLexemes (e :: es) ++ .closeObject :: rest) = some (e :: es, rest)
  | _, _, _, 0, _, _, hbound => absurd hbound (Nat.not_lt_zero _)
  | (k, v), [], _, bound + 1, rest, hes, hbound => by
    have hv : v.Written _ := hes (k, v) List.mem_cons_self
    rw [entryLexemes, List.length_cons, List.length_cons] at hbound
    rw [entryLexemes, List.cons_append, List.cons_append, entries?, first?_lexemes hv (by omega)]
  | (k, v), e :: es, _, bound + 1, rest, hes, hbound => by
    obtain ⟨hv : v.Written _, hes⟩ := List.forall_mem_cons.mp hes
    rw [entryLexemes_cons, List.length_cons, List.length_cons, List.length_append,
      List.length_cons] at hbound
    rw [entryLexemes_cons, List.cons_append, List.cons_append, List.append_assoc, entries?,
      first?_lexemes hv (by omega)]
    exact congrArg (Option.map _) (entries?_lexemes hes (by omega))

end

end Value

/-- Whatever can be written is read back, however deep it nests. -/
theorem Library.plain_returns (depth : Nat) {v : Value} (hv : v.Written depth) :
    plain.Returns v := by
  have hstops : Stops [] := fun c hc => by cases hc
  have hlexemes : Lexeme.read v.render.toList = some v.lexemes := by
    rw [Value.render, String.toList_ofList]
    exact Lexeme.read_chars hv.spelled (Value.reads hv.spelled hstops)
  have hvalue : Value.first? (2 * v.lexemes.length + 1) v.lexemes = some (v, []) := by
    rw [← Value.first?_lexemes hv (Nat.le_succ (2 * v.lexemes.length)), List.append_nil]
  show Value.parse? v.render = some v
  rw [Value.parse?, hlexemes, Option.bind_some, Value.ofLexemes?, hvalue]

theorem Library.plain_lawful : plain.Lawful where
  null := plain_returns 0 .null
  bool b := plain_returns 0 (.bool b)
  whole _ hn := plain_returns 0 (.whole hn)
  float x := plain_returns 0 (.float x)
  text s := plain_returns 0 (.text s)
  array _ _ _ hvs := plain_returns _ (.array fun v hv => (hvs v hv).1)
  object _ _ _ hes := plain_returns _ (.object (fun e he => (hes e he).1) fun e he => (hes e he).2.1)

end Patchbay.Json
