import Patchbay.Json.Lexeme
import Patchbay.Proofs.NumeralSound

/-!
# Lexemes read back

What is written for a lexeme is read as that lexeme, whatever follows it. Only a numeral has to be
followed by something that cannot continue it.
-/

namespace Patchbay.Json

open Lexeme (escaped hexDigit)

/-! ## Texts -/

theorem hexValue?_hexDigit : ∀ n < 16, hexValue? (hexDigit n) = some n := by
  decide

section
variable (rest : List Char)

theorem units?_simple {e c : Char} (he : simpleEscape? e = some c) :
    units? ('\\' :: e :: rest) = (units? rest).map fun p => (c.toNat :: p.1, p.2) := by
  have hu : e ≠ 'u' := by
    rintro rfl
    cases he
  rw [units?, he]
  · cases units? rest <;> rfl
  · exact fun _ _ _ _ _ h => absurd h hu

theorem units?_control {n : Nat} (hn : n < 0x20) :
    units? ('\\' :: 'u' :: '0' :: '0' :: hexDigit (n / 16) :: hexDigit (n % 16) :: rest) =
      (units? rest).map fun p => (n :: p.1, p.2) := by
  have hhex : hex4? '0' '0' (hexDigit (n / 16)) (hexDigit (n % 16)) = some n := by
    have hzero : hexValue? '0' = some 0 := rfl
    have hsum : ((0 * 16 + 0) * 16 + n / 16) * 16 + n % 16 = n := by omega
    rw [hex4?, hzero, hexValue?_hexDigit _ (by omega), hexValue?_hexDigit _ (by omega)]
    exact congrArg some hsum
  rw [units?, hhex]
  cases units? rest <;> rfl

theorem units?_plain {c : Char} (hquote : c ≠ '"') (hslash : c ≠ '\\') (hc : ¬ c.toNat < 0x20) :
    units? (c :: rest) = (units? rest).map fun p => (c.toNat :: p.1, p.2) := by
  rw [units?, if_neg (by simp [hc, hslash])]
  · cases units? rest <;> rfl
  · exact hquote
  · exact fun _ _ _ _ _ h => absurd h hslash
  · exact fun _ _ h => absurd h hslash

theorem escaped_cases (c : Char) :
    (∃ e, simpleEscape? e = some c ∧ escaped c = ['\\', e]) ∨
    (c.toNat < 0x20 ∧
      escaped c = ['\\', 'u', '0', '0', hexDigit (c.toNat / 16), hexDigit (c.toNat % 16)]) ∨
    (c ≠ '"' ∧ c ≠ '\\' ∧ ¬ c.toNat < 0x20 ∧ escaped c = [c]) := by
  unfold escaped
  split_ifs with hquote hslash _ _ _ _ _ hcontrol
  iterate 7 exact Or.inl ⟨_, by subst_vars; rfl, rfl⟩
  · exact Or.inr (Or.inl ⟨hcontrol, rfl⟩)
  · exact Or.inr (Or.inr ⟨hquote, hslash, hcontrol, rfl⟩)

theorem units?_escaped (c : Char) :
    units? (escaped c ++ rest) = (units? rest).map fun p => (c.toNat :: p.1, p.2) := by
  obtain ⟨e, he, hc⟩ | ⟨hcontrol, hc⟩ | ⟨hquote, hslash, hplain, hc⟩ := escaped_cases c
  · rw [hc]
    exact units?_simple rest he
  · rw [hc]
    exact units?_control rest hcontrol
  · rw [hc]
    exact units?_plain rest hquote hslash hplain

theorem units?_text : ∀ s : List Char,
    units? (s.flatMap escaped ++ '"' :: rest) = some (s.map Char.toNat, rest)
  | [] => rfl
  | c :: s => by
    rw [List.flatMap_cons, List.append_assoc, units?_escaped, units?_text s]
    rfl

end

/-- Characters are no halves of surrogate pairs. -/
theorem joinUnits?_chars : ∀ s : List Char, joinUnits? (s.map Char.toNat) = some s
  | [] => rfl
  | c :: s => by
    have hc : c.toNat < 0xd800 ∨ 0xdfff < c.toNat ∧ c.toNat < 0x110000 := c.valid
    have hhigh : isHighSurrogate c.toNat = false := by
      simp only [isHighSurrogate, Bool.and_eq_false_iff, decide_eq_false_iff_not]
      omega
    have hlow : isLowSurrogate c.toNat = false := by
      simp only [isLowSurrogate, Bool.and_eq_false_iff, decide_eq_false_iff_not]
      omega
    rw [List.map_cons, joinUnits?.eq_def]
    simp only [hhigh, hlow, joinUnits?_chars s, Char.ofNat_toNat, Bool.false_eq_true, if_false,
      Option.map_some]

/-! ## Numerals -/

structure Grammatical (n : Numeral) : Prop where
  ne_nil : n.whole ≠ []
  whole : ∀ c ∈ n.whole, isDigit c = true
  zero : n.whole.head? = some '0' → n.whole = ['0']
  fraction : ∀ c ∈ n.fraction, isDigit c = true

def Stops (rest : List Char) : Prop :=
  ∀ c ∈ rest.head?, isDigit c = false ∧ c ≠ '.' ∧ c ≠ 'e' ∧ c ≠ 'E'

theorem isDigit_digitsOf {n : Nat} {c : Char} (hc : c ∈ Numeral.digitsOf n) : isDigit c = true := by
  have hdigit : c.isDigit = true := Nat.isDigit_of_mem_toDigits (by norm_num) (by norm_num) hc
  simpa [isDigit, Char.isDigit, Char.le_def] using hdigit

section
variable {rest : List Char} (hrest : ∀ c ∈ rest.head?, isDigit c = false)
include hrest

theorem digits_append {ds : List Char} (hds : ∀ c ∈ ds, isDigit c = true) :
    digits (ds ++ rest) = (ds, rest) := by
  have hstop : rest.takeWhile isDigit = [] ∧ rest.dropWhile isDigit = rest := by
    cases rest with
    | nil => exact ⟨rfl, rfl⟩
    | cons c cs =>
      have hc := hrest c rfl
      exact ⟨List.takeWhile_cons_of_neg (by simp [hc]), List.dropWhile_cons_of_neg (by simp [hc])⟩
  rw [digits, List.takeWhile_append_of_pos hds, List.dropWhile_append_of_pos hds, hstop.1, hstop.2,
    List.append_nil]

theorem exponentDigits?_digitsOf (negative : Bool) (n : Nat) :
    exponentDigits? negative (Numeral.digitsOf n ++ rest) =
      some (some (if negative then -(n : Int) else n), rest) := by
  have hne : Numeral.digitsOf n ≠ [] := Nat.toDigits_ne_nil
  have hvalue : (Numeral.digitsOf n).foldl
      (fun (n : Int) c => 10 * n + (c.toNat - '0'.toNat : Nat)) 0 = n := by
    refine (List.foldl_hom Nat.cast ?_).trans (congrArg Nat.cast (natOfDigits_digitsOf n))
    intro m c
    push_cast
    rfl
  rw [exponentDigits?, digits_append hrest fun c hc => isDigit_digitsOf hc]
  split
  · rename_i hnil
    exact absurd (Prod.mk.inj hnil).1 hne
  · rename_i ds rest' _ heq
    obtain ⟨rfl, rfl⟩ := Prod.mk.inj heq
    rw [hvalue]

theorem wholePart?_append {n : Numeral} (hn : Grammatical n) :
    wholePart? (n.whole ++ rest) = some (n.whole, rest) := by
  obtain ⟨hne, hwhole, hzero, -⟩ := hn
  cases hn : n.whole with
  | nil => exact absurd hn hne
  | cons d ds =>
    rw [hn] at hwhole hzero
    by_cases hhead : d = '0'
    · subst hhead
      obtain rfl : ds = [] := (List.cons.inj (hzero rfl)).2
      have hstop : rest.head?.any isDigit = false := by
        cases rest with
        | nil => rfl
        | cons c cs => exact hrest c rfl
      rw [List.singleton_append, wholePart?, hstop]
      rfl
    · have hdigits := digits_append hrest hwhole
      rw [List.cons_append] at hdigits ⊢
      rw [wholePart?, hdigits]
      exact fun _ h => hhead (List.cons.inj h).1

end

def pointed : List Char → List Char
  | [] => []
  | ds => '.' :: ds

def scaled : Option Int → List Char
  | none => []
  | some e => 'e' :: Numeral.signed true e

theorem chars_eq (n : Numeral) : n.chars true = (if n.negative then ['-'] else []) ++
    (n.whole ++ (pointed n.fraction ++ scaled n.exponent)) := by
  rw [Numeral.chars, List.append_assoc, List.append_assoc]
  rfl

theorem fractionPart?_append {ds rest : List Char} (hds : ∀ c ∈ ds, isDigit c = true)
    (hrest : ∀ c ∈ rest.head?, isDigit c = false ∧ c ≠ '.') :
    fractionPart? (pointed ds ++ rest) = some (ds, rest) := by
  cases ds with
  | nil =>
    cases rest with
    | nil => rfl
    | cons c cs =>
      rw [pointed, List.nil_append, fractionPart?]
      exact fun _ h => (hrest c rfl).2 (List.cons.inj h).1
  | cons d ds =>
    have hdigits := digits_append (fun c hc => (hrest c hc).1) hds
    rw [pointed, List.cons_append, fractionPart?, hdigits]
    exact fun h => absurd h (List.cons_ne_nil d ds)

theorem exponentPart?_append (e : Option Int) {rest : List Char} (hrest : Stops rest) :
    exponentPart? (scaled e ++ rest) = some (e, rest) := by
  have hdigits : ∀ c ∈ rest.head?, isDigit c = false := fun c hc => (hrest c hc).1
  cases e with
  | none =>
    cases rest with
    | nil => rfl
    | cons c cs =>
      obtain ⟨-, -, hlower, hupper⟩ := hrest c rfl
      unfold exponentPart?
      exact if_neg (by simp [hlower, hupper])
  | some e =>
    cases e with
    | ofNat n => exact exponentDigits?_digitsOf hdigits false n
    | negSucc n => exact exponentDigits?_digitsOf hdigits true (n + 1)

theorem numeral?_append {n : Numeral} (hn : Grammatical n) {rest : List Char} (hrest : Stops rest) :
    numeral? n.negative (n.whole ++ (pointed n.fraction ++ (scaled n.exponent ++ rest))) =
      some (n, rest) := by
  have hscaled : ∀ c ∈ (scaled n.exponent ++ rest).head?, isDigit c = false ∧ c ≠ '.' := by
    intro c hc
    cases hexponent : n.exponent with
    | none =>
      rw [hexponent, scaled, List.nil_append] at hc
      exact ⟨(hrest c hc).1, (hrest c hc).2.1⟩
    | some e =>
      rw [hexponent] at hc
      cases hc
      decide
  have hpointed : ∀ c ∈ (pointed n.fraction ++ (scaled n.exponent ++ rest)).head?,
      isDigit c = false := by
    intro c hc
    cases hfraction : n.fraction with
    | nil =>
      rw [hfraction, pointed, List.nil_append] at hc
      exact (hscaled c hc).1
    | cons d ds =>
      rw [hfraction] at hc
      cases hc
      decide
  simp only [numeral?, wholePart?_append hpointed hn, fractionPart?_append hn.fraction hscaled,
    exponentPart?_append _ hrest, Option.bind_eq_bind, Option.bind_some, Option.pure_def]

/-! ### Numerals that are written -/

theorem digitsOf_head {n : Nat} (h : (Numeral.digitsOf n).head? = some '0') : n = 0 := by
  induction n using Nat.strong_induction_on with
  | _ n ih =>
    by_cases hn : n < 10
    · rw [Numeral.digitsOf, Nat.toDigits_of_lt_base hn] at h
      exact Nat.digitChar_eq_zero.mp (Option.some.inj h)
    · have hne : Nat.toDigits 10 (n / 10) ≠ [] := Nat.toDigits_ne_nil
      rw [Numeral.digitsOf, Nat.toDigits_eq_if (by norm_num), if_neg hn,
        List.head?_append_of_ne_nil _ hne] at h
      have hzero := ih (n / 10) (by omega) h
      omega

theorem Grammatical.ofNat (n : Nat) : Grammatical (Numeral.ofNat n) where
  ne_nil := Nat.toDigits_ne_nil
  whole _ hc := isDigit_digitsOf hc
  zero h := by
    rw [digitsOf_head h]
    rfl
  fraction _ hc := absurd hc List.not_mem_nil

theorem isDigit_pointZero (layout : Layout) :
    ∀ c ∈ (if layout.pointZero then ['0'] else []), isDigit c = true := by
  split
  · exact List.forall_mem_singleton.mpr rfl
  · exact List.forall_mem_nil _

theorem Grammatical.ofLeading {n : Numeral} {c : Char} {cs : List Char} (hwhole : n.whole = c :: cs)
    (hc : c ≠ '0') (hdigits : ∀ c' ∈ c :: cs, isDigit c' = true)
    (hfraction : ∀ c' ∈ n.fraction, isDigit c' = true) : Grammatical n where
  ne_nil := by simp [hwhole]
  whole := by rwa [hwhole]
  zero h := by
    rw [hwhole] at h
    exact absurd (Option.some.inj h) hc
  fraction := hfraction

theorem Grammatical.ofZero {n : Numeral} (hwhole : n.whole = ['0'])
    (hfraction : ∀ c ∈ n.fraction, isDigit c = true) : Grammatical n where
  ne_nil := by simp [hwhole]
  whole := by
    rw [hwhole]
    exact List.forall_mem_singleton.mpr rfl
  zero _ := hwhole
  fraction := hfraction

theorem Grammatical.ofDecimal (layout : Layout) (negative : Bool) {d : Decimal}
    (hd : d.digits ≠ 0) : Grammatical (Numeral.ofDecimal layout negative d) := by
  have hdigits : ∀ c ∈ Numeral.digitsOf d.digits, isDigit c = true :=
    fun _ hc => isDigit_digitsOf hc
  have hhead : (Numeral.digitsOf d.digits).head? ≠ some '0' := fun h => hd (digitsOf_head h)
  have hne : Numeral.digitsOf d.digits ≠ [] := Nat.toDigits_ne_nil
  unfold Numeral.ofDecimal
  dsimp only
  generalize Numeral.digitsOf d.digits = ds at *
  cases ds with
  | nil => exact absurd rfl hne
  | cons c cs =>
    have hc : c ≠ '0' := fun h => hhead (congrArg some h)
    have hzeroes : ∀ n, ∀ c ∈ List.replicate n '0', isDigit c = true := by
      intro n c hc
      rw [List.eq_of_mem_replicate hc]
      rfl
    have hsome : ∀ n, (c :: cs).take (n + 1) = c :: cs.take n := fun _ => rfl
    split
    · split
      · refine .ofZero rfl fun c' hc' => ?_
        exact (List.mem_append.mp hc').elim (hzeroes _ c') (hdigits c')
      · split
        · obtain ⟨n, hn⟩ : ∃ n, (d.exponent + (c :: cs).length).toNat = n + 1 :=
            Nat.exists_eq_add_one.mpr (by omega)
          rw [hn]
          refine .ofLeading (hsome n) hc (fun c' hc' => ?_) fun c' hc' => ?_
          · exact hdigits c' (List.mem_of_mem_take (hsome n ▸ hc'))
          · exact hdigits c' (List.mem_of_mem_drop hc')
        · refine .ofLeading rfl hc (fun c' hc' => ?_) (isDigit_pointZero layout)
          exact (List.mem_append.mp hc').elim (hdigits c') (hzeroes _ c')
    · refine .ofLeading rfl hc (fun c' hc' => ?_) fun c' hc' => ?_
      · exact hdigits c' (List.mem_of_mem_take (hsome 0 ▸ hc'))
      · exact hdigits c' (List.mem_of_mem_drop hc')

theorem Grammatical.ofFloat (layout : Layout) {x : Float} (hx : x.isFinite = true) :
    Grammatical (Numeral.ofFloat layout x) := by
  unfold Numeral.ofFloat
  dsimp only
  by_cases hzero : (x == 0) = true
  · rw [if_pos hzero]
    exact .ofZero rfl (isDigit_pointZero layout)
  · rw [if_neg hzero]
    obtain ⟨m, q, hs, -, -, hholds⟩ := Window.shortest_ofBits hx hzero layout.tie
    exact .ofDecimal layout _ (Decimal.digits_ne_zero (hholds.pos hs))

/-! ## Lexemes -/

namespace Lexeme

def Written : Lexeme → Prop
  | number n => Grammatical n
  | text s => s.isSome = true
  | _ => True

def isNumber : Lexeme → Bool
  | number _ => true
  | _ => false

theorem first?_digit {c : Char} (hc : isDigit c = true) (rest : List Char) :
    first? (c :: rest) = (numeral? false (c :: rest)).map fun p => (number p.1, p.2) := by
  have hne : ∀ d, isDigit d = false → c ≠ d := by
    intro d hd heq
    rw [heq, hd] at hc
    cases hc
  unfold first?
  split
  case h_12 => rfl
  -- all other lexemes begin with a character that is no digit
  all_goals
    rename_i heq
    exact absurd (List.cons.inj heq).1 (hne _ rfl)

theorem first?_number {n : Numeral} (hn : Grammatical n) {rest : List Char} (hrest : Stops rest) :
    first? (n.chars true ++ rest) = some (number n, rest) := by
  have hread := numeral?_append hn hrest
  rw [chars_eq, List.append_assoc, List.append_assoc, List.append_assoc]
  cases hnegative : n.negative with
  | true =>
    rw [hnegative] at hread
    exact congrArg (Option.map fun p => (number p.1, p.2)) hread
  | false =>
    rw [hnegative] at hread
    cases hwhole : n.whole with
    | nil => exact absurd hwhole hn.ne_nil
    | cons d ds =>
      have hdigit : isDigit d = true := hn.whole d (by simp [hwhole])
      rw [hwhole] at hread
      exact (first?_digit hdigit _).trans (congrArg (Option.map fun p => (number p.1, p.2)) hread)

theorem first?_chars {l : Lexeme} (hl : l.Written) {rest : List Char}
    (hrest : l.isNumber = true → Stops rest) : first? (l.chars ++ rest) = some (l, rest) := by
  cases l with
  | bool b => cases b <;> rfl
  | number n => exact first?_number hl (hrest rfl)
  | text s =>
    obtain ⟨s, rfl⟩ := Option.isSome_iff_exists.mp hl
    have hread := units?_text rest s
    calc first? ((text (some s)).chars ++ rest)
        = (units? (s.flatMap escaped ++ '"' :: rest)).map
            fun p => (text (joinUnits? p.1), p.2) := by
          rw [chars, List.append_assoc]
          rfl
      _ = some (text (some s), rest) := by rw [hread, Option.map_some, joinUnits?_chars]
  | _ => rfl

theorem isSpace_of_isDigit {c : Char} (hc : isDigit c = true) : isSpace c = false := by
  by_contra hspace
  simp only [isSpace, Bool.not_eq_false, Bool.or_eq_true, decide_eq_true_eq] at hspace
  obtain ((rfl | rfl) | rfl) | rfl := hspace <;> cases hc

theorem chars_cons {l : Lexeme} (hl : l.Written) :
    ∃ c cs, l.chars = c :: cs ∧ isSpace c = false := by
  cases l with
  | bool b =>
    cases b with
    | true => exact ⟨_, _, rfl, rfl⟩
    | false => exact ⟨_, _, rfl, rfl⟩
  | number n =>
    rw [chars, show Layout.json.plus = true from rfl, chars_eq]
    cases hnegative : n.negative with
    | true => exact ⟨_, _, rfl, rfl⟩
    | false =>
      cases hwhole : n.whole with
      | nil => exact absurd hwhole hl.ne_nil
      | cons d ds =>
        have hdigit : isDigit d = true := hl.whole d (by simp [hwhole])
        exact ⟨d, _, rfl, isSpace_of_isDigit hdigit⟩
  | _ => exact ⟨_, _, rfl, rfl⟩

theorem readUpTo_chars {l : Lexeme} (hl : l.Written) {rest : List Char}
    (hrest : l.isNumber = true → Stops rest) (bound : Nat) :
    readUpTo (bound + 1) (l.chars ++ rest) = (readUpTo bound rest).map (l :: ·) := by
  have hfirst := first?_chars hl hrest
  obtain ⟨c, cs, hchars, hspace⟩ := chars_cons hl
  rw [hchars, List.cons_append] at hfirst ⊢
  rw [readUpTo, List.dropWhile_cons_of_neg (by simp [hspace])]
  simp only [hfirst, Option.bind_eq_bind, Option.bind_some]
  cases readUpTo bound rest <;> rfl

def Reads (ls : List Lexeme) (rest : List Char) : Prop :=
  ∀ bound, readUpTo (bound + ls.length) (ls.flatMap chars ++ rest) =
    (readUpTo bound rest).map (ls ++ ·)

theorem Reads.nil (rest : List Char) : Reads [] rest := by
  intro bound
  simp only [List.nil_append, Option.map_id']
  rfl

theorem Reads.cons {l : Lexeme} {ls : List Lexeme} {rest : List Char} (hl : l.Written)
    (hrest : l.isNumber = true → Stops (ls.flatMap chars ++ rest)) (h : Reads ls rest) :
    Reads (l :: ls) rest := by
  intro bound
  rw [List.flatMap_cons, List.append_assoc, List.length_cons, ← Nat.add_assoc,
    readUpTo_chars hl hrest, h bound, Option.map_map]
  rfl

theorem Reads.append {as bs : List Lexeme} {rest : List Char}
    (ha : Reads as (bs.flatMap chars ++ rest)) (hb : Reads bs rest) : Reads (as ++ bs) rest := by
  intro bound
  rw [List.flatMap_append, List.append_assoc, List.length_append, Nat.add_comm as.length,
    ← Nat.add_assoc, ha, hb, Option.map_map]
  simp only [Function.comp_def, List.append_assoc]

theorem length_le_chars {ls : List Lexeme} (hls : ∀ l ∈ ls, l.Written) :
    ls.length ≤ (ls.flatMap chars).length := by
  induction ls with
  | nil => exact le_refl _
  | cons l ls ih =>
    obtain ⟨c, cs, hchars, -⟩ := chars_cons (hls l List.mem_cons_self)
    have hrest := ih fun l' hl' => hls l' (List.mem_cons_of_mem _ hl')
    rw [List.flatMap_cons, hchars, List.length_append, List.length_cons, List.length_cons]
    omega

theorem read_chars {ls : List Lexeme} (hls : ∀ l ∈ ls, l.Written) (h : Reads ls []) :
    read (ls.flatMap chars) = some ls := by
  obtain ⟨bound, hbound⟩ := Nat.exists_eq_add_of_le' (length_le_chars hls)
  have hread := h bound
  rw [← hbound, List.append_nil] at hread
  rw [read, hread, readUpTo.eq_def]
  exact congrArg some (List.append_nil ls)

end Lexeme

end Patchbay.Json
