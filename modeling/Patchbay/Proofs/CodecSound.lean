import Patchbay.Json.Codec
import Patchbay.Proofs.NumeralSound

/-!
# Codecs that lose nothing

A codec is faithful if what it encodes is decoded to the same, for all values that it can keep, and
if it decodes to nothing else. With a lawful library texts of such values are read back, and any
text that can be read is brought to a form in which it stays.
-/

namespace Patchbay.Json

open Codec

/-! ## Libraries -/

theorem Value.Written.mono {depth : Nat} {v : Value} (h : v.Written depth) :
    ∀ {depth' : Nat}, depth ≤ depth' → v.Written depth' := by
  induction h with
  | null => exact fun _ => .null
  | bool b => exact fun _ => .bool b
  | whole hn => exact fun _ => .whole hn
  | float x => exact fun _ => .float x
  | text s => exact fun _ => .text s
  | array _ ih =>
    intro depth' hle
    obtain ⟨d, rfl⟩ := Nat.exists_eq_add_of_le' hle
    exact .array fun v hv => ih v hv (Nat.le_add_left _ _)
  | object hkeys _ ih =>
    intro depth' hle
    obtain ⟨d, rfl⟩ := Nat.exists_eq_add_of_le' hle
    exact .object hkeys fun e he => ih e he (Nat.le_add_left _ _)

/-- What a lawful library writes is read back, if it does not nest too deeply. -/
theorem Library.Lawful.returns {lib : Library} (hlib : lib.Lawful) {depth : Nat} {v : Value}
    (hv : v.Written depth) : depth ≤ nesting → lib.Returns v := by
  induction hv with
  | null => exact fun _ => hlib.null
  | bool b => exact fun _ => hlib.bool b
  | whole hn => exact fun _ => hlib.whole _ hn
  | float x => exact fun _ => hlib.float x
  | text s => exact fun _ => hlib.text s
  | array hvs ih =>
    exact fun hle => hlib.array _ _ hle fun v hv => ⟨hvs v hv, ih v hv (Nat.le_of_lt hle)⟩
  | object hkeys hes ih =>
    exact fun hle => hlib.object _ _ hle fun e he =>
      ⟨hkeys e he, hes e he, ih e he (Nat.le_of_lt hle)⟩

/-! ## Codecs -/

/-- What is encoded of a value that can be kept nests to the given depth at most and is decoded to
the value, and nothing else is ever decoded or stands for a missing field. -/
structure Faithful (α : Type) [Codec α] (depth : Nat) (keeps : α → Prop) : Prop where
  written : ∀ {a : α}, keeps a → (encode a).Written depth
  decode_encode : ∀ {a : α}, keeps a → decode? (encode a) = some a
  of_decode : ∀ {v : Value} {a : α}, decode? v = some a → keeps a
  of_absent : ∀ {a : α}, (absent : Option α) = some a → keeps a

section
variable {α : Type} [Codec α] {depth : Nat} {keeps : α → Prop} (h : Faithful α depth keeps)
include h

theorem Faithful.read?_write {lib : Library} (hlib : lib.Lawful) (hdepth : depth ≤ Library.nesting)
    {a : α} (ha : keeps a) : lib.read? (lib.write a) = some a := by
  have hparse : lib.parse? (lib.render (encode a)) = some (encode a) :=
    hlib.returns (h.written ha) hdepth
  rw [Library.read?, Library.write, hparse, Option.bind_some, h.decode_encode ha]

theorem Faithful.bind_encode {β : Type} (make : α → β) {a : α} (ha : keeps a) :
    ((decode? (encode a)).bind fun a => some (make a)) = some (make a) := by
  rw [h.decode_encode ha, Option.bind_some]

theorem Faithful.of_bind {β : Type} (make : α → β) {v : Value} {b : β}
    (hb : ((decode? v).bind fun a => some (make a)) = some b) : ∃ a, keeps a ∧ make a = b := by
  obtain ⟨a, ha, hb⟩ := Option.bind_eq_some_iff.mp hb
  exact ⟨a, h.of_decode ha, Option.some.inj hb⟩

theorem Faithful.field_encode {a : α} (ha : keeps a) : field? (some (encode a)) = some a :=
  h.decode_encode ha

theorem Faithful.of_read? {lib : Library} {s : String} {a : α} (ha : lib.read? s = some a) :
    keeps a := by
  obtain ⟨v, -, hv⟩ := Option.bind_eq_some_iff.mp ha
  exact h.of_decode hv

theorem Faithful.of_fieldOr {missing : Option α} (hmissing : ∀ {a}, missing = some a → keeps a)
    {f : Option Value} {a : α} (ha : fieldOr missing f = some a) : keeps a := by
  cases f with
  | none => exact hmissing ha
  | some v => exact h.of_decode ha

theorem Faithful.of_field {f : Option Value} {a : α} (ha : field? f = some a) : keeps a :=
  h.of_fieldOr h.of_absent ha

end

/-! ## Records -/

def entry (f : String × Value) : Option (List Char) × Value := (some f.1.toList, f.2)

theorem entriesNamed_entry (name : String) (fields : List (String × Value)) :
    entriesNamed name (fields.map entry) = (fields.filter fun f => f.1 = name).map (·.2) := by
  have hname : ∀ f : String × Value, ((entry f).1 = some name.toList) = (f.1 = name) := by
    intro f
    rw [entry, Option.some.injEq, String.toList_inj]
  rw [entriesNamed, List.filter_map, List.map_map]
  simp only [Function.comp_def, hname]
  rfl

theorem filter_named {fields : List (String × Value)} (hfields : (fields.map (·.1)).Nodup)
    {f : String × Value} (hf : f ∈ fields) : (fields.filter fun g => g.1 = f.1) = [f] := by
  induction fields with
  | nil => cases hf
  | cons g fields ih =>
    obtain ⟨hg, hrest⟩ := List.nodup_cons.mp hfields
    by_cases heq : g.1 = f.1
    · have hnone : (fields.filter fun g => g.1 = f.1) = [] := by
        rw [List.filter_eq_nil_iff]
        intro g' hg' hname
        exact hg (List.mem_map.mpr ⟨g', hg', (of_decide_eq_true hname).trans heq.symm⟩)
      have hfg : f = g := by
        obtain rfl | hf := List.mem_cons.mp hf
        · rfl
        · exact absurd (List.mem_map.mpr ⟨f, hf, heq.symm⟩) hg
      rw [List.filter_cons_of_pos (by simp [heq]), hnone, hfg]
    · have hf' : f ∈ fields := by
        obtain rfl | hf := List.mem_cons.mp hf
        · exact absurd rfl heq
        · exact hf
      rw [List.filter_cons_of_neg (by simp [heq]), ih hrest hf']

/-- The fields of a record are found under their names. -/
theorem fields?_record (short : Bool) (fields : List (String × Value))
    (hfields : (fields.map (·.1)).Nodup) :
    fields? short (fields.map (·.1)) (record fields) = some (fields.map fun f => some f.2) := by
  have hnamed : ∀ f ∈ fields, entriesNamed f.1 (fields.map entry) = [f.2] := by
    intro f hf
    rw [entriesNamed_entry, filter_named hfields hf, List.map_singleton]
  have hall : ((fields.map entry).all (·.1.isSome) && (fields.map (·.1)).all fun n =>
      (entriesNamed n (fields.map entry)).length ≤ 1) = true := by
    rw [Bool.and_eq_true, List.all_map, List.all_map, List.all_eq_true, List.all_eq_true]
    refine ⟨fun f _ => rfl, fun f hf => ?_⟩
    rw [Function.comp_apply, hnamed f hf]
    rfl
  calc fields? short (fields.map (·.1)) (record fields)
      = some ((fields.map (·.1)).map fun n => (entriesNamed n (fields.map entry)).head?) :=
        if_pos hall
    _ = some (fields.map fun f => some f.2) := by
        rw [List.map_map, Option.some.injEq, List.map_inj_left]
        intro f hf
        rw [Function.comp_apply, hnamed f hf]
        rfl

theorem bind_record {α : Type} (short : Bool) (fields : List (String × Value))
    (hfields : (fields.map (·.1)).Nodup) (read : List (Option Value) → Option α) :
    (fields? short (fields.map (·.1)) (record fields)).bind read =
      read (fields.map fun f => some f.2) := by
  rw [fields?_record short fields hfields, Option.bind_some]

theorem record_written {depth : Nat} {fields : List (String × Value)}
    (h : ∀ f ∈ fields, f.2.Written depth) : (record fields).Written (depth + 1) :=
  .object (List.forall_mem_map.mpr fun _ _ => rfl) (List.forall_mem_map.mpr h)

/-! ## Choices -/

theorem fullChoice?_choice (name : String) (v : Value) :
    fullChoice? (choice name v) = some (name, v) := by
  simp [fullChoice?, choice?, choice]

theorem bind_choice {α : Type} (name : String) (v : Value) (read : String × Value → Option α) :
    (fullChoice? (choice name v)).bind read = read (name, v) := by
  rw [fullChoice?_choice, Option.bind_some]

theorem bareChoice?_ofString (name : String) : bareChoice? (.ofString name) = some name := by
  simp [bareChoice?, choice?, Value.ofString]

theorem choice_written (name : String) {depth : Nat} {v : Value} (hv : v.Written depth) :
    (choice name v).Written (depth + 1) :=
  .object (List.forall_mem_singleton.mpr rfl) (List.forall_mem_singleton.mpr hv)

/-! ## Plain types -/

theorem encode_float {x : Float} (hx : x.isFinite = true) : encode x = .float (some ⟨x, hx⟩) :=
  dif_pos hx

theorem faithful_float : Faithful Float 0 fun x => x.isFinite = true where
  written hx := by
    rw [encode_float hx]
    exact .float _
  decode_encode hx := by
    rw [encode_float hx]
    rfl
  of_decode {v x} hx := by
    cases v with
    | float y =>
      obtain ⟨y, -, rfl⟩ := Option.map_eq_some_iff.mp hx
      exact y.finite
    | whole n => exact (Decimal.isFinite_of_toFloat? hx).1
    | _ => cases hx
  of_absent hx := by cases hx

theorem faithful_nat : Faithful Nat 0 fun n => n ≤ wordMax where
  written hn := .whole hn
  decode_encode hn := if_pos hn
  of_decode {v n} hn := by
    cases v with
    | whole m =>
      change (if m ≤ wordMax then some m else none) = some n at hn
      split at hn
      · rename_i hm
        cases hn
        exact hm
      · cases hn
    | _ => cases hn
  of_absent hn := by cases hn

theorem faithful_bool : Faithful Bool 0 fun _ => True where
  written {b} _ := .bool b
  decode_encode _ := rfl
  of_decode _ := trivial
  of_absent _ := trivial

theorem faithful_string : Faithful String 0 fun _ => True where
  written {s} _ := .text s.toList
  decode_encode _ := congrArg some (String.ofList_toList)
  of_decode _ := trivial
  of_absent _ := trivial

section
variable {α : Type} [Codec α] {depth : Nat} {keeps : α → Prop} (h : Faithful α depth keeps)
include h

theorem Faithful.congr {keeps' : α → Prop} (hkeeps : ∀ a, keeps a ↔ keeps' a) :
    Faithful α depth keeps' := by
  obtain rfl : keeps = keeps' := funext fun a => propext (hkeeps a)
  exact h

/-- Since `null` stands for nothing, no value may be written as `null`. -/
theorem Faithful.option (hnull : ∀ a : α, keeps a → encode a ≠ .null) :
    Faithful (Option α) depth fun o => ∀ a ∈ o, keeps a where
  written {o} ho := by
    cases o with
    | none => exact .null
    | some a => exact h.written (ho a rfl)
  decode_encode {o} ho := by
    cases o with
    | none => rfl
    | some a =>
      have ha := ho a rfl
      have hdecode := h.decode_encode ha
      have hne := hnull a ha
      show decode? (encode a) = some (some a)
      -- what `null` is read as depends on nothing, all else is read as it would be alone
      generalize encode a = v at *
      cases v with
      | null => exact absurd rfl hne
      | _ => exact congrArg (Option.map some) hdecode
  of_decode {v o} ho a ha := by
    have hv : o = none ∨ (decode? v).map some = some o := by
      cases v with
      | null => exact Or.inl (Option.some.inj ho).symm
      | _ => exact Or.inr ho
    obtain rfl | ho := hv
    · cases ha
    · obtain ⟨b, hb, rfl⟩ := Option.map_eq_some_iff.mp ho
      cases ha
      exact h.of_decode hb
  of_absent {o} ho a ha := by
    cases ho
    cases ha

theorem Faithful.of_mapM : ∀ {vs : List Value} {as : List α}, vs.mapM decode? = some as →
    ∀ a ∈ as, keeps a
  | [], _, has => by
    cases has
    exact List.forall_mem_nil _
  | v :: vs, _, has => by
    rw [List.mapM_cons] at has
    obtain ⟨a, ha, has⟩ := Option.bind_eq_some_iff.mp has
    obtain ⟨as, hrest, has⟩ := Option.bind_eq_some_iff.mp has
    cases has
    exact List.forall_mem_cons.mpr ⟨h.of_decode ha, Faithful.of_mapM hrest⟩

theorem Faithful.list : Faithful (List α) (depth + 1) fun as => ∀ a ∈ as, keeps a where
  written has := .array (List.forall_mem_map.mpr fun a ha => h.written (has a ha))
  decode_encode {as} has := by
    show (as.map encode).mapM decode? = some as
    induction as with
    | nil => rfl
    | cons a as ih =>
      obtain ⟨ha, has⟩ := List.forall_mem_cons.mp has
      rw [List.map_cons, List.mapM_cons, h.decode_encode ha, ih has]
      rfl
  of_decode {v as} has a ha := by
    cases v with
    | array vs => exact h.of_mapM has a ha
    | _ => cases has
  of_absent has := by cases has

end

end Patchbay.Json
