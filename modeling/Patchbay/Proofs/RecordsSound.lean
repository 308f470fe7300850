import Patchbay.Json.Records
import Patchbay.Proofs.CodecSound
import Patchbay.Proofs.JsonSound

/-!
# Documents read back

With any lawful library, messages, topologies, filters, configurations and argument records come
back from their texts if their numbers are finite and their counts fit into machine words. Whatever
is read is such a document, and is written in a form that is read as the same again.
-/

namespace Patchbay

/-! ## What can be stored -/

open Json (wordMax)

def Token.Storable : Token Float → Prop
  | .float v => v.isFinite = true
  | .symbol _ => True

def PortId.Storable (p : PortId) : Prop := p.index ≤ wordMax

def Port.Storable (p : Port) : Prop := p.id.Storable

structure Topology.Storable (t : Topology) : Prop where
  inlets : ∀ p ∈ t.inlets, p.Storable
  outlets : ∀ p ∈ t.outlets, p.Storable

/-- Channels are counted in sixteen bits. -/
structure Config.Storable (c : Config Float) : Prop where
  sampleRate : c.sampleRate.isFinite = true
  blockSize : c.blockSize ≤ wordMax
  channels : c.channels < Nat.pow 2 16

theorem Config.Storable.channels_word {c : Config Float} (h : c.Storable) : c.channels ≤ wordMax :=
  h.channels.le.trans (by decide)

structure Bounds.Storable (b : Bounds Float) : Prop where
  min : b.min.isFinite = true
  max : b.max.isFinite = true

def RouteFilter.Storable : RouteFilter Float → Prop
  | .float v => v.isFinite = true
  | .symbol _ | .keyword _ => True

def ControlValue.Storable : ControlValue Float → Prop
  | .float v => v.isFinite = true
  | .symbol _ => True
  | .list m => ∀ t ∈ m, t.Storable

structure ControlArgs.Storable (a : ControlArgs Float) : Prop where
  bounds : ∀ b ∈ a.bounds, b.Storable
  initValue : a.initValue.Storable

namespace Json

open Codec

/-! ## Choices -/

theorem faithful_name {α : Type} [Codec α] (name : α → String) (named? : String → Option α)
    (hencode : ∀ a : α, encode a = .ofString (name a))
    (hdecode : ∀ v, decode? v = (bareChoice? v).bind named?) (hname : ∀ a, named? (name a) = some a) :
    Faithful α 0 fun _ => True where
  written {a} _ := by
    rw [hencode]
    exact .text _
  decode_encode {a} _ := by
    rw [hdecode, hencode, bareChoice?_ofString, Option.bind_some, hname]
  of_decode _ := trivial
  of_absent _ := trivial

theorem faithful_kind : Faithful Kind 0 fun _ => True :=
  faithful_name Kind.text _ (fun _ => rfl) (fun _ => rfl) fun k => by cases k <;> rfl

theorem faithful_keyword : Faithful Keyword 0 fun _ => True :=
  faithful_name Keyword.text _ (fun _ => rfl) (fun _ => rfl) fun k => by cases k <;> rfl

theorem faithful_token : Faithful (Token Float) 1 Token.Storable where
  written {t} ht := by
    cases t with
    | float v => exact choice_written "Float" (faithful_float.written ht)
    | symbol s => exact choice_written "Symbol" (faithful_string.written trivial)
  decode_encode {t} ht := by
    cases t with
    | float v => exact (bind_choice "Float" _ _).trans (faithful_float.bind_encode Token.float ht)
    | symbol s =>
      exact (bind_choice "Symbol" _ _).trans (faithful_string.bind_encode Token.symbol ht)
  of_decode {v t} ht := by
    obtain ⟨c, -, ht⟩ := Option.bind_eq_some_iff.mp ht
    split at ht
    · obtain ⟨x, hx, rfl⟩ := faithful_float.of_bind Token.float ht
      exact hx
    · obtain ⟨s, hs, rfl⟩ := faithful_string.of_bind Token.symbol ht
      exact hs
    · cases ht
  of_absent ht := by cases ht

theorem faithful_filter : Faithful (RouteFilter Float) 1 RouteFilter.Storable where
  written {f} hf := by
    cases f with
    | float v => exact choice_written "Float" (faithful_float.written hf)
    | symbol s => exact choice_written "Symbol" (faithful_string.written trivial)
    | keyword k => exact choice_written "Keyword" (faithful_keyword.written trivial)
  decode_encode {f} hf := by
    cases f with
    | float v =>
      exact (bind_choice "Float" _ _).trans (faithful_float.bind_encode RouteFilter.float hf)
    | symbol s =>
      exact (bind_choice "Symbol" _ _).trans (faithful_string.bind_encode RouteFilter.symbol hf)
    | keyword k =>
      exact (bind_choice "Keyword" _ _).trans (faithful_keyword.bind_encode RouteFilter.keyword hf)
  of_decode {v f} hf := by
    obtain ⟨c, -, hf⟩ := Option.bind_eq_some_iff.mp hf
    split at hf
    · obtain ⟨x, hx, rfl⟩ := faithful_float.of_bind RouteFilter.float hf
      exact hx
    · obtain ⟨s, hs, rfl⟩ := faithful_string.of_bind RouteFilter.symbol hf
      exact hs
    · obtain ⟨k, hk, rfl⟩ := faithful_keyword.of_bind RouteFilter.keyword hf
      exact hk
    · cases hf
  of_absent hf := by cases hf

theorem faithful_value : Faithful (ControlValue Float) 3 ControlValue.Storable where
  written {a} ha := by
    cases a with
    | float v => exact choice_written "Float" (.mono (faithful_float.written ha) (by decide))
    | symbol s => exact choice_written "Symbol" (.mono (faithful_string.written trivial) (by decide))
    | list m => exact choice_written "List" (faithful_token.list.written ha)
  decode_encode {a} ha := by
    cases a with
    | float v =>
      exact (bind_choice "Float" _ _).trans (faithful_float.bind_encode ControlValue.float ha)
    | symbol s =>
      exact (bind_choice "Symbol" _ _).trans (faithful_string.bind_encode ControlValue.symbol ha)
    | list m =>
      exact (bind_choice "List" _ _).trans (faithful_token.list.bind_encode ControlValue.list ha)
  of_decode {v a} ha := by
    obtain ⟨c, -, ha⟩ := Option.bind_eq_some_iff.mp ha
    split at ha
    · obtain ⟨x, hx, rfl⟩ := faithful_float.of_bind ControlValue.float ha
      exact hx
    · obtain ⟨s, hs, rfl⟩ := faithful_string.of_bind ControlValue.symbol ha
      exact hs
    · obtain ⟨m, hm, rfl⟩ := faithful_token.list.of_bind ControlValue.list ha
      exact hm
    · cases ha
  of_absent ha := by cases ha

/-! ## Records -/

theorem faithful_portId : Faithful PortId 1 PortId.Storable where
  written hp := record_written (by
    simp only [List.forall_mem_cons]
    exact ⟨faithful_nat.written hp, faithful_bool.written trivial, List.forall_mem_nil _⟩)
  decode_encode {p} hp := by
    have hindex : field? (some (encode p.index)) = some p.index := faithful_nat.field_encode hp
    have hshadow : field? (some (encode p.shadow)) = some p.shadow :=
      faithful_bool.field_encode trivial
    refine (bind_record false [("index", encode p.index), ("shadow", encode p.shadow)]
      (by simp) _).trans ?_
    simp [hindex, hshadow]
  of_decode {v p} hp := by
    obtain ⟨fs, -, hp⟩ := Option.bind_eq_some_iff.mp hp
    split at hp
    · obtain ⟨index, hindex, hp⟩ := Option.bind_eq_some_iff.mp hp
      obtain ⟨shadow, -, hp⟩ := Option.bind_eq_some_iff.mp hp
      cases hp
      exact faithful_nat.of_field hindex
    · cases hp
  of_absent hp := by cases hp

theorem faithful_port : Faithful Port 2 Port.Storable where
  written hp := record_written (by
    simp only [List.forall_mem_cons]
    exact ⟨faithful_portId.written hp, .mono (faithful_kind.written trivial) (by decide),
      List.forall_mem_nil _⟩)
  decode_encode {p} hp := by
    have hid : field? (some (encode p.id)) = some p.id := faithful_portId.field_encode hp
    have hkind : field? (some (encode p.kind)) = some p.kind := faithful_kind.field_encode trivial
    refine (bind_record false [("id", encode p.id), ("kind", encode p.kind)] (by simp) _).trans ?_
    simp [hid, hkind]
  of_decode {v p} hp := by
    obtain ⟨fs, -, hp⟩ := Option.bind_eq_some_iff.mp hp
    split at hp
    · obtain ⟨id, hid, hp⟩ := Option.bind_eq_some_iff.mp hp
      obtain ⟨kind, -, hp⟩ := Option.bind_eq_some_iff.mp hp
      cases hp
      exact faithful_portId.of_field hid
    · cases hp
  of_absent hp := by cases hp

theorem faithful_topology : Faithful Topology 4 Topology.Storable where
  written ht := record_written (by
    simp only [List.forall_mem_cons]
    exact ⟨faithful_port.list.written ht.inlets, faithful_port.list.written ht.outlets,
      .mono (faithful_bool.written trivial) (by decide), List.forall_mem_nil _⟩)
  decode_encode {t} ht := by
    have hinlets : field? (some (encode t.inlets)) = some t.inlets :=
      faithful_port.list.field_encode ht.inlets
    have houtlets : field? (some (encode t.outlets)) = some t.outlets :=
      faithful_port.list.field_encode ht.outlets
    have hpushing : field? (some (encode t.pushing)) = some t.pushing :=
      faithful_bool.field_encode trivial
    refine (bind_record false [("inlets", encode t.inlets), ("outlets", encode t.outlets),
      ("is_pushing_messages", encode t.pushing)] (by simp) _).trans ?_
    simp [hinlets, houtlets, hpushing]
  of_decode {v t} ht := by
    obtain ⟨fs, -, ht⟩ := Option.bind_eq_some_iff.mp ht
    split at ht
    · obtain ⟨inlets, hinlets, ht⟩ := Option.bind_eq_some_iff.mp ht
      obtain ⟨outlets, houtlets, ht⟩ := Option.bind_eq_some_iff.mp ht
      obtain ⟨pushing, -, ht⟩ := Option.bind_eq_some_iff.mp ht
      cases ht
      exact ⟨faithful_port.list.of_field hinlets, faithful_port.list.of_field houtlets⟩
    · cases ht
  of_absent ht := by cases ht

theorem Config.standard_storable : Config.standard.Storable :=
  ⟨rfl, by decide, by decide⟩

theorem faithful_config : Faithful (Config Float) 1 Config.Storable where
  written hc := record_written (by
    simp only [List.forall_mem_cons]
    exact ⟨faithful_float.written hc.sampleRate, faithful_nat.written hc.blockSize,
      faithful_nat.written hc.channels_word, List.forall_mem_nil _⟩)
  decode_encode {c} hc := by
    have hrate : ∀ missing, fieldOr missing (some (encode c.sampleRate)) = some c.sampleRate :=
      fun _ => faithful_float.decode_encode hc.sampleRate
    have hblock : ∀ missing, fieldOr missing (some (encode c.blockSize)) = some c.blockSize :=
      fun _ => faithful_nat.decode_encode hc.blockSize
    have hchannels : ∀ missing, fieldOr missing (some (encode c.channels)) = some c.channels :=
      fun _ => faithful_nat.decode_encode hc.channels_word
    refine (bind_record true [("sample_rate", encode c.sampleRate),
      ("block_size", encode c.blockSize), ("channel_count", encode c.channels)]
      (by simp) _).trans ?_
    simp [hrate, hblock, hchannels, hc.channels]
  of_decode {v c} hc := by
    obtain ⟨fs, -, hc⟩ := Option.bind_eq_some_iff.mp hc
    split at hc
    · obtain ⟨channels, -, hc⟩ := Option.bind_eq_some_iff.mp hc
      split at hc
      · rename_i hchannels
        obtain ⟨rate, hrate, hc⟩ := Option.bind_eq_some_iff.mp hc
        obtain ⟨block, hblock, hc⟩ := Option.bind_eq_some_iff.mp hc
        cases hc
        refine ⟨faithful_float.of_fieldOr ?_ hrate, faithful_nat.of_fieldOr ?_ hblock, hchannels⟩
        · intro x hx
          cases hx
          exact Config.standard_storable.sampleRate
        · intro n hn
          cases hn
          exact Config.standard_storable.blockSize
      · cases hc
    · cases hc
  of_absent hc := by cases hc

theorem faithful_bounds : Faithful (Bounds Float) 1 Bounds.Storable where
  written hb := record_written (by
    simp only [List.forall_mem_cons]
    exact ⟨faithful_float.written hb.min, faithful_float.written hb.max, List.forall_mem_nil _⟩)
  decode_encode {b} hb := by
    have hmin : field? (some (encode b.min)) = some b.min := faithful_float.field_encode hb.min
    have hmax : field? (some (encode b.max)) = some b.max := faithful_float.field_encode hb.max
    refine (bind_record false [("min", encode b.min), ("max", encode b.max)] (by simp) _).trans ?_
    simp [hmin, hmax]
  of_decode {v b} hb := by
    obtain ⟨fs, -, hb⟩ := Option.bind_eq_some_iff.mp hb
    split at hb
    · obtain ⟨min, hmin, hb⟩ := Option.bind_eq_some_iff.mp hb
      obtain ⟨max, hmax, hb⟩ := Option.bind_eq_some_iff.mp hb
      cases hb
      exact ⟨faithful_float.of_field hmin, faithful_float.of_field hmax⟩
    · cases hb
  of_absent hb := by cases hb

theorem faithful_bounds? : Faithful (Option (Bounds Float)) 1 fun o => ∀ b ∈ o, b.Storable :=
  faithful_bounds.option fun _ _ h => by cases h

theorem faithful_bus? : Faithful (Option String) 0 fun _ => True :=
  (faithful_string.option fun _ _ h => by cases h).congr fun _ => by simp

theorem faithful_controlArgs : Faithful (ControlArgs Float) 4 ControlArgs.Storable where
  written {a} ha := by
    have hbus : ∀ bus : Option String, (encode bus).Written 3 :=
      fun _ => .mono (faithful_bus?.written trivial) (by decide)
    refine record_written ?_
    simp only [List.forall_mem_cons]
    exact ⟨.mono (faithful_bounds?.written ha.bounds) (by decide),
      faithful_value.written ha.initValue, .mono (faithful_bool.written trivial) (by decide),
      hbus _, hbus _, List.forall_mem_nil _⟩
  decode_encode {a} ha := by
    have hbounds : field? (some (encode a.bounds)) = some a.bounds :=
      faithful_bounds?.field_encode ha.bounds
    have hvalue : field? (some (encode a.initValue)) = some a.initValue :=
      faithful_value.field_encode ha.initValue
    have hload : field? (some (encode a.outputOnLoad)) = some a.outputOnLoad :=
      faithful_bool.field_encode trivial
    have hbus : ∀ bus : Option String, field? (some (encode bus)) = some bus :=
      fun _ => faithful_bus?.field_encode trivial
    refine (bind_record false [("bounds", encode a.bounds), ("init_value", encode a.initValue),
      ("output_on_load", encode a.outputOnLoad), ("receive_bus_name", encode a.receiveBus),
      ("send_bus_name", encode a.sendBus)] (by simp) _).trans ?_
    simp [hbounds, hvalue, hload, hbus]
  of_decode {v a} ha := by
    obtain ⟨fs, -, ha⟩ := Option.bind_eq_some_iff.mp ha
    split at ha
    · obtain ⟨bounds, hbounds, ha⟩ := Option.bind_eq_some_iff.mp ha
      obtain ⟨value, hvalue, ha⟩ := Option.bind_eq_some_iff.mp ha
      obtain ⟨load, -, ha⟩ := Option.bind_eq_some_iff.mp ha
      obtain ⟨receive, -, ha⟩ := Option.bind_eq_some_iff.mp ha
      obtain ⟨send, -, ha⟩ := Option.bind_eq_some_iff.mp ha
      cases ha
      exact ⟨faithful_bounds?.of_field hbounds, faithful_value.of_field hvalue⟩
    · cases ha
  of_absent ha := by cases ha

/-- A record of one field is as faithful as the field. -/
theorem faithful_single {α β : Type} [Codec β] {depth : Nat} {keeps : β → Prop}
    (h : Faithful β depth keeps) (name : String) (get : α → β) (make : β → α)
    (hmake : ∀ a, make (get a) = a) (hget : ∀ b, get (make b) = b) :
    @Faithful α (single name get make) (depth + 1) fun a => keeps (get a) := by
  let _ : Codec α := single name get make
  exact {
    written := fun ha => record_written (List.forall_mem_singleton.mpr (h.written ha))
    decode_encode := by
      intro a ha
      have hfield : field? (some (encode (get a))) = some (get a) := h.field_encode ha
      refine (bind_record false [(name, encode (get a))] (List.nodup_singleton name) _).trans ?_
      simp [hfield, hmake]
    of_decode := by
      intro v a ha
      obtain ⟨fs, -, ha⟩ := Option.bind_eq_some_iff.mp ha
      split at ha
      · obtain ⟨b, hb, ha⟩ := Option.bind_eq_some_iff.mp ha
        cases ha
        rw [hget]
        exact h.of_field hb
      · cases ha
    of_absent := by
      intro a ha
      cases ha }

/-! ## Documents -/

/-- A type whose texts lose nothing: the values that can be stored are read back, and whatever is
read is such a value, with a text that is read as the same value and written as the same text. -/
structure ReadsBack (lib : Library) (α : Type) [Codec α] (storable : α → Prop) : Prop where
  read_write : ∀ a : α, storable a → lib.read? (lib.write a) = some a
  settled : ∀ (s : String) (a : α), lib.read? s = some a →
    storable a ∧ (lib.read? (lib.write a)).map (fun b : α => (b, lib.write b)) =
      some (a, lib.write a)

section
variable {lib : Library} (hlib : lib.Lawful)
include hlib

theorem Faithful.readsBack {α : Type} [Codec α] {depth : Nat} {keeps : α → Prop}
    (h : Faithful α depth keeps) (hdepth : depth ≤ Library.nesting) : ReadsBack lib α keeps where
  read_write _ ha := h.read?_write hlib hdepth ha
  settled s a ha := by
    have hkeeps := h.of_read? ha
    refine ⟨hkeeps, ?_⟩
    rw [h.read?_write hlib hdepth hkeeps]
    rfl

theorem Faithful.readsBack_single {α β : Type} [Codec β] {depth : Nat} {keeps : β → Prop}
    (h : Faithful β depth keeps) (hdepth : depth < Library.nesting) {name : String} {get : α → β}
    {make : β → α} (hmake : ∀ a, make (get a) = a) (hget : ∀ b, get (make b) = b) :
    @ReadsBack lib α (single name get make) fun a => keeps (get a) := by
  let _ : Codec α := single name get make
  exact (faithful_single h name get make hmake hget).readsBack hlib hdepth

end

/-- Every document comes back from its text, whatever characters its names are made of. -/
theorem documents_read_back {lib : Library} (hlib : lib.Lawful) :
    ReadsBack lib (Message Float) (fun m => ∀ t ∈ m, t.Storable) ∧
    ReadsBack lib Topology Topology.Storable ∧
    ReadsBack lib (RouteFilter Float) RouteFilter.Storable ∧
    ReadsBack lib (Config Float) Config.Storable ∧
    ReadsBack lib (ControlArgs Float) ControlArgs.Storable ∧
    ReadsBack lib (FilterArgs Float) (fun a => a.initValue.isFinite = true) ∧
    ReadsBack lib (OscillatorArgs Float) (fun a => a.frequency.isFinite = true) ∧
    ReadsBack lib (ConstantArgs Float) (fun a => a.initValue.isFinite = true) ∧
    ReadsBack lib PrintArgs (fun _ => True) ∧
    ReadsBack lib (RouteArgs Float) (fun a => ∀ t ∈ a.filters, t.Storable) ∧
    ReadsBack lib SendArgs (fun _ => True) ∧
    ReadsBack lib ReceiveArgs (fun _ => True) := by
  refine ⟨faithful_token.list.readsBack hlib (by decide),
    faithful_topology.readsBack hlib (by decide), faithful_filter.readsBack hlib (by decide),
    faithful_config.readsBack hlib (by decide), faithful_controlArgs.readsBack hlib (by decide),
    ?_, ?_, ?_, ?_, ?_, ?_, ?_⟩
  · exact faithful_float.readsBack_single hlib (by decide) (fun _ => rfl) fun _ => rfl
  · exact faithful_float.readsBack_single hlib (by decide) (fun _ => rfl) fun _ => rfl
  · exact faithful_float.readsBack_single hlib (by decide) (fun _ => rfl) fun _ => rfl
  · exact faithful_string.readsBack_single hlib (by decide) (fun _ => rfl) fun _ => rfl
  · exact faithful_token.list.readsBack_single hlib (by decide) (fun _ => rfl) fun _ => rfl
  · exact faithful_bus?.readsBack_single hlib (by decide) (fun _ => rfl) fun _ => rfl
  · exact faithful_string.readsBack_single hlib (by decide) (fun _ => rfl) fun _ => rfl

/-- A tenth, minus zero, and a name made of a quote, a backslash and a zero character. -/
theorem documents_read_back_odd :
    let m : Message Float := [.float 0.1, .float (-0), .symbol "\"\\\u0000"]
    Library.plain.Lawful ∧
      write m = "[\x7b\"Float\":0.1\x7d,\x7b\"Float\":-0.0\x7d,\x7b\"Symbol\":\"\\\"\\\\\\u0000\"\x7d]" ∧
      read? (write m) = some m := by
  intro m
  refine ⟨Library.plain_lawful, by decide +kernel, ?_⟩
  refine (documents_read_back Library.plain_lawful).1.read_write m ?_
  rw [List.forall_mem_cons, List.forall_mem_cons, List.forall_mem_singleton]
  exact ⟨(by decide : (0.1 : Float).isFinite = true), (by decide : (-0 : Float).isFinite = true),
    trivial⟩

end Json

end Patchbay
