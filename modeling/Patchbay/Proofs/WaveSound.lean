import Patchbay.Proofs.SinglePrecision
import Patchbay.Wave
import Patchbay.Wave.Reader

/-!
# Sound files read back

What a reader finds in a file is what the file was made of: the channels, the rate as a whole
number, and a frame for every sample with the sample in each channel.
-/

namespace Patchbay

namespace Wave

/-! ## Fields -/

@[simp] theorem length_littleEndian (n : Nat) : ∀ x, (littleEndian n x).length = n := by
  induction n with
  | zero => exact fun _ => rfl
  | succ n ih => exact fun x => congrArg Nat.succ (ih _)

theorem number_littleEndian (n : Nat) : ∀ x, x < 256 ^ n → number (littleEndian n x) = x := by
  induction n with
  | zero => exact fun x hx => (Nat.lt_one_iff.mp hx).symm
  | succ n ih =>
    intro x hx
    have hrest : x / 256 < 256 ^ n := by
      rw [pow_succ] at hx
      omega
    have hfirst : (UInt8.ofNat (x % 256)).toNat = x % 256 := by simp
    rw [littleEndian, number, ih _ hrest, hfirst]
    omega

theorem field_skip {front rest : List UInt8} {start : Nat} (size : Nat)
    (h : front.length ≤ start) :
    field (front ++ rest) start size = field rest (start - front.length) size := by
  rw [field, List.drop_append, List.drop_of_length_le h, List.nil_append]
  rfl

theorem field_next {n x start : Nat} (rest : List UInt8) (size : Nat) (h : n ≤ start) :
    field (littleEndian n x ++ rest) start size = field rest (start - n) size := by
  rw [field_skip size ((length_littleEndian n x).trans_le h), length_littleEndian]

theorem field_here {n x : Nat} (rest : List UInt8) (hx : x < 256 ^ n) :
    field (littleEndian n x ++ rest) 0 n = x := by
  rw [field, List.drop_zero, List.take_left' (length_littleEndian n x), number_littleEndian n x hx]

/-! ## Chunks -/

section
variable {name : String} {body : List UInt8}

theorem length_chunk (hname : (ascii name).length = 4) :
    (chunk name body).length = 8 + body.length := by
  simp [chunk, hname]
  omega

theorem chunk_field (hname : (ascii name).length = 4) (hbody : body.length < 256 ^ 4)
    (rest : List UInt8) : field (chunk name body ++ rest) 4 4 = body.length := by
  rw [chunk, List.append_assoc, List.append_assoc, field_skip 4 hname.le, hname, Nat.sub_self,
    field_here _ hbody]

theorem chunk_body (hname : (ascii name).length = 4) (rest : List UInt8) :
    (chunk name body ++ rest).drop 8 = body ++ rest := by
  rw [chunk, List.append_assoc, List.drop_left' (by simp [hname])]

theorem chunk_name (hname : (ascii name).length = 4) (rest : List UInt8) :
    (chunk name body ++ rest).take 4 = ascii name := by
  rw [chunk, List.append_assoc, List.append_assoc, List.take_left' hname]

theorem chunks_chunk (hname : (ascii name).length = 4) (hbody : body.length < 256 ^ 4)
    (heven : body.length % 2 = 0) (rest : List UInt8) :
    chunks (chunk name body ++ rest) = (ascii name, body) :: chunks rest := by
  have hlength : (chunk name body ++ rest).length = 8 + body.length + rest.length := by
    rw [List.length_append, length_chunk hname]
  rw [chunks, chunk_field hname hbody, if_neg (by omega), chunk_name hname, chunk_body hname, heven,
    List.take_left, Nat.add_zero, ← List.drop_drop, chunk_body hname, List.drop_left]

theorem chunks_nil : chunks [] = [] := by
  rw [chunks]
  rfl

end

/-! ## The format -/

section
variable {spec : Spec} (mask : Nat)

theorem length_formatBody : (formatBody spec mask).length = 40 := by
  simp [formatBody, SampleFormat.bytes]

theorem format?_formatBody (hbits : spec.bits = 32) (hformat : spec.format = .float)
    (hnone : spec.channels ≠ 0) (hchannels : 4 * spec.channels < 2 ^ 16)
    (hfits : spec.rate * (4 * spec.channels) < 2 ^ 32) :
    format? (formatBody spec mask) = some (spec.channels, spec.rate) := by
  have hframe : spec.frameLength = 4 * spec.channels := by
    rw [Spec.frameLength, hbits]
  have htail : (formatBody spec mask).drop 24 = SampleFormat.float.bytes := by
    rw [formatBody, hformat]
    exact List.drop_left' (by simp)
  have hfields : formatBody spec mask = littleEndian 2 0xfffe ++ (littleEndian 2 spec.channels ++
      (littleEndian 4 spec.rate ++ (littleEndian 4 (spec.rate * (4 * spec.channels)) ++
        (littleEndian 2 (4 * spec.channels) ++ (littleEndian 2 32 ++ (littleEndian 2 22 ++
          (littleEndian 2 32 ++ (littleEndian 4 mask ++ spec.format.bytes)))))))) := by
    simp only [formatBody, List.append_assoc, hframe, hbits]
  have hrate : spec.rate < 256 ^ 4 :=
    (Nat.le_mul_of_pos_right spec.rate (by omega : 0 < 4 * spec.channels)).trans_lt hfits
  have hbytes : spec.rate * (4 * spec.channels) < 256 ^ 4 := hfits
  have hlength : 4 * spec.channels < 256 ^ 2 := hchannels
  have hcount : spec.channels < 256 ^ 2 := by omega
  unfold format?
  rw [htail, hfields]
  simp (disch := omega) only [field_next, field_here, Nat.reduceSub, and_self, if_true]

end

/-! ## The data -/

theorem pieces_flatten {α : Type} {size : Nat} : ∀ (xss : List (List α)),
    (∀ xs ∈ xss, xs.length = size) → pieces size xss.length xss.flatten = xss
  | [], _ => rfl
  | xs :: xss, h => by
    have hlength := h xs (List.mem_cons_self ..)
    rw [List.length_cons, List.flatten_cons, pieces, List.take_left' hlength,
      List.drop_left' hlength, pieces_flatten xss fun ys hys => h ys (List.mem_cons_of_mem _ hys)]

theorem length_flatten_of {α : Type} {size : Nat} {xss : List (List α)}
    (h : ∀ xs ∈ xss, xs.length = size) : xss.flatten.length = size * xss.length := by
  rw [List.length_flatten, List.map_congr_left h, List.map_const', List.sum_replicate, smul_eq_mul,
    Nat.mul_comm]

theorem length_sampleBytes (x : Float32) : (sampleBytes x).length = 4 := length_littleEndian ..

theorem length_data (xs : List Float32) : (xs.flatMap sampleBytes).length = 4 * xs.length := by
  have hall : ∀ bytes ∈ xs.map sampleBytes, bytes.length = 4 :=
    List.forall_mem_map.mpr fun x _ => length_sampleBytes x
  rw [List.flatMap_def, length_flatten_of hall, List.length_map]

theorem frame_data (xs : List Float32) : frame xs.length (xs.flatMap sampleBytes) = xs := by
  have hpieces := pieces_flatten (xs.map sampleBytes) <|
    List.forall_mem_map.mpr fun x _ => length_sampleBytes x
  have hsample : ∀ x : Float32, Float32.ofBits (.ofNat (number (sampleBytes x))) = x := by
    intro x
    have hlt := x.toBits.toNat_lt
    rw [sampleBytes, number_littleEndian _ _ hlt, UInt32.ofNat_toNat, Float32.ofBits_toBits]
  rw [List.length_map, ← List.flatMap_def] at hpieces
  rw [frame, hpieces, List.map_map]
  exact (List.map_congr_left fun x _ => hsample x).trans (List.map_id xs)

/-- Frames are found again if each has a sample in every channel. -/
theorem frames_data {channels : Nat} (hnone : channels ≠ 0) {xss : List (List Float32)}
    (h : ∀ xs ∈ xss, xs.length = channels) :
    frames channels (xss.flatten.flatMap sampleBytes) = xss := by
  have hframes : ∀ bytes ∈ xss.map (List.flatMap sampleBytes), bytes.length = 4 * channels :=
    List.forall_mem_map.mpr fun xs hxs => by rw [length_data, h xs hxs]
  have hdata : xss.flatten.flatMap sampleBytes = (xss.map (List.flatMap sampleBytes)).flatten := by
    rw [List.flatMap_def, List.map_flatten, List.flatten_flatten, List.map_map]
    rfl
  have hpieces := pieces_flatten _ hframes
  have hcount : (xss.flatten.flatMap sampleBytes).length / (4 * channels) = xss.length := by
    rw [length_data, length_flatten_of h, ← Nat.mul_assoc]
    exact Nat.mul_div_cancel_left _ (by omega)
  rw [List.length_map] at hpieces
  rw [frames, hcount, hdata, hpieces, List.map_map]
  refine (List.map_congr_left fun xs hxs => ?_).trans (List.map_id xss)
  rw [Function.comp_apply, ← h xs hxs, frame_data, id]

/-! ## The file -/

section
variable (spec : Spec) (mask : Nat) {xs : List Float32}

theorem length_extensible : (extensible spec mask xs).length = 68 + 4 * xs.length := by
  rw [extensible, length_chunk rfl, List.length_append, List.length_append, length_chunk rfl,
    length_chunk rfl, length_formatBody, length_data]
  have hwave : (ascii "WAVE").length = 4 := rfl
  omega

/-- What a file is made of. -/
theorem parts_extensible (hsize : 68 + 4 * xs.length < 2 ^ 32) :
    let bytes := extensible spec mask xs
    let format := formatBody spec mask
    let data := xs.flatMap sampleBytes
    bytes.take 4 = ascii "RIFF" ∧ field bytes 4 4 + 8 = bytes.length ∧
      (bytes.drop 8).take 4 = ascii "WAVE" ∧
      chunks (bytes.drop 12) = [(ascii "fmt ", format), (ascii "data", data)] ∧
      field bytes 64 4 = data.length := by
  intro bytes format data
  let body := ascii "WAVE" ++ chunk "fmt " format ++ chunk "data" data
  have hriff : bytes = chunk "RIFF" body ++ [] := (List.append_nil _).symm
  have hbody : body = ascii "WAVE" ++ (chunk "fmt " format ++ (chunk "data" data ++ [])) := by
    rw [List.append_nil, ← List.append_assoc]
  have hwave : (ascii "WAVE").length = 4 := rfl
  have hformat : format.length = 40 := length_formatBody mask
  have hdata : data.length = 4 * xs.length := length_data xs
  have hlength : bytes.length = 8 + body.length := length_chunk rfl
  have hbytes : bytes.length = 68 + 4 * xs.length := length_extensible spec mask
  have hfront : bytes.drop 8 = body := by
    rw [hriff, chunk_body rfl, List.append_nil]
  have hback : bytes.drop 12 = chunk "fmt " format ++ (chunk "data" data ++ []) := by
    rw [← List.drop_drop (i := 4) (j := 8), hfront, hbody, List.drop_left' hwave]
  refine ⟨?_, ?_, ?_, ?_, ?_⟩
  · rw [hriff, chunk_name rfl]
  · rw [hlength, hriff, chunk_field rfl (by omega), Nat.add_comm]
  · rw [hfront, hbody, List.take_left' hwave]
  · rw [hback, chunks_chunk rfl (by omega) (by omega), chunks_chunk rfl (by omega) (by omega),
      chunks_nil]
  · have hwhole : bytes = bytes.take 12 ++ (chunk "fmt " format ++ (chunk "data" data ++ [])) := by
      rw [← hback, List.take_append_drop]
    have htake : (bytes.take 12).length = 12 := by
      rw [List.length_take]
      omega
    rw [hwhole, field_skip 4 (by omega), htake, field_skip 4 (by rw [length_chunk rfl]; omega),
      length_chunk rfl, hformat, chunk_field rfl (by omega)]

theorem read?_extensible (hbits : spec.bits = 32) (hformat : spec.format = .float)
    (hnone : spec.channels ≠ 0) (hchannels : 4 * spec.channels < 2 ^ 16)
    (hfits : spec.rate * (4 * spec.channels) < 2 ^ 32) (hsize : 68 + 4 * xs.length < 2 ^ 32)
    (hwhole : xs.length % spec.channels = 0) : read? (extensible spec mask xs) =
      some ⟨spec.channels, spec.rate, frames spec.channels (xs.flatMap sampleBytes)⟩ := by
  obtain ⟨hriff, hlength, hwave, hchunks, -⟩ := parts_extensible spec mask hsize
  have hframes : (xs.flatMap sampleBytes).length % (4 * spec.channels) = 0 := by
    rw [length_data, Nat.mul_mod_mul_left, hwhole]
  rw [read?, if_pos ⟨hriff, hlength, hwave⟩, hchunks]
  generalize xs.flatMap sampleBytes = data at *
  have hfound : List.lookup (ascii "fmt ")
      [(ascii "fmt ", formatBody spec mask), (ascii "data", data)] =
        some (formatBody spec mask) := rfl
  have hdata : List.lookup (ascii "data")
      [(ascii "fmt ", formatBody spec mask), (ascii "data", data)] = some data := rfl
  simp only [hfound, hdata, Option.bind_some,
    format?_formatBody mask hbits hformat hnone hchannels hfits, hframes, bind, if_true]

end

/-! ## The rate -/

theorem round_exactSize (x : Float) : round (exactSize x) = (Window.ofBits x.toBits).whole := by
  rw [exactSize, Bits.size, ← Window.exact_ofBits, Window.whole_eq_round]

theorem wholeRate_eq {rate : Float} (hpos : Sample.lt 0 rate = true)
    (hfits : (round (exactSize rate)).toNat < 2 ^ 32) :
    wholeRate rate = (round (exactSize rate)).toNat := by
  rw [round_exactSize, Int.toNat_natCast] at hfits ⊢
  rw [wholeRate, if_pos hpos]
  exact min_eq_left (Nat.le_sub_one_of_lt hfits)

theorem of_validate {config : Config Float} (h : config.validate = .ok ()) :
    Sample.lt 0 config.sampleRate = true ∧ config.channels ≠ 0 := by
  unfold Config.validate at h
  split at h
  · cases h
  · rename_i hrate
    split at h
    · cases h
    · split at h
      · cases h
      · rename_i hchannels
        simp only [Bool.not_eq_true', Bool.and_eq_false_iff, not_or, Bool.not_eq_false] at hrate
        exact ⟨hrate.2, hchannels⟩

/-! ## Calls of a library -/

section
variable {World Writer : Type} {lib : Library World Writer}

theorem bind_ok {α β : Type} {f : EStateM WaveError World α} {g : α → EStateM WaveError World β}
    {before after : World} {a : α} (h : f before = .ok a after) : (f >>= g) before = g a after := by
  simp only [bind, EStateM.bind, h]

variable {path : String} {spec : Spec} {held : Writer → List Float32 → World → Prop}
  {before : World} (h : lib.Writes path spec held before)
include h

theorem Library.Writes.samples {writer : Writer} : ∀ (ys : List Float32) {xs : List Float32}
    {world : World}, held writer xs world → 68 + 4 * (xs ++ ys).length < 2 ^ 32 →
    ∃ after, ys.forM (lib.writeSample writer) world = .ok () after ∧ held writer (xs ++ ys) after
  | [], xs, world, hheld, _ => ⟨world, rfl, (List.append_nil xs).symm ▸ hheld⟩
  | y :: ys, xs, world, hheld, hsize => by
    have hroom : 68 + 4 * (xs.length + 1) < Nat.pow 2 32 := by
      rw [List.length_append, List.length_cons] at hsize
      change _ < 2 ^ 32
      omega
    obtain ⟨next, hnext, hheld⟩ := h.writeSample _ _ _ y hheld hroom
    rw [List.append_cons] at hsize ⊢
    obtain ⟨after, hafter, hheld⟩ := Library.Writes.samples ys hheld hsize
    exact ⟨after, (bind_ok hnext).trans hafter, hheld⟩

/-- Frame by frame, a writer is handed all samples of all frames. -/
theorem Library.Writes.frames {α : Type} {writer : Writer} (frame : α → List Float32) :
    ∀ (as : List α) {xs : List Float32} {world : World}, held writer xs world →
    68 + 4 * (xs ++ as.flatMap frame).length < 2 ^ 32 →
    ∃ after, as.forM (fun a => (frame a).forM (lib.writeSample writer)) world = .ok () after ∧
      held writer (xs ++ as.flatMap frame) after
  | [], xs, world, hheld, _ => ⟨world, rfl, (List.append_nil xs).symm ▸ hheld⟩
  | a :: as, xs, world, hheld, hsize => by
    rw [List.flatMap_cons, ← List.append_assoc] at hsize ⊢
    have hroom : 68 + 4 * (xs ++ frame a).length < 2 ^ 32 := by
      rw [List.length_append] at hsize
      omega
    obtain ⟨next, hnext, hheld⟩ := h.samples (frame a) hheld hroom
    obtain ⟨after, hafter, hheld⟩ := Library.Writes.frames frame as hheld hsize
    exact ⟨after, (bind_ok hnext).trans hafter, hheld⟩

end

def framesOf (config : Config Float) (samples : List Float) : List (List Float32) :=
  samples.map fun x => List.replicate config.channels (single x)

section
variable {World Writer : Type} {lib : Library World Writer} {path : String} {config : Config Float}
  {samples : List Float}

theorem flatten_framesOf : (framesOf config samples).flatten =
    samples.flatMap fun x => List.replicate config.channels (single x) :=
  (List.flatMap_def ..).symm

theorem length_of_mem_framesOf : ∀ xs ∈ framesOf config samples, xs.length = config.channels :=
  List.forall_mem_map.mpr fun _ _ => List.length_replicate

theorem length_flatten_framesOf :
    (framesOf config samples).flatten.length = config.channels * samples.length := by
  rw [length_flatten_of length_of_mem_framesOf, framesOf, List.length_map]

/-- What a library leaves at the path of a sound file. -/
theorem Library.Writes.save {held : Writer → List Float32 → World → Prop} {before : World}
    (h : lib.Writes path (spec config) held before) (hvalid : config.validate = .ok ())
    (hsize : 68 + 4 * (framesOf config samples).flatten.length < 2 ^ 32) :
    ∃ after mask, lib.save path samples config before = .ok () after ∧ lib.contents after path =
      some (extensible (spec config) mask (framesOf config samples).flatten) := by
  obtain ⟨writer, begun, hcreate, hheld⟩ := h.create
  have hsamples := h.frames (fun x => List.replicate config.channels (single x)) samples hheld
  rw [List.nil_append, ← flatten_framesOf] at hsamples
  obtain ⟨full, hfull, hheld⟩ := hsamples hsize
  have hwhole : (framesOf config samples).flatten.length % (spec config).channels = 0 := by
    rw [length_flatten_framesOf]
    exact Nat.mul_mod_right ..
  obtain ⟨after, mask, hfinalize, hcontents⟩ := h.finalize _ _ _ hheld hwhole
  refine ⟨after, mask, ?_, hcontents⟩
  rw [Library.save, hvalid]
  dsimp only
  rw [bind_ok hcreate, bind_ok hfull, hfinalize]

end

/-- Where the configuration is valid and all numbers fit their fields, a library that writes such
files leaves one with the channels, the rate rounded to a whole number, and for every sample a frame
with the single nearest to it in each channel; its length is told by both sizes in it. With an
invalid configuration no library is ever asked. -/
theorem saved_sound_reads_back {World Writer : Type} (lib : Library World Writer) (path : String)
    (config : Config Float) (samples : List Float) (before : World) :
    (∀ e, config.validate = .error e →
      lib.save path samples config before = .error (.config e) before) ∧
    (∀ held, config.validate = .ok () → lib.Writes path (spec config) held before →
      let rate := (round (exactSize config.sampleRate)).toNat
      let frame := 4 * config.channels
      frame < 2 ^ 16 → rate * frame < 2 ^ 32 → 68 + frame * samples.length < 2 ^ 32 →
      ∃ after bytes sound, lib.save path samples config before = .ok () after ∧
        lib.contents after path = some bytes ∧
        read? bytes = some sound ∧ sound.channels = config.channels ∧ sound.rate = rate ∧
        List.Forall₂ (fun x ys => ∃ y, IsSingle x y ∧ ys = List.replicate config.channels y)
          samples sound.frames ∧
        bytes.length = 68 + frame * samples.length ∧ field bytes 4 4 + 8 = bytes.length ∧
        field bytes 64 4 = frame * samples.length) := by
  refine ⟨fun e he => by rw [Library.save, he]; rfl, fun held hvalid h => ?_⟩
  intro rate frame hframe hbytes hsize
  obtain ⟨hpos, hnone⟩ := of_validate hvalid
  have hrate : (spec config).rate = rate := by
    refine wholeRate_eq hpos ?_
    exact (Nat.le_mul_of_pos_right rate (by omega : 0 < frame)).trans_lt hbytes
  have hdata : 4 * (framesOf config samples).flatten.length = frame * samples.length := by
    rw [length_flatten_framesOf, Nat.mul_assoc]
  have hfits : 68 + 4 * (framesOf config samples).flatten.length < 2 ^ 32 := hdata ▸ hsize
  have hwhole : (framesOf config samples).flatten.length % config.channels = 0 := by
    rw [length_flatten_framesOf]
    exact Nat.mul_mod_right ..
  obtain ⟨after, mask, hsave, hcontents⟩ := h.save hvalid hfits
  have hread := read?_extensible (spec config) mask rfl rfl hnone hframe (hrate ▸ hbytes)
    hfits hwhole
  obtain ⟨-, hriff, -, -, hfield⟩ := parts_extensible (spec config) mask hfits
  refine ⟨after, _, _, hsave, hcontents, hread, rfl, hrate, ?_, ?_, hriff, ?_⟩
  · have hframes : frames config.channels
        ((framesOf config samples).flatten.flatMap sampleBytes) = framesOf config samples :=
      frames_data hnone length_of_mem_framesOf
    change List.Forall₂ _ samples (frames config.channels _)
    rw [hframes, framesOf, List.forall₂_map_right_iff, List.forall₂_same]
    exact fun x _ => ⟨single x, isSingle_single x, rfl⟩
  · rw [length_extensible, hdata]
  · rw [hfield, length_data, hdata]

/-- The library in memory writes all files at a rate that is not zero. -/
theorem memory_writes (path : String) {spec : Spec} (hrate : spec.rate ≠ 0) (before : Disk)
    (hwritable : before.writable = true) : memory.Writes path spec
      (fun writer xs disk => writer = (path, spec) ∧ disk.pending.reverse = xs) before where
  create := by
    refine ⟨(path, spec), { before with pending := [], file := some (path, []) }, ?_, rfl, rfl⟩
    simp [memory, hwritable, hrate]
  writeSample := by
    rintro writer xs disk x ⟨hwriter, rfl⟩ -
    exact ⟨_, rfl, hwriter, List.reverse_cons⟩
  finalize := by
    rintro writer xs disk ⟨rfl, rfl⟩ -
    refine ⟨_, channelMask spec.channels, rfl, ?_⟩
    simp [memory]

/-- Two samples in two channels. -/
theorem saved_sound_reads_back_stereo : let samples : List Float := [1, 0.1]
    let config : Config Float := ⟨44100.5, 64, 2⟩
    let disk : Disk := ⟨true, [], none⟩
    config.validate = .ok () ∧
      (∃ held, memory.Writes "a.wav" (spec config) held disk) ∧
      ∃ after bytes sound, memory.save "a.wav" samples config disk = .ok () after ∧
        memory.contents after "a.wav" = some bytes ∧ read? bytes = some sound ∧
        sound.channels = 2 ∧ sound.rate = 44101 ∧ sound.frames.length = 2 ∧ bytes.length = 84 := by
  have hvalid : (⟨44100.5, 64, 2⟩ : Config Float).validate = .ok () := rfl
  have hrate : (round (exactSize 44100.5)).toNat = 44101 := by
    rw [round_exactSize, Int.toNat_natCast]
    rfl
  intro samples config disk
  have hfast : (spec config).rate ≠ 0 := by decide
  have hwrites := memory_writes "a.wav" hfast disk rfl
  refine ⟨hvalid, ⟨_, hwrites⟩, ?_⟩
  obtain ⟨after, bytes, sound, hsave, hcontents, hread, hchannels, hsound, hframes, hlength, -⟩ :=
    (saved_sound_reads_back memory "a.wav" config samples disk).2 _ hvalid hwrites (by decide)
      (by rw [hrate]; decide) (by decide)
  exact ⟨after, bytes, sound, hsave, hcontents, hread, hchannels, hsound.trans hrate,
    hframes.length_eq.symm, hlength⟩

end Wave

end Patchbay
