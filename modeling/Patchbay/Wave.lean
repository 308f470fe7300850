import Patchbay.Sample.Single
import Patchbay.Wave.Library

/-!
# Sound files

Mono samples are written as single-precision floats, each of them once in every channel.
-/

namespace Patchbay

namespace Wave

/-- The rate as a number of 32 bits. One that is too large becomes the largest. -/
def wholeRate (rate : Float) : Nat :=
  if Sample.lt 0 rate then min (Window.ofBits rate.toBits).whole (Nat.pow 2 32 - 1) else 0

def spec (config : Config Float) : Spec := ⟨config.channels, wholeRate config.sampleRate, 32, .float⟩

/-- The configuration is looked at before the file is created. -/
def Library.save {World Writer : Type} (lib : Library World Writer) (path : String)
    (samples : List Float) (config : Config Float) : EStateM WaveError World Unit :=
  match config.validate with
  | .error e => throw (.config e)
  | .ok () => do
    let writer ← lib.create path (spec config)
    samples.forM fun x => (List.replicate config.channels (single x)).forM (lib.writeSample writer)
    lib.finalize writer

/-! ## A library that keeps its file in memory -/

/-- Samples are pending until the file is finished, the last in front. -/
structure Disk where
  writable : Bool
  pending : List Float32
  file : Option (String × List UInt8)

def channelMask (channels : Nat) : Nat := Nat.pow 2 (min channels 18) - 1

/-- The rate must not be zero, as the length of a frame is told from the bytes in a second. -/
def memory : Library Disk (String × Spec) where
  create path spec disk :=
    if !disk.writable then .error .unwritable disk
    else
      let begun : Disk := { disk with pending := [], file := some (path, []) }
      if spec.rate = 0 then .error (.faulted .zeroRate) begun else .ok (path, spec) begun
  writeSample _ x disk := .ok () { disk with pending := x :: disk.pending }
  finalize writer disk :=
    let (path, spec) := writer
    let bytes := extensible spec (channelMask spec.channels) disk.pending.reverse
    .ok () { disk with file := some (path, bytes) }
  contents disk path := (disk.file.filter (·.1 = path)).map (·.2)

/-- The bytes of the file for these samples. -/
def file (writable : Bool) (config : Config Float) (samples : List Float) :
    Except WaveError (List UInt8) :=
  match memory.save "" samples config ⟨writable, [], none⟩ with
  | .ok () disk => .ok ((memory.contents disk "").getD [])
  | .error e _ => .error e

end Wave

end Patchbay
