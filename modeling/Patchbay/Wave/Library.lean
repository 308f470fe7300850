import Patchbay.Config
import Patchbay.Trace

/-!
# Libraries for sound files

The calls by which a library writes a wave file, and the form of the files that is relied on: a riff
of a format chunk in its extensible form and a data chunk.
-/

namespace Patchbay

/-- A library either reports that a file cannot be written, or it faults. -/
inductive WaveError
  | config (e : ConfigError Float)
  | unwritable
  | faulted (fault : Fault)

namespace Wave

inductive SampleFormat
  | float
  | whole

structure Spec where
  channels : Nat
  rate : Nat
  bits : Nat
  format : SampleFormat

/-- The calls change a world in which the files are. What stands in a file can be looked at. -/
structure Library (World Writer : Type) where
  create : String → Spec → EStateM WaveError World Writer
  writeSample : Writer → Float32 → EStateM WaveError World Unit
  finalize : Writer → EStateM WaveError World Unit
  contents : World → String → Option (List UInt8)

/-! ## Files -/

def littleEndian : Nat → Nat → List UInt8
  | 0, _ => []
  | n + 1, x => UInt8.ofNat (x % 256) :: littleEndian n (x / 256)

def ascii (s : String) : List UInt8 := s.toList.map fun c => UInt8.ofNat c.toNat

def SampleFormat.bytes (format : SampleFormat) : List UInt8 :=
  (match format with
    | .float => 0x03
    | .whole => 0x01) ::
  [0x00, 0x00, 0x00, 0x00, 0x00, 0x10, 0x00, 0x80, 0x00, 0x00, 0xaa, 0x00, 0x38, 0x9b, 0x71]

def Spec.frameLength (spec : Spec) : Nat := spec.bits / 8 * spec.channels

/-- Which loudspeakers the channels belong to is told by the mask. -/
def formatBody (spec : Spec) (mask : Nat) : List UInt8 :=
  littleEndian 2 0xfffe ++ littleEndian 2 spec.channels ++ littleEndian 4 spec.rate ++
  littleEndian 4 (spec.rate * spec.frameLength) ++ littleEndian 2 spec.frameLength ++
  littleEndian 2 spec.bits ++ littleEndian 2 22 ++ littleEndian 2 spec.bits ++
  littleEndian 4 mask ++ spec.format.bytes

def chunk (name : String) (body : List UInt8) : List UInt8 :=
  ascii name ++ littleEndian 4 body.length ++ body

def sampleBytes (x : Float32) : List UInt8 := littleEndian 4 x.toBits.toNat

def extensible (spec : Spec) (mask : Nat) (xs : List Float32) : List UInt8 :=
  chunk "RIFF" <|
    ascii "WAVE" ++ chunk "fmt " (formatBody spec mask) ++ chunk "data" (xs.flatMap sampleBytes)

/-! ## Laws -/

/-- What is relied on in a library that writes files of these specifications: that a writer can be
made, that it takes samples one by one until the file is full, and that at the end of a frame it
leaves a file in the extensible form. `held writer xs world` says that so far the writer was handed
the samples `xs`. -/
structure Library.Writes {World Writer : Type} (lib : Library World Writer) (path : String)
    (spec : Spec) (held : Writer → List Float32 → World → Prop) (before : World) : Prop where
  create : ∃ writer after, lib.create path spec before = .ok writer after ∧ held writer [] after
  writeSample : ∀ writer xs world x, held writer xs world →
    68 + 4 * (xs.length + 1) < Nat.pow 2 32 →
    ∃ after, lib.writeSample writer x world = .ok () after ∧ held writer (xs ++ [x]) after
  finalize : ∀ writer xs world, held writer xs world → xs.length % spec.channels = 0 →
    ∃ after mask, lib.finalize writer world = .ok () after ∧
      lib.contents after path = some (extensible spec mask xs)

end Wave

end Patchbay
