import Patchbay.Wave.Library

/-!
# Reading sound files

A reader of riffs that goes by what a file says of itself: chunk by chunk, the format first, and
then as many frames as the data make up.
-/

namespace Patchbay

structure Sound where
  channels : Nat
  rate : Nat
  frames : List (List Float32)

namespace Wave

/-- The number with these bytes, the least first. -/
def number : List UInt8 → Nat
  | [] => 0
  | b :: bs => b.toNat + 256 * number bs

def field (bytes : List UInt8) (start size : Nat) : Nat := number ((bytes.drop start).take size)

/-- Name and body of every chunk. Behind a body of odd length stands one more byte. -/
def chunks (bytes : List UInt8) : List (List UInt8 × List UInt8) :=
  let size := field bytes 4 4
  if bytes.length < 8 + size then []
  else (bytes.take 4, (bytes.drop 8).take size) :: chunks (bytes.drop (8 + size + size % 2))
termination_by bytes.length
decreasing_by
  rw [List.length_drop]
  omega

/-- Channels and rate of 32-bit floats in the extensible form. -/
def format? (body : List UInt8) : Option (Nat × Nat) :=
  let channels := field body 2 2
  let rate := field body 4 4
  let fits := field body 0 2 = 0xfffe ∧ field body 8 4 = rate * field body 12 2 ∧
    field body 12 2 = 4 * channels ∧ field body 14 2 = 32 ∧ field body 16 2 = 22 ∧
    field body 18 2 = 32 ∧ body.drop 24 = SampleFormat.float.bytes
  if fits then some (channels, rate) else none

/-- The first pieces of one size, as many as are asked for. -/
def pieces {α : Type} (size : Nat) : Nat → List α → List (List α)
  | 0, _ => []
  | n + 1, xs => xs.take size :: pieces size n (xs.drop size)

def frame (channels : Nat) (bytes : List UInt8) : List Float32 :=
  (pieces 4 channels bytes).map fun sample => .ofBits (.ofNat (number sample))

def frames (channels : Nat) (data : List UInt8) : List (List Float32) :=
  (pieces (4 * channels) (data.length / (4 * channels)) data).map (frame channels)

def read? (bytes : List UInt8) : Option Sound :=
  if bytes.take 4 = ascii "RIFF" ∧ field bytes 4 4 + 8 = bytes.length ∧
      (bytes.drop 8).take 4 = ascii "WAVE" then do
    let parts := chunks (bytes.drop 12)
    let (channels, rate) ← (parts.lookup (ascii "fmt ")).bind format?
    let data ← parts.lookup (ascii "data")
    if data.length % (4 * channels) = 0 then some ⟨channels, rate, frames channels data⟩ else none
  else none

end Wave

end Patchbay
