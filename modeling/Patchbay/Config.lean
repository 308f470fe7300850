import Patchbay.Sample

/-! # Engine configuration -/

namespace Patchbay

structure Config (R : Type) where
  sampleRate : R
  blockSize : Nat
  channels : Nat
  deriving DecidableEq

inductive ConfigError (R : Type)
  | invalidSampleRate (rate : R)
  | zeroBlockSize
  | zeroChannels

variable {R : Type} [Sample R]

def ConfigError.message : ConfigError R → String
  | invalidSampleRate rate => s!"invalid sample rate: {Sample.text rate}"
  | zeroBlockSize => "block size must be non-zero"
  | zeroChannels => "channel count must be non-zero"

/-- Rejects what no engine can run with; the sample rate is looked at first. -/
def Config.validate (c : Config R) : Except (ConfigError R) Unit :=
  if !(Sample.isFinite c.sampleRate && Sample.lt 0 c.sampleRate) then
    .error (.invalidSampleRate c.sampleRate)
  else if c.blockSize = 0 then .error .zeroBlockSize
  else if c.channels = 0 then .error .zeroChannels
  else .ok ()

def Config.standard : Config Float := ⟨44100, 64, 1⟩

end Patchbay
