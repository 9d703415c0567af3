-- The result codes and the audio format that every part of the framework
-- shares (eaf_types.h, eaf_types.c, eaf_net.h).
import Mathlib.Data.Int.Notation
import Mathlib.Tactic.Common

namespace EmbeddedAudio

/-- The `int` that a function or a callback returns. A callback can return any `int`. -/
abbrev Rc := Int

abbrev EAF_EOF : Rc := 1
abbrev EAF_OK : Rc := 0
abbrev EAF_INVALID : Rc := -1
abbrev EAF_STATE : Rc := -2
abbrev EAF_IO : Rc := -3
abbrev EAF_UNSUPPORTED : Rc := -4
abbrev EAF_TIMEOUT : Rc := -5
/-- `EAF_AGAIN` of eaf_net.h, the same number as `EAF_TIMEOUT`. -/
abbrev EAF_AGAIN : Rc := -5

/-- Text of a protocol as its bytes. -/
def ascii (s : String) : List UInt8 := s.toByteArray.data.toList

/-! ## The audio format -/

def EAF_MAX_CHANNELS : Nat := 4

structure Format where
  sampleRate : Nat
  numChannels : Nat
  channelMask : Nat
  deriving DecidableEq, Repr, Inhabited

/-- The loop of `eaf_format_valid` that counts the bits of the channel mask. -/
def maskCount : Nat → Nat → Nat
  | 0, _ => 0
  | _ + 1, 0 => 0
  | fuel + 1, mask => mask % 2 + maskCount fuel (mask / 2)

/-- `eaf_format_valid`. A mask that passes the first test has four bits at most. -/
def formatValid (fmt : Format) : Bool :=
  if fmt.sampleRate = 0 ∨ fmt.numChannels = 0 ∨ fmt.numChannels > EAF_MAX_CHANNELS ∨
      16 ≤ fmt.channelMask then false
  else maskCount 4 fmt.channelMask = fmt.numChannels

theorem formatValid_channels {fmt : Format} (h : formatValid fmt = true) :
    0 < fmt.numChannels ∧ fmt.numChannels ≤ 4 := by
  unfold formatValid EAF_MAX_CHANNELS at h
  split at h
  · cases h
  · omega

end EmbeddedAudio
