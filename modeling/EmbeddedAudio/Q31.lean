-- The samples that every part of the framework shares (eaf_types.h): PCM of 16,
-- 24 and 32 bits as signed fixed point of 32 bits.
import EmbeddedAudio.BtDecoder

namespace EmbeddedAudio.Q31

open BtDecoder (pcm16ToQ31)

/-- `eaf_pcm24_to_q31`. -/
def pcm24ToQ31 (x : Int32) : Int32 :=
  if x > 8388607 then Int32.maxValue
  else if x < -8388608 then Int32.minValue
  else x * 256

/-- `eaf_pcm32_to_q31`. -/
def pcm32ToQ31 (x : Int32) : Int32 := x

/-- `eaf_q31_interleaved`: the samples that it writes. -/
def q31Interleaved (src : List Int32) (frames srcChannels dstChannels : Nat) : List Int32 :=
  (List.range frames).flatMap fun i =>
    let left := src.getD (i * srcChannels) 0
    if dstChannels = 2 then
      [left, if srcChannels = 2 then src.getD (i * srcChannels + 1) 0 else left]
    else
      [left]

/-- The loop over the bytes of a sample, the lowest first. -/
def assembleLE (bytes : List UInt8) : UInt32 :=
  (List.range bytes.length).foldl
    (fun value i => value ||| (bytes.getD i 0).toUInt32 <<< UInt32.ofNat (8 * i)) 0

/-- The sign bit of a 24-bit number goes to the bits above it. -/
def signExtend24 (value : UInt32) : UInt32 :=
  if value &&& 0x800000 ≠ 0 then value ||| 0xFF000000 else value

end EmbeddedAudio.Q31
