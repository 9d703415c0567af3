-- What the samples of an LMS stream are: PCM of the width, the channels and the
-- byte order that the `strm` packet names, each sample its value moved up to 32
-- bits. The decoder of the client is held against it.
import EmbeddedAudio.LmsCourse
import EmbeddedAudio.Samples

namespace EmbeddedAudio.Lms

open Groups LittleEndian Q31 Storage

/-! ## The reference -/

/-- The bytes of a sample, the lowest first. -/
def lowestFirst (bigEndian : Bool) (bytes : List UInt8) : List UInt8 :=
  if bigEndian then bytes.reverse else bytes

/-- The samples of a frame. -/
def pcmFrame (width channels : Nat) (bigEndian : Bool) (frame : List UInt8) : Frame :=
  (List.range channels).map fun ch => q31 (lowestFirst bigEndian (slice frame (ch * width) width))

/-- The bytes of a sample: the server names 16, 24 and 32 bits `1`, `2` and `3`. -/
def pcmWidth (stream : Stream) : Nat :=
  if stream.sampleSize = 0x31 then 2 else if stream.sampleSize = 0x32 then 3 else 4

/-- One channel or two, `1` or `2`. -/
def pcmChannels (stream : Stream) : Nat := if stream.channels = 0x31 then 1 else 2

def pcmFrameBytes (stream : Stream) : Nat := pcmWidth stream * pcmChannels stream

/-- The frames that the server means by the body of a response. The byte order `0` is big-endian,
`1` is little-endian. -/
def pcmFrames (stream : Stream) (body : List UInt8) : List Frame :=
  (groups (pcmFrameBytes stream) body).map
    (pcmFrame (pcmWidth stream) (pcmChannels stream) (decide (stream.endianness = 0x30)))

theorem pcmFrames_leading {stream : Stream} {first body : List UInt8} (h : first <+: body) :
    pcmFrames stream first <+: pcmFrames stream body := (groups_leading h).map _

/-! ## The decoder of the client -/

theorem sampleOf_little {bytes : List UInt8} (hwidth : PcmWidth bytes.length) :
    sampleOf false bytes = q31 bytes := by
  have hlt := readLE_lt bytes
  unfold sampleOf q31 signedLE
  simp only [Bool.false_eq_true, if_false, readBE_reverse, Nat.mul_comm bytes.length]
  have hbit : readLE bytes &&& 2 ^ (8 * bytes.length - 1) ≠ 0 ↔
      2 ^ (8 * bytes.length - 1) ≤ readLE bytes := by
    apply and_highest
    rw [show (256 : Nat) = 2 ^ 8 from rfl, ← Nat.pow_mul] at hlt
    rw [Nat.sub_add_cancel (by rcases hwidth with h | h | h <;> omega)]
    exact hlt
  by_cases hneg : 2 ^ (8 * bytes.length - 1) ≤ readLE bytes
  · rw [if_pos (hbit.mpr hneg), if_neg (Nat.not_lt.mpr hneg)]
  · rw [if_neg (fun h => hneg (hbit.mp h)), if_pos (Nat.lt_of_not_le hneg)]

theorem sampleOf_eq {bytes : List UInt8} (hwidth : PcmWidth bytes.length) (bigEndian : Bool) :
    sampleOf bigEndian bytes = q31 (lowestFirst bigEndian bytes) := by
  cases bigEndian with
  | false => exact sampleOf_little hwidth
  | true =>
    -- the same number, read from the other end
    have hturned : sampleOf true bytes = sampleOf false bytes.reverse := by
      unfold sampleOf
      simp only [if_true, Bool.false_eq_true, if_false, List.reverse_reverse, List.length_reverse]
    rw [hturned, sampleOf_little (by rw [List.length_reverse]; exact hwidth)]
    rfl

theorem frameOf_eq {width channels : Nat} (hwidth : PcmWidth width) (bigEndian : Bool)
    {frame : List UInt8} (h : frame.length = width * channels) :
    frameOf width channels bigEndian frame = pcmFrame width channels bigEndian frame := by
  unfold frameOf pcmFrame
  refine List.map_congr_left fun ch hch => ?_
  rw [List.mem_range] at hch
  have hwithin : ch * width + width ≤ frame.length := by
    rw [h, Nat.mul_comm width]
    exact block_le hch width
  have hlength : (slice frame (ch * width) width).length = width := length_slice hwithin
  exact sampleOf_eq (by rw [hlength]; exact hwidth) bigEndian

/-- What the fields of a stream that the client plays stand for. -/
theorem supported_fields {stream : Stream} (h : streamSupported stream = true) :
    digitOf stream.sampleSize + 1 = pcmWidth stream ∧
      digitOf stream.channels = pcmChannels stream := by
  simp only [streamSupported, Bool.and_eq_true, Bool.or_eq_true, beq_iff_eq,
    decide_eq_true_eq] at h
  obtain ⟨⟨⟨⟨⟨⟨⟨⟨⟨-, hlow⟩, hhigh⟩, -⟩, -⟩, hchannels⟩, -⟩, -⟩, -⟩, -⟩ := h
  rw [UInt8.le_iff_toNat_le] at hlow hhigh
  constructor
  · unfold digitOf pcmWidth
    simp only [← UInt8.toNat_inj]
    change 49 ≤ _ at hlow
    change _ ≤ 51 at hhigh
    change _ = if stream.sampleSize.toNat = 49 then 2 else
      if stream.sampleSize.toNat = 50 then 3 else 4
    split_ifs <;> omega
  · unfold pcmChannels
    rcases hchannels with hone | htwo
    · rw [hone]
      rfl
    · rw [htwo]
      rfl

theorem frameBytes_pcm {stream : Stream} (h : streamSupported stream = true) :
    frameBytes stream = pcmFrameBytes stream := by
  obtain ⟨hwidth, hchannels⟩ := supported_fields h
  unfold frameBytes pcmFrameBytes
  rw [hwidth, hchannels]

theorem pcmWidth_pcm (stream : Stream) : PcmWidth (pcmWidth stream) := by
  unfold pcmWidth PcmWidth
  split_ifs <;> simp

/-- What the client decodes of a body is what the server means by it. -/
theorem framesOf_pcm {stream : Stream} (h : streamSupported stream = true) (body : List UInt8) :
    framesOf stream body = pcmFrames stream body := by
  obtain ⟨hwidth, hchannels⟩ := supported_fields h
  unfold framesOf pcmFrames
  rw [frameBytes_pcm h, hwidth, hchannels]
  refine List.map_congr_left fun frame hmem => ?_
  have horder : (stream.endianness == 0x30) = decide (stream.endianness = 0x30) := rfl
  rw [horder]
  exact frameOf_eq (pcmWidth_pcm stream) _ (length_of_mem_groups hmem)

end EmbeddedAudio.Lms
