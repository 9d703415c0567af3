-- What a sample of little-endian PCM is: its value in two's complement, moved up
-- to 32 bits. Each part of the framework that reads PCM is held against it.
import EmbeddedAudio.Groups
import EmbeddedAudio.LittleEndian
import EmbeddedAudio.Q31

namespace EmbeddedAudio.Q31

open BtDecoder (pcm16ToQ31)
open Groups LittleEndian Storage

/-! ## The reference -/

/-- The fixed-point sample of the bytes of a PCM sample. -/
def q31 (bytes : List UInt8) : Int32 :=
  Int32.ofInt (signedLE bytes * 2 ^ (32 - 8 * bytes.length))

/-- The samples of a frame, with mono on every channel of the output. -/
def frameQ31 (width channels outChannels : Nat) (frame : List UInt8) : List Int32 :=
  (List.range outChannels).map fun ch =>
    q31 (slice frame ((if channels = 1 then 0 else ch) * width) width)

/-- The samples of all complete frames in a stream of bytes. -/
def streamQ31 (width channels outChannels : Nat) (bytes : List UInt8) : List Int32 :=
  (groups (width * channels) bytes).flatMap (frameQ31 width channels outChannels)

/-- A width that PCM comes in: 16, 24 or 32 bits. -/
def PcmWidth (width : Nat) : Prop := width = 2 ∨ width = 3 ∨ width = 4

theorem frameBytes_pos {width channels : Nat} (hwidth : PcmWidth width)
    (hchannels : channels = 1 ∨ channels = 2) : 0 < width * channels := by
  rcases hwidth with h | h | h <;> rcases hchannels with h' | h' <;> rw [h, h'] <;> decide

/-- A stream that goes on after complete frames. -/
theorem streamQ31_append {width channels outChannels : Nat} {bytes more : List UInt8}
    (h : width * channels ∣ bytes.length) : streamQ31 width channels outChannels (bytes ++ more) =
      streamQ31 width channels outChannels bytes ++
        streamQ31 width channels outChannels more := by
  unfold streamQ31
  rw [groups_append h, List.flatMap_append]

theorem streamQ31_one {width channels outChannels : Nat} {frame : List UInt8}
    (hpos : 0 < width * channels) (h : frame.length = width * channels) :
    streamQ31 width channels outChannels frame = frameQ31 width channels outChannels frame := by
  unfold streamQ31
  rw [groups_one hpos h, List.flatMap_singleton]

theorem slice_slice {bytes : List UInt8} {a n b m : Nat} (h : b + m ≤ n) :
    slice (slice bytes a n) b m = slice bytes (a + b) m := by
  unfold slice
  rw [List.drop_take, List.drop_drop, List.take_take, Nat.min_eq_left (by omega)]

theorem streamQ31_frames {width channels outChannels n : Nat} {bytes : List UInt8}
    (hpos : 0 < width * channels) (h : bytes.length = n * (width * channels)) :
    streamQ31 width channels outChannels bytes = (List.range n).flatMap fun i =>
      frameQ31 width channels outChannels (slice bytes (i * (width * channels))
        (width * channels)) := by
  unfold streamQ31 groups
  rw [h, Nat.mul_div_cancel n hpos, List.flatMap_map]
  rfl

theorem flatMap_range_map {α : Type} (g : Nat → α) (n m : Nat) :
    (List.range n).flatMap (fun i => (List.range m).map fun j => g (i * m + j)) =
      (List.range (n * m)).map g := by
  induction n with
  | zero => simp
  | succ n ih =>
    rw [List.range_succ, List.flatMap_append, ih, List.flatMap_singleton, Nat.succ_mul,
      List.range_add, List.map_append, List.map_map]
    rfl

/-- Without a change of the channels, the samples are those of the bytes in order. -/
theorem streamQ31_samples {width channels n : Nat} {bytes : List UInt8}
    (hpos : 0 < width * channels) (h : bytes.length = n * (width * channels)) :
    streamQ31 width channels channels bytes =
      (List.range (n * channels)).map fun i => q31 (slice bytes (i * width) width) := by
  rw [streamQ31_frames hpos h, ← flatMap_range_map]
  refine List.flatMap_congr fun i _ => List.map_congr_left fun ch hch => ?_
  rw [List.mem_range] at hch
  have hch' : (if channels = 1 then 0 else ch) = ch := by
    split
    next hmono => omega
    next => rfl
  have hwithin : ch * width + width ≤ width * channels := by
    rw [Nat.mul_comm width channels]
    exact block_le hch width
  rw [hch', slice_slice hwithin]
  congr 2
  ring

theorem signedLE_bounds {bytes : List UInt8} {n : Nat} (h : 8 * bytes.length = n + 1) :
    -2 ^ n ≤ signedLE bytes ∧ signedLE bytes < 2 ^ n := by
  have hlt := readLE_lt bytes
  have hpow : 256 ^ bytes.length = 2 * 2 ^ n := by
    rw [show (256 : Nat) = 2 ^ 8 from rfl, ← Nat.pow_mul, h, Nat.pow_succ, Nat.mul_comm]
  have hpow' : (2 : Int) ^ (n + 1) = 2 * 2 ^ n := by rw [Int.pow_succ, Int.mul_comm]
  have hcast : ((2 ^ n : Nat) : Int) = 2 ^ n := by simp
  unfold signedLE
  rw [h, Nat.add_sub_cancel, hpow']
  split
  · omega
  · omega

/-- The reference is exact: no bit of the value is lost. -/
theorem toInt_q31 {bytes : List UInt8} (h : PcmWidth bytes.length) :
    (q31 bytes).toInt = signedLE bytes * 2 ^ (32 - 8 * bytes.length) := by
  unfold q31
  rcases h with h | h | h
  · obtain ⟨hlow, hhigh⟩ := @signedLE_bounds bytes 15 (by omega)
    rw [h, Int32.toInt_ofInt_of_le (by omega) (by omega)]
  · obtain ⟨hlow, hhigh⟩ := @signedLE_bounds bytes 23 (by omega)
    rw [h, Int32.toInt_ofInt_of_le (by omega) (by omega)]
  · obtain ⟨hlow, hhigh⟩ := @signedLE_bounds bytes 31 (by omega)
    rw [h, Int32.toInt_ofInt_of_le (by omega) (by omega)]

/-! ## The conversions of the framework -/

theorem toInt_toInt16 (v : UInt16) :
    v.toInt16.toInt = if v.toNat < 2 ^ 15 then (v.toNat : Int) else v.toNat - 2 ^ 16 := by
  change v.toBitVec.toInt = _
  rw [BitVec.toInt_eq_toNat_cond]
  change (if 2 * v.toNat < 2 ^ 16 then (v.toNat : Int) else v.toNat - 2 ^ 16) = _
  split
  · rw [if_pos (by omega)]
  · rw [if_neg (by omega)]

theorem toInt_toInt32 (v : UInt32) :
    v.toInt32.toInt = if v.toNat < 2 ^ 31 then (v.toNat : Int) else v.toNat - 2 ^ 32 := by
  change v.toBitVec.toInt = _
  rw [BitVec.toInt_eq_toNat_cond]
  change (if 2 * v.toNat < 2 ^ 32 then (v.toNat : Int) else v.toNat - 2 ^ 32) = _
  split
  · rw [if_pos (by omega)]
  · rw [if_neg (by omega)]

theorem toInt_mul {a b : Int32} {n : Int} (h : a.toInt * b.toInt = n) (hlow : -2 ^ 31 ≤ n)
    (hhigh : n < 2 ^ 31) : (a * b).toInt = n := by
  rw [Int32.toInt_mul, h, Int.bmod_eq_of_le]
  · exact hlow
  · exact hhigh

/-- A byte goes above the ones that are already there. -/
theorem toNat_lor_byte {value : UInt32} {i : Nat} (hi : i < 4) (h : value.toNat < 2 ^ (8 * i))
    (b : UInt8) : (value ||| b.toUInt32 <<< UInt32.ofNat (8 * i)).toNat =
      value.toNat + b.toNat * 2 ^ (8 * i) := by
  have hb := b.toNat_lt
  have hshift : (b.toUInt32 <<< UInt32.ofNat (8 * i)).toNat = b.toNat <<< (8 * i) := by
    have hi32 : (UInt32.ofNat (8 * i)).toNat % 32 = 8 * i := by
      rw [UInt32.toNat_ofNat', Nat.mod_eq_of_lt (by omega), Nat.mod_eq_of_lt (by omega)]
    have hfits : b.toNat * 2 ^ (8 * i) < 2 ^ 32 := by
      calc b.toNat * 2 ^ (8 * i) ≤ b.toNat * 2 ^ 24 :=
            Nat.mul_le_mul_left _ (Nat.pow_le_pow_right (by decide) (by omega))
        _ < 2 ^ 32 := by omega
    rw [UInt32.toNat_shiftLeft, hi32, UInt8.toNat_toUInt32, Nat.mod_eq_of_lt]
    rw [Nat.shiftLeft_eq]
    exact hfits
  rw [UInt32.toNat_or, hshift, lor_shiftLeft h]

theorem toNat_assembleLE {bytes : List UInt8} (h : bytes.length ≤ 4) :
    (assembleLE bytes).toNat = readLE bytes := by
  have hsteps : ∀ n, n ≤ bytes.length →
      ((List.range n).foldl (fun value i =>
        value ||| (bytes.getD i 0).toUInt32 <<< UInt32.ofNat (8 * i)) (0 : UInt32)).toNat =
        readLE (bytes.take n) := by
    intro n
    induction n with
    | zero =>
      intro _
      rfl
    | succ n ih =>
      intro hn
      have hvalue := ih (by omega)
      have hlength : (bytes.take n).length = n := by
        rw [List.length_take, Nat.min_eq_left (by omega)]
      have hlt := readLE_lt (bytes.take n)
      rw [hlength, show (256 : Nat) = 2 ^ 8 from rfl, ← Nat.pow_mul] at hlt
      have hbyte : bytes.take (n + 1) = bytes.take n ++ [bytes.getD n 0] := by
        rw [List.take_add_one, List.getElem?_eq_getElem hn, List.getD_eq_getElem _ _ hn]
        rfl
      rw [List.range_succ, List.foldl_append, List.foldl_cons, List.foldl_nil,
        toNat_lor_byte (by omega) (by rw [hvalue]; exact hlt), hvalue, hbyte, readLE_snoc, hlength]
  rw [assembleLE, hsteps _ (Nat.le_refl _), List.take_length]

/-- 16 bits. -/
theorem pcm16_eq {bytes : List UInt8} {v : UInt16} (hlen : bytes.length = 2)
    (hv : v.toNat = readLE bytes) : pcm16ToQ31 v.toInt16 = q31 bytes := by
  apply Int32.toInt_inj.mp
  obtain ⟨hlow, hhigh⟩ := @signedLE_bounds bytes 15 (by omega)
  have hvalue : v.toInt16.toInt = signedLE bytes := by
    rw [toInt_toInt16, hv, signedLE, hlen]
  rw [toInt_q31 (.inl hlen), hlen]
  unfold pcm16ToQ31
  refine toInt_mul ?_ (by omega) (by omega)
  rw [Int16.toInt_toInt32, hvalue]
  rfl

/-- 24 bits, with the sign in the bits above. -/
theorem pcm24_eq {bytes : List UInt8} {v : UInt32} (hlen : bytes.length = 3)
    (hv : v.toNat = readLE bytes) : pcm24ToQ31 (signExtend24 v).toInt32 = q31 bytes := by
  apply Int32.toInt_inj.mp
  obtain ⟨hlow, hhigh⟩ := @signedLE_bounds bytes 23 (by omega)
  have hlt : v.toNat < 2 ^ 24 := by
    have := readLE_lt bytes
    rw [hlen] at this
    omega
  have hvalue : (signExtend24 v).toInt32.toInt = signedLE bytes := by
    rw [toInt_toInt32, signedLE, hlen, ← hv]
    unfold signExtend24
    have hbit : v &&& 0x800000 ≠ 0 ↔ 2 ^ 23 ≤ v.toNat := by
      rw [← and_highest hlt, ne_eq, ← UInt32.toNat_inj, UInt32.toNat_and]
      rfl
    by_cases hneg : 2 ^ 23 ≤ v.toNat
    · have hset : (v ||| 0xFF000000).toNat = v.toNat + 255 * 2 ^ 24 := by
        rw [UInt32.toNat_or, ← lor_shiftLeft hlt]
        rfl
      rw [if_pos (hbit.mpr hneg), hset, if_neg (by omega), if_neg (by omega)]
      omega
    · rw [if_neg (fun h => hneg (hbit.mp h)), if_pos (by omega), if_pos (by omega)]
  rw [toInt_q31 (.inr (.inl hlen)), hlen]
  unfold pcm24ToQ31
  have hfits : ¬(signExtend24 v).toInt32 > 8388607 ∧ ¬(signExtend24 v).toInt32 < -8388608 := by
    rw [gt_iff_lt, Int32.lt_iff_toInt_lt, Int32.lt_iff_toInt_lt, hvalue]
    change ¬((8388607 : Int) < _) ∧ ¬(_ < (-8388608 : Int))
    omega
  rw [if_neg hfits.1, if_neg hfits.2]
  refine toInt_mul ?_ (by omega) (by omega)
  rw [hvalue]
  rfl

/-- 32 bits. -/
theorem pcm32_eq {bytes : List UInt8} {v : UInt32} (hlen : bytes.length = 4)
    (hv : v.toNat = readLE bytes) : pcm32ToQ31 v.toInt32 = q31 bytes := by
  apply Int32.toInt_inj.mp
  rw [toInt_q31 (.inr (.inr hlen)), hlen]
  unfold pcm32ToQ31
  rw [toInt_toInt32, hv, signedLE, hlen]
  simp

theorem toNat_lor_byte16 (a b : UInt8) :
    (a.toUInt16 ||| b.toUInt16 <<< 8).toNat = readLE [a, b] := by
  have ha := a.toNat_lt
  have hb := b.toNat_lt
  have hshift : (b.toUInt16 <<< 8).toNat = b.toNat <<< 8 := by
    rw [UInt16.toNat_shiftLeft, UInt8.toNat_toUInt16]
    apply Nat.mod_eq_of_lt
    change b.toNat <<< 8 < 2 ^ 16
    rw [Nat.shiftLeft_eq]
    omega
  rw [UInt16.toNat_or, hshift, UInt8.toNat_toUInt16, lor_shiftLeft ha]
  simp only [readLE]
  omega

theorem assembleLE_three (a b c : UInt8) :
    assembleLE [a, b, c] = a.toUInt32 ||| b.toUInt32 <<< 8 ||| c.toUInt32 <<< 16 := by
  simp [assembleLE, List.range_succ]

theorem assembleLE_four (a b c d : UInt8) : assembleLE [a, b, c, d] =
    a.toUInt32 ||| b.toUInt32 <<< 8 ||| c.toUInt32 <<< 16 ||| d.toUInt32 <<< 24 := by
  simp [assembleLE, List.range_succ]

/-- The conversion of a sample that was put together byte by byte. -/
theorem assembled_eq {bytes : List UInt8} (h : PcmWidth bytes.length) :
    (if bytes.length = 2 then pcm16ToQ31 (assembleLE bytes).toUInt16.toInt16
      else if bytes.length = 3 then pcm24ToQ31 (signExtend24 (assembleLE bytes)).toInt32
      else pcm32ToQ31 (assembleLE bytes).toInt32) = q31 bytes := by
  have hvalue : (assembleLE bytes).toNat = readLE bytes :=
    toNat_assembleLE (by rcases h with h | h | h <;> omega)
  have hlt := readLE_lt bytes
  rcases h with h | h | h
  · rw [if_pos h]
    apply pcm16_eq h
    rw [h] at hlt
    rw [UInt32.toNat_toUInt16, hvalue]
    exact Nat.mod_eq_of_lt hlt
  · rw [if_neg (by omega), if_pos h]
    exact pcm24_eq h hvalue
  · rw [if_neg (by omega), if_neg (by omega)]
    exact pcm32_eq h hvalue

end EmbeddedAudio.Q31
