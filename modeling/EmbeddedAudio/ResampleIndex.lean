-- Where the resampler reads: the position of an output frame does not wrap, its source frames
-- are in the input and never go back, and blocks of one length are passed on as they are.
import EmbeddedAudio.Resample

namespace EmbeddedAudio.Resample

open SignedRange

/-! ## The source frames -/

/-- The frames of the input that an output frame is read from. -/
def sourceFrames (inFrames outFrames : UInt32) (i : Nat) : List UInt32 :=
  let index := indexOf inFrames outFrames i
  if inFrames = 1 then [0]
  else if index ≥ inFrames - 1 then [inFrames - 1]
  else [index, index + 1]

section Sources

variable {inFrames outFrames : UInt32} {i j : Nat}

theorem toNat_pos {frames : UInt32} (h : frames ≠ 0) : 0 < frames.toNat :=
  Nat.pos_of_ne_zero fun hzero => h (UInt32.toNat_inj.mp hzero)

/-- The truncated quotient times the number of output frames is no more than the input. -/
theorem position_lt (hin : inFrames ≠ 0) (hi : i < outFrames.toNat) :
    i * (inFrames.toNat * 4294967296 / outFrames.toNat) < inFrames.toNat * 4294967296 := by
  have hpos := toNat_pos hin
  rcases Nat.eq_zero_or_pos (inFrames.toNat * 4294967296 / outFrames.toNat) with hstep | hstep
  · rw [hstep, Nat.mul_zero]
    omega
  · calc i * (inFrames.toNat * 4294967296 / outFrames.toNat)
        < outFrames.toNat * (inFrames.toNat * 4294967296 / outFrames.toNat) :=
          Nat.mul_lt_mul_of_pos_right hi hstep
      _ ≤ inFrames.toNat * 4294967296 := Nat.mul_div_le _ _

theorem toNat_stepSize (inFrames outFrames : UInt32) :
    (stepSize inFrames outFrames).toNat = inFrames.toNat * 4294967296 / outFrames.toNat := by
  have hin := inFrames.toNat_lt
  unfold stepSize
  rw [UInt64.toNat_div, UInt64.toNat_shiftLeft, UInt32.toNat_toUInt64, UInt32.toNat_toUInt64]
  change inFrames.toNat <<< 32 % 2 ^ 64 / outFrames.toNat = _
  rw [Nat.shiftLeft_eq, Nat.mod_eq_of_lt (by omega)]

/-- The index of an output frame is the whole part of its position. -/
theorem toNat_indexOf (hi : i < outFrames.toNat) :
    (indexOf inFrames outFrames i).toNat =
      i * (inFrames.toNat * 4294967296 / outFrames.toNat) / 4294967296 := by
  have hlt := (positionOf inFrames outFrames i).toNat_lt
  unfold indexOf
  rw [UInt64.toNat_toUInt32, UInt64.toNat_shiftRight]
  change (positionOf inFrames outFrames i).toNat >>> 32 % 2 ^ 32 = _
  rw [Nat.shiftRight_eq_div_pow, Nat.mod_eq_of_lt (by omega), toNat_positionOf hi]

theorem indexOf_lt (hin : inFrames ≠ 0) (hi : i < outFrames.toNat) :
    (indexOf inFrames outFrames i).toNat < inFrames.toNat := by
  rw [toNat_indexOf hi]
  apply (Nat.div_lt_iff_lt_mul (by decide)).mpr
  exact position_lt hin hi

theorem indexOf_mono (inFrames : UInt32) (hij : i ≤ j) (hj : j < outFrames.toNat) :
    (indexOf inFrames outFrames i).toNat ≤ (indexOf inFrames outFrames j).toNat := by
  rw [toNat_indexOf (by omega), toNat_indexOf hj]
  apply Nat.div_le_div_right
  exact Nat.mul_le_mul_right _ hij

/-- The last frame of the input, as the code computes it. -/
theorem toNat_last (hin : inFrames ≠ 0) : (inFrames - 1).toNat = inFrames.toNat - 1 := by
  have hone : 1 ≤ inFrames := UInt32.le_iff_toNat_le.mpr (by exact toNat_pos hin)
  rw [UInt32.toNat_sub_of_le _ _ hone]
  rfl

/-- The source frames by number: one frame at the end of the input, before it two neighbours. -/
theorem sourceFrames_toNat (hin : inFrames ≠ 0) (hi : i < outFrames.toNat) :
    (sourceFrames inFrames outFrames i).map UInt32.toNat =
      if (indexOf inFrames outFrames i).toNat + 1 < inFrames.toNat then
        [lowerOf inFrames outFrames i, upperOf inFrames outFrames i]
      else [lowerOf inFrames outFrames i] := by
  have hlt := indexOf_lt hin hi
  have hbound := inFrames.toNat_lt
  unfold sourceFrames lowerOf upperOf
  simp only
  by_cases hsingle : inFrames = 1
  · subst hsingle
    change (indexOf 1 outFrames i).toNat < 1 at hlt
    rw [if_pos rfl, if_neg (by change ¬(indexOf 1 outFrames i).toNat + 1 < 1; omega)]
    change [0] = [min (indexOf 1 outFrames i).toNat 0]
    rw [Nat.min_zero]
  rw [if_neg hsingle]
  by_cases hend : indexOf inFrames outFrames i ≥ inFrames - 1
  · rw [if_pos hend]
    rw [ge_iff_le, UInt32.le_iff_toNat_le, toNat_last hin] at hend
    rw [if_neg (by omega), Nat.min_eq_right hend, List.map_singleton, toNat_last hin]
  · rw [if_neg hend]
    rw [ge_iff_le, UInt32.le_iff_toNat_le, toNat_last hin] at hend
    have hnext : (indexOf inFrames outFrames i + 1).toNat =
        (indexOf inFrames outFrames i).toNat + 1 := by
      rw [UInt32.toNat_add]
      change ((indexOf inFrames outFrames i).toNat + 1) % 2 ^ 32 = _
      rw [Nat.mod_eq_of_lt (by omega)]
    rw [if_pos (by omega), Nat.min_eq_left (by omega), Nat.min_eq_left (by omega)]
    simp only [List.map_cons, List.map_nil, hnext]

/-- The source frames go from the lower frame to the upper one. -/
theorem sourceFrames_ends (hin : inFrames ≠ 0) (hi : i < outFrames.toNat) :
    ((sourceFrames inFrames outFrames i).headD 0).toNat = lowerOf inFrames outFrames i ∧
      ((sourceFrames inFrames outFrames i).getLastD 0).toNat = upperOf inFrames outFrames i := by
  have hmap := sourceFrames_toNat hin hi
  by_cases hinside : (indexOf inFrames outFrames i).toNat + 1 < inFrames.toNat
  · rw [if_pos hinside] at hmap
    obtain ⟨a, rest, hframes, ha, hrest⟩ := List.map_eq_cons_iff.mp hmap
    obtain ⟨b, tail, rfl, hb, htail⟩ := List.map_eq_cons_iff.mp hrest
    obtain rfl := List.map_eq_nil_iff.mp htail
    rw [hframes]
    exact ⟨ha, hb⟩
  · have hsame : upperOf inFrames outFrames i = lowerOf inFrames outFrames i := by
      unfold upperOf lowerOf
      rw [Nat.min_eq_right (by omega), Nat.min_eq_right (by omega)]
    rw [if_neg hinside] at hmap
    obtain ⟨a, rest, hframes, ha, hrest⟩ := List.map_eq_cons_iff.mp hmap
    obtain rfl := List.map_eq_nil_iff.mp hrest
    rw [hframes, hsame]
    exact ⟨ha, ha⟩

theorem sourceFrames_inside (hin : inFrames ≠ 0) (hi : i < outFrames.toNat) {frame : UInt32}
    (hframe : frame ∈ sourceFrames inFrames outFrames i) : frame.toNat < inFrames.toNat := by
  have hpos := toNat_pos hin
  have hlower : lowerOf inFrames outFrames i < inFrames.toNat := by
    unfold lowerOf
    omega
  have hupper : upperOf inFrames outFrames i < inFrames.toNat := by
    unfold upperOf
    omega
  have hmem := List.mem_map_of_mem (f := UInt32.toNat) hframe
  rw [sourceFrames_toNat hin hi] at hmem
  by_cases hinside : (indexOf inFrames outFrames i).toNat + 1 < inFrames.toNat
  · rw [if_pos hinside, List.mem_cons, List.mem_singleton] at hmem
    omega
  · rw [if_neg hinside, List.mem_singleton] at hmem
    omega

end Sources

/-! ## Blocks of one length -/

/-- Without a fraction the left neighbour is the sample. -/
theorem interpolate_zero (a b : Int32) : interpolate a b 0 = some a := by
  have ha := inRange_32.mp (inRange_toInt a)
  have hb := inRange_32.mp (inRange_toInt b)
  have hhalf : ((0 : UInt32) >>> 1).toNat = 0 := rfl
  have hstep : (Int32.ofInt ((0 + 1073741824) / 2147483648)).toInt = 0 := rfl
  unfold interpolate
  simp only [Option.bind_eq_bind]
  rw [checked_inRange (inRange_64.mpr (by omega)), Option.bind_some, hhalf, Int.natCast_zero,
    Int.mul_zero, checked_inRange (inRange_64.mpr (by omega)), Option.bind_some,
    if_pos (by decide), rounded_eq (by decide) (by decide), Option.bind_some, hstep, Int.add_zero,
    checked_inRange (inRange_toInt a), Option.bind_some, Int32.ofInt_toInt]
  rfl

section Blocks

variable {input : List Int32} {inFrames outFrames : UInt32} {channels : UInt8} {i : Nat}

/-- A frame of the input. -/
def frameOf (input : List Int32) (channels : UInt8) (frame : Nat) : List Int32 :=
  (input.drop (frame * channels.toNat)).take channels.toNat

theorem frameOf_length (hlen : input.length = inFrames.toNat * channels.toNat) {frame : Nat}
    (hframe : frame < inFrames.toNat) : (frameOf input channels frame).length = channels.toNat := by
  have hroom : (frame + 1) * channels.toNat ≤ inFrames.toNat * channels.toNat :=
    Nat.mul_le_mul_right _ hframe
  rw [Nat.succ_mul] at hroom
  unfold frameOf
  rw [List.length_take, List.length_drop, hlen, Nat.min_eq_left (by omega)]

theorem frameOf_cell (hlen : input.length = inFrames.toNat * channels.toNat) {frame c : Nat}
    (hframe : frame < inFrames.toNat) (hc : c < channels.toNat) :
    (frameOf input channels frame)[c]? = some (sampleAt input channels frame c) := by
  unfold frameOf
  rw [List.getElem?_take_of_lt hc, List.getElem?_drop, sampleAt_some hlen hframe hc]

/-- The frames of the input one after another are the input. -/
theorem frames_flatten (input : List Int32) (channels : UInt8) (n : Nat) :
    ((List.range n).map (frameOf input channels)).flatten = input.take (n * channels.toNat) := by
  induction n with
  | zero => rw [Nat.zero_mul]; rfl
  | succ n ih =>
    rw [List.range_succ, List.map_append, List.flatten_append, ih, Nat.succ_mul, List.take_add]
    simp only [List.map_cons, List.map_nil, List.flatten_cons, List.flatten_nil, List.append_nil,
      frameOf]

/-- An output frame at a whole position is the input frame that is there. -/
theorem outFrame_whole (hlen : input.length = inFrames.toNat * channels.toNat)
    (hin : inFrames ≠ 0) (hi : i < outFrames.toNat)
    (hwhole : (positionOf inFrames outFrames i).toUInt32 = 0) :
    outFrame input inFrames outFrames channels i =
      some (frameOf input channels (indexOf inFrames outFrames i).toNat) := by
  have hlt := indexOf_lt hin hi
  rw [outFrame_cells hlen hin]
  refine ⟨frameOf_length hlen hlt, fun c hc => ?_⟩
  have hleft : leftOf input inFrames outFrames channels i c =
      sampleAt input channels (indexOf inFrames outFrames i).toNat c := by
    unfold leftOf lowerOf
    rw [Nat.min_eq_left (by omega)]
  unfold cellOf
  rw [hwhole, interpolate_zero, ite_self, hleft, frameOf_cell hlen hlt hc]

theorem outFrame_first (hlen : input.length = inFrames.toNat * channels.toNat)
    (hin : inFrames ≠ 0) (hout : outFrames ≠ 0) :
    outFrame input inFrames outFrames channels 0 = some (frameOf input channels 0) := by
  have hposition : positionOf inFrames outFrames 0 = 0 := by
    unfold positionOf
    exact UInt64.zero_mul
  have hindex : (indexOf inFrames outFrames 0).toNat = 0 := by
    unfold indexOf
    rw [hposition]
    rfl
  have hwhole := outFrame_whole hlen hin (toNat_pos hout) (by rw [hposition]; rfl)
  rwa [hindex] at hwhole

theorem outFrame_same (hlen : input.length = inFrames.toNat * channels.toNat)
    (hin : inFrames ≠ 0) (hi : i < inFrames.toNat) :
    outFrame input inFrames inFrames channels i = some (frameOf input channels i) := by
  have hstep : inFrames.toNat * 4294967296 / inFrames.toNat = 4294967296 :=
    Nat.mul_div_cancel_left _ (toNat_pos hin)
  have hindex : (indexOf inFrames inFrames i).toNat = i := by
    rw [toNat_indexOf hi, hstep]
    exact Nat.mul_div_cancel _ (by decide)
  have hfraction : (positionOf inFrames inFrames i).toUInt32 = 0 := by
    apply UInt32.toNat_inj.mp
    rw [UInt64.toNat_toUInt32, toNat_positionOf hi, hstep]
    exact Nat.mul_mod_left _ _
  have hwhole := outFrame_whole hlen hin hi hfraction
  rwa [hindex] at hwhole

/-! ## The positions -/

/-- What the positions of the resampler come to, in a block of the given lengths. -/
structure Maps (input : List Int32) (inFrames outFrames : UInt32) (channels : UInt8) : Prop where
  /-- The step and its product with the index are exact. -/
  position : ∀ i < outFrames.toNat,
    (stepSize inFrames outFrames).toNat = inFrames.toNat * 4294967296 / outFrames.toNat ∧
      (positionOf inFrames outFrames i).toNat = i * (stepSize inFrames outFrames).toNat
  /-- What is read is in the input. -/
  inside : ∀ i < outFrames.toNat, ∀ frame ∈ sourceFrames inFrames outFrames i,
    frame.toNat < inFrames.toNat ∧
      ∀ c < channels.toNat, frame.toNat * channels.toNat + c < input.length
  /-- The index does not go back, nor do the frames that are read. -/
  ordered : ∀ i j, i ≤ j → j < outFrames.toNat →
    indexOf inFrames outFrames i ≤ indexOf inFrames outFrames j ∧
      (sourceFrames inFrames outFrames i).headD 0 ≤ (sourceFrames inFrames outFrames j).headD 0 ∧
      (sourceFrames inFrames outFrames i).getLastD 0 ≤
        (sourceFrames inFrames outFrames j).getLastD 0
  /-- The output starts with the first frame of the input. -/
  first : outFrame input inFrames outFrames channels 0 = some (frameOf input channels 0) ∧
    ∀ count frames, resample input inFrames outFrames channels = some (count, frames) →
      frames.head? = some (frameOf input channels 0)
  /-- With one length the output is the input. -/
  identity : inFrames = outFrames → ∃ frames,
    resample input inFrames outFrames channels = some (outFrames, frames) ∧
      frames = (List.range outFrames.toNat).map (frameOf input channels) ∧ frames.flatten = input

theorem inside_input (hlen : input.length = inFrames.toNat * channels.toNat) {frame c : Nat}
    (hframe : frame < inFrames.toNat) (hc : c < channels.toNat) :
    frame * channels.toNat + c < input.length := by
  by_contra hout
  have hcell := sampleAt_some hlen hframe hc
  rw [List.getElem?_eq_none (by omega)] at hcell
  cases hcell

theorem ends_ordered (hin : inFrames ≠ 0) {j : Nat} (hij : i ≤ j) (hj : j < outFrames.toNat) :
    (sourceFrames inFrames outFrames i).headD 0 ≤ (sourceFrames inFrames outFrames j).headD 0 ∧
      (sourceFrames inFrames outFrames i).getLastD 0 ≤
        (sourceFrames inFrames outFrames j).getLastD 0 := by
  have hindex := indexOf_mono inFrames hij hj
  obtain ⟨hfirst, hlast⟩ := sourceFrames_ends hin (Nat.lt_of_le_of_lt hij hj)
  obtain ⟨hfirst', hlast'⟩ := sourceFrames_ends hin hj
  rw [UInt32.le_iff_toNat_le, UInt32.le_iff_toNat_le, hfirst, hlast, hfirst', hlast']
  unfold lowerOf upperOf
  omega

/-- For all lengths that are not zero and for one or two channels, the resampler reads in order
and inside of the input. It starts with the first frame, and it passes on what has the length
already. -/
theorem resample_maps (hvalid : Valid inFrames outFrames channels)
    (hlen : input.length = inFrames.toNat * channels.toNat) :
    Maps input inFrames outFrames channels := by
  obtain ⟨hin, hrest⟩ := not_or.mp hvalid
  obtain ⟨hout, -⟩ := not_or.mp hrest
  refine ⟨fun i hi => ?_, fun i hi frame hframe => ?_, fun i j hij hj => ?_, ⟨?_, ?_⟩, ?_⟩
  · rw [toNat_positionOf hi, toNat_stepSize]
    exact ⟨rfl, rfl⟩
  · have hlt := sourceFrames_inside hin hi hframe
    exact ⟨hlt, fun c hc => inside_input hlen hlt hc⟩
  · exact ⟨UInt32.le_iff_toNat_le.mpr (indexOf_mono inFrames hij hj), ends_ordered hin hij hj⟩
  · exact outFrame_first hlen hin hout
  · intro count frames hrun
    unfold resample at hrun
    rw [if_neg hvalid] at hrun
    obtain ⟨out, hmap, hpair⟩ := Option.bind_eq_some_iff.mp hrun
    obtain rfl : out = frames := (Prod.mk.inj (Option.some.inj hpair)).2
    have hcell := (mapM_range.mp hmap).2 0 (toNat_pos hout)
    rw [outFrame_first hlen hin hout] at hcell
    rw [List.head?_eq_getElem?, hcell]
  · rintro rfl
    have hmap : (List.range inFrames.toNat).mapM (outFrame input inFrames inFrames channels) =
        some ((List.range inFrames.toNat).map (frameOf input channels)) := by
      rw [mapM_range]
      refine ⟨by simp, fun i hi => ?_⟩
      rw [List.getElem?_map, List.getElem?_range hi, outFrame_same hlen hin hi]
      rfl
    refine ⟨_, ?_, rfl, ?_⟩
    · unfold resample
      rw [if_neg hvalid, hmap]
      rfl
    · rw [frames_flatten, ← hlen, List.take_length]

end Blocks

/-- Four frames for every three, with two channels. -/
theorem resample_maps_stereo : Maps [1, 2, 3, 4, 5, 6] 3 4 2 :=
  resample_maps (by unfold Valid; decide) rfl

end EmbeddedAudio.Resample
