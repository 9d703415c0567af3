-- The linear resampler (eaf_sync.c): positions in fixed point with 32 bits of
-- fraction, and an interpolation that computes its step in 64 bits and adds it up in
-- 32.
import EmbeddedAudio.SignedRange
import EmbeddedAudio.Storage
import Mathlib.Data.List.GetD
import Mathlib.Tactic.Linarith

namespace EmbeddedAudio.Resample

open SignedRange Storage

/-! ## The interpolation -/

/-- The step that `interpolate` computes, before it is narrowed. `product` has no sign here. -/
def rounded (product : Int) : Option Int := do
  let sum ← checked 64 (product + 1073741824)
  return sum >>> (31 : Nat)

/-- `interpolate`. It has no result when an operation leaves its type; the cast to 32 bits takes
what fits. -/
def interpolate (a b : Int32) (fraction : UInt32) : Option Int32 := do
  let delta ← checked 64 (b.toInt - a.toInt)
  let product ← checked 64 (delta * (fraction >>> 1).toNat)
  if product ≥ 0 then
    let step ← rounded product
    let sum ← checked 32 (a.toInt + (Int32.ofInt step).toInt)
    return Int32.ofInt sum
  else
    let negated ← checked 64 (-product)
    let step ← rounded negated
    let sum ← checked 32 (a.toInt - (Int32.ofInt step).toInt)
    return Int32.ofInt sum

/-- The number that is narrowed to 32 bits. -/
def stepOf (a b : Int32) (fraction : UInt32) : Int :=
  (((b.toInt - a.toInt) * (fraction >>> 1).toNat).natAbs + 1073741824) / 2147483648

/-- The neighbours are not too far apart for the step between them. -/
def Gentle (a b : Int32) (fraction : UInt32) : Prop :=
  (b.toInt - a.toInt).natAbs * (fraction.toNat / 2) < 4611686017353646080

/-- The sample is between its neighbours. -/
def Between (a b y : Int32) : Prop :=
  min a.toInt b.toInt ≤ y.toInt ∧ y.toInt ≤ max a.toInt b.toInt

variable {a b : Int32} {fraction : UInt32}

theorem toNat_half (fraction : UInt32) : (fraction >>> 1).toNat = fraction.toNat / 2 := by
  rw [UInt32.toNat_shiftRight]
  exact Nat.shiftRight_eq_div_pow _ 1

/-- The cast of a step of 32 bits without a sign takes off 2^32 when it does not fit. -/
theorem toInt_wrapped {n : Int} (h : 2147483648 ≤ n) (hn : n ≤ 4294967295) :
    (Int32.ofInt n).toInt = n - 4294967296 := by
  simp only [Int32.toInt_ofInt, Int.bmod_def, Int32.size]
  omega

theorem rounded_eq {n : Int} (h0 : 0 ≤ n) (h : n ≤ 9223372030412324865) :
    rounded n = some ((n + 1073741824) / 2147483648) := by
  unfold rounded
  rw [checked_inRange (inRange_64.mpr (by omega)), Option.bind_eq_bind, Option.bind_some,
    Int.shiftRight_eq_div_pow]
  rfl

/-- The product: it is at most 33 bits times 31 bits, and a little less than the difference in
units of the step. -/
theorem product_bounds (a b : Int32) (fraction : UInt32) :
    let n := (b.toInt - a.toInt) * ((fraction >>> 1).toNat : Int)
    (a.toInt ≤ b.toInt → 0 ≤ n ∧ n + (b.toInt - a.toInt) ≤ (b.toInt - a.toInt) * 2147483648) ∧
      (b.toInt < a.toInt → n ≤ 0 ∧ (b.toInt - a.toInt) * 2147483648 ≤ n + (b.toInt - a.toInt)) := by
  intro n
  have hf : ((fraction >>> 1).toNat : Int) ≤ 2147483647 := by
    have hlt := fraction.toNat_lt
    rw [toNat_half]
    omega
  have hf0 : (0 : Int) ≤ (fraction >>> 1).toNat := Int.natCast_nonneg _
  refine ⟨fun h => ⟨?_, ?_⟩, fun h => ⟨?_, ?_⟩⟩
  · exact mul_nonneg (by omega) hf0
  · have hmul := mul_le_mul_of_nonneg_left hf (show 0 ≤ b.toInt - a.toInt by omega)
    omega
  · exact mul_nonpos_of_nonpos_of_nonneg (by omega) hf0
  · have hmul := mul_le_mul_of_nonpos_left hf (show b.toInt - a.toInt ≤ 0 by omega)
    omega

/-- The interpolation has a result exactly when its neighbours are gentle, and that is between them;
then the step fits in 32 bits. Otherwise the step is too long for the cast, and the sum leaves the
32 bits. -/
theorem interpolate_spec (a b : Int32) (fraction : UInt32) :
    (Gentle a b fraction → ∃ y, interpolate a b fraction = some y ∧ Between a b y ∧
      InRange 32 (stepOf a b fraction)) ∧
    (¬Gentle a b fraction → interpolate a b fraction = none ∧
      ¬InRange 32 (stepOf a b fraction)) := by
  have ha := inRange_32.mp (inRange_toInt a)
  have hb := inRange_32.mp (inRange_toInt b)
  obtain ⟨hup, hdown⟩ := product_bounds a b fraction
  have hgentle : Gentle a b fraction ↔
      ((b.toInt - a.toInt) * ((fraction >>> 1).toNat : Int)).natAbs < 4611686017353646080 := by
    rw [Int.natAbs_mul, Int.natAbs_natCast, toNat_half]
    exact Iff.rfl
  unfold interpolate stepOf
  rw [hgentle]
  simp only [Option.bind_eq_bind]
  rw [checked_inRange (inRange_64.mpr (by omega))]
  simp only [Option.bind_some]
  generalize (b.toInt - a.toInt) * ((fraction >>> 1).toNat : Int) = n at *
  have hn : InRange 64 n := by
    rw [inRange_64]
    omega
  rw [checked_inRange hn, Option.bind_some, inRange_32]
  by_cases hpos : n ≥ 0
  · have hle : a.toInt ≤ b.toInt ∨ n = 0 := by omega
    rw [if_pos hpos, rounded_eq hpos (by omega), Option.bind_some]
    constructor
    · intro hlt
      have hcast := toInt_ofInt (n := (n + 1073741824) / 2147483648) (inRange_32.mpr (by omega))
      rw [hcast, checked_inRange (inRange_32.mpr (by omega)), Option.bind_some]
      refine ⟨_, rfl, ?_, by omega⟩
      unfold Between
      rw [toInt_ofInt (inRange_32.mpr (by omega))]
      omega
    · intro hge
      have hcast := toInt_wrapped (n := (n + 1073741824) / 2147483648) (by omega) (by omega)
      rw [hcast]
      refine ⟨?_, by omega⟩
      unfold checked
      rw [if_neg (by rw [inRange_32]; omega)]
      rfl
  · rw [if_neg hpos, checked_inRange (inRange_64.mpr (by omega)), Option.bind_some,
      rounded_eq (by omega) (by omega), Option.bind_some]
    constructor
    · intro hlt
      have hcast := toInt_ofInt (n := (-n + 1073741824) / 2147483648) (inRange_32.mpr (by omega))
      rw [hcast, checked_inRange (inRange_32.mpr (by omega)), Option.bind_some]
      refine ⟨_, rfl, ?_, by omega⟩
      unfold Between
      rw [toInt_ofInt (inRange_32.mpr (by omega))]
      omega
    · intro hge
      have hcast := toInt_wrapped (n := (-n + 1073741824) / 2147483648) (by omega) (by omega)
      rw [hcast]
      refine ⟨?_, by omega⟩
      unfold checked
      rw [if_neg (by rw [inRange_32]; omega)]
      rfl

/-! ## The resampler -/

/-- `step`: input frames for each output frame, in units of 2^-32. -/
def stepSize (inFrames outFrames : UInt32) : UInt64 :=
  (inFrames.toUInt64 <<< 32) / outFrames.toUInt64

/-- `position` of an output frame. -/
def positionOf (inFrames outFrames : UInt32) (i : Nat) : UInt64 :=
  UInt64.ofNat i * stepSize inFrames outFrames

/-- `index` of an output frame. -/
def indexOf (inFrames outFrames : UInt32) (i : Nat) : UInt32 :=
  (positionOf inFrames outFrames i >>> 32).toUInt32

/-- Output frame `i`. -/
def outFrame (input : List Int32) (inFrames outFrames : UInt32) (channels : UInt8) (i : Nat) :
    Option (List Int32) :=
  let index := indexOf inFrames outFrames i
  if inFrames = 1 then (List.range channels.toNat).mapM fun c => input[c]?
  else if index ≥ inFrames - 1 then
    (List.range channels.toNat).mapM fun c => input[(inFrames - 1).toNat * channels.toNat + c]?
  else
    (List.range channels.toNat).mapM fun c => do
      let a ← input[index.toNat * channels.toNat + c]?
      let b ← input[(index + 1).toNat * channels.toNat + c]?
      interpolate a b (positionOf inFrames outFrames i).toUInt32

/-- `eaf_sync_resample`: what it returns, and the frames that it writes. There is nothing to read
outside of the input. -/
def resample (input : List Int32) (inFrames outFrames : UInt32) (channels : UInt8) :
    Option (UInt32 × List (List Int32)) :=
  if inFrames = 0 ∨ outFrames = 0 ∨ (channels ≠ 1 ∧ channels ≠ 2) then some (0, [])
  else do
    let out ← (List.range outFrames.toNat).mapM (outFrame input inFrames outFrames channels)
    return (outFrames, out)

/-! ## Positions -/

/-- No position wraps around: the last one is inside of the input. -/
theorem toNat_positionOf {inFrames outFrames : UInt32} {i : Nat} (hi : i < outFrames.toNat) :
    (positionOf inFrames outFrames i).toNat =
      i * (inFrames.toNat * 4294967296 / outFrames.toNat) := by
  have hin := inFrames.toNat_lt
  have hout := outFrames.toNat_lt
  have hshift : (inFrames.toUInt64 <<< 32).toNat = inFrames.toNat * 4294967296 := by
    rw [UInt64.toNat_shiftLeft, UInt32.toNat_toUInt64]
    change inFrames.toNat <<< 32 % 2 ^ 64 = _
    rw [Nat.shiftLeft_eq, Nat.mod_eq_of_lt (by omega)]
  have hbound : i * (inFrames.toNat * 4294967296 / outFrames.toNat) < 2 ^ 64 :=
    calc i * (inFrames.toNat * 4294967296 / outFrames.toNat)
        ≤ outFrames.toNat * (inFrames.toNat * 4294967296 / outFrames.toNat) :=
          Nat.mul_le_mul_right _ hi.le
      _ ≤ inFrames.toNat * 4294967296 := Nat.mul_div_le _ _
      _ < 2 ^ 64 := by omega
  unfold positionOf stepSize
  rw [UInt64.toNat_mul, UInt64.toNat_div, hshift, UInt32.toNat_toUInt64,
    UInt64.toNat_ofNat_of_lt' (hi.trans (hout.trans (by decide))), Nat.mod_eq_of_lt hbound]

/-- The frames between which an output frame is. Behind the last one there is none. -/
def lowerOf (inFrames outFrames : UInt32) (i : Nat) : Nat :=
  min (indexOf inFrames outFrames i).toNat (inFrames.toNat - 1)

def upperOf (inFrames outFrames : UInt32) (i : Nat) : Nat :=
  min ((indexOf inFrames outFrames i).toNat + 1) (inFrames.toNat - 1)

/-- A sample of the input. -/
def sampleAt (input : List Int32) (channels : UInt8) (frame c : Nat) : Int32 :=
  input.getD (frame * channels.toNat + c) 0

/-! ## The loops -/

section Loops

variable {α β : Type} {f : α → Option β}

/-- A loop that has a result has one for each element. -/
theorem mapM_eq_some {xs : List α} {ys : List β} :
    xs.mapM f = some ys ↔ xs.map f = ys.map some := by
  induction xs generalizing ys with
  | nil => cases ys <;> simp
  | cons x xs ih =>
    rw [List.mapM_cons, List.map_cons]
    cases hx : f x with
    | none => cases ys <;> simp
    | some y =>
      cases hxs : xs.mapM f with
      | none =>
        have hnone : ∀ ys, xs.map f ≠ List.map some ys := fun ys h => by
          rw [← ih, hxs] at h
          cases h
        cases ys with
        | nil => simp
        | cons y' ys => simp [hnone ys]
      | some rest =>
        rw [ih.mp hxs]
        cases ys with
        | nil => simp
        | cons y' ys => simp [List.map_inj_right fun _ _ => Option.some.inj]

theorem mapM_range {g : Nat → Option β} {n : Nat} {ys : List β} :
    (List.range n).mapM g = some ys ↔ ys.length = n ∧ ∀ i < n, ys[i]? = g i := by
  rw [mapM_eq_some]
  constructor
  · intro h
    have hlength : ys.length = n := by
      have hlength := congrArg List.length h
      simpa using hlength.symm
    refine ⟨hlength, fun i hi => ?_⟩
    have hcell := congrArg (·[i]?) h
    simp only [List.getElem?_map, List.getElem?_range hi, Option.map_some,
      List.getElem?_eq_getElem (hlength ▸ hi)] at hcell
    rw [List.getElem?_eq_getElem (hlength ▸ hi)]
    exact (Option.some.inj hcell).symm
  · rintro ⟨hlength, hcells⟩
    refine List.ext_getElem? fun i => ?_
    rw [List.getElem?_map, List.getElem?_map]
    by_cases hi : i < n
    · have hlt : i < ys.length := hlength ▸ hi
      rw [List.getElem?_range hi, Option.map_some, ← hcells i hi, List.getElem?_eq_getElem hlt]
      rfl
    · rw [List.getElem?_eq_none (by rw [List.length_range]; omega),
        List.getElem?_eq_none (by omega)]
      rfl

theorem mapM_range_defined {g : Nat → Option β} {n : Nat} (h : ∀ i < n, ∃ y, g i = some y) :
    ∃ ys, (List.range n).mapM g = some ys := by
  induction n with
  | zero => exact ⟨[], rfl⟩
  | succ n ih =>
    obtain ⟨ys, hys⟩ := ih fun i hi => h i (Nat.lt_succ_of_lt hi)
    obtain ⟨y, hy⟩ := h n (Nat.lt_succ_self n)
    refine ⟨ys ++ [y], ?_⟩
    rw [List.range_succ, List.mapM_append, hys]
    simp [hy]

end Loops

/-! ## When it stays in range -/

section Cells

variable {input : List Int32} {inFrames outFrames : UInt32} {channels : UInt8} {i c : Nat}

/-- The arguments that the resampler takes. -/
def Valid (inFrames outFrames : UInt32) (channels : UInt8) : Prop :=
  ¬(inFrames = 0 ∨ outFrames = 0 ∨ (channels ≠ 1 ∧ channels ≠ 2))

/-- The neighbours of a sample of the output. -/
def leftOf (input : List Int32) (inFrames outFrames : UInt32) (channels : UInt8) (i c : Nat) :
    Int32 :=
  sampleAt input channels (lowerOf inFrames outFrames i) c

def rightOf (input : List Int32) (inFrames outFrames : UInt32) (channels : UInt8) (i c : Nat) :
    Int32 :=
  sampleAt input channels (upperOf inFrames outFrames i) c

/-- A sample of the output. -/
def cellOf (input : List Int32) (inFrames outFrames : UInt32) (channels : UInt8) (i c : Nat) :
    Option Int32 :=
  if (indexOf inFrames outFrames i).toNat + 1 < inFrames.toNat then
    interpolate (leftOf input inFrames outFrames channels i c)
      (rightOf input inFrames outFrames channels i c) (positionOf inFrames outFrames i).toUInt32
  else some (leftOf input inFrames outFrames channels i c)

theorem sampleAt_some (hlen : input.length = inFrames.toNat * channels.toNat) {frame : Nat}
    (hframe : frame < inFrames.toNat) (hc : c < channels.toNat) :
    input[frame * channels.toNat + c]? = some (sampleAt input channels frame c) := by
  have hlt : frame * channels.toNat + c < input.length := by
    rw [hlen]
    calc frame * channels.toNat + c < frame * channels.toNat + channels.toNat :=
          Nat.add_lt_add_left hc _
      _ ≤ inFrames.toNat * channels.toNat := block_le hframe _
  unfold sampleAt
  rw [List.getElem?_eq_getElem hlt, List.getD_eq_getElem _ _ hlt]

/-- A frame of the output, sample by sample. -/
theorem outFrame_cells (hlen : input.length = inFrames.toNat * channels.toNat)
    (hin : inFrames ≠ 0) {frame : List Int32} :
    outFrame input inFrames outFrames channels i = some frame ↔ frame.length = channels.toNat ∧
      ∀ c < channels.toNat, frame[c]? = cellOf input inFrames outFrames channels i c := by
  have hpos : 0 < inFrames.toNat := by
    have hne : inFrames.toNat ≠ 0 := fun h => hin (UInt32.toNat_inj.mp h)
    omega
  have hone : inFrames = 1 ↔ inFrames.toNat = 1 := by
    rw [← UInt32.toNat_inj]
    rfl
  have hlast : (inFrames - 1).toNat = inFrames.toNat - 1 := by
    rw [UInt32.toNat_sub_of_le _ _ (UInt32.le_iff_toNat_le.mpr (by exact hpos))]
    rfl
  unfold outFrame cellOf leftOf rightOf lowerOf upperOf
  simp only
  by_cases hsingle : inFrames = 1
  · rw [if_pos hsingle, mapM_range]
    have hn := hone.mp hsingle
    refine and_congr_right fun _ => forall₂_congr fun c hc => ?_
    have hcell := sampleAt_some hlen (Nat.lt_of_lt_of_eq Nat.zero_lt_one hn.symm) hc
    rw [Nat.zero_mul, Nat.zero_add] at hcell
    rw [if_neg (by omega), hcell, hn, Nat.sub_self, Nat.min_zero]
  rw [if_neg hsingle]
  by_cases hend : indexOf inFrames outFrames i ≥ inFrames - 1
  · rw [if_pos hend, mapM_range]
    rw [ge_iff_le, UInt32.le_iff_toNat_le, hlast] at hend
    refine and_congr_right fun _ => forall₂_congr fun c hc => ?_
    rw [if_neg (by omega), hlast, sampleAt_some hlen (by omega) hc, Nat.min_eq_right hend]
  rw [if_neg hend, mapM_range]
  rw [ge_iff_le, UInt32.le_iff_toNat_le, hlast] at hend
  have hbound := inFrames.toNat_lt
  have hnext : (indexOf inFrames outFrames i + 1).toNat =
      (indexOf inFrames outFrames i).toNat + 1 := by
    rw [UInt32.toNat_add]
    change ((indexOf inFrames outFrames i).toNat + 1) % 2 ^ 32 = _
    rw [Nat.mod_eq_of_lt (by omega)]
  refine and_congr_right fun _ => forall₂_congr fun c hc => ?_
  rw [if_pos (by omega), hnext, sampleAt_some hlen (by omega) hc, sampleAt_some hlen (by omega) hc,
    Nat.min_eq_left (by omega), Nat.min_eq_left (by omega)]
  rfl

/-- A sample of the output exists exactly when its neighbours are gentle, and is between them. -/
theorem cellOf_spec (input : List Int32) (inFrames outFrames : UInt32) (channels : UInt8)
    (i c : Nat) :
    let a := leftOf input inFrames outFrames channels i c
    let b := rightOf input inFrames outFrames channels i c
    let fraction := (positionOf inFrames outFrames i).toUInt32
    (Gentle a b fraction → ∃ y, cellOf input inFrames outFrames channels i c = some y ∧
      Between a b y ∧ InRange 32 (stepOf a b fraction)) ∧
    (¬Gentle a b fraction → cellOf input inFrames outFrames channels i c = none) := by
  intro a b fraction
  unfold cellOf
  by_cases hinside : (indexOf inFrames outFrames i).toNat + 1 < inFrames.toNat
  · rw [if_pos hinside]
    obtain ⟨hgentle, hharsh⟩ := interpolate_spec a b fraction
    exact ⟨hgentle, fun h => (hharsh h).1⟩
  · -- behind the last frame both neighbours are that frame
    have hsame : b = a := by
      change sampleAt _ _ (upperOf _ _ _) _ = sampleAt _ _ (lowerOf _ _ _) _
      unfold upperOf lowerOf
      rw [Nat.min_eq_right (by omega), Nat.min_eq_right (by omega)]
    rw [if_neg hinside, hsame]
    refine ⟨fun _ => ⟨a, rfl, ⟨by omega, by omega⟩, ?_⟩, fun h => ?_⟩
    · unfold stepOf
      rw [Int.sub_self, Int.zero_mul]
      decide
    · unfold Gentle at h
      rw [Int.sub_self, Int.natAbs_zero, Nat.zero_mul] at h
      exact absurd (by decide) h

/-- The samples of the output lie between their neighbours, and each intermediate value in its
type. -/
def StaysInRange (input : List Int32) (inFrames outFrames : UInt32) (channels : UInt8) : Prop :=
  ∃ count frames, resample input inFrames outFrames channels = some (count, frames) ∧
    frames.length = count.toNat ∧
    ∀ i < count.toNat, ∃ frame, frames[i]? = some frame ∧ frame.length = channels.toNat ∧
      ∀ c < channels.toNat, ∃ y, frame[c]? = some y ∧
        Between (leftOf input inFrames outFrames channels i c)
          (rightOf input inFrames outFrames channels i c) y ∧
        InRange 32 (stepOf (leftOf input inFrames outFrames channels i c)
          (rightOf input inFrames outFrames channels i c)
          (positionOf inFrames outFrames i).toUInt32)

/-- For every input and all lengths: the resampler stays in range if and only if no pair of
neighbours is too far apart for the step between them, which is narrowed to 32 bits before it is
added up. -/
theorem resample_between (outFrames : UInt32)
    (hlen : input.length = inFrames.toNat * channels.toNat) :
    StaysInRange input inFrames outFrames channels ↔
    (Valid inFrames outFrames channels → ∀ i < outFrames.toNat, ∀ c < channels.toNat,
      Gentle (leftOf input inFrames outFrames channels i c)
        (rightOf input inFrames outFrames channels i c)
        (positionOf inFrames outFrames i).toUInt32) := by
  unfold StaysInRange resample Valid
  by_cases hbad : inFrames = 0 ∨ outFrames = 0 ∨ (channels ≠ 1 ∧ channels ≠ 2)
  · rw [if_pos hbad]
    exact ⟨fun _ hvalid => absurd hbad hvalid, fun _ => ⟨0, [], rfl, rfl, nofun⟩⟩
  rw [if_neg hbad]
  have hin := (not_or.mp hbad).1
  constructor
  · rintro ⟨count, frames, hrun, -, hframes⟩ - i hi c hc
    cases hout : (List.range outFrames.toNat).mapM (outFrame input inFrames outFrames channels) with
    | none =>
      rw [hout] at hrun
      cases hrun
    | some out =>
      rw [hout] at hrun
      cases hrun
      obtain ⟨frame, hframe, -, hcells⟩ := hframes i hi
      obtain ⟨y, hy, -⟩ := hcells c hc
      rw [(mapM_range.mp hout).2 i hi, outFrame_cells hlen hin] at hframe
      rw [hframe.2 c hc] at hy
      by_contra hharsh
      rw [(cellOf_spec input inFrames outFrames channels i c).2 hharsh] at hy
      cases hy
  · intro h
    replace h := h hbad
    have hframe : ∀ i < outFrames.toNat, ∃ frame,
        outFrame input inFrames outFrames channels i = some frame := by
      intro i hi
      obtain ⟨frame, hframe⟩ := mapM_range_defined (n := channels.toNat) fun c hc => by
        obtain ⟨y, hy, -⟩ := (cellOf_spec input inFrames outFrames channels i c).1 (h i hi c hc)
        exact ⟨y, hy⟩
      exact ⟨frame, (outFrame_cells hlen hin).mpr (mapM_range.mp hframe)⟩
    obtain ⟨frames, hframes⟩ := mapM_range_defined hframe
    obtain ⟨hlength, hcells⟩ := mapM_range.mp hframes
    refine ⟨outFrames, frames, ?_, hlength, ?_⟩
    · rw [hframes]
      rfl
    · intro i hi
      obtain ⟨frame, hout⟩ := hframe i hi
      obtain ⟨hchannels, hsamples⟩ := (outFrame_cells hlen hin).mp hout
      refine ⟨frame, (hcells i hi).trans hout, hchannels, ?_⟩
      intro c hc
      obtain ⟨y, hy, hbetween⟩ :=
        (cellOf_spec input inFrames outFrames channels i c).1 (h i hi c hc)
      exact ⟨y, (hsamples c hc).trans hy, hbetween⟩

end Cells

/-- The block of test_sync.c that is stretched to twice its length. -/
theorem resample_between_stretched :
    StaysInRange [0, 20, 40, 60] 4 8 1 ↔ (Valid 4 8 1 → ∀ i < (8 : UInt32).toNat, ∀ c < (1 : UInt8).toNat,
      Gentle (leftOf [0, 20, 40, 60] 4 8 1 i c) (rightOf [0, 20, 40, 60] 4 8 1 i c)
        (positionOf 4 8 i).toUInt32) :=
  resample_between 8 rfl

/-- Half way from the lowest sample to the highest, the sum leaves the 32 bits. -/
theorem swing_overflows :
    ¬∀ (input : List Int32) (inFrames outFrames : UInt32) (channels : UInt8),
      input.length = inFrames.toNat * channels.toNat →
      StaysInRange input inFrames outFrames channels := by
  intro h
  obtain ⟨count, frames, hrun, -⟩ := h [Int32.minValue, Int32.maxValue] 2 4 1 rfl
  have hnone : resample [Int32.minValue, Int32.maxValue] 2 4 1 = none := by decide +kernel
  cases hnone.symm.trans hrun

end EmbeddedAudio.Resample
