-- The volume of the Bluetooth sink (bt_volume.c): a gain that goes to its target in 256 frames,
-- started again by each new target.
import EmbeddedAudio.Biquad
import EmbeddedAudio.Ramp

namespace EmbeddedAudio.VolumeRamp

open SignedRange

/-! ## The multiplication -/

/-- `eaf_q31_multiply`. -/
def q31Multiply (sample gain : Int32) : Int32 :=
  if gain = Int32.maxValue then sample
  else Dsp.sat ((sample.toInt * gain.toInt).tdiv 2147483648)

/-- `eaf_q16_multiply`. -/
def q16Multiply (sample gain : Int32) : Int32 :=
  if gain ≥ 65536 then sample else q31Multiply sample (gain <<< 15)

/-! ## The ramp -/

/-- `eaf_bt_volume_t`. -/
structure BtVolume where
  current : UInt32
  target : UInt32
  remaining : UInt32
  deriving DecidableEq, Repr

/-- Zero initialization starts silent. -/
def zeroed : BtVolume := ⟨0, 0, 0⟩

/-- `target`: AVRCP's scale of 0..127 maps to squared amplitude. -/
def targetOf (volume : UInt8) (muted : Bool) : UInt32 :=
  let v : UInt32 := if volume > 127 then 127 else volume.toUInt32
  if muted then 0 else v * v * 65536 / (127 * 127)

/-- A new target starts the ramp again. -/
def retarget (gain : BtVolume) (target : UInt32) : BtVolume :=
  if target ≠ gain.target then { gain with target, remaining := 256 } else gain

/-- The gain of the next frame. It has none when an operation leaves its type. -/
def rampStep (gain : BtVolume) : Option BtVolume :=
  if gain.remaining ≠ 0 then do
    let delta ← checked 32 (gain.target.toInt32.toInt - gain.current.toInt32.toInt)
    let step ← checked 32 (delta.tdiv gain.remaining.toInt32.toInt)
    let current ← checked 32 (gain.current.toInt32.toInt + step)
    return { gain with current := (Int32.ofInt current).toUInt32, remaining := gain.remaining - 1 }
  else some gain

/-- A stereo frame. -/
abbrev Frame := Int32 × Int32

def scaled (frame : Frame) (current : UInt32) : Frame :=
  (q16Multiply frame.1 current.toInt32, q16Multiply frame.2 current.toInt32)

/-- The loop over the frames: what it makes of them, and the gain state behind it. -/
def rampFrames (gain : BtVolume) : List Frame → Option (List Frame × BtVolume)
  | [] => some ([], gain)
  | frame :: frames => do
    let gain ← rampStep gain
    let (out, last) ← rampFrames gain frames
    return (scaled frame gain.current :: out, last)

/-- `eaf_bt_volume_apply`. -/
def eafBtVolumeApply (gain : BtVolume) (stereo : List Frame) (volume : UInt8) (muted : Bool) :
    Option (List Frame × BtVolume) :=
  rampFrames (retarget gain (targetOf volume muted)) stereo

/-- A call with its arguments. -/
structure Call where
  stereo : List Frame
  volume : UInt8
  muted : Bool

def Call.target (call : Call) : UInt32 := targetOf call.volume call.muted

/-- The calls one after another. -/
def applied (gain : BtVolume) : List Call → Option (List Frame × BtVolume)
  | [] => some ([], gain)
  | call :: calls => do
    let (out, gain) ← eafBtVolumeApply gain call.stereo call.volume call.muted
    let (tail, last) ← applied gain calls
    return (out ++ tail, last)

/-! ## Calls that are split -/

section Split

variable {gain : BtVolume}

theorem retarget_target (gain : BtVolume) (target : UInt32) :
    (retarget gain target).target = target := by
  unfold retarget
  split
  · rfl
  · rename_i h
    exact (not_not.mp h).symm

/-- The same target again does not start the ramp again. -/
theorem retarget_same {target : UInt32} (h : gain.target = target) :
    retarget gain target = gain := by
  unfold retarget
  rw [if_neg (not_not.mpr h.symm)]

/-- A frame leaves the target as it is. -/
theorem rampStep_target {next : BtVolume} (h : rampStep gain = some next) :
    next.target = gain.target := by
  unfold rampStep at h
  split at h
  · simp only [Option.bind_eq_bind] at h
    obtain ⟨-, h⟩ := checked_bind.mp h
    obtain ⟨-, h⟩ := checked_bind.mp h
    obtain ⟨-, h⟩ := checked_bind.mp h
    cases h
    rfl
  · cases h
    rfl

theorem rampFrames_target {frames out : List Frame} {last : BtVolume}
    (h : rampFrames gain frames = some (out, last)) : last.target = gain.target := by
  induction frames generalizing gain out with
  | nil =>
    cases h
    rfl
  | cons frame frames ih =>
    rw [rampFrames] at h
    obtain ⟨next, hstep, h⟩ := Option.bind_eq_some_iff.mp h
    obtain ⟨⟨tail, final⟩, hframes, h⟩ := Option.bind_eq_some_iff.mp h
    cases h
    rw [ih hframes, rampStep_target hstep]

theorem rampFrames_append (gain : BtVolume) (xs ys : List Frame) :
    rampFrames gain (xs ++ ys) = (do
      let (out, mid) ← rampFrames gain xs
      let (tail, last) ← rampFrames mid ys
      return (out ++ tail, last)) := by
  induction xs generalizing gain with
  | nil =>
    rw [List.nil_append, rampFrames]
    simp
  | cons x xs ih =>
    rw [List.cons_append, rampFrames, rampFrames]
    simp only [ih, Option.bind_eq_bind, Option.bind_assoc]
    rfl

/-- Calls with the target that is there are one loop over their frames. -/
theorem applied_same {calls : List Call} (h : ∀ call ∈ calls, call.target = gain.target) :
    applied gain calls = rampFrames gain (calls.flatMap Call.stereo) := by
  induction calls generalizing gain with
  | nil => rfl
  | cons call calls ih =>
    have hcall := h call List.mem_cons_self
    rw [applied, List.flatMap_cons, rampFrames_append]
    unfold eafBtVolumeApply
    rw [retarget_same (by exact hcall.symm)]
    cases hpart : rampFrames gain call.stereo with
    | none => rfl
    | some result =>
      obtain ⟨out, mid⟩ := result
      have hmid : ∀ call ∈ calls, call.target = mid.target := by
        intro other hother
        rw [rampFrames_target hpart]
        exact h other (List.mem_cons_of_mem _ hother)
      simp only [Option.bind_eq_bind, Option.bind_some, ih hmid]

/-- Calls with one target start the ramp at most once. -/
theorem applied_retarget {calls : List Call} {target : UInt32} (hne : calls ≠ [])
    (h : ∀ call ∈ calls, call.target = target) :
    applied gain calls = rampFrames (retarget gain target) (calls.flatMap Call.stereo) := by
  cases calls with
  | nil => exact absurd rfl hne
  | cons call calls =>
    have hcall := h call List.mem_cons_self
    have hsame := retarget_target gain target
    rw [← applied_same fun other hother => (h other hother).trans hsame.symm]
    rw [applied, applied]
    unfold eafBtVolumeApply
    rw [show targetOf call.volume call.muted = target from hcall,
      retarget_same hsame]

/-- A call that is split into several gives the same samples, and the same state. -/
theorem applied_split (gain : BtVolume) {parts : List (List Frame)} (hne : parts ≠ [])
    (volume : UInt8) (muted : Bool) :
    applied gain (parts.map fun part => ⟨part, volume, muted⟩) =
      eafBtVolumeApply gain parts.flatten volume muted := by
  have htarget : ∀ call ∈ parts.map fun part => (⟨part, volume, muted⟩ : Call),
      call.target = targetOf volume muted := by
    intro call hcall
    obtain ⟨part, -, rfl⟩ := List.mem_map.mp hcall
    rfl
  rw [applied_retarget (by simpa using hne) htarget, List.flatMap_map]
  change rampFrames _ (parts.flatMap id) = _
  rw [List.flatMap_id]
  rfl

end Split

/-! ## The gain of each frame -/

/-- A gain is at most unity. -/
def UNITY : Nat := 65536

theorem targetOf_le (volume : UInt8) (muted : Bool) : (targetOf volume muted).toNat ≤ UNITY := by
  unfold targetOf
  simp only
  cases muted with
  | true => exact Nat.zero_le _
  | false =>
    have hv : (if volume > 127 then (127 : UInt32) else volume.toUInt32).toNat ≤ 127 := by
      split
      · exact Nat.le_refl _
      · rename_i h
        rw [UInt8.toNat_toUInt32]
        exact UInt8.le_iff_toNat_le.mp (UInt8.not_lt.mp h)
    generalize (if volume > 127 then (127 : UInt32) else volume.toUInt32) = v at hv
    have hsquare : v.toNat * v.toNat ≤ 127 * 127 := Nat.mul_le_mul hv hv
    have hproduct : (v * v * 65536).toNat = v.toNat * v.toNat * 65536 := by
      rw [UInt32.toNat_mul, UInt32.toNat_mul]
      change v.toNat * v.toNat % 2 ^ 32 * 65536 % 2 ^ 32 = _
      rw [Nat.mod_eq_of_lt (by omega), Nat.mod_eq_of_lt (by omega)]
    rw [if_neg (by decide), UInt32.toNat_div, hproduct]
    change v.toNat * v.toNat * 65536 / 16129 ≤ 65536
    omega

/-- The gain `k` frames behind the start of a ramp. -/
def gainAt (start target : UInt32) (k : Nat) : Nat :=
  Ramp.valueAt start.toNat target.toNat 256 (min k 256)

section Gains

variable {start target : UInt32} {k : Nat}

theorem gainAt_zero (start target : UInt32) : gainAt start target 0 = start.toNat :=
  Ramp.valueAt_zero _ _ (by decide)

theorem gainAt_landed (hk : 256 ≤ k) : gainAt start target k = target.toNat := by
  unfold gainAt
  rw [Nat.min_eq_right hk, Ramp.valueAt_all]

theorem gainAt_before (hk : k ≤ 256) :
    gainAt start target k = Ramp.valueAt start.toNat target.toNat 256 k := by
  unfold gainAt
  rw [Nat.min_eq_left hk]

theorem gainAt_toward (start target : UInt32) (k : Nat) :
    Ramp.Toward target.toNat (gainAt start target k) (gainAt start target (k + 1)) := by
  rcases Nat.lt_or_ge k 256 with hlt | hge
  · rw [gainAt_before hlt.le, gainAt_before hlt]
    exact Ramp.valueAt_toward hlt
  · rw [gainAt_landed hge, gainAt_landed (Nat.le_succ_of_le hge)]
    exact .inl ⟨Nat.le_refl _, Nat.le_refl _⟩

theorem gainAt_slope (start target : UInt32) (k : Nat) :
    Ramp.distance (gainAt start target k) (gainAt start target (k + 1)) ≤
      (Ramp.distance start.toNat target.toNat + 255) / 256 := by
  rcases Nat.lt_or_ge k 256 with hlt | hge
  · rw [gainAt_before hlt.le, gainAt_before hlt]
    exact Ramp.valueAt_slope hlt
  · rw [gainAt_landed hge, gainAt_landed (Nat.le_succ_of_le hge)]
    unfold Ramp.distance
    omega

/-- By induction on the frames: the gain stays between where it started and the target. -/
theorem gainAt_le (hstart : start.toNat ≤ UNITY) (htarget : target.toNat ≤ UNITY) (k : Nat) :
    gainAt start target k ≤ UNITY := by
  induction k with
  | zero => rwa [gainAt_zero]
  | succ k ih =>
    rcases gainAt_toward start target k with ⟨-, hle⟩ | ⟨-, hle⟩
    · exact hle.trans htarget
    · exact hle.trans ih

end Gains

/-! ## The ramp that a state is in -/

/-- The state `k` frames behind the start of a ramp. -/
structure At (start target : UInt32) (k : Nat) (gain : BtVolume) : Prop where
  aim : gain.target = target
  remaining : gain.remaining.toNat = 256 - k
  current : gain.current.toNat = gainAt start target k

section Ramping

variable {start target : UInt32} {k : Nat} {gain : BtVolume}

/-- The cast of a gain to a signed type. -/
theorem toInt_toInt32 {x : UInt32} (h : x.toNat ≤ UNITY) : x.toInt32.toInt = x.toNat := by
  have hx : x = UInt32.ofNat x.toNat := (UInt32.ofNat_toNat).symm
  unfold UNITY at h
  rw [hx, UInt32.toInt32_ofNat']
  rw [← hx]
  exact Int32.toInt_ofNat_of_lt (by omega)

/-- And back. -/
theorem toNat_toUInt32 {n : Nat} (h : n ≤ UNITY) : (Int32.ofInt (n : Int)).toUInt32.toNat = n := by
  unfold UNITY at h
  have hle : (0 : Int32) ≤ Int32.ofInt n := by
    rw [Int32.le_iff_toInt_le, toInt_ofInt (inRange_32.mpr (by omega))]
    exact Int.natCast_nonneg n
  rw [Int32.toNat_toUInt32_of_le hle]
  unfold Int32.toNatClampNeg
  rw [toInt_ofInt (inRange_32.mpr (by omega)), Int.toNat_natCast]

/-- A frame goes one step on. No operation leaves its type. -/
theorem rampStep_at (hstart : start.toNat ≤ UNITY) (htarget : target.toNat ≤ UNITY)
    (h : At start target k gain) : ∃ next, rampStep gain = some next ∧
      At start target (k + 1) next := by
  have hgain := gainAt_le hstart htarget k
  have hnext := gainAt_le hstart htarget (k + 1)
  have hremaining := h.remaining
  unfold rampStep
  by_cases hmore : gain.remaining ≠ 0
  · have hk : k < 256 := by
      by_contra hk
      apply hmore
      apply UInt32.toNat_inj.mp
      rw [hremaining]
      exact Nat.sub_eq_zero_of_le (by omega)
    have hstep := Ramp.valueAt_succ start.toNat target.toNat hk
    rw [← gainAt_before (k := k + 1) hk, ← gainAt_before hk.le] at hstep
    have hcurrent : gain.current.toNat ≤ UNITY := h.current ▸ hgain
    have hleft : gain.remaining.toNat ≤ UNITY := by
      unfold UNITY
      omega
    rw [if_pos hmore, h.aim, toInt_toInt32 htarget, toInt_toInt32 hcurrent,
      toInt_toInt32 hleft, hremaining, h.current]
    unfold UNITY at hgain hnext htarget
    simp only [Option.bind_eq_bind]
    rw [checked_inRange (inRange_32.mpr (by omega)), Option.bind_some,
      checked_inRange (inRange_32.mpr (by omega)), Option.bind_some, ← hstep,
      checked_inRange (inRange_32.mpr (by omega)), Option.bind_some]
    refine ⟨_, rfl, rfl, ?_, toNat_toUInt32 hnext⟩
    have hone : 1 ≤ gain.remaining := UInt32.le_iff_toNat_le.mpr (by
      change 1 ≤ gain.remaining.toNat
      omega)
    simp only
    rw [UInt32.toNat_sub_of_le _ _ hone, hremaining]
    change 256 - k - 1 = _
    omega
  · rw [not_not] at hmore
    have hk : 256 ≤ k := by
      rw [hmore] at hremaining
      change 0 = 256 - k at hremaining
      omega
    rw [if_neg (not_not.mpr hmore)]
    refine ⟨gain, rfl, h.aim, ?_, ?_⟩
    · rw [hremaining]
      omega
    · rw [h.current, gainAt_landed hk, gainAt_landed (by omega)]

/-- The frames of a loop, each with the gain of its place in the ramp. -/
theorem rampFrames_at (hstart : start.toNat ≤ UNITY) (htarget : target.toNat ≤ UNITY)
    (h : At start target k gain) (frames : List Frame) : ∃ last,
      rampFrames gain frames = some (frames.mapIdx fun i frame =>
        scaled frame (UInt32.ofNat (gainAt start target (k + i + 1))), last) ∧
      At start target (k + frames.length) last := by
  induction frames generalizing k gain with
  | nil => exact ⟨gain, rfl, h⟩
  | cons frame frames ih =>
    obtain ⟨next, hstep, hnext⟩ := rampStep_at hstart htarget h
    obtain ⟨last, hframes, hlast⟩ := ih hnext
    refine ⟨last, ?_, ?_⟩
    · have hcurrent : next.current = UInt32.ofNat (gainAt start target (k + 0 + 1)) := by
        rw [Nat.add_zero, ← hnext.current, UInt32.ofNat_toNat]
      rw [rampFrames, hstep, Option.bind_eq_bind, Option.bind_some, hframes, List.mapIdx_cons,
        hcurrent]
      have hplace : ∀ i, k + 1 + i + 1 = k + (i + 1) + 1 := fun i => by omega
      simp only [hplace]
      rfl
    · rw [List.length_cons, Nat.add_comm frames.length, ← Nat.add_assoc]
      exact hlast

end Ramping

/-! ## Any calls -/

/-- A state that is somewhere in a ramp between gains. -/
def Sane (gain : BtVolume) : Prop :=
  ∃ start target k, start.toNat ≤ UNITY ∧ target.toNat ≤ UNITY ∧ At start target k gain

theorem sane_zeroed : Sane zeroed := ⟨0, 0, 256, Nat.zero_le _, Nat.zero_le _, rfl, rfl, rfl⟩

section Calls

variable {gain : BtVolume}

theorem Sane.current_le (h : Sane gain) : gain.current.toNat ≤ UNITY := by
  obtain ⟨start, target, k, hstart, htarget, hat⟩ := h
  rw [hat.current]
  exact gainAt_le hstart htarget k

/-- Another target starts a ramp at the gain that is there. -/
theorem retarget_at {target : UInt32} (hne : target ≠ gain.target) :
    At gain.current target 0 (retarget gain target) := by
  unfold retarget
  rw [if_pos hne]
  exact ⟨rfl, rfl, (gainAt_zero _ _).symm⟩

theorem Sane.retarget (h : Sane gain) {target : UInt32} (htarget : target.toNat ≤ UNITY) :
    Sane (retarget gain target) := by
  by_cases hsame : gain.target = target
  · rw [retarget_same hsame]
    exact h
  · exact ⟨gain.current, target, 0, h.current_le, htarget, retarget_at (Ne.symm hsame)⟩

theorem Sane.frames (h : Sane gain) (frames : List Frame) :
    ∃ out last, rampFrames gain frames = some (out, last) ∧ Sane last := by
  obtain ⟨start, target, k, hstart, htarget, hat⟩ := h
  obtain ⟨last, hframes, hlast⟩ := rampFrames_at hstart htarget hat frames
  exact ⟨_, last, hframes, start, target, _, hstart, htarget, hlast⟩

theorem Sane.applied (h : Sane gain) (calls : List Call) :
    ∃ out last, applied gain calls = some (out, last) ∧ Sane last := by
  induction calls generalizing gain with
  | nil => exact ⟨[], gain, rfl, h⟩
  | cons call calls ih =>
    have hretarget := h.retarget (targetOf_le call.volume call.muted)
    obtain ⟨part, mid, hframes, hmid⟩ := hretarget.frames call.stereo
    obtain ⟨out, last, hcalls, hlast⟩ := ih hmid
    refine ⟨part ++ out, last, ?_, hlast⟩
    rw [VolumeRamp.applied]
    unfold eafBtVolumeApply
    simp only [hframes, hcalls, Option.bind_eq_bind, Option.bind_some]
    rfl

/-- What the gains of the frames behind a new target come to: `gains k` is the one of frame `k`,
counted from 1, and `gains 0` the one before it. -/
structure Ramps (start target : UInt32) (gains : Nat → UInt32) : Prop where
  starts : gains 0 = start
  bounded : ∀ k, (gains k).toNat ≤ UNITY
  toward : ∀ k, Ramp.Toward target.toNat (gains k).toNat (gains (k + 1)).toNat
  slope : ∀ k, Ramp.distance (gains k).toNat (gains (k + 1)).toNat ≤
    (Ramp.distance start.toNat target.toNat + 255) / 256
  lands : ∀ k, 256 ≤ k → gains k = target

theorem ramps_gainAt {start target : UInt32} (hstart : start.toNat ≤ UNITY)
    (htarget : target.toNat ≤ UNITY) :
    Ramps start target fun k => UInt32.ofNat (gainAt start target k) := by
  have hnat : ∀ k, (UInt32.ofNat (gainAt start target k)).toNat = gainAt start target k := by
    intro k
    have hle := gainAt_le hstart htarget k
    unfold UNITY at hle
    exact UInt32.toNat_ofNat_of_lt' (hle.trans_lt (by decide))
  refine ⟨?_, fun k => ?_, fun k => ?_, fun k => ?_, fun k hk => ?_⟩
  · rw [gainAt_zero, UInt32.ofNat_toNat]
  · rw [hnat]
    exact gainAt_le hstart htarget k
  · rw [hnat, hnat]
    exact gainAt_toward start target k
  · rw [hnat, hnat]
    exact gainAt_slope start target k
  · rw [gainAt_landed hk, UInt32.ofNat_toNat]

/-- The frames of calls with one target, after a change to it. -/
theorem applied_ramps (h : Sane gain) {target : UInt32} (htarget : target.toNat ≤ UNITY)
    (hne : target ≠ gain.target) {calls : List Call}
    (hcalls : ∀ call ∈ calls, call.target = target) :
    ∃ gains last, Ramps gain.current target gains ∧
      applied gain calls = some ((calls.flatMap Call.stereo).mapIdx fun i frame =>
        scaled frame (gains (i + 1)), last) ∧
      last.current = gains (calls.flatMap Call.stereo).length := by
  have hramps := ramps_gainAt h.current_le htarget
  by_cases hnil : calls = []
  · subst hnil
    exact ⟨_, gain, hramps, rfl, hramps.starts.symm⟩
  obtain ⟨last, hframes, hlast⟩ := rampFrames_at h.current_le htarget (retarget_at hne)
    (calls.flatMap Call.stereo)
  simp only [Nat.zero_add] at hframes hlast
  refine ⟨_, last, hramps, ?_, ?_⟩
  · rw [applied_retarget hnil hcalls, hframes]
  · rw [← hlast.current, UInt32.ofNat_toNat]

/-- From the zeroed state on, whatever the calls: no operation leaves its type, the gain is at most
unity, and behind the last change of the target it goes there in 256 frames, steadily and with no
long step. A call may be split. -/
theorem volume_ramps (before after : List Call) (volume : UInt8) (muted : Bool)
    (hafter : ∀ call ∈ after, call.target = targetOf volume muted) :
    (∃ out gain, applied zeroed before = some (out, gain) ∧ gain.current.toNat ≤ UNITY ∧
      (before = [] ∨ targetOf volume muted ≠ gain.target →
        ∃ gains last, Ramps gain.current (targetOf volume muted) gains ∧
          applied gain after = some ((after.flatMap Call.stereo).mapIdx fun i frame =>
            scaled frame (gains (i + 1)), last) ∧
          last.current = gains (after.flatMap Call.stereo).length)) ∧
    ∀ gain parts volume muted, parts ≠ [] →
      applied gain (parts.map fun part => ⟨part, volume, muted⟩) =
        eafBtVolumeApply gain parts.flatten volume muted := by
  constructor
  · obtain ⟨out, gain, hbefore, hgain⟩ := sane_zeroed.applied before
    refine ⟨out, gain, hbefore, hgain.current_le, fun hchange => ?_⟩
    by_cases hne : targetOf volume muted ≠ gain.target
    · exact applied_ramps hgain (targetOf_le volume muted) hne hafter
    · -- only at the very start: silence is the target, and the gain is there already
      obtain rfl := hchange.resolve_right hne
      cases hbefore
      rw [not_not] at hne
      have hat : At 0 0 256 zeroed := ⟨rfl, rfl, rfl⟩
      obtain ⟨last, hframes, hlast⟩ := rampFrames_at (Nat.zero_le _) (Nat.zero_le _) hat
        (after.flatMap Call.stereo)
      have hzero : ∀ i, gainAt 0 0 (256 + i) = 0 := fun i => gainAt_landed (Nat.le_add_right _ _)
      refine ⟨fun _ => 0, last, ?_, ?_, ?_⟩
      · rw [hne]
        exact ⟨rfl, fun _ => Nat.zero_le _, fun _ => .inl ⟨Nat.le_refl _, Nat.le_refl _⟩,
          fun _ => Nat.zero_le _, fun _ _ => rfl⟩
      · rw [applied_same fun call hcall => (hafter call hcall).trans hne, hframes]
        simp only [Nat.add_assoc, hzero]
        rfl
      · apply UInt32.toNat_inj.mp
        rw [hlast.current, hzero]
        rfl
  · intro gain parts volume muted hne
    exact applied_split gain hne volume muted

end Calls

/-- Two frames at full volume after a start in silence, and then two that are muted. -/
theorem volume_ramps_mute :
    (∃ out gain, applied zeroed [⟨[(7, 7), (7, 7)], 127, false⟩] = some (out, gain) ∧
      gain.current.toNat ≤ UNITY ∧
      ([⟨[(7, 7), (7, 7)], 127, false⟩] = ([] : List Call) ∨ targetOf 127 true ≠ gain.target →
        ∃ gains last, Ramps gain.current (targetOf 127 true) gains ∧
          applied gain [⟨[(7, 7), (7, 7)], 127, true⟩] =
            some (([⟨[(7, 7), (7, 7)], 127, true⟩].flatMap Call.stereo).mapIdx fun i frame =>
              scaled frame (gains (i + 1)), last) ∧
          last.current = gains ([⟨[(7, 7), (7, 7)], 127, true⟩].flatMap Call.stereo).length)) ∧
    ∀ gain parts volume muted, parts ≠ [] →
      applied gain (parts.map fun part => ⟨part, volume, muted⟩) =
        eafBtVolumeApply gain parts.flatten volume muted :=
  volume_ramps [⟨[(7, 7), (7, 7)], 127, false⟩] [⟨[(7, 7), (7, 7)], 127, true⟩] 127 true (by
    intro call hcall
    rw [List.mem_singleton.mp hcall]
    rfl)

end EmbeddedAudio.VolumeRamp
