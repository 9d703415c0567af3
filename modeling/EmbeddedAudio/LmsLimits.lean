-- How much of a stream the output gathers before it starts: the limits that a
-- platform makes of what the server asks for (`eaf_lms_buffer_limits`).
import EmbeddedAudio.LmsClient
import Mathlib.Order.Bounds.Basic

namespace EmbeddedAudio.Lms

/-- The frames that the request and the platform ask for. With fields of 32 bits none of the sums
and products reaches 64 bits. -/
def wantedFrames (fmt : Format) (request : BufferRequest) (preferred : Nat) : Nat :=
  let frameBytes := request.sampleBytes * fmt.numChannels
  let stream := (request.streamBytes + frameBytes - 1) / frameBytes
  let output := (request.outputMs * fmt.sampleRate + 999) / 1000
  let ready := if stream > output then stream else output
  if ready < preferred then preferred else ready

/-- `eaf_lms_buffer_limits`. -/
def bufferLimits (fmt : Format) (request : BufferRequest) (capacity preferred : Nat) :
    Except Rc BufferLimits :=
  if formatValid fmt = false ∨ capacity = 0 ∨ preferred = 0 ∨ preferred > capacity ∨
      request.sampleBytes < 2 ∨ request.sampleBytes > 4 then .error EAF_INVALID
  else
    let ready := wantedFrames fmt request preferred
    .ok ⟨capacity, if ready > capacity then capacity else ready, decide (ready > capacity)⟩

/-- So many frames hold the bytes that the server asks for, last as long as it asks for, and are
the reserve of the platform. -/
structure Covers (fmt : Format) (request : BufferRequest) (preferred frames : Nat) : Prop where
  stream : request.streamBytes ≤ frames * (request.sampleBytes * fmt.numChannels)
  output : request.outputMs * fmt.sampleRate ≤ frames * 1000
  preferred : preferred ≤ frames

section Limits

variable {fmt : Format} {request : BufferRequest} {capacity preferred : Nat}

theorem wantedFrames_le (hbytes : 0 < request.sampleBytes * fmt.numChannels) (frames : Nat) :
    wantedFrames fmt request preferred ≤ frames ↔ Covers fmt request preferred frames := by
  have hstream : (request.streamBytes + request.sampleBytes * fmt.numChannels - 1) /
      (request.sampleBytes * fmt.numChannels) ≤ frames ↔
      request.streamBytes ≤ frames * (request.sampleBytes * fmt.numChannels) := by
    rw [Nat.div_le_iff_le_mul_add_pred hbytes, Nat.mul_comm frames]
    omega
  have houtput : (request.outputMs * fmt.sampleRate + 999) / 1000 ≤ frames ↔
      request.outputMs * fmt.sampleRate ≤ frames * 1000 := by
    omega
  unfold wantedFrames
  dsimp only
  constructor
  · intro hle
    refine ⟨hstream.mp ?_, houtput.mp ?_, ?_⟩ <;> split_ifs at hle <;> omega
  · intro h
    have hs := hstream.mpr h.stream
    have ho := houtput.mpr h.output
    have hp := h.preferred
    split_ifs <;> omega

/-- The wanted frames are the fewest that do. -/
theorem wantedFrames_least (hbytes : 0 < request.sampleBytes * fmt.numChannels) :
    IsLeast {frames | Covers fmt request preferred frames} (wantedFrames fmt request preferred) :=
  ⟨(wantedFrames_le hbytes _).mp (Nat.le_refl _), fun _ h => (wantedFrames_le hbytes _).mpr h⟩

end Limits

/-- Limits that are given pass the check of the client. The output starts with the fewest frames
that cover what the server and the platform ask for, and with a full reservoir, marked so, when
they do not fit in it. -/
theorem limits_are_least {fmt : Format} {request : BufferRequest} {capacity preferred : Nat}
    {limits : BufferLimits} (h : bufferLimits fmt request capacity preferred = .ok limits) :
    limitsValid limits = true ∧ limits.capacityFrames = capacity ∧
      (limits.clamped = false →
        IsLeast {frames | Covers fmt request preferred frames} limits.readyFrames) ∧
      (limits.clamped = true →
        limits.readyFrames = capacity ∧ ¬ Covers fmt request preferred capacity) := by
  unfold bufferLimits at h
  split at h
  · cases h
  rename_i hvalid
  cases h
  push Not at hvalid
  obtain ⟨hformat, hcapacity, hpreferred, hfits, hlow, -⟩ := hvalid
  have hchannels := formatValid_channels (Bool.eq_true_of_not_eq_false hformat)
  have hbytes : 0 < request.sampleBytes * fmt.numChannels := Nat.mul_pos (by omega) hchannels.1
  have hleast : IsLeast {frames | Covers fmt request preferred frames}
      (wantedFrames fmt request preferred) := wantedFrames_least hbytes
  have hreserve := hleast.1.preferred
  unfold limitsValid
  dsimp only
  by_cases hclamped : wantedFrames fmt request preferred > capacity
  · rw [if_pos hclamped, decide_eq_true hclamped]
    refine ⟨by simp [hcapacity], rfl, fun hnot => Bool.noConfusion hnot, fun _ => ⟨rfl, ?_⟩⟩
    intro hcovers
    exact absurd ((wantedFrames_le hbytes capacity).mpr hcovers) (Nat.not_le.mpr hclamped)
  · rw [if_neg hclamped, decide_eq_false hclamped]
    refine ⟨?_, rfl, fun _ => hleast, fun hnot => Bool.noConfusion hnot⟩
    have hpositive : wantedFrames fmt request preferred ≠ 0 := by omega
    simp only [Bool.and_eq_true, bne_iff_ne, decide_eq_true_eq]
    exact ⟨hpositive, Nat.not_lt.mp hclamped⟩

theorem limits_are_least_large :
    let fmt : Format := ⟨44100, 2, 3⟩
    let request : BufferRequest := ⟨255 * 1024, 25500, 2⟩
    let limits : BufferLimits := ⟨4096, 4096, true⟩
    limitsValid limits = true ∧ limits.capacityFrames = 4096 ∧
      (limits.clamped = false →
        IsLeast {frames | Covers fmt request 3072 frames} limits.readyFrames) ∧
      (limits.clamped = true → limits.readyFrames = 4096 ∧ ¬ Covers fmt request 3072 4096) :=
  limits_are_least rfl

end EmbeddedAudio.Lms
