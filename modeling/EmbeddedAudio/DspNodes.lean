-- The nodes of biquad sections (eaf_dsp.c): the equaliser, and the crossover that
-- widens a stereo block in place. Each works on the samples of a buffer, so every
-- access of a cell is written out, and none is made outside of the buffer.
import EmbeddedAudio.Biquad
import EmbeddedAudio.Mealy
import EmbeddedAudio.Reservoir
import Mathlib.Logic.Function.Basic

namespace EmbeddedAudio.Dsp

open EmbeddedAudio.Core Mealy

/-- `valid_buffer`. -/
def validBuffer (b : Buffer) : Bool :=
  b.samples.isSome && formatValid b.format && decide (b.frameCount ≤ b.capacityFrames) &&
    decide (b.frameCount.toNat ≤ b.capacitySamples / b.format.numChannels)

/-- A cell that is read. There is none outside of the buffer. -/
def load (samples : List Int32) (i : Nat) : Option Int32 := samples[i]?

/-- A cell that is written. -/
def store (samples : List Int32) (i : Nat) (x : Int32) : Option (List Int32) :=
  if i < samples.length then some (samples.set i x) else none

/-! ## The equaliser -/

/-- The channels in the order of the loop. -/
def channelsOf (b : Buffer) : List (Fin EAF_MAX_CHANNELS) :=
  (List.finRange EAF_MAX_CHANNELS).take b.format.numChannels

end EmbeddedAudio.Dsp
