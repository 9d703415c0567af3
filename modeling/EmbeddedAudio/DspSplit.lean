-- The laws of the nodes of biquad sections (eaf_dsp.c). Each channel of a stream is
-- a stream of its own, and it does not matter how the blocks cut it.
import EmbeddedAudio.DspNodes
import EmbeddedAudio.Lanes
import Mathlib.Data.Fin.VecNotation

namespace EmbeddedAudio.Dsp

open EmbeddedAudio.Core Lanes Mealy

/-! ## The reference -/

/-- Half of a sum, rounded towards zero. -/
def middle (l r : Int32) : Int32 :=
  let sum := l.toInt + r.toInt
  Int32.ofInt (if 0 ≤ sum then sum / 2 else -(-sum / 2))

section Equaliser

variable {b : Buffer} {slot i : Nat} {ch : Fin EAF_MAX_CHANNELS}

end Equaliser

/-! ## The crossover -/

section Crossover

variable {i : Nat} {c : CrossCtx} {samples : List Int32}

end Crossover

/-! ## Blocks -/

/-- A block of a stream with so many channels, and the memory behind it. -/
structure Block (channels : Nat) where
  buffer : Buffer
  samples : List Int32
  valid : validBuffer buffer = true
  channels_eq : buffer.format.numChannels = channels
  room : samples.length = buffer.capacitySamples

/-- What a node leaves of a block. -/
structure Processed where
  rc : Rc
  buffer : Buffer
  samples : List Int32

/-- The frames of a block. -/
def Block.frames {channels : Nat} (b : Block channels) : List (Fin channels → Int32) :=
  framesOf channels b.buffer.frameCount.toNat b.samples

/-- The frames of a block behind a node. -/
def Processed.frames (channels : Nat) (p : Processed) : List (Fin channels → Int32) :=
  framesOf channels p.buffer.frameCount.toNat p.samples

/-- The blocks have gone through, and all that came out, frame by frame, is what the machines of
the channels give for all that went in. -/
structure Filtered {σ τ : Type} {channels lanes : Nat} (stateAt : σ → Fin lanes → τ)
    (step : Fin lanes → τ → Int32 → Int32 × τ) (spread : (Fin channels → Int32) → Fin lanes → Int32)
    (blocks : List (Block channels)) (outs : List Processed) (s s' : σ) : Prop where
  ok : ∀ out ∈ outs, out.rc = EAF_OK
  frame : (outs.flatMap (Processed.frames lanes), stateAt s') =
    run (parallel step) (stateAt s) ((blocks.flatMap Block.frames).map spread)

/-- A channel behind a node depends on its own input only. -/
theorem Filtered.lane {σ τ : Type} {channels lanes : Nat} {stateAt : σ → Fin lanes → τ}
    {step : Fin lanes → τ → Int32 → Int32 × τ} {spread : (Fin channels → Int32) → Fin lanes → Int32}
    {blocks : List (Block channels)} {outs : List Processed} {s s' : σ}
    (h : Filtered stateAt step spread blocks outs s s') (k : Fin lanes) :
    (outs.flatMap (Processed.frames lanes)).map (fun frame => frame k) =
      (run (step k) (stateAt s k)
        ((blocks.flatMap Block.frames).map fun frame => spread frame k)).1 := by
  have hlane := run_parallel step (stateAt s) ((blocks.flatMap Block.frames).map spread) k
  rw [← h.frame, List.map_map] at hlane
  exact congrArg Prod.fst hlane

end EmbeddedAudio.Dsp
