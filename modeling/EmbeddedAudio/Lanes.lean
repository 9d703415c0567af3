-- Interleaved lanes in a buffer: a loop that rewrites a buffer in place, frame by
-- frame, as one machine for each lane. Nothing here is about audio.
import EmbeddedAudio.Mealy
import EmbeddedAudio.Storage
import Mathlib.Data.List.OfFn
import Mathlib.Tactic.SplitIfs

namespace EmbeddedAudio.Lanes

open Mealy Storage

variable {α σ τ : Type*} {lanes : Nat}

/-! ## Frames -/

section Frames

variable [Inhabited α]

/-- Frame `i` of a buffer. -/
def frameAt (lanes i : Nat) (cells : List α) (k : Fin lanes) : α :=
  cells.getD (i * lanes + k) default

/-- The first frames of a buffer. -/
def framesOf (lanes frames : Nat) (cells : List α) : List (Fin lanes → α) :=
  (List.range frames).map fun i => frameAt lanes i cells

/-- The cells of a frame are before those of the next one. -/
theorem cell_lt {i frames : Nat} (k : Fin lanes) (hi : i < frames) :
    i * lanes + k.val < frames * lanes := by
  calc i * lanes + k.val < i * lanes + lanes := Nat.add_lt_add_left k.isLt _
    _ ≤ frames * lanes := block_le hi lanes

theorem framesOf_congr {frames : Nat} {cells cells' : List α}
    (h : ∀ j < frames * lanes, cells'[j]? = cells[j]?) :
    framesOf lanes frames cells' = framesOf lanes frames cells := by
  refine List.map_congr_left fun i hi => funext fun k => ?_
  rw [List.mem_range] at hi
  unfold frameAt
  rw [List.getD_eq_getElem?_getD, List.getD_eq_getElem?_getD, h _ (cell_lt k hi)]

end Frames

/-! ## Turns -/

/-- What a turn does to frame `i` when each lane has a machine of its own: `stateAt` is the state
of a lane, and the machines are `step`. -/
structure Turned (stateAt : σ → Fin lanes → τ) (step : Fin lanes → τ → α → α × τ) (i : Nat)
    (s s' : σ) (cells cells' : List α) : Prop where
  length : cells'.length = cells.length
  cell : ∀ k x, cells[i * lanes + k.val]? = some x →
    cells'[i * lanes + k.val]? = some (step k (stateAt s k) x).1 ∧
      stateAt s' k = (step k (stateAt s k) x).2
  other : ∀ j, (∀ k : Fin lanes, j ≠ i * lanes + k.val) → cells'[j]? = cells[j]?

section Turns

variable {stateAt : σ → Fin lanes → τ} {i : Nat} {s mid s' : σ} {cells half cells' : List α}

/-- Two turns on one frame. -/
theorem Turned.comp {first second : Fin lanes → τ → α → α × τ}
    (h : Turned stateAt first i s mid cells half) (h' : Turned stateAt second i mid s' half cells') :
    Turned stateAt (fun k t x => second k (first k t x).2 (first k t x).1) i s s' cells cells' := by
  refine ⟨h'.length.trans h.length, ?_, ?_⟩
  · intro k x hx
    obtain ⟨hcell, hstate⟩ := h.cell k x hx
    obtain ⟨hcell', hstate'⟩ := h'.cell k _ hcell
    rw [hstate] at hcell' hstate'
    exact ⟨hcell', hstate'⟩
  · intro j hj
    rw [h'.other j hj, h.other j hj]

end Turns

/-! ## The loop -/

section Loop

variable [Inhabited α]

end Loop

end EmbeddedAudio.Lanes
