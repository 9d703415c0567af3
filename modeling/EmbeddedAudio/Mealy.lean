-- Machines that turn a stream into a stream, one element after another. Nothing
-- here is about audio.
import Mathlib.Data.List.Basic

namespace EmbeddedAudio.Mealy

variable {σ α β : Type*}

/-- What a machine gives for a list of elements, and the state that it is left in. -/
def run (step : σ → α → β × σ) (s : σ) : List α → List β × σ
  | [] => ([], s)
  | x :: xs => ((step s x).1 :: (run step (step s x).2 xs).1, (run step (step s x).2 xs).2)

variable {step : σ → α → β × σ}

@[simp] theorem run_nil (s : σ) : run step s [] = ([], s) := rfl

/-- A stream that is cut in two: the second part goes on where the first one stopped. -/
theorem run_append (s : σ) (xs ys : List α) : run step s (xs ++ ys) =
    ((run step s xs).1 ++ (run step (run step s xs).2 ys).1,
      (run step (run step s xs).2 ys).2) := by
  induction xs generalizing s with
  | nil => rfl
  | cons x xs ih =>
    rw [List.cons_append, run, ih]
    rfl

section Parallel

variable {ι : Type*} {lane : ι → σ → α → β × σ}

/-- A machine for each lane. A frame has an element for each of them. -/
def parallel (lane : ι → σ → α → β × σ) (s : ι → σ) (frame : ι → α) : (ι → β) × (ι → σ) :=
  (fun k => (lane k (s k) (frame k)).1, fun k => (lane k (s k) (frame k)).2)

/-- What a lane gives depends on what came in on that lane only. -/
theorem run_parallel (lane : ι → σ → α → β × σ) (s : ι → σ) (frames : List (ι → α)) (k : ι) :
    ((run (parallel lane) s frames).1.map (fun frame => frame k),
      (run (parallel lane) s frames).2 k) =
      run (lane k) (s k) (frames.map fun frame => frame k) := by
  induction frames generalizing s with
  | nil => rfl
  | cons frame frames ih =>
    have hrest := ih (parallel lane s frame).2
    rw [List.map_cons, run, run]
    rw [show lane k (s k) (frame k) = ((parallel lane s frame).1 k, (parallel lane s frame).2 k)
      from rfl, ← hrest]
    rfl

end Parallel

end EmbeddedAudio.Mealy
