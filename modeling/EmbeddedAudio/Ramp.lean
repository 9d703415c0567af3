-- A way that is covered in a fixed number of steps: each step takes the distance that is left
-- through the number of steps that are left, without the remainder. Nothing here is about audio.
import Mathlib.Tactic.Ring

namespace EmbeddedAudio.Ramp

/-- What is covered of a distance `d` after `k` of `n` steps. The steps that are one longer come
last. -/
def covered (d n k : Nat) : Nat := d / n * k + (d % n + k - n)

variable {d n k : Nat}

theorem covered_zero (d : Nat) (hn : 0 < n) : covered d n 0 = 0 := by
  have hrest := Nat.mod_lt d hn
  unfold covered
  rw [Nat.mul_zero]
  omega

/-- With the last step the distance is covered. -/
theorem covered_all (d n : Nat) : covered d n n = d := by
  unfold covered
  rw [Nat.add_sub_cancel, Nat.mul_comm]
  exact Nat.div_add_mod d n

/-- What is left before a step, and how long the step is. -/
theorem left_step (hk : k < n) : covered d n k ≤ d ∧
    (d - covered d n k) / (n - k) = d / n + (if d % n + k < n then 0 else 1) := by
  have hn : 0 < n := by omega
  have hrest := Nat.mod_lt d hn
  have hsplit : d = d / n * k + d / n * (n - k) + d % n := by
    have hdiv := Nat.div_add_mod d n
    rw [← Nat.mul_add, Nat.add_sub_cancel' hk.le, Nat.mul_comm]
    exact hdiv.symm
  by_cases hshort : d % n + k < n
  · have hcovered : covered d n k = d / n * k := by
      unfold covered
      omega
    have hleft : d - covered d n k = d % n + (n - k) * (d / n) := by
      rw [hcovered, Nat.mul_comm (n - k)]
      omega
    refine ⟨by omega, ?_⟩
    rw [hleft, Nat.add_mul_div_left _ _ (by omega), Nat.div_eq_of_lt (by omega), if_pos hshort]
    omega
  · have hcovered : covered d n k = d / n * k + (d % n + k - n) := rfl
    have hleft : d - covered d n k = (n - k) * (d / n + 1) := by
      rw [hcovered, Nat.mul_succ, Nat.mul_comm (n - k)]
      omega
    refine ⟨by omega, ?_⟩
    rw [hleft, Nat.mul_div_cancel_left _ (by omega), if_neg hshort]

/-- A step covers what is left through the number of steps that are left. -/
theorem covered_succ (hk : k < n) :
    covered d n (k + 1) = covered d n k + (d - covered d n k) / (n - k) := by
  rw [(left_step hk).2]
  unfold covered
  rw [Nat.mul_succ]
  split <;> omega

theorem covered_le (hk : k ≤ n) : covered d n k ≤ d := by
  rcases Nat.lt_or_eq_of_le hk with hlt | rfl
  · exact (left_step hlt).1
  · rw [covered_all]

theorem covered_mono (hk : k < n) : covered d n k ≤ covered d n (k + 1) := by
  rw [covered_succ hk]
  exact Nat.le_add_right _ _

/-- No step is longer than the distance through the number of steps, rounded up. -/
theorem step_le (hk : k < n) : covered d n (k + 1) - covered d n k ≤ (d + (n - 1)) / n := by
  have hn : 0 < n := by omega
  have hrest := Nat.mod_lt d hn
  rw [covered_succ hk, Nat.add_sub_cancel_left, (left_step hk).2]
  have hdiv := Nat.div_add_mod d n
  have hceil : (d + (n - 1)) / n = d / n + (d % n + (n - 1)) / n := by
    conv_lhs => rw [← hdiv, Nat.add_assoc, Nat.mul_add_div hn]
  rw [hceil]
  apply Nat.add_le_add_left
  split
  · exact Nat.zero_le _
  · exact (Nat.one_le_div_iff hn).mpr (by omega)

/-! ## From one value to another -/

/-- The value after `k` of `n` steps. -/
def valueAt (start target n k : Nat) : Nat :=
  if start ≤ target then start + covered (target - start) n k
  else start - covered (start - target) n k

variable {start target : Nat}

theorem valueAt_zero (start target : Nat) (hn : 0 < n) : valueAt start target n 0 = start := by
  unfold valueAt
  rw [covered_zero _ hn, covered_zero _ hn, Nat.add_zero, Nat.sub_zero, ite_self]

theorem valueAt_all (start target n : Nat) : valueAt start target n n = target := by
  unfold valueAt
  rw [covered_all, covered_all]
  split <;> omega

/-- The way from `a` to `b` leads toward the target and not past it. -/
def Toward (target a b : Nat) : Prop := (a ≤ b ∧ b ≤ target) ∨ (target ≤ b ∧ b ≤ a)

/-- The distance of two values. -/
def distance (a b : Nat) : Nat := (a - b) + (b - a)

theorem valueAt_toward (hk : k < n) :
    Toward target (valueAt start target n k) (valueAt start target n (k + 1)) := by
  unfold Toward valueAt
  by_cases hup : start ≤ target
  · have hmono := covered_mono (d := target - start) hk
    have hle := covered_le (d := target - start) (show k + 1 ≤ n by omega)
    rw [if_pos hup, if_pos hup]
    omega
  · have hmono := covered_mono (d := start - target) hk
    have hle := covered_le (d := start - target) (show k + 1 ≤ n by omega)
    rw [if_neg hup, if_neg hup]
    omega

theorem valueAt_slope (hk : k < n) :
    distance (valueAt start target n k) (valueAt start target n (k + 1)) ≤
      (distance start target + (n - 1)) / n := by
  unfold distance valueAt
  by_cases hup : start ≤ target
  · have hstep := step_le (d := target - start) hk
    have hdistance : start - target + (target - start) = target - start := by omega
    rw [if_pos hup, if_pos hup, hdistance]
    have hmono := covered_mono (d := target - start) hk
    omega
  · have hstep := step_le (d := start - target) hk
    have hdistance : start - target + (target - start) = start - target := by omega
    rw [if_neg hup, if_neg hup, hdistance]
    have hmono := covered_mono (d := start - target) hk
    have hle := covered_le (d := start - target) (show k + 1 ≤ n by omega)
    omega

/-- A step with signs: the distance that is left, rounded toward zero, as it is in C. -/
theorem valueAt_succ (start target : Nat) (hk : k < n) : (valueAt start target n (k + 1) : Int) =
    valueAt start target n k +
      ((target : Int) - valueAt start target n k).tdiv ((n - k : Nat) : Int) := by
  have hle := covered_le (d := target - start) hk.le
  have hle' := covered_le (d := start - target) hk.le
  unfold valueAt
  by_cases hup : start ≤ target
  · have hleft : (target : Int) - ((start + covered (target - start) n k : Nat) : Int) =
        ((target - start - covered (target - start) n k : Nat) : Int) := by omega
    rw [if_pos hup, if_pos hup, hleft, ← Int.ofNat_tdiv, covered_succ hk]
    omega
  · have hleft : (target : Int) - ((start - covered (start - target) n k : Nat) : Int) =
        -((start - target - covered (start - target) n k : Nat) : Int) := by omega
    have hle'' := covered_le (d := start - target) (show k + 1 ≤ n by omega)
    rw [if_neg hup, if_neg hup, hleft, Int.neg_tdiv, ← Int.ofNat_tdiv]
    rw [covered_succ hk] at hle'' ⊢
    omega

end EmbeddedAudio.Ramp
