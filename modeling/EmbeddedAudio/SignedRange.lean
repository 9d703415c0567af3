-- Signed arithmetic of a fixed width, as C has it: the result of an operation is
-- not defined when it leaves the type. Nothing here is about audio.
import Mathlib.Tactic.Common
import Mathlib.Tactic.Ring

namespace EmbeddedAudio.SignedRange

/-- The numbers of a signed type of `w` bits. -/
def InRange (w : Nat) (n : Int) : Prop := -2 ^ (w - 1) ≤ n ∧ n < 2 ^ (w - 1)

instance (w : Nat) (n : Int) : Decidable (InRange w n) := inferInstanceAs (Decidable (_ ∧ _))

/-- The result of an operation on signed numbers of `w` bits. -/
def checked (w : Nat) (n : Int) : Option Int := if InRange w n then some n else none

variable {β : Type*} {w : Nat} {n : Int}

theorem checked_inRange (h : InRange w n) : checked w n = some n := if_pos h

/-- An operation that goes on has a result in its type. -/
theorem checked_bind {f : Int → Option β} {b : β} :
    (checked w n).bind f = some b ↔ InRange w n ∧ f n = some b := by
  unfold checked
  by_cases h : InRange w n
  · simp [h]
  · simp [h]

theorem inRange_32 : InRange 32 n ↔ -2147483648 ≤ n ∧ n ≤ 2147483647 := by
  unfold InRange
  omega

theorem inRange_64 : InRange 64 n ↔ -9223372036854775808 ≤ n ∧ n ≤ 9223372036854775807 := by
  unfold InRange
  omega

theorem inRange_toInt (x : Int32) : InRange 32 x.toInt := ⟨x.le_toInt, x.toInt_lt⟩

/-- A cast to 32 bits keeps the numbers of the type. -/
theorem toInt_ofInt (h : InRange 32 n) : (Int32.ofInt n).toInt = n :=
  Int32.toInt_ofInt_of_le h.1 h.2

/-- Division rounds toward zero, so it is off by less than the divisor. -/
theorem tdiv_bounds {k : Int} (hk : 0 < k) (n : Int) :
    n - k < k * n.tdiv k ∧ k * n.tdiv k < n + k := by
  have hsplit := Int.mul_tdiv_add_tmod n k
  have hlow := Int.lt_tmod_of_pos n hk
  have hhigh := Int.tmod_lt_of_pos n hk
  omega

end EmbeddedAudio.SignedRange
