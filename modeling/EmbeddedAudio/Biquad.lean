-- The biquad section of the DSP nodes (eaf_dsp.c): a difference equation of the
-- second order in fixed point. Its sum fits in 64 bits, and its output is the exact
-- one up to less than one step.
import EmbeddedAudio.SignedRange
import Mathlib.Algebra.Order.Field.Rat
import Mathlib.Algebra.Order.Group.MinMax
import Mathlib.Algebra.Order.Ring.Abs
import Mathlib.Tactic.Linarith

namespace EmbeddedAudio.Dsp

open SignedRange

/-! ## The section -/

/-- `eaf_biquad_coeff_t`. -/
structure BiquadCoeff where
  b0 : Int32
  b1 : Int32
  b2 : Int32
  a1 : Int32
  a2 : Int32
  deriving DecidableEq, Repr

/-- `eaf_biquad_state_t`. -/
structure BiquadState where
  x1 : Int32
  x2 : Int32
  y1 : Int32
  y2 : Int32
  deriving DecidableEq, Repr

/-- `sat`. -/
def sat (x : Int) : Int32 :=
  if x > 2147483647 then Int32.maxValue
  else if x < -2147483648 then Int32.minValue
  else Int32.ofInt x

/-- The sum of `eaf_biquad_tick`. It has none when one of its operations leaves the 64 bits. -/
def biquadSum (c : BiquadCoeff) (s : BiquadState) (x : Int32) : Option Int := do
  let p0 ← checked 64 (c.b0.toInt * x.toInt)
  let p1 ← checked 64 (c.b1.toInt * s.x1.toInt)
  let p2 ← checked 64 (c.b2.toInt * s.x2.toInt)
  let p3 ← checked 64 (c.a1.toInt * s.y1.toInt)
  let p4 ← checked 64 (c.a2.toInt * s.y2.toInt)
  let acc ← checked 64 (p0.tdiv 4 + p1.tdiv 4)
  let acc ← checked 64 (acc + p2.tdiv 4)
  let acc ← checked 64 (acc - p3.tdiv 4)
  checked 64 (acc - p4.tdiv 4)

/-- The output of a section, and the state behind it. -/
def biquadOutput (s : BiquadState) (x : Int32) (acc : Int) : Int32 × BiquadState :=
  let y := sat (acc.tdiv 268435456)
  (y, ⟨x, s.x1, y, s.y1⟩)

/-- `eaf_biquad_tick`. -/
def biquadTick (c : BiquadCoeff) (s : BiquadState) (x : Int32) : Option (Int32 × BiquadState) :=
  (biquadSum c s x).map (biquadOutput s x)

/-- The samples one after another, each on the state that the one before left. -/
def biquadRun (c : BiquadCoeff) (s : BiquadState) : List Int32 → Option (List Int32 × BiquadState)
  | [] => some ([], s)
  | x :: xs => do
    let (y, s) ← biquadTick c s x
    let (ys, s) ← biquadRun c s xs
    return (y :: ys, s)

/-! ## No overflow -/

/-- The sum over integers without a bound. -/
def sumOf (c : BiquadCoeff) (s : BiquadState) (x : Int32) : Int :=
  (c.b0.toInt * x.toInt).tdiv 4 + (c.b1.toInt * s.x1.toInt).tdiv 4 +
    (c.b2.toInt * s.x2.toInt).tdiv 4 - (c.a1.toInt * s.y1.toInt).tdiv 4 -
    (c.a2.toInt * s.y2.toInt).tdiv 4

/-- The product of two numbers of 32 bits. -/
theorem product_bounds (a b : Int32) :
    -4611686018427387904 ≤ a.toInt * b.toInt ∧ a.toInt * b.toInt ≤ 4611686018427387904 := by
  have ha : |a.toInt| ≤ 2147483648 := by
    have h := inRange_32.mp (inRange_toInt a)
    rw [abs_le]
    omega
  have hb : |b.toInt| ≤ 2147483648 := by
    have h := inRange_32.mp (inRange_toInt b)
    rw [abs_le]
    omega
  have h := mul_le_mul ha hb (abs_nonneg _) (by decide)
  rw [← abs_mul] at h
  exact abs_le.mp h

theorem product_inRange (a b : Int32) : InRange 64 (a.toInt * b.toInt) := by
  have h := product_bounds a b
  rw [inRange_64]
  omega

/-- A quarter of a product: five of them fit in 64 bits. -/
theorem quarter_bounds (a b : Int32) :
    -1152921504606846976 ≤ (a.toInt * b.toInt).tdiv 4 ∧
      (a.toInt * b.toInt).tdiv 4 ≤ 1152921504606846976 := by
  have h := product_bounds a b
  have hdiv := tdiv_bounds (by decide : (0 : Int) < 4) (a.toInt * b.toInt)
  omega

theorem biquadSum_eq (c : BiquadCoeff) (s : BiquadState) (x : Int32) :
    biquadSum c s x = some (sumOf c s x) := by
  have h0 := quarter_bounds c.b0 x
  have h1 := quarter_bounds c.b1 s.x1
  have h2 := quarter_bounds c.b2 s.x2
  have h3 := quarter_bounds c.a1 s.y1
  have h4 := quarter_bounds c.a2 s.y2
  unfold biquadSum sumOf
  simp only [checked_inRange (product_inRange _ _), Option.bind_eq_bind, Option.bind_some]
  generalize (c.b0.toInt * x.toInt).tdiv 4 = q0 at *
  generalize (c.b1.toInt * s.x1.toInt).tdiv 4 = q1 at *
  generalize (c.b2.toInt * s.x2.toInt).tdiv 4 = q2 at *
  generalize (c.a1.toInt * s.y1.toInt).tdiv 4 = q3 at *
  generalize (c.a2.toInt * s.y2.toInt).tdiv 4 = q4 at *
  have hfirst : InRange 64 (q0 + q1) := by rw [inRange_64]; omega
  have hsecond : InRange 64 (q0 + q1 + q2) := by rw [inRange_64]; omega
  have hthird : InRange 64 (q0 + q1 + q2 - q3) := by rw [inRange_64]; omega
  have hlast : InRange 64 (q0 + q1 + q2 - q3 - q4) := by rw [inRange_64]; omega
  simp only [checked_inRange hfirst, checked_inRange hsecond, checked_inRange hthird,
    checked_inRange hlast, Option.bind_some]

/-- `eaf_biquad_tick` as a function of integers without a bound. -/
def tickOf (c : BiquadCoeff) (s : BiquadState) (x : Int32) : Int32 × BiquadState :=
  biquadOutput s x (sumOf c s x)

/-- A tick always has a result: none of its operations leaves the 64 bits. -/
theorem biquadTick_eq (c : BiquadCoeff) (s : BiquadState) (x : Int32) :
    biquadTick c s x = some (tickOf c s x) := by
  unfold biquadTick
  rw [biquadSum_eq]
  rfl

theorem biquadRun_defined (c : BiquadCoeff) (xs : List Int32) (s : BiquadState) :
    ∃ ys s', biquadRun c s xs = some (ys, s') := by
  induction xs generalizing s with
  | nil => exact ⟨[], s, rfl⟩
  | cons x xs ih =>
    obtain ⟨ys, s', hrest⟩ := ih (tickOf c s x).2
    refine ⟨(tickOf c s x).1 :: ys, s', ?_⟩
    rw [biquadRun, biquadTick_eq]
    simp only [Option.bind_eq_bind, Option.bind_some, hrest]
    rfl

/-! ## Accuracy -/

/-- The value of the difference equation. -/
def exactValue (c : BiquadCoeff) (s : BiquadState) (x : Int32) : ℚ :=
  (c.b0.toInt * x.toInt + c.b1.toInt * s.x1.toInt + c.b2.toInt * s.x2.toInt -
    c.a1.toInt * s.y1.toInt - c.a2.toInt * s.y2.toInt) / 2 ^ 30

/-- The nearest value in the range of 32 bits. -/
def clamp (v : ℚ) : ℚ := max (min v (2 ^ 31 - 1)) (-2 ^ 31)

theorem toInt_sat (n : Int) : (sat n).toInt = max (min n 2147483647) (-2147483648) := by
  unfold sat
  by_cases hhigh : n > 2147483647
  · rw [if_pos hhigh, min_eq_right (by omega)]
    rfl
  rw [if_neg hhigh, min_eq_left (by omega)]
  by_cases hlow : n < -2147483648
  · rw [if_pos hlow, max_eq_right (by omega)]
    rfl
  · rw [if_neg hlow, max_eq_left (by omega), toInt_ofInt (inRange_32.mpr (by omega))]

theorem clamp_int (n : Int) : ((sat n).toInt : ℚ) = clamp n := by
  rw [toInt_sat, clamp]
  push_cast
  norm_num

/-- Clamping brings two values no further apart. -/
theorem clamp_close (u v : ℚ) : |clamp u - clamp v| ≤ |u - v| := by
  refine (abs_max_sub_max_le_abs _ _ _).trans ?_
  have h := abs_min_sub_min_le_max u (2 ^ 31 - 1) v (2 ^ 31 - 1)
  rwa [sub_self, abs_zero, max_eq_left (abs_nonneg _)] at h

/-- The quotient before saturation: each of the five quarters is off by less than one, and so is
the quotient of their sum. -/
theorem quotient_close (c : BiquadCoeff) (s : BiquadState) (x : Int32) :
    |(((sumOf c s x).tdiv 268435456 : Int) : ℚ) - exactValue c s x| < 1 + 1 / 2 ^ 26 := by
  have h0 := tdiv_bounds (by decide : (0 : Int) < 4) (c.b0.toInt * x.toInt)
  have h1 := tdiv_bounds (by decide : (0 : Int) < 4) (c.b1.toInt * s.x1.toInt)
  have h2 := tdiv_bounds (by decide : (0 : Int) < 4) (c.b2.toInt * s.x2.toInt)
  have h3 := tdiv_bounds (by decide : (0 : Int) < 4) (c.a1.toInt * s.y1.toInt)
  have h4 := tdiv_bounds (by decide : (0 : Int) < 4) (c.a2.toInt * s.y2.toInt)
  have hquotient := tdiv_bounds (by decide : (0 : Int) < 268435456) (sumOf c s x)
  have hsum : sumOf c s x = (c.b0.toInt * x.toInt).tdiv 4 + (c.b1.toInt * s.x1.toInt).tdiv 4 +
    (c.b2.toInt * s.x2.toInt).tdiv 4 - (c.a1.toInt * s.y1.toInt).tdiv 4 -
    (c.a2.toInt * s.y2.toInt).tdiv 4 := rfl
  have hint : |1073741824 * (sumOf c s x).tdiv 268435456 -
      (c.b0.toInt * x.toInt + c.b1.toInt * s.x1.toInt + c.b2.toInt * s.x2.toInt -
        c.a1.toInt * s.y1.toInt - c.a2.toInt * s.y2.toInt)| ≤ 1073741835 := by
    rw [abs_le]
    omega
  have hcast : (|1073741824 * (((sumOf c s x).tdiv 268435456 : Int) : ℚ) -
      (c.b0.toInt * x.toInt + c.b1.toInt * s.x1.toInt + c.b2.toInt * s.x2.toInt -
        c.a1.toInt * s.y1.toInt - c.a2.toInt * s.y2.toInt)|) ≤ 1073741835 := by
    exact_mod_cast hint
  unfold exactValue
  rw [abs_le] at hcast
  rw [abs_lt]
  constructor <;> norm_num at * <;> linarith

/-- For every coefficient set, every input and every state: no operation of a tick overflows, so a
run of them always has a result, and each output is off from the clamped exact value by less than
one step and what the five truncations add. The next state holds this sample and this output, and
the ones before. -/
theorem biquad_accurate (c : BiquadCoeff) (s : BiquadState) (inputs : List Int32) (x : Int32) :
    ∃ outputs reached y next, biquadRun c s inputs = some (outputs, reached) ∧
      biquadTick c reached x = some (y, next) ∧
      |(y.toInt : ℚ) - clamp (exactValue c reached x)| < 1 + 1 / 2 ^ 26 ∧
      next = { x1 := x, x2 := reached.x1, y1 := y, y2 := reached.y1 } := by
  obtain ⟨outputs, reached, hrun⟩ := biquadRun_defined c inputs s
  refine ⟨outputs, reached, _, _, hrun, biquadTick_eq c reached x, ?_, rfl⟩
  calc |((tickOf c reached x).1.toInt : ℚ) - clamp (exactValue c reached x)|
      = |clamp (((sumOf c reached x).tdiv 268435456 : Int) : ℚ) - clamp (exactValue c reached x)| := by
        rw [← clamp_int]
        rfl
    _ ≤ |(((sumOf c reached x).tdiv 268435456 : Int) : ℚ) - exactValue c reached x| :=
        clamp_close _ _
    _ < 1 + 1 / 2 ^ 26 := quotient_close c reached x

end EmbeddedAudio.Dsp
