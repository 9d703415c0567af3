-- Numbers in bytes, the least significant one first, and the signed numbers that
-- they stand for. Nothing here is about audio.
import EmbeddedAudio.Storage
import Mathlib.Data.Nat.Bitwise

namespace EmbeddedAudio.LittleEndian

open Storage

/-- The number that bytes hold, the least significant byte first. -/
def readLE : List UInt8 → Nat
  | [] => 0
  | b :: bytes => b.toNat + 256 * readLE bytes

/-- The same number in two's complement, as wide as the bytes are. -/
def signedLE (bytes : List UInt8) : Int :=
  if readLE bytes < 2 ^ (8 * bytes.length - 1) then readLE bytes
  else readLE bytes - 2 ^ (8 * bytes.length)

theorem readLE_lt (bytes : List UInt8) : readLE bytes < 256 ^ bytes.length := by
  induction bytes with
  | nil => exact Nat.one_pos
  | cons b bytes ih =>
    have hb := b.toNat_lt
    rw [readLE, List.length_cons, Nat.pow_succ]
    omega

theorem readBE_reverse (bytes : List UInt8) : readBE bytes.reverse = readLE bytes := by
  induction bytes with
  | nil => rfl
  | cons b bytes ih =>
    rw [List.reverse_cons, readBE_append_singleton, ih, readLE]
    ring

/-- Bits that are put above a number. -/
theorem lor_shiftLeft {x i : Nat} (h : x < 2 ^ i) (y : Nat) : x ||| y <<< i = x + y * 2 ^ i := by
  rw [Nat.or_comm, ← Nat.shiftLeft_add_eq_or_of_lt h, Nat.shiftLeft_eq, Nat.add_comm]

/-- The test of the highest bit. -/
theorem and_highest {v n : Nat} (h : v < 2 ^ (n + 1)) : v &&& 2 ^ n ≠ 0 ↔ 2 ^ n ≤ v := by
  have hpos := Nat.two_pow_pos n
  have hq : v / 2 ^ n < 2 := by
    rw [Nat.div_lt_iff_lt_mul hpos, ← Nat.pow_succ']
    exact h
  have hle : 2 ^ n ≤ v ↔ v / 2 ^ n = 1 := by
    rw [← Nat.one_mul (2 ^ n), ← Nat.le_div_iff_mul_le hpos, Nat.one_mul]
    omega
  rw [Nat.and_comm, Nat.two_pow_and, Nat.testBit_eq_decide_div_mod_eq, hle, Nat.mod_eq_of_lt hq]
  by_cases hbit : v / 2 ^ n = 1
  · simp [hbit]
  · simp [hbit]

/-- Going over the bytes from the lowest on, each above those before it. -/
theorem readLE_snoc (bytes : List UInt8) (b : UInt8) :
    readLE (bytes ++ [b]) = readLE bytes + b.toNat * 2 ^ (8 * bytes.length) := by
  induction bytes with
  | nil => simp [readLE]
  | cons c bytes ih =>
    have hpow : 2 ^ (8 * (bytes.length + 1)) = 256 * 2 ^ (8 * bytes.length) := by
      rw [Nat.mul_succ, Nat.pow_add, Nat.mul_comm]
    rw [List.cons_append, readLE, ih, readLE, List.length_cons, hpow]
    ring

end EmbeddedAudio.LittleEndian
