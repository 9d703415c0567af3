-- Free-running 32-bit cursors over a ring whose number of slots is a power of
-- two. A cursor counts on past 2^32, and its slot is what it is modulo the
-- number of slots. Nothing here is about audio.
import Mathlib.Data.Nat.ModEq
import Mathlib.Tactic.Ring

namespace EmbeddedAudio.Cursor

/-- The slot of a cursor, as the code finds it with a mask. -/
def slotOf (capacity cursor : UInt32) : UInt32 := cursor &&& (capacity - 1)

/-- Cell `i` from a cursor on, in a ring of slots with `width` cells each. -/
def cellOf (capacity : UInt32) (width : Nat) (cursor : UInt32) (i : Nat) : Nat :=
  (slotOf capacity (cursor + UInt32.ofNat (i / width))).toNat * width + i % width

/-- A number of slots that a mask works for. -/
def PowerOfTwo (capacity : UInt32) : Prop := ∃ e < 32, capacity.toNat = 2 ^ e

theorem PowerOfTwo.pos {capacity : UInt32} (h : PowerOfTwo capacity) : 0 < capacity.toNat := by
  obtain ⟨e, _, he⟩ := h
  rw [he]
  exact Nat.two_pow_pos e

theorem PowerOfTwo.dvd {capacity : UInt32} (h : PowerOfTwo capacity) :
    capacity.toNat ∣ 2 ^ 32 := by
  obtain ⟨e, hlt, he⟩ := h
  rw [he]
  exact Nat.pow_dvd_pow 2 (by omega)

theorem toNat_slotOf {capacity : UInt32} (h : PowerOfTwo capacity) (cursor : UInt32) :
    (slotOf capacity cursor).toNat = cursor.toNat % capacity.toNat := by
  obtain ⟨e, hlt, he⟩ := h
  have hone : (1 : UInt32).toNat ≤ capacity.toNat := by
    rw [he]
    exact Nat.two_pow_pos e
  unfold slotOf
  rw [UInt32.toNat_and, UInt32.toNat_sub_of_le _ _ (UInt32.le_iff_toNat_le.mpr hone), he]
  exact Nat.and_two_pow_sub_one_eq_mod _ e

/-- Counting on from a cursor and then wrapping is the same as wrapping at the number of slots. -/
theorem toNat_add_mod {capacity : UInt32} (h : PowerOfTwo capacity) (base : UInt32) (k : Nat) :
    (base + UInt32.ofNat k).toNat % capacity.toNat = (base.toNat + k) % capacity.toNat := by
  rw [UInt32.toNat_add, UInt32.toNat_ofNat', Nat.add_mod_mod, Nat.mod_mod_of_dvd _ h.dvd]

theorem scale_mod (capacity width x t : Nat) (ht : t < width) :
    x % capacity * width + t = (x * width + t) % (capacity * width) := by
  have hx := Nat.div_add_mod x capacity
  rcases Nat.eq_zero_or_pos capacity with rfl | hpos
  · simp
  · have hlt : x % capacity * width + t < capacity * width := by
      have := Nat.mod_lt x hpos
      calc x % capacity * width + t < x % capacity * width + width := by omega
        _ = (x % capacity + 1) * width := by ring
        _ ≤ capacity * width := Nat.mul_le_mul_right _ (by omega)
    calc x % capacity * width + t = (x % capacity * width + t) % (capacity * width) :=
          (Nat.mod_eq_of_lt hlt).symm
      _ = (x % capacity * width + t + capacity * width * (x / capacity)) % (capacity * width) := by
          rw [Nat.add_mul_mod_self_left]
      _ = (x * width + t) % (capacity * width) := by
          congr 1
          calc x % capacity * width + t + capacity * width * (x / capacity)
              = (capacity * (x / capacity) + x % capacity) * width + t := by ring
            _ = x * width + t := by rw [hx]

/-- Where cell `i` from a cursor on is, counted in cells. -/
theorem cellOf_eq {capacity : UInt32} (h : PowerOfTwo capacity) {width : Nat} (hw : 0 < width)
    (cursor : UInt32) (i : Nat) :
    cellOf capacity width cursor i = (cursor.toNat * width + i) % (capacity.toNat * width) := by
  unfold cellOf
  rw [toNat_slotOf h, toNat_add_mod h, scale_mod _ _ _ _ (Nat.mod_lt i hw)]
  congr 1
  calc (cursor.toNat + i / width) * width + i % width
      = cursor.toNat * width + (width * (i / width) + i % width) := by ring
    _ = cursor.toNat * width + i := by rw [Nat.div_add_mod]

/-- A cursor that is `k` slots further sees the same cells `k` slots earlier. -/
theorem cellOf_add {capacity : UInt32} (h : PowerOfTwo capacity) {width : Nat} (hw : 0 < width)
    (base : UInt32) (k i : Nat) :
    cellOf capacity width (base + UInt32.ofNat k) i =
      (base.toNat * width + (k * width + i)) % (capacity.toNat * width) := by
  have hscale : ∀ a b : Nat, a % capacity.toNat = b % capacity.toNat →
      (a * width + i) % (capacity.toNat * width) = (b * width + i) % (capacity.toNat * width) := by
    intro a b hab
    have : a * width % (capacity.toNat * width) = b * width % (capacity.toNat * width) := by
      rw [Nat.mul_mod_mul_right, Nat.mul_mod_mul_right, hab]
    rw [Nat.add_mod, this, ← Nat.add_mod]
  rw [cellOf_eq h hw, hscale _ _ (toNat_add_mod h base k)]
  congr 1
  ring

theorem cellOf_lt {capacity : UInt32} (h : PowerOfTwo capacity) {width : Nat} (hw : 0 < width)
    (cursor : UInt32) (i : Nat) : cellOf capacity width cursor i < capacity.toNat * width := by
  rw [cellOf_eq h hw]
  exact Nat.mod_lt _ (Nat.mul_pos h.pos hw)

/-- Positions less than a round apart are different. -/
theorem mod_ne {size a b : Nat} (hlt : a < b) (hround : b < a + size) : a % size ≠ b % size := by
  intro h
  have hdvd : size ∣ b - a := (Nat.modEq_iff_dvd' (Nat.le_of_lt hlt)).mp h
  have hle := Nat.le_of_dvd (by omega) hdvd
  omega

/-! ## Distances -/

/-- The distance of two cursors is what was counted between them, if that is no full round of
the 32 bits. -/
theorem toNat_distance (base : UInt32) {r w : Nat} (hle : r ≤ w) (hlt : w - r < 2 ^ 32) :
    (base + UInt32.ofNat w - (base + UInt32.ofNat r)).toNat = w - r := by
  have heq : base + UInt32.ofNat w - (base + UInt32.ofNat r) = UInt32.ofNat (w - r) := by
    have hw : UInt32.ofNat w = UInt32.ofNat r + UInt32.ofNat (w - r) := by
      rw [← UInt32.ofNat_add, Nat.add_sub_cancel' hle]
    rw [hw, ← UInt32.add_assoc, UInt32.add_comm (base + UInt32.ofNat r), UInt32.add_sub_cancel]
  rw [heq, UInt32.toNat_ofNat', Nat.mod_eq_of_lt hlt]

theorem ofNat_add_toNat (base n : UInt32) (k : Nat) :
    base + UInt32.ofNat k + n = base + UInt32.ofNat (k + n.toNat) := by
  rw [UInt32.ofNat_add, UInt32.ofNat_toNat, UInt32.add_assoc]

end EmbeddedAudio.Cursor
