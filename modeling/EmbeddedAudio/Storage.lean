-- Writes into a buffer of fixed size, as `memcpy` makes them, and the bytes
-- that a protocol field of fixed width holds. Nothing here is about audio.
import Mathlib.Data.List.Basic
import Mathlib.Data.List.Infix
import Mathlib.Tactic.Ring

namespace EmbeddedAudio.Storage

variable {α : Type}

/-- `memcpy(store + pos, xs, xs.length)`. -/
def overwrite (store : List α) (pos : Nat) (xs : List α) : List α :=
  store.take pos ++ xs ++ store.drop (pos + xs.length)

/-- The `n` cells of the buffer from `pos` on. -/
def slice (store : List α) (pos n : Nat) : List α := (store.drop pos).take n

theorem length_slice {store : List α} {pos n : Nat} (h : pos + n ≤ store.length) :
    (slice store pos n).length = n := by
  simp only [slice, List.length_take, List.length_drop]
  omega

/-- Two slices, the second right behind the first, are one slice. -/
theorem slice_append (store : List α) (pos a b : Nat) :
    slice store pos a ++ slice store (pos + a) b = slice store pos (a + b) := by
  unfold slice
  rw [← List.drop_drop, ← List.take_add]

/-- A buffer of `k` blocks goes as far as the end of each of them. -/
theorem block_le {i k : Nat} (h : i < k) (width : Nat) : i * width + width ≤ k * width := by
  calc i * width + width = (i + 1) * width := (Nat.succ_mul i width).symm
    _ ≤ k * width := Nat.mul_le_mul_right width h

@[simp] theorem overwrite_nil (store : List α) (pos : Nat) : overwrite store pos [] = store := by
  simp [overwrite]

/-- A write that fits keeps the size of the buffer. -/
theorem length_overwrite (store : List α) (pos : Nat) (xs : List α)
    (h : pos + xs.length ≤ store.length) : (overwrite store pos xs).length = store.length := by
  simp only [overwrite, List.length_append, List.length_take, List.length_drop]
  omega

theorem take_overwrite (store : List α) (pos : Nat) (xs : List α) (h : pos ≤ store.length) :
    (overwrite store pos xs).take (pos + xs.length) = store.take pos ++ xs := by
  have hlen : (store.take pos ++ xs).length = pos + xs.length := by
    simp only [List.length_append, List.length_take]
    omega
  unfold overwrite
  rw [← hlen, List.take_left]

/-- A write leaves alone what is behind it. -/
theorem drop_overwrite (store : List α) (pos : Nat) (xs : List α) (h : pos ≤ store.length) :
    (overwrite store pos xs).drop (pos + xs.length) = store.drop (pos + xs.length) := by
  have hlen : (store.take pos ++ xs).length = pos + xs.length := by
    simp only [List.length_append, List.length_take]
    omega
  unfold overwrite
  rw [← hlen, List.drop_left]

/-- Two writes, the second right after the first, are one write. -/
theorem overwrite_overwrite (store : List α) (pos : Nat) (xs ys : List α)
    (h : pos ≤ store.length) :
    overwrite (overwrite store pos xs) (pos + xs.length) ys = overwrite store pos (xs ++ ys) := by
  have hdrop : (overwrite store pos xs).drop (pos + xs.length + ys.length) =
      store.drop (pos + (xs ++ ys).length) := by
    rw [← List.drop_drop, drop_overwrite store pos xs h, List.drop_drop, List.length_append,
      Nat.add_assoc]
  calc overwrite (overwrite store pos xs) (pos + xs.length) ys
      = (overwrite store pos xs).take (pos + xs.length) ++ ys ++
          (overwrite store pos xs).drop (pos + xs.length + ys.length) := rfl
    _ = store.take pos ++ xs ++ ys ++ store.drop (pos + (xs ++ ys).length) := by
        rw [take_overwrite store pos xs h, hdrop]
    _ = overwrite store pos (xs ++ ys) := by simp [overwrite]

theorem getElem?_overwrite (store : List α) (pos : Nat) (xs : List α) (i : Nat)
    (h : pos + xs.length ≤ store.length) :
    (overwrite store pos xs)[i]? =
      if pos ≤ i ∧ i < pos + xs.length then xs[i - pos]? else store[i]? := by
  unfold overwrite
  have hp : (store.take pos).length = pos := by rw [List.length_take]; omega
  rcases Nat.lt_or_ge i pos with hi | hi
  · rw [List.append_assoc, List.getElem?_append_left (by omega), List.getElem?_take_of_lt hi]
    simp [Nat.not_le.mpr hi]
  · rcases Nat.lt_or_ge i (pos + xs.length) with hx | hx
    · rw [List.append_assoc, List.getElem?_append_right (by omega), hp,
        List.getElem?_append_left (by omega)]
      simp [hi, hx]
    · rw [List.getElem?_append_right (by rw [List.length_append]; omega), List.length_append, hp,
        List.getElem?_drop]
      simp only [hi, Nat.not_lt.mpr hx, and_false, if_false]
      congr 1
      omega

/-- A write of one more cell. -/
theorem overwrite_snoc (store : List α) (pos : Nat) (xs : List α) (x : α)
    (h : pos + xs.length < store.length) :
    (overwrite store pos xs).set (pos + xs.length) x = overwrite store pos (xs ++ [x]) := by
  have hlen := length_overwrite store pos xs (Nat.le_of_lt h)
  rw [← overwrite_overwrite store pos xs [x] (by omega), List.set_eq_take_append_cons_drop,
    if_pos (by omega)]
  simp [overwrite]

/-- The cells of a slice, one by one. -/
theorem slice_cells (store : List α) {pos n : Nat} (h : pos + n ≤ store.length) (d : α) :
    (List.range n).map (fun i => store.getD (pos + i) d) = slice store pos n := by
  unfold slice
  refine List.ext_getElem? fun i => ?_
  rw [List.getElem?_map, List.getElem?_take, List.getElem?_drop]
  rcases Nat.lt_or_ge i n with hlt | hge
  · rw [List.getElem?_range hlt, if_pos hlt, Option.map_some, List.getD_eq_getElem?_getD,
      List.getElem?_eq_getElem (by omega), Option.getD_some]
  · rw [if_neg (Nat.not_lt.mpr hge), List.getElem?_eq_none (by simpa using hge)]
    rfl

/-! ## Numbers on the wire -/

/-- The number that bytes hold, the most significant byte first. -/
def readBE (bytes : List UInt8) : Nat := bytes.foldl (fun v b => v * 256 + b.toNat) 0

/-- The last `n` bytes of a number, the most significant first. -/
def writeBE : Nat → Nat → List UInt8
  | 0, _ => []
  | n + 1, v => writeBE n (v / 256) ++ [(v % 256).toUInt8]

@[simp] theorem length_writeBE (n v : Nat) : (writeBE n v).length = n := by
  induction n generalizing v with
  | zero => rfl
  | succ n ih => simp [writeBE, ih]

theorem readBE_append_singleton (bs : List UInt8) (b : UInt8) :
    readBE (bs ++ [b]) = readBE bs * 256 + b.toNat := by
  simp [readBE, List.foldl_append]

/-- A number that fits is read back. -/
theorem readBE_writeBE (n v : Nat) (h : v < 256 ^ n) : readBE (writeBE n v) = v := by
  induction n generalizing v with
  | zero =>
    have : v = 0 := by simpa using h
    subst this
    rfl
  | succ n ih =>
    have hq : v / 256 < 256 ^ n := by
      rw [Nat.div_lt_iff_lt_mul (by omega), ← Nat.pow_succ]
      exact h
    have hb : ((v % 256).toUInt8).toNat = v % 256 := by
      simp [Nat.toUInt8, UInt8.toNat_ofNat']
    rw [writeBE, readBE_append_singleton, ih _ hq, hb]
    omega

end EmbeddedAudio.Storage
