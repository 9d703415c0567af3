-- A ring of cells with a first cell and a number of cells in use, filled and
-- emptied by block copies. Nothing here is about audio.
import EmbeddedAudio.Storage
import Mathlib.Data.List.Rotate

namespace EmbeddedAudio.BlockRing

open Storage

variable {α : Type} {store : List α} {tail count : Nat}

/-- The cells in use, from the first on and around the end. -/
def contents (store : List α) (tail count : Nat) : List α := (store.rotate tail).take count

/-- The two copies that put `xs` behind the cells in use, from the cell `write` on. -/
def put (store : List α) (write : Nat) (xs : List α) : List α :=
  let first := min (store.length - write) xs.length
  overwrite (overwrite store write (xs.take first)) 0 (xs.drop first)

theorem mod_round {x size : Nat} (h : x < size + size) :
    x % size = if x < size then x else x - size := by
  by_cases hx : x < size
  · rw [if_pos hx, Nat.mod_eq_of_lt hx]
  · rw [if_neg hx, Nat.mod_eq_sub_mod (Nat.le_of_not_lt hx), Nat.mod_eq_of_lt (by omega)]

theorem length_contents (hcount : count ≤ store.length) :
    (contents store tail count).length = count := by
  rw [contents, List.length_take, List.length_rotate, Nat.min_eq_left hcount]

theorem getElem?_contents (hcount : count ≤ store.length) {i : Nat} (hi : i < count) :
    (contents store tail count)[i]? = store[(tail + i) % store.length]? := by
  rw [contents, List.getElem?_take_of_lt hi, List.getElem?_rotate (by omega), Nat.add_comm]

theorem length_put {write : Nat} {xs : List α} (hwrite : write ≤ store.length)
    (hxs : xs.length ≤ store.length) : (put store write xs).length = store.length := by
  have hfirst := Nat.min_le_left (store.length - write) xs.length
  have hinner : (overwrite store write
      (xs.take (min (store.length - write) xs.length))).length = store.length := by
    apply length_overwrite store write _
    rw [List.length_take]
    omega
  unfold put
  rw [length_overwrite _ 0 _ (by rw [hinner, List.length_drop]; omega), hinner]

/-- A cell after the two copies. -/
theorem getElem?_put {write : Nat} {xs : List α} (hwrite : write < store.length)
    (hxs : xs.length ≤ store.length) (i : Nat) :
    (put store write xs)[i]? =
      if write ≤ i ∧ i < write + xs.length ∧ i < store.length then xs[i - write]?
      else if i + store.length < write + xs.length then xs[i + store.length - write]?
      else store[i]? := by
  have hinner : (overwrite store write
      (xs.take (min (store.length - write) xs.length))).length = store.length := by
    apply length_overwrite store write _
    rw [List.length_take]
    omega
  unfold put
  rw [getElem?_overwrite _ 0 _ i (by rw [hinner, List.length_drop]; omega),
    getElem?_overwrite store write _ i (by rw [List.length_take]; omega)]
  simp only [List.length_drop, List.length_take, Nat.zero_le, true_and, Nat.zero_add, Nat.sub_zero,
    List.getElem?_drop]
  by_cases hwrap : i + store.length < write + xs.length
  · -- in the copy at the start of the store
    rw [if_pos (by omega), if_neg (by omega), if_pos hwrap]
    congr 1
    omega
  · rw [if_neg (by omega), if_neg hwrap]
    by_cases hin : write ≤ i ∧ i < write + xs.length ∧ i < store.length
    · rw [if_pos (by omega), if_pos hin, List.getElem?_take_of_lt (by omega)]
    · rw [if_neg (by omega), if_neg hin]

/-- What is put in stands behind what was in use. -/
theorem contents_put {xs : List α} (htail : tail < store.length)
    (hfits : count + xs.length ≤ store.length) :
    contents (put store ((tail + count) % store.length) xs) tail (count + xs.length) =
      contents store tail count ++ xs := by
  have hwrite : (tail + count) % store.length < store.length :=
    Nat.mod_lt _ (Nat.lt_of_le_of_lt (Nat.zero_le _) htail)
  have hlength := @length_put _ store _ xs (Nat.le_of_lt hwrite) (by omega)
  have hround := @mod_round (tail + count) store.length (by omega)
  refine List.ext_getElem? fun i => ?_
  rcases Nat.lt_or_ge i (count + xs.length) with hi | hi
  · have hcell := @mod_round (tail + i) store.length (by omega)
    rw [getElem?_contents (by rw [hlength]; exact hfits) hi, hlength,
      getElem?_put hwrite (by omega)]
    rcases Nat.lt_or_ge i count with hold | hnew
    · rw [List.getElem?_append_left (by rw [length_contents (by omega)]; exact hold),
        getElem?_contents (by omega) hold]
      split at hround <;> split at hcell <;> rw [if_neg (by omega), if_neg (by omega)]
    · rw [List.getElem?_append_right (by rw [length_contents (by omega)]; exact hnew),
        length_contents (by omega)]
      split at hround <;> split at hcell
      · rw [if_pos (by omega)]
        congr 1
        omega
      · rw [if_neg (by omega), if_pos (by omega)]
        congr 1
        omega
      · omega
      · rw [if_pos (by omega)]
        congr 1
        omega
  · rw [List.getElem?_eq_none (by rw [length_contents (by omega)]; exact hi),
      List.getElem?_eq_none (by rw [List.length_append, length_contents (by omega)]; exact hi)]

/-- What is taken from the first cell on leaves the rest in use. -/
theorem contents_take {n : Nat} (htail : tail < store.length) (hcount : count ≤ store.length)
    (hn : n ≤ count) (hround : n ≤ store.length - tail) :
    contents store tail count =
      slice store tail n ++ contents store ((tail + n) % store.length) (count - n) := by
  have hslice : (slice store tail n).length = n := length_slice (by omega)
  have hnext := @mod_round (tail + n) store.length (by omega)
  refine List.ext_getElem? fun i => ?_
  rcases Nat.lt_or_ge i count with hi | hi
  · have hcell := @mod_round (tail + i) store.length (by omega)
    rw [getElem?_contents hcount hi]
    rcases Nat.lt_or_ge i n with hin | hin
    · rw [List.getElem?_append_left (by omega), slice, List.getElem?_take_of_lt hin,
        List.getElem?_drop, hcell, if_pos (by omega)]
    · rw [List.getElem?_append_right (by omega), hslice,
        getElem?_contents (by omega) (by omega)]
      congr 1
      have hshift := @mod_round ((tail + n) % store.length + (i - n)) store.length (by
        have := Nat.mod_lt (tail + n) (Nat.lt_of_le_of_lt (Nat.zero_le _) htail)
        omega)
      rw [hcell, hshift]
      split at hnext <;> rw [hnext] <;> split <;> split <;> omega
  · rw [List.getElem?_eq_none (by rw [length_contents hcount]; exact hi),
      List.getElem?_eq_none (by
        rw [List.length_append, hslice, length_contents (by omega)]
        omega)]

end EmbeddedAudio.BlockRing
