-- A ring that keeps the last items of a history, with the place of the next one and the number of
-- items so far. Nothing here is about audio.
import EmbeddedAudio.RingCursor
import Mathlib.Data.List.Basic

namespace EmbeddedAudio.LastRing

variable {α : Type*} {store history : List α} {next count : Nat}

/-- The last items of a history, the oldest first. -/
def lastItems (size : Nat) (history : List α) : List α := history.drop (history.length - size)

/-- The ring has the last items of the history. -/
structure Keeps (store : List α) (next count : Nat) (history : List α) : Prop where
  size : 0 < store.length
  next : next = history.length % store.length
  count : count = min history.length store.length
  cell : ∀ k, k < history.length → history.length ≤ k + store.length →
    store[k % store.length]? = history[k]?

theorem keeps_empty (h : 0 < store.length) : Keeps store 0 0 ([] : List α) :=
  ⟨h, (Nat.zero_mod _).symm, (Nat.zero_min _).symm, fun _ hk => absurd hk (Nat.not_lt_zero _)⟩

theorem Keeps.next_lt (h : Keeps store next count history) : next < store.length := by
  rw [h.next]
  exact Nat.mod_lt _ h.size

/-- The next item takes the place of the oldest one. -/
theorem Keeps.push (h : Keeps store next count history) (x : α) :
    Keeps (store.set next x) ((next + 1) % store.length)
      (if count < store.length then count + 1 else count) (history ++ [x]) := by
  have hnext := h.next
  have hcount := h.count
  have hsize := h.size
  refine ⟨?_, ?_, ?_, ?_⟩
  · rw [List.length_set]
    exact hsize
  · rw [List.length_set, List.length_append, hnext, Nat.mod_add_mod]
    rfl
  · rw [List.length_set, List.length_append, List.length_singleton]
    split <;> omega
  · intro k hk hwindow
    rw [List.length_set] at hwindow ⊢
    rw [List.length_append, List.length_singleton] at hk hwindow
    rcases Nat.lt_or_ge k history.length with hold | hnew
    · have hother : history.length % store.length ≠ k % store.length :=
        (Cursor.mod_ne hold (by omega)).symm
      rw [List.getElem?_append_left hold, List.getElem?_set_ne (by rw [hnext]; exact hother)]
      exact h.cell k hold (by omega)
    · have hk' : k = history.length := by omega
      rw [hk', ← hnext, List.getElem?_set_self h.next_lt, List.getElem?_concat_length]

/-- The items in the order in which a reader goes through them. -/
theorem Keeps.read (h : Keeps store next count history) {i : Nat} (hi : i < count) :
    store[(next + store.length - count + i) % store.length]? =
      (lastItems store.length history)[i]? := by
  have hsize := h.size
  have hcount := h.count
  have hcell := h.cell (history.length - count + i) (by omega) (by omega)
  have hplace : (next + store.length - count + i) % store.length =
      (history.length - count + i) % store.length := by
    have hsplit := Nat.mod_add_div history.length store.length
    rw [h.next]
    rcases Nat.lt_or_ge history.length store.length with hpart | hfull
    · rw [Nat.mod_eq_of_lt hpart, Nat.min_eq_left (Nat.le_of_lt hpart)] at *
      rw [hcount, Nat.sub_self, Nat.zero_add, Nat.add_sub_cancel_left, Nat.add_mod_left]
    · rw [Nat.min_eq_right hfull] at hcount
      rw [hcount, Nat.add_sub_cancel]
      conv_rhs => rw [← Nat.add_mod_right]
      rw [show history.length - store.length + i + store.length = history.length + i by omega,
        Nat.mod_add_mod]
  rw [hplace, hcell, lastItems, List.getElem?_drop]
  congr 1
  omega

theorem length_lastItems (size : Nat) (history : List α) :
    (lastItems size history).length = min history.length size := by
  rw [lastItems, List.length_drop]
  omega

end EmbeddedAudio.LastRing
