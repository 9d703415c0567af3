-- Lists cut into groups of one size, with what is left over at the end thrown
-- away. Nothing here is about audio.
import EmbeddedAudio.Storage

namespace EmbeddedAudio.Groups

open Storage

variable {α : Type*} {n : Nat} {l m : List α}

/-- The groups of `n` in a list. -/
def groups (n : Nat) (l : List α) : List (List α) :=
  (List.range (l.length / n)).map fun i => (l.drop (i * n)).take n

@[simp] theorem length_groups : (groups n l).length = l.length / n := by simp [groups]

@[simp] theorem groups_nil : groups n ([] : List α) = [] := by simp [groups]

theorem length_of_mem_groups {g : List α} (h : g ∈ groups n l) : g.length = n := by
  unfold groups at h
  obtain ⟨i, hi, rfl⟩ := List.mem_map.mp h
  rw [List.mem_range] at hi
  have hfits : (i + 1) * n ≤ l.length :=
    (Nat.mul_le_mul_right n hi).trans (Nat.div_mul_le_self _ _)
  rw [Nat.succ_mul] at hfits
  rw [List.length_take, List.length_drop]
  omega

theorem groups_short (h : l.length < n) : groups n l = [] := by
  simp [groups, Nat.div_eq_of_lt h]

theorem groups_one (hn : 0 < n) (h : l.length = n) : groups n l = [l] := by
  have hone : l.length / n = 1 := by rw [h, Nat.div_self hn]
  unfold groups
  rw [hone, ← h]
  simp

/-- Groups that are complete are not changed by what comes behind them. -/
theorem groups_append (h : n ∣ l.length) : groups n (l ++ m) = groups n l ++ groups n m := by
  obtain ⟨k, hk⟩ := h
  rcases Nat.eq_zero_or_pos n with rfl | hn
  · simp [groups]
  have hl : l.length / n = k := by rw [hk, Nat.mul_div_cancel_left k hn]
  have hlm : (l ++ m).length / n = k + m.length / n := by
    rw [List.length_append, hk, Nat.mul_add_div hn]
  unfold groups
  rw [hlm, hl, List.range_add, List.map_append, List.map_map]
  congr 1
  · apply List.map_congr_left
    intro i hi
    have hfits : i * n + n ≤ l.length := by
      rw [hk, Nat.mul_comm n k]
      exact block_le (List.mem_range.mp hi) n
    rw [List.drop_append_of_le_length (by omega), List.take_append_of_le_length]
    rw [List.length_drop]
    omega
  · apply List.map_congr_left
    intro i _
    have hskip : (k + i) * n = l.length + i * n := by
      rw [hk, Nat.add_mul, Nat.mul_comm k n]
    simp only [Function.comp, hskip, List.drop_append]
    rw [List.drop_eq_nil_of_le (by omega), List.nil_append]
    congr 2
    omega

/-- A list is its complete groups and less than one more. -/
theorem exists_whole (hn : 0 < n) (l : List α) :
    ∃ whole rest, l = whole ++ rest ∧ n ∣ whole.length ∧ rest.length < n := by
  refine ⟨l.take (n * (l.length / n)), l.drop (n * (l.length / n)),
    (List.take_append_drop _ _).symm, ?_, ?_⟩
  · rw [List.length_take, Nat.min_eq_left (Nat.mul_div_le _ _)]
    exact Nat.dvd_mul_right _ _
  · have hdiv := Nat.div_add_mod l.length n
    have hmod := Nat.mod_lt l.length hn
    rw [List.length_drop]
    omega

theorem groups_whole {whole rest : List α} (h : n ∣ whole.length) (hrest : rest.length < n) :
    groups n (whole ++ rest) = groups n whole := by
  rw [groups_append h, groups_short hrest, List.append_nil]

theorem groups_leading (h : l <+: m) : groups n l <+: groups n m := by
  obtain ⟨more, rfl⟩ := h
  rcases Nat.eq_zero_or_pos n with rfl | hn
  · simp [groups]
  obtain ⟨whole, rest, rfl, hwhole, hrest⟩ := exists_whole hn l
  rw [groups_whole hwhole hrest, List.append_assoc, groups_append hwhole]
  exact List.prefix_append _ _

end EmbeddedAudio.Groups
