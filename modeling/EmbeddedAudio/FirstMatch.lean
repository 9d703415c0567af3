-- The first place in a text where a test holds. More text behind a match does not move it.
import Mathlib.Data.List.Basic

namespace EmbeddedAudio.FirstMatch

variable {α β : Type*}

/-- The first index from which the test holds, as `strstr` looks for it. -/
def firstMatch (p : List α → Bool) : List α → Option Nat
  | [] => none
  | a :: rest => if p (a :: rest) then some 0 else (firstMatch p rest).map (· + 1)

/-- A test that looks at the first `k` items, and needs them all. -/
structure Window (p : List α → Bool) (k : Nat) : Prop where
  needs : ∀ s, p s → k ≤ s.length
  sees : ∀ s more, k ≤ s.length → p (s ++ more) = p s

/-- The text begins with the pattern, once each item is read as `f` says. -/
def startsWith [BEq β] (f : α → β) (pattern : List β) (s : List α) : Bool :=
  pattern.isPrefixOf (s.map f)

theorem window_startsWith [BEq β] [LawfulBEq β] (f : α → β) (pattern : List β) :
    Window (startsWith f pattern) pattern.length := by
  constructor
  · intro s h
    have hlength := (List.isPrefixOf_iff_prefix.mp h).length_le
    rwa [List.length_map] at hlength
  · intro s more hlength
    unfold startsWith
    rw [Bool.eq_iff_iff, List.isPrefixOf_iff_prefix, List.isPrefixOf_iff_prefix, List.map_append]
    constructor
    · intro h
      refine List.prefix_of_prefix_length_le h (List.prefix_append _ _) ?_
      rwa [List.length_map]
    · intro h
      exact h.trans (List.prefix_append _ _)

variable {p : List α → Bool} {k : Nat}

theorem firstMatch_holds {s : List α} {i : Nat} (h : firstMatch p s = some i) :
    p (s.drop i) := by
  induction s generalizing i with
  | nil => exact absurd h.symm (Option.some_ne_none _)
  | cons a rest ih =>
    unfold firstMatch at h
    split at h
    · rename_i hhere
      rw [← Option.some.inj h]
      exact hhere
    · obtain ⟨j, hj, rfl⟩ := Option.map_eq_some_iff.mp h
      exact ih hj

theorem firstMatch_lt {s : List α} {i : Nat} (h : firstMatch p s = some i) : i < s.length := by
  induction s generalizing i with
  | nil => exact absurd h.symm (Option.some_ne_none _)
  | cons a rest ih =>
    unfold firstMatch at h
    split at h
    · rw [← Option.some.inj h]
      exact Nat.succ_pos _
    · obtain ⟨j, hj, rfl⟩ := Option.map_eq_some_iff.mp h
      exact Nat.succ_lt_succ (ih hj)

/-- A match has its whole window in the text. -/
theorem firstMatch_fits (hp : Window p k) {s : List α} {i : Nat} (h : firstMatch p s = some i) :
    i + k ≤ s.length := by
  have hneeds := hp.needs _ (firstMatch_holds h)
  have hlt := firstMatch_lt h
  rw [List.length_drop] at hneeds
  omega

theorem firstMatch_append (hp : Window p k) {s : List α} {i : Nat} (h : firstMatch p s = some i)
    (more : List α) : firstMatch p (s ++ more) = some i := by
  induction s generalizing i with
  | nil => exact absurd h.symm (Option.some_ne_none _)
  | cons a rest ih =>
    have hfits := firstMatch_fits hp h
    unfold firstMatch at h
    rw [List.cons_append]
    unfold firstMatch
    rw [← List.cons_append, hp.sees (a :: rest) more (by omega)]
    split at h
    · rename_i hhere
      rw [if_pos hhere, h]
    · rename_i hhere
      obtain ⟨j, hj, rfl⟩ := Option.map_eq_some_iff.mp h
      rw [if_neg hhere, ih hj, Option.map_some]

theorem firstMatch_eq_some_iff {s : List α} {i : Nat} :
    firstMatch p s = some i ↔ i < s.length ∧ p (s.drop i) ∧ ∀ j < i, ¬ p (s.drop j) := by
  induction s generalizing i with
  | nil => simp [firstMatch]
  | cons a rest ih =>
    unfold firstMatch
    by_cases hhere : p (a :: rest)
    · rw [if_pos hhere, Option.some_inj]
      constructor
      · rintro rfl
        exact ⟨Nat.succ_pos _, hhere, fun j hj => absurd hj (Nat.not_lt_zero j)⟩
      · rintro ⟨-, -, hnone⟩
        by_contra hne
        exact hnone 0 (by omega) hhere
    · rw [if_neg hhere, Option.map_eq_some_iff]
      constructor
      · rintro ⟨j, hj, rfl⟩
        obtain ⟨hlt, hat, hnone⟩ := ih.mp hj
        refine ⟨Nat.succ_lt_succ hlt, hat, ?_⟩
        intro i hi
        cases i with
        | zero => exact hhere
        | succ i => exact hnone i (Nat.lt_of_succ_lt_succ hi)
      · rintro ⟨hlt, hat, hnone⟩
        cases i with
        | zero => exact absurd hat hhere
        | succ i =>
          refine ⟨i, ih.mpr ⟨Nat.lt_of_succ_lt_succ hlt, hat, ?_⟩, rfl⟩
          intro j hj
          exact hnone (j + 1) (Nat.succ_lt_succ hj)

/-- The first place of a pattern in a text. -/
def FirstPlace (pattern s : List β) (i : Nat) : Prop :=
  pattern <+: s.drop i ∧ ∀ j < i, ¬ pattern <+: s.drop j

theorem startsWith_iff [BEq β] [LawfulBEq β] (f : α → β) (pattern : List β) (s : List α) (i : Nat) :
    startsWith f pattern (s.drop i) ↔ pattern <+: (s.map f).drop i := by
  rw [startsWith, List.isPrefixOf_iff_prefix, List.map_drop]

theorem firstMatch_startsWith_iff [BEq β] [LawfulBEq β] (f : α → β) {pattern : List β}
    (hpattern : pattern ≠ []) (s : List α) (i : Nat) :
    firstMatch (startsWith f pattern) s = some i ↔ FirstPlace pattern (s.map f) i := by
  unfold FirstPlace
  simp only [firstMatch_eq_some_iff, startsWith_iff]
  refine and_iff_right_of_imp ?_
  rintro ⟨hat, -⟩
  have hpos := List.length_pos_iff.mpr hpattern
  have hle := hat.length_le
  rw [List.length_drop, List.length_map] at hle
  omega

/-- A first part that ends before the end of the window has no match. -/
theorem firstMatch_take (hp : Window p k) {s : List α} {i n : Nat} (h : firstMatch p s = some i)
    (hn : n < i + k) : firstMatch p (s.take n) = none := by
  cases htake : firstMatch p (s.take n) with
  | none => rfl
  | some j =>
    have hfits := firstMatch_fits hp htake
    have happend := firstMatch_append hp htake (s.drop n)
    rw [List.take_append_drop, h] at happend
    rw [← Option.some.inj happend, List.length_take] at hfits
    omega

end EmbeddedAudio.FirstMatch
