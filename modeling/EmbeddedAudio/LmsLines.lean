-- The text of a response header, apart from the client that reads it: its lines, the
-- names that they start with, and the decimal of a content length. The functions of
-- lms_client.c that walk over the text are held against it.
import EmbeddedAudio.LmsStream
import Mathlib.Data.List.TakeWhile

namespace EmbeddedAudio.Lms

/-! ## Lines -/

/-- The lines of a text. Each ends at a CR LF, and the last one at the end of the text. -/
def linesOf : List UInt8 → List (List UInt8)
  | [] => [[]]
  | b :: rest =>
    if b = 13 ∧ rest.head? = some 10 then [] :: linesOf rest.tail
    else
      match linesOf rest with
      | [] => [[b]]
      | line :: lines => (b :: line) :: lines
termination_by text => text.length
decreasing_by
  · simp only [List.length_cons, List.length_tail]
    omega
  · simp

/-- The empty line that ends a header. -/
abbrev CRLFCRLF : List UInt8 := [13, 10, 13, 10]

/-- A text that ends with the first empty line in it. -/
structure FirstEnd (text : List UInt8) : Prop where
  ends : CRLFCRLF <:+ text
  first : ∀ before, before <+: text → CRLFCRLF <:+ before → before = text

/-- A text of lines up to an empty one. -/
inductive Fields : List UInt8 → List (List UInt8) → Prop
  | done : Fields [13, 10] []
  | line {text line rest : List UInt8} {lines : List (List UInt8)} :
      splitLine text = some (line, rest) → line ≠ [] → Fields rest lines →
      Fields text (line :: lines)

theorem splitLine_eq {text line rest : List UInt8} (h : splitLine text = some (line, rest)) :
    text = line ++ 13 :: 10 :: rest := by
  induction text generalizing line rest with
  | nil => cases h
  | cons b text ih =>
    unfold splitLine at h
    by_cases hbreak : b = 13 ∧ text.head? = some 10
    · rw [if_pos hbreak] at h
      cases h
      obtain ⟨rfl, htail⟩ := hbreak
      obtain ⟨text, rfl⟩ := List.head?_eq_some_iff.mp htail
      rfl
    · rw [if_neg hbreak, Option.map_eq_some_iff] at h
      obtain ⟨⟨line', rest'⟩, hsplit, heq⟩ := h
      cases heq
      rw [ih hsplit]
      rfl

theorem linesOf_split {text line rest : List UInt8} (h : splitLine text = some (line, rest)) :
    linesOf text = line :: linesOf rest := by
  induction text generalizing line rest with
  | nil => cases h
  | cons b text ih =>
    unfold splitLine at h
    rw [linesOf]
    by_cases hbreak : b = 13 ∧ text.head? = some 10
    · rw [if_pos hbreak] at h ⊢
      cases h
      rfl
    · rw [if_neg hbreak, Option.map_eq_some_iff] at h
      obtain ⟨⟨line', rest'⟩, hsplit, heq⟩ := h
      cases heq
      rw [if_neg hbreak, ih hsplit]

theorem linesOf_fields {text : List UInt8} {lines : List (List UInt8)} (h : Fields text lines) :
    linesOf text = lines ++ [[], []] := by
  induction h with
  | done => simp [linesOf]
  | line hsplit _ _ ih => rw [linesOf_split hsplit, ih, List.cons_append]

/-- The first line of a text with an empty line at its end: it is one of the lines before, or the
last. -/
theorem splitLine_ends (before : List UInt8) : splitLine (before ++ CRLFCRLF) =
    match splitLine before with
    | some (line, rest) => some (line, rest ++ CRLFCRLF)
    | none => some (before, [13, 10]) := by
  induction before with
  | nil => rfl
  | cons b before ih =>
    have hhead : (before ++ CRLFCRLF).head? = some 10 ↔ before.head? = some 10 := by
      cases before with
      | nil => decide
      | cons b' before => exact Iff.rfl
    rw [List.cons_append, splitLine, splitLine, ih]
    by_cases hbreak : b = 13 ∧ before.head? = some 10
    · rw [if_pos ⟨hbreak.1, hhead.mpr hbreak.2⟩, if_pos hbreak]
      obtain ⟨rest, rfl⟩ := List.head?_eq_some_iff.mp hbreak.2
      rfl
    · rw [if_neg fun h => hbreak ⟨h.1, hhead.mp h.2⟩, if_neg hbreak]
      rcases splitLine before with _ | ⟨line, rest⟩
      · rfl
      · rfl

/-- Behind a line that is not the last one, the text goes on to its first empty line, and not with
that at once. -/
theorem firstEnd_rest {line rest : List UInt8}
    (h : FirstEnd (line ++ 13 :: 10 :: (rest ++ CRLFCRLF))) :
    FirstEnd (rest ++ CRLFCRLF) ∧ (rest ++ CRLFCRLF).take 2 ≠ [13, 10] := by
  refine ⟨⟨List.suffix_append _ _, ?_⟩, ?_⟩
  · intro before hbefore hends
    have hprefix : line ++ 13 :: 10 :: before <+: line ++ 13 :: 10 :: (rest ++ CRLFCRLF) := by
      rw [List.prefix_append_right_inj]
      exact (List.prefix_cons_inj _).mpr ((List.prefix_cons_inj _).mpr hbefore)
    have hsame := h.first _ hprefix
      (hends.trans ⟨line ++ [13, 10], by rw [List.append_assoc]; rfl⟩)
    exact List.cons_injective (List.cons_injective (List.append_cancel_left hsame))
  · intro htake
    have hprefix : line ++ 13 :: 10 :: [13, 10] <+: line ++ 13 :: 10 :: (rest ++ CRLFCRLF) := by
      rw [List.prefix_append_right_inj]
      refine (List.prefix_cons_inj _).mpr ((List.prefix_cons_inj _).mpr ?_)
      rw [← htake]
      exact List.take_prefix _ _
    have hsame := congrArg List.length (h.first _ hprefix (List.suffix_append line CRLFCRLF))
    simp only [List.length_append, List.length_cons, List.length_nil] at hsame
    omega

theorem fields_of_firstEnd (bound : Nat) {text : List UInt8} (hbound : text.length ≤ bound)
    (h : FirstEnd text) : ∃ line rest lines, splitLine text = some (line, rest) ∧
      Fields rest lines := by
  induction bound generalizing text with
  | zero =>
    have hlength := h.ends.length_le
    exact absurd (hlength.trans hbound) (by decide)
  | succ bound ih =>
    obtain ⟨before, rfl⟩ := h.ends
    have hsplit := splitLine_ends before
    rcases hfirst : splitLine before with _ | ⟨line, rest⟩
    · rw [hfirst] at hsplit
      exact ⟨before, [13, 10], [], hsplit, .done⟩
    · rw [hfirst] at hsplit
      have htext := splitLine_eq hsplit
      rw [htext] at h hbound
      obtain ⟨hrest, hnext⟩ := firstEnd_rest h
      simp only [List.length_append, List.length_cons, List.length_nil] at hbound
      obtain ⟨line', rest', lines, hsplit', hfields⟩ := ih (by
        simp only [List.length_append, List.length_cons, List.length_nil]
        omega) hrest
      refine ⟨line, rest ++ CRLFCRLF, line' :: lines, hsplit, .line hsplit' ?_ hfields⟩
      rintro rfl
      rw [splitLine_eq hsplit'] at hnext
      exact hnext rfl

/-! ## Names -/

/-- ASCII letters in lower case. -/
def lower (b : UInt8) : UInt8 := if 0x41 ≤ b ∧ b ≤ 0x5a then b + 0x20 else b

/-- The line starts with a name and a colon, whatever the case of its letters. -/
def Named (name : String) (line : List UInt8) : Prop := ascii name ++ [0x3a] <+: line.map lower

theorem key_iff {line name : List UInt8} : key line name = true ↔ name <+: line.map lower :=
  List.isPrefixOf_iff_prefix

/-! ## Decimals -/

/-- A blank or a tab. -/
abbrev Blank (b : UInt8) : Prop := b = 32 ∨ b = 9

/-- An ASCII digit. -/
abbrev Digit (b : UInt8) : Prop := 0x30 ≤ b ∧ b ≤ 0x39

/-- The number that digits spell, behind others that spell `value`. -/
def spell (value : Nat) (digits : List UInt8) : Nat :=
  digits.foldl (fun v b => v * 10 + (b.toNat - 0x30)) value

/-- The text is a decimal below 2^64, with blanks around it. -/
def Decimal (text : List UInt8) (n : Nat) : Prop :=
  ∃ before digits after, text = before ++ (digits ++ after) ∧ (∀ b ∈ before, Blank b) ∧
    (∀ b ∈ after, Blank b) ∧ (∀ b ∈ digits, Digit b) ∧ digits ≠ [] ∧ spell 0 digits = n ∧ n < 2 ^ 64

theorem not_digit_of_blank {b : UInt8} (h : Blank b) : ¬Digit b := by
  rcases h with rfl | rfl <;> decide

theorem le_spell (value : Nat) (digits : List UInt8) : value ≤ spell value digits := by
  induction digits generalizing value with
  | nil => exact le_rfl
  | cons b digits ih => exact (Nat.le_add_right_of_le (by omega)).trans (ih _)

theorem skipBlanks_eq (bytes : List UInt8) :
    skipBlanks bytes = bytes.dropWhile fun b => decide (Blank b) := by
  unfold skipBlanks
  congr 1
  funext b
  rw [Bool.decide_or]
  rfl

/-- The digits in front of a text are taken as long as their number fits in 64 bits. -/
theorem contentDigits_spell {digits after : List UInt8} (hdigits : ∀ b ∈ digits, Digit b)
    (hafter : ∀ b, after.head? = some b → ¬Digit b) (value : Nat) (hvalue : value < 2 ^ 64) :
    contentDigits (digits ++ after) value =
      if spell value digits < 2 ^ 64 then some (spell value digits, after) else none := by
  induction digits generalizing value with
  | nil =>
    cases after with
    | nil => exact (if_pos hvalue).symm
    | cons b after =>
      rw [List.nil_append, contentDigits, if_neg (hafter b rfl)]
      exact (if_pos hvalue).symm
  | cons b digits ih =>
    obtain ⟨hb, hrest⟩ := List.forall_mem_cons.mp hdigits
    have hdigit : b.toNat - 0x30 ≤ 9 := by
      have hle := UInt8.le_iff_toNat_le.mp hb.2
      change b.toNat ≤ 57 at hle
      omega
    rw [List.cons_append, contentDigits, if_pos hb]
    by_cases hover : value > (UINT64_MAX - (b.toNat - 0x30)) / 10
    · have hspell := le_spell (value * 10 + (b.toNat - 0x30)) digits
      rw [if_pos hover, if_neg]
      change ¬spell (value * 10 + (b.toNat - 0x30)) digits < 2 ^ 64
      unfold UINT64_MAX at hover
      omega
    · rw [if_neg hover, ih hrest]
      · rfl
      · unfold UINT64_MAX at hover
        omega

theorem dropWhile_append {p : UInt8 → Bool} {before rest : List UInt8} (h : ∀ b ∈ before, p b = true)
    (hrest : ∀ b, rest.head? = some b → p b = false) : (before ++ rest).dropWhile p = rest := by
  rw [List.dropWhile_append_of_pos h]
  cases rest with
  | nil => rfl
  | cons b rest => rw [List.dropWhile_cons_of_neg (by rw [hrest b rfl]; decide)]

theorem of_mem_takeWhile {P : UInt8 → Prop} [DecidablePred P] {b : UInt8} {bytes : List UInt8}
    (h : b ∈ bytes.takeWhile fun b => decide (P b)) : P b := by
  have hb := List.mem_takeWhile_imp h
  exact of_decide_eq_true hb

/-- The value of a line is accepted exactly if it is a decimal. -/
theorem contentLength_decimal {text : List UInt8} {n : Nat} :
    contentLength text = some n ↔ Decimal text n := by
  unfold contentLength
  simp only [skipBlanks_eq]
  constructor
  · intro h
    -- the digits are what stands between the blanks in front and the rest
    generalize hvalue : text.dropWhile (fun b => decide (Blank b)) = value at h
    have hsplit := List.takeWhile_append_dropWhile (p := fun b => decide (Digit b)) (l := value)
    have hdigits : ∀ b ∈ value.takeWhile (fun b => decide (Digit b)), Digit b :=
      fun b hb => of_mem_takeWhile hb
    have hafter : ∀ b, (value.dropWhile fun b => decide (Digit b)).head? = some b → ¬Digit b := by
      intro b hb
      have hnot := List.head?_dropWhile_not (fun b => decide (Digit b)) value
      rw [hb] at hnot
      simpa using hnot
    have hspell := contentDigits_spell hdigits hafter 0 (by decide)
    rw [hsplit] at hspell
    rw [hspell] at h
    generalize value.takeWhile (fun b => decide (Digit b)) = digits at *
    generalize value.dropWhile (fun b => decide (Digit b)) = after at *
    split at h
    next => cases h
    next m rest hm =>
      split at hm
      next hfits =>
        cases hm
        split at h
        next => cases h
        next hgood =>
          cases h
          obtain ⟨hsome, hblank⟩ := not_or.mp hgood
          refine ⟨text.takeWhile fun b => decide (Blank b), digits, after, ?_, ?_, ?_, hdigits, ?_,
            rfl, hfits⟩
          · rw [hsplit, ← hvalue, List.takeWhile_append_dropWhile]
          · exact fun b hb => of_mem_takeWhile hb
          · intro b hb
            have hall := List.dropWhile_eq_nil_iff.mp (of_not_not hblank) b hb
            exact of_decide_eq_true hall
          · rintro rfl
            rw [← hsplit] at hsome
            exact hsome rfl
      next => cases hm
  · rintro ⟨before, digits, after, rfl, hbefore, hafter, hdigits, hsome, rfl, hfits⟩
    obtain ⟨b, more, rfl⟩ := List.exists_cons_of_ne_nil hsome
    have hvalue : (before ++ (b :: more ++ after)).dropWhile (fun b => decide (Blank b)) =
        b :: more ++ after := by
      refine dropWhile_append (fun b hb => decide_eq_true (hbefore b hb)) ?_
      intro b' hb'
      cases hb'
      exact decide_eq_false fun hblank =>
        not_digit_of_blank hblank (hdigits b List.mem_cons_self)
    have hstop : ∀ b', after.head? = some b' → ¬Digit b' := fun b' hb' =>
      not_digit_of_blank (hafter b' (List.mem_of_head? hb'))
    have hspell := contentDigits_spell hdigits hstop 0 (by decide)
    rw [hvalue, hspell, if_pos hfits]
    simp only
    rw [if_neg]
    rintro (hlength | hblank)
    · rw [List.length_append, List.length_cons] at hlength
      omega
    · refine hblank (List.dropWhile_eq_nil_iff.mpr fun b hb => decide_eq_true (hafter b hb))

end EmbeddedAudio.Lms
