-- What the text of a request says, by its lines and the numerals on them, and that the server
-- reads just that out of it.
import EmbeddedAudio.OtaUpload
import Mathlib.Data.Nat.Digits.Defs

namespace EmbeddedAudio.Ota

open FirstMatch

/-! ## The text of a request -/

/-- The first empty line stands behind the end of the line at `place`. -/
def EmptyLine (text : List UInt8) (place : Nat) : Prop := FirstPlace (ascii "\r\n\r\n") text place

/-- The number that the digits are the decimal notation of. -/
def decimal (digits : List UInt8) : Nat :=
  Nat.ofDigits 10 (digits.reverse.map fun b => b.toNat - 0x30)

/-- What a number stands for behind a sign: the largest `unsigned long` when it is larger, and what
is missing to the end of the numbers when there is a minus. -/
def signed (sign : List UInt8) (value : Nat) : Nat :=
  if ULONG_MAX < value then ULONG_MAX
  else if sign = ascii "-" then ULONG_MAX + 1 - value else value

/-- The text begins with the decimal of a number, which is not zero, behind white space and a
sign. -/
def Numeral (text : List UInt8) (n : Nat) : Prop :=
  ∃ blanks sign digits after : List UInt8, text = blanks ++ (sign ++ (digits ++ after)) ∧
    (∀ b ∈ blanks, isSpace b) ∧ (sign = [] ∨ sign = ascii "-" ∨ sign = ascii "+") ∧
    digits ≠ [] ∧ (∀ b ∈ digits, isDigit b) ∧ (∀ b ∈ after.head?, isDigit b = false) ∧
    0 < decimal digits ∧ n = signed sign (decimal digits)

/-- The first line with the name Content-Length has the number. -/
def LengthLine (text : List UInt8) (n : Nat) : Prop :=
  ∃ place, FirstPlace (ascii "\ncontent-length:") (text.map lower) place ∧
    Numeral (text.drop (place + (ascii "\ncontent-length:").length)) n

/-! ## Numerals -/

theorem digitsValue_eq (digits : List UInt8) : digitsValue digits = decimal digits := by
  unfold digitsValue decimal
  rw [Nat.ofDigits_eq_foldr, List.foldr_map, List.foldr_reverse]
  congr 1
  funext value b
  rw [Nat.cast_id]
  omega

theorem takeWhile_digits {digits after : List UInt8} (hdigits : ∀ b ∈ digits, isDigit b)
    (hafter : ∀ b ∈ after.head?, isDigit b = false) :
    (digits ++ after).takeWhile isDigit = digits := by
  rw [List.takeWhile_append_of_pos hdigits]
  cases after with
  | nil => rw [List.takeWhile_nil, List.append_nil]
  | cons b after =>
    have hb := hafter b rfl
    rw [List.takeWhile_cons_of_neg (by rw [hb]; decide), List.append_nil]

/-- What is behind the white space begins with a sign or a digit. -/
theorem dropWhile_blanks {blanks sign digits : List UInt8} (after : List UInt8)
    (hblanks : ∀ b ∈ blanks, isSpace b) (hsign : sign = [] ∨ sign = ascii "-" ∨ sign = ascii "+")
    (hne : digits ≠ []) (hdigits : ∀ b ∈ digits, isDigit b) :
    (blanks ++ (sign ++ (digits ++ after))).dropWhile isSpace = sign ++ (digits ++ after) := by
  rw [List.dropWhile_append_of_pos hblanks]
  rcases hsign with rfl | rfl | rfl
  · obtain ⟨b, rest, rfl⟩ := List.exists_cons_of_ne_nil hne
    have hb := hdigits b List.mem_cons_self
    apply List.dropWhile_cons_of_neg
    simp only [isDigit, isSpace] at hb ⊢
    grind
  · exact List.dropWhile_cons_of_neg (by decide)
  · exact List.dropWhile_cons_of_neg (by decide)

theorem strtoulDigits_eq (negative : Bool) {digits after : List UInt8}
    (hdigits : ∀ b ∈ digits, isDigit b) (hafter : ∀ b ∈ after.head?, isDigit b = false)
    (hpos : 0 < decimal digits) :
    strtoulDigits negative (digits ++ after) =
      signed (if negative then ascii "-" else []) (decimal digits) := by
  have hmax : ULONG_MAX = 4294967295 := rfl
  unfold strtoulDigits signed
  rw [takeWhile_digits hdigits hafter, digitsValue_eq]
  dsimp only
  split
  · rfl
  · cases negative with
    | false => rfl
    | true =>
      rw [if_pos rfl, if_pos rfl, if_pos rfl, Nat.mod_eq_of_lt]
      omega

theorem strtoul_of_numeral {text : List UInt8} {n : Nat} (h : Numeral text n) :
    strtoul text = n ∧ 0 < n := by
  obtain ⟨blanks, sign, digits, after, rfl, hblanks, hsign, hne, hdigits, hafter, hpos, rfl⟩ := h
  have hmax : ULONG_MAX = 4294967295 := rfl
  constructor
  · unfold strtoul
    rw [dropWhile_blanks after hblanks hsign hne hdigits]
    rcases hsign with rfl | rfl | rfl
    · obtain ⟨b, rest, rfl⟩ := List.exists_cons_of_ne_nil hne
      have hb := hdigits b List.mem_cons_self
      have hminus : b ≠ 0x2d := by
        rintro rfl
        exact absurd hb (by decide)
      have hplus : b ≠ 0x2b := by
        rintro rfl
        exact absurd hb (by decide)
      simp only [List.nil_append, List.cons_append]
      rw [if_neg hminus, if_neg hplus, ← List.cons_append]
      exact strtoulDigits_eq false hdigits hafter hpos
    · exact strtoulDigits_eq true hdigits hafter hpos
    · exact strtoulDigits_eq false hdigits hafter hpos
  · unfold signed
    split
    · omega
    · split <;> omega

/-- The digits that `strtoul` reads, when it reads a number. -/
theorem numeral_of_digits {negative : Bool} {blanks sign rest : List UInt8}
    (hblanks : ∀ b ∈ blanks, isSpace b)
    (hsign : sign = ascii "-" ∧ negative = true ∨
      (sign = [] ∨ sign = ascii "+") ∧ negative = false)
    (hpos : 0 < strtoulDigits negative rest) :
    Numeral (blanks ++ (sign ++ rest)) (strtoulDigits negative rest) := by
  set digits := rest.takeWhile isDigit with hdef
  have hsplit : digits ++ rest.dropWhile isDigit = rest := List.takeWhile_append_dropWhile
  have hdigits : ∀ b ∈ digits, isDigit b := fun b hb => List.mem_takeWhile_imp hb
  have hafter : ∀ b ∈ (rest.dropWhile isDigit).head?, isDigit b = false := by
    intro b hb
    have hhead := List.head?_dropWhile_not isDigit rest
    rw [Option.mem_def.mp hb] at hhead
    exact hhead
  have hvalue : 0 < decimal digits := by
    by_contra hzero
    rw [strtoulDigits, ← hdef, digitsValue_eq, Nat.eq_zero_of_not_pos hzero] at hpos
    cases negative <;> exact absurd hpos (by decide)
  have hread := strtoulDigits_eq negative hdigits hafter hvalue
  rw [hsplit] at hread
  refine ⟨blanks, sign, digits, rest.dropWhile isDigit, by rw [hsplit], hblanks, ?_, ?_, hdigits,
    hafter, hvalue, ?_⟩
  · grind
  · intro hnil
    rw [hnil] at hvalue
    exact absurd hvalue (by decide)
  · rw [hread]
    rcases hsign with ⟨rfl, rfl⟩ | ⟨rfl | rfl, rfl⟩ <;> rfl

/-- `strtoul` reads a number that is not zero exactly where its decimal stands. -/
theorem numeral_iff {text : List UInt8} {n : Nat} : Numeral text n ↔ 0 < n ∧ strtoul text = n := by
  constructor
  · intro h
    exact (strtoul_of_numeral h).symm
  · rintro ⟨hpos, rfl⟩
    have hblanks : ∀ b ∈ text.takeWhile isSpace, isSpace b := fun b hb => List.mem_takeWhile_imp hb
    have hsplit : text.takeWhile isSpace ++ text.dropWhile isSpace = text :=
      List.takeWhile_append_dropWhile
    unfold strtoul at hpos ⊢
    cases hrest : text.dropWhile isSpace with
    | nil =>
      rw [hrest] at hpos
      exact absurd hpos (by decide)
    | cons c rest =>
      rw [hrest] at hpos hsplit
      dsimp only at hpos ⊢
      rw [← hsplit]
      split
      · rename_i hminus
        rw [if_pos hminus] at hpos
        subst hminus
        exact numeral_of_digits hblanks (.inl ⟨rfl, rfl⟩) hpos
      rename_i hminus
      rw [if_neg hminus] at hpos
      split
      · rename_i hplus
        rw [if_pos hplus] at hpos
        subst hplus
        exact numeral_of_digits hblanks (.inr ⟨.inr rfl, rfl⟩) hpos
      · rename_i hplus
        rw [if_neg hplus] at hpos
        rw [← List.nil_append (c :: rest)]
        exact numeral_of_digits hblanks (.inr ⟨.inl rfl, rfl⟩) hpos

/-! ## What the server reads -/

theorem findHeaderEnd_iff (text : List UInt8) (place : Nat) :
    findHeaderEnd text = some place ↔ EmptyLine text place := by
  unfold findHeaderEnd EmptyLine
  rw [firstMatch_startsWith_iff id (by decide), List.map_id]

theorem strtoul_dropWhile (text : List UInt8) :
    strtoul (text.dropWhile (· == 0x20)) = strtoul text := by
  induction text with
  | nil => rfl
  | cons b rest ih =>
    by_cases hb : b = 0x20
    · subst hb
      exact ih
    · rw [List.dropWhile_cons_of_neg (by simpa using hb)]

theorem findContentLength_iff (text : List UInt8) (n : Nat) :
    findContentLength text = some n ↔ LengthLine text n := by
  have hname : ∀ place,
      firstMatch (fun line => headerHasPrefix line (ascii "\nContent-Length:")) text = some place ↔
        FirstPlace (ascii "\ncontent-length:") (text.map lower) place :=
    firstMatch_startsWith_iff lower (by decide) text
  unfold findContentLength LengthLine
  simp only [← hname, numeral_iff]
  cases firstMatch (fun line => headerHasPrefix line (ascii "\nContent-Length:")) text with
  | none => simp
  | some place =>
    dsimp only
    rw [strtoul_dropWhile, show (ascii "\nContent-Length:").length =
      (ascii "\ncontent-length:").length from rfl]
    grind

end EmbeddedAudio.Ota
