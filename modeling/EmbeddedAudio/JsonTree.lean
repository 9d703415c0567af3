-- JSON texts as a builder writes them, with no whitespace: a string is escaped, an
-- integer is written in decimal, and objects and arrays come from lists.
import EmbeddedAudio.JsonLookup
import EmbeddedAudio.JsonUnescape
import Mathlib.Data.Nat.Digits.Lemmas

namespace EmbeddedAudio.Sendspin

/-! ## Strings -/

theorem isHex_hexDigit : ∀ v < 16, isHex (hexDigit v) = true := by decide

theorem hexDigits_isHex (b : UInt8) : isHex 0x30 ∧ isHex 0x30 ∧
    isHex (hexDigit (b.toNat / 16)) ∧ isHex (hexDigit (b.toNat % 16)) := by
  have hb := b.toNat_lt
  exact ⟨by decide, by decide, isHex_hexDigit _ (by omega), isHex_hexDigit _ (by omega)⟩

/-- The character of a string that `wr_json_string` writes for a byte. -/
def escapedChar (c : UInt8) : StringChar :=
  if hquote : c = QUOTE then .escape QUOTE (by decide)
  else if hslash : c = BACKSLASH then .escape BACKSLASH (by decide)
  else if c = 0x08 then .escape 0x62 (by decide)
  else if c = 0x0C then .escape 0x66 (by decide)
  else if c = 0x0A then .escape 0x6E (by decide)
  else if c = 0x0D then .escape 0x72 (by decide)
  else if c = 0x09 then .escape 0x74 (by decide)
  else if hcontrol : c < 0x20 then
    .unicode 0x30 0x30 (hexDigit (c.toNat / 16)) (hexDigit (c.toNat % 16)) (hexDigits_isHex c)
  else .plain c ⟨UInt8.not_lt.mp hcontrol, hquote, hslash⟩

theorem escapedChar_bytes (c : UInt8) : (escapedChar c).bytes = escapeByte c := by
  unfold escapedChar escapeByte
  split
  · rfl
  split
  · rfl
  split
  · rfl
  split
  · rfl
  split
  · rfl
  split
  · rfl
  split
  · rfl
  split
  · rfl
  · rfl

def escapedText (text : List UInt8) : Text := text.map escapedChar

theorem escapedText_bytes (text : List UInt8) :
    (escapedText text).bytes = text.flatMap escapeByte := by
  simp [escapedText, Text.bytes, List.flatMap_map, escapedChar_bytes]

theorem escapedText_quoted (text : List UInt8) : (escapedText text).quoted = jsonString text := by
  rw [Text.quoted, escapedText_bytes]
  rfl

/-! ## Integers -/

def lastDigit (n : Nat) : Fin 10 := ⟨n % 10, Nat.mod_lt n (by decide)⟩

/-- The decimal digits of a number, the last one first. -/
def digitsUp (n : Nat) : List (Fin 10) :=
  if n = 0 then [lastDigit 0] else (Nat.digits 10 n).map lastDigit

theorem digitsUp_nonempty (n : Nat) : digitsUp n ≠ [] := by
  unfold digitsUp
  split
  · simp
  next hn => simpa [Nat.digits_ne_nil_iff_ne_zero] using hn

/-- The first digit of a number is no zero, unless it is the only one. -/
theorem digitsUp_canonical (n : Nat) (h : (digitsUp n).reverse.head? = some 0) :
    (digitsUp n).reverse.length = 1 := by
  unfold digitsUp at h ⊢
  split at h
  next hn => rw [if_pos hn]; rfl
  next hn =>
    have hne : Nat.digits 10 n ≠ [] := Nat.digits_ne_nil_iff_ne_zero.mpr hn
    have hlt : (Nat.digits 10 n).getLast hne < 10 :=
      Nat.digits_lt_base (by decide) (List.getLast_mem hne)
    rw [List.head?_reverse, List.getLast?_map, List.getLast?_eq_some_getLast hne] at h
    simp only [Option.map_some, Option.some.injEq] at h
    have hzero : (Nat.digits 10 n).getLast hne % 10 = 0 := congrArg Fin.val h
    rw [Nat.mod_eq_of_lt hlt] at hzero
    exact absurd hzero (Nat.getLast_digit_ne_zero 10 hn)

/-- An integer in decimal. -/
def intLit (negative : Bool) (n : Nat) : IntLit where
  negative := negative
  digits := (digitsUp n).reverse
  nonempty := by simpa using digitsUp_nonempty n
  canonical := digitsUp_canonical n

theorem digitsUp_step (n : Nat) :
    digitsUp n = lastDigit n :: if n / 10 = 0 then [] else digitsUp (n / 10) := by
  by_cases hn : n = 0
  · subst hn
    rfl
  have hdigit : lastDigit (n % 10) = lastDigit n := Fin.ext (Nat.mod_mod n 10)
  rw [digitsUp, if_neg hn, Nat.digits_def' (by decide) (Nat.pos_of_ne_zero hn), List.map_cons, hdigit]
  split
  next hlast => rw [hlast, Nat.digits_zero, List.map_nil]
  next hmore => rw [digitsUp, if_neg hmore]

/-- The loop of `eaf_bytes_write_u64_dec` comes to the end of the digits. -/
theorem digitsOf_up {fuel n : Nat} (hfuel : 0 < fuel) (h : n < 10 ^ fuel) :
    digitsOf fuel n = (digitsUp n).map digitByte := by
  induction fuel generalizing n with
  | zero => exact absurd hfuel (by decide)
  | succ fuel ih =>
    rw [digitsOf, digitsUp_step, List.map_cons]
    have hdigit : digitByte (lastDigit n) = 0x30 + (n % 10).toUInt8 := rfl
    simp only [hdigit]
    split
    next => rfl
    next hmore =>
      have hpow : 10 ^ (fuel + 1) = 10 ^ fuel * 10 := pow_succ 10 fuel
      have hlt : n / 10 < 10 ^ fuel := by omega
      have hpos : 0 < fuel := by
        by_contra hzero
        have hfuel : fuel = 0 := by omega
        rw [hfuel] at hlt
        omega
      rw [ih hpos hlt]

/-- A number of 64 bits is written in full. -/
theorem decimal_bytes {n : Nat} (h : n < 2 ^ 64) : decimal n = (intLit false n).bytes := by
  have hdigits : digitsOf 20 n = (digitsUp n).map digitByte := digitsOf_up (by decide) (by omega)
  rw [decimal, hdigits, ← List.map_reverse]
  rfl

theorem foldr_lastDigit (ds : List Nat) (h : ∀ d ∈ ds, d < 10) :
    (ds.map lastDigit).foldr (fun d m => m * 10 + d.val) 0 = Nat.ofDigits 10 ds := by
  induction ds with
  | nil => rfl
  | cons d ds ih =>
    have hd : (lastDigit d).val = d := Nat.mod_eq_of_lt (h d List.mem_cons_self)
    rw [List.map_cons, List.foldr_cons, ih fun x hx => h x (List.mem_cons_of_mem d hx),
      Nat.ofDigits_cons, hd]
    omega

theorem intLit_value (negative : Bool) (n : Nat) :
    (intLit negative n).value = if negative then -(n : Int) else n := by
  have hfold : (digitsUp n).reverse.foldl (fun m d => m * 10 + d.val) 0 = n := by
    rw [List.foldl_reverse]
    unfold digitsUp
    split
    next hn => exact hn.symm
    next hn =>
      rw [foldr_lastDigit _ fun d hd => Nat.digits_lt_base (by decide) hd]
      exact Nat.ofDigits_digits 10 n
  simp only [IntLit.value, intLit, hfold]

theorem signedDecimal_bytes {n : Int} (h : n.natAbs < 2 ^ 64) :
    signedDecimal n = (intLit (decide (n < 0)) n.natAbs).bytes := by
  unfold signedDecimal
  rw [decimal_bytes h]
  by_cases hn : n < 0 <;> simp [hn, IntLit.bytes, intLit]

theorem signed_value (n : Int) : (intLit (decide (n < 0)) n.natAbs).value = n := by
  rw [intLit_value]
  by_cases hn : n < 0
  · simp only [hn, decide_true, if_true]
    omega
  · simp only [hn, decide_false, Bool.false_eq_true, if_false]
    omega

/-! ## Values -/

def Json.ofString (text : List UInt8) : Json := .str (escapedText text)

def Json.ofInt (n : Int) : Json := .num (intLit (decide (n < 0)) n.natAbs)

/-- The elements of an array that has one at least. -/
def elementsOf (v : Json) : List Json → Elements
  | [] => .last .none v .none
  | w :: vs => .cons .none v .none (elementsOf w vs)

def Json.ofArray : List Json → Json
  | [] => .emptyArr .none
  | v :: vs => .arr (elementsOf v vs)

def headOf (key : List UInt8) : Head := ⟨.none, escapedText key, .none, .none⟩

/-- The members of an object that has one at least. -/
def membersOf (m : List UInt8 × Json) : List (List UInt8 × Json) → Members
  | [] => .last (headOf m.1) m.2 .none
  | m' :: ms => .cons (headOf m.1) m.2 .none (membersOf m' ms)

def Json.ofObject : List (List UInt8 × Json) → Json
  | [] => .emptyObj .none
  | m :: ms => .obj (membersOf m ms)

/-- The text of a member. -/
def memberText (m : List UInt8 × Json) : List UInt8 := jsonString m.1 ++ COLON :: m.2.bytes

/-! ## Their texts -/

theorem ofString_bytes (text : List UInt8) : (Json.ofString text).bytes = jsonString text :=
  escapedText_quoted text

theorem ofInt_bytes {n : Int} (h : n.natAbs < 2 ^ 64) : (Json.ofInt n).bytes = signedDecimal n :=
  (signedDecimal_bytes h).symm

theorem ofNat_bytes {n : Nat} (h : n < 2 ^ 64) : (Json.ofInt n).bytes = decimal n := by
  have habs : (n : Int).natAbs < 2 ^ 64 := h
  rw [ofInt_bytes habs]
  simp [signedDecimal]

@[simp] theorem commaSeparated_nil : commaSeparated [] = [] := rfl

@[simp] theorem commaSeparated_one (text : List UInt8) : commaSeparated [text] = text := by
  simp [commaSeparated]

@[simp] theorem commaSeparated_cons (text text' : List UInt8) (texts : List (List UInt8)) :
    commaSeparated (text :: text' :: texts) = text ++ COMMA :: commaSeparated (text' :: texts) := by
  simp [commaSeparated, List.intercalate]

theorem elementsOf_bytes (v : Json) (vs : List Json) :
    (elementsOf v vs).bytes = commaSeparated ((v :: vs).map Json.bytes) := by
  induction vs generalizing v with
  | nil => simp [elementsOf, Elements.bytes, Gap.none]
  | cons w vs ih =>
    simp only [elementsOf, Elements.bytes, ih, Gap.none, List.map_cons, commaSeparated_cons,
      List.nil_append]

theorem ofArray_bytes (vs : List Json) :
    (Json.ofArray vs).bytes = LBRACKET :: (commaSeparated (vs.map Json.bytes) ++ [RBRACKET]) := by
  cases vs with
  | nil => rfl
  | cons v vs => simp only [Json.ofArray, Json.bytes, elementsOf_bytes]

theorem headOf_bytes (key : List UInt8) : (headOf key).bytes = jsonString key ++ [COLON] := by
  simp [headOf, Head.bytes, Gap.none, escapedText_quoted]

theorem membersOf_bytes (m : List UInt8 × Json) (ms : List (List UInt8 × Json)) :
    (membersOf m ms).bytes = commaSeparated ((m :: ms).map memberText) := by
  induction ms generalizing m with
  | nil => simp [membersOf, Members.bytes, headOf_bytes, memberText, Gap.none]
  | cons m' ms ih =>
    simp only [membersOf, Members.bytes, headOf_bytes, ih, Gap.none, List.map_cons,
      commaSeparated_cons, memberText, List.nil_append, List.append_assoc, List.cons_append]

theorem ofObject_bytes (ms : List (List UInt8 × Json)) :
    (Json.ofObject ms).bytes = LBRACE :: (commaSeparated (ms.map memberText) ++ [RBRACE]) := by
  cases ms with
  | nil => rfl
  | cons m ms => simp only [Json.ofObject, Json.bytes, membersOf_bytes]

/-! ## Tight, and looked up by key -/

@[simp] theorem ofString_tight (text : List UInt8) : (Json.ofString text).tight = true := rfl

@[simp] theorem ofInt_tight (n : Int) : (Json.ofInt n).tight = true := rfl

theorem elementsOf_tight (v : Json) (vs : List Json) :
    (elementsOf v vs).tight = (v :: vs).all Json.tight := by
  induction vs generalizing v with
  | nil => simp [elementsOf, Elements.tight]
  | cons w vs ih => simp [elementsOf, Elements.tight, ih]

@[simp] theorem ofArray_tight (vs : List Json) : (Json.ofArray vs).tight = vs.all Json.tight := by
  cases vs with
  | nil => rfl
  | cons v vs => simp only [Json.ofArray, Json.tight, elementsOf_tight]

theorem membersOf_lead (m : List UInt8 × Json) (ms : List (List UInt8 × Json)) :
    (membersOf m ms).lead.bytes = [] := by
  cases ms <;> rfl

theorem membersOf_tight (m : List UInt8 × Json) (ms : List (List UInt8 × Json)) :
    (membersOf m ms).tight = (m :: ms).all fun m => m.2.tight := by
  induction ms generalizing m with
  | nil => simp [membersOf, Members.tight]
  | cons m' ms ih => simp [membersOf, Members.tight, membersOf_lead, ih]

@[simp] theorem ofObject_tight (ms : List (List UInt8 × Json)) :
    (Json.ofObject ms).tight = ms.all fun m => m.2.tight := by
  cases ms with
  | nil => rfl
  | cons m ms => simp only [Json.ofObject, Json.tight, membersOf_tight]

theorem membersOf_find (key : List UInt8) (m : List UInt8 × Json)
    (ms : List (List UInt8 × Json)) : (membersOf m ms).find key =
      ((m :: ms).find? fun m => decide (m.1.flatMap escapeByte = key)).map Prod.snd := by
  induction ms generalizing m with
  | nil =>
    simp only [membersOf, Members.find, headOf, escapedText_bytes, List.find?_cons, List.find?_nil]
    by_cases hkey : m.1.flatMap escapeByte = key <;> simp [hkey]
  | cons m' ms ih =>
    rw [List.find?_cons]
    simp only [membersOf, Members.find, headOf, escapedText_bytes, ih]
    by_cases hkey : m.1.flatMap escapeByte = key <;> simp [hkey]

/-- The first member whose key is written so. -/
@[simp] theorem ofObject_member (key : List UInt8) (ms : List (List UInt8 × Json)) :
    (Json.ofObject ms).member key =
      (ms.find? fun m => decide (m.1.flatMap escapeByte = key)).map Prod.snd := by
  cases ms with
  | nil => rfl
  | cons m ms => exact membersOf_find key m ms

@[simp] theorem ofObject_type (ms : List (List UInt8 × Json)) : (Json.ofObject ms).type = .object := by
  cases ms <;> rfl

@[simp] theorem ofArray_type (vs : List Json) : (Json.ofArray vs).type = .array := by
  cases vs <;> rfl

end EmbeddedAudio.Sendspin
