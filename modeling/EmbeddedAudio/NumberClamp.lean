-- The integers of the JSON reader at machine width (parse_number in sendspin_protocol.c): the
-- magnitude is an unsigned 64-bit number, and the result a signed one.
import EmbeddedAudio.JsonPacked
import EmbeddedAudio.ServerNumbers
import Mathlib.Data.List.TakeWhile
import Mathlib.Data.Nat.Digits.Defs

namespace EmbeddedAudio.NumberClamp

open Sendspin hiding parseNumber

/-! ## The function -/

/-- A turn of the digit loop. The arithmetic is that of `uint64_t`. -/
def digitTurn (acc : UInt64 × Bool) (b : UInt8) : UInt64 × Bool :=
  let digit := (b - 0x30).toUInt64
  if acc.2 then acc
  else if acc.1 > (18446744073709551615 - digit) / 10 then (acc.1, true)
  else (acc.1 * 10 + digit, false)

/-- The digit loop, with the offset of `p` and the bytes from there on. -/
def digitLoop (acc : UInt64 × Bool) (p : Nat) : List UInt8 → (UInt64 × Bool) × Span
  | [] => (acc, ⟨p, []⟩)
  | b :: rest =>
    if isDigit b then digitLoop (digitTurn acc b) (p + 1) rest else (acc, ⟨p, b :: rest⟩)

/-- `parse_number`. The casts are those between `uint64_t` and `int64_t`. -/
def parseNumber (c : Span) : Except Rc (Int64 × Span) :=
  let negative := c.bytes.head? == some MINUS
  let p := if negative then c.advance 1 else c
  if (p.bytes.head?.map isDigit).getD false then
    let ((magnitude, overflow), p) := digitLoop (0, false) p.start p.bytes
    if (p.bytes.head?.map fun b => b == DOT || isExp b).getD false then .error EAF_INVALID
    else if negative then
      .ok (if overflow ∨ magnitude > Int64.maxValue.toUInt64 + 1 then Int64.minValue
        else (0 - magnitude).toInt64, p)
    else
      .ok (if overflow ∨ magnitude > Int64.maxValue.toUInt64 then Int64.maxValue
        else magnitude.toInt64, p)
  else .error EAF_INVALID

/-! ## No operation wraps -/

theorem toNat_digit {b : UInt8} (h : isDigit b = true) :
    (b - 0x30).toUInt64.toNat = b.toNat - 0x30 ∧ b.toNat - 0x30 ≤ 9 := by
  simp only [isDigit, Bool.and_eq_true, decide_eq_true_eq] at h
  have hhigh : b.toNat ≤ 0x39 := UInt8.le_iff_toNat_le.mp h.2
  have hsub : (b - 0x30).toNat = b.toNat - 0x30 := UInt8.toNat_sub_of_le _ _ h.1
  refine ⟨?_, by omega⟩
  rw [UInt8.toNat_toUInt64, hsub]

/-- A turn computes over the naturals: its guard keeps the product and the sum inside 64 bits. -/
theorem digitTurn_exact {b : UInt8} (h : isDigit b = true) (acc : UInt64 × Bool) :
    ((digitTurn acc b).1.toNat, (digitTurn acc b).2) = magnitude (acc.1.toNat, acc.2) b := by
  obtain ⟨hdigit, hnine⟩ := toNat_digit h
  obtain ⟨m, overflow⟩ := acc
  have hroom : ((18446744073709551615 - (b - 0x30).toUInt64) / 10).toNat =
      (UINT64_MAX - (b.toNat - 0x30)) / 10 := by
    have hle : (b - 0x30).toUInt64 ≤ 18446744073709551615 := by
      rw [UInt64.le_iff_toNat_le, hdigit]
      exact Nat.le_trans hnine (by decide)
    rw [UInt64.toNat_div, UInt64.toNat_sub_of_le _ _ hle, hdigit]
    rfl
  have hguard : m > (18446744073709551615 - (b - 0x30).toUInt64) / 10 ↔
      m.toNat > (UINT64_MAX - (b.toNat - 0x30)) / 10 := by
    rw [gt_iff_lt, UInt64.lt_iff_toNat_lt, hroom]
  unfold digitTurn magnitude
  cases overflow with
  | true => rfl
  | false =>
    simp only [Bool.false_eq_true, if_false]
    by_cases hover : m.toNat > (UINT64_MAX - (b.toNat - 0x30)) / 10
    · rw [if_pos (hguard.mpr hover), if_pos hover]
    · rw [if_neg (mt hguard.mp hover), if_neg hover]
      have hfits : m.toNat * 10 + (b.toNat - 0x30) < 2 ^ 64 := by
        simp only [UINT64_MAX] at hover
        omega
      have hten : (m * 10).toNat = m.toNat * 10 := by
        rw [UInt64.toNat_mul]
        exact Nat.mod_eq_of_lt (by simp only [UInt64.reduceToNat]; omega)
      rw [UInt64.toNat_add, hten, hdigit, Nat.mod_eq_of_lt hfits]

theorem digitTurns_exact (digits : List UInt8) (h : ∀ b ∈ digits, isDigit b = true)
    (acc : UInt64 × Bool) :
    ((digits.foldl digitTurn acc).1.toNat, (digits.foldl digitTurn acc).2) =
      digits.foldl magnitude (acc.1.toNat, acc.2) := by
  induction digits generalizing acc with
  | nil => rfl
  | cons b digits ih =>
    obtain ⟨hb, hdigits⟩ := List.forall_mem_cons.mp h
    rw [List.foldl_cons, List.foldl_cons, ih hdigits, ← digitTurn_exact hb]

theorem digitLoop_eq (acc : UInt64 × Bool) (p : Nat) (bytes : List UInt8) :
    digitLoop acc p bytes =
      ((bytes.takeWhile isDigit).foldl digitTurn acc, skipDigits ⟨p, bytes⟩) := by
  induction bytes generalizing acc p with
  | nil => rfl
  | cons b rest ih =>
    rw [digitLoop]
    by_cases hb : isDigit b = true
    · rw [if_pos hb, ih, List.takeWhile_cons_of_pos hb, List.foldl_cons]
      simp only [skipDigits, Span.advance, List.takeWhile_cons_of_pos hb, List.length_cons,
        List.drop_succ_cons]
      rw [Nat.add_right_comm, Nat.add_assoc]
    · rw [if_neg hb, List.takeWhile_cons_of_neg hb]
      simp only [skipDigits, Span.advance, List.takeWhile_cons_of_neg hb]
      rfl

/-! ## The casts -/

theorem toInt_toInt64 {m : UInt64} (h : m.toNat ≤ INT64_MAX) : m.toInt64.toInt = m.toNat := by
  have hbits : m.toInt64.toInt = m.toBitVec.toInt := rfl
  have hnat : m.toBitVec.toNat = m.toNat := rfl
  simp only [INT64_MAX] at h
  rw [hbits, BitVec.toInt_eq_toNat_cond, hnat, if_pos (by omega)]

/-- The negation is unsigned, so the magnitude of `INT64_MIN` is no special case. -/
theorem toInt_negated {m : UInt64} (h : m.toNat ≤ INT64_MAX + 1) :
    (0 - m).toInt64.toInt = -(m.toNat : Int) := by
  have hbits : (0 - m).toInt64.toInt = (0 - m).toBitVec.toInt := rfl
  have hnat : (0 - m).toBitVec.toNat = (2 ^ 64 - m.toNat) % 2 ^ 64 := by
    have hsub := UInt64.toNat_sub 0 m
    rw [UInt64.toNat_zero, Nat.add_zero] at hsub
    exact hsub
  simp only [INT64_MAX] at h
  rw [hbits, BitVec.toInt_eq_toNat_cond, hnat]
  by_cases hzero : m.toNat = 0
  · rw [hzero]
    decide
  · rw [Nat.mod_eq_of_lt (by omega), if_neg (by omega)]
    omega

/-- The function at machine width is the one over the integers, on every input. -/
theorem parseNumber_exact (c : Span) :
    (parseNumber c).map (fun r => (r.1.toInt, r.2)) = Sendspin.parseNumber c := by
  have hmin : (Int64.maxValue.toUInt64 + 1).toNat = INT64_MAX + 1 := rfl
  have hmax : Int64.maxValue.toUInt64.toNat = INT64_MAX := rfl
  have hsign : (if (c.bytes.head? == some MINUS) = true then c.advance 1 else c) =
      skipIf (· == MINUS) c := by
    rw [skipIf_minus]
    simp only [beq_iff_eq]
  unfold parseNumber Sendspin.parseNumber
  simp only [hsign, digitLoop_eq]
  generalize skipIf (· == MINUS) c = p
  have hdigits := digitTurns_exact (p.bytes.takeWhile isDigit)
    (fun b hb => List.mem_takeWhile_imp hb) (0, false)
  simp only [UInt64.toNat_zero] at hdigits
  rw [← hdigits]
  generalize (p.bytes.takeWhile isDigit).foldl digitTurn (0, false) = r
  obtain ⟨m, overflow⟩ := r
  simp only
  by_cases hdigit : (p.bytes.head?.map isDigit).getD false = true
  · rw [if_pos hdigit, if_pos hdigit]
    by_cases hend : ((skipDigits p).bytes.head?.map fun b => b == DOT || isExp b).getD false = true
    · rw [if_pos hend, if_pos hend]
      rfl
    rw [if_neg hend, if_neg hend]
    simp only [gt_iff_lt, UInt64.lt_iff_toNat_lt, hmin, hmax]
    by_cases hminus : (c.bytes.head? == some MINUS) = true
    · rw [if_pos hminus, if_pos hminus, Except.map]
      by_cases hlow : overflow = true ∨ INT64_MAX + 1 < m.toNat
      · rw [if_pos hlow, if_pos hlow]
        rfl
      · rw [if_neg hlow, if_neg hlow, toInt_negated (by omega)]
    · rw [if_neg hminus, if_neg hminus, Except.map]
      by_cases hhigh : overflow = true ∨ INT64_MAX < m.toNat
      · rw [if_pos hhigh, if_pos hhigh]
        rfl
      · rw [if_neg hhigh, if_neg hhigh, toInt_toInt64 (by omega)]
  · rw [if_neg hdigit, if_neg hdigit]
    rfl

/-! ## A text of digits -/

/-- The number that the digits are the decimal notation of. -/
def decimal (digits : List (Fin 10)) : Nat := Nat.ofDigits 10 (digits.reverse.map Fin.val)

/-- An integer as a text, with zeros in front or without. -/
def intText (negative : Bool) (digits : List (Fin 10)) : List UInt8 :=
  (if negative then [MINUS] else []) ++ digits.map digitByte

def intValue (negative : Bool) (digits : List (Fin 10)) : Int :=
  if negative then -(decimal digits : Int) else decimal digits

/-- What stands behind the text of an integer: no digit, and no fraction or exponent. -/
def EndsInt (rest : List UInt8) : Prop :=
  ∀ b, rest.head? = some b → isDigit b = false ∧ b ≠ DOT ∧ isExp b = false

theorem decimal_eq (digits : List (Fin 10)) :
    decimal digits = digits.foldl (fun m d => m * 10 + d.val) 0 := by
  unfold decimal
  rw [Nat.ofDigits_eq_foldr, List.foldr_map, List.foldr_reverse]
  simp only [Nat.cast_id, Nat.add_comm, Nat.mul_comm]

theorem spelled_intText (negative : Bool) {digits : List (Fin 10)} (h : digits ≠ []) :
    spelled (intText negative digits) = intValue negative digits := by
  unfold spelled intText intValue
  rw [decimal_eq, ← digitsValue_map]
  cases negative with
  | true => rfl
  | false =>
    obtain ⟨d, ds, rfl⟩ := List.exists_cons_of_ne_nil h
    simp [digitByte_ne_minus]

/-- The magnitude is exact after each digit, until it is over 64 bits for good. -/
theorem digitTurns_decimal (digits : List (Fin 10)) :
    let r := (digits.map digitByte).foldl digitTurn (0, false)
    if r.2 then UINT64_MAX < decimal digits
    else r.1.toNat = decimal digits ∧ decimal digits ≤ UINT64_MAX := by
  have hexact := digitTurns_exact (digits.map digitByte) isDigit_of_mem (0, false)
  have hm := magnitude_foldl digits
  simp only [UInt64.toNat_zero] at hexact
  simp only [← hexact, ← decimal_eq] at hm
  exact hm

theorem skipIf_intText (p : Nat) (negative : Bool) {digits : List (Fin 10)} (h : digits ≠ [])
    (rest : List UInt8) :
    skipIf (· == MINUS) ⟨p, intText negative digits ++ rest⟩ =
      ⟨p + if negative then 1 else 0, digits.map digitByte ++ rest⟩ := by
  rw [skipIf_minus]
  unfold intText
  cases negative with
  | true => rfl
  | false =>
    obtain ⟨d, ds, rfl⟩ := List.exists_cons_of_ne_nil h
    simp [digitByte_ne_minus]

theorem ends_getD {rest : List UInt8} (h : EndsInt rest) :
    (rest.head?.map fun b => b == DOT || isExp b).getD false = false := by
  cases hb : rest.head? with
  | none => rfl
  | some b =>
    obtain ⟨-, hdot, hexp⟩ := h b hb
    simp [hdot, hexp]

/-- The text is consumed, and nothing behind it. -/
theorem parseNumber_consumes (p : Nat) (negative : Bool) {digits : List (Fin 10)}
    {rest : List UInt8} (hdigits : digits ≠ []) (hend : EndsInt rest) :
    ∃ n, Sendspin.parseNumber ⟨p, intText negative digits ++ rest⟩ =
      .ok (n, ⟨p + (intText negative digits).length, rest⟩) := by
  have hskip := skipDigits_stop (p + if negative then 1 else 0) digits (fun b hb => (hend b hb).1)
  have hfirst : ((digits.map digitByte ++ rest).head?.map isDigit).getD false = true := by
    obtain ⟨d, ds, rfl⟩ := List.exists_cons_of_ne_nil hdigits
    simp [isDigit_digitByte]
  have hlength : (intText negative digits).length =
      (if negative then 1 else 0) + digits.length := by
    cases negative <;> simp [intText, Nat.add_comm]
  unfold Sendspin.parseNumber
  simp only [skipIf_intText p negative hdigits rest]
  rw [if_pos hfirst, hskip, ends_getD hend, if_neg Bool.false_ne_true, hlength, ← Nat.add_assoc]
  split <;> exact ⟨_, rfl⟩

/-- The function over the integers gives the exact value, clamped. -/
theorem parseNumber_intText (p : Nat) (negative : Bool) {digits : List (Fin 10)}
    {rest : List UInt8} (hdigits : digits ≠ []) (hend : EndsInt rest) :
    Sendspin.parseNumber ⟨p, intText negative digits ++ rest⟩ =
      .ok (clamp64 (intValue negative digits),
        ⟨p + (intText negative digits).length, rest⟩) := by
  obtain ⟨n, hn⟩ := parseNumber_consumes p negative hdigits hend
  have hvalue := parseNumber_spelled hn
  rw [hn, hvalue, ← spelled_intText negative hdigits]
  simp [Span.upTo]

/-- The text of an integer, with or without a sign and with any number of digits, is consumed and
gives its exact value clamped to 64 bits. The limits are met by the values at them and beyond, and
by no other ones. The magnitude is exact after each digit, until it is over 64 bits for good. -/
theorem parseNumber_clamps (p : Nat) (negative : Bool) {digits : List (Fin 10)}
    {rest : List UInt8} (hdigits : digits ≠ []) (hend : EndsInt rest) :
    ∃ n : Int64, parseNumber ⟨p, intText negative digits ++ rest⟩ =
        .ok (n, ⟨p + (intText negative digits).length, rest⟩) ∧
      n.toInt = clamp64 (intValue negative digits) ∧
      (n = Int64.minValue ↔ intValue negative digits ≤ INT64_MIN) ∧
      (n = Int64.maxValue ↔ INT64_MAX ≤ intValue negative digits) ∧
      ∀ k, let r := ((digits.take k).map digitByte).foldl digitTurn (0, false)
        if r.2 then UINT64_MAX < decimal (digits.take k)
        else r.1.toNat = decimal (digits.take k) := by
  have hexact := parseNumber_exact ⟨p, intText negative digits ++ rest⟩
  rw [parseNumber_intText p negative hdigits hend] at hexact
  cases hparse : parseNumber ⟨p, intText negative digits ++ rest⟩ with
  | error rc =>
    rw [hparse] at hexact
    cases hexact
  | ok r =>
    obtain ⟨n, c⟩ := r
    rw [hparse] at hexact
    simp only [Except.map, Except.ok.injEq, Prod.mk.injEq] at hexact
    obtain ⟨hn, rfl⟩ := hexact
    refine ⟨n, rfl, hn, ?_, ?_, fun k => ?_⟩
    · rw [← Int64.toInt_inj, hn, Int64.toInt_minValue]
      simp only [clamp64, INT64_MIN, INT64_MAX]
      omega
    · rw [← Int64.toInt_inj, hn, Int64.toInt_maxValue]
      simp only [clamp64, INT64_MIN, INT64_MAX]
      omega
    · intro r
      have hturns := digitTurns_decimal (digits.take k)
      by_cases hover : r.2 = true
      · rw [if_pos hover]
        simpa only [r, hover, if_true] using hturns
      · rw [if_neg hover]
        exact (if_neg hover ▸ hturns).1

/-- Twenty nines and a comma: the magnitude is over 64 bits with the last one. -/
theorem parseNumber_clamps_nines :
    let digits : List (Fin 10) := List.replicate 20 (Fin.last 9)
    ∃ n : Int64, parseNumber ⟨4, intText true digits ++ [0x2C]⟩ =
        .ok (n, ⟨4 + (intText true digits).length, [0x2C]⟩) ∧
      n.toInt = clamp64 (intValue true digits) ∧
      (n = Int64.minValue ↔ intValue true digits ≤ INT64_MIN) ∧
      (n = Int64.maxValue ↔ INT64_MAX ≤ intValue true digits) ∧
      ∀ k, let r := ((digits.take k).map digitByte).foldl digitTurn (0, false)
        if r.2 then UINT64_MAX < decimal (digits.take k)
        else r.1.toNat = decimal (digits.take k) := by
  refine parseNumber_clamps 4 true (List.cons_ne_nil _ _) ?_
  intro b hb
  rw [← Option.some.inj hb]
  decide

/-- `INT64_MIN` itself, behind a zero. -/
example : (parseNumber ⟨0, MINUS :: ascii "09223372036854775808,"⟩).map Prod.fst =
    .ok Int64.minValue := by decide

end EmbeddedAudio.NumberClamp
