-- JSON texts with nothing between their tokens, and numbers of every form. The reader
-- steps over every such value. It takes every one but a number with a fraction or an exponent.
import EmbeddedAudio.JsonRaw

namespace EmbeddedAudio.Sendspin

/-! ## Numbers of every form -/

/-- The digits behind the point or the letter of an exponent. -/
abbrev Digits := { ds : List (Fin 10) // ds ≠ [] }

def Digits.bytes (ds : Digits) : List UInt8 := ds.val.map digitByte

structure Exponent where
  letter : UInt8
  sign : List UInt8
  digits : Digits
  isLetter : isExp letter = true
  isSign : sign = [] ∨ sign = [PLUS] ∨ sign = [MINUS]

structure Number where
  integer : IntLit
  fraction : Option Digits
  exponent : Option Exponent

def fractionBytes : Option Digits → List UInt8
  | none => []
  | some ds => DOT :: ds.bytes

def exponentBytes : Option Exponent → List UInt8
  | none => []
  | some e => e.letter :: (e.sign ++ e.digits.bytes)

def Number.bytes (n : Number) : List UInt8 :=
  n.integer.bytes ++ (fractionBytes n.fraction ++ exponentBytes n.exponent)

/-- The number has no fraction and no exponent. -/
def Number.whole (n : Number) : Bool := n.fraction.isNone && n.exponent.isNone

/-! ## Values -/

mutual

inductive Packed where
  | null
  | bool (b : Bool)
  | num (n : Number)
  | str (s : Text)
  | emptyArr
  | arr (es : PackedItems)
  | emptyObj
  | obj (ms : PackedMembers)

inductive PackedItems where
  | last (v : Packed)
  | cons (v : Packed) (es : PackedItems)

inductive PackedMembers where
  | last (key : Text) (v : Packed)
  | cons (key : Text) (v : Packed) (ms : PackedMembers)

end

mutual

def Packed.bytes : Packed → List UInt8
  | .null => ascii "null"
  | .bool b => if b then ascii "true" else ascii "false"
  | .num n => n.bytes
  | .str s => s.quoted
  | .emptyArr => [LBRACKET, RBRACKET]
  | .arr es => LBRACKET :: (es.bytes ++ [RBRACKET])
  | .emptyObj => [LBRACE, RBRACE]
  | .obj ms => LBRACE :: (ms.bytes ++ [RBRACE])

def PackedItems.bytes : PackedItems → List UInt8
  | .last v => v.bytes
  | .cons v es => v.bytes ++ COMMA :: es.bytes

def PackedMembers.bytes : PackedMembers → List UInt8
  | .last key v => key.quoted ++ COLON :: v.bytes
  | .cons key v ms => key.quoted ++ COLON :: (v.bytes ++ COMMA :: ms.bytes)

end

def Packed.type : Packed → JsonType
  | .null => .null
  | .bool _ => .bool
  | .num _ => .number
  | .str _ => .string
  | .emptyArr | .arr _ => .array
  | .emptyObj | .obj _ => .object

/-- The value is no number with a fraction or an exponent. Numbers inside it do not count. -/
def Packed.whole : Packed → Bool
  | .num n => n.whole
  | _ => true

/-- The value of the first member with the raw key `key`. -/
def PackedMembers.find (key : List UInt8) : PackedMembers → Option Packed
  | .last k v => if k.bytes = key then some v else none
  | .cons k v ms => if k.bytes = key then some v else ms.find key

def Packed.member (key : List UInt8) : Packed → Option Packed
  | .obj ms => ms.find key
  | _ => none

/-- The value is a string of these raw bytes. -/
def Packed.reads (text : List UInt8) : Packed → Bool
  | .str s => s.bytes == text
  | _ => false

def PackedItems.has (text : List UInt8) : PackedItems → Bool
  | .last v => v.reads text
  | .cons v es => v.reads text || es.has text

/-- The value is an array, and the string is one of its elements. -/
def Packed.has (text : List UInt8) : Packed → Bool
  | .arr es => es.has text
  | _ => false

/-- What `parse_value` makes of a value at the offset `p`. -/
def Packed.parsed (p : Nat) (v : Packed) : JsonValue :=
  let taken : JsonValue :=
    match v with
    | .bool b => { JsonValue.zero with boolean := b }
    | .num n => { JsonValue.zero with number := clamp64 n.integer.value }
    | .str s => { JsonValue.zero with string := ⟨p + 1, s.bytes⟩ }
    | _ => JsonValue.zero
  { taken with type := v.type, raw := ⟨p, v.bytes⟩ }

/-! ## Skipping a number -/

section Numbers

variable {rest : List UInt8}

theorem skipDigits_stop (p : Nat) (ds : List (Fin 10))
    (h : ∀ b, rest.head? = some b → isDigit b = false) :
    skipDigits ⟨p, ds.map digitByte ++ rest⟩ = ⟨p + ds.length, rest⟩ := by
  unfold skipDigits
  rw [takeWhile_append_stop isDigit_of_mem h, advance_append, List.length_map]

theorem length_digits (ds : Digits) : ds.bytes.length = ds.val.length := by
  unfold Digits.bytes
  rw [List.length_map]

/-- A letter of an exponent is no digit and no point. -/
theorem letter_other {b : UInt8} (h : isExp b = true) : isDigit b = false ∧ b ≠ DOT := by
  unfold isExp at h
  rw [Bool.or_eq_true, beq_iff_eq, beq_iff_eq] at h
  rcases h with rfl | rfl <;> decide

/-- What comes after the digits of an integer, or of a fraction. -/
theorem exponent_head (e : Option Exponent) (h : Delim rest) :
    ∀ b, (exponentBytes e ++ rest).head? = some b → isDigit b = false ∧ b ≠ DOT := by
  intro b hb
  cases e with
  | none =>
    obtain ⟨hdigit, hother⟩ := delim_number h hb
    rw [Bool.or_eq_false_iff, beq_eq_false_iff_ne] at hother
    exact ⟨hdigit, hother.1⟩
  | some e =>
    cases hb
    exact letter_other e.isLetter

theorem fraction_head (f : Option Digits) (e : Option Exponent) (h : Delim rest) :
    ∀ b, (fractionBytes f ++ (exponentBytes e ++ rest)).head? = some b → isDigit b = false := by
  intro b hb
  cases f with
  | none => exact (exponent_head e h b hb).1
  | some ds =>
    cases hb
    decide

theorem skipFraction_packed (p : Nat) (f : Option Digits)
    (h : ∀ b, rest.head? = some b → isDigit b = false ∧ b ≠ DOT) :
    skipFraction ⟨p, fractionBytes f ++ rest⟩ = ⟨p + (fractionBytes f).length, rest⟩ := by
  unfold skipFraction
  cases f with
  | none =>
    have hdot : rest.head? ≠ some DOT := fun hb => (h DOT hb).2 rfl
    exact if_neg hdot
  | some ds =>
    have hskip := skipDigits_stop (p + 1) ds.val (fun b hb => (h b hb).1)
    simp only [fractionBytes, List.cons_append, List.head?_cons, if_true, advance_cons,
      List.length_cons, length_digits]
    rw [Digits.bytes, hskip]
    congr 1
    omega

theorem digit_unsigned (d : Fin 10) : (digitByte d == PLUS || digitByte d == MINUS) = false := by
  revert d
  decide

theorem skipIf_signOf (p : Nat) (e : Exponent) (rest : List UInt8) :
    skipIf (fun b => b == PLUS || b == MINUS) ⟨p, e.sign ++ (e.digits.bytes ++ rest)⟩ =
      ⟨p + e.sign.length, e.digits.bytes ++ rest⟩ := by
  rcases e.isSign with hsign | hsign | hsign
  · obtain ⟨ds, hds⟩ := e.digits
    cases ds with
    | nil => exact absurd rfl hds
    | cons d ds =>
      rw [hsign]
      exact if_neg (ne_true_of_eq_false (digit_unsigned d))
  · rw [hsign]
    rfl
  · rw [hsign]
    rfl

theorem skipExponent_packed (p : Nat) (e : Option Exponent) (h : Delim rest) :
    skipExponent ⟨p, exponentBytes e ++ rest⟩ = ⟨p + (exponentBytes e).length, rest⟩ := by
  unfold skipExponent
  cases e with
  | none =>
    have hexp : ¬(rest.head?.map isExp).getD false = true := by
      intro htest
      obtain ⟨b, hb, hletter⟩ := head_of_test htest
      have hother := (delim_number h hb).2
      rw [hletter, Bool.or_true] at hother
      cases hother
    exact if_neg hexp
  | some e =>
    have hskip := skipDigits_stop (p + 1 + e.sign.length) e.digits.val
      (fun b hb => (delim_number h hb).1)
    simp only [exponentBytes, List.cons_append, List.append_assoc, List.head?_cons,
      Option.map_some, Option.getD_some, e.isLetter, if_true, advance_cons, skipIf_signOf]
    rw [Digits.bytes, hskip]
    simp only [List.length_cons, List.length_append, List.length_map]
    congr 1
    omega

/-- `skip_number` goes over the fraction and the exponent. -/
theorem skipNumber_packed (p : Nat) (n : Number) (h : Delim rest) :
    skipNumber ⟨p, n.bytes ++ rest⟩ = .ok ⟨p + n.bytes.length, rest⟩ := by
  have hdigits := skipDigits_stop (p + if n.integer.negative then 1 else 0) n.integer.digits
    (fraction_head n.fraction n.exponent h)
  rw [skipNumber_parts]
  simp only [Number.bytes, List.append_assoc, skipIf_sign, head_digits, if_true, hdigits,
    skipFraction_packed _ _ (exponent_head n.exponent h), skipExponent_packed _ _ h]
  simp only [List.length_append, length_intLit]
  congr 2
  omega

theorem whole_bytes {n : Number} (h : n.whole = true) : n.bytes = n.integer.bytes := by
  unfold Number.whole at h
  rw [Bool.and_eq_true, Option.isNone_iff_eq_none, Option.isNone_iff_eq_none] at h
  unfold Number.bytes
  rw [h.1, h.2]
  exact List.append_nil _

/-- The byte after the digits of a number that has a fraction or an exponent. -/
theorem broken_head {n : Number} (h : n.whole = false) (rest : List UInt8) :
    ∃ b, (fractionBytes n.fraction ++ (exponentBytes n.exponent ++ rest)).head? = some b ∧
      (b == DOT || isExp b) = true := by
  obtain ⟨integer, fraction, exponent⟩ := n
  cases fraction with
  | some ds => exact ⟨DOT, rfl, rfl⟩
  | none =>
    cases exponent with
    | none => cases h
    | some e => exact ⟨e.letter, rfl, by rw [e.isLetter, Bool.or_true]⟩

/-- `parse_number` takes an integer, and refuses any other number. -/
theorem parseNumber_packed (p : Nat) (n : Number) (h : Delim rest) :
    parseNumber ⟨p, n.bytes ++ rest⟩ =
      if n.whole then .ok (clamp64 n.integer.value, ⟨p + n.bytes.length, rest⟩)
      else .error EAF_INVALID := by
  by_cases hwhole : n.whole = true
  · rw [if_pos hwhole, whole_bytes hwhole]
    exact parseNumber_int p n.integer h
  · rw [if_neg hwhole]
    have hdigits := skipDigits_stop (p + if n.integer.negative then 1 else 0) n.integer.digits
      (fraction_head n.fraction n.exponent h)
    obtain ⟨b, hb, hend⟩ := broken_head (Bool.eq_false_of_not_eq_true hwhole) rest
    unfold parseNumber
    simp only [Number.bytes, List.append_assoc, skipIf_sign, head_digits, if_true, hdigits, hb,
      Option.map_some, Option.getD_some, hend]

end Numbers

/-! ## Skipping a value -/

/-- The first byte of a value, by what the reader does with it. -/
def Packed.opens (v : Packed) (b : UInt8) : Prop :=
  match v with
  | .null => b = 0x6E
  | .bool true => b = 0x74
  | .bool false => b = 0x66
  | .num _ => b = MINUS ∨ isDigit b = true
  | .str _ => b = QUOTE
  | .emptyArr | .arr _ => b = LBRACKET
  | .emptyObj | .obj _ => b = LBRACE

theorem packed_cons (v : Packed) : ∃ b tail, v.bytes = b :: tail ∧ v.opens b := by
  cases v with
  | bool b => cases b <;> exact ⟨_, _, rfl, rfl⟩
  | num n =>
    unfold Packed.bytes Number.bytes IntLit.bytes Packed.opens
    cases n.integer.negative with
    | true => exact ⟨MINUS, _, rfl, .inl rfl⟩
    | false =>
      cases hd : n.integer.digits with
      | nil => exact absurd hd n.integer.nonempty
      | cons d ds => exact ⟨digitByte d, _, rfl, .inr (isDigit_digitByte d)⟩
  | _ => exact ⟨_, _, rfl, rfl⟩

/-- No value starts with whitespace, or with a bracket that closes. -/
theorem opens_packed {v : Packed} {b : UInt8} (h : v.opens b) :
    isWs b = false ∧ b ≠ RBRACE ∧ b ≠ RBRACKET := by
  cases v with
  | num n => exact ⟨(number_first h).1, (number_first h).2.2.2.1, (number_first h).2.2.2.2.1⟩
  | bool b' => cases b' <;> cases h <;> decide
  | _ => cases h; decide

/-- The first byte tells an object, an array and a string from every other value. -/
theorem opens_type {v : Packed} {b : UInt8} (h : v.opens b) :
    (b = LBRACE ↔ v.type = .object) ∧ (b = LBRACKET ↔ v.type = .array) ∧
      (b = QUOTE ↔ v.type = .string) := by
  cases v with
  | num n =>
    obtain ⟨_, hbrace, hbracket, _, _, hquote, -⟩ := number_first h
    exact ⟨iff_of_false hbrace nofun, iff_of_false hbracket nofun, iff_of_false hquote nofun⟩
  | bool b' => cases b' <;> cases h <;> decide
  | _ =>
    cases h
    simp only [Packed.type]
    decide

theorem skipWs_packed (p : Nat) (v : Packed) (rest : List UInt8) :
    skipWs ⟨p, v.bytes ++ rest⟩ = ⟨p, v.bytes ++ rest⟩ := by
  obtain ⟨b, tail, hb, hopen⟩ := packed_cons v
  rw [hb]
  exact skipWs_cons p (tail ++ rest) (opens_packed hopen).1

theorem items_cons (es : PackedItems) (rest : List UInt8) :
    ∃ v b tail, es.bytes ++ rest = b :: tail ∧ Packed.opens v b := by
  cases es with
  | last v =>
    obtain ⟨b, tail, hb, hopen⟩ := packed_cons v
    exact ⟨v, b, tail ++ rest, by rw [PackedItems.bytes, hb, List.cons_append], hopen⟩
  | cons v es =>
    obtain ⟨b, tail, hb, hopen⟩ := packed_cons v
    refine ⟨v, b, tail ++ COMMA :: es.bytes ++ rest, ?_, hopen⟩
    rw [PackedItems.bytes, hb, List.cons_append, List.cons_append]

theorem members_cons (ms : PackedMembers) (rest : List UInt8) :
    ∃ tail, ms.bytes ++ rest = QUOTE :: tail := by
  cases ms with
  | last key v => exact ⟨_, rfl⟩
  | cons key v ms => exact ⟨_, rfl⟩

theorem separator_comma_at (close : UInt8) (p : Nat) (rest : List UInt8) :
    separator close ⟨p, COMMA :: rest⟩ = .ok (.more ⟨p + 1, rest⟩) :=
  separator_comma close p .none rest

theorem separator_close_at {close : UInt8} (hclose : close = RBRACE ∨ close = RBRACKET) (p : Nat)
    (rest : List UInt8) : separator close ⟨p, close :: rest⟩ = .ok (.close ⟨p + 1, rest⟩) :=
  separator_close hclose p .none rest

theorem scanKey_packed (p : Nat) (key : Text) (rest : List UInt8) :
    scanKey ⟨p, key.quoted ++ COLON :: rest⟩ =
      .ok (key.bytes, ⟨p + key.quoted.length + 1, rest⟩) :=
  scanKey_head p ⟨.none, key, .none, .none⟩ rest

theorem skipMembersIn_key (bound p : Nat) (key : Text) (rest : List UInt8) :
    skipMembersIn (bound + 1) ⟨p, key.quoted ++ COLON :: rest⟩ = (do
      let c ← skipValueIn bound ⟨p + key.quoted.length + 1, rest⟩
      match ← separator RBRACE c with
      | .more c => skipMembersIn bound c
      | .close c => .ok c) :=
  skipMembersIn_member bound p ⟨.none, key, .none, .none⟩ rest

mutual

/-- A value is skipped as far as it goes. -/
theorem skipValueIn_packed : ∀ (v : Packed) (bound p : Nat) (rest : List UInt8),
    3 * v.bytes.length + 3 ≤ bound → Delim rest →
    skipValueIn bound ⟨p, v.bytes ++ rest⟩ = .ok ⟨p + v.bytes.length, rest⟩
  | v, 0, p, rest, hbound, hrest => by omega
  | .null, bound + 1, p, rest, hbound, hrest => by
    rw [skipValueIn]
    simp only [skipWs_packed]
    exact matchLiteral_append (ascii "null") p rest
  | .bool true, bound + 1, p, rest, hbound, hrest => by
    rw [skipValueIn]
    simp only [skipWs_packed]
    exact matchLiteral_append (ascii "true") p rest
  | .bool false, bound + 1, p, rest, hbound, hrest => by
    rw [skipValueIn]
    simp only [skipWs_packed]
    exact matchLiteral_append (ascii "false") p rest
  | .num n, bound + 1, p, rest, hbound, hrest => by
    obtain ⟨b, tail, hb, hopen⟩ := packed_cons (.num n)
    obtain ⟨_, h1, h2, _, _, h3, h4, h5, h6⟩ := number_first hopen
    have hskip := skipNumber_packed p n hrest
    have hbn : n.bytes = b :: tail := hb
    rw [skipValueIn]
    simp only [skipWs_packed]
    rw [hbn] at hskip
    simpa only [Packed.bytes, hbn, List.cons_append, h1, h2, h3, h4, h5, h6, if_false] using hskip
  | .str s, bound + 1, p, rest, hbound, hrest => by
    rw [skipValueIn]
    simp only [skipWs_packed]
    exact congrArg (Except.map Prod.snd) (scanString_text p s rest)
  | .emptyArr, bound + 1, p, rest, hbound, hrest => by
    obtain ⟨bound, rfl⟩ : ∃ n, bound = n + 1 := ⟨bound - 1, by omega⟩
    rw [skipValueIn]
    simp only [skipWs_packed]
    rfl
  | .arr es, bound + 1, p, rest, hbound, hrest => by
    have hlen : (Packed.arr es).bytes.length = es.bytes.length + 2 := by simp [Packed.bytes]
    obtain ⟨bound, rfl⟩ : ∃ n, bound = n + 1 := ⟨bound - 1, by omega⟩
    have ih := skipElementsIn_packed es bound (p + 1) rest (by omega)
    obtain ⟨v, b, tail, htail, hopen⟩ := items_cons es (RBRACKET :: rest)
    obtain ⟨hws, -, hne⟩ := opens_packed hopen
    rw [skipValueIn]
    simp only [skipWs_packed]
    show skipArrayIn (bound + 1) _ = _
    rw [skipArrayIn]
    simp only [Packed.bytes, List.cons_append, List.append_assoc, List.nil_append, advance_cons]
    rw [htail] at ih ⊢
    rw [skipWs_cons _ _ hws, if_neg (by simpa using hne), ih]
    simp only [List.length_cons, List.length_append, List.length_nil]
    congr 2
    omega
  | .emptyObj, bound + 1, p, rest, hbound, hrest => by
    obtain ⟨bound, rfl⟩ : ∃ n, bound = n + 1 := ⟨bound - 1, by omega⟩
    rw [skipValueIn]
    simp only [skipWs_packed]
    rfl
  | .obj ms, bound + 1, p, rest, hbound, hrest => by
    have hlen : (Packed.obj ms).bytes.length = ms.bytes.length + 2 := by simp [Packed.bytes]
    obtain ⟨bound, rfl⟩ : ∃ n, bound = n + 1 := ⟨bound - 1, by omega⟩
    have ih := skipMembersIn_packed ms bound (p + 1) rest (by omega)
    obtain ⟨tail, htail⟩ := members_cons ms (RBRACE :: rest)
    have hne : (QUOTE :: tail).head? ≠ some RBRACE := by
      rw [List.head?_cons]
      decide
    rw [skipValueIn]
    simp only [skipWs_packed]
    show skipObjectIn (bound + 1) _ = _
    rw [skipObjectIn]
    simp only [Packed.bytes, List.cons_append, List.append_assoc, List.nil_append, advance_cons]
    rw [htail] at ih ⊢
    rw [skipWs_cons _ _ (by decide), if_neg hne, ih]
    simp only [List.length_cons, List.length_append, List.length_nil]
    congr 2
    omega

/-- The elements of an array, and its bracket. -/
theorem skipElementsIn_packed : ∀ (es : PackedItems) (bound p : Nat) (rest : List UInt8),
    3 * es.bytes.length + 4 ≤ bound →
    skipElementsIn bound ⟨p, es.bytes ++ RBRACKET :: rest⟩ = .ok ⟨p + es.bytes.length + 1, rest⟩
  | es, 0, p, rest, hbound => by omega
  | .last v, bound + 1, p, rest, hbound => by
    have hlen : (PackedItems.last v).bytes.length = v.bytes.length := rfl
    have ih := skipValueIn_packed v bound p (RBRACKET :: rest) (by omega) (delim_cons _ (by decide))
    rw [skipElementsIn, PackedItems.bytes]
    simp only [ih, bind, Except.bind, separator_close_at (.inr rfl)]
  | .cons v es, bound + 1, p, rest, hbound => by
    have hlen : (PackedItems.cons v es).bytes.length = v.bytes.length + (es.bytes.length + 1) := by
      simp [PackedItems.bytes]
    have ihv := skipValueIn_packed v bound p (COMMA :: (es.bytes ++ RBRACKET :: rest)) (by omega)
      (delim_cons _ (by decide))
    have ihs := skipElementsIn_packed es bound (p + v.bytes.length + 1) rest (by omega)
    rw [skipElementsIn, hlen, PackedItems.bytes]
    simp only [List.append_assoc, List.cons_append, ihv, bind, Except.bind, separator_comma_at, ihs]
    congr 2
    omega

/-- The members of an object, and its brace. -/
theorem skipMembersIn_packed : ∀ (ms : PackedMembers) (bound p : Nat) (rest : List UInt8),
    3 * ms.bytes.length + 1 ≤ bound →
    skipMembersIn bound ⟨p, ms.bytes ++ RBRACE :: rest⟩ = .ok ⟨p + ms.bytes.length + 1, rest⟩
  | ms, 0, p, rest, hbound => by omega
  | .last key v, bound + 1, p, rest, hbound => by
    have hlen : (PackedMembers.last key v).bytes.length =
        key.quoted.length + (v.bytes.length + 1) := by
      simp [PackedMembers.bytes]
    have hq : 2 ≤ key.quoted.length := by simp [Text.quoted]
    have ih := skipValueIn_packed v bound (p + key.quoted.length + 1) (RBRACE :: rest) (by omega)
      (delim_cons _ (by decide))
    rw [hlen, PackedMembers.bytes]
    simp only [List.append_assoc, List.cons_append, skipMembersIn_key, ih, bind, Except.bind,
      separator_close_at (.inl rfl)]
    congr 2
    omega
  | .cons key v ms, bound + 1, p, rest, hbound => by
    have hlen : (PackedMembers.cons key v ms).bytes.length =
        key.quoted.length + (v.bytes.length + (ms.bytes.length + 1) + 1) := by
      simp [PackedMembers.bytes]
    have hq : 2 ≤ key.quoted.length := by simp [Text.quoted]
    have ihv := skipValueIn_packed v bound (p + key.quoted.length + 1)
      (COMMA :: (ms.bytes ++ RBRACE :: rest)) (by omega) (delim_cons _ (by decide))
    have ihs := skipMembersIn_packed ms bound (p + key.quoted.length + 1 + v.bytes.length + 1) rest
      (by omega)
    rw [hlen, PackedMembers.bytes]
    simp only [List.append_assoc, List.cons_append, skipMembersIn_key, ihv, bind, Except.bind,
      separator_comma_at, ihs]
    congr 2
    omega

end

/-- `skip_value` steps over every value. -/
theorem skipValue_packed (v : Packed) (p : Nat) {rest : List UInt8} (h : Delim rest) :
    skipValue ⟨p, v.bytes ++ rest⟩ = .ok ⟨p + v.bytes.length, rest⟩ := by
  apply skipValueIn_packed v _ p rest _ h
  unfold Span.bound
  rw [List.length_append]
  omega

/-! ## Parsing a value -/

section Values

variable {v : Packed} {rest : List UInt8}

theorem skipObject_packed (hv : v.type = .object) (p : Nat) (h : Delim rest) :
    skipObject ⟨p, v.bytes ++ rest⟩ = .ok ⟨p + v.bytes.length, rest⟩ := by
  have hskip := skipValue_packed v p h
  obtain ⟨b, tail, hb, hopen⟩ := packed_cons v
  have hbrace : b = LBRACE := (opens_type hopen).1.mpr hv
  have hfirst : (skipWs ⟨p, v.bytes ++ rest⟩).bytes = b :: (tail ++ rest) := by
    rw [skipWs_packed, hb, List.cons_append]
  rw [skipValue_cases hfirst, if_pos hbrace, skipWs_packed] at hskip
  exact hskip

theorem skipArray_packed (hv : v.type = .array) (p : Nat) (h : Delim rest) :
    skipArray ⟨p, v.bytes ++ rest⟩ = .ok ⟨p + v.bytes.length, rest⟩ := by
  have hskip := skipValue_packed v p h
  obtain ⟨b, tail, hb, hopen⟩ := packed_cons v
  have hbracket : b = LBRACKET := (opens_type hopen).2.1.mpr hv
  have hfirst : (skipWs ⟨p, v.bytes ++ rest⟩).bytes = b :: (tail ++ rest) := by
    rw [skipWs_packed, hb, List.cons_append]
  rw [skipValue_cases hfirst, if_neg (by rw [hbracket]; decide), if_pos hbracket,
    skipWs_packed] at hskip
  exact hskip

/-- `parse_value` takes every value but a number with a fraction or an exponent. -/
theorem parseValue_packed (v : Packed) (p : Nat) (h : Delim rest) :
    parseValue ⟨p, v.bytes ++ rest⟩ =
      if v.whole then .ok (v.parsed p, ⟨p + v.bytes.length, rest⟩) else .error EAF_INVALID := by
  have hup := upTo_append p v.bytes.length v.bytes rest rest rfl
  unfold parseValue
  simp only [skipWs_packed]
  cases v with
  | null =>
    have hliteral := matchLiteral_append (ascii "null") p rest
    have hraw : Span.upTo ⟨p, Packed.null.bytes ++ rest⟩
        (Span.advance ⟨p, Packed.null.bytes ++ rest⟩ (ascii "null").length) =
        ⟨p, Packed.null.bytes⟩ := upTo_advance p (ascii "null") rest
    refine (congrArg (Except.map _) hliteral).trans ?_
    simp only [Except.map, hraw]
    rfl
  | bool b =>
    cases b with
    | true =>
      have hliteral := matchLiteral_append (ascii "true") p rest
      have hraw : Span.upTo ⟨p, (Packed.bool true).bytes ++ rest⟩
          (Span.advance ⟨p, (Packed.bool true).bytes ++ rest⟩ (ascii "true").length) =
          ⟨p, (Packed.bool true).bytes⟩ := upTo_advance p (ascii "true") rest
      refine (congrArg (Except.map _) hliteral).trans ?_
      simp only [Except.map, hraw]
      rfl
    | false =>
      have hliteral := matchLiteral_append (ascii "false") p rest
      have hraw : Span.upTo ⟨p, (Packed.bool false).bytes ++ rest⟩
          (Span.advance ⟨p, (Packed.bool false).bytes ++ rest⟩ (ascii "false").length) =
          ⟨p, (Packed.bool false).bytes⟩ := upTo_advance p (ascii "false") rest
      refine (congrArg (Except.map _) hliteral).trans ?_
      simp only [Except.map, hraw]
      rfl
  | num n =>
    obtain ⟨b, tail, hb, hopen⟩ := packed_cons (.num n)
    obtain ⟨_, h1, h2, _, _, h3, h4, h5, h6⟩ := number_first hopen
    have hbn : n.bytes = b :: tail := hb
    have hwhole : (Packed.num n).whole = n.whole := rfl
    have hnumber := parseNumber_packed p n h
    simp only [Packed.bytes] at hup ⊢
    rw [hwhole]
    rw [hbn] at hnumber hup ⊢
    simp only [List.cons_append, h1, h2, h3, h4, h5, h6, if_false] at hnumber hup ⊢
    rw [hnumber]
    by_cases hinteger : n.whole = true
    · rw [if_pos hinteger, if_pos hinteger]
      simp only [Except.map, hup, Packed.parsed, Packed.bytes, hbn]
      rfl
    · rw [if_neg hinteger, if_neg hinteger]
      rfl
  | str s =>
    refine (congrArg (Except.map _) (scanString_text p s rest)).trans ?_
    have hraw : Span.upTo ⟨p, s.quoted ++ rest⟩ ⟨p + s.quoted.length, rest⟩ = ⟨p, s.quoted⟩ := hup
    simp only [Except.map, Packed.bytes, hraw]
    rfl
  | emptyArr =>
    have hskip := skipArray_packed (v := .emptyArr) rfl p h
    show (skipArray ⟨p, Packed.emptyArr.bytes ++ rest⟩).map (fun after => (JsonValue.mk .array false 0
      ⟨0, []⟩ (Span.upTo ⟨p, Packed.emptyArr.bytes ++ rest⟩ after), after)) = _
    rw [hskip]
    simp only [Except.map, hup]
    rfl
  | arr es =>
    have hskip := skipArray_packed (v := .arr es) rfl p h
    refine (congrArg (Except.map _) hskip).trans ?_
    simp only [Except.map, hup]
    rfl
  | emptyObj =>
    have hskip := skipObject_packed (v := .emptyObj) rfl p h
    show (skipObject ⟨p, Packed.emptyObj.bytes ++ rest⟩).map (fun after => (JsonValue.mk .object false 0
      ⟨0, []⟩ (Span.upTo ⟨p, Packed.emptyObj.bytes ++ rest⟩ after), after)) = _
    rw [hskip]
    simp only [Except.map, hup]
    rfl
  | obj ms =>
    have hskip := skipObject_packed (v := .obj ms) rfl p h
    refine (congrArg (Except.map _) hskip).trans ?_
    simp only [Except.map, hup]
    rfl

/-! ## The search for a string -/

theorem takeElement_packed (text : List UInt8) (member : Bool) (v : Packed) (p : Nat)
    (h : Delim rest) :
    takeElement text member ⟨p, v.bytes ++ rest⟩ =
      (member || v.reads text, .ok ⟨p + v.bytes.length, rest⟩) := by
  obtain ⟨b, tail, hb, hopen⟩ := packed_cons v
  have hskip := skipValue_packed v p h
  have hother : b ≠ QUOTE → takeElement text member ⟨p, v.bytes ++ rest⟩ =
      (member || false, .ok ⟨p + v.bytes.length, rest⟩) := by
    intro hne
    unfold takeElement
    rw [if_neg, hskip, Bool.or_false]
    rw [hb, List.cons_append, List.head?_cons, Option.some.injEq]
    exact hne
  cases v with
  | str s =>
    have hquote : ((Packed.str s).bytes ++ rest).head? = some QUOTE := rfl
    unfold takeElement
    rw [if_pos hquote, Packed.bytes, scanString_text]
    rfl
  | _ => exact hother ((opens_type hopen).2.2.not.mpr nofun)

theorem membershipIn_packed (text : List UInt8) : ∀ (es : PackedItems) (bound p : Nat)
    (member : Bool) (rest : List UInt8), es.bytes.length < bound →
    membershipIn text bound member ⟨p, es.bytes ++ RBRACKET :: rest⟩ =
      (member || es.has text, .ok ⟨p + es.bytes.length + 1, rest⟩)
  | es, 0, p, member, rest, hbound => by omega
  | .last v, bound + 1, p, member, rest, hbound => by
    rw [membershipIn, PackedItems.bytes, skipWs_packed,
      takeElement_packed text member v p (delim_cons rest (by decide))]
    simp only [Except.bind, separator_close_at (.inr rfl)]
    rfl
  | .cons v es, bound + 1, p, member, rest, hbound => by
    have hlen : (PackedItems.cons v es).bytes.length = v.bytes.length + (es.bytes.length + 1) := by
      simp [PackedItems.bytes]
    have ih := membershipIn_packed text es bound (p + v.bytes.length + 1) (member || v.reads text)
      rest (by omega)
    rw [membershipIn, hlen, PackedItems.bytes, List.append_assoc, skipWs_packed, List.cons_append,
      takeElement_packed text member v p (delim_cons _ (by decide))]
    simp only [Except.bind, separator_comma_at, ih, PackedItems.has, Bool.or_assoc]
    congr 3
    omega

/-- `parse_array_membership` goes over any value, and finds what is an element of it. -/
theorem parseArrayMembership_packed (text : List UInt8) (member : Bool) (v : Packed) (p : Nat)
    (h : Delim rest) :
    parseArrayMembership text member ⟨p, v.bytes ++ rest⟩ =
      (v.type == .array && (member || v.has text), .ok ⟨p + v.bytes.length, rest⟩) := by
  obtain ⟨b, tail, hb, hopen⟩ := packed_cons v
  have hskip := skipValue_packed v p h
  have hother : b ≠ LBRACKET → parseArrayMembership text member ⟨p, v.bytes ++ rest⟩ =
      (false, .ok ⟨p + v.bytes.length, rest⟩) := by
    intro hne
    unfold parseArrayMembership
    rw [skipWs_packed]
    simp only
    rw [if_neg, hskip]
    rw [hb, List.cons_append, List.head?_cons, Option.some.injEq]
    exact hne
  cases v with
  | emptyArr =>
    unfold parseArrayMembership
    rw [skipWs_packed]
    exact Prod.ext (Bool.or_false member).symm rfl
  | arr es =>
    obtain ⟨w, b', tail', htail, hopen'⟩ := items_cons es (RBRACKET :: rest)
    obtain ⟨hws, -, hne⟩ := opens_packed hopen'
    have hsearch := membershipIn_packed text es
      (Span.bound ⟨p + 1, es.bytes ++ RBRACKET :: rest⟩) (p + 1) member rest
      (by simp only [Span.bound, List.length_append]; omega)
    unfold parseArrayMembership
    rw [skipWs_packed]
    simp only [Packed.bytes, List.cons_append, List.append_assoc, List.nil_append, List.head?_cons,
      if_true, advance_cons]
    rw [htail] at hsearch ⊢
    rw [skipWs_cons _ _ hws, if_neg (by simpa using hne), hsearch]
    simp only [List.length_cons, List.length_append, List.length_nil]
    congr 3
    omega
  | _ => exact hother ((opens_type hopen).2.1.not.mpr fun htype => by cases htype)

/-- What has elements is an array. -/
theorem has_array (text : List UInt8) (v : Packed) :
    (v.type == .array && v.has text) = v.has text := by
  cases v <;> rfl

/-- A number has no elements. -/
theorem has_whole {text : List UInt8} (h : v.whole = false) : v.has text = false := by
  cases v with
  | num n => rfl
  | _ => cases h

theorem jsonArrayContains_packed (text : List UInt8) (v : Packed) (p : Nat) :
    jsonArrayContains (v.parsed p) text = v.has text := by
  have hdelim : Delim [] := nofun
  have hsearch := parseArrayMembership_packed text false v p hdelim
  rw [List.append_nil] at hsearch
  unfold jsonArrayContains
  change (v.type == JsonType.array && (parseArrayMembership text false ⟨p, v.bytes⟩).1) = _
  rw [hsearch, Bool.false_or, has_array, has_array]

end Values

end EmbeddedAudio.Sendspin
