-- The JSON reader of the Sendspin client (sendspin_protocol.c): a cursor over
-- the bytes of a message, the functions that skip and parse one value, and the
-- look-up of a dotted path.
import EmbeddedAudio.Results

namespace EmbeddedAudio.Sendspin

/-! ## Cursors -/

/-- Bytes of a message, with their offset in it. It is a view (the pointer and the length of
a value) and also a cursor (the bytes from the pointer up to the end). -/
structure Span where
  start : Nat
  bytes : List UInt8
  deriving DecidableEq, Repr, Inhabited

namespace Span

def advance (c : Span) (n : Nat) : Span := ⟨c.start + n, c.bytes.drop n⟩

/-- The view from one cursor to a later one. -/
def upTo (c later : Span) : Span := ⟨c.start, c.bytes.take (later.start - c.start)⟩

end Span

abbrev QUOTE : UInt8 := 0x22
abbrev BACKSLASH : UInt8 := 0x5C
abbrev COMMA : UInt8 := 0x2C
abbrev COLON : UInt8 := 0x3A
abbrev DOT : UInt8 := 0x2E
abbrev MINUS : UInt8 := 0x2D
abbrev PLUS : UInt8 := 0x2B
abbrev LBRACE : UInt8 := 0x7B
abbrev RBRACE : UInt8 := 0x7D
abbrev LBRACKET : UInt8 := 0x5B
abbrev RBRACKET : UInt8 := 0x5D

def isWs (b : UInt8) : Bool := b == 0x20 || b == 0x09 || b == 0x0A || b == 0x0D

def isDigit (b : UInt8) : Bool := 0x30 ≤ b && b ≤ 0x39

/-- The `e` or `E` of an exponent. -/
def isExp (b : UInt8) : Bool := b == 0x65 || b == 0x45

/-- `skip_ws`. -/
def skipWs (c : Span) : Span := c.advance (c.bytes.takeWhile isWs).length

/-- The same loop over digits. -/
def skipDigits (c : Span) : Span := c.advance (c.bytes.takeWhile isDigit).length

/-- Steps over one byte if it satisfies `p`. -/
def skipIf (p : UInt8 → Bool) (c : Span) : Span :=
  match c.bytes with
  | b :: _ => if p b then c.advance 1 else c
  | [] => c

/-- The cursor has to be at the byte `b`, and steps over it. -/
def expect (b : UInt8) (c : Span) : Except Rc Span :=
  if c.bytes.head? = some b then .ok (c.advance 1) else .error EAF_INVALID

/-! ## Strings, literals and numbers -/

/-- The loop of `scan_string`: how many bytes come before the closing quote. A backslash
takes the byte after it along. -/
def stringLength : List UInt8 → Option Nat
  | [] => none
  | [b] => if b = QUOTE then some 0 else none
  | b :: b' :: rest =>
    if b = BACKSLASH then (stringLength rest).map (· + 2)
    else if b = QUOTE then some 0
    else (stringLength (b' :: rest)).map (· + 1)

/-- `scan_string`. Gives the raw bytes between the quotes. -/
def scanString (c : Span) : Except Rc (Span × Span) := do
  let c ← expect QUOTE c
  match stringLength c.bytes with
  | none => .error EAF_INVALID
  | some n => .ok (⟨c.start, c.bytes.take n⟩, c.advance (n + 1))

/-- `match_literal`. -/
def matchLiteral (literal : List UInt8) (c : Span) : Except Rc Span :=
  if literal.isPrefixOf c.bytes then .ok (c.advance literal.length) else .error EAF_INVALID

/-- `skip_number`. -/
def skipNumber (c : Span) : Except Rc Span :=
  let c := skipIf (· == MINUS) c
  if (c.bytes.head?.map isDigit).getD false then
    let c := skipDigits c
    let c := if c.bytes.head? = some DOT then skipDigits (c.advance 1) else c
    if (c.bytes.head?.map isExp).getD false then
      .ok (skipDigits (skipIf (fun b => b == PLUS || b == MINUS) (c.advance 1)))
    else .ok c
  else .error EAF_INVALID

abbrev UINT64_MAX : Nat := 18446744073709551615
abbrev INT64_MAX : Nat := 9223372036854775807
abbrev INT64_MIN : Int := -9223372036854775808

/-- The digit loop of `parse_number`: the magnitude so far, and whether it has overflowed. -/
def magnitude (acc : Nat × Bool) (b : UInt8) : Nat × Bool :=
  let digit := b.toNat - 0x30
  if acc.2 then acc
  else if acc.1 > (UINT64_MAX - digit) / 10 then (acc.1, true)
  else (acc.1 * 10 + digit, false)

/-- `parse_number`: an integer, clamped to the signed 64 bits. -/
def parseNumber (c : Span) : Except Rc (Int × Span) :=
  let negative := c.bytes.head? == some MINUS
  let p := skipIf (· == MINUS) c
  if (p.bytes.head?.map isDigit).getD false then
    let (m, overflow) := (p.bytes.takeWhile isDigit).foldl magnitude (0, false)
    let p := skipDigits p
    if (p.bytes.head?.map fun b => b == DOT || isExp b).getD false then .error EAF_INVALID
    else if negative then
      .ok (if overflow ∨ m > INT64_MAX + 1 then INT64_MIN else -(m : Int), p)
    else
      .ok (if overflow ∨ m > INT64_MAX then (INT64_MAX : Int) else m, p)
  else .error EAF_INVALID

/-! ## Skipping a value -/

/-- What comes after a value in a list of them: another one, or the end. -/
inductive Next where
  | more (c : Span)
  | close (c : Span)

/-- The end of a loop over members or elements. -/
def separator (close : UInt8) (c : Span) : Except Rc Next :=
  let c := skipWs c
  match c.bytes with
  | [] => .error EAF_INVALID
  | b :: _ =>
    if b = COMMA then .ok (.more (c.advance 1))
    else if b = close then .ok (.close (c.advance 1))
    else .error EAF_INVALID

/- The bound goes down by one with each call. A call on `n` bytes needs `3 * n + 3` of it
at most (`skipValue_bound`), so with `Span.bound` it is never reached. -/
mutual

/-- `skip_value`. -/
def skipValueIn : Nat → Span → Except Rc Span
  | 0, _ => .error EAF_INVALID
  | bound + 1, c =>
    let c := skipWs c
    match c.bytes with
    | [] => .error EAF_INVALID
    | b :: _ =>
      if b = LBRACE then skipObjectIn bound c
      else if b = LBRACKET then skipArrayIn bound c
      else if b = QUOTE then (scanString c).map Prod.snd
      else if b = 0x74 then matchLiteral (ascii "true") c
      else if b = 0x66 then matchLiteral (ascii "false") c
      else if b = 0x6E then matchLiteral (ascii "null") c
      else skipNumber c

/-- `skip_object`, from its brace on. -/
def skipObjectIn : Nat → Span → Except Rc Span
  | 0, _ => .error EAF_INVALID
  | bound + 1, c =>
    let c := skipWs (c.advance 1)
    if c.bytes.head? = some RBRACE then .ok (c.advance 1) else skipMembersIn bound c

/-- The loop of `skip_object`. It does not skip whitespace before a key. -/
def skipMembersIn : Nat → Span → Except Rc Span
  | 0, _ => .error EAF_INVALID
  | bound + 1, c => do
    let (_, c) ← scanString c
    let c ← expect COLON (skipWs c)
    let c ← skipValueIn bound c
    match ← separator RBRACE c with
    | .more c => skipMembersIn bound c
    | .close c => .ok c

/-- `skip_array`, from its bracket on. -/
def skipArrayIn : Nat → Span → Except Rc Span
  | 0, _ => .error EAF_INVALID
  | bound + 1, c =>
    let c := skipWs (c.advance 1)
    if c.bytes.head? = some RBRACKET then .ok (c.advance 1) else skipElementsIn bound c

/-- The loop of `skip_array`. -/
def skipElementsIn : Nat → Span → Except Rc Span
  | 0, _ => .error EAF_INVALID
  | bound + 1, c => do
    let c ← skipValueIn bound c
    match ← separator RBRACKET c with
    | .more c => skipElementsIn bound c
    | .close c => .ok c

end

/-- Enough for every call on the bytes of a cursor. -/
def Span.bound (c : Span) : Nat := 3 * c.bytes.length + 3

def skipValue (c : Span) : Except Rc Span := skipValueIn c.bound c

def skipObject (c : Span) : Except Rc Span := skipObjectIn c.bound c

def skipArray (c : Span) : Except Rc Span := skipArrayIn c.bound c

/-! ## Parsing a value -/

inductive JsonType where
  | null
  | bool
  | number
  | string
  | array
  | object
  deriving DecidableEq, Repr, Inhabited

/-- `eaf_sendspin_json_value_t`. The number is a signed 64-bit one. -/
structure JsonValue where
  type : JsonType
  boolean : Bool
  number : Int
  string : Span
  raw : Span
  deriving DecidableEq, Repr, Inhabited

/-- The value of a `memset` to zero. -/
def JsonValue.zero : JsonValue := ⟨.null, false, 0, ⟨0, []⟩, ⟨0, []⟩⟩

/-- `parse_value`. -/
def parseValue (c : Span) : Except Rc (JsonValue × Span) :=
  let c := skipWs c
  let taken (v : JsonValue) (after : Span) : JsonValue × Span :=
    ({ v with raw := c.upTo after }, after)
  match c.bytes with
  | [] => .error EAF_INVALID
  | b :: _ =>
    if b = LBRACE then (skipObject c).map (taken { JsonValue.zero with type := .object })
    else if b = LBRACKET then (skipArray c).map (taken { JsonValue.zero with type := .array })
    else if b = QUOTE then
      (scanString c).map fun r => taken { JsonValue.zero with type := .string, string := r.1 } r.2
    else if b = 0x74 then
      (matchLiteral (ascii "true") c).map
        (taken { JsonValue.zero with type := .bool, boolean := true })
    else if b = 0x66 then
      (matchLiteral (ascii "false") c).map (taken { JsonValue.zero with type := .bool })
    else if b = 0x6E then (matchLiteral (ascii "null") c).map (taken JsonValue.zero)
    else
      (parseNumber c).map fun r => taken { JsonValue.zero with type := .number, number := r.1 } r.2

/-- One element in the loop of `parse_array_membership`: a string is compared with the
needle, and anything else is skipped. -/
def takeElement (needle : List UInt8) (member : Bool) (c : Span) : Bool × Except Rc Span :=
  if c.bytes.head? = some QUOTE then
    match scanString c with
    | .error rc => (member, .error rc)
    | .ok (element, c) => (member || element.bytes == needle, .ok c)
  else (member, skipValue c)

/-- The loop of `parse_array_membership`. The flag is there also where the loop fails. -/
def membershipIn (needle : List UInt8) : Nat → Bool → Span → Bool × Except Rc Span
  | 0, member, _ => (member, .error EAF_INVALID)
  | bound + 1, member, c =>
    let (member, after) := takeElement needle member (skipWs c)
    match after.bind (separator RBRACKET) with
    | .error rc => (member, .error rc)
    | .ok (.more c) => membershipIn needle bound member c
    | .ok (.close c) => (member, .ok c)

/-- `parse_array_membership`: whether an array has the string `needle`. -/
def parseArrayMembership (needle : List UInt8) (member : Bool) (c : Span) :
    Bool × Except Rc Span :=
  let c := skipWs c
  if c.bytes.head? = some LBRACKET then
    let c := skipWs (c.advance 1)
    if c.bytes.head? = some RBRACKET then (member, .ok (c.advance 1))
    else membershipIn needle c.bound member c
  else (false, skipValue c)

/-! ## The fields of an object -/

/-- `json_field_t`. With a needle the field is a membership test, else it takes the value. -/
structure JsonField where
  key : List UInt8
  needle : Option (List UInt8)
  value : JsonValue
  member : Bool
  found : Bool
  deriving DecidableEq, Repr, Inhabited

/-- A field that takes a value. `scan_fields` clears the value before its loop. -/
def valueField (key : String) : JsonField := ⟨ascii key, none, JsonValue.zero, false, false⟩

def memberField (key needle : String) : JsonField :=
  ⟨ascii key, some (ascii needle), JsonValue.zero, false, false⟩

/-- Whether a field still waits for this key. -/
def JsonField.wants (key : List UInt8) (f : JsonField) : Bool := !f.found && f.key == key

/-- The value of a member goes to the field that wants it. -/
def JsonField.take (c : Span) (f : JsonField) : Except Rc (JsonField × Span) :=
  match f.needle with
  | some needle =>
    let (member, after) := parseArrayMembership needle f.member c
    after.map ({ f with found := true, member := member }, ·)
  | none => (parseValue c).map fun r => ({ f with found := true, value := r.1 }, r.2)

/-- The value of the member `key` goes to the first field that wants it, or is skipped. -/
def takeField (key : List UInt8) (c : Span) : List JsonField → Except Rc (List JsonField × Span)
  | [] => (skipValue c).map ([], ·)
  | f :: fields =>
    if f.wants key then (f.take c).map fun r => (r.1 :: fields, r.2)
    else (takeField key c fields).map fun r => (f :: r.1, r.2)

/-- The key of a member and the colon after it. -/
def scanKey (c : Span) : Except Rc (List UInt8 × Span) := do
  let (key, c) ← scanString c
  let c ← expect COLON (skipWs c)
  return (key.bytes, c)

/-- The loop of `scan_fields`. -/
def scanFieldsIn : Nat → List JsonField → Span → Except Rc (List JsonField × Span)
  | 0, _, _ => .error EAF_INVALID
  | bound + 1, fields, c =>
    let c := skipWs c
    if c.bytes.head? = some RBRACE then .ok (fields, c.advance 1)
    else do
      let (key, c) ← scanKey c
      let (fields, c) ← takeField key c fields
      match ← separator RBRACE c with
      | .more c => scanFieldsIn bound fields c
      | .close c => .ok (fields, c)

/-- `scan_fields`: one pass over an object fills the fields. -/
def scanFields (fields : List JsonField) (c : Span) : Except Rc (List JsonField × Span) := do
  let c ← expect LBRACE (skipWs c)
  scanFieldsIn c.bound fields c

/-! ## Look-up of a path -/

/-- The loop of `descend`. -/
def descendIn (segment : List UInt8) (leaf : Bool) : Nat → Span → Except Rc (JsonValue × Span)
  | 0, _ => .error EAF_INVALID
  | bound + 1, c =>
    let c := skipWs c
    if c.bytes.head? = some RBRACE then .error EAF_UNSUPPORTED
    else do
      let (key, c) ← scanKey c
      if key = segment then if leaf then parseValue c else .ok (JsonValue.zero, c)
      else
        let c ← skipValue c
        match ← separator RBRACE c with
        | .more c => descendIn segment leaf bound c
        | .close _ => .error EAF_UNSUPPORTED

/-- `descend`: to the value of the first member with the key `segment`. -/
def descend (segment : List UInt8) (leaf : Bool) (c : Span) : Except Rc (JsonValue × Span) := do
  let c ← expect LBRACE (skipWs c)
  descendIn segment leaf c.bound c

/-- The segments of a dotted path. -/
def segments : List UInt8 → List (List UInt8)
  | [] => [[]]
  | b :: path =>
    if b = DOT then [] :: segments path
    else
      match segments path with
      | [] => [[b]]
      | s :: rest => (b :: s) :: rest

/-- The loop of `eaf_sendspin_json_get`. -/
def descendAll : List (List UInt8) → Span → Except Rc JsonValue
  | [], _ => .error EAF_INVALID
  | [segment], c => (descend segment true c).map Prod.fst
  | segment :: rest, c => do
    let (_, c) ← descend segment false c
    descendAll rest c

/-- `eaf_sendspin_json_get`. -/
def jsonGet (json : Span) (path : List UInt8) : Except Rc JsonValue :=
  if path = [] then .error EAF_INVALID else descendAll (segments path) json

/-- `eaf_sendspin_json_array_contains`. -/
def jsonArrayContains (array : JsonValue) (needle : List UInt8) : Bool :=
  array.type == .array && (parseArrayMembership needle false array.raw).1

/-- `eaf_sendspin_json_string_equals`. -/
def jsonStringEquals (value : JsonValue) (text : String) : Bool :=
  value.type == .string && value.string.bytes == ascii text

end EmbeddedAudio.Sendspin
