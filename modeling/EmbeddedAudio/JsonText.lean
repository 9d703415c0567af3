-- JSON texts by their grammar: a value with the whitespace between its tokens,
-- so a document is a tree and its bytes are what the tree is written as. The
-- numbers are integers.
import EmbeddedAudio.JsonReader
import Mathlib.Data.Fin.Basic

namespace EmbeddedAudio.Sendspin

/-! ## Tokens -/

/-- Insignificant whitespace between two tokens. -/
structure Gap where
  bytes : List UInt8
  ws : ∀ b ∈ bytes, isWs b = true

def Gap.none : Gap := ⟨[], by simp⟩

def isHex (b : UInt8) : Bool :=
  isDigit b || (0x41 ≤ b && b ≤ 0x46) || (0x61 ≤ b && b ≤ 0x66)

/-- A character between the quotes of a string. -/
inductive StringChar where
  | plain (b : UInt8) (h : 0x20 ≤ b ∧ b ≠ QUOTE ∧ b ≠ BACKSLASH)
  | escape (b : UInt8) (h : b ∈ ascii "\"\\/bfnrt")
  | unicode (a b c d : UInt8) (h : isHex a ∧ isHex b ∧ isHex c ∧ isHex d)

def StringChar.bytes : StringChar → List UInt8
  | .plain b _ => [b]
  | .escape b _ => [BACKSLASH, b]
  | .unicode a b c d _ => [BACKSLASH, 0x75, a, b, c, d]

abbrev Text := List StringChar

/-- The raw bytes of a string, without its quotes. -/
def Text.bytes (t : Text) : List UInt8 := List.flatMap StringChar.bytes t

/-- An integer with no digit before a leading zero. -/
structure IntLit where
  negative : Bool
  digits : List (Fin 10)
  nonempty : digits ≠ []
  canonical : digits.head? = some 0 → digits.length = 1

def digitByte (d : Fin 10) : UInt8 := 0x30 + d.val.toUInt8

def IntLit.bytes (n : IntLit) : List UInt8 :=
  (if n.negative then [MINUS] else []) ++ n.digits.map digitByte

def IntLit.value (n : IntLit) : Int :=
  let m : Nat := n.digits.foldl (fun m d => m * 10 + d.val) 0
  if n.negative then -m else m

/-- The signed 64-bit number nearest to an integer. -/
def clamp64 (v : Int) : Int := max INT64_MIN (min INT64_MAX v)

/-! ## Values -/

/-- What comes before the value of a member. -/
structure Head where
  lead : Gap
  key : Text
  beforeColon : Gap
  afterColon : Gap

mutual

inductive Json where
  | null
  | bool (b : Bool)
  | num (n : IntLit)
  | str (s : Text)
  | emptyArr (inside : Gap)
  | arr (es : Elements)
  | emptyObj (inside : Gap)
  | obj (ms : Members)

inductive Elements where
  | last (lead : Gap) (v : Json) (trail : Gap)
  | cons (lead : Gap) (v : Json) (trail : Gap) (es : Elements)

inductive Members where
  | last (head : Head) (v : Json) (trail : Gap)
  | cons (head : Head) (v : Json) (trail : Gap) (ms : Members)

end

/-- The bytes of a string with its quotes. -/
def Text.quoted (t : Text) : List UInt8 := QUOTE :: (t.bytes ++ [QUOTE])

def Head.bytes (h : Head) : List UInt8 :=
  h.lead.bytes ++ (h.key.quoted ++ (h.beforeColon.bytes ++ COLON :: h.afterColon.bytes))

mutual

def Json.bytes : Json → List UInt8
  | .null => ascii "null"
  | .bool b => if b then ascii "true" else ascii "false"
  | .num n => n.bytes
  | .str s => s.quoted
  | .emptyArr inside => LBRACKET :: (inside.bytes ++ [RBRACKET])
  | .arr es => LBRACKET :: (es.bytes ++ [RBRACKET])
  | .emptyObj inside => LBRACE :: (inside.bytes ++ [RBRACE])
  | .obj ms => LBRACE :: (ms.bytes ++ [RBRACE])

def Elements.bytes : Elements → List UInt8
  | .last lead v trail => lead.bytes ++ (v.bytes ++ trail.bytes)
  | .cons lead v trail es => lead.bytes ++ (v.bytes ++ (trail.bytes ++ COMMA :: es.bytes))

def Members.bytes : Members → List UInt8
  | .last head v trail => head.bytes ++ (v.bytes ++ trail.bytes)
  | .cons head v trail ms => head.bytes ++ (v.bytes ++ (trail.bytes ++ COMMA :: ms.bytes))

end

/-! ## The same text with no whitespace -/

def Head.compact (h : Head) : Head := ⟨.none, h.key, .none, .none⟩

mutual

def Json.compact : Json → Json
  | .null => .null
  | .bool b => .bool b
  | .num n => .num n
  | .str s => .str s
  | .emptyArr _ => .emptyArr .none
  | .arr es => .arr es.compact
  | .emptyObj _ => .emptyObj .none
  | .obj ms => .obj ms.compact

def Elements.compact : Elements → Elements
  | .last _ v _ => .last .none v.compact .none
  | .cons _ v _ es => .cons .none v.compact .none es.compact

def Members.compact : Members → Members
  | .last head v _ => .last head.compact v.compact .none
  | .cons head v _ ms => .cons head.compact v.compact .none ms.compact

end

/-! ## Whitespace after a comma -/

/-- The whitespace before the first key. -/
def Members.lead : Members → Gap
  | .last head _ _ => head.lead
  | .cons head _ _ _ => head.lead

mutual

/-- No comma of an object has whitespace after it, here and inside. -/
def Json.tight : Json → Bool
  | .arr es => es.tight
  | .obj ms => ms.tight
  | _ => true

def Elements.tight : Elements → Bool
  | .last _ v _ => v.tight
  | .cons _ v _ es => v.tight && es.tight

def Members.tight : Members → Bool
  | .last _ v _ => v.tight
  | .cons _ v _ ms => v.tight && (ms.lead.bytes.isEmpty && ms.tight)

end

/-- The values of the members are tight; the commas between the members do not count. -/
def Members.valuesTight : Members → Bool
  | .last _ v _ => v.tight
  | .cons _ v _ ms => v.tight && ms.valuesTight

def Json.valuesTight : Json → Bool
  | .obj ms => ms.valuesTight
  | _ => true

/-! ## Look-up -/

def Json.type : Json → JsonType
  | .null => .null
  | .bool _ => .bool
  | .num _ => .number
  | .str _ => .string
  | .emptyArr _ | .arr _ => .array
  | .emptyObj _ | .obj _ => .object

/-- The value of the first member with the raw key `key`. -/
def Members.find (key : List UInt8) : Members → Option Json
  | .last head v _ => if head.key.bytes = key then some v else none
  | .cons head v _ ms => if head.key.bytes = key then some v else ms.find key

def Json.member (key : List UInt8) : Json → Option Json
  | .obj ms => ms.find key
  | _ => none

/-- The value at the end of a path. -/
def Json.lookup : List (List UInt8) → Json → Option Json
  | [], v => some v
  | key :: path, v => (v.member key).bind (Json.lookup path)

/-- Every value that the path goes through is an object. -/
def Json.ObjectsOn : List (List UInt8) → Json → Prop
  | [], _ => True
  | key :: path, v => v.type = .object ∧ ∀ m, v.member key = some m → Json.ObjectsOn path m

/-! ## Documents -/

structure Doc where
  lead : Gap
  root : Json
  trail : Gap
  isObject : root.type = .object

def Doc.bytes (d : Doc) : List UInt8 := d.lead.bytes ++ (d.root.bytes ++ d.trail.bytes)

/-- The message that a document is, as a cursor at its first byte. -/
def Doc.span (d : Doc) : Span := ⟨0, d.bytes⟩

@[simp] theorem type_compact (v : Json) : v.compact.type = v.type := by
  cases v <;> simp [Json.compact, Json.type]

/-- The document with the whitespace taken out. -/
def Doc.compact (d : Doc) : Doc :=
  ⟨.none, d.root.compact, .none, by rw [type_compact, d.isObject]⟩

/-- No object inside the document has whitespace directly after a comma between its members.
The commas of the document's own object do not count. -/
def Doc.Snug (d : Doc) : Prop := d.root.valuesTight = true

mutual

theorem tight_compact : ∀ v : Json, v.compact.tight = true
  | .null | .bool _ | .num _ | .str _ | .emptyArr _ | .emptyObj _ => by
    simp [Json.compact, Json.tight]
  | .arr es => by simpa only [Json.compact, Json.tight] using tight_compact_elements es
  | .obj ms => by simpa only [Json.compact, Json.tight] using tight_compact_members ms

theorem tight_compact_elements : ∀ es : Elements, es.compact.tight = true
  | .last _ v _ => by simpa only [Elements.compact, Elements.tight] using tight_compact v
  | .cons _ v _ es => by
    simp only [Elements.compact, Elements.tight, tight_compact v, tight_compact_elements es,
      Bool.and_self]

theorem tight_compact_members : ∀ ms : Members, ms.compact.tight = true
  | .last _ v _ => by simpa only [Members.compact, Members.tight] using tight_compact v
  | .cons _ v _ ms => by
    have hlead : ms.compact.lead.bytes = [] := by
      cases ms <;> simp [Members.compact, Members.lead, Head.compact, Gap.none]
    simp only [Members.compact, Members.tight, tight_compact v, tight_compact_members ms, hlead,
      List.isEmpty_nil, Bool.and_self]

end

theorem valuesTight_members : ∀ ms : Members, ms.tight = true → ms.valuesTight = true
  | .last _ _ _, h => by simpa only [Members.tight, Members.valuesTight] using h
  | .cons _ _ _ ms, h => by
    simp only [Members.tight, Bool.and_eq_true] at h
    simp only [Members.valuesTight, Bool.and_eq_true]
    exact ⟨h.1, valuesTight_members ms h.2.2⟩

theorem valuesTight_of_tight {v : Json} (h : v.tight = true) : v.valuesTight = true := by
  cases v with
  | obj ms => exact valuesTight_members ms h
  | _ => rfl

/-- A document with no whitespace has none after a comma. -/
theorem snug_compact (d : Doc) : d.compact.Snug := valuesTight_of_tight (tight_compact d.root)

theorem find_compact (key : List UInt8) : ∀ ms : Members,
    ms.compact.find key = (ms.find key).map Json.compact
  | .last head v _ => by
    simp only [Members.compact, Members.find, Head.compact]
    split <;> rfl
  | .cons head v _ ms => by
    simp only [Members.compact, Members.find, Head.compact, find_compact key ms]
    split <;> rfl

end EmbeddedAudio.Sendspin
