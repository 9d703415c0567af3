-- What the raw bytes of a JSON string say: a backslash begins an escape, a \u
-- escape is a code unit of UTF-16, and any other byte is itself.
import EmbeddedAudio.SendspinCodecs

namespace EmbeddedAudio.Sendspin

/-! ## Reading the escapes -/

/-- A byte, or a code unit that a \u escape names. -/
inductive StringToken where
  | byte (b : UInt8)
  | unit (n : Nat)
  deriving DecidableEq, Repr

def hexValue (b : UInt8) : Option Nat :=
  if isDigit b then some (b.toNat - 0x30)
  else if 0x41 ≤ b ∧ b ≤ 0x46 then some (b.toNat - 0x37)
  else if 0x61 ≤ b ∧ b ≤ 0x66 then some (b.toNat - 0x57)
  else none

def codeUnit (a b c d : UInt8) : Option Nat := do
  let a ← hexValue a
  let b ← hexValue b
  let c ← hexValue c
  let d ← hexValue d
  return a * 4096 + b * 256 + c * 16 + d

/-- What a backslash and one character stand for. -/
def shortEscape (b : UInt8) : Option UInt8 :=
  if b = QUOTE ∨ b = BACKSLASH ∨ b = 0x2F then some b
  else if b = 0x62 then some 0x08
  else if b = 0x66 then some 0x0C
  else if b = 0x6E then some 0x0A
  else if b = 0x72 then some 0x0D
  else if b = 0x74 then some 0x09
  else none

/-- A byte that is not escaped. -/
def unescapedByte (b : UInt8) : Option StringToken :=
  if plainByte b then some (.byte b) else none

/-- The characters of a string, one for each escape. -/
def stringTokens : List UInt8 → Option (List StringToken)
  | [] => some []
  | [b] => (unescapedByte b).map ([·])
  | b :: e :: rest =>
    if b ≠ BACKSLASH then do
      let token ← unescapedByte b
      let tokens ← stringTokens (e :: rest)
      return token :: tokens
    else if e ≠ 0x75 then do
      let escaped ← shortEscape e
      let tokens ← stringTokens rest
      return .byte escaped :: tokens
    else
      match rest with
      | a :: b :: c :: d :: rest => do
        let unit ← codeUnit a b c d
        let tokens ← stringTokens rest
        return .unit unit :: tokens
      | _ => none

/-- A code point as UTF-8. -/
def utf8Bytes (n : Nat) : List UInt8 := String.utf8EncodeChar (Char.ofNat n)

/-- The bytes of the characters. Two surrogates are one code point, and one alone is none. -/
def tokenBytes : List StringToken → Option (List UInt8)
  | [] => some []
  | .byte b :: tokens => (tokenBytes tokens).map (b :: ·)
  | .unit n :: tokens =>
    if n < 0xD800 ∨ 0xE000 ≤ n then (tokenBytes tokens).map (utf8Bytes n ++ ·)
    else if 0xDC00 ≤ n then none
    else
      match tokens with
      | .unit low :: tokens =>
        if 0xDC00 ≤ low ∧ low < 0xE000 then
          (tokenBytes tokens).map
            (utf8Bytes (0x10000 + (n - 0xD800) * 0x400 + (low - 0xDC00)) ++ ·)
        else none
      | _ => none

/-- What a string says, if its bytes are a JSON string. -/
def unescape (raw : List UInt8) : Option (List UInt8) := (stringTokens raw).bind tokenBytes

example : unescape (ascii "a\\\"\\u0041\\uD834\\uDD1E") = some (ascii "a\"A𝄞") := by decide

/-! ## Escaping and back -/

/-- The bytes that `wr_json_string` writes for `b` are one character, and it says `b`. -/
structure Spells (b : UInt8) (token : StringToken) : Prop where
  read : ∀ rest, stringTokens (escapeByte b ++ rest) = (stringTokens rest).map (token :: ·)
  meant : ∀ tokens, tokenBytes (token :: tokens) = (tokenBytes tokens).map (b :: ·)

theorem stringTokens_short {e c : UInt8} (he : e ≠ 0x75) (h : shortEscape e = some c)
    (rest : List UInt8) :
    stringTokens (BACKSLASH :: e :: rest) = (stringTokens rest).map (.byte c :: ·) := by
  rw [stringTokens.eq_def]
  simp only
  rw [if_neg (by decide), if_pos he, h]
  cases stringTokens rest <;> rfl

theorem stringTokens_plain {b : UInt8} (h : plainByte b = true) (rest : List UInt8) :
    stringTokens (b :: rest) = (stringTokens rest).map (.byte b :: ·) := by
  have hb : b ≠ BACKSLASH := by
    rintro rfl
    cases h
  cases rest with
  | nil => simp [stringTokens, unescapedByte, h]
  | cons e rest =>
    rw [stringTokens.eq_def]
    simp only
    rw [if_pos hb]
    simp only [unescapedByte, h, if_true]
    cases stringTokens (e :: rest) <;> rfl

/-- A control character is spelled by its number. -/
theorem codeUnit_control : ∀ n < 32,
    codeUnit 0x30 0x30 (hexDigit (n / 16)) (hexDigit (n % 16)) = some n ∧
      utf8Bytes n = [n.toUInt8] := by
  decide

theorem spells_control {b : UInt8} (h : b < 0x20)
    (hescape : escapeByte b = ascii "\\u00" ++ [hexDigit (b.toNat / 16), hexDigit (b.toNat % 16)]) :
    Spells b (.unit b.toNat) := by
  have hlow : b.toNat < 32 := h
  obtain ⟨hunit, hutf⟩ := codeUnit_control b.toNat hlow
  refine ⟨?_, ?_⟩
  · intro rest
    have hbytes : ascii "\\u00" = [BACKSLASH, 0x75, 0x30, 0x30] := by decide
    rw [hescape, hbytes]
    simp only [List.cons_append, List.nil_append]
    rw [stringTokens.eq_def]
    simp only
    rw [if_neg (by decide), if_neg (by decide), hunit]
    cases stringTokens rest <;> rfl
  · intro tokens
    have hself : b.toNat.toUInt8 = b := by simp
    rw [tokenBytes.eq_def]
    simp only
    rw [if_pos (.inl (by omega)), hutf, hself]
    rfl

theorem spells_short {b e : UInt8} (he : e ≠ 0x75) (h : shortEscape e = some b)
    (hescape : escapeByte b = [BACKSLASH, e]) : Spells b (.byte b) :=
  ⟨fun rest => by rw [hescape]; exact stringTokens_short he h rest, fun _ => rfl⟩

/-- The bytes that `wr_json_string` escapes with one character. -/
def shortBytes : List UInt8 := [QUOTE, BACKSLASH, 0x08, 0x0C, 0x0A, 0x0D, 0x09]

theorem escapeByte_short {b : UInt8} (h : b ∈ shortBytes) :
    ∃ e, e ≠ 0x75 ∧ shortEscape e = some b ∧ escapeByte b = [BACKSLASH, e] := by
  simp only [shortBytes, List.mem_cons, List.not_mem_nil, or_false] at h
  rcases h with rfl | rfl | rfl | rfl | rfl | rfl | rfl
  · exact ⟨QUOTE, by decide, rfl, rfl⟩
  · exact ⟨BACKSLASH, by decide, rfl, rfl⟩
  · exact ⟨0x62, by decide, rfl, rfl⟩
  · exact ⟨0x66, by decide, rfl, rfl⟩
  · exact ⟨0x6E, by decide, rfl, rfl⟩
  · exact ⟨0x72, by decide, rfl, rfl⟩
  · exact ⟨0x74, by decide, rfl, rfl⟩

theorem escapeByte_control {b : UInt8} (hshort : b ∉ shortBytes)
    (h : b < 0x20) : escapeByte b =
      ascii "\\u00" ++ [hexDigit (b.toNat / 16), hexDigit (b.toNat % 16)] := by
  simp only [shortBytes, List.mem_cons, List.not_mem_nil, or_false, not_or] at hshort
  obtain ⟨h1, h2, h3, h4, h5, h6, h7⟩ := hshort
  unfold escapeByte
  rw [if_neg h1, if_neg h2, if_neg h3, if_neg h4, if_neg h5, if_neg h6, if_neg h7, if_pos h]

theorem escapeByte_spells (b : UInt8) : ∃ token, Spells b token := by
  by_cases hshort : b ∈ shortBytes
  · obtain ⟨e, he, hmeant, hescape⟩ := escapeByte_short hshort
    exact ⟨_, spells_short he hmeant hescape⟩
  by_cases hcontrol : b < 0x20
  · exact ⟨_, spells_control hcontrol (escapeByte_control hshort hcontrol)⟩
  · have hplain : plainByte b = true := by
      have hquote : b ≠ QUOTE := by
        rintro rfl
        exact hshort (by decide)
      have hslash : b ≠ BACKSLASH := by
        rintro rfl
        exact hshort (by decide)
      simpa [plainByte, hquote, hslash] using hcontrol
    refine ⟨.byte b, ⟨fun rest => ?_, fun _ => rfl⟩⟩
    rw [escapeByte_plain hplain]
    exact stringTokens_plain hplain rest

/-- A string that was escaped says what it was before, whatever its bytes are. -/
theorem unescape_escape (text : List UInt8) : unescape (text.flatMap escapeByte) = some text := by
  suffices h : ∃ tokens, stringTokens (text.flatMap escapeByte) = some tokens ∧
      tokenBytes tokens = some text by
    obtain ⟨tokens, hread, hsays⟩ := h
    rw [unescape, hread]
    exact hsays
  induction text with
  | nil => exact ⟨[], rfl, rfl⟩
  | cons b text ih =>
    obtain ⟨tokens, hread, hsays⟩ := ih
    obtain ⟨token, hspells⟩ := escapeByte_spells b
    refine ⟨token :: tokens, ?_, ?_⟩
    · rw [List.flatMap_cons, hspells.read, hread]
      rfl
    · rw [hspells.meant, hsays]
      rfl

end EmbeddedAudio.Sendspin
