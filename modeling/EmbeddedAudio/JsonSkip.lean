-- How the reader skips over a text: each scanner on the bytes that the grammar
-- gives, up to the three loops over values, members and elements. A nested
-- object with whitespace after a comma is the one thing that is refused.
import EmbeddedAudio.JsonText
import Mathlib.Data.List.Induction

namespace EmbeddedAudio.Sendspin

/-! ## Cursors and whitespace -/

theorem advance_append (p : Nat) (xs rest : List UInt8) :
    Span.advance ⟨p, xs ++ rest⟩ xs.length = ⟨p + xs.length, rest⟩ := by
  simp [Span.advance]

@[simp] theorem advance_cons (p : Nat) (b : UInt8) (rest : List UInt8) :
    Span.advance ⟨p, b :: rest⟩ 1 = ⟨p + 1, rest⟩ := rfl

@[simp] theorem expect_cons (p : Nat) (b : UInt8) (rest : List UInt8) :
    expect b ⟨p, b :: rest⟩ = .ok ⟨p + 1, rest⟩ := by
  simp [expect]

theorem takeWhile_append_stop {p : UInt8 → Bool} {xs rest : List UInt8} (hxs : ∀ b ∈ xs, p b = true)
    (hrest : ∀ b, rest.head? = some b → p b = false) : (xs ++ rest).takeWhile p = xs := by
  rw [List.takeWhile_append_of_pos hxs]
  rcases rest with _ | ⟨b, rest⟩
  · simp
  · simp [hrest b rfl]

/-- Whitespace is skipped up to a byte that is not. -/
theorem skipWs_gap (p : Nat) (g : Gap) {rest : List UInt8}
    (h : ∀ b, rest.head? = some b → isWs b = false) :
    skipWs ⟨p, g.bytes ++ rest⟩ = ⟨p + g.bytes.length, rest⟩ := by
  unfold skipWs
  rw [takeWhile_append_stop g.ws h]
  exact advance_append p g.bytes rest

theorem skipWs_cons (p : Nat) {b : UInt8} (rest : List UInt8) (h : isWs b = false) :
    skipWs ⟨p, b :: rest⟩ = ⟨p, b :: rest⟩ := by
  simp [skipWs, h, Span.advance]

/-- What can come after a value. -/
def Delim (rest : List UInt8) : Prop :=
  ∀ b, rest.head? = some b → isWs b = true ∨ b = COMMA ∨ b = RBRACE ∨ b = RBRACKET

theorem delim_cons {b : UInt8} (rest : List UInt8)
    (h : isWs b = true ∨ b = COMMA ∨ b = RBRACE ∨ b = RBRACKET) : Delim (b :: rest) := by
  intro b' hb
  cases hb
  exact h

theorem delim_gap (g : Gap) {rest : List UInt8} (h : Delim rest) : Delim (g.bytes ++ rest) := by
  rcases hg : g.bytes with _ | ⟨b, bs⟩
  · exact h
  · exact delim_cons _ (.inl (g.ws b (by simp [hg])))

theorem isWs_cases {b : UInt8} (h : isWs b = true) : b = 0x20 ∨ b = 0x09 ∨ b = 0x0A ∨ b = 0x0D := by
  simpa [isWs, or_assoc] using h

/-- No digit, point or exponent comes after a value. -/
theorem delim_number {rest : List UInt8} (h : Delim rest) {b : UInt8} (hb : rest.head? = some b) :
    isDigit b = false ∧ (b == DOT || isExp b) = false := by
  rcases h b hb with hw | rfl | rfl | rfl
  · rcases isWs_cases hw with rfl | rfl | rfl | rfl <;> decide
  all_goals decide

/-! ## Strings -/

theorem stringLength_plain {b : UInt8} (rest : List UInt8) (hq : b ≠ QUOTE) (hb : b ≠ BACKSLASH) :
    stringLength (b :: rest) = (stringLength rest).map (· + 1) := by
  rcases rest with _ | ⟨b', rest⟩
  · simp [stringLength, hq]
  · simp [stringLength, hq, hb]

theorem stringLength_escape (b : UInt8) (rest : List UInt8) :
    stringLength (BACKSLASH :: b :: rest) = (stringLength rest).map (· + 2) := by
  simp [stringLength]

theorem stringLength_quote (rest : List UInt8) : stringLength (QUOTE :: rest) = some 0 := by
  rcases rest with _ | ⟨b, rest⟩
  · simp [stringLength]
  · simp [stringLength, show QUOTE ≠ BACKSLASH by decide]

theorem isHex_plain {b : UInt8} (h : isHex b = true) : b ≠ QUOTE ∧ b ≠ BACKSLASH := by
  constructor <;> rintro rfl <;> exact absurd h (by decide)

theorem stringLength_char (ch : StringChar) (rest : List UInt8) :
    stringLength (ch.bytes ++ rest) = (stringLength rest).map (· + ch.bytes.length) := by
  cases ch with
  | plain b h => exact stringLength_plain rest h.2.1 h.2.2
  | escape b h => exact stringLength_escape b rest
  | unicode a b c d h =>
    obtain ⟨ha, hb, hc, hd⟩ := h
    simp only [StringChar.bytes, List.cons_append, List.nil_append, stringLength_escape,
      stringLength_plain _ (isHex_plain ha).1 (isHex_plain ha).2,
      stringLength_plain _ (isHex_plain hb).1 (isHex_plain hb).2,
      stringLength_plain _ (isHex_plain hc).1 (isHex_plain hc).2,
      stringLength_plain _ (isHex_plain hd).1 (isHex_plain hd).2, Option.map_map]
    rfl

theorem stringLength_text (t : Text) (rest : List UInt8) :
    stringLength (t.bytes ++ QUOTE :: rest) = some t.bytes.length := by
  induction t with
  | nil => exact stringLength_quote rest
  | cons ch t ih =>
    have hbytes : Text.bytes (ch :: t) = ch.bytes ++ Text.bytes t := rfl
    rw [hbytes, List.append_assoc, stringLength_char, ih, Option.map_some, List.length_append,
      Nat.add_comm]

theorem scanString_text (p : Nat) (t : Text) (rest : List UInt8) :
    scanString ⟨p, t.quoted ++ rest⟩ =
      .ok (⟨p + 1, t.bytes⟩, ⟨p + t.quoted.length, rest⟩) := by
  have hlen : t.quoted.length = t.bytes.length + 2 := by simp [Text.quoted]
  have hadv := advance_append (p + 1) (t.bytes ++ [QUOTE]) rest
  simp only [List.append_assoc, List.singleton_append, List.length_append, List.length_singleton]
    at hadv
  unfold scanString Text.quoted
  simp only [List.cons_append, List.append_assoc, List.nil_append, expect_cons, bind, Except.bind,
    stringLength_text, List.take_left, hadv]
  simp only [List.length_cons, List.length_append, List.length_nil]
  rw [show p + 1 + (t.bytes.length + 1) = p + (t.bytes.length + (0 + 1) + 1) by omega]

/-- A cursor at another byte than a quote is at no string. -/
theorem scanString_error (p : Nat) {b : UInt8} (rest : List UInt8) (h : b ≠ QUOTE) :
    scanString ⟨p, b :: rest⟩ = .error EAF_INVALID := by
  simp [scanString, expect, h, bind, Except.bind]

theorem matchLiteral_append (literal : List UInt8) (p : Nat) (rest : List UInt8) :
    matchLiteral literal ⟨p, literal ++ rest⟩ = .ok ⟨p + literal.length, rest⟩ := by
  unfold matchLiteral
  rw [if_pos (by simp), advance_append]

/-! ## Numbers -/

theorem isDigit_digitByte (d : Fin 10) : isDigit (digitByte d) = true := by
  revert d
  decide

theorem digitByte_ne_minus (d : Fin 10) : digitByte d ≠ MINUS := by
  revert d
  decide

theorem isDigit_of_mem {ds : List (Fin 10)} : ∀ b ∈ ds.map digitByte, isDigit b = true := by
  intro b hb
  obtain ⟨d, _, rfl⟩ := List.mem_map.mp hb
  exact isDigit_digitByte d

theorem takeWhile_digits (ds : List (Fin 10)) {rest : List UInt8} (h : Delim rest) :
    (ds.map digitByte ++ rest).takeWhile isDigit = ds.map digitByte :=
  takeWhile_append_stop isDigit_of_mem fun _ hb => (delim_number h hb).1

theorem skipDigits_digits (p : Nat) (ds : List (Fin 10)) {rest : List UInt8} (h : Delim rest) :
    skipDigits ⟨p, ds.map digitByte ++ rest⟩ = ⟨p + ds.length, rest⟩ := by
  unfold skipDigits
  rw [takeWhile_digits ds h, advance_append, List.length_map]

/-- The cursor after the sign of an integer. -/
theorem skipIf_sign (p : Nat) (n : IntLit) (rest : List UInt8) :
    skipIf (· == MINUS) ⟨p, n.bytes ++ rest⟩ =
      ⟨p + (if n.negative then 1 else 0), n.digits.map digitByte ++ rest⟩ := by
  unfold IntLit.bytes
  rcases n.negative with _ | _
  · rcases hd : n.digits with _ | ⟨d, ds⟩
    · exact absurd hd n.nonempty
    · simp [skipIf, digitByte_ne_minus]
  · simp [skipIf]

theorem head_digits (n : IntLit) (rest : List UInt8) :
    ((n.digits.map digitByte ++ rest).head?.map isDigit).getD false = true := by
  rcases hd : n.digits with _ | ⟨d, ds⟩
  · exact absurd hd n.nonempty
  · simp [isDigit_digitByte]

theorem length_intLit (n : IntLit) :
    n.bytes.length = (if n.negative then 1 else 0) + n.digits.length := by
  unfold IntLit.bytes
  rcases n.negative with _ | _ <;> simp [Nat.add_comm]

theorem skipNumber_int (p : Nat) (n : IntLit) {rest : List UInt8} (h : Delim rest) :
    skipNumber ⟨p, n.bytes ++ rest⟩ = .ok ⟨p + n.bytes.length, rest⟩ := by
  have hdot : rest.head? ≠ some DOT := fun hb => absurd (delim_number h hb).2 (by decide)
  have hexp : (rest.head?.map isExp).getD false = false := by
    rcases hr : rest.head? with _ | b
    · rfl
    · have := (delim_number h hr).2
      simp only [Bool.or_eq_false_iff] at this
      simpa using this.2
  unfold skipNumber
  simp only [skipIf_sign, head_digits, if_true, skipDigits_digits _ _ h, hdot, if_false, hexp,
    Bool.false_eq_true, length_intLit, Nat.add_assoc]

/-- The digit loop has the exact magnitude, or it is over 64 bits. -/
theorem magnitude_foldl (ds : List (Fin 10)) :
    let m := ds.foldl (fun m d => m * 10 + d.val) 0
    let r := (ds.map digitByte).foldl magnitude (0, false)
    if r.2 then UINT64_MAX < m else r.1 = m ∧ m ≤ UINT64_MAX := by
  induction ds using List.reverseRecOn with
  | nil => simp
  | append_singleton ds d ih =>
    have hd : (digitByte d).toNat - 0x30 = d.val := by
      revert d
      decide
    simp only [List.map_append, List.map_cons, List.map_nil, List.foldl_append, List.foldl_cons,
      List.foldl_nil] at ih ⊢
    generalize (ds.map digitByte).foldl magnitude (0, false) = r at ih ⊢
    generalize ds.foldl (fun m d => m * 10 + d.val) 0 = m at ih ⊢
    obtain ⟨r, overflow⟩ := r
    have hlt := d.isLt
    unfold magnitude
    simp only [hd, UINT64_MAX] at ih ⊢
    rcases overflow with _ | _
    · simp only [Bool.false_eq_true, if_false] at ih ⊢
      obtain ⟨rfl, hle⟩ := ih
      split
      · simp only [if_true]
        omega
      · simp only [if_false, Bool.false_eq_true, true_and]
        omega
    · simp only [if_true] at ih ⊢
      omega

theorem parseNumber_int (p : Nat) (n : IntLit) {rest : List UInt8} (h : Delim rest) :
    parseNumber ⟨p, n.bytes ++ rest⟩ = .ok (clamp64 n.value, ⟨p + n.bytes.length, rest⟩) := by
  have hend : (rest.head?.map fun b => b == DOT || isExp b).getD false = false := by
    rcases hr : rest.head? with _ | b
    · rfl
    · simpa using (delim_number h hr).2
  have hneg : ((n.bytes ++ rest).head? == some MINUS) = n.negative := by
    unfold IntLit.bytes
    rcases n.negative with _ | _
    · rcases hd : n.digits with _ | ⟨d, ds⟩
      · exact absurd hd n.nonempty
      · simp [digitByte_ne_minus]
    · simp
  have hm := magnitude_foldl n.digits
  unfold parseNumber
  simp only [skipIf_sign, head_digits, if_true, takeWhile_digits _ h, skipDigits_digits _ _ h, hend,
    Bool.false_eq_true, if_false, hneg, length_intLit, Nat.add_assoc]
  unfold clamp64 IntLit.value
  simp only [UINT64_MAX, INT64_MAX, INT64_MIN] at hm ⊢
  generalize (n.digits.map digitByte).foldl magnitude (0, false) = r at hm ⊢
  generalize n.digits.foldl (fun m d => m * 10 + d.val) 0 = m at hm ⊢
  obtain ⟨r, overflow⟩ := r
  rcases n.negative with _ | _ <;> rcases overflow with _ | _ <;>
    simp only [Bool.false_eq_true, if_false, if_true, false_or, true_or, Except.ok.injEq,
      Prod.mk.injEq, and_true] at hm ⊢
  all_goals omega

/-! ## Values -/

theorem separator_comma (close : UInt8) (p : Nat) (g : Gap) (rest : List UInt8) :
    separator close ⟨p, g.bytes ++ COMMA :: rest⟩ =
      .ok (.more ⟨p + g.bytes.length + 1, rest⟩) := by
  unfold separator
  rw [skipWs_gap p g (by intro b hb; cases hb; rfl)]
  simp

theorem separator_close {close : UInt8} (hclose : close = RBRACE ∨ close = RBRACKET) (p : Nat)
    (g : Gap) (rest : List UInt8) :
    separator close ⟨p, g.bytes ++ close :: rest⟩ =
      .ok (.close ⟨p + g.bytes.length + 1, rest⟩) := by
  have hws : isWs close = false := by rcases hclose with rfl | rfl <;> rfl
  have hne : close ≠ COMMA := by rcases hclose with rfl | rfl <;> decide
  unfold separator
  rw [skipWs_gap p g (by intro b hb; cases hb; exact hws)]
  simp [hne]

/-- The first byte of a value, by what the reader does with it. -/
def Json.opens (v : Json) (b : UInt8) : Prop :=
  match v with
  | .null => b = 0x6E
  | .bool true => b = 0x74
  | .bool false => b = 0x66
  | .num _ => b = MINUS ∨ isDigit b = true
  | .str _ => b = QUOTE
  | .emptyArr _ | .arr _ => b = LBRACKET
  | .emptyObj _ | .obj _ => b = LBRACE

theorem bytes_cons (v : Json) : ∃ b tail, v.bytes = b :: tail ∧ v.opens b := by
  cases v with
  | null => exact ⟨_, _, rfl, rfl⟩
  | bool b => cases b <;> exact ⟨_, _, rfl, rfl⟩
  | num n =>
    unfold Json.bytes IntLit.bytes Json.opens
    rcases n.negative with _ | _
    · rcases hd : n.digits with _ | ⟨d, ds⟩
      · exact absurd hd n.nonempty
      · exact ⟨digitByte d, ds.map digitByte, rfl, .inr (isDigit_digitByte d)⟩
    · exact ⟨MINUS, n.digits.map digitByte, rfl, .inl rfl⟩
  | str s => exact ⟨_, _, rfl, rfl⟩
  | emptyArr => exact ⟨_, _, rfl, rfl⟩
  | arr => exact ⟨_, _, rfl, rfl⟩
  | emptyObj => exact ⟨_, _, rfl, rfl⟩
  | obj => exact ⟨_, _, rfl, rfl⟩

theorem number_first {b : UInt8} (h : b = MINUS ∨ isDigit b = true) :
    isWs b = false ∧ b ≠ LBRACE ∧ b ≠ LBRACKET ∧ b ≠ RBRACE ∧ b ≠ RBRACKET ∧ b ≠ QUOTE ∧
      b ≠ 0x74 ∧ b ≠ 0x66 ∧ b ≠ 0x6E := by
  rcases h with rfl | h
  · decide
  · refine ⟨?_, ?_, ?_, ?_, ?_, ?_, ?_, ?_, ?_⟩
    · rcases hw : isWs b with _ | _
      · rfl
      · rcases isWs_cases hw with rfl | rfl | rfl | rfl <;> exact absurd h (by decide)
    all_goals rintro rfl; exact absurd h (by decide)

/-- No value starts with whitespace, or with a bracket that closes. -/
theorem opens_first {v : Json} {b : UInt8} (h : v.opens b) :
    isWs b = false ∧ b ≠ RBRACE ∧ b ≠ RBRACKET := by
  cases v with
  | num n => exact ⟨(number_first h).1, (number_first h).2.2.2.1, (number_first h).2.2.2.2.1⟩
  | bool b' => cases b' <;> cases h <;> decide
  | _ => cases h; decide

theorem head_value (v : Json) (rest : List UInt8) :
    ∀ b, (v.bytes ++ rest).head? = some b → isWs b = false := by
  obtain ⟨b, tail, hb, hopen⟩ := bytes_cons v
  intro b' hb'
  rw [hb] at hb'
  cases hb'
  exact (opens_first hopen).1

theorem skipWs_value (p : Nat) (g : Gap) (v : Json) (rest : List UInt8) :
    skipWs ⟨p, g.bytes ++ (v.bytes ++ rest)⟩ = ⟨p + g.bytes.length, v.bytes ++ rest⟩ :=
  skipWs_gap p g (head_value v rest)

/-- The members after the whitespace before the first key. -/
def Members.body : Members → List UInt8
  | .last head v trail =>
    head.key.quoted ++ (head.beforeColon.bytes ++ COLON :: (head.afterColon.bytes ++
      (v.bytes ++ trail.bytes)))
  | .cons head v trail ms =>
    head.key.quoted ++ (head.beforeColon.bytes ++ COLON :: (head.afterColon.bytes ++
      (v.bytes ++ (trail.bytes ++ COMMA :: ms.bytes))))

theorem bytes_members (ms : Members) : ms.bytes = ms.lead.bytes ++ ms.body := by
  cases ms <;> simp [Members.bytes, Members.lead, Members.body, Head.bytes]

theorem body_head (ms : Members) (rest : List UInt8) :
    ∃ tail, ms.body ++ rest = QUOTE :: tail := by
  cases ms <;> exact ⟨_, rfl⟩

theorem skipWs_members (p : Nat) (ms : Members) (rest : List UInt8) :
    skipWs ⟨p, ms.bytes ++ rest⟩ = ⟨p + ms.lead.bytes.length, ms.body ++ rest⟩ := by
  obtain ⟨tail, htail⟩ := body_head ms rest
  rw [bytes_members, List.append_assoc]
  exact skipWs_gap p ms.lead (by rw [htail]; intro b hb; cases hb; rfl)

/-- The elements after the whitespace before the first one. -/
def Elements.body : Elements → List UInt8
  | .last _ v trail => v.bytes ++ trail.bytes
  | .cons _ v trail es => v.bytes ++ (trail.bytes ++ COMMA :: es.bytes)

def Elements.lead : Elements → Gap
  | .last lead _ _ => lead
  | .cons lead _ _ _ => lead

theorem bytes_elements (es : Elements) : es.bytes = es.lead.bytes ++ es.body := by
  cases es <;> simp [Elements.bytes, Elements.lead, Elements.body]

/-- The first element starts with what a value starts with. -/
theorem body_opens (es : Elements) (rest : List UInt8) :
    ∃ v b tail, es.body ++ rest = b :: tail ∧ Json.opens v b := by
  cases es with
  | last _ v _ =>
    obtain ⟨b, tail, hb, hopen⟩ := bytes_cons v
    exact ⟨v, b, _, by simp only [Elements.body, hb, List.cons_append]; rfl, hopen⟩
  | cons _ v _ _ =>
    obtain ⟨b, tail, hb, hopen⟩ := bytes_cons v
    exact ⟨v, b, _, by simp only [Elements.body, hb, List.cons_append]; rfl, hopen⟩

theorem skipWs_elements (p : Nat) (es : Elements) (rest : List UInt8) :
    skipWs ⟨p, es.bytes ++ rest⟩ = ⟨p + es.lead.bytes.length, es.body ++ rest⟩ := by
  obtain ⟨v, b, tail, htail, hopen⟩ := body_opens es rest
  rw [bytes_elements, List.append_assoc]
  exact skipWs_gap p es.lead (by rw [htail]; intro b hb; cases hb; exact (opens_first hopen).1)

/-- The key, the colon and the whitespace around it. -/
theorem scanString_key (p : Nat) (key : Text) (g : Gap) (rest : List UInt8) :
    (scanString ⟨p, key.quoted ++ (g.bytes ++ COLON :: rest)⟩ >>= fun r =>
        expect COLON (skipWs r.2)) = .ok ⟨p + key.quoted.length + g.bytes.length + 1, rest⟩ := by
  rw [scanString_text]
  simp only [bind, Except.bind]
  rw [skipWs_gap _ g (by intro b hb; cases hb; rfl), expect_cons]

/-- The turn of the loop over members that skips one of them. -/
theorem skipMembersIn_member (bound p : Nat) (head : Head) (rest : List UInt8) :
    skipMembersIn (bound + 1) ⟨p, head.key.quoted ++ (head.beforeColon.bytes ++ COLON :: rest)⟩ = (do
      let c ← skipValueIn bound
        ⟨p + head.key.quoted.length + head.beforeColon.bytes.length + 1, rest⟩
      match ← separator RBRACE c with
      | .more c => skipMembersIn bound c
      | .close c => .ok c) := by
  have hkey := scanString_key p head.key head.beforeColon rest
  rw [skipMembersIn]
  rw [scanString_text] at hkey ⊢
  simp only [bind, Except.bind] at hkey ⊢
  generalize expect COLON _ = r at hkey ⊢
  subst hkey
  rfl

mutual

/-- A value is skipped as far as it goes, or refused. -/
theorem skipValueIn_bytes : ∀ (v : Json) (bound p : Nat) (g : Gap) (rest : List UInt8),
    3 * v.bytes.length + 3 ≤ bound → Delim rest →
    skipValueIn bound ⟨p, g.bytes ++ (v.bytes ++ rest)⟩ =
      if v.tight then .ok ⟨p + g.bytes.length + v.bytes.length, rest⟩ else .error EAF_INVALID
  | v, 0, p, g, rest, hbound, hrest => by omega
  | .null, bound + 1, p, g, rest, hbound, hrest => by
    rw [skipValueIn]
    simp only [skipWs_value]
    exact matchLiteral_append (ascii "null") (p + g.bytes.length) rest
  | .bool true, bound + 1, p, g, rest, hbound, hrest => by
    rw [skipValueIn]
    simp only [skipWs_value]
    exact matchLiteral_append (ascii "true") (p + g.bytes.length) rest
  | .bool false, bound + 1, p, g, rest, hbound, hrest => by
    rw [skipValueIn]
    simp only [skipWs_value]
    exact matchLiteral_append (ascii "false") (p + g.bytes.length) rest
  | .num n, bound + 1, p, g, rest, hbound, hrest => by
    obtain ⟨b, tail, hb, hopen⟩ := bytes_cons (.num n)
    obtain ⟨_, h1, h2, _, _, h3, h4, h5, h6⟩ := number_first hopen
    have hskip := skipNumber_int (p + g.bytes.length) n hrest
    have hbn : n.bytes = b :: tail := hb
    rw [skipValueIn]
    simp only [skipWs_value]
    rw [hbn] at hskip
    simpa only [Json.bytes, hbn, List.cons_append, h1, h2, h3, h4, h5, h6, if_false, Json.tight,
      if_true] using hskip
  | .str s, bound + 1, p, g, rest, hbound, hrest => by
    rw [skipValueIn]
    simp only [skipWs_value]
    have hscan := scanString_text (p + g.bytes.length) s rest
    show (scanString _).map Prod.snd = _
    simp only [Json.bytes]
    rw [hscan]
    rfl
  | .emptyArr inside, bound + 1, p, g, rest, hbound, hrest => by
    obtain ⟨bound, rfl⟩ : ∃ n, bound = n + 1 := ⟨bound - 1, by omega⟩
    rw [skipValueIn]
    simp only [skipWs_value]
    show skipArrayIn (bound + 1) _ = _
    rw [skipArrayIn]
    simp only [Json.bytes, List.cons_append, List.append_assoc, List.nil_append, advance_cons]
    rw [skipWs_gap _ inside (by intro b hb; cases hb; rfl)]
    simp [Json.tight]
    omega
  | .arr es, bound + 1, p, g, rest, hbound, hrest => by
    have hlen : (Json.arr es).bytes.length = es.lead.bytes.length + es.body.length + 2 := by
      simp only [Json.bytes, bytes_elements, List.length_cons, List.length_append, List.length_nil]
    obtain ⟨bound, rfl⟩ : ∃ n, bound = n + 1 := ⟨bound - 1, by omega⟩
    have ih := skipElementsIn_bytes es bound (p + g.bytes.length + 1 + es.lead.bytes.length) .none
      rest (by omega)
    obtain ⟨v, b, tail, htail, hopen⟩ := body_opens es (RBRACKET :: rest)
    have hne : (b :: tail).head? ≠ some RBRACKET := by simpa using (opens_first hopen).2.2
    rw [skipValueIn]
    simp only [skipWs_value]
    show skipArrayIn (bound + 1) _ = _
    rw [skipArrayIn]
    simp only [Json.bytes, List.cons_append, List.append_assoc, List.nil_append, advance_cons,
      skipWs_elements]
    simp only [Gap.none, List.nil_append, List.length_nil, Nat.add_zero] at ih
    rw [htail] at ih ⊢
    rw [if_neg hne, ih]
    simp only [Json.tight, List.length_cons, List.length_append, List.length_nil, bytes_elements]
    congr 3
    omega
  | .emptyObj inside, bound + 1, p, g, rest, hbound, hrest => by
    obtain ⟨bound, rfl⟩ : ∃ n, bound = n + 1 := ⟨bound - 1, by omega⟩
    rw [skipValueIn]
    simp only [skipWs_value]
    show skipObjectIn (bound + 1) _ = _
    rw [skipObjectIn]
    simp only [Json.bytes, List.cons_append, List.append_assoc, List.nil_append, advance_cons]
    rw [skipWs_gap _ inside (by intro b hb; cases hb; rfl)]
    simp [Json.tight]
    omega
  | .obj ms, bound + 1, p, g, rest, hbound, hrest => by
    have hlen : (Json.obj ms).bytes.length = ms.bytes.length + 2 := by simp [Json.bytes]
    have hms : ms.bytes.length = ms.lead.bytes.length + ms.body.length := by
      rw [bytes_members, List.length_append]
    obtain ⟨bound, rfl⟩ : ∃ n, bound = n + 1 := ⟨bound - 1, by omega⟩
    have ih := skipMembersIn_bytes ms bound (p + g.bytes.length + 1 + ms.lead.bytes.length) rest
      (by omega)
    obtain ⟨tail, htail⟩ := body_head ms (RBRACE :: rest)
    rw [skipValueIn]
    simp only [skipWs_value]
    show skipObjectIn (bound + 1) _ = _
    rw [skipObjectIn]
    simp only [Json.bytes, List.cons_append, List.append_assoc, List.nil_append, advance_cons,
      skipWs_members]
    have hne : (QUOTE :: tail).head? ≠ some RBRACE := by
      rw [List.head?_cons]
      decide
    rw [htail] at ih ⊢
    rw [if_neg hne, ih]
    simp only [Json.tight, List.length_cons, List.length_append, List.length_nil, hms]
    congr 3
    omega

/-- The elements of an array, the first one after any whitespace. -/
theorem skipElementsIn_bytes : ∀ (es : Elements) (bound p : Nat) (g : Gap) (rest : List UInt8),
    3 * es.body.length + 4 ≤ bound →
    skipElementsIn bound ⟨p, g.bytes ++ (es.body ++ RBRACKET :: rest)⟩ =
      if es.tight then .ok ⟨p + g.bytes.length + es.body.length + 1, rest⟩
      else .error EAF_INVALID
  | es, 0, p, g, rest, hbound => by omega
  | .last lead v trail, bound + 1, p, g, rest, hbound => by
    have hlen : (Elements.last lead v trail).body.length = v.bytes.length + trail.bytes.length := by
      simp [Elements.body]
    have ih := skipValueIn_bytes v bound p g (trail.bytes ++ RBRACKET :: rest) (by omega)
      (delim_gap trail (delim_cons _ (by decide)))
    rw [skipElementsIn]
    simp only [Elements.body, List.append_assoc, ih, Elements.tight]
    by_cases ht : v.tight = true
    · simp only [ht, if_true, bind, Except.bind, separator_close (.inr rfl), List.length_append]
      rw [← Nat.add_assoc]
    · simp only [ht, bind, Except.bind]
      rfl
  | .cons lead v trail es, bound + 1, p, g, rest, hbound => by
    have hlen : (Elements.cons lead v trail es).body.length =
        v.bytes.length + (trail.bytes.length + (es.bytes.length + 1)) := by
      simp only [Elements.body, List.length_append, List.length_cons]
    have hes : es.bytes.length = es.lead.bytes.length + es.body.length := by
      rw [bytes_elements, List.length_append]
    have ihv := skipValueIn_bytes v bound p g (trail.bytes ++ COMMA :: (es.bytes ++ RBRACKET :: rest))
      (by omega) (delim_gap trail (delim_cons _ (by decide)))
    have ihs := skipElementsIn_bytes es bound
      (p + g.bytes.length + v.bytes.length + trail.bytes.length + 1) es.lead rest (by omega)
    rw [skipElementsIn, hlen]
    simp only [Elements.body, List.append_assoc, List.cons_append, ihv, Elements.tight,
      Bool.and_eq_true]
    by_cases ht : v.tight = true
    · rw [hes, bytes_elements, List.append_assoc]
      simp only [ht, if_true, bind, Except.bind, separator_comma, ihs, true_and]
      congr 3
      omega
    · simp only [ht, bind, Except.bind]
      rfl

/-- The members of an object, from the first key on. -/
theorem skipMembersIn_bytes : ∀ (ms : Members) (bound p : Nat) (rest : List UInt8),
    3 * ms.body.length + 1 ≤ bound →
    skipMembersIn bound ⟨p, ms.body ++ RBRACE :: rest⟩ =
      if ms.tight then .ok ⟨p + ms.body.length + 1, rest⟩ else .error EAF_INVALID
  | ms, 0, p, rest, hbound => by omega
  | .last head v trail, bound + 1, p, rest, hbound => by
    have hlen : (Members.last head v trail).body.length = head.key.quoted.length +
        (head.beforeColon.bytes.length + (head.afterColon.bytes.length +
          (v.bytes.length + trail.bytes.length) + 1)) := by
      simp [Members.body]
    have hq : 2 ≤ head.key.quoted.length := by simp [Text.quoted]
    have ih := skipValueIn_bytes v bound
      (p + head.key.quoted.length + head.beforeColon.bytes.length + 1) head.afterColon
      (trail.bytes ++ RBRACE :: rest) (by omega) (delim_gap trail (delim_cons _ (by decide)))
    rw [hlen]
    simp only [Members.body, List.append_assoc, List.cons_append, skipMembersIn_member, ih,
      Members.tight]
    by_cases ht : v.tight = true
    · simp only [ht, if_true, bind, Except.bind, separator_close (.inl rfl)]
      congr 2
      omega
    · simp only [ht, bind, Except.bind]
      rfl
  | .cons head v trail ms, bound + 1, p, rest, hbound => by
    have hlen : (Members.cons head v trail ms).body.length = head.key.quoted.length +
        (head.beforeColon.bytes.length + (head.afterColon.bytes.length +
          (v.bytes.length + (trail.bytes.length + (ms.bytes.length + 1))) + 1)) := by
      simp only [Members.body, List.length_append, List.length_cons]
    have hms : ms.bytes.length = ms.lead.bytes.length + ms.body.length := by
      rw [bytes_members, List.length_append]
    have hq : 2 ≤ head.key.quoted.length := by simp [Text.quoted]
    have ihv := skipValueIn_bytes v bound
      (p + head.key.quoted.length + head.beforeColon.bytes.length + 1) head.afterColon
      (trail.bytes ++ COMMA :: (ms.bytes ++ RBRACE :: rest)) (by omega)
      (delim_gap trail (delim_cons _ (by decide)))
    rw [hlen]
    simp only [Members.body, List.append_assoc, List.cons_append, skipMembersIn_member, ihv,
      Members.tight, Bool.and_eq_true]
    by_cases ht : v.tight = true
    · simp only [ht, if_true, bind, Except.bind, separator_comma, true_and]
      rw [hms, bytes_members, List.append_assoc]
      rcases hlead : ms.lead.bytes with _ | ⟨b, lead⟩
      · -- the key comes right after the comma
        rw [List.nil_append, skipMembersIn_bytes ms bound _ rest (by omega)]
        simp only [List.isEmpty_nil, true_and, List.length_nil]
        congr 3
        omega
      · -- whitespace after the comma: there is no key to scan
        have hws : isWs b = true := ms.lead.ws b (by simp [hlead])
        have hne : b ≠ QUOTE := by rintro rfl; exact absurd hws (by decide)
        obtain ⟨bound, rfl⟩ : ∃ n, bound = n + 1 := ⟨bound - 1, by omega⟩
        rw [skipMembersIn]
        simp only [List.cons_append, scanString_error _ _ hne, List.isEmpty_cons,
          Bool.false_eq_true, false_and, if_false]
        rfl
    · simp only [ht, bind, Except.bind]
      rfl

end

/-- A value is skipped as far as it goes, unless it is not tight. -/
theorem skipValue_bytes (v : Json) (p : Nat) (g : Gap) {rest : List UInt8} (h : Delim rest) :
    skipValue ⟨p, g.bytes ++ (v.bytes ++ rest)⟩ =
      if v.tight then .ok ⟨p + g.bytes.length + v.bytes.length, rest⟩ else .error EAF_INVALID :=
  skipValueIn_bytes v _ p g rest
    (by simp only [Span.bound, List.length_append]; omega) h

end EmbeddedAudio.Sendspin
