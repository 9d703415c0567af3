-- The numbers in the messages of a server: the integer that a JSON number
-- spells, where a parser finds it, and what its field keeps of it.
import EmbeddedAudio.JsonLookup
import EmbeddedAudio.JsonView

namespace EmbeddedAudio.Sendspin

/-! ## The integer of a number -/

def digitsValue (digits : List UInt8) : Nat :=
  digits.foldl (fun m b => m * 10 + (b.toNat - 0x30)) 0

/-- The integer that the bytes of a JSON number spell. It has no bound. -/
def spelled (text : List UInt8) : Int :=
  if text.head? = some MINUS then -(digitsValue text.tail : Int) else digitsValue text

theorem digit_byte {b : UInt8} (h : isDigit b = true) : ∃ d : Fin 10, digitByte d = b := by
  simp only [isDigit, Bool.and_eq_true, decide_eq_true_eq, UInt8.le_iff_toNat_le] at h
  have hlow : 0x30 ≤ b.toNat := h.1
  have hhigh : b.toNat ≤ 0x39 := h.2
  refine ⟨⟨b.toNat - 0x30, by omega⟩, UInt8.toNat_inj.mp ?_⟩
  simp only [digitByte, UInt8.toNat_add, Nat.toUInt8, UInt8.toNat_ofNat']
  change (0x30 + (b.toNat - 0x30) % 2 ^ 8) % 2 ^ 8 = b.toNat
  omega

theorem digits_mapped (text : List UInt8) :
    ∃ ds : List (Fin 10), ds.map digitByte = text.takeWhile isDigit := by
  induction text with
  | nil => exact ⟨[], rfl⟩
  | cons b text ih =>
    by_cases hb : isDigit b = true
    · obtain ⟨d, hd⟩ := digit_byte hb
      obtain ⟨ds, hds⟩ := ih
      exact ⟨d :: ds, by rw [List.map_cons, List.takeWhile_cons_of_pos hb, hd, hds]⟩
    · exact ⟨[], (List.takeWhile_cons_of_neg hb).symm⟩

theorem digitsValue_map (ds : List (Fin 10)) :
    digitsValue (ds.map digitByte) = ds.foldl (fun m d => m * 10 + d.val) 0 := by
  have hd : ∀ d : Fin 10, (digitByte d).toNat - 0x30 = d.val := by decide
  simp only [digitsValue, List.foldl_map, hd]

/-- The digit loop has the exact magnitude of the digits, or it is over 64 bits. -/
theorem magnitude_digits (text : List UInt8) :
    let m := digitsValue (text.takeWhile isDigit)
    let r := (text.takeWhile isDigit).foldl magnitude (0, false)
    if r.2 then UINT64_MAX < m else r.1 = m ∧ m ≤ UINT64_MAX := by
  obtain ⟨ds, hds⟩ := digits_mapped text
  have hm := magnitude_foldl ds
  simp only [← hds, digitsValue_map]
  exact hm

theorem take_takeWhile (p : UInt8 → Bool) (text : List UInt8) :
    text.take (text.takeWhile p).length = text.takeWhile p :=
  (List.prefix_iff_eq_take.mp (List.takeWhile_prefix p)).symm

theorem skipIf_minus (c : Span) :
    skipIf (· == MINUS) c = if c.bytes.head? = some MINUS then c.advance 1 else c := by
  unfold skipIf
  rcases c.bytes with _ | ⟨b, rest⟩
  · rfl
  · simp

theorem takeWhile_sign {text : List UInt8} (h : text.head? ≠ some MINUS) :
    (text.takeWhile isDigit).head? ≠ some MINUS := by
  rcases text with _ | ⟨b, rest⟩
  · exact h
  · by_cases hb : isDigit b = true
    · rw [List.takeWhile_cons_of_pos hb]
      exact h
    · rw [List.takeWhile_cons_of_neg hb]
      intro heq
      cases heq

/-- A number is the integer of its bytes, or the nearest one of 64 bits. -/
theorem parseNumber_spelled {c c' : Span} {n : Int} (h : parseNumber c = .ok (n, c')) :
    n = clamp64 (spelled (c.upTo c').bytes) := by
  unfold parseNumber at h
  simp only [skipIf_minus] at h
  by_cases hsign : c.bytes.head? = some MINUS
  · obtain ⟨digits, hbytes⟩ := List.head?_eq_some_iff.mp hsign
    have hm := magnitude_digits digits
    rw [hbytes] at h
    simp only [List.head?_cons, if_true, Span.advance, skipDigits, hbytes, List.drop_succ_cons,
      List.drop_zero] at h
    split at h
    case isFalse => cases h
    split at h
    · cases h
    simp only [beq_self_eq_true, if_true, Except.ok.injEq, Prod.mk.injEq] at h
    obtain ⟨rfl, rfl⟩ := h
    have hraw : (MINUS :: digits).take (1 + (digits.takeWhile isDigit).length) =
        MINUS :: digits.takeWhile isDigit := by
      rw [Nat.add_comm, List.take_succ_cons, take_takeWhile]
    simp only [Span.upTo, hbytes, Nat.add_assoc, Nat.add_sub_cancel_left, hraw, spelled,
      List.head?_cons, if_true, List.tail_cons, clamp64]
    generalize (digits.takeWhile isDigit).foldl magnitude (0, false) = r at hm ⊢
    generalize digitsValue (digits.takeWhile isDigit) = m at hm ⊢
    obtain ⟨r, overflow⟩ := r
    simp only [UINT64_MAX, INT64_MAX, INT64_MIN] at hm ⊢
    rcases overflow with _ | _
    · simp only [Bool.false_eq_true, if_false, false_or] at hm ⊢
      omega
    · simp only [if_true, true_or] at hm ⊢
      omega
  · have hm := magnitude_digits c.bytes
    have hbeq : (c.bytes.head? == some MINUS) = false := by simpa using hsign
    simp only [hsign, hbeq, if_false, skipDigits, Span.advance] at h hm
    split at h
    case isFalse => cases h
    split at h
    · cases h
    simp only [Bool.false_eq_true, if_false, Except.ok.injEq, Prod.mk.injEq] at h
    obtain ⟨rfl, rfl⟩ := h
    simp only [Span.upTo, Nat.add_sub_cancel_left, take_takeWhile, spelled,
      if_neg (takeWhile_sign hsign), clamp64]
    generalize (c.bytes.takeWhile isDigit).foldl magnitude (0, false) = r at hm ⊢
    generalize digitsValue (c.bytes.takeWhile isDigit) = m at hm ⊢
    obtain ⟨r, overflow⟩ := r
    simp only [UINT64_MAX, INT64_MAX, INT64_MIN] at hm ⊢
    rcases overflow with _ | _
    · simp only [Bool.false_eq_true, if_false, false_or] at hm ⊢
      omega
    · simp only [if_true, true_or] at hm ⊢
      omega

/-- What `parse_value` takes as a number is the integer of its bytes. -/
theorem parseValue_number {c c' : Span} {v : JsonValue} (h : parseValue c = .ok (v, c'))
    (hv : v.type = .number) : v.number = clamp64 (spelled v.raw.bytes) := by
  unfold parseValue at h
  simp only at h
  split at h
  · cases h
  · split_ifs at h
    all_goals obtain ⟨a, ha, heq⟩ := map_ok h; cases heq
    all_goals first | exact parseNumber_spelled ha | cases hv

/-! ## Parsing and skipping -/

theorem skipWs_idem (c : Span) : skipWs (skipWs c) = skipWs c := by
  have h : ((c.bytes.drop (c.bytes.takeWhile isWs).length).takeWhile isWs) = [] := by
    induction c.bytes with
    | nil => rfl
    | cons b rest ih =>
      by_cases hb : isWs b = true
      · simpa [List.takeWhile_cons_of_pos hb] using ih
      · simp [List.takeWhile_cons_of_neg hb]
  unfold skipWs
  simp only [Span.advance]
  rw [h]
  rfl

theorem skipObjectIn_bound (c : Span) (more : Nat) :
    skipObjectIn (3 * c.left + 2 + more) c = skipObjectIn (3 * c.left + 2) c := by
  induction more with
  | zero => rfl
  | succ more ih => rw [← Nat.add_assoc, (enough _).object c (by omega), ih]

theorem skipArrayIn_bound {c : Span} (hc : 0 < c.left) (more : Nat) :
    skipArrayIn (3 * c.left + 2 + more) c = skipArrayIn (3 * c.left + 2) c := by
  induction more with
  | zero => rfl
  | succ more ih => rw [← Nat.add_assoc, (enough _).array c hc (by omega), ih]

/-- `skip_value` from the first byte of the value on. -/
theorem skipValue_cases {c : Span} {b : UInt8} {rest : List UInt8}
    (hc : (skipWs c).bytes = b :: rest) :
    skipValue c =
      if b = LBRACE then skipObject (skipWs c)
      else if b = LBRACKET then skipArray (skipWs c)
      else if b = QUOTE then (scanString (skipWs c)).map Prod.snd
      else if b = 0x74 then matchLiteral (ascii "true") (skipWs c)
      else if b = 0x66 then matchLiteral (ascii "false") (skipWs c)
      else if b = 0x6E then matchLiteral (ascii "null") (skipWs c)
      else skipNumber (skipWs c) := by
  have hws := left_skipWs c
  have hpos : 0 < (skipWs c).left := by simp [Span.left, hc]
  have hbound : c.bound = 3 * (skipWs c).left + 2 + (3 * (c.left - (skipWs c).left)) + 1 := by
    simp only [Span.bound, Span.left] at hws ⊢
    omega
  unfold skipValue skipObject skipArray
  rw [hbound, skipValueIn]
  simp only [hc]
  rw [skipObjectIn_bound, skipArrayIn_bound hpos]
  have hobject := skipObjectIn_bound (skipWs c) 1
  have harray := skipArrayIn_bound hpos 1
  simp only [Span.bound, Span.left] at hobject harray ⊢
  rw [hobject, harray]

theorem parseNumber_skips {c c' : Span} {n : Int} (h : parseNumber c = .ok (n, c')) :
    skipNumber c = .ok c' := by
  unfold parseNumber at h
  unfold skipNumber
  simp only at h ⊢
  split at h
  case isFalse => cases h
  case isTrue hdigit =>
    rw [if_pos hdigit]
    split at h
    · cases h
    case isFalse hend =>
      rcases hrest : (skipDigits (skipIf (· == MINUS) c)).bytes.head? with _ | b
      · simp only [hrest, Option.map_none, Option.getD_none, Bool.false_eq_true, if_false,
          reduceCtorEq] at h ⊢
        split at h
        · cases h
          rfl
        · cases h
          rfl
      · simp only [hrest, Option.map_some, Option.getD_some, Bool.or_eq_true, not_or,
          beq_iff_eq] at hend
        simp only [Option.some.injEq, hend.1, if_false, hrest, Option.map_some, Option.getD_some,
          hend.2, Bool.false_eq_true]
        split at h
        · cases h
          rfl
        · cases h
          rfl

/-- Where `parse_value` takes a value, `skip_value` steps over the same bytes. -/
theorem parseValue_skips {c c' : Span} {v : JsonValue} (h : parseValue c = .ok (v, c')) :
    skipValue c = .ok c' := by
  unfold parseValue at h
  simp only at h
  split at h
  · cases h
  · rename_i b rest hc
    rw [skipValue_cases hc]
    split_ifs at h ⊢
    all_goals obtain ⟨a, ha, heq⟩ := map_ok h; cases heq
    all_goals first | exact ha | exact parseNumber_skips ha | simp [ha, Except.map]

theorem skipElementsIn_bound (c : Span) (more : Nat) :
    skipElementsIn (3 * c.left + 4 + more) c = skipElementsIn (3 * c.left + 4) c := by
  induction more with
  | zero => rfl
  | succ more ih => rw [← Nat.add_assoc, (enough _).elements c (by omega), ih]

theorem takeElement_skips {needle : List UInt8} {member : Bool} {c c' : Span}
    (h : (takeElement needle member (skipWs c)).2 = .ok c') : skipValue c = .ok c' := by
  unfold takeElement at h
  split at h
  · rename_i hquote
    obtain ⟨rest, hrest⟩ := List.head?_eq_some_iff.mp hquote
    rw [skipValue_cases hrest, if_neg (by decide), if_neg (by decide), if_pos rfl]
    rcases hs : scanString (skipWs c) with rc | ⟨s, after⟩
    · simp [hs] at h
    · simpa [hs, Except.map] using h
  · rcases hc : (skipWs c).bytes with _ | ⟨b, rest⟩
    · unfold skipValue Span.bound at h
      rw [skipValueIn, skipWs_idem, hc] at h
      cases h
    · rw [skipValue_cases (by rw [skipWs_idem]; exact hc), skipWs_idem] at h
      rw [skipValue_cases hc]
      exact h

/-- The search for an element goes over the whole array. -/
theorem membershipIn_skips {needle : List UInt8} {bound : Nat} {member : Bool} {c c' : Span}
    (h : (membershipIn needle bound member c).2 = .ok c') :
    skipElementsIn (3 * c.left + 4) c = .ok c' := by
  induction bound generalizing member c with
  | zero => cases h
  | succ bound ih =>
    rw [membershipIn] at h
    rcases htake : takeElement needle member (skipWs c) with ⟨member', taken⟩
    simp only [htake] at h
    rcases hafter : taken.bind (separator RBRACKET) with rc | next
    · simp [hafter] at h
    · obtain ⟨c1, hc1, hnext⟩ := bind_ok hafter
      have htaken : (takeElement needle member (skipWs c)).2 = .ok c1 := by
        rw [htake]
        exact hc1
      have hskip := takeElement_skips htaken
      have hleft := (shrinks _).value (by exact hskip)
      have hsep := left_separator hnext
      rw [skipElementsIn]
      have hfull : skipValueIn (3 * c.left + 3) c = .ok c1 := hskip
      simp only [bind, Except.bind, hfull, hnext]
      rcases next with c2 | c2
      · simp only [hafter, Next.cursor] at h hsep ⊢
        have hmore := skipElementsIn_bound c2 (3 * (c.left - c2.left) - 1)
        rw [show 3 * c2.left + 4 + (3 * (c.left - c2.left) - 1) = 3 * c.left + 3 by omega] at hmore
        rw [hmore]
        exact ih h
      · simpa [hafter] using h

theorem parseArrayMembership_skips {needle : List UInt8} {member : Bool} {c c' : Span}
    (h : (parseArrayMembership needle member c).2 = .ok c') : skipValue c = .ok c' := by
  unfold parseArrayMembership at h
  simp only at h
  split at h
  · rename_i hbracket
    obtain ⟨rest, hrest⟩ := List.head?_eq_some_iff.mp hbracket
    rw [skipValue_cases hrest, if_neg (by decide), if_pos rfl]
    unfold skipArray Span.bound
    rw [skipArrayIn]
    split at h
    · rename_i hempty
      rw [if_pos hempty]
      exact h
    · rename_i hfull
      rw [if_neg hfull]
      have helements := membershipIn_skips h
      have hws := left_skipWs ((skipWs c).advance 1)
      rw [left_advance] at hws
      have hpos : 0 < (skipWs c).left := by simp [Span.left, hrest]
      have hmore := skipElementsIn_bound (skipWs ((skipWs c).advance 1))
        (3 * ((skipWs c).left - (skipWs ((skipWs c).advance 1)).left) - 2)
      rw [show 3 * (skipWs ((skipWs c).advance 1)).left + 4 +
        (3 * ((skipWs c).left - (skipWs ((skipWs c).advance 1)).left) - 2) =
        3 * (skipWs c).left + 2 by omega] at hmore
      exact hmore.trans helements
  · rcases hc : (skipWs c).bytes with _ | ⟨b, rest⟩
    · unfold skipValue Span.bound at h
      rw [skipValueIn, skipWs_idem, hc] at h
      cases h
    · rw [skipValue_cases (by rw [skipWs_idem]; exact hc), skipWs_idem] at h
      rw [skipValue_cases hc]
      exact h

/-! ## One pass over an object and the look-up of a key

`scan_fields` leaves in a field what `eaf_sendspin_json_get` finds under its key. -/

section Scan

variable {key : List UInt8} {fields fields' : List JsonField} {c c' : Span}

theorem take_skips {f f' : JsonField} (h : f.take c = .ok (f', c')) :
    skipValue c = .ok c' ∧ f'.key = f.key ∧ f'.needle = f.needle := by
  unfold JsonField.take at h
  split at h
  · rename_i needle hneedle
    rcases harray : parseArrayMembership needle f.member c with ⟨member, after⟩
    simp only [harray] at h
    obtain ⟨c1, h1, heq⟩ := map_ok h
    cases heq
    exact ⟨parseArrayMembership_skips (by rw [harray]; exact h1), rfl, rfl⟩
  · obtain ⟨⟨v, c1⟩, h1, heq⟩ := map_ok h
    cases heq
    exact ⟨parseValue_skips h1, rfl, rfl⟩

theorem take_found {f f' : JsonField} (h : f.take c = .ok (f', c')) : f'.found = true := by
  unfold JsonField.take at h
  split at h
  · obtain ⟨c1, h1, heq⟩ := map_ok h
    cases heq
    rfl
  · obtain ⟨r, h1, heq⟩ := map_ok h
    cases heq
    rfl

/-- Whatever a field takes of a value, the pass goes on behind the value. -/
theorem takeField_skips (h : takeField key c fields = .ok (fields', c')) :
    skipValue c = .ok c' := by
  induction fields generalizing fields' with
  | nil =>
    rw [takeField] at h
    obtain ⟨c1, h1, heq⟩ := map_ok h
    cases heq
    exact h1
  | cons f fields ih =>
    rw [takeField] at h
    split at h
    · obtain ⟨⟨f', c1⟩, h1, heq⟩ := map_ok h
      cases heq
      exact (take_skips h1).1
    · obtain ⟨⟨rest, c1⟩, h1, heq⟩ := map_ok h
      cases heq
      exact ih h1

theorem takeField_keeps (h : takeField key c fields = .ok (fields', c')) (i : Nat)
    (hi : (fieldAt fields i).wants key = false) : fieldAt fields' i = fieldAt fields i := by
  induction fields generalizing fields' i with
  | nil =>
    rw [takeField] at h
    obtain ⟨c1, h1, heq⟩ := map_ok h
    cases heq
    rfl
  | cons f fields ih =>
    rw [takeField] at h
    split at h
    · rename_i hwants
      obtain ⟨⟨f', c1⟩, h1, heq⟩ := map_ok h
      cases heq
      cases i with
      | zero => exact absurd hwants (by simpa [fieldAt] using hi)
      | succ i => rfl
    · obtain ⟨⟨rest, c1⟩, h1, heq⟩ := map_ok h
      cases heq
      cases i with
      | zero => rfl
      | succ i => exact ih h1 i hi

theorem takeField_key (h : takeField key c fields = .ok (fields', c')) (i : Nat) :
    (fieldAt fields' i).key = (fieldAt fields i).key ∧
      (fieldAt fields' i).needle = (fieldAt fields i).needle := by
  induction fields generalizing fields' i with
  | nil =>
    rw [takeField] at h
    obtain ⟨c1, h1, heq⟩ := map_ok h
    cases heq
    exact ⟨rfl, rfl⟩
  | cons f fields ih =>
    rw [takeField] at h
    split at h
    · obtain ⟨⟨f', c1⟩, h1, heq⟩ := map_ok h
      cases heq
      cases i with
      | zero => exact (take_skips h1).2
      | succ i => exact ⟨rfl, rfl⟩
    · obtain ⟨⟨rest, c1⟩, h1, heq⟩ := map_ok h
      cases heq
      cases i with
      | zero => exact ⟨rfl, rfl⟩
      | succ i => exact ih h1 i

/-- The first field that wants the key takes of the value what it asks for. -/
theorem takeField_first (h : takeField key c fields = .ok (fields', c')) (i : Nat)
    (hlt : i < fields.length) (hi : (fieldAt fields i).wants key = true)
    (hfirst : ∀ j < i, (fieldAt fields j).wants key = false) :
    (fieldAt fields i).take c = .ok (fieldAt fields' i, c') := by
  induction fields generalizing fields' i with
  | nil => exact absurd hlt (Nat.not_lt_zero i)
  | cons f fields ih =>
    rw [takeField] at h
    split at h
    · rename_i hwants
      obtain ⟨⟨f', c1⟩, h1, heq⟩ := map_ok h
      cases heq
      cases i with
      | zero => exact h1
      | succ i => exact absurd hwants (by simpa [fieldAt] using hfirst 0 (Nat.succ_pos i))
    · rename_i hwants
      obtain ⟨⟨rest, c1⟩, h1, heq⟩ := map_ok h
      cases heq
      cases i with
      | zero => exact absurd hi hwants
      | succ i =>
        exact ih h1 i (Nat.lt_of_succ_lt_succ hlt) hi
          fun j hj => hfirst (j + 1) (Nat.succ_lt_succ hj)

/-- What a field for a value takes. -/
theorem take_value {f f' : JsonField} (hneedle : f.needle = none) (h : f.take c = .ok (f', c')) :
    ∃ v, parseValue c = .ok (v, c') ∧ f' = { f with found := true, value := v } := by
  unfold JsonField.take at h
  simp only [hneedle] at h
  obtain ⟨⟨v, c1⟩, hv, heq⟩ := map_ok h
  cases heq
  refine ⟨v, hv, ?_⟩
  rw [← hneedle]

theorem takeField_length (h : takeField key c fields = .ok (fields', c')) :
    fields'.length = fields.length := by
  induction fields generalizing fields' with
  | nil =>
    rw [takeField] at h
    obtain ⟨c1, h1, heq⟩ := map_ok h
    cases heq
    rfl
  | cons f fields ih =>
    rw [takeField] at h
    split at h
    · obtain ⟨⟨f', c1⟩, h1, heq⟩ := map_ok h
      cases heq
      rfl
    · obtain ⟨⟨rest, c1⟩, h1, heq⟩ := map_ok h
      cases heq
      simp [ih h1]

/-- The field `i` is the first one with the key. -/
structure Leads (key : List UInt8) (fields : List JsonField) (i : Nat) : Prop where
  inside : i < fields.length
  named : (fieldAt fields i).key = key
  first : ∀ j < i, (fieldAt fields j).key ≠ key

theorem leads_takeField {segment : List UInt8} {i : Nat} (hs : Leads segment fields i)
    (h : takeField key c fields = .ok (fields', c')) : Leads segment fields' i := by
  refine ⟨?_, ?_, ?_⟩
  · rw [takeField_length h]
    exact hs.inside
  · rw [(takeField_key h i).1]
    exact hs.named
  · intro j hj
    rw [(takeField_key h j).1]
    exact hs.first j hj

/-- The field `i` takes the value of the first member with the key. -/
structure Sought (key : List UInt8) (fields : List JsonField) (i : Nat) : Prop where
  inside : i < fields.length
  named : (fieldAt fields i).key = key
  valued : (fieldAt fields i).needle = none
  first : ∀ j < i, (fieldAt fields j).key ≠ key

/-- A field that has its value keeps it. -/
theorem scanFieldsIn_found {bound i : Nat} (hi : (fieldAt fields i).found = true)
    (h : scanFieldsIn bound fields c = .ok (fields', c')) :
    fieldAt fields' i = fieldAt fields i := by
  induction bound generalizing fields c with
  | zero => cases h
  | succ bound ih =>
    rw [scanFieldsIn] at h
    split at h
    · cases h
      rfl
    · obtain ⟨⟨key, c1⟩, h1, h⟩ := bind_ok h
      obtain ⟨⟨fields1, c2⟩, h2, h⟩ := bind_ok h
      obtain ⟨next, h3, h⟩ := bind_ok h
      have hkeeps := takeField_keeps h2 i (by simp [JsonField.wants, hi])
      cases next with
      | more c3 =>
        rw [← hkeeps] at hi
        rw [ih hi h, hkeeps]
      | close c3 =>
        cases h
        exact hkeeps

/-- A field that has found nothing is as it was. -/
theorem takeField_untouched (h : takeField key c fields = .ok (fields', c')) (i : Nat)
    (hi : (fieldAt fields' i).found = false) : fieldAt fields' i = fieldAt fields i := by
  induction fields generalizing fields' i with
  | nil =>
    rw [takeField] at h
    obtain ⟨c1, h1, heq⟩ := map_ok h
    cases heq
    rfl
  | cons f fields ih =>
    rw [takeField] at h
    split at h
    · obtain ⟨⟨f', c1⟩, h1, heq⟩ := map_ok h
      cases heq
      cases i with
      | zero =>
        have hnot : f'.found = false := hi
        rw [take_found h1] at hnot
        cases hnot
      | succ i => rfl
    · obtain ⟨⟨rest, c1⟩, h1, heq⟩ := map_ok h
      cases heq
      cases i with
      | zero => rfl
      | succ i => exact ih h1 i hi

theorem scanFieldsIn_untouched {bound i : Nat} (hi : (fieldAt fields' i).found = false)
    (h : scanFieldsIn bound fields c = .ok (fields', c')) :
    fieldAt fields' i = fieldAt fields i := by
  induction bound generalizing fields c with
  | zero => cases h
  | succ bound ih =>
    rw [scanFieldsIn] at h
    split at h
    · cases h
      rfl
    · obtain ⟨⟨key, c1⟩, h1, h⟩ := bind_ok h
      obtain ⟨⟨fields1, c2⟩, h2, h⟩ := bind_ok h
      obtain ⟨next, h3, h⟩ := bind_ok h
      cases next with
      | more c3 =>
        have hsame := ih h
        rw [hsame, takeField_untouched h2 i (by rw [← hsame]; exact hi)]
      | close c3 =>
        cases h
        exact takeField_untouched h2 i hi

/-- The pass gives a field the first member with its key, where the look-up stops. Where the look-up
finds no such member, the pass leaves the field alone. -/
theorem scanFieldsIn_leads {segment : List UInt8} {bound i : Nat} (hs : Leads segment fields i)
    (hi : (fieldAt fields i).found = false)
    (h : scanFieldsIn bound fields c = .ok (fields', c')) :
    (fieldAt fields' i = fieldAt fields i ∧
      descendIn segment true bound c = .error EAF_UNSUPPORTED) ∨
    ∃ d d', (fieldAt fields i).take d = .ok (fieldAt fields' i, d') ∧
      descendIn segment true bound c = parseValue d := by
  induction bound generalizing fields c with
  | zero => cases h
  | succ bound ih =>
    rw [scanFieldsIn] at h
    rw [descendIn]
    simp only at h ⊢
    split at h
    next hclose =>
      cases h
      rw [if_pos hclose]
      exact .inl ⟨rfl, rfl⟩
    next hopen =>
      rw [if_neg hopen]
      obtain ⟨⟨key, c1⟩, h1, h⟩ := bind_ok h
      obtain ⟨⟨fields1, c2⟩, h2, h⟩ := bind_ok h
      obtain ⟨next, h3, h⟩ := bind_ok h
      simp only [bind, Except.bind, h1]
      by_cases hkey : key = segment
      · -- the member that the look-up stops at
        have hwants : (fieldAt fields i).wants key = true := by
          simp [JsonField.wants, hi, hs.named, hkey]
        have hfirst : ∀ j < i, (fieldAt fields j).wants key = false := by
          intro j hj
          have hne := hs.first j hj
          rw [← hkey] at hne
          simp [JsonField.wants, hne]
        have htaken := takeField_first h2 i hs.inside hwants hfirst
        have hkept : fieldAt fields' i = fieldAt fields1 i := by
          cases next with
          | more c3 => exact scanFieldsIn_found (take_found htaken) h
          | close c3 =>
            cases h
            rfl
        rw [← hkept] at htaken
        rw [if_pos hkey]
        exact .inr ⟨c1, c2, htaken, rfl⟩
      · -- another member: the look-up steps over its value
        have hwants : (fieldAt fields i).wants key = false := by
          simp [JsonField.wants, hs.named, Ne.symm hkey]
        have hkeeps := takeField_keeps h2 i hwants
        simp only [if_neg hkey, takeField_skips h2, h3]
        cases next with
        | more c3 =>
          rw [← hkeeps]
          exact ih (leads_takeField hs h2) (by rw [hkeeps]; exact hi) h
        | close c3 =>
          cases h
          exact .inl ⟨hkeeps, rfl⟩

/-- What a look-up gives: a value, or the answer that the key is not there. -/
def lookedUp (start : JsonValue) : Except Rc (JsonValue × Span) → Except Rc JsonValue
  | .ok (v, _) => .ok v
  | .error rc => if rc = EAF_UNSUPPORTED then .ok start else .error rc

/-- The pass leaves in a field what the look-up of its key finds. -/
theorem scanFieldsIn_sought {segment : List UInt8} {bound i : Nat} (hs : Sought segment fields i)
    (hi : (fieldAt fields i).found = false)
    (h : scanFieldsIn bound fields c = .ok (fields', c')) :
    lookedUp (fieldAt fields i).value (descendIn segment true bound c) =
      .ok (fieldAt fields' i).value := by
  have hleads : Leads segment fields i := ⟨hs.inside, hs.named, hs.first⟩
  rcases scanFieldsIn_leads hleads hi h with ⟨hkept, hnone⟩ | ⟨d, d', htaken, hd⟩
  · rw [hnone, hkept]
    rfl
  · obtain ⟨v, hv, hfield⟩ := take_value hs.valued htaken
    rw [hd, hv, hfield]
    rfl

end Scan

/-! ## The numbers of a message -/

/-- The value that `eaf_sendspin_json_get` finds under a key. -/
def memberOf (key : String) (json : Span) : Option JsonValue := (jsonGet json (ascii key)).toOption

/-- The JSON integer of a value, if the value is a number. -/
def JsonValue.integer (v : JsonValue) : Option Int :=
  if v.type = .number then some (spelled v.raw.bytes) else none

/-- The JSON integer under a key of the payload. -/
def payloadInteger (key : String) (json : Span) : Option Int :=
  (memberOf "payload" json).bind fun payload =>
    (memberOf key payload.raw).bind JsonValue.integer

/-- The JSON integer under a key of the player object in the payload. -/
def playerInteger (key : String) (json : Span) : Option Int :=
  (memberOf "payload" json).bind fun payload =>
    (memberOf "player" payload.raw).bind fun player =>
      (memberOf key player.raw).bind JsonValue.integer

/-- The JSON integer of a message for one field, and the range of the field's type. -/
structure Slot where
  integer : Option Int
  least : Int
  greatest : Int

def Slot.uint8 (integer : Option Int) : Slot := ⟨integer, 0, 255⟩

def Slot.uint32 (integer : Option Int) : Slot := ⟨integer, 0, 4294967295⟩

def Slot.int32 (integer : Option Int) : Slot := ⟨integer, -2147483648, 2147483647⟩

def Slot.int64 (integer : Option Int) : Slot := ⟨integer, INT64_MIN, INT64_MAX⟩

def Slot.Fits (s : Slot) : Prop := ∀ n ∈ s.integer, s.least ≤ n ∧ n ≤ s.greatest

/-- A field holds the JSON integer that it was stored from. -/
def Slot.Exact (s : Slot) (stored : Int) : Prop := ∀ n ∈ s.integer, stored = n

/-- Every JSON integer of the message is in the range of its field's type. -/
def Fit (slots : List Slot) : Prop := ∀ s ∈ slots, s.Fits

/-- Every field that is stored from a JSON number is that integer. -/
def Kept (slots : List Slot) (stored : List Int) : Prop := List.Forall₂ Slot.Exact slots stored

def streamSlots (json : Span) : List Slot :=
  [Slot.uint32 (playerInteger "sample_rate" json), Slot.uint8 (playerInteger "channels" json),
    Slot.uint8 (playerInteger "bit_depth" json), Slot.int64 (payloadInteger "server_transmitted" json)]

def StreamStart.stored (m : StreamStart) : List Int :=
  [m.sampleRate.toNat, m.channels.toNat, m.bitDepth.toNat, m.serverTransmitted]

def commandSlots (json : Span) : List Slot :=
  [Slot.int32 (playerInteger "volume" json), Slot.int32 (playerInteger "static_delay_ms" json)]

def ServerCommand.stored (m : ServerCommand) : List Int :=
  [m.volume.toInt, m.staticDelayMs.toInt]

def helloSlots (json : Span) : List Slot := [Slot.uint32 (payloadInteger "version" json)]

def ServerHello.stored (m : ServerHello) : List Int := [m.version.toNat]

/-! ## What a field keeps of its integer -/

/-- The value that a parser has for a field, and the JSON integer in it. -/
structure Carries (w : JsonValue) (integer : Option Int) : Prop where
  number : ∀ n, integer = some n → w.type = .number ∧ w.number = clamp64 n
  other : integer = none → w.type ≠ .number

/-- What `descend` finds at the end of a path was parsed. -/
theorem descendIn_parsed {segment : List UInt8} {bound : Nat} {c c' : Span} {v : JsonValue}
    (h : descendIn segment true bound c = .ok (v, c')) : ∃ c c', parseValue c = .ok (v, c') := by
  induction bound generalizing c with
  | zero => cases h
  | succ bound ih =>
    rw [descendIn] at h
    simp only at h
    split at h
    · cases h
    · obtain ⟨⟨key, c1⟩, h1, h⟩ := bind_ok h
      split at h
      · exact ⟨c1, c', by simpa using h⟩
      · obtain ⟨c2, h2, h⟩ := bind_ok h
        obtain ⟨next, h3, h⟩ := bind_ok h
        cases next with
        | more c3 => exact ih h
        | close c3 => cases h

theorem descendAll_parsed {path : List (List UInt8)} {c : Span} {v : JsonValue}
    (h : descendAll path c = .ok v) : ∃ c c', parseValue c = .ok (v, c') := by
  induction path generalizing c with
  | nil => cases h
  | cons segment rest ih =>
    cases rest with
    | nil =>
      obtain ⟨⟨v', c'⟩, hd, heq⟩ := map_ok h
      cases heq
      unfold descend at hd
      obtain ⟨c1, h1, hd⟩ := bind_ok hd
      exact descendIn_parsed hd
    | cons segment' rest =>
      rw [descendAll] at h
      · obtain ⟨⟨v', c1⟩, h1, h⟩ := bind_ok h
        exact ih h
      · exact List.cons_ne_nil _ _

theorem jsonGet_parsed {json : Span} {path : List UInt8} {v : JsonValue}
    (h : jsonGet json path = .ok v) : ∃ c c', parseValue c = .ok (v, c') := by
  unfold jsonGet at h
  split at h
  · cases h
  · exact descendAll_parsed h

/-- A field of an object that was gone over has the value under its key. -/
theorem fieldsOf_member {object : JsonValue} {fields fields' : List JsonField} {key : String}
    {i : Nat} (hkey : ascii key ≠ [] ∧ segments (ascii key) = [ascii key])
    (hs : Sought (ascii key) fields i) (hnew : fieldAt fields i = valueField key)
    (h : fieldsOf object fields = .ok fields') :
    (fieldAt fields' i).value = (memberOf key object.raw).getD JsonValue.zero := by
  unfold fieldsOf at h
  split at h
  · cases h
  · rename_i scanned c' hscan
    cases h
    unfold scanFields at hscan
    obtain ⟨c1, h1, hscan⟩ := bind_ok hscan
    have hfound := scanFieldsIn_sought hs (by rw [hnew]; rfl) hscan
    rw [hnew] at hfound
    have hget : jsonGet object.raw (ascii key) =
        (descendIn (ascii key) true c1.bound c1).map Prod.fst := by
      simp only [jsonGet, if_neg hkey.1, hkey.2, descendAll, descend, h1, bind, Except.bind]
    unfold memberOf
    rw [hget]
    rcases hd : descendIn (ascii key) true c1.bound c1 with rc | ⟨v, c2⟩
    · simp only [hd, lookedUp] at hfound
      split at hfound
      · simpa [Except.toOption, Except.map, valueField] using (Except.ok.inj hfound).symm
      · cases hfound
    · simp only [hd, lookedUp, Except.ok.injEq] at hfound
      simp [Except.toOption, Except.map, hfound]

theorem carries_member {object : Span} {key : String} :
    Carries ((memberOf key object).getD JsonValue.zero)
      ((memberOf key object).bind JsonValue.integer) := by
  rcases hm : memberOf key object with _ | v
  · exact ⟨fun n hn => (by cases hn), fun _ => (by decide)⟩
  · have hget : jsonGet object (ascii key) = .ok v := by
      unfold memberOf at hm
      rcases hg : jsonGet object (ascii key) with rc | w
      · rw [hg] at hm
        cases hm
      · rw [hg] at hm
        cases hm
        rfl
    obtain ⟨c, c', hv⟩ := jsonGet_parsed hget
    simp only [Option.getD_some, Option.bind_some, JsonValue.integer]
    by_cases htype : v.type = .number
    · refine ⟨fun n hn => ⟨htype, ?_⟩, fun hn => ?_⟩
      · rw [if_pos htype, Option.some.injEq] at hn
        rw [← hn]
        exact parseValue_number hv htype
      · rw [if_pos htype] at hn
        cases hn
    · refine ⟨fun n hn => ?_, fun _ => htype⟩
      rw [if_neg htype] at hn
      cases hn

/-- A cast keeps the integers of its type, and no other. -/
theorem uint32_kept (n : Int) :
    ((UInt32.ofInt (clamp64 n)).toNat : Int) = n ↔ 0 ≤ n ∧ n ≤ 4294967295 := by
  simp only [UInt32.ofInt, UInt32.toNat_ofNat', clamp64, INT64_MIN, INT64_MAX]
  omega

theorem uint8_kept (n : Int) :
    ((UInt8.ofInt (clamp64 n)).toNat : Int) = n ↔ 0 ≤ n ∧ n ≤ 255 := by
  simp only [UInt8.ofInt, UInt8.toNat_ofNat', clamp64, INT64_MIN, INT64_MAX]
  omega

theorem int32_kept (n : Int) :
    (Int32.ofInt (clamp64 n)).toInt = n ↔ -2147483648 ≤ n ∧ n ≤ 2147483647 := by
  simp only [Int32.toInt_ofInt, Int.bmod_def, Int32.size, clamp64, INT64_MIN, INT64_MAX]
  omega

theorem int64_kept (n : Int) : clamp64 n = n ↔ INT64_MIN ≤ n ∧ n ≤ INT64_MAX := by
  simp only [clamp64, INT64_MIN, INT64_MAX]
  omega

theorem slot_kept {s : Slot} {stored : Int}
    (h : ∀ n, s.integer = some n → (stored = n ↔ s.least ≤ n ∧ n ≤ s.greatest)) :
    s.Exact stored ↔ s.Fits := by
  constructor
  · intro hexact n hn
    exact (h n hn).mp (hexact n hn)
  · intro hfits n hn
    exact (h n hn).mpr (hfits n hn)

/-! ## The messages -/

theorem payloadOf_member {json : Span} {payload : JsonValue} (h : payloadOf json = .ok payload) :
    memberOf "payload" json = some payload := by
  unfold payloadOf at h
  unfold memberOf
  split at h
  · cases h
  · rename_i found hget
    split at h
    · cases h
      rw [hget]
      rfl
    · cases h

theorem sought_at {key : String} {fields : List JsonField} {i : Nat} (hlt : i < fields.length)
    (hnew : fieldAt fields i = valueField key)
    (hfirst : ∀ j < i, (fieldAt fields j).key ≠ ascii key) : Sought (ascii key) fields i :=
  ⟨hlt, by rw [hnew]; rfl, by rw [hnew]; rfl, hfirst⟩

theorem fieldsOf_untouched {object : JsonValue} {fields fields' : List JsonField} {i : Nat}
    (h : fieldsOf object fields = .ok fields') (hi : (fieldAt fields' i).found = false) :
    fieldAt fields' i = fieldAt fields i := by
  unfold fieldsOf at h
  split at h
  · cases h
  · rename_i scanned c' hscan
    cases h
    unfold scanFields at hscan
    obtain ⟨c1, h1, hscan⟩ := bind_ok hscan
    exact scanFieldsIn_untouched hi hscan

theorem playerOf_member {payload player : JsonValue} {fields fields' : List JsonField}
    (hs : Sought (ascii "player") fields 0) (hnew : fieldAt fields 0 = valueField "player")
    (hfields : fieldsOf payload fields = .ok fields') (h : playerOf fields' = .ok player) :
    memberOf "player" payload.raw = some player := by
  have hvalue := fieldsOf_member (by decide) hs hnew hfields
  unfold playerOf at h
  split at h
  · rename_i hobject
    cases h
    rcases hm : memberOf "player" payload.raw with _ | v
    · rw [hvalue, hm] at hobject
      exact absurd hobject.2 (by decide)
    · rw [hvalue, hm]
      rfl
  · cases h

/-- A field of the payload carries the integer under its key. -/
theorem carries_payload {json : Span} {payload : JsonValue} {fields fields' : List JsonField}
    (key : String) (i : Nat) (hkey : ascii key ≠ [] ∧ segments (ascii key) = [ascii key])
    (hpayload : memberOf "payload" json = some payload) (hs : Sought (ascii key) fields i)
    (hnew : fieldAt fields i = valueField key) (h : fieldsOf payload fields = .ok fields') :
    Carries (fieldAt fields' i).value (payloadInteger key json) := by
  rw [fieldsOf_member hkey hs hnew h, payloadInteger, hpayload]
  exact carries_member

/-- A field of the player object carries the integer under its key. -/
theorem carries_player {json : Span} {payload player : JsonValue}
    {fields fields' : List JsonField} (key : String) (i : Nat)
    (hkey : ascii key ≠ [] ∧ segments (ascii key) = [ascii key])
    (hpayload : memberOf "payload" json = some payload)
    (hplayer : memberOf "player" payload.raw = some player) (hs : Sought (ascii key) fields i)
    (hnew : fieldAt fields i = valueField key) (h : fieldsOf player fields = .ok fields') :
    Carries (fieldAt fields' i).value (playerInteger key json) := by
  rw [fieldsOf_member hkey hs hnew h, playerInteger, hpayload, Option.bind_some, hplayer]
  exact carries_member

theorem kept_iff {slots : List Slot} {stored : List Int}
    (h : List.Forall₂ (fun s v => s.Exact v ↔ s.Fits) slots stored) :
    Kept slots stored ↔ Fit slots := by
  unfold Kept Fit
  induction h with
  | nil => simp
  | cons hslot hslots ih => rw [List.forall₂_cons, List.forall_mem_cons, hslot, ih]

theorem streamStart_kept {json : Span} {m : StreamStart} (h : parseStreamStart json = .ok m) :
    Kept (streamSlots json) m.stored ↔ Fit (streamSlots json) := by
  unfold parseStreamStart at h
  obtain ⟨⟨payloadFields, playerFields⟩, hstream, h⟩ := bind_ok h
  unfold streamFields at hstream
  obtain ⟨payload, hpayload, hstream⟩ := bind_ok hstream
  obtain ⟨fields1, h1, hstream⟩ := bind_ok hstream
  obtain ⟨player, hplayer, hstream⟩ := bind_ok hstream
  obtain ⟨fields2, h2, hstream⟩ := bind_ok hstream
  cases hstream
  have hin := payloadOf_member hpayload
  have hplayerIn := playerOf_member (sought_at (by decide) rfl (by decide)) rfl h1 hplayer
  have htransmitted := carries_payload "server_transmitted" 1 (by decide) hin
    (sought_at (by decide) rfl (by decide)) rfl h1
  have hrate := carries_player "sample_rate" 1 (by decide) hin hplayerIn
    (sought_at (by decide) rfl (by decide)) rfl h2
  have hchannels := carries_player "channels" 2 (by decide) hin hplayerIn
    (sought_at (by decide) rfl (by decide)) rfl h2
  have hdepth := carries_player "bit_depth" 3 (by decide) hin hplayerIn
    (sought_at (by decide) rfl (by decide)) rfl h2
  simp only at h
  split at h
  case isFalse => cases h
  cases h
  refine kept_iff (.cons ?_ (.cons ?_ (.cons ?_ (.cons ?_ .nil))))
  · refine slot_kept fun n hn => ?_
    rw [(hrate.number n hn).2]
    exact uint32_kept n
  · refine slot_kept fun n hn => ?_
    rw [(hchannels.number n hn).2]
    exact uint8_kept n
  · refine slot_kept fun n hn => ?_
    rw [(hdepth.number n hn).2]
    exact uint8_kept n
  · refine slot_kept fun n hn => ?_
    obtain ⟨htype, hnumber⟩ := htransmitted.number n hn
    rw [if_pos htype, hnumber]
    exact int64_kept n

theorem serverCommand_kept {json : Span} {m : ServerCommand}
    (h : parseServerCommand json = .ok m) :
    Kept (commandSlots json) m.stored ↔ Fit (commandSlots json) := by
  unfold parseServerCommand at h
  obtain ⟨payload, hpayload, h⟩ := bind_ok h
  obtain ⟨fields1, h1, h⟩ := bind_ok h
  obtain ⟨player, hplayer, h⟩ := bind_ok h
  obtain ⟨fields2, h2, h⟩ := bind_ok h
  have hin := payloadOf_member hpayload
  have hplayerIn := playerOf_member (sought_at (by decide) rfl (by decide)) rfl h1 hplayer
  have hvolume := carries_player "volume" 1 (by decide) hin hplayerIn
    (sought_at (by decide) rfl (by decide)) rfl h2
  have hdelay := carries_player "static_delay_ms" 3 (by decide) hin hplayerIn
    (sought_at (by decide) rfl (by decide)) rfl h2
  simp only at h
  split at h
  case isFalse => cases h
  cases h
  refine kept_iff (.cons ?_ (.cons ?_ .nil))
  · refine slot_kept fun n hn => ?_
    obtain ⟨htype, hnumber⟩ := hvolume.number n hn
    rw [if_pos htype, hnumber]
    exact int32_kept n
  · refine slot_kept fun n hn => ?_
    obtain ⟨htype, hnumber⟩ := hdelay.number n hn
    rw [if_pos htype, hnumber]
    exact int32_kept n

theorem serverHello_kept {json : Span} {m : ServerHello} (h : parseServerHello json = .ok m) :
    Kept (helloSlots json) m.stored ↔ Fit (helloSlots json) := by
  unfold parseServerHello at h
  obtain ⟨payload, hpayload, h⟩ := bind_ok h
  obtain ⟨fields, h1, h⟩ := bind_ok h
  have hin := payloadOf_member hpayload
  have hversion := carries_payload "version" 4 (by decide) hin
    (sought_at (by decide) rfl (by decide)) rfl h1
  split at h
  case isFalse => cases h
  cases h
  refine kept_iff (.cons ?_ .nil)
  refine slot_kept fun n hn => ?_
  obtain ⟨htype, hnumber⟩ := hversion.number n hn
  have hfound : (fieldAt fields 4).found = true := by
    by_contra hnot
    rw [fieldsOf_untouched h1 (by simpa using hnot)] at htype
    exact absurd htype (by decide)
  rw [if_pos ⟨hfound, htype⟩, hnumber]
  exact uint32_kept n

/-! ## Exactly when the numbers are kept -/

/-- An accepted message is stored exactly if and only if each of its numbers is in the range of
the field that it goes to. The parsers test no range: the reader takes the nearest 64-bit
number, and the casts take the low bits of that. -/
theorem numbers_kept (json : Span) :
    (∀ m, parseStreamStart json = .ok m →
      (Kept (streamSlots json) m.stored ↔ Fit (streamSlots json))) ∧
    (∀ m, parseServerCommand json = .ok m →
      (Kept (commandSlots json) m.stored ↔ Fit (commandSlots json))) ∧
    (∀ m, parseServerHello json = .ok m →
      (Kept (helloSlots json) m.stored ↔ Fit (helloSlots json))) :=
  ⟨fun _ h => streamStart_kept h, fun _ h => serverCommand_kept h, fun _ h => serverHello_kept h⟩

/-- A stream of 258 channels. -/
def wideStart : Span :=
  ⟨0, ascii "\x7b\"payload\":\x7b\"player\":\x7b\"codec\":\"pcm\"," ++
    ascii "\"sample_rate\":48000,\"channels\":258,\"bit_depth\":16\x7d\x7d\x7d"⟩

def wideStartParsed : StreamStart := ⟨0, .pcm, 48000, 2, 16, ⟨0, []⟩⟩

theorem parse_wideStart : parseStreamStart wideStart = .ok wideStartParsed := by decide +kernel

theorem numbers_kept_wide :
    Kept (streamSlots wideStart) wideStartParsed.stored ↔ Fit (streamSlots wideStart) :=
  (numbers_kept wideStart).1 wideStartParsed parse_wideStart

/-- The 258 channels are accepted as 2. -/
theorem wide_not_kept :
    ¬∀ (json : Span) (m : StreamStart), parseStreamStart json = .ok m →
      Kept (streamSlots json) m.stored := by
  intro h
  have hkept := h wideStart wideStartParsed parse_wideStart
  unfold Kept streamSlots StreamStart.stored at hkept
  have hchannels := (List.forall₂_cons.mp (List.forall₂_cons.mp hkept).2).1
  exact absurd (hchannels 258 (by decide +kernel)) (by decide)

end EmbeddedAudio.Sendspin
