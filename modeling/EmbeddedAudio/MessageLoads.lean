-- The look-ups and the parsers on pointers go in step with those on bytes, so that no message
-- makes them load anything outside of it.
import EmbeddedAudio.JsonLoads

namespace EmbeddedAudio.Sendspin.Pointer

open Lockstep

/-! ## Values -/

/-- The views of a value are of the message. -/
structure ValueHeld (json : List UInt8) (v : JsonValue) : Prop where
  string : Held json v.string
  raw : Held json v.raw

section Values

variable {json : List UInt8} {last : Nat} {c c' : Cursor} {s s' : Span}

theorem valueHeld_zero : ValueHeld json JsonValue.zero := ⟨held_empty json, held_empty json⟩

theorem Held.cursorOver (h : Held json s) : At json (s.start + s.bytes.length) (cursorOver s) s :=
  ⟨rfl, Nat.le_add_right _ _, h.inside, h.view⟩

theorem At.upTo_eq (h : At json last c s) (h' : At json last c' s') (hle : s.start ≤ s'.start) :
    piece json c.p c'.p = s.upTo s' := by
  have hstart := h.start_eq
  have hstart' := h'.start_eq
  have hleft := h.left_eq
  have hle' := h'.le
  have hpiece := h.piece_eq (n := s'.start - s.start) (by omega)
  have hsum : c.p + (s'.start - s.start) = c'.p := by omega
  rw [hsum] at hpiece
  exact hpiece

/-- A value gets the view that it was taken from. -/
theorem taken_held (h : At json last c s) (h' : At json last c' s') (hahead : Ahead s s')
    (v : JsonValue) (hv : Held json v.string) :
    ({ v with raw := piece json c.p c'.p } : JsonValue) = { v with raw := s.upTo s' } ∧
      ValueHeld json { v with raw := piece json c.p c'.p } ∧ At json last c' s' := by
  have hle := hahead.start_le
  have hstart := h.start_eq
  have hstart' := h'.start_eq
  refine ⟨?_, ⟨hv, ?_⟩, h'⟩
  · rw [h.upTo_eq h' hle]
  · exact held_piece (by omega) (Nat.le_trans h'.le h'.inside)

theorem parseValue_follows (h : At json last c s) :
    FollowsWith (ValueHeld json) json last (parseValue json c) (Sendspin.parseValue s) := by
  unfold parseValue Sendspin.parseValue
  apply (skipWs_follows h).bind_ok
  intro c h
  have hempty := held_empty json
  cases hs : (Sendspin.skipWs s).bytes with
  | nil =>
    rw [here_none h hs]
    simp only [hs]
    exact .error _
  | cons b rest =>
    obtain ⟨hhere, hlt⟩ := here_byte h hs
    have hbyte : Ahead (Sendspin.skipWs s) ((Sendspin.skipWs s).advance 1) :=
      ahead_byte (by rw [hs]; rfl)
    simp only [hs, hhere, bind, Except.bind]
    apply InStep.ite
    · intro _
      exact (skipObject_follows h hlt).map_eq fun a b hb hab =>
        taken_held h hab (hbyte.trans ((aheads _).object hb))
          { JsonValue.zero with type := .object } hempty
    intro _
    apply InStep.ite
    · intro _
      exact (skipArray_follows h hlt).map_eq fun a b hb hab =>
        taken_held h hab (hbyte.trans ((aheads _).array hb))
          { JsonValue.zero with type := .array } hempty
    intro _
    apply InStep.ite
    · intro _
      apply (scanString_follows h).map_eq
      rintro ⟨text, after⟩ ⟨text', after'⟩ hb ⟨rfl, htext, hat⟩
      exact taken_held h hat (ahead_scanString hb) ⟨.string, false, 0, text, ⟨0, []⟩⟩ htext
    intro _
    apply InStep.ite
    · intro _
      exact (matchLiteral_follows h _).map_eq fun a b hb hab =>
        taken_held h hab (ahead_matchLiteral hb) ⟨.bool, true, 0, ⟨0, []⟩, ⟨0, []⟩⟩ hempty
    intro _
    apply InStep.ite
    · intro _
      exact (matchLiteral_follows h _).map_eq fun a b hb hab =>
        taken_held h hab (ahead_matchLiteral hb) { JsonValue.zero with type := .bool } hempty
    intro _
    apply InStep.ite
    · intro _
      exact (matchLiteral_follows h _).map_eq fun a b hb hab =>
        taken_held h hab (ahead_matchLiteral hb) JsonValue.zero hempty
    · intro _
      apply (parseNumber_follows h).map_eq
      rintro ⟨n, after⟩ ⟨n', after'⟩ hb ⟨rfl, -, hat⟩
      exact taken_held h hat (ahead_skipNumber (parseNumber_skips hb))
        ⟨.number, false, n, ⟨0, []⟩, ⟨0, []⟩⟩ hempty

/-! ## Strings that are compared -/

/-- A view is the text if it is as long as the text and has its bytes. -/
theorem keyIs_held (h : Held json s) (text : List UInt8) :
    keyIs json s text = .ok (s.bytes == text) := by
  unfold keyIs
  by_cases hlength : s.bytes.length = text.length
  · have hin := h.inside
    rw [if_pos hlength, equalAt_prefix _ _ (by omega)]
    have hbytes : s.bytes = (json.drop s.start).take text.length := by
      have hview := congrArg Span.bytes h.view
      rw [← hlength]
      unfold piece at hview
      rw [Nat.add_sub_cancel_left] at hview
      exact hview
    congr 1
    rw [Bool.eq_iff_iff, List.isPrefixOf_iff_prefix, List.prefix_iff_eq_take, ← hbytes, beq_iff_eq]
    exact eq_comm
  · rw [if_neg hlength]
    congr 1
    exact (beq_eq_false_iff_ne.mpr fun hsame => hlength (congrArg List.length hsame)).symm

theorem jsonStringEquals_held {value : JsonValue} (h : ValueHeld json value) (text : String) :
    jsonStringEquals json value text = .ok (Sendspin.jsonStringEquals value text) := by
  have hkey := keyIs_held h.string (ascii text)
  unfold keyIs at hkey
  unfold jsonStringEquals Sendspin.jsonStringEquals
  by_cases htype : value.type = .string
  · simp only [htype, true_and, beq_self_eq_true, Bool.true_and]
    exact hkey
  · have hfalse : (value.type == JsonType.string) = false := beq_eq_false_iff_ne.mpr htype
    rw [if_neg (fun h => htype h.1), hfalse]
    rfl

/-! ## The search for a string -/

/-- Two searches that have found the same, and are at the same place. -/
def Finds (json : List UInt8) (last : Nat) (r : Bool × Except Stop Cursor)
    (r' : Bool × Except Rc Span) : Prop :=
  r.1 = r'.1 ∧ Follows json last r.2 r'.2

theorem takeElement_finds (h : At json last c s) (needle : List UInt8) (member : Bool) :
    Finds json last (takeElement json needle member c) (Sendspin.takeElement needle member s) := by
  unfold takeElement Sendspin.takeElement
  rw [isAt_byte h]
  by_cases hquote : s.bytes.head? = some QUOTE
  · rw [decide_eq_true hquote, if_pos hquote]
    have hscan := scanString_follows h
    generalize scanString json c = r at hscan
    generalize Sendspin.scanString s = r' at hscan
    cases hscan with
    | error rc => exact ⟨rfl, .error rc⟩
    | @ok a b hab =>
      obtain ⟨element, c'⟩ := a
      obtain ⟨element', s'⟩ := b
      obtain ⟨rfl, helement, hat⟩ := hab
      have hkey := keyIs_held helement needle
      unfold keyIs at hkey
      simp only
      cases member with
      | true => exact ⟨rfl, .ok hat⟩
      | false =>
        by_cases hlength : element.bytes.length = needle.length
        · rw [if_pos hlength] at hkey
          rw [if_pos ⟨rfl, hlength⟩, hkey, Bool.false_or]
          exact ⟨rfl, .ok hat⟩
        · rw [if_neg hlength] at hkey
          rw [if_neg (fun h => hlength h.2), ← Except.ok.inj hkey]
          exact ⟨rfl, .ok hat⟩
  · rw [decide_eq_false hquote, if_neg hquote]
    exact ⟨rfl, skipValue_follows h⟩

theorem membershipIn_finds {bound : Nat} (h : At json last c s) (needle : List UInt8)
    (member : Bool) (hb : s.left < bound) :
    Finds json last (membershipIn json needle bound member c)
      (Sendspin.membershipIn needle bound member s) := by
  induction bound generalizing c s member with
  | zero => exact absurd hb (Nat.not_lt_zero _)
  | succ bound ih =>
    rw [membershipIn, Sendspin.membershipIn]
    obtain ⟨c1, hc1, h1⟩ := (skipWs_follows h).given
    have hleft1 := left_skipWs s
    rw [hc1]
    have htake := takeElement_finds h1 needle member
    have hahead : ∀ s2, (Sendspin.takeElement needle member (Sendspin.skipWs s)).2 = .ok s2 →
        s2.left ≤ s.left := fun s2 hs2 => (ahead_takeElement hs2).left_le.trans hleft1
    simp only
    generalize takeElement json needle member c1 = r at htake
    generalize Sendspin.takeElement needle member (Sendspin.skipWs s) = r' at htake hahead
    obtain ⟨found, taken⟩ := r
    obtain ⟨found', taken'⟩ := r'
    obtain ⟨hfound, htaken⟩ := htake
    simp only at hfound htaken hahead ⊢
    subst hfound
    cases htaken with
    | error rc => exact ⟨rfl, .error rc⟩
    | @ok c2 s2 h2 =>
      have hleft2 := hahead s2 rfl
      have hsep := separator_follows h2 RBRACKET
      have hlt : ∀ next, Sendspin.separator RBRACKET s2 = .ok next → next.cursor.left < s2.left :=
        fun next hnext => left_separator hnext
      simp only [Except.bind]
      generalize separator json RBRACKET c2 = q at hsep
      generalize Sendspin.separator RBRACKET s2 = q' at hsep hlt
      cases hsep with
      | error rc => exact ⟨rfl, .error rc⟩
      | ok hnext =>
        cases hnext with
        | close h3 => exact ⟨rfl, .ok h3⟩
        | more h3 =>
          have hleft3 := hlt _ rfl
          simp only [Sendspin.Next.cursor] at hleft3
          exact ih h3 found (by omega)

theorem parseArrayMembership_finds (h : At json last c s) (needle : List UInt8) (member : Bool) :
    Finds json last (parseArrayMembership json needle member c)
      (Sendspin.parseArrayMembership needle member s) := by
  unfold parseArrayMembership Sendspin.parseArrayMembership
  obtain ⟨c1, hc1, h1⟩ := (skipWs_follows h).given
  rw [hc1]
  simp only [isAt_byte h1]
  by_cases hopen : (Sendspin.skipWs s).bytes.head? = some LBRACKET
  · rw [decide_eq_true hopen, if_pos hopen]
    obtain ⟨c2, hc2, h2⟩ := (skipWs_follows (h1.next (h1.lt_of_test hopen))).given
    unfold membersOf
    simp only [hc2, isAt_byte h2]
    by_cases hclose : (Sendspin.skipWs ((Sendspin.skipWs s).advance 1)).bytes.head? = some RBRACKET
    · rw [decide_eq_true hclose, if_pos hclose]
      exact ⟨rfl, .ok (h2.next (h2.lt_of_test hclose))⟩
    · rw [decide_eq_false hclose, if_neg hclose, h2.bound_eq]
      apply membershipIn_finds h2
      unfold Span.bound Span.left
      omega
  · rw [decide_eq_false hopen, if_neg hopen]
    exact ⟨rfl, skipValue_follows h1⟩

/-- The search in a value always has an answer. -/
theorem jsonArrayContains_held {array : JsonValue} (h : ValueHeld json array)
    (needle : List UInt8) :
    jsonArrayContains json array needle = .ok (Sendspin.jsonArrayContains array needle) := by
  unfold jsonArrayContains Sendspin.jsonArrayContains
  have hfinds := parseArrayMembership_finds h.raw.cursorOver needle false
  generalize parseArrayMembership json needle false (cursorOver array.raw) = r at hfinds
  generalize Sendspin.parseArrayMembership needle false array.raw = r' at hfinds
  obtain ⟨member, after⟩ := r
  obtain ⟨member', after'⟩ := r'
  obtain ⟨hmember, hafter⟩ := hfinds
  simp only at hmember hafter ⊢
  subst hmember
  by_cases htype : array.type = .array
  · rw [if_pos htype, htype]
    cases hafter with
    | ok hat => rfl
    | error rc => rfl
  · have hfalse : (array.type == JsonType.array) = false := beq_eq_false_iff_ne.mpr htype
    rw [if_neg htype, hfalse]
    rfl

/-! ## The fields of an object -/

def FieldHeld (json : List UInt8) (f : JsonField) : Prop := ValueHeld json f.value

theorem wants_held (h : Held json s) (f : JsonField) : wants json s f = .ok (f.wants s.bytes) := by
  unfold wants JsonField.wants
  cases f.found with
  | true => rfl
  | false =>
    rw [if_neg Bool.false_ne_true, keyIs_held h, Bool.not_false, Bool.true_and, Bool.beq_comm]

theorem take_follows (h : At json last c s) {f : JsonField} (hf : FieldHeld json f) :
    FollowsWith (FieldHeld json) json last (take json c f) (f.take s) := by
  obtain ⟨key, needle, value, member, found⟩ := f
  unfold take JsonField.take
  cases needle with
  | some needle =>
    obtain ⟨hmember, hafter⟩ := parseArrayMembership_finds h needle member
    simp only [hmember]
    exact hafter.map fun a b hab => ⟨rfl, hf, hab⟩
  | none =>
    apply (parseValue_follows h).map
    rintro ⟨v, c'⟩ ⟨v', s'⟩ ⟨rfl, hv, hat⟩
    exact ⟨rfl, hv, hat⟩

theorem takeField_follows (h : At json last c s) {key : Span} (hkey : Held json key)
    {fields : List JsonField} (hf : ∀ f ∈ fields, FieldHeld json f) :
    FollowsWith (fun fields => ∀ f ∈ fields, FieldHeld json f) json last
      (takeField json key c fields) (Sendspin.takeField key.bytes s fields) := by
  induction fields with
  | nil =>
    rw [takeField, Sendspin.takeField]
    exact (skipValue_follows h).map fun a b hab => ⟨rfl, List.forall_mem_nil _, hab⟩
  | cons f fields ih =>
    obtain ⟨hhead, htail⟩ := List.forall_mem_cons.mp hf
    rw [takeField, Sendspin.takeField, wants_held hkey]
    apply InStep.ite
    · intro _
      apply (take_follows h hhead).map
      rintro ⟨g, c'⟩ ⟨g', s'⟩ ⟨rfl, hg, hat⟩
      exact ⟨rfl, List.forall_mem_cons.mpr ⟨hg, htail⟩, hat⟩
    · intro _
      apply (ih htail).map
      rintro ⟨rest, c'⟩ ⟨rest', s'⟩ ⟨rfl, hrest, hat⟩
      exact ⟨rfl, List.forall_mem_cons.mpr ⟨hhead, hrest⟩, hat⟩

theorem scanKey_follows (h : At json last c s) :
    InStep .code (fun a b => a.1.bytes = b.1 ∧ Held json a.1 ∧ At json last a.2 b.2)
      (scanKey json c) (Sendspin.scanKey s) := by
  unfold scanKey Sendspin.scanKey
  apply (scanString_follows h).bind
  rintro ⟨key, c1⟩ ⟨key', s1⟩ ⟨rfl, hkey, h1⟩
  apply (skipWs_follows h1).bind_ok
  intro c2 h2
  apply (expect_follows h2 COLON).bind
  intro c3 s3 h3
  exact .ok ⟨rfl, hkey, h3⟩

/-- There is no key where there is no byte. -/
theorem scanKey_none (hs : s.bytes = []) : Sendspin.scanKey s = .error EAF_INVALID := by
  unfold Sendspin.scanKey Sendspin.scanString Sendspin.expect
  rw [hs]
  rfl

theorem scanFieldsIn_follows {bound : Nat} (h : At json last c s) {fields : List JsonField}
    (hf : ∀ f ∈ fields, FieldHeld json f) (hb : s.left < bound) :
    FollowsWith (fun fields => ∀ f ∈ fields, FieldHeld json f) json last
      (scanFieldsIn json bound fields c) (Sendspin.scanFieldsIn bound fields s) := by
  induction bound generalizing c s fields with
  | zero => exact absurd hb (Nat.not_lt_zero _)
  | succ bound ih =>
    rw [scanFieldsIn, Sendspin.scanFieldsIn]
    apply (skipWs_follows h).bind_ok
    intro c1 h1
    have hleft1 := left_skipWs s
    cases hs : (Sendspin.skipWs s).bytes with
    | nil =>
      rw [here_none h1 hs]
      simp only [List.head?_nil, reduceCtorEq, if_false, scanKey_none hs]
      exact .error _
    | cons b rest =>
      obtain ⟨hhere, hlt⟩ := here_byte h1 hs
      simp only [hhere, bind, Except.bind, List.head?_cons, Option.some.injEq]
      apply InStep.ite
      · intro _
        exact .ok ⟨rfl, hf, h1.next hlt⟩
      · intro _
        apply (scanKey_follows h1).bind_eq
        rintro ⟨key, c2⟩ ⟨key', s2⟩ hs2 ⟨rfl, hkey, h2⟩
        have hleft2 := (ahead_scanKey hs2).left_le
        apply (takeField_follows h2 hkey hf).bind_eq
        rintro ⟨fields1, c3⟩ ⟨fields1', s3⟩ hs3 ⟨rfl, hf1, h3⟩
        have hleft3 := (ahead_skipValue (takeField_skips hs3)).left_le
        apply (separator_follows h3 RBRACE).bind_eq
        intro next next' hnext hat
        have hleft4 := left_separator hnext
        simp only at hleft2 hleft3 hleft4
        cases hat with
        | more h4 =>
          simp only [Sendspin.Next.cursor] at hleft4
          exact ih h4 hf1 (by omega)
        | close h4 => exact .ok ⟨rfl, hf1, h4⟩

theorem scanFields_follows (h : At json last c s) {fields : List JsonField}
    (hf : ∀ f ∈ fields, FieldHeld json f) :
    FollowsWith (fun fields => ∀ f ∈ fields, FieldHeld json f) json last
      (scanFields json fields c) (Sendspin.scanFields fields s) := by
  unfold scanFields Sendspin.scanFields
  apply (skipWs_follows h).bind_ok
  intro c1 h1
  apply (expect_follows h1 LBRACE).bind
  intro c2 s2 h2
  rw [h2.bound_eq]
  apply scanFieldsIn_follows h2 hf
  unfold Span.bound Span.left
  omega

/-! ## Look-up of a path -/

theorem descendIn_follows {bound : Nat} (h : At json last c s) (segment : List UInt8) (leaf : Bool)
    (hb : s.left < bound) :
    FollowsWith (ValueHeld json) json last (descendIn json segment leaf bound c)
      (Sendspin.descendIn segment leaf bound s) := by
  induction bound generalizing c s with
  | zero => exact absurd hb (Nat.not_lt_zero _)
  | succ bound ih =>
    rw [descendIn, Sendspin.descendIn]
    apply (skipWs_follows h).bind_ok
    intro c1 h1
    have hleft1 := left_skipWs s
    cases hs : (Sendspin.skipWs s).bytes with
    | nil =>
      rw [here_none h1 hs]
      simp only [List.head?_nil, reduceCtorEq, if_false, scanKey_none hs]
      exact .error _
    | cons b rest =>
      obtain ⟨hhere, hlt⟩ := here_byte h1 hs
      simp only [hhere, bind, Except.bind, List.head?_cons, Option.some.injEq]
      apply InStep.ite
      · intro _
        exact .error _
      · intro _
        apply (scanKey_follows h1).bind_eq
        rintro ⟨key, c2⟩ ⟨key', s2⟩ hs2 ⟨rfl, hkey, h2⟩
        have hleft2 := (ahead_scanKey hs2).left_le
        simp only [keyIs_held hkey, beq_iff_eq]
        apply InStep.ite
        · intro _
          apply InStep.ite
          · intro _
            exact parseValue_follows h2
          · intro _
            exact .ok ⟨rfl, valueHeld_zero, h2⟩
        · intro _
          apply (skipValue_follows h2).bind_eq
          intro c3 s3 hs3 h3
          have hleft3 := (ahead_skipValue hs3).left_le
          apply (separator_follows h3 RBRACE).bind_eq
          intro next next' hnext hat
          have hleft4 := left_separator hnext
          simp only at hleft2 hleft3 hleft4
          cases hat with
          | more h4 =>
            simp only [Sendspin.Next.cursor] at hleft4
            exact ih h4 (by omega)
          | close h4 => exact .error _

theorem descend_follows (h : At json last c s) (segment : List UInt8) (leaf : Bool) :
    FollowsWith (ValueHeld json) json last (descend json segment leaf c)
      (Sendspin.descend segment leaf s) := by
  unfold descend Sendspin.descend
  apply (skipWs_follows h).bind_ok
  intro c1 h1
  apply (expect_follows h1 LBRACE).bind
  intro c2 s2 h2
  rw [h2.bound_eq]
  apply descendIn_follows h2
  unfold Span.bound Span.left
  omega

/-- Two runs that give one result, with views of the message in it. -/
abbrev Gives {α : Type} (P : α → Prop) : Except Stop α → Except Rc α → Prop :=
  InStep .code fun a b => a = b ∧ P a

theorem descendAll_gives (h : At json last c s) (path : List (List UInt8)) :
    Gives (ValueHeld json) (descendAll json path c) (Sendspin.descendAll path s) := by
  induction path generalizing c s with
  | nil => exact .error _
  | cons segment rest ih =>
    cases rest with
    | nil =>
      rw [descendAll, Sendspin.descendAll]
      exact (descend_follows h segment true).map fun a b hab => ⟨hab.1, hab.2.1⟩
    | cons segment' rest =>
      rw [descendAll, Sendspin.descendAll]
      · apply (descend_follows h segment false).bind
        rintro ⟨v, c1⟩ ⟨v', s1⟩ ⟨-, -, h1⟩
        exact ih h1
      · exact List.cons_ne_nil _ _
      · exact List.cons_ne_nil _ _

theorem whole (json : List UInt8) : At json json.length ⟨0, json.length⟩ ⟨0, json⟩ := by
  refine ⟨rfl, Nat.zero_le _, Nat.le_refl _, ?_⟩
  unfold piece
  rw [List.drop_zero, Nat.sub_zero, List.take_length]

theorem jsonGet_gives (json path : List UInt8) :
    Gives (ValueHeld json) (jsonGet json path) (Sendspin.jsonGet ⟨0, json⟩ path) := by
  unfold jsonGet Sendspin.jsonGet
  apply InStep.ite
  · intro _
    exact .error _
  · intro _
    exact descendAll_gives (whole json) _

/-! ## The parsers -/

theorem payloadOf_gives (json : List UInt8) :
    Gives (ValueHeld json) (payloadOf json) (Sendspin.payloadOf ⟨0, json⟩) := by
  unfold payloadOf Sendspin.payloadOf
  have hget := jsonGet_gives json (ascii "payload")
  generalize jsonGet json (ascii "payload") = r at hget
  generalize Sendspin.jsonGet ⟨0, json⟩ (ascii "payload") = r' at hget
  cases hget with
  | error rc => exact .error _
  | @ok payload payload' hab =>
    obtain ⟨rfl, hheld⟩ := hab
    apply InStep.ite
    · intro _
      exact .ok ⟨rfl, hheld⟩
    · intro _
      exact .error _

theorem fieldsOf_gives {object : JsonValue} (h : ValueHeld json object) {fields : List JsonField}
    (hf : ∀ f ∈ fields, FieldHeld json f) :
    Gives (fun fields => ∀ f ∈ fields, FieldHeld json f) (fieldsOf json object fields)
      (Sendspin.fieldsOf object fields) := by
  unfold fieldsOf Sendspin.fieldsOf
  have hscan := scanFields_follows h.raw.cursorOver hf
  generalize scanFields json fields (cursorOver object.raw) = r at hscan
  generalize Sendspin.scanFields fields object.raw = r' at hscan
  cases hscan with
  | error rc => exact .error _
  | ok hab => exact .ok ⟨hab.1, hab.2.1⟩

theorem fieldAt_held {fields : List JsonField} (h : ∀ f ∈ fields, FieldHeld json f) (i : Nat) :
    ValueHeld json (fieldAt fields i).value := by
  unfold fieldAt
  rw [List.getD_eq_getElem?_getD]
  cases hi : fields[i]? with
  | none => exact valueHeld_zero
  | some f => exact h f (List.mem_of_getElem? hi)

theorem playerOf_gives {fields : List JsonField} (h : ∀ f ∈ fields, FieldHeld json f) :
    Gives (ValueHeld json) (playerOf fields) (Sendspin.playerOf fields) := by
  unfold playerOf Sendspin.playerOf
  apply InStep.ite
  · intro _
    exact .ok ⟨rfl, fieldAt_held h 0⟩
  · intro _
    exact .error _

/-- The fields of a request hold nothing yet. -/
theorem valueFields_held (keys : List String) :
    ∀ f ∈ keys.map valueField, FieldHeld json f := by
  intro f hf
  obtain ⟨key, -, rfl⟩ := List.mem_map.mp hf
  exact valueHeld_zero

theorem codecFromValue_held {value : JsonValue} (h : ValueHeld json value) :
    codecFromValue json value = .ok (Sendspin.codecFromValue value) := by
  unfold codecFromValue Sendspin.codecFromValue
  simp only [jsonStringEquals_held h, bind, Except.bind]
  split_ifs <;> rfl

theorem commandFromValue_held {value : JsonValue} (h : ValueHeld json value) :
    commandFromValue json value = .ok (
      if Sendspin.jsonStringEquals value "volume" then .volume
      else if Sendspin.jsonStringEquals value "mute" then .mute
      else if Sendspin.jsonStringEquals value "set_static_delay" then .setStaticDelay
      else .unknown) := by
  unfold commandFromValue
  simp only [jsonStringEquals_held h, bind, Except.bind]
  split_ifs <;> rfl

/-- A parser on pointers gives what the parser on bytes gives. -/
abbrev Parses {α : Type} : Except Stop α → Except Rc α → Prop := InStep .code Eq

theorem parseServerHello_parses (json : List UInt8) :
    Parses (parseServerHello json) (Sendspin.parseServerHello ⟨0, json⟩) := by
  unfold parseServerHello Sendspin.parseServerHello
  apply (payloadOf_gives json).bind
  rintro payload _ ⟨rfl, hpayload⟩
  apply (fieldsOf_gives hpayload ?_).bind
  · rintro fields _ ⟨rfl, -⟩
    apply InStep.ite
    · intro _
      exact .ok rfl
    · intro _
      exact .error _
  · exact List.forall_mem_cons.mpr ⟨valueHeld_zero,
      valueFields_held ["server_id", "name", "connection_reason", "version"]⟩

theorem parseServerTime_parses (json : List UInt8) :
    Parses (parseServerTime json) (Sendspin.parseServerTime ⟨0, json⟩) := by
  unfold parseServerTime Sendspin.parseServerTime
  apply (payloadOf_gives json).bind
  rintro payload _ ⟨rfl, hpayload⟩
  apply (fieldsOf_gives hpayload
    (valueFields_held ["client_transmitted", "server_received", "server_transmitted"])).bind
  rintro fields _ ⟨rfl, -⟩
  apply InStep.ite
  · intro _
    exact .ok rfl
  · intro _
    exact .error _

theorem parseStreamStart_parses (json : List UInt8) :
    Parses (parseStreamStart json) (Sendspin.parseStreamStart ⟨0, json⟩) := by
  unfold parseStreamStart Sendspin.parseStreamStart streamFields
  simp only [bind_assoc]
  apply (payloadOf_gives json).bind
  rintro payload _ ⟨rfl, hpayload⟩
  apply (fieldsOf_gives hpayload (valueFields_held ["player", "server_transmitted"])).bind
  rintro payloadFields _ ⟨rfl, hfields⟩
  apply (playerOf_gives hfields).bind
  rintro player _ ⟨rfl, hplayer⟩
  apply (fieldsOf_gives hplayer
    (valueFields_held ["codec", "sample_rate", "channels", "bit_depth", "codec_header"])).bind
  rintro playerFields _ ⟨rfl, hfields'⟩
  simp only [codecFromValue_held (fieldAt_held hfields' 0), bind, Except.bind]
  by_cases hfound : (fieldAt playerFields 0).found = true
  · simp only [hfound, if_true, true_and]
    apply InStep.ite
    · intro _
      exact .ok rfl
    · intro _
      exact .error _
  · rw [if_neg hfound, if_neg (fun h => hfound h.1)]
    exact .error _

theorem parseStreamEnd_parses (json : List UInt8) :
    Parses (parseStreamEnd json) (Sendspin.parseStreamEnd ⟨0, json⟩) := by
  unfold parseStreamEnd Sendspin.parseStreamEnd
  have hget := jsonGet_gives json (ascii "payload")
  generalize jsonGet json (ascii "payload") = r at hget
  generalize Sendspin.jsonGet ⟨0, json⟩ (ascii "payload") = r' at hget
  cases hget with
  | error rc =>
    apply InStep.ite
    · intro _
      exact .ok rfl
    · intro _
      exact .error _
  | @ok payload payload' hab =>
    obtain ⟨rfl, hpayload⟩ := hab
    apply InStep.ite
    · intro _
      apply (fieldsOf_gives hpayload ?_).bind
      · rintro fields _ ⟨rfl, -⟩
        exact .ok rfl
      · exact List.forall_mem_cons.mpr ⟨valueHeld_zero,
          List.forall_mem_cons.mpr ⟨valueHeld_zero, nofun⟩⟩
    · intro _
      exact .error _

theorem parseGroupUpdate_parses (json : List UInt8) :
    Parses (parseGroupUpdate json) (Sendspin.parseGroupUpdate ⟨0, json⟩) := by
  unfold parseGroupUpdate Sendspin.parseGroupUpdate
  have hpayload := payloadOf_gives json
  generalize payloadOf json = r at hpayload
  generalize Sendspin.payloadOf ⟨0, json⟩ = r' at hpayload
  cases hpayload with
  | error rc => exact .ok rfl
  | @ok payload payload' hab =>
    obtain ⟨rfl, hheld⟩ := hab
    have hfields := fieldsOf_gives hheld (valueFields_held ["playback_state", "group_id"])
    simp only [List.map_cons, List.map_nil] at hfields
    simp only
    generalize fieldsOf json payload _ = r at hfields ⊢
    generalize Sendspin.fieldsOf payload _ = r' at hfields ⊢
    cases hfields with
    | error rc => exact .ok rfl
    | ok hab => exact .ok (by rw [hab.1])

theorem parseServerCommand_parses (json : List UInt8) :
    Parses (parseServerCommand json) (Sendspin.parseServerCommand ⟨0, json⟩) := by
  unfold parseServerCommand Sendspin.parseServerCommand
  apply (payloadOf_gives json).bind
  rintro payload _ ⟨rfl, hpayload⟩
  apply (fieldsOf_gives hpayload (valueFields_held ["player"])).bind
  rintro payloadFields _ ⟨rfl, hfields⟩
  apply (playerOf_gives hfields).bind
  rintro player _ ⟨rfl, hplayer⟩
  apply (fieldsOf_gives hplayer
    (valueFields_held ["command", "volume", "mute", "static_delay_ms"])).bind
  rintro playerFields _ ⟨rfl, hfields'⟩
  apply InStep.ite
  · intro _
    rw [commandFromValue_held (fieldAt_held hfields' 0)]
    exact .ok rfl
  · intro _
    exact .error _

end Values

/-! ## Any message -/

/-- The run ends with a result or a code: it has loaded nothing outside of the message, and has not
come to the end of its bound. -/
def Ends {α : Type} (r : Except Stop α) : Prop := ∀ stop, r = .error stop → ∃ rc, stop = .code rc

theorem ends_inStep {α β : Type} {R : α → β → Prop} {r : Except Stop α} {r' : Except Rc β}
    (h : InStep .code R r r') : Ends r := fun _ hr => h.errors hr

/-- The bytes of a value that was looked up are a value in themselves. -/
theorem skipValue_over {json path : List UInt8} {v : JsonValue} (hheld : Held json v.raw)
    (hget : Sendspin.jsonGet ⟨0, json⟩ path = .ok v) :
    skipValue json (cursorOver v.raw) =
      .ok ⟨v.raw.start + v.raw.bytes.length, v.raw.start + v.raw.bytes.length⟩ := by
  obtain ⟨c, c', hv⟩ := jsonGet_parsed hget
  have hskip := skipValue_follows hheld.cursorOver
  rw [skipValue_raw hv] at hskip
  obtain ⟨⟨p, last⟩, hc, hat⟩ := hskip.given
  have hleft := hat.left_eq
  have hle := hat.le
  have hlast := hat.last_eq
  simp only at hleft hle hlast
  have hend : p = v.raw.start + v.raw.bytes.length := by
    have hnil : (Span.mk c'.start []).left = 0 := rfl
    omega
  rw [hc, hlast, hend]

/-- On any bytes, whatever they are, every look-up and every parser comes to an end and loads
nothing outside of them. A value that is found lies in them, its bytes alone are skipped in full,
and the search for a string in it has an answer. -/
theorem reader_safe (json : List UInt8) :
    (∀ path, Ends (jsonGet json path) ∧ ∀ v, jsonGet json path = .ok v → ValueHeld json v ∧
      skipValue json (cursorOver v.raw) =
        .ok ⟨v.raw.start + v.raw.bytes.length, v.raw.start + v.raw.bytes.length⟩ ∧
      ∀ needle, ∃ found, jsonArrayContains json v needle = .ok found) ∧
    Ends (parseServerHello json) ∧ Ends (parseServerTime json) ∧ Ends (parseStreamStart json) ∧
    Ends (parseStreamEnd json) ∧ Ends (parseGroupUpdate json) ∧
    Ends (parseServerCommand json) := by
  refine ⟨fun path => ⟨ends_inStep (jsonGet_gives json path), fun v hv => ?_⟩,
    ends_inStep (parseServerHello_parses json), ends_inStep (parseServerTime_parses json),
    ends_inStep (parseStreamStart_parses json), ends_inStep (parseStreamEnd_parses json),
    ends_inStep (parseGroupUpdate_parses json), ends_inStep (parseServerCommand_parses json)⟩
  have hgives := jsonGet_gives json path
  rw [hv] at hgives
  obtain ⟨v', hget, rfl, hheld⟩ := hgives.result
  exact ⟨hheld, skipValue_over hheld.raw hget, fun needle =>
    ⟨_, jsonArrayContains_held hheld needle⟩⟩

end EmbeddedAudio.Sendspin.Pointer
