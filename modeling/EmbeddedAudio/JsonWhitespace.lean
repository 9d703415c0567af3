-- Whitespace does not matter, but for one place. A document and the same
-- document with no whitespace are read alike, by the look-up and by every
-- message parser, exactly when no object inside it has whitespace after a comma.
import EmbeddedAudio.JsonLookup
import EmbeddedAudio.ServerMessages

namespace EmbeddedAudio.Sendspin

/-! ## Two readings that agree -/

/-- Both readings fail with one code, or both succeed and `R` holds of what they give. -/
inductive Agree {α β : Type} (R : α → β → Prop) : Except Rc α → Except Rc β → Prop
  | ok {a : α} {b : β} (h : R a b) : Agree R (.ok a) (.ok b)
  | error (rc : Rc) : Agree R (.error rc) (.error rc)

theorem Agree.bind {α β γ δ : Type} {R : α → β → Prop} {S : γ → δ → Prop} {r : Except Rc α}
    {r' : Except Rc β} {f : α → Except Rc γ} {f' : β → Except Rc δ} (h : Agree R r r')
    (hf : ∀ a b, R a b → Agree S (f a) (f' b)) : Agree S (r >>= f) (r' >>= f') := by
  cases h with
  | ok h => exact hf _ _ h
  | error rc => exact .error rc

/-- Readings that agree decode to the same. -/
theorem Agree.map_eq {α β : Type} {decoded : α → β} {r r' : Except Rc α}
    (h : Agree (fun a b => decoded a = decoded b) r r') : r.map decoded = r'.map decoded := by
  cases h with
  | ok h => exact congrArg Except.ok h
  | error rc => rfl

/-! ## Values and fields -/

/-- Two values that say the same. Where they are objects, they are one object with and
without its whitespace. -/
structure ValueSame (v v' : JsonValue) : Prop where
  type : v.type = v'.type
  boolean : v.boolean = v'.boolean
  number : v.number = v'.number
  string : v.string.bytes = v'.string.bytes
  object : v.type = .object → ∃ t : Json, t.tight = true ∧ t.type = .object ∧
    v.raw.bytes = t.bytes ∧ v'.raw.bytes = t.compact.bytes

theorem valueSame_zero : ValueSame JsonValue.zero JsonValue.zero :=
  ⟨rfl, rfl, rfl, rfl, fun h => by cases h⟩

theorem valueSame_of_shows {v v' : JsonValue} {t : Json} (ht : t.tight = true) (h : v.Shows t)
    (h' : v'.Shows t.compact) : ValueSame v v' where
  type := by rw [h.type, h'.type, type_compact]
  boolean := by rw [h.boolean, h'.boolean]; cases t <;> rfl
  number := by rw [h.number, h'.number]; cases t <;> rfl
  string := by rw [h.string, h'.string]; cases t <;> rfl
  object hobj := ⟨t, ht, by rw [← h.type, hobj], h.raw, h'.raw⟩

structure FieldSame (f f' : JsonField) : Prop where
  key : f.key = f'.key
  needle : f.needle = f'.needle
  member : f.member = f'.member
  found : f.found = f'.found
  value : ValueSame f.value f'.value

/-- The elements of an array that are the string `needle`. -/
def Elements.hasString (needle : List UInt8) : Elements → Bool
  | .last _ v _ => v.type == .string && v.text == needle
  | .cons _ v _ es => (v.type == .string && v.text == needle) || es.hasString needle

/-- What the membership test of a value gives. -/
def Json.membership (needle : List UInt8) (member : Bool) : Json → Bool
  | .arr es => member || es.hasString needle
  | .emptyArr _ => member
  | _ => false

theorem text_compact (v : Json) : v.compact.text = v.text := by
  cases v <;> rfl

theorem hasString_compact (needle : List UInt8) (es : Elements) :
    es.compact.hasString needle = es.hasString needle := by
  cases es with
  | last _ v _ => simp only [Elements.compact, Elements.hasString, type_compact, text_compact]
  | cons _ v _ es =>
    simp only [Elements.compact, Elements.hasString, type_compact, text_compact,
      hasString_compact needle es]

theorem membership_compact (needle : List UInt8) (member : Bool) (v : Json) :
    v.compact.membership needle member = v.membership needle member := by
  cases v with
  | arr es => simp only [Json.compact, Json.membership, hasString_compact]
  | _ => rfl

theorem takeElement_tight (needle : List UInt8) (member : Bool) {v : Json} (hv : v.tight = true)
    (p : Nat) {rest : List UInt8} (h : Delim rest) :
    takeElement needle member ⟨p, v.bytes ++ rest⟩ =
      (member || (v.type == .string && v.text == needle), .ok ⟨p + v.bytes.length, rest⟩) := by
  have hskip := skipValue_tight hv p .none h
  simp only [before, after, Gap.none, List.nil_append, List.length_nil, Nat.add_zero] at hskip
  obtain ⟨b, tail, hb, hopen⟩ := bytes_cons v
  have hhead : (v.bytes ++ rest).head? = some b := by rw [hb]; rfl
  unfold takeElement
  simp only [hhead, hskip]
  by_cases hstr : v.type = .string
  · cases v <;> simp only [Json.type, reduceCtorEq] at hstr
    rename_i s
    have hscan := scanString_text p s rest
    have hq : b = QUOTE := hopen
    simp only [hq, if_true, Json.bytes, hscan]
    rfl
  · have hq : b ≠ QUOTE := by
      cases v with
      | num n => exact (number_first hopen).2.2.2.2.2.1
      | bool b' => cases b' <;> cases hopen <;> decide
      | str s => exact absurd rfl hstr
      | _ => cases hopen; decide
    rw [if_neg (by simpa using hq)]
    simp [hstr]

theorem membershipIn_bytes (needle : List UInt8) : ∀ (es : Elements) (bound p : Nat) (g : Gap)
    (member : Bool) (rest : List UInt8), es.tight = true → es.body.length < bound →
    membershipIn needle bound member ⟨p, g.bytes ++ (es.body ++ RBRACKET :: rest)⟩ =
      (member || es.hasString needle, .ok ⟨p + g.bytes.length + es.body.length + 1, rest⟩)
  | es, 0, p, g, member, rest, _, hbound => by omega
  | .last lead v trail, bound + 1, p, g, member, rest, ht, hbound => by
    have hdelim : Delim (trail.bytes ++ RBRACKET :: rest) :=
      delim_gap trail (delim_cons (b := RBRACKET) rest (by decide))
    rw [membershipIn]
    simp only [Elements.body, List.append_assoc, skipWs_value]
    simp only [takeElement_tight needle member ht _ hdelim, Except.bind,
      separator_close (.inr rfl), List.length_append, Elements.hasString, Nat.add_assoc]
  | .cons lead v trail es, bound + 1, p, g, member, rest, ht, hbound => by
    have hdelim : Delim (trail.bytes ++ COMMA :: (es.bytes ++ RBRACKET :: rest)) :=
      delim_gap trail (delim_cons (b := COMMA) _ (by decide))
    have hes : es.bytes.length = es.lead.bytes.length + es.body.length := by
      rw [bytes_elements, List.length_append]
    have hlen : (Elements.cons lead v trail es).body.length =
        v.bytes.length + (trail.bytes.length + (es.bytes.length + 1)) := by
      simp only [Elements.body, List.length_append, List.length_cons]
    simp only [Elements.tight, Bool.and_eq_true] at ht
    have ih := membershipIn_bytes needle es bound
      (p + g.bytes.length + v.bytes.length + trail.bytes.length + 1) es.lead
      (member || (v.type == .string && v.text == needle)) rest ht.2 (by omega)
    rw [membershipIn, hlen]
    simp only [Elements.body, List.append_assoc, List.cons_append, skipWs_value]
    simp only [takeElement_tight needle member ht.1 _ hdelim, Except.bind, separator_comma]
    rw [hes, bytes_elements, List.append_assoc]
    apply ih.trans
    rw [Elements.hasString, Bool.or_assoc]
    congr 3
    omega

/-- A membership test on a value. -/
theorem parseArrayMembership_tight (needle : List UInt8) (member : Bool) {v : Json}
    (hv : v.tight = true) (p : Nat) (g : Gap) {rest : List UInt8} (h : Delim rest) :
    parseArrayMembership needle member (before p g v rest) =
      (v.membership needle member, .ok (after p g v rest)) := by
  have hskip := skipValue_tight hv (p + g.bytes.length) .none h
  simp only [before, after, Gap.none, List.nil_append, List.length_nil, Nat.add_zero] at hskip
  unfold parseArrayMembership before after
  simp only [skipWs_value]
  obtain ⟨b, tail, hb, hopen⟩ := bytes_cons v
  have hhead : (v.bytes ++ rest).head? = some b := by rw [hb]; rfl
  by_cases harr : v.type = .array
  · cases v <;> simp only [Json.type, reduceCtorEq] at harr
    · rename_i inside
      simp only [Json.bytes, List.cons_append, List.append_assoc, List.nil_append, List.head?_cons,
        if_true, advance_cons]
      rw [skipWs_gap _ inside (by intro b hb; cases hb; rfl)]
      simp only [List.head?_cons, if_true, advance_cons, Json.membership, List.length_cons,
        List.length_append, List.length_nil]
      congr 3
      omega
    · rename_i es
      obtain ⟨w, b', tail', htail, hopen'⟩ := body_opens es (RBRACKET :: rest)
      have hne : (b' :: tail').head? ≠ some RBRACKET := by simpa using (opens_first hopen').2.2
      simp only [Json.bytes, List.cons_append, List.append_assoc, List.nil_append, List.head?_cons,
        if_true, advance_cons, skipWs_elements]
      have hin := membershipIn_bytes needle es
        (Span.bound ⟨p + g.bytes.length + 1 + es.lead.bytes.length, es.body ++ RBRACKET :: rest⟩)
        (p + g.bytes.length + 1 + es.lead.bytes.length) .none member rest hv
        (by simp only [Span.bound, List.length_append]; omega)
      simp only [Gap.none, List.nil_append, List.length_nil, Nat.add_zero] at hin
      rw [htail] at hin ⊢
      rw [if_neg hne, hin]
      simp only [Json.membership, List.length_cons, List.length_append, List.length_nil,
        bytes_elements]
      congr 3
      omega
  · have hq : b ≠ LBRACKET := by
      cases v with
      | num n => exact (number_first hopen).2.2.1
      | bool b' => cases b' <;> cases hopen <;> decide
      | arr | emptyArr => exact absurd rfl harr
      | _ => cases hopen; decide
    rw [hhead, if_neg (by simpa using hq), hskip]
    cases v <;> first | rfl | exact absurd rfl harr

/-! ## The fields of an object, read twice -/

/-- A member's value goes into a field. -/
theorem take_same {f f' : JsonField} (hf : FieldSame f f') {v : Json} (hv : v.tight = true)
    (p p' : Nat) (g g' : Gap) {rest rest' : List UInt8} (h : Delim rest) (h' : Delim rest') :
    ∃ r r', f.take (before p g v rest) = .ok (r, after p g v rest) ∧
      f'.take (before p' g' v.compact rest') = .ok (r', after p' g' v.compact rest') ∧
      FieldSame r r' := by
  unfold JsonField.take
  rw [← hf.needle]
  rcases hneedle : f.needle with _ | needle
  · obtain ⟨val, hval, hshows⟩ := parseValue_tight hv p g h
    obtain ⟨val', hval', hshows'⟩ := parseValue_tight (tight_compact v) p' g' h'
    exact ⟨_, _, congrArg (Except.map _) hval, congrArg (Except.map _) hval',
      { hf with needle := rfl, found := rfl, value := valueSame_of_shows hv hshows hshows' }⟩
  · have hmem := parseArrayMembership_tight needle f.member hv p g h
    have hmem' := parseArrayMembership_tight needle f'.member (tight_compact v) p' g' h'
    rw [membership_compact, ← hf.member] at hmem'
    rw [← hf.member]
    simp only [hmem, hmem', Except.map]
    exact ⟨_, _, rfl, rfl, { hf with needle := rfl, found := rfl, member := rfl }⟩

theorem takeField_same (key : List UInt8) {v : Json} (hv : v.tight = true) (p p' : Nat) (g g' : Gap)
    {rest rest' : List UInt8} (h : Delim rest) (h' : Delim rest') {fields fields' : List JsonField}
    (hfs : List.Forall₂ FieldSame fields fields') :
    ∃ r r', takeField key (before p g v rest) fields = .ok (r, after p g v rest) ∧
      takeField key (before p' g' v.compact rest') fields' = .ok (r', after p' g' v.compact rest') ∧
      List.Forall₂ FieldSame r r' := by
  induction hfs with
  | nil =>
    refine ⟨[], [], ?_, ?_, .nil⟩
    · simp only [takeField, skipValue_tight hv p g h, Except.map]
    · simp only [takeField, skipValue_tight (tight_compact v) p' g' h', Except.map]
  | @cons f f' fields fields' hf hfs ih =>
    have hwants : f'.wants key = f.wants key := by
      unfold JsonField.wants
      rw [hf.found, hf.key]
    simp only [takeField, hwants]
    by_cases hw : f.wants key = true
    · obtain ⟨r, r', hr, hr', hsame⟩ := take_same hf hv p p' g g' h h'
      simp only [hw, if_true, hr, hr', Except.map]
      exact ⟨_, _, rfl, rfl, .cons hsame hfs⟩
    · obtain ⟨r, r', hr, hr', hsame⟩ := ih
      simp only [hw, hr, hr', Except.map]
      exact ⟨_, _, rfl, rfl, .cons hf hsame⟩

/-- One turn of the loop over the members of an object. -/
theorem scanFieldsIn_member (bound p : Nat) (g : Gap) (ms : Members) (fields : List JsonField)
    (rest : List UInt8) (head : Head) (v : Json) (tail : List UInt8)
    (hms : ms.body ++ RBRACE :: rest = head.key.quoted ++ (head.beforeColon.bytes ++ COLON ::
      (head.afterColon.bytes ++ (v.bytes ++ tail)))) :
    ∃ p', scanFieldsIn (bound + 1) fields ⟨p, g.bytes ++ (ms.body ++ RBRACE :: rest)⟩ =
      takeField head.key.bytes (before p' head.afterColon v tail) fields >>= fun r =>
        separator RBRACE r.2 >>= fun
          | .more c => scanFieldsIn bound r.1 c
          | .close c => .ok (r.1, c) := by
  refine ⟨p + g.bytes.length + head.key.quoted.length + head.beforeColon.bytes.length + 1, ?_⟩
  rw [scanFieldsIn]
  simp only [skipWs_body]
  rw [if_neg (head_body _ _), hms, scanKey_head]
  rfl

theorem scanFieldsIn_same : ∀ (ms : Members) (bound bound' p p' : Nat) (g g' : Gap)
    (rest rest' : List UInt8) (fields fields' : List JsonField), ms.valuesTight = true →
    ms.body.length < bound → ms.compact.body.length < bound' →
    List.Forall₂ FieldSame fields fields' →
    ∃ r r' c c', scanFieldsIn bound fields ⟨p, g.bytes ++ (ms.body ++ RBRACE :: rest)⟩ = .ok (r, c) ∧
      scanFieldsIn bound' fields' ⟨p', g'.bytes ++ (ms.compact.body ++ RBRACE :: rest')⟩ =
        .ok (r', c') ∧ List.Forall₂ FieldSame r r'
  | ms, 0, _, _, _, _, _, _, _, _, _, _, hbound, _, _ => by omega
  | ms, _, 0, _, _, _, _, _, _, _, _, _, _, hbound', _ => by omega
  | .last head v trail, bound + 1, bound' + 1, p, p', g, g', rest, rest', fields, fields', ht, _, _,
    hfs => by
    obtain ⟨q, hstep⟩ := scanFieldsIn_member bound p g (.last head v trail) fields rest
      head v (trail.bytes ++ RBRACE :: rest) (by simp [Members.body])
    obtain ⟨q', hstep'⟩ := scanFieldsIn_member bound' p' g' (Members.last head v trail).compact
      fields' rest' head.compact v.compact (Gap.none.bytes ++ RBRACE :: rest')
      (by simp [Members.body, Members.compact])
    obtain ⟨r, r', hr, hr', hsame⟩ := takeField_same head.key.bytes ht q q' head.afterColon .none
      (delim_gap trail (delim_cons (b := RBRACE) rest (by decide)))
      (delim_gap .none (delim_cons (b := RBRACE) rest' (by decide))) hfs
    rw [hstep, hstep']
    rw [show head.compact.key = head.key from rfl, show head.compact.afterColon = Gap.none from rfl,
      hr, hr']
    simp only [bind, Except.bind, after, separator_close (.inl rfl)]
    exact ⟨r, r', _, _, rfl, rfl, hsame⟩
  | .cons head v trail ms, bound + 1, bound' + 1, p, p', g, g', rest, rest', fields, fields', ht,
    hbound, hbound', hfs => by
    simp only [Members.valuesTight, Bool.and_eq_true] at ht
    have hlen := Nat.lt_of_lt_of_le (length_body_cons head v trail ms) (Nat.le_of_lt_succ hbound)
    have hlen' := Nat.lt_of_lt_of_le (length_body_cons head.compact v.compact .none ms.compact)
      (Nat.le_of_lt_succ hbound')
    obtain ⟨q, hstep⟩ := scanFieldsIn_member bound p g (.cons head v trail ms) fields rest
      head v (trail.bytes ++ COMMA :: (ms.bytes ++ RBRACE :: rest))
      (by simp [Members.body])
    obtain ⟨q', hstep'⟩ := scanFieldsIn_member bound' p' g' (Members.cons head v trail ms).compact
      fields' rest' head.compact v.compact
      (Gap.none.bytes ++ COMMA :: (ms.compact.bytes ++ RBRACE :: rest'))
      (by simp [Members.body, Members.compact])
    obtain ⟨r, r', hr, hr', hsame⟩ := takeField_same head.key.bytes ht.1 q q' head.afterColon .none
      (delim_gap trail (delim_cons (b := COMMA) (ms.bytes ++ RBRACE :: rest) (by decide)))
      (delim_gap .none (delim_cons (b := COMMA) (ms.compact.bytes ++ RBRACE :: rest') (by decide)))
      hfs
    rw [hstep, hstep']
    rw [show head.compact.key = head.key from rfl, show head.compact.afterColon = Gap.none from rfl,
      hr, hr']
    simp only [bind, Except.bind, after, separator_comma]
    rw [bytes_members, bytes_members ms.compact, List.append_assoc, List.append_assoc]
    exact scanFieldsIn_same ms bound bound' _ _ ms.lead ms.compact.lead rest rest' r r' ht.2 hlen
      hlen' hsame

/-- The fields of an object and of the object with no whitespace. -/
theorem scanFields_same {t : Json} (ht : t.valuesTight = true) (hobj : t.type = .object)
    (p p' : Nat) (g g' : Gap) (rest rest' : List UInt8) {fields fields' : List JsonField}
    (hfs : List.Forall₂ FieldSame fields fields') :
    ∃ r r' c c', scanFields fields (before p g t rest) = .ok (r, c) ∧
      scanFields fields' (before p' g' t.compact rest') = .ok (r', c') ∧
      List.Forall₂ FieldSame r r' := by
  unfold scanFields before
  simp only [skipWs_value]
  cases t <;> simp only [Json.type, reduceCtorEq] at hobj
  · rename_i inside
    simp only [Json.compact, Json.bytes, List.cons_append, List.append_assoc, List.nil_append,
      expect_cons, bind, Except.bind, Span.bound, scanFieldsIn]
    rw [skipWs_gap _ inside (by intro b hb; cases hb; rfl),
      skipWs_gap _ .none (by intro b hb; cases hb; rfl)]
    exact ⟨fields, fields', _, _, rfl, rfl, hfs⟩
  · rename_i ms
    simp only [Json.compact, Json.bytes, List.cons_append, List.append_assoc, List.nil_append,
      expect_cons, bind, Except.bind, bytes_members]
    exact scanFieldsIn_same ms _ _ _ _ ms.lead ms.compact.lead rest rest' fields fields' ht
      (by simp only [Span.bound, List.length_append]; omega)
      (by simp only [Span.bound, List.length_append]; omega) hfs

/-! ## The message parsers -/

/-- The fields that a parser asks for are the same for both readings. -/
theorem fields_refl {fields : List JsonField} (h : ∀ f ∈ fields, f.value = JsonValue.zero) :
    List.Forall₂ FieldSame fields fields := by
  induction fields with
  | nil => exact .nil
  | cons f fields ih =>
    refine .cons ⟨rfl, rfl, rfl, rfl, ?_⟩ (ih fun f' hf' => h f' (List.mem_cons_of_mem _ hf'))
    rw [h f List.mem_cons_self]
    exact valueSame_zero

theorem fieldAt_same {fields fields' : List JsonField} (h : List.Forall₂ FieldSame fields fields')
    (i : Nat) : FieldSame (fieldAt fields i) (fieldAt fields' i) := by
  induction h generalizing i with
  | nil => exact ⟨rfl, rfl, rfl, rfl, rfl, rfl, rfl, rfl, fun h => by cases h⟩
  | cons hf _ ih =>
    cases i with
    | zero => exact hf
    | succ i => exact ih i

/-- A look-up in a document and in the document with no whitespace. -/
theorem jsonGet_same {d : Doc} (h : d.Snug) (path : List UInt8) :
    Agree ValueSame (jsonGet d.span path) (jsonGet d.compact.span path) := by
  have hget := descendAll_get (segments path) 0 d.lead d.trail.bytes h
  have hget' := descendAll_get (segments path) 0 .none Gap.none.bytes (snug_compact d)
  rw [show d.compact.root = d.root.compact from rfl, get_compact] at hget'
  unfold jsonGet
  split
  · exact .error _
  · rcases hw : d.root.get (segments path) with rc | w
    · simp only [hw, Except.map] at hget hget'
      have hd : descendAll (segments path) d.span = .error rc := hget
      have hd' : descendAll (segments path) d.compact.span = .error rc := hget'
      rw [hd, hd']
      exact .error rc
    · simp only [hw, Except.map] at hget hget'
      obtain ⟨ht, val, hval, hshows⟩ := hget
      obtain ⟨_, val', hval', hshows'⟩ := hget'
      have hd : descendAll (segments path) d.span = .ok val := hval
      have hd' : descendAll (segments path) d.compact.span = .ok val' := hval'
      rw [hd, hd']
      exact .ok (valueSame_of_shows ht hshows hshows')

/-- Two object values that say the same. -/
structure ObjectSame (v v' : JsonValue) : Prop extends ValueSame v v' where
  isObject : v.type = .object

theorem payloadOf_same {d : Doc} (h : d.Snug) :
    Agree ObjectSame (payloadOf d.span) (payloadOf d.compact.span) := by
  have hget := jsonGet_same h (ascii "payload")
  unfold payloadOf
  generalize jsonGet d.span (ascii "payload") = r at hget ⊢
  generalize jsonGet d.compact.span (ascii "payload") = r' at hget ⊢
  cases hget with
  | error rc => exact .error _
  | ok hv =>
    simp only [← hv.type]
    split
    · rename_i hobj
      exact .ok { hv with isObject := hobj }
    · exact .error _

theorem fieldsOf_same {v v' : JsonValue} (hv : ObjectSame v v') {f : List JsonField}
    (hf : ∀ g ∈ f, g.value = JsonValue.zero) :
    Agree (List.Forall₂ FieldSame) (fieldsOf v f) (fieldsOf v' f) := by
  obtain ⟨t, ht, hobj, hraw, hraw'⟩ := hv.object hv.isObject
  obtain ⟨r, r', c, c', hr, hr', hsame⟩ := scanFields_same (valuesTight_of_tight ht) hobj
    v.raw.start v'.raw.start .none .none [] [] (fields_refl hf)
  have hspan : before v.raw.start .none t [] = v.raw := by
    simp [before, Gap.none, ← hraw]
  have hspan' : before v'.raw.start .none t.compact [] = v'.raw := by
    simp [before, Gap.none, ← hraw']
  rw [hspan] at hr
  rw [hspan'] at hr'
  unfold fieldsOf
  rw [hr, hr']
  exact .ok hsame

theorem playerOf_same {fields fields' : List JsonField} (h : List.Forall₂ FieldSame fields fields') :
    Agree ObjectSame (playerOf fields) (playerOf fields') := by
  have h0 := fieldAt_same h 0
  unfold playerOf
  simp only [← h0.found, ← h0.value.type]
  split
  · rename_i hobj
    exact .ok { h0.value with isObject := hobj.2 }
  · exact .error _

theorem stringOf_same {f f' : JsonField} (h : FieldSame f f') :
    (stringOf f).bytes = (stringOf f').bytes := by
  unfold stringOf
  simp only [← h.found, ← h.value.type]
  split
  · exact h.value.string
  · rfl

theorem jsonStringEquals_same {v v' : JsonValue} (h : ValueSame v v') (text : String) :
    jsonStringEquals v text = jsonStringEquals v' text := by
  unfold jsonStringEquals
  rw [h.type, h.string]

theorem codecFromValue_same {v v' : JsonValue} (h : ValueSame v v') :
    codecFromValue v = codecFromValue v' := by
  unfold codecFromValue
  simp only [jsonStringEquals_same h]

section Parsers

variable {d : Doc} (h : d.Snug)

include h

theorem parseServerHello_same : Agree (fun m m' => m.decoded = m'.decoded)
    (parseServerHello d.span) (parseServerHello d.compact.span) := by
  refine (payloadOf_same h).bind fun v v' hv => ?_
  refine (fieldsOf_same hv (by decide)).bind fun fs fs' hfs => ?_
  have h0 := fieldAt_same hfs 0
  have h4 := fieldAt_same hfs 4
  simp only [← h0.found]
  split
  · refine .ok ?_
    simp only [ServerHello.decoded, stringOf_same (fieldAt_same hfs 1),
      stringOf_same (fieldAt_same hfs 2), stringOf_same (fieldAt_same hfs 3), h0.member, h4.found,
      h4.value.type, h4.value.number]
  · exact .error _

theorem parseServerTime_same : Agree Eq (parseServerTime d.span) (parseServerTime d.compact.span) := by
  refine (payloadOf_same h).bind fun v v' hv => ?_
  refine (fieldsOf_same hv (by decide)).bind fun fs fs' hfs => ?_
  have h0 := (fieldAt_same hfs 0).value
  have h1 := (fieldAt_same hfs 1).value
  have h2 := (fieldAt_same hfs 2).value
  simp only [← h0.type, ← h1.type, ← h2.type]
  split
  · exact .ok (by rw [h0.number, h1.number, h2.number])
  · exact .error _

theorem streamFields_same :
    Agree (fun fs fs' => List.Forall₂ FieldSame fs.1 fs'.1 ∧ List.Forall₂ FieldSame fs.2 fs'.2)
      (streamFields d.span) (streamFields d.compact.span) := by
  refine (payloadOf_same h).bind fun v v' hv => ?_
  refine (fieldsOf_same hv (by decide)).bind fun fs fs' hfs => ?_
  refine (playerOf_same hfs).bind fun w w' hw => ?_
  exact (fieldsOf_same hw (by decide)).bind fun gs gs' hgs => .ok ⟨hfs, hgs⟩

theorem parseStreamStart_same : Agree (fun m m' => m.decoded = m'.decoded)
    (parseStreamStart d.span) (parseStreamStart d.compact.span) := by
  refine (streamFields_same h).bind fun (fs, gs) (fs', gs') ⟨hfs, hgs⟩ => ?_
  have ht := (fieldAt_same hfs 1).value
  have h0 := fieldAt_same hgs 0
  have h1 := (fieldAt_same hgs 1).value
  have h2 := (fieldAt_same hgs 2).value
  have h3 := (fieldAt_same hgs 3).value
  have h4 := (fieldAt_same hgs 4).value
  simp only [← h0.found, ← h1.type, ← h2.type, ← h3.type, ← h4.type, ← ht.type]
  split
  · refine .ok ?_
    simp only [StreamStart.decoded, codecFromValue_same h0.value, h1.number, h2.number, h3.number,
      ht.number]
    congr 1
    split
    · exact h4.string
    · rfl
  · exact .error _

theorem parseStreamEnd_same : Agree Eq (parseStreamEnd d.span) (parseStreamEnd d.compact.span) := by
  have hget := jsonGet_same h (ascii "payload")
  unfold parseStreamEnd
  generalize jsonGet d.span (ascii "payload") = r at hget ⊢
  generalize jsonGet d.compact.span (ascii "payload") = r' at hget ⊢
  cases hget with
  | error rc =>
    simp only
    split
    · exact .ok rfl
    · exact .error _
  | @ok v v' hv =>
    simp only [← hv.type]
    split
    · rename_i hobj
      refine (fieldsOf_same { hv with isObject := hobj } (by decide)).bind fun fs fs' hfs => ?_
      have h0 := (fieldAt_same hfs 0).value
      have h1 := fieldAt_same hfs 1
      exact .ok (by simp only [h0.type, h0.number, h1.found, h1.member])
    · exact .error _

theorem parseGroupUpdate_same : Agree (fun m m' => m.decoded = m'.decoded)
    (parseGroupUpdate d.span) (parseGroupUpdate d.compact.span) := by
  have hpayload := payloadOf_same h
  unfold parseGroupUpdate
  generalize payloadOf d.span = r at hpayload ⊢
  generalize payloadOf d.compact.span = r' at hpayload ⊢
  cases hpayload with
  | error rc => exact .ok rfl
  | @ok v v' hv =>
    have hfields := fieldsOf_same hv (f := [valueField "playback_state", valueField "group_id"])
      (by decide)
    simp only
    generalize fieldsOf v _ = r at hfields ⊢
    generalize fieldsOf v' _ = r' at hfields ⊢
    cases hfields with
    | error rc => exact .ok rfl
    | ok hfs =>
      refine .ok ?_
      simp only [GroupUpdate.decoded, stringOf_same (fieldAt_same hfs 0),
        stringOf_same (fieldAt_same hfs 1)]

theorem parseServerCommand_same :
    Agree Eq (parseServerCommand d.span) (parseServerCommand d.compact.span) := by
  refine (payloadOf_same h).bind fun v v' hv => ?_
  refine (fieldsOf_same hv (by decide)).bind fun fs fs' hfs => ?_
  refine (playerOf_same hfs).bind fun w w' hw => ?_
  refine (fieldsOf_same hw (by decide)).bind fun gs gs' hgs => ?_
  have h0 := fieldAt_same hgs 0
  have h1 := (fieldAt_same hgs 1).value
  have h2 := (fieldAt_same hgs 2).value
  have h3 := (fieldAt_same hgs 3).value
  simp only [← h0.found]
  split
  · refine .ok ?_
    simp only [jsonStringEquals_same h0.value, h1.type, h1.number, h2.type, h2.boolean, h3.type,
      h3.number]
  · exact .error _

end Parsers

/-! ## Documents that are read right -/

/-- A look-up gives the value, or reports that there is none. -/
def Gives (r : Except Rc JsonValue) : Option Json → Prop
  | some t => ∃ v, r = .ok v ∧ v.Shows t
  | none => r = .error EAF_UNSUPPORTED

/-- A look-up through objects finds the first member with each key, and neither the look-ups
nor the message parsers depend on the whitespace. -/
structure Reads (d : Doc) : Prop where
  lookup : ∀ path, path ≠ [] → d.root.ObjectsOn (segments path) →
    Gives (jsonGet d.span path) (d.root.lookup (segments path))
  json : ∀ path, Agree ValueSame (jsonGet d.span path) (jsonGet d.compact.span path)
  hello : (parseServerHello d.span).map ServerHello.decoded =
    (parseServerHello d.compact.span).map ServerHello.decoded
  time : parseServerTime d.span = parseServerTime d.compact.span
  start : (parseStreamStart d.span).map StreamStart.decoded =
    (parseStreamStart d.compact.span).map StreamStart.decoded
  streamEnd : parseStreamEnd d.span = parseStreamEnd d.compact.span
  group : (parseGroupUpdate d.span).map GroupUpdate.decoded =
    (parseGroupUpdate d.compact.span).map GroupUpdate.decoded
  command : parseServerCommand d.span = parseServerCommand d.compact.span

theorem Agree.eq {α : Type} {r r' : Except Rc α} (h : Agree Eq r r') : r = r' := by
  cases h with
  | ok h => exact congrArg Except.ok h
  | error rc => rfl

theorem segments_ne_nil (path : List UInt8) : segments path ≠ [] := by
  cases path with
  | nil => simp [segments]
  | cons b path =>
    unfold segments
    split
    · simp
    · split <;> simp

theorem jsonGet_lookup {d : Doc} (h : d.Snug) {path : List UInt8} (hne : path ≠ [])
    (hobj : d.root.ObjectsOn (segments path)) :
    Gives (jsonGet d.span path) (d.root.lookup (segments path)) := by
  have hget := descendAll_get (segments path) 0 d.lead d.trail.bytes h
  rw [get_lookup _ _ (segments_ne_nil path) hobj] at hget
  unfold jsonGet
  rw [if_neg hne]
  rcases hw : d.root.lookup (segments path) with _ | w
  · simp only [hw] at hget
    exact hget
  · simp only [hw] at hget
    exact hget.2

/-- The text of a key that is one segment of a path. -/
def longKey (n : Nat) : List UInt8 := List.replicate n 0x61

theorem segments_longKey (n : Nat) : segments (longKey n) = [longKey n] := by
  apply segments_plain
  intro hdot
  exact absurd (List.eq_of_mem_replicate hdot) (by decide)

/-- No member has a key that is longer than all of them. -/
theorem ne_longKey {key : List UInt8} {k : Nat} (h : key.length < k) : key ≠ longKey k := by
  rintro rfl
  simp only [longKey, List.length_replicate] at h
  omega

theorem find_longKey (ms : Members) : ∃ n, ∀ k, n ≤ k → ms.find (longKey k) = none := by
  cases ms with
  | last head v _ =>
    refine ⟨head.key.bytes.length + 1, fun k hk => ?_⟩
    rw [Members.find, if_neg (ne_longKey hk)]
  | cons head v _ ms =>
    obtain ⟨n, hn⟩ := find_longKey ms
    refine ⟨max n (head.key.bytes.length + 1), fun k hk => ?_⟩
    rw [Members.find, if_neg (ne_longKey (by omega)), hn k (by omega)]

theorem member_longKey (v : Json) : ∃ n, v.member (longKey (n + 1)) = none := by
  cases v with
  | obj ms =>
    obtain ⟨n, hn⟩ := find_longKey ms
    exact ⟨n, hn (n + 1) (by omega)⟩
  | _ => exact ⟨0, rfl⟩

/-- A document is read right, whatever its whitespace, exactly when no object inside it has
whitespace directly after a comma between two members. -/
theorem reads_iff_snug (d : Doc) : Reads d ↔ d.Snug := by
  constructor
  · -- a key that no member has makes the reader skip every value of the document
    intro h
    obtain ⟨n, hn⟩ := member_longKey d.root
    have hobj : d.root.ObjectsOn (segments (longKey (n + 1))) := by
      rw [segments_longKey]
      exact ⟨d.isObject, fun m hm => by rw [hn] at hm; cases hm⟩
    have hgives := h.lookup (longKey (n + 1)) (by simp [longKey, List.replicate_succ]) hobj
    rw [segments_longKey] at hgives
    simp only [Json.lookup, hn, Option.bind_none] at hgives
    have hdesc := descend_absent (longKey (n + 1)) true d.isObject hn 0 d.lead d.trail.bytes
    unfold Gives jsonGet at hgives
    rw [if_neg (by simp [longKey, List.replicate_succ]), segments_longKey] at hgives
    have hspan : d.span = before 0 d.lead d.root d.trail.bytes := rfl
    rw [descendAll, hspan, hdesc] at hgives
    unfold Doc.Snug
    by_contra hloose
    rw [if_neg hloose] at hgives
    cases hgives
  · intro h
    exact {
      lookup := fun path hne hobj => jsonGet_lookup h hne hobj
      json := jsonGet_same h
      hello := (parseServerHello_same h).map_eq
      time := (parseServerTime_same h).eq
      start := (parseStreamStart_same h).map_eq
      streamEnd := (parseStreamEnd_same h).eq
      group := (parseGroupUpdate_same h).map_eq
      command := (parseServerCommand_same h).eq }

/-- A one-digit member of an object, after `lead`. -/
def digitHead (lead : Gap) (key : UInt8) (h : 0x20 ≤ key ∧ key ≠ QUOTE ∧ key ≠ BACKSLASH) : Head :=
  ⟨lead, [.plain key h], .none, .none⟩

def digit (d : Fin 10) : Json := .num ⟨false, [d], by simp, fun _ => rfl⟩

/-- `{"a":{"x":1, "y":2},"b":3}`: a server puts one space after the comma of the
inner object. -/
def spacedDoc : Doc where
  lead := .none
  root := .obj (.cons (digitHead .none 0x61 (by decide))
    (.obj (.cons (digitHead .none 0x78 (by decide)) (digit 1) .none
      (.last (digitHead ⟨[0x20], List.forall_mem_singleton.mpr rfl⟩ 0x79 (by decide)) (digit 2) .none)))
    .none (.last (digitHead .none 0x62 (by decide)) (digit 3) .none))
  trail := .none
  isObject := rfl

/-- The member after the inner object is there, and is not found. -/
theorem spacedDoc_unread :
    spacedDoc.bytes = ascii "\x7b\"a\":\x7b\"x\":1, \"y\":2\x7d,\"b\":3\x7d" ∧
      spacedDoc.root.lookup (segments (ascii "b")) = some (digit 3) ∧
      jsonGet spacedDoc.span (ascii "b") = .error EAF_INVALID ∧ ¬ Reads spacedDoc := by
  have hfail : jsonGet spacedDoc.span (ascii "b") = .error EAF_INVALID := by decide
  refine ⟨by decide, rfl, hfail, fun h => ?_⟩
  have hgives := h.lookup (ascii "b") (by decide) ⟨rfl, fun _ _ => trivial⟩
  obtain ⟨v, hv, _⟩ : ∃ v, jsonGet spacedDoc.span (ascii "b") = .ok v ∧ v.Shows (digit 3) := hgives
  rw [hfail] at hv
  cases hv

end EmbeddedAudio.Sendspin
