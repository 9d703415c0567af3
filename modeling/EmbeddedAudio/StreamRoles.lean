-- What stream/clear and stream/end say about the player. The client looks the roles of the
-- one up by their path, and parses the other with one pass over its payload.
import EmbeddedAudio.JsonPacked
import EmbeddedAudio.JsonTree
import EmbeddedAudio.SendspinClient

namespace EmbeddedAudio.Sendspin

/-! ## Look-ups -/

/-- What a look-up of one key comes to, by the value that has the key. -/
def Arrives (found : Option Packed) (leaf : Bool) (r : Except Rc (JsonValue × Span)) : Prop :=
  match found with
  | none => r = .error EAF_UNSUPPORTED
  | some v => ∃ p rest, Delim rest ∧ r = arrive leaf ⟨p, v.bytes ++ rest⟩

/-- A turn of the loop of `descend`. -/
theorem descendIn_key (segment : List UInt8) (leaf : Bool) (bound p : Nat) (key : Text)
    (rest : List UInt8) :
    descendIn segment leaf (bound + 1) ⟨p, key.quoted ++ COLON :: rest⟩ =
      if key.bytes = segment then arrive leaf ⟨p + key.quoted.length + 1, rest⟩
      else (do
        let c ← skipValue ⟨p + key.quoted.length + 1, rest⟩
        match ← separator RBRACE c with
        | .more c => descendIn segment leaf bound c
        | .close _ => .error EAF_UNSUPPORTED) := by
  have hws : skipWs ⟨p, key.quoted ++ COLON :: rest⟩ = ⟨p, key.quoted ++ COLON :: rest⟩ :=
    skipWs_cons p _ (by decide)
  have hne : (key.quoted ++ COLON :: rest).head? ≠ some RBRACE := by
    rw [Text.quoted, List.cons_append, List.head?_cons]
    decide
  rw [descendIn]
  simp only [hws]
  rw [if_neg hne, scanKey_packed]
  rfl

theorem descendIn_packed (segment : List UInt8) (leaf : Bool) : ∀ (ms : PackedMembers)
    (bound p : Nat) (rest : List UInt8), ms.bytes.length < bound →
    Arrives (ms.find segment) leaf (descendIn segment leaf bound ⟨p, ms.bytes ++ RBRACE :: rest⟩)
  | ms, 0, p, rest, hbound => by omega
  | .last key v, bound + 1, p, rest, hbound => by
    rw [PackedMembers.bytes, List.append_assoc, List.cons_append, descendIn_key,
      PackedMembers.find]
    have hdelim : Delim (RBRACE :: rest) := delim_cons rest (by decide)
    by_cases hkey : key.bytes = segment
    · rw [if_pos hkey, if_pos hkey]
      exact ⟨_, _, hdelim, rfl⟩
    · rw [if_neg hkey, if_neg hkey, skipValue_packed v _ hdelim]
      simp only [bind, Except.bind, separator_close_at (.inl rfl)]
      rfl
  | .cons key v ms, bound + 1, p, rest, hbound => by
    have hlen : (PackedMembers.cons key v ms).bytes.length =
        key.quoted.length + (v.bytes.length + (ms.bytes.length + 1) + 1) := by
      simp [PackedMembers.bytes]
    rw [PackedMembers.bytes, List.append_assoc, List.cons_append, List.append_assoc,
      List.cons_append, descendIn_key, PackedMembers.find]
    have hdelim : Delim (COMMA :: (ms.bytes ++ RBRACE :: rest)) := delim_cons _ (by decide)
    by_cases hkey : key.bytes = segment
    · rw [if_pos hkey, if_pos hkey]
      exact ⟨_, _, hdelim, rfl⟩
    · rw [if_neg hkey, if_neg hkey, skipValue_packed v _ hdelim]
      simp only [bind, Except.bind, separator_comma_at]
      exact descendIn_packed segment leaf ms bound _ rest (by omega)

/-- `descend` in an object. -/
theorem descend_packed (segment : List UInt8) (leaf : Bool) {v : Packed} (hv : v.type = .object)
    (p : Nat) (rest : List UInt8) :
    Arrives (v.member segment) leaf (descend segment leaf ⟨p, v.bytes ++ rest⟩) := by
  unfold descend
  rw [skipWs_packed]
  cases v with
  | emptyObj => rfl
  | obj ms =>
    simp only [Packed.bytes, List.cons_append, List.append_assoc, List.nil_append, expect_cons,
      bind, Except.bind]
    apply descendIn_packed
    simp only [Span.bound, List.length_append]
    omega
  | _ => cases hv

/-! ## One pass -/

/-- A field behind a member, if the pass gets there: `v` is the value, and `p` its offset. -/
def JsonField.passed (key : List UInt8) (v : Packed) (p : Nat) (f : JsonField) : JsonField :=
  if f.wants key then
    match f.needle with
    | none => { f with found := true, value := v.parsed p }
    | some text =>
      { f with found := true, member := v.type == .array && (f.member || v.has text) }
  else f

/-- A field that looks for a string, behind all members of an object. -/
def JsonField.filled (ms : PackedMembers) (f : JsonField) : JsonField :=
  match ms.find f.key with
  | some v => f.passed f.key v 0
  | none => f

/-- The first member that a field takes its value from is a number that `parse_value` refuses. -/
def JsonField.refuses (ms : PackedMembers) (f : JsonField) : Bool :=
  !f.found && (ms.find f.key).any fun v => !v.whole

section Pass

variable {f g : JsonField} {text key : List UInt8} {v : Packed} {p : Nat}

theorem passed_named (key : List UInt8) (v : Packed) (p : Nat) (f : JsonField) :
    (f.passed key v p).key = f.key ∧ (f.passed key v p).needle = f.needle := by
  unfold JsonField.passed
  split
  · split
    · exact ⟨rfl, rfl⟩
    · exact ⟨rfl, rfl⟩
  · exact ⟨rfl, rfl⟩

theorem passed_found (h : f.wants key = true) : (f.passed key v p).found = true := by
  unfold JsonField.passed
  rw [if_pos h]
  split
  · rfl
  · rfl

theorem wants_found (h : f.found = true) (key : List UInt8) : f.wants key = false := by
  rw [JsonField.wants, h]
  rfl

theorem passed_kept (h : f.wants key = false) : f.passed key v p = f := by
  unfold JsonField.passed
  rw [h]
  rfl

theorem wants_iff : f.wants key = true ↔ f.found = false ∧ f.key = key := by
  unfold JsonField.wants
  rw [Bool.and_eq_true, Bool.not_eq_true', beq_iff_eq]

/-- A field that looks for a string keeps nothing of where the value stands. -/
theorem passed_offset (hneedle : f.needle = some text) (p p' : Nat) :
    f.passed key v p = f.passed key v p' := by
  unfold JsonField.passed
  simp only [hneedle]

theorem filled_found {ms : PackedMembers} (h : f.found = true) : f.filled ms = f := by
  unfold JsonField.filled
  split
  · exact passed_kept (wants_found h _)
  · rfl

theorem filled_last {k : Text} (hneedle : f.needle = some text) :
    f.filled (.last k v) = f.passed k.bytes v p := by
  unfold JsonField.filled
  rw [PackedMembers.find]
  by_cases hkey : k.bytes = f.key
  · rw [if_pos hkey, ← hkey]
    exact passed_offset hneedle 0 p
  · have hwants : f.wants k.bytes = false :=
      Bool.eq_false_of_not_eq_true fun h => hkey (wants_iff.mp h).2.symm
    rw [if_neg hkey, passed_kept hwants]

theorem filled_cons {k : Text} {ms : PackedMembers} (hneedle : f.needle = some text) :
    f.filled (.cons k v ms) = (f.passed k.bytes v p).filled ms := by
  by_cases hwants : f.wants k.bytes = true
  · -- the value of this member is the one that counts
    obtain ⟨-, hkey⟩ := wants_iff.mp hwants
    rw [filled_found (passed_found hwants)]
    unfold JsonField.filled
    rw [PackedMembers.find, if_pos hkey.symm, hkey]
    exact passed_offset hneedle 0 p
  · rw [passed_kept (Bool.eq_false_of_not_eq_true hwants)]
    cases hfound : f.found with
    | true => rw [filled_found hfound, filled_found hfound]
    | false =>
      have hkey : k.bytes ≠ f.key := fun h => hwants (wants_iff.mpr ⟨hfound, h.symm⟩)
      unfold JsonField.filled
      rw [PackedMembers.find, if_neg hkey]

theorem refuses_found {ms : PackedMembers} (h : f.found = true) : f.refuses ms = false := by
  rw [JsonField.refuses, h]
  rfl

theorem refuses_last {k : Text} : f.refuses (.last k v) = (f.wants k.bytes && !v.whole) := by
  rw [JsonField.refuses, JsonField.wants, PackedMembers.find, Bool.and_assoc]
  by_cases hkey : k.bytes = f.key
  · rw [if_pos hkey, ← hkey, beq_self_eq_true, Bool.true_and]
    rfl
  · rw [if_neg hkey, beq_eq_false_iff_ne.mpr (Ne.symm hkey), Bool.false_and]
    rfl

theorem refuses_cons {k : Text} {ms : PackedMembers} :
    f.refuses (.cons k v ms) =
      (f.wants k.bytes && !v.whole || (f.passed k.bytes v p).refuses ms) := by
  by_cases hwants : f.wants k.bytes = true
  · obtain ⟨hfound, hkey⟩ := wants_iff.mp hwants
    rw [refuses_found (passed_found hwants), hwants, JsonField.refuses, hfound,
      PackedMembers.find, if_pos hkey.symm, Bool.or_false]
    rfl
  · have hnot := Bool.eq_false_of_not_eq_true hwants
    rw [passed_kept hnot, hnot, Bool.false_and, Bool.false_or]
    cases hfound : f.found with
    | true => rw [refuses_found hfound, refuses_found hfound]
    | false =>
      have hkey : k.bytes ≠ f.key := fun h => hwants (wants_iff.mpr ⟨hfound, h.symm⟩)
      rw [JsonField.refuses, JsonField.refuses, PackedMembers.find, if_neg hkey]

/-- What the first of two fields does with a value, it does as if it were alone. -/
theorem takeField_pair (key : List UInt8) (v : Packed) (p : Nat) (hf : f.needle = none)
    (hg : g.needle = some text) (hne : f.key ≠ g.key) {rest : List UInt8} (h : Delim rest) :
    takeField key ⟨p, v.bytes ++ rest⟩ [f, g] =
      if f.wants key && !v.whole then .error EAF_INVALID
      else .ok ([f.passed key v p, g.passed key v p], ⟨p + v.bytes.length, rest⟩) := by
  rw [takeField]
  by_cases hwantsf : f.wants key = true
  · have hwantsg : g.wants key = false := Bool.eq_false_of_not_eq_true fun hg =>
      hne ((wants_iff.mp hwantsf).2.trans (wants_iff.mp hg).2.symm)
    rw [if_pos hwantsf, passed_kept hwantsg, hwantsf, Bool.true_and]
    unfold JsonField.take JsonField.passed
    simp only [hf, parseValue_packed v p h]
    cases hwhole : v.whole with
    | true => simp only [Bool.not_true, Bool.false_eq_true, if_false, if_true, hwantsf]; rfl
    | false => simp only [Bool.not_false, Bool.false_eq_true, if_false, if_true]; rfl
  · rw [if_neg hwantsf, Bool.eq_false_of_not_eq_true hwantsf, Bool.false_and, takeField,
      passed_kept (Bool.eq_false_of_not_eq_true hwantsf)]
    by_cases hwantsg : g.wants key = true
    · unfold JsonField.take JsonField.passed
      simp only [hwantsg, if_true, hg, parseArrayMembership_packed text g.member v p h]
      rfl
    · rw [if_neg hwantsg, passed_kept (Bool.eq_false_of_not_eq_true hwantsg), takeField,
        skipValue_packed v p h]
      rfl

end Pass

/-- A turn of the loop of `scan_fields`. -/
theorem scanFieldsIn_key (bound p : Nat) (fields : List JsonField) (key : Text)
    (rest : List UInt8) :
    scanFieldsIn (bound + 1) fields ⟨p, key.quoted ++ COLON :: rest⟩ = (do
      let (fields, c) ← takeField key.bytes ⟨p + key.quoted.length + 1, rest⟩ fields
      match ← separator RBRACE c with
      | .more c => scanFieldsIn bound fields c
      | .close c => .ok (fields, c)) := by
  have hws : skipWs ⟨p, key.quoted ++ COLON :: rest⟩ = ⟨p, key.quoted ++ COLON :: rest⟩ :=
    skipWs_cons p _ (by decide)
  have hne : (key.quoted ++ COLON :: rest).head? ≠ some RBRACE := by
    rw [Text.quoted, List.cons_append, List.head?_cons]
    decide
  rw [scanFieldsIn]
  simp only [hws]
  rw [if_neg hne, scanKey_packed]
  rfl

/-- The pass with a field for a value and a field for a string fails at a number that it should
take, and gives the string's field the first member with its key. -/
theorem scanFieldsIn_pair {text : List UInt8} : ∀ (ms : PackedMembers) (bound p : Nat)
    (rest : List UInt8) (f g : JsonField), f.needle = none → g.needle = some text →
    f.key ≠ g.key → ms.bytes.length < bound →
    if f.refuses ms then
      scanFieldsIn bound [f, g] ⟨p, ms.bytes ++ RBRACE :: rest⟩ = .error EAF_INVALID
    else ∃ f' c', scanFieldsIn bound [f, g] ⟨p, ms.bytes ++ RBRACE :: rest⟩ =
      .ok ([f', g.filled ms], c')
  | ms, 0, p, rest, f, g, _, _, _, hbound => by omega
  | .last key v, bound + 1, p, rest, f, g, hf, hg, hne, hbound => by
    have htake := takeField_pair key.bytes v (p + key.quoted.length + 1) hf hg hne
      (delim_cons (b := RBRACE) rest (by decide))
    rw [PackedMembers.bytes, List.append_assoc, List.cons_append, scanFieldsIn_key, htake,
      refuses_last]
    split
    · rfl
    · simp only [bind, Except.bind, separator_close_at (.inl rfl)]
      exact ⟨_, _, by rw [filled_last hg]⟩
  | .cons key v ms, bound + 1, p, rest, f, g, hf, hg, hne, hbound => by
    have hlen : (PackedMembers.cons key v ms).bytes.length =
        key.quoted.length + (v.bytes.length + (ms.bytes.length + 1) + 1) := by
      simp [PackedMembers.bytes]
    have hdelim : Delim (COMMA :: (ms.bytes ++ RBRACE :: rest)) := delim_cons _ (by decide)
    have htake := takeField_pair key.bytes v (p + key.quoted.length + 1) hf hg hne hdelim
    obtain ⟨hfkey, hfneedle⟩ := passed_named key.bytes v (p + key.quoted.length + 1) f
    obtain ⟨hgkey, hgneedle⟩ := passed_named key.bytes v (p + key.quoted.length + 1) g
    have ih := scanFieldsIn_pair ms bound (p + key.quoted.length + 1 + v.bytes.length + 1) rest
      _ _ (hfneedle.trans hf) (hgneedle.trans hg) (by rw [hfkey, hgkey]; exact hne) (by omega)
    rw [PackedMembers.bytes, List.append_assoc, List.cons_append, List.append_assoc,
      List.cons_append, scanFieldsIn_key, htake,
      refuses_cons (p := p + key.quoted.length + 1), filled_cons (p := p + key.quoted.length + 1) hg]
    by_cases hblocked : (f.wants key.bytes && !v.whole) = true
    · rw [if_pos hblocked, hblocked]
      rfl
    · rw [if_neg hblocked, Bool.eq_false_of_not_eq_true hblocked, Bool.false_or]
      simp only [bind, Except.bind, separator_comma_at]
      exact ih

/-! ## Messages -/

/-- The message that an object is. -/
def PackedMembers.message (ms : PackedMembers) : Span := ⟨0, (Packed.obj ms).bytes⟩

/-- A message of a type, and its payload. -/
structure RoleMessage (type : String) (payload : Option Packed) (ms : PackedMembers) : Prop where
  typed : ∃ t : Text, ms.find (ascii "type") = some (.str t) ∧ t.bytes = ascii type
  carries : ms.find (ascii "payload") = payload

/-- The first value with the key in a payload. -/
def payloadMember (payload : Option Packed) (key : String) : Option Packed :=
  payload.bind (Packed.member (ascii key))

/-- What the client tells the application of a `stream/clear`. -/
def clearPlayer (json : Span) : Bool :=
  match jsonGet json (ascii "payload.roles") with
  | .ok roles => jsonArrayContains roles (ascii "player")
  | .error _ => true

/-- What roles say about the player: where there are none, every role is meant. -/
def namesPlayer : Option Packed → Bool
  | none => true
  | some roles => roles.has (ascii "player")

section Messages

variable {ms : PackedMembers} {payload : Option Packed}

theorem descend_message (segment : List UInt8) (leaf : Bool) (ms : PackedMembers) :
    Arrives (ms.find segment) leaf (descend segment leaf ms.message) := by
  have h := descend_packed segment leaf (v := .obj ms) rfl 0 []
  rw [List.append_nil] at h
  exact h

/-- The look-up of a key, by the value that has it. -/
theorem jsonGet_message (key : List UInt8) (hkey : key ≠ []) (hplain : DOT ∉ key)
    (ms : PackedMembers) :
    match ms.find key with
    | none => jsonGet ms.message key = .error EAF_UNSUPPORTED
    | some v => v.whole = true → ∃ p, jsonGet ms.message key = .ok (v.parsed p) := by
  have h := descend_message key true ms
  unfold jsonGet
  rw [if_neg hkey, segments_plain hplain, descendAll]
  cases hfind : ms.find key with
  | none =>
    rw [hfind] at h
    rw [show descend key true ms.message = .error EAF_UNSUPPORTED from h]
    rfl
  | some v =>
    intro hwhole
    rw [hfind] at h
    obtain ⟨p, rest, hdelim, harrive⟩ := h
    refine ⟨p, ?_⟩
    rw [harrive, arrive, if_pos rfl, parseValue_packed v p hdelim, if_pos hwhole]
    rfl

theorem clearPlayer_message (hpayload : ms.find (ascii "payload") = payload)
    (hobject : ∀ v ∈ payload, v.type = .object) :
    clearPlayer ms.message =
      (namesPlayer (payloadMember payload "roles") ||
        (payloadMember payload "roles").any fun roles => !roles.whole) := by
  have hpath : segments (ascii "payload.roles") = [ascii "payload", ascii "roles"] := by decide
  have hdescend := descend_message (ascii "payload") false ms
  rw [hpayload] at hdescend
  unfold clearPlayer jsonGet
  rw [if_neg (by decide), hpath]
  simp only [descendAll]
  cases payload with
  | none =>
    rw [show descend _ false ms.message = .error EAF_UNSUPPORTED from hdescend]
    rfl
  | some v =>
    obtain ⟨p, rest, -, harrive⟩ := hdescend
    have hroles := descend_packed (ascii "roles") true (hobject v rfl) p rest
    rw [harrive]
    simp only [arrive, Bool.false_eq_true, if_false, bind, Except.bind]
    change _ = (namesPlayer (v.member (ascii "roles")) || (v.member (ascii "roles")).any _)
    cases hfind : v.member (ascii "roles") with
    | none =>
      rw [hfind] at hroles
      rw [show descend _ true _ = .error EAF_UNSUPPORTED from hroles]
      rfl
    | some roles =>
      rw [hfind] at hroles
      obtain ⟨p', rest', hdelim, hroles⟩ := hroles
      rw [hroles, arrive, if_pos rfl, parseValue_packed roles p' hdelim]
      cases hwhole : roles.whole with
      | true =>
        simp only [if_true, Except.map, jsonArrayContains_packed, Option.any_some, hwhole,
          Bool.not_true, Bool.or_false]
        rfl
      | false =>
        simp only [Bool.false_eq_true, if_false, Except.map, Option.any_some, hwhole,
          Bool.not_false, Bool.or_true]

/-- The pass over a payload that `eaf_sendspin_parse_stream_end` makes. -/
theorem fieldsOf_packed {v : Packed} (hv : v.type = .object) (p : Nat) :
    if (v.member (ascii "server_transmitted")).any fun sent => !sent.whole then
      fieldsOf (v.parsed p) [valueField "server_transmitted", memberField "roles" "player"] =
        .error EAF_INVALID
    else ∃ sent roles,
      fieldsOf (v.parsed p) [valueField "server_transmitted", memberField "roles" "player"] =
        .ok [sent, roles] ∧
      (!roles.found || roles.member) = namesPlayer (v.member (ascii "roles")) := by
  cases v with
  | emptyObj => exact ⟨_, _, rfl, rfl⟩
  | obj ms =>
    have hscan := scanFieldsIn_pair ms (Span.bound ⟨p + 1, ms.bytes ++ [RBRACE]⟩) (p + 1) []
      (valueField "server_transmitted") (memberField "roles" "player") rfl rfl (by decide)
      (by simp only [Span.bound, List.length_append]; omega)
    have hfields : ∀ fields, scanFields fields (Packed.parsed p (.obj ms)).raw =
        scanFieldsIn (Span.bound ⟨p + 1, ms.bytes ++ [RBRACE]⟩) fields
          ⟨p + 1, ms.bytes ++ [RBRACE]⟩ := fun _ => rfl
    unfold fieldsOf
    rw [hfields]
    change if ((valueField "server_transmitted").refuses ms) = true then _ else _
    split at hscan
    next hrefuses =>
      rw [if_pos hrefuses, hscan]
    next hrefuses =>
      obtain ⟨sent, c, hscan⟩ := hscan
      rw [if_neg hrefuses, hscan]
      refine ⟨sent, _, rfl, ?_⟩
      unfold JsonField.filled
      change _ = namesPlayer (ms.find (memberField "roles" "player").key)
      cases ms.find (memberField "roles" "player").key with
      | none => rfl
      | some roles =>
        simp only [JsonField.passed]
        rw [if_pos (by decide)]
        exact has_array (ascii "player") roles
  | _ => cases hv

theorem parseStreamEnd_message (hpayload : ms.find (ascii "payload") = payload)
    (hobject : ∀ v ∈ payload, v.type = .object) :
    (parseStreamEnd ms.message).map StreamEnd.endPlayer =
      if (payloadMember payload "server_transmitted").any fun sent => !sent.whole then
        .error EAF_INVALID
      else .ok (namesPlayer (payloadMember payload "roles")) := by
  have hget := jsonGet_message (ascii "payload") (by decide) (by decide) ms
  rw [hpayload] at hget
  unfold parseStreamEnd
  cases payload with
  | none =>
    rw [hget]
    rfl
  | some v =>
    have hv := hobject v rfl
    have hwhole : v.whole = true := by
      cases v with
      | num n => cases hv
      | _ => rfl
    obtain ⟨p, hget⟩ := hget hwhole
    have htype : (v.parsed p).type = .object := hv
    rw [hget]
    simp only [htype, if_true]
    have hfields := fieldsOf_packed hv p
    change _ = if (v.member (ascii "server_transmitted")).any _ then _ else _
    split at hfields
    next hrefused =>
      rw [if_pos hrefused, hfields]
      rfl
    next hrefused =>
      obtain ⟨sent, roles, hfields, hplayer⟩ := hfields
      rw [if_neg hrefused, hfields]
      exact congrArg Except.ok hplayer

theorem dispatchText_clear {φ : Type} (h : RoleMessage "stream/clear" payload ms) (env : Env φ)
    (c : Client φ) :
    dispatchText env ms.message c = (EAF_OK,
      callApp c.callbacks.streamClear (.streamClear (clearPlayer ms.message)) c) := by
  obtain ⟨t, hfind, ht⟩ := h.typed
  have hget := jsonGet_message (ascii "type") (by decide) (by decide) ms
  rw [hfind] at hget
  obtain ⟨p, hget⟩ := hget rfl
  have hequals : ∀ text, jsonStringEquals ((Packed.str t).parsed p) text =
      (ascii "stream/clear" == ascii text) := by
    intro text
    rw [← ht]
    rfl
  unfold dispatchText
  rw [hget]
  simp only [hequals]
  rw [if_neg (by decide), if_neg (by decide), if_neg (by decide), if_pos (by decide)]
  rfl

end Messages

/-! ## The two decisions -/

/-- A `stream/clear` and a `stream/end` with the same payload say the same about the player just if
the payload has no fraction and no exponent in its roles or in its `server_transmitted`. The
look-up of the first takes an error for roles that are not there. -/
theorem clear_end_agree {φ : Type} {payload : Option Packed} {clear ending : PackedMembers}
    (hclear : RoleMessage "stream/clear" payload clear)
    (hend : RoleMessage "stream/end" payload ending)
    (hobject : ∀ v ∈ payload, v.type = .object) :
    (∀ (env : Env φ) (c : Client φ), dispatchText env clear.message c = (EAF_OK,
      callApp c.callbacks.streamClear (.streamClear (clearPlayer clear.message)) c)) ∧
    ((parseStreamEnd ending.message).map StreamEnd.endPlayer = .ok (clearPlayer clear.message) ↔
      (payloadMember payload "roles").all Packed.whole = true ∧
        (payloadMember payload "server_transmitted").all Packed.whole = true) := by
  refine ⟨dispatchText_clear hclear, ?_⟩
  rw [parseStreamEnd_message hend.carries hobject, clearPlayer_message hclear.carries hobject]
  have hsent : (payloadMember payload "server_transmitted").any (fun sent => !sent.whole) =
      !(payloadMember payload "server_transmitted").all Packed.whole := by
    cases payloadMember payload "server_transmitted" <;> rfl
  rw [hsent]
  cases (payloadMember payload "server_transmitted").all Packed.whole with
  | false =>
    rw [Bool.not_false, if_pos rfl]
    exact iff_of_false nofun nofun
  | true =>
    rw [Bool.not_true, if_neg Bool.false_ne_true, Except.ok.injEq, and_iff_left rfl]
    cases payloadMember payload "roles" with
    | none => exact iff_of_true rfl rfl
    | some roles =>
      simp only [Option.any_some, Option.all_some]
      cases hwhole : roles.whole with
      | true =>
        rw [Bool.not_true, Bool.or_false]
        exact iff_of_true rfl rfl
      | false =>
        rw [Bool.not_false, Bool.or_true, namesPlayer, has_whole hwhole]

/-- A message of a type with a payload. -/
def roleMessage (type : String) (payload : Packed) : PackedMembers :=
  .cons (escapedText (ascii "type")) (.str (escapedText (ascii type)))
    (.last (escapedText (ascii "payload")) payload)

theorem roleMessage_typed {type : String} (htype : (escapedText (ascii type)).bytes = ascii type)
    (payload : Packed) : RoleMessage type (some payload) (roleMessage type payload) := by
  refine ⟨⟨_, if_pos (by decide +kernel), htype⟩, ?_⟩
  exact (if_neg (by decide +kernel)).trans (if_pos (by decide +kernel))

/-- A payload with nothing but roles. -/
def rolesPayload (roles : Packed) : Packed := .obj (.last (escapedText (ascii "roles")) roles)

/-- `[null,"player"]`. -/
def listedRoles : Packed := .arr (.cons .null (.last (.str (escapedText (ascii "player")))))

theorem clear_end_agree_listed :
    (parseStreamEnd (roleMessage "stream/end" (rolesPayload listedRoles)).message).map
        StreamEnd.endPlayer =
      .ok (clearPlayer (roleMessage "stream/clear" (rolesPayload listedRoles)).message) :=
  (clear_end_agree (φ := Unit) (roleMessage_typed (by decide +kernel) (rolesPayload listedRoles))
    (roleMessage_typed (by decide +kernel) (rolesPayload listedRoles))
    (by intro v hv; cases hv; rfl)).2.mpr ⟨by decide +kernel, by decide +kernel⟩

/-- `1.5`. -/
def fractionRoles : Packed :=
  .num ⟨intLit false 1, some ⟨digitsUp 5, digitsUp_nonempty 5⟩, none⟩

/-- A `stream/clear` with a fraction for roles is for the player, and the `stream/end` is not. -/
theorem clear_end_differ :
    (roleMessage "stream/clear" (rolesPayload fractionRoles)).message =
        ⟨0, ascii "\x7b\"type\":\"stream/clear\",\"payload\":\x7b\"roles\":1.5\x7d\x7d"⟩ ∧
      (∀ (env : Env Unit) (c : Client Unit),
        dispatchText env (roleMessage "stream/clear" (rolesPayload fractionRoles)).message c =
          (EAF_OK, callApp c.callbacks.streamClear (.streamClear true) c)) ∧
      (roleMessage "stream/end" (rolesPayload fractionRoles)).message =
        ⟨0, ascii "\x7b\"type\":\"stream/end\",\"payload\":\x7b\"roles\":1.5\x7d\x7d"⟩ ∧
      (parseStreamEnd (roleMessage "stream/end" (rolesPayload fractionRoles)).message).map
        StreamEnd.endPlayer = .ok false := by
  refine ⟨by decide +kernel, fun env c => ?_, by decide +kernel, by decide +kernel⟩
  have hplayer : clearPlayer (roleMessage "stream/clear" (rolesPayload fractionRoles)).message =
      true := by decide +kernel
  rw [dispatchText_clear (roleMessage_typed (by decide +kernel) (rolesPayload fractionRoles)) env c,
    hplayer]

end EmbeddedAudio.Sendspin
