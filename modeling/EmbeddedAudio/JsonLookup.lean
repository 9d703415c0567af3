-- What a look-up finds. On the bytes of a document the reader goes to the
-- value of the first member with each key, and parses it to what it says.
import EmbeddedAudio.JsonSkip

namespace EmbeddedAudio.Sendspin

/-! ## What a value says -/

def Json.boolean : Json → Bool
  | .bool b => b
  | _ => false

def Json.number : Json → Int
  | .num n => clamp64 n.value
  | _ => 0

def Json.text : Json → List UInt8
  | .str s => s.bytes
  | _ => []

/-- A parsed value says what the text says, and its raw view is the text. -/
structure JsonValue.Shows (v : JsonValue) (t : Json) : Prop where
  type : v.type = t.type
  boolean : v.boolean = t.boolean
  number : v.number = t.number
  string : v.string.bytes = t.text
  raw : v.raw.bytes = t.bytes

/-- A cursor at a value, with whitespace before it. -/
def before (p : Nat) (g : Gap) (v : Json) (rest : List UInt8) : Span :=
  ⟨p, g.bytes ++ (v.bytes ++ rest)⟩

def after (p : Nat) (g : Gap) (v : Json) (rest : List UInt8) : Span :=
  ⟨p + g.bytes.length + v.bytes.length, rest⟩

theorem skipValue_tight {v : Json} (hv : v.tight = true) (p : Nat) (g : Gap) {rest : List UInt8}
    (h : Delim rest) : skipValue (before p g v rest) = .ok (after p g v rest) := by
  unfold before after
  rw [skipValue_bytes v p g h, if_pos hv]

theorem skipObject_tight {v : Json} (hv : v.tight = true) (hobj : v.type = .object) (p : Nat)
    {rest : List UInt8} (h : Delim rest) :
    skipObject ⟨p, v.bytes ++ rest⟩ = .ok ⟨p + v.bytes.length, rest⟩ := by
  have hskip := skipValueIn_bytes v (Span.bound ⟨p, v.bytes ++ rest⟩ + 1) p .none rest
    (by simp only [Span.bound, List.length_append]; omega) h
  simp only [Gap.none, List.nil_append, hv, if_true, List.length_nil, Nat.add_zero] at hskip
  rw [← hskip, skipValueIn]
  have hws := skipWs_value p .none v rest
  simp only [Gap.none, List.nil_append, List.length_nil, Nat.add_zero] at hws
  simp only [hws]
  cases v <;> simp only [Json.type, reduceCtorEq] at hobj
  · rfl
  · rfl

theorem skipArray_tight {v : Json} (hv : v.tight = true) (harr : v.type = .array) (p : Nat)
    {rest : List UInt8} (h : Delim rest) :
    skipArray ⟨p, v.bytes ++ rest⟩ = .ok ⟨p + v.bytes.length, rest⟩ := by
  have hskip := skipValueIn_bytes v (Span.bound ⟨p, v.bytes ++ rest⟩ + 1) p .none rest
    (by simp only [Span.bound, List.length_append]; omega) h
  simp only [Gap.none, List.nil_append, hv, if_true, List.length_nil, Nat.add_zero] at hskip
  rw [← hskip, skipValueIn]
  have hws := skipWs_value p .none v rest
  simp only [Gap.none, List.nil_append, List.length_nil, Nat.add_zero] at hws
  simp only [hws]
  cases v <;> simp only [Json.type, reduceCtorEq] at harr
  · rfl
  · rfl

theorem upTo_advance (p : Nat) (xs rest : List UInt8) :
    Span.upTo ⟨p, xs ++ rest⟩ (Span.advance ⟨p, xs ++ rest⟩ xs.length) = ⟨p, xs⟩ := by
  simp [Span.upTo, Span.advance]

theorem upTo_append (p n : Nat) (xs rest rest' : List UInt8) (h : n = xs.length) :
    Span.upTo ⟨p, xs ++ rest⟩ ⟨p + n, rest'⟩ = ⟨p, xs⟩ := by
  subst h
  simp [Span.upTo]

/-- A value is parsed to what it says. -/
theorem parseValue_tight {v : Json} (hv : v.tight = true) (p : Nat) (g : Gap) {rest : List UInt8}
    (h : Delim rest) :
    ∃ val, parseValue (before p g v rest) = .ok (val, after p g v rest) ∧ val.Shows v := by
  have hup := upTo_append (p + g.bytes.length) _ v.bytes rest rest rfl
  unfold before after parseValue
  simp only [skipWs_value]
  cases v with
  | null =>
    have hlit := matchLiteral_append (ascii "null") (p + g.bytes.length) rest
    refine ⟨_, congrArg (Except.map _) hlit, ?_⟩
    exact ⟨rfl, rfl, rfl, rfl, congrArg Span.bytes (upTo_advance _ (ascii "null") rest)⟩
  | bool b =>
    cases b with
    | true =>
      have hlit := matchLiteral_append (ascii "true") (p + g.bytes.length) rest
      refine ⟨_, congrArg (Except.map _) hlit, ?_⟩
      exact ⟨rfl, rfl, rfl, rfl, congrArg Span.bytes (upTo_advance _ (ascii "true") rest)⟩
    | false =>
      have hlit := matchLiteral_append (ascii "false") (p + g.bytes.length) rest
      refine ⟨_, congrArg (Except.map _) hlit, ?_⟩
      exact ⟨rfl, rfl, rfl, rfl, congrArg Span.bytes (upTo_advance _ (ascii "false") rest)⟩
  | num n =>
    obtain ⟨b, tail, hb, hopen⟩ := bytes_cons (.num n)
    obtain ⟨_, h1, h2, _, _, h3, h4, h5, h6⟩ := number_first hopen
    have hnum := parseNumber_int (p + g.bytes.length) n h
    have hbn : n.bytes = b :: tail := hb
    simp only [Json.bytes] at hup ⊢
    rw [hbn] at hnum hup ⊢
    simp only [List.cons_append, h1, h2, h3, h4, h5, h6, if_false] at hnum hup ⊢
    refine ⟨_, congrArg (Except.map _) hnum, ?_⟩
    exact ⟨rfl, rfl, rfl, rfl, by simp only [Json.bytes]; rw [hup, hbn]⟩
  | str s =>
    have hscan := scanString_text (p + g.bytes.length) s rest
    refine ⟨_, congrArg (Except.map _) hscan, ?_⟩
    exact ⟨rfl, rfl, rfl, rfl, by simp only [Json.bytes] at hup ⊢; rw [hup]⟩
  | emptyArr inside =>
    have hskip := skipArray_tight hv rfl (p + g.bytes.length) h
    refine ⟨_, congrArg (Except.map _) hskip, ?_⟩
    exact ⟨rfl, rfl, rfl, rfl, by rw [hup]⟩
  | arr es =>
    have hskip := skipArray_tight hv rfl (p + g.bytes.length) h
    refine ⟨_, congrArg (Except.map _) hskip, ?_⟩
    exact ⟨rfl, rfl, rfl, rfl, by rw [hup]⟩
  | emptyObj inside =>
    have hskip := skipObject_tight hv rfl (p + g.bytes.length) h
    refine ⟨_, congrArg (Except.map _) hskip, ?_⟩
    exact ⟨rfl, rfl, rfl, rfl, by rw [hup]⟩
  | obj ms =>
    have hskip := skipObject_tight hv rfl (p + g.bytes.length) h
    refine ⟨_, congrArg (Except.map _) hskip, ?_⟩
    exact ⟨rfl, rfl, rfl, rfl, by rw [hup]⟩

/-! ## Descending -/

theorem scanKey_head (p : Nat) (head : Head) (rest : List UInt8) :
    scanKey ⟨p, head.key.quoted ++ (head.beforeColon.bytes ++ COLON :: rest)⟩ =
      .ok (head.key.bytes, ⟨p + head.key.quoted.length + head.beforeColon.bytes.length + 1, rest⟩) := by
  have hkey := scanString_key p head.key head.beforeColon rest
  unfold scanKey
  rw [scanString_text] at hkey ⊢
  simp only [bind, Except.bind] at hkey ⊢
  rw [hkey]
  rfl

/-- The loop at a key: no member is skipped by the whitespace and the brace before it. -/
theorem head_body (ms : Members) (rest : List UInt8) :
    (ms.body ++ rest).head? ≠ some RBRACE := by
  obtain ⟨tail, htail⟩ := body_head ms rest
  rw [htail, List.head?_cons]
  decide

theorem skipWs_body (p : Nat) (g : Gap) (ms : Members) (rest : List UInt8) :
    skipWs ⟨p, g.bytes ++ (ms.body ++ rest)⟩ = ⟨p + g.bytes.length, ms.body ++ rest⟩ := by
  obtain ⟨tail, htail⟩ := body_head ms rest
  exact skipWs_gap p g (by rw [htail]; intro b hb; cases hb; rfl)

/-- What `descend` does at the value of the member that it looks for. -/
def arrive (leaf : Bool) (c : Span) : Except Rc (JsonValue × Span) :=
  if leaf then parseValue c else .ok (JsonValue.zero, c)

/-- One turn of the loop of `descend`. -/
theorem descendIn_last (segment : List UInt8) (leaf : Bool) (bound p : Nat) (g : Gap) (head : Head)
    (v : Json) (trail : Gap) (rest : List UInt8) :
    ∃ p', descendIn segment leaf (bound + 1)
        ⟨p, g.bytes ++ ((Members.last head v trail).body ++ RBRACE :: rest)⟩ =
      if head.key.bytes = segment then
        arrive leaf (before p' head.afterColon v (trail.bytes ++ RBRACE :: rest))
      else if v.tight then .error EAF_UNSUPPORTED else .error EAF_INVALID := by
  refine ⟨p + g.bytes.length + head.key.quoted.length + head.beforeColon.bytes.length + 1, ?_⟩
  have hskip := skipValue_bytes v
    (p + g.bytes.length + head.key.quoted.length + head.beforeColon.bytes.length + 1)
    head.afterColon (delim_gap trail (delim_cons (b := RBRACE) rest (by decide)))
  rw [descendIn]
  simp only [skipWs_body]
  rw [if_neg (head_body _ _)]
  simp only [Members.body, List.append_assoc, List.cons_append, scanKey_head, bind, Except.bind]
  split
  · rfl
  · rw [hskip]
    by_cases ht : v.tight = true
    · simp only [ht, if_true, separator_close (.inl rfl)]
    · simp only [ht]
      rfl

theorem descendIn_cons (segment : List UInt8) (leaf : Bool) (bound p : Nat) (g : Gap) (head : Head)
    (v : Json) (trail : Gap) (ms : Members) (rest : List UInt8) :
    ∃ p' p'', descendIn segment leaf (bound + 1)
        ⟨p, g.bytes ++ ((Members.cons head v trail ms).body ++ RBRACE :: rest)⟩ =
      if head.key.bytes = segment then
        arrive leaf (before p' head.afterColon v
          (trail.bytes ++ COMMA :: (ms.bytes ++ RBRACE :: rest)))
      else if v.tight then
        descendIn segment leaf bound ⟨p'', ms.lead.bytes ++ (ms.body ++ RBRACE :: rest)⟩
      else .error EAF_INVALID := by
  refine ⟨p + g.bytes.length + head.key.quoted.length + head.beforeColon.bytes.length + 1,
    p + g.bytes.length + head.key.quoted.length + head.beforeColon.bytes.length + 1 +
      head.afterColon.bytes.length + v.bytes.length + trail.bytes.length + 1, ?_⟩
  have hskip := skipValue_bytes v
    (p + g.bytes.length + head.key.quoted.length + head.beforeColon.bytes.length + 1)
    head.afterColon
    (delim_gap trail (delim_cons (b := COMMA) (ms.bytes ++ RBRACE :: rest) (by decide)))
  rw [descendIn]
  simp only [skipWs_body]
  rw [if_neg (head_body _ _)]
  simp only [Members.body, List.append_assoc, List.cons_append, scanKey_head, bind, Except.bind]
  split
  · rfl
  · rw [hskip]
    by_cases ht : v.tight = true
    · simp only [ht, if_true, separator_comma]
      rw [bytes_members, List.append_assoc]
      rfl
    · simp only [ht]
      rfl

theorem length_body_cons (head : Head) (v : Json) (trail : Gap) (ms : Members) :
    ms.body.length < (Members.cons head v trail ms).body.length := by
  have hms : ms.bytes.length = ms.lead.bytes.length + ms.body.length := by
    rw [bytes_members, List.length_append]
  have hlen : ms.bytes.length < (Members.cons head v trail ms).body.length := by
    rw [Members.body]
    simp only [List.length_append, List.length_cons]
    omega
  omega

/-- A key that no member has: every value is skipped. -/
theorem descendIn_absent (segment : List UInt8) (leaf : Bool) : ∀ (ms : Members) (bound p : Nat)
    (g : Gap) (rest : List UInt8), ms.body.length < bound → ms.find segment = none →
    descendIn segment leaf bound ⟨p, g.bytes ++ (ms.body ++ RBRACE :: rest)⟩ =
      if ms.valuesTight then .error EAF_UNSUPPORTED else .error EAF_INVALID
  | ms, 0, p, g, rest, hbound, _ => by omega
  | .last head v trail, bound + 1, p, g, rest, _, hfind => by
    obtain ⟨p', hstep⟩ := descendIn_last segment leaf bound p g head v trail rest
    have hkey : head.key.bytes ≠ segment := fun hkey => by simp [Members.find, hkey] at hfind
    rw [hstep, if_neg hkey, Members.valuesTight]
  | .cons head v trail ms, bound + 1, p, g, rest, hbound, hfind => by
    obtain ⟨p', p'', hstep⟩ := descendIn_cons segment leaf bound p g head v trail ms rest
    have hkey : head.key.bytes ≠ segment := fun hkey => by simp [Members.find, hkey] at hfind
    have hfind : ms.find segment = none := by simpa [Members.find, hkey] using hfind
    have hlen := Nat.lt_of_lt_of_le (length_body_cons head v trail ms) (Nat.le_of_lt_succ hbound)
    rw [hstep, if_neg hkey, descendIn_absent segment leaf ms bound p'' ms.lead rest hlen hfind]
    simp only [Members.valuesTight, Bool.and_eq_true]
    by_cases ht : v.tight = true <;> simp [ht]

/-- A key that a member has: the loop arrives at the first one's value. -/
theorem descendIn_present (segment : List UInt8) (leaf : Bool) {v : Json} : ∀ (ms : Members)
    (bound p : Nat) (g : Gap) (rest : List UInt8), ms.body.length < bound →
    ms.valuesTight = true → ms.find segment = some v →
    v.tight = true ∧ ∃ p' g' rest', Delim rest' ∧
      descendIn segment leaf bound ⟨p, g.bytes ++ (ms.body ++ RBRACE :: rest)⟩ =
        arrive leaf (before p' g' v rest')
  | ms, 0, p, g, rest, hbound, _, _ => by omega
  | .last head w trail, bound + 1, p, g, rest, _, htight, hfind => by
    obtain ⟨p', hstep⟩ := descendIn_last segment leaf bound p g head w trail rest
    simp only [Members.find] at hfind
    split at hfind
    · rename_i hkey
      cases hfind
      exact ⟨htight, p', _, _, delim_gap trail (delim_cons (b := RBRACE) rest (by decide)), by
        rw [hstep, if_pos hkey]⟩
    · cases hfind
  | .cons head w trail ms, bound + 1, p, g, rest, hbound, htight, hfind => by
    obtain ⟨p', p'', hstep⟩ := descendIn_cons segment leaf bound p g head w trail ms rest
    simp only [Members.valuesTight, Bool.and_eq_true] at htight
    simp only [Members.find] at hfind
    split at hfind
    · rename_i hkey
      cases hfind
      exact ⟨htight.1, p', _, _, delim_gap trail (delim_cons (b := COMMA) _ (by decide)), by
        rw [hstep, if_pos hkey]⟩
    · rename_i hkey
      have hlen := Nat.lt_of_lt_of_le (length_body_cons head w trail ms) (Nat.le_of_lt_succ hbound)
      rw [hstep, if_neg hkey, if_pos htight.1]
      exact descendIn_present segment leaf ms bound p'' ms.lead rest hlen htight.2 hfind

/-! ## Descending from a value -/

theorem descend_object (segment : List UInt8) (leaf : Bool) (p : Nat) (g : Gap) (ms : Members)
    (rest : List UInt8) :
    ∃ p' bound, ms.body.length < bound ∧ descend segment leaf (before p g (.obj ms) rest) =
      descendIn segment leaf bound ⟨p', ms.lead.bytes ++ (ms.body ++ RBRACE :: rest)⟩ := by
  unfold descend before
  refine ⟨p + g.bytes.length + 1,
    Span.bound ⟨p + g.bytes.length + 1, ms.lead.bytes ++ (ms.body ++ RBRACE :: rest)⟩, ?_, ?_⟩
  · simp only [Span.bound, List.length_append]
    omega
  · rw [skipWs_value]
    simp only [Json.bytes, List.cons_append, List.append_assoc, List.nil_append, expect_cons, bind,
      Except.bind, bytes_members]

/-- An object that has not the key, whose values are tight or not. -/
theorem descend_absent (segment : List UInt8) (leaf : Bool) {v : Json} (hobj : v.type = .object)
    (hfind : v.member segment = none) (p : Nat) (g : Gap) (rest : List UInt8) :
    descend segment leaf (before p g v rest) =
      if v.valuesTight then .error EAF_UNSUPPORTED else .error EAF_INVALID := by
  cases v <;> simp only [Json.type, reduceCtorEq] at hobj
  · rename_i inside
    unfold descend before
    rw [skipWs_value]
    simp only [Json.bytes, List.cons_append, List.append_assoc, List.nil_append, expect_cons, bind,
      Except.bind, Span.bound, descendIn]
    rw [skipWs_gap _ inside (by intro b hb; cases hb; rfl)]
    rfl
  · rename_i ms
    obtain ⟨p', bound, hbound, hin⟩ := descend_object segment leaf p g ms rest
    rw [hin, descendIn_absent segment leaf ms bound p' ms.lead rest hbound hfind]
    rfl

/-- An object that has the key. -/
theorem descend_present (segment : List UInt8) (leaf : Bool) {v w : Json}
    (htight : v.valuesTight = true) (hfind : v.member segment = some w) (p : Nat) (g : Gap)
    (rest : List UInt8) :
    w.tight = true ∧ ∃ p' g' rest', Delim rest' ∧
      descend segment leaf (before p g v rest) = arrive leaf (before p' g' w rest') := by
  cases v <;> simp only [Json.member, reduceCtorEq] at hfind
  rename_i ms
  obtain ⟨p', bound, hbound, hin⟩ := descend_object segment leaf p g ms rest
  rw [hin]
  exact descendIn_present segment leaf ms bound p' ms.lead rest hbound htight hfind

/-- A value that is no object. -/
theorem descend_other (segment : List UInt8) (leaf : Bool) {v : Json} (hobj : v.type ≠ .object)
    (p : Nat) (g : Gap) (rest : List UInt8) :
    descend segment leaf (before p g v rest) = .error EAF_INVALID := by
  have hfirst : (v.bytes ++ rest).head? ≠ some LBRACE := by
    obtain ⟨b, tail, hb, hopen⟩ := bytes_cons v
    rw [hb, List.cons_append, List.head?_cons, ne_eq, Option.some.injEq]
    cases v with
    | num n => exact (number_first hopen).2.1
    | bool b' => cases b' <;> cases hopen <;> decide
    | emptyObj | obj => exact absurd rfl hobj
    | _ => cases hopen; decide
  unfold descend before
  rw [skipWs_value]
  simp only [expect, if_neg hfirst, bind, Except.bind]

/-! ## Paths -/

/-- What a look-up of a path gives. -/
def Json.get : List (List UInt8) → Json → Except Rc Json
  | [], _ => .error EAF_INVALID
  | [key], v =>
    if v.type = .object then
      match v.member key with
      | some w => .ok w
      | none => .error EAF_UNSUPPORTED
    else .error EAF_INVALID
  | key :: path, v =>
    if v.type = .object then
      match v.member key with
      | some w => Json.get path w
      | none => .error EAF_UNSUPPORTED
    else .error EAF_INVALID

/-- The reader's look-up gives the value of the path, or the error of it. -/
theorem descendAll_get : ∀ (path : List (List UInt8)) {v : Json} (p : Nat) (g : Gap)
    (rest : List UInt8), v.valuesTight = true →
    match v.get path with
    | .ok w => w.tight = true ∧ ∃ val, descendAll path (before p g v rest) = .ok val ∧ val.Shows w
    | .error rc => descendAll path (before p g v rest) = .error rc
  | [], v, p, g, rest, htight => rfl
  | [key], v, p, g, rest, htight => by
    simp only [Json.get, descendAll]
    by_cases hobj : v.type = .object
    · rw [if_pos hobj]
      rcases hfind : v.member key with _ | w
      · simp only [descend_absent key true hobj hfind, htight, if_true]
        rfl
      · obtain ⟨hw, p', g', rest', hdelim, harr⟩ := descend_present key true htight hfind p g rest
        obtain ⟨val, hval, hshows⟩ := parseValue_tight hw p' g' hdelim
        simp only [harr, arrive, if_true, hval]
        exact ⟨hw, val, rfl, hshows⟩
    · rw [if_neg hobj]
      simp only [descend_other key true hobj]
      rfl
  | key :: key' :: path, v, p, g, rest, htight => by
    simp only [Json.get, descendAll]
    by_cases hobj : v.type = .object
    · rw [if_pos hobj]
      rcases hfind : v.member key with _ | w
      · simp only [descend_absent key false hobj hfind, htight, if_true]
        rfl
      · obtain ⟨hw, p', g', rest', hdelim, harr⟩ := descend_present key false htight hfind p g rest
        have ih := descendAll_get (key' :: path) p' g' rest' (valuesTight_of_tight hw)
        simp only [harr, arrive, Bool.false_eq_true, if_false]
        exact ih
    · rw [if_neg hobj]
      simp only [descend_other key false hobj]
      rfl

theorem member_compact (key : List UInt8) (v : Json) :
    v.compact.member key = (v.member key).map Json.compact := by
  cases v with
  | obj ms => exact find_compact key ms
  | _ => rfl

/-- A look-up in the text with no whitespace. -/
theorem get_compact : ∀ (path : List (List UInt8)) (v : Json),
    v.compact.get path = (v.get path).map Json.compact
  | [], v => rfl
  | [key], v => by
    simp only [Json.get, type_compact, member_compact]
    split
    · rcases v.member key with _ | w <;> rfl
    · rfl
  | key :: key' :: path, v => by
    simp only [Json.get, type_compact, member_compact]
    split
    · rcases v.member key with _ | w
      · rfl
      · exact get_compact (key' :: path) w
    · rfl

/-- Through objects, a look-up finds the value or reports that there is none. -/
theorem get_lookup : ∀ (path : List (List UInt8)) (v : Json), path ≠ [] → v.ObjectsOn path →
    v.get path = match v.lookup path with
      | some w => .ok w
      | none => .error EAF_UNSUPPORTED
  | [], v, hne, _ => absurd rfl hne
  | [key], v, _, hobj => by
    simp only [Json.get, hobj.1, if_true, Json.lookup]
    rcases v.member key with _ | w <;> rfl
  | key :: key' :: path, v, _, hobj => by
    simp only [Json.get, hobj.1, if_true]
    rw [Json.lookup]
    rcases hfind : v.member key with _ | w
    · rfl
    · exact get_lookup (key' :: path) w (by simp) (hobj.2 w hfind)

/-- A key without dots is a path of one segment. -/
theorem segments_plain {key : List UInt8} (h : DOT ∉ key) : segments key = [key] := by
  induction key with
  | nil => rfl
  | cons b key ih =>
    rw [List.mem_cons, not_or] at h
    obtain ⟨hb, hkey⟩ := h
    rw [segments, if_neg (Ne.symm hb), ih hkey]

end EmbeddedAudio.Sendspin
