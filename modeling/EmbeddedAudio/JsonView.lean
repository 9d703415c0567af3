-- What the reader gives out are views of the message: bytes of it, at the
-- offset where they stand.
import EmbeddedAudio.JsonBound
import EmbeddedAudio.ServerMessages

namespace EmbeddedAudio.Sendspin

/-- The bytes of a span stand in the text, at its offset. -/
def Within (text : List UInt8) (s : Span) : Prop := s.bytes <+: text.drop s.start

section Within

variable {text : List UInt8} {c c' s : Span}

theorem within_empty (text : List UInt8) (start : Nat) : Within text ⟨start, []⟩ := List.nil_prefix

theorem within_text (text : List UInt8) : Within text ⟨0, text⟩ := List.prefix_refl text

/-! ## Skipping -/

theorem within_advance (h : Within text c) (n : Nat) : Within text (c.advance n) := by
  unfold Within Span.advance
  obtain ⟨rest, hrest⟩ := h
  rw [← List.drop_drop, ← hrest, List.drop_append]
  exact List.prefix_append _ _

theorem within_take (h : Within text c) (n : Nat) : Within text ⟨c.start, c.bytes.take n⟩ :=
  (List.take_prefix n c.bytes).trans h

theorem within_skipWs (h : Within text c) : Within text (skipWs c) := within_advance h _

theorem within_skipDigits (h : Within text c) : Within text (skipDigits c) := within_advance h _

theorem within_skipIf (h : Within text c) (p : UInt8 → Bool) : Within text (skipIf p c) := by
  unfold skipIf
  split
  · split
    · exact within_advance h 1
    · exact h
  · exact h

theorem within_expect (h : Within text c) {b : UInt8} (he : expect b c = .ok c') :
    Within text c' := by
  unfold expect at he
  split at he
  · cases he
    exact within_advance h 1
  · cases he

theorem within_scanString (h : Within text c) (hs : scanString c = .ok (s, c')) :
    Within text s ∧ Within text c' := by
  unfold scanString at hs
  obtain ⟨c1, h1, hs⟩ := bind_ok hs
  have hin := within_expect h h1
  split at hs
  · cases hs
  · cases hs
    exact ⟨within_take hin _, within_advance hin _⟩

theorem within_matchLiteral (h : Within text c) {literal : List UInt8}
    (hm : matchLiteral literal c = .ok c') : Within text c' := by
  unfold matchLiteral at hm
  split at hm
  · cases hm
    exact within_advance h _
  · cases hm

theorem within_skipNumber (h : Within text c) (hn : skipNumber c = .ok c') : Within text c' := by
  unfold skipNumber at hn
  simp only at hn
  have h1 := within_skipIf h (· == MINUS)
  generalize skipIf (· == MINUS) c = c1 at hn h1
  split at hn
  · have h2 : Within text (if (skipDigits c1).bytes.head? = some DOT then
        skipDigits ((skipDigits c1).advance 1) else skipDigits c1) := by
      split
      · exact within_skipDigits (within_advance (within_skipDigits h1) 1)
      · exact within_skipDigits h1
    generalize (if (skipDigits c1).bytes.head? = some DOT then
        skipDigits ((skipDigits c1).advance 1) else skipDigits c1) = c2 at hn h2
    split at hn
    · cases hn
      exact within_skipDigits (within_skipIf (within_advance h2 1) _)
    · cases hn
      exact h2
  · cases hn

theorem within_separator (h : Within text c) {close : UInt8} {next : Next}
    (hs : separator close c = .ok next) : Within text next.cursor := by
  have hws := within_skipWs h
  unfold separator at hs
  simp only at hs
  split at hs
  · cases hs
  · split_ifs at hs
    · cases hs
      exact within_advance hws 1
    · cases hs
      exact within_advance hws 1

end Within

/-- A skip stays in the text. -/
structure Stays (text : List UInt8) (bound : Nat) : Prop where
  value : ∀ {c c'}, Within text c → skipValueIn bound c = .ok c' → Within text c'
  object : ∀ {c c'}, Within text c → skipObjectIn bound c = .ok c' → Within text c'
  members : ∀ {c c'}, Within text c → skipMembersIn bound c = .ok c' → Within text c'
  array : ∀ {c c'}, Within text c → skipArrayIn bound c = .ok c' → Within text c'
  elements : ∀ {c c'}, Within text c → skipElementsIn bound c = .ok c' → Within text c'

theorem stays (text : List UInt8) (bound : Nat) : Stays text bound := by
  induction bound with
  | zero =>
    constructor <;> intro c c' _ h
    · rw [skipValueIn] at h; cases h
    · rw [skipObjectIn] at h; cases h
    · rw [skipMembersIn] at h; cases h
    · rw [skipArrayIn] at h; cases h
    · rw [skipElementsIn] at h; cases h
  | succ bound ih =>
    constructor <;> intro c c' hc h
    · -- a value
      have hws := within_skipWs hc
      rw [skipValueIn] at h
      split at h
      · cases h
      · split_ifs at h
        · exact ih.object hws h
        · exact ih.array hws h
        · rcases hs : scanString (skipWs c) with rc | ⟨s, c1⟩
          · simp [hs, Except.map] at h
          · simp only [hs, Except.map, Except.ok.injEq] at h
            subst h
            exact (within_scanString hws hs).2
        · exact within_matchLiteral hws h
        · exact within_matchLiteral hws h
        · exact within_matchLiteral hws h
        · exact within_skipNumber hws h
    · -- an object
      have hws := within_skipWs (within_advance hc 1)
      rw [skipObjectIn] at h
      split at h
      · cases h
        exact within_advance hws 1
      · exact ih.members hws h
    · -- members
      rw [skipMembersIn] at h
      obtain ⟨⟨s, c1⟩, h1, h⟩ := bind_ok h
      obtain ⟨c2, h2, h⟩ := bind_ok h
      obtain ⟨c3, h3, h⟩ := bind_ok h
      obtain ⟨next, h4, h⟩ := bind_ok h
      have hin1 := (within_scanString hc h1).2
      have hin2 := within_expect (within_skipWs hin1) h2
      have hin3 := ih.value hin2 h3
      have hin4 := within_separator hin3 h4
      cases next with
      | more c4 => exact ih.members hin4 h
      | close c4 =>
        cases h
        exact hin4
    · -- an array
      have hws := within_skipWs (within_advance hc 1)
      rw [skipArrayIn] at h
      split at h
      · cases h
        exact within_advance hws 1
      · exact ih.elements hws h
    · -- elements
      rw [skipElementsIn] at h
      obtain ⟨c1, h1, h⟩ := bind_ok h
      obtain ⟨next, h2, h⟩ := bind_ok h
      have hin2 := within_separator (ih.value hc h1) h2
      cases next with
      | more c2 => exact ih.elements hin2 h
      | close c2 =>
        cases h
        exact hin2

theorem within_skipValue {text : List UInt8} {c c' : Span} (h : Within text c)
    (hs : skipValue c = .ok c') : Within text c' := (stays text _).value h hs

/-! ## Values and fields -/

/-- The views of a value. -/
def ValueWithin (text : List UInt8) (v : JsonValue) : Prop :=
  Within text v.string ∧ Within text v.raw

theorem valueWithin_zero (text : List UInt8) : ValueWithin text JsonValue.zero :=
  ⟨within_empty text 0, within_empty text 0⟩

theorem map_ok {α β : Type} {x : Except Rc α} {f : α → β} {b : β} (h : x.map f = .ok b) :
    ∃ a, x = .ok a ∧ f a = b := by
  cases x with
  | error rc => cases h
  | ok a => exact ⟨a, rfl, Except.ok.inj h⟩

section Values

variable {text : List UInt8} {c c' : Span}

theorem within_parseNumber (h : Within text c) {n : Int} (hn : parseNumber c = .ok (n, c')) :
    Within text c' := by
  have hin := within_skipDigits (within_skipIf h (· == MINUS))
  unfold parseNumber at hn
  simp only at hn
  split at hn
  · split at hn
    · cases hn
    · split at hn
      · cases hn
        exact hin
      · cases hn
        exact hin
  · cases hn

theorem within_parseValue (h : Within text c) {v : JsonValue} (hv : parseValue c = .ok (v, c')) :
    ValueWithin text v ∧ Within text c' := by
  have hws := within_skipWs h
  have hraw : ∀ after : Span, Within text ((skipWs c).upTo after) :=
    fun after => within_take hws _
  unfold parseValue at hv
  simp only at hv
  split at hv
  · cases hv
  · split_ifs at hv
    · obtain ⟨after, hafter, heq⟩ := map_ok hv
      cases heq
      exact ⟨⟨within_empty text 0, hraw _⟩, (stays text _).object hws hafter⟩
    · obtain ⟨after, hafter, heq⟩ := map_ok hv
      cases heq
      exact ⟨⟨within_empty text 0, hraw _⟩, (stays text _).array hws hafter⟩
    · obtain ⟨⟨s, after⟩, hafter, heq⟩ := map_ok hv
      cases heq
      have hstring := within_scanString hws hafter
      exact ⟨⟨hstring.1, hraw _⟩, hstring.2⟩
    · obtain ⟨after, hafter, heq⟩ := map_ok hv
      cases heq
      exact ⟨⟨within_empty text 0, hraw _⟩, within_matchLiteral hws hafter⟩
    · obtain ⟨after, hafter, heq⟩ := map_ok hv
      cases heq
      exact ⟨⟨within_empty text 0, hraw _⟩, within_matchLiteral hws hafter⟩
    · obtain ⟨after, hafter, heq⟩ := map_ok hv
      cases heq
      exact ⟨⟨within_empty text 0, hraw _⟩, within_matchLiteral hws hafter⟩
    · obtain ⟨⟨n, after⟩, hafter, heq⟩ := map_ok hv
      cases heq
      exact ⟨⟨within_empty text 0, hraw _⟩, within_parseNumber hws hafter⟩

theorem within_takeElement (h : Within text c) {needle : List UInt8} {member : Bool}
    (hs : (takeElement needle member c).2 = .ok c') : Within text c' := by
  unfold takeElement at hs
  split at hs
  · rcases hstring : scanString c with rc | ⟨s, c1⟩
    · simp [hstring] at hs
    · simp only [hstring, Except.ok.injEq] at hs
      subst hs
      exact (within_scanString h hstring).2
  · exact within_skipValue h hs

theorem within_membershipIn {needle : List UInt8} {bound : Nat} {member : Bool}
    (h : Within text c) (hs : (membershipIn needle bound member c).2 = .ok c') :
    Within text c' := by
  induction bound generalizing member c with
  | zero => cases hs
  | succ bound ih =>
    rw [membershipIn] at hs
    rcases helement : takeElement needle member (skipWs c) with ⟨member', after⟩
    simp only [helement] at hs
    rcases hnext : after.bind (separator RBRACKET) with rc | next
    · simp [hnext] at hs
    · obtain ⟨c1, h1, h2⟩ := bind_ok hnext
      have hin1 : Within text c1 :=
        within_takeElement (within_skipWs h) (by rw [helement]; exact h1)
      have hin2 := within_separator hin1 h2
      simp only [hnext] at hs
      cases next with
      | more c2 => exact ih hin2 hs
      | close c2 =>
        cases hs
        exact hin2

theorem within_parseArrayMembership (h : Within text c) {needle : List UInt8} {member : Bool}
    (hs : (parseArrayMembership needle member c).2 = .ok c') : Within text c' := by
  have hws := within_skipWs h
  unfold parseArrayMembership at hs
  simp only at hs
  split at hs
  · have hin := within_skipWs (within_advance hws 1)
    split at hs
    · cases hs
      exact within_advance hin 1
    · exact within_membershipIn hin hs
  · exact within_skipValue hws hs

/-- The fields of an object hold views of the text. -/
def FieldsWithin (text : List UInt8) (fields : List JsonField) : Prop :=
  ∀ f ∈ fields, ValueWithin text f.value

theorem within_takeValue (h : Within text c) {f f' : JsonField} (hf : ValueWithin text f.value)
    (ht : f.take c = .ok (f', c')) : ValueWithin text f'.value ∧ Within text c' := by
  unfold JsonField.take at ht
  split at ht
  · rename_i needle hneedle
    rcases harray : parseArrayMembership needle f.member c with ⟨member, after⟩
    simp only [harray] at ht
    obtain ⟨c1, h1, heq⟩ := map_ok ht
    cases heq
    exact ⟨hf, within_parseArrayMembership h (by rw [harray]; exact h1)⟩
  · obtain ⟨⟨v, c1⟩, h1, heq⟩ := map_ok ht
    cases heq
    exact within_parseValue h h1

theorem within_takeField (h : Within text c) {key : List UInt8} {fields fields' : List JsonField}
    (hf : FieldsWithin text fields) (ht : takeField key c fields = .ok (fields', c')) :
    FieldsWithin text fields' ∧ Within text c' := by
  induction fields generalizing fields' with
  | nil =>
    rw [takeField] at ht
    obtain ⟨c1, h1, heq⟩ := map_ok ht
    cases heq
    exact ⟨hf, within_skipValue h h1⟩
  | cons f fields ih =>
    have hhead := hf f List.mem_cons_self
    have htail : FieldsWithin text fields := fun g hg => hf g (List.mem_cons_of_mem _ hg)
    rw [takeField] at ht
    split at ht
    · obtain ⟨⟨f', c1⟩, h1, heq⟩ := map_ok ht
      cases heq
      obtain ⟨hf', hin⟩ := within_takeValue h hhead h1
      exact ⟨List.forall_mem_cons.mpr ⟨hf', htail⟩, hin⟩
    · obtain ⟨⟨rest, c1⟩, h1, heq⟩ := map_ok ht
      cases heq
      obtain ⟨hrest, hin⟩ := ih htail h1
      exact ⟨List.forall_mem_cons.mpr ⟨hhead, hrest⟩, hin⟩

theorem within_scanKey (h : Within text c) {key : List UInt8} (hk : scanKey c = .ok (key, c')) :
    Within text c' := by
  unfold scanKey at hk
  obtain ⟨⟨s, c1⟩, h1, hk⟩ := bind_ok hk
  obtain ⟨c2, h2, hk⟩ := bind_ok hk
  cases hk
  exact within_expect (within_skipWs (within_scanString h h1).2) h2

theorem within_scanFieldsIn {bound : Nat} (h : Within text c) {fields fields' : List JsonField}
    (hf : FieldsWithin text fields) (hs : scanFieldsIn bound fields c = .ok (fields', c')) :
    FieldsWithin text fields' := by
  induction bound generalizing fields c with
  | zero => cases hs
  | succ bound ih =>
    rw [scanFieldsIn] at hs
    split at hs
    · cases hs
      exact hf
    · obtain ⟨⟨key, c1⟩, h1, hs⟩ := bind_ok hs
      obtain ⟨⟨fields1, c2⟩, h2, hs⟩ := bind_ok hs
      obtain ⟨next, h3, hs⟩ := bind_ok hs
      have hin1 := within_scanKey (within_skipWs h) h1
      obtain ⟨hf1, hin2⟩ := within_takeField hin1 hf h2
      have hin3 := within_separator hin2 h3
      cases next with
      | more c3 => exact ih hin3 hf1 hs
      | close c3 =>
        cases hs
        exact hf1

theorem within_scanFields (h : Within text c) {fields fields' : List JsonField}
    (hf : FieldsWithin text fields) (hs : scanFields fields c = .ok (fields', c')) :
    FieldsWithin text fields' := by
  unfold scanFields at hs
  obtain ⟨c1, h1, hs⟩ := bind_ok hs
  exact within_scanFieldsIn (within_expect (within_skipWs h) h1) hf hs

/-! ## Paths -/

theorem within_descendIn {segment : List UInt8} {leaf : Bool} {bound : Nat} (h : Within text c)
    {v : JsonValue} (hs : descendIn segment leaf bound c = .ok (v, c')) :
    ValueWithin text v ∧ Within text c' := by
  induction bound generalizing c with
  | zero => cases hs
  | succ bound ih =>
    rw [descendIn] at hs
    split at hs
    · cases hs
    · obtain ⟨⟨key, c1⟩, h1, hs⟩ := bind_ok hs
      have hin1 := within_scanKey (within_skipWs h) h1
      simp only at hs
      split at hs
      · split at hs
        · exact within_parseValue hin1 hs
        · cases hs
          exact ⟨valueWithin_zero text, hin1⟩
      · obtain ⟨c2, h2, hs⟩ := bind_ok hs
        obtain ⟨next, h3, hs⟩ := bind_ok hs
        have hin3 := within_separator (within_skipValue hin1 h2) h3
        cases next with
        | more c3 => exact ih hin3 hs
        | close c3 => cases hs

theorem within_descendAll {path : List (List UInt8)} (h : Within text c) {v : JsonValue}
    (hs : descendAll path c = .ok v) : ValueWithin text v := by
  have hdescend : ∀ {c : Span} {segment leaf v c'}, Within text c →
      descend segment leaf c = .ok (v, c') → ValueWithin text v ∧ Within text c' := by
    intro c segment leaf v c' hc hd
    unfold descend at hd
    obtain ⟨c1, h1, hd⟩ := bind_ok hd
    exact within_descendIn (within_expect (within_skipWs hc) h1) hd
  induction path generalizing c with
  | nil => cases hs
  | cons segment rest ih =>
    cases rest with
    | nil =>
      rw [descendAll] at hs
      obtain ⟨⟨v', c1⟩, h1, heq⟩ := map_ok hs
      subst heq
      exact (hdescend h h1).1
    | cons next rest =>
      rw [descendAll] at hs
      · obtain ⟨⟨v', c1⟩, h1, hs⟩ := bind_ok hs
        exact ih (hdescend h h1).2 hs
      · exact List.cons_ne_nil _ _

theorem within_jsonGet (h : Within text c) {path : List UInt8} {v : JsonValue}
    (hg : jsonGet c path = .ok v) : ValueWithin text v := by
  unfold jsonGet at hg
  split at hg
  · cases hg
  · exact within_descendAll h hg

end Values

/-! ## The codec header -/

/-- The codec header of a stream/start is a part of the message. -/
theorem within_codecHeader {text : List UInt8} {start : StreamStart}
    (h : parseStreamStart ⟨0, text⟩ = .ok start) : Within text start.codecHeader := by
  have hfields : ∀ {object : JsonValue} {fields fields' : List JsonField}, ValueWithin text object →
      FieldsWithin text fields → fieldsOf object fields = .ok fields' →
      FieldsWithin text fields' := by
    intro object fields fields' hobject hf hs
    unfold fieldsOf at hs
    split at hs
    · cases hs
    · rename_i hscan
      cases hs
      exact within_scanFields hobject.2 hf hscan
  have hat : ∀ {fields : List JsonField} (i : Nat), FieldsWithin text fields →
      ValueWithin text (fieldAt fields i).value := by
    intro fields i hf
    unfold fieldAt
    rw [List.getD_eq_getElem?_getD]
    rcases hi : fields[i]? with _ | f
    · exact ⟨within_empty text 0, within_empty text 0⟩
    · exact hf f (List.mem_of_getElem? hi)
  have hnew : ∀ keys : List String, FieldsWithin text (keys.map valueField) := by
    intro keys f hf
    obtain ⟨key, -, rfl⟩ := List.mem_map.mp hf
    exact valueWithin_zero text
  unfold parseStreamStart at h
  obtain ⟨⟨payloadFields, playerFields⟩, hstream, h⟩ := bind_ok h
  unfold streamFields at hstream
  obtain ⟨payload, hpayload, hstream⟩ := bind_ok hstream
  obtain ⟨fields1, h1, hstream⟩ := bind_ok hstream
  obtain ⟨player, hplayer, hstream⟩ := bind_ok hstream
  obtain ⟨fields2, h2, hstream⟩ := bind_ok hstream
  cases hstream
  have hpayloadIn : ValueWithin text payload := by
    unfold payloadOf at hpayload
    split at hpayload
    · cases hpayload
    · rename_i hget
      split at hpayload
      · cases hpayload
        exact within_jsonGet (within_text text) hget
      · cases hpayload
  have hin1 := hfields hpayloadIn (hnew ["player", "server_transmitted"]) h1
  have hplayerIn : ValueWithin text player := by
    unfold playerOf at hplayer
    split at hplayer
    · cases hplayer
      exact hat 0 hin1
    · cases hplayer
  have hin2 := hfields hplayerIn
    (hnew ["codec", "sample_rate", "channels", "bit_depth", "codec_header"]) h2
  simp only at h
  split at h
  · cases h
    simp only
    split
    · exact (hat 4 hin2).1
    · exact within_empty text 0
  · cases h

end EmbeddedAudio.Sendspin
