-- One pass of scan_fields over an object, and the look-up of every key on its own by
-- eaf_sendspin_json_get: the pass leaves in each field what the look-up of its key gives.
import EmbeddedAudio.JsonRaw
import Mathlib.Data.List.Forall2
import Mathlib.Data.List.GetD
import Mathlib.Data.List.Nodup

namespace EmbeddedAudio.Sendspin

/-! ## Requests -/

/-- A field that a caller asks for: its key, and the string that it looks for in an array. -/
structure Request where
  key : List UInt8
  needle : Option (List UInt8)
  deriving DecidableEq, Repr

/-- The field before the pass. -/
def Request.field (r : Request) : JsonField := ⟨r.key, r.needle, JsonValue.zero, false, false⟩

/-- The field has what the look-up of its key gives: the value, or the answer of the search in it. -/
structure Answered (json : Span) (r : Request) (f : JsonField) : Prop where
  value : r.needle = none → match jsonGet json r.key with
    | .ok v => f.found = true ∧ f.value = v
    | .error _ => f.found = false ∧ f.value = JsonValue.zero
  member : ∀ needle, r.needle = some needle → f.member = match jsonGet json r.key with
    | .ok v => jsonArrayContains v needle
    | .error _ => false

/-! ## The pass -/

section Pass

variable {fields fields' : List JsonField} {c c' : Span}

theorem scanFieldsIn_length {bound : Nat} (h : scanFieldsIn bound fields c = .ok (fields', c')) :
    fields'.length = fields.length := by
  induction bound generalizing fields c with
  | zero => cases h
  | succ bound ih =>
    rw [scanFieldsIn] at h
    split at h
    next =>
      cases h
      rfl
    next =>
      obtain ⟨⟨key, c1⟩, h1, h⟩ := bind_ok h
      obtain ⟨⟨fields1, c2⟩, h2, h⟩ := bind_ok h
      obtain ⟨next, h3, h⟩ := bind_ok h
      cases next with
      | more c3 => exact (ih h).trans (takeField_length h2)
      | close c3 =>
        cases h
        exact takeField_length h2

/-- What a field takes of a value is what the value says. -/
theorem take_answers {r : Request} {f : JsonField} {json : Span}
    (h : r.field.take c = .ok (f, c')) (hget : jsonGet json r.key = (parseValue c).map Prod.fst) :
    Answered json r f := by
  unfold JsonField.take Request.field at h
  obtain ⟨key, needle⟩ := r
  cases needle with
  | none =>
    obtain ⟨⟨v, c1⟩, hv, heq⟩ := map_ok h
    cases heq
    refine ⟨fun _ => ?_, nofun⟩
    rw [hget, hv]
    exact ⟨rfl, rfl⟩
  | some needle =>
    refine ⟨nofun, fun needle' hneedle => ?_⟩
    cases hneedle
    obtain ⟨c1, h1, heq⟩ := map_ok h
    cases heq
    have hmember := membership_parsed (Prod.ext rfl h1)
    rw [hget]
    refine hmember.trans ?_
    cases parseValue c with
    | error rc => rfl
    | ok r => rfl

theorem untaken_answers {r : Request} {json : Span} (hget : jsonGet json r.key = .error EAF_UNSUPPORTED) :
    Answered json r r.field := by
  refine ⟨fun _ => ?_, fun needle _ => ?_⟩
  · rw [hget]
    exact ⟨rfl, rfl⟩
  · rw [hget]
    rfl

end Pass

/-! ## Look-ups -/

/-- Every field that a pass over an object fills has what the look-up of its key gives, if each key
is asked for once and is a path of one segment. -/
theorem scanFields_lookups {requests : List Request} {fields : List JsonField} {json c' : Span}
    (hdistinct : (requests.map Request.key).Nodup)
    (hplain : ∀ r ∈ requests, r.key ≠ [] ∧ DOT ∉ r.key)
    (h : scanFields (requests.map Request.field) json = .ok (fields, c')) :
    List.Forall₂ (Answered json) requests fields := by
  unfold scanFields at h
  obtain ⟨c, hopen, h⟩ := bind_ok h
  have hlength := scanFieldsIn_length h
  rw [List.length_map] at hlength
  rw [List.forall₂_iff_get]
  refine ⟨hlength.symm, fun i hi hi' => ?_⟩
  simp only [List.get_eq_getElem]
  have hfield : fieldAt (requests.map Request.field) i = requests[i].field := by
    unfold fieldAt
    rw [List.getD_eq_getElem _ _ (by rw [List.length_map]; exact hi), List.getElem_map]
  have hfilled : fieldAt fields i = fields[i] := by
    unfold fieldAt
    rw [List.getD_eq_getElem]
  have hleads : Leads requests[i].key (requests.map Request.field) i := by
    refine ⟨by rw [List.length_map]; exact hi, by rw [hfield]; rfl, fun j hj hsame => ?_⟩
    have hj' : fieldAt (requests.map Request.field) j = requests[j].field := by
      unfold fieldAt
      rw [List.getD_eq_getElem _ _ (by rw [List.length_map]; omega), List.getElem_map]
    rw [hj'] at hsame
    have hi1 : i < (requests.map Request.key).length := by rw [List.length_map]; exact hi
    have hj1 : j < (requests.map Request.key).length := hj.trans hi1
    have hkeys : (requests.map Request.key)[j] = (requests.map Request.key)[i] := by
      rw [List.getElem_map, List.getElem_map]
      exact hsame
    exact Nat.ne_of_lt hj ((List.Nodup.getElem_inj_iff hdistinct).mp hkeys)
  obtain ⟨hnonempty, hdots⟩ := hplain _ (List.getElem_mem hi)
  have hget : jsonGet json requests[i].key =
      (descendIn requests[i].key true c.bound c).map Prod.fst := by
    simp only [jsonGet, if_neg hnonempty, segments_plain hdots, descendAll, descend, hopen, bind,
      Except.bind]
  rcases scanFieldsIn_leads hleads (by rw [hfield]; rfl) h with ⟨hkept, hnone⟩ | ⟨d, d', htaken, hd⟩
  · rw [hnone] at hget
    rw [hfield, hfilled] at hkept
    rw [hkept]
    exact untaken_answers hget
  · rw [hfield, hfilled] at htaken
    rw [hd] at hget
    exact take_answers htaken hget

/-- A number, a string to look for in an array, and a key that is not there. -/
def threeRequests : List Request :=
  [⟨ascii "rate", none⟩, ⟨ascii "roles", some (ascii "player")⟩, ⟨ascii "name", none⟩]

/-- An object with one of the keys twice. -/
def askedObject : Span :=
  ⟨0, ascii "\x7b\"rate\":48000,\"roles\":[1,\"player\"],\"rate\":[]\x7d"⟩

def askedFields : List JsonField :=
  [⟨ascii "rate", none, ⟨.number, false, 48000, ⟨0, []⟩, ⟨8, ascii "48000"⟩⟩, false, true⟩,
    ⟨ascii "roles", some (ascii "player"), JsonValue.zero, true, true⟩,
    ⟨ascii "name", none, JsonValue.zero, false, false⟩]

theorem scanFields_lookups_asked :
    scanFields (threeRequests.map Request.field) askedObject = .ok (askedFields, ⟨45, []⟩) ∧
      List.Forall₂ (Answered askedObject) threeRequests askedFields := by
  have hscan : scanFields (threeRequests.map Request.field) askedObject =
      .ok (askedFields, ⟨45, []⟩) := by decide +kernel
  exact ⟨hscan, scanFields_lookups (by decide +kernel) (by decide +kernel) hscan⟩

end EmbeddedAudio.Sendspin
