-- The reader on pointers goes in step with the reader on bytes. So it loads nothing outside of
-- the message, its calls come to an end within their bounds, and its views are of the message.
import EmbeddedAudio.JsonPointers
import EmbeddedAudio.JsonRaw
import EmbeddedAudio.Lockstep

namespace EmbeddedAudio.Sendspin.Pointer

open Lockstep

/-! ## Cursors -/

/-- A cursor before the pointer `last`, and the bytes from the one to the other. -/
structure At (json : List UInt8) (last : Nat) (c : Cursor) (s : Span) : Prop where
  last_eq : c.last = last
  le : c.p ≤ last
  inside : last ≤ json.length
  view : s = piece json c.p last

/-- A view of bytes of the message. -/
structure Held (json : List UInt8) (s : Span) : Prop where
  inside : s.start + s.bytes.length ≤ json.length
  view : s = piece json s.start (s.start + s.bytes.length)

abbrev Follows (json : List UInt8) (last : Nat) : Except Stop Cursor → Except Rc Span → Prop :=
  InStep .code (At json last)

/-- The same, with something else that comes out of a run beside the cursor. -/
abbrev FollowsWith {α : Type} (P : α → Prop) (json : List UInt8) (last : Nat) :
    Except Stop (α × Cursor) → Except Rc (α × Span) → Prop :=
  InStep .code fun a b => a.1 = b.1 ∧ P a.1 ∧ At json last a.2 b.2

section Cursors

variable {json : List UInt8} {last : Nat} {c : Cursor} {s : Span}

theorem At.left_eq (h : At json last c s) : s.left = last - c.p := by
  have hinside := h.inside
  rw [h.view]
  unfold Span.left piece
  rw [List.length_take, List.length_drop]
  omega

theorem At.start_eq (h : At json last c s) : s.start = c.p := by
  rw [h.view]
  rfl

theorem At.advance (h : At json last c s) {n : Nat} (hn : n ≤ s.left) :
    At json last ⟨c.p + n, c.last⟩ (s.advance n) := by
  have hle := h.le
  rw [h.left_eq] at hn
  refine ⟨h.last_eq, by simp only; omega, h.inside, ?_⟩
  rw [h.view]
  unfold piece Span.advance
  rw [List.drop_take, List.drop_drop, Nat.sub_sub]

theorem At.next (h : At json last c s) (hlt : c.p < last) : At json last c.next (s.advance 1) :=
  h.advance (by rw [h.left_eq]; omega)

/-- The byte at a cursor. -/
theorem At.byte (h : At json last c s) (hlt : c.p < last) :
    ∃ b rest, s.bytes = b :: rest ∧ load json c.p = .ok b := by
  have hin : c.p < json.length := Nat.lt_of_lt_of_le hlt h.inside
  obtain ⟨k, hk⟩ : ∃ k, last - c.p = k + 1 := ⟨last - c.p - 1, by omega⟩
  refine ⟨json[c.p], (json.drop (c.p + 1)).take k, ?_, ?_⟩
  · rw [h.view]
    unfold piece
    rw [List.drop_eq_getElem_cons hin, hk, List.take_succ_cons]
  · unfold load
    rw [List.getElem?_eq_getElem hin]

theorem At.none (h : At json last c s) (hge : ¬c.p < last) : s.bytes = [] := by
  apply List.eq_nil_of_length_eq_zero
  have hleft := h.left_eq
  unfold Span.left at hleft
  omega

theorem here_none (h : At json last c s) (hs : s.bytes = []) : here json c = refuse := by
  have hge : ¬c.p < c.last := by
    intro hlt
    rw [h.last_eq] at hlt
    obtain ⟨b, rest, hb, -⟩ := h.byte hlt
    cases hs.symm.trans hb
  exact if_neg hge

theorem here_byte (h : At json last c s) {b : UInt8} {rest : List UInt8} (hs : s.bytes = b :: rest) :
    here json c = .ok b ∧ c.p < last := by
  have hlt : c.p < last := by
    by_contra hge
    cases (h.none hge).symm.trans hs
  obtain ⟨b', rest', hb, hload⟩ := h.byte hlt
  cases hs.symm.trans hb
  unfold here
  rw [h.last_eq, if_pos hlt]
  exact ⟨hload, hlt⟩

theorem isAt_none (h : At json last c s) (hs : s.bytes = []) (test : UInt8 → Bool) :
    isAt json test c = .ok false := by
  have hge : ¬c.p < c.last := by
    intro hlt
    rw [h.last_eq] at hlt
    obtain ⟨b, rest, hb, -⟩ := h.byte hlt
    cases hs.symm.trans hb
  exact if_neg hge

theorem isAt_some (h : At json last c s) {b : UInt8} {rest : List UInt8} (hs : s.bytes = b :: rest)
    (test : UInt8 → Bool) : isAt json test c = .ok (test b) := by
  obtain ⟨hhere, hlt⟩ := here_byte h hs
  unfold here at hhere
  unfold isAt
  rw [h.last_eq, if_pos hlt] at hhere ⊢
  rw [hhere]
  rfl

theorem isAt_test (h : At json last c s) (test : UInt8 → Bool) :
    isAt json test c = .ok ((s.bytes.head?.map test).getD false) := by
  cases hs : s.bytes with
  | nil => exact isAt_none h hs test
  | cons b rest => exact isAt_some h hs test

/-- A test for one byte. -/
theorem isAt_byte (h : At json last c s) (b : UInt8) :
    isAt json (· == b) c = .ok (decide (s.bytes.head? = some b)) := by
  cases hs : s.bytes with
  | nil => exact isAt_none h hs _
  | cons b' rest =>
    rw [isAt_some h hs, List.head?_cons]
    by_cases hb : b' = b
    · simp [hb]
    · simp [hb]

theorem At.lt_of_test (h : At json last c s) {b : UInt8} (hs : s.bytes.head? = some b) :
    c.p < last := by
  obtain ⟨rest, hrest⟩ := List.head?_eq_some_iff.mp hs
  exact (here_byte h hrest).2

/-- A text that is in front of the last byte of the message can be compared. -/
theorem equalAt_prefix (p : Nat) (text : List UInt8) (h : p + text.length ≤ json.length) :
    equalAt json p text = .ok (text.isPrefixOf (json.drop p)) := by
  induction text generalizing p with
  | nil => rfl
  | cons b text ih =>
    rw [List.length_cons] at h
    have hin : p < json.length := by omega
    have hload : load json p = .ok json[p] := by
      unfold load
      rw [List.getElem?_eq_getElem hin]
    rw [equalAt, hload, List.drop_eq_getElem_cons hin]
    simp only [bind, Except.bind, ih (p + 1) (by omega)]
    rw [List.isPrefixOf_cons_cons, Bool.beq_comm]
    rfl

theorem skipWhile_follows (h : At json last c s) (test : UInt8 → Bool) :
    Follows json last (skipWhile json test c)
      (.ok (s.advance (s.bytes.takeWhile test).length)) := by
  generalize hn : last - c.p = n
  induction n generalizing c s with
  | zero =>
    have hge : ¬c.p < last := by omega
    rw [skipWhile, h.last_eq, if_neg hge, h.none hge]
    exact .ok h
  | succ n ih =>
    have hlt : c.p < last := by omega
    obtain ⟨b, rest, hb, hload⟩ := h.byte hlt
    rw [skipWhile, h.last_eq, if_pos hlt, hload, hb]
    simp only [Except.bind]
    by_cases htest : test b = true
    · have hrest := ih (h.next hlt) (by simp only [Cursor.next]; omega)
      have hbytes : (s.advance 1).bytes = rest := by
        unfold Span.advance
        rw [hb]
        rfl
      rw [hbytes, advance_advance] at hrest
      rw [if_pos htest, List.takeWhile_cons_of_pos htest, List.length_cons, Nat.add_comm]
      exact hrest
    · rw [if_neg htest, List.takeWhile_cons_of_neg htest]
      exact .ok h

theorem skipWs_follows (h : At json last c s) :
    Follows json last (skipWs json c) (.ok (Sendspin.skipWs s)) := skipWhile_follows h isWs

theorem skipDigits_follows (h : At json last c s) :
    Follows json last (skipDigits json c) (.ok (Sendspin.skipDigits s)) :=
  skipWhile_follows h isDigit

theorem skipIf_follows (h : At json last c s) (test : UInt8 → Bool) :
    Follows json last (skipIf json test c) (.ok (Sendspin.skipIf test s)) := by
  unfold skipIf Sendspin.skipIf
  cases hs : s.bytes with
  | nil =>
    rw [isAt_none h hs]
    exact .ok h
  | cons b rest =>
    have hnext := h.next (here_byte h hs).2
    rw [isAt_some h hs]
    simp only [bind, Except.bind]
    cases test b with
    | true => exact .ok hnext
    | false => exact .ok h

theorem expect_follows (h : At json last c s) (b : UInt8) :
    Follows json last (expect json b c) (Sendspin.expect b s) := by
  unfold expect Sendspin.expect
  cases hs : s.bytes with
  | nil =>
    rw [here_none h hs]
    exact .error _
  | cons b' rest =>
    obtain ⟨hhere, hlt⟩ := here_byte h hs
    rw [hhere]
    simp only [bind, Except.bind, List.head?_cons, Option.some.injEq]
    apply InStep.ite
    · intro _
      exact .ok (h.next hlt)
    · intro _
      exact .error _

/-! ## Strings, literals and numbers -/

theorem At.piece_eq (h : At json last c s) {n : Nat} (hn : n ≤ s.left) :
    piece json c.p (c.p + n) = ⟨s.start, s.bytes.take n⟩ := by
  rw [h.left_eq] at hn
  rw [h.view]
  unfold piece
  rw [List.take_take, Nat.add_sub_cancel_left, min_eq_left hn]

theorem held_piece {start stop : Nat} (hle : start ≤ stop) (hin : stop ≤ json.length) :
    Held json (piece json start stop) := by
  have hlength : (piece json start stop).bytes.length = stop - start := by
    unfold piece
    rw [List.length_take, List.length_drop]
    omega
  refine ⟨?_, ?_⟩
  · rw [hlength]
    change start + _ ≤ _
    omega
  · rw [hlength]
    change _ = piece json start (start + (stop - start))
    rw [Nat.add_sub_cancel' hle]

theorem held_empty (json : List UInt8) : Held json ⟨0, []⟩ := ⟨Nat.zero_le _, rfl⟩

theorem stringLength_cons (b : UInt8) (bytes : List UInt8) : stringLength (b :: bytes) =
    if b = BACKSLASH then
      match bytes with
      | [] => none
      | _ :: rest => (stringLength rest).map (· + 2)
    else if b = QUOTE then some 0
    else (stringLength bytes).map (· + 1) := by
  cases bytes with
  | nil =>
    by_cases hback : b = BACKSLASH
    · subst hback
      rfl
    · rw [if_neg hback]
      rfl
  | cons b' rest => rfl

/-- A scan that goes on `k` bytes further, as a scan from here. -/
theorem scanned_behind {start k : Nat} {r : Except Stop (Span × Cursor)} {rest : List UInt8}
    (h : InStep .code (fun a n => a.1 = piece json start (c.p + k + n) ∧
        At json last a.2 ((s.advance k).advance (n + 1)) ∧ n < (s.advance k).left) r
      (match stringLength rest with
      | none => .error EAF_INVALID
      | some n => .ok n)) :
    InStep .code (fun a n => a.1 = piece json start (c.p + n) ∧
        At json last a.2 (s.advance (n + 1)) ∧ n < s.left) r
      (match (stringLength rest).map (· + k) with
      | none => .error EAF_INVALID
      | some n => .ok n) := by
  cases hlength : stringLength rest with
  | none =>
    rw [hlength] at h
    rw [h.failed]
    exact .error _
  | some m =>
    rw [hlength] at h
    obtain ⟨a, ha, hpiece, hat, hm⟩ := h.given
    rw [ha]
    rw [left_advance] at hm
    simp only [Option.map_some]
    refine .ok ⟨?_, ?_, by omega⟩
    · have hsum : c.p + k + m = c.p + (m + k) := by omega
      rw [hpiece, hsum]
    · have hsum : k + (m + 1) = m + k + 1 := by omega
      rw [advance_advance, hsum] at hat
      exact hat

theorem scanLoop_follows (start : Nat) (h : At json last c s) :
    InStep .code (fun a n => a.1 = piece json start (c.p + n) ∧ At json last a.2 (s.advance (n + 1)) ∧
        n < s.left) (scanLoop json start c)
      (match stringLength s.bytes with
      | none => .error EAF_INVALID
      | some n => .ok n) := by
  generalize hn : last - c.p = n
  induction n using Nat.strong_induction_on generalizing c s with
  | _ n ih =>
    rw [scanLoop, h.last_eq]
    by_cases hlt : c.p < last
    · obtain ⟨b, rest, hb, hload⟩ := h.byte hlt
      have hleft := h.left_eq
      have hnext := h.next hlt
      have hbytes : (s.advance 1).bytes = rest := by
        unfold Span.advance
        rw [hb]
        rfl
      rw [if_pos hlt, hload, hb, stringLength_cons]
      simp only [Except.bind]
      by_cases hback : b = BACKSLASH
      · rw [if_pos hback, if_pos hback]
        by_cases hshort : last - c.p < 2
        · have hnone : rest = [] := by
            rw [← hbytes]
            exact hnext.none (by simp only [Cursor.next]; omega)
          rw [if_pos hshort, hnone]
          exact .error _
        · -- the byte behind the backslash goes along
          have hlt' : c.next.p < last := by simp only [Cursor.next]; omega
          obtain ⟨b', rest', hb', -⟩ := hnext.byte hlt'
          rw [hbytes] at hb'
          have hrest := ih (last - c.next.next.p) (by simp only [Cursor.next]; omega)
            (hnext.next hlt') rfl
          have hbytes' : ((s.advance 1).advance 1).bytes = rest' := by
            unfold Span.advance
            rw [List.drop_drop, hb, hb']
            rfl
          rw [hbytes', advance_advance] at hrest
          rw [if_neg hshort, hb']
          exact scanned_behind hrest
      · rw [if_neg hback, if_neg hback]
        by_cases hquote : b = QUOTE
        · rw [if_pos hquote, if_pos hquote]
          exact .ok ⟨rfl, hnext, by omega⟩
        · have hrest := ih (last - c.next.p) (by simp only [Cursor.next]; omega) hnext rfl
          rw [hbytes] at hrest
          rw [if_neg hquote, if_neg hquote]
          exact scanned_behind hrest
    · rw [if_neg hlt, h.none hlt]
      exact .error _

theorem scanString_follows (h : At json last c s) :
    FollowsWith (Held json) json last (scanString json c) (Sendspin.scanString s) := by
  unfold scanString Sendspin.scanString
  apply (expect_follows h QUOTE).bind
  intro c s h
  have hloop := scanLoop_follows c.p h
  cases hlength : stringLength s.bytes with
  | none =>
    rw [hlength] at hloop
    rw [hloop.failed]
    exact .error _
  | some n =>
    rw [hlength] at hloop
    obtain ⟨⟨view, c'⟩, ha, hpiece, hat, hn⟩ := hloop.given
    have hle := h.le
    have hin := h.inside
    have hleft := h.left_eq
    rw [ha]
    simp only at hpiece hat
    rw [hpiece]
    refine .ok ⟨h.piece_eq (Nat.le_of_lt hn), held_piece (by omega) (by omega), hat⟩

theorem matchLiteral_follows (h : At json last c s) (literal : List UInt8) :
    Follows json last (matchLiteral json literal c) (Sendspin.matchLiteral literal s) := by
  have hle := h.le
  have hin := h.inside
  have hliteral : literal <+: s.bytes ↔
      literal <+: json.drop c.p ∧ literal.length ≤ last - c.p := by
    rw [h.view]
    exact List.prefix_take_iff
  unfold matchLiteral Sendspin.matchLiteral
  rw [h.last_eq]
  by_cases hshort : c.p ≤ last ∧ last - c.p < literal.length
  · have hnot : ¬literal.isPrefixOf s.bytes = true := by
      rw [List.isPrefixOf_iff_prefix, hliteral]
      omega
    rw [if_pos hshort, if_neg hnot]
    exact .error _
  · have hfits : literal.length ≤ last - c.p := by omega
    rw [if_neg hshort, equalAt_prefix _ _ (by omega)]
    simp only [bind, Except.bind]
    by_cases hsame : literal <+: json.drop c.p
    · have hpos : literal.isPrefixOf s.bytes = true :=
        List.isPrefixOf_iff_prefix.mpr (hliteral.mpr ⟨hsame, hfits⟩)
      rw [if_pos (List.isPrefixOf_iff_prefix.mpr hsame), if_pos hpos]
      have hat := h.advance (n := literal.length) (by rw [h.left_eq]; exact hfits)
      rw [h.last_eq] at hat
      exact .ok hat
    · rw [if_neg (fun hs => hsame (List.isPrefixOf_iff_prefix.mp hs)),
        if_neg (fun hs => hsame (hliteral.mp (List.isPrefixOf_iff_prefix.mp hs)).1)]
      exact .error _

theorem skipFraction_follows (h : At json last c s) :
    Follows json last (skipFraction json c) (.ok (Sendspin.skipFraction s)) := by
  unfold skipFraction Sendspin.skipFraction
  rw [isAt_byte h]
  simp only [bind, Except.bind, decide_eq_true_eq]
  split
  next hdot => exact skipDigits_follows (h.next (h.lt_of_test hdot))
  next => exact .ok h

theorem skipExponent_follows (h : At json last c s) :
    Follows json last (skipExponent json c) (.ok (Sendspin.skipExponent s)) := by
  unfold skipExponent Sendspin.skipExponent
  rw [isAt_test h]
  simp only [bind, Except.bind]
  split
  next hexp =>
    obtain ⟨b, hb, -⟩ := head_of_test hexp
    apply (skipIf_follows (h.next (h.lt_of_test hb)) _).bind_ok
    intro c h
    exact skipDigits_follows h
  next => exact .ok h

theorem skipNumber_follows (h : At json last c s) :
    Follows json last (skipNumber json c) (Sendspin.skipNumber s) := by
  unfold skipNumber
  rw [skipNumber_parts]
  apply (skipIf_follows h _).bind_ok
  intro c h
  rw [isAt_test h]
  apply InStep.ite
  · intro _
    apply (skipDigits_follows h).bind_ok
    intro c h
    apply (skipFraction_follows h).bind_ok
    intro c h
    exact skipExponent_follows h
  · intro _
    exact .error _

theorem magnitudeLoop_follows (h : At json last c s) (acc : Nat × Bool) :
    FollowsWith (fun _ => True) json last (magnitudeLoop json acc c)
      (.ok ((s.bytes.takeWhile isDigit).foldl magnitude acc, Sendspin.skipDigits s)) := by
  unfold Sendspin.skipDigits
  generalize hn : last - c.p = n
  induction n generalizing c s acc with
  | zero =>
    have hge : ¬c.p < last := by omega
    rw [magnitudeLoop, h.last_eq, if_neg hge, h.none hge]
    exact .ok ⟨rfl, trivial, h⟩
  | succ n ih =>
    have hlt : c.p < last := by omega
    obtain ⟨b, rest, hb, hload⟩ := h.byte hlt
    rw [magnitudeLoop, h.last_eq, if_pos hlt, hload, hb]
    simp only [Except.bind]
    by_cases htest : isDigit b = true
    · have hrest := ih (h.next hlt) (magnitude acc b) (by simp only [Cursor.next]; omega)
      have hbytes : (s.advance 1).bytes = rest := by
        unfold Span.advance
        rw [hb]
        rfl
      rw [hbytes, advance_advance] at hrest
      rw [if_pos htest, List.takeWhile_cons_of_pos htest, List.length_cons, Nat.add_comm,
        List.foldl_cons]
      exact hrest
    · rw [if_neg htest, List.takeWhile_cons_of_neg htest]
      exact .ok ⟨rfl, trivial, h⟩

theorem parseNumber_follows (h : At json last c s) :
    FollowsWith (fun _ => True) json last (parseNumber json c) (Sendspin.parseNumber s) := by
  have hsign : At json last (if decide (s.bytes.head? = some MINUS) = true then c.next else c)
      (Sendspin.skipIf (· == MINUS) s) := by
    rw [skipIf_minus]
    by_cases hminus : s.bytes.head? = some MINUS
    · rw [decide_eq_true hminus, if_pos rfl, if_pos hminus]
      exact h.next (h.lt_of_test hminus)
    · rw [decide_eq_false hminus, if_neg Bool.false_ne_true, if_neg hminus]
      exact h
  have hnegative : (s.bytes.head? == some MINUS) = decide (s.bytes.head? = some MINUS) := by
    simp only [beq_eq_decide]
  unfold parseNumber Sendspin.parseNumber
  simp only [isAt_byte h, bind, Except.bind, isAt_test hsign, hnegative]
  apply InStep.ite
  · intro _
    apply (magnitudeLoop_follows hsign (0, false)).bind_ok
    rintro ⟨acc, c'⟩ ⟨hacc, -, h'⟩
    simp only at hacc h'
    subst hacc
    simp only [isAt_test h']
    apply InStep.ite
    · intro _
      exact .error _
    · intro _
      apply InStep.ite
      · intro _
        exact .ok ⟨rfl, trivial, h'⟩
      · intro _
        exact .ok ⟨rfl, trivial, h'⟩
  · intro _
    exact .error _

/-! ## Skipping a value -/

/-- Both go on, or both are at the end of the loop. -/
inductive NextAt (json : List UInt8) (last : Nat) : Next → Sendspin.Next → Prop
  | more {c : Cursor} {s : Span} : At json last c s → NextAt json last (.more c) (.more s)
  | close {c : Cursor} {s : Span} : At json last c s → NextAt json last (.close c) (.close s)

theorem separator_follows (h : At json last c s) (close : UInt8) :
    InStep .code (NextAt json last) (separator json close c) (Sendspin.separator close s) := by
  unfold separator Sendspin.separator
  apply (skipWs_follows h).bind_ok
  intro c h
  cases hs : (Sendspin.skipWs s).bytes with
  | nil =>
    rw [here_none h hs]
    simp only [hs]
    exact .error _
  | cons b rest =>
    obtain ⟨hhere, hlt⟩ := here_byte h hs
    simp only [hs, hhere, bind, Except.bind]
    apply InStep.ite
    · intro _
      exact .ok (.more (h.next hlt))
    · intro _
      apply InStep.ite
      · intro _
        exact .ok (.close (h.next hlt))
      · intro _
        exact .error _

/-- A skip goes in step, if its bound is enough. -/
structure SkipsFollow (json : List UInt8) (last bound : Nat) : Prop where
  value : ∀ {c s}, At json last c s → 3 * s.left + 3 ≤ bound →
    Follows json last (skipValueIn json bound c) (Sendspin.skipValueIn bound s)
  object : ∀ {c s}, At json last c s → c.p < last → 3 * s.left + 2 ≤ bound →
    Follows json last (skipObjectIn json bound c) (Sendspin.skipObjectIn bound s)
  members : ∀ {c s}, At json last c s → 3 * s.left + 1 ≤ bound →
    Follows json last (skipMembersIn json bound c) (Sendspin.skipMembersIn bound s)
  array : ∀ {c s}, At json last c s → c.p < last → 3 * s.left + 2 ≤ bound →
    Follows json last (skipArrayIn json bound c) (Sendspin.skipArrayIn bound s)
  elements : ∀ {c s}, At json last c s → 3 * s.left + 4 ≤ bound →
    Follows json last (skipElementsIn json bound c) (Sendspin.skipElementsIn bound s)

/-- The end of brackets that have nothing in them, or what is in them. -/
theorem brackets_follow (h : At json last c s) (hlt : c.p < last) {close : UInt8}
    {inner : Cursor → Except Stop Cursor} {inner' : Span → Except Rc Span}
    (hinner : ∀ d t, At json last d t → t.left + 1 ≤ s.left →
      Follows json last (inner d) (inner' t)) :
    Follows json last
      (do let c ← skipWs json c.next
          if ← isAt json (· == close) c then return c.next else inner c)
      (if (Sendspin.skipWs (s.advance 1)).bytes.head? = some close then
          .ok ((Sendspin.skipWs (s.advance 1)).advance 1)
        else inner' (Sendspin.skipWs (s.advance 1))) := by
  apply (skipWs_follows (h.next hlt)).bind_ok
  intro c1 h1
  rw [isAt_byte h1]
  simp only [bind, Except.bind, decide_eq_true_eq]
  apply InStep.ite
  · intro hclose
    exact .ok (h1.next (h1.lt_of_test hclose))
  · intro _
    apply hinner _ _ h1
    have hws := left_skipWs (s.advance 1)
    rw [left_advance] at hws
    have hleft := h.left_eq
    omega

theorem skips_follow (bound : Nat) : SkipsFollow json last bound := by
  induction bound with
  | zero =>
    constructor
    · intro c s _ hb
      omega
    · intro c s _ _ hb
      omega
    · intro c s _ hb
      omega
    · intro c s _ _ hb
      omega
    · intro c s _ hb
      omega
  | succ bound ih =>
    constructor
    · -- a value
      intro c s h hb
      have hws := left_skipWs s
      rw [skipValueIn, Sendspin.skipValueIn]
      apply (skipWs_follows h).bind_ok
      intro c h
      cases hs : (Sendspin.skipWs s).bytes with
      | nil =>
        rw [here_none h hs]
        exact .error _
      | cons b rest =>
        obtain ⟨hhere, hlt⟩ := here_byte h hs
        simp only [hhere, bind, Except.bind]
        apply InStep.ite
        · intro _
          exact ih.object h hlt (by omega)
        · intro _
          apply InStep.ite
          · intro _
            exact ih.array h hlt (by omega)
          · intro _
            apply InStep.ite
            · intro _
              exact (scanString_follows h).map fun a b hab => hab.2.2
            · intro _
              apply InStep.ite
              · intro _
                exact matchLiteral_follows h _
              · intro _
                apply InStep.ite
                · intro _
                  exact matchLiteral_follows h _
                · intro _
                  apply InStep.ite
                  · intro _
                    exact matchLiteral_follows h _
                  · intro _
                    exact skipNumber_follows h
    · -- an object
      intro c s h hlt hb
      rw [skipObjectIn, Sendspin.skipObjectIn]
      exact brackets_follow h hlt fun d t hd ht => ih.members hd (by omega)
    · -- members
      intro c s h hb
      rw [skipMembersIn, Sendspin.skipMembersIn]
      apply (scanString_follows h).bind_eq
      rintro ⟨key, c1⟩ ⟨key', s1⟩ hs1 ⟨-, -, h1⟩
      have hleft1 := left_scanString hs1
      apply (skipWs_follows h1).bind_ok
      intro c2 h2
      have hleft2 := left_skipWs s1
      apply (expect_follows h2 COLON).bind_eq
      intro c3 s3 hs3 h3
      simp only at hs3
      have hleft3 := left_expect hs3
      apply (ih.value h3 (by omega)).bind_eq
      intro c4 s4 hs4 h4
      have hleft4 := (shrinks bound).value hs4
      apply (separator_follows h4 RBRACE).bind_eq
      intro next next' hnext hat
      have hleft5 := left_separator hnext
      cases hat with
      | more h5 =>
        simp only [Sendspin.Next.cursor] at hleft5
        exact ih.members h5 (by omega)
      | close h5 => exact .ok h5
    · -- an array
      intro c s h hlt hb
      rw [skipArrayIn, Sendspin.skipArrayIn]
      exact brackets_follow h hlt fun d t hd ht => ih.elements hd (by omega)
    · -- elements
      intro c s h hb
      rw [skipElementsIn, Sendspin.skipElementsIn]
      apply (ih.value h (by omega)).bind_eq
      intro c1 s1 hs1 h1
      have hleft1 := (shrinks bound).value hs1
      apply (separator_follows h1 RBRACKET).bind_eq
      intro next next' hnext hat
      have hleft2 := left_separator hnext
      cases hat with
      | more h2 =>
        simp only [Sendspin.Next.cursor] at hleft2
        exact ih.elements h2 (by omega)
      | close h2 => exact .ok h2

theorem At.bound_eq (h : At json last c s) : c.bound = s.bound := by
  have hleft := h.left_eq
  have hlast := h.last_eq
  unfold Span.left at hleft
  unfold Cursor.bound Span.bound
  omega

theorem skipValue_follows (h : At json last c s) :
    Follows json last (skipValue json c) (Sendspin.skipValue s) := by
  unfold skipValue Sendspin.skipValue
  rw [h.bound_eq]
  exact (skips_follow s.bound).value h (Nat.le_refl _)

theorem skipObject_follows (h : At json last c s) (hlt : c.p < last) :
    Follows json last (skipObject json c) (Sendspin.skipObject s) := by
  unfold skipObject Sendspin.skipObject
  rw [h.bound_eq]
  exact (skips_follow s.bound).object h hlt (Nat.le_succ _)

theorem skipArray_follows (h : At json last c s) (hlt : c.p < last) :
    Follows json last (skipArray json c) (Sendspin.skipArray s) := by
  unfold skipArray Sendspin.skipArray
  rw [h.bound_eq]
  exact (skips_follow s.bound).array h hlt (Nat.le_succ _)

end Cursors

end EmbeddedAudio.Sendspin.Pointer
