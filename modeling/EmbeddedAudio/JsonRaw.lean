-- The bytes of a value alone. What a function of the reader takes of a text, it takes
-- of every shorter text that still has it, and it comes out at the same place.
import EmbeddedAudio.ServerNumbers

namespace EmbeddedAudio.Sendspin

/-! ## Ahead -/

/-- A cursor on the same text, at the place of `c` or behind it. -/
def Ahead (c c' : Span) : Prop := ∃ n ≤ c.left, c' = c.advance n

section Ahead

variable {c c' c'' s : Span}

theorem Ahead.refl (c : Span) : Ahead c c := ⟨0, Nat.zero_le _, rfl⟩

theorem advance_advance (c : Span) (n m : Nat) : (c.advance n).advance m = c.advance (n + m) := by
  unfold Span.advance
  simp only [List.drop_drop, Nat.add_assoc]

theorem Ahead.trans (h : Ahead c c') (h' : Ahead c' c'') : Ahead c c'' := by
  obtain ⟨n, hn, rfl⟩ := h
  obtain ⟨m, hm, rfl⟩ := h'
  rw [left_advance] at hm
  exact ⟨n + m, by omega, advance_advance c n m⟩

theorem Ahead.start_le (h : Ahead c c') : c.start ≤ c'.start := by
  obtain ⟨n, -, rfl⟩ := h
  exact Nat.le_add_right _ _

/-- The end of the text stays where it is. -/
theorem Ahead.finish (h : Ahead c c') : c'.start + c'.left = c.start + c.left := by
  obtain ⟨n, hn, rfl⟩ := h
  rw [left_advance]
  change c.start + n + _ = _
  omega

theorem ahead_while (c : Span) (p : UInt8 → Bool) :
    Ahead c (c.advance (c.bytes.takeWhile p).length) :=
  ⟨_, (List.takeWhile_prefix p).length_le, rfl⟩

theorem ahead_skipWs (c : Span) : Ahead c (skipWs c) := ahead_while c isWs

theorem ahead_skipDigits (c : Span) : Ahead c (skipDigits c) := ahead_while c isDigit

/-- There is a byte to step over. -/
theorem ahead_byte {b : UInt8} (h : c.bytes.head? = some b) : Ahead c (c.advance 1) := by
  obtain ⟨rest, hrest⟩ := List.head?_eq_some_iff.mp h
  refine ⟨1, ?_, rfl⟩
  unfold Span.left
  rw [hrest]
  exact Nat.succ_pos _

theorem ahead_skipIf (c : Span) (p : UInt8 → Bool) : Ahead c (skipIf p c) := by
  unfold skipIf
  split
  next b rest hc =>
    split
    · exact ahead_byte (by rw [hc]; rfl)
    · exact .refl c
  next => exact .refl c

theorem ahead_expect {b : UInt8} (h : expect b c = .ok c') : Ahead c c' := by
  unfold expect at h
  split at h
  next hb =>
    cases h
    exact ahead_byte hb
  next => cases h

theorem stringLength_lt {bytes : List UInt8} {n : Nat} (h : stringLength bytes = some n) :
    n < bytes.length := by
  induction bytes using stringLength.induct generalizing n with
  | case1 => cases h
  | case2 =>
    cases h
    exact Nat.succ_pos _
  | case3 b hb =>
    rw [stringLength, if_neg hb] at h
    cases h
  | case4 b' rest ih =>
    rw [stringLength, if_pos rfl, Option.map_eq_some_iff] at h
    obtain ⟨m, hm, rfl⟩ := h
    have hlt := ih hm
    simp only [List.length_cons]
    omega
  | case5 b' rest hb =>
    rw [stringLength, if_neg hb, if_pos rfl] at h
    cases h
    exact Nat.succ_pos _
  | case6 b b' rest hb hq ih =>
    rw [stringLength, if_neg hb, if_neg hq, Option.map_eq_some_iff] at h
    obtain ⟨m, hm, rfl⟩ := h
    exact Nat.succ_lt_succ (ih hm)

theorem ahead_scanString (h : scanString c = .ok (s, c')) : Ahead c c' := by
  unfold scanString at h
  obtain ⟨c1, h1, h⟩ := bind_ok h
  split at h
  next => cases h
  next n hn =>
    cases h
    exact (ahead_expect h1).trans ⟨n + 1, stringLength_lt hn, rfl⟩

theorem ahead_matchLiteral {literal : List UInt8} (h : matchLiteral literal c = .ok c') :
    Ahead c c' := by
  unfold matchLiteral at h
  split at h
  next hliteral =>
    cases h
    exact ⟨_, (List.isPrefixOf_iff_prefix.mp hliteral).length_le, rfl⟩
  next => cases h

/-! ## The parts of a number -/

/-- The fraction in `skip_number`. -/
def skipFraction (c : Span) : Span :=
  if c.bytes.head? = some DOT then skipDigits (c.advance 1) else c

/-- The exponent in `skip_number`. -/
def skipExponent (c : Span) : Span :=
  if (c.bytes.head?.map isExp).getD false then
    skipDigits (skipIf (fun b => b == PLUS || b == MINUS) (c.advance 1))
  else c

theorem skipNumber_parts (c : Span) : skipNumber c =
    if ((skipIf (· == MINUS) c).bytes.head?.map isDigit).getD false then
      .ok (skipExponent (skipFraction (skipDigits (skipIf (· == MINUS) c))))
    else .error EAF_INVALID := by
  unfold skipNumber skipExponent skipFraction
  simp only
  split_ifs <;> rfl

/-- The byte that a test of the reader is true of. -/
theorem head_of_test {p : UInt8 → Bool} {bytes : List UInt8}
    (h : (bytes.head?.map p).getD false = true) : ∃ b, bytes.head? = some b ∧ p b = true := by
  cases hbytes : bytes.head? with
  | none =>
    rw [hbytes] at h
    cases h
  | some b =>
    rw [hbytes] at h
    exact ⟨b, rfl, h⟩

theorem ahead_skipFraction (c : Span) : Ahead c (skipFraction c) := by
  unfold skipFraction
  split
  next hdot => exact (ahead_byte hdot).trans (ahead_skipDigits _)
  next => exact .refl c

theorem ahead_skipExponent (c : Span) : Ahead c (skipExponent c) := by
  unfold skipExponent
  split
  next hexp =>
    obtain ⟨b, hb, -⟩ := head_of_test hexp
    exact ((ahead_byte hb).trans (ahead_skipIf _ _)).trans (ahead_skipDigits _)
  next => exact .refl c

theorem ahead_skipNumber (h : skipNumber c = .ok c') : Ahead c c' := by
  rw [skipNumber_parts] at h
  split at h
  next =>
    cases h
    exact (((ahead_skipIf c _).trans (ahead_skipDigits _)).trans (ahead_skipFraction _)).trans
      (ahead_skipExponent _)
  next => cases h

theorem ahead_separator {close : UInt8} {next : Next} (h : separator close c = .ok next) :
    Ahead c next.cursor := by
  unfold separator at h
  simp only at h
  split at h
  next => cases h
  next b rest hc =>
    have hbyte := (ahead_skipWs c).trans (ahead_byte (by rw [hc]; rfl))
    split_ifs at h
    · cases h
      exact hbyte
    · cases h
      exact hbyte

/-- A skip comes out ahead. -/
structure Aheads (bound : Nat) : Prop where
  value : ∀ {c c'}, skipValueIn bound c = .ok c' → Ahead c c'
  object : ∀ {c c'}, skipObjectIn bound c = .ok c' → Ahead (c.advance 1) c'
  members : ∀ {c c'}, skipMembersIn bound c = .ok c' → Ahead c c'
  array : ∀ {c c'}, skipArrayIn bound c = .ok c' → Ahead (c.advance 1) c'
  elements : ∀ {c c'}, skipElementsIn bound c = .ok c' → Ahead c c'

theorem aheads (bound : Nat) : Aheads bound := by
  induction bound with
  | zero =>
    constructor
    · intro c c' h
      rw [skipValueIn] at h
      cases h
    · intro c c' h
      rw [skipObjectIn] at h
      cases h
    · intro c c' h
      rw [skipMembersIn] at h
      cases h
    · intro c c' h
      rw [skipArrayIn] at h
      cases h
    · intro c c' h
      rw [skipElementsIn] at h
      cases h
  | succ bound ih =>
    constructor
    · -- a value
      intro c c' h
      rw [skipValueIn] at h
      apply (ahead_skipWs c).trans
      split at h
      next => cases h
      next b rest hc =>
        have hhead : (skipWs c).bytes.head? = some b := by rw [hc]; rfl
        split_ifs at h
        · exact (ahead_byte hhead).trans (ih.object h)
        · exact (ahead_byte hhead).trans (ih.array h)
        · obtain ⟨⟨s, c1⟩, hs, rfl⟩ := map_ok h
          exact ahead_scanString hs
        · exact ahead_matchLiteral h
        · exact ahead_matchLiteral h
        · exact ahead_matchLiteral h
        · exact ahead_skipNumber h
    · -- an object
      intro c c' h
      rw [skipObjectIn] at h
      apply (ahead_skipWs _).trans
      split at h
      next hclose =>
        cases h
        exact ahead_byte hclose
      next => exact ih.members h
    · -- members
      intro c c' h
      rw [skipMembersIn] at h
      obtain ⟨⟨s, c1⟩, h1, h⟩ := bind_ok h
      obtain ⟨c2, h2, h⟩ := bind_ok h
      obtain ⟨c3, h3, h⟩ := bind_ok h
      obtain ⟨next, h4, h⟩ := bind_ok h
      apply ((((ahead_scanString h1).trans (ahead_skipWs _)).trans (ahead_expect h2)).trans
        (ih.value h3)).trans
      apply (ahead_separator h4).trans
      cases next with
      | more c4 => exact ih.members h
      | close c4 =>
        cases h
        exact .refl _
    · -- an array
      intro c c' h
      rw [skipArrayIn] at h
      apply (ahead_skipWs _).trans
      split at h
      next hclose =>
        cases h
        exact ahead_byte hclose
      next => exact ih.elements h
    · -- elements
      intro c c' h
      rw [skipElementsIn] at h
      obtain ⟨c1, h1, h⟩ := bind_ok h
      obtain ⟨next, h2, h⟩ := bind_ok h
      apply (ih.value h1).trans
      apply (ahead_separator h2).trans
      cases next with
      | more c2 => exact ih.elements h
      | close c2 =>
        cases h
        exact .refl _

theorem ahead_skipValue (h : skipValue c = .ok c') : Ahead c c' := (aheads _).value h

theorem ahead_scanKey {key : List UInt8} (h : scanKey c = .ok (key, c')) : Ahead c c' := by
  unfold scanKey at h
  obtain ⟨⟨s, c1⟩, h1, h⟩ := bind_ok h
  obtain ⟨c2, h2, h⟩ := bind_ok h
  cases h
  exact ((ahead_scanString h1).trans (ahead_skipWs _)).trans (ahead_expect h2)

end Ahead

/-! ## Shorter texts -/

/-- The cursor on the text up to the offset `e`. -/
def Span.cut (c : Span) (e : Nat) : Span := ⟨c.start, c.bytes.take (e - c.start)⟩

def Next.cut (e : Nat) : Next → Next
  | .more c => .more (c.cut e)
  | .close c => .close (c.cut e)

section Cut

variable {c c' s : Span} {e : Nat}

theorem cut_advance (n : Nat) : (c.cut e).advance n = (c.advance n).cut e := by
  unfold Span.cut Span.advance
  rw [List.drop_take, Nat.sub_sub]

theorem cut_head (h : c.start < e) : (c.cut e).bytes.head? = c.bytes.head? := by
  unfold Span.cut
  rw [List.head?_take, if_neg (by omega)]

/-- Nothing but the byte of the whole text is in front of the cursor. -/
theorem cut_head_of {b : UInt8} (h : (c.cut e).bytes.head? = some b) : c.bytes.head? = some b := by
  unfold Span.cut at h
  rw [List.head?_take] at h
  split at h
  next => cases h
  next => exact h

theorem cut_test {p : UInt8 → Bool} (h : ¬(c.bytes.head?.map p).getD false = true) :
    ¬((c.cut e).bytes.head?.map p).getD false = true := by
  intro hcut
  obtain ⟨b, hb, hp⟩ := head_of_test hcut
  rw [cut_head_of hb] at h
  exact h hp

theorem takeWhile_cut {p : UInt8 → Bool} (h : c.start + (c.bytes.takeWhile p).length ≤ e) :
    (c.cut e).bytes.takeWhile p = c.bytes.takeWhile p := by
  have hlong : (c.bytes.takeWhile p).length ≤ e - c.start := by omega
  unfold Span.cut
  generalize e - c.start = k at hlong
  generalize c.bytes = bytes at hlong
  induction bytes generalizing k with
  | nil => rw [List.take_nil]
  | cons b bytes ih =>
    cases k with
    | zero =>
      rw [List.take_zero, List.takeWhile_nil]
      exact (List.eq_nil_of_length_eq_zero (Nat.le_zero.mp hlong)).symm
    | succ k =>
      rw [List.take_succ_cons]
      by_cases hb : p b = true
      · rw [List.takeWhile_cons_of_pos hb] at hlong ⊢
        rw [List.takeWhile_cons_of_pos hb, ih k (Nat.le_of_succ_le_succ hlong)]
      · rw [List.takeWhile_cons_of_neg hb, List.takeWhile_cons_of_neg hb]

theorem skipWs_cut (h : (skipWs c).start ≤ e) : skipWs (c.cut e) = (skipWs c).cut e := by
  unfold skipWs at h ⊢
  rw [takeWhile_cut h]
  exact cut_advance _

theorem skipDigits_cut (h : (skipDigits c).start ≤ e) :
    skipDigits (c.cut e) = (skipDigits c).cut e := by
  unfold skipDigits at h ⊢
  rw [takeWhile_cut h]
  exact cut_advance _

theorem skipIf_cut {p : UInt8 → Bool} (h : (skipIf p c).start ≤ e) :
    skipIf p (c.cut e) = (skipIf p c).cut e := by
  obtain ⟨start, bytes⟩ := c
  cases bytes with
  | nil =>
    have hnil : (Span.cut ⟨start, []⟩ e).bytes = [] := List.take_nil
    unfold skipIf
    rw [hnil]
  | cons b rest =>
    by_cases hp : p b = true
    · have hstep : skipIf p ⟨start, b :: rest⟩ = Span.advance ⟨start, b :: rest⟩ 1 := if_pos hp
      rw [hstep] at h ⊢
      rw [← cut_advance]
      change start + 1 ≤ e at h
      obtain ⟨k, hk⟩ : ∃ k, e - start = k + 1 := ⟨e - start - 1, by omega⟩
      unfold skipIf Span.cut
      simp only [hk, List.take_succ_cons, if_pos hp]
    · have hstay : skipIf p ⟨start, b :: rest⟩ = ⟨start, b :: rest⟩ := if_neg hp
      rw [hstay]
      unfold skipIf
      split
      next b' rest' hcut =>
        have hb := cut_head_of (c := ⟨start, b :: rest⟩) (by rw [hcut]; rfl)
        cases hb
        rw [if_neg hp]
      next => rfl

theorem expect_cut {b : UInt8} (h : expect b c = .ok c') (he : c'.start ≤ e) :
    expect b (c.cut e) = .ok (c'.cut e) := by
  unfold expect at h ⊢
  split at h
  next hb =>
    cases h
    rw [cut_head he, if_pos hb, cut_advance]
  next => cases h

theorem stringLength_take {bytes : List UInt8} {n k : Nat} (h : stringLength bytes = some n)
    (hk : n < k) : stringLength (bytes.take k) = some n := by
  induction bytes using stringLength.induct generalizing n k with
  | case1 => cases h
  | case2 =>
    obtain ⟨k, rfl⟩ := Nat.exists_eq_succ_of_ne_zero (Nat.ne_of_gt (Nat.zero_lt_of_lt hk))
    rw [List.take_succ_cons, List.take_nil]
    exact h
  | case3 b hb =>
    rw [stringLength, if_neg hb] at h
    cases h
  | case4 b' rest ih =>
    rw [stringLength, if_pos rfl, Option.map_eq_some_iff] at h
    obtain ⟨m, hm, rfl⟩ := h
    obtain ⟨k, rfl⟩ : ∃ l, k = l + 2 := ⟨k - 2, by omega⟩
    rw [List.take_succ_cons, List.take_succ_cons, stringLength, if_pos rfl,
      ih hm (by omega), Option.map_some]
  | case5 b' rest hb =>
    rw [stringLength, if_neg hb, if_pos rfl] at h
    cases h
    obtain ⟨k, rfl⟩ := Nat.exists_eq_succ_of_ne_zero (Nat.ne_of_gt hk)
    rw [List.take_succ_cons]
    cases (b' :: rest).take k with
    | nil => rfl
    | cons b'' rest' => rfl
  | case6 b b' rest hb hq ih =>
    rw [stringLength, if_neg hb, if_neg hq, Option.map_eq_some_iff] at h
    obtain ⟨m, hm, rfl⟩ := h
    obtain ⟨k, rfl⟩ : ∃ l, k = l + 2 := ⟨k - 2, by omega⟩
    have hrest := ih hm (k := k + 1) (by omega)
    rw [List.take_succ_cons] at hrest ⊢
    rw [List.take_succ_cons, stringLength, if_neg hb, if_neg hq, hrest, Option.map_some]

theorem scanString_cut (h : scanString c = .ok (s, c')) (he : c'.start ≤ e) :
    scanString (c.cut e) = .ok (s, c'.cut e) := by
  unfold scanString at h ⊢
  obtain ⟨c1, h1, h⟩ := bind_ok h
  split at h
  next => cases h
  next n hn =>
    cases h
    change c1.start + (n + 1) ≤ e at he
    have hshort : n < e - c1.start := by omega
    rw [expect_cut h1 (by omega)]
    have hlength : stringLength (c1.cut e).bytes = some n := stringLength_take hn hshort
    simp only [bind, Except.bind, hlength, cut_advance]
    unfold Span.cut
    rw [List.take_take, min_eq_left (Nat.le_of_lt hshort)]

theorem matchLiteral_cut {literal : List UInt8} (h : matchLiteral literal c = .ok c')
    (he : c'.start ≤ e) : matchLiteral literal (c.cut e) = .ok (c'.cut e) := by
  unfold matchLiteral at h ⊢
  split at h
  next hliteral =>
    cases h
    change c.start + literal.length ≤ e at he
    have hcut : literal.isPrefixOf (c.cut e).bytes = true := by
      rw [List.isPrefixOf_iff_prefix] at hliteral ⊢
      exact List.prefix_take_iff.mpr ⟨hliteral, by omega⟩
    rw [if_pos hcut, cut_advance]
  next => cases h

theorem skipFraction_cut (he : (skipFraction c).start ≤ e) :
    skipFraction (c.cut e) = (skipFraction c).cut e := by
  unfold skipFraction at he ⊢
  split at he
  next hdot =>
    have hlt : c.start + 1 ≤ e := (ahead_skipDigits _).start_le.trans he
    rw [if_pos hdot, cut_head hlt, if_pos hdot, cut_advance, skipDigits_cut he]
  next hdot => rw [if_neg hdot, if_neg (fun h => hdot (cut_head_of h))]

theorem skipExponent_cut (he : (skipExponent c).start ≤ e) :
    skipExponent (c.cut e) = (skipExponent c).cut e := by
  unfold skipExponent at he ⊢
  split at he
  next hexp =>
    have hsign := (ahead_skipDigits _).start_le.trans he
    have hlt : c.start + 1 ≤ e := (ahead_skipIf _ _).start_le.trans hsign
    rw [if_pos hexp, cut_head hlt, if_pos hexp, cut_advance, skipIf_cut hsign,
      skipDigits_cut he]
  next hexp => rw [if_neg hexp, if_neg (cut_test hexp)]

/-- Digits that are there are stepped over. -/
theorem skipDigits_start (h : (c.bytes.head?.map isDigit).getD false = true) :
    c.start + 1 ≤ (skipDigits c).start := by
  obtain ⟨b, hb, hdigit⟩ := head_of_test h
  obtain ⟨rest, hrest⟩ := List.head?_eq_some_iff.mp hb
  unfold skipDigits
  rw [hrest, List.takeWhile_cons_of_pos hdigit]
  change c.start + 1 ≤ c.start + (_ + 1)
  omega

theorem skipNumber_cut (h : skipNumber c = .ok c') (he : c'.start ≤ e) :
    skipNumber (c.cut e) = .ok (c'.cut e) := by
  rw [skipNumber_parts] at h ⊢
  split at h
  next hdigit =>
    cases h
    have hfraction := (ahead_skipExponent _).start_le.trans he
    have hdigits := (ahead_skipFraction _).start_le.trans hfraction
    have hlt := (skipDigits_start hdigit).trans hdigits
    rw [skipIf_cut (by omega), cut_head hlt, if_pos hdigit, skipDigits_cut hdigits,
      skipFraction_cut hfraction, skipExponent_cut he]
  next => cases h

theorem separator_cut {close : UInt8} {next : Next} (h : separator close c = .ok next)
    (he : next.cursor.start ≤ e) : separator close (c.cut e) = .ok (next.cut e) := by
  have hws : (skipWs c).start + 1 ≤ e ∧ ∃ b rest, (skipWs c).bytes = b :: rest ∧
      (if b = COMMA then .ok (.more ((skipWs c).advance 1))
        else if b = close then .ok (.close ((skipWs c).advance 1))
        else .error EAF_INVALID : Except Rc Next) = .ok next := by
    unfold separator at h
    simp only at h
    split at h
    next => cases h
    next b rest hc =>
      refine ⟨?_, b, rest, hc, h⟩
      split_ifs at h
      · cases h
        exact he
      · cases h
        exact he
  obtain ⟨hlt, b, rest, hc, hnext⟩ := hws
  obtain ⟨rest', hcut⟩ : ∃ rest', ((skipWs c).cut e).bytes = b :: rest' :=
    List.head?_eq_some_iff.mp (by rw [cut_head hlt, hc]; rfl)
  unfold separator
  rw [skipWs_cut (by omega)]
  simp only [hcut, cut_advance]
  split_ifs at hnext ⊢
  · cases hnext
    rfl
  · cases hnext
    rfl

/-- A value has at least one byte. -/
theorem skipValueIn_moves {bound : Nat} (h : skipValueIn bound c = .ok c') :
    (skipWs c).start + 1 ≤ c'.start := by
  cases bound with
  | zero =>
    rw [skipValueIn] at h
    cases h
  | succ bound =>
    have hliteral : ∀ {literal : List UInt8} {d : Span}, 0 < literal.length →
        matchLiteral literal d = .ok c' → d.start + 1 ≤ c'.start := by
      intro literal d hpos hd
      unfold matchLiteral at hd
      split at hd
      next =>
        cases hd
        exact Nat.add_le_add_left hpos _
      next => cases hd
    rw [skipValueIn] at h
    split at h
    next => cases h
    next b rest hc =>
      split_ifs at h
      · exact ((aheads _).object h).start_le
      · exact ((aheads _).array h).start_le
      · obtain ⟨⟨s, c1⟩, hs, rfl⟩ := map_ok h
        have hlt := left_scanString hs
        have hfinish := (ahead_scanString hs).finish
        simp only
        omega
      · exact hliteral (by decide) h
      · exact hliteral (by decide) h
      · exact hliteral (by decide) h
      · rw [skipNumber_parts] at h
        split at h
        next hdigit =>
          cases h
          have hsign := (ahead_skipIf (skipWs c) (· == MINUS)).start_le
          have hdigits := skipDigits_start hdigit
          have hfraction := (ahead_skipFraction (skipDigits (skipIf (· == MINUS) (skipWs c)))).start_le
          have hexponent := (ahead_skipExponent (skipFraction
            (skipDigits (skipIf (· == MINUS) (skipWs c))))).start_le
          omega
        next => cases h

/-- A skip does the same in a shorter text. -/
structure Cuts (bound : Nat) : Prop where
  value : ∀ {c c' e}, skipValueIn bound c = .ok c' → c'.start ≤ e →
    skipValueIn bound (c.cut e) = .ok (c'.cut e)
  object : ∀ {c c' e}, skipObjectIn bound c = .ok c' → c'.start ≤ e →
    skipObjectIn bound (c.cut e) = .ok (c'.cut e)
  members : ∀ {c c' e}, skipMembersIn bound c = .ok c' → c'.start ≤ e →
    skipMembersIn bound (c.cut e) = .ok (c'.cut e)
  array : ∀ {c c' e}, skipArrayIn bound c = .ok c' → c'.start ≤ e →
    skipArrayIn bound (c.cut e) = .ok (c'.cut e)
  elements : ∀ {c c' e}, skipElementsIn bound c = .ok c' → c'.start ≤ e →
    skipElementsIn bound (c.cut e) = .ok (c'.cut e)

/-- An array or an object that has something in it, or nothing. -/
theorem brackets_cut {close : UInt8} {inner : Span → Except Rc Span}
    (hinner : ∀ d, inner d = .ok c' → Ahead d c' ∧ inner (d.cut e) = .ok (c'.cut e))
    (h : (if (skipWs (c.advance 1)).bytes.head? = some close then
        .ok ((skipWs (c.advance 1)).advance 1)
      else inner (skipWs (c.advance 1)) : Except Rc Span) = .ok c') (he : c'.start ≤ e) :
    (if (skipWs ((c.cut e).advance 1)).bytes.head? = some close then
        .ok ((skipWs ((c.cut e).advance 1)).advance 1)
      else inner (skipWs ((c.cut e).advance 1)) : Except Rc Span) = .ok (c'.cut e) := by
  split at h
  next hclose =>
    cases h
    have hlt : (skipWs (c.advance 1)).start + 1 ≤ e := he
    rw [cut_advance, skipWs_cut (Nat.le_of_succ_le hlt),
      cut_head hlt, if_pos hclose, cut_advance]
  next hclose =>
    obtain ⟨hahead, hcut⟩ := hinner _ h
    have hle := hahead.start_le.trans he
    rw [cut_advance, skipWs_cut hle, if_neg (fun hc => hclose (cut_head_of hc)), hcut]

theorem cuts (bound : Nat) : Cuts bound := by
  induction bound with
  | zero =>
    constructor
    · intro c c' e h
      rw [skipValueIn] at h
      cases h
    · intro c c' e h
      rw [skipObjectIn] at h
      cases h
    · intro c c' e h
      rw [skipMembersIn] at h
      cases h
    · intro c c' e h
      rw [skipArrayIn] at h
      cases h
    · intro c c' e h
      rw [skipElementsIn] at h
      cases h
  | succ bound ih =>
    constructor
    · -- a value
      intro c c' e h he
      have hmoves := skipValueIn_moves h
      rw [skipValueIn] at h ⊢
      split at h
      next => cases h
      next b rest hc =>
        have hhead : (skipWs c).bytes.head? = some b := by rw [hc]; rfl
        have hle : (skipWs c).start + 1 ≤ e := hmoves.trans he
        obtain ⟨rest', hcut⟩ : ∃ rest', ((skipWs c).cut e).bytes = b :: rest' :=
          List.head?_eq_some_iff.mp (by rw [cut_head hle, hhead])
        rw [skipWs_cut (Nat.le_of_succ_le hle)]
        simp only [hcut]
        split_ifs at h ⊢
        · exact ih.object h he
        · exact ih.array h he
        · obtain ⟨⟨s, c1⟩, hs, rfl⟩ := map_ok h
          rw [scanString_cut hs he]
          rfl
        · exact matchLiteral_cut h he
        · exact matchLiteral_cut h he
        · exact matchLiteral_cut h he
        · exact skipNumber_cut h he
    · -- an object
      intro c c' e h he
      rw [skipObjectIn] at h ⊢
      exact brackets_cut (fun d hd => ⟨(aheads _).members hd, ih.members hd he⟩) h he
    · -- members
      intro c c' e h he
      rw [skipMembersIn] at h ⊢
      obtain ⟨⟨s, c1⟩, h1, h⟩ := bind_ok h
      obtain ⟨c2, h2, h⟩ := bind_ok h
      obtain ⟨c3, h3, h⟩ := bind_ok h
      obtain ⟨next, h4, h⟩ := bind_ok h
      have he4 : next.cursor.start ≤ e := by
        cases next with
        | more c4 => exact ((aheads _).members h).start_le.trans he
        | close c4 =>
          cases h
          exact he
      have he3 := (ahead_separator h4).start_le.trans he4
      have he2 := ((aheads _).value h3).start_le.trans he3
      have hews := (ahead_expect h2).start_le.trans he2
      have he1 := (ahead_skipWs c1).start_le.trans hews
      simp only [bind, Except.bind, scanString_cut h1 he1, skipWs_cut hews, expect_cut h2 he2,
        ih.value h3 he3, separator_cut h4 he4]
      cases next with
      | more c4 => exact ih.members h he
      | close c4 =>
        cases h
        rfl
    · -- an array
      intro c c' e h he
      rw [skipArrayIn] at h ⊢
      exact brackets_cut (fun d hd => ⟨(aheads _).elements hd, ih.elements hd he⟩) h he
    · -- elements
      intro c c' e h he
      rw [skipElementsIn] at h ⊢
      obtain ⟨c1, h1, h⟩ := bind_ok h
      obtain ⟨next, h2, h⟩ := bind_ok h
      have he2 : next.cursor.start ≤ e := by
        cases next with
        | more c2 => exact ((aheads _).elements h).start_le.trans he
        | close c2 =>
          cases h
          exact he
      have he1 := (ahead_separator h2).start_le.trans he2
      simp only [bind, Except.bind, ih.value h1 he1, separator_cut h2 he2]
      cases next with
      | more c2 => exact ih.elements h he
      | close c2 =>
        cases h
        rfl

/-- `skip_value` does the same in a shorter text. -/
theorem skipValue_cut (h : skipValue c = .ok c') (he : c'.start ≤ e) :
    skipValue (c.cut e) = .ok (c'.cut e) := by
  have hcut := (cuts c.bound).value h he
  have hbound : c.bound = (c.cut e).bound + (c.bound - (c.cut e).bound) := by
    have hshort : (c.cut e).bytes.length ≤ c.bytes.length := List.length_take_le' _ _
    unfold Span.bound
    omega
  rw [hbound, skipValue_bound] at hcut
  exact hcut

theorem cut_end (c : Span) : c.cut c.start = ⟨c.start, []⟩ := by
  unfold Span.cut
  rw [Nat.sub_self, List.take_zero]

/-! ## Values -/

/-- The raw bytes of a value are those that it was parsed from. -/
theorem parseValue_raw {v : JsonValue} (h : parseValue c = .ok (v, c')) :
    v.raw = (skipWs c).cut c'.start := by
  unfold parseValue at h
  simp only at h
  split at h
  next => cases h
  next =>
    split_ifs at h
    all_goals
      obtain ⟨r, -, heq⟩ := map_ok h
      cases heq
      rfl

theorem skipValue_skipWs (h : skipValue c = .ok c') : skipValue (skipWs c) = .ok c' := by
  cases hc : (skipWs c).bytes with
  | nil =>
    unfold skipValue Span.bound at h
    rw [skipValueIn, hc] at h
    cases h
  | cons b rest =>
    rw [skipValue_cases (by rw [skipWs_idem, hc]), skipWs_idem]
    rw [skipValue_cases hc] at h
    exact h

/-- The raw bytes of a value, alone, are skipped in full. -/
theorem skipValue_raw {v : JsonValue} (h : parseValue c = .ok (v, c')) :
    skipValue v.raw = .ok ⟨c'.start, []⟩ := by
  rw [parseValue_raw h, skipValue_cut (skipValue_skipWs (parseValue_skips h)) le_rfl, cut_end]

/-! ## The search for a string -/

theorem takeElement_cut {needle : List UInt8} {member found : Bool}
    (h : takeElement needle member c = (found, .ok c')) (he : c'.start ≤ e) :
    takeElement needle member (c.cut e) = (found, .ok (c'.cut e)) := by
  unfold takeElement at h ⊢
  split at h
  next hquote =>
    cases hs : scanString c with
    | error rc =>
      rw [hs] at h
      cases h
    | ok r =>
      obtain ⟨s, c1⟩ := r
      rw [hs] at h
      cases h
      have hfinish := (ahead_scanString hs).finish
      have hlt := left_scanString hs
      rw [cut_head (by omega), if_pos hquote, scanString_cut hs he]
  next hquote =>
    obtain ⟨rfl, hskip⟩ := Prod.mk.inj h
    rw [if_neg (fun hc => hquote (cut_head_of hc)), skipValue_cut hskip he]

theorem ahead_takeElement {needle : List UInt8} {member : Bool}
    (h : (takeElement needle member c).2 = .ok c') : Ahead c c' := by
  unfold takeElement at h
  split at h
  next =>
    cases hs : scanString c with
    | error rc =>
      rw [hs] at h
      cases h
    | ok r =>
      rw [hs] at h
      cases h
      exact ahead_scanString hs
  next => exact ahead_skipValue h

/-- The parts of one turn of the search. -/
theorem membershipIn_turn {needle : List UInt8} {bound : Nat} {member found : Bool}
    (h : membershipIn needle (bound + 1) member c = (found, .ok c')) :
    ∃ member' c1 next, takeElement needle member (skipWs c) = (member', .ok c1) ∧
      separator RBRACKET c1 = .ok next ∧
      match next with
      | .more c2 => membershipIn needle bound member' c2 = (found, .ok c')
      | .close c2 => member' = found ∧ c2 = c' := by
  rw [membershipIn] at h
  rcases htake : takeElement needle member (skipWs c) with ⟨member', taken⟩
  simp only [htake] at h
  rcases hnext : taken.bind (separator RBRACKET) with rc | next
  · rw [hnext] at h
    cases h
  · obtain ⟨c1, rfl, hsep⟩ := bind_ok hnext
    refine ⟨member', c1, next, rfl, hsep, ?_⟩
    rw [hnext] at h
    cases next with
    | more c2 => exact h
    | close c2 =>
      cases h
      exact ⟨rfl, rfl⟩

theorem ahead_membershipIn {needle : List UInt8} {bound : Nat} {member found : Bool}
    (h : membershipIn needle bound member c = (found, .ok c')) : Ahead c c' := by
  induction bound generalizing member c with
  | zero => cases h
  | succ bound ih =>
    obtain ⟨member', c1, next, htake, hsep, hnext⟩ := membershipIn_turn h
    apply ((ahead_skipWs c).trans (ahead_takeElement (congrArg Prod.snd htake))).trans
    apply (ahead_separator hsep).trans
    cases next with
    | more c2 => exact ih hnext
    | close c2 =>
      obtain ⟨-, rfl⟩ := hnext
      exact .refl _

theorem membershipIn_cut {needle : List UInt8} {bound : Nat} {member found : Bool}
    (h : membershipIn needle bound member c = (found, .ok c')) (he : c'.start ≤ e) :
    membershipIn needle bound member (c.cut e) = (found, .ok (c'.cut e)) := by
  induction bound generalizing member c with
  | zero => cases h
  | succ bound ih =>
    obtain ⟨member', c1, next, htake, hsep, hnext⟩ := membershipIn_turn h
    have he2 : next.cursor.start ≤ e := by
      cases next with
      | more c2 => exact (ahead_membershipIn hnext).start_le.trans he
      | close c2 =>
        obtain ⟨-, rfl⟩ := hnext
        exact he
    have he1 := (ahead_separator hsep).start_le.trans he2
    have hews := (ahead_takeElement (congrArg Prod.snd htake)).start_le.trans he1
    rw [membershipIn, skipWs_cut hews, takeElement_cut htake he1]
    simp only [Except.bind, separator_cut hsep he2]
    cases next with
    | more c2 => exact ih hnext
    | close c2 =>
      obtain ⟨rfl, rfl⟩ := hnext
      rfl

theorem Ahead.left_le (h : Ahead c c') : c'.left ≤ c.left := by
  obtain ⟨n, -, rfl⟩ := h
  rw [left_advance]
  exact Nat.sub_le _ _

/-- Each turn of the search takes a byte, so that a bound over their number is enough. -/
theorem membershipIn_bound {needle : List UInt8} {bound : Nat} {member : Bool}
    (h : c.left < bound) (more : Nat) :
    membershipIn needle (bound + more) member c = membershipIn needle bound member c := by
  induction bound generalizing member c with
  | zero => exact absurd h (Nat.not_lt_zero _)
  | succ bound ih =>
    rw [Nat.add_right_comm, membershipIn, membershipIn]
    rcases htake : takeElement needle member (skipWs c) with ⟨member', taken⟩
    simp only
    rcases hnext : taken.bind (separator RBRACKET) with rc | next
    · rfl
    · cases next with
      | close c2 => rfl
      | more c2 =>
        obtain ⟨c1, rfl, hsep⟩ := bind_ok hnext
        have hws := left_skipWs c
        have htaken := (ahead_takeElement (congrArg Prod.snd htake)).left_le
        have hlt := left_separator hsep
        simp only [Next.cursor] at hlt
        exact ih (by omega)

/-- The search finds the same in a shorter text. -/
theorem parseArrayMembership_cut {needle : List UInt8} {member found : Bool}
    (h : parseArrayMembership needle member c = (found, .ok c')) (he : c'.start ≤ e) :
    parseArrayMembership needle member (c.cut e) = (found, .ok (c'.cut e)) := by
  have hskip := parseArrayMembership_skips (congrArg Prod.snd h)
  have hle := (skipValueIn_moves hskip).trans he
  unfold parseArrayMembership at h ⊢
  simp only at h ⊢
  rw [skipWs_cut (Nat.le_of_succ_le hle)]
  split at h
  next hopen =>
    rw [cut_head hle, if_pos hopen, cut_advance]
    split at h
    next hclose =>
      cases h
      have hlt : (skipWs ((skipWs c).advance 1)).start + 1 ≤ e := he
      rw [skipWs_cut (Nat.le_of_succ_le hlt), cut_head hlt, if_pos hclose, cut_advance]
    next hclose =>
      have hews := (ahead_membershipIn h).start_le.trans he
      rw [skipWs_cut hews, if_neg (fun hc => hclose (cut_head_of hc))]
      have hcut := membershipIn_cut h he
      generalize skipWs ((skipWs c).advance 1) = d at hcut
      have hshort : (d.cut e).left ≤ d.left := List.length_take_le' _ _
      have hbound : d.bound = (d.cut e).bound + 3 * (d.left - (d.cut e).left) := by
        change 3 * d.left + 3 = 3 * (d.cut e).left + 3 + _
        omega
      have henough : (d.cut e).left < (d.cut e).bound := by
        change (d.cut e).left < 3 * (d.cut e).left + 3
        omega
      rw [hbound, membershipIn_bound henough] at hcut
      exact hcut
  next hopen =>
    obtain ⟨rfl, hvalue⟩ := Prod.mk.inj h
    rw [cut_head hle, if_neg hopen, skipValue_cut hvalue he]

theorem parseArrayMembership_skipWs (needle : List UInt8) (member : Bool) (c : Span) :
    parseArrayMembership needle member (skipWs c) = parseArrayMembership needle member c := by
  unfold parseArrayMembership
  rw [skipWs_idem]

end Cut

/-! ## What stands in a value -/

section Found

variable {c c' : Span}

theorem parseValue_array {v : JsonValue} (h : parseValue c = .ok (v, c')) :
    v.type = .array ↔ (skipWs c).bytes.head? = some LBRACKET := by
  unfold parseValue at h
  simp only at h
  split at h
  next => cases h
  next b rest hc =>
    rw [hc, List.head?_cons, Option.some.injEq]
    split_ifs at h with hobject harray
    · obtain ⟨r, -, heq⟩ := map_ok h
      cases heq
      rw [hobject]
      exact iff_of_false (fun htype => by cases htype) (by decide)
    · obtain ⟨r, -, heq⟩ := map_ok h
      cases heq
      exact iff_of_true rfl harray
    all_goals
      obtain ⟨r, -, heq⟩ := map_ok h
      cases heq
      exact iff_of_false (fun htype => by cases htype) harray

theorem parseValue_bracket (hopen : (skipWs c).bytes.head? = some LBRACKET)
    (h : skipValue c = .ok c') : ∃ v, parseValue c = .ok (v, c') := by
  obtain ⟨rest, hc⟩ := List.head?_eq_some_iff.mp hopen
  rw [skipValue_cases hc, if_neg (by decide), if_pos rfl] at h
  unfold parseValue
  simp only [hc]
  rw [if_neg (by decide), if_pos trivial, h]
  exact ⟨_, rfl⟩

/-- The search where a value stands finds what the search in the parsed value finds. What cannot
be parsed is no array. -/
theorem membership_parsed {needle : List UInt8} {found : Bool}
    (h : parseArrayMembership needle false c = (found, .ok c')) :
    found = match parseValue c with
      | .ok (v, _) => jsonArrayContains v needle
      | .error _ => false := by
  have hskip := parseArrayMembership_skips (congrArg Prod.snd h)
  have hother : (skipWs c).bytes.head? ≠ some LBRACKET → found = false := by
    intro hopen
    unfold parseArrayMembership at h
    rw [if_neg hopen] at h
    exact (Prod.mk.inj h).1.symm
  rcases hv : parseValue c with rc | ⟨v, c1⟩
  · apply hother
    intro hopen
    obtain ⟨v, hv'⟩ := parseValue_bracket hopen hskip
    cases hv.symm.trans hv'
  · obtain rfl : c' = c1 := Except.ok.inj (hskip.symm.trans (parseValue_skips hv))
    have hraw : parseArrayMembership needle false v.raw = (found, .ok (c'.cut c'.start)) := by
      rw [parseValue_raw hv]
      apply parseArrayMembership_cut _ le_rfl
      rw [parseArrayMembership_skipWs]
      exact h
    simp only [jsonArrayContains, hraw]
    by_cases htype : v.type = .array
    · rw [htype]
      rfl
    · rw [hother (fun hopen => htype ((parseValue_array hv).mpr hopen)), Bool.and_false]

end Found

end EmbeddedAudio.Sendspin
