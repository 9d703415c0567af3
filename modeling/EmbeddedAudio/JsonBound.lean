-- The bound on the reader's calls is never reached: a skip consumes bytes
-- before it calls itself, so a bound from the length of the text is enough for
-- every text, well formed or not.
import EmbeddedAudio.JsonReader

namespace EmbeddedAudio.Sendspin

/-- How many bytes a cursor has left. -/
def Span.left (c : Span) : Nat := c.bytes.length

@[simp] theorem left_advance (c : Span) (n : Nat) : (c.advance n).left = c.left - n := by
  simp [Span.left, Span.advance]

theorem left_skipWs (c : Span) : (skipWs c).left ≤ c.left := by
  unfold skipWs
  rw [left_advance]
  omega

theorem left_skipDigits (c : Span) : (skipDigits c).left ≤ c.left := by
  unfold skipDigits
  rw [left_advance]
  omega

theorem left_skipIf (p : UInt8 → Bool) (c : Span) : (skipIf p c).left ≤ c.left := by
  unfold skipIf
  split
  · split
    · rw [left_advance]
      omega
    · exact Nat.le_refl _
  · exact Nat.le_refl _

theorem left_expect {b : UInt8} {c c' : Span} (h : expect b c = .ok c') : c'.left < c.left := by
  unfold expect at h
  split at h
  · rename_i hb
    cases h
    have hpos : 0 < c.left := by
      unfold Span.left
      rcases hc : c.bytes with _ | ⟨x, xs⟩
      · simp [hc] at hb
      · simp
    rw [left_advance]
    omega
  · cases h

theorem left_scanString {c c' s : Span} (h : scanString c = .ok (s, c')) : c'.left < c.left := by
  unfold scanString at h
  rcases hq : expect QUOTE c with rc | c1
  · simp [hq, bind, Except.bind] at h
  · have hlt := left_expect hq
    simp only [hq, bind, Except.bind] at h
    split at h
    · cases h
    · cases h
      rw [left_advance]
      omega

theorem left_matchLiteral {literal : List UInt8} {c c' : Span}
    (h : matchLiteral literal c = .ok c') : c'.left ≤ c.left := by
  unfold matchLiteral at h
  split at h
  · cases h
    rw [left_advance]
    omega
  · cases h

theorem left_skipNumber {c c' : Span} (h : skipNumber c = .ok c') : c'.left ≤ c.left := by
  unfold skipNumber at h
  simp only at h
  have h1 := left_skipIf (· == MINUS) c
  generalize skipIf (· == MINUS) c = c1 at h h1
  split at h
  · have h2 : (if (skipDigits c1).bytes.head? = some DOT then
        skipDigits ((skipDigits c1).advance 1) else skipDigits c1).left ≤ c1.left := by
      have := left_skipDigits c1
      split
      · have := left_skipDigits ((skipDigits c1).advance 1)
        rw [left_advance] at this
        omega
      · omega
    generalize (if (skipDigits c1).bytes.head? = some DOT then
        skipDigits ((skipDigits c1).advance 1) else skipDigits c1) = c2 at h h2
    split at h
    · cases h
      have h3 := left_skipDigits (skipIf (fun b => b == PLUS || b == MINUS) (c2.advance 1))
      have h4 := left_skipIf (fun b => b == PLUS || b == MINUS) (c2.advance 1)
      rw [left_advance] at h4
      omega
    · cases h
      omega
  · cases h

/-- The cursor after a separator. -/
def Next.cursor : Next → Span
  | .more c => c
  | .close c => c

theorem left_separator {close : UInt8} {c : Span} {next : Next} (h : separator close c = .ok next) :
    next.cursor.left < c.left := by
  have hws := left_skipWs c
  unfold separator at h
  simp only at h
  split at h
  · cases h
  · rename_i b rest hb
    have hpos : 0 < (skipWs c).left := by simp [Span.left, hb]
    split_ifs at h <;> cases h <;> simp only [Next.cursor, left_advance] <;> omega

/-- What a call with a bound does to the bytes that are left. -/
structure Shrinks (bound : Nat) : Prop where
  value : ∀ {c c'}, skipValueIn bound c = .ok c' → c'.left ≤ c.left
  object : ∀ {c c'}, skipObjectIn bound c = .ok c' → c'.left ≤ c.left
  members : ∀ {c c'}, skipMembersIn bound c = .ok c' → c'.left ≤ c.left
  array : ∀ {c c'}, skipArrayIn bound c = .ok c' → c'.left ≤ c.left
  elements : ∀ {c c'}, skipElementsIn bound c = .ok c' → c'.left ≤ c.left

theorem bind_ok {α β : Type} {x : Except Rc α} {f : α → Except Rc β} {b : β}
    (h : x >>= f = .ok b) : ∃ a, x = .ok a ∧ f a = .ok b := by
  cases x with
  | error rc => cases h
  | ok a => exact ⟨a, rfl, h⟩

theorem shrinks (bound : Nat) : Shrinks bound := by
  induction bound with
  | zero =>
    constructor <;> intro c c' h
    · rw [skipValueIn] at h; cases h
    · rw [skipObjectIn] at h; cases h
    · rw [skipMembersIn] at h; cases h
    · rw [skipArrayIn] at h; cases h
    · rw [skipElementsIn] at h; cases h
  | succ bound ih =>
    constructor <;> intro c c' h
    · -- a value
      have hws := left_skipWs c
      rw [skipValueIn] at h
      split at h
      · cases h
      · split_ifs at h
        · exact Nat.le_trans (ih.object h) hws
        · exact Nat.le_trans (ih.array h) hws
        · rcases hs : scanString (skipWs c) with rc | ⟨s, c1⟩
          · simp [hs, Except.map] at h
          · simp only [hs, Except.map, Except.ok.injEq] at h
            subst h
            exact Nat.le_trans (Nat.le_of_lt (left_scanString hs)) hws
        · exact Nat.le_trans (left_matchLiteral h) hws
        · exact Nat.le_trans (left_matchLiteral h) hws
        · exact Nat.le_trans (left_matchLiteral h) hws
        · exact Nat.le_trans (left_skipNumber h) hws
    · -- an object
      have hws := left_skipWs (c.advance 1)
      rw [left_advance] at hws
      rw [skipObjectIn] at h
      split at h
      · cases h
        rw [left_advance]
        omega
      · have := ih.members h
        omega
    · -- members
      rw [skipMembersIn] at h
      obtain ⟨⟨s, c1⟩, h1, h⟩ := bind_ok h
      obtain ⟨c2, h2, h⟩ := bind_ok h
      obtain ⟨c3, h3, h⟩ := bind_ok h
      obtain ⟨next, h4, h⟩ := bind_ok h
      have hlt1 := left_scanString h1
      have hws := left_skipWs c1
      have hlt2 := left_expect h2
      have hle3 := ih.value h3
      have hlt4 := left_separator h4
      cases next with
      | more c4 =>
        have := ih.members h
        simp only [Next.cursor] at hlt4
        omega
      | close c4 =>
        cases h
        simp only [Next.cursor] at hlt4
        omega
    · -- an array
      have hws := left_skipWs (c.advance 1)
      rw [left_advance] at hws
      rw [skipArrayIn] at h
      split at h
      · cases h
        rw [left_advance]
        omega
      · have := ih.elements h
        omega
    · -- elements
      rw [skipElementsIn] at h
      obtain ⟨c1, h1, h⟩ := bind_ok h
      obtain ⟨next, h2, h⟩ := bind_ok h
      have hle1 := ih.value h1
      have hlt2 := left_separator h2
      cases next with
      | more c2 =>
        have := ih.elements h
        simp only [Next.cursor] at hlt2
        omega
      | close c2 =>
        cases h
        simp only [Next.cursor] at hlt2
        omega

/-- One more call does not change what a call with enough of them gives. -/
structure Enough (bound : Nat) : Prop where
  value : ∀ c : Span, 3 * c.left + 3 ≤ bound → skipValueIn (bound + 1) c = skipValueIn bound c
  object : ∀ c : Span, 3 * c.left + 2 ≤ bound → skipObjectIn (bound + 1) c = skipObjectIn bound c
  members : ∀ c : Span, 3 * c.left + 1 ≤ bound → skipMembersIn (bound + 1) c = skipMembersIn bound c
  array : ∀ c : Span, 0 < c.left → 3 * c.left + 2 ≤ bound →
    skipArrayIn (bound + 1) c = skipArrayIn bound c
  elements : ∀ c : Span, 3 * c.left + 4 ≤ bound →
    skipElementsIn (bound + 1) c = skipElementsIn bound c

theorem enough (bound : Nat) : Enough bound := by
  induction bound with
  | zero => constructor <;> intros <;> omega
  | succ bound ih =>
    constructor <;> intro c
    · -- a value
      intro hb
      have hws := left_skipWs c
      rw [skipValueIn, skipValueIn]
      split
      · rfl
      · rename_i b rest hc
        have hpos : 0 < (skipWs c).left := by simp [Span.left, hc]
        rw [ih.object (skipWs c) (by omega), ih.array (skipWs c) hpos (by omega)]
    · -- an object
      intro hb
      have hws := left_skipWs (c.advance 1)
      rw [left_advance] at hws
      rw [skipObjectIn, skipObjectIn]
      rw [ih.members (skipWs (c.advance 1)) (by omega)]
    · -- members
      intro hb
      rw [skipMembersIn, skipMembersIn]
      rcases h1 : scanString c with rc | ⟨s, c1⟩
      · rfl
      rcases h2 : expect COLON (skipWs c1) with rc | c2
      · simp [bind, Except.bind, h2]
      have hlt1 := left_scanString h1
      have hws := left_skipWs c1
      have hlt2 := left_expect h2
      simp only [bind, Except.bind, h2, ih.value c2 (by omega)]
      rcases h3 : skipValueIn bound c2 with rc | c3
      · rfl
      rcases h4 : separator RBRACE c3 with rc | next
      · simp only [h4]
      have hle3 := (shrinks bound).value h3
      have hlt4 := left_separator h4
      cases next with
      | more c4 =>
        simp only [Next.cursor] at hlt4
        simp only [h4, ih.members c4 (by omega)]
      | close c4 => simp only [h4]
    · -- an array
      intro hpos hb
      have hws := left_skipWs (c.advance 1)
      rw [left_advance] at hws
      rw [skipArrayIn, skipArrayIn]
      rw [ih.elements (skipWs (c.advance 1)) (by omega)]
    · -- elements
      intro hb
      rw [skipElementsIn, skipElementsIn]
      simp only [bind, Except.bind, ih.value c (by omega)]
      rcases h1 : skipValueIn bound c with rc | c1
      · rfl
      rcases h2 : separator RBRACKET c1 with rc | next
      · simp only [h2]
      have hle1 := (shrinks bound).value h1
      have hlt2 := left_separator h2
      cases next with
      | more c2 =>
        simp only [Next.cursor] at hlt2
        simp only [h2, ih.elements c2 (by omega)]
      | close c2 => simp only [h2]

/-- The bound of a cursor is enough: no larger one gives anything else. -/
theorem skipValue_bound (c : Span) (more : Nat) : skipValueIn (c.bound + more) c = skipValue c := by
  induction more with
  | zero => rfl
  | succ more ih =>
    rw [← Nat.add_assoc, (enough _).value c (by simp only [Span.bound, Span.left]; omega), ih]

end EmbeddedAudio.Sendspin
