-- The laws of the control parser (eaf_lms_feed): it works byte by byte, so the cuts
-- that the network makes in a stream cannot be seen, and an error is the last thing
-- that it reports.
import EmbeddedAudio.LmsProtocol

namespace EmbeddedAudio.Lms

open Storage

section Bytes

variable {σ : Type} (onPacket : List UInt8 → σ → Rc × σ)

/-! ## One byte -/

/-- The end of a turn that went into the packet. -/
def settle (p : Parser) (s : σ) : Rc × Parser × σ :=
  if p.packet.length = p.expected then
    let (rc, s) := onPacket p.packet s
    let p := { p with length := [], packet := [], expected := 0 }
    if rc ≠ EAF_OK then (rc, { p with failed := true }, s) else (EAF_OK, p, s)
  else (EAF_OK, p, s)

/-- The parser on one byte. -/
def feedByte (p : Parser) (s : σ) (b : UInt8) : Rc × Parser × σ :=
  match feedTurn p b [] with
  | .short p _ => (EAF_OK, p, s)
  | .invalid p => (EAF_INVALID, p, s)
  | .copied p _ => settle onPacket p s

/-- A step, and what follows when it went well. -/
def whenOk (r : Rc × Parser × σ) (next : Parser → σ → Rc × Parser × σ) : Rc × Parser × σ :=
  if r.1 = EAF_OK then next r.2.1 r.2.2 else r

/-- The bytes one by one, up to the first error. -/
def feedBytes (p : Parser) (s : σ) : List UInt8 → Rc × Parser × σ
  | [] => (EAF_OK, p, s)
  | b :: rest => whenOk (feedByte onPacket p s b) fun p s => feedBytes p s rest

variable {onPacket}

theorem whenOk_assoc (r : Rc × Parser × σ) (f g : Parser → σ → Rc × Parser × σ) :
    whenOk (whenOk r f) g = whenOk r fun p s => whenOk (f p s) g := by
  unfold whenOk
  by_cases hrc : r.1 = EAF_OK
  · simp only [hrc, if_true]
  · simp only [hrc, if_false]

theorem feedBytes_append (p : Parser) (s : σ) (xs ys : List UInt8) :
    feedBytes onPacket p s (xs ++ ys) =
      whenOk (feedBytes onPacket p s xs) fun p s => feedBytes onPacket p s ys := by
  induction xs generalizing p s with
  | nil => rfl
  | cons b xs ih =>
    rw [List.cons_append, feedBytes, feedBytes, whenOk_assoc]
    simp only [ih]

/-! ## The parser between two bytes -/

/-- What a parser that has not failed keeps: a part of a length, or a length and less than its
packet. -/
structure ParserSteady (p : Parser) : Prop where
  healthy : p.failed = false
  length : p.length.length ≤ 2
  packet : if p.length.length < 2 then p.packet = [] else p.packet.length < p.expected

theorem parserSteady_init : ParserSteady parserInit := ⟨rfl, by decide, rfl⟩

/-- A copy in the middle of a packet. -/
theorem parserSteady_copied {p : Parser} (h : ParserSteady p) (hlength : ¬p.length.length < 2)
    {packet : List UInt8} (hroom : packet.length < p.expected) :
    ParserSteady { p with packet := packet } := by
  refine ⟨h.healthy, h.length, ?_⟩
  simp only [hlength, if_false]
  exact hroom

/-- The cases of a byte: the length goes on, it is complete and wrong, it is complete and right,
or the byte belongs to a packet. -/
theorem feedTurn_cases {p : Parser} (h : ParserSteady p) (b : UInt8) :
    (p.length.length + 1 < 2 ∧
      ∀ rest, feedTurn p b rest = .short { p with length := p.length ++ [b] } rest) ∨
    (∃ p' : Parser, p'.failed = true ∧ ∀ rest, feedTurn p b rest = .invalid p') ∨
    (∃ p' : Parser, ParserSteady p' ∧ ¬p'.length.length < 2 ∧
      ∀ rest, feedTurn p b rest = feedPacket p' rest) ∨
    (¬p.length.length < 2 ∧ ∀ rest, feedTurn p b rest = feedPacket p (b :: rest)) := by
  have hpacket := h.packet
  by_cases hbare : p.length.length < 2
  · rw [if_pos hbare] at hpacket
    by_cases hshort : p.length.length + 1 < 2
    · refine .inl ⟨hshort, fun rest => ?_⟩
      simp only [feedTurn, hbare, if_true, List.length_append, List.length_singleton, hshort]
    · by_cases hwrong : readBE (p.length ++ [b]) < 4 ∨ readBE (p.length ++ [b]) > EAF_LMS_MAX_PACKET
      · refine .inr (.inl ⟨{ p with
          length := p.length ++ [b], expected := readBE (p.length ++ [b]), failed := true }, rfl,
          fun rest => ?_⟩)
        simp only [feedTurn, hbare, if_true, List.length_append, List.length_singleton, hshort,
          if_false, hwrong]
      · refine .inr (.inr (.inl ⟨{ p with
          length := p.length ++ [b], expected := readBE (p.length ++ [b]) }, ?_, ?_,
          fun rest => ?_⟩))
        · refine ⟨h.healthy, ?_, ?_⟩
          · rw [List.length_append, List.length_singleton]
            omega
          · simp only [List.length_append, List.length_singleton, hshort, if_false, hpacket,
              List.length_nil]
            omega
        · rw [List.length_append, List.length_singleton]
          exact hshort
        · simp only [feedTurn, hbare, if_true, List.length_append, List.length_singleton, hshort,
            if_false, hwrong]
  · refine .inr (.inr (.inr ⟨hbare, fun rest => ?_⟩))
    simp only [feedTurn, hbare, if_false]

/-- The bytes of a packet may be copied one by one. -/
theorem feedPacket_cons {p : Parser} (hroom : p.packet.length < p.expected) (b : UInt8)
    (rest : List UInt8) :
    feedPacket p (b :: rest) = feedPacket { p with packet := p.packet ++ [b] } rest := by
  obtain ⟨n, hn⟩ : ∃ n, p.expected - p.packet.length = n + 1 :=
    ⟨p.expected - p.packet.length - 1, by omega⟩
  have hrest : p.expected - (p.packet.length + 1) = n := by omega
  unfold feedPacket
  simp only [List.length_cons, List.length_append, List.length_nil, hn, hrest, Nat.zero_add,
    Nat.succ_min_succ, List.take_succ_cons, List.drop_succ_cons, List.append_assoc,
    List.singleton_append]

theorem feedPacket_nil (p : Parser) : feedPacket p [] = .copied p [] := by
  unfold feedPacket
  simp only [List.length_nil, Nat.min_zero, List.take_nil, List.append_nil, List.drop_nil]

/-- A packet that is complete takes no byte. -/
theorem feedPacket_full {p : Parser} (hfull : p.packet.length = p.expected) (rest : List UInt8) :
    feedPacket p rest = .copied p rest := by
  unfold feedPacket
  simp only [hfull, Nat.sub_self, Nat.zero_min, List.take_zero, List.append_nil, List.drop_zero]

theorem settle_open {p : Parser} (hroom : p.packet.length < p.expected) (s : σ) :
    settle onPacket p s = (EAF_OK, p, s) := by
  unfold settle
  rw [if_neg hroom.ne]

theorem settle_ok {p : Parser} {s : σ} (h : ParserSteady p ∨ p.failed = false ∧
    p.packet.length = p.expected) (hrc : (settle onPacket p s).1 = EAF_OK) :
    ParserSteady (settle onPacket p s).2.1 := by
  unfold settle at hrc ⊢
  by_cases hfull : p.packet.length = p.expected
  · have hhealthy : p.failed = false := h.elim ParserSteady.healthy And.left
    simp only [hfull, if_true] at hrc ⊢
    by_cases hcallback : (onPacket p.packet s).1 = EAF_OK
    · simp only [hcallback, ne_eq, not_true_eq_false, if_false]
      exact ⟨hhealthy, Nat.zero_le 2, rfl⟩
    · simp only [hcallback, ne_eq, not_false_eq_true, if_true] at hrc
  · rw [if_neg hfull]
    exact h.resolve_right fun hother => hfull hother.2

theorem settle_failed {p : Parser} {s : σ} (hrc : (settle onPacket p s).1 ≠ EAF_OK) :
    (settle onPacket p s).2.1.failed = true := by
  unfold settle at hrc ⊢
  by_cases hfull : p.packet.length = p.expected
  · simp only [hfull, if_true] at hrc ⊢
    by_cases hcallback : (onPacket p.packet s).1 = EAF_OK
    · simp only [hcallback, ne_eq, not_true_eq_false, if_false] at hrc
    · simp only [hcallback, ne_eq, not_false_eq_true, if_true]
  · rw [if_neg hfull] at hrc
    exact absurd rfl hrc

/-- A byte leaves a steady parser, or one that has failed. -/
theorem feedByte_leaves (onPacket : List UInt8 → σ → Rc × σ) {p : Parser} (h : ParserSteady p)
    (s : σ) (b : UInt8) :
    if (feedByte onPacket p s b).1 = EAF_OK then ParserSteady (feedByte onPacket p s b).2.1
    else (feedByte onPacket p s b).2.1.failed = true := by
  unfold feedByte
  rcases feedTurn_cases h b with ⟨hshort, hturn⟩ | ⟨p', hfailed, hturn⟩ |
    ⟨p', hsteady, hlength, hturn⟩ | ⟨hlength, hturn⟩
  · rw [hturn]
    have hpacket := h.packet
    rw [if_pos (by omega)] at hpacket
    refine ⟨h.healthy, ?_, ?_⟩
    · rw [List.length_append, List.length_singleton]
      omega
    · simp only [List.length_append, List.length_singleton, hshort, if_true]
      exact hpacket
  · rw [hturn]
    exact hfailed
  · rw [hturn, feedPacket_nil]
    by_cases hrc : (settle onPacket p' s).1 = EAF_OK
    · rw [if_pos hrc]
      exact settle_ok (.inl hsteady) hrc
    · rw [if_neg hrc]
      exact settle_failed hrc
  · have hroom := h.packet
    rw [if_neg hlength] at hroom
    rw [hturn, feedPacket_cons hroom, feedPacket_nil]
    by_cases hrc : (settle onPacket { p with packet := p.packet ++ [b] } s).1 = EAF_OK
    · rw [if_pos hrc]
      refine settle_ok ?_ hrc
      by_cases hfull : (p.packet ++ [b]).length = p.expected
      · exact .inr ⟨h.healthy, hfull⟩
      · refine .inl (parserSteady_copied h hlength ?_)
        rw [List.length_append, List.length_singleton] at hfull ⊢
        omega
    · rw [if_neg hrc]
      exact settle_failed hrc

theorem feedBytes_leaves (onPacket : List UInt8 → σ → Rc × σ) {p : Parser} (h : ParserSteady p)
    (s : σ) (bytes : List UInt8) :
    if (feedBytes onPacket p s bytes).1 = EAF_OK then ParserSteady (feedBytes onPacket p s bytes).2.1
    else (feedBytes onPacket p s bytes).2.1.failed = true := by
  induction bytes generalizing p s with
  | nil => exact h
  | cons b rest ih =>
    have hbyte := feedByte_leaves onPacket h s b
    unfold feedBytes whenOk
    by_cases hrc : (feedByte onPacket p s b).1 = EAF_OK
    · rw [if_pos hrc] at hbyte ⊢
      exact ih hbyte _
    · rw [if_neg hrc] at hbyte ⊢
      rw [if_neg hrc]
      exact hbyte

/-! ## The loop -/

/-- The turn that copies does what its bytes do one by one. -/
theorem feedBytes_packet (onPacket : List UInt8 → σ → Rc × σ) {p : Parser} (h : ParserSteady p)
    (hlength : ¬p.length.length < 2) (s : σ) (bytes : List UInt8) :
    ∃ p' rest, feedPacket p bytes = .copied p' rest ∧ rest.length ≤ bytes.length - 1 ∧
      (ParserSteady p' ∨ p'.failed = false ∧ p'.packet.length = p'.expected) ∧
      feedBytes onPacket p s bytes =
        whenOk (settle onPacket p' s) fun p s => feedBytes onPacket p s rest := by
  induction bytes generalizing p with
  | nil =>
    have hroom := h.packet
    rw [if_neg hlength] at hroom
    refine ⟨p, [], feedPacket_nil p, le_rfl, .inl h, ?_⟩
    rw [settle_open hroom]
    rfl
  | cons b rest ih =>
    have hroom := h.packet
    rw [if_neg hlength] at hroom
    have hturn : feedTurn p b [] = feedPacket p [b] := by
      unfold feedTurn
      rw [if_neg hlength]
    have hbyte : feedByte onPacket p s b =
        settle onPacket { p with packet := p.packet ++ [b] } s := by
      unfold feedByte
      rw [hturn, feedPacket_cons hroom, feedPacket_nil]
    rw [feedPacket_cons hroom, feedBytes, hbyte]
    by_cases hfull : (p.packet ++ [b]).length = p.expected
    · exact ⟨_, rest, feedPacket_full hfull rest, le_rfl, .inr ⟨h.healthy, hfull⟩, rfl⟩
    · have hopen : (p.packet ++ [b]).length < p.expected := by
        rw [List.length_append, List.length_singleton] at hfull ⊢
        omega
      obtain ⟨p', tail, hcopied, htail, hp', hrun⟩ := ih (parserSteady_copied h hlength hopen) hlength
      refine ⟨p', tail, hcopied, htail.trans (Nat.sub_le _ _), hp', ?_⟩
      rw [settle_open hopen]
      exact hrun

/-- One turn that copies, in front of a loop that does what its bytes do. -/
theorem feedLoop_copied {fuel : Nat} {p q : Parser} {b : UInt8} {rest : List UInt8}
    (chunk : List UInt8)
    (hloop : ∀ {p : Parser} {s : σ} {bytes : List UInt8}, ParserSteady p → bytes.length ≤ fuel →
      feedLoop onPacket fuel p s bytes = feedBytes onPacket p s bytes)
    (hq : ParserSteady q) (hlength : ¬q.length.length < 2) (hchunk : chunk.length - 1 ≤ fuel)
    (hturn : feedTurn p b rest = feedPacket q chunk) (s : σ) :
    feedLoop onPacket (fuel + 1) p s (b :: rest) = feedBytes onPacket q s chunk := by
  obtain ⟨q', tail, hcopied, htail, hq', hrun⟩ :=
    feedBytes_packet onPacket hq hlength s chunk
  have hstep : feedLoop onPacket (fuel + 1) p s (b :: rest) =
      whenOk (settle onPacket q' s) fun p s => feedLoop onPacket fuel p s tail := by
    rw [feedLoop, hturn, hcopied]
    unfold settle whenOk
    by_cases hfull : q'.packet.length = q'.expected
    · simp only [hfull, if_true]
      by_cases hcallback : (onPacket q'.packet s).1 = EAF_OK
      · simp only [hcallback, ne_eq, not_true_eq_false, if_false, if_true]
      · simp only [hcallback, ne_eq, not_false_eq_true, if_true, if_false]
    · simp only [hfull, if_false, if_true]
  rw [hstep, hrun]
  unfold whenOk
  by_cases hrc : (settle onPacket q' s).1 = EAF_OK
  · rw [if_pos hrc, if_pos hrc]
    exact hloop (settle_ok hq' hrc) (htail.trans hchunk)
  · rw [if_neg hrc, if_neg hrc]

/-- Each turn uses up a byte at least, so the loop comes to its end, and it has done what the bytes
do one by one. -/
theorem feedLoop_bytes {fuel : Nat} {p : Parser} {s : σ} {bytes : List UInt8} (h : ParserSteady p)
    (hfuel : bytes.length ≤ fuel) :
    feedLoop onPacket fuel p s bytes = feedBytes onPacket p s bytes := by
  induction fuel generalizing p s bytes with
  | zero =>
    cases bytes with
    | nil => rfl
    | cons b rest => exact absurd hfuel (Nat.not_succ_le_zero _)
  | succ fuel ih =>
    cases bytes with
    | nil => rfl
    | cons b rest =>
      have hrest : rest.length ≤ fuel := Nat.le_of_succ_le_succ hfuel
      rcases feedTurn_cases h b with ⟨hshort, hturn⟩ | ⟨p', hfailed, hturn⟩ |
        ⟨p', hsteady, hlength, hturn⟩ | ⟨hlength, hturn⟩
      · have hbyte := feedByte_leaves onPacket h s b
        rw [feedLoop, hturn, feedBytes, feedByte, hturn]
        rw [feedByte, hturn] at hbyte
        exact ih hbyte hrest
      · rw [feedLoop, hturn, feedBytes, feedByte, hturn]
        rfl
      · have hroom := hsteady.packet
        rw [if_neg hlength] at hroom
        rw [feedLoop_copied _ ih hsteady hlength ((Nat.sub_le _ _).trans hrest) (hturn rest),
          feedBytes, feedByte, hturn, feedPacket_nil]
        simp only [settle_open hroom]
        rfl
      · exact feedLoop_copied (b :: rest) ih h hlength hrest (hturn rest) s

theorem feed_bytes {p : Parser} (h : ParserSteady p) (s : σ) (bytes : List UInt8) :
    feed onPacket p s bytes = feedBytes onPacket p s bytes := by
  unfold feed
  rw [h.healthy]
  exact feedLoop_bytes h (Nat.le_mul_of_pos_left _ (by decide))

/-- A parser that has failed. -/
theorem feed_failed {p : Parser} (h : p.failed = true) (s : σ) (bytes : List UInt8) :
    feed onPacket p s bytes = (EAF_STATE, p, s) := by
  unfold feed
  rw [h]
  rfl

end Bytes

/-! ## Any cut -/

section Cuts

variable {σ : Type} (onPacket : List UInt8 → σ → Rc × σ)

/-- A callback, with the packets that it was given. -/
def recorded (packet : List UInt8) (s : σ × List (List UInt8)) : Rc × σ × List (List UInt8) :=
  let r := onPacket packet s.1
  (r.1, r.2, s.2 ++ [packet])

/-- One call after another, and what they return. -/
def feedAll (p : Parser) (s : σ) : List (List UInt8) → List Rc × Parser × σ
  | [] => ([], p, s)
  | bytes :: rest =>
    let r := feed onPacket p s bytes
    let t := feedAll r.2.1 r.2.2 rest
    (r.1 :: t.1, t.2)

/-- The first error among the results of some calls. -/
def firstError (results : List Rc) : Rc := (results.find? (· ≠ EAF_OK)).getD EAF_OK

variable {onPacket}

theorem feedAll_failed {p : Parser} (h : p.failed = true) (s : σ) (parts : List (List UInt8)) :
    feedAll onPacket p s parts = (parts.map fun _ => EAF_STATE, p, s) := by
  induction parts with
  | nil => rfl
  | cons bytes rest ih =>
    rw [feedAll, feed_failed h]
    simp only [ih, List.map_cons]

theorem firstError_ne {results : List Rc} (h : ∃ rc ∈ results, rc ≠ EAF_OK) :
    firstError results ≠ EAF_OK := by
  obtain ⟨rc, hrc, herror⟩ := h
  obtain ⟨first, hfirst⟩ : ∃ first, results.find? (· ≠ EAF_OK) = some first :=
    Option.isSome_iff_exists.mp (List.find?_isSome.mpr ⟨rc, hrc, decide_eq_true herror⟩)
  have herror := List.find?_some hfirst
  unfold firstError
  rw [hfirst]
  exact of_decide_eq_true herror

/-- The calls end as the bytes do, one by one. -/
theorem feedAll_bytes (onPacket : List UInt8 → σ → Rc × σ) {p : Parser} (h : ParserSteady p)
    (s : σ) (parts : List (List UInt8)) :
    (firstError (feedAll onPacket p s parts).1, (feedAll onPacket p s parts).2) =
      feedBytes onPacket p s parts.flatten := by
  induction parts generalizing p s with
  | nil => rfl
  | cons bytes rest ih =>
    have hleaves := feedBytes_leaves onPacket h s bytes
    rw [feedAll, feed_bytes h, List.flatten_cons, feedBytes_append]
    unfold whenOk
    by_cases hrc : (feedBytes onPacket p s bytes).1 = EAF_OK
    · rw [if_pos hrc] at hleaves ⊢
      simp only [← ih hleaves]
      simp only [firstError, hrc, List.find?_cons, ne_eq, not_true_eq_false, decide_false]
    · rw [if_neg hrc] at hleaves ⊢
      simp only [firstError, List.find?_cons, ne_eq, hrc, not_false_eq_true, decide_true,
        Option.getD_some]
      rw [feedAll_failed hleaves]

/-- However a stream is cut, the packets, what the callbacks make of them and the first error are
the ones of a single call with all of it. Behind an error each further call fails and makes no
callback. -/
theorem feed_cuts (s : σ) (parts : List (List UInt8)) :
    (firstError (feedAll (recorded onPacket) parserInit (s, []) parts).1,
        (feedAll (recorded onPacket) parserInit (s, []) parts).2) =
      feed (recorded onPacket) parserInit (s, []) parts.flatten ∧
    ((∃ rc ∈ (feedAll (recorded onPacket) parserInit (s, []) parts).1, rc ≠ EAF_OK) →
      ∀ later, feedAll (recorded onPacket)
          (feedAll (recorded onPacket) parserInit (s, []) parts).2.1
          (feedAll (recorded onPacket) parserInit (s, []) parts).2.2 later =
        (later.map fun _ => EAF_STATE, (feedAll (recorded onPacket) parserInit (s, []) parts).2)) := by
  have hbytes := feedAll_bytes (recorded onPacket) parserSteady_init (s, []) parts
  refine ⟨?_, ?_⟩
  · rw [feed_bytes parserSteady_init]
    exact hbytes
  · intro herror later
    have hleaves := feedBytes_leaves (recorded onPacket) parserSteady_init (s, [])
      parts.flatten
    rw [← hbytes, if_neg (firstError_ne herror)] at hleaves
    exact feedAll_failed hleaves _ later

end Cuts

end EmbeddedAudio.Lms
