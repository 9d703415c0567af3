-- When the LMS client accepts the header of a response (headers and pump_http of
-- lms_client.c): in any order of its lines, in any case of its letters, and however
-- the socket cuts it.
import EmbeddedAudio.LmsLaws
import EmbeddedAudio.LmsLines

namespace EmbeddedAudio.Lms

/-! ## The reference -/

/-- A header as it comes from a server. -/
structure HeaderBlock where
  bytes : List UInt8
  nonul : ∀ b ∈ bytes, b ≠ 0
  fits : bytes.length ≤ EAF_LMS_MAX_PACKET
  ends : FirstEnd bytes

/-- No line says that the body comes in another form. -/
def Plain (line : List UInt8) : Prop :=
  ¬Named "transfer-encoding" line ∧ ¬Named "content-encoding" line ∧ ¬Named "icy-metaint" line

/-- The length that the lines declare: none at all, or the one of a single line. -/
def Declares (lines : List (List UInt8)) : Option Nat → Prop
  | none => ∀ line ∈ lines, ¬Named "content-length" line
  | some n => ∃ before line after, lines = before ++ line :: after ∧ Named "content-length" line ∧
      Decimal (line.drop 15) n ∧ ∀ other ∈ before ++ after, ¬Named "content-length" other

/-- The header is good, and the body has that length. -/
structure Acceptable (block : List UInt8) (length : Option Nat) : Prop where
  status : ascii "HTTP/1.0 200 " <+: block ∨ ascii "HTTP/1.1 200 " <+: block
  plain : ∀ line ∈ linesOf block, Plain line
  declares : Declares (linesOf block) length

/-! ## The lines -/

section Lines

variable {c : Client} {line text : List UInt8} {lines : List (List UInt8)}

/-- The lines one after another. -/
def lineRun : List (List UInt8) → Client → Rc × Client
  | [], c => (EAF_OK, c)
  | line :: lines, c => andThen (headerLine line c) (lineRun lines)

/-- What the client knows of the length. -/
structure Knows (c : Client) (length : Option Nat) : Prop where
  hasLength : c.hasLength = length.isSome
  remaining : ∀ n, length = some n → c.remaining = n

/-- What the lines leave alone. -/
structure Alike (c d : Client) : Prop where
  header : d.header = c.header
  headersDone : d.headersDone = c.headersDone
  ingress : d.ingress = c.ingress
  tx : d.tx = c.tx
  txSent : d.txSent = c.txSent

theorem Alike.trans {c d e : Client} (h : Alike c d) (h' : Alike d e) : Alike c e :=
  ⟨h'.header.trans h.header, h'.headersDone.trans h.headersDone, h'.ingress.trans h.ingress,
    h'.tx.trans h.tx, h'.txSent.trans h.txSent⟩

theorem fields_length (h : Fields text lines) : lines.length < text.length := by
  induction h with
  | done => decide
  | line hsplit hline _ ih =>
    rw [splitLine_eq hsplit]
    simp only [List.length_append, List.length_cons]
    omega

theorem headerLines_run (h : Fields text lines) {fuel : Nat} (hfuel : lines.length < fuel) :
    headerLines fuel text c = lineRun lines c := by
  induction h generalizing fuel c with
  | done =>
    obtain ⟨fuel, rfl⟩ := Nat.exists_eq_succ_of_ne_zero (Nat.ne_of_gt hfuel)
    rfl
  | @line text line rest lines hsplit hline _ ih =>
    obtain ⟨fuel, rfl⟩ := Nat.exists_eq_succ_of_ne_zero (Nat.ne_of_gt (Nat.zero_lt_of_lt hfuel))
    have hmore : ¬(text = [] ∨ text.take 2 = [13, 10]) := by
      rintro (rfl | htake)
      · cases hsplit
      · obtain ⟨tail, rfl⟩ : ∃ tail, text = 13 :: 10 :: tail :=
          ⟨text.drop 2, by rw [← List.take_append_drop 2 text, htake]; simp⟩
        have hempty : splitLine (13 :: 10 :: tail) = some ([], tail) := rfl
        cases hempty.symm.trans hsplit
        exact hline rfl
    rw [headerLines, if_neg hmore, hsplit]
    have hrest : headerLines fuel rest = lineRun lines :=
      funext fun d => ih (Nat.lt_of_succ_lt_succ hfuel)
    simp only [hrest]
    rfl

theorem headerLine_alike (line : List UInt8) (c : Client) : Alike c (headerLine line c).2 := by
  unfold headerLine contentLengthLine contentTypeLine
  split_ifs
  all_goals first | exact ⟨rfl, rfl, rfl, rfl, rfl⟩ | skip
  all_goals split <;> exact ⟨rfl, rfl, rfl, rfl, rfl⟩

theorem lineRun_alike (lines : List (List UInt8)) (c : Client) : Alike c (lineRun lines c).2 := by
  induction lines generalizing c with
  | nil => exact ⟨rfl, rfl, rfl, rfl, rfl⟩
  | cons line lines ih =>
    have hline := headerLine_alike line c
    unfold lineRun andThen
    split
    next => exact hline.trans (ih _)
    next => exact hline

/-- A line of the header, with what is known in front of it. -/
def scanLine (known : Option Nat) (line : List UInt8) : Option (Option Nat) :=
  if key line (ascii "transfer-encoding:") || key line (ascii "content-encoding:") ||
      key line (ascii "icy-metaint:") then none
  else if key line (ascii "content-length:") then
    if known.isSome then none else (contentLength (line.drop 15)).map some
  else some known

/-- The lines, without the client: the length that is known behind them. -/
def scan (known : Option Nat) (lines : List (List UInt8)) : Option (Option Nat) :=
  lines.foldlM scanLine known

theorem headerLine_scan {known : Option Nat} (h : Knows c known) (line : List UInt8) :
    match scanLine known line with
    | some length => (headerLine line c).1 = EAF_OK ∧ Knows (headerLine line c).2 length
    | none => (headerLine line c).1 ≠ EAF_OK := by
  have htype : Knows (contentTypeLine line c) known := by
    have hsession := @contentTypeLine_session c line
    exact ⟨(congrArg Session.hasLength hsession).trans h.hasLength,
      fun n hn => (congrArg Session.remaining hsession).trans (h.remaining n hn)⟩
  unfold scanLine headerLine
  by_cases hcoded : (key line (ascii "transfer-encoding:") ||
      key line (ascii "content-encoding:") || key line (ascii "icy-metaint:")) = true
  · rw [if_pos hcoded, if_pos hcoded]
    exact unsupported_ne
  rw [if_neg hcoded, if_neg hcoded]
  unfold contentLengthLine
  by_cases hlength : key line (ascii "content-length:") = true
  · rw [if_pos hlength, if_pos hlength, ← htype.hasLength]
    by_cases hsecond : (contentTypeLine line c).hasLength = true
    · rw [if_pos hsecond, if_pos hsecond]
      exact invalid_ne
    · rw [if_neg hsecond, if_neg hsecond]
      cases contentLength (line.drop 15) with
      | none => exact invalid_ne
      | some n => exact ⟨rfl, rfl, fun m hm => Option.some.inj hm⟩
  · rw [if_neg hlength, if_neg hlength]
    exact ⟨rfl, htype⟩

/-- The client goes over the lines as the scan does. -/
theorem lineRun_scan {known : Option Nat} (h : Knows c known) (lines : List (List UInt8)) :
    match scan known lines with
    | some length => (lineRun lines c).1 = EAF_OK ∧ Knows (lineRun lines c).2 length
    | none => (lineRun lines c).1 ≠ EAF_OK := by
  induction lines generalizing c known with
  | nil => exact ⟨rfl, h⟩
  | cons line lines ih =>
    have hline := headerLine_scan h line
    unfold scan lineRun andThen
    rw [List.foldlM_cons]
    cases hknown : scanLine known line with
    | none =>
      rw [hknown] at hline
      rw [if_neg hline]
      exact hline
    | some length =>
      rw [hknown] at hline
      rw [if_pos hline.1]
      exact ih hline.2

theorem plain_iff : (key line (ascii "transfer-encoding:") ||
    key line (ascii "content-encoding:") || key line (ascii "icy-metaint:")) = false ↔
      Plain line := by
  rw [Bool.or_eq_false_iff, Bool.or_eq_false_iff, ← Bool.not_eq_true, ← Bool.not_eq_true,
    ← Bool.not_eq_true, key_iff, key_iff, key_iff, and_assoc]
  exact Iff.rfl

theorem length_iff : key line (ascii "content-length:") = true ↔ Named "content-length" line :=
  key_iff

theorem scan_cons (known : Option Nat) (line : List UInt8) (lines : List (List UInt8)) :
    scan known (line :: lines) = (scanLine known line).bind fun known => scan known lines :=
  List.foldlM_cons

/-- Behind a length there may be no other. -/
theorem scan_some {m : Nat} {length : Option Nat} : scan (some m) lines = some length ↔
    (∀ line ∈ lines, Plain line) ∧ length = some m ∧
      ∀ line ∈ lines, ¬Named "content-length" line := by
  induction lines with
  | nil =>
    refine ⟨fun h => ⟨nofun, (Option.some.inj h).symm, nofun⟩, ?_⟩
    rintro ⟨-, rfl, -⟩
    rfl
  | cons line lines ih =>
    rw [List.forall_mem_cons, List.forall_mem_cons, ← plain_iff, ← length_iff, scan_cons]
    unfold scanLine
    by_cases hcoded : (key line (ascii "transfer-encoding:") ||
        key line (ascii "content-encoding:") || key line (ascii "icy-metaint:")) = true
    · simp [hcoded]
    · rw [if_neg hcoded]
      by_cases hlength : key line (ascii "content-length:") = true
      · simp [hlength]
      · rw [if_neg hlength, Option.bind_some, ih]
        simp [hcoded, hlength]

/-- A line in front that is not one with a length. -/
theorem declares_cons (h : ¬Named "content-length" line) {length : Option Nat} :
    Declares (line :: lines) length ↔ Declares lines length := by
  cases length with
  | none => exact List.forall_mem_cons.trans (and_iff_right h)
  | some n =>
    constructor
    · rintro ⟨before, found, after, hlines, hnamed, hdecimal, hothers⟩
      cases before with
      | nil =>
        cases hlines
        exact absurd hnamed h
      | cons first before =>
        obtain ⟨-, rfl⟩ := List.cons.inj hlines
        exact ⟨before, found, after, rfl, hnamed, hdecimal,
          fun other hmem => hothers other (List.mem_cons_of_mem _ hmem)⟩
    · rintro ⟨before, found, after, rfl, hnamed, hdecimal, hothers⟩
      refine ⟨line :: before, found, after, rfl, hnamed, hdecimal, ?_⟩
      rw [List.cons_append, List.forall_mem_cons]
      exact ⟨h, hothers⟩

/-- A line in front with a length is the only one. -/
theorem declares_named (h : Named "content-length" line) {length : Option Nat} :
    Declares (line :: lines) length ↔ ∃ n, length = some n ∧ Decimal (line.drop 15) n ∧
      ∀ other ∈ lines, ¬Named "content-length" other := by
  cases length with
  | none =>
    refine ⟨fun hnone => absurd h (hnone line List.mem_cons_self), ?_⟩
    rintro ⟨n, hn, -⟩
    cases hn
  | some n =>
    constructor
    · rintro ⟨before, found, after, hlines, hnamed, hdecimal, hothers⟩
      cases before with
      | nil =>
        cases hlines
        exact ⟨n, rfl, hdecimal, hothers⟩
      | cons first before =>
        obtain ⟨rfl, -⟩ := List.cons.inj hlines
        exact absurd h (hothers line List.mem_cons_self)
    · rintro ⟨m, hm, hdecimal, hothers⟩
      cases hm
      exact ⟨[], line, lines, rfl, h, hdecimal, hothers⟩

/-- The scan finds what the lines declare. -/
theorem scan_none {length : Option Nat} : scan none lines = some length ↔
    (∀ line ∈ lines, Plain line) ∧ Declares lines length := by
  induction lines with
  | nil =>
    cases length with
    | none => exact ⟨fun _ => ⟨nofun, nofun⟩, fun _ => rfl⟩
    | some n =>
      refine ⟨fun h => (nomatch Option.some.inj h), ?_⟩
      rintro ⟨-, before, line, after, hlines, -⟩
      simp at hlines
  | cons line lines ih =>
    rw [List.forall_mem_cons, ← plain_iff, scan_cons]
    unfold scanLine
    by_cases hcoded : (key line (ascii "transfer-encoding:") ||
        key line (ascii "content-encoding:") || key line (ascii "icy-metaint:")) = true
    · simp [hcoded]
    · rw [if_neg hcoded]
      by_cases hlength : key line (ascii "content-length:") = true
      · rw [if_pos hlength, declares_named (length_iff.mp hlength)]
        simp only [← contentLength_decimal, Option.isSome_none, Bool.false_eq_true, if_false]
        cases contentLength (line.drop 15) with
        | none => simp
        | some m =>
          rw [Option.map_some, Option.bind_some, scan_some, eq_false_of_ne_true hcoded]
          constructor
          · rintro ⟨hplain, rfl, hothers⟩
            exact ⟨⟨rfl, hplain⟩, m, rfl, rfl, hothers⟩
          · rintro ⟨⟨-, hplain⟩, n, rfl, hn, hothers⟩
            exact ⟨hplain, congrArg some (Option.some.inj hn).symm, hothers⟩
      · rw [if_neg hlength, Option.bind_some, ih, declares_cons (fun h => hlength (length_iff.mpr h))]
        simp [hcoded]

end Lines

/-! ## The block -/

section Block

variable {c : Client} {block : HeaderBlock} {length : Option Nat}

/-- A text without a CR in front of a line is in front of its text. -/
theorem prefix_line {text line rest : List UInt8} (htext : 13 ∉ text)
    (h : text <+: line ++ 13 :: rest) : text <+: line := by
  induction text generalizing line with
  | nil => exact List.nil_prefix
  | cons b text ih =>
    rw [List.mem_cons, not_or] at htext
    obtain ⟨hb, hmore⟩ := htext
    cases line with
    | nil => exact absurd (List.cons_prefix_cons.mp h).1.symm hb
    | cons b' line =>
      obtain ⟨rfl, hrest⟩ := List.cons_prefix_cons.mp h
      exact List.cons_prefix_cons.mpr ⟨rfl, ih hmore hrest⟩

/-- The names that a line may start with do not start a status. -/
theorem not_key_status {line name : List UInt8} (h : ascii "HTTP/" <+: line)
    (hlong : 5 ≤ name.length) (hname : name.take 5 ≠ ascii "http/") : key line name = false := by
  rw [← Bool.not_eq_true, key_iff]
  rintro ⟨more, hmore⟩
  obtain ⟨rest, rfl⟩ := h
  have htake := congrArg (List.take 5) hmore
  rw [List.take_append_of_le_length hlong, List.map_append] at htake
  exact hname htake

theorem scanLine_status {line : List UInt8} (h : ascii "HTTP/" <+: line) (known : Option Nat) :
    scanLine known line = some known := by
  unfold scanLine
  rw [not_key_status h (by decide) (by decide), not_key_status h (by decide) (by decide),
    not_key_status h (by decide) (by decide), not_key_status h (by decide) (by decide)]
  rfl

/-- A block is good exactly if its status is, and the scan of its fields finds the length. -/
theorem acceptable_iff {line rest : List UInt8} {lines : List (List UInt8)}
    (hsplit : splitLine block.bytes = some (line, rest)) (hfields : Fields rest lines) :
    Acceptable block.bytes length ↔
      (ascii "HTTP/1.0 200 " <+: block.bytes ∨ ascii "HTTP/1.1 200 " <+: block.bytes) ∧
        scan none lines = some length := by
  have hlines : linesOf block.bytes = line :: (lines ++ [[], []]) := by
    rw [linesOf_split hsplit, linesOf_fields hfields]
  have hscan : (ascii "HTTP/1.0 200 " <+: block.bytes ∨ ascii "HTTP/1.1 200 " <+: block.bytes) →
      scan none (linesOf block.bytes) = scan none lines := by
    intro hstatus
    rw [splitLine_eq hsplit] at hstatus
    have hline : ascii "HTTP/" <+: line := by
      rcases hstatus with hstatus | hstatus
      · have hversion : ascii "HTTP/" <+: ascii "HTTP/1.0 200 " := ⟨ascii "1.0 200 ", by decide⟩
        exact hversion.trans (prefix_line (by decide) hstatus)
      · have hversion : ascii "HTTP/" <+: ascii "HTTP/1.1 200 " := ⟨ascii "1.1 200 ", by decide⟩
        exact hversion.trans (prefix_line (by decide) hstatus)
    rw [hlines, scan_cons, scanLine_status hline, Option.bind_some]
    unfold scan
    rw [List.foldlM_append]
    cases lines.foldlM scanLine none with
    | none => rfl
    | some known => rfl
  constructor
  · rintro ⟨hstatus, hplain, hdeclares⟩
    exact ⟨hstatus, (hscan hstatus).symm.trans (scan_none.mpr ⟨hplain, hdeclares⟩)⟩
  · rintro ⟨hstatus, hlength⟩
    obtain ⟨hplain, hdeclares⟩ := scan_none.mp ((hscan hstatus).trans hlength)
    exact ⟨hstatus, hplain, hdeclares⟩

/-- There is room for the copy of the block that goes to the server. -/
def Room (bytes : List UInt8) (c : Client) : Prop :=
  (compactTx c).tx.length + 8 + bytes.length ≤ EAF_LMS_TX_BYTES

/-- The room hangs on the queue alone. -/
theorem room_queue {bytes : List UInt8} {d : Client} (h : Room bytes c) (htx : d.tx = c.tx)
    (hsent : d.txSent = c.txSent) : Room bytes d := by
  have hqueue : (compactTx d).tx = (compactTx c).tx := by
    unfold compactTx
    simp only [htx, hsent]
    split_ifs
    · rfl
    · exact htx
  unfold Room
  rw [hqueue]
  exact h

theorem enqueue_room (opcode : List UInt8) {body : List UInt8} (h : Room body c) :
    (enqueue opcode body c).1 = EAF_OK := by
  unfold Room at h
  unfold enqueue
  simp only
  rw [if_neg (by omega)]

theorem status_iff {bytes : List UInt8} {text : String} (h : (ascii text).length = 13) :
    bytes.take 13 = ascii text ↔ ascii text <+: bytes := by
  rw [List.prefix_iff_eq_take, h]
  exact eq_comm

/-- `headers` on a block: it is accepted exactly if it is good, and then its length is known. -/
theorem headers_block (hheader : c.header = block.bytes) (hc : Knows c none)
    (hroom : Room block.bytes c) :
    (∀ length, Acceptable block.bytes length → (headers c).1 = EAF_OK ∧
      (headers c).2.headersDone = true ∧ Knows (headers c).2 length) ∧
    ((∀ length, ¬Acceptable block.bytes length) → (headers c).1 ≠ EAF_OK ∧
      (headers c).2.headersDone = c.headersDone) ∧
    (headers c).2.ingress = c.ingress := by
  obtain ⟨line, rest, lines, hsplit, hfields⟩ := fields_of_firstEnd _ le_rfl block.ends
  simp only [acceptable_iff hsplit hfields, ← status_iff (rfl : (ascii "HTTP/1.0 200 ").length = 13),
    ← status_iff (rfl : (ascii "HTTP/1.1 200 ").length = 13)]
  have hrun : headers c = if block.bytes.take 13 ≠ ascii "HTTP/1.0 200 " ∧
      block.bytes.take 13 ≠ ascii "HTTP/1.1 200 " then ( EAF_IO, c)
    else andThen (lineRun lines (noteStatus c)) fun c =>
      enqueue (ascii "RESP") c.header (completeHeader c) := by
    unfold headers
    rw [hheader, hsplit, ← headerLines_run hfields (fields_length hfields)]
  rw [hrun]
  clear hrun
  by_cases hstatus : block.bytes.take 13 ≠ ascii "HTTP/1.0 200 " ∧
      block.bytes.take 13 ≠ ascii "HTTP/1.1 200 "
  · rw [if_pos hstatus]
    refine ⟨?_, fun _ => ⟨io_ne, rfl⟩, rfl⟩
    rintro length ⟨hgood | hgood, -⟩
    · exact absurd hgood hstatus.1
    · exact absurd hgood hstatus.2
  rw [if_neg hstatus]
  have hgood : block.bytes.take 13 = ascii "HTTP/1.0 200 " ∨
      block.bytes.take 13 = ascii "HTTP/1.1 200 " := by
    by_contra hneither
    exact hstatus (not_or.mp hneither)
  have hknows : Knows (noteStatus c) none := ⟨hc.hasLength, hc.remaining⟩
  have hrun := lineRun_scan hknows lines
  have halike := lineRun_alike lines (noteStatus c)
  generalize lineRun lines (noteStatus c) = r at hrun halike
  unfold andThen
  cases hscan : scan none lines with
  | none =>
    rw [hscan] at hrun
    rw [if_neg hrun]
    exact ⟨fun length h => (nomatch h.2), fun _ => ⟨hrun, halike.headersDone⟩, halike.ingress⟩
  | some length =>
    rw [hscan] at hrun
    rw [if_pos hrun.1]
    have hheader' : r.2.header = block.bytes := halike.header.trans hheader
    have hroom' : Room r.2.header (completeHeader r.2) := by
      rw [hheader']
      exact room_queue hroom halike.tx halike.txSent
    have hok := enqueue_room (ascii "RESP") hroom'
    rcases enqueue_cases (c := completeHeader r.2) (ascii "RESP") r.2.header with
      ⟨-, hsession⟩ | ⟨hfailed, -⟩
    · refine ⟨?_, ?_, ?_⟩
      · rintro length' ⟨-, hlength⟩
        cases hlength
        refine ⟨hok, ?_, ?_, ?_⟩
        · rw [hsession]
          rfl
        · rw [hsession]
          exact hrun.2.hasLength
        · rw [hsession]
          exact hrun.2.remaining
      · intro hnone
        exact absurd ⟨hgood, rfl⟩ (hnone length)
      · rw [hsession]
        exact halike.ingress
    · exact absurd (hfailed.symm.trans hok) io_ne

/-! ## The bytes -/

theorem headerEnds_iff {header : List UInt8} : headerEnds header = true ↔ CRLFCRLF <:+ header := by
  unfold headerEnds
  rw [beq_iff_eq, List.suffix_iff_eq_drop]
  exact eq_comm

/-- A byte of the block that is not its last one. -/
theorem inside_block {seen rest : List UInt8} {b : UInt8} (h : block.bytes = seen ++ b :: rest) :
    ¬(seen.length = EAF_LMS_MAX_PACKET ∨ b = 0) ∧ (headerEnds (seen ++ [b]) = true ↔ rest = []) := by
  have hfits := block.fits
  have hmem : b ∈ block.bytes := by
    rw [h]
    exact List.mem_append_right _ List.mem_cons_self
  have hsplit : block.bytes = (seen ++ [b]) ++ rest := by
    rw [h, List.append_assoc, List.singleton_append]
  refine ⟨?_, ?_⟩
  · rintro (hfull | hzero)
    · rw [h, List.length_append, List.length_cons] at hfits
      omega
    · exact block.nonul b hmem hzero
  · rw [headerEnds_iff]
    constructor
    · intro hends
      have hwhole := block.ends.first _ ⟨rest, hsplit.symm⟩ hends
      rw [hsplit] at hwhole
      exact List.append_right_eq_self.mp hwhole.symm
    · rintro rfl
      rw [List.append_nil] at hsplit
      rw [← hsplit]
      exact block.ends.ends

/-- What the client awaits: it has seen a part of a header. -/
structure Awaiting (seen : List UInt8) (c : Client) : Prop where
  header : c.header = seen
  headersDone : c.headersDone = false
  hasLength : c.hasLength = false

/-- Bytes that end inside of the block are kept for the header. -/
theorem headerBytes_inside {seen chunk rest : List UInt8} (hc : Awaiting seen c)
    (h : block.bytes = seen ++ (chunk ++ rest)) (hrest : rest ≠ []) :
    headerBytes chunk c = (EAF_OK, [], { c with header := seen ++ chunk }) := by
  induction chunk generalizing seen c with
  | nil =>
    rw [headerBytes, List.append_nil, ← hc.header]
  | cons b chunk ih =>
    obtain ⟨hgood, hends⟩ := inside_block h
    have hnot : ¬headerEnds (seen ++ [b]) = true := by
      rw [hends]
      exact fun hnil => hrest (List.append_eq_nil_iff.mp hnil).2
    rw [headerBytes, if_neg (by rw [hc.headersDone]; decide), hc.header, if_neg hgood,
      if_neg hnot]
    have hnext : Awaiting (seen ++ [b]) (addHeader b c) :=
      ⟨by rw [← hc.header]; rfl, hc.headersDone, hc.hasLength⟩
    rw [ih hnext (by rw [h, List.append_assoc, List.singleton_append, List.cons_append]),
      List.append_assoc, List.singleton_append]
    rfl

/-- The bytes with the end of the block: the header is read, and the rest is for the body. -/
theorem headerBytes_end {seen tail : List UInt8} (body : List UInt8) (hc : Awaiting seen c)
    (h : block.bytes = seen ++ tail) (htail : tail ≠ []) :
    headerBytes (tail ++ body) c =
      ((headers { c with header := block.bytes }).1, body,
        (headers { c with header := block.bytes }).2) := by
  induction tail generalizing seen c with
  | nil => exact absurd rfl htail
  | cons b tail ih =>
    obtain ⟨hgood, hends⟩ := inside_block h
    have hadd : (addHeader b c) = { c with header := seen ++ [b] } := by
      rw [← hc.header]
      rfl
    rw [List.cons_append, headerBytes, if_neg (by rw [hc.headersDone]; decide), hc.header,
      if_neg hgood]
    cases tail with
    | nil =>
      rw [if_pos (hends.mpr rfl), hadd, ← h]
      simp only [List.nil_append]
      by_cases hrc : (headers { c with header := block.bytes }).1 = EAF_OK
      · have hdone : (headers { c with header := block.bytes }).2.headersDone = true := by
          rw [headers_ok hrc]
          rfl
        rw [if_neg (not_not.mpr hrc), headerBytes_done body hdone, hrc]
      · rw [if_pos hrc]
    | cons b' tail =>
      have hnot : ¬headerEnds (seen ++ [b]) = true := by
        rw [hends]
        exact List.cons_ne_nil _ _
      rw [if_neg hnot]
      have hnext : Awaiting (seen ++ [b]) (addHeader b c) :=
        ⟨by rw [hadd], hc.headersDone, hc.hasLength⟩
      rw [ih hnext (by rw [h, List.append_assoc, List.singleton_append]) (List.cons_ne_nil _ _)]
      rfl

/-- A chunk that ends inside of the block. -/
theorem receiveBody_inside {seen chunk rest : List UInt8} (hc : Awaiting seen c)
    (h : block.bytes = seen ++ (chunk ++ rest)) (hrest : rest ≠ []) :
    (receiveBody chunk c).1 = EAF_OK ∧ Awaiting (seen ++ chunk) (receiveBody chunk c).2 ∧
      (receiveBody chunk c).2.ingress = c.ingress := by
  have hcount : Awaiting seen (countReceived chunk.length c) :=
    ⟨hc.header, hc.headersDone, hc.hasLength⟩
  unfold receiveBody
  rw [headerBytes_inside hcount h hrest]
  exact ⟨rfl, ⟨rfl, hc.headersDone, hc.hasLength⟩, rfl⟩

/-- The chunk with the end of the block. -/
theorem receiveBody_end {seen tail : List UInt8} (body : List UInt8) (hc : Awaiting seen c)
    (h : block.bytes = seen ++ tail) (htail : tail ≠ []) (hroom : Room block.bytes c) :
    (∀ length, Acceptable block.bytes length → ∃ d, receiveBody (tail ++ body) c =
      ingressFill body d ∧ d.headersDone = true ∧ Knows d length ∧ d.ingress = c.ingress) ∧
    ((∀ length, ¬Acceptable block.bytes length) → (receiveBody (tail ++ body) c).1 ≠ EAF_OK ∧
      (receiveBody (tail ++ body) c).2.headersDone = false ∧
      (receiveBody (tail ++ body) c).2.ingress = c.ingress) := by
  have hcount : Awaiting seen (countReceived (tail ++ body).length c) :=
    ⟨hc.header, hc.headersDone, hc.hasLength⟩
  have hroom' : Room block.bytes
      { countReceived (tail ++ body).length c with header := block.bytes } :=
    room_queue hroom rfl rfl
  obtain ⟨haccept, hreject, hring⟩ := headers_block
    (c := { countReceived (tail ++ body).length c with header := block.bytes }) rfl
    ⟨hc.hasLength, nofun⟩ hroom'
  unfold receiveBody
  rw [headerBytes_end body hcount h htail]
  generalize headers { countReceived (tail ++ body).length c with header := block.bytes } = r at *
  refine ⟨fun length hgood => ?_, fun hbad => ?_⟩
  · obtain ⟨hok, hdone, hknows⟩ := haccept length hgood
    simp only [hok, ne_eq, not_true_eq_false, if_false]
    exact ⟨_, rfl, hdone, ⟨hknows.hasLength, hknows.remaining⟩, hring⟩
  · obtain ⟨hrc, hdone⟩ := hreject hbad
    simp only [hrc, ne_eq, not_false_eq_true, if_true]
    exact ⟨trivial, hdone.trans hc.headersDone, hring⟩

end Block

/-! ## Any cut -/

/-- Nothing was done to the header. -/
structure Still (s d : Session) : Prop where
  header : d.header = s.header
  headersDone : d.headersDone = s.headersDone
  hasLength : d.hasLength = s.hasLength

theorem Still.refl (s : Session) : Still s s := ⟨rfl, rfl, rfl⟩

theorem Still.trans {s m d : Session} (h : Still s m) (h' : Still m d) : Still s d :=
  ⟨h'.header.trans h.header, h'.headersDone.trans h.headersDone, h'.hasLength.trans h.hasLength⟩

/-- What the client does between two reads of the socket. -/
structure Pause where
  run : Client → Client
  still : ∀ c, Still c.toSession (run c).toSession

/-- The pause that leaves nothing of a client but its header. -/
def Pause.onto (d : Client) : Pause where
  run c := { d with header := c.header, headersDone := c.headersDone, hasLength := c.hasLength }
  still _ := ⟨rfl, rfl, rfl⟩

theorem Pause.onto_run {c d : Client} (h : Still c.toSession d.toSession) :
    (Pause.onto d).run c = d := by
  unfold Pause.onto
  simp only [← h.header, ← h.headersDone, ← h.hasLength]

/-- A chunk that the socket gives, behind a pause. -/
structure Part where
  pause : Pause
  chunk : List UInt8

/-- The chunks one after another. -/
def receiveAll : List Part → Client → Rc × Client
  | [], c => (EAF_OK, c)
  | part :: parts, c => andThen (receiveBody part.chunk (part.pause.run c)) (receiveAll parts)

/-! ## The reads of `pump_http` -/

section Reads

variable (env : Env) {c : Client}

/-- The client read nothing, or a chunk behind a pause. -/
def Reads (c : Client) (r : Rc × Client) : Prop :=
  ∃ d : Client, Still c.toSession d.toSession ∧ (r.2 = d ∨ ∃ chunk, r = receiveBody chunk d)

theorem reads_none {r : Rc × Client} (h : Still c.toSession r.2.toSession) : Reads c r :=
  ⟨r.2, h, .inl rfl⟩

theorem reads_andThen {r : Rc × Client} {next : Client → Rc × Client}
    (h : Still c.toSession r.2.toSession) (hnext : ∀ d, Reads d (next d)) :
    Reads c (andThen r next) := by
  unfold andThen
  split
  · obtain ⟨d, hstill, hread⟩ := hnext r.2
    exact ⟨d, h.trans hstill, hread⟩
  · exact reads_none h

theorem serviceBuffered_still : Still c.toSession (serviceBuffered env c).2.toSession := by
  obtain ⟨ready, released, done, es, hsession⟩ := @serviceBuffered_served env c
  rw [hsession]
  exact ⟨rfl, rfl, rfl⟩

theorem flushPcm_still : Still c.toSession (flushPcm env c).2.toSession := by
  obtain ⟨sent, prefill, es, hsession⟩ := @flushPcm_session env c
  rw [hsession]
  exact ⟨rfl, rfl, rfl⟩

theorem refill_still : Still c.toSession (refill env c).2.toSession := by
  unfold refill
  simp only
  split_ifs
  · have hdecoded : Still c.toSession (setProgress (ingressDecode (clearPcm c))).toSession :=
      ⟨rfl, rfl, rfl⟩
    exact hdecoded.trans (flushPcm_still env)
  · exact ⟨rfl, rfl, rfl⟩
  · exact .refl _

theorem callEof_still : Still c.toSession (callEof c).toSession := by
  unfold callEof
  rw [tcpClose_http]
  split_ifs <;> exact ⟨rfl, rfl, rfl⟩

theorem finishInput_still : Still c.toSession (finishInput env c).2.toSession := by
  unfold finishInput
  split_ifs
  · exact .refl _
  · exact callEof_still.trans (serviceBuffered_still env)
  · obtain ⟨es, hsession⟩ := @status_session env (callEof c) (ascii "STMd") 0
    refine callEof_still.trans ?_
    rw [hsession]
    exact ⟨rfl, rfl, rfl⟩

theorem sendRequest_still : Still c.toSession (sendRequest env c).2.toSession := by
  unfold sendRequest
  simp only
  split_ifs <;> exact ⟨rfl, rfl, rfl⟩

theorem receiveHttp_reads : Reads c (receiveHttp env c) := by
  unfold receiveHttp
  simp only
  split_ifs
  · exact reads_none ⟨rfl, rfl, rfl⟩
  · exact reads_none ⟨rfl, rfl, rfl⟩
  · exact reads_none ⟨rfl, rfl, rfl⟩
  · exact reads_none ⟨rfl, rfl, rfl⟩
  · exact ⟨(tcpRecv env .http _ (setStage .httpRecv c)).2.2, ⟨rfl, rfl, rfl⟩, .inr ⟨_, rfl⟩⟩

theorem pumpBody_reads : Reads c (pumpBody env c) := by
  unfold pumpBody
  apply reads_andThen (flushPcm_still env)
  intro d
  apply reads_andThen (refill_still env)
  intro d
  split_ifs
  · exact reads_none (finishInput_still env)
  · exact reads_none (.refl _)
  · exact reads_none (sendRequest_still env)
  · exact receiveHttp_reads env

/-- A call of `pump_http` is a pause, and then it reads a chunk or nothing. -/
theorem pumpHttp_pause (c : Client) : ∃ pause : Pause, (pumpHttp env c).2 = pause.run c ∨
    ∃ chunk, pumpHttp env c = receiveBody chunk (pause.run c) := by
  have hreads : Reads c (pumpHttp env c) := by
    unfold pumpHttp
    split
    · exact reads_none (.refl _)
    apply reads_andThen (serviceBuffered_still env)
    intro d
    split_ifs
    · exact reads_none (.refl _)
    · exact reads_none (.refl _)
    · obtain ⟨ready, released, done, es, hsession⟩ := @announceReady_served env d
      apply reads_none
      rw [hsession]
      exact ⟨rfl, rfl, rfl⟩
    · exact reads_none (.refl _)
    · exact pumpBody_reads env
  obtain ⟨d, hstill, hread⟩ := hreads
  refine ⟨.onto d, ?_⟩
  rw [Pause.onto_run hstill]
  exact hread

end Reads

/-! ## The response -/

theorem awaiting_pause {seen : List UInt8} {c : Client} (h : Awaiting seen c) (pause : Pause) :
    Awaiting seen (pause.run c) :=
  ⟨(pause.still c).header.trans h.header, (pause.still c).headersDone.trans h.headersDone,
    (pause.still c).hasLength.trans h.hasLength⟩

/-- The chunks in front of the end of the block. -/
theorem receiveAll_inside {block : HeaderBlock} {parts : List Part} {seen rest : List UInt8}
    {c : Client} (hc : Awaiting seen c)
    (h : block.bytes = seen ++ (parts.flatMap Part.chunk ++ rest)) (hrest : rest ≠ []) :
    ∃ d, receiveAll parts c = (EAF_OK, d) ∧ Awaiting (seen ++ parts.flatMap Part.chunk) d := by
  induction parts generalizing seen c with
  | nil => exact ⟨c, rfl, by rw [List.flatMap_nil, List.append_nil]; exact hc⟩
  | cons part parts ih =>
    rw [List.flatMap_cons, List.append_assoc] at h
    obtain ⟨hok, hnext, -⟩ := receiveBody_inside (awaiting_pause hc part.pause) h
      (List.append_ne_nil_of_right_ne_nil _ hrest)
    obtain ⟨d, hrun, hd⟩ := ih hnext (by rw [h, List.append_assoc])
    refine ⟨d, ?_, ?_⟩
    · unfold receiveAll andThen
      rw [if_pos hok]
      exact hrun
    · rw [List.flatMap_cons, ← List.append_assoc]
      exact hd

/-- However the socket cuts a response, its header is kept as it comes, and no byte of it goes to
the ring. With its end, and room for the copy that goes to the server, a good header is accepted
with exactly the length that it declares, and the rest is for the body. Any other header ends in an
error, before a byte of the body is in the ring. -/
theorem header_decides (block : HeaderBlock) {parts : List Part} {tail : List UInt8}
    (body : List UInt8) (hparts : block.bytes = parts.flatMap Part.chunk ++ tail)
    (htail : tail ≠ []) {c : Client} (hc : Awaiting [] c) (last : Pause) :
    (∀ before part after, parts = before ++ part :: after → ∃ d,
      receiveAll before c = (EAF_OK, d) ∧
      (receiveBody part.chunk (part.pause.run d)).1 = EAF_OK ∧
      (receiveBody part.chunk (part.pause.run d)).2.ingress = (part.pause.run d).ingress) ∧
    ∃ d, receiveAll parts c = (EAF_OK, d) ∧ (Room block.bytes (last.run d) →
      (∀ length, Acceptable block.bytes length → ∃ e,
        receiveBody (tail ++ body) (last.run d) = ingressFill body e ∧ e.headersDone = true ∧
          Knows e length ∧ e.ingress = (last.run d).ingress) ∧
      ((∀ length, ¬Acceptable block.bytes length) →
        (receiveBody (tail ++ body) (last.run d)).1 ≠ EAF_OK ∧
        (receiveBody (tail ++ body) (last.run d)).2.headersDone = false ∧
        (receiveBody (tail ++ body) (last.run d)).2.ingress = (last.run d).ingress)) := by
  refine ⟨?_, ?_⟩
  · rintro before part after rfl
    have hbytes : block.bytes = [] ++ (before.flatMap Part.chunk ++
        (part.chunk ++ (after.flatMap Part.chunk ++ tail))) := by
      rw [hparts, List.flatMap_append, List.flatMap_cons]
      simp only [List.append_assoc, List.nil_append]
    have hrest := List.append_ne_nil_of_right_ne_nil (after.flatMap Part.chunk) htail
    obtain ⟨d, hrun, hd⟩ := receiveAll_inside hc hbytes
      (List.append_ne_nil_of_right_ne_nil part.chunk hrest)
    obtain ⟨hok, -, hring⟩ := receiveBody_inside (awaiting_pause hd part.pause)
      (by rw [hbytes, List.append_assoc]) hrest
    exact ⟨d, hrun, hok, hring⟩
  · obtain ⟨d, hrun, hd⟩ := receiveAll_inside hc (by rw [hparts, List.nil_append]) htail
    refine ⟨d, hrun, fun hroom => ?_⟩
    exact receiveBody_end body (awaiting_pause hd last) (by rw [hparts]; rfl) htail hroom

/-- A header with a length, in a case of its own. -/
def fiveBytes : HeaderBlock where
  bytes := ascii "HTTP/1.1 200 OK\r\nCONTENT-length:\t5 \r\n\r\n"
  nonul := by decide +kernel
  fits := by decide +kernel
  ends := by
    refine ⟨by decide +kernel, fun before hbefore hends => ?_⟩
    have hall : ∀ before ∈ (ascii "HTTP/1.1 200 OK\r\nCONTENT-length:\t5 \r\n\r\n").inits,
        CRLFCRLF <:+ before → before = ascii "HTTP/1.1 200 OK\r\nCONTENT-length:\t5 \r\n\r\n" := by
      decide +kernel
    exact hall before ((List.mem_inits _ _).mpr hbefore) hends

def noPause : Pause := ⟨id, fun _ => .refl _⟩

theorem acceptable_fiveBytes : Acceptable fiveBytes.bytes (some 5) := by
  have hlines : linesOf fiveBytes.bytes = ascii "HTTP/1.1 200 OK" ::
      ascii "CONTENT-length:\t5 " :: [[], []] := by
    rw [linesOf_split (rfl : splitLine fiveBytes.bytes = some (ascii "HTTP/1.1 200 OK", _)),
      linesOf_fields (.line rfl (by decide) .done)]
    rfl
  refine ⟨.inr (by decide +kernel), ?_, ?_⟩
  · rw [hlines]
    unfold Plain Named
    decide +kernel
  · rw [hlines]
    unfold Declares Named
    refine ⟨[ascii "HTTP/1.1 200 OK"], _, [[], []], rfl, by decide +kernel, ?_, by decide +kernel⟩
    exact contentLength_decimal.mp (by decide +kernel)

/-- The header comes in two chunks, the second of which goes on with the body. -/
theorem header_decides_fiveBytes : ∃ c, clientInit legacyOutput = .ok c ∧ ∃ d e,
    receiveAll [⟨noPause, ascii "HTTP/1.1 2"⟩] c = (EAF_OK, d) ∧
    receiveBody (ascii "00 OK\r\nCONTENT-length:\t5 \r\n\r\n" ++ [1, 2, 3, 4, 5]) d =
      ingressFill [1, 2, 3, 4, 5] e ∧ Knows e (some 5) := by
  obtain ⟨c, hc⟩ : ∃ c, clientInit legacyOutput = .ok c := ⟨_, rfl⟩
  have hawaits : Awaiting [] c := by
    cases hc
    exact ⟨rfl, rfl, rfl⟩
  have hparts : fiveBytes.bytes = [⟨noPause, ascii "HTTP/1.1 2"⟩].flatMap Part.chunk ++
      ascii "00 OK\r\nCONTENT-length:\t5 \r\n\r\n" := by decide +kernel
  obtain ⟨-, d, hrun, hend⟩ := header_decides fiveBytes [1, 2, 3, 4, 5] hparts (by decide +kernel)
    hawaits noPause
  have hroom : Room fiveBytes.bytes d := by
    obtain rfl : _ = d := congrArg Prod.snd hrun
    cases hc
    unfold Room
    decide +kernel
  obtain ⟨e, hread, -, hknows, -⟩ := (hend hroom).1 (some 5) acceptable_fiveBytes
  exact ⟨c, hc, d, e, hrun, hread, hknows⟩

end EmbeddedAudio.Lms
