-- The stream over HTTP and the calls of the application, as moves.
import EmbeddedAudio.LmsCommands

namespace EmbeddedAudio.Lms

open Storage

/-! ## The header -/

section Header

variable {c : Client} {line text : List UInt8}

theorem contentTypeLine_session : (contentTypeLine line c).toSession = c.toSession := by
  unfold contentTypeLine
  by_cases hkey : key line (ascii "content-type:") = true
  · rw [if_pos hkey]
  · rw [if_neg hkey]

/-- What a header line that is accepted, or is not, leaves of the stream. -/
theorem headerLine_session : ∃ hasLength remaining,
    (headerLine line c).2.toSession =
      { c.toSession with hasLength := hasLength, remaining := remaining } ∧
    ((headerLine line c).1 = EAF_OK → (c.hasLength = true → lengthLine line = none) ∧
      hasLength = (c.hasLength || (lengthLine line).isSome) ∧
      remaining = (lengthLine line).getD c.remaining) := by
  unfold headerLine
  by_cases hcoded : (key line (ascii "transfer-encoding:") || key line (ascii "content-encoding:") ||
      key line (ascii "icy-metaint:")) = true
  · rw [if_pos hcoded]
    exact ⟨c.hasLength, c.remaining, rfl, fun hok => absurd hok unsupported_ne⟩
  rw [if_neg hcoded]
  have hsession := @contentTypeLine_session c line
  generalize contentTypeLine line c = d at hsession
  rw [← hsession]
  unfold contentLengthLine lengthLine
  by_cases hkey : key line (ascii "content-length:") = true
  · rw [if_pos hkey, if_pos hkey]
    by_cases hlength : d.hasLength = true
    · rw [if_pos hlength]
      exact ⟨d.hasLength, d.remaining, rfl, fun hok => absurd hok invalid_ne⟩
    · rw [if_neg hlength]
      rcases contentLength (line.drop 15) with _ | n
      · exact ⟨d.hasLength, d.remaining, rfl, fun hok => absurd hok invalid_ne⟩
      · exact ⟨true, n, rfl, fun _ => ⟨fun h => absurd h hlength, by simp, rfl⟩⟩
  · rw [if_neg hkey, if_neg hkey]
    exact ⟨d.hasLength, d.remaining, rfl, fun _ => ⟨fun _ => rfl, by simp, rfl⟩⟩

theorem headerLines_session (fuel : Nat) : ∃ hasLength remaining,
    (headerLines fuel text c).2.toSession =
      { c.toSession with hasLength := hasLength, remaining := remaining } ∧
    ((headerLines fuel text c).1 = EAF_OK →
      (c.hasLength = true → (headerFields fuel text).findSome? lengthLine = none) ∧
      hasLength = (c.hasLength || ((headerFields fuel text).findSome? lengthLine).isSome) ∧
      remaining = ((headerFields fuel text).findSome? lengthLine).getD c.remaining) := by
  induction fuel generalizing text c with
  | zero => exact ⟨c.hasLength, c.remaining, rfl, fun _ => ⟨fun _ => rfl, by simp [headerFields], rfl⟩⟩
  | succ fuel ih =>
    unfold headerLines headerFields
    by_cases hend : text = [] ∨ text.take 2 = [13, 10]
    · rw [if_pos hend, if_pos hend]
      exact ⟨c.hasLength, c.remaining, rfl, fun _ => ⟨fun _ => rfl, by simp, rfl⟩⟩
    rw [if_neg hend, if_neg hend]
    rcases splitLine text with _ | ⟨line, rest⟩
    · exact ⟨c.hasLength, c.remaining, rfl, fun hok => absurd hok invalid_ne⟩
    simp only [List.findSome?_cons]
    obtain ⟨l, r, hline, hok⟩ := @headerLine_session c line
    unfold andThen
    by_cases hrc : (headerLine line c).1 = EAF_OK
    · rw [if_pos hrc]
      obtain ⟨hone, rfl, rfl⟩ := hok hrc
      obtain ⟨l', r', hlines, hrest⟩ := @ih (headerLine line c).2 rest
      have hlength : (headerLine line c).2.hasLength =
          (c.hasLength || (lengthLine line).isSome) := congrArg Session.hasLength hline
      have hremaining : (headerLine line c).2.remaining =
          (lengthLine line).getD c.remaining := congrArg Session.remaining hline
      refine ⟨l', r', by rw [hlines, hline], fun hok' => ?_⟩
      obtain ⟨hnone, rfl, rfl⟩ := hrest hok'
      rw [hlength, hremaining]
      rw [hlength] at hnone
      rcases hvalue : lengthLine line with _ | n
      · refine ⟨fun h => hnone (by simp [h]), by simp, by simp⟩
      · have hrest := hnone (by simp [hvalue])
        refine ⟨fun h => ?_, by simp [hrest], by simp [hrest]⟩
        have := hone h
        rw [hvalue] at this
        cases this
    · rw [if_neg hrc]
      exact ⟨l, r, hline, fun hok' => absurd hok' hrc⟩

/-- The header is accepted with the fields that it declares, and the server gets a copy. -/
theorem headers_ok (hrc : (headers c).1 = EAF_OK) : (headers c).2.toSession =
    (headed c.header c.toSession).add [.queued (ascii "RESP") c.header] := by
  unfold headers at hrc ⊢
  by_cases hstatus : c.header.take 13 ≠ ascii "HTTP/1.0 200 " ∧
      c.header.take 13 ≠ ascii "HTTP/1.1 200 "
  · rw [if_pos hstatus] at hrc
    exact absurd hrc io_ne
  rw [if_neg hstatus] at hrc ⊢
  rcases hsplit : splitLine c.header with _ | ⟨line, rest⟩
  · simp only [hsplit] at hrc
    exact absurd hrc invalid_ne
  simp only [hsplit] at hrc ⊢
  obtain ⟨l, r, hlines, hok⟩ := @headerLines_session (noteStatus c) rest rest.length
  unfold andThen at hrc ⊢
  by_cases hrc' : (headerLines rest.length rest (noteStatus c)).1 = EAF_OK
  · rw [if_pos hrc'] at hrc ⊢
    obtain ⟨-, hl, hr⟩ := hok hrc'
    rcases enqueue_cases (completeHeader (headerLines rest.length rest (noteStatus c)).2)
      (ascii "RESP") (headerLines rest.length rest (noteStatus c)).2.header with
      ⟨-, hsession⟩ | ⟨hfailed, -⟩
    · have hcomplete :
          (completeHeader (headerLines rest.length rest (noteStatus c)).2).toSession =
            headed c.header c.toSession := by
        generalize (headerLines rest.length rest (noteStatus c)).2 = d at hlines
        have hd : (completeHeader d).toSession =
            { d.toSession with
              headersDone := true
              bodyDone := d.bodyDone || (d.hasLength && d.remaining == 0) } := rfl
        have hlength : declaredLength c.header =
            (headerFields rest.length rest).findSome? lengthLine := by
          unfold declaredLength
          rw [hsplit]
        rw [hd, hlines]
        unfold headed
        rw [hlength]
        subst hl hr
        rfl
      have hheader : (headerLines rest.length rest (noteStatus c)).2.header = c.header := by
        rw [hlines]
        rfl
      rw [hsession, hcomplete, hheader]
    · exact absurd (hfailed.symm.trans hrc) io_ne
  · rw [if_neg hrc'] at hrc
    exact absurd hrc hrc'

/-- What a function that gives up leaves of the stream. -/
structure Kept (s d : Session) : Prop where
  log : d.log = s.log
  streaming : d.streaming = s.streaming

theorem headers_kept (hrc : (headers c).1 ≠ EAF_OK) : Kept c.toSession (headers c).2.toSession := by
  unfold headers at hrc ⊢
  by_cases hstatus : c.header.take 13 ≠ ascii "HTTP/1.0 200 " ∧
      c.header.take 13 ≠ ascii "HTTP/1.1 200 "
  · rw [if_pos hstatus]
    exact ⟨rfl, rfl⟩
  rw [if_neg hstatus] at hrc ⊢
  rcases hsplit : splitLine c.header with _ | ⟨line, rest⟩
  · exact ⟨rfl, rfl⟩
  simp only [hsplit] at hrc ⊢
  obtain ⟨l, r, hlines, -⟩ := @headerLines_session (noteStatus c) rest rest.length
  have hkept : Kept c.toSession (headerLines rest.length rest (noteStatus c)).2.toSession := by
    rw [hlines]
    exact ⟨rfl, rfl⟩
  unfold andThen at hrc ⊢
  by_cases hrc' : (headerLines rest.length rest (noteStatus c)).1 = EAF_OK
  · rw [if_pos hrc'] at hrc ⊢
    rcases enqueue_cases (completeHeader (headerLines rest.length rest (noteStatus c)).2)
      (ascii "RESP") (headerLines rest.length rest (noteStatus c)).2.header with
      ⟨hok, -⟩ | ⟨-, hsession⟩
    · exact absurd hok hrc
    · rw [hsession]
      exact ⟨hkept.log, hkept.streaming⟩
  · rw [if_neg hrc']
    exact hkept

theorem headerBytes_done (data : List UInt8) (hdone : c.headersDone = true) :
    headerBytes data c = (EAF_OK, data, c) := by
  cases data with
  | nil => rfl
  | cons b rest =>
    unfold headerBytes
    rw [if_pos hdone]

/-- The bytes go to the header up to its end, and what is behind it is left for the body. -/
theorem headerBytes_ok {data : List UInt8} (hdone : c.headersDone = false)
    (hrc : (headerBytes data c).1 = EAF_OK) :
    (splitHeader c.header data = none ∧ (headerBytes data c).2.1 = [] ∧
      (headerBytes data c).2.2.toSession = { c.toSession with header := c.header ++ data }) ∨
    ∃ header rest, splitHeader c.header data = some (header, rest) ∧
      (headerBytes data c).2.1 = rest ∧ (headerBytes data c).2.2.toSession =
        (headed header c.toSession).add [.queued (ascii "RESP") header] := by
  induction data generalizing c with
  | nil =>
    left
    refine ⟨rfl, rfl, ?_⟩
    rw [List.append_nil]
    rfl
  | cons b rest ih =>
    unfold headerBytes at hrc ⊢
    rw [if_neg (by simp [hdone])] at hrc ⊢
    by_cases hbad : c.header.length = EAF_LMS_MAX_PACKET ∨ b = 0
    · rw [if_pos hbad] at hrc
      exact absurd hrc invalid_ne
    rw [if_neg hbad] at hrc ⊢
    unfold splitHeader
    by_cases hends : headerEnds (c.header ++ [b]) = true
    · -- the header is complete, and the rest is for the body
      rw [if_pos hends] at hrc ⊢
      rw [if_pos hends]
      right
      by_cases hheaders : (headers (addHeader b c)).1 = EAF_OK
      · have hsession := headers_ok hheaders
        have hcomplete : (headers (addHeader b c)).2.headersDone = true := by
          rw [hsession]
          rfl
        simp only [hheaders, ne_eq, not_true_eq_false, if_false, headerBytes_done rest hcomplete]
        exact ⟨_, _, rfl, rfl, hsession⟩
      · simp only [hheaders, ne_eq, not_false_eq_true, if_true] at hrc
    · rw [if_neg hends] at hrc ⊢
      rw [if_neg hends]
      have hnext := @ih (addHeader b c) hdone hrc
      have hheader : (addHeader b c).header = c.header ++ [b] := rfl
      rw [hheader] at hnext
      rcases hnext with ⟨hsplit, hrest, hsession⟩ | hfound
      · left
        refine ⟨hsplit, hrest, ?_⟩
        rw [hsession, List.append_assoc]
        rfl
      · right
        exact hfound

theorem headerBytes_kept {data : List UInt8} (hrc : (headerBytes data c).1 ≠ EAF_OK) :
    Kept c.toSession (headerBytes data c).2.2.toSession := by
  induction data generalizing c with
  | nil => exact absurd rfl hrc
  | cons b rest ih =>
    unfold headerBytes at hrc ⊢
    by_cases hdone : c.headersDone = true
    · rw [if_pos hdone] at hrc
      exact absurd rfl hrc
    rw [if_neg hdone] at hrc ⊢
    by_cases hbad : c.header.length = EAF_LMS_MAX_PACKET ∨ b = 0
    · rw [if_pos hbad]
      exact ⟨rfl, rfl⟩
    rw [if_neg hbad] at hrc ⊢
    by_cases hends : headerEnds (c.header ++ [b]) = true
    · rw [if_pos hends] at hrc ⊢
      by_cases hheaders : (headers (addHeader b c)).1 = EAF_OK
      · have hcomplete : (headers (addHeader b c)).2.headersDone = true := by
          rw [headers_ok hheaders]
          rfl
        simp only [hheaders, ne_eq, not_true_eq_false, if_false,
          headerBytes_done rest hcomplete] at hrc
      · simp only [hheaders, ne_eq, not_false_eq_true, if_true]
        obtain ⟨hlog, hstreaming⟩ := headers_kept hheaders
        exact ⟨hlog, hstreaming⟩
    · rw [if_neg hends] at hrc ⊢
      obtain ⟨hlog, hstreaming⟩ := ih hrc
      exact ⟨hlog, hstreaming⟩

end Header

/-! ## The ring -/

section Receive

variable {env : Env} {c : Client} {s : Session} {data : List UInt8}

theorem ingressFill_nil : ingressFill [] c = (EAF_OK, c) := if_pos rfl

theorem ingressFill_ok (hrc : (ingressFill data c).1 = EAF_OK) :
    (ingressFill data c).2.toSession = filled data c.toSession ∧
      (c.hasLength = true → data.length ≤ c.remaining) := by
  unfold ingressFill at hrc ⊢
  by_cases hnone : data = []
  · subst hnone
    rw [if_pos rfl]
    simp [filled]
  rw [if_neg hnone] at hrc ⊢
  by_cases hspace : data.length > EAF_LMS_INGRESS_BYTES - c.ingress.length
  · rw [if_pos hspace] at hrc
    exact absurd hrc invalid_ne
  rw [if_neg hspace] at hrc ⊢
  by_cases hlong : (c.hasLength && decide (data.length > c.remaining)) = true
  · rw [if_pos hlong] at hrc
    exact absurd hrc invalid_ne
  rw [if_neg hlong]
  refine ⟨?_, fun hlength => ?_⟩
  · simp [filled, hnone]
  · simpa [hlength] using hlong

theorem ingressFill_kept (hrc : (ingressFill data c).1 ≠ EAF_OK) :
    (ingressFill data c).2 = c := by
  unfold ingressFill at hrc ⊢
  by_cases hnone : data = []
  · rw [if_pos hnone]
  rw [if_neg hnone] at hrc ⊢
  by_cases hspace : data.length > EAF_LMS_INGRESS_BYTES - c.ingress.length
  · rw [if_pos hspace]
  rw [if_neg hspace] at hrc ⊢
  by_cases hlong : (c.hasLength && decide (data.length > c.remaining)) = true
  · rw [if_pos hlong]
  · rw [if_neg hlong] at hrc
    exact absurd rfl hrc

/-! ## Receiving -/

theorem filled_add (es : List Event) : filled data (s.add es) = (filled data s).add es := rfl

theorem headed_add (header : List UInt8) (es : List Event) :
    headed header (s.add es) = (headed header s).add es := rfl

/-- Bytes behind which the client gives up. -/
theorem receive_fails {d : Session} {es : List Event} (hstreaming : s.streaming = true)
    (hopen : s.httpOpen = true) (hquiet : ∀ e ∈ es, quiet e = true)
    (hlog : d.log = s.log ++ (.recv .http EAF_OK data :: es)) (hkept : d.streaming = true) :
    Fails s d := by
  refine ⟨s, _, es, .refl, .receive data hstreaming hopen, hquiet, hlog, ?_, ?_⟩
  · rw [hkept, hstreaming]
  · intro hstopped
    rw [hstreaming] at hstopped
    cases hstopped

theorem quiet_resp (header : List UInt8) :
    ∀ e ∈ [Event.queued (ascii "RESP") header], quiet e = true := by
  have hresp : (ascii "RESP" == ascii "STAT") = false := by decide
  simp [quiet, isStat, hresp]

/-- The body behind the header goes to the ring. -/
theorem fill_goes {d : Session} {rest : List UInt8} {es : List Event}
    (hstreaming : s.streaming = true) (hopen : s.httpOpen = true) (hbody : s.bodyDone = false)
    (hquiet : ∀ e ∈ es, quiet e = true) (harrived : arrived data s = filled rest d)
    (hfits : (d.hasLength = true → rest.length ≤ d.remaining) → Fits data s)
    (hsession : c.toSession = d.add (.recv .http EAF_OK data :: es)) (hlog : d.log = s.log)
    (hkept : d.streaming = s.streaming) : Goes s (ingressFill rest c) where
  ok hrc := by
    obtain ⟨hfill, hlength⟩ := ingressFill_ok hrc
    have hmove := Move.receive hstreaming hopen hbody
      (hfits (by rw [hsession] at hlength; exact hlength)) hquiet
    rw [hfill, hsession, filled_add, ← harrived]
    exact .of hmove
  fails hrc := by
    have hfailed : (d.add (.recv .http EAF_OK data :: es)).log =
        s.log ++ (.recv .http EAF_OK data :: es) := by
      rw [add_log, hlog]
    rw [ingressFill_kept hrc, hsession]
    exact receive_fails hstreaming hopen hquiet hfailed (hkept.trans hstreaming)

theorem receiveBody_goes (hsession : c.toSession = s.add [.recv .http EAF_OK data])
    (hstreaming : s.streaming = true) (hopen : s.httpOpen = true) (hbody : s.bodyDone = false) :
    Goes s (receiveBody data c) := by
  have hcounted : (countReceived data.length c).toSession = s.add [.recv .http EAF_OK data] :=
    hsession
  unfold receiveBody
  generalize countReceived data.length c = d at hcounted
  by_cases hdone : s.headersDone = true
  · have hd : d.headersDone = true := by
      rw [hcounted]
      exact hdone
    simp only [headerBytes_done data hd, ne_eq, not_true_eq_false, if_false]
    refine fill_goes hstreaming hopen hbody (List.forall_mem_nil _) ?_ ?_ hcounted rfl rfl
    · unfold arrived
      rw [if_pos hdone]
    · intro hlength
      unfold Fits
      rw [if_pos hdone]
      exact hlength
  have hd : d.headersDone = false := by
    rw [hcounted]
    exact Bool.eq_false_iff.mpr hdone
  have hheader : d.header = s.header := by
    rw [hcounted]
    rfl
  by_cases hrc : (headerBytes data d).1 = EAF_OK
  · simp only [hrc, ne_eq, not_true_eq_false, if_false]
    have hcases := headerBytes_ok hd hrc
    rw [hheader, hcounted] at hcases
    rcases hcases with ⟨hsplit, hrest, hnext⟩ | ⟨header, rest, hsplit, hrest, hnext⟩
    · -- the header is not complete yet
      have harrived : arrived data s = { s with header := s.header ++ data } := by
        unfold arrived
        rw [if_neg hdone, hsplit]
      have hfits : Fits data s := by
        unfold Fits
        rw [if_neg hdone, hsplit]
        intro header rest hfound
        cases hfound
      have hmove := Move.receive hstreaming hopen hbody hfits (List.forall_mem_nil _)
      rw [harrived] at hmove
      rw [hrest, ingressFill_nil]
      refine goes_ok (.of ?_)
      have hmoved : (setStage .decode (headerBytes data d).2.2).toSession =
          { s with header := s.header ++ data }.add [.recv .http EAF_OK data] := hnext
      rw [hmoved]
      exact hmove
    · have harrived : arrived data s = filled rest (headed header s) := by
        unfold arrived
        rw [if_neg hdone, hsplit]
      have hmoved : (setStage .decode (headerBytes data d).2.2).toSession =
          (headed header s).add
            (.recv .http EAF_OK data :: [.queued (ascii "RESP") header]) := by
        rw [headed_add, add_add] at hnext
        exact hnext
      rw [hrest]
      refine fill_goes hstreaming hopen hbody (quiet_resp header) harrived ?_ hmoved rfl rfl
      intro hlength
      unfold Fits
      rw [if_neg hdone, hsplit]
      intro header' rest' hfound
      cases hfound
      exact hlength
  · simp only [hrc, ne_eq, not_false_eq_true, if_true]
    obtain ⟨hlog, hkept⟩ := headerBytes_kept hrc
    have hfailed : (headerBytes data d).2.2.log = s.log ++ [.recv .http EAF_OK data] := by
      rw [hlog, hcounted]
      rfl
    refine goes_fails hrc (receive_fails hstreaming hopen (List.forall_mem_nil _) hfailed ?_)
    rw [hkept, hcounted]
    exact hstreaming

end Receive

end EmbeddedAudio.Lms
