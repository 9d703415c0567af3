-- Every move of a stream keeps the law of the log and leaves the stream where
-- its course has it.
import EmbeddedAudio.LmsCourse

namespace EmbeddedAudio.Lms

open Storage Log Groups

theorem Matches.keep {stream : Stream} {s d : Session} (h : Matches stream s)
    (hformat : d.format = s.format) (hwidth : d.width = s.width)
    (hbig : d.bigEndian = s.bigEndian) : Matches stream d :=
  ⟨h.supported, hformat.trans h.format, hwidth.trans h.width, hbig.trans h.bigEndian⟩

@[simp] theorem framesOf_nil (stream : Stream) : framesOf stream [] = [] := by simp [framesOf]

/-! ## The response -/

theorem splitHeader_none {seen first : List UInt8} (h : splitHeader seen first = none)
    (more : List UInt8) : splitHeader seen (first ++ more) = splitHeader (seen ++ first) more := by
  induction first generalizing seen with
  | nil => rw [List.nil_append, List.append_nil]
  | cons b first ih =>
    unfold splitHeader at h
    by_cases hends : headerEnds (seen ++ [b]) = true
    · rw [if_pos hends] at h
      cases h
    · rw [if_neg hends] at h
      rw [List.cons_append, splitHeader, if_neg hends, ih h, List.append_assoc]
      rfl

theorem splitHeader_some {seen first header body : List UInt8}
    (h : splitHeader seen first = some (header, body)) (more : List UInt8) :
    splitHeader seen (first ++ more) = some (header, body ++ more) := by
  induction first generalizing seen with
  | nil => cases h
  | cons b first ih =>
    unfold splitHeader at h
    rw [List.cons_append, splitHeader]
    by_cases hends : headerEnds (seen ++ [b]) = true
    · rw [if_pos hends] at h ⊢
      cases h
      rfl
    · rw [if_neg hends] at h ⊢
      exact ih h

theorem bodyOf_some {received header body : List UInt8}
    (h : splitHeader [] received = some (header, body)) : bodyOf received = body := by
  unfold bodyOf
  rw [h]

theorem bodyOf_none {received : List UInt8} (h : splitHeader [] received = none) :
    bodyOf received = [] := by
  unfold bodyOf
  rw [h]

theorem bodyOf_append {received header body : List UInt8}
    (h : splitHeader [] received = some (header, body)) (more : List UInt8) :
    bodyOf (received ++ more) = body ++ more := bodyOf_some (splitHeader_some h more)

/-! ## The decoder -/

section Decoder

variable {width channels : Nat} {bigEndian : Bool} {ingress tail : List UInt8} {pcm : List Frame}

/-- The decoder takes whole frames off the bytes that it is given. -/
theorem decodeLoop_whole (htail : tail.length < width * channels) :
    ∃ whole, tail ++ ingress = whole ++
        ((decodeLoop width channels bigEndian ingress tail pcm).2.1 ++
          (decodeLoop width channels bigEndian ingress tail pcm).1) ∧
      width * channels ∣ whole.length ∧
      (decodeLoop width channels bigEndian ingress tail pcm).2.2 =
        pcm ++ (groups (width * channels) whole).map (frameOf width channels bigEndian) ∧
      (decodeLoop width channels bigEndian ingress tail pcm).2.1.length < width * channels := by
  induction ingress generalizing tail pcm with
  | nil => exact ⟨[], rfl, Nat.dvd_zero _, by simp [decodeLoop], htail⟩
  | cons b ingress ih =>
    unfold decodeLoop
    by_cases hroom : pcm.length < EAF_LMS_PCM_FRAMES
    · simp only [hroom, if_true]
      have hpos : 0 < width * channels := Nat.lt_of_le_of_lt (Nat.zero_le _) htail
      have hnext : tail ++ b :: ingress = (tail ++ [b]) ++ ingress := by simp
      by_cases hpart : (tail ++ [b]).length ≠ width * channels
      · rw [if_pos hpart]
        have hshort : (tail ++ [b]).length < width * channels := by
          rw [List.length_append, List.length_singleton] at hpart ⊢
          omega
        rw [hnext]
        exact ih hshort
      · -- the frame is complete
        rw [if_neg hpart]
        obtain ⟨whole, hbytes, hwhole, hframes, hleft⟩ :=
          @ih [] (pcm ++ [frameOf width channels bigEndian (tail ++ [b])]) (by simpa using hpos)
        have hfull : (tail ++ [b]).length = width * channels := not_not.mp hpart
        refine ⟨(tail ++ [b]) ++ whole, ?_, ?_, ?_, hleft⟩
        · rw [List.nil_append] at hbytes
          rw [hnext, List.append_assoc (tail ++ [b]), ← hbytes]
        · rw [List.length_append, hfull]
          exact Nat.dvd_add (Nat.dvd_refl _) hwhole
        · rw [hframes, groups_append (Dvd.intro 1 (by rw [hfull, Nat.mul_one])),
            groups_one hpos hfull]
          simp
    · simp only [hroom, if_false]
      exact ⟨[], rfl, Nat.dvd_zero _, by simp, htail⟩

end Decoder

/-! ## Moves between streams -/

section Moves

variable {s d : Session} {e : Event}

theorem tracked_quiet {es : List Event} (h : Tracked s) (hquiet : ∀ e ∈ es, quiet e = true) :
    Tracked (s.add es) := by
  have hcourse := @course_quiet s.log es hquiet
  refine ⟨lawfulLog_quiet h.lawful hquiet, fun hs => ?_, fun hs => ?_, fun hs => ?_⟩
  · rw [add_log, hcourse]
    exact h.idle hs
  · rw [add_log, hcourse]
    have hf := h.follows hs
    exact { hf with }
  · rw [add_log, hcourse]
    have hc := h.carries hs
    exact { hc with matching := hc.matching.keep rfl rfl rfl }

/-- A stream that stays idle. -/
theorem tracked_idle (h : Tracked s) (hs : s.streaming = false) (hd : d.streaming = false)
    (hlog : d.log = s.log) : Tracked d := by
  refine ⟨?_, fun _ => ?_, fun hd' => ?_, fun hd' => ?_⟩
  · rw [hlog]
    exact h.lawful
  · rw [hlog]
    exact h.idle hs
  · rw [hd] at hd'
    cases hd'
  · rw [hd] at hd'
    cases hd'

/-- The events of an output that is not running, in the end. -/
theorem tracked_stopped (hlawful : LawfulLog d.log) (hd : d.streaming = false)
    (hcourse : (course d.log).running = false) : Tracked d := by
  refine ⟨hlawful, fun _ => hcourse, fun hd' => ?_, fun hd' => ?_⟩
  · rw [hd] at hd'
    cases hd'
  · rw [hd] at hd'
    cases hd'

theorem tracked_refused (h : Tracked s) (hs : s.streaming = false) (he : refused e = true) :
    Tracked (s.add [e]) := by
  have hrunning := h.idle hs
  have hnext : Lawful (course s.log) e ∧ (course s.log).next e = course s.log := by
    cases e with
    | start format rc =>
      simp only [refused, bne_iff_ne, ne_eq] at he
      exact ⟨hrunning, if_neg he⟩
    | startBuffered format request rc limits =>
      simp only [refused, bne_iff_ne, ne_eq] at he
      exact ⟨hrunning, if_neg he⟩
    | _ => cases he
  refine tracked_stopped (lawfulLog_snoc h.lawful hnext.1) hs ?_
  rw [add_log, course_snoc, hnext.2]
  exact hrunning

theorem tracked_misstart (h : Tracked s) (hs : s.streaming = false) (format : Format)
    (request : BufferRequest) (limits : BufferLimits) :
    Tracked (s.add [.startBuffered format request EAF_OK limits, .stop]) := by
  have hstart : LawfulLog (s.log ++ [.startBuffered format request EAF_OK limits]) :=
    lawfulLog_snoc h.lawful (h.idle hs)
  have hsplit : (s.add [.startBuffered format request EAF_OK limits, .stop]).log =
      s.log ++ [.startBuffered format request EAF_OK limits] ++ [.stop] := by simp
  refine tracked_stopped ?_ hs ?_
  · rw [hsplit]
    apply lawfulLog_snoc hstart
    rw [course_snoc]
    rfl
  · rw [hsplit, course_snoc]
    rfl

theorem tracked_stop (h : Tracked s) (hs : s.streaming = true) (hd : Fresh d)
    (hlog : d.log = s.log ++ [.stop]) : Tracked d := by
  refine tracked_stopped ?_ hd.streaming ?_
  · rw [hlog]
    exact lawfulLog_snoc h.lawful (h.follows hs).running
  · rw [hlog, course_snoc]
    rfl

theorem frameBytes_pos {stream : Stream} (h : streamSupported stream = true) :
    0 < frameBytes stream := by
  unfold frameBytes digitOf
  have hchannels : stream.channels = 0x31 ∨ stream.channels = 0x32 := by
    simp only [streamSupported, Bool.and_eq_true, Bool.or_eq_true, beq_iff_eq] at h
    exact h.1.1.1.1.2
  rcases hchannels with h | h <;> rw [h] <;> simp

/-- A start that the client takes for one. -/
theorem lawful_starts (hs : Starts s e) {t : Course} (ht : t.running = false) : Lawful t e := by
  unfold Starts at hs
  split at hs
  · obtain ⟨request, rfl⟩ := hs
    exact ht
  · rw [hs]
    exact ht

theorem next_starts (hs : Starts s e) (t : Course) : t.next e =
    { noCourse with
      running := true
      buffered := s.bufferedOutput
      limits := if s.bufferedOutput then s.bufferLimits else zeroLimits } := by
  unfold Starts at hs
  by_cases hbuffered : s.bufferedOutput = true
  · rw [if_pos hbuffered] at hs
    obtain ⟨request, rfl⟩ := hs
    rw [hbuffered]
    rfl
  · rw [if_neg hbuffered] at hs
    rw [hs, Bool.eq_false_iff.mpr hbuffered]
    rfl

theorem tracked_start {stream : Stream} (h : Tracked s) (hfresh : Fresh s)
    (hopen : s.httpOpen = true) (hstarts : Starts s e) (hmatch : Matches stream s) :
    Tracked ((opened stream s).add [e, .opened stream s.ingress]) := by
  have hrunning := h.idle hfresh.streaming
  have hsplit : ((opened stream s).add [e, .opened stream s.ingress]).log =
      s.log ++ [e] ++ [.opened stream s.ingress] := by simp [opened]
  have hcourse : course ((opened stream s).add [e, .opened stream s.ingress]).log =
      { noCourse with
        running := true
        buffered := s.bufferedOutput
        limits := if s.bufferedOutput then s.bufferLimits else zeroLimits
        stream := stream
        ring := s.ingress
        cont := 0x32 ≤ stream.autostart
        start := stream.autostart == 0x30 || stream.autostart == 0x32 } := by
    rw [hsplit, course_snoc, course_snoc, next_starts hstarts]
    rfl
  refine ⟨?_, fun hs => (by cases hs), fun _ => ?_, fun _ => ?_⟩
  · rw [hsplit]
    apply lawfulLog_snoc (lawfulLog_snoc h.lawful (lawful_starts hstarts hrunning))
    rw [course_snoc, next_starts hstarts]
    exact ⟨rfl, rfl⟩
  · rw [hcourse]
    refine ⟨rfl, rfl, fun hbuffered => if_pos hbuffered, rfl, rfl, hfresh.ready.symm,
      hfresh.started.symm, hfresh.released.symm, hfresh.released.symm, hfresh.paused.symm,
      hfresh.inputEof.symm, ?_, fun _ => hfresh.prefill, fun _ => hfresh.released, ?_⟩
    · have hdone : (if s.bufferedOutput then s.eofSent else s.inputEof) = false := by
        rw [hfresh.eofSent, hfresh.inputEof, ite_self]
      exact hdone.symm
    · have hclosed : s.httpOpen = !s.inputEof := by
        rw [hopen, hfresh.inputEof]
        rfl
      exact hclosed
  · rw [hcourse]
    refine ⟨hmatch.keep rfl rfl rfl,
      fun _ => ⟨rfl, rfl, hfresh.bodyDone, rfl⟩, fun hdone => (by cases hdone), fun hdone => ?_,
      fun hdone => (by cases hdone), fun hfinished => (by cases hfinished), ?_,
      frameBytes_pos hmatch.supported, [], ?_, Nat.dvd_zero _, ?_⟩
    · have hnone : s.bodyDone = true := hdone
      rw [hfresh.bodyDone] at hnone
      cases hnone
    · have hsent : s.pcmSent ≤ s.pcm.length := by
        rw [hfresh.pcmSent]
        exact Nat.zero_le _
      exact hsent
    · exact List.append_nil _
    · have hnone : s.pcm.drop s.pcmSent = [] := by rw [hfresh.pcm, List.drop_nil]
      exact (List.nil_append _).trans (hnone.trans (framesOf_nil stream).symm)

end Moves

/-! ## Moves of a stream -/

section Stream

variable {s d : Session} {e : Event}

theorem tracked_event (h : Tracked s) (hd : d.streaming = true) (hlog : d.log = s.log ++ [e])
    (hlaw : Lawful (course s.log) e) (hf : Follows ((course s.log).next e) d)
    (hc : Carries ((course s.log).next e) d) : Tracked d := by
  refine ⟨?_, fun hd' => ?_, fun _ => ?_, fun _ => ?_⟩
  · rw [hlog]
    exact lawfulLog_snoc h.lawful hlaw
  · rw [hd] at hd'
    cases hd'
  · rw [hlog, course_snoc]
    exact hf
  · rw [hlog, course_snoc]
    exact hc

theorem tracked_continued (h : Tracked s) (hs : s.streaming = true) :
    Tracked ({ s with waitCont := false }.add [.continued]) := by
  have hf := h.follows hs
  have hc := h.carries hs
  refine tracked_event h hs rfl trivial ?_ ?_
  · exact { hf with cont := rfl }
  · exact { hc with matching := hc.matching.keep rfl rfl rfl }

theorem tracked_unpause (h : Tracked s) (hs : s.streaming = true) (hcont : s.waitCont = false)
    (hstart : s.waitStart = true) :
    Tracked ({ s with waitStart := false, outputPaused := false }.add
      [.unpaused s.outputPaused]) := by
  have hf := h.follows hs
  have hc := h.carries hs
  have hlaw : Lawful (course s.log) (.unpaused s.outputPaused) :=
    ⟨hf.running, hf.cont.trans hcont, hf.start.trans hstart, hf.released.trans (hf.holds hstart),
      hf.paused⟩
  refine tracked_event h hs rfl hlaw ?_ ?_
  · exact { hf with start := rfl, paused := rfl, holds := fun hwait => (by cases hwait) }
  · exact { hc with matching := hc.matching.keep rfl rfl rfl }

theorem tracked_pause (h : Tracked s) (hs : s.streaming = true) (paused : Bool) :
    Tracked ({ s with outputPaused := paused }.add [.pause paused EAF_OK]) := by
  have hf := h.follows hs
  have hc := h.carries hs
  refine tracked_event h hs rfl trivial ?_ ?_
  · exact { hf with paused := rfl }
  · exact { hc with matching := hc.matching.keep rfl rfl rfl }

/-- A STAT packet tells of one event only. -/
theorem next_stat {body : List UInt8} {event : String} (hbody : body.take 4 = ascii event)
    (t : Course) : t.next (.queued (ascii "STAT") body) =
      { t with
        ready := t.ready || ascii event == ascii "STMl"
        started := t.started || ascii event == ascii "STMs"
        done := t.done || ascii event == ascii "STMd" } := by
  simp only [Course.next, isStat_queued hbody]

theorem stat_names : ascii "STMl" ≠ ascii "STMs" ∧ ascii "STMl" ≠ ascii "STMd" ∧
    ascii "STMs" ≠ ascii "STMd" := by decide

theorem next_ready {body : List UInt8} (hbody : body.take 4 = ascii "STMl") (t : Course) :
    t.next (.queued (ascii "STAT") body) = { t with ready := true } := by
  obtain ⟨hls, hld, -⟩ := stat_names
  rw [next_stat hbody]
  simp [hls, hld]

theorem next_started {body : List UInt8} (hbody : body.take 4 = ascii "STMs") (t : Course) :
    t.next (.queued (ascii "STAT") body) = { t with started := true } := by
  obtain ⟨hls, -, hsd⟩ := stat_names
  rw [next_stat hbody]
  simp [hls.symm, hsd]

theorem next_done {body : List UInt8} (hbody : body.take 4 = ascii "STMd") (t : Course) :
    t.next (.queued (ascii "STAT") body) = { t with done := true } := by
  obtain ⟨-, hld, hsd⟩ := stat_names
  rw [next_stat hbody]
  simp [hld.symm, hsd.symm]

theorem tracked_ready (h : Tracked s) (he : isStat "STMl" e = true) (hs : s.streaming = true)
    (hcont : s.waitCont = false) (hstart : s.waitStart = true) (hready : s.readySent = false)
    (hprefill : s.bufferedOutput = true → Prefilled s) :
    Tracked ({ s with readySent := true }.add [e]) := by
  have hf := h.follows hs
  have hc := h.carries hs
  obtain ⟨body, rfl, hbody⟩ := isStat_elim he
  have hnext := next_ready hbody (course s.log)
  refine tracked_event h hs rfl ⟨fun _ => ?_, fun hst => ?_, fun hd => ?_⟩ ?_ ?_
  · refine ⟨hf.running, hf.cont.trans hcont, hf.start.trans hstart, hf.ready.trans hready,
      fun hbuffered => ?_⟩
    rw [hf.buffered] at hbuffered
    have hheld : held s = true := by simp [held, hbuffered, hf.holds hstart]
    unfold Course.Prefilled
    rw [hf.limits hbuffered, hf.ended, ← hf.prefill hheld]
    exact hprefill hbuffered
  · rw [isStat_queued hbody] at hst
    exact absurd hst (by decide)
  · rw [isStat_queued hbody] at hd
    exact absurd hd (by decide)
  · rw [hnext]
    exact { hf with ready := rfl }
  · rw [hnext]
    exact { hc with matching := hc.matching.keep rfl rfl rfl }

theorem prefilled_course (hf : Follows (course s.log) s) (hbuffered : s.bufferedOutput = true)
    (hreleased : s.outputReleased = false) (h : Prefilled s) : (course s.log).Prefilled := by
  have hheld : held s = true := by simp [held, hbuffered, hreleased]
  unfold Course.Prefilled
  rw [hf.limits hbuffered, hf.ended, ← hf.prefill hheld]
  exact h

theorem lawful_release (hf : Follows (course s.log) s) (hbuffered : s.bufferedOutput = true)
    (hcont : s.waitCont = false) (hstart : s.waitStart = false) (hpaused : s.outputPaused = false)
    (hreleased : s.outputReleased = false) (h : Prefilled s) (rc : Rc) :
    Lawful (course s.log) (.release rc) :=
  ⟨hf.running, hf.buffered.trans hbuffered, hf.cont.trans hcont, hf.start.trans hstart,
    hf.paused.trans hpaused, hf.asked.trans hreleased, prefilled_course hf hbuffered hreleased h⟩

theorem tracked_release (h : Tracked s) (hs : s.streaming = true)
    (hbuffered : s.bufferedOutput = true) (hcont : s.waitCont = false)
    (hstart : s.waitStart = false) (hpaused : s.outputPaused = false)
    (hreleased : s.outputReleased = false) (hprefilled : Prefilled s) :
    Tracked ({ s with outputReleased := true }.add [.release EAF_OK]) := by
  have hf := h.follows hs
  have hc := h.carries hs
  refine tracked_event h hs rfl
    (lawful_release hf hbuffered hcont hstart hpaused hreleased hprefilled _) ?_ ?_
  · refine { hf with asked := rfl, released := ?_, prefill := fun hheld => ?_, holds := fun hwait => ?_ }
    · exact Bool.or_true _
    · have hnone : held { s with outputReleased := true } = true := hheld
      simp [held] at hnone
    · have hwait' : s.waitStart = true := hwait
      rw [hstart] at hwait'
      cases hwait'
  · exact { hc with matching := hc.matching.keep rfl rfl rfl }

theorem tracked_done (h : Tracked s) (he : isStat "STMd" e = true) (hs : s.streaming = true)
    (hbuffered : s.bufferedOutput = true) (heof : s.inputEof = true)
    (hreleased : s.outputReleased = true) (hdone : s.eofSent = false) :
    Tracked ({ s with eofSent := true }.add [e]) := by
  have hf := h.follows hs
  have hc := h.carries hs
  obtain ⟨body, rfl, hbody⟩ := isStat_elim he
  have hnext := next_done hbody (course s.log)
  refine tracked_event h hs rfl ⟨fun hl => ?_, fun hst => ?_, fun _ => ?_⟩ ?_ ?_
  · rw [isStat_queued hbody] at hl
    exact absurd hl (by decide)
  · rw [isStat_queued hbody] at hst
    exact absurd hst (by decide)
  · have hnot : (course s.log).done = false := by rw [hf.done, if_pos hbuffered, hdone]
    exact ⟨hf.running, hf.ended.trans heof, hnot, fun _ => hf.released.trans hreleased⟩
  · rw [hnext]
    refine { hf with done := ?_ }
    have hset : (if s.bufferedOutput then true else s.inputEof) = true := if_pos hbuffered
    exact hset.symm
  · rw [hnext]
    exact { hc with matching := hc.matching.keep rfl rfl rfl }

theorem tracked_play (h : Tracked s) (he : isStat "STMs" e = true) (hs : s.streaming = true)
    (hcont : s.waitCont = false) (hstart : s.waitStart = false) (hplayed : s.startedSent = false) :
    Tracked ({ s with startedSent := true }.add [e]) := by
  have hf := h.follows hs
  have hc := h.carries hs
  obtain ⟨body, rfl, hbody⟩ := isStat_elim he
  have hnext := next_started hbody (course s.log)
  refine tracked_event h hs rfl ⟨fun hl => ?_, fun _ => ?_, fun hd => ?_⟩ ?_ ?_
  · rw [isStat_queued hbody] at hl
    exact absurd hl (by decide)
  · exact ⟨hf.running, hf.cont.trans hcont, hf.start.trans hstart, hf.started.trans hplayed⟩
  · rw [isStat_queued hbody] at hd
    exact absurd hd (by decide)
  · rw [hnext]
    exact { hf with started := rfl }
  · rw [hnext]
    exact { hc with matching := hc.matching.keep rfl rfl rfl }

/-! ## Moves of its bytes -/

theorem open_of_gate (hf : Follows (course s.log) s) (hgate : ¬ Gated s)
    (hdone : s.headersDone = true) : (course s.log).Open := by
  refine ⟨?_, fun hbuffered => ?_⟩
  · rw [hf.cont]
    by_contra hcont
    exact hgate ⟨hdone, Or.inl (Bool.eq_false_iff.not_left.mp hcont)⟩
  · rw [hf.buffered] at hbuffered
    rw [hf.start]
    by_contra hstart
    exact hgate ⟨hdone, Or.inr ⟨hbuffered, Bool.eq_false_iff.not_left.mp hstart⟩⟩

theorem not_ended {t : Course} (hf : Follows t s) (hopen : s.httpOpen = true) :
    s.inputEof = false := by
  have hclosed := hf.httpOpen
  rw [hopen] at hclosed
  simpa using hclosed.symm

theorem lawful_eof (h : Tracked s) (hd : Drained s) : Lawful (course s.log) .eof := by
  have hf := h.follows hd.streaming
  have hc := h.carries hd.streaming
  obtain ⟨hdone, hleft, hfinished⟩ := hc.bodyDone hd.bodyDone
  obtain ⟨hsplit, hlength, hremaining⟩ := hc.headed hdone
  obtain ⟨whole, hbytes, hwhole, hframes⟩ := hc.decoded
  rw [hd.tail, hd.ingress, List.append_nil, List.append_nil] at hbytes
  rw [hd.pcm, List.drop_length, List.append_nil] at hframes
  refine ⟨hf.running, hc.matching.supported, ?_, open_of_gate hf hd.gate hdone,
    ⟨s.header, _, hsplit, ?_⟩, ?_, ?_⟩
  · rw [hf.ended]
    exact not_ended hf hd.httpOpen
  · rcases hdeclared : declaredLength s.header with _ | n
    · apply hfinished
      rw [hlength, hdeclared]
      rfl
    · have hzero : s.remaining = 0 := by
        apply hleft
        rw [hlength, hdeclared]
        rfl
      have hsum := hremaining n hdeclared
      rw [hzero, Nat.zero_add] at hsum
      exact hsum
  · rw [hbytes]
    exact hwhole
  · rw [hbytes]
    exact hframes

theorem tracked_finish (h : Tracked s) (hd : Drained s) (hbuffered : s.bufferedOutput = true) :
    Tracked ({ s with inputEof := true, httpOpen := false }.add [.eof, .closed .http]) := by
  have hf := h.follows hd.streaming
  have hc := h.carries hd.streaming
  have hdone : (course s.log).done = if s.bufferedOutput then s.eofSent else true := by
    rw [hf.done, if_pos hbuffered, if_pos hbuffered]
  have hfinish : Tracked ({ s with inputEof := true, httpOpen := false }.add [.eof]) := by
    refine tracked_event h hd.streaming rfl (lawful_eof h hd) ?_ ?_
    · exact { hf with ended := rfl, done := hdone, httpOpen := rfl }
    · exact { hc with matching := hc.matching.keep rfl rfl rfl }
  have hclosed := @tracked_quiet _ [.closed .http] hfinish (by simp [quiet])
  rw [add_add] at hclosed
  exact hclosed

theorem tracked_finishAll (h : Tracked s) (hd : Drained s) (hbuffered : s.bufferedOutput = false)
    (he : isStat "STMd" e = true) :
    Tracked ({ s with inputEof := true, httpOpen := false }.add [.eof, .closed .http, e]) := by
  have hf := h.follows hd.streaming
  have hc := h.carries hd.streaming
  obtain ⟨body, rfl, hbody⟩ := isStat_elim he
  have hsplit : ({ s with inputEof := true, httpOpen := false }.add
      [.eof, .closed .http, .queued (ascii "STAT") body]).log =
        s.log ++ [.eof] ++ [.closed .http] ++ [.queued (ascii "STAT") body] := by simp
  have hclosed : course (s.log ++ [.eof] ++ [.closed .http]) =
      { course s.log with ended := true } := by
    rw [course_snoc, course_snoc]
    rfl
  have hnext : (course (s.log ++ [.eof] ++ [.closed .http])).next (.queued (ascii "STAT") body) =
      { course s.log with ended := true, done := true } := by
    rw [hclosed, next_done hbody]
  have hnot := not_ended hf hd.httpOpen
  refine ⟨?_, fun hs => ?_, fun _ => ?_, fun _ => ?_⟩
  · rw [hsplit]
    refine lawfulLog_snoc (lawfulLog_snoc (lawfulLog_snoc h.lawful (lawful_eof h hd)) trivial) ?_
    rw [hclosed]
    refine ⟨fun hl => ?_, fun hst => ?_, fun _ => ?_⟩
    · rw [isStat_queued hbody] at hl
      exact absurd hl (by decide)
    · rw [isStat_queued hbody] at hst
      exact absurd hst (by decide)
    · have hdone : (course s.log).done = false := by
        rw [hf.done, if_neg (by simp [hbuffered]), hnot]
      have hlegacy : (course s.log).buffered = false := hf.buffered.trans hbuffered
      refine ⟨hf.running, rfl, hdone, fun hheld => ?_⟩
      have hheld' : (course s.log).buffered = true := hheld
      rw [hlegacy] at hheld'
      cases hheld'
  · have hs' : s.streaming = false := hs
    rw [hd.streaming] at hs'
    cases hs'
  · rw [hsplit, course_snoc, hnext]
    have hset : (if s.bufferedOutput then s.eofSent else true) = true := if_neg (by simp [hbuffered])
    exact { hf with ended := rfl, done := hset.symm, httpOpen := rfl }
  · rw [hsplit, course_snoc, hnext]
    exact { hc with matching := hc.matching.keep rfl rfl rfl }

theorem lawful_pcm (h : Tracked s) (hs : s.streaming = true) (hgate : ¬ Gated s)
    (hleft : s.pcmSent < s.pcm.length) (wrote : Nat) :
    Lawful (course s.log) (.pcm (s.pcm.drop s.pcmSent) wrote) := by
  have hf := h.follows hs
  have hc := h.carries hs
  obtain ⟨whole, hbytes, hwhole, hframes⟩ := hc.decoded
  refine ⟨hf.running, hc.matching.supported, ?_, ?_, fun hsome => ?_⟩
  · intro hnone
    have hlength := List.drop_eq_nil_iff.mp hnone
    omega
  · rw [hframes, hbytes]
    exact (groups_leading (List.prefix_append _ _)).map _
  · apply open_of_gate hf hgate
    by_contra hdone
    exact hsome (hc.headless (Bool.eq_false_iff.mpr hdone)).1

theorem tracked_offer (h : Tracked s) (hs : s.streaming = true) (hgate : ¬ Gated s)
    (hleft : s.pcmSent < s.pcm.length) {wrote : Nat} (hwrote : wrote ≤ s.pcm.length - s.pcmSent) :
    Tracked ({ s with
      pcmSent := s.pcmSent + wrote
      prefillFrames := if held s then s.prefillFrames + wrote else s.prefillFrames }.add
        [.pcm (s.pcm.drop s.pcmSent) wrote]) := by
  have hf := h.follows hs
  have hc := h.carries hs
  refine tracked_event h hs rfl (lawful_pcm h hs hgate hleft wrote) ?_ ?_
  · refine { hf with prefill := fun hheld => ?_ }
    have hheld' : held s = true := hheld
    have hcount : ((course s.log).accepted ++ (s.pcm.drop s.pcmSent).take wrote).length =
        s.prefillFrames + wrote := by
      rw [List.length_append, List.length_take, List.length_drop, Nat.min_eq_left hwrote,
        ← hf.prefill hheld']
    have hset : (if held s then s.prefillFrames + wrote else s.prefillFrames) =
        s.prefillFrames + wrote := if_pos hheld'
    exact hset.trans hcount.symm
  · obtain ⟨whole, hbytes, hwhole, hframes⟩ := hc.decoded
    have hsent : s.pcmSent + wrote ≤ s.pcm.length := by omega
    refine { hc with
      matching := hc.matching.keep rfl rfl rfl
      pcmSent := hsent
      decoded := ⟨whole, hbytes, hwhole, ?_⟩ }
    have hsplit : (course s.log).accepted ++ (s.pcm.drop s.pcmSent).take wrote ++
        s.pcm.drop (s.pcmSent + wrote) = (course s.log).accepted ++ s.pcm.drop s.pcmSent := by
      rw [List.append_assoc, ← List.drop_drop, List.take_append_drop]
    exact hsplit.trans hframes

theorem frameBytes_session {stream : Stream} (h : Matches stream s) :
    s.width * s.format.numChannels = frameBytes stream := by
  rw [h.width, h.format]
  rfl

theorem framesOf_session {stream : Stream} (h : Matches stream s) (bytes : List UInt8) :
    (groups (frameBytes stream) bytes).map
      (frameOf s.width s.format.numChannels s.bigEndian) = framesOf stream bytes := by
  rw [h.width, h.format, h.bigEndian]
  rfl

theorem tracked_decode (h : Tracked s) (hs : s.streaming = true)
    (hall : s.pcmSent = s.pcm.length) : Tracked (decoded s) := by
  have hf := h.follows hs
  have hc := h.carries hs
  have hbytes := frameBytes_session hc.matching
  have htail := hc.tail
  rw [← hbytes] at htail
  obtain ⟨more, hmore, hdvd, hpcm, hshort⟩ :=
    @decodeLoop_whole s.width s.format.numChannels s.bigEndian s.ingress s.tail [] htail
  rw [hbytes] at hdvd hpcm hshort
  rw [framesOf_session hc.matching, List.nil_append] at hpcm
  obtain ⟨whole, hring, hwhole, hframes⟩ := hc.decoded
  rw [hall, List.drop_length, List.append_nil] at hframes
  refine ⟨h.lawful, h.idle, fun _ => { hf with }, fun _ => ?_⟩
  refine { hc with
    matching := hc.matching.keep rfl rfl rfl
    pcmSent := Nat.zero_le _
    tail := hshort
    decoded := ⟨whole ++ more, ?_, ?_, ?_⟩ }
  · rw [hmore, ← List.append_assoc] at hring
    exact hring
  · rw [List.length_append]
    exact Nat.dvd_add hwhole hdvd
  · have hjoined : framesOf (course s.log).stream (whole ++ more) =
        framesOf (course s.log).stream whole ++ framesOf (course s.log).stream more := by
      unfold framesOf
      rw [groups_append hwhole, List.map_append]
    have hdecoded : (course s.log).accepted ++
        (decodeLoop s.width s.format.numChannels s.bigEndian s.ingress s.tail []).2.2 =
          framesOf (course s.log).stream (whole ++ more) := by
      rw [hjoined, hframes, hpcm]
    exact hdecoded

/-! ## Moves of the response -/

/-- More of the body goes to the ring, behind a header that is complete. -/
theorem carries_filled {u : Course} {body data whole : List UInt8} (hmatch : Matches u.stream s)
    (hdone : s.headersDone = true)
    (hsplit : splitHeader [] u.received = some (s.header, body ++ data))
    (hlength : s.hasLength = (declaredLength s.header).isSome)
    (hremaining : ∀ n, declaredLength s.header = some n → s.remaining + body.length = n)
    (hbody : s.bodyDone = true → s.hasLength = true ∧ s.remaining = 0)
    (hfull : s.hasLength = true → s.remaining = 0 → s.bodyDone = true)
    (hfinished : u.finished = false) (hsent : s.pcmSent ≤ s.pcm.length)
    (hfits : s.hasLength = true → data.length ≤ s.remaining)
    (htail : s.tail.length < frameBytes u.stream)
    (hring : u.ring ++ body = whole ++ (s.tail ++ s.ingress))
    (hwhole : frameBytes u.stream ∣ whole.length)
    (hframes : u.accepted ++ s.pcm.drop s.pcmSent = framesOf u.stream whole) :
    Carries u (filled data s) := by
  have hbodyOf := bodyOf_some hsplit
  refine ⟨hmatch.keep rfl rfl rfl, fun hnone => ?_, fun _ => ⟨?_, hlength, fun n hn => ?_⟩,
    fun hall => ?_, fun _ hhas hzero => ?_, fun hend => ?_, hsent, htail, whole, ?_, hwhole,
    hframes⟩
  · have hnone' : s.headersDone = false := hnone
    rw [hdone] at hnone'
    cases hnone'
  · rw [hbodyOf]
    exact hsplit
  · have hn' : declaredLength s.header = some n := hn
    have hset : s.hasLength = true := by
      rw [hlength, hn']
      rfl
    have hleft : (filled data s).remaining = s.remaining - data.length := if_pos hset
    have hroom := hfits hset
    have hsum := hremaining n hn
    rw [hbodyOf, hleft, List.length_append]
    omega
  · have hset : s.hasLength = true ∧ s.remaining - data.length = 0 := by
      have hall' : (if s.hasLength && data != [] then s.remaining - data.length == 0
          else s.bodyDone) = true := hall
      by_cases hmore : (s.hasLength && data != []) = true
      · rw [if_pos hmore] at hall'
        simp only [Bool.and_eq_true] at hmore
        exact ⟨hmore.1, by simpa using hall'⟩
      · rw [if_neg hmore] at hall'
        obtain ⟨hhas, hzero⟩ := hbody hall'
        exact ⟨hhas, by rw [hzero, Nat.zero_sub]⟩
    refine ⟨hdone, fun _ => ?_, fun hnone => ?_⟩
    · exact (if_pos hset.1).trans hset.2
    · have hnone' : s.hasLength = false := hnone
      rw [hset.1] at hnone'
      cases hnone'
  · have hset : s.hasLength = true := hhas
    have hzero' : (if s.hasLength then s.remaining - data.length else s.remaining) = 0 := hzero
    rw [if_pos hset] at hzero'
    have hgoal : (if s.hasLength && data != [] then s.remaining - data.length == 0
        else s.bodyDone) = true := by
      by_cases hmore : data = []
      · subst hmore
        rw [if_neg (by simp)]
        exact hfull hset hzero'
      · rw [if_pos (by simp [hset, hmore]), hzero']
        rfl
    exact hgoal
  · rw [hfinished] at hend
    cases hend
  · rw [hbodyOf, ← List.append_assoc, hring]
    simp [filled]

theorem carries_arrived {t u : Course} {data : List UInt8} (hc : Carries t s)
    (hbody : s.bodyDone = false) (hfits : Fits data s) (hstream : u.stream = t.stream)
    (hring : u.ring = t.ring) (haccepted : u.accepted = t.accepted)
    (hfinished : u.finished = t.finished) (hreceived : u.received = t.received ++ data) :
    Carries u (arrived data s) := by
  obtain ⟨whole, hbytes, hwhole, hframes⟩ := hc.decoded
  have hmatch := hc.matching
  have htail := hc.tail
  rw [← hstream] at hmatch htail hwhole hframes
  rw [← hring] at hbytes
  rw [← haccepted] at hframes
  have hnone : s.bodyDone = true → s.hasLength = true ∧ s.remaining = 0 := by
    intro hfull
    rw [hbody] at hfull
    cases hfull
  have hnot : u.finished = false := by
    rw [hfinished]
    by_contra hend
    have hfull := hc.finished (Bool.eq_false_iff.not_left.mp hend)
    rw [hbody] at hfull
    cases hfull
  unfold Fits at hfits
  unfold arrived
  by_cases hdone : s.headersDone = true
  · rw [if_pos hdone] at hfits ⊢
    obtain ⟨hsplit, hlength, hremaining⟩ := hc.headed hdone
    have hmore := splitHeader_some hsplit data
    rw [← hreceived] at hmore
    exact carries_filled hmatch hdone hmore hlength hremaining hnone (hc.full hdone) hnot hc.pcmSent
      hfits htail hbytes hwhole hframes
  · rw [if_neg hdone] at hfits ⊢
    obtain ⟨hsplit, hheader, -, hlength⟩ := hc.headless (Bool.eq_false_iff.mpr hdone)
    have hmore := splitHeader_none hsplit data
    rw [List.nil_append, ← hreceived, ← hheader] at hmore
    rw [bodyOf_none hsplit] at hbytes
    rcases hfound : splitHeader s.header data with _ | ⟨header, rest⟩
    · -- the header is not complete yet
      rw [hfound] at hmore
      refine ⟨hmatch.keep rfl rfl rfl, fun _ => ⟨hmore, ?_, hbody, hlength⟩,
        fun hdone' => absurd hdone' hdone, fun hfull => ?_, fun hdone' => absurd hdone' hdone,
        fun hend => ?_, hc.pcmSent, htail, whole, ?_, hwhole, hframes⟩
      · rw [hreceived, hheader]
      · have hfull' : s.bodyDone = true := hfull
        rw [hbody] at hfull'
        cases hfull'
      · rw [hnot] at hend
        cases hend
      · rw [bodyOf_none hmore]
        exact hbytes
    · rw [hfound] at hmore
      refine @carries_filled (headed header s) u [] rest whole (hmatch.keep rfl rfl rfl) rfl hmore
        ?_ ?_ ?_ ?_ hnot hc.pcmSent ?_ htail hbytes hwhole hframes
      · exact (congrArg (· || (declaredLength header).isSome) hlength).trans (Bool.false_or _)
      · intro n hn
        have hn' : declaredLength header = some n := hn
        simp [headed, hn']
      · intro hfull
        have hfull' : (s.bodyDone || ((headed header s).hasLength &&
            (headed header s).remaining == 0)) = true := hfull
        rw [hbody, Bool.false_or, Bool.and_eq_true] at hfull'
        exact ⟨hfull'.1, by simpa using hfull'.2⟩
      · intro hhas hzero
        have hall : (s.bodyDone || ((headed header s).hasLength &&
            (headed header s).remaining == 0)) = true := by
          rw [hhas, hzero]
          simp
        exact hall
      · exact hfits header rest hfound

theorem tracked_receive {data : List UInt8} {es : List Event} (h : Tracked s)
    (hs : s.streaming = true) (hbody : s.bodyDone = false) (hfits : Fits data s)
    (hquiet : ∀ e ∈ es, quiet e = true) :
    Tracked ((arrived data s).add (.recv .http EAF_OK data :: es)) := by
  have hf := h.follows hs
  have hc := h.carries hs
  have hkept : ∀ d : Session, d = arrived data s → Follows (course s.log) d ∧
      d.streaming = true ∧ d.log = s.log := by
    intro d hd
    subst hd
    unfold arrived
    split
    · exact ⟨{ hf with }, hs, rfl⟩
    · split
      · exact ⟨{ hf with }, hs, rfl⟩
      · exact ⟨{ hf with }, hs, rfl⟩
  obtain ⟨hfollows, hstreaming, hlog⟩ := hkept _ rfl
  have hreceive : Tracked ((arrived data s).add [.recv .http EAF_OK data]) := by
    have hlog' : ((arrived data s).add [.recv .http EAF_OK data]).log =
        s.log ++ [.recv .http EAF_OK data] := by rw [add_log, hlog]
    refine tracked_event h hstreaming hlog' trivial ?_ ?_
    · have hreceived : Follows ((course s.log).next (.recv .http EAF_OK data)) (arrived data s) :=
        { hfollows with }
      exact { hreceived with }
    · have harrived := @carries_arrived s (course s.log)
        ((course s.log).next (.recv .http EAF_OK data)) data hc hbody hfits rfl rfl rfl
        (Bool.or_false _) rfl
      exact { harrived with matching := harrived.matching.keep rfl rfl rfl }
  have hadded := tracked_quiet hreceive hquiet
  rw [add_add] at hadded
  exact hadded

theorem tracked_exhaust (h : Tracked s) (hs : s.streaming = true) (hdone : s.headersDone = true)
    (hleft : s.hasLength = true → s.remaining = 0) :
    Tracked ({ s with bodyDone := true }.add [.recv .http EAF_EOF []]) := by
  have hf := h.follows hs
  have hc := h.carries hs
  have hsame : (course s.log).next (.recv .http EAF_EOF []) =
      { course s.log with finished := true } := by
    simp [Course.next]
  refine tracked_event h hs rfl trivial ?_ ?_
  · rw [hsame]
    exact { hf with }
  · rw [hsame]
    refine { hc with
      matching := hc.matching.keep rfl rfl rfl
      headless := fun hnone => ?_
      bodyDone := fun _ => ⟨hdone, hleft, fun _ => rfl⟩
      full := fun _ _ _ => rfl
      finished := fun _ => rfl }
    have hnone' : s.headersDone = false := hnone
    rw [hdone] at hnone'
    cases hnone'

/-! ## Giving up -/

theorem lawful_fault {es : List Event} (h : Tracked s) (hfault : Fault s es) :
    LawfulLog (s.log ++ es) ∧ (course (s.log ++ es)).running = s.streaming := by
  have hidle : (course s.log).running = s.streaming := by
    by_cases hs : s.streaming = true
    · rw [(h.follows hs).running, hs]
    · have hs' := Bool.eq_false_iff.mpr hs
      rw [h.idle hs', hs']
  cases hfault with
  | none =>
    rw [List.append_nil]
    exact ⟨h.lawful, hidle⟩
  | release hs hbuffered hcont hstart hpaused hreleased hprefilled hrc =>
    rw [course_snoc]
    exact ⟨lawfulLog_snoc h.lawful (lawful_release (h.follows hs) hbuffered hcont hstart hpaused
      hreleased hprefilled _), hidle⟩
  | offer wrote hs hgate hleft =>
    rw [course_snoc]
    exact ⟨lawfulLog_snoc h.lawful (lawful_pcm h hs hgate hleft wrote), hidle⟩
  | finish hdrained hbuffered =>
    rw [course_snoc]
    exact ⟨lawfulLog_snoc h.lawful (lawful_eof h hdrained), hidle⟩
  | receive data hs hopen =>
    rw [course_snoc]
    exact ⟨lawfulLog_snoc h.lawful trivial, hidle⟩
  | early hs =>
    rw [course_snoc]
    exact ⟨lawfulLog_snoc h.lawful trivial, hidle⟩

theorem tracked_crash {es fs : List Event} (h : Tracked s) (hcrash : Crash s d es fs) :
    Tracked d := by
  obtain ⟨hlawful, hrunning⟩ := lawful_fault h hcrash.fault
  have hquiet := lawfulLog_quiet hlawful hcrash.quiet
  have hcourse := @course_quiet (s.log ++ es) fs hcrash.quiet
  have hlog := hcrash.log
  by_cases hs : s.streaming = true
  · rw [if_pos hs, ← List.append_assoc, ← List.append_assoc] at hlog
    refine tracked_stopped ?_ hcrash.fresh.streaming ?_
    · rw [hlog]
      apply lawfulLog_snoc hquiet
      rw [hcourse]
      exact hrunning.trans hs
    · rw [hlog, course_snoc]
      rfl
  · rw [if_neg hs, List.append_nil, ← List.append_assoc] at hlog
    refine tracked_stopped ?_ hcrash.fresh.streaming ?_
    · rw [hlog]
      exact hquiet
    · rw [hlog, hcourse, hrunning]
      exact Bool.eq_false_iff.mpr hs

end Stream

/-! ## Runs -/

theorem tracked_move {s d : Session} (h : Tracked s) (hmove : Move s d) : Tracked d := by
  cases hmove with
  | quiet he => exact tracked_quiet h (by simpa using he)
  | idle hs hd hlog => exact tracked_idle h hs hd hlog
  | refused hs he => exact tracked_refused h hs he
  | misstart format request limits hs => exact tracked_misstart h hs format request limits
  | start hfresh hopen hstarts hmatch => exact tracked_start h hfresh hopen hstarts hmatch
  | stop hs hd hlog => exact tracked_stop h hs hd hlog
  | continued hs => exact tracked_continued h hs
  | unpause hs hcont hstart => exact tracked_unpause h hs hcont hstart
  | resume hs => exact tracked_pause h hs false
  | pause hs => exact tracked_pause h hs true
  | ready he hs hcont hstart hready hprefill =>
    exact tracked_ready h he hs hcont hstart hready hprefill
  | release hs hbuffered hcont hstart hpaused hreleased hprefilled =>
    exact tracked_release h hs hbuffered hcont hstart hpaused hreleased hprefilled
  | done he hs hbuffered heof hreleased hdone =>
    exact tracked_done h he hs hbuffered heof hreleased hdone
  | finish hd hbuffered => exact tracked_finish h hd hbuffered
  | finishAll hd hbuffered he => exact tracked_finishAll h hd hbuffered he
  | play he hs hcont hstart hplayed => exact tracked_play h he hs hcont hstart hplayed
  | offer wrote hs hgate hleft hwrote => exact tracked_offer h hs hgate hleft hwrote
  | decode hs hall => exact tracked_decode h hs hall
  | receive hs _ hbody hfits hquiet => exact tracked_receive h hs hbody hfits hquiet
  | exhaust hs hdone _ hleft => exact tracked_exhaust h hs hdone hleft

theorem tracked_turns {s d : Session} (h : Tracked s) (hturns : Turns s d) : Tracked d := by
  induction hturns with
  | refl => exact h
  | tail _ hturn ih =>
    rcases hturn with hmove | ⟨es, fs, hcrash⟩
    · exact tracked_move ih hmove
    · exact tracked_crash ih hcrash

theorem tracked_run {callbacks : Callbacks} {c : Client} (h : clientInit callbacks = .ok c)
    (env : Env) (calls : List Call) : Tracked (afterCalls env c calls).toSession := by
  obtain ⟨hfresh, hlog, -⟩ := clientInit_session h
  refine tracked_turns (tracked_stopped ?_ hfresh.streaming ?_) (afterCalls_turns env calls)
  · rw [hlog]
    exact throughout_nil
  · rw [hlog]
    rfl

end EmbeddedAudio.Lms
