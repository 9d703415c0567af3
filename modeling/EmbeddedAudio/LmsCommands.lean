-- The commands of the server, as moves of the stream.
import EmbeddedAudio.LmsMoves

namespace EmbeddedAudio.Lms

open Storage

section Commands

variable (env : Env) (c : Client)

/-! ## Stopping -/

theorem tcpClose_control : (tcpClose .control c).toSession =
    c.toSession.add (if c.controlOpen then [.closed .control] else []) := by
  unfold tcpClose
  rcases c.controlOpen with _ | _
  · simp [Session.add]
  · rfl

theorem tcpClose_http : (tcpClose .http c).toSession =
    { c.toSession with httpOpen := false }.add (if c.httpOpen then [.closed .http] else []) := by
  unfold tcpClose
  by_cases hopen : c.httpOpen = true
  · rw [if_pos hopen, if_pos hopen]
    rfl
  · have hclosed : c.httpOpen = false := Bool.eq_false_iff.mpr hopen
    have hsame : { c.toSession with httpOpen := false } = c.toSession := by rw [← hclosed]
    rw [if_neg hopen, if_neg hopen, hsame]
    simp [Session.add]

theorem stopStream_fresh : Fresh (stopStream c).toSession :=
  ⟨rfl, rfl, rfl, rfl, rfl, rfl, rfl, rfl, rfl, rfl, rfl⟩

theorem stopStream_log : (stopStream c).log =
    c.log ++ ((if c.httpOpen then [.closed .http] else []) ++
      if c.streaming then [.stop] else []) := by
  have hlog : (tcpClose .http c).log = c.log ++ if c.httpOpen then [.closed .http] else [] := by
    rw [tcpClose_http]
    rfl
  have hstreaming : (tcpClose .http c).streaming = c.streaming := by
    rw [tcpClose_http]
    rfl
  unfold stopStream
  rw [← List.append_assoc, ← hlog]
  simp only [hstreaming]
  rcases c.streaming with _ | _
  · simp
  · simp [record]

theorem stopStream_ingress : (stopStream c).ingress = c.ingress := by
  have hingress : (tcpClose .http c).ingress = c.ingress := by
    rw [tcpClose_http]
    rfl
  unfold stopStream
  simp only
  rw [← hingress]
  split <;> rfl

theorem stopStream_moves : Moves c.toSession (stopStream c).toSession := by
  have hclosed : Moves c.toSession
      (c.toSession.add (if c.httpOpen then [.closed .http] else [])) := by
    apply moves_quiet
    rcases c.httpOpen with _ | _ <;> simp [quiet]
  apply hclosed.andMove
  rcases hstreaming : c.streaming with _ | _
  · refine .idle hstreaming rfl ?_ (stopStream_ingress c)
    simp [stopStream_log, hstreaming]
  · refine .stop hstreaming (stopStream_fresh c) ?_
    simp [stopStream_log, hstreaming]

/-- Giving up and stopping the stream. -/
theorem crash_turns {s : Session} (h : Fails s c.toSession) :
    Turns s (stopStream c).toSession := by
  obtain ⟨m, es, fs, hm, hfault, hquiet, hlog, hstreaming, hingress⟩ := h
  have hclosed : ∀ e ∈ fs ++ (if c.httpOpen then [.closed .http] else []), quiet e = true := by
    intro e he
    rcases List.mem_append.mp he with hin | hin
    · exact hquiet e hin
    · rcases hopen : c.httpOpen with _ | _ <;> simp [hopen] at hin
      subst hin
      rfl
  refine hm.turns.tail (Or.inr ⟨_, _, hfault, hclosed, stopStream_fresh c, ?_, ?_⟩)
  · intro hstopped
    rw [stopStream_ingress]
    exact hingress hstopped
  · rw [stopStream_log, hlog, hstreaming]
    simp

theorem clientClose_session : (clientClose c).toSession =
    (stopStream c).toSession.add (if c.controlOpen then [.closed .control] else []) := by
  have hopen : (stopStream c).controlOpen = c.controlOpen := by
    unfold stopStream tcpClose
    rcases c.httpOpen with _ | _ <;> rcases hs : c.streaming with _ | _ <;> simp [record, hs]
  have hclose := tcpClose_control (stopStream c)
  rw [hopen] at hclose
  exact hclose

theorem quiet_closed (set : Bool) :
    ∀ e ∈ (if set then [Event.closed .control] else []), quiet e = true := by
  rcases set with _ | _ <;> simp [quiet]

theorem clientClose_moves : Moves c.toSession (clientClose c).toSession := by
  rw [clientClose_session]
  exact (stopStream_moves c).trans (moves_quiet (quiet_closed _))

theorem crashClose_turns {s : Session} (h : Fails s c.toSession) :
    Turns s (clientClose c).toSession := by
  rw [clientClose_session]
  exact (crash_turns c h).trans (Moves.turns (moves_quiet (quiet_closed _)))

/-! ## The commands -/

/-- An event that says nothing of the course of the stream, behind moves. -/
theorem status_after {s : Session} {c : Client} {event : List UInt8} {timestamp : Nat}
    (h : Moves s c.toSession) (hlength : event.length = 4)
    (hquiet : (event == ascii "STMl" || event == ascii "STMs" || event == ascii "STMd") = false) :
    Goes s (status env event timestamp c) :=
  Goes.after h (status_goes env c event timestamp hlength hquiet)

theorem audg_goes (p : List UInt8) : Goes c.toSession (audg env p c) := by
  unfold audg
  by_cases hshort : p.length < 22
  · rw [if_pos hshort]
    exact fails_same rfl (by decide)
  · rw [if_neg hshort]
    by_cases hset : c.callbacks.volume = true
    · rw [if_pos hset]
      have hquiet : quiet (.volume (gainOf p 0) (gainOf p 1)
          (env.volume c.log (gainOf p 0) (gainOf p 1))) = true := rfl
      constructor
      · intro _
        exact .of (.quiet hquiet)
      · intro _
        exact fails_quiet (by simpa using hquiet) rfl rfl (fun _ => rfl)
    · rw [if_neg hset]
      exact goes_ok .refl

theorem cont_goes (p : List UInt8) : Goes c.toSession (cont p c) := by
  unfold cont
  by_cases hshort : p.length < 9
  · rw [if_pos hshort]
    exact fails_same rfl (by decide)
  · rw [if_neg hshort]
    by_cases hnone : (!c.streaming || !c.waitCont) = true
    · rw [if_pos hnone]
      exact goes_ok .refl
    · rw [if_neg hnone]
      by_cases hextra : slice p 4 5 ≠ [0, 0, 0, 0, 0]
      · rw [if_pos hextra]
        exact fails_same rfl (by decide)
      · rw [if_neg hextra]
        simp only [Bool.or_eq_true, Bool.not_eq_true', not_or, Bool.not_eq_false] at hnone
        exact goes_ok (.of (.continued hnone.1 hnone.2))

theorem callPause_rc (paused : Bool) : (callPause env paused c).1 = env.pause c.log paused := rfl

theorem callPause_session (paused : Bool) : (callPause env paused c).2.toSession =
    c.toSession.add [.pause paused (env.pause c.log paused)] := rfl

theorem pauseFails_goes (paused : Bool) (hrc : env.pause c.log paused ≠ EAF_OK) :
    Goes c.toSession (callPause env paused c) := by
  have hquiet : quiet (.pause paused (env.pause c.log paused)) = true := by
    simp [quiet, hrc]
  refine ⟨fun hok => absurd hok hrc, fun _ => ?_⟩
  rw [callPause_session]
  exact fails_quiet (by simpa using hquiet) rfl rfl (fun _ => rfl)

theorem strmU_goes (s : Stream) : Goes c.toSession (strmU env s c) := by
  unfold strmU
  by_cases htime : s.replayGain ≠ 0
  · rw [if_pos htime]
    exact fails_same rfl (by decide)
  · rw [if_neg htime]
    by_cases hnone : (!c.streaming || c.waitCont) = true
    · rw [if_pos hnone]
      exact fails_same rfl (by decide)
    · rw [if_neg hnone]
      simp only [Bool.or_eq_true, Bool.not_eq_true', not_or, Bool.not_eq_false,
        Bool.not_eq_true] at hnone
      unfold unpause
      by_cases hwait : c.waitStart = true
      · rw [if_pos hwait]
        by_cases hready : c.readySent = true
        · -- the start gate opens, and the output counts as resumed
          have hmove : Move c.toSession (setPaused false (openStart c)).toSession :=
            .unpause hnone.1 hnone.2 hwait hready
          rw [if_neg (by simp [hready]), andThen_ok]
          exact status_after env (.of hmove) rfl (by decide)
        · rw [if_pos (by simp [hready])]
          exact fails_same rfl (by decide)
      · rw [if_neg hwait]
        by_cases hset : c.callbacks.pause = true
        · rw [if_neg (by simp [hset])]
          by_cases hrc : env.pause c.log false = EAF_OK
          · have hmove : Move c.toSession (setPaused false (callPause env false c).2).toSession := by
              have hresume := Move.resume hnone.1 hnone.2 (Bool.eq_false_iff.mpr hwait)
              rw [← hrc] at hresume
              exact hresume
            unfold andThen
            rw [callPause_rc, if_pos hrc]
            exact status_after env (.of hmove) rfl (by decide)
          · apply goes_andThen (pauseFails_goes env c false hrc)
            rw [callPause_rc]
            intro hok
            exact absurd hok hrc
        · rw [if_pos (by simp [hset])]
          exact fails_same rfl (by decide)

theorem strmP_goes (s : Stream) : Goes c.toSession (strmP env s c) := by
  unfold strmP
  by_cases hset : (s.replayGain ≠ 0 || !c.callbacks.pause) = true
  · rw [if_pos hset]
    exact fails_same rfl (by decide)
  · rw [if_neg hset]
    by_cases hstreaming : c.streaming = true
    · rw [if_neg (by simp [hstreaming])]
      by_cases hrc : env.pause c.log true = EAF_OK
      · have hmove : Move c.toSession (setPaused true (callPause env true c).2).toSession := by
          have hpause := Move.pause hstreaming
          rw [← hrc] at hpause
          exact hpause
        unfold andThen
        rw [callPause_rc, if_pos hrc]
        exact status_after env (.of hmove) rfl (by decide)
      · apply goes_andThen (pauseFails_goes env c true hrc)
        rw [callPause_rc]
        intro hok
        exact absurd hok hrc
    · rw [if_pos (by simp [hstreaming])]
      exact fails_same rfl (by decide)

/-! ## A new stream -/

/-- What `strm s` leaves as it is behind `stop_stream`, until the output has started. -/
structure Readied (s : Session) (stream : Stream) : Prop where
  fresh : Fresh s
  matching : Matches stream s

theorem configure_readied {stream : Stream} (hsupported : streamSupported stream = true) :
    Readied (configure stream (stopStream c)).toSession stream := by
  refine ⟨⟨rfl, rfl, rfl, rfl, rfl, rfl, rfl, rfl, rfl, rfl, rfl⟩, ⟨hsupported, rfl, rfl, ?_⟩⟩
  rfl

theorem configure_moves (stream : Stream) :
    Moves c.toSession (configure stream (stopStream c)).toSession :=
  (stopStream_moves c).andMove (.idle rfl rfl rfl rfl)

/-- The connection is open, or it is not and nothing else happened. -/
theorem tcpConnect_http (ipv4 port : Nat) : ∃ isOpen,
    (tcpConnect env .http ipv4 port c).2.toSession =
      { c.toSession with httpOpen := isOpen }.add [.connect .http ipv4 port
        (tcpConnect env .http ipv4 port c).1] ∧
    ((tcpConnect env .http ipv4 port c).1 = EAF_OK → isOpen = true) := by
  unfold tcpConnect
  by_cases hrc : env.connect c.log .http ipv4 port ≠ EAF_OK
  · refine ⟨c.httpOpen, ?_, fun hok => absurd hok hrc⟩
    simp only [hrc, if_true, ne_eq, not_false_eq_true]
    rfl
  · refine ⟨true, ?_, fun _ => rfl⟩
    simp only [hrc, if_false]
    rfl

/-- The events of a start that came to nothing. -/
inductive FalseStart (s : Session) : List Event → Prop
  | refused {e : Event} : refused e = true → FalseStart s [e]
  | limits (request : BufferRequest) (limits : BufferLimits) :
      FalseStart s [.startBuffered s.format request EAF_OK limits, .stop]

/-- The output has started, or there is nothing left of the start. -/
theorem startOutput_cases (stream : Stream) : ∃ buffered limits es,
    (startOutput env stream c).2.toSession =
      { c.toSession with bufferedOutput := buffered, bufferLimits := limits }.add es ∧
    ((startOutput env stream c).1 = EAF_OK → ∃ e, es = [e] ∧
      Starts { c.toSession with bufferedOutput := buffered, bufferLimits := limits } e) ∧
    ((startOutput env stream c).1 ≠ EAF_OK → FalseStart c.toSession es) := by
  by_cases hbuffered : c.callbacks.startBuffered = true
  · rcases hcall : env.startBuffered c.log c.format (requestOf stream c.width) with ⟨rc, limits⟩
    by_cases hrc : rc = EAF_OK
    · subst hrc
      by_cases hvalid : limitsValid limits = true
      · refine ⟨true, limits, [.startBuffered c.format (requestOf stream c.width) EAF_OK limits],
          ?_, ?_, ?_⟩
        · simp [startOutput, hbuffered, callStartBuffered, hcall, andThen, hvalid, record,
            Session.add]
        · intro _
          exact ⟨_, rfl, _, rfl⟩
        · intro hrc
          simp [startOutput, hbuffered, callStartBuffered, hcall, andThen, hvalid, record] at hrc
      · refine ⟨true, limits, [.startBuffered c.format (requestOf stream c.width) EAF_OK limits,
          .stop], ?_, ?_, ?_⟩
        · simp [startOutput, hbuffered, callStartBuffered, hcall, andThen, hvalid, record,
            Session.add]
        · intro hrc
          simp [startOutput, hbuffered, callStartBuffered, hcall, andThen, hvalid, record] at hrc
        · intro _
          exact .limits _ _
    · refine ⟨true, limits, [.startBuffered c.format (requestOf stream c.width) rc limits],
        ?_, ?_, ?_⟩
      · simp [startOutput, hbuffered, callStartBuffered, hcall, andThen, hrc, record, Session.add]
      · intro hok
        simp [startOutput, hbuffered, callStartBuffered, hcall, andThen, hrc] at hok
      · intro _
        refine .refused ?_
        simpa [refused] using hrc
  · refine ⟨false, c.bufferLimits, [.start c.format (env.start c.log c.format)], ?_, ?_, ?_⟩
    · simp [startOutput, hbuffered, callStart, record, Session.add]
    · intro hok
      have hrc : env.start c.log c.format = EAF_OK := by
        simpa [startOutput, hbuffered, callStart] using hok
      rw [hrc]
      exact ⟨_, rfl, rfl⟩
    · intro hrc
      refine .refused ?_
      have hfailed : env.start c.log c.format ≠ EAF_OK := by
        simpa [startOutput, hbuffered, callStart] using hrc
      simpa [refused] using hfailed

theorem Fresh.connected {s : Session} (h : Fresh s) (isOpen buffered : Bool)
    (limits : BufferLimits) (es : List Event) :
    Fresh { ({ s with httpOpen := isOpen }.add es) with
      bufferedOutput := buffered, bufferLimits := limits } :=
  ⟨h.streaming, h.released, h.paused, h.inputEof, h.eofSent, h.prefill, h.pcm, h.pcmSent, h.bodyDone,
    h.ready, h.started⟩

theorem openStream_session (stream : Stream) : (openStream stream c).toSession =
    (opened stream c.toSession).add [.opened stream c.ingress] := rfl

theorem quiet_hangUp (isOpen : Bool) :
    ∀ e ∈ (if isOpen then [Event.closed .http] else []), quiet e = true := by
  rcases isOpen with _ | _ <;> simp [quiet]

theorem playStream_goes {stream : Stream} (h : Readied c.toSession stream) :
    Goes c.toSession (playStream env stream c) := by
  unfold playStream
  generalize (if stream.serverIpv4 ≠ 0 then stream.serverIpv4 else c.server) = ipv4
  obtain ⟨isOpen, hconnect, hopen⟩ := tcpConnect_http env c ipv4 stream.serverPort
  have hquiet : ∀ rc, quiet (.connect .http ipv4 stream.serverPort rc) = true := fun _ => rfl
  refine goes_andThen ⟨fun hrc => ?_, fun hrc => ?_⟩ fun hrc => ?_
  · have hidle : Move c.toSession { c.toSession with httpOpen := isOpen } :=
      .idle h.fresh.streaming h.fresh.streaming rfl rfl
    rw [hconnect]
    exact (Moves.of hidle).andMove (.quiet (hquiet _))
  · rw [hconnect]
    exact fails_quiet (by simpa using hquiet _) rfl rfl (fun _ => rfl)
  -- the connection is open, and the output starts
  have hopen := hopen hrc
  generalize (tcpConnect env .http ipv4 stream.serverPort c).1 = rc at hconnect hrc
  generalize (tcpConnect env .http ipv4 stream.serverPort c).2 = d at hconnect
  obtain ⟨buffered, limits, es, hsession, hstarts, hfalse⟩ := startOutput_cases env d stream
  generalize hr : startOutput env stream d = r at hsession hstarts hfalse
  have hfresh := h.fresh.connected isOpen buffered limits [.connect .http ipv4 stream.serverPort rc]
  rw [← hconnect] at hfresh
  have hidle : Move d.toSession
      { d.toSession with bufferedOutput := buffered, bufferLimits := limits } :=
    .idle hfresh.streaming hfresh.streaming rfl rfl
  by_cases hok : r.1 = EAF_OK
  · obtain ⟨e, rfl, hstart⟩ := hstarts hok
    have hmatch : Matches stream
        { d.toSession with bufferedOutput := buffered, bufferLimits := limits } := by
      rw [hconnect]
      exact ⟨h.matching.supported, h.matching.format, h.matching.width, h.matching.bigEndian⟩
    have hconnected : d.httpOpen = true := by
      rw [hconnect]
      exact hopen
    have hmoves := (Moves.of hidle).andMove (.start hfresh hconnected hstart hmatch)
    have hopened : (openStream stream r.2).toSession =
        (opened stream { d.toSession with
          bufferedOutput := buffered, bufferLimits := limits }).add [e, .opened stream d.ingress] := by
      rw [openStream_session, hsession]
      simp [opened, Session.add]
    unfold orHangUp andThen
    rw [if_pos hok, if_pos hok]
    refine status_after env ?_ rfl (by decide)
    rw [hopened]
    exact hmoves
  · unfold orHangUp andThen
    rw [if_neg hok, if_neg hok]
    apply goes_fails hok
    rw [tcpClose_http, hsession]
    obtain hrefused | ⟨request, l⟩ := hfalse hok
    · refine Fails.after ((Moves.of hidle).andMove (.refused hfresh.streaming hrefused))
        (fails_quiet (quiet_hangUp _) rfl rfl (fun _ => rfl))
    · refine Fails.after ((Moves.of hidle).andMove (.misstart d.format request l hfresh.streaming))
        (fails_quiet (quiet_hangUp _) rfl rfl (fun _ => rfl))

theorem strmS_goes (stream : Stream) : Goes c.toSession (strmS env stream c) := by
  unfold strmS
  by_cases hsupported : streamSupported stream = true
  · rw [if_neg (by simp [hsupported])]
    exact Goes.after (configure_moves c stream)
      (playStream_goes env _ (configure_readied c hsupported))
  · rw [if_pos (by simp [hsupported])]
    exact Goes.after (stopStream_moves c) (fails_same rfl (by decide))

theorem strm_goes (p : List UInt8) : Goes c.toSession (strm env p c) := by
  unfold strm
  rcases hparse : parseStream p with rc | stream
  · apply fails_same rfl
    unfold parseStream at hparse
    split at hparse <;> cases hparse
    decide
  · simp only
    by_cases ht : stream.command = 0x74
    · rw [if_pos ht]
      exact status_goes env c _ _ rfl (by decide)
    rw [if_neg ht]
    by_cases hq : stream.command = 0x71 ∨ stream.command = 0x66
    · rw [if_pos hq]
      exact status_after env (stopStream_moves c) rfl (by decide)
    rw [if_neg hq]
    by_cases hu : stream.command = 0x75
    · rw [if_pos hu]
      exact strmU_goes env c stream
    rw [if_neg hu]
    by_cases hp : stream.command = 0x70
    · rw [if_pos hp]
      exact strmP_goes env c stream
    rw [if_neg hp]
    by_cases hs : stream.command ≠ 0x73
    · rw [if_pos hs]
      exact fails_same rfl (by decide)
    rw [if_neg hs]
    exact strmS_goes env c stream

/-- A packet is noted down, and what it does comes behind that. -/
theorem command_goes_noted (p : List UInt8) :
    Goes (c.toSession.add [.command p]) (command env p c) := by
  obtain ⟨d, hd, hsession⟩ : ∃ d, record (.command p) { c with stage := .command, opcode := p.take 4 } =
      d ∧ d.toSession = c.toSession.add [.command p] := ⟨_, rfl, rfl⟩
  unfold command
  simp only [hd]
  rw [← hsession]
  by_cases haudg : p.take 4 = ascii "audg"
  · rw [if_pos haudg]
    exact audg_goes env d p
  rw [if_neg haudg]
  by_cases hcont : p.take 4 = ascii "cont"
  · rw [if_pos hcont]
    exact cont_goes d p
  rw [if_neg hcont]
  by_cases hstrm : p.take 4 ≠ ascii "strm"
  · rw [if_pos hstrm]
    exact goes_ok .refl
  rw [if_neg hstrm]
  exact strm_goes env d p

theorem command_goes (p : List UInt8) : Goes c.toSession (command env p c) :=
  Goes.after (.of (.quiet rfl)) (command_goes_noted env c p)

end Commands

end EmbeddedAudio.Lms
