-- The pump of the stream (pump_http), as moves: what goes to the output, what
-- comes from the socket and what the server is told of it.
import EmbeddedAudio.LmsHttp

namespace EmbeddedAudio.Lms

open Storage

/-! ## The socket -/

section Socket

variable (env : Env) {c : Client}

theorem tcpRecv_session (socket : Socket) (capacity : Nat) :
    (tcpRecv env socket capacity c).2.2.toSession = c.toSession.add
      [.recv socket (tcpRecv env socket capacity c).1 (tcpRecv env socket capacity c).2.1] := rfl

theorem tcpRecv_none {socket : Socket} {capacity : Nat}
    (hrc : (tcpRecv env socket capacity c).1 ≠ EAF_OK) :
    (tcpRecv env socket capacity c).2.1 = [] := if_neg hrc

theorem tcpSend_session (socket : Socket) (data : List UInt8) : ∃ sent,
    (tcpSend env socket data c).2.2.toSession =
      c.toSession.add [.send socket sent (tcpSend env socket data c).1] := ⟨_, rfl⟩

theorem receiveHttp_goes (hstreaming : c.streaming = true) (hopen : c.httpOpen = true)
    (hbody : c.bodyDone = false) : Goes c.toSession (receiveHttp env c) := by
  unfold receiveHttp
  simp only
  generalize min (EAF_LMS_INGRESS_BYTES - c.ingress.length) EAF_LMS_RX_BYTES = want
  have hsession := @tcpRecv_session env (setStage .httpRecv c) .http want
  have hnone := @tcpRecv_none env (setStage .httpRecv c) .http want
  have hset : (setStage .httpRecv c).toSession = c.toSession := rfl
  rw [hset] at hsession
  generalize tcpRecv env .http want (setStage .httpRecv c) = r at hsession hnone ⊢
  obtain ⟨rc, data, d⟩ := r
  simp only at hsession hnone ⊢
  by_cases hagain : rc = EAF_AGAIN
  · rw [if_pos hagain]
    subst hagain
    have hdata : data = [] := hnone (by decide)
    have hquiet : quiet (.recv .http EAF_AGAIN data) = true := by
      rw [hdata]
      decide
    refine goes_ok (.of ?_)
    have hcounted : (countAgain d).toSession = d.toSession := rfl
    rw [hcounted, hsession]
    exact .quiet hquiet
  rw [if_neg hagain]
  by_cases heof : rc = EAF_EOF
  · rw [if_pos heof]
    subst heof
    have hdata : data = [] := hnone (by decide)
    subst hdata
    by_cases hearly : (!d.headersDone || (d.hasLength && d.remaining != 0)) = true
    · rw [if_pos hearly]
      refine goes_fails (by decide) ⟨_, _, [], .refl, .early hstreaming, by simp, ?_, ?_, ?_⟩
      · rw [hsession]
        rfl
      · rw [hsession]
        rfl
      · intro _
        rw [hsession]
        rfl
    · rw [if_neg hearly]
      rw [hsession] at hearly
      simp only [Bool.or_eq_true, Bool.not_eq_true', Bool.and_eq_true, bne_iff_ne, ne_eq, not_or,
        not_and, not_not, Bool.not_eq_false] at hearly
      refine goes_ok (.of ?_)
      have hset : (setBodyDone d).toSession =
          { c.toSession with bodyDone := true }.add [.recv .http EAF_EOF []] := by
        have hd : (setBodyDone d).toSession = { d.toSession with bodyDone := true } := rfl
        rw [hd, hsession]
        rfl
      rw [hset]
      exact .exhaust hstreaming hearly.1 hbody hearly.2
  rw [if_neg heof]
  by_cases hrc : rc = EAF_OK
  · rw [if_neg (by simp [hrc])]
    subst hrc
    exact receiveBody_goes hsession hstreaming hopen hbody
  · rw [if_pos hrc]
    have hdata : data = [] := hnone hrc
    have hquiet : quiet (.recv .http rc data) = true := by
      rw [hdata]
      simpa [quiet] using heof
    apply goes_fails hrc
    rw [hsession]
    exact fails_quiet (by simpa using hquiet) rfl rfl (fun _ => rfl)

theorem sendRequest_goes : Goes c.toSession (sendRequest env c) := by
  unfold sendRequest
  simp only
  obtain ⟨sent, hsession⟩ :=
    @tcpSend_session env (setStage .httpSend c) .http (c.request.drop c.requestSent)
  have hset : (setStage .httpSend c).toSession = c.toSession := rfl
  rw [hset] at hsession
  generalize tcpSend env .http (c.request.drop c.requestSent) (setStage .httpSend c) = r
    at hsession ⊢
  obtain ⟨rc, n, d⟩ := r
  simp only at hsession ⊢
  have hmove : Moves c.toSession d.toSession := by
    rw [hsession]
    exact .of (.quiet rfl)
  by_cases hagain : rc = EAF_AGAIN
  · rw [if_pos hagain]
    exact goes_ok hmove
  rw [if_neg hagain]
  by_cases hrc : rc = EAF_OK
  · rw [if_neg (by simp [hrc])]
    exact goes_ok hmove
  · rw [if_pos hrc]
    apply goes_fails hrc
    rw [hsession]
    exact fails_quiet (by simp [quiet]) rfl rfl (fun _ => rfl)

end Socket

/-! ## The output -/

section Output

variable (env : Env) {c : Client}

/-- The stream with other counts of what the output took. -/
def counted (sent prefill : Nat) (s : Session) : Session :=
  { s with pcmSent := sent, prefillFrames := prefill }

theorem callPcm_session : (callPcm env c).2.toSession =
    c.toSession.add [.pcm (c.pcm.drop c.pcmSent) (callPcm env c).1] := rfl

/-- `flush_pcm` counts what the output took. -/
theorem flushPcm_session : ∃ sent prefill es,
    (flushPcm env c).2.toSession = (counted sent prefill c.toSession).add es := by
  have hsame : c.toSession = (counted c.pcmSent c.prefillFrames c.toSession).add [] := by
    simp [counted, Session.add]
  unfold flushPcm
  by_cases hall : c.pcmSent ≥ c.pcm.length
  · rw [if_pos hall]
    exact ⟨_, _, _, hsame⟩
  rw [if_neg hall]
  unfold settlePcm
  by_cases hmany : (callPcm env c).1 > c.pcm.length - c.pcmSent
  · rw [if_pos hmany]
    exact ⟨c.pcmSent, c.prefillFrames, _, callPcm_session env⟩
  rw [if_neg hmany]
  split_ifs with hover
  · exact ⟨c.pcmSent + (callPcm env c).1, c.prefillFrames, _, rfl⟩
  · exact ⟨c.pcmSent + (callPcm env c).1,
      if held c.toSession then c.prefillFrames + (callPcm env c).1 else c.prefillFrames, _, rfl⟩

/-- A count behind which the client gives up. -/
theorem offer_fails {d : Session} (wrote : Nat) (hstreaming : c.streaming = true)
    (hgate : ¬ Gated c.toSession) (hleft : c.pcmSent < c.pcm.length)
    (hlog : d.log = c.log ++ [.pcm (c.pcm.drop c.pcmSent) wrote])
    (hkept : d.streaming = c.streaming) (hingress : d.ingress = c.ingress) :
    Fails c.toSession d :=
  ⟨_, _, [], .refl, .offer wrote hstreaming hgate hleft, List.forall_mem_nil _, hlog, hkept,
    fun _ => hingress⟩

theorem flushPcm_goes (hstreaming : c.streaming = true)
    (hgate : c.pcmSent < c.pcm.length → ¬ Gated c.toSession) :
    Goes c.toSession (flushPcm env c) := by
  unfold flushPcm
  by_cases hall : c.pcmSent ≥ c.pcm.length
  · rw [if_pos hall]
    exact goes_ok .refl
  rw [if_neg hall]
  have hleft := Nat.lt_of_not_ge hall
  have hoffer := @offer_fails c
  unfold settlePcm
  by_cases hmany : (callPcm env c).1 > c.pcm.length - c.pcmSent
  · rw [if_pos hmany]
    exact goes_fails invalid_ne (hoffer _ hstreaming (hgate hleft) hleft rfl rfl rfl)
  rw [if_neg hmany]
  by_cases hover : (held (callPcm env c).2.toSession && decide ((callPcm env c).1 >
      (callPcm env c).2.bufferLimits.capacityFrames - (callPcm env c).2.prefillFrames)) = true
  · rw [if_pos hover]
    exact goes_fails invalid_ne (hoffer _ hstreaming (hgate hleft) hleft rfl rfl rfl)
  · rw [if_neg hover]
    have hroom : held c.toSession = true →
        (callPcm env c).1 ≤ c.bufferLimits.capacityFrames - c.prefillFrames := by
      intro hheld
      have hheld' : held (callPcm env c).2.toSession = true := hheld
      rw [hheld'] at hover
      have hroom : (callPcm env c).1 ≤ (callPcm env c).2.bufferLimits.capacityFrames -
          (callPcm env c).2.prefillFrames := by simpa using hover
      exact hroom
    exact goes_ok (.of (.offer _ hstreaming (hgate hleft) hleft (Nat.le_of_not_gt hmany) hroom))

/-- Telling the server of an event, and setting a flag behind it. -/
theorem announce_goes {event : List UInt8} {set : Client → Client} (hlength : event.length = 4)
    (hmove : ∀ body d, body.take 4 = event →
      d.toSession = c.toSession.add [.queued (ascii "STAT") body] →
      Move c.toSession (set d).toSession) :
    Goes c.toSession (andThen (status env event 0 c) fun c => (EAF_OK, set c)) := by
  unfold andThen
  rcases status_cases env c event 0 hlength with ⟨hrc, body, hbody, hsession⟩ | ⟨hrc, hsession⟩
  · rw [if_pos hrc]
    exact goes_ok (.of (hmove body _ hbody hsession))
  · rw [if_neg (by rw [hrc]; exact io_ne)]
    have hfailed : status env event 0 c = ( EAF_IO, (status env event 0 c).2) := Prod.ext hrc rfl
    rw [hfailed]
    exact fails_same hsession io_ne

theorem announceReady_goes (hstreaming : c.streaming = true) (hcont : c.waitCont = false)
    (hstart : c.waitStart = true) (hready : c.readySent = false)
    (hprefill : c.bufferedOutput = true → Prefilled c.toSession) :
    Goes c.toSession (announceReady env c) := by
  refine announce_goes env (by decide) fun body d hbody hsession => ?_
  have hl : isStat "STMl" (.queued (ascii "STAT") body) = true :=
    (isStat_queued hbody _).trans (by decide)
  have hset : (setReadySent d).toSession =
      { c.toSession with readySent := true }.add [.queued (ascii "STAT") body] := by
    have hd : (setReadySent d).toSession = { d.toSession with readySent := true } := rfl
    rw [hd, hsession]
    rfl
  rw [hset]
  exact .ready hl hstreaming hcont hstart hready hprefill

theorem announceDone_goes (hstreaming : c.streaming = true) (hbuffered : c.bufferedOutput = true)
    (heof : c.inputEof = true) (hreleased : c.outputReleased = true) (hdone : c.eofSent = false) :
    Goes c.toSession (announceDone env c) := by
  refine announce_goes env (by decide) fun body d hbody hsession => ?_
  have hd : isStat "STMd" (.queued (ascii "STAT") body) = true :=
    (isStat_queued hbody _).trans (by decide)
  have hset : (setEofSent d).toSession =
      { c.toSession with eofSent := true }.add [.queued (ascii "STAT") body] := by
    have hd : (setEofSent d).toSession = { d.toSession with eofSent := true } := rfl
    rw [hd, hsession]
    rfl
  rw [hset]
  exact .done hd hstreaming hbuffered heof hreleased hdone

/-- A held output that may be released. -/
structure Serving (s : Session) : Prop where
  streaming : s.streaming = true
  buffered : s.bufferedOutput = true
  cont : s.waitCont = false
  prefilled : Prefilled s

theorem releaseOutput_goes (h : Serving c.toSession) (hstart : c.waitStart = false)
    (hpaused : c.outputPaused = false) (hreleased : c.outputReleased = false) :
    Goes c.toSession (releaseOutput env c) := by
  obtain ⟨hstreaming, hbuffered, hcont, hprefilled⟩ := h
  have hcall : (callRelease env c).2.toSession =
      c.toSession.add [.release (callRelease env c).1] := rfl
  unfold releaseOutput andThen
  by_cases hrc : (callRelease env c).1 = EAF_OK
  · rw [if_pos hrc]
    have hset : (setReleased (callRelease env c).2).toSession =
        { c.toSession with outputReleased := true }.add [.release EAF_OK] := by
      have hd : (setReleased (callRelease env c).2).toSession =
          { (callRelease env c).2.toSession with outputReleased := true } := rfl
      rw [hd, hcall, hrc]
      rfl
    refine goes_ok (.of ?_)
    rw [hset]
    exact .release hstreaming hbuffered hcont hstart hpaused hreleased hprefilled
  · rw [if_neg hrc]
    have hfault := Fault.release hstreaming hbuffered hcont hstart hpaused hreleased hprefilled hrc
    exact goes_fails hrc ⟨_, _, [], .refl, hfault, List.forall_mem_nil _, rfl, rfl, fun _ => rfl⟩

/-- The stream with other flags of what it told. -/
def served (ready released done : Bool) (s : Session) : Session :=
  { s with readySent := ready, outputReleased := released, eofSent := done }

/-- What the service of a held output may change. -/
def Served (s d : Session) : Prop :=
  ∃ ready released done es, d = (served ready released done s).add es

theorem Served.refl (s : Session) : Served s s :=
  ⟨s.readySent, s.outputReleased, s.eofSent, [], by simp [served, Session.add]⟩

theorem Served.trans {s m d : Session} (h : Served s m) (hnext : Served m d) : Served s d := by
  obtain ⟨_, _, _, es, rfl⟩ := h
  obtain ⟨ready, released, done, fs, rfl⟩ := hnext
  refine ⟨ready, released, done, es ++ fs, ?_⟩
  rw [← add_add]
  rfl

theorem Serving.served {s d : Session} (h : Serving s) (hnext : Served s d) : Serving d := by
  obtain ⟨_, _, _, es, rfl⟩ := hnext
  exact ⟨h.streaming, h.buffered, h.cont, h.prefilled⟩

theorem status_session (event : List UInt8) (timestamp : Nat) : ∃ es,
    (status env event timestamp c).2.toSession = c.toSession.add es := by
  unfold status
  rcases enqueue_cases (monotonicTime env c).2 (ascii "STAT")
    (statBody event timestamp ((monotonicTime env c).1.toNat / 1000) (monotonicTime env c).2) with
    ⟨-, hsession⟩ | ⟨-, hsession⟩
  · exact ⟨_, hsession⟩
  · refine ⟨[], ?_⟩
    have hnone : c.toSession.add [] = c.toSession := by simp [Session.add]
    rw [hnone]
    exact hsession

theorem announceReady_served : Served c.toSession (announceReady env c).2.toSession := by
  obtain ⟨es, hsession⟩ := @status_session env c (ascii "STMl") 0
  unfold announceReady andThen
  split
  · refine ⟨true, c.outputReleased, c.eofSent, es, ?_⟩
    have hd : ∀ d, (setReadySent d).toSession = { d.toSession with readySent := true } :=
      fun _ => rfl
    rw [hd, hsession]
    rfl
  · exact ⟨c.readySent, c.outputReleased, c.eofSent, es, hsession⟩

theorem releaseOutput_served : Served c.toSession (releaseOutput env c).2.toSession := by
  unfold releaseOutput andThen
  split
  · exact ⟨c.readySent, true, c.eofSent, [.release (callRelease env c).1], rfl⟩
  · exact ⟨c.readySent, c.outputReleased, c.eofSent, [.release (callRelease env c).1], rfl⟩

theorem announceDone_served : Served c.toSession (announceDone env c).2.toSession := by
  obtain ⟨es, hsession⟩ := @status_session env c (ascii "STMd") 0
  unfold announceDone andThen
  split
  · refine ⟨c.readySent, c.outputReleased, true, es, ?_⟩
    have hd : ∀ d, (setEofSent d).toSession = { d.toSession with eofSent := true } := fun _ => rfl
    rw [hd, hsession]
    rfl
  · exact ⟨c.readySent, c.outputReleased, c.eofSent, es, hsession⟩

theorem served_andThen {r : Rc × Client} {next : Client → Rc × Client}
    (h : Served c.toSession r.2.toSession)
    (hnext : ∀ d, Served d.toSession (next d).2.toSession) :
    Served c.toSession (andThen r next).2.toSession := by
  unfold andThen
  split
  · exact h.trans (hnext r.2)
  · exact h

/-- The steps of the service that were not asked for go well. -/
theorem goes_if {p : Bool} {r : Rc × Client} (h : p = true → Goes c.toSession r) :
    Goes c.toSession (if p then r else (EAF_OK, c)) := by
  by_cases hp : p = true
  · rw [if_pos hp]
    exact h hp
  · rw [if_neg hp]
    exact goes_ok .refl

theorem served_if {p : Bool} {r : Rc × Client} (h : Served c.toSession r.2.toSession) :
    Served c.toSession (if p then r else (EAF_OK, c)).2.toSession := by
  split
  · exact h
  · exact .refl _

theorem serving_andThen {r : Rc × Client} {next : Client → Rc × Client}
    (h : Serving c.toSession) (hr : Goes c.toSession r) (hserved : Served c.toSession r.2.toSession)
    (hnext : ∀ d : Client, Serving d.toSession → Goes d.toSession (next d)) :
    Goes c.toSession (andThen r next) :=
  goes_andThen hr fun _ => hnext r.2 (h.served hserved)

theorem serviceBuffered_served : Served c.toSession (serviceBuffered env c).2.toSession := by
  unfold serviceBuffered
  split
  · exact .refl _
  refine served_andThen (served_if (announceReady_served env)) fun d => ?_
  refine served_andThen (served_if (releaseOutput_served env)) fun d => ?_
  exact served_if (announceDone_served env)

theorem serviceBuffered_goes (hstreaming : c.streaming = true) :
    Goes c.toSession (serviceBuffered env c) := by
  unfold serviceBuffered
  by_cases hnone : (!c.bufferedOutput || c.waitCont ||
      (decide (c.prefillFrames < c.bufferLimits.readyFrames) && !c.inputEof)) = true
  · rw [if_pos hnone]
    exact goes_ok .refl
  rw [if_neg hnone]
  simp only [Bool.or_eq_true, Bool.not_eq_true', Bool.and_eq_true, decide_eq_true_eq, not_or,
    not_and, Bool.not_eq_false, Bool.not_eq_true] at hnone
  obtain ⟨⟨hbuffered, hcont⟩, hfilled⟩ := hnone
  have hprefilled : Prefilled c.toSession := by
    by_cases hless : c.prefillFrames < c.bufferLimits.readyFrames
    · exact Or.inr (hfilled hless)
    · exact Or.inl (Nat.le_of_not_lt hless)
  have hserving : Serving c.toSession := ⟨hstreaming, hbuffered, hcont, hprefilled⟩
  refine serving_andThen hserving (goes_if fun hready => ?_)
    (served_if (announceReady_served env)) fun d hd => ?_
  · simp only [Bool.and_eq_true, Bool.not_eq_true'] at hready
    exact announceReady_goes env hstreaming hcont hready.1 hready.2 fun _ => hprefilled
  refine serving_andThen hd (goes_if fun hrelease => ?_)
    (served_if (releaseOutput_served env)) fun e he => goes_if fun hdone => ?_
  · simp only [Bool.and_eq_true, Bool.not_eq_true'] at hrelease
    exact releaseOutput_goes env hd hrelease.1.1 hrelease.1.2 hrelease.2
  · simp only [Bool.and_eq_true, Bool.not_eq_true'] at hdone
    exact announceDone_goes env he.streaming he.buffered hdone.1.1 hdone.1.2 hdone.2

end Output

/-! ## The turn of the pump -/

section Pump

variable (env : Env) {c : Client}

/-- A stream on whose connection the pump works: while the output may not be given anything there
is nothing for it. -/
structure Pumping (s : Session) : Prop where
  streaming : s.streaming = true
  httpOpen : s.httpOpen = true
  gate : Gated s → s.pcm = [] ∧ s.ingress = [] ∧ s.bodyDone = false

theorem Pumping.open_of_pcm {s : Session} (h : Pumping s) (hpcm : s.pcmSent < s.pcm.length) :
    ¬ Gated s := by
  intro hgate
  rw [(h.gate hgate).1] at hpcm
  exact absurd hpcm (Nat.not_lt_zero _)

theorem Pumping.counted {s : Session} (h : Pumping s) (sent prefill : Nat) (es : List Event) :
    Pumping ((counted sent prefill s).add es) :=
  ⟨h.streaming, h.httpOpen, h.gate⟩

theorem flushPcm_pumping (h : Pumping c.toSession) : Pumping (flushPcm env c).2.toSession := by
  obtain ⟨sent, prefill, es, hsession⟩ := @flushPcm_session env c
  rw [hsession]
  exact h.counted sent prefill es

theorem Pumping.decoded {s : Session} (h : Pumping s) : Pumping (decoded s) := by
  refine ⟨h.streaming, h.httpOpen, fun hgate => ?_⟩
  obtain ⟨-, hingress, hbody⟩ := h.gate hgate
  unfold Lms.decoded
  rw [hingress]
  exact ⟨rfl, rfl, hbody⟩

theorem ingressDecode_session : (ingressDecode (clearPcm c)).toSession = decoded c.toSession := rfl

/-- The ring is decoded, and the output is offered what came of it. -/
theorem refill_goes (h : Pumping c.toSession) : Goes c.toSession (refill env c) := by
  unfold refill
  by_cases hall : c.pcmSent = c.pcm.length
  · rw [if_pos hall]
    have hmove : Moves c.toSession (ingressDecode (clearPcm c)).toSession := by
      rw [ingressDecode_session]
      exact .of (.decode h.streaming hall)
    have hdecoded := h.decoded
    rw [← ingressDecode_session] at hdecoded
    generalize ingressDecode (clearPcm c) = d at hmove hdecoded
    by_cases hsome : d.pcm ≠ []
    · have hprogress : (setProgress d).toSession = d.toSession := rfl
      simp only [hsome, ne_eq, not_false_eq_true, if_true]
      apply Goes.after hmove
      rw [← hprogress] at hdecoded ⊢
      exact flushPcm_goes env hdecoded.streaming hdecoded.open_of_pcm
    · simp only [hsome, if_false]
      exact goes_ok hmove
  · rw [if_neg hall]
    exact goes_ok .refl

theorem refill_pumping (h : Pumping c.toSession) : Pumping (refill env c).2.toSession := by
  unfold refill
  by_cases hall : c.pcmSent = c.pcm.length
  · rw [if_pos hall]
    have hdecoded := h.decoded
    rw [← ingressDecode_session] at hdecoded
    generalize ingressDecode (clearPcm c) = d at hdecoded
    by_cases hsome : d.pcm ≠ []
    · have hprogress : (setProgress d).toSession = d.toSession := rfl
      simp only [hsome, ne_eq, not_false_eq_true, if_true]
      rw [← hprogress] at hdecoded
      exact flushPcm_pumping env hdecoded
    · simp only [hsome, if_false]
      exact hdecoded
  · rw [if_neg hall]
    exact h

theorem callEof_session (hopen : c.httpOpen = true) : (callEof c).toSession =
    { c.toSession with inputEof := true, httpOpen := false }.add [.eof, .closed .http] := by
  unfold callEof
  rw [tcpClose_http]
  have hopen' : ({ record .eof (setProgress c) with inputEof := true } : Client).httpOpen = true :=
    hopen
  rw [if_pos hopen']
  have hsession : ({ record .eof (setProgress c) with inputEof := true } : Client).toSession =
      { c.toSession with inputEof := true }.add [.eof] := rfl
  rw [hsession]
  simp [Session.add]

theorem finishInput_goes (h : Pumping c.toSession) (hbody : c.bodyDone = true)
    (hingress : c.ingress = []) (hpcm : c.pcmSent = c.pcm.length) :
    Goes c.toSession (finishInput env c) := by
  have hgate : ¬ Gated c.toSession := by
    intro hgate
    have hnone := (h.gate hgate).2.2
    rw [hbody] at hnone
    cases hnone
  unfold finishInput
  by_cases htail : c.tail ≠ []
  · rw [if_pos htail]
    exact fails_same rfl invalid_ne
  rw [if_neg htail]
  have hdrained : Drained c.toSession :=
    ⟨h.streaming, h.httpOpen, hgate, hbody, hingress, hpcm, not_not.mp htail⟩
  have hsession := callEof_session h.httpOpen
  by_cases hbuffered : c.bufferedOutput = true
  · rw [if_pos hbuffered]
    have hmove : Moves c.toSession (callEof c).toSession := by
      rw [hsession]
      exact .of (.finish hdrained hbuffered)
    have hstreaming : (callEof c).streaming = true := by
      rw [hsession]
      exact h.streaming
    exact Goes.after hmove (serviceBuffered_goes env hstreaming)
  · rw [if_neg hbuffered]
    have hlegacy : c.bufferedOutput = false := Bool.eq_false_iff.mpr hbuffered
    rcases status_cases env (callEof c) (ascii "STMd") 0 (by decide) with
      ⟨hrc, body, hstat, hdone⟩ | ⟨hrc, hdone⟩
    · have hd : isStat "STMd" (.queued (ascii "STAT") body) = true :=
        (isStat_queued hstat _).trans (by decide)
      refine ⟨fun _ => ?_, fun hfailed => absurd hrc hfailed⟩
      rw [hdone, hsession, add_add]
      exact .of (.finishAll hdrained hlegacy hd)
    · refine ⟨fun hok => absurd (hrc.symm.trans hok) io_ne, fun _ => ?_⟩
      rw [hdone, hsession]
      exact ⟨_, _, [.closed .http], .refl, .finish hdrained hlegacy, by simp [quiet], rfl, rfl,
        fun _ => rfl⟩

theorem pumpBody_goes (h : Pumping c.toSession) : Goes c.toSession (pumpBody env c) := by
  unfold pumpBody
  refine goes_andThen (flushPcm_goes env h.streaming h.open_of_pcm) fun _ => ?_
  have h := flushPcm_pumping env h
  generalize (flushPcm env c).2 = d at h
  refine goes_andThen (refill_goes env h) fun _ => ?_
  have h := refill_pumping env h
  generalize (refill env d).2 = d at h
  by_cases hend : (d.bodyDone && d.ingress == [] && d.pcmSent == d.pcm.length) = true
  · rw [if_pos hend]
    simp only [Bool.and_eq_true, beq_iff_eq] at hend
    exact finishInput_goes env h hend.1.1 hend.1.2 hend.2
  rw [if_neg hend]
  by_cases hfull : (d.bodyDone || decide (EAF_LMS_INGRESS_BYTES ≤ d.ingress.length)) = true
  · rw [if_pos hfull]
    exact goes_ok .refl
  rw [if_neg hfull]
  simp only [Bool.or_eq_true, decide_eq_true_eq, not_or, Bool.not_eq_true] at hfull
  by_cases hrequest : d.requestSent < d.request.length
  · rw [if_pos hrequest]
    exact sendRequest_goes env
  · rw [if_neg hrequest]
    exact receiveHttp_goes env h.streaming h.httpOpen hfull.1

theorem pumpHttp_goes : Goes c.toSession (pumpHttp env c) := by
  unfold pumpHttp
  by_cases hstopped : (!c.streaming) = true
  · rw [if_pos hstopped]
    exact goes_ok .refl
  rw [if_neg hstopped]
  have hstreaming : c.streaming = true := by simpa using hstopped
  refine goes_andThen (serviceBuffered_goes env hstreaming) fun _ => ?_
  have hd : (serviceBuffered env c).2.streaming = true := by
    obtain ⟨_, _, _, es, hsession⟩ := @serviceBuffered_served env c
    rw [hsession]
    exact hstreaming
  generalize (serviceBuffered env c).2 = d at hd
  by_cases hclosed : (!d.httpOpen) = true
  · rw [if_pos hclosed]
    exact goes_ok .refl
  rw [if_neg hclosed]
  by_cases hcont : (d.headersDone && d.waitCont) = true
  · rw [if_pos hcont]
    exact goes_ok .refl
  rw [if_neg hcont]
  have hopen : d.httpOpen = true := by simpa using hclosed
  simp only [Bool.and_eq_true, not_and, Bool.not_eq_true] at hcont
  by_cases hwait : (!d.bufferedOutput && d.headersDone && d.waitStart &&
      (d.pcm != [] || d.ingress != [] || d.bodyDone)) = true
  · -- the response waits for the start
    rw [if_pos hwait]
    simp only [Bool.and_eq_true, Bool.not_eq_true'] at hwait
    obtain ⟨⟨⟨hlegacy, hdone⟩, hstart⟩, -⟩ := hwait
    by_cases hready : (!d.readySent) = true
    · rw [if_pos hready]
      apply announceReady_goes env hd (hcont hdone) hstart (by simpa using hready)
      intro hbuffered
      rw [hlegacy] at hbuffered
      cases hbuffered
    · rw [if_neg hready]
      exact goes_ok .refl
  · rw [if_neg hwait]
    refine pumpBody_goes env ⟨hd, hopen, fun hgate => ?_⟩
    obtain ⟨hdone, hcont' | ⟨hlegacy, hstart⟩⟩ := hgate
    · rw [hcont hdone] at hcont'
      cases hcont'
    · rw [hlegacy, hdone, hstart] at hwait
      simpa [and_assoc] using hwait

end Pump

end EmbeddedAudio.Lms
