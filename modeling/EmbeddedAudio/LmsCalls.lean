-- The calls of the application, as moves of the stream, and runs of them.
import EmbeddedAudio.LmsPump

namespace EmbeddedAudio.Lms

open Storage

section Calls

variable (env : Env) {c : Client}

/-! ## A step -/

theorem sendControl_goes : Goes c.toSession (sendControl env c) := by
  unfold sendControl
  by_cases hnone : c.txSent < c.tx.length
  · rw [if_pos hnone]
    obtain ⟨sent, hsession⟩ :=
      @tcpSend_session env (setStage .controlSend c) .control (c.tx.drop c.txSent)
    have hset : (setStage .controlSend c).toSession = c.toSession := rfl
    rw [hset] at hsession
    generalize tcpSend env .control (c.tx.drop c.txSent) (setStage .controlSend c) = r
      at hsession ⊢
    obtain ⟨rc, n, d⟩ := r
    simp only at hsession ⊢
    by_cases hrc : rc = EAF_AGAIN ∨ rc = EAF_OK
    · rw [if_pos hrc]
      refine goes_ok (.of ?_)
      have hcounted : (countTx n d).toSession = d.toSession := rfl
      rw [hcounted, hsession]
      exact .quiet rfl
    · rw [if_neg hrc]
      apply goes_fails (fun hok => hrc (Or.inr hok))
      rw [hsession]
      exact fails_quiet (by simp [quiet]) rfl rfl (fun _ => rfl)
  · rw [if_neg hnone]
    exact goes_ok .refl

theorem Moves.fails {s : Session} (h : Moves s c.toSession) : Fails s c.toSession :=
  Fails.after h (fails_quiet (List.forall_mem_nil _) (List.append_nil _).symm rfl fun _ => rfl)

/-- The packets of the server, one after the other. -/
theorem feedControl_goes (data : List UInt8) : Goes c.toSession (feedControl env data c) := by
  have hgood : ∀ packet (d : Client), Moves c.toSession d.toSession →
      if (command env packet d).1 = EAF_OK then
        Moves c.toSession (command env packet d).2.toSession
      else Fails c.toSession (command env packet d).2.toSession := by
    intro packet d hd
    have hgoes := Goes.after hd (command_goes env d packet)
    by_cases hrc : (command env packet d).1 = EAF_OK
    · rw [if_pos hrc]
      exact hgoes.ok hrc
    · rw [if_neg hrc]
      exact hgoes.fails hrc
  have hnone : ∀ d : Client, Moves c.toSession d.toSession → Fails c.toSession d.toSession :=
    fun d hd => Moves.fails hd
  have hstart : Moves c.toSession c.toSession := .refl
  have hfeed := @feed_keeps Client (command env) (fun d => Moves c.toSession d.toSession)
    (fun d => Fails c.toSession d.toSession) hgood hnone c.parser c data hstart
  constructor
  · intro hok
    have hrc : (feed (command env) c.parser c data).1 = EAF_OK := hok
    rw [if_pos hrc] at hfeed
    exact hfeed
  · intro hfailed
    have hrc : (feed (command env) c.parser c data).1 ≠ EAF_OK := hfailed
    rw [if_neg hrc] at hfeed
    exact hfeed

theorem recvControl_goes : Goes c.toSession (recvControl env c) := by
  unfold recvControl
  have hsession := @tcpRecv_session env (setStage .controlRecv c) .control 256
  have hset : (setStage .controlRecv c).toSession = c.toSession := rfl
  rw [hset] at hsession
  generalize tcpRecv env .control 256 (setStage .controlRecv c) = r at hsession ⊢
  obtain ⟨rc, data, d⟩ := r
  simp only at hsession ⊢
  have hmove : Moves c.toSession d.toSession := by
    rw [hsession]
    exact .of (.quiet rfl)
  by_cases hagain : rc = EAF_AGAIN
  · rw [if_pos hagain]
    exact goes_ok hmove
  rw [if_neg hagain]
  by_cases hrc : rc = EAF_OK
  · rw [if_neg (by simp [hrc])]
    have hfeed := @feedControl_goes env (noteProgress (data.length != 0) d) data
    exact Goes.after hmove hfeed
  · rw [if_pos hrc]
    exact goes_fails hrc (Moves.fails hmove)

theorem clientStep_turns : Turns c.toSession (clientStep env c).2.toSession := by
  unfold clientStep
  by_cases hclosed : (!c.controlOpen) = true
  · rw [if_pos hclosed]
    exact .refl
  rw [if_neg hclosed]
  have hgoes : Goes c.toSession
      (andThen (andThen (sendControl env (beginStep c)) (recvControl env)) (pumpHttp env)) := by
    have hsend : Goes (beginStep c).toSession (sendControl env (beginStep c)) := sendControl_goes env
    exact goes_andThen (goes_andThen hsend fun _ => recvControl_goes env) fun _ => pumpHttp_goes env
  unfold orClose
  generalize andThen (andThen (sendControl env (beginStep c)) (recvControl env)) (pumpHttp env) = r
    at hgoes
  by_cases hrc : r.1 = EAF_OK
  · rw [if_pos hrc]
    exact Moves.turns (hgoes.ok hrc)
  · rw [if_neg hrc]
    have hfails := hgoes.fails hrc
    rw [← recordError_session r.2 r.1] at hfails
    exact crashClose_turns _ hfails

/-! ## The other calls -/

theorem pumpLoop_turns (begin : UInt64) (maxUs : Nat) (left : Nat) (result : PumpResult) :
    Turns c.toSession (pumpLoop env begin maxUs left result c).2.2.toSession := by
  induction left generalizing result c with
  | zero => exact .refl
  | succ left ih =>
    have hstep := @clientStep_turns env c
    unfold pumpLoop
    generalize clientStep env c = r at hstep
    obtain ⟨rc, d⟩ := r
    simp only
    split_ifs
    · exact hstep
    · exact hstep
    · exact hstep
    · have hnext := @ih (monotonicTime env d).2 { result with
        steps := result.steps + 1
        progressed := result.progressed || d.stepProgress
        backpressured := result.backpressured || d.stepBackpressure }
      exact hstep.trans hnext

theorem clientPump_turns (maxSteps maxUs : Nat) :
    Turns c.toSession (clientPump env maxSteps maxUs c).2.2.toSession := by
  unfold clientPump
  split_ifs
  · exact .refl
  · have hloop := @pumpLoop_turns env (monotonicTime env c).2 (monotonicTime env c).1 maxUs
      maxSteps ⟨0, false, false, false⟩
    exact hloop

theorem reportPlayback_moves (p : Playback) :
    Moves c.toSession (reportPlayback env p c).2.toSession := by
  unfold reportPlayback
  by_cases hbad : p.queuedBytes > p.bufferBytes
  · rw [if_pos hbad]
  rw [if_neg hbad]
  by_cases hwaits : (!c.controlOpen || !c.streaming || c.waitCont || c.waitStart) = true
  · rw [if_pos hwaits]
  rw [if_neg hwaits]
  by_cases hback : (c.startedSent && !p.started) = true
  · rw [if_pos hback]
  rw [if_neg hback]
  simp only [Bool.or_eq_true, Bool.not_eq_true', not_or, Bool.not_eq_false,
    Bool.not_eq_true] at hwaits
  obtain ⟨⟨⟨-, hstreaming⟩, hcont⟩, hstart⟩ := hwaits
  have hset : (setPlayback p c).toSession = c.toSession := rfl
  by_cases hfirst : (p.started && !c.startedSent) = true
  · -- the first report of a start
    simp only [hfirst, if_true, and_true]
    simp only [Bool.and_eq_true, Bool.not_eq_true'] at hfirst
    rcases status_cases env (setPlayback p c) (ascii "STMs") 0 (by decide) with
      ⟨hrc, body, hbody, hsession⟩ | ⟨hrc, hsession⟩
    · rw [if_pos hrc]
      have hs : isStat "STMs" (.queued (ascii "STAT") body) = true :=
        (isStat_queued hbody _).trans (by decide)
      have hmove := Move.play hs hstreaming hcont hstart hfirst.2
      have hd : ∀ d, (setStartedSent d).toSession = { d.toSession with startedSent := true } :=
        fun _ => rfl
      rw [hd, recordError_session, hsession, hset]
      exact .of hmove
    · rw [if_neg (by rw [hrc]; exact io_ne), recordError_session, hsession, hset]
  · have hquiet : (ascii "STMt" == ascii "STMl" || ascii "STMt" == ascii "STMs" ||
        ascii "STMt" == ascii "STMd") = false := by decide
    rw [Bool.not_eq_true] at hfirst
    simp only [hfirst, Bool.false_eq_true, if_false, and_false]
    have hgoes := status_goes env (setPlayback p c) (ascii "STMt") 0 (by decide) hquiet
    rw [recordError_session]
    rcases status_cases env (setPlayback p c) (ascii "STMt") 0 (by decide) with
      ⟨hrc, -⟩ | ⟨-, hsession⟩
    · exact hgoes.ok hrc
    · rw [hsession, hset]

theorem clientConnect_moves (server port : Nat) (mac : Vector UInt8 6) :
    Moves c.toSession (clientConnect env server port mac c).2.toSession := by
  unfold clientConnect
  by_cases hopen : c.controlOpen = true
  · rw [if_pos hopen]
  rw [if_neg hopen]
  have hsession : ∀ d : Client, ∃ rc, (tcpConnect env .control server port d).2.toSession =
      d.toSession.add [.connect .control server port rc] := by
    intro d
    unfold tcpConnect
    simp only
    refine ⟨env.connect d.log .control server port, ?_⟩
    split_ifs <;> rfl
  obtain ⟨rc, hsession⟩ := hsession { c with diagnostics := zeroDiagnostics, stage := .connect }
  generalize tcpConnect env .control server port
    { c with diagnostics := zeroDiagnostics, stage := .connect } = r at hsession
  obtain ⟨rc', d⟩ := r
  have hmove : Moves c.toSession d.toSession := by
    have hd : d.toSession = c.toSession.add [.connect .control server port rc] := hsession
    rw [hd]
    exact .of (.quiet rfl)
  simp only
  by_cases hrc : rc' ≠ EAF_OK
  · rw [if_pos hrc, recordError_session]
    exact hmove
  rw [if_neg hrc]
  rcases helo EAF_LMS_TX_BYTES mac.toList (ascii "Model=eaf,MaxSampleRate=96000,pcm") with _ | packet
  · simp only
    rw [tcpClose_control]
    exact hmove.trans (moves_quiet (quiet_closed _))
  · exact hmove.andMove (.quiet rfl)

/-! ## Runs -/

theorem afterCall_turns (call : Call) : Turns c.toSession (afterCall env c call).toSession := by
  cases call with
  | connect server port mac => exact (clientConnect_moves env server port mac).turns
  | step => exact clientStep_turns env
  | pump maxSteps maxUs => exact clientPump_turns env maxSteps maxUs
  | report playback => exact (reportPlayback_moves env playback).turns
  | close => exact (clientClose_moves c).turns

theorem afterCalls_turns (calls : List Call) :
    Turns c.toSession (afterCalls env c calls).toSession := by
  induction calls generalizing c with
  | nil => exact .refl
  | cons call calls ih => exact (afterCall_turns env call).trans ih

end Calls

/-- The session of a client that was just made. -/
theorem clientInit_session {callbacks : Callbacks} {c : Client}
    (h : clientInit callbacks = .ok c) :
    Fresh c.toSession ∧ c.log = [] ∧ c.ingress = [] := by
  unfold clientInit at h
  split at h
  · cases h
  · cases h
    exact ⟨⟨rfl, rfl, rfl, rfl, rfl, rfl, rfl, rfl, rfl, rfl, rfl⟩, rfl, rfl⟩

end EmbeddedAudio.Lms
