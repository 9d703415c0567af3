-- The pause of the board output (board_output.c): once it is reported, the worker
-- runs no block until the request is cleared, whichever acknowledgements are late.
import EmbeddedAudio.Board
import EmbeddedAudio.LogLaw

namespace EmbeddedAudio.Output

open EmbeddedAudio.Core Log

/-! ## What a log says -/

/-- `paused`: a pause was reported as done, and the request was not cleared since. `processing`: a
call of `eaf_pipeline_process` is in progress. -/
structure Hush where
  paused : Bool
  processing : Bool
  deriving DecidableEq, Repr

def Hush.after (h : Hush) : Event → Hush
  | .request paused => { h with paused := h.paused && paused }
  | .pauseReturned paused rc => { h with paused := h.paused || (paused && rc == EAF_OK) }
  | .process => { h with processing := true }
  | .processed _ => { h with processing := false }
  | _ => h

def hushAfter (log : List Event) : Hush := log.foldl Hush.after ⟨false, false⟩

/-- No block is in progress when a pause is reported, and none begins until the request is
cleared. -/
def HushLaw (log : List Event) : Event → Prop
  | .pauseReturned paused rc =>
    paused = true → rc = EAF_OK → (hushAfter log).processing = false
  | .process => (hushAfter log).paused = false
  | _ => True

theorem hushAfter_snoc (log : List Event) (e : Event) :
    hushAfter (log ++ [e]) = (hushAfter log).after e := by
  simp [hushAfter, List.foldl_append]

/-! ## The two sides -/

/-- The worker is on its way to the end of `eaf_pipeline_process`. -/
def Worker.busy : Worker → Bool
  | .volume => true
  | .processing => true
  | _ => false

/-- The worker is between an acknowledgement and its withdrawal, or will never come back to a
block. -/
def Worker.apart : Worker → Bool
  | .waiting => true
  | .waitingQuit => true
  | .resuming => true
  | .unacking => true
  | .failing => true
  | .finishing => true
  | .exited => true
  | .absent => true
  | _ => false

/-- The worker is in front of the gate. -/
def Worker.gated : Worker → Bool
  | .gate => true
  | .gateQuit => true
  | _ => false

/-- The worker has come to its end, or there is none. -/
def Worker.over : Worker → Bool
  | .finishing => true
  | .exited => true
  | .absent => true
  | _ => false

/-- What the owner knows inside a call. -/
def ownerKnows (b : Board) : Prop :=
  match b.owner with
  | .pauseGate paused => b.pauseRequest = paused
  | .pauseShort paused => b.pauseRequest = paused ∧ b.runGate = false
  | .pauseAck paused => b.pauseRequest = paused ∧ b.runGate = true
  | .pauseDone paused => b.pauseRequest = paused ∧ b.runGate = true
  | .pauseTime paused => b.pauseRequest = paused ∧ b.runGate = true
  | .pauseFailed paused =>
    b.pauseRequest = paused ∧ (paused = true → b.worker.busy = false)
  | .releaseGate => b.pauseAck = true → b.worker.apart = true
  | .stopPipeline _ => b.worker = .absent
  | .startCreate _ => b.worker = .absent
  | .startLaunch _ => b.worker.gated = true ∧ b.quit = false ∧ b.runGate = false ∧
      b.pauseAck = false
  | .startOpen _ => b.worker.gated = true ∧ b.quit = false ∧ b.runGate = false ∧ b.pauseAck = false
  | _ => True

/-- What holds between two steps. -/
structure Hushed (b : Board) : Prop where
  gate : b.runGate = false → b.worker.gated = true ∨ b.worker.over = true ∨
    b.worker = .loop ∧ b.quit = true
  ack : b.pauseAck = true → b.runGate = false ∨ b.worker.apart = true
  done : b.done = true → b.worker = .exited ∨ b.worker = .absent
  owner : ownerKnows b
  paused : (hushAfter b.log).paused = true → b.pauseRequest = true ∧ b.worker.busy = false
  processing : (hushAfter b.log).processing = true ↔ b.worker = .processing
  lawful : Throughout HushLaw b.log

/-! ## A step of the worker -/

section WorkerSteps

variable {setup : Setup} {hook : Rc} {b : Board}

/-- What the worker leaves alone. -/
theorem workerStep_frame : (workerStep setup hook b).owner = b.owner ∧
    (workerStep setup hook b).pauseRequest = b.pauseRequest ∧
    (workerStep setup hook b).runGate = b.runGate ∧ (workerStep setup hook b).quit = b.quit ∧
    (workerStep setup hook b).active = b.active := by
  unfold workerStep
  cases hw : b.worker with
  | gate =>
    simp only
    split <;> exact ⟨rfl, rfl, rfl, rfl, rfl⟩
  | gateQuit =>
    simp only
    split <;> exact ⟨rfl, rfl, rfl, rfl, rfl⟩
  | _ => exact ⟨rfl, rfl, rfl, rfl, rfl⟩

/-- Behind a closed gate there is no worker that runs. -/
theorem gate_worker (hgate : b.runGate = false) (h : b.worker.gated = true ∨ b.worker.over = true ∨
    b.worker = .loop ∧ b.quit = true) : (workerStep setup hook b).worker.gated = true ∨
      (workerStep setup hook b).worker.over = true ∨
      (workerStep setup hook b).worker = .loop ∧ b.quit = true := by
  unfold workerStep
  cases hw : b.worker with
  | gate => simp [hgate, Worker.gated]
  | gateQuit =>
    by_cases hquit : b.quit = true
    · simp [hquit]
    · simp [hquit, Worker.gated]
  | loop =>
    rw [hw] at h
    have hquit : b.quit = true := by simpa [Worker.gated, Worker.over] using h
    simp [hquit, Worker.over]
  | absent => simp [hw, Worker.over]
  | finishing => simp [Worker.over]
  | exited => simp [hw, Worker.over]
  | _ =>
    rw [hw] at h
    simp [Worker.gated, Worker.over] at h

/-- An acknowledgement of the worker is made and withdrawn in two places. -/
theorem workerStep_ack (hacking : b.worker ≠ .acking) (hunacking : b.worker ≠ .unacking) :
    (workerStep setup hook b).pauseAck = b.pauseAck := by
  unfold workerStep
  cases hw : b.worker with
  | acking => exact absurd hw hacking
  | unacking => exact absurd hw hunacking
  | gate =>
    simp only
    split <;> rfl
  | gateQuit =>
    simp only
    split <;> rfl
  | _ => rfl

/-- A worker that is apart stays so, unless it withdraws the acknowledgement. -/
theorem apart_step (h : b.worker.apart = true) :
    (workerStep setup hook b).worker.apart = true ∨ b.worker = .unacking := by
  unfold workerStep
  cases hw : b.worker with
  | waiting =>
    refine .inl ?_
    simp only
    split <;> rfl
  | waitingQuit =>
    refine .inl ?_
    simp only
    split <;> rfl
  | resuming =>
    refine .inl ?_
    simp only
    split <;> rfl
  | unacking => exact .inr rfl
  | failing => exact .inl rfl
  | finishing => exact .inl rfl
  | exited =>
    refine .inl ?_
    simp only [hw]
    rfl
  | absent =>
    refine .inl ?_
    simp only [hw]
    rfl
  | _ =>
    rw [hw] at h
    cases h

theorem apart_worker (h : b.pauseAck = true → b.worker.apart = true)
    (hack : (workerStep setup hook b).pauseAck = true) :
    (workerStep setup hook b).worker.apart = true := by
  by_cases hacking : b.worker = .acking
  · unfold workerStep
    rw [hacking]
    rfl
  by_cases hunacking : b.worker = .unacking
  · unfold workerStep at hack
    rw [hunacking] at hack
    cases hack
  rw [workerStep_ack hacking hunacking] at hack
  rcases apart_step (h hack) with hapart | hnow
  · exact hapart
  · exact absurd hnow hunacking

/-- A worker that sees the request does not begin a block. -/
theorem busy_worker (hrequest : b.pauseRequest = true) (h : b.worker.busy = false) :
    (workerStep setup hook b).worker.busy = false := by
  unfold workerStep
  cases hw : b.worker with
  | volume | processing =>
    rw [hw] at h
    cases h
  | request =>
    simp only [hrequest]
    rfl
  | absent | exited => simp only [hw, Worker.busy]
  | acking | unacking | failing | finishing => rfl
  | _ =>
    simp only
    split <;> rfl

theorem gated_worker (hgated : b.worker.gated = true) (hgate : b.runGate = false)
    (hquit : b.quit = false) : (workerStep setup hook b).worker.gated = true := by
  unfold workerStep
  cases hw : b.worker with
  | gate =>
    simp only [hgate]
    rfl
  | gateQuit =>
    simp only [hquit]
    rfl
  | _ =>
    rw [hw] at hgated
    cases hgated

theorem done_worker (h : b.done = true → b.worker = .exited ∨ b.worker = .absent)
    (hdone : (workerStep setup hook b).done = true) :
    (workerStep setup hook b).worker = .exited ∨ (workerStep setup hook b).worker = .absent := by
  unfold workerStep at hdone ⊢
  cases hw : b.worker with
  | finishing => exact .inl rfl
  | absent => exact .inr hw
  | exited => exact .inl hw
  | gate | gateQuit =>
    simp only [hw] at hdone h
    split at hdone <;> exact absurd (h hdone) (by simp)
  | _ =>
    simp only [hw] at hdone h
    exact absurd (h hdone) (by simp)

/-- What the worker writes down. -/
theorem log_worker (h : Hushed b) :
    (hushAfter (workerStep setup hook b).log).paused = (hushAfter b.log).paused ∧
      ((hushAfter (workerStep setup hook b).log).processing = true ↔
        (workerStep setup hook b).worker = .processing) ∧
      Throughout HushLaw (workerStep setup hook b).log := by
  have hprocessing := h.processing
  unfold workerStep
  cases hw : b.worker with
  | gate | gateQuit =>
    rw [hw] at hprocessing
    simp only
    split
    · refine ⟨?_, ?_, throughout_snoc h.lawful trivial⟩
      · rw [hushAfter_snoc]
        rfl
      · rw [hushAfter_snoc]
        simpa [Hush.after] using hprocessing
    · exact ⟨rfl, by simpa using hprocessing, h.lawful⟩
  | volume =>
    refine ⟨?_, ?_, throughout_snoc h.lawful ?_⟩
    · rw [hushAfter_snoc]
      rfl
    · rw [hushAfter_snoc]
      simp [Hush.after]
    · -- a worker in front of a block has seen no request
      change (hushAfter b.log).paused = false
      by_contra hpaused
      have hbusy := (h.paused (by simpa using hpaused)).2
      rw [hw] at hbusy
      cases hbusy
  | processing =>
    refine ⟨?_, ?_, throughout_snoc h.lawful trivial⟩
    · rw [hushAfter_snoc]
      rfl
    · rw [hushAfter_snoc]
      simp only [Hush.after, Bool.false_eq_true, false_iff]
      split
      · simp
      · split <;> simp
  | absent | exited =>
    simp only [hw] at hprocessing ⊢
    exact ⟨trivial, hprocessing, h.lawful⟩
  | loop | request | pausing | waiting | waitingQuit | resuming =>
    rw [hw] at hprocessing
    refine ⟨rfl, ?_, h.lawful⟩
    simp only
    split <;> simpa using hprocessing
  | _ =>
    rw [hw] at hprocessing
    exact ⟨rfl, by simpa using hprocessing, h.lawful⟩

theorem ownerKnows_worker (h : ownerKnows b) : ownerKnows (workerStep setup hook b) := by
  obtain ⟨howner, hrequest, hgate, hquit, -⟩ := @workerStep_frame setup hook b
  unfold ownerKnows at h ⊢
  rw [howner, hrequest, hgate, hquit]
  cases ho : b.owner with
  | pauseFailed paused =>
    rw [ho] at h
    exact ⟨h.1, fun hp => busy_worker (h.1.trans hp) (h.2 hp)⟩
  | releaseGate =>
    rw [ho] at h
    exact apart_worker h
  | stopPipeline after | startCreate held =>
    rw [ho] at h
    simp only at h ⊢
    unfold workerStep
    rw [h]
    exact h
  | startLaunch held | startOpen held =>
    rw [ho] at h
    obtain ⟨hgated, hnoquit, hclosed, hack⟩ := h
    refine ⟨gated_worker hgated hclosed hnoquit, hnoquit, hclosed, ?_⟩
    rw [workerStep_ack]
    · exact hack
    · intro hw
      rw [hw] at hgated
      cases hgated
    · intro hw
      rw [hw] at hgated
      cases hgated
  | _ =>
    rw [ho] at h
    exact h

theorem hushed_worker (h : Hushed b) : Hushed (workerStep setup hook b) := by
  obtain ⟨-, hrequest, hgate, hquit, -⟩ := @workerStep_frame setup hook b
  obtain ⟨hpaused, hprocessing, hlawful⟩ := @log_worker setup hook b h
  refine ⟨?_, ?_, done_worker h.done, ownerKnows_worker h.owner, ?_, hprocessing, hlawful⟩
  · intro hclosed
    rw [hgate] at hclosed
    rw [hquit]
    exact gate_worker hclosed (h.gate hclosed)
  · intro hack
    rw [hgate]
    by_cases hclosed : b.runGate = false
    · exact .inl hclosed
    · exact .inr (apart_worker (fun hack' => (h.ack hack').resolve_left hclosed) hack)
  · intro hp
    rw [hpaused] at hp
    obtain ⟨hrequested, hbusy⟩ := h.paused hp
    exact ⟨hrequest.trans hrequested, busy_worker hrequested hbusy⟩

end WorkerSteps

/-! ## A step of the owner -/

section OwnerSteps

variable {setup : Setup} {b : Board}

/-- What is not about pauses and blocks. -/
def Event.aside : Event → Bool
  | .request _ => false
  | .pauseReturned _ _ => false
  | .process => false
  | .processed _ => false
  | _ => true

theorem hushAfter_aside {log : List Event} {e : Event} (he : e.aside = true) :
    hushAfter (log ++ [e]) = hushAfter log := by
  rw [hushAfter_snoc]
  cases e with
  | request | pauseReturned | process | processed => cases he
  | _ => rfl

theorem Hushed.note (h : Hushed b) {e : Event} (he : e.aside = true) : Hushed (note b e) := by
  have hlaw : HushLaw b.log e := by
    cases e with
    | request | pauseReturned | process | processed => cases he
    | _ => trivial
  refine ⟨h.gate, h.ack, h.done, h.owner, ?_, ?_, throughout_snoc h.lawful hlaw⟩
  · simp only [hushAfter_aside he]
    exact h.paused
  · simp only [hushAfter_aside he]
    exact h.processing

/-- The owner goes on. -/
theorem Hushed.next (h : Hushed b) (owner : Owner) (howner : ownerKnows { b with owner := owner }) :
    Hushed { b with owner := owner } :=
  ⟨h.gate, h.ack, h.done, howner, h.paused, h.processing, h.lawful⟩

/-- What pauses and blocks do not depend on. -/
theorem Hushed.other (h : Hushed b) (failed active : Bool) (inputChannels : Nat)
    (pipeline : Pipeline) : Hushed { b with
      failed := failed, active := active, inputChannels := inputChannels, pipeline := pipeline } :=
  ⟨h.gate, h.ack, h.done, h.owner, h.paused, h.processing, h.lawful⟩

theorem hushed_startReturn (h : Hushed b) (rc : Rc) : Hushed (startReturn rc b) :=
  (h.next .idle trivial).note rfl

theorem hushed_releaseReturn (h : Hushed b) (rc : Rc) : Hushed (releaseReturn rc b) :=
  (h.next .idle trivial).note rfl

/-- A pause is reported as done only if the worker is in no block. -/
theorem hushed_pauseReturn (h : Hushed b) {paused : Bool} {rc : Rc}
    (hpaused : paused = true → rc = EAF_OK → b.pauseRequest = true ∧ b.worker.busy = false) :
    Hushed (pauseReturn paused rc b) := by
  have hlaw : HushLaw b.log (.pauseReturned paused rc) := by
    intro hp hrc
    by_contra hprocessing
    have hbusy := (hpaused hp hrc).2
    rw [h.processing.mp (by simpa using hprocessing)] at hbusy
    cases hbusy
  unfold pauseReturn
  refine ⟨h.gate, h.ack, h.done, trivial, ?_, ?_, throughout_snoc h.lawful hlaw⟩
  · intro hquiet
    simp only [hushAfter_snoc, Hush.after, Bool.or_eq_true, Bool.and_eq_true, beq_iff_eq] at hquiet
    rcases hquiet with hold | ⟨hp, hrc⟩
    · exact h.paused hold
    · exact hpaused hp hrc
  · simp only [hushAfter_snoc, Hush.after]
    exact h.processing

theorem hushed_endStop (h : Hushed b) (after : AfterStop) : Hushed (endStop after b) := by
  cases after with
  | call => exact (h.next .idle trivial).note rfl
  | start start => exact h.next _ trivial
  | replace start =>
    unfold endStop
    simp only
    split
    · exact hushed_startReturn h _
    · exact h.next _ trivial
  | launch rc => exact hushed_startReturn h rc

theorem hushed_beginStop (h : Hushed b) (after : AfterStop) : Hushed (beginStop after b) := by
  unfold beginStop
  split
  · exact h.next _ trivial
  · exact hushed_endStop h after

theorem hushed_keep (h : Hushed b) (after : AfterStop) : Hushed (keep after b) :=
  hushed_endStop ((h.other true b.active b.inputChannels b.pipeline).note rfl) after

theorem hushed_stopJoin (h : Hushed b) (hal : Rc) (after : AfterStop) :
    Hushed (stopJoin hal after b) := by
  unfold stopJoin
  split
  next habsent => exact h.next _ habsent
  split
  · exact h.next _ trivial
  split
  next hexited =>
    refine Hushed.note ?_ rfl
    refine ⟨fun _ => .inr (.inl rfl), fun _ => .inr rfl, fun _ => .inr rfl, rfl, ?_, ?_, h.lawful⟩
    · exact fun hp => ⟨(h.paused hp).1, rfl⟩
    · have hprocessing := h.processing
      rw [hexited] at hprocessing
      simpa using hprocessing
  · exact h

theorem hushed_stopDeinit (h : Hushed b) (env : PipelineEnv) (after : AfterStop) :
    Hushed (stopDeinit env after b) := by
  have htouched := (h.other b.failed b.active b.inputChannels (pipelineDeinit env b.pipeline).2).note
    (show (Event.touched .deinit).aside = true from rfl)
  unfold stopDeinit
  simp only
  split
  · exact hushed_keep htouched after
  · exact hushed_endStop ((htouched.other _ false _ _).note rfl) after

theorem hushed_stopPipeline (h : Hushed b) (env : PipelineEnv) (after : AfterStop) :
    Hushed (stopPipeline env after b) := by
  have htouched := (h.other b.failed b.active b.inputChannels (pipelineStop env b.pipeline).2).note
    (show (Event.touched .stop).aside = true from rfl)
  unfold stopPipeline
  simp only
  split
  · split
    · exact hushed_keep htouched after
    · exact hushed_stopDeinit htouched env after
  · exact hushed_stopDeinit h env after

theorem hushed_cleanup (h : Hushed b) (env : PipelineEnv) (rc : Rc) : Hushed (cleanup env rc b) := by
  have htouched := (h.other b.failed b.active b.inputChannels (pipelineDeinit env b.pipeline).2).note
    (show (Event.touched .deinit).aside = true from rfl)
  unfold cleanup
  simp only
  split
  · exact hushed_startReturn ((htouched.other true true _ _).note rfl) _
  · exact hushed_startReturn htouched rc

theorem hushed_setupPipeline (h : Hushed b) (held : Bool) (habsent : b.worker = .absent) :
    Hushed (setupPipeline setup held b) := by
  have hinit := (h.other b.failed b.active b.inputChannels
    (pipelineInit b.pipeline (boardConfig setup)).2).note
    (show (Event.touched .init).aside = true from rfl)
  unfold setupPipeline
  simp only
  split
  · exact hushed_cleanup hinit _ _
  · have hconfigure := (hinit.other b.failed b.active b.inputChannels (pipelineConfigure setup.env
      (pipelineInit b.pipeline (boardConfig setup)).2 128).2).note
      (show (Event.touched .configure).aside = true from rfl)
    split
    · exact hushed_cleanup hconfigure _ _
    · exact hconfigure.next (.startCreate held) habsent

theorem hushed_startSetup (h : Hushed b) (start : Start) : Hushed (startSetup setup start b) := by
  unfold startSetup
  split
  · exact hushed_startReturn h _
  next hfree =>
    have habsent : b.worker = .absent := not_not.mp (not_or.mp hfree).1
    cases formatAccepted start.format with
    | none => exact hushed_startReturn h _
    | some format =>
      have htouched := (h.other b.failed b.active format.numChannels b.pipeline).note
        (show (Event.touched .reservoirInit).aside = true from rfl)
      simp only
      split
      · exact hushed_cleanup htouched _ _
      · exact hushed_setupPipeline (htouched.other _ _ _ _) _ habsent

theorem hushed_startCreate (h : Hushed b) (env : PipelineEnv) (hal : Rc) {held : Bool}
    (howner : b.owner = .startCreate held) : Hushed (startCreate env hal held b) := by
  have hknows := h.owner
  unfold ownerKnows at hknows
  rw [howner] at hknows
  have habsent : b.worker = .absent := hknows
  have hcleared : Hushed (clearFlags b) := by
    unfold clearFlags
    refine ⟨fun _ => .inr (.inl ?_), nofun, nofun, ?_, ?_, ?_, throughout_snoc h.lawful trivial⟩
    · simp only [habsent]
      rfl
    · unfold ownerKnows
      rw [howner]
      exact habsent
    · simp [hushAfter_snoc, Hush.after]
    · simp only [hushAfter_snoc, Hush.after]
      exact h.processing
  unfold startCreate
  simp only
  split
  · exact hushed_cleanup hcleared env hal
  · have hnone : ¬(hushAfter (clearFlags b).log).processing = true := by
      rw [hcleared.processing]
      change b.worker ≠ .processing
      rw [habsent]
      nofun
    refine Hushed.note ?_ rfl
    refine ⟨fun _ => .inl rfl, nofun, nofun, ⟨rfl, rfl, rfl, rfl⟩,
      fun hp => ⟨(hcleared.paused hp).1, rfl⟩, ?_, hcleared.lawful⟩
    exact ⟨fun hprocessing => absurd hprocessing hnone, nofun⟩

theorem hushed_startLaunch (h : Hushed b) (env : PipelineEnv) {held : Bool}
    (howner : b.owner = .startLaunch held) : Hushed (startLaunch env held b) := by
  have hknows := h.owner
  unfold ownerKnows at hknows
  rw [howner] at hknows
  have htouched := (h.other b.failed b.active b.inputChannels (pipelineStart env b.pipeline).2).note
    (show (Event.touched .start).aside = true from rfl)
  unfold startLaunch
  simp only
  split
  · exact hushed_beginStop htouched _
  · exact htouched.next _ hknows

/-- The gate of a start is opened, or stays closed. -/
theorem hushed_startOpen (h : Hushed b) {held : Bool} (howner : b.owner = .startOpen held) :
    Hushed (startReturn EAF_OK { b with runGate := !held }) := by
  have hknows := h.owner
  unfold ownerKnows at hknows
  rw [howner] at hknows
  obtain ⟨hgated, -, -, hack⟩ := hknows
  have hopen : Hushed { b with runGate := !held, owner := .idle } :=
    ⟨fun _ => .inl hgated, fun hack' => absurd (hack.symm.trans hack') (by decide), h.done, trivial,
      h.paused, h.processing, h.lawful⟩
  exact hopen.note rfl

theorem hushed_requestPause (h : Hushed b) (paused : Bool) : Hushed (requestPause paused b) := by
  unfold requestPause
  refine ⟨h.gate, h.ack, h.done, rfl, ?_, ?_, throughout_snoc h.lawful trivial⟩
  · intro hquiet
    simp only [hushAfter_snoc, Hush.after, Bool.and_eq_true] at hquiet
    exact ⟨hquiet.2, (h.paused hquiet.1).2⟩
  · simp only [hushAfter_snoc, Hush.after]
    exact h.processing

theorem not_busy_of_apart {worker : Worker} (h : worker.apart = true) : worker.busy = false := by
  cases worker with
  | volume | processing => cases h
  | _ => rfl

theorem not_busy_of_gated {worker : Worker} (h : worker.gated = true) : worker.busy = false := by
  cases worker with
  | volume | processing => cases h
  | _ => rfl

theorem apart_of_over {worker : Worker} (h : worker.over = true) : worker.apart = true := by
  cases worker with
  | finishing | exited | absent => rfl
  | _ => cases h

/-- A short way out of a pause: the gate is closed, so no worker is in a block. -/
theorem hushed_pauseShort (h : Hushed b) {paused : Bool} (ho : b.owner = .pauseShort paused)
    (hal : Rc) (late : Bool) : Hushed (ownerStep setup hal late b) := by
  have hknows := h.owner
  unfold ownerKnows at hknows
  unfold ownerStep
  rw [ho] at hknows ⊢
  obtain ⟨hrequest, hgate⟩ := hknows
  have hshort : Hushed { b with pauseAck := paused, owner := .idle } :=
    ⟨h.gate, fun _ => .inl hgate, h.done, trivial, h.paused, h.processing, h.lawful⟩
  apply hushed_pauseReturn hshort
  intro hp _
  refine ⟨hrequest.trans hp, ?_⟩
  rcases h.gate hgate with hgated | hover | ⟨hloop, -⟩
  · exact not_busy_of_gated hgated
  · exact not_busy_of_apart (apart_of_over hover)
  · simp only [hloop]
    rfl

/-- The worker has acknowledged the pause, or the owner waits on. -/
theorem hushed_pauseAck (h : Hushed b) {paused : Bool} (ho : b.owner = .pauseAck paused)
    (hal : Rc) (late : Bool) : Hushed (ownerStep setup hal late b) := by
  have hknows := h.owner
  unfold ownerKnows at hknows
  unfold ownerStep
  rw [ho] at hknows ⊢
  obtain ⟨hrequest, hgate⟩ := hknows
  apply h.next _
  by_cases hack : b.pauseAck = paused
  · simp only [if_pos hack]
    refine ⟨hrequest, fun hp => not_busy_of_apart ?_⟩
    apply (h.ack (hack.trans hp)).resolve_left
    rw [hgate]
    nofun
  · simp only [if_neg hack]
    exact ⟨hrequest, hgate⟩

/-- The worker is done, or the owner waits on. -/
theorem hushed_pauseDone (h : Hushed b) {paused : Bool} (ho : b.owner = .pauseDone paused)
    (hal : Rc) (late : Bool) : Hushed (ownerStep setup hal late b) := by
  have hknows := h.owner
  unfold ownerKnows at hknows
  unfold ownerStep
  rw [ho] at hknows ⊢
  obtain ⟨hrequest, hgate⟩ := hknows
  apply h.next _
  by_cases hdone : b.done = true
  · simp only [if_pos hdone]
    refine ⟨hrequest, fun _ => ?_⟩
    rcases h.done hdone with hw | hw
    · simp only [hw]
      rfl
    · simp only [hw]
      rfl
  · simp only [if_neg hdone]
    exact ⟨hrequest, hgate⟩

theorem hushed_pauseTime (h : Hushed b) {paused : Bool} (ho : b.owner = .pauseTime paused)
    (hal : Rc) (late : Bool) : Hushed (ownerStep setup hal late b) := by
  have hknows := h.owner
  unfold ownerKnows at hknows
  unfold ownerStep
  rw [ho] at hknows ⊢
  simp only
  split
  · exact hushed_pauseReturn h fun _ hrc => absurd hrc (by decide)
  · exact h.next _ hknows

/-- A release takes the request and the acknowledgement back, and then opens the gate. -/
theorem hushed_releases (h : Hushed b)
    (ho : b.owner = .releaseRequest ∨ b.owner = .releaseAck ∨ b.owner = .releaseGate)
    (hal : Rc) (late : Bool) : Hushed (ownerStep setup hal late b) := by
  have hknows := h.owner
  unfold ownerKnows at hknows
  unfold ownerStep
  rcases ho with ho | ho | ho
  · rw [ho]
    refine ⟨h.gate, h.ack, h.done, trivial, ?_, ?_, throughout_snoc h.lawful trivial⟩
    · simp [hushAfter_snoc, Hush.after]
    · simp only [hushAfter_snoc, Hush.after]
      exact h.processing
  · rw [ho]
    exact ⟨h.gate, nofun, h.done, nofun, h.paused, h.processing, h.lawful⟩
  · rw [ho] at hknows ⊢
    have hopen : Hushed { b with runGate := true, owner := .idle } :=
      ⟨nofun, fun hack => .inr (hknows hack), h.done, trivial, h.paused, h.processing, h.lawful⟩
    exact hopen.note rfl

theorem hushed_stopQuit (h : Hushed b) {after : AfterStop} (ho : b.owner = .stopQuit after)
    (hal : Rc) (late : Bool) : Hushed (ownerStep setup hal late b) := by
  unfold ownerStep
  rw [ho]
  refine ⟨?_, h.ack, h.done, trivial, h.paused, h.processing, h.lawful⟩
  intro hgate
  rcases h.gate hgate with hgated | hover | ⟨hloop, -⟩
  · exact .inl hgated
  · exact .inr (.inl hover)
  · exact .inr (.inr ⟨hloop, rfl⟩)

theorem hushed_pauseGate (h : Hushed b) {paused : Bool} (ho : b.owner = .pauseGate paused)
    (hal : Rc) (late : Bool) : Hushed (ownerStep setup hal late b) := by
  have hknows := h.owner
  unfold ownerKnows at hknows
  unfold ownerStep
  rw [ho] at hknows ⊢
  apply h.next _
  cases hgate : b.runGate with
  | false => exact ⟨hknows, rfl⟩
  | true => exact ⟨hknows, rfl⟩

theorem hushed_pauseFailed (h : Hushed b) {paused : Bool} (ho : b.owner = .pauseFailed paused)
    (hal : Rc) (late : Bool) : Hushed (ownerStep setup hal late b) := by
  have hknows := h.owner
  unfold ownerKnows at hknows
  unfold ownerStep
  rw [ho] at hknows ⊢
  exact hushed_pauseReturn h fun hp _ => ⟨hknows.1.trans hp, hknows.2 hp⟩

theorem hushed_owner (h : Hushed b) (hal : Rc) (late : Bool) :
    Hushed (ownerStep setup hal late b) := by
  cases ho : b.owner with
  | pauseGate paused => exact hushed_pauseGate h ho hal late
  | pauseShort paused => exact hushed_pauseShort h ho hal late
  | pauseAck paused => exact hushed_pauseAck h ho hal late
  | pauseDone paused => exact hushed_pauseDone h ho hal late
  | pauseTime paused => exact hushed_pauseTime h ho hal late
  | pauseFailed paused => exact hushed_pauseFailed h ho hal late
  | releaseRequest => exact hushed_releases h (.inl ho) hal late
  | releaseAck => exact hushed_releases h (.inr (.inl ho)) hal late
  | releaseGate => exact hushed_releases h (.inr (.inr ho)) hal late
  | stopQuit after => exact hushed_stopQuit h ho hal late
  | idle =>
    rw [ownerStep, ho]
    exact h
  | releaseFailed =>
    rw [ownerStep, ho]
    dsimp only
    split
    · exact hushed_releaseReturn h _
    · exact h.next _ trivial
  | stopJoin after =>
    rw [ownerStep, ho]
    exact hushed_stopJoin h hal after
  | stopFailed after =>
    rw [ownerStep, ho]
    exact hushed_keep h after
  | stopPipeline after =>
    rw [ownerStep, ho]
    exact hushed_stopPipeline h setup.env after
  | startDone start =>
    rw [ownerStep, ho]
    dsimp only
    split
    · exact hushed_beginStop h _
    · exact hushed_startReturn h _
  | startSetup start =>
    rw [ownerStep, ho]
    exact hushed_startSetup h start
  | startCreate held =>
    rw [ownerStep, ho]
    exact hushed_startCreate h setup.env hal ho
  | startLaunch held =>
    rw [ownerStep, ho]
    exact hushed_startLaunch h setup.env ho
  | startOpen held =>
    rw [ownerStep, ho]
    exact hushed_startOpen h ho

theorem hushed_call (h : Hushed b) (call : Call) : Hushed (beginCall b call) := by
  cases call with
  | start start =>
    apply h.next _
    cases hactive : b.active with
    | false => trivial
    | true => trivial
  | replace start =>
    simp only [beginCall, beginReplace]
    split
    · exact hushed_startReturn h _
    · exact hushed_beginStop h _
  | release =>
    simp only [beginCall, beginRelease]
    split
    · exact h.next _ trivial
    · exact hushed_releaseReturn h _
  | write samples frames => exact h.other b.failed b.active b.inputChannels _
  | pause paused => exact hushed_requestPause h paused
  | stop => exact hushed_beginStop (h.note rfl) _

theorem hushed_step (h : Hushed b) (action : Action) : Hushed (boardStep setup b action) := by
  cases action with
  | worker hook => exact hushed_worker h
  | owner hal late => exact hushed_owner h hal late
  | call call =>
    simp only [boardStep]
    split
    · exact hushed_call h call
    · exact h

theorem hushed_run (h : Hushed b) (actions : List Action) : Hushed (boardRun setup b actions) := by
  induction actions generalizing b with
  | nil => exact h
  | cons action actions ih => exact ih (hushed_step h action)

end OwnerSteps

theorem hushed_fresh (setup : Setup) (mem : Mem) : Hushed (freshBoard setup mem) :=
  ⟨fun _ => .inr (.inl rfl), nofun, nofun, trivial, nofun, by simp [hushAfter, freshBoard],
    throughout_nil⟩

/-- In every interleaving of the worker with the calls of the owner: when a pause is reported as
done, no call of `eaf_pipeline_process` is in progress, and none begins until the request is
cleared. -/
theorem pause_hushes (setup : Setup) (mem : Mem) (actions : List Action) :
    Throughout HushLaw (boardRun setup (freshBoard setup mem) actions).log :=
  (hushed_run (hushed_fresh setup mem) actions).lawful

/-- A setup in which nothing fails. -/
def plainSetup : Setup where
  env := {
    sinkInit := fun _ => EAF_OK
    sinkStart := fun _ => EAF_OK
    sinkStop := fun _ => EAF_OK
    sinkDeinit := fun _ => EAF_OK
    acquire := fun _ => (EAF_OK, none)
    commit := fun _ _ => EAF_OK
    nodeInit := fun _ _ fmt => (EAF_OK, fmt)
    nodeProcess := fun _ _ buf mem => (EAF_OK, buf, mem)
    nodeReset := fun _ _ => EAF_OK }
  sinkOps := true
  storage := List.replicate 512 0
  capacity := 256
  sizeMax := 0xFFFFFFFF

/-- A pause that comes too late, a release, and a pause that takes the old acknowledgement for its
own: the worker sees the new request before it begins a block. -/
def lateActions : List Action :=
  [.call (.start ⟨some ⟨48000, 2, 3⟩, 128, false⟩), .owner 0 false, .owner 0 false, .owner 0 false,
    .owner 0 false, .worker 0, .worker 0, .call (.pause true), .worker 0, .worker 0,
    .owner 0 false, .owner 0 false, .owner 0 false, .owner 0 true, .call .release, .owner 0 false,
    .owner 0 false, .owner 0 false, .owner 0 false, .worker 0, .worker 0, .call (.pause true),
    .owner 0 false, .owner 0 false, .owner 0 false, .worker 0, .worker 0, .worker 0, .worker 0]

example : (boardRun plainSetup (freshBoard plainSetup fun _ => []) lateActions).log.drop 8 =
      [.request true, .pauseReturned true EAF_IO, .request false, .releaseReturned EAF_OK,
        .request true, .pauseReturned true EAF_OK] ∧
    (boardRun plainSetup (freshBoard plainSetup fun _ => []) lateActions).worker = .pausing := by
  decide +kernel

end EmbeddedAudio.Output
