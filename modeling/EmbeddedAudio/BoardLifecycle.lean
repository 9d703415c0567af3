-- The lifecycle of the board output (board_output.c): what is initialised or torn
-- down and when, through every start that is rolled back and every teardown that
-- fails and is tried again.
import EmbeddedAudio.BoardPause
import EmbeddedAudio.PipelineSizes

namespace EmbeddedAudio.Output

open EmbeddedAudio.Core Log

/-! ## What a log says -/

/-- `alive`: a worker was created, and was not joined since. `loose`: it has passed the gate.
`owed`: a teardown has failed, and none has worked since. `untried`: a stop of such an output was
called, and has not tried the teardown yet. -/
structure Custody where
  alive : Bool
  loose : Bool
  owed : Bool
  untried : Bool
  deriving DecidableEq, Repr

def Custody.after (c : Custody) : Event → Custody
  | .created => { c with alive := true }
  | .gatePassed => { c with loose := true }
  | .joined => { c with alive := false, loose := false }
  | .kept => { c with owed := true, untried := false }
  | .retired => { c with owed := false, untried := false }
  | .stopCalled => { c with untried := c.owed }
  | _ => c

def custodyAfter (log : List Event) : Custody := log.foldl Custody.after ⟨false, false, false, false⟩

/-- Nothing is initialised, reset or torn down under a worker that is loose. No start works while a
teardown is owed, and no stop ends without trying it. -/
def CustodyLaw (log : List Event) : Event → Prop
  | .touched _ => (custodyAfter log).loose = false
  | .startReturned rc => rc = EAF_OK → (custodyAfter log).owed = false
  | .stopReturned => (custodyAfter log).untried = false
  | _ => True

theorem custodyAfter_snoc (log : List Event) (e : Event) :
    custodyAfter (log ++ [e]) = (custodyAfter log).after e := by
  simp [custodyAfter, List.foldl_append]

/-! ## The states of the pipeline -/

section States

variable {env : PipelineEnv} {p : Pipeline}

theorem process_state : (pipelineProcess env p).2.state = p.state := by
  unfold pipelineProcess
  simp only
  split
  · rfl
  split
  · rfl
  split
  · rfl
  split
  · rfl
  split
  · rfl
  · rw [processRest_frame]
    rfl

theorem stop_initialized (h : p.state ≠ .uninitialized) :
    (pipelineStop env p).2.state ≠ .uninitialized := by
  unfold pipelineStop
  simp only
  split
  · exact h
  split
  · exact h
  · rw [resetNodes_frame]
    simp only
    split
    · nofun
    · nofun

theorem start_initialized (h : p.state ≠ .uninitialized) :
    (pipelineStart env p).2.state ≠ .uninitialized := by
  unfold pipelineStart
  simp only
  split
  · exact h
  split
  · nofun
  · exact stop_initialized (by nofun)

theorem release_failed (h : (release env p).1 ≠ EAF_OK) : (release env p).2.state = .recovery := by
  unfold release at h ⊢
  split
  next hsink =>
    rw [if_pos hsink] at h
    simp only at h ⊢
    split
    · rfl
    next hrc =>
      rw [if_neg hrc] at h
      exact absurd rfl h
  next hsink =>
    rw [if_neg hsink] at h
    exact absurd rfl h

/-- A pipeline that could not be torn down is still there. -/
theorem deinit_state : (pipelineDeinit env p).2.state = .uninitialized ↔
    (pipelineDeinit env p).1 = EAF_OK := by
  unfold pipelineDeinit
  by_cases hrunning : p.state = .running
  · rw [if_pos hrunning, hrunning]
    exact ⟨nofun, nofun⟩
  rw [if_neg hrunning]
  simp only
  by_cases hrc : (release env p).1 ≠ EAF_OK
  · rw [if_pos hrc, release_failed hrc]
    exact ⟨nofun, fun hok => absurd hok hrc⟩
  · rw [if_neg hrc]
    exact ⟨fun _ => rfl, fun _ => rfl⟩

theorem configure_ok {n : UInt32} (h : (pipelineConfigure env p n).1 = EAF_OK) :
    (pipelineConfigure env p n).2.state = .configured := by
  unfold pipelineConfigure at h ⊢
  split
  next hstate =>
    rw [if_pos hstate] at h
    cases h
  next hstate =>
  rw [if_neg hstate] at h
  split
  next hblock =>
    rw [if_pos hblock] at h
    cases h
  next hblock =>
  rw [if_neg hblock] at h
  simp only at h ⊢
  split
  next hrelease =>
    rw [if_pos hrelease] at h
    exact absurd h hrelease
  next hrelease =>
  rw [if_neg hrelease] at h
  split
  next hinit =>
    rw [if_pos hinit] at h
    exact absurd h hinit
  next hinit =>
  rw [if_neg hinit] at h
  split
  next hsink =>
    rw [if_pos hsink] at h
    simp only at h
    split at h
    next hcleanup => exact absurd h hcleanup
    next => exact absurd h hsink
  next => rfl

end States

/-! ## What the output owns -/

/-- The worker has passed the gate. -/
def Worker.passed : Worker → Bool
  | .absent => false
  | .gate => false
  | .gateQuit => false
  | _ => true

def Owner.stopping : Owner → Bool
  | .stopQuit _ => true
  | .stopJoin _ => true
  | .stopFailed _ => true
  | .stopPipeline _ => true
  | _ => false

/-- A start that is rolled back does not report success. -/
def AfterStop.fails : AfterStop → Prop
  | .launch rc => rc ≠ EAF_OK
  | _ => True

/-- What the owner knows of the output inside a call. -/
def ownerHolds (b : Board) : Prop :=
  match b.owner with
  | .stopQuit after => b.active = true ∧ after.fails
  | .stopJoin after => b.active = true ∧ after.fails
  | .stopFailed after => b.active = true ∧ after.fails
  | .stopPipeline after => b.active = true ∧ after.fails
  | .startDone _ => b.active = true
  | .startCreate _ => b.active = false ∧ b.pipeline.state ≠ .uninitialized
  | .startLaunch _ => b.active = true ∧ (custodyAfter b.log).owed = false
  | .startOpen _ => b.active = true ∧ (custodyAfter b.log).owed = false
  | _ => True

/-- What the output has, whatever the owner does. -/
structure Custodial (b : Board) : Prop where
  alive : (custodyAfter b.log).alive = true ↔ b.worker ≠ .absent
  loose : (custodyAfter b.log).loose = b.worker.passed
  worker : b.active = false → b.worker = .absent
  pipeline : b.active = true → b.pipeline.state ≠ .uninitialized
  owed : (custodyAfter b.log).owed = true → b.active = true
  untried : (custodyAfter b.log).untried = true → (custodyAfter b.log).owed = true
  lawful : Throughout CustodyLaw b.log

/-- The output at the end of a call: an inactive one has nothing. -/
structure Settled (b : Board) : Prop extends Custodial b where
  free : b.active = false → b.pipeline.state = .uninitialized
  tried : (custodyAfter b.log).untried = false

/-- What holds between two steps. -/
structure Owned (b : Board) : Prop extends Custodial b where
  free : b.active = false → (∀ held, b.owner ≠ .startCreate held) →
    b.pipeline.state = .uninitialized
  stopping : (custodyAfter b.log).untried = true → b.owner.stopping = true
  owner : ownerHolds b

section Calls

variable {setup : Setup} {b : Board}

/-- What changes no custody. -/
def Event.minor : Event → Bool
  | .created => false
  | .gatePassed => false
  | .joined => false
  | .kept => false
  | .retired => false
  | .stopCalled => false
  | _ => true

theorem custodyAfter_minor {log : List Event} {e : Event} (he : e.minor = true) :
    custodyAfter (log ++ [e]) = custodyAfter log := by
  rw [custodyAfter_snoc]
  cases e with
  | created | gatePassed | joined | kept | retired | stopCalled => cases he
  | _ => rfl

theorem Custodial.note (h : Custodial b) {e : Event} (he : e.minor = true)
    (hlaw : CustodyLaw b.log e) : Custodial (note b e) := by
  refine ⟨?_, ?_, h.worker, h.pipeline, ?_, ?_, throughout_snoc h.lawful hlaw⟩
  · simp only [custodyAfter_minor he]
    exact h.alive
  · simp only [custodyAfter_minor he]
    exact h.loose
  · simp only [custodyAfter_minor he]
    exact h.owed
  · simp only [custodyAfter_minor he]
    exact h.untried

theorem Settled.note (h : Settled b) {e : Event} (he : e.minor = true)
    (hlaw : CustodyLaw b.log e) : Settled (note b e) := by
  refine ⟨h.toCustodial.note he hlaw, h.free, ?_⟩
  simp only [custodyAfter_minor he]
  exact h.tried

/-- The owner goes on from the end of a call. -/
theorem Settled.next (h : Settled b) (owner : Owner) (howner : ownerHolds { b with owner := owner }) :
    Owned { b with owner := owner } := by
  refine ⟨⟨h.alive, h.loose, h.worker, h.pipeline, h.owed, h.untried, h.lawful⟩,
    fun ha _ => h.free ha, ?_, howner⟩
  intro huntried
  rw [show (custodyAfter b.log).untried = false from h.tried] at huntried
  cases huntried

/-- The owner goes on in one of two ways. -/
theorem Settled.branch (h : Settled b) {c : Prop} [Decidable c] {yes no : Owner}
    (hyes : ownerHolds { b with owner := yes }) (hno : ownerHolds { b with owner := no }) :
    Owned { b with owner := if c then yes else no } := by
  split
  · exact h.next yes hyes
  · exact h.next no hno

theorem Settled.idle (h : Settled b) : Settled { b with owner := .idle } :=
  ⟨⟨h.alive, h.loose, h.worker, h.pipeline, h.owed, h.untried, h.lawful⟩, h.free, h.tried⟩

theorem owned_idle (h : Settled b) (howner : b.owner = .idle) : Owned b := by
  have hknows : ownerHolds b := by
    unfold ownerHolds
    rw [howner]
    trivial
  refine ⟨h.toCustodial, fun ha _ => h.free ha, ?_, hknows⟩
  intro huntried
  rw [h.tried] at huntried
  cases huntried

theorem owned_startReturn (h : Settled b) {rc : Rc}
    (hrc : rc = EAF_OK → (custodyAfter b.log).owed = false) : Owned (startReturn rc b) :=
  owned_idle (h.idle.note rfl hrc) rfl

theorem owned_releaseReturn (h : Settled b) (rc : Rc) : Owned (releaseReturn rc b) :=
  owned_idle (h.idle.note rfl trivial) rfl

theorem owned_pauseReturn (h : Settled b) (paused : Bool) (rc : Rc) :
    Owned (pauseReturn paused rc b) :=
  owned_idle (h.idle.note rfl trivial) rfl

theorem owned_endStop (h : Settled b) {after : AfterStop} (hafter : after.fails) :
    Owned (endStop after b) := by
  cases after with
  | call => exact owned_idle (h.idle.note rfl h.tried) rfl
  | start start => exact h.next _ trivial
  | replace start =>
    unfold endStop
    simp only
    split
    · exact owned_startReturn h fun hrc => absurd hrc (by decide)
    · exact h.next _ trivial
  | launch rc => exact owned_startReturn h fun hrc => absurd hrc hafter

theorem Custodial.withPipeline (h : Custodial b) {pipeline : Pipeline}
    (hpipeline : b.active = true → pipeline.state ≠ .uninitialized) :
    Custodial { b with pipeline := pipeline } :=
  ⟨h.alive, h.loose, h.worker, hpipeline, h.owed, h.untried, h.lawful⟩

theorem Custodial.withOwner (h : Custodial b) (owner : Owner) : Custodial { b with owner := owner } :=
  ⟨h.alive, h.loose, h.worker, h.pipeline, h.owed, h.untried, h.lawful⟩

theorem Custodial.still (h : Custodial b) (habsent : b.worker = .absent) :
    (custodyAfter b.log).loose = false := by
  rw [h.loose, habsent]
  rfl

/-- An inactive output owes nothing. -/
theorem Custodial.paid (h : Custodial b) (hinactive : b.active = false) :
    (custodyAfter b.log).owed = false := by
  by_contra howed
  have hactive := h.owed (by simpa using howed)
  rw [hinactive] at hactive
  cases hactive

theorem Custodial.quiet (h : Custodial b) (hinactive : b.active = false) :
    (custodyAfter b.log).untried = false := by
  by_contra huntried
  have howed := h.untried (by simpa using huntried)
  rw [h.paid hinactive] at howed
  cases howed

theorem Custodial.activate (h : Custodial b) (hpipeline : b.pipeline.state ≠ .uninitialized) :
    Custodial { b with active := true } :=
  ⟨h.alive, h.loose, nofun, fun _ => hpipeline, fun _ => rfl, h.untried, h.lawful⟩

@[simp] theorem custody_kept (log : List Event) :
    custodyAfter (log ++ [.kept]) =
      ⟨(custodyAfter log).alive, (custodyAfter log).loose, true, false⟩ := by
  rw [custodyAfter_snoc]
  rfl

@[simp] theorem custody_retired (log : List Event) :
    custodyAfter (log ++ [.retired]) =
      ⟨(custodyAfter log).alive, (custodyAfter log).loose, false, false⟩ := by
  rw [custodyAfter_snoc]
  rfl

/-- A teardown that fails keeps an output that has something. -/
theorem settled_kept (h : Custodial b) (hactive : b.active = true) :
    Settled (Output.note { b with failed := true } .kept) := by
  refine ⟨⟨?_, ?_, h.worker, h.pipeline, fun _ => hactive, ?_, throughout_snoc h.lawful trivial⟩,
    ?_, ?_⟩
  · simp only [custody_kept]
    exact h.alive
  · simp only [custody_kept]
    exact h.loose
  · simp only [custody_kept]
    nofun
  · intro hinactive
    rw [show b.active = false from hinactive] at hactive
    cases hactive
  · simp only [custody_kept]

theorem owned_keep (h : Custodial b) (hactive : b.active = true) {after : AfterStop}
    (hafter : after.fails) : Owned (keep after b) :=
  owned_endStop (settled_kept h hactive) hafter

/-- What was torn down, with its worker joined, is given up. -/
theorem settled_retired (h : Custodial b) (habsent : b.worker = .absent) {pipeline : Pipeline}
    (hpipeline : pipeline.state = .uninitialized) : Settled (Output.note
      { Output.note { b with pipeline := pipeline } (.touched .deinit) with active := false }
      .retired) := by
  have htouched : Throughout CustodyLaw (b.log ++ [.touched .deinit]) :=
    throughout_snoc h.lawful (h.still habsent)
  have hdeinit : custodyAfter (b.log ++ [.touched .deinit]) = custodyAfter b.log :=
    custodyAfter_minor rfl
  refine ⟨⟨?_, ?_, fun _ => habsent, nofun, ?_, ?_, throughout_snoc htouched trivial⟩,
    fun _ => hpipeline, ?_⟩
  · simp only [custody_retired, hdeinit]
    exact h.alive
  · simp only [custody_retired, hdeinit]
    exact h.loose
  · simp only [custody_retired]
    nofun
  · simp only [custody_retired]
    nofun
  · simp only [custody_retired]

theorem custodial_touched (h : Custodial b) (habsent : b.worker = .absent) (pipeline : Pipeline)
    (hpipeline : b.active = true → pipeline.state ≠ .uninitialized) (op : Touch) :
    Custodial (Output.note { b with pipeline := pipeline } (.touched op)) :=
  (h.withPipeline hpipeline).note rfl (h.still habsent)

theorem owned_stopDeinit (h : Custodial b) (env : PipelineEnv) (hactive : b.active = true)
    (habsent : b.worker = .absent) {after : AfterStop} (hafter : after.fails) :
    Owned (stopDeinit env after b) := by
  unfold stopDeinit
  simp only
  split
  next hrc =>
    exact owned_keep (custodial_touched h habsent _ (fun _ hfree => hrc (deinit_state.mp hfree)) _)
      hactive hafter
  next hrc =>
    exact owned_endStop (settled_retired h habsent (deinit_state.mpr (not_not.mp hrc))) hafter

theorem owned_stopPipeline (h : Custodial b) (env : PipelineEnv) (hactive : b.active = true)
    (habsent : b.worker = .absent) {after : AfterStop} (hafter : after.fails) :
    Owned (stopPipeline env after b) := by
  have htouched := custodial_touched h habsent _
    (fun _ => @stop_initialized env b.pipeline (h.pipeline hactive)) .stop
  unfold stopPipeline
  simp only
  split
  · split
    · exact owned_keep htouched hactive hafter
    · exact owned_stopDeinit htouched env hactive habsent hafter
  · exact owned_stopDeinit h env hactive habsent hafter

/-- An active output inside a stop. -/
theorem owned_stopping (h : Custodial b) (hactive : b.active = true)
    (hstopping : b.owner.stopping = true) (howner : ownerHolds b) : Owned b := by
  refine ⟨h, fun hinactive => ?_, fun _ => hstopping, howner⟩
  rw [hactive] at hinactive
  cases hinactive

theorem owned_stopJoin (h : Custodial b) (hal : Rc) {after : AfterStop} (hactive : b.active = true)
    (hafter : after.fails) (howner : b.owner = .stopJoin after) : Owned (stopJoin hal after b) := by
  unfold stopJoin
  split
  · exact owned_stopping (h.withOwner _) hactive rfl ⟨hactive, hafter⟩
  split
  · exact owned_stopping (h.withOwner _) hactive rfl ⟨hactive, hafter⟩
  split
  · have hjoined : Custodial (Output.note { b with
        worker := .absent, owner := .stopPipeline after } .joined) := by
      refine ⟨?_, ?_, fun _ => rfl, h.pipeline, ?_, ?_, throughout_snoc h.lawful trivial⟩
      · simp only [custodyAfter_snoc, Custody.after]
        simp
      · simp only [custodyAfter_snoc, Custody.after]
        rfl
      · simp only [custodyAfter_snoc, Custody.after]
        exact h.owed
      · simp only [custodyAfter_snoc, Custody.after]
        exact h.untried
    exact owned_stopping hjoined hactive rfl ⟨hactive, hafter⟩
  · apply owned_stopping h hactive (by rw [howner]; rfl)
    unfold ownerHolds
    rw [howner]
    exact ⟨hactive, hafter⟩

/-- A stop begins. Whatever is owed is still to be tried, or there is nothing to stop. -/
theorem owned_beginStop (h : Custodial b)
    (hfree : b.active = false → b.pipeline.state = .uninitialized) {after : AfterStop}
    (hafter : after.fails) : Owned (beginStop after b) := by
  unfold beginStop
  split
  next hactive => exact owned_stopping (h.withOwner _) hactive rfl ⟨hactive, hafter⟩
  next hinactive =>
    have hinactive : b.active = false := by simpa using hinactive
    exact owned_endStop ⟨h, hfree, h.quiet hinactive⟩ hafter

/-! ## Start -/

theorem owned_cleanup (h : Custodial b) (env : PipelineEnv) (hinactive : b.active = false)
    (rc : Rc) : Owned (cleanup env rc b) := by
  have hnone : ∀ {P : Prop}, b.active = true → P := by
    intro P hactive
    rw [hinactive] at hactive
    cases hactive
  have htouched := custodial_touched h (h.worker hinactive) (pipelineDeinit env b.pipeline).2
    (fun hactive => hnone hactive) .deinit
  unfold cleanup
  simp only
  split
  next hrc =>
    have hleft := htouched.activate fun hfree => hrc (deinit_state.mp hfree)
    exact owned_startReturn (settled_kept hleft rfl) fun hok => absurd hok hrc
  next hrc =>
    exact owned_startReturn ⟨htouched, fun _ => deinit_state.mpr (not_not.mp hrc),
      htouched.quiet hinactive⟩ fun _ => htouched.paid hinactive

theorem owned_setupPipeline (h : Custodial b) (hinactive : b.active = false) (held : Bool) :
    Owned (setupPipeline setup held b) := by
  have hnone : ∀ {P : Prop}, b.active = true → P := by
    intro P hactive
    rw [hinactive] at hactive
    cases hactive
  have hinit := custodial_touched h (h.worker hinactive)
    (pipelineInit b.pipeline (boardConfig setup)).2 (fun hactive => hnone hactive) .init
  have hconfigure := custodial_touched hinit (h.worker hinactive) (pipelineConfigure setup.env
    (pipelineInit b.pipeline (boardConfig setup)).2 128).2 (fun hactive => hnone hactive) .configure
  unfold setupPipeline
  simp only
  split
  · exact owned_cleanup hinit _ hinactive _
  split
  · exact owned_cleanup hconfigure _ hinactive _
  next hrc =>
    refine ⟨hconfigure.withOwner _, fun _ howner => absurd rfl (howner held), ?_, hinactive, ?_⟩
    · intro huntried
      have hquiet := hconfigure.quiet hinactive
      rw [hquiet] at huntried
      cases huntried
    · simp only
      rw [configure_ok (not_not.mp hrc)]
      nofun

theorem owned_startSetup (h : Custodial b)
    (hfree : b.active = false → b.pipeline.state = .uninitialized)
    (hquiet : (custodyAfter b.log).untried = false) (start : Start) :
    Owned (startSetup setup start b) := by
  unfold startSetup
  split
  · exact owned_startReturn ⟨h, hfree, hquiet⟩ fun hrc => absurd hrc (by decide)
  next hnothing =>
    -- only an inactive output has nothing
    have hinactive : b.active = false := by
      by_contra hactive
      exact h.pipeline (by simpa using hactive) (not_not.mp (not_or.mp hnothing).2)
    cases formatAccepted start.format with
    | none => exact owned_startReturn ⟨h, hfree, hquiet⟩ fun _ => h.paid hinactive
    | some format =>
      have htouched : Custodial (Output.note { b with inputChannels := format.numChannels }
          (.touched .reservoirInit)) :=
        Custodial.note (b := { b with inputChannels := format.numChannels })
          ⟨h.alive, h.loose, h.worker, h.pipeline, h.owed, h.untried, h.lawful⟩ rfl
          (h.still (h.worker hinactive))
      simp only
      split
      · exact owned_cleanup htouched _ hinactive _
      · refine owned_setupPipeline (htouched.withPipeline fun hactive => ?_) hinactive _
        rw [show b.active = true from hactive] at hinactive
        cases hinactive

theorem owned_startCreate (h : Custodial b) (env : PipelineEnv) (hal : Rc) (held : Bool)
    (hinactive : b.active = false) (hpipeline : b.pipeline.state ≠ .uninitialized) :
    Owned (startCreate env hal held b) := by
  have hcleared : Custodial (clearFlags b) := by
    refine Custodial.note ?_ rfl trivial
    exact ⟨h.alive, h.loose, h.worker, h.pipeline, h.owed, h.untried, h.lawful⟩
  unfold startCreate
  simp only
  split
  · exact owned_cleanup hcleared env hinactive hal
  · have hcreated : Custodial (Output.note { clearFlags b with
        worker := .gate, active := true, owner := .startLaunch held } .created) := by
      refine ⟨?_, ?_, nofun, fun _ => hpipeline, fun _ => rfl, ?_,
        throughout_snoc hcleared.lawful trivial⟩
      · simp only [custodyAfter_snoc, Custody.after]
        simp
      · simp only [custodyAfter_snoc, Custody.after]
        exact hcleared.still (h.worker hinactive)
      · simp only [custodyAfter_snoc, Custody.after]
        exact hcleared.untried
    refine ⟨hcreated, nofun, ?_, rfl, ?_⟩
    · simp only [custodyAfter_snoc, Custody.after]
      intro huntried
      have hquiet := hcleared.quiet hinactive
      rw [hquiet] at huntried
      cases huntried
    · simp only [custodyAfter_snoc, Custody.after]
      exact hcleared.paid hinactive

theorem not_passed_of_gated {worker : Worker} (h : worker.gated = true) : worker.passed = false := by
  cases worker with
  | gate | gateQuit => rfl
  | _ => cases h

/-- The pipeline is started in front of a worker that is held at the gate. -/
theorem owned_startLaunch (h : Custodial b) (env : PipelineEnv) (held : Bool)
    (hactive : b.active = true) (howed : (custodyAfter b.log).owed = false)
    (hgated : b.worker.gated = true) : Owned (startLaunch env held b) := by
  have hstill : (custodyAfter b.log).loose = false := h.loose.trans (not_passed_of_gated hgated)
  have hstarted : Custodial (Output.note { b with
      pipeline := (pipelineStart env b.pipeline).2 } (.touched .start)) :=
    (h.withPipeline fun _ => start_initialized (h.pipeline hactive)).note rfl hstill
  have hnone : ∀ {P : Prop}, b.active = false → P := by
    intro P hinactive
    rw [hactive] at hinactive
    cases hinactive
  unfold startLaunch
  simp only
  split
  next hrc => exact owned_beginStop hstarted (fun hinactive => hnone hinactive) hrc
  next =>
    refine ⟨hstarted.withOwner _, fun hinactive _ => hnone hinactive, ?_, hactive, ?_⟩
    · simp only
      rw [custodyAfter_minor rfl]
      intro huntried
      rw [h.untried huntried] at howed
      cases howed
    · simp only
      rw [custodyAfter_minor rfl]
      exact howed

/-! ## Runs -/

/-- Between two calls, and in a call that is no stop and no setup, the output is settled. -/
theorem Owned.settled (h : Owned b) (hcreate : ∀ held, b.owner ≠ .startCreate held)
    (hstop : b.owner.stopping = false) : Settled b := by
  refine ⟨h.toCustodial, fun hinactive => h.free hinactive hcreate, ?_⟩
  by_contra huntried
  have hstopping := h.stopping (by simpa using huntried)
  rw [hstop] at hstopping
  cases hstopping

/-- What the owner does to the flags of a worker changes no custody. -/
theorem Settled.flags (h : Settled b) (quit failed pauseRequest pauseAck runGate : Bool) :
    Settled { b with
      quit := quit, failed := failed, pauseRequest := pauseRequest, pauseAck := pauseAck
      runGate := runGate } :=
  ⟨⟨h.alive, h.loose, h.worker, h.pipeline, h.owed, h.untried, h.lawful⟩, h.free, h.tried⟩

theorem owned_owner (h : Owned b) (hushed : Hushed b) (hal : Rc) (late : Bool) :
    Owned (ownerStep setup hal late b) := by
  have hholds := h.owner
  have hknows := hushed.owner
  unfold ownerHolds at hholds
  unfold ownerKnows at hknows
  have hsettled := h.settled
  unfold ownerStep
  cases ho : b.owner with
  | idle => exact h
  | stopQuit after =>
    rw [ho] at hholds
    refine owned_stopping ?_ hholds.1 rfl hholds
    exact ⟨h.alive, h.loose, h.worker, h.pipeline, h.owed, h.untried, h.lawful⟩
  | stopJoin after =>
    rw [ho] at hholds
    exact owned_stopJoin h.toCustodial hal hholds.1 hholds.2 ho
  | stopFailed after =>
    rw [ho] at hholds
    exact owned_keep h.toCustodial hholds.1 hholds.2
  | stopPipeline after =>
    rw [ho] at hholds hknows
    exact owned_stopPipeline h.toCustodial setup.env hholds.1 hknows hholds.2
  | startCreate held =>
    rw [ho] at hholds
    exact owned_startCreate h.toCustodial setup.env hal held hholds.1 hholds.2
  | startLaunch held =>
    rw [ho] at hholds hknows
    exact owned_startLaunch h.toCustodial setup.env held hholds.1 hholds.2 hknows.1
  | startOpen held =>
    rw [ho] at hholds hsettled
    have hopen := (hsettled nofun rfl).flags b.quit b.failed b.pauseRequest b.pauseAck (!held)
    exact owned_startReturn hopen fun _ => hholds.2
  | startSetup start =>
    rw [ho] at hsettled
    have hdone := hsettled nofun rfl
    exact owned_startSetup h.toCustodial hdone.free hdone.tried start
  | startDone start =>
    rw [ho] at hsettled
    have hdone := hsettled nofun rfl
    simp only
    split
    · exact owned_beginStop h.toCustodial hdone.free trivial
    · exact owned_startReturn hdone fun hrc => absurd hrc (by decide)
  | pauseGate paused | pauseAck paused | pauseDone paused =>
    rw [ho] at hsettled
    exact (hsettled nofun rfl).branch trivial trivial
  | pauseTime paused =>
    rw [ho] at hsettled
    have hdone := hsettled nofun rfl
    simp only
    split
    · exact owned_pauseReturn hdone paused _
    · exact hdone.next _ trivial
  | pauseShort paused =>
    rw [ho] at hsettled
    have hshort := (hsettled nofun rfl).flags b.quit b.failed b.pauseRequest paused b.runGate
    exact owned_pauseReturn hshort paused _
  | pauseFailed paused =>
    rw [ho] at hsettled
    exact owned_pauseReturn (hsettled nofun rfl) paused _
  | releaseFailed =>
    rw [ho] at hsettled
    have hdone := hsettled nofun rfl
    simp only
    split
    · exact owned_releaseReturn hdone _
    · exact hdone.next _ trivial
  | releaseRequest =>
    rw [ho] at hsettled
    have hrequest := (hsettled nofun rfl).flags b.quit b.failed false b.pauseAck b.runGate
    exact (hrequest.note (e := .request false) rfl trivial).next .releaseAck trivial
  | releaseAck =>
    rw [ho] at hsettled
    have hack := (hsettled nofun rfl).flags b.quit b.failed b.pauseRequest false b.runGate
    exact hack.next .releaseGate trivial
  | releaseGate =>
    rw [ho] at hsettled
    have hopen := (hsettled nofun rfl).flags b.quit b.failed b.pauseRequest b.pauseAck true
    exact owned_releaseReturn hopen _

/-- Custody is about the log, the worker and the state of the pipeline. -/
theorem Custodial.move {b' : Board} (h : Custodial b) (hlog : b'.log = b.log)
    (hactive : b'.active = b.active) (hstate : b'.pipeline.state = b.pipeline.state)
    (hpassed : b'.worker.passed = b.worker.passed)
    (habsent : b'.worker = .absent ↔ b.worker = .absent) : Custodial b' := by
  refine ⟨?_, ?_, ?_, ?_, ?_, ?_, ?_⟩
  · rw [hlog, ne_eq, habsent]
    exact h.alive
  · rw [hlog, hpassed]
    exact h.loose
  · rw [hactive, habsent]
    exact h.worker
  · rw [hactive, hstate]
    exact h.pipeline
  · rw [hlog, hactive]
    exact h.owed
  · rw [hlog]
    exact h.untried
  · rw [hlog]
    exact h.lawful

/-- A worker at the gate passes it. -/
theorem custodial_passed (h : Custodial b) (hgated : b.worker.gated = true) :
    Custodial (Output.note { b with worker := .loop } .gatePassed) := by
  have hthere : b.worker ≠ .absent := by
    intro habsent
    rw [habsent] at hgated
    cases hgated
  refine ⟨?_, ?_, fun hinactive => absurd (h.worker hinactive) hthere, h.pipeline, ?_, ?_,
    throughout_snoc h.lawful trivial⟩
  · simp only [custodyAfter_snoc, Custody.after]
    exact ⟨nofun, fun _ => h.alive.mpr hthere⟩
  · simp only [custodyAfter_snoc, Custody.after]
    rfl
  · simp only [custodyAfter_snoc, Custody.after]
    exact h.owed
  · simp only [custodyAfter_snoc, Custody.after]
    exact h.untried

/-- A worker that comes out of a block is still there. -/
theorem block_passed (rc : Rc) :
    (if rc ≠ EAF_OK ∧ rc ≠ EAF_EOF then Worker.failing
      else if rc = EAF_EOF then .finishing else .loop).passed = true ∧
    (if rc ≠ EAF_OK ∧ rc ≠ EAF_EOF then Worker.failing
      else if rc = EAF_EOF then .finishing else .loop) ≠ .absent := by
  split
  · exact ⟨rfl, nofun⟩
  split
  · exact ⟨rfl, nofun⟩
  · exact ⟨rfl, nofun⟩

/-- The worker changes no custody but by passing the gate. -/
theorem custodial_worker (h : Custodial b) (hook : Rc) : Custodial (workerStep setup hook b) := by
  unfold workerStep
  cases hw : b.worker with
  | absent | exited => exact h
  | gate | gateQuit =>
    simp only
    split
    · exact custodial_passed h (by rw [hw]; rfl)
    · exact h.move rfl rfl rfl (by rw [hw]; rfl) (by simp [hw])
  | volume =>
    refine Custodial.note ?_ rfl trivial
    exact h.move rfl rfl rfl (by rw [hw]; rfl) (by simp [hw])
  | processing =>
    refine Custodial.note ?_ rfl trivial
    refine h.move rfl rfl process_state ?_ ?_
    · rw [hw]
      exact (block_passed _).1
    · rw [hw]
      exact ⟨fun habsent => absurd habsent (block_passed _).2, nofun⟩
  | acking | unacking | failing | finishing =>
    exact h.move rfl rfl rfl (by rw [hw]; rfl) (by simp [hw])
  | _ =>
    refine h.move rfl rfl rfl ?_ ?_
    · rw [hw]
      simp only
      split <;> rfl
    · rw [hw]
      simp only
      split <;> simp

theorem custody_log_worker (hook : Rc) :
    (custodyAfter (workerStep setup hook b).log).owed = (custodyAfter b.log).owed ∧
      (custodyAfter (workerStep setup hook b).log).untried = (custodyAfter b.log).untried := by
  unfold workerStep
  cases hw : b.worker with
  | gate | gateQuit =>
    simp only
    split
    · simp only [custodyAfter_snoc, Custody.after, and_self]
    · exact ⟨rfl, rfl⟩
  | volume | processing =>
    simp only [custodyAfter_snoc, Custody.after, and_self]
  | _ => exact ⟨rfl, rfl⟩

theorem worker_state (hook : Rc) :
    (workerStep setup hook b).pipeline.state = b.pipeline.state := by
  unfold workerStep
  cases hw : b.worker with
  | gate | gateQuit =>
    simp only
    split <;> rfl
  | processing => exact process_state
  | _ => rfl

theorem owned_worker (h : Owned b) (hook : Rc) : Owned (workerStep setup hook b) := by
  obtain ⟨howner, -, -, -, hactive⟩ := @workerStep_frame setup hook b
  obtain ⟨howed, huntried⟩ := @custody_log_worker setup b hook
  have hstate := @worker_state setup b hook
  refine ⟨custodial_worker h.toCustodial hook, ?_, ?_, ?_⟩
  · rw [hactive, howner, hstate]
    exact h.free
  · rw [huntried, howner]
    exact h.stopping
  · have hholds := h.owner
    unfold ownerHolds at hholds ⊢
    rw [howner, hactive, howed, hstate]
    exact hholds

theorem owned_call (h : Owned b) (hidle : b.owner = .idle) (call : Call) :
    Owned (beginCall b call) := by
  have hdone : Settled b := h.settled (by rw [hidle]; nofun) (by rw [hidle]; rfl)
  cases call with
  | start start =>
    simp only [beginCall, beginStart]
    split
    next hactive => exact hdone.next _ hactive
    next => exact hdone.next _ trivial
  | replace start =>
    simp only [beginCall, beginReplace]
    split
    · exact owned_startReturn hdone fun hrc => absurd hrc (by decide)
    · exact owned_beginStop h.toCustodial hdone.free trivial
  | release =>
    simp only [beginCall, beginRelease]
    split
    · exact hdone.next _ trivial
    · exact owned_releaseReturn hdone _
  | write samples frames =>
    refine owned_idle ⟨h.toCustodial.withPipeline h.pipeline, hdone.free, hdone.tried⟩ hidle
  | pause paused =>
    have hrequest := hdone.flags b.quit b.failed paused b.pauseAck b.runGate
    exact (hrequest.note (e := .request paused) rfl trivial).next (.pauseGate paused) trivial
  | stop =>
    refine owned_beginStop (b := Output.note b .stopCalled) ?_ hdone.free
      (show AfterStop.call.fails from trivial)
    refine ⟨?_, ?_, h.worker, h.pipeline, ?_, ?_, throughout_snoc h.lawful trivial⟩
    · simp only [custodyAfter_snoc, Custody.after]
      exact h.alive
    · simp only [custodyAfter_snoc, Custody.after]
      exact h.loose
    · simp only [custodyAfter_snoc, Custody.after]
      exact h.owed
    · simp only [custodyAfter_snoc, Custody.after]
      exact id

theorem owned_step (h : Owned b) (hushed : Hushed b) (action : Action) :
    Owned (boardStep setup b action) := by
  cases action with
  | worker hook => exact owned_worker h hook
  | owner hal late => exact owned_owner h hushed hal late
  | call call =>
    simp only [boardStep]
    split
    next hidle => exact owned_call h hidle call
    next => exact h

theorem owned_run (h : Owned b) (hushed : Hushed b) (actions : List Action) :
    Owned (boardRun setup b actions) := by
  induction actions generalizing b with
  | nil => exact h
  | cons action actions ih => exact ih (owned_step h hushed action) (hushed_step hushed action)

end Calls

theorem owned_fresh (setup : Setup) (mem : Mem) : Owned (freshBoard setup mem) :=
  ⟨⟨by simp [custodyAfter, freshBoard], rfl, fun _ => rfl, nofun, nofun, nofun, throughout_nil⟩,
    fun _ _ => rfl, nofun, trivial⟩

/-- A worker keeps its handle until it is joined. Between two calls an inactive output has neither a
worker nor a pipeline, and an output that owes a teardown is active and still has its pipeline. -/
structure Lifecycle (b : Board) : Prop where
  lawful : Throughout CustodyLaw b.log
  handle : (custodyAfter b.log).alive = true ↔ b.worker ≠ .absent
  inactive : b.owner = .idle → b.active = false →
    b.worker = .absent ∧ b.pipeline.state = .uninitialized
  owed : (custodyAfter b.log).owed = true → b.active = true ∧ b.pipeline.state ≠ .uninitialized

/-- In every run, whatever fails: nothing is initialised, reset or torn down while a worker that has
passed the gate is not joined. A teardown that failed keeps the output, no start works before it
does, and a later stop tries it again. -/
theorem board_lifecycle (setup : Setup) (mem : Mem) (actions : List Action) :
    Lifecycle (boardRun setup (freshBoard setup mem) actions) := by
  have hrun : Owned (boardRun setup (freshBoard setup mem) actions) :=
    owned_run (owned_fresh setup mem) (hushed_fresh setup mem) actions
  refine ⟨hrun.lawful, hrun.alive, ?_, ?_⟩
  · intro hidle hinactive
    refine ⟨hrun.worker hinactive, hrun.free hinactive ?_⟩
    rw [hidle]
    nofun
  · intro howed
    exact ⟨hrun.owed howed, hrun.pipeline (hrun.owed howed)⟩

/-- The join fails, a start is refused, and the next stop tears the output down. -/
def retriedActions : List Action :=
  [.call (.start ⟨some ⟨48000, 2, 3⟩, 128, true⟩), .owner 0 false, .owner 0 false, .owner 0 false,
    .owner 0 false, .call .stop, .owner 0 false, .owner EAF_IO false, .owner 0 false,
    .call (.start ⟨some ⟨48000, 2, 3⟩, 128, true⟩), .owner 0 false, .worker 0, .worker 0,
    .worker 0, .worker 0, .call .stop, .owner 0 false, .owner 0 false, .owner 0 false]

example : (boardRun plainSetup (freshBoard plainSetup fun _ => []) retriedActions).log.drop 7 =
    [.stopCalled, .kept, .stopReturned, .startReturned EAF_STATE, .gatePassed, .stopCalled, .joined,
      .touched .stop, .touched .deinit, .retired, .stopReturned] := by
  decide +kernel

end EmbeddedAudio.Output
