-- The board output (board_output.c): an owner starts, pauses, releases and stops
-- the output, and an audio worker runs the pipeline. Each access to an atomic is a
-- step of its own, and whatever the system is asked for can fail.
import EmbeddedAudio.Pipeline

namespace EmbeddedAudio.Output

open EmbeddedAudio.Core

/-! ## The two programs -/

/-- Where the worker is inside `consume`. There is none before it is created and after it is joined,
so it is absent just when `audio.impl` is not set. -/
inductive Worker where
  | absent
  | gate
  | gateQuit
  | loop
  | request
  | pausing
  | acking
  | waiting
  | waitingQuit
  | resuming
  | unacking
  | volume
  | processing
  | failing
  | finishing
  | exited
  deriving DecidableEq, Repr

/-- The arguments of `eaf_board_output_start`. -/
structure Start where
  format : Option Format
  readyFrames : UInt32
  held : Bool
  deriving DecidableEq, Repr

/-- Who has called `eaf_board_output_stop`, with what is left to do. -/
inductive AfterStop where
  | call
  | start (start : Start)
  | replace (start : Start)
  | launch (rc : Rc)
  deriving DecidableEq, Repr

/-- Where the owner is inside one of its calls. -/
inductive Owner where
  | idle
  | pauseGate (paused : Bool)
  | pauseShort (paused : Bool)
  | pauseAck (paused : Bool)
  | pauseDone (paused : Bool)
  | pauseTime (paused : Bool)
  | pauseFailed (paused : Bool)
  | releaseFailed
  | releaseRequest
  | releaseAck
  | releaseGate
  | stopQuit (after : AfterStop)
  | stopJoin (after : AfterStop)
  | stopFailed (after : AfterStop)
  | stopPipeline (after : AfterStop)
  | startDone (start : Start)
  | startSetup (start : Start)
  | startCreate (held : Bool)
  | startLaunch (held : Bool)
  | startOpen (held : Bool)
  deriving DecidableEq, Repr

/-- What initialises, resets or tears down the reservoir or the pipeline. -/
inductive Touch where
  | reservoirInit
  | init
  | configure
  | start
  | stop
  | deinit
  deriving DecidableEq, Repr

/-- What is written down of a run. `kept` is a teardown that has failed and `retired` one that has
not. -/
inductive Event where
  | request (paused : Bool)
  | pauseReturned (paused : Bool) (rc : Rc)
  | releaseReturned (rc : Rc)
  | stopCalled
  | stopReturned
  | startReturned (rc : Rc)
  | created
  | gatePassed
  | joined
  | touched (op : Touch)
  | kept
  | retired
  | process
  | processed (rc : Rc)
  deriving DecidableEq, Repr

/-- What `eaf_board_output_init` has set up: the operations of the sink and of the two nodes, and
the storage of the reservoir. `sinkOps` says whether all operations of the sink are set, and
`sizeMax` is `SIZE_MAX`. -/
structure Setup where
  env : PipelineEnv
  sinkOps : Bool
  storage : List Int32
  capacity : UInt32
  sizeMax : Nat

/-- The output. An atomic holds 0 or 1. The counters that the worker publishes for the display are
not here: nothing is decided by them. -/
structure Board where
  quit : Bool
  failed : Bool
  pauseRequest : Bool
  pauseAck : Bool
  done : Bool
  runGate : Bool
  active : Bool
  inputChannels : Nat
  pipeline : Pipeline
  worker : Worker
  owner : Owner
  log : List Event

abbrev note (b : Board) (e : Event) : Board := { b with log := b.log ++ [e] }

/-! ## The worker -/

/-- One step of `consume`. `hook` is what `sink_pause_hook` returns, 0 if there is none. The gains
have atomics of their own, so `apply_volume` is one step here. -/
def workerStep (setup : Setup) (hook : Rc) (b : Board) : Board :=
  match b.worker with
  | .absent => b
  | .exited => b
  | .gate =>
    if b.runGate then note { b with worker := .loop } .gatePassed
    else { b with worker := .gateQuit }
  | .gateQuit =>
    if b.quit then note { b with worker := .loop } .gatePassed else { b with worker := .gate }
  | .loop => { b with worker := if b.quit then .finishing else .request }
  | .request => { b with worker := if b.pauseRequest then .pausing else .volume }
  | .pausing => { b with worker := if hook ≠ 0 then .failing else .acking }
  | .acking => { b with pauseAck := true, worker := .waiting }
  | .waiting => { b with worker := if b.pauseRequest then .waitingQuit else .resuming }
  | .waitingQuit => { b with worker := if b.quit then .resuming else .waiting }
  | .resuming => { b with worker := if hook ≠ 0 then .failing else .unacking }
  | .unacking => { b with pauseAck := false, worker := .loop }
  | .volume => note { b with worker := .processing } .process
  | .processing =>
    let (rc, pipeline) := pipelineProcess setup.env b.pipeline
    note { b with
      pipeline := pipeline
      worker := if rc ≠ EAF_OK ∧ rc ≠ EAF_EOF then .failing
        else if rc = EAF_EOF then .finishing else .loop } (.processed rc)
  | .failing => { b with failed := true, worker := .finishing }
  | .finishing => { b with done := true, worker := .exited }

/-! ## Pause and release -/

/-- The end of `request_pause`. -/
def pauseReturn (paused : Bool) (rc : Rc) (b : Board) : Board :=
  note { b with owner := .idle } (.pauseReturned paused rc)

/-- `request_pause`, up to the load of the gate. -/
def requestPause (paused : Bool) (b : Board) : Board :=
  note { b with pauseRequest := paused, owner := .pauseGate paused } (.request paused)

/-- The end of `eaf_board_output_release`. -/
def releaseReturn (rc : Rc) (b : Board) : Board :=
  note { b with owner := .idle } (.releaseReturned rc)

/-- `eaf_board_output_release`, up to the load of the failure. -/
def beginRelease (b : Board) : Board :=
  if b.active then { b with owner := .releaseFailed } else releaseReturn EAF_STATE b

/-! ## Stop -/

/-- The end of `eaf_board_output_start` and of `eaf_board_output_replace`. -/
def startReturn (rc : Rc) (b : Board) : Board := note { b with owner := .idle } (.startReturned rc)

/-- What the caller of `eaf_board_output_stop` does next. -/
def endStop (after : AfterStop) (b : Board) : Board :=
  match after with
  | .call => note { b with owner := .idle } .stopReturned
  | .start start => { b with owner := .startSetup start }
  | .replace start =>
    if b.active then startReturn EAF_IO b else { b with owner := .startSetup start }
  | .launch rc => startReturn rc b

/-- `eaf_board_output_stop`, up to the request to quit. -/
def beginStop (after : AfterStop) (b : Board) : Board :=
  if b.active then { b with owner := .stopQuit after } else endStop after b

/-- A teardown that has failed keeps the output. -/
def keep (after : AfterStop) (b : Board) : Board := endStop after (note { b with failed := true } .kept)

/-- `hal_thread_join`, if there is a worker: it returns when the worker is through, unless it
fails. -/
def stopJoin (hal : Rc) (after : AfterStop) (b : Board) : Board :=
  if b.worker = .absent then { b with owner := .stopPipeline after }
  else if hal ≠ EAF_OK then { b with owner := .stopFailed after }
  else if b.worker = .exited then
    note { b with worker := .absent, owner := .stopPipeline after } .joined
  else b

/-- The call of `eaf_pipeline_deinit`, and the end of the stop. -/
def stopDeinit (env : PipelineEnv) (after : AfterStop) (b : Board) : Board :=
  let (rc, pipeline) := pipelineDeinit env b.pipeline
  let b := note { b with pipeline := pipeline } (.touched .deinit)
  if rc ≠ EAF_OK then keep after b else endStop after (note { b with active := false } .retired)

/-- `eaf_board_output_stop` behind the join. -/
def stopPipeline (env : PipelineEnv) (after : AfterStop) (b : Board) : Board :=
  if b.pipeline.state = .running ∨ b.pipeline.state = .recovery then
    let (rc, pipeline) := pipelineStop env b.pipeline
    let b := note { b with pipeline := pipeline } (.touched .stop)
    if rc ≠ EAF_OK then keep after b else stopDeinit env after b
  else stopDeinit env after b

/-! ## Start -/

/-- The test that start and replace make of a format. -/
def formatAccepted (format : Option Format) : Option Format :=
  format.filter fun f => formatValid f && decide (f.numChannels ≤ 2)

/-- The nodes: the attenuation, and the master volume. -/
def boardConfig (setup : Setup) : PipelineConfig :=
  ⟨true, true, setup.sinkOps, true, [⟨true, 0⟩, ⟨true, 2⟩]⟩

/-- A setup that has failed with `rc` is cleaned up, or kept if that fails too. -/
def cleanup (env : PipelineEnv) (rc : Rc) (b : Board) : Board :=
  let (cleanup, pipeline) := pipelineDeinit env b.pipeline
  let b := note { b with pipeline := pipeline } (.touched .deinit)
  if cleanup ≠ EAF_OK then startReturn cleanup (note { b with active := true, failed := true } .kept)
  else startReturn rc b

/-- The calls of `eaf_pipeline_init` and `eaf_pipeline_configure`. -/
def setupPipeline (setup : Setup) (held : Bool) (b : Board) : Board :=
  let (rc, pipeline) := pipelineInit b.pipeline (boardConfig setup)
  let b := note { b with pipeline := pipeline } (.touched .init)
  if rc ≠ EAF_OK then cleanup setup.env rc b
  else
    let (rc, pipeline) := pipelineConfigure setup.env b.pipeline 128
    let b := note { b with pipeline := pipeline } (.touched .configure)
    if rc ≠ EAF_OK then cleanup setup.env rc b else { b with owner := .startCreate held }

/-- The frames that are ready to start. -/
def readyOf (capacity readyFrames : UInt32) : UInt32 :=
  if readyFrames = 0 ∨ readyFrames > capacity then capacity * 3 / 4 else readyFrames

/-- `eaf_board_output_start` behind the reaping, up to the thread. -/
def startSetup (setup : Setup) (start : Start) (b : Board) : Board :=
  if b.worker ≠ .absent ∨ b.pipeline.state ≠ .uninitialized then startReturn EAF_STATE b
  else
    match formatAccepted start.format with
    | none => startReturn EAF_UNSUPPORTED b
    | some format =>
      let b := note { b with inputChannels := format.numChannels } (.touched .reservoirInit)
      match reservoirInit setup.sizeMax b.pipeline.reservoir.storage setup.capacity
          ⟨format.sampleRate, 2, 3⟩ (readyOf setup.capacity start.readyFrames) with
      | .error rc => cleanup setup.env rc b
      | .ok reservoir =>
        setupPipeline setup start.held { b with pipeline := { b.pipeline with reservoir := reservoir } }

/-- The atomics of a new worker. -/
def clearFlags (b : Board) : Board :=
  note { b with
    quit := false, runGate := false, failed := false, pauseRequest := false, pauseAck := false
    done := false } (.request false)

/-- The creation of the worker. -/
def startCreate (env : PipelineEnv) (hal : Rc) (held : Bool) (b : Board) : Board :=
  let b := clearFlags b
  if hal ≠ EAF_OK then cleanup env hal b
  else note { b with worker := .gate, active := true, owner := .startLaunch held } .created

/-- The call of `eaf_pipeline_start`. -/
def startLaunch (env : PipelineEnv) (held : Bool) (b : Board) : Board :=
  let (rc, pipeline) := pipelineStart env b.pipeline
  let b := note { b with pipeline := pipeline } (.touched .start)
  if rc ≠ EAF_OK then beginStop (.launch rc) b else { b with owner := .startOpen held }

/-- `eaf_board_output_start`, up to the load of `done` or the tests. -/
def beginStart (start : Start) (b : Board) : Board :=
  { b with owner := if b.active then .startDone start else .startSetup start }

/-- `eaf_board_output_replace`, up to the stop. -/
def beginReplace (start : Start) (b : Board) : Board :=
  if formatAccepted start.format = none then startReturn EAF_UNSUPPORTED b
  else beginStop (.replace start) b

/-! ## Writing -/

/-- `eaf_board_output_write`: the frames accepted, and the output. Mono goes to both sides. -/
def boardWrite (samples : List Int32) (frames : UInt32) (b : Board) : UInt32 × Board :=
  let (accepted, reservoir) :=
    if b.inputChannels = 2 then reservoirWrite b.pipeline.reservoir samples frames
    else
      let frames := if frames > 128 then 128 else frames
      let stereo := (samples.take frames.toNat).flatMap fun s => [s, s]
      reservoirWrite b.pipeline.reservoir stereo frames
  (accepted, { b with pipeline := { b.pipeline with reservoir := reservoir } })

/-! ## Runs -/

/-- One step of the owner. `hal` is what the system returns if it is asked to create or to join a
thread, and `late` whether a deadline has passed. -/
def ownerStep (setup : Setup) (hal : Rc) (late : Bool) (b : Board) : Board :=
  match b.owner with
  | .idle => b
  | .pauseGate paused =>
    { b with owner := if b.runGate then .pauseAck paused else .pauseShort paused }
  | .pauseShort paused => pauseReturn paused EAF_OK { b with pauseAck := paused }
  | .pauseAck paused =>
    { b with owner := if b.pauseAck = paused then .pauseFailed paused else .pauseDone paused }
  | .pauseDone paused =>
    { b with owner := if b.done then .pauseFailed paused else .pauseTime paused }
  | .pauseTime paused =>
    if late then pauseReturn paused EAF_IO b else { b with owner := .pauseAck paused }
  | .pauseFailed paused => pauseReturn paused (if b.failed then EAF_IO else EAF_OK) b
  | .releaseFailed =>
    if b.failed then releaseReturn EAF_STATE b else { b with owner := .releaseRequest }
  | .releaseRequest => note { b with pauseRequest := false, owner := .releaseAck } (.request false)
  | .releaseAck => { b with pauseAck := false, owner := .releaseGate }
  | .releaseGate => releaseReturn EAF_OK { b with runGate := true }
  | .stopQuit after => { b with quit := true, owner := .stopJoin after }
  | .stopJoin after => stopJoin hal after b
  | .stopFailed after => keep after b
  | .stopPipeline after => stopPipeline setup.env after b
  | .startDone start => if b.done then beginStop (.start start) b else startReturn EAF_STATE b
  | .startSetup start => startSetup setup start b
  | .startCreate held => startCreate setup.env hal held b
  | .startLaunch held => startLaunch setup.env held b
  | .startOpen held => startReturn EAF_OK { b with runGate := !held }

inductive Call where
  | start (start : Start)
  | replace (start : Start)
  | release
  | write (samples : List Int32) (frames : UInt32)
  | pause (paused : Bool)
  | stop
  deriving DecidableEq, Repr

/-- A call of the owner, up to the first access to an atomic. -/
def beginCall (b : Board) : Call → Board
  | .start start => beginStart start b
  | .replace start => beginReplace start b
  | .release => beginRelease b
  | .write samples frames => (boardWrite samples frames b).2
  | .pause paused => requestPause paused b
  | .stop => beginStop .call (note b .stopCalled)

/-- What happens next: a step of the worker or of the owner, or a call that the owner makes. -/
inductive Action where
  | worker (hook : Rc)
  | owner (hal : Rc) (late : Bool)
  | call (call : Call)
  deriving DecidableEq, Repr

def boardStep (setup : Setup) (b : Board) : Action → Board
  | .worker hook => workerStep setup hook b
  | .owner hal late => ownerStep setup hal late b
  | .call call => if b.owner = .idle then beginCall b call else b

def boardRun (setup : Setup) (b : Board) (actions : List Action) : Board :=
  actions.foldl (boardStep setup) b

/-- The output behind `eaf_board_output_init`. The ring is the storage that it was given. -/
def freshBoard (setup : Setup) (mem : Mem) : Board where
  quit := false
  failed := false
  pauseRequest := false
  pauseAck := false
  done := false
  runGate := false
  active := false
  inputChannels := 0
  pipeline := zeroPipeline {
    storage := setup.storage
    capacity := 0
    highWatermark := 0
    backpressureLow := 0
    backpressureHigh := 0
    format := ⟨0, 0, 0⟩
    readCursor := 0
    writeCursor := 0
    finished := false
    state := .prebuffering
    underruns := 0
    framesRead := 0
    last := List.replicate EAF_MAX_CHANNELS 0
    wakeProducer := false } mem
  worker := .absent
  owner := .idle
  log := []

end EmbeddedAudio.Output
