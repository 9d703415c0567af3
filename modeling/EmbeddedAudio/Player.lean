-- The player (eaf_player.c): a thread decodes a source into the reservoir, and an
-- owner starts, stops, seeks and steps the pipeline that pulls from it. Whatever
-- the other side can see happens in a step of its own.
import EmbeddedAudio.Pipeline
import EmbeddedAudio.Spsc

namespace EmbeddedAudio.Playback

open EmbeddedAudio.Core Storage

/-! ## The source and the commands -/

def EAF_PLAYER_DECODE_FRAMES : UInt32 := 256

/-- What a read returns. `pcm` are the samples of `decode_buffer` after it. -/
structure ReadAnswer where
  rc : Rc
  frames : UInt32
  pcm : Nat → Int32

/-- The samples of the frames that were read. -/
def ReadAnswer.samples (a : ReadAnswer) (channels : Nat) : List Int32 :=
  (List.range (a.frames.toNat * channels)).map a.pcm

/-- The test that the decoder makes of a read. -/
def readFails (a : ReadAnswer) : Bool := a.rc ≠ EAF_OK || a.frames > EAF_PLAYER_DECODE_FRAMES

/-- `eaf_source_t`, with a `σ` for where it stands. `ops` says whether its operations are set. -/
structure Source (σ : Type) where
  ops : Bool
  format : Format
  totalFrames : UInt64
  read : σ → ReadAnswer × σ
  seek : σ → UInt64 → Rc × σ

/-- `eaf_command_t`. `unknown` is any other type. -/
inductive Command where
  | stop
  | seek (frame : UInt64)
  | gain (gain : Int32)
  | unknown
  deriving DecidableEq, Repr

def EAF_CONTROL_CAPACITY : Nat := 16

/-! ## The two programs -/

/-- Where the decoder thread is inside `produce`. There is none before it is created and after it
is joined. The decode buffer is the samples of the `frames` that the last read has put there. -/
inductive Decoder where
  | none
  | gateLoad
  | gateQuit
  | gateTake
  | loop (ended : Bool)
  | endedTake
  | pressure
  | hold
  | holdQuit
  | holdTake
  | checkQuit
  | reading
  | failing
  | finishing
  | writeTest (frames : UInt32) (samples : List Int32) (offset : UInt32)
  | writing (frames : UInt32) (samples : List Int32) (offset : UInt32)
  | writeTake (frames : UInt32) (samples : List Int32) (offset : UInt32)
  | exited
  deriving DecidableEq, Repr

/-- Who has called a function that `eaf_player_step` calls too. -/
inductive Caller where
  | call
  | step
  deriving DecidableEq, Repr

/-- Who has called `eaf_player_stop`, with what is left to do. -/
inductive AfterStop where
  | call
  | command
  | seek (frame : UInt64) (running : Bool) (caller : Caller)
  | failed (rc : Rc)
  | deinit
  deriving DecidableEq, Repr

/-- Where the owner is inside one of its calls. -/
inductive Owner where
  | idle
  | creating (sought : Option UInt64) (caller : Caller)
  | launching (sought : Option UInt64) (caller : Caller)
  | aborting (caller : Caller) (rc : Rc)
  | abortGive (caller : Caller) (rc : Rc)
  | abortJoin (caller : Caller) (rc : Rc)
  | opening (caller : Caller)
  | openGive (caller : Caller)
  | quitting (after : AfterStop) (rc : Rc)
  | quitGive (after : AfterStop) (rc : Rc)
  | joining (after : AfterStop)
  | seeking (frame : UInt64) (running : Bool) (caller : Caller)
  | resetting (frame : UInt64) (running : Bool) (caller : Caller)
  | stepping
  | pulling (owned : Buffer)
  | waking (owned : Buffer) (pulled : Pulled)
  deriving DecidableEq, Repr

/-- What is written down of a run: at a reset of the reservoir where the decoder and the gate were,
at a successful start where the source stood and which frame was sought for it, and for each pull
the frames that it took out of the ring. -/
inductive Event (σ : Type) where
  | reset (decoder : Decoder) (gate : Bool)
  | start (sought : Option UInt64) (origin : σ)
  | pull (frames : List Int32) (flags : UInt32)

/-- `eaf_player_t`, with the source where it stands. The reservoir of the pipeline is in `spsc`,
with the calls that are under way on it. `volume` is the context of the volume node, and `results`
are what the calls of the owner have returned.

The last three fields belong to the last successful start: where the source stood then, what was
pulled since, and whether a block was marked as the last one. -/
structure Player (σ : Type) where
  initialized : Bool
  pipeline : Pipeline
  spsc : Spsc
  position : σ
  volume : Option Nat
  gains : List Int32
  commands : List Command
  decoder : Decoder
  wake : Bool
  gate : Bool
  quit : Bool
  failed : Bool
  sourceError : Rc
  owner : Owner
  results : List Rc
  events : List (Event σ)
  origin : σ
  pulled : List Int32
  ended : Bool

variable {σ : Type}

/-! ## The decoder -/

/-- `hal_sem_take`, when the token is there. -/
def Decoder.taken : Decoder → Decoder
  | .gateTake => .gateLoad
  | .endedTake => .loop true
  | .holdTake => .hold
  | .writeTake frames samples offset => .writeTest frames samples offset
  | d => d

/-- What the write that is under way returns, once it is done. -/
def writeReturns (s : Spsc) : UInt32 :=
  match s.producer with
  | .copying _ _ frames _ => frames
  | _ => 0

/-- One step of `produce`. -/
def decoderStep (src : Source σ) (x : Player σ) : Player σ :=
  match x.decoder with
  | .none => x
  | .exited => x
  | .gateLoad => { x with decoder := if x.gate then .loop false else .gateQuit }
  | .gateQuit => { x with decoder := if x.quit then .loop false else .gateTake }
  | .loop ended =>
    { x with decoder := if x.quit then .exited else if ended then .endedTake else .pressure }
  | .pressure => { x with decoder := if reservoirBackpressure x.spsc.r then .hold else .checkQuit }
  | .hold => { x with
      decoder := if reservoirLevel x.spsc.r ≥ x.spsc.r.backpressureLow then .holdQuit
        else .checkQuit }
  | .holdQuit => { x with decoder := if x.quit then .checkQuit else .holdTake }
  | .checkQuit => { x with decoder := if x.quit then .exited else .reading }
  | .reading =>
    let (a, position) := src.read x.position
    let x := { x with position := position }
    if readFails a then
      { x with sourceError := if a.rc ≠ EAF_OK then a.rc else EAF_INVALID, decoder := .failing }
    else if a.frames = 0 then { x with decoder := .finishing }
    else { x with decoder := .writeTest a.frames (a.samples (channelsOf x.spsc)) 0 }
  | .failing => { x with failed := true, decoder := .loop true }
  | .finishing => { x with spsc := spscStep x.spsc .finish, decoder := .loop true }
  | .writeTest frames samples offset =>
    if offset < frames ∧ x.quit = false then
      { x with
        spsc := spscStep x.spsc
          (.write (samples.drop (offset.toNat * channelsOf x.spsc)) (frames - offset))
        decoder := .writing frames samples offset }
    else { x with decoder := .loop false }
  | .writing frames samples offset =>
    let s := producerStep x.spsc
    if s.producer ≠ .idle then { x with spsc := s }
    else
      let n := writeReturns x.spsc
      { x with
        spsc := s
        decoder := if n = 0 then .writeTake frames samples offset
          else .writeTest frames samples (offset + n) }
  | d => if x.wake then { x with wake := false, decoder := d.taken } else x

/-- A wait for the token is over after 20 ms. -/
def decoderTimeout (x : Player σ) : Player σ := { x with decoder := x.decoder.taken }

/-! ## Starting and stopping -/

/-- The end of a call of the owner. -/
def finish (rc : Rc) (x : Player σ) : Player σ :=
  { x with owner := .idle, results := x.results ++ [rc] }

/-- The end of a call that may be part of a step: then the step goes on, unless it failed. -/
def returnTo (caller : Caller) (rc : Rc) (x : Player σ) : Player σ :=
  if caller = .step ∧ rc = EAF_OK then { x with owner := .stepping } else finish rc x

/-- `eaf_player_start`, up to the thread. `sought` is the frame if it is part of a seek. -/
def beginStart (sought : Option UInt64) (caller : Caller) (x : Player σ) : Player σ :=
  if x.decoder ≠ .none ∨ (x.pipeline.state ≠ .configured ∧ x.pipeline.state ≠ .stopped) then
    returnTo caller EAF_STATE x
  else
    { x with
      gate := false, quit := false, failed := false, sourceError := 0
      owner := .creating sought caller }

/-- `eaf_reservoir_reset`, by the owner. -/
def resetReservoir (x : Player σ) : Player σ :=
  { x with
    spsc := spscStart (reservoirReset x.spsc.r) 0
    events := x.events ++ [.reset x.decoder x.gate] }

/-- The call of `eaf_pipeline_start`, which resets the reservoir before it starts the sink. -/
def launch (env : PipelineEnv) (sought : Option UInt64) (caller : Caller) (x : Player σ) :
    Player σ :=
  let (rc, pipeline) := pipelineStart env { x.pipeline with reservoir := x.spsc.r }
  let x := { resetReservoir x with pipeline := pipeline }
  if rc ≠ EAF_OK then { x with owner := .aborting caller rc }
  else
    { x with
      owner := .opening caller
      events := x.events ++ [.start sought x.position]
      origin := x.position, pulled := [], ended := false }

/-- `eaf_player_stop`, up to the request to quit. -/
def beginStop (env : PipelineEnv) (after : AfterStop) (x : Player σ) : Player σ :=
  if x.pipeline.state = .running ∨ x.pipeline.state = .recovery then
    let (rc, pipeline) := pipelineStop env x.pipeline
    { x with pipeline := pipeline, owner := .quitting after rc }
  else { x with owner := .quitting after EAF_OK }

/-- What the caller of `eaf_player_stop` makes of its result. -/
def endStop (after : AfterStop) (rc : Rc) (x : Player σ) : Player σ :=
  match after with
  | .call => finish rc x
  | .command => finish (if rc ≠ EAF_OK then rc else EAF_EOF) x
  | .seek frame running caller =>
    if rc ≠ EAF_OK then returnTo caller rc x else { x with owner := .seeking frame running caller }
  | .failed failure => finish (if rc ≠ EAF_OK then rc else failure) x
  | .deinit =>
    if rc ≠ EAF_OK then finish rc x
    else
      let spsc := { x.spsc with r := { x.spsc.r with wakeProducer := false } }
      finish EAF_OK { x with spsc := spsc, initialized := false }

/-- `hal_thread_join`: it returns when the thread is through, unless it fails. -/
def join (hal : Rc) (next : Rc → Player σ → Player σ) (x : Player σ) : Player σ :=
  if hal ≠ EAF_OK then next hal x
  else if x.decoder = .exited then next EAF_OK { x with decoder := .none }
  else x

/-- `eaf_player_seek`, up to the stop. -/
def beginSeek (src : Source σ) (env : PipelineEnv) (frame : UInt64) (caller : Caller)
    (x : Player σ) : Player σ :=
  if frame > src.totalFrames then returnTo caller EAF_INVALID x
  else beginStop env (.seek frame (x.pipeline.state = .running) caller) x

/-! ## One block -/

/-- The end of a step: what fails stops the player. -/
def endStep (env : PipelineEnv) (rc : Rc) (x : Player σ) : Player σ :=
  if rc ≠ EAF_OK then beginStop env (.failed rc) x else finish EAF_OK x

/-- The block that was pulled into the buffer of the sink, or the pull that failed. -/
def pulledBlock (x : Player σ) (owned : Buffer) (pulled : Option Pulled) : Block :=
  let buf := { owned with frameCount := x.pipeline.blockFrames }
  match pulled with
  | .none => ⟨EAF_INVALID, buf, x.pipeline.record (.pull EAF_INVALID buf)⟩
  | .some pulled =>
    let buf := { buf with format := x.spsc.r.format, flags := pulled.flags }
    let p := { x.pipeline with mem := memStore x.pipeline.mem buf.samples pulled.block }
    ⟨EAF_OK, buf, p.record (.pull EAF_OK buf)⟩

/-- `eaf_pipeline_process` behind the pull. -/
def endProcess (env : PipelineEnv) (owned : Buffer) (pulled : Option Pulled) (x : Player σ) :
    Player σ :=
  let (rc, pipeline) := processRest env owned (pulledBlock x owned pulled)
  endStep env rc { x with pipeline := pipeline }

/-- `eaf_pipeline_process`, up to the pull. -/
def beginProcess (env : PipelineEnv) (x : Player σ) : Player σ :=
  if x.pipeline.completed then endStep env EAF_EOF x
  else
    let (rc, buf) := env.acquire x.pipeline.log
    let x := { x with pipeline := x.pipeline.record (.acquire rc) }
    if rc ≠ EAF_OK then endStep env rc x
    else
      match buf with
      | .none => endStep env EAF_INVALID x
      | .some owned =>
        let buf := { owned with frameCount := x.pipeline.blockFrames }
        if acquiredFits x.pipeline owned = false then endStep env EAF_INVALID x
        else if pullValid x.spsc.r buf = false then
          endProcess env owned .none { x with events := x.events ++ [.pull [] owned.flags] }
        else { x with spsc := spscStep x.spsc (.pull buf), owner := .pulling owned }

/-- `eaf_player_step` behind the command. -/
def stepBlock (env : PipelineEnv) (x : Player σ) : Player σ :=
  if x.pipeline.state ≠ .running then finish EAF_STATE x
  else if x.failed then endStep env x.sourceError x
  else beginProcess env x

/-- A step inside `eaf_reservoir_pull`. The last one lets go of the frames that were taken. -/
def pullStep (owned : Buffer) (x : Player σ) : Player σ :=
  let s := consumerStep x.spsc
  match s.consumer, s.pulls.getLast? with
  | .idle, .some done =>
    let frames := s.delivered.drop x.spsc.delivered.length
    { x with
      spsc := s
      owner := .waking owned done.pulled
      events := x.events ++ [.pull frames done.pulled.flags]
      pulled := x.pulled ++ frames
      ended := x.ended || done.pulled.flags &&& EAF_FRAME_EOS ≠ 0 }
  | _, _ => { x with spsc := s }

/-- One step of the owner. `hal` is what the call of the system returns that it makes. -/
def ownerStep (src : Source σ) (env : PipelineEnv) (hal : Rc) (x : Player σ) : Player σ :=
  match x.owner with
  | .idle => x
  | .creating sought caller =>
    if hal ≠ EAF_OK then returnTo caller hal x
    else { x with decoder := .gateLoad, owner := .launching sought caller }
  | .launching sought caller => launch env sought caller x
  | .aborting caller rc => { x with quit := true, owner := .abortGive caller rc }
  | .abortGive caller rc => { x with wake := true, owner := .abortJoin caller rc }
  | .abortJoin caller rc => join hal (fun _ => returnTo caller rc) x
  | .opening caller => { x with gate := true, owner := .openGive caller }
  | .openGive caller => returnTo caller EAF_OK { x with wake := true }
  | .quitting after rc => { x with quit := true, owner := .quitGive after rc }
  | .quitGive after rc =>
    let x := { x with wake := true }
    if rc ≠ EAF_OK ∨ x.decoder = .none then endStop after rc x
    else { x with owner := .joining after }
  | .joining after => join hal (endStop after) x
  | .seeking frame running caller =>
    let (rc, position) := src.seek x.position frame
    let x := { x with position := position }
    if rc ≠ EAF_OK then returnTo caller rc x
    else { x with owner := .resetting frame running caller }
  | .resetting frame running caller =>
    let x := resetReservoir x
    if running then beginStart (.some frame) caller x else returnTo caller EAF_OK x
  | .stepping => stepBlock env x
  | .pulling owned => pullStep owned x
  | .waking owned pulled =>
    endProcess env owned (.some pulled) { x with wake := x.wake || pulled.wake }

/-! ## Calls and runs -/

inductive Call where
  | start
  | stop
  | seek (frame : UInt64)
  | step
  | deinit
  deriving DecidableEq, Repr

/-- `eaf_player_step`, up to the command. -/
def beginStep (src : Source σ) (env : PipelineEnv) (x : Player σ) : Player σ :=
  match x.commands with
  | [] => { x with owner := .stepping }
  | command :: commands =>
    let x := { x with commands := commands }
    match command with
    | .stop => beginStop env .command x
    | .seek frame => beginSeek src env frame .step x
    | .gain gain =>
      { x with gains := List.replicate EAF_MAX_CHANNELS gain, owner := .stepping }
    | .unknown => finish EAF_INVALID x

/-- What a call of the owner does before anything that the decoder can see. -/
def beginCall (src : Source σ) (env : PipelineEnv) (x : Player σ) (call : Call) : Player σ :=
  if x.initialized = false then finish EAF_INVALID x
  else
    match call with
    | .start => beginStart .none .call x
    | .stop => beginStop env .call x
    | .seek frame => beginSeek src env frame .call x
    | .step => beginStep src env x
    | .deinit => beginStop env .deinit x

/-- The test that `eaf_player_command` makes. -/
def commandValid (src : Source σ) (x : Player σ) : Command → Bool
  | .stop => true
  | .seek frame => frame ≤ src.totalFrames
  | .gain gain => x.volume.isSome && 0 ≤ gain
  | .unknown => false

/-- `eaf_player_command`, with `eaf_control_push`. -/
def playerCommand (src : Source σ) (x : Player σ) (command : Command) : Bool × Player σ :=
  if x.initialized = false ∨ commandValid src x command = false ∨
      x.commands.length = EAF_CONTROL_CAPACITY then (false, x)
  else (true, { x with commands := x.commands ++ [command] })

/-- What happens next: a step of the decoder, a wait of it that is over, a step of the owner, a call
that the owner makes, or a command. -/
inductive Action where
  | decoder
  | timeout
  | owner (hal : Rc)
  | call (call : Call)
  | command (command : Command)
  deriving DecidableEq, Repr

/-- The owner makes one call at a time. -/
def playerStep (src : Source σ) (env : PipelineEnv) (x : Player σ) : Action → Player σ
  | .decoder => decoderStep src x
  | .timeout => decoderTimeout x
  | .owner hal => ownerStep src env hal x
  | .call call => if x.owner = .idle then beginCall src env x call else x
  | .command command => (playerCommand src x command).2

def playerRun (src : Source σ) (env : PipelineEnv) (x : Player σ) (actions : List Action) :
    Player σ := actions.foldl (playerStep src env) x

/-- The tests of `eaf_player_init`. `volumes` are the contexts of the volume nodes of the
pipeline. -/
def initRc (src : Source σ) (pipeline : Pipeline) (volume : Option Nat) (volumes : List Nat) : Rc :=
  let r := pipeline.reservoir
  if src.ops = false ∨ formatValid src.format = false then EAF_INVALID
  else if pipeline.state ≠ .configured ∧ pipeline.state ≠ .stopped then EAF_STATE
  else if r.format ≠ src.format ∨ r.wakeProducer = true ∨ r.backpressureLow = 0 ∨
      r.backpressureLow ≥ r.backpressureHigh ∨ r.backpressureHigh > r.capacity ∨
      r.highWatermark > r.backpressureHigh ∨ pipeline.blockFrames > r.backpressureHigh then
    EAF_INVALID
  else if volume.any (fun v => !volumes.contains v) then EAF_INVALID
  else EAF_OK

/-- `eaf_player_init` of a player that is not initialized. `gains` are those of the volume node,
and `hal` is what `hal_sem_init` returns. -/
def playerInit (src : Source σ) (position : σ) (pipeline : Pipeline) (volume : Option Nat)
    (volumes : List Nat) (gains : List Int32) (hal : Rc) : Except Rc (Player σ) :=
  let rc := initRc src pipeline volume volumes
  if rc ≠ EAF_OK then .error rc
  else if hal ≠ EAF_OK then .error hal
  else
    .ok {
      initialized := true
      pipeline := pipeline
      spsc := {
        r := { pipeline.reservoir with wakeProducer := true }
        producer := .idle, consumer := .idle, accepted := [], delivered := [], pulls := [] }
      position := position
      volume := volume
      gains := gains
      commands := []
      decoder := .none
      wake := false
      gate := false
      quit := false
      failed := false
      sourceError := 0
      owner := .idle
      results := []
      events := []
      origin := position
      pulled := []
      ended := false }

end EmbeddedAudio.Playback
