-- The pipeline (eaf_graph.c): a chain of nodes between the reservoir and a sink.
-- Nodes and sink are not trusted: what they return and what they write is an
-- input, and every call of one of them is written down in a log.
import EmbeddedAudio.Reservoir

namespace EmbeddedAudio.Core

open Storage

inductive PipelineState where
  | uninitialized
  | initialized
  | configured
  | running
  | stopped
  | recovery
  deriving DecidableEq, Repr

/-- The samples behind each pointer. -/
abbrev Mem := Nat → List Int32

/-- `memcpy` to the samples of a buffer. -/
def memStore (mem : Mem) (samples : Option Nat) (xs : List Int32) : Mem :=
  match samples with
  | none => mem
  | some q => fun q' => if q' = q then overwrite (mem q) 0 xs else mem q'

/-- The first `n` samples of a buffer. -/
def memLoad (mem : Mem) (samples : Option Nat) (n : Nat) : List Int32 :=
  match samples with
  | none => []
  | some q => (mem q).take n

inductive PipelineEvent where
  | sinkInit (fmt : Format) (blockFrames : UInt32) (rc : Rc)
  | sinkStart (rc : Rc)
  | sinkStop (rc : Rc)
  | sinkDeinit (rc : Rc)
  | acquire (rc : Rc)
  | pull (rc : Rc) (buf : Buffer)
  | commit (buf : Buffer) (block : List Int32) (rc : Rc)
  | nodeInit (i : Nat) (rc : Rc)
  | nodeProcess (i : Nat) (rc : Rc) (before after : Buffer)
  | nodeReset (i : Nat) (rc : Rc)
  | nodeDeinit (i : Nat)
  deriving DecidableEq

/-- What the operations of the sink and of the nodes do, in the light of everything that was
called before. A node is its place in the configuration. -/
structure PipelineEnv where
  sinkInit : List PipelineEvent → Rc
  sinkStart : List PipelineEvent → Rc
  sinkStop : List PipelineEvent → Rc
  sinkDeinit : List PipelineEvent → Rc
  acquire : List PipelineEvent → Rc × Option Buffer
  commit : List PipelineEvent → Buffer → Rc
  nodeInit : Nat → List PipelineEvent → Format → Rc × Format
  nodeProcess : Nat → List PipelineEvent → Buffer → Mem → Rc × Buffer × Mem
  nodeReset : Nat → List PipelineEvent → Rc

/-- A node of `eaf_pipeline_config_t`. `ops` says whether it and all its operations are set. -/
structure NodeConfig where
  ops : Bool
  stage : Nat
  deriving DecidableEq, Repr

/-- `eaf_pipeline_config_t`. `source` says whether the reservoir and its storage are set, `sink`
whether the sink and its operations are, `sinkOps` whether all that are needed are, and
`nodesSet` whether the array of the nodes is. -/
structure PipelineConfig where
  source : Bool
  sink : Bool
  sinkOps : Bool
  nodesSet : Bool
  nodes : List NodeConfig
  deriving DecidableEq, Repr

/-- `eaf_pipeline_t`. The fields from `reservoir` on are the world around it. -/
structure Pipeline where
  config : PipelineConfig
  state : PipelineState
  outputFormat : Format
  blockFrames : UInt32
  initializedNodes : Nat
  sinkInitialized : Bool
  sinkReady : Bool
  completed : Bool
  reservoir : Reservoir
  mem : Mem
  log : List PipelineEvent

def Pipeline.record (p : Pipeline) (e : PipelineEvent) : Pipeline := { p with log := p.log ++ [e] }

section Record

variable (p : Pipeline) (e : PipelineEvent)

@[simp] theorem record_config : (p.record e).config = p.config := rfl
@[simp] theorem record_state : (p.record e).state = p.state := rfl
@[simp] theorem record_outputFormat : (p.record e).outputFormat = p.outputFormat := rfl
@[simp] theorem record_blockFrames : (p.record e).blockFrames = p.blockFrames := rfl
@[simp] theorem record_initializedNodes : (p.record e).initializedNodes = p.initializedNodes := rfl
@[simp] theorem record_sinkInitialized : (p.record e).sinkInitialized = p.sinkInitialized := rfl
@[simp] theorem record_sinkReady : (p.record e).sinkReady = p.sinkReady := rfl
@[simp] theorem record_mem : (p.record e).mem = p.mem := rfl
@[simp] theorem record_log : (p.record e).log = p.log ++ [e] := rfl

end Record

/-! ## Cleanup -/

/-- The loop of `release` over the nodes, from the last one down. -/
def releaseNodes : Nat → Pipeline → Pipeline
  | 0, p => { p with initializedNodes := 0 }
  | n + 1, p => releaseNodes n (p.record (.nodeDeinit n))

/-- `release` behind the sink. -/
def releaseChain (p : Pipeline) : Pipeline :=
  releaseNodes p.initializedNodes { p with sinkInitialized := false, sinkReady := false }

/-- `release`. -/
def release (env : PipelineEnv) (p : Pipeline) : Rc × Pipeline :=
  if p.sinkInitialized then
    let rc := env.sinkDeinit p.log
    let p := { p with sinkReady := false }.record (.sinkDeinit rc)
    if rc ≠ EAF_OK then (rc, { p with state := .recovery }) else (EAF_OK, releaseChain p)
  else (EAF_OK, releaseChain p)

/-! ## Configuring -/

/-- The loop of `eaf_pipeline_init` over the nodes: each is complete, and the stages do not go
back. `last` is the stage of the node before. -/
def nodesValid : Nat → List NodeConfig → Bool
  | _, [] => true
  | last, n :: ns => n.ops && n.stage ≤ 2 && last ≤ n.stage && nodesValid n.stage ns

/-- `eaf_pipeline_init`. -/
def pipelineInit (p : Pipeline) (config : PipelineConfig) : Rc × Pipeline :=
  if config.source = false ∨ config.sink = false ∨
      (config.nodes ≠ [] ∧ config.nodesSet = false) then (EAF_INVALID, p)
  else if p.state ≠ .uninitialized then (EAF_STATE, p)
  else if config.sinkOps = false ∨ nodesValid 0 config.nodes = false then (EAF_INVALID, p)
  else (EAF_OK, { p with config := config, state := .initialized })

/-- The loop of `eaf_pipeline_configure` over the nodes, from node `i` on. -/
def initNodes (env : PipelineEnv) : List NodeConfig → Nat → Format → Pipeline →
    Rc × Format × Pipeline
  | [], _, fmt, p => (EAF_OK, fmt, p)
  | _ :: ns, i, fmt, p =>
    let r := env.nodeInit i p.log fmt
    let p := p.record (.nodeInit i r.1)
    if r.1 ≠ EAF_OK then (r.1, fmt, (release env (p.record (.nodeDeinit i))).2)
    else
      let p := { p with initializedNodes := p.initializedNodes + 1 }
      if formatValid r.2 = false ∨ r.2.sampleRate ≠ fmt.sampleRate ∨
          r.2.numChannels < fmt.numChannels then (EAF_INVALID, fmt, (release env p).2)
      else initNodes env ns (i + 1) r.2 p

/-- `eaf_pipeline_configure`. -/
def pipelineConfigure (env : PipelineEnv) (p : Pipeline) (blockFrames : UInt32) : Rc × Pipeline :=
  if p.state ≠ .initialized ∧ p.state ≠ .stopped ∧ p.state ≠ .configured then (EAF_STATE, p)
  else if blockFrames = 0 ∨ blockFrames > p.reservoir.capacity then (EAF_INVALID, p)
  else
    let (cleanup, p) := release env p
    if cleanup ≠ EAF_OK then (cleanup, p)
    else
      let p := { p with state := .initialized }
      let (rc, fmt, p) := initNodes env p.config.nodes 0 p.reservoir.format p
      if rc ≠ EAF_OK then (rc, p)
      else
        let rc := env.sinkInit p.log
        let p := { p with sinkInitialized := true }.record (.sinkInit fmt blockFrames rc)
        if rc ≠ EAF_OK then
          let (cleanup, p) := release env p
          (if cleanup ≠ EAF_OK then cleanup else rc, p)
        else (EAF_OK, { p with
          sinkReady := true, outputFormat := fmt, blockFrames := blockFrames
          state := .configured })

/-! ## Starting and stopping -/

/-- The loop of `eaf_pipeline_stop` over the nodes. -/
def resetNodes (env : PipelineEnv) : List Nat → Rc × Pipeline → Rc × Pipeline
  | [], x => x
  | i :: is, (rc, p) =>
    let reset := env.nodeReset i p.log
    resetNodes env is (if rc = EAF_OK then reset else rc, p.record (.nodeReset i reset))

/-- `eaf_pipeline_stop`. -/
def pipelineStop (env : PipelineEnv) (p : Pipeline) : Rc × Pipeline :=
  if p.state ≠ .running ∧ p.state ≠ .recovery then (EAF_STATE, p)
  else
    let rc := env.sinkStop p.log
    let p := p.record (.sinkStop rc)
    if rc ≠ EAF_OK then (rc, p)
    else
      let p := { p with state := if p.sinkReady then .stopped else .initialized }
      resetNodes env (List.range p.initializedNodes) (EAF_OK, p)

/-- `eaf_pipeline_start`. -/
def pipelineStart (env : PipelineEnv) (p : Pipeline) : Rc × Pipeline :=
  if p.state ≠ .configured ∧ p.state ≠ .stopped then (EAF_STATE, p)
  else
    let p := { p with reservoir := reservoirReset p.reservoir, completed := false }
    let rc := env.sinkStart p.log
    let p := p.record (.sinkStart rc)
    if rc = EAF_OK then (EAF_OK, { p with state := .running })
    else
      let (stopped, p) := pipelineStop env { p with state := .recovery }
      (if stopped ≠ EAF_OK then stopped else rc, p)

/-! ## Processing -/

/-- The test that `eaf_pipeline_process` makes of the buffer that the sink gives it. -/
def acquiredFits (p : Pipeline) (buf : Buffer) : Bool :=
  buf.samples.isSome && p.blockFrames ≤ buf.capacityFrames &&
    p.blockFrames.toNat ≤ buf.capacitySamples / p.outputFormat.numChannels

/-- The test after each node: `owned` is the buffer as the sink gave it, and the node was given
`channels` channels. -/
def metadataKept (p : Pipeline) (owned buf : Buffer) (channels : Nat) : Bool :=
  buf.samples == owned.samples && buf.capacitySamples == owned.capacitySamples &&
    buf.capacityFrames == owned.capacityFrames && buf.frameCount == p.blockFrames &&
    formatValid buf.format && buf.format.sampleRate == p.outputFormat.sampleRate &&
    channels ≤ buf.format.numChannels && buf.format.numChannels ≤ p.outputFormat.numChannels

/-- The block between two nodes: the code so far, and the buffer. -/
structure Block where
  rc : Rc
  buf : Buffer
  p : Pipeline

/-- One turn of the loop over the nodes. -/
def processNode (env : PipelineEnv) (owned : Buffer) (i : Nat) (x : Block) : Block :=
  let (rc, buf, mem) := env.nodeProcess i x.p.log x.buf x.p.mem
  let p := { x.p with mem := mem }
  { rc := if metadataKept p owned buf x.buf.format.numChannels then rc else EAF_INVALID
    buf := buf
    p := p.record (.nodeProcess i rc x.buf buf) }

/-- The loop over the nodes. -/
def processNodes (env : PipelineEnv) (owned : Buffer) : List Nat → Block → Block
  | [], x => x
  | i :: is, x => if x.rc ≠ EAF_OK then x else processNodes env owned is (processNode env owned i x)

/-- The recovery of `eaf_pipeline_process`: zeros, in the storage that the sink owns. -/
def silenceBlock (p : Pipeline) (owned : Buffer) : Buffer × Pipeline :=
  let zeros := List.replicate (p.blockFrames.toNat * p.outputFormat.numChannels) 0
  ({ owned with
      format := p.outputFormat, frameCount := p.blockFrames, flags := EAF_FRAME_SILENCE },
    { p with mem := memStore p.mem owned.samples zeros })

/-- The code with which `eaf_pipeline_process` leaves the loop over the nodes. -/
def outputRc (x : Block) : Rc :=
  if x.rc = EAF_OK ∧ (x.buf.format ≠ x.p.outputFormat ∨ x.buf.frameCount ≠ x.p.blockFrames) then
    EAF_INVALID
  else x.rc

/-- The block that is committed: silence after a failure, else the block of the nodes, with the
flag for the end of the stream if the pull had it. -/
def outputBlock (owned : Buffer) (eos : Bool) (x : Block) : Buffer × Pipeline :=
  if outputRc x ≠ EAF_OK then silenceBlock x.p owned
  else if eos then ({ x.buf with flags := x.buf.flags ||| EAF_FRAME_EOS }, x.p)
  else (x.buf, x.p)

/-- The commit, and what `eaf_pipeline_process` returns. -/
def commitBlock (env : PipelineEnv) (rc : Rc) (eos : Bool) (buf : Buffer) (p : Pipeline) :
    Rc × Pipeline :=
  let commit := env.commit p.log buf
  let block := memLoad p.mem buf.samples (buf.frameCount.toNat * buf.format.numChannels)
  let p := p.record (.commit buf block commit)
  if rc = EAF_OK ∧ commit = EAF_OK ∧ eos = true then (EAF_EOF, { p with completed := true })
  else (if rc ≠ EAF_OK then rc else commit, p)

/-- `eos` of `eaf_pipeline_process`. -/
def raisesEos (x : Block) : Bool := x.rc = EAF_OK && x.buf.flags &&& EAF_FRAME_EOS ≠ 0

/-- `eaf_pipeline_process` from the loop over the nodes on. `x` is the block that was pulled. -/
def processRest (env : PipelineEnv) (owned : Buffer) (x : Block) : Rc × Pipeline :=
  let eos := raisesEos x
  let x := processNodes env owned (List.range x.p.config.nodes.length) x
  let (buf, p) := outputBlock owned eos x
  commitBlock env (outputRc x) eos buf p

/-- The block that `eaf_reservoir_pull` puts into the buffer of the sink. -/
def pullBlock (p : Pipeline) (owned : Buffer) : Block :=
  let (rc, buf, pulled) := reservoirPull p.reservoir { owned with frameCount := p.blockFrames }
  let p := { p with
    reservoir := pulled.reservoir, mem := memStore p.mem buf.samples pulled.block }
  { rc := rc, buf := buf, p := p.record (.pull rc buf) }

/-- `eaf_pipeline_process`. -/
def pipelineProcess (env : PipelineEnv) (p : Pipeline) : Rc × Pipeline :=
  if p.state ≠ .running then (EAF_STATE, p)
  else if p.completed then (EAF_EOF, p)
  else
    let (rc, buf) := env.acquire p.log
    let p := p.record (.acquire rc)
    if rc ≠ EAF_OK then (rc, p)
    else
      match buf with
      | none => (EAF_INVALID, p)
      | some owned =>
        if acquiredFits p owned = false then (EAF_INVALID, p)
        else processRest env owned (pullBlock p owned)

/-! ## The end -/

/-- `eaf_pipeline_deinit`. -/
def pipelineDeinit (env : PipelineEnv) (p : Pipeline) : Rc × Pipeline :=
  if p.state = .running then (EAF_STATE, p)
  else
    let (rc, p) := release env p
    if rc ≠ EAF_OK then (rc, p)
    else (EAF_OK, { p with
      config := ⟨false, false, false, false, []⟩
      state := .uninitialized
      outputFormat := ⟨0, 0, 0⟩
      blockFrames := 0
      initializedNodes := 0
      sinkInitialized := false
      sinkReady := false
      completed := false })

/-! ## Calls -/

/-- A call of the owner. Between two calls the producer may have changed the reservoir, and
anything the memory. -/
inductive PipelineCall where
  | init (config : PipelineConfig)
  | configure (blockFrames : UInt32)
  | start
  | process
  | stop
  | deinit
  | elsewhere (reservoir : Reservoir) (mem : Mem)

def afterPipelineCall (env : PipelineEnv) (p : Pipeline) : PipelineCall → Pipeline
  | .init config => (pipelineInit p config).2
  | .configure blockFrames => (pipelineConfigure env p blockFrames).2
  | .start => (pipelineStart env p).2
  | .process => (pipelineProcess env p).2
  | .stop => (pipelineStop env p).2
  | .deinit => (pipelineDeinit env p).2
  | .elsewhere reservoir mem => { p with reservoir := reservoir, mem := mem }

def afterPipelineCalls (env : PipelineEnv) (p : Pipeline) (calls : List PipelineCall) : Pipeline :=
  calls.foldl (afterPipelineCall env) p

/-- A pipeline of zeros, before everything. -/
def zeroPipeline (reservoir : Reservoir) (mem : Mem) : Pipeline where
  config := ⟨false, false, false, false, []⟩
  state := .uninitialized
  outputFormat := ⟨0, 0, 0⟩
  blockFrames := 0
  initializedNodes := 0
  sinkInitialized := false
  sinkReady := false
  completed := false
  reservoir := reservoir
  mem := mem
  log := []

end EmbeddedAudio.Core
