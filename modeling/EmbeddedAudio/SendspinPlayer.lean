-- The Sendspin player (sendspin_player.c): chunks of PCM or of compressed bytes
-- on one side, a sink that takes what it can of each block on the other.
import EmbeddedAudio.DecodeWorker
import EmbeddedAudio.Q31
import EmbeddedAudio.ServerMessages

namespace EmbeddedAudio.SendspinPlayer

open BtDecoder (pcm16ToQ31)
open DecodeWorker Q31 Sendspin Storage

abbrev EAF_SENDPIN_DECODE_STEPS : Nat := 64

abbrev EAF_SENDPIN_PLAYER_CHUNK_FRAMES : Nat := 128

/-! ## What the player stands between -/

/-- A block that the sink was offered, and how many frames of it the sink took. -/
structure Offer where
  samples : List Int32
  frames : Nat
  written : Nat
  deriving DecidableEq, Repr

/-- The ratio of output to input frames. The resampler runs on any but 1.0. -/
inductive Ratio where
  | unity
  | other
  deriving DecidableEq, Repr

/-- A decoder adapter and a sink that keep their contracts, and the resampler. What they answer
can depend on all that happened to them. -/
structure Env where
  opens : List Event → Rc
  push : List Event → List UInt8 → Rc × Nat
  pull : List Event → UInt32 → PullAnswer
  reset : List Event → Rc
  sink : List Offer → List Int32 → Nat → Nat
  resample : List Offer → List Int32 → Nat → Nat × List Int32
  push_le : ∀ log data, (push log data).2 ≤ data.length
  pull_le : ∀ log maxFrames, (pull log maxFrames).frames.toNat ≤ maxFrames.toNat
  sink_le : ∀ offers samples frames, sink offers samples frames ≤ frames

/-- The decode worker's side of it. `decode_sink` reports every block as consumed. -/
def Env.worker (env : Env) : DecodeWorker.Env where
  opens := env.opens
  push := env.push
  pull := env.pull
  reset := env.reset
  sink _ _ frames := frames
  pull_le := env.pull_le
  sink_le _ _ _ := Nat.le_refl _

/-- The clocks at a write: the time filter, the monotonic clock, when the chunk is to be played,
and what the drift controller gives. -/
structure Moment where
  synchronized : Bool
  now : Int
  play : Int
  ratio : Ratio
  deriving DecidableEq, Repr

/-- `eaf_sendspin_decoder_t`. -/
structure Decoder where
  bound : Bool
  scratch : List Int32
  scratchFrames : UInt32

/-- `eaf_sendspin_player_t`. -/
structure Player where
  format : Format
  inputChannels : UInt8
  inputBits : UInt8
  active : Bool
  synchronized : Bool
  dropLate : Bool
  compressed : Bool
  lastLatencyUs : Int
  framesWritten : UInt32
  framesDropped : UInt32
  chunks : UInt32
  decoder : Decoder
  worker : Worker
  activeRatio : Ratio
  rateControl : Bool
  offers : List Offer

/-! ## Samples -/

/-- `read_le16`. -/
def readLe16 (p : List UInt8) : Int16 :=
  let value := (p.getD 0 0).toUInt16 ||| (p.getD 1 0).toUInt16 <<< 8
  value.toInt16

/-- `read_le24`. -/
def readLe24 (p : List UInt8) : Int32 :=
  let value := (p.getD 0 0).toUInt32 ||| (p.getD 1 0).toUInt32 <<< 8 |||
    (p.getD 2 0).toUInt32 <<< 16
  (signExtend24 value).toInt32

/-- `read_le32`. -/
def readLe32 (p : List UInt8) : Int32 :=
  let value := (p.getD 0 0).toUInt32 ||| (p.getD 1 0).toUInt32 <<< 8 |||
    (p.getD 2 0).toUInt32 <<< 16 ||| (p.getD 3 0).toUInt32 <<< 24
  value.toInt32

/-- `sample_to_q31`. -/
def sampleToQ31 (p : List UInt8) (bits : UInt8) : Int32 :=
  if bits = 16 then pcm16ToQ31 (readLe16 p)
  else if bits = 24 then pcm24ToQ31 (readLe24 p)
  else pcm32ToQ31 (readLe32 p)

def sampleBytes (p : Player) : Nat := p.inputBits.toNat / 8

def frameBytes (p : Player) : Nat := p.inputChannels.toNat * sampleBytes p

/-- The two samples of a frame of a PCM chunk. Mono is on both sides. -/
def frameToQ31 (p : Player) (frame : List UInt8) : List Int32 :=
  let left := sampleToQ31 frame p.inputBits
  [left, if p.inputChannels = 2 then sampleToQ31 (frame.drop (sampleBytes p)) p.inputBits else left]

/-- `count` frames of a PCM chunk, from the frame `index` on. -/
def scratchOf (p : Player) (pcm : List UInt8) (index count : Nat) : List Int32 :=
  (List.range count).flatMap fun i => frameToQ31 p (pcm.drop ((index + i) * frameBytes p))

/-! ## The sink -/

/-- `queue_block`: what the sink took, what it was offered, and the player. -/
def queueBlock (env : Env) (p : Player) (samples : List Int32) (count : Nat) :
    Nat × Nat × Player :=
  let (produce, output) :=
    if p.activeRatio = .unity then (count, samples) else env.resample p.offers samples count
  let written := env.sink p.offers output produce
  (written, produce, { p with
    framesWritten := p.framesWritten + UInt32.ofNat written
    framesDropped :=
      if written < produce then p.framesDropped + UInt32.ofNat (produce - written)
      else p.framesDropped
    offers := p.offers ++ [⟨output, produce, written⟩] })

/-- The blocks that a loop goes over, each as its first frame and its frames: a block has
`EAF_SENDSPIN_PLAYER_CHUNK_FRAMES` frames at most. -/
def blocksFrom (frames : Nat) : Nat → Nat → List (Nat × Nat)
  | 0, _ => []
  | bound + 1, index =>
    if index < frames then
      let count := min (frames - index) EAF_SENDPIN_PLAYER_CHUNK_FRAMES
      (index, count) :: blocksFrom frames bound (index + count)
    else []

def blocks (frames : Nat) : List (Nat × Nat) := blocksFrom frames frames 0

/-- The loop of `decode_sink`. When the sink is short, the frames behind the block are counted
as dropped. -/
def decodeBlocks (env : Env) (samples : List Int32) (frames : Nat) :
    List (Nat × Nat) → Player → Player
  | [], p => p
  | (index, count) :: rest, p =>
    let (written, produced, p) := queueBlock env p (slice samples (index * 2) (count * 2)) count
    if written < produced then
      { p with framesDropped := p.framesDropped + UInt32.ofNat (frames - (index + count)) }
    else decodeBlocks env samples frames rest p

/-- `decode_sink`. -/
def decodeSink (env : Env) (p : Player) (samples : List Int32) (frames : Nat) : Player :=
  decodeBlocks env samples frames (blocks frames) p

/-- The loop of `eaf_sendspin_player_write` over the frames of a PCM chunk. -/
def pcmBlocks (env : Env) (pcm : List UInt8) : List (Nat × Nat) → Player → Player
  | [], p => p
  | (index, count) :: rest, p =>
    let (written, produced, p) := queueBlock env p (scratchOf p pcm index count) count
    if written < produced then p else pcmBlocks env pcm rest p

/-! ## The decoder -/

/-- A block that the worker has handed to `decode_sink`. -/
def takeHanded (env : Env) (p : Player) : Event → Player
  | .wrote frames samples => decodeSink env p samples frames.toNat
  | _ => p

/-- `eaf_decode_worker_step` with `decode_sink` behind it. -/
def step (env : Env) (p : Player) : Rc × Player :=
  let (rc, worker) := workerStep env.worker p.worker
  (rc, (worker.log.drop p.worker.log.length).foldl (takeHanded env) { p with worker := worker })

/-- The first loop of `write_compressed`. -/
def feed (env : Env) : Nat → Player → List UInt8 → Rc × Player
  | 0, p, _ => (EAF_OK, p)
  | guard + 1, p, data =>
    if data = [] then (EAF_OK, p)
    else if canPush p.worker = false then
      let (rc, p) := step env p
      if rc ≠ EAF_OK then (rc, p) else feed env guard p data
    else
      let (rc, consumed, worker) := workerPush env.worker p.worker (.bytes data)
      let p := { p with worker := worker }
      if rc ≠ EAF_OK then (rc, p)
      else if consumed = 0 then
        let (rc, p) := step env p
        if rc ≠ EAF_OK then (rc, p) else feed env guard p data
      else feed env guard p (data.drop consumed)

/-- The second loop of `write_compressed`. -/
def drainDecoder (env : Env) : Nat → Player → Rc × Player
  | 0, p => (EAF_OK, p)
  | i + 1, p =>
    let before := p.worker.framesWritten
    let (rc, p) := step env p
    if rc ≠ EAF_OK then (rc, p)
    else if p.worker.framesWritten = before ∧ canPush p.worker = true then (EAF_OK, p)
    else drainDecoder env i p

/-- `write_compressed`. -/
def writeCompressed (env : Env) (p : Player) (data : List UInt8) : Rc × Player :=
  let (rc, p) := feed env EAF_SENDPIN_DECODE_STEPS p data
  if rc ≠ EAF_OK then (rc, p) else drainDecoder env EAF_SENDPIN_DECODE_STEPS p

/-! ## A stream begins and ends -/

/-- `eaf_decode_worker_close`. -/
def workerClose (w : Worker) : Worker := { w with isOpen := false, pending := 0, sent := 0 }

/-- `eaf_decode_worker_init`, with all pointers set. -/
def workerInit (d : Decoder) (format : Format) (w : Worker) : Rc × Worker :=
  if formatValid format = false ∨ d.scratchFrames = 0 then (EAF_INVALID, w)
  else (EAF_OK, {
    format := format
    scratch := d.scratch
    scratchFrames := d.scratchFrames
    pending := 0
    sent := 0
    framesWritten := 0
    framesDropped := 0
    isOpen := false
    log := [] })

/-- Whether `decoder_codec` has a codec for it. -/
def hasDecoderCodec : Codec → Bool
  | .flac => true
  | .opus => true
  | .mp3 => true
  | .vorbis => true
  | .pcm => false
  | .unknown => false

/-- The formats that `eaf_sendspin_player_begin` refuses. -/
def unsupported (p : Player) (start : StreamStart) : Prop :=
  if start.codec ≠ .pcm then
    hasDecoderCodec start.codec = false ∨ p.decoder.bound = false ∨ p.decoder.scratchFrames = 0
  else start.bitDepth ≠ 16 ∧ start.bitDepth ≠ 24 ∧ start.bitDepth ≠ 32

instance (p : Player) (start : StreamStart) : Decidable (unsupported p start) := by
  unfold unsupported
  infer_instance

/-- The player of a new stream. -/
def begun (p : Player) (start : StreamStart) : Player :=
  { p with
    format := ⟨start.sampleRate.toNat, 2, 3⟩
    inputChannels := start.channels
    inputBits := if start.bitDepth ≠ 0 then start.bitDepth else 16
    active := true
    synchronized := false
    lastLatencyUs := 0
    framesWritten := 0
    framesDropped := 0
    chunks := 0 }

/-- The last part of `eaf_sendspin_player_begin`, for a compressed stream. -/
def openDecoder (env : Env) (p : Player) (start : StreamStart) : Rc × Player :=
  let (rc, worker) := workerInit p.decoder p.format p.worker
  let p := { p with worker := worker }
  if rc ≠ EAF_OK then (EAF_INVALID, p)
  else
    let (rc, worker) := workerOpen env.worker p.worker ⟨start.sampleRate.toNat, start.channels.toNat⟩
    let p := { p with worker := worker }
    if rc ≠ EAF_OK then (rc, { p with active := false }) else (EAF_OK, { p with compressed := true })

/-- `eaf_sendspin_player_begin`, with all pointers set. -/
def playerBegin (env : Env) (p : Player) (start : StreamStart) : Rc × Player :=
  if p.active then (EAF_STATE, p)
  else if start.channels ≠ 1 ∧ start.channels ≠ 2 then (EAF_UNSUPPORTED, p)
  else if start.sampleRate = 0 then (EAF_UNSUPPORTED, p)
  else
    let p := { p with worker := workerClose p.worker, compressed := false, activeRatio := .unity }
    if unsupported p start then (EAF_UNSUPPORTED, p)
    else
      let p := begun p start
      if start.codec ≠ .pcm then openDecoder env p start else (EAF_OK, p)

/-- `eaf_sendspin_player_finish`. -/
def playerFinish (p : Player) : Player :=
  { p with worker := workerClose p.worker, compressed := false, active := false }

/-! ## The calls -/

/-- Whether a chunk is late, and late chunks are dropped. -/
def late (p : Player) (moment : Moment) : Bool :=
  moment.synchronized && p.dropLate && decide (moment.play < moment.now)

/-- The ratio of a write. -/
def playRatio (p : Player) (moment : Moment) : Ratio :=
  if p.rateControl && moment.synchronized then moment.ratio else .unity

/-- What the clocks leave in the player. -/
def clocked (p : Player) (moment : Moment) : Player :=
  { p with
    synchronized := moment.synchronized
    lastLatencyUs := if moment.synchronized then moment.play - moment.now else p.lastLatencyUs }

/-- The frames of a late PCM chunk are counted as dropped. -/
def dropChunk (p : Player) (data : List UInt8) : Player :=
  if p.compressed = false ∧ frameBytes p ≠ 0 then
    { p with framesDropped := p.framesDropped + UInt32.ofNat (data.length / frameBytes p) }
  else p

/-- The PCM part of `eaf_sendspin_player_write`. -/
def writePcm (env : Env) (p : Player) (data : List UInt8) : Player :=
  if data.length < frameBytes p then p
  else
    let frames := UInt32.ofNat (data.length / frameBytes p)
    let p := pcmBlocks env data (blocks frames.toNat) p
    { p with chunks := p.chunks + 1 }

/-- `eaf_sendspin_player_write`. -/
def playerWrite (env : Env) (p : Player) (moment : Moment) : Input → Rc × Player
  | .null _ => (EAF_INVALID, p)
  | .bytes data =>
    if p.active = false then (EAF_INVALID, p)
    else
      let isLate := late p moment
      let ratio := playRatio p moment
      let p := clocked p moment
      if isLate then
        let p := dropChunk p data
        (EAF_OK, { p with chunks := p.chunks + 1 })
      else
        let p := { p with activeRatio := ratio }
        if p.compressed then
          let (rc, p) := writeCompressed env p data
          (rc, { p with chunks := p.chunks + 1 })
        else (EAF_OK, writePcm env p data)

/-- The players that a stream can have between its begin and its end. The settings may change at
any time. -/
inductive Playing (env : Env) : Player → Prop where
  | begun {p p' : Player} {start : StreamStart} (h : playerBegin env p start = (EAF_OK, p')) :
      Playing env p'
  | written {p : Player} (h : Playing env p) (moment : Moment) (input : Input) :
      Playing env (playerWrite env p moment input).2
  | tuned {p : Player} (h : Playing env p) (dropLate rateControl : Bool) :
      Playing env { p with dropLate := dropLate, rateControl := rateControl }

end EmbeddedAudio.SendspinPlayer
