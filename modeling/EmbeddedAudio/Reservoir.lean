-- The reservoir (eaf_reservoir.c): a ring of audio frames between a producer
-- that writes and a consumer that pulls blocks of a fixed size.
import EmbeddedAudio.Results
import EmbeddedAudio.Storage
import EmbeddedAudio.RingCursor

namespace EmbeddedAudio.Core

open Storage Cursor

abbrev EAF_FRAME_SILENCE : UInt32 := 1
abbrev EAF_FRAME_UNDERRUN : UInt32 := 2
abbrev EAF_FRAME_EOS : UInt32 := 4

/-- `eaf_buffer_t`. A pointer to samples is the number of a block of memory, or `none`. -/
structure Buffer where
  samples : Option Nat
  frameCount : UInt32
  capacityFrames : UInt32
  capacitySamples : Nat
  format : Format
  flags : UInt32
  deriving DecidableEq, Repr

inductive ReservoirState where
  | prebuffering
  | streaming
  | underrun
  | drained
  deriving DecidableEq, Repr

/-- `eaf_reservoir_t`. From `state` on the fields belong to the consumer. `wakeProducer` says
whether the callback is set. -/
structure Reservoir where
  storage : List Int32
  capacity : UInt32
  highWatermark : UInt32
  backpressureLow : UInt32
  backpressureHigh : UInt32
  format : Format
  readCursor : UInt32
  writeCursor : UInt32
  finished : Bool
  state : ReservoirState
  underruns : UInt32
  framesRead : UInt64
  last : List Int32
  wakeProducer : Bool
  deriving DecidableEq, Repr

/-! ## Copies in and out of the ring -/

/-- The frames that fit before the end of the ring. -/
def firstPart (capacity start frames : UInt32) : UInt32 :=
  let first := capacity - slotOf capacity start
  if first > frames then frames else first

/-- `storage_store`. -/
def storageStore (storage : List Int32) (capacity start : UInt32) (src : List Int32)
    (frames : UInt32) (channels : Nat) : List Int32 :=
  let slot := slotOf capacity start
  let first := firstPart capacity start frames
  let storage := overwrite storage (slot.toNat * channels) (src.take (first.toNat * channels))
  if first < frames then
    overwrite storage 0 (slice src (first.toNat * channels) ((frames - first).toNat * channels))
  else storage

/-- `storage_load`. -/
def storageLoad (storage : List Int32) (capacity start frames : UInt32) (channels : Nat) :
    List Int32 :=
  let slot := slotOf capacity start
  let first := firstPart capacity start frames
  slice storage (slot.toNat * channels) (first.toNat * channels) ++
    if first < frames then slice storage 0 ((frames - first).toNat * channels) else []

/-! ## Both sides -/

/-- `eaf_reservoir_reset`. -/
def reservoirReset (r : Reservoir) : Reservoir :=
  { r with
    readCursor := 0, writeCursor := 0, finished := false, state := .prebuffering, underruns := 0
    framesRead := 0, last := List.replicate EAF_MAX_CHANNELS 0 }

/-- `eaf_reservoir_init`. `sizeMax` is `SIZE_MAX`. -/
def reservoirInit (sizeMax : Nat) (storage : List Int32) (capacity : UInt32) (fmt : Format)
    (highWatermark : UInt32) : Except Rc Reservoir :=
  if formatValid fmt = false ∨ capacity < 2 ∨ capacity > 0xFFFFFFFF / 2 ∨
      capacity &&& (capacity - 1) ≠ 0 ∨ highWatermark = 0 ∨ highWatermark > capacity ∨
      capacity.toNat > sizeMax / 4 / fmt.numChannels then .error EAF_INVALID
  else
    .ok (reservoirReset {
      storage := storage
      capacity := capacity
      highWatermark := highWatermark
      backpressureLow := capacity / 2
      backpressureHigh := capacity - capacity / 10
      format := fmt
      readCursor := 0
      writeCursor := 0
      finished := false
      state := .prebuffering
      underruns := 0
      framesRead := 0
      last := List.replicate EAF_MAX_CHANNELS 0
      wakeProducer := false })

/-- The clamp of `eaf_reservoir_level`, on the two cursors that it loads one after the other. -/
def levelOf (r : Reservoir) (read write : UInt32) : UInt32 :=
  let level := write - read
  if level > r.capacity then r.capacity else level

/-- `eaf_reservoir_level`. -/
def reservoirLevel (r : Reservoir) : UInt32 := levelOf r r.readCursor r.writeCursor

/-- `eaf_reservoir_backpressure`. -/
def reservoirBackpressure (r : Reservoir) : Bool := reservoirLevel r ≥ r.backpressureHigh

/-! ## The producer -/

/-- The frames that a write accepts, with the cursors that it loads. -/
def writeFrames (r : Reservoir) (frames write read : UInt32) : UInt32 :=
  let available := r.capacity - (write - read)
  if frames > available then available else frames

/-- `eaf_reservoir_write`, with nothing in between. -/
def reservoirWrite (r : Reservoir) (src : List Int32) (frames : UInt32) : UInt32 × Reservoir :=
  if r.finished then (0, r)
  else
    let write := r.writeCursor
    let frames := writeFrames r frames write r.readCursor
    (frames, { r with
      storage := storageStore r.storage r.capacity write src frames r.format.numChannels
      writeCursor := write + frames })

/-- `eaf_reservoir_finish`. -/
def reservoirFinish (r : Reservoir) : Reservoir := { r with finished := true }

/-! ## The consumer -/

/-- The test at the head of `eaf_reservoir_pull`. -/
def pullValid (r : Reservoir) (buf : Buffer) : Bool :=
  buf.samples.isSome && buf.frameCount != 0 && buf.frameCount ≤ buf.capacityFrames &&
    buf.frameCount ≤ r.capacity && buf.frameCount.toNat ≤ buf.capacitySamples / r.format.numChannels

/-- The state in which a pull decides what to do before the end of the stream. -/
def pullState (r : Reservoir) (available n : UInt32) : ReservoirState :=
  let state := if r.state = .underrun then .streaming else r.state
  if state = .prebuffering ∧ available ≥ r.highWatermark ∧ available ≥ n then .streaming else state

/-- The frames that a pull takes out of the ring. -/
def pullTake (r : Reservoir) (finished : Bool) (available n : UInt32) : UInt32 :=
  if finished = true ∨ pullState r available n = .streaming then
    if available < n then available else n
  else 0

/-- One sample of the ramp down from `sample`. -/
def rampSample (sample : Int32) (fade i : Nat) : Int32 :=
  Int32.ofInt ((sample.toInt * ((fade - i - 1 : Nat) : Int)).tdiv fade)

/-- What a pull puts behind the frames that it has, when it has too few: a ramp down from the
last frame, and then silence. -/
def shortfall (channels : Nat) (lastFrame : List Int32) (missing : Nat) : List Int32 :=
  let fade := if missing < 16 then missing else 16
  (List.range fade).flatMap (fun i => lastFrame.map (rampSample · fade i)) ++
    List.replicate ((missing - fade) * channels) 0

/-- What a pull returns and leaves: the flags of the block, its samples, and whether the
producer is woken. -/
structure Pulled where
  reservoir : Reservoir
  flags : UInt32
  block : List Int32
  wake : Bool
  deriving DecidableEq, Repr

/-- The rest of `eaf_reservoir_pull`, once the cursors and the flag are loaded and the frames
are copied out of the ring. -/
def pullRest (r : Reservoir) (finished : Bool) (read available n : UInt32) (loaded : List Int32) :
    Pulled :=
  let channels := r.format.numChannels
  let take := pullTake r finished available n
  if finished then
    let state : ReservoirState := if available ≤ n then .drained else .streaming
    { reservoir := { r with
        readCursor := read + take
        framesRead := r.framesRead + take.toUInt64
        state := state }
      flags := (if take = 0 then EAF_FRAME_SILENCE else 0) |||
        if state = .drained then EAF_FRAME_EOS else 0
      block := loaded ++ List.replicate ((n - take).toNat * channels) 0
      wake := false }
  else
    let state := pullState r available n
    if state = .streaming then
      let r' := { r with
        state := .streaming
        readCursor := read + take
        framesRead := r.framesRead + take.toUInt64 }
      let wake := available - take < r.backpressureLow && r.wakeProducer
      if take < n then
        let lastFrame :=
          if take ≠ 0 then slice loaded ((take.toNat - 1) * channels) channels
          else r.last.take channels
        { reservoir := { r' with
            last := List.replicate EAF_MAX_CHANNELS 0
            state := .underrun
            underruns := r.underruns + 1 }
          flags := EAF_FRAME_UNDERRUN
          block := loaded ++ shortfall channels lastFrame (n - take).toNat
          wake := wake }
      else
        { reservoir := { r' with
            last := overwrite r.last 0 (slice loaded ((n.toNat - 1) * channels) channels) }
          flags := 0
          block := loaded
          wake := wake }
    else
      { reservoir := { r with state := state }
        flags := EAF_FRAME_SILENCE
        block := List.replicate (n.toNat * channels) 0
        wake := available < r.backpressureLow && r.wakeProducer }

/-- `eaf_reservoir_pull`, with nothing in between. The block is written to the samples of the
buffer, from its first one on. -/
def reservoirPull (r : Reservoir) (buf : Buffer) : Rc × Buffer × Pulled :=
  if pullValid r buf = false then (EAF_INVALID, buf, ⟨r, buf.flags, [], false⟩)
  else
    let read := r.readCursor
    let available := r.writeCursor - read
    let n := buf.frameCount
    let take := pullTake r r.finished available n
    let loaded := storageLoad r.storage r.capacity read take r.format.numChannels
    let pulled := pullRest r r.finished read available n loaded
    (EAF_OK, { buf with format := r.format, flags := pulled.flags }, pulled)

end EmbeddedAudio.Core
