-- The LMS client (lms_client.c): the control connection, the commands of the
-- server, the stream over HTTP and the callbacks of the output. Sockets,
-- callbacks and the clock are inputs, and what the client does with them is
-- written down in a log.
import EmbeddedAudio.LmsProtocol
import Mathlib.Data.List.Infix

namespace EmbeddedAudio.Lms

open Storage

def EAF_LMS_PCM_FRAMES : Nat := 512
def EAF_LMS_INGRESS_BYTES : Nat := 4096
def EAF_LMS_TX_BYTES : Nat := 4096
def EAF_LMS_RX_BYTES : Nat := 1024
def UINT32_MAX : Nat := 2 ^ 32 - 1
def UINT64_MAX : Nat := 2 ^ 64 - 1

/-! ## The data -/

/-- `eaf_lms_buffer_request_t`. -/
structure BufferRequest where
  streamBytes : Nat
  outputMs : Nat
  sampleBytes : Nat
  deriving DecidableEq, Repr

/-- `eaf_lms_buffer_limits_t`. -/
structure BufferLimits where
  capacityFrames : Nat
  readyFrames : Nat
  clamped : Bool
  deriving DecidableEq, Repr

/-- `eaf_lms_playback_t`. -/
structure Playback where
  elapsedMs : Nat
  bufferBytes : Nat
  queuedBytes : Nat
  started : Bool
  deriving DecidableEq, Repr

/-- `eaf_lms_stage_t`. -/
inductive Stage where
  | none
  | connect
  | controlSend
  | controlRecv
  | command
  | httpConnect
  | outputStart
  | httpSend
  | httpRecv
  | headers
  | decode
  | pcm
  | status
  deriving DecidableEq, Repr

/-- `eaf_lms_diagnostics_t`. -/
structure Diagnostics where
  httpBytes : UInt64
  pcmFrames : UInt64
  recvAgain : UInt32
  backpressure : UInt32
  budgetYields : UInt32
  firstError : Rc
  errorStage : Stage
  errorOpcode : List UInt8
  httpStatus : UInt16
  httpLengthKnown : Bool
  httpContentLength : Nat
  httpContentType : List UInt8
  deriving DecidableEq, Repr

/-- The channels of a frame, as Q31 samples. -/
abbrev Frame := List Int32

inductive Socket where
  | control
  | http
  deriving DecidableEq, Repr

/-- The log of a client: what it did to its sockets and callbacks, with what they returned, the
packets that it handled and those that it queued, the greeting among them. Of the stream it has
when it opened, with what was in the ring then, and when its two gates opened, with whether the
output was paused. -/
inductive Event where
  | connect (socket : Socket) (ipv4 : Nat) (port : Nat) (rc : Rc)
  | send (socket : Socket) (data : List UInt8) (rc : Rc)
  | recv (socket : Socket) (rc : Rc) (data : List UInt8)
  | closed (socket : Socket)
  | command (packet : List UInt8)
  | hello (packet : List UInt8)
  | queued (opcode body : List UInt8)
  | opened (stream : Stream) (ring : List UInt8)
  | continued
  | unpaused (paused : Bool)
  | start (format : Format) (rc : Rc)
  | startBuffered (format : Format) (request : BufferRequest) (rc : Rc) (limits : BufferLimits)
  | stop
  | pcm (frames : List Frame) (wrote : Nat)
  | eof
  | pause (paused : Bool) (rc : Rc)
  | volume (left right : Int) (rc : Rc)
  | release (rc : Rc)
  deriving DecidableEq

/-- What the sockets, the callbacks and the clock do, in the light of everything that was done
before. A send takes at most the bytes that it is offered and a receive gives at most the bytes
that it is asked for; neither moves any bytes unless it returns `EAF_OK`. -/
structure Env where
  connect : List Event → Socket → Nat → Nat → Rc
  send : List Event → Socket → List UInt8 → Rc × Nat
  recv : List Event → Socket → Nat → Rc × List UInt8
  start : List Event → Format → Rc
  startBuffered : List Event → Format → BufferRequest → Rc × BufferLimits
  pcm : List Event → List Frame → Nat
  pause : List Event → Bool → Rc
  volume : List Event → Int → Int → Rc
  release : List Event → Rc
  clock : Nat → UInt64

/-- Which callbacks of `eaf_lms_callbacks_t` are set. `pcm`, `eof` and `stop` always are. -/
structure Callbacks where
  start : Bool
  startBuffered : Bool
  pause : Bool
  volume : Bool
  release : Bool
  deriving DecidableEq, Repr

/-- The fields of `eaf_lms_client_t` that belong to the stream, and the log. -/
structure Session where
  log : List Event
  streaming : Bool
  httpOpen : Bool
  bufferedOutput : Bool
  bufferLimits : BufferLimits
  waitCont : Bool
  waitStart : Bool
  readySent : Bool
  startedSent : Bool
  outputReleased : Bool
  outputPaused : Bool
  inputEof : Bool
  eofSent : Bool
  prefillFrames : Nat
  header : List UInt8
  headersDone : Bool
  hasLength : Bool
  remaining : Nat
  bodyDone : Bool
  ingress : List UInt8
  tail : List UInt8
  pcm : List Frame
  pcmSent : Nat
  format : Format
  width : Nat
  bigEndian : Bool

/-- `eaf_lms_client_t`. The lists are the parts of the buffers that are in use. `ticks` counts the
readings of the clock. -/
structure Client extends Session where
  controlOpen : Bool
  parser : Parser
  callbacks : Callbacks
  server : Nat
  tx : List UInt8
  txSent : Nat
  request : List UInt8
  requestSent : Nat
  playback : Playback
  bytesReceived : UInt64
  diagnostics : Diagnostics
  stage : Stage
  opcode : List UInt8
  stepProgress : Bool
  stepBackpressure : Bool
  ticks : Nat

def zeroLimits : BufferLimits := ⟨0, 0, false⟩

def zeroPlayback : Playback := ⟨0, 0, 0, false⟩

def zeroDiagnostics : Diagnostics := ⟨0, 0, 0, 0, 0, 0, .none, [0, 0, 0, 0], 0, false, 0, []⟩

def record (e : Event) (c : Client) : Client := { c with log := c.log ++ [e] }

/-- Going on behind a call, unless it failed. -/
def andThen (r : Rc × Client) (next : Client → Rc × Client) : Rc × Client :=
  if r.1 = EAF_OK then next r.2 else r

/-! ## The sockets -/

/-- `hal_tcp_connect`. -/
def tcpConnect (env : Env) (socket : Socket) (ipv4 port : Nat) (c : Client) : Rc × Client :=
  let rc := env.connect c.log socket ipv4 port
  let c := record (.connect socket ipv4 port rc) c
  (rc,
    if rc ≠ EAF_OK then c
    else
      match socket with
      | .control => { c with controlOpen := true }
      | .http => { c with httpOpen := true })

/-- `hal_tcp_close`. -/
def tcpClose (socket : Socket) (c : Client) : Client :=
  match socket with
  | .control => if c.controlOpen then record (.closed .control) { c with controlOpen := false } else c
  | .http => if c.httpOpen then record (.closed .http) { c with httpOpen := false } else c

/-- `hal_tcp_send`. -/
def tcpSend (env : Env) (socket : Socket) (data : List UInt8) (c : Client) : Rc × Nat × Client :=
  let (rc, n) := env.send c.log socket data
  let sent := if rc = EAF_OK then data.take n else []
  (rc, sent.length, record (.send socket sent rc) c)

/-- `hal_tcp_recv`. -/
def tcpRecv (env : Env) (socket : Socket) (capacity : Nat) (c : Client) :
    Rc × List UInt8 × Client :=
  let (rc, data) := env.recv c.log socket capacity
  let received := if rc = EAF_OK then data.take capacity else []
  (rc, received, record (.recv socket rc received) c)

/-- `hal_monotonic_time_us`. -/
def monotonicTime (env : Env) (c : Client) : UInt64 × Client :=
  (env.clock c.ticks, { c with ticks := c.ticks + 1 })

/-! ## Packets to the server -/

/-- `record_error`. -/
def recordError (rc : Rc) (c : Client) : Client :=
  if rc ≠ EAF_OK ∧ c.diagnostics.firstError = EAF_OK then
    { c with diagnostics := { c.diagnostics with
        firstError := rc
        errorStage := c.stage
        errorOpcode :=
          if c.stage = .command ∨ c.stage = .httpConnect ∨ c.stage = .outputStart then c.opcode
          else c.diagnostics.errorOpcode } }
  else c

/-- The bytes of `tx` that were sent move out of the way. -/
def compactTx (c : Client) : Client :=
  if c.txSent ≠ 0 then { c with tx := c.tx.drop c.txSent, txSent := 0 } else c

/-- `enqueue`. -/
def enqueue (opcode body : List UInt8) (c : Client) : Rc × Client :=
  let c := compactTx c
  if body.length > EAF_LMS_TX_BYTES - 8 ∨ c.tx.length > EAF_LMS_TX_BYTES - 8 - body.length then
    ( EAF_IO, c)
  else
    (EAF_OK, record (.queued opcode body)
      { c with tx := c.tx ++ (opcode ++ writeBE 4 body.length ++ body) })

/-- The body of a STAT packet. -/
def statBody (event : List UInt8) (timestamp jiffies : Nat) (c : Client) : List UInt8 :=
  event ++ List.replicate 11 0 ++
    writeBE 4 (c.bytesReceived.toNat / 2 ^ 32) ++ writeBE 4 c.bytesReceived.toNat ++ [0, 0] ++
    writeBE 4 jiffies ++ writeBE 4 c.playback.bufferBytes ++ writeBE 4 c.playback.queuedBytes ++
    writeBE 4 (c.playback.elapsedMs / 1000) ++ [0, 0] ++ writeBE 4 c.playback.elapsedMs ++
    writeBE 4 timestamp ++ [0, 0]

/-- `status`. -/
def status (env : Env) (event : List UInt8) (timestamp : Nat) (c : Client) : Rc × Client :=
  let (now, c) := monotonicTime env c
  enqueue (ascii "STAT") (statBody event timestamp (now.toNat / 1000) c) c

/-! ## The commands of the server -/

/-- `stop_stream`. -/
def stopStream (c : Client) : Client :=
  let c := tcpClose .http c
  let c := if c.streaming then record .stop c else c
  { c with
    streaming := false
    bufferedOutput := false
    outputReleased := false
    outputPaused := false
    inputEof := false
    eofSent := false
    prefillFrames := 0
    bufferLimits := zeroLimits
    pcm := []
    pcmSent := 0
    bodyDone := false
    waitCont := false
    waitStart := false
    readySent := false
    startedSent := false
    playback := zeroPlayback
    bytesReceived := 0 }

/-- The gain of a channel in an `audg` packet. -/
def gainOf (p : List UInt8) (ch : Nat) : Int :=
  let raw := readBE (slice p (14 + ch * 4) 4)
  if p.getD 12 0 = 0 ∨ raw ≥ 65536 then 2 ^ 31 - 1 else raw * 2 ^ 15

/-- The `audg` command. -/
def audg (env : Env) (p : List UInt8) (c : Client) : Rc × Client :=
  if p.length < 22 then (EAF_INVALID, c)
  else if c.callbacks.volume then
    let rc := env.volume c.log (gainOf p 0) (gainOf p 1)
    (rc, record (.volume (gainOf p 0) (gainOf p 1) rc) c)
  else (EAF_OK, c)

/-- The `cont` command. -/
def cont (p : List UInt8) (c : Client) : Rc × Client :=
  if p.length < 9 then (EAF_INVALID, c)
  else if !c.streaming || !c.waitCont then (EAF_OK, c)
  else if slice p 4 5 ≠ [0, 0, 0, 0, 0] then (EAF_UNSUPPORTED, c)
  else (EAF_OK, record .continued { c with waitCont := false })

/-- The pause callback. -/
def callPause (env : Env) (paused : Bool) (c : Client) : Rc × Client :=
  let rc := env.pause c.log paused
  (rc, record (.pause paused rc) c)

/-- The start gate opens. -/
def openStart (c : Client) : Client :=
  record (.unpaused c.outputPaused) { c with waitStart := false }

def setPaused (paused : Bool) (c : Client) : Client := { c with outputPaused := paused }

/-- What `strm u` does before it tells the server. -/
def unpause (env : Env) (c : Client) : Rc × Client :=
  if c.waitStart then
    if !c.readySent then (EAF_STATE, c) else (EAF_OK, openStart c)
  else if !c.callbacks.pause then (EAF_UNSUPPORTED, c)
  else callPause env false c

/-- `strm u`. -/
def strmU (env : Env) (s : Stream) (c : Client) : Rc × Client :=
  if s.replayGain ≠ 0 then (EAF_UNSUPPORTED, c)
  else if !c.streaming || c.waitCont then (EAF_STATE, c)
  else andThen (unpause env c) fun c => status env (ascii "STMr") 0 (setPaused false c)

/-- `strm p`. -/
def strmP (env : Env) (s : Stream) (c : Client) : Rc × Client :=
  if s.replayGain ≠ 0 || !c.callbacks.pause then (EAF_UNSUPPORTED, c)
  else if !c.streaming then (EAF_STATE, c)
  else andThen (callPause env true c) fun c => status env (ascii "STMp") 0 (setPaused true c)

def rates : List Nat :=
  [11025, 22050, 32000, 44100, 48000, 8000, 12000, 16000, 24000, 96000, 88200]

/-- A digit of the `strm` command. -/
def digitOf (b : UInt8) : Nat := b.toNat - 0x30

/-- What a stream has to be for the client to play it. -/
def streamSupported (s : Stream) : Bool :=
  s.flags &&& 0x20 == 0 && s.codec == 0x70 && 0x30 ≤ s.autostart && s.autostart ≤ 0x33 &&
    0x31 ≤ s.sampleSize && s.sampleSize ≤ 0x33 && 0x30 ≤ s.sampleRate &&
    digitOf s.sampleRate < rates.length && (s.channels == 0x31 || s.channels == 0x32) &&
    (s.endianness == 0x30 || s.endianness == 0x31) && 4 ≤ s.request.length &&
    s.request.length ≤ EAF_LMS_MAX_PACKET && s.request.drop (s.request.length - 4) == [13, 10, 13, 10]

/-- The format of the samples of a stream. -/
def streamFormat (s : Stream) : Format where
  sampleRate := rates.getD (digitOf s.sampleRate) 0
  numChannels := digitOf s.channels
  channelMask := if s.channels = 0x31 then 8 else 3

/-- What the output has to hold before the stream starts. -/
def requestOf (s : Stream) (width : Nat) : BufferRequest where
  streamBytes := s.thresholdKib.toNat * 1024
  outputMs := s.outputThresholdDs.toNat * 100
  sampleBytes := width

/-- The `start_buffered` callback. -/
def callStartBuffered (env : Env) (request : BufferRequest) (c : Client) : Rc × Client :=
  let (rc, limits) := env.startBuffered c.log c.format request
  (rc, record (.startBuffered c.format request rc limits) { c with bufferLimits := limits })

/-- The `start` callback. -/
def callStart (env : Env) (c : Client) : Rc × Client :=
  let rc := env.start c.log c.format
  (rc, record (.start c.format rc) c)

/-- The limits that an output may have. -/
def limitsValid (limits : BufferLimits) : Bool :=
  limits.readyFrames != 0 && decide (limits.readyFrames ≤ limits.capacityFrames)

/-- The output of a stream starts. -/
def startOutput (env : Env) (s : Stream) (c : Client) : Rc × Client :=
  let c := { c with stage := .outputStart, bufferedOutput := c.callbacks.startBuffered }
  if c.bufferedOutput then
    andThen (callStartBuffered env (requestOf s c.width) c) fun c =>
      if !limitsValid c.bufferLimits then (EAF_INVALID, record .stop c) else (EAF_OK, c)
  else callStart env c

/-- A stream whose output has started. -/
def openStream (s : Stream) (c : Client) : Client :=
  { record (.opened s c.ingress) c with
    streaming := true
    header := []
    headersDone := false
    hasLength := false
    waitCont := 0x32 ≤ s.autostart
    waitStart := s.autostart == 0x30 || s.autostart == 0x32
    tail := []
    bytesReceived := 0
    request := s.request
    requestSent := 0 }

/-- What the samples of a stream look like. -/
def configure (s : Stream) (c : Client) : Client :=
  { c with
    width := digitOf s.sampleSize + 1
    bigEndian := s.endianness == 0x30
    format := streamFormat s
    stage := .httpConnect }

/-- Closing the connection of a stream that did not start. -/
def orHangUp (r : Rc × Client) : Rc × Client :=
  if r.1 = EAF_OK then r else (r.1, tcpClose .http r.2)

/-- `strm s` for a stream that the client can play. -/
def playStream (env : Env) (s : Stream) (c : Client) : Rc × Client :=
  andThen (tcpConnect env .http (if s.serverIpv4 ≠ 0 then s.serverIpv4 else c.server) s.serverPort c)
    fun c => andThen (orHangUp (startOutput env s c)) fun c =>
      status env (ascii "STMc") 0 (openStream s c)

/-- `strm s`. -/
def strmS (env : Env) (s : Stream) (c : Client) : Rc × Client :=
  if !streamSupported s then (EAF_UNSUPPORTED, stopStream c)
  else playStream env s (configure s (stopStream c))

/-- The `strm` command. -/
def strm (env : Env) (p : List UInt8) (c : Client) : Rc × Client :=
  match parseStream p with
  | .error rc => (rc, c)
  | .ok s =>
    if s.command = 0x74 then status env (ascii "STMt") s.replayGain c
    else if s.command = 0x71 ∨ s.command = 0x66 then
      status env (ascii "STMf") 0 (stopStream c)
    else if s.command = 0x75 then strmU env s c
    else if s.command = 0x70 then strmP env s c
    else if s.command ≠ 0x73 then (EAF_UNSUPPORTED, c)
    else strmS env s c

/-- `command`. -/
def command (env : Env) (p : List UInt8) (c : Client) : Rc × Client :=
  let c := record (.command p) { c with stage := .command, opcode := p.take 4 }
  if p.take 4 = ascii "audg" then audg env p c
  else if p.take 4 = ascii "cont" then cont p c
  else if p.take 4 ≠ ascii "strm" then (EAF_OK, c)
  else strm env p c

end EmbeddedAudio.Lms
