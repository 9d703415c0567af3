-- The Sendspin client (sendspin_client.c): connecting, the upgrade, the
-- messages of the server and the callbacks that they lead to. The socket and
-- the clock are inputs, and what the client does is written down in a log.
import EmbeddedAudio.ClientMessages

namespace EmbeddedAudio.Sendspin

open Storage Ws

abbrev EAF_SENDPIN_TIME_BURST_MS : Nat := 200
abbrev EAF_SENDPIN_TIME_STEADY_MS : Nat := 3000

abbrev EAF_SENDPIN_RX_BYTES : Nat := 4096
abbrev EAF_SENDPIN_MESSAGE_BYTES : Nat := 8192
abbrev EAF_SENDPIN_JSON_BYTES : Nat := 1024
abbrev EAF_SENDPIN_WIRE_BYTES : Nat := 2048
abbrev EAF_SENDPIN_HTTP_BYTES : Nat := 1024

/-- What the client takes from outside. The time filter computes with floating point, so its
state `φ` and its functions are arbitrary. The clock gives the readings one after another. -/
structure Env (φ : Type) where
  filterInit : φ
  filterExchange : φ → ServerTime → UInt64 → φ
  timeSynchronized : φ → Bool
  timeError : φ → Int
  clock : Nat → UInt64

/-- Which callbacks of `eaf_sendspin_callbacks_t` the application has set. They do not call
the client. -/
structure Callbacks where
  ready : Bool
  streamStart : Bool
  audio : Bool
  streamEnd : Bool
  streamClear : Bool
  groupUpdate : Bool
  command : Bool
  disconnected : Bool
  deriving DecidableEq

/-- A callback that the application is given. The format of an audio callback has the codec
header as it stands in the message buffer at the time. -/
inductive AppEvent where
  | ready (hello : ServerHello)
  | streamStart (start : StreamStart)
  | audio (format : StreamStart) (timestampUs : Int) (pcm : List UInt8)
  | streamEnd (player : Bool)
  | streamClear (player : Bool)
  | groupUpdate (group : GroupUpdate)
  | command (command : ServerCommand)
  | disconnected
  deriving DecidableEq

/-- The log of a client. `queued` is a frame that found room, and `message` is a message given to
`on_message`, with what it returned. -/
inductive Event where
  | connected
  | queued (opcode : UInt8) (payload : List UInt8) (mask : UInt32)
  | sent (data : List UInt8)
  | upgrade (data : List UInt8)
  | received (data : List UInt8)
  | message (opcode : UInt8) (payload : List UInt8) (rc : Rc)
  | app (event : AppEvent)
  deriving DecidableEq

inductive ClientState where
  | closed
  | http
  | ws
  deriving DecidableEq, Repr

/-- `eaf_sendspin_client_t`. The lists `wire` and `http` are the parts of the buffers that are
in use, and the message buffer is the one of the receiver `rx`. `ticks` counts the readings of
the clock. -/
structure Client (φ : Type) where
  tcpOpen : Bool
  config : Config
  callbacks : Callbacks
  filter : φ
  rx : WsRx
  stream : StreamStart
  wire : List UInt8
  wireOffset : Nat
  http : List UInt8
  prng : UInt32
  state : ClientState
  handshaken : Bool
  notified : Bool
  streamActive : Bool
  nextTimeUs : UInt64
  rxTotal : UInt64
  ticks : Nat
  log : List Event

section Client

variable {φ : Type}

/-- `eaf_sendspin_client_init`. -/
def clientInit (env : Env φ) (config : Config) (callbacks : Callbacks) : Client φ where
  tcpOpen := false
  config := config
  callbacks := callbacks
  filter := env.filterInit
  rx := wsRxInit (List.replicate EAF_SENDPIN_MESSAGE_BYTES 0)
  stream := StreamStart.zero
  wire := []
  wireOffset := 0
  http := []
  prng := 0
  state := .closed
  handshaken := false
  notified := false
  streamActive := false
  nextTimeUs := 0
  rxTotal := 0
  ticks := 0
  log := []

def record (e : Event) (c : Client φ) : Client φ := { c with log := c.log ++ [e] }

/-- A callback of the application, if it is set. -/
def callApp (set : Bool) (e : AppEvent) (c : Client φ) : Client φ :=
  if set then record (.app e) c else c

/-- `hal_monotonic_time_us`. -/
def monotonicTime (env : Env φ) (c : Client φ) : UInt64 × Client φ :=
  (env.clock c.ticks, { c with ticks := c.ticks + 1 })

/-- A number of 64 bits as a signed one. -/
def signed64 (n : Nat) : Int := Int.bmod n (2 ^ 64)

/-- `time_interval_ms`. -/
def timeIntervalMs (env : Env φ) (c : Client φ) : Nat :=
  if env.timeSynchronized c.filter then
    let error := env.timeError c.filter
    if error < 1000 then EAF_SENDPIN_TIME_STEADY_MS
    else if error < 2000 then 1000
    else if error < 5000 then 500
    else 200
  else EAF_SENDPIN_TIME_BURST_MS

/-! ## Sending -/

/-- The bytes that are sent move out of the way when the buffer would not hold the frame. -/
def compactWire (c : Client φ) (needed : Nat) : Client φ :=
  if c.wireOffset ≠ 0 ∧ c.wire.length + needed > EAF_SENDPIN_WIRE_BYTES then
    { c with wire := c.wire.drop c.wireOffset, wireOffset := 0 }
  else c

/-- `queue_frame`. -/
def queueFrame (opcode : UInt8) (payload : List UInt8) (c : Client φ) : Rc × Client φ :=
  let c := compactWire c (payload.length + EAF_SENDPIN_WS_HEADER_MAX)
  let mask := prngNext c.prng
  let c := { c with prng := mask }
  match wsEncode (EAF_SENDPIN_WIRE_BYTES - c.wire.length) opcode payload mask with
  | .error _ => (EAF_INVALID, c)
  | .ok frame => (EAF_OK, record (.queued opcode payload mask) { c with wire := c.wire ++ frame })

/-- `queue_json`. -/
def queueJson (text : List UInt8) (c : Client φ) : Rc × Client φ :=
  queueFrame EAF_SENDPIN_WS_TEXT text c

/-- The loop of `flush`. A result of the socket is its code and how many of the offered bytes
it took; when there are no more results it takes nothing. -/
def flush : List (Rc × Nat) → Client φ → Rc × Client φ
  | [], c =>
    if c.wireOffset < c.wire.length then (EAF_AGAIN, c)
    else (EAF_OK, { c with wire := [], wireOffset := 0 })
  | (rc, sent) :: sends, c =>
    if c.wireOffset < c.wire.length then
      let data := (c.wire.drop c.wireOffset).take sent
      let c := record (.sent data) { c with wireOffset := c.wireOffset + data.length }
      if rc ≠ EAF_OK then (rc, c)
      else if data.length = 0 then (EAF_AGAIN, c)
      else flush sends c
    else (EAF_OK, { c with wire := [], wireOffset := 0 })

/-! ## Closing -/

/-- `notify_closed`. -/
def notifyClosed (c : Client φ) : Client φ :=
  let c := { c with tcpOpen := false, state := .closed, handshaken := false, streamActive := false }
  if c.notified then c else callApp c.callbacks.disconnected .disconnected { c with notified := true }

/-- `fail`. -/
def fail (c : Client φ) : Rc × Client φ := ( EAF_IO, notifyClosed c)

/-! ## The server's messages -/

/-- `send_time`. -/
def sendTime (env : Env φ) (c : Client φ) : Client φ :=
  let (now, c) := monotonicTime env c
  let c :=
    match buildClientTime EAF_SENDPIN_JSON_BYTES (signed64 now.toNat) with
    | .error _ => c
    | .ok text => (queueJson text c).2
  { c with nextTimeUs := now + UInt64.ofNat (timeIntervalMs env c) * 1000 }

/-- `client_supports_codec`. -/
def clientSupportsCodec (config : Config) (codec : Codec) : Bool :=
  if config.formats ≠ [] then config.formats.any (·.codec == codec) else codec == .pcm

/-- The player state that the client announces. -/
def playerState (config : Config) : PlayerState :=
  ⟨config.volume, false, config.staticDelayMs, config.requiredLeadTimeMs, config.minBufferMs⟩

/-- `on_server_hello`. -/
def onServerHello (env : Env φ) (json : Span) (c : Client φ) : Rc × Client φ :=
  match parseServerHello json with
  | .error _ => (EAF_INVALID, c)
  | .ok hello =>
    if hello.playerActive then
      let c := callApp c.callbacks.ready (.ready hello) c
      match buildClientState EAF_SENDPIN_JSON_BYTES (playerState c.config) with
      | .error _ => (EAF_INVALID, c)
      | .ok text =>
        let (rc, c) := queueJson text c
        if rc ≠ EAF_OK then (EAF_INVALID, c)
        else (EAF_OK, sendTime env { c with handshaken := true })
    else (EAF_UNSUPPORTED, c)

def onServerTime (env : Env φ) (json : Span) (c : Client φ) : Rc × Client φ :=
  match parseServerTime json with
  | .error _ => (EAF_INVALID, c)
  | .ok time =>
    let (now, c) := monotonicTime env c
    (EAF_OK, { c with filter := env.filterExchange c.filter time now })

def onStreamStart (json : Span) (c : Client φ) : Rc × Client φ :=
  match parseStreamStart json with
  | .error _ => (EAF_INVALID, { c with stream := streamStartLeft json })
  | .ok start =>
    let c := { c with stream := start }
    if clientSupportsCodec c.config start.codec then
      (EAF_OK, callApp c.callbacks.streamStart (.streamStart start) { c with streamActive := true })
    else (EAF_UNSUPPORTED, c)

def onStreamClear (json : Span) (c : Client φ) : Rc × Client φ :=
  let player :=
    match jsonGet json (ascii "payload.roles") with
    | .ok roles => jsonArrayContains roles (ascii "player")
    | .error _ => true
  (EAF_OK, callApp c.callbacks.streamClear (.streamClear player) c)

def onStreamEnd (json : Span) (c : Client φ) : Rc × Client φ :=
  match parseStreamEnd json with
  | .error _ => (EAF_INVALID, c)
  | .ok streamEnd =>
    (EAF_OK, callApp c.callbacks.streamEnd (.streamEnd streamEnd.endPlayer)
      { c with streamActive := false })

def onGroupUpdate (json : Span) (c : Client φ) : Rc × Client φ :=
  match parseGroupUpdate json with
  | .error _ => (EAF_INVALID, c)
  | .ok group => (EAF_OK, callApp c.callbacks.groupUpdate (.groupUpdate group) c)

def onServerCommand (json : Span) (c : Client φ) : Rc × Client φ :=
  match parseServerCommand json with
  | .error _ => (EAF_INVALID, c)
  | .ok command =>
    let c :=
      if command.command = .setStaticDelay ∧ 0 ≤ command.staticDelayMs then
        { c with config := { c.config with staticDelayMs := command.staticDelayMs } }
      else c
    (EAF_OK, callApp c.callbacks.command (.command command) c)

/-- `dispatch_text`, with a function of its own for each type of message. -/
def dispatchText (env : Env φ) (json : Span) (c : Client φ) : Rc × Client φ :=
  match jsonGet json (ascii "type") with
  | .error _ => (EAF_OK, c)
  | .ok type =>
    if jsonStringEquals type "server/hello" then onServerHello env json c
    else if jsonStringEquals type "server/time" then onServerTime env json c
    else if jsonStringEquals type "stream/start" then onStreamStart json c
    else if jsonStringEquals type "stream/clear" then onStreamClear json c
    else if jsonStringEquals type "stream/end" then onStreamEnd json c
    else if jsonStringEquals type "group/update" then onGroupUpdate json c
    else if jsonStringEquals type "server/command" then onServerCommand json c
    else (EAF_OK, c)

/-- A binary message. One that is no audio chunk is ignored. The format that the callback is
given shows the codec header through its view into the message buffer `buf`. -/
def onAudio (buf : List UInt8) (length : Nat) (c : Client φ) : Rc × Client φ :=
  if length < 9 ∨ buf.getD 0 0 ≠ 0x04 then (EAF_OK, c)
  else
    let header := c.stream.codecHeader
    let format := { c.stream with
      codecHeader := ⟨header.start, slice buf header.start header.bytes.length⟩ }
    (EAF_OK, callApp c.callbacks.audio
      (.audio format (signed64 (readBE (slice buf 1 8))) ((buf.take length).drop 9)) c)

/-- `on_message`. -/
def handleMessage (env : Env φ) (c : Client φ) (opcode : UInt8) (buf : List UInt8) (length : Nat) :
    Rc × Client φ :=
  if opcode = EAF_SENDPIN_WS_PING then
    let (rc, c) := queueFrame EAF_SENDPIN_WS_PONG (buf.take length) c
    (if rc ≠ EAF_OK then EAF_INVALID else EAF_OK, c)
  else if opcode = EAF_SENDPIN_WS_PONG then (EAF_OK, c)
  else if opcode = EAF_SENDPIN_WS_CLOSE then (EAF_OK, notifyClosed c)
  else if opcode = EAF_SENDPIN_WS_TEXT then dispatchText env ⟨0, buf.take length⟩ c
  else if opcode = EAF_SENDPIN_WS_BINARY then onAudio buf length c
  else (EAF_OK, c)

/-- `on_message` as the receiver calls it. The message goes into the log when it is handled. -/
def onMessage (env : Env φ) : MessageFn (Client φ) := fun c opcode buf length =>
  let (rc, c) := handleMessage env c opcode buf length
  (rc, record (.message opcode (buf.take length) rc) c)

/-! ## The connection -/

/-- `eaf_sendspin_client_connect`. The result of `hal_tcp_connect` is an input. -/
def connect (env : Env φ) (ipv4 : UInt32) (port : UInt16) (tcpConnect : Rc) (c : Client φ) :
    Rc × Client φ :=
  if c.state ≠ .closed ∨ c.tcpOpen = true then (EAF_INVALID, c)
  else
    let (now, c) := monotonicTime env c
    let (key, prng) := clientKey (prngInit now.toUInt32)
    let c := { c with prng := prng }
    match formatHost ipv4 port with
    | .error _ => (EAF_INVALID, c)
    | .ok host =>
      if tcpConnect ≠ EAF_OK then (tcpConnect, c)
      else
        let c := { c with tcpOpen := true }
        match buildUpgrade EAF_SENDPIN_WIRE_BYTES host (ascii "/sendspin") key with
        | .error _ => fail c
        | .ok request =>
          (EAF_OK, record .connected { c with
            wire := request
            wireOffset := 0
            http := []
            notified := false
            state := .http })

/-- What the socket does in one step: the results of its sends, and its receive call. -/
structure StepInput where
  sends : List (Rc × Nat)
  recv : Rc × List UInt8

/-- The part of a step that waits for the upgrade response. What the buffer holds after the
header is not looked at. -/
def stepHttp (recv : Rc × List UInt8) (c : Client φ) : Rc × Client φ :=
  let data := recv.2.take (EAF_SENDPIN_HTTP_BYTES - c.http.length)
  if recv.1 = EAF_AGAIN then (EAF_OK, c)
  else if recv.1 ≠ EAF_OK then fail c
  else
    let c := record (.upgrade data) { c with http := c.http ++ data }
    if findHeaderEnd c.http = false then
      if c.http.length = EAF_SENDPIN_HTTP_BYTES then fail c else (EAF_OK, c)
    else if checkUpgradeResponse c.http = false then fail c
    else
      match buildClientHello EAF_SENDPIN_JSON_BYTES c.config with
      | .error _ => fail c
      | .ok text =>
        let (rc, c) := queueJson text c
        if rc ≠ EAF_OK then fail c else (EAF_OK, { c with state := .ws })

/-- The receive call of a step, and the frames in what it gives. -/
def receiveFrames (env : Env φ) (recv : Rc × List UInt8) (c : Client φ) : Rc × Client φ :=
  let data := recv.2.take EAF_SENDPIN_RX_BYTES
  if recv.1 = EAF_AGAIN then (EAF_OK, c)
  else if recv.1 ≠ EAF_OK then fail c
  else
    let c := record (.received data) { c with rxTotal := c.rxTotal + UInt64.ofNat data.length }
    let (rc, rx, c) := wsRxFeed (onMessage env) c.rx c data
    let c := { c with rx := rx }
    if rc ≠ EAF_OK then fail c else (EAF_OK, c)

/-- The part of a step on an upgraded connection. -/
def stepWs (env : Env φ) (recv : Rc × List UInt8) (c : Client φ) : Rc × Client φ :=
  let (now, c) := monotonicTime env c
  let c := if c.handshaken ∧ c.nextTimeUs ≤ now then sendTime env c else c
  receiveFrames env recv c

/-- `eaf_sendspin_client_step`. -/
def step (env : Env φ) (input : StepInput) (c : Client φ) : Rc × Client φ :=
  if c.state = .closed then (EAF_STATE, c)
  else
    let (rc, c) := flush input.sends c
    if rc = EAF_AGAIN then (EAF_OK, c)
    else if rc ≠ EAF_OK then fail c
    else if c.state = .http then stepHttp input.recv c
    else stepWs env input.recv c

/-- `eaf_sendspin_client_close`. -/
def close (c : Client φ) : Client φ := notifyClosed c

/-! ## Runs -/

/-- A call of the application. -/
inductive Call where
  | connect (ipv4 : UInt32) (port : UInt16) (tcpConnect : Rc)
  | step (input : StepInput)
  | close

/-- The client after a call. -/
def afterCall (env : Env φ) (c : Client φ) : Call → Client φ
  | .connect ipv4 port tcpConnect => (connect env ipv4 port tcpConnect c).2
  | .step input => (step env input c).2
  | .close => close c

/-- The client after the calls of a run. -/
def afterCalls (env : Env φ) (c : Client φ) (calls : List Call) : Client φ :=
  calls.foldl (afterCall env) c

end Client

end EmbeddedAudio.Sendspin
