-- The stream of the LMS client (lms_client.c): the response of the HTTP server,
-- the bytes on their way to the output, and the calls of the application.
import EmbeddedAudio.LmsClient

namespace EmbeddedAudio.Lms

open Storage

/-! ## The header of the response -/

/-- `key`: whether a line starts with a name, which is in lower case. -/
def key (line name : List UInt8) : Bool :=
  name.isPrefixOf (line.map fun b => if 0x41 ≤ b ∧ b ≤ 0x5a then b + 0x20 else b)

/-- The line up to the first CR LF, and what comes behind it. -/
def splitLine : List UInt8 → Option (List UInt8 × List UInt8)
  | [] => none
  | b :: rest =>
    if b = 13 ∧ rest.head? = some 10 then some ([], rest.tail)
    else (splitLine rest).map fun (line, rest) => (b :: line, rest)

def skipBlanks (bytes : List UInt8) : List UInt8 := bytes.dropWhile fun b => b == 32 || b == 9

/-- The digits of a content length, and what comes behind them. -/
def contentDigits : List UInt8 → Nat → Option (Nat × List UInt8)
  | [], value => some (value, [])
  | b :: rest, value =>
    if 0x30 ≤ b ∧ b ≤ 0x39 then
      if value > (UINT64_MAX - (b.toNat - 0x30)) / 10 then none
      else contentDigits rest (value * 10 + (b.toNat - 0x30))
    else some (value, b :: rest)

/-- The value of a `content-length` line. -/
def contentLength (value : List UInt8) : Option Nat :=
  let value := skipBlanks value
  match contentDigits value 0 with
  | none => none
  | some (n, rest) =>
    if rest.length = value.length ∨ skipBlanks rest ≠ [] then none else some n

/-- A line with the type of the content. -/
def contentTypeLine (line : List UInt8) (c : Client) : Client :=
  if key line (ascii "content-type:") then
    { c with diagnostics := { c.diagnostics with
        httpContentType := (skipBlanks (line.drop 13)).take 31 } }
  else c

/-- A line with the length of the content. -/
def contentLengthLine (line : List UInt8) (c : Client) : Rc × Client :=
  if key line (ascii "content-length:") then
    if c.hasLength then (EAF_INVALID, c)
    else
      match contentLength (line.drop 15) with
      | none => (EAF_INVALID, c)
      | some n => (EAF_OK, { c with
          remaining := n
          hasLength := true
          diagnostics := { c.diagnostics with
            httpLengthKnown := true
            httpContentLength := min n UINT32_MAX } })
  else (EAF_OK, c)

/-- A line of the header. -/
def headerLine (line : List UInt8) (c : Client) : Rc × Client :=
  if key line (ascii "transfer-encoding:") || key line (ascii "content-encoding:") ||
      key line (ascii "icy-metaint:") then (EAF_UNSUPPORTED, c)
  else contentLengthLine line (contentTypeLine line c)

/-- The loop of `headers` over the lines behind the first. -/
def headerLines : Nat → List UInt8 → Client → Rc × Client
  | 0, _, c => (EAF_OK, c)
  | fuel + 1, text, c =>
    if text = [] ∨ text.take 2 = [13, 10] then (EAF_OK, c)
    else
      match splitLine text with
      | none => (EAF_INVALID, c)
      | some (line, rest) => andThen (headerLine line c) (headerLines fuel rest)

/-- The status of a response that is accepted. -/
def noteStatus (c : Client) : Client :=
  { c with diagnostics := { c.diagnostics with httpStatus := 200 } }

/-- The lines of the header were accepted. -/
def completeHeader (c : Client) : Client :=
  { c with
    headersDone := true
    stepProgress := true
    bodyDone := c.bodyDone || (c.hasLength && c.remaining == 0) }

/-- `headers`, when the header is complete. -/
def headers (c : Client) : Rc × Client :=
  if c.header.take 13 ≠ ascii "HTTP/1.0 200 " ∧ c.header.take 13 ≠ ascii "HTTP/1.1 200 " then
    ( EAF_IO, c)
  else
    match splitLine c.header with
    | none => (EAF_INVALID, noteStatus c)
    | some (_, rest) => andThen (headerLines rest.length rest (noteStatus c)) fun c =>
        enqueue (ascii "RESP") c.header (completeHeader c)

def addHeader (b : UInt8) (c : Client) : Client := { c with header := c.header ++ [b] }

/-- Whether the header has reached the empty line behind its last one. -/
def headerEnds (header : List UInt8) : Bool := header.drop (header.length - 4) == [13, 10, 13, 10]

/-- The loop of `pump_http` over received bytes, up to the end of the header. It gives the bytes
that are left for the body. -/
def headerBytes : List UInt8 → Client → Rc × List UInt8 × Client
  | [], c => (EAF_OK, [], c)
  | b :: rest, c =>
    if c.headersDone then (EAF_OK, b :: rest, c)
    else if c.header.length = EAF_LMS_MAX_PACKET ∨ b = 0 then (EAF_INVALID, rest, c)
    else if headerEnds (c.header ++ [b]) then
      let (rc, c) := headers (addHeader b c)
      if rc ≠ EAF_OK then (rc, rest, c) else headerBytes rest c
    else headerBytes rest (addHeader b c)

/-! ## From the socket to the output -/

/-- `ingress_fill`. -/
def ingressFill (data : List UInt8) (c : Client) : Rc × Client :=
  if data = [] then (EAF_OK, c)
  else if data.length > EAF_LMS_INGRESS_BYTES - c.ingress.length then (EAF_INVALID, c)
  else if c.hasLength && decide (data.length > c.remaining) then (EAF_INVALID, c)
  else (EAF_OK, { c with
    remaining := if c.hasLength then c.remaining - data.length else c.remaining
    bodyDone := if c.hasLength then c.remaining - data.length == 0 else c.bodyDone
    bytesReceived := c.bytesReceived + UInt64.ofNat data.length
    ingress := c.ingress ++ data })

/-- The sample that `bytes` hold, shifted to 32 bits. -/
def sampleOf (bigEndian : Bool) (bytes : List UInt8) : Int32 :=
  let bits := bytes.length * 8
  let raw := readBE (if bigEndian then bytes else bytes.reverse)
  let sample : Int := if raw &&& 2 ^ (bits - 1) ≠ 0 then raw - 2 ^ bits else raw
  Int32.ofInt (sample * 2 ^ (32 - bits))

/-- The samples of a frame, channel by channel. -/
def frameOf (width channels : Nat) (bigEndian : Bool) (bytes : List UInt8) : Frame :=
  (List.range channels).map fun ch => sampleOf bigEndian (slice bytes (ch * width) width)

/-- The loop of `ingress_decode`, over the bytes in the ring. -/
def decodeLoop (width channels : Nat) (bigEndian : Bool) :
    List UInt8 → List UInt8 → List Frame → List UInt8 × List UInt8 × List Frame
  | [], tail, pcm => ([], tail, pcm)
  | b :: rest, tail, pcm =>
    if pcm.length < EAF_LMS_PCM_FRAMES then
      let tail := tail ++ [b]
      if tail.length ≠ width * channels then decodeLoop width channels bigEndian rest tail pcm
      else
        decodeLoop width channels bigEndian rest []
          (pcm ++ [frameOf width channels bigEndian tail])
    else (b :: rest, tail, pcm)

/-- `ingress_decode`. -/
def ingressDecode (c : Client) : Client :=
  let r := decodeLoop c.width c.format.numChannels c.bigEndian c.ingress c.tail c.pcm
  { c with ingress := r.1, tail := r.2.1, pcm := r.2.2 }

/-- Whether accepted frames count towards the prefill of a held output. -/
def held (s : Session) : Bool := s.bufferedOutput && !s.outputReleased

/-- The `pcm` callback, with all frames that it has not accepted yet. -/
def callPcm (env : Env) (c : Client) : Nat × Client :=
  let wrote := env.pcm c.log (c.pcm.drop c.pcmSent)
  (wrote, record (.pcm (c.pcm.drop c.pcmSent) wrote) { c with stage := .pcm })

def countSent (wrote : Nat) (c : Client) : Client :=
  { c with
    pcmSent := c.pcmSent + wrote
    diagnostics := { c.diagnostics with
      pcmFrames := c.diagnostics.pcmFrames + UInt64.ofNat wrote } }

def countPrefill (wrote left : Nat) (c : Client) : Client :=
  { c with
    prefillFrames := if held c.toSession then c.prefillFrames + wrote else c.prefillFrames
    stepProgress := c.stepProgress || wrote != 0
    stepBackpressure := c.stepBackpressure || decide (wrote < left)
    diagnostics :=
      if wrote < left then { c.diagnostics with backpressure := c.diagnostics.backpressure + 1 }
      else c.diagnostics }

/-- `flush_pcm` behind the callback. -/
def settlePcm (wrote left : Nat) (c : Client) : Rc × Client :=
  if wrote > left then (EAF_INVALID, c)
  else if held c.toSession && decide (wrote > c.bufferLimits.capacityFrames - c.prefillFrames) then
    (EAF_INVALID, countSent wrote c)
  else (EAF_OK, countPrefill wrote left (countSent wrote c))

/-- `flush_pcm`. -/
def flushPcm (env : Env) (c : Client) : Rc × Client :=
  if c.pcmSent ≥ c.pcm.length then (EAF_OK, c)
  else settlePcm (callPcm env c).1 (c.pcm.length - c.pcmSent) (callPcm env c).2

def setReadySent (c : Client) : Client := { c with readySent := true, stepProgress := true }

/-- Telling the server that the stream is ready to start. -/
def announceReady (env : Env) (c : Client) : Rc × Client :=
  andThen (status env (ascii "STMl") 0 c) fun c => (EAF_OK, setReadySent c)

/-- The `release` callback. -/
def callRelease (env : Env) (c : Client) : Rc × Client :=
  let rc := env.release c.log
  (rc, record (.release rc) { c with stage := .outputStart })

def setReleased (c : Client) : Client := { c with outputReleased := true, stepProgress := true }

/-- The release of a held output. -/
def releaseOutput (env : Env) (c : Client) : Rc × Client :=
  andThen (callRelease env c) fun c => (EAF_OK, setReleased c)

def setEofSent (c : Client) : Client := { c with eofSent := true, stepProgress := true }

/-- Telling the server that the stream is done. -/
def announceDone (env : Env) (c : Client) : Rc × Client :=
  andThen (status env (ascii "STMd") 0 c) fun c => (EAF_OK, setEofSent c)

/-- `service_buffered`. -/
def serviceBuffered (env : Env) (c : Client) : Rc × Client :=
  if !c.bufferedOutput || c.waitCont ||
      (decide (c.prefillFrames < c.bufferLimits.readyFrames) && !c.inputEof) then (EAF_OK, c)
  else
    andThen (if c.waitStart && !c.readySent then announceReady env c else (EAF_OK, c)) fun c =>
    andThen (if !c.waitStart && !c.outputPaused && !c.outputReleased then releaseOutput env c
      else (EAF_OK, c)) fun c =>
    if c.inputEof && c.outputReleased && !c.eofSent then announceDone env c else (EAF_OK, c)

def clearPcm (c : Client) : Client := { c with pcm := [], pcmSent := 0 }

def setProgress (c : Client) : Client := { c with stepProgress := true }

/-- The ring is decoded when the chunk has gone to the output. -/
def refill (env : Env) (c : Client) : Rc × Client :=
  if c.pcmSent = c.pcm.length then
    let c := ingressDecode (clearPcm c)
    if c.pcm ≠ [] then flushPcm env (setProgress c) else (EAF_OK, c)
  else (EAF_OK, c)

/-- The `eof` callback, behind which the connection is closed. -/
def callEof (c : Client) : Client :=
  tcpClose .http { record .eof (setProgress c) with inputEof := true }

/-- The end of the source, when all of it went to the output. -/
def finishInput (env : Env) (c : Client) : Rc × Client :=
  if c.tail ≠ [] then (EAF_INVALID, c)
  else if c.bufferedOutput then serviceBuffered env (callEof c)
  else status env (ascii "STMd") 0 (callEof c)

def setStage (stage : Stage) (c : Client) : Client := { c with stage := stage }

def countRequest (n : Nat) (c : Client) : Client :=
  { c with requestSent := c.requestSent + n, stepProgress := c.stepProgress || n != 0 }

/-- A part of the request goes out. -/
def sendRequest (env : Env) (c : Client) : Rc × Client :=
  let (rc, n, c) := tcpSend env .http (c.request.drop c.requestSent) (setStage .httpSend c)
  if rc = EAF_AGAIN then (EAF_OK, c)
  else if rc ≠ EAF_OK then (rc, c)
  else (EAF_OK, countRequest n c)

def countReceived (n : Nat) (c : Client) : Client :=
  { c with
    diagnostics := { c.diagnostics with httpBytes := c.diagnostics.httpBytes + UInt64.ofNat n }
    stepProgress := c.stepProgress || n != 0
    stage := .headers }

/-- What the server sent goes to the header and to the ring. -/
def receiveBody (data : List UInt8) (c : Client) : Rc × Client :=
  let (rc, rest, c) := headerBytes data (countReceived data.length c)
  if rc ≠ EAF_OK then (rc, c) else ingressFill rest (setStage .decode c)

def countAgain (c : Client) : Client :=
  { c with diagnostics := { c.diagnostics with recvAgain := c.diagnostics.recvAgain + 1 } }

def setBodyDone (c : Client) : Client := { c with bodyDone := true, stepProgress := true }

/-- The socket is read as far as the ring has room. -/
def receiveHttp (env : Env) (c : Client) : Rc × Client :=
  let want := min (EAF_LMS_INGRESS_BYTES - c.ingress.length) EAF_LMS_RX_BYTES
  let (rc, data, c) := tcpRecv env .http want (setStage .httpRecv c)
  if rc = EAF_AGAIN then (EAF_OK, countAgain c)
  else if rc = EAF_EOF then
    if !c.headersDone || (c.hasLength && c.remaining != 0) then ( EAF_IO, c)
    else (EAF_OK, setBodyDone c)
  else if rc ≠ EAF_OK then (rc, c)
  else receiveBody data c

/-- `pump_http` behind the gates of the stream. -/
def pumpBody (env : Env) (c : Client) : Rc × Client :=
  andThen (flushPcm env c) fun c =>
  andThen (refill env c) fun c =>
  if c.bodyDone && c.ingress == [] && c.pcmSent == c.pcm.length then finishInput env c
  else if c.bodyDone || decide (EAF_LMS_INGRESS_BYTES ≤ c.ingress.length) then (EAF_OK, c)
  else if c.requestSent < c.request.length then sendRequest env c
  else receiveHttp env c

/-- `pump_http`. -/
def pumpHttp (env : Env) (c : Client) : Rc × Client :=
  if !c.streaming then (EAF_OK, c)
  else andThen (serviceBuffered env c) fun c =>
    if !c.httpOpen then (EAF_OK, c)
    else if c.headersDone && c.waitCont then (EAF_OK, c)
    else if !c.bufferedOutput && c.headersDone && c.waitStart &&
        (c.pcm != [] || c.ingress != [] || c.bodyDone) then
      if !c.readySent then announceReady env c else (EAF_OK, c)
    else pumpBody env c

/-! ## The calls of the application -/

def zeroFormat : Format := ⟨0, 0, 0⟩

/-- `eaf_lms_client_init`. -/
def clientInit (callbacks : Callbacks) : Except Rc Client :=
  if (!callbacks.start && !callbacks.startBuffered) ||
      callbacks.startBuffered != callbacks.release then .error EAF_INVALID
  else .ok {
    controlOpen := false
    httpOpen := false
    parser := parserInit
    callbacks := callbacks
    server := 0
    tx := []
    txSent := 0
    request := []
    requestSent := 0
    header := []
    tail := []
    pcm := []
    pcmSent := 0
    ingress := []
    format := zeroFormat
    width := 0
    bigEndian := false
    headersDone := false
    streaming := false
    bodyDone := false
    hasLength := false
    waitCont := false
    waitStart := false
    readySent := false
    startedSent := false
    playback := zeroPlayback
    remaining := 0
    bytesReceived := 0
    diagnostics := zeroDiagnostics
    stage := .none
    opcode := [0, 0, 0, 0]
    stepProgress := false
    stepBackpressure := false
    bufferedOutput := false
    outputReleased := false
    outputPaused := false
    inputEof := false
    eofSent := false
    prefillFrames := 0
    bufferLimits := zeroLimits
    ticks := 0
    log := [] }

/-- `eaf_lms_client_connect`. -/
def clientConnect (env : Env) (server port : Nat) (mac : Vector UInt8 6) (c : Client) :
    Rc × Client :=
  if c.controlOpen then (EAF_INVALID, c)
  else
    let (rc, c) := tcpConnect env .control server port
      { c with diagnostics := zeroDiagnostics, stage := .connect }
    if rc ≠ EAF_OK then (rc, recordError rc c)
    else
      let c := { c with server := server, txSent := 0, parser := parserInit }
      match helo EAF_LMS_TX_BYTES mac.toList (ascii "Model=eaf,MaxSampleRate=96000,pcm") with
      | .error rc => (rc, tcpClose .control { c with tx := [] })
      | .ok packet => (EAF_OK, record (.hello packet) { c with tx := packet })

/-- `eaf_lms_client_close`. -/
def clientClose (c : Client) : Client :=
  { tcpClose .control (stopStream c) with tx := [], txSent := 0 }

def countTx (n : Nat) (c : Client) : Client :=
  { c with txSent := c.txSent + n, stepProgress := c.stepProgress || n != 0 }

/-- The queued packets go out as far as the socket takes them. -/
def sendControl (env : Env) (c : Client) : Rc × Client :=
  if c.txSent < c.tx.length then
    let (rc, n, c) := tcpSend env .control (c.tx.drop c.txSent) (setStage .controlSend c)
    if rc = EAF_AGAIN ∨ rc = EAF_OK then (EAF_OK, countTx n c) else (rc, c)
  else (EAF_OK, c)

def noteProgress (progressed : Bool) (c : Client) : Client :=
  { c with stepProgress := c.stepProgress || progressed }

/-- Received bytes go to the parser. -/
def feedControl (env : Env) (data : List UInt8) (c : Client) : Rc × Client :=
  let (rc, parser, c) := feed (command env) c.parser c data
  (rc, { c with parser := parser })

/-- The commands of the server. -/
def recvControl (env : Env) (c : Client) : Rc × Client :=
  let (rc, data, c) := tcpRecv env .control 256 (setStage .controlRecv c)
  if rc = EAF_AGAIN then (EAF_OK, c)
  else if rc ≠ EAF_OK then (rc, c)
  else feedControl env data (noteProgress (data.length != 0) c)

def beginStep (c : Client) : Client := { c with stepProgress := false, stepBackpressure := false }

/-- Closing everything behind an error. -/
def orClose (r : Rc × Client) : Rc × Client :=
  if r.1 = EAF_OK then r else (r.1, clientClose (recordError r.1 r.2))

/-- `eaf_lms_client_step`. -/
def clientStep (env : Env) (c : Client) : Rc × Client :=
  if !c.controlOpen then (EAF_STATE, beginStep c)
  else orClose (andThen (andThen (sendControl env (beginStep c)) (recvControl env)) (pumpHttp env))

/-- `eaf_lms_pump_result_t`. -/
structure PumpResult where
  steps : Nat
  progressed : Bool
  budgetExhausted : Bool
  backpressured : Bool
  deriving DecidableEq, Repr

def countYield (c : Client) : Client :=
  { c with diagnostics := { c.diagnostics with budgetYields := c.diagnostics.budgetYields + 1 } }

/-- The loop of `eaf_lms_client_pump`, with the number of steps that are left. -/
def pumpLoop (env : Env) (begin : UInt64) (maxUs : Nat) :
    Nat → PumpResult → Client → Rc × PumpResult × Client
  | 0, result, c => (EAF_OK, result, c)
  | left + 1, result, c =>
    let (rc, c) := clientStep env c
    let result := { result with
      steps := result.steps + 1
      progressed := result.progressed || c.stepProgress
      backpressured := result.backpressured || c.stepBackpressure }
    if rc ≠ EAF_OK ∨ c.stepProgress = false then (rc, result, c)
    else
      if left = 0 then (EAF_OK, { result with budgetExhausted := true }, countYield c)
      else
        let (now, c) := monotonicTime env c
        if (now - begin).toNat ≥ maxUs then
          (EAF_OK, { result with budgetExhausted := true }, countYield c)
        else pumpLoop env begin maxUs left result c

/-- `eaf_lms_client_pump`. -/
def clientPump (env : Env) (maxSteps maxUs : Nat) (c : Client) : Rc × PumpResult × Client :=
  if maxSteps = 0 ∨ maxSteps > 64 ∨ maxUs = 0 ∨ maxUs > 10000 then
    (EAF_INVALID, ⟨0, false, false, false⟩, c)
  else
    let (begin, c) := monotonicTime env c
    pumpLoop env begin maxUs maxSteps ⟨0, false, false, false⟩ c

def setPlayback (p : Playback) (c : Client) : Client := { c with playback := p, stage := .status }

def setStartedSent (c : Client) : Client := { c with startedSent := true }

/-- `eaf_lms_client_report_playback`. -/
def reportPlayback (env : Env) (p : Playback) (c : Client) : Rc × Client :=
  if p.queuedBytes > p.bufferBytes then (EAF_INVALID, c)
  else if !c.controlOpen || !c.streaming || c.waitCont || c.waitStart then (EAF_STATE, c)
  else if c.startedSent && !p.started then (EAF_STATE, c)
  else
    let first := p.started && !c.startedSent
    let (rc, c) := status env (if first then ascii "STMs" else ascii "STMt") 0 (setPlayback p c)
    let c := recordError rc c
    (rc, if rc = EAF_OK ∧ first = true then setStartedSent c else c)

/-! ## Runs -/

/-- A call that the application makes. -/
inductive Call where
  | connect (server port : Nat) (mac : Vector UInt8 6)
  | step
  | pump (maxSteps maxUs : Nat)
  | report (playback : Playback)
  | close
  deriving DecidableEq, Repr

def afterCall (env : Env) (c : Client) : Call → Client
  | .connect server port mac => (clientConnect env server port mac c).2
  | .step => (clientStep env c).2
  | .pump maxSteps maxUs => (clientPump env maxSteps maxUs c).2.2
  | .report playback => (reportPlayback env playback c).2
  | .close => clientClose c

def afterCalls (env : Env) (c : Client) (calls : List Call) : Client :=
  calls.foldl (afterCall env) c

end EmbeddedAudio.Lms
