-- The WebSocket receiver of the Sendspin client (sendspin_ws.c). It reads
-- frames out of received chunks, and gives each control frame and each whole
-- message to a callback.
import EmbeddedAudio.Results
import EmbeddedAudio.Storage

namespace EmbeddedAudio.Ws

open Storage

abbrev EAF_SENDPIN_WS_TEXT : UInt8 := 0x1
abbrev EAF_SENDPIN_WS_BINARY : UInt8 := 0x2
abbrev EAF_SENDPIN_WS_CLOSE : UInt8 := 0x8
abbrev EAF_SENDPIN_WS_PING : UInt8 := 0x9
abbrev EAF_SENDPIN_WS_PONG : UInt8 := 0xA
abbrev EAF_SENDPIN_WS_HEADER_MAX : Nat := 14

/-- `sizeof(rx->control)`. -/
abbrev CONTROL_BYTES : Nat := 125

/-- `eaf_sendspin_ws_rx_t`. The list `header` holds the `header_used` bytes read so far.
`message` and `control` are the whole buffers, of which the first `messageLength` and
`controlLength` bytes are in use: a view into a buffer outlives the message in it. -/
structure WsRx where
  header : List UInt8
  headerNeeded : Nat
  payloadLength : Nat
  payloadUsed : Nat
  mask : List UInt8
  opcode : UInt8
  fin : Bool
  masked : Bool
  frameReady : Bool
  message : List UInt8
  messageLength : Nat
  messageOpcode : UInt8
  fragmenting : Bool
  control : List UInt8
  controlLength : Nat
  deriving DecidableEq, Repr

/-- `eaf_sendspin_ws_rx_init`. -/
def wsRxInit (message : List UInt8) : WsRx where
  header := []
  headerNeeded := 0
  payloadLength := 0
  payloadUsed := 0
  mask := [0, 0, 0, 0]
  opcode := 0
  fin := false
  masked := false
  frameReady := false
  message := message
  messageLength := 0
  messageOpcode := 0
  fragmenting := false
  control := List.replicate CONTROL_BYTES 0
  controlLength := 0

/-- The callback of the receiver: its own state, the opcode, the buffer at the payload
pointer and the payload length. -/
abbrev MessageFn (σ : Type) := σ → UInt8 → List UInt8 → Nat → Rc × σ

def isControl (opcode : UInt8) : Bool :=
  opcode == EAF_SENDPIN_WS_CLOSE || opcode == EAF_SENDPIN_WS_PING ||
    opcode == EAF_SENDPIN_WS_PONG

/-! ## Unmasking -/

/-- Byte `k` of the payload, unmasked. -/
def maskByte (mask : List UInt8) (k : Nat) (b : UInt8) : UInt8 := b ^^^ mask.getD (k % 4) 0

/-- The plain byte loop: the bytes from payload position `k` on, unmasked one by one. -/
def unmaskBytes (mask : List UInt8) : Nat → List UInt8 → List UInt8
  | _, [] => []
  | k, b :: rest => maskByte mask k b :: unmaskBytes mask (k + 1) rest

/-- The first loop: single bytes up to the next mask phase 0. Gives the unmasked bytes
and what is left. -/
def unmaskLead (mask : List UInt8) : Nat → List UInt8 → List UInt8 × List UInt8
  | _, [] => ([], [])
  | k, b :: rest =>
    if k % 4 = 0 then ([], b :: rest)
    else
      let (out, left) := unmaskLead mask (k + 1) rest
      (maskByte mask k b :: out, left)

/-- The second loop: four bytes at a time against the whole mask. -/
def unmaskWords (mask : List UInt8) : List UInt8 → List UInt8 × List UInt8
  | a :: b :: c :: d :: rest =>
    let (out, left) := unmaskWords mask rest
    (List.zipWith (· ^^^ ·) [a, b, c, d] mask ++ out, left)
  | rest => ([], rest)

/-- The three loops of the masked copy, from payload position `used` on. -/
def unmask (mask : List UInt8) (used : Nat) (data : List UInt8) : List UInt8 :=
  let (lead, data) := unmaskLead mask used data
  let (words, data) := unmaskWords mask data
  lead ++ words ++ unmaskBytes mask (used + lead.length + words.length) data

/-! ## The receive loop -/

/-- The first two header bytes. The second one says how long the header is. -/
def pushHeader (rx : WsRx) (b : UInt8) : WsRx :=
  let rx := { rx with header := rx.header ++ [b] }
  match rx.header with
  | [b0, b1] =>
    let masked := b1 &&& 0x80 != 0
    let code := b1 &&& 0x7F
    let needed := if code = 126 then 4 else if code = 127 then 10 else 2
    { rx with
      opcode := b0 &&& 0x0F
      fin := b0 &&& 0x80 != 0
      masked := masked
      headerNeeded := if masked then needed + 4 else needed }
  | _ => rx

/-- The payload length and the position after it that a complete header gives. -/
def headerLength (header : List UInt8) : Nat × Nat :=
  let code := header.getD 1 0 &&& 0x7F
  if code = 126 then (readBE (slice header 2 2), 4)
  else if code = 127 then (readBE (slice header 2 8), 10)
  else (code.toNat, 2)

/-- The mask key follows the payload length in the header. -/
def loadMask (rx : WsRx) : WsRx :=
  if rx.masked then { rx with mask := slice rx.header (headerLength rx.header).2 4 } else rx

/-- The part of `begin_frame` that looks at the opcode. -/
def openFrame (rx : WsRx) : Rc × WsRx :=
  if rx.opcode = 0 then (if rx.fragmenting then EAF_OK else EAF_INVALID, rx)
  else if rx.opcode = EAF_SENDPIN_WS_TEXT ∨ rx.opcode = EAF_SENDPIN_WS_BINARY then
    if rx.fragmenting then (EAF_INVALID, rx)
    else (EAF_OK, { rx with messageLength := 0, messageOpcode := rx.opcode })
  else if isControl rx.opcode then (EAF_OK, { rx with controlLength := 0 })
  else (EAF_UNSUPPORTED, rx)

/-- What is left of the buffer that the payload goes to. -/
def roomLeft (rx : WsRx) : Nat :=
  if isControl rx.opcode then rx.control.length - rx.controlLength
  else rx.message.length - rx.messageLength

/-- `begin_frame`. An error leaves the receiver as far as it came. -/
def beginFrame (rx : WsRx) : Rc × WsRx :=
  let payloadLength := (headerLength rx.header).1
  let (rc, rx) := openFrame (loadMask rx)
  if rc ≠ EAF_OK then (rc, rx)
  else if payloadLength > roomLeft rx then (EAF_UNSUPPORTED, rx)
  else (EAF_OK, { rx with payloadLength := payloadLength, payloadUsed := 0 })

/-- `begin_frame` for a frame that has not begun yet. -/
def enterFrame (rx : WsRx) : Rc × WsRx :=
  if rx.frameReady then (EAF_OK, rx)
  else
    let (rc, rx) := beginFrame rx
    (rc, if rc = EAF_OK then { rx with frameReady := true } else rx)

/-- The payload copy: as much of the chunk as the frame still needs. Gives the rest of
the chunk. -/
def takePayload (rx : WsRx) (data : List UInt8) : WsRx × List UInt8 :=
  let take := min data.length (rx.payloadLength - rx.payloadUsed)
  let plain := if rx.masked then unmask rx.mask rx.payloadUsed (data.take take) else data.take take
  let rx :=
    if isControl rx.opcode then
      { rx with
        control := overwrite rx.control rx.controlLength plain
        controlLength := rx.controlLength + take }
    else
      { rx with
        message := overwrite rx.message rx.messageLength plain
        messageLength := rx.messageLength + take }
  ({ rx with payloadUsed := rx.payloadUsed + take }, data.drop take)

/-- The state after a frame is done: ready for the next header. -/
def endFrame (rx : WsRx) : WsRx :=
  { rx with header := [], headerNeeded := 0, payloadLength := 0, payloadUsed := 0, frameReady := false }

section Loop

variable {σ : Type}

/-- A frame whose payload is complete. A callback that fails leaves the frame as it is. -/
def completeFrame (callback : MessageFn σ) (rx : WsRx) (ctx : σ) : Rc × WsRx × σ :=
  if isControl rx.opcode then
    let (rc, ctx) := callback ctx rx.opcode rx.control rx.controlLength
    if rc ≠ EAF_OK then (rc, rx, ctx) else (EAF_OK, endFrame rx, ctx)
  else if rx.fin then
    let (rc, ctx) := callback ctx rx.messageOpcode rx.message rx.messageLength
    if rc ≠ EAF_OK then (rc, rx, ctx)
    else (EAF_OK, endFrame { rx with fragmenting := false, messageLength := 0 }, ctx)
  else (EAF_OK, endFrame { rx with fragmenting := true }, ctx)

/-- What one turn of the receive loop does: go on with the rest of the chunk, or return. -/
inductive Turn (σ : Type) where
  | more (rx : WsRx) (ctx : σ) (rest : List UInt8)
  | done (rc : Rc) (rx : WsRx) (ctx : σ)

/-- The part of a turn after the header is complete. -/
def framePhase (callback : MessageFn σ) (rx : WsRx) (ctx : σ) (data : List UInt8) : Turn σ :=
  let (rc, rx) := enterFrame rx
  if rc ≠ EAF_OK then .done rc rx ctx
  else
    let (rx, rest) := takePayload rx data
    if rx.payloadUsed = rx.payloadLength then
      let (rc, rx, ctx) := completeFrame callback rx ctx
      if rc ≠ EAF_OK then .done rc rx ctx else .more rx ctx rest
    else .more rx ctx rest

/-- One turn of the loop of `eaf_sendspin_ws_rx_feed`, on a chunk that is not empty. -/
def feedTurn (callback : MessageFn σ) (rx : WsRx) (ctx : σ) (b : UInt8) (data : List UInt8) :
    Turn σ :=
  if rx.header.length < 2 then .more (pushHeader rx b) ctx data
  else
    let take := min (rx.headerNeeded - rx.header.length) (b :: data).length
    let rx := { rx with header := rx.header ++ (b :: data).take take }
    if rx.header.length < rx.headerNeeded then .more rx ctx ((b :: data).drop take)
    else framePhase callback rx ctx ((b :: data).drop take)

/-- The loop, with a bound on its turns. -/
def feedLoop (callback : MessageFn σ) : Nat → WsRx → σ → List UInt8 → Rc × WsRx × σ
  | _, rx, ctx, [] => (EAF_OK, rx, ctx)
  | 0, rx, ctx, _ :: _ => (EAF_OK, rx, ctx)
  | turns + 1, rx, ctx, b :: data =>
    match feedTurn callback rx ctx b data with
    | .more rx ctx rest => feedLoop callback turns rx ctx rest
    | .done rc rx ctx => (rc, rx, ctx)

/-- `eaf_sendspin_ws_rx_feed`. A turn takes a byte or ends a frame whose header was
complete, so the bound on the turns is never reached (`wsRxFeed_cons`). -/
def wsRxFeed (callback : MessageFn σ) (rx : WsRx) (ctx : σ) (data : List UInt8) :
    Rc × WsRx × σ :=
  feedLoop callback (2 * data.length + 1) rx ctx data

end Loop

end EmbeddedAudio.Ws
