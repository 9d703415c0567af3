-- The writer of the Sendspin messages (sendspin_protocol.c): every piece goes behind
-- the last one if it fits, and a piece that does not fit stops the writer for good.
import EmbeddedAudio.ClientMessages

namespace EmbeddedAudio.Builder

open Storage Sendspin

/-! ## The writer -/

/-- `writer_t`. `buf` is the memory at the destination. -/
structure Writer where
  buf : List UInt8
  capacity : Nat
  used : Nat
  ok : Bool

/-- `wr_raw`. -/
def wrRaw (data : List UInt8) (w : Writer) : Writer :=
  if !w.ok || decide (w.used + data.length > w.capacity) then { w with ok := false }
  else { w with buf := overwrite w.buf w.used data, used := w.used + data.length }

/-- `wr_char`. -/
def wrChar (c : UInt8) (w : Writer) : Writer := wrRaw [c] w

/-- `wr_lit`. -/
def wrLit (literal : String) (w : Writer) : Writer := wrRaw (ascii literal) w

/-- `eaf_bytes_write_u64_dec` at `dst`: how many digits it writes, and the memory. -/
def writeU64Dec (buf : List UInt8) (dst capacity : Nat) (value : UInt64) : Nat × List UInt8 :=
  let digits := decimal value.toNat
  if digits.length > capacity then (0, buf) else (digits.length, overwrite buf dst digits)

/-- `wr_u64`. -/
def wrU64 (value : UInt64) (w : Writer) : Writer :=
  if !w.ok then w
  else
    let (n, buf) := writeU64Dec w.buf w.used (w.capacity - w.used) value
    if n = 0 then { w with ok := false } else { w with buf := buf, used := w.used + n }

/-- `wr_i64`. -/
def wrI64 (value : Int64) (w : Writer) : Writer :=
  if value < 0 then wrU64 ((-(value + 1)).toUInt64 + 1) (wrChar MINUS w)
  else wrU64 value.toUInt64 w

/-- One turn of the loop of `wr_json_string`. -/
def wrJsonChar (w : Writer) (c : UInt8) : Writer :=
  if c = QUOTE then wrLit "\\\"" w
  else if c = BACKSLASH then wrLit "\\\\" w
  else if c = 0x08 then wrLit "\\b" w
  else if c = 0x0C then wrLit "\\f" w
  else if c = 0x0A then wrLit "\\n" w
  else if c = 0x0D then wrLit "\\r" w
  else if c = 0x09 then wrLit "\\t" w
  else if c < 0x20 then
    wrRaw [BACKSLASH, 0x75, 0x30, 0x30, hexDigit (c >>> 4).toNat, hexDigit (c &&& 0x0F).toNat] w
  else wrChar c w

/-- `wr_json_string`. -/
def wrJsonString (data : List UInt8) (w : Writer) : Writer :=
  wrChar QUOTE (data.foldl wrJsonChar (wrChar QUOTE w))

/-- `finish`: what the builder returns with the length of the text, and the memory. -/
def finish (w : Writer) : Except Rc Nat × List UInt8 :=
  (if w.ok then .ok w.used else .error EAF_INVALID, w.buf)

/-- The writer at the start of a builder. `dst` has `capacity` bytes. -/
def start (dst : List UInt8) : Writer := ⟨dst, dst.length, 0, true⟩

/-! ## The messages -/

/-- `eaf_sendspin_client_hello_t`. A text that is `NULL` is `none`. -/
structure ClientHello where
  clientId : Option (List UInt8)
  name : Option (List UInt8)
  productName : Option (List UInt8)
  manufacturer : Option (List UInt8)
  softwareVersion : Option (List UInt8)
  formats : List AudioFormat
  sampleRate : UInt32
  channels : UInt8
  bitDepth : UInt8
  bufferCapacity : UInt32
  supportVolume : Bool
  supportMute : Bool
  deriving DecidableEq, Inhabited

/-- `write_format`. It is called for formats whose codec has a name. -/
def writeFormat (format : AudioFormat) (w : Writer) : Writer :=
  let w := wrLit "\x7b\"codec\":" w
  let w := wrJsonString ((codecName format.codec).getD []) w
  let w := wrLit ",\"channels\":" w
  let w := wrU64 format.channels.toUInt64 w
  let w := wrLit ",\"sample_rate\":" w
  let w := wrU64 format.sampleRate.toUInt64 w
  let w :=
    if format.codec = .pcm ∧ format.bitDepth ≠ 0 then
      wrU64 format.bitDepth.toUInt64 (wrLit ",\"bit_depth\":" w)
    else w
  wrLit "\x7d" w

/-- A member of `device_info`, if there is a text for it: the writer, and whether the next member
has a comma before it. -/
def writeDevice (key : String) (text : Option (List UInt8)) (acc : Writer × Bool) :
    Writer × Bool :=
  match text with
  | none => acc
  | some text =>
    let w := wrLit (if acc.2 then "," ++ key else key) acc.1
    (wrJsonString text w, true)

/-- The object `device_info`, if it has a member. -/
def writeDeviceInfo (hello : ClientHello) (w : Writer) : Writer :=
  if hello.productName.isSome || hello.manufacturer.isSome || hello.softwareVersion.isSome then
    let w := wrLit ",\"device_info\":\x7b" w
    let acc := writeDevice "\"product_name\":" hello.productName (w, false)
    let acc := writeDevice "\"manufacturer\":" hello.manufacturer acc
    let acc := writeDevice "\"software_version\":" hello.softwareVersion acc
    wrLit "\x7d" acc.1
  else w

/-- One turn of the loop over the formats, with how many were written. -/
def formatTurn (acc : Writer × Nat) (format : AudioFormat) : Writer × Nat :=
  if codecName format.codec = none then acc
  else
    let w := if acc.2 ≠ 0 then wrChar COMMA acc.1 else acc.1
    (writeFormat format w, acc.2 + 1)

/-- The formats that can be advertised, or the PCM format of the hello alone. -/
def writeFormats (hello : ClientHello) (w : Writer) : Writer :=
  let (w, emitted) := hello.formats.foldl formatTurn (w, 0)
  if emitted = 0 then
    writeFormat ⟨.pcm, hello.sampleRate, hello.channels, hello.bitDepth⟩ w
  else w

/-- The names of the commands. -/
def writeCommands (hello : ClientHello) (w : Writer) : Writer :=
  let w :=
    if hello.supportVolume then
      let w := wrLit "\"volume\"" w
      if hello.supportMute then wrLit "," w else w
    else w
  if hello.supportMute then wrLit "\"mute\"" w else w

/-- `eaf_sendspin_build_client_hello`. -/
def buildClientHello (dst : List UInt8) (hello : ClientHello) : Except Rc Nat × List UInt8 :=
  match hello.clientId, hello.name with
  | some clientId, some name =>
    if dst = [] then (.error EAF_INVALID, dst)
    else
      let w := start dst
      let w := wrLit "\x7b\"payload\":\x7b\"client_id\":" w
      let w := wrJsonString clientId w
      let w := wrLit ",\"name\":" w
      let w := wrJsonString name w
      let w := wrLit ",\"version\":1,\"supported_roles\":[\"player@v1\"]" w
      let w := writeDeviceInfo hello w
      let w := wrLit ",\"player@v1_support\":\x7b\"supported_formats\":[" w
      let w := writeFormats hello w
      let w := wrLit "],\"buffer_capacity\":" w
      let w := wrU64 hello.bufferCapacity.toUInt64 w
      let w := wrLit ",\"supported_commands\":[" w
      let w := writeCommands hello w
      let w := wrLit "]\x7d" w
      let w := wrLit "\x7d,\"type\":\"client/hello\"\x7d" w
      finish w
  | _, _ => (.error EAF_INVALID, dst)

/-- `eaf_sendspin_build_client_time`. -/
def buildClientTime (dst : List UInt8) (clientTransmitted : Int64) :
    Except Rc Nat × List UInt8 :=
  if dst = [] then (.error EAF_INVALID, dst)
  else
    let w := start dst
    let w := wrLit "\x7b\"payload\":\x7b\"client_transmitted\":" w
    let w := wrI64 clientTransmitted w
    let w := wrLit "\x7d,\"type\":\"client/time\"\x7d" w
    finish w

/-- `eaf_sendspin_build_client_state`. -/
def buildClientState (dst : List UInt8) (state : PlayerState) : Except Rc Nat × List UInt8 :=
  if dst = [] then (.error EAF_INVALID, dst)
  else
    let w := start dst
    let w := wrLit "\x7b\"payload\":\x7b\"player\":\x7b\"state\":\"synchronized\",\"volume\":" w
    let w := wrI64 state.volume.toInt64 w
    let w := wrLit ",\"muted\":" w
    let w := wrLit (if state.muted then "true" else "false") w
    let w := wrLit ",\"static_delay_ms\":" w
    let w := wrI64 state.staticDelayMs.toInt64 w
    let w := wrLit ",\"required_lead_time_ms\":" w
    let w := wrI64 state.requiredLeadTimeMs.toInt64 w
    let w := wrLit ",\"min_buffer_ms\":" w
    let w := wrI64 state.minBufferMs.toInt64 w
    let w := wrLit "\x7d\x7d,\"type\":\"client/state\"\x7d" w
    finish w

end EmbeddedAudio.Builder
