-- What the Sendspin client sends: the upgrade request, the JSON messages and
-- the masked frames around them (sendspin_ws.c, sendspin_protocol.c).
import EmbeddedAudio.Storage
import EmbeddedAudio.WsReceiver
import EmbeddedAudio.ServerMessages

namespace EmbeddedAudio.Sendspin

open Storage Ws

/-! ## Numbers -/

/-- The digit loop of `eaf_bytes_write_u64_dec`, the last digit first. -/
def digitsOf : Nat → Nat → List UInt8
  | 0, _ => []
  | fuel + 1, n =>
    let digit := 0x30 + (n % 10).toUInt8
    if n / 10 = 0 then [digit] else digit :: digitsOf fuel (n / 10)

/-- `eaf_bytes_write_u64_dec`. A 64-bit number has 20 digits at most. -/
def decimal (n : Nat) : List UInt8 := (digitsOf 20 n).reverse

/-- `wr_i64`. -/
def signedDecimal (n : Int) : List UInt8 :=
  if n < 0 then MINUS :: decimal n.natAbs else decimal n.natAbs

/-! ## The random generator -/

/-- `eaf_sendspin_ws_prng_init`. -/
def prngInit (seed : UInt32) : UInt32 := if seed ≠ 0 then seed else 0x9e3779b9

/-- `eaf_sendspin_ws_prng_next`: the number drawn is the new state. -/
def prngNext (state : UInt32) : UInt32 :=
  let x := state ^^^ (state <<< 13)
  let x := x ^^^ (x >>> 17)
  x ^^^ (x <<< 5)

/-- The bytes of a 32-bit number, the least significant first. -/
def bytesLE (v : UInt32) : List UInt8 :=
  [v.toUInt8, (v >>> 8).toUInt8, (v >>> 16).toUInt8, (v >>> 24).toUInt8]

def base64Char (v : Nat) : UInt8 :=
  (ascii "ABCDEFGHIJKLMNOPQRSTUVWXYZabcdefghijklmnopqrstuvwxyz0123456789+/").getD (v % 64) 0

/-- The loop of `eaf_sendspin_ws_client_key`, three bytes to four characters. The 16th byte
gives the last two characters. -/
def base64Key : List UInt8 → List UInt8
  | a :: b :: c :: rest =>
    let value := a.toNat * 65536 + b.toNat * 256 + c.toNat
    base64Char (value / 262144) :: base64Char (value / 4096) :: base64Char (value / 64) ::
      base64Char value :: base64Key rest
  | a :: _ => [base64Char (a.toNat / 4), base64Char (a.toNat * 16)] ++ ascii "=="
  | [] => []

/-- `eaf_sendspin_ws_client_key`: the key and the new state of the generator. -/
def clientKey (state : UInt32) : List UInt8 × UInt32 :=
  let r0 := prngNext state
  let r1 := prngNext r0
  let r2 := prngNext r1
  let r3 := prngNext r2
  (base64Key (bytesLE r0 ++ bytesLE r1 ++ bytesLE r2 ++ bytesLE r3), r3)

/-! ## The upgrade -/

/-- `format_host` without its check of the capacity. -/
def hostText (ipv4 : UInt32) (port : UInt16) : List UInt8 :=
  decimal (ipv4 >>> 24).toUInt8.toNat ++ [DOT] ++ decimal (ipv4 >>> 16).toUInt8.toNat ++ [DOT] ++
    decimal (ipv4 >>> 8).toUInt8.toNat ++ [DOT] ++ decimal ipv4.toUInt8.toNat ++ [COLON] ++
    decimal port.toNat

/-- `sizeof(host)` in `eaf_sendspin_client_connect`. -/
abbrev HOST_BYTES : Nat := 32

/-- `format_host`. The text has to leave room for its NUL. -/
def formatHost (ipv4 : UInt32) (port : UInt16) : Except Rc (List UInt8) :=
  if (hostText ipv4 port).length < HOST_BYTES then .ok (hostText ipv4 port) else .error EAF_INVALID

/-- `eaf_sendspin_ws_build_upgrade`. Every piece has to fit with a NUL after it, so the whole
request has to. -/
def buildUpgrade (capacity : Nat) (host path key : List UInt8) : Except Rc (List UInt8) :=
  let request := ascii "GET " ++ path ++ ascii " HTTP/1.1\r\nHost: " ++ host ++
    ascii "\r\nUpgrade: websocket\r\nConnection: Upgrade\r\nSec-WebSocket-Version: 13" ++
    ascii "\r\nSec-WebSocket-Key: " ++ key ++ ascii "\r\n\r\n"
  if request.length < capacity then .ok request else .error EAF_INVALID

/-- `find_header_end`. -/
def findHeaderEnd : List UInt8 → Bool
  | [] => false
  | b :: rest => (ascii "\r\n\r\n").isPrefixOf (b :: rest) || findHeaderEnd rest

/-- `eaf_sendspin_ws_check_upgrade_response`. -/
def checkUpgradeResponse (response : List UInt8) : Bool :=
  12 ≤ response.length && (ascii "HTTP/").isPrefixOf response &&
    (ascii " 101").isPrefixOf (response.dropWhile (· != 0x20))

/-! ## Frames -/

/-- `eaf_sendspin_ws_encode`: one masked frame, FIN always set. -/
def wsEncode (capacity : Nat) (opcode : UInt8) (payload : List UInt8) (maskKey : UInt32) :
    Except Rc (List UInt8) :=
  let length := payload.length
  let size :=
    if length ≤ 125 then [0x80 ||| length.toUInt8]
    else if length ≤ 0xFFFF then (0x80 ||| 126) :: writeBE 2 length
    else (0x80 ||| 127) :: writeBE 8 length
  let frame := (0x80 ||| (opcode &&& 0x0F)) :: size ++ bytesLE maskKey ++
    unmaskBytes (bytesLE maskKey) 0 payload
  if frame.length ≤ capacity then .ok frame else .error EAF_INVALID

/-! ## JSON messages

A write that does not fit makes every later write fail, so a message is written as a whole and
measured at the end. -/

/-- `finish`. -/
def finish (capacity : Nat) (text : List UInt8) : Except Rc (List UInt8) :=
  if text.length ≤ capacity then .ok text else .error EAF_INVALID

def hexDigit (v : Nat) : UInt8 := (ascii "0123456789abcdef").getD v 0

/-- One character in `wr_json_string`. -/
def escapeByte (c : UInt8) : List UInt8 :=
  if c = QUOTE then [BACKSLASH, QUOTE]
  else if c = BACKSLASH then [BACKSLASH, BACKSLASH]
  else if c = 0x08 then ascii "\\b"
  else if c = 0x0C then ascii "\\f"
  else if c = 0x0A then ascii "\\n"
  else if c = 0x0D then ascii "\\r"
  else if c = 0x09 then ascii "\\t"
  else if c < 0x20 then ascii "\\u00" ++ [hexDigit (c.toNat / 16), hexDigit (c.toNat % 16)]
  else [c]

/-- `wr_json_string`. -/
def jsonString (text : List UInt8) : List UInt8 := QUOTE :: (text.flatMap escapeByte ++ [QUOTE])

/-- `codec_name`. A codec with no name must not be advertised. -/
def codecName : Codec → Option (List UInt8)
  | .pcm => some (ascii "pcm")
  | .flac => some (ascii "flac")
  | .opus => some (ascii "opus")
  | .mp3 => some (ascii "mp3")
  | .vorbis => some (ascii "vorbis")
  | .unknown => none

/-- `eaf_sendspin_format_t`. -/
structure AudioFormat where
  codec : Codec
  sampleRate : UInt32
  channels : UInt8
  bitDepth : UInt8
  deriving DecidableEq, Inhabited

/-- `write_format`, for a codec with the name `name`. -/
def formatText (name : List UInt8) (format : AudioFormat) : List UInt8 :=
  ascii "\x7b\"codec\":" ++ jsonString name ++ ascii ",\"channels\":" ++
    decimal format.channels.toNat ++ ascii ",\"sample_rate\":" ++
    decimal format.sampleRate.toNat ++
    (if format.codec = .pcm ∧ format.bitDepth ≠ 0 then
      ascii ",\"bit_depth\":" ++ decimal format.bitDepth.toNat
    else []) ++ ascii "\x7d"

/-- `eaf_sendspin_config_t`. A text that is `NULL` is `none`. -/
structure Config where
  clientId : Option (List UInt8)
  name : Option (List UInt8)
  productName : Option (List UInt8)
  manufacturer : Option (List UInt8)
  softwareVersion : Option (List UInt8)
  formats : List AudioFormat
  sampleRate : UInt32
  channels : UInt8
  bitDepth : UInt8
  bufferCapacity : UInt32
  supportVolume : Bool
  supportMute : Bool
  volume : Int32
  staticDelayMs : Int32
  requiredLeadTimeMs : Int32
  minBufferMs : Int32
  deriving DecidableEq, Inhabited

/-- The members of `device_info` that there are. -/
def deviceInfo (config : Config) : List (List UInt8) :=
  [(ascii "\"product_name\":", config.productName), (ascii "\"manufacturer\":", config.manufacturer),
    (ascii "\"software_version\":", config.softwareVersion)].filterMap fun (key, value) =>
      value.map fun text => key ++ jsonString text

/-- The formats that can be advertised, or the PCM format of the configuration alone. -/
def supportedFormats (config : Config) : List (List UInt8) :=
  match config.formats.filterMap fun f => (codecName f.codec).map fun name => formatText name f with
  | [] =>
    [formatText (ascii "pcm") ⟨.pcm, config.sampleRate, config.channels, config.bitDepth⟩]
  | texts => texts

/-- Texts with commas between them. -/
def commaSeparated (texts : List (List UInt8)) : List UInt8 := List.intercalate [COMMA] texts

/-- `eaf_sendspin_build_client_hello`. -/
def buildClientHello (capacity : Nat) (config : Config) : Except Rc (List UInt8) :=
  match config.clientId, config.name with
  | some clientId, some name =>
    let device := deviceInfo config
    let commands := (if config.supportVolume then [ascii "\"volume\""] else []) ++
      (if config.supportMute then [ascii "\"mute\""] else [])
    finish capacity <|
      ascii "\x7b\"payload\":\x7b\"client_id\":" ++ jsonString clientId ++
      ascii ",\"name\":" ++ jsonString name ++
      ascii ",\"version\":1,\"supported_roles\":[\"player@v1\"]" ++
      (if device = [] then []
      else ascii ",\"device_info\":\x7b" ++ commaSeparated device ++ ascii "\x7d") ++
      ascii ",\"player@v1_support\":\x7b\"supported_formats\":[" ++
      commaSeparated (supportedFormats config) ++
      ascii "],\"buffer_capacity\":" ++ decimal config.bufferCapacity.toNat ++
      ascii ",\"supported_commands\":[" ++ commaSeparated commands ++ ascii "]\x7d" ++
      ascii "\x7d,\"type\":\"client/hello\"\x7d"
  | _, _ => .error EAF_INVALID

/-- `eaf_sendspin_build_client_time`. -/
def buildClientTime (capacity : Nat) (clientTransmitted : Int) : Except Rc (List UInt8) :=
  finish capacity <|
    ascii "\x7b\"payload\":\x7b\"client_transmitted\":" ++ signedDecimal clientTransmitted ++
    ascii "\x7d,\"type\":\"client/time\"\x7d"

/-- `eaf_sendspin_player_state_t`. -/
structure PlayerState where
  volume : Int32
  muted : Bool
  staticDelayMs : Int32
  requiredLeadTimeMs : Int32
  minBufferMs : Int32
  deriving DecidableEq

/-- `eaf_sendspin_build_client_state`. -/
def buildClientState (capacity : Nat) (state : PlayerState) : Except Rc (List UInt8) :=
  finish capacity <|
    ascii "\x7b\"payload\":\x7b\"player\":\x7b\"state\":\"synchronized\",\"volume\":" ++
    signedDecimal state.volume.toInt ++
    ascii ",\"muted\":" ++ (if state.muted then ascii "true" else ascii "false") ++
    ascii ",\"static_delay_ms\":" ++ signedDecimal state.staticDelayMs.toInt ++
    ascii ",\"required_lead_time_ms\":" ++ signedDecimal state.requiredLeadTimeMs.toInt ++
    ascii ",\"min_buffer_ms\":" ++ signedDecimal state.minBufferMs.toInt ++
    ascii "\x7d\x7d,\"type\":\"client/state\"\x7d"

end EmbeddedAudio.Sendspin
