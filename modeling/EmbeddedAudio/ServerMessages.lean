-- The messages that a Sendspin server sends, as the parsers of
-- sendspin_protocol.c read them.
import EmbeddedAudio.JsonReader

namespace EmbeddedAudio.Sendspin

/-! ## The parsed messages -/

inductive Codec where
  | unknown
  | pcm
  | flac
  | opus
  | mp3
  | vorbis
  deriving DecidableEq, Repr, Inhabited

inductive Command where
  | unknown
  | volume
  | mute
  | setStaticDelay
  deriving DecidableEq, Repr, Inhabited

/-- `eaf_sendspin_server_hello_t`. -/
structure ServerHello where
  version : UInt32
  playerActive : Bool
  serverId : Span
  name : Span
  connectionReason : Span
  deriving DecidableEq, Inhabited

/-- `eaf_sendspin_server_time_t`. -/
structure ServerTime where
  clientTransmitted : Int
  serverReceived : Int
  serverTransmitted : Int
  deriving DecidableEq, Repr, Inhabited

/-- `eaf_sendspin_stream_start_t`. -/
structure StreamStart where
  serverTransmitted : Int
  codec : Codec
  sampleRate : UInt32
  channels : UInt8
  bitDepth : UInt8
  codecHeader : Span
  deriving DecidableEq, Inhabited

/-- `eaf_sendspin_stream_end_t`. -/
structure StreamEnd where
  serverTransmitted : Int
  endPlayer : Bool
  deriving DecidableEq, Repr, Inhabited

/-- `eaf_sendspin_group_update_t`. -/
structure GroupUpdate where
  playbackState : Span
  groupId : Span
  deriving DecidableEq, Inhabited

/-- `eaf_sendspin_server_command_t`. -/
structure ServerCommand where
  command : Command
  volume : Int32
  muted : Bool
  staticDelayMs : Int32
  deriving DecidableEq, Inhabited

/-! ## The parsers -/

/-- `codec_from_value`. -/
def codecFromValue (value : JsonValue) : Codec :=
  if jsonStringEquals value "pcm" then .pcm
  else if jsonStringEquals value "flac" then .flac
  else if jsonStringEquals value "opus" then .opus
  else if jsonStringEquals value "mp3" then .mp3
  else if jsonStringEquals value "vorbis" then .vorbis
  else .unknown

/-- A string field of a message. Any other value leaves the view empty. -/
def stringOf (f : JsonField) : Span :=
  if f.found ∧ f.value.type = .string then f.value.string else ⟨0, []⟩

def fieldAt (fields : List JsonField) (i : Nat) : JsonField := fields.getD i default

/-- The object that a message carries as its payload. -/
def payloadOf (json : Span) : Except Rc JsonValue :=
  match jsonGet json (ascii "payload") with
  | .error _ => .error EAF_INVALID
  | .ok payload => if payload.type = .object then .ok payload else .error EAF_INVALID

/-- `scan_fields` over an object value. A parser makes every error `EAF_INVALID`. -/
def fieldsOf (object : JsonValue) (fields : List JsonField) : Except Rc (List JsonField) :=
  match scanFields fields object.raw with
  | .error _ => .error EAF_INVALID
  | .ok (fields, _) => .ok fields

/-- The object of the payload field `player`. -/
def playerOf (fields : List JsonField) : Except Rc JsonValue :=
  if (fieldAt fields 0).found ∧ (fieldAt fields 0).value.type = .object then
    .ok (fieldAt fields 0).value
  else .error EAF_INVALID

/-- `eaf_sendspin_parse_server_hello`. -/
def parseServerHello (json : Span) : Except Rc ServerHello := do
  let payload ← payloadOf json
  let fields ← fieldsOf payload [memberField "active_roles" "player@v1", valueField "server_id",
    valueField "name", valueField "connection_reason", valueField "version"]
  if (fieldAt fields 0).found then
    .ok {
      playerActive := (fieldAt fields 0).member
      serverId := stringOf (fieldAt fields 1)
      name := stringOf (fieldAt fields 2)
      connectionReason := stringOf (fieldAt fields 3)
      version :=
        if (fieldAt fields 4).found ∧ (fieldAt fields 4).value.type = .number then
          UInt32.ofInt (fieldAt fields 4).value.number
        else 0 }
  else .error EAF_INVALID

/-- `eaf_sendspin_parse_server_time`. -/
def parseServerTime (json : Span) : Except Rc ServerTime := do
  let payload ← payloadOf json
  let fields ← fieldsOf payload [valueField "client_transmitted", valueField "server_received",
    valueField "server_transmitted"]
  let clientTransmitted := (fieldAt fields 0).value
  let serverReceived := (fieldAt fields 1).value
  let serverTransmitted := (fieldAt fields 2).value
  if clientTransmitted.type = .number ∧ serverReceived.type = .number ∧
      serverTransmitted.type = .number then
    .ok ⟨clientTransmitted.number, serverReceived.number, serverTransmitted.number⟩
  else .error EAF_INVALID

/-- The fields of the payload and of its player object in a stream/start. -/
def streamFields (json : Span) : Except Rc (List JsonField × List JsonField) := do
  let payload ← payloadOf json
  let payloadFields ← fieldsOf payload [valueField "player", valueField "server_transmitted"]
  let player ← playerOf payloadFields
  let playerFields ← fieldsOf player [valueField "codec", valueField "sample_rate",
    valueField "channels", valueField "bit_depth", valueField "codec_header"]
  .ok (payloadFields, playerFields)

/-- `eaf_sendspin_parse_stream_start`. -/
def parseStreamStart (json : Span) : Except Rc StreamStart := do
  let (payloadFields, playerFields) ← streamFields json
  let transmitted := (fieldAt payloadFields 1).value
  let sampleRate := (fieldAt playerFields 1).value
  let channels := (fieldAt playerFields 2).value
  let bitDepth := (fieldAt playerFields 3).value
  let codecHeader := (fieldAt playerFields 4).value
  if (fieldAt playerFields 0).found ∧ sampleRate.type = .number ∧ channels.type = .number ∧
      bitDepth.type = .number then
    .ok {
      codec := codecFromValue (fieldAt playerFields 0).value
      sampleRate := UInt32.ofInt sampleRate.number
      channels := UInt8.ofInt channels.number
      bitDepth := UInt8.ofInt bitDepth.number
      serverTransmitted := if transmitted.type = .number then transmitted.number else 0
      codecHeader := if codecHeader.type = .string then codecHeader.string else ⟨0, []⟩ }
  else .error EAF_INVALID

def StreamStart.zero : StreamStart := ⟨0, .unknown, 0, 0, 0, ⟨0, []⟩⟩

/-- What `eaf_sendspin_parse_stream_start` leaves in `*out` when it fails: zeros, but for the
codec when the player object has one. -/
def streamStartLeft (json : Span) : StreamStart :=
  match streamFields json with
  | .error _ => StreamStart.zero
  | .ok (_, playerFields) =>
    { StreamStart.zero with
      codec :=
        if (fieldAt playerFields 0).found then codecFromValue (fieldAt playerFields 0).value
        else .unknown }

/-- `eaf_sendspin_parse_stream_end`. A message with no payload ends the player. -/
def parseStreamEnd (json : Span) : Except Rc StreamEnd :=
  match jsonGet json (ascii "payload") with
  | .error rc => if rc = EAF_UNSUPPORTED then .ok ⟨0, true⟩ else .error EAF_INVALID
  | .ok payload =>
    if payload.type = .object then do
      let fields ← fieldsOf payload [valueField "server_transmitted", memberField "roles" "player"]
      let transmitted := (fieldAt fields 0).value
      let roles := fieldAt fields 1
      .ok {
        serverTransmitted := if transmitted.type = .number then transmitted.number else 0
        endPlayer := !roles.found || roles.member }
    else .error EAF_INVALID

/-- `eaf_sendspin_parse_group_update`. What it cannot read it leaves empty. -/
def parseGroupUpdate (json : Span) : Except Rc GroupUpdate :=
  match payloadOf json with
  | .error _ => .ok ⟨⟨0, []⟩, ⟨0, []⟩⟩
  | .ok payload =>
    match fieldsOf payload [valueField "playback_state", valueField "group_id"] with
    | .error _ => .ok ⟨⟨0, []⟩, ⟨0, []⟩⟩
    | .ok fields => .ok ⟨stringOf (fieldAt fields 0), stringOf (fieldAt fields 1)⟩

/-- `eaf_sendspin_parse_server_command`. -/
def parseServerCommand (json : Span) : Except Rc ServerCommand := do
  let payload ← payloadOf json
  let payloadFields ← fieldsOf payload [valueField "player"]
  let player ← playerOf payloadFields
  let playerFields ← fieldsOf player [valueField "command", valueField "volume",
    valueField "mute", valueField "static_delay_ms"]
  let command := (fieldAt playerFields 0).value
  let volume := (fieldAt playerFields 1).value
  let mute := (fieldAt playerFields 2).value
  let staticDelay := (fieldAt playerFields 3).value
  if (fieldAt playerFields 0).found then
    .ok {
      command :=
        if jsonStringEquals command "volume" then .volume
        else if jsonStringEquals command "mute" then .mute
        else if jsonStringEquals command "set_static_delay" then .setStaticDelay
        else .unknown
      volume := if volume.type = .number then Int32.ofInt volume.number else -1
      muted := mute.type == .bool && mute.boolean
      staticDelayMs :=
        if staticDelay.type = .number then Int32.ofInt staticDelay.number else -1 }
  else .error EAF_INVALID

/-! ## What a message says

Two messages say the same when they differ only in where their strings stand in them. -/

structure HelloFields where
  version : UInt32
  playerActive : Bool
  serverId : List UInt8
  name : List UInt8
  connectionReason : List UInt8
  deriving DecidableEq

def ServerHello.decoded (m : ServerHello) : HelloFields :=
  ⟨m.version, m.playerActive, m.serverId.bytes, m.name.bytes, m.connectionReason.bytes⟩

def StreamStart.decoded (m : StreamStart) : StreamStart × List UInt8 :=
  ({ m with codecHeader := ⟨0, []⟩ }, m.codecHeader.bytes)

def GroupUpdate.decoded (m : GroupUpdate) : List UInt8 × List UInt8 :=
  (m.playbackState.bytes, m.groupId.bytes)

end EmbeddedAudio.Sendspin
