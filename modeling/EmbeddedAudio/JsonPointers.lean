-- The JSON reader of the Sendspin client once more (sendspin_protocol.c), on pointers: each
-- byte that it reads is a load from the message, and a load outside of the message is an
-- error of its own. So is a call that has run out of its bound.
import EmbeddedAudio.ServerMessages

namespace EmbeddedAudio.Sendspin.Pointer

/-- How a run ends with no result. -/
inductive Stop where
  | code (rc : Rc)
  | outside
  | unfinished
  deriving DecidableEq, Repr

/-- `cursor_t`, with the pointers as offsets into the message. -/
structure Cursor where
  p : Nat
  last : Nat
  deriving DecidableEq, Repr

def Cursor.next (c : Cursor) : Cursor := ⟨c.p + 1, c.last⟩

/-- The cursor over the bytes of a view. -/
def cursorOver (s : Span) : Cursor := ⟨s.start, s.start + s.bytes.length⟩

def refuse {α : Type} : Except Stop α := .error (.code EAF_INVALID)

section Reader

variable (json : List UInt8)

/-- The view from one pointer to another. The bytes in it say what stands there. The functions
below take no more of a view than its pointer and its length. -/
def piece (start last : Nat) : Span := ⟨start, (json.drop start).take (last - start)⟩

/-! ## Loads -/

def load (p : Nat) : Except Stop UInt8 :=
  match json[p]? with
  | some b => .ok b
  | none => .error .outside

/-- `*c->p` behind `if (c->p >= c->end) return EAF_INVALID`. -/
def here (c : Cursor) : Except Stop UInt8 := if c.p < c.last then load json c.p else refuse

/-- A test of `*c->p` behind `c->p < c->end &&`. -/
def isAt (test : UInt8 → Bool) (c : Cursor) : Except Stop Bool :=
  if c.p < c.last then (load json c.p).map test else .ok false

/-- `!memcmp`. It may load all bytes. -/
def equalAt : Nat → List UInt8 → Except Stop Bool
  | _, [] => .ok true
  | p, b :: text => do
    let b' ← load json p
    let same ← equalAt (p + 1) text
    return b' == b && same

/-- A loop over the bytes that pass a test. -/
def skipWhile (test : UInt8 → Bool) (c : Cursor) : Except Stop Cursor :=
  if c.p < c.last then
    (load json c.p).bind fun b => if test b then skipWhile test c.next else .ok c
  else .ok c
termination_by c.last - c.p
decreasing_by
  simp only [Cursor.next]
  omega

/-- `skip_ws`. -/
def skipWs (c : Cursor) : Except Stop Cursor := skipWhile json isWs c

def skipDigits (c : Cursor) : Except Stop Cursor := skipWhile json isDigit c

def skipIf (test : UInt8 → Bool) (c : Cursor) : Except Stop Cursor := do
  if ← isAt json test c then return c.next else return c

def expect (b : UInt8) (c : Cursor) : Except Stop Cursor := do
  if (← here json c) = b then return c.next else refuse

/-! ## Strings, literals and numbers -/

/-- The loop of `scan_string`, from the pointer `s` on. -/
def scanLoop (s : Nat) (c : Cursor) : Except Stop (Span × Cursor) :=
  if c.p < c.last then
    (load json c.p).bind fun b =>
      if b = BACKSLASH then
        if c.last - c.p < 2 then refuse else scanLoop s c.next.next
      else if b = QUOTE then .ok (piece json s c.p, c.next)
      else scanLoop s c.next
  else refuse
termination_by c.last - c.p
decreasing_by
  · simp only [Cursor.next]
    omega
  · simp only [Cursor.next]
    omega

/-- `scan_string`. -/
def scanString (c : Cursor) : Except Stop (Span × Cursor) := do
  let c ← expect json QUOTE c
  scanLoop json c.p c

/-- `match_literal`. The number of bytes that are left is unsigned there, and so it is not small
for a cursor behind its end. -/
def matchLiteral (literal : List UInt8) (c : Cursor) : Except Stop Cursor := do
  if c.p ≤ c.last ∧ c.last - c.p < literal.length then refuse
  else if ← equalAt json c.p literal then return ⟨c.p + literal.length, c.last⟩
  else refuse

/-- The fraction in `skip_number`. -/
def skipFraction (c : Cursor) : Except Stop Cursor := do
  if ← isAt json (· == DOT) c then skipDigits json c.next else return c

/-- The exponent in `skip_number`. -/
def skipExponent (c : Cursor) : Except Stop Cursor := do
  if ← isAt json isExp c then
    let c ← skipIf json (fun b => b == PLUS || b == MINUS) c.next
    skipDigits json c
  else return c

/-- `skip_number`. -/
def skipNumber (c : Cursor) : Except Stop Cursor := do
  let c ← skipIf json (· == MINUS) c
  if ← isAt json isDigit c then
    let c ← skipDigits json c
    let c ← skipFraction json c
    skipExponent json c
  else refuse

/-- The digit loop of `parse_number`. -/
def magnitudeLoop (acc : Nat × Bool) (c : Cursor) : Except Stop ((Nat × Bool) × Cursor) :=
  if c.p < c.last then
    (load json c.p).bind fun b =>
      if isDigit b then magnitudeLoop (magnitude acc b) c.next else .ok (acc, c)
  else .ok (acc, c)
termination_by c.last - c.p
decreasing_by
  simp only [Cursor.next]
  omega

/-- `parse_number`. -/
def parseNumber (c : Cursor) : Except Stop (Int × Cursor) := do
  let negative ← isAt json (· == MINUS) c
  let p := if negative then c.next else c
  if ← isAt json isDigit p then
    let ((m, overflow), p) ← magnitudeLoop json (0, false) p
    if ← isAt json (fun b => b == DOT || isExp b) p then refuse
    else if negative then
      return (if overflow ∨ m > INT64_MAX + 1 then INT64_MIN else -(m : Int), p)
    else return (if overflow ∨ m > INT64_MAX then (INT64_MAX : Int) else m, p)
  else refuse

/-! ## Skipping a value -/

inductive Next where
  | more (c : Cursor)
  | close (c : Cursor)

/-- The end of a loop over members or elements. -/
def separator (close : UInt8) (c : Cursor) : Except Stop Next := do
  let c ← skipWs json c
  let b ← here json c
  if b = COMMA then return .more c.next
  else if b = close then return .close c.next
  else refuse

mutual

/-- `skip_value`. -/
def skipValueIn : Nat → Cursor → Except Stop Cursor
  | 0, _ => .error .unfinished
  | bound + 1, c => do
    let c ← skipWs json c
    let b ← here json c
    if b = LBRACE then skipObjectIn bound c
    else if b = LBRACKET then skipArrayIn bound c
    else if b = QUOTE then (scanString json c).map Prod.snd
    else if b = 0x74 then matchLiteral json (ascii "true") c
    else if b = 0x66 then matchLiteral json (ascii "false") c
    else if b = 0x6E then matchLiteral json (ascii "null") c
    else skipNumber json c

/-- `skip_object`, from its brace on. -/
def skipObjectIn : Nat → Cursor → Except Stop Cursor
  | 0, _ => .error .unfinished
  | bound + 1, c => do
    let c ← skipWs json c.next
    if ← isAt json (· == RBRACE) c then return c.next else skipMembersIn bound c

/-- The loop of `skip_object`. -/
def skipMembersIn : Nat → Cursor → Except Stop Cursor
  | 0, _ => .error .unfinished
  | bound + 1, c => do
    let (_, c) ← scanString json c
    let c ← skipWs json c
    let c ← expect json COLON c
    let c ← skipValueIn bound c
    match ← separator json RBRACE c with
    | .more c => skipMembersIn bound c
    | .close c => return c

/-- `skip_array`, from its bracket on. -/
def skipArrayIn : Nat → Cursor → Except Stop Cursor
  | 0, _ => .error .unfinished
  | bound + 1, c => do
    let c ← skipWs json c.next
    if ← isAt json (· == RBRACKET) c then return c.next else skipElementsIn bound c

/-- The loop of `skip_array`. -/
def skipElementsIn : Nat → Cursor → Except Stop Cursor
  | 0, _ => .error .unfinished
  | bound + 1, c => do
    let c ← skipValueIn bound c
    match ← separator json RBRACKET c with
    | .more c => skipElementsIn bound c
    | .close c => return c

end

def Cursor.bound (c : Cursor) : Nat := 3 * (c.last - c.p) + 3

def skipValue (c : Cursor) : Except Stop Cursor := skipValueIn json c.bound c

def skipObject (c : Cursor) : Except Stop Cursor := skipObjectIn json c.bound c

def skipArray (c : Cursor) : Except Stop Cursor := skipArrayIn json c.bound c

/-! ## Parsing a value -/

/-- `parse_value`. -/
def parseValue (c : Cursor) : Except Stop (JsonValue × Cursor) := do
  let c ← skipWs json c
  let taken (v : JsonValue) (after : Cursor) : JsonValue × Cursor :=
    ({ v with raw := piece json c.p after.p }, after)
  let b ← here json c
  if b = LBRACE then (skipObject json c).map (taken { JsonValue.zero with type := .object })
  else if b = LBRACKET then (skipArray json c).map (taken { JsonValue.zero with type := .array })
  else if b = QUOTE then
    (scanString json c).map fun r =>
      taken { JsonValue.zero with type := .string, string := r.1 } r.2
  else if b = 0x74 then
    (matchLiteral json (ascii "true") c).map
      (taken { JsonValue.zero with type := .bool, boolean := true })
  else if b = 0x66 then
    (matchLiteral json (ascii "false") c).map (taken { JsonValue.zero with type := .bool })
  else if b = 0x6E then (matchLiteral json (ascii "null") c).map (taken JsonValue.zero)
  else
    (parseNumber json c).map fun r =>
      taken { JsonValue.zero with type := .number, number := r.1 } r.2

/-- One element in the loop of `parse_array_membership`. -/
def takeElement (needle : List UInt8) (member : Bool) (c : Cursor) : Bool × Except Stop Cursor :=
  match isAt json (· == QUOTE) c with
  | .error stop => (member, .error stop)
  | .ok false => (member, skipValue json c)
  | .ok true =>
    match scanString json c with
    | .error stop => (member, .error stop)
    | .ok (element, c) =>
      if member = false ∧ element.bytes.length = needle.length then
        match equalAt json element.start needle with
        | .error stop => (member, .error stop)
        | .ok same => (same, .ok c)
      else (member, .ok c)

/-- The loop of `parse_array_membership`. -/
def membershipIn (needle : List UInt8) : Nat → Bool → Cursor → Bool × Except Stop Cursor
  | 0, member, _ => (member, .error .unfinished)
  | bound + 1, member, c =>
    match skipWs json c with
    | .error stop => (member, .error stop)
    | .ok c =>
      let (member, after) := takeElement json needle member c
      match after.bind (separator json RBRACKET) with
      | .error stop => (member, .error stop)
      | .ok (.more c) => membershipIn needle bound member c
      | .ok (.close c) => (member, .ok c)

/-- `parse_array_membership` behind its bracket. -/
def membersOf (needle : List UInt8) (member : Bool) (c : Cursor) : Bool × Except Stop Cursor :=
  match skipWs json c with
  | .error stop => (member, .error stop)
  | .ok c =>
    match isAt json (· == RBRACKET) c with
    | .error stop => (member, .error stop)
    | .ok true => (member, .ok c.next)
    | .ok false => membershipIn json needle c.bound member c

/-- `parse_array_membership`. -/
def parseArrayMembership (needle : List UInt8) (member : Bool) (c : Cursor) :
    Bool × Except Stop Cursor :=
  match skipWs json c with
  | .error stop => (member, .error stop)
  | .ok c =>
    match isAt json (· == LBRACKET) c with
    | .error stop => (member, .error stop)
    | .ok true => membersOf json needle member c.next
    | .ok false => (false, skipValue json c)

/-! ## The fields of an object -/

/-- The key of a member is `text`: its length is compared, and then its bytes. -/
def keyIs (key : Span) (text : List UInt8) : Except Stop Bool :=
  if key.bytes.length = text.length then equalAt json key.start text else .ok false

/-- Whether a field still waits for this key. -/
def wants (key : Span) (f : JsonField) : Except Stop Bool :=
  if f.found then .ok false else keyIs json key f.key

/-- The value of a member goes to the field that wants it. -/
def take (c : Cursor) (f : JsonField) : Except Stop (JsonField × Cursor) :=
  match f.needle with
  | some needle =>
    let (member, after) := parseArrayMembership json needle f.member c
    after.map ({ f with found := true, member := member }, ·)
  | none => (parseValue json c).map fun r => ({ f with found := true, value := r.1 }, r.2)

/-- The value of the member `key` goes to the first field that wants it, or is skipped. -/
def takeField (key : Span) (c : Cursor) : List JsonField → Except Stop (List JsonField × Cursor)
  | [] => (skipValue json c).map ([], ·)
  | f :: fields => do
    if ← wants json key f then (take json c f).map fun r => (r.1 :: fields, r.2)
    else (takeField key c fields).map fun r => (f :: r.1, r.2)

/-- The key of a member and the colon after it. -/
def scanKey (c : Cursor) : Except Stop (Span × Cursor) := do
  let (key, c) ← scanString json c
  let c ← skipWs json c
  let c ← expect json COLON c
  return (key, c)

/-- The loop of `scan_fields`. -/
def scanFieldsIn : Nat → List JsonField → Cursor → Except Stop (List JsonField × Cursor)
  | 0, _, _ => .error .unfinished
  | bound + 1, fields, c => do
    let c ← skipWs json c
    if (← here json c) = RBRACE then return (fields, c.next)
    else
      let (key, c) ← scanKey json c
      let (fields, c) ← takeField json key c fields
      match ← separator json RBRACE c with
      | .more c => scanFieldsIn bound fields c
      | .close c => return (fields, c)

/-- `scan_fields`. -/
def scanFields (fields : List JsonField) (c : Cursor) : Except Stop (List JsonField × Cursor) := do
  let c ← skipWs json c
  let c ← expect json LBRACE c
  scanFieldsIn json c.bound fields c

/-! ## Look-up of a path -/

/-- The loop of `descend`. -/
def descendIn (segment : List UInt8) (leaf : Bool) : Nat → Cursor → Except Stop (JsonValue × Cursor)
  | 0, _ => .error .unfinished
  | bound + 1, c => do
    let c ← skipWs json c
    if (← here json c) = RBRACE then .error (.code EAF_UNSUPPORTED)
    else
      let (key, c) ← scanKey json c
      if ← keyIs json key segment then
        if leaf then parseValue json c else return (JsonValue.zero, c)
      else
        let c ← skipValue json c
        match ← separator json RBRACE c with
        | .more c => descendIn segment leaf bound c
        | .close _ => .error (.code EAF_UNSUPPORTED)

/-- `descend`. -/
def descend (segment : List UInt8) (leaf : Bool) (c : Cursor) :
    Except Stop (JsonValue × Cursor) := do
  let c ← skipWs json c
  let c ← expect json LBRACE c
  descendIn json segment leaf c.bound c

/-- The loop of `eaf_sendspin_json_get`. -/
def descendAll : List (List UInt8) → Cursor → Except Stop JsonValue
  | [], _ => refuse
  | [segment], c => (descend json segment true c).map Prod.fst
  | segment :: rest, c => do
    let (_, c) ← descend json segment false c
    descendAll rest c

/-- `eaf_sendspin_json_get`. -/
def jsonGet (path : List UInt8) : Except Stop JsonValue :=
  if path = [] then refuse else descendAll json (segments path) ⟨0, json.length⟩

/-- `eaf_sendspin_json_array_contains`. The code of the search does not matter. -/
def jsonArrayContains (array : JsonValue) (needle : List UInt8) : Except Stop Bool :=
  if array.type = .array then
    match parseArrayMembership json needle false (cursorOver array.raw) with
    | (member, .ok _) => .ok member
    | (member, .error (.code _)) => .ok member
    | (_, .error stop) => .error stop
  else .ok false

/-- `eaf_sendspin_json_string_equals`. -/
def jsonStringEquals (value : JsonValue) (text : String) : Except Stop Bool :=
  if value.type = .string ∧ value.string.bytes.length = (ascii text).length then
    equalAt json value.string.start (ascii text)
  else .ok false

/-! ## The parsers -/

/-- Where a parser makes every code `EAF_INVALID`. -/
def orInvalid {α : Type} : Except Stop α → Except Stop α
  | .error (.code _) => refuse
  | r => r

/-- `codec_from_value`. -/
def codecFromValue (value : JsonValue) : Except Stop Codec := do
  if ← jsonStringEquals json value "pcm" then return .pcm
  else if ← jsonStringEquals json value "flac" then return .flac
  else if ← jsonStringEquals json value "opus" then return .opus
  else if ← jsonStringEquals json value "mp3" then return .mp3
  else if ← jsonStringEquals json value "vorbis" then return .vorbis
  else return .unknown

/-- The object that a message carries as its payload. -/
def payloadOf : Except Stop JsonValue := do
  let payload ← orInvalid (jsonGet json (ascii "payload"))
  if payload.type = .object then return payload else refuse

/-- `scan_fields` over an object value. -/
def fieldsOf (object : JsonValue) (fields : List JsonField) : Except Stop (List JsonField) :=
  orInvalid ((scanFields json fields (cursorOver object.raw)).map Prod.fst)

/-- The object of the payload field `player`. -/
def playerOf (fields : List JsonField) : Except Stop JsonValue :=
  if (fieldAt fields 0).found ∧ (fieldAt fields 0).value.type = .object then
    .ok (fieldAt fields 0).value
  else refuse

/-- `eaf_sendspin_parse_server_hello`. -/
def parseServerHello : Except Stop ServerHello := do
  let payload ← payloadOf json
  let fields ← fieldsOf json payload [memberField "active_roles" "player@v1",
    valueField "server_id", valueField "name", valueField "connection_reason", valueField "version"]
  if (fieldAt fields 0).found then
    return {
      playerActive := (fieldAt fields 0).member
      serverId := stringOf (fieldAt fields 1)
      name := stringOf (fieldAt fields 2)
      connectionReason := stringOf (fieldAt fields 3)
      version :=
        if (fieldAt fields 4).found ∧ (fieldAt fields 4).value.type = .number then
          UInt32.ofInt (fieldAt fields 4).value.number
        else 0 }
  else refuse

/-- `eaf_sendspin_parse_server_time`. -/
def parseServerTime : Except Stop ServerTime := do
  let payload ← payloadOf json
  let fields ← fieldsOf json payload [valueField "client_transmitted",
    valueField "server_received", valueField "server_transmitted"]
  let clientTransmitted := (fieldAt fields 0).value
  let serverReceived := (fieldAt fields 1).value
  let serverTransmitted := (fieldAt fields 2).value
  if clientTransmitted.type = .number ∧ serverReceived.type = .number ∧
      serverTransmitted.type = .number then
    return ⟨clientTransmitted.number, serverReceived.number, serverTransmitted.number⟩
  else refuse

/-- `eaf_sendspin_parse_stream_start`. -/
def parseStreamStart : Except Stop StreamStart := do
  let payload ← payloadOf json
  let payloadFields ← fieldsOf json payload [valueField "player", valueField "server_transmitted"]
  let player ← playerOf payloadFields
  let playerFields ← fieldsOf json player [valueField "codec", valueField "sample_rate",
    valueField "channels", valueField "bit_depth", valueField "codec_header"]
  let transmitted := (fieldAt payloadFields 1).value
  let sampleRate := (fieldAt playerFields 1).value
  let channels := (fieldAt playerFields 2).value
  let bitDepth := (fieldAt playerFields 3).value
  let codecHeader := (fieldAt playerFields 4).value
  if (fieldAt playerFields 0).found then
    let codec ← codecFromValue json (fieldAt playerFields 0).value
    if sampleRate.type = .number ∧ channels.type = .number ∧ bitDepth.type = .number then
      return {
        codec := codec
        sampleRate := UInt32.ofInt sampleRate.number
        channels := UInt8.ofInt channels.number
        bitDepth := UInt8.ofInt bitDepth.number
        serverTransmitted := if transmitted.type = .number then transmitted.number else 0
        codecHeader := if codecHeader.type = .string then codecHeader.string else ⟨0, []⟩ }
    else refuse
  else refuse

/-- `eaf_sendspin_parse_stream_end`. -/
def parseStreamEnd : Except Stop StreamEnd :=
  match jsonGet json (ascii "payload") with
  | .error (.code rc) => if rc = EAF_UNSUPPORTED then .ok ⟨0, true⟩ else refuse
  | .error stop => .error stop
  | .ok payload =>
    if payload.type = .object then do
      let fields ← fieldsOf json payload
        [valueField "server_transmitted", memberField "roles" "player"]
      let transmitted := (fieldAt fields 0).value
      let roles := fieldAt fields 1
      return {
        serverTransmitted := if transmitted.type = .number then transmitted.number else 0
        endPlayer := !roles.found || roles.member }
    else refuse

/-- `eaf_sendspin_parse_group_update`. -/
def parseGroupUpdate : Except Stop GroupUpdate :=
  match payloadOf json with
  | .error (.code _) => .ok ⟨⟨0, []⟩, ⟨0, []⟩⟩
  | .error stop => .error stop
  | .ok payload =>
    match fieldsOf json payload [valueField "playback_state", valueField "group_id"] with
    | .error (.code _) => .ok ⟨⟨0, []⟩, ⟨0, []⟩⟩
    | .error stop => .error stop
    | .ok fields => .ok ⟨stringOf (fieldAt fields 0), stringOf (fieldAt fields 1)⟩

/-- The command that a value names. -/
def commandFromValue (value : JsonValue) : Except Stop Command := do
  if ← jsonStringEquals json value "volume" then return .volume
  else if ← jsonStringEquals json value "mute" then return .mute
  else if ← jsonStringEquals json value "set_static_delay" then return .setStaticDelay
  else return .unknown

/-- `eaf_sendspin_parse_server_command`. -/
def parseServerCommand : Except Stop ServerCommand := do
  let payload ← payloadOf json
  let payloadFields ← fieldsOf json payload [valueField "player"]
  let player ← playerOf payloadFields
  let playerFields ← fieldsOf json player [valueField "command", valueField "volume",
    valueField "mute", valueField "static_delay_ms"]
  let volume := (fieldAt playerFields 1).value
  let mute := (fieldAt playerFields 2).value
  let staticDelay := (fieldAt playerFields 3).value
  if (fieldAt playerFields 0).found then
    let command ← commandFromValue json (fieldAt playerFields 0).value
    return {
      command := command
      volume := if volume.type = .number then Int32.ofInt volume.number else -1
      muted := mute.type == .bool && mute.boolean
      staticDelayMs :=
        if staticDelay.type = .number then Int32.ofInt staticDelay.number else -1 }
  else refuse

end Reader

end EmbeddedAudio.Sendspin.Pointer
