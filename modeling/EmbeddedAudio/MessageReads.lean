-- The messages of the Sendspin client read back (sendspin_protocol.c): the reader goes
-- over a whole message as one object and finds every field under its path, whatever
-- the strings in it contain.
import EmbeddedAudio.MessageText

namespace EmbeddedAudio.Builder

open Sendspin

/-! ## What the reader finds -/

/-- The text is one object, and `skip_value` comes out at its end. -/
structure Whole (text : List UInt8) : Prop where
  object : text.head? = some LBRACE
  skipped : skipValue ⟨0, text⟩ = .ok ⟨text.length, []⟩

/-- `eaf_sendspin_json_get` finds a value under the path. -/
def ReadAt (text : List UInt8) (path : String) (P : JsonValue → Prop) : Prop :=
  ∃ v, jsonGet ⟨0, text⟩ (ascii path) = .ok v ∧ P v

def Absent (text : List UInt8) (path : String) : Prop :=
  jsonGet ⟨0, text⟩ (ascii path) = .error EAF_UNSUPPORTED

def IsString (s : List UInt8) (v : JsonValue) : Prop :=
  v.type = .string ∧ unescape v.string.bytes = some s

def IsInt (n : Int) (v : JsonValue) : Prop := v.type = .number ∧ v.number = n

def IsBool (b : Bool) (v : JsonValue) : Prop := v.type = .bool ∧ v.boolean = b

/-- An array with these texts between its commas. -/
def IsArray (elements : List (List UInt8)) (v : JsonValue) : Prop :=
  v.type = .array ∧ v.raw.bytes = LBRACKET :: (commaSeparated elements ++ [RBRACKET])

/-- A string that is there only if there is a text for it. -/
def OptionalAt (text : List UInt8) (path : String) : Option (List UInt8) → Prop
  | some s => ReadAt text path (IsString s)
  | none => Absent text path

/-! ## What the reader finds of a tree -/

section Trees

variable {v w : Json}

theorem whole_tree (hobj : v.type = .object) (htight : v.tight = true) : Whole v.bytes := by
  refine ⟨?_, ?_⟩
  · cases v with
    | emptyObj | obj => rfl
    | _ => cases hobj
  · have hskip : skipValue (before 0 .none v []) = .ok (after 0 .none v []) :=
      skipValue_tight htight 0 .none nofun
    simpa [before, after, Gap.none] using hskip

theorem jsonGet_tree (htight : v.tight = true) {path : String} {keys : List String}
    (hpath : ascii path ≠ [] ∧ segments (ascii path) = keys.map ascii) :
    match v.get (keys.map ascii) with
    | .ok w => ∃ val, jsonGet ⟨0, v.bytes⟩ (ascii path) = .ok val ∧ val.Shows w
    | .error rc => jsonGet ⟨0, v.bytes⟩ (ascii path) = .error rc := by
  have hget := descendAll_get (keys.map ascii) 0 .none [] (valuesTight_of_tight htight)
  have hbefore : before 0 .none v [] = ⟨0, v.bytes⟩ := by simp [before, Gap.none]
  have hjson : jsonGet ⟨0, v.bytes⟩ (ascii path) = descendAll (keys.map ascii) ⟨0, v.bytes⟩ := by
    rw [jsonGet, if_neg hpath.1, hpath.2]
  rw [hbefore] at hget
  rw [hjson]
  cases hv : v.get (keys.map ascii) with
  | ok w =>
    rw [hv] at hget
    exact hget.2
  | error rc =>
    rw [hv] at hget
    exact hget

theorem readAt_tree (keys : List String) (htight : v.tight = true) {path : String}
    (hpath : ascii path ≠ [] ∧ segments (ascii path) = keys.map ascii)
    (hget : v.get (keys.map ascii) = .ok w) {P : JsonValue → Prop}
    (hP : ∀ val : JsonValue, val.Shows w → P val) : ReadAt v.bytes path P := by
  have hfound := jsonGet_tree htight hpath
  rw [hget] at hfound
  obtain ⟨val, hval, hshows⟩ := hfound
  exact ⟨val, hval, hP val hshows⟩

theorem absent_tree (keys : List String) (htight : v.tight = true) {path : String}
    (hpath : ascii path ≠ [] ∧ segments (ascii path) = keys.map ascii)
    (hget : v.get (keys.map ascii) = .error EAF_UNSUPPORTED) : Absent v.bytes path := by
  have hfound := jsonGet_tree htight hpath
  rw [hget] at hfound
  exact hfound

theorem shows_string {s : List UInt8} (val : JsonValue) (h : val.Shows (.ofString s)) :
    IsString s val := by
  refine ⟨h.type, ?_⟩
  have hraw : (Json.ofString s).text = s.flatMap escapeByte := escapedText_bytes s
  rw [h.string, hraw, unescape_escape]

theorem shows_int {n : Int} (hn : INT64_MIN ≤ n ∧ n ≤ INT64_MAX) (val : JsonValue)
    (h : val.Shows (.ofInt n)) : IsInt n val := by
  refine ⟨h.type, ?_⟩
  have hnumber : (Json.ofInt n).number = clamp64 n := by
    simp only [Json.ofInt, Json.number, signed_value]
  rw [h.number, hnumber]
  simp only [clamp64]
  omega

theorem shows_bool {b : Bool} (val : JsonValue) (h : val.Shows (.bool b)) : IsBool b val :=
  ⟨h.type, h.boolean⟩

theorem shows_array {vs : List Json} {texts : List (List UInt8)}
    (htexts : vs.map Json.bytes = texts) (val : JsonValue) (h : val.Shows (.ofArray vs)) :
    IsArray texts val := by
  rw [← htexts]
  exact ⟨h.type.trans (ofArray_type vs), h.raw.trans (ofArray_bytes vs)⟩

end Trees

/-! ## The messages -/

/-- What a client/time message has to say. -/
structure TimeRead (clientTransmitted : Int64) (text : List UInt8) : Prop where
  whole : Whole text
  transmitted : ReadAt text "payload.client_transmitted" (IsInt clientTransmitted.toInt)
  type : ReadAt text "type" (IsString (ascii "client/time"))

/-- What a client/state message has to say. -/
structure StateRead (state : PlayerState) (text : List UInt8) : Prop where
  whole : Whole text
  synchronized : ReadAt text "payload.player.state" (IsString (ascii "synchronized"))
  volume : ReadAt text "payload.player.volume" (IsInt state.volume.toInt)
  muted : ReadAt text "payload.player.muted" (IsBool state.muted)
  staticDelay : ReadAt text "payload.player.static_delay_ms" (IsInt state.staticDelayMs.toInt)
  requiredLeadTime :
    ReadAt text "payload.player.required_lead_time_ms" (IsInt state.requiredLeadTimeMs.toInt)
  minBuffer : ReadAt text "payload.player.min_buffer_ms" (IsInt state.minBufferMs.toInt)
  type : ReadAt text "type" (IsString (ascii "client/state"))

/-- What a format in a client/hello message has to say. -/
structure FormatRead (format : AudioFormat) (text : List UInt8) : Prop where
  whole : Whole text
  codec : ∃ name, codecName format.codec = some name ∧ ReadAt text "codec" (IsString name)
  channels : ReadAt text "channels" (IsInt format.channels.toNat)
  sampleRate : ReadAt text "sample_rate" (IsInt format.sampleRate.toNat)
  bitDepth : if format.codec = .pcm ∧ format.bitDepth ≠ 0 then
    ReadAt text "bit_depth" (IsInt format.bitDepth.toNat) else Absent text "bit_depth"

def commandTexts (hello : ClientHello) : List (List UInt8) :=
  (if hello.supportVolume then [jsonString (ascii "volume")] else []) ++
    if hello.supportMute then [jsonString (ascii "mute")] else []

/-- What a client/hello message has to say. -/
structure HelloRead (hello : ClientHello) (clientId name text : List UInt8) : Prop where
  whole : Whole text
  clientId : ReadAt text "payload.client_id" (IsString clientId)
  name : ReadAt text "payload.name" (IsString name)
  version : ReadAt text "payload.version" (IsInt 1)
  roles : ReadAt text "payload.supported_roles" (IsArray [jsonString (ascii "player@v1")])
  productName : OptionalAt text "payload.device_info.product_name" hello.productName
  manufacturer : OptionalAt text "payload.device_info.manufacturer" hello.manufacturer
  softwareVersion : OptionalAt text "payload.device_info.software_version" hello.softwareVersion
  formats : ∃ texts, ReadAt text "payload.player@v1_support.supported_formats" (IsArray texts) ∧
    List.Forall₂ FormatRead (advertised hello) texts
  bufferCapacity :
    ReadAt text "payload.player@v1_support.buffer_capacity" (IsInt hello.bufferCapacity.toNat)
  commands :
    ReadAt text "payload.player@v1_support.supported_commands" (IsArray (commandTexts hello))
  type : ReadAt text "type" (IsString (ascii "client/hello"))

/-! ## The trees say it -/

theorem messageTree_tight {payload : Json} (h : payload.tight = true) (type : String) :
    (messageTree payload type).tight = true := by
  simp [messageTree, h]

/-- The paths below the payload. -/
theorem message_payload (payload : Json) (type key : String) (keys : List String) :
    (messageTree payload type).get (("payload" :: key :: keys).map ascii) =
      payload.get ((key :: keys).map ascii) := by
  simp +decide [messageTree, Json.get]

theorem payload_read {payload w : Json} {type path : String} {P : JsonValue → Prop} (key : String)
    (keys : List String) (htight : payload.tight = true)
    (hpath : ascii path ≠ [] ∧ segments (ascii path) = ("payload" :: key :: keys).map ascii)
    (hget : payload.get ((key :: keys).map ascii) = .ok w)
    (hP : ∀ val : JsonValue, val.Shows w → P val) : ReadAt (messageTree payload type).bytes path P :=
  readAt_tree _ (messageTree_tight htight type) hpath ((message_payload _ _ _ _).trans hget) hP

theorem type_read {payload : Json} (h : payload.tight = true) (type : String) :
    ReadAt (messageTree payload type).bytes "type" (IsString (ascii type)) := by
  refine readAt_tree ["type"] (messageTree_tight h type) (by decide) ?_ shows_string
  simp +decide [messageTree, Json.get]

theorem int64_range (n : Int64) : INT64_MIN ≤ n.toInt ∧ n.toInt ≤ INT64_MAX := by
  have hlow := n.le_toInt
  have hhigh := n.toInt_lt
  simp only [INT64_MIN, INT64_MAX]
  omega

theorem int32_range (n : Int32) : INT64_MIN ≤ n.toInt ∧ n.toInt ≤ INT64_MAX := by
  rw [← Int32.toInt_toInt64]
  exact int64_range n.toInt64

theorem uint32_range (n : UInt32) : INT64_MIN ≤ (n.toNat : Int) ∧ (n.toNat : Int) ≤ INT64_MAX := by
  have h := n.toNat_lt
  simp only [INT64_MIN, INT64_MAX]
  omega

theorem uint8_range (n : UInt8) : INT64_MIN ≤ (n.toNat : Int) ∧ (n.toNat : Int) ≤ INT64_MAX := by
  have h := n.toNat_lt
  simp only [INT64_MIN, INT64_MAX]
  omega

theorem time_read (clientTransmitted : Int64) : TimeRead clientTransmitted
    (messageTree (timePayload clientTransmitted) "client/time").bytes := by
  have htight : (timePayload clientTransmitted).tight = true := by simp [timePayload]
  refine ⟨whole_tree (ofObject_type _) (messageTree_tight htight _), ?_, type_read htight _⟩
  refine payload_read "client_transmitted" [] htight (by decide) ?_
    (shows_int (int64_range clientTransmitted))
  simp +decide [timePayload, Json.get]

theorem state_read (state : PlayerState) : StateRead state
    (messageTree (statePayload state) "client/state").bytes := by
  have htight : (statePayload state).tight = true := by simp [statePayload, playerTree, Json.tight]
  have hplayer : ∀ {key : String} {w : Json}, (playerTree state).get ([key].map ascii) = .ok w →
      (statePayload state).get (["player", key].map ascii) = .ok w := by
    intro key w hget
    rw [← hget]
    simp +decide [statePayload, Json.get]
  refine ⟨whole_tree (ofObject_type _) (messageTree_tight htight _), ?_, ?_, ?_, ?_, ?_, ?_,
    type_read htight _⟩
  · refine payload_read "player" ["state"] htight (by decide) (hplayer ?_) shows_string
    simp +decide [playerTree, Json.get]
  · refine payload_read "player" ["volume"] htight (by decide) (hplayer ?_)
      (shows_int (int32_range _))
    simp +decide [playerTree, Json.get]
  · refine payload_read "player" ["muted"] htight (by decide) (hplayer ?_) shows_bool
    simp +decide [playerTree, Json.get]
  · refine payload_read "player" ["static_delay_ms"] htight (by decide) (hplayer ?_)
      (shows_int (int32_range _))
    simp +decide [playerTree, Json.get]
  · refine payload_read "player" ["required_lead_time_ms"] htight (by decide) (hplayer ?_)
      (shows_int (int32_range _))
    simp +decide [playerTree, Json.get]
  · refine payload_read "player" ["min_buffer_ms"] htight (by decide) (hplayer ?_)
      (shows_int (int32_range _))
    simp +decide [playerTree, Json.get]

theorem formatTree_tight (format : AudioFormat) : (formatTree format).tight = true := by
  unfold formatTree
  split <;> simp

theorem format_read {format : AudioFormat} (h : named format = true) :
    FormatRead format (formatTree format).bytes := by
  obtain ⟨name, hname⟩ := Option.isSome_iff_exists.mp h
  have htight := formatTree_tight format
  refine ⟨whole_tree (ofObject_type _) htight, ⟨name, hname, ?_⟩, ?_, ?_, ?_⟩
  · refine readAt_tree ["codec"] htight (by decide) ?_ shows_string
    simp +decide [formatTree, Json.get, hname]
  · refine readAt_tree ["channels"] htight (by decide) ?_ (shows_int (uint8_range _))
    simp +decide [formatTree, Json.get]
  · refine readAt_tree ["sample_rate"] htight (by decide) ?_ (shows_int (uint32_range _))
    simp +decide [formatTree, Json.get]
  · split
    next hdepth =>
      refine readAt_tree ["bit_depth"] htight (by decide) ?_ (shows_int (uint8_range _))
      simp +decide [formatTree, Json.get, hdepth]
    next hdepth =>
      apply absent_tree ["bit_depth"] htight (by decide)
      simp +decide [formatTree, Json.get, hdepth]

theorem advertised_named (hello : ClientHello) : ∀ format ∈ advertised hello, named format = true := by
  unfold advertised
  cases hfilter : hello.formats.filter named with
  | nil =>
    intro format hformat
    rw [List.mem_singleton.mp hformat]
    rfl
  | cons first rest =>
    intro format hformat
    simp only at hformat
    rw [← hfilter] at hformat
    exact (List.mem_filter.mp hformat).2

theorem formats_read (hello : ClientHello) : List.Forall₂ FormatRead (advertised hello)
    (((advertised hello).map formatTree).map Json.bytes) := by
  rw [List.map_map, List.forall₂_map_right_iff, List.forall₂_same]
  intro format hformat
  exact format_read (advertised_named hello format hformat)

theorem commandNames_bytes (hello : ClientHello) :
    (commandNames hello).map Json.bytes = commandTexts hello := by
  unfold commandNames commandTexts
  cases hello.supportVolume <;> cases hello.supportMute <;> simp [ofString_bytes]

/-- A key that the optional member does not have. -/
theorem deviceTree_other (hello : ClientHello) {key : List UInt8} (h : key ≠ ascii "device_info") :
    (deviceTree hello).find? (fun m => decide (m.1.flatMap escapeByte = key)) = none := by
  have hplain : (ascii "device_info").flatMap escapeByte = ascii "device_info" := by decide
  unfold deviceTree
  split
  · rfl
  · simp [hplain, h.symm]

theorem textMember_find (key : String) (value : Option (List UInt8)) {key' : List UInt8}
    (hplain : (ascii key).flatMap escapeByte = ascii key) :
    (textMember key value).find? (fun m => decide (m.1.flatMap escapeByte = key')) =
      if ascii key = key' then value.map fun text => (ascii key, Json.ofString text) else none := by
  cases value with
  | none => simp [textMember]
  | some text =>
    by_cases hkey : ascii key = key'
    · subst hkey
      simp [textMember, hplain]
    · simp [textMember, hplain, hkey]

theorem textMember_tight (key : String) (value : Option (List UInt8)) :
    (textMember key value).all (fun m => m.2.tight) = true := by
  cases value <;> simp [textMember]

theorem deviceTree_tight (hello : ClientHello) :
    (deviceTree hello).all (fun m => m.2.tight) = true := by
  unfold deviceTree
  split
  · rfl
  · simp only [List.all_cons, List.all_nil, ofObject_tight, deviceMembers, List.all_append,
      textMember_tight, Bool.and_self]

theorem helloPayload_tight (hello : ClientHello) (clientId name : List UInt8) :
    (helloPayload hello clientId name).tight = true := by
  have hcommands : (commandNames hello).all Json.tight = true := by
    unfold commandNames
    cases hello.supportVolume <;> cases hello.supportMute <;> rfl
  have hformats : ((advertised hello).map formatTree).all Json.tight = true := by
    simp [formatTree_tight]
  have hsupport : (supportTree hello).tight = true := by
    simp only [supportTree, ofObject_tight, List.all_cons, List.all_nil, ofArray_tight, ofInt_tight,
      hcommands, hformats, Bool.and_self]
  have hdevice := deviceTree_tight hello
  simp only [helloPayload, ofObject_tight, List.all_append, List.all_cons, List.all_nil,
    ofString_tight, ofInt_tight, ofArray_tight, hdevice, hsupport, Bool.and_self]

/-- The member of `device_info` under a key, if it is there. -/
theorem device_get (hello : ClientHello) (clientId name : List UInt8) (key : String) :
    (helloPayload hello clientId name).get (["device_info", key].map ascii) =
      match (deviceMembers hello).find? fun m => decide (m.1.flatMap escapeByte = ascii key) with
      | some m => .ok m.2
      | none => .error EAF_UNSUPPORTED := by
  have hplain : (ascii "device_info").flatMap escapeByte = ascii "device_info" := by decide
  by_cases hnone : deviceMembers hello = []
  · simp +decide [helloPayload, Json.get, deviceTree, hnone]
  · have hfind : ((deviceTree hello).find? fun m =>
        decide (m.1.flatMap escapeByte = ascii "device_info")) =
          some (ascii "device_info", .ofObject (deviceMembers hello)) := by
      simp [deviceTree, hnone, hplain]
    simp +decide [helloPayload, Json.get, hfind]
    cases (deviceMembers hello).find? fun m => decide (m.1.flatMap escapeByte = ascii key) <;> rfl

theorem device_read (key : String) {hello : ClientHello} {clientId name : List UInt8}
    {path : String}
    (hpath : ascii path ≠ [] ∧
      segments (ascii path) = ["payload", "device_info", key].map ascii)
    (htight : (helloPayload hello clientId name).tight = true) {value : Option (List UInt8)}
    (hfind : (deviceMembers hello).find? (fun m => decide (m.1.flatMap escapeByte = ascii key)) =
      value.map fun text => (ascii key, Json.ofString text)) :
    OptionalAt (messageTree (helloPayload hello clientId name) "client/hello").bytes path value := by
  have hget := device_get hello clientId name key
  rw [hfind] at hget
  cases value with
  | none =>
    exact absent_tree _ (messageTree_tight htight _) hpath ((message_payload _ _ _ _).trans hget)
  | some text => exact payload_read _ _ htight hpath hget shows_string

theorem hello_read (hello : ClientHello) (clientId name : List UInt8) :
    HelloRead hello clientId name
      (messageTree (helloPayload hello clientId name) "client/hello").bytes := by
  have htight := helloPayload_tight hello clientId name
  have hother : ∀ key, key ≠ ascii "device_info" → (deviceTree hello).find? (fun m =>
      decide (m.1.flatMap escapeByte = key)) = none := fun key => deviceTree_other hello
  refine ⟨whole_tree (ofObject_type _) (messageTree_tight htight _), ?_, ?_, ?_, ?_,
    device_read "product_name" (by decide) htight ?_,
    device_read "manufacturer" (by decide) htight ?_,
    device_read "software_version" (by decide) htight ?_, ⟨_, ?_, formats_read hello⟩, ?_, ?_,
    type_read htight _⟩
  · refine payload_read "client_id" [] htight (by decide) ?_ shows_string
    simp +decide [helloPayload, Json.get]
  · refine payload_read "name" [] htight (by decide) ?_ shows_string
    simp +decide [helloPayload, Json.get]
  · refine payload_read "version" [] htight (by decide) ?_ (shows_int (by decide))
    simp +decide [helloPayload, Json.get]
  · have hroles : [Json.ofString (ascii "player@v1")].map Json.bytes =
        [jsonString (ascii "player@v1")] := by simp [ofString_bytes]
    refine payload_read "supported_roles" [] htight (by decide) ?_ (shows_array hroles)
    simp +decide [helloPayload, Json.get]
  · simp +decide [deviceMembers, List.find?_append, textMember_find]
  · simp +decide [deviceMembers, List.find?_append, textMember_find]
  · simp +decide [deviceMembers, List.find?_append, textMember_find]
  · refine payload_read "player@v1_support" ["supported_formats"] htight (by decide) ?_
      (shows_array rfl)
    simp +decide [helloPayload, supportTree, Json.get, hother]
  · refine payload_read "player@v1_support" ["buffer_capacity"] htight (by decide) ?_
      (shows_int (uint32_range _))
    simp +decide [helloPayload, supportTree, Json.get, hother]
  · refine payload_read "player@v1_support" ["supported_commands"] htight (by decide) ?_
      (shows_array (commandNames_bytes hello))
    simp +decide [helloPayload, supportTree, Json.get, hother]

/-! ## The round trip -/

/-- There is one text that says what it has to. A builder gives it if the memory has room for it,
and else an error. -/
def RoundTrip (build : List UInt8 → Except Rc Nat × List UInt8) (Reads : List UInt8 → Prop) : Prop :=
  ∃ text, Reads text ∧ ∀ dst, Delivers dst (build dst) text

/-- For every message that a builder is given, whatever the bytes of its strings, its formats and
its integers are: the text is one object, and every field is read back as it was. -/
theorem messages_round_trip :
    (∀ hello : ClientHello,
      match hello.clientId, hello.name with
      | some clientId, some name =>
        RoundTrip (fun dst => buildClientHello dst hello) (HelloRead hello clientId name)
      | _, _ => ∀ dst, buildClientHello dst hello = (.error EAF_INVALID, dst)) ∧
    (∀ clientTransmitted, RoundTrip (fun dst => buildClientTime dst clientTransmitted)
      (TimeRead clientTransmitted)) ∧
    (∀ state, RoundTrip (fun dst => buildClientState dst state) (StateRead state)) := by
  refine ⟨?_, ?_, ?_⟩
  · intro hello
    split
    next clientId name hid hname =>
      exact ⟨_, hello_read hello clientId name, fun dst => hello_delivered dst hello hid hname⟩
    next hnone =>
      intro dst
      unfold buildClientHello
      split
      next clientId name hid hname => exact absurd hname (hnone clientId name hid)
      next => rfl
  · intro clientTransmitted
    exact ⟨_, time_read clientTransmitted, fun dst => time_delivered dst clientTransmitted⟩
  · intro state
    exact ⟨_, state_read state, fun dst => state_delivered dst state⟩

example : (delivered (buildClientTime (List.replicate 100 0) Int64.minValue)) =
    .ok (ascii "\x7b\"payload\":\x7b\"client_transmitted\":-9223372036854775808" ++
      ascii "\x7d,\"type\":\"client/time\"\x7d") := by
  decide +kernel

end EmbeddedAudio.Builder
