-- What the writer of the Sendspin messages leaves behind (sendspin_protocol.c): the
-- text of all its pieces if that fits, and the text is the JSON of a tree.
import EmbeddedAudio.JsonTree
import EmbeddedAudio.MessageWriter

namespace EmbeddedAudio.Builder

open Storage Sendspin

/-! ## The pieces -/

/-- The writer has gone through the pieces that make up `text`, and has written it if it fits. -/
structure Holds (dst text : List UInt8) (w : Writer) : Prop where
  capacity : w.capacity = dst.length
  size : w.buf.length = dst.length
  fits : w.ok = true ↔ text.length ≤ dst.length
  used : w.ok = true → w.used = text.length
  written : w.ok = true → w.buf.take text.length = text

theorem holds_start (dst : List UInt8) : Holds dst [] (start dst) :=
  ⟨rfl, rfl, by simp [start], fun _ => rfl, fun _ => rfl⟩

section Pieces

variable {dst text : List UInt8} {w : Writer}

theorem Holds.raw (h : Holds dst text w) (data : List UInt8) :
    Holds dst (text ++ data) (wrRaw data w) := by
  have hlength : (text ++ data).length = text.length + data.length := List.length_append
  unfold wrRaw
  by_cases hok : w.ok = true
  · have hused := h.used hok
    have hfits := h.fits.mp hok
    simp only [hok, Bool.not_true, Bool.false_or, decide_eq_true_eq]
    split
    next hfull =>
      rw [hused, h.capacity] at hfull
      refine ⟨h.capacity, h.size, ?_, nofun, nofun⟩
      simp only [Bool.false_eq_true, false_iff]
      omega
    next hroom =>
      rw [hused, h.capacity] at hroom
      have hpos : w.used ≤ w.buf.length := by rw [hused, h.size]; exact hfits
      refine ⟨h.capacity, ?_, ?_, fun _ => by rw [hlength, hused], fun _ => ?_⟩
      · rw [length_overwrite _ _ _ (by rw [hused, h.size]; omega)]
        exact h.size
      · simp only [true_iff]
        omega
      · rw [hlength, ← hused, take_overwrite _ _ _ hpos, hused, h.written hok]
  · -- a writer that has stopped writes nothing more
    have hfull : ¬text.length ≤ dst.length := fun hle => hok (h.fits.mpr hle)
    have hstopped : w.ok = false := by simpa using hok
    simp only [hstopped, Bool.not_false, Bool.true_or, if_true]
    refine ⟨h.capacity, h.size, ?_, nofun, nofun⟩
    simp only [Bool.false_eq_true, false_iff]
    omega

theorem Holds.char (h : Holds dst text w) (c : UInt8) : Holds dst (text ++ [c]) (wrChar c w) :=
  h.raw [c]

theorem Holds.lit (h : Holds dst text w) (literal : String) :
    Holds dst (text ++ ascii literal) (wrLit literal w) :=
  h.raw (ascii literal)

theorem decimal_pos (n : Nat) : 0 < (decimal n).length := by
  rw [decimal, List.length_reverse, digitsOf]
  split
  · simp
  · simp

theorem Holds.u64 (h : Holds dst text w) (value : UInt64) :
    Holds dst (text ++ decimal value.toNat) (wrU64 value w) := by
  have hsame : wrU64 value w = wrRaw (decimal value.toNat) w := by
    have hpos := decimal_pos value.toNat
    unfold wrU64 wrRaw writeU64Dec
    by_cases hok : w.ok = true
    · have hused := h.used hok
      have hfits := h.fits.mp hok
      have hcapacity := h.capacity
      by_cases hfull : w.used + (decimal value.toNat).length > w.capacity
      · have hmore : (decimal value.toNat).length > w.capacity - w.used := by omega
        simp [hok, hfull, hmore]
      · have hroom : ¬(decimal value.toNat).length > w.capacity - w.used := by omega
        have hsome : ¬(decimal value.toNat).length = 0 := by omega
        simp only [hok, hfull, hroom, hsome, Bool.not_true, Bool.false_eq_true, if_false,
          decide_false, Bool.or_self]
    · have hstopped : w.ok = false := by simpa using hok
      simp only [hstopped, Bool.not_false, Bool.true_or, if_true]
      rw [← hstopped]
  rw [hsame]
  exact h.raw _

/-- The magnitude of a negative number, as `wr_i64` comes to it. -/
theorem magnitude_toNat {value : Int64} (h : value < 0) :
    ((-(value + 1)).toUInt64 + 1).toNat = value.toInt.natAbs := by
  have hbits : ((-(value + 1)).toUInt64 + 1).toBitVec = -value.toBitVec := by
    have hstep : ((-(value + 1)).toUInt64 + 1).toBitVec = -(value.toBitVec + 1#64) + 1#64 := by
      simp
    rw [hstep]
    grind
  have hneg : value.toInt < 0 := Int64.lt_iff_toInt_lt.mp h
  have hint : value.toInt = value.toBitVec.toInt := rfl
  have hlt := value.toBitVec.isLt
  rw [← UInt64.toNat_toBitVec, hbits, BitVec.toNat_neg]
  rw [hint, BitVec.toInt_eq_toNat_cond] at hneg ⊢
  split at hneg <;> omega

theorem nonnegative_toNat {value : Int64} (h : ¬value < 0) :
    value.toUInt64.toNat = value.toInt.natAbs := by
  have hneg : ¬value.toInt < 0 := fun hlt => h (Int64.lt_iff_toInt_lt.mpr hlt)
  have hint : value.toInt = value.toBitVec.toInt := rfl
  have hlt := value.toBitVec.isLt
  change value.toBitVec.toNat = value.toInt.natAbs
  rw [hint, BitVec.toInt_eq_toNat_cond] at hneg ⊢
  split at hneg <;> omega

theorem Holds.i64 (h : Holds dst text w) (value : Int64) :
    Holds dst (text ++ signedDecimal value.toInt) (wrI64 value w) := by
  unfold wrI64 signedDecimal
  by_cases hneg : value < 0
  · have hint : value.toInt < 0 := Int64.lt_iff_toInt_lt.mp hneg
    have hwritten := (h.char MINUS).u64 ((-(value + 1)).toUInt64 + 1)
    rw [magnitude_toNat hneg, List.append_assoc] at hwritten
    rw [if_pos hneg, if_pos hint]
    exact hwritten
  · have hint : ¬value.toInt < 0 := fun hlt => hneg (Int64.lt_iff_toInt_lt.mpr hlt)
    have hwritten := h.u64 value.toUInt64
    rw [nonnegative_toNat hneg] at hwritten
    rw [if_neg hneg, if_neg hint]
    exact hwritten

theorem hexDigit_shift (c : UInt8) : hexDigit (c >>> 4).toNat = hexDigit (c.toNat / 16) ∧
    hexDigit (c &&& 0x0F).toNat = hexDigit (c.toNat % 16) := by
  have hhigh : (c >>> 4).toNat = c.toNat / 16 := by
    simp [UInt8.toNat_shiftRight, Nat.shiftRight_eq_div_pow]
  have hlow : (c &&& 0x0F).toNat = c.toNat % 16 := by
    rw [UInt8.toNat_and]
    exact Nat.and_two_pow_sub_one_eq_mod c.toNat 4
  exact ⟨by rw [hhigh], by rw [hlow]⟩

theorem wrJsonChar_raw (w : Writer) (c : UInt8) : wrJsonChar w c = wrRaw (escapeByte c) w := by
  obtain ⟨hhigh, hlow⟩ := hexDigit_shift c
  unfold wrJsonChar escapeByte
  rw [hhigh, hlow]
  split
  · rfl
  split
  · rfl
  split
  · rfl
  split
  · rfl
  split
  · rfl
  split
  · rfl
  split
  · rfl
  split
  · rfl
  · rfl

theorem Holds.string (h : Holds dst text w) (data : List UInt8) :
    Holds dst (text ++ jsonString data) (wrJsonString data w) := by
  have hloop : ∀ (data text : List UInt8) (w : Writer), Holds dst text w →
      Holds dst (text ++ data.flatMap escapeByte) (data.foldl wrJsonChar w) := by
    intro data
    induction data with
    | nil =>
      intro text w h
      simpa using h
    | cons c data ih =>
      intro text w h
      have hrest := ih _ _ (h.raw (escapeByte c))
      rw [List.foldl_cons, wrJsonChar_raw, List.flatMap_cons, ← List.append_assoc]
      exact hrest
  have hclosed := (hloop data _ _ (h.char QUOTE)).char QUOTE
  unfold wrJsonString jsonString
  simpa using hclosed

end Pieces

/-! ## The trees of the messages -/

/-- A format as the hello advertises it. -/
def formatTree (format : AudioFormat) : Json :=
  .ofObject <| [(ascii "codec", .ofString ((codecName format.codec).getD [])),
    (ascii "channels", .ofInt format.channels.toNat),
    (ascii "sample_rate", .ofInt format.sampleRate.toNat)] ++
    if format.codec = .pcm ∧ format.bitDepth ≠ 0 then
      [(ascii "bit_depth", .ofInt format.bitDepth.toNat)]
    else []

/-- The codec of a format has a name. -/
def named (format : AudioFormat) : Bool := (codecName format.codec).isSome

/-- The formats with a named codec, or the PCM format of the hello alone. -/
def advertised (hello : ClientHello) : List AudioFormat :=
  match hello.formats.filter named with
  | [] => [⟨.pcm, hello.sampleRate, hello.channels, hello.bitDepth⟩]
  | formats => formats

def textMember (key : String) (text : Option (List UInt8)) : List (List UInt8 × Json) :=
  (text.map fun text => (ascii key, Json.ofString text)).toList

def deviceMembers (hello : ClientHello) : List (List UInt8 × Json) :=
  textMember "product_name" hello.productName ++ textMember "manufacturer" hello.manufacturer ++
    textMember "software_version" hello.softwareVersion

/-- The object `device_info` is there if it has a member. -/
def deviceTree (hello : ClientHello) : List (List UInt8 × Json) :=
  if deviceMembers hello = [] then [] else [(ascii "device_info", .ofObject (deviceMembers hello))]

def commandNames (hello : ClientHello) : List Json :=
  (if hello.supportVolume then [.ofString (ascii "volume")] else []) ++
    if hello.supportMute then [.ofString (ascii "mute")] else []

def supportTree (hello : ClientHello) : Json :=
  .ofObject [(ascii "supported_formats", .ofArray ((advertised hello).map formatTree)),
    (ascii "buffer_capacity", .ofInt hello.bufferCapacity.toNat),
    (ascii "supported_commands", .ofArray (commandNames hello))]

def helloPayload (hello : ClientHello) (clientId name : List UInt8) : Json :=
  .ofObject <| [(ascii "client_id", .ofString clientId), (ascii "name", .ofString name),
    (ascii "version", .ofInt 1),
    (ascii "supported_roles", .ofArray [.ofString (ascii "player@v1")])] ++
    (deviceTree hello ++ [(ascii "player@v1_support", supportTree hello)])

/-- A message: its payload and its type. -/
def messageTree (payload : Json) (type : String) : Json :=
  .ofObject [(ascii "payload", payload), (ascii "type", .ofString (ascii type))]

def timePayload (clientTransmitted : Int64) : Json :=
  .ofObject [(ascii "client_transmitted", .ofInt clientTransmitted.toInt)]

def playerTree (state : PlayerState) : Json :=
  .ofObject [(ascii "state", .ofString (ascii "synchronized")),
    (ascii "volume", .ofInt state.volume.toInt), (ascii "muted", .bool state.muted),
    (ascii "static_delay_ms", .ofInt state.staticDelayMs.toInt),
    (ascii "required_lead_time_ms", .ofInt state.requiredLeadTimeMs.toInt),
    (ascii "min_buffer_ms", .ofInt state.minBufferMs.toInt)]

def statePayload (state : PlayerState) : Json := .ofObject [(ascii "player", playerTree state)]

/-! ## What the pieces write -/

section Trees

variable {dst text : List UInt8} {w : Writer}

theorem Holds.reads (h : Holds dst text w) {text' : List UInt8} (heq : text = text') :
    Holds dst text' w := heq ▸ h

theorem ofUInt8_bytes (n : UInt8) : (Json.ofInt n.toNat).bytes = decimal n.toNat := by
  have h := n.toNat_lt
  exact ofNat_bytes (by omega)

theorem ofUInt32_bytes (n : UInt32) : (Json.ofInt n.toNat).bytes = decimal n.toNat := by
  have h := n.toNat_lt
  exact ofNat_bytes (by omega)

theorem ofInt64_bytes (n : Int64) : (Json.ofInt n.toInt).bytes = signedDecimal n.toInt := by
  have hlow := n.le_toInt
  have hhigh := n.toInt_lt
  exact ofInt_bytes (by omega)

theorem format_text (format : AudioFormat) :
    formatText ((codecName format.codec).getD []) format = (formatTree format).bytes := by
  have hcodec : ascii "\x7b\"codec\":" = LBRACE :: (jsonString (ascii "codec") ++ [COLON]) := by
    decide
  have hchannels : ascii ",\"channels\":" = COMMA :: (jsonString (ascii "channels") ++ [COLON]) := by
    decide
  have hrate : ascii ",\"sample_rate\":" =
      COMMA :: (jsonString (ascii "sample_rate") ++ [COLON]) := by
    decide
  have hdepth : ascii ",\"bit_depth\":" = COMMA :: (jsonString (ascii "bit_depth") ++ [COLON]) := by
    decide
  have hclose : ascii "\x7d" = [RBRACE] := by decide
  unfold formatText formatTree
  split
  · simp [ofObject_bytes, memberText, ofString_bytes, ofUInt8_bytes, ofUInt32_bytes, hcodec,
      hchannels, hrate, hdepth, hclose]
  · simp [ofObject_bytes, memberText, ofString_bytes, ofUInt8_bytes, ofUInt32_bytes, hcodec,
      hchannels, hrate, hclose]

theorem Holds.format (h : Holds dst text w) (format : AudioFormat) :
    Holds dst (text ++ (formatTree format).bytes) (writeFormat format w) := by
  have hhead := (((((h.lit "\x7b\"codec\":").string ((codecName format.codec).getD [])).lit
    ",\"channels\":").u64 format.channels.toUInt64).lit ",\"sample_rate\":").u64
    format.sampleRate.toUInt64
  rw [← format_text]
  unfold writeFormat formatText
  by_cases hpcm : format.codec = .pcm ∧ format.bitDepth ≠ 0
  · simp only [if_pos hpcm]
    apply (((hhead.lit ",\"bit_depth\":").u64 format.bitDepth.toUInt64).lit "\x7d").reads
    simp
  · simp only [if_neg hpcm]
    apply (hhead.lit "\x7d").reads
    simp

theorem commaSeparated_snoc (texts : List (List UInt8)) (last : List UInt8) :
    commaSeparated (texts ++ [last]) =
      commaSeparated texts ++ (if texts = [] then [] else [COMMA]) ++ last := by
  induction texts with
  | nil => simp
  | cons text texts ih =>
    cases texts with
    | nil => simp
    | cons text' texts =>
      rw [List.cons_append, List.cons_append, commaSeparated_cons, ← List.cons_append, ih,
        commaSeparated_cons]
      simp

/-- The texts of formats, as they stand in the array. -/
def formatsText (formats : List AudioFormat) : List UInt8 :=
  commaSeparated (formats.map fun format => (formatTree format).bytes)

/-- There is a comma before a format if there is a format before it. -/
theorem formatsText_snoc (formats : List AudioFormat) (format : AudioFormat) :
    formatsText (formats ++ [format]) = formatsText formats ++
      (if formats.length ≠ 0 then [COMMA] else []) ++ (formatTree format).bytes := by
  unfold formatsText
  rw [List.map_append, List.map_singleton, commaSeparated_snoc]
  cases formats <;> simp

/-- The loop over the formats leaves those with a name behind the ones before it. -/
theorem Holds.formatLoop (formats : List AudioFormat) {done : List AudioFormat}
    {acc : Writer × Nat} (h : Holds dst (text ++ formatsText done) acc.1)
    (hcount : acc.2 = done.length) :
    Holds dst (text ++ formatsText (done ++ formats.filter named))
      (formats.foldl formatTurn acc).1 ∧
    (formats.foldl formatTurn acc).2 = (done ++ formats.filter named).length := by
  induction formats generalizing done acc with
  | nil => exact ⟨by simpa using h, by simpa using hcount⟩
  | cons format formats ih =>
    rw [List.foldl_cons, formatTurn]
    by_cases hname : codecName format.codec = none
    · have hnone : ¬named format = true := by simp [named, hname]
      rw [if_pos hname, List.filter_cons_of_neg hnone]
      exact ih h hcount
    · have hsome : named format = true := by
        simpa [named, Option.isSome_iff_ne_none] using hname
      rw [if_neg hname, List.filter_cons_of_pos hsome, List.append_cons]
      apply ih
      · rw [formatsText_snoc, ← List.append_assoc, ← List.append_assoc, ← hcount]
        simp only
        refine Holds.format ?_ format
        split
        · exact h.char COMMA
        · rw [List.append_nil]
          exact h
      · simp [hcount]

theorem Holds.formats (h : Holds dst text w) (hello : ClientHello) :
    Holds dst (text ++ formatsText (advertised hello)) (writeFormats hello w) := by
  have hstart : Holds dst (text ++ formatsText []) w := by simpa [formatsText] using h
  obtain ⟨hloop, hcount⟩ := @Holds.formatLoop dst text hello.formats [] (w, 0) hstart rfl
  unfold writeFormats advertised
  simp only [hcount]
  cases hnamed : hello.formats.filter named with
  | nil =>
    rw [hnamed] at hloop
    simpa [formatsText] using hloop.format ⟨.pcm, hello.sampleRate, hello.channels, hello.bitDepth⟩
  | cons format formats =>
    rw [hnamed] at hloop
    simpa using hloop

/-- A member of `device_info` behind those that are there. -/
theorem Holds.deviceMember {done : List (List UInt8 × Json)} {acc : Writer × Bool}
    (h : Holds dst (text ++ commaSeparated (done.map memberText)) acc.1)
    (hcomma : acc.2 = !done.isEmpty) (key : String) (value : Option (List UInt8)) {literal : String}
    (hliteral : ascii literal = jsonString (ascii key) ++ [COLON])
    (hcommaLiteral : ascii ("," ++ literal) = COMMA :: (jsonString (ascii key) ++ [COLON])) :
    Holds dst (text ++ commaSeparated ((done ++ textMember key value).map memberText))
      (writeDevice literal value acc).1 ∧
    (writeDevice literal value acc).2 = !(done ++ textMember key value).isEmpty := by
  cases value with
  | none =>
    simp only [textMember, writeDevice, Option.map_none, Option.toList_none, List.append_nil]
    exact ⟨h, hcomma⟩
  | some value =>
    refine ⟨?_, by simp [textMember, writeDevice]⟩
    have hmember : textMember key (some value) = [(ascii key, .ofString value)] := rfl
    rw [hmember, List.map_append, List.map_singleton, commaSeparated_snoc]
    simp only [writeDevice]
    apply ((h.lit _).string value).reads
    cases done with
    | nil =>
      simp only [hcomma, List.isEmpty_nil]
      simp [hliteral, memberText, ofString_bytes]
    | cons m done =>
      simp only [hcomma, List.isEmpty_cons]
      simp [hcommaLiteral, memberText, ofString_bytes]

theorem deviceMembers_nil (hello : ClientHello) : deviceMembers hello = [] ↔
    (hello.productName.isSome || hello.manufacturer.isSome || hello.softwareVersion.isSome) =
      false := by
  unfold deviceMembers textMember
  cases hello.productName <;> cases hello.manufacturer <;> cases hello.softwareVersion <;> simp

theorem Holds.deviceInfo (h : Holds dst text w) (hello : ClientHello) :
    Holds dst (text ++ (deviceTree hello).flatMap fun m => COMMA :: memberText m)
      (writeDeviceInfo hello w) := by
  have hnil := deviceMembers_nil hello
  have hopen : ascii ",\"device_info\":\x7b" =
      COMMA :: (jsonString (ascii "device_info") ++ [COLON, LBRACE]) := by
    decide
  have hclose : ascii "\x7d" = [RBRACE] := by decide
  unfold writeDeviceInfo deviceTree
  by_cases hnone : deviceMembers hello = []
  · rw [if_pos hnone, hnil.mp hnone]
    simpa using h
  · have hsome : (hello.productName.isSome || hello.manufacturer.isSome ||
        hello.softwareVersion.isSome) = true := by
      rw [hnil, Bool.not_eq_false] at hnone
      exact hnone
    rw [if_neg hnone, if_pos hsome]
    have hstart : Holds dst (text ++ ascii ",\"device_info\":\x7b" ++
        commaSeparated (([] : List (List UInt8 × Json)).map memberText))
        (wrLit ",\"device_info\":\x7b" w, false).1 := by
      simpa using h.lit ",\"device_info\":\x7b"
    obtain ⟨hproduct, hcomma⟩ := hstart.deviceMember rfl "product_name" hello.productName
      (show ascii "\"product_name\":" = _ by decide) (by decide)
    obtain ⟨hmanufacturer, hcomma⟩ := hproduct.deviceMember hcomma "manufacturer"
      hello.manufacturer (show ascii "\"manufacturer\":" = _ by decide) (by decide)
    obtain ⟨hsoftware, -⟩ := hmanufacturer.deviceMember hcomma "software_version"
      hello.softwareVersion (show ascii "\"software_version\":" = _ by decide) (by decide)
    apply (hsoftware.lit "\x7d").reads
    rw [List.nil_append]
    change text ++ _ ++ commaSeparated ((deviceMembers hello).map memberText) ++ _ = _
    simp [hopen, hclose, memberText, ofObject_bytes]

theorem Holds.commands (h : Holds dst text w) (hello : ClientHello) :
    Holds dst (text ++ commaSeparated ((commandNames hello).map Json.bytes))
      (writeCommands hello w) := by
  have hvolume : ascii "\"volume\"" = jsonString (ascii "volume") := by decide
  have hmute : ascii "\"mute\"" = jsonString (ascii "mute") := by decide
  have hcomma : ascii "," = [COMMA] := by decide
  unfold writeCommands commandNames
  cases hello.supportVolume with
  | false =>
    cases hello.supportMute with
    | false => simpa using h
    | true =>
      apply (h.lit "\"mute\"").reads
      simp [hmute, ofString_bytes]
  | true =>
    cases hello.supportMute with
    | false =>
      apply (h.lit "\"volume\"").reads
      simp [hvolume, ofString_bytes]
    | true =>
      apply (((h.lit "\"volume\"").lit ",").lit "\"mute\"").reads
      simp [hvolume, hmute, hcomma, ofString_bytes]

end Trees

/-! ## The builders -/

/-- A builder that has the memory `dst` to write to: it gives the text if that fits, and else an
error. Either way it stays inside the memory. -/
structure Delivers (dst : List UInt8) (result : Except Rc Nat × List UInt8) (text : List UInt8) :
    Prop where
  size : result.2.length = dst.length
  length : result.1 = if text.length ≤ dst.length then .ok text.length else .error EAF_INVALID
  written : text.length ≤ dst.length → result.2.take text.length = text

theorem delivers_finish {dst text : List UInt8} {w : Writer} (h : Holds dst text w) :
    Delivers dst (finish w) text := by
  refine ⟨h.size, ?_, fun hfits => h.written (h.fits.mpr hfits)⟩
  unfold finish
  by_cases hok : w.ok = true
  · simp only [if_pos hok, if_pos (h.fits.mp hok), h.used hok]
  · have hfull : ¬text.length ≤ dst.length := fun hle => hok (h.fits.mpr hle)
    simp only [if_neg hok, if_neg hfull]

theorem delivers_nothing {text : List UInt8} (htext : text ≠ []) :
    Delivers [] (.error EAF_INVALID, []) text := by
  have hfull : ¬text.length ≤ ([] : List UInt8).length := by
    simpa using htext
  exact ⟨rfl, by rw [if_neg hfull], fun hfits => absurd hfits hfull⟩

theorem bytes_nonempty (v : Json) : v.bytes ≠ [] := by
  obtain ⟨b, tail, hb, -⟩ := bytes_cons v
  rw [hb]
  nofun

theorem commaSeparated_flat (text : List UInt8) (texts : List (List UInt8)) :
    commaSeparated (text :: texts) = text ++ texts.flatMap (COMMA :: ·) := by
  induction texts generalizing text with
  | nil => simp
  | cons text' texts ih => rw [commaSeparated_cons, ih, List.flatMap_cons, List.cons_append]

theorem time_text (clientTransmitted : Int64) :
    ascii "\x7b\"payload\":\x7b\"client_transmitted\":" ++
      signedDecimal clientTransmitted.toInt ++ ascii "\x7d,\"type\":\"client/time\"\x7d" =
    (messageTree (timePayload clientTransmitted) "client/time").bytes := by
  have hopen : ascii "\x7b\"payload\":\x7b\"client_transmitted\":" =
      LBRACE :: (jsonString (ascii "payload") ++ COLON :: LBRACE ::
        (jsonString (ascii "client_transmitted") ++ [COLON])) := by
    decide
  have hclose : ascii "\x7d,\"type\":\"client/time\"\x7d" = RBRACE :: COMMA ::
      (jsonString (ascii "type") ++ COLON :: (jsonString (ascii "client/time") ++ [RBRACE])) := by
    decide
  simp [hopen, hclose, messageTree, timePayload, ofObject_bytes, memberText, ofInt64_bytes,
    ofString_bytes]

theorem time_delivered (dst : List UInt8) (clientTransmitted : Int64) :
    Delivers dst (buildClientTime dst clientTransmitted)
      (messageTree (timePayload clientTransmitted) "client/time").bytes := by
  unfold buildClientTime
  split
  next hempty =>
    rw [hempty]
    exact delivers_nothing (bytes_nonempty _)
  next =>
    refine delivers_finish (Holds.reads ((((holds_start dst).lit _).i64 _).lit _) ?_)
    rw [List.nil_append]
    exact time_text clientTransmitted

theorem ofInt32_bytes (n : Int32) : (Json.ofInt n.toInt).bytes = signedDecimal n.toInt := by
  rw [← Int32.toInt_toInt64]
  exact ofInt64_bytes n.toInt64

theorem state_text (state : PlayerState) :
    ascii "\x7b\"payload\":\x7b\"player\":\x7b\"state\":\"synchronized\",\"volume\":" ++
      signedDecimal state.volume.toInt ++
      ascii ",\"muted\":" ++ ascii (if state.muted then "true" else "false") ++
      ascii ",\"static_delay_ms\":" ++ signedDecimal state.staticDelayMs.toInt ++
      ascii ",\"required_lead_time_ms\":" ++ signedDecimal state.requiredLeadTimeMs.toInt ++
      ascii ",\"min_buffer_ms\":" ++ signedDecimal state.minBufferMs.toInt ++
      ascii "\x7d\x7d,\"type\":\"client/state\"\x7d" =
    (messageTree (statePayload state) "client/state").bytes := by
  have hopen : ascii "\x7b\"payload\":\x7b\"player\":\x7b\"state\":\"synchronized\",\"volume\":" =
      LBRACE :: (jsonString (ascii "payload") ++ COLON :: LBRACE ::
        (jsonString (ascii "player") ++ COLON :: LBRACE :: (jsonString (ascii "state") ++ COLON ::
          (jsonString (ascii "synchronized") ++ COMMA ::
            (jsonString (ascii "volume") ++ [COLON]))))) := by
    decide
  have hmuted : ascii ",\"muted\":" = COMMA :: (jsonString (ascii "muted") ++ [COLON]) := by
    decide
  have hdelay : ascii ",\"static_delay_ms\":" =
      COMMA :: (jsonString (ascii "static_delay_ms") ++ [COLON]) := by
    decide
  have hlead : ascii ",\"required_lead_time_ms\":" =
      COMMA :: (jsonString (ascii "required_lead_time_ms") ++ [COLON]) := by
    decide
  have hbuffer : ascii ",\"min_buffer_ms\":" =
      COMMA :: (jsonString (ascii "min_buffer_ms") ++ [COLON]) := by
    decide
  have hclose : ascii "\x7d\x7d,\"type\":\"client/state\"\x7d" = RBRACE :: RBRACE :: COMMA ::
      (jsonString (ascii "type") ++ COLON :: (jsonString (ascii "client/state") ++ [RBRACE])) := by
    decide
  have hbool : ascii (if state.muted then "true" else "false") = (Json.bool state.muted).bytes := by
    rw [Json.bytes]
    split <;> rfl
  simp [hopen, hmuted, hdelay, hlead, hbuffer, hclose, hbool, messageTree, statePayload, playerTree,
    ofObject_bytes, memberText, ofInt32_bytes, ofString_bytes]

theorem state_delivered (dst : List UInt8) (state : PlayerState) :
    Delivers dst (buildClientState dst state)
      (messageTree (statePayload state) "client/state").bytes := by
  unfold buildClientState
  split
  next hempty =>
    rw [hempty]
    exact delivers_nothing (bytes_nonempty _)
  next =>
    refine delivers_finish (Holds.reads ((((((((((((holds_start dst).lit _).i64 _).lit _).lit _).lit
      _).i64 _).lit _).i64 _).lit _).i64 _).lit _) ?_)
    simp only [Int32.toInt_toInt64, List.nil_append]
    exact state_text state

theorem hello_text (hello : ClientHello) (clientId name : List UInt8) :
    ascii "\x7b\"payload\":\x7b\"client_id\":" ++ jsonString clientId ++
      ascii ",\"name\":" ++ jsonString name ++
      ascii ",\"version\":1,\"supported_roles\":[\"player@v1\"]" ++
      ((deviceTree hello).flatMap fun m => COMMA :: memberText m) ++
      ascii ",\"player@v1_support\":\x7b\"supported_formats\":[" ++
      formatsText (advertised hello) ++
      ascii "],\"buffer_capacity\":" ++ decimal hello.bufferCapacity.toNat ++
      ascii ",\"supported_commands\":[" ++
      commaSeparated ((commandNames hello).map Json.bytes) ++ ascii "]\x7d" ++
      ascii "\x7d,\"type\":\"client/hello\"\x7d" =
    (messageTree (helloPayload hello clientId name) "client/hello").bytes := by
  have hopen : ascii "\x7b\"payload\":\x7b\"client_id\":" =
      LBRACE :: (jsonString (ascii "payload") ++ COLON :: LBRACE ::
        (jsonString (ascii "client_id") ++ [COLON])) := by
    decide
  have hnamed : ascii ",\"name\":" = COMMA :: (jsonString (ascii "name") ++ [COLON]) := by
    decide
  have hroles : ascii ",\"version\":1,\"supported_roles\":[\"player@v1\"]" =
      COMMA :: (jsonString (ascii "version") ++ COLON :: (signedDecimal 1 ++ COMMA ::
        (jsonString (ascii "supported_roles") ++ COLON :: LBRACKET ::
          (jsonString (ascii "player@v1") ++ [RBRACKET])))) := by
    decide
  have hsupport : ascii ",\"player@v1_support\":\x7b\"supported_formats\":[" =
      COMMA :: (jsonString (ascii "player@v1_support") ++ COLON :: LBRACE ::
        (jsonString (ascii "supported_formats") ++ [COLON, LBRACKET])) := by
    decide
  have hcapacity : ascii "],\"buffer_capacity\":" =
      RBRACKET :: COMMA :: (jsonString (ascii "buffer_capacity") ++ [COLON]) := by
    decide
  have hcommands : ascii ",\"supported_commands\":[" =
      COMMA :: (jsonString (ascii "supported_commands") ++ [COLON, LBRACKET]) := by
    decide
  have hend : ascii "]\x7d" = [RBRACKET, RBRACE] := by decide
  have hclose : ascii "\x7d,\"type\":\"client/hello\"\x7d" = RBRACE :: COMMA ::
      (jsonString (ascii "type") ++ COLON :: (jsonString (ascii "client/hello") ++ [RBRACE])) := by
    decide
  have hone : (Json.ofInt 1).bytes = signedDecimal 1 := ofInt_bytes (by decide)
  simp [-commaSeparated_cons, hopen, hnamed, hroles, hsupport, hcapacity, hcommands, hend, hclose,
    hone, messageTree, helloPayload, supportTree, ofObject_bytes, ofArray_bytes, memberText,
    ofUInt32_bytes, ofString_bytes, commaSeparated_flat, formatsText, List.flatMap_map, Function.comp_def]

theorem hello_delivered (dst : List UInt8) (hello : ClientHello) {clientId name : List UInt8}
    (hid : hello.clientId = some clientId) (hname : hello.name = some name) :
    Delivers dst (buildClientHello dst hello)
      (messageTree (helloPayload hello clientId name) "client/hello").bytes := by
  unfold buildClientHello
  simp only [hid, hname]
  split
  next hempty =>
    rw [hempty]
    exact delivers_nothing (bytes_nonempty _)
  next =>
    refine delivers_finish (Holds.reads (((((((((((((((holds_start dst).lit _).string _).lit _).string
      _).lit _).deviceInfo _).lit _).formats _).lit _).u64 _).lit _).commands _).lit _).lit _) ?_)
    rw [List.nil_append, UInt32.toNat_toUInt64]
    exact hello_text hello clientId name

/-! ## The builders as the client model has them -/

/-- The hello that the client fills in from its configuration. -/
def helloOf (config : Config) : ClientHello where
  clientId := config.clientId
  name := config.name
  productName := config.productName
  manufacturer := config.manufacturer
  softwareVersion := config.softwareVersion
  formats := config.formats
  sampleRate := config.sampleRate
  channels := config.channels
  bitDepth := config.bitDepth
  bufferCapacity := config.bufferCapacity
  supportVolume := config.supportVolume
  supportMute := config.supportMute

/-- What is at the destination, if the builder returns a length. -/
def delivered (result : Except Rc Nat × List UInt8) : Except Rc (List UInt8) :=
  result.1.map fun n => result.2.take n

theorem Delivers.delivered {dst text : List UInt8} {result : Except Rc Nat × List UInt8}
    (h : Delivers dst result text) : delivered result = Sendspin.finish dst.length text := by
  unfold Builder.delivered Sendspin.finish
  rw [h.length]
  split
  next hfits => exact congrArg Except.ok (h.written hfits)
  next => rfl

theorem buildClientTime_agrees (dst : List UInt8) (clientTransmitted : Int64) :
    delivered (buildClientTime dst clientTransmitted) =
      Sendspin.buildClientTime dst.length clientTransmitted.toInt := by
  rw [(time_delivered dst clientTransmitted).delivered, ← time_text]
  rfl

theorem buildClientState_agrees (dst : List UInt8) (state : PlayerState) :
    delivered (buildClientState dst state) = Sendspin.buildClientState dst.length state := by
  rw [(state_delivered dst state).delivered, ← state_text]
  unfold Sendspin.buildClientState
  cases state.muted <;> rfl

theorem formats_agree (config : Config) :
    commaSeparated (supportedFormats config) = formatsText (advertised (helloOf config)) := by
  have hnamed : (config.formats.filterMap fun f =>
      (codecName f.codec).map fun name => formatText name f) =
        (config.formats.filter named).map fun f => (formatTree f).bytes := by
    rw [← List.filterMap_eq_map, List.filterMap_filter]
    congr 1
    funext f
    cases hname : codecName f.codec with
    | none => simp [named, hname]
    | some name => simp [named, hname, ← format_text]
  unfold supportedFormats advertised formatsText helloOf
  rw [hnamed]
  cases config.formats.filter named with
  | nil =>
    simp only [List.map_nil, List.map_cons, ← format_text]
    rfl
  | cons format formats => rfl

theorem deviceInfo_members (config : Config) :
    deviceInfo config = (deviceMembers (helloOf config)).map memberText := by
  have hproduct : ascii "\"product_name\":" = jsonString (ascii "product_name") ++ [COLON] := by
    decide
  have hmanufacturer : ascii "\"manufacturer\":" = jsonString (ascii "manufacturer") ++ [COLON] := by
    decide
  have hsoftware : ascii "\"software_version\":" =
      jsonString (ascii "software_version") ++ [COLON] := by
    decide
  unfold deviceInfo deviceMembers textMember helloOf
  cases config.productName <;> cases config.manufacturer <;> cases config.softwareVersion <;>
    simp [hproduct, hmanufacturer, hsoftware, memberText, ofString_bytes]

theorem device_agrees (config : Config) :
    (if deviceInfo config = [] then []
      else ascii ",\"device_info\":\x7b" ++ commaSeparated (deviceInfo config) ++ ascii "\x7d") =
    (deviceTree (helloOf config)).flatMap fun m => COMMA :: memberText m := by
  have hopen : ascii ",\"device_info\":\x7b" =
      COMMA :: (jsonString (ascii "device_info") ++ [COLON, LBRACE]) := by
    decide
  have hclose : ascii "\x7d" = [RBRACE] := by decide
  unfold deviceTree
  rw [deviceInfo_members]
  simp only [List.map_eq_nil_iff]
  split
  · rfl
  · simp [hopen, hclose, memberText, ofObject_bytes]

theorem commands_agree (config : Config) :
    commaSeparated ((if config.supportVolume then [ascii "\"volume\""] else []) ++
      (if config.supportMute then [ascii "\"mute\""] else [])) =
    commaSeparated ((commandNames (helloOf config)).map Json.bytes) := by
  have hvolume : ascii "\"volume\"" = jsonString (ascii "volume") := by decide
  have hmute : ascii "\"mute\"" = jsonString (ascii "mute") := by decide
  unfold commandNames helloOf
  cases config.supportVolume <;> cases config.supportMute <;> simp [hvolume, hmute, ofString_bytes]

theorem buildClientHello_agrees (dst : List UInt8) (config : Config) :
    delivered (buildClientHello dst (helloOf config)) =
      Sendspin.buildClientHello dst.length config := by
  unfold Sendspin.buildClientHello
  cases hid : config.clientId with
  | none =>
    simp only [buildClientHello, helloOf, hid]
    rfl
  | some clientId =>
    cases hname : config.name with
    | none =>
      simp only [buildClientHello, helloOf, hid, hname]
      rfl
    | some name =>
      rw [(hello_delivered dst (helloOf config) hid hname).delivered, ← hello_text]
      simp only [device_agrees, formats_agree, commands_agree]
      rfl

end EmbeddedAudio.Builder
