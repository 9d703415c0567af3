-- Which stream is open after a log, what stands in the message buffer then, and
-- what a log says about the audio callback.
import EmbeddedAudio.JsonView
import EmbeddedAudio.SendspinLog

namespace EmbeddedAudio.Sendspin

open Storage Ws

variable {φ : Type}

/-! ## The open stream -/

/-- A stream/start that was accepted, its text, and the text and binary messages that have come
after it on the connection. -/
structure OpenStream where
  start : StreamStart
  text : List UInt8
  later : List (List UInt8)
  deriving DecidableEq

def OpenStream.add (payload : List UInt8) (o : OpenStream) : OpenStream :=
  { o with later := o.later ++ [payload] }

/-- A text message that was taken. -/
def afterText (config : Config) (text : List UInt8) (stream : Option OpenStream) :
    Option OpenStream :=
  match jsonGet ⟨0, text⟩ (ascii "type") with
  | .error _ => stream.map (.add text)
  | .ok type =>
    if jsonStringEquals type "stream/start" then
      match parseStreamStart ⟨0, text⟩ with
      | .error _ => stream.map (.add text)
      | .ok start =>
        if clientSupportsCodec config start.codec then some ⟨start, text, []⟩
        else stream.map (.add text)
    else if jsonStringEquals type "stream/end" then
      match parseStreamEnd ⟨0, text⟩ with
      | .error _ => stream.map (.add text)
      | .ok streamEnd => if streamEnd.endPlayer then none else stream.map (.add text)
    else stream.map (.add text)

/-- A message that is refused ends the connection, as a close frame does. -/
def afterEvent (config : Config) (stream : Option OpenStream) : Event → Option OpenStream
  | .connected => none
  | .app .disconnected => none
  | .message opcode payload rc =>
    if rc ≠ EAF_OK ∨ opcode = EAF_SENDPIN_WS_CLOSE then none
    else if isControl opcode then stream
    else if opcode = EAF_SENDPIN_WS_TEXT then afterText config payload stream
    else stream.map (.add payload)
  | _ => stream

/-- The stream that is open after a log. -/
def streamAfter (config : Config) (log : List Event) : Option OpenStream :=
  log.foldl (afterEvent config) none

/-- A text message that was refused. A stream/start that is refused has still replaced the view that
the client holds. -/
def heldRefused (text : List UInt8) (held : Option OpenStream) : Option OpenStream :=
  match jsonGet ⟨0, text⟩ (ascii "type") with
  | .error _ => held.map (.add text)
  | .ok type => if jsonStringEquals type "stream/start" then none else held.map (.add text)

/-- Nothing but a stream/start replaces that view: a stream/end, a close and a new connection leave
it where it is. -/
def afterHeld (config : Config) (held : Option OpenStream) : Event → Option OpenStream
  | .message opcode payload rc =>
    if isControl opcode then held
    else if opcode = EAF_SENDPIN_WS_TEXT then
      if rc = EAF_OK then (afterText config payload held).or (held.map (.add payload))
      else heldRefused payload held
    else held.map (.add payload)
  | _ => held

/-- The accepted stream/start whose view of the codec header the client holds after a log, open or
not, and the text and binary messages that have come after it, on whatever connection. -/
def heldAfter (config : Config) (log : List Event) : Option OpenStream :=
  log.foldl (afterHeld config) none

/-- A binary message that is an audio chunk. -/
def isAudio (payload : List UInt8) : Prop := 9 ≤ payload.length ∧ payload.getD 0 0 = 0x04

/-- The start of the message buffer once the messages after the stream/start lie over it. -/
def OpenStream.shown (o : OpenStream) : List UInt8 :=
  o.later.foldl (fun s payload => overwrite s 0 payload) o.text

/-- A format without the bytes of its codec header: these are read through the view. -/
def StreamStart.described (s : StreamStart) : StreamStart × Nat :=
  ({ s with codecHeader := ⟨s.codecHeader.start, []⟩ }, s.codecHeader.bytes.length)

theorem shown_add (o : OpenStream) (payload : List UInt8) :
    (o.add payload).shown = overwrite o.shown 0 payload := by
  simp [OpenStream.shown, OpenStream.add, List.foldl_append]

theorem afterEvent_message (config : Config) (stream : Option OpenStream) (opcode : UInt8)
    (payload : List UInt8) (rc : Rc) :
    afterEvent config stream (.message opcode payload rc) =
      if rc ≠ EAF_OK ∨ opcode = EAF_SENDPIN_WS_CLOSE then none
      else if isControl opcode then stream
      else if opcode = EAF_SENDPIN_WS_TEXT then afterText config payload stream
      else stream.map (.add payload) := rfl

theorem streamAfter_append (config : Config) (log more : List Event) :
    streamAfter config (log ++ more) = more.foldl (afterEvent config) (streamAfter config log) :=
  List.foldl_append ..

theorem streamAfter_snoc (config : Config) (log : List Event) (e : Event) :
    streamAfter config (log ++ [e]) = afterEvent config (streamAfter config log) e := by
  rw [streamAfter_append]
  rfl

theorem streamAfter_speech {config : Config} {log more : List Event} (h : ∀ e ∈ more, e.isSpeech) :
    streamAfter config (log ++ more) = streamAfter config log := by
  rw [streamAfter_append]
  induction more with
  | nil => rfl
  | cons e more ih =>
    have he := h e List.mem_cons_self
    have hsame : afterEvent config (streamAfter config log) e = streamAfter config log := by
      cases e with
      | sent data => rfl
      | queued opcode payload mask => rfl
      | app e =>
        cases e with
        | disconnected => exact absurd rfl he
        | _ => rfl
      | _ => exact he.elim
    rw [List.foldl_cons, hsame]
    exact ih (fun x hx => h x (List.mem_cons_of_mem _ hx))

theorem afterHeld_message (config : Config) (held : Option OpenStream) (opcode : UInt8)
    (payload : List UInt8) (rc : Rc) :
    afterHeld config held (.message opcode payload rc) =
      if isControl opcode then held
      else if opcode = EAF_SENDPIN_WS_TEXT then
        if rc = EAF_OK then (afterText config payload held).or (held.map (.add payload))
        else heldRefused payload held
      else held.map (.add payload) := rfl

theorem heldAfter_snoc (config : Config) (log : List Event) (e : Event) :
    heldAfter config (log ++ [e]) = afterHeld config (heldAfter config log) e :=
  List.foldl_concat ..

def Event.isMessage : Event → Prop
  | .message _ _ _ => True
  | _ => False

/-- Where no message comes, the view stays. -/
theorem heldAfter_still {config : Config} {log more : List Event} (h : ∀ e ∈ more, ¬ e.isMessage) :
    heldAfter config (log ++ more) = heldAfter config log := by
  induction more using List.reverseRecOn with
  | nil => rw [List.append_nil]
  | append_singleton more e ih =>
    rw [← List.append_assoc, heldAfter_snoc, ← ih fun x hx => h x (List.mem_append_left _ hx)]
    have he := h e (by simp)
    cases e with
    | message opcode payload rc => exact absurd trivial he
    | _ => rfl

/-! ## The codec header in the buffer -/

theorem le_length_overlay (s payload : List UInt8) : s.length ≤ (overwrite s 0 payload).length := by
  simp only [overwrite, List.length_append, List.length_take, List.length_drop]
  omega

theorem le_length_shown (o : OpenStream) : o.text.length ≤ o.shown.length := by
  unfold OpenStream.shown
  generalize o.text = s
  induction o.later generalizing s with
  | nil => exact Nat.le_refl _
  | cons payload later ih => exact (le_length_overlay s payload).trans (ih _)

theorem slice_prefix {s buf : List UInt8} (h : s <+: buf) (start n : Nat)
    (hle : start + n ≤ s.length) : slice buf start n = slice s start n := by
  obtain ⟨rest, rfl⟩ := h
  unfold slice
  rw [List.drop_append_of_le_length (by omega), List.take_append_of_le_length]
  rw [List.length_drop]
  omega

/-- A view into a text stands in every buffer that goes as far. -/
theorem slice_within {text s buf : List UInt8} {view : Span} (h : Within text view)
    (htext : text.length ≤ s.length) (hs : s <+: buf) :
    slice buf view.start view.bytes.length = slice s view.start view.bytes.length ∧
      (slice buf view.start view.bytes.length).length = view.bytes.length := by
  rcases Nat.eq_zero_or_pos view.bytes.length with hzero | hpos
  · rw [hzero]
    simp [slice]
  · have hle := List.IsPrefix.length_le h
    rw [List.length_drop] at hle
    have heq := slice_prefix hs view.start view.bytes.length (by omega)
    refine ⟨heq, ?_⟩
    rw [heq]
    exact length_slice (by omega)

theorem isAudio_take {buf : List UInt8} {length : Nat} (hle : length ≤ buf.length) :
    isAudio (buf.take length) ↔ ¬ (length < 9 ∨ buf.getD 0 0 ≠ 0x04) := by
  have hlen : (buf.take length).length = length := by
    rw [List.length_take]
    exact Nat.min_eq_left hle
  unfold isAudio
  rw [hlen, not_or, not_not, Nat.not_lt]
  refine and_congr_right fun hlong => ?_
  rw [List.getD_eq_getElem?_getD, List.getD_eq_getElem?_getD, List.getElem?_take_of_lt (by omega)]

/-! ## What the log says about audio -/

def Event.isAudioCall : Event → Prop
  | .app (.audio _ _ _) => True
  | _ => False

def Event.isAudioMessage : Event → Prop
  | .message opcode payload _ => opcode = EAF_SENDPIN_WS_BINARY ∧ isAudio payload
  | _ => False

/-- The audio callback is given the chunk, and the format of the open stream. The codec header
is what stands in its place under the messages that have come since. -/
def Played (stream : Option OpenStream) (payload : List UInt8) (format : StreamStart) : Prop :=
  ∀ o, stream = some o →
    parseStreamStart ⟨0, o.text⟩ = .ok o.start ∧ format.described = o.start.described ∧
    format.codecHeader.bytes = slice (overwrite o.shown 0 payload) o.start.codecHeader.start
      o.start.codecHeader.bytes.length

/-- The audio callback is made for every audio chunk, if it is set, and for nothing else. -/
structure AudioSpec (config : Config) (set : Bool) (log : List Event) : Prop where
  heard : ∀ before format timestampUs pcm after,
    log = before ++ .app (.audio format timestampUs pcm) :: after →
    set = true ∧ ∃ payload after',
      after = .message EAF_SENDPIN_WS_BINARY payload EAF_OK :: after' ∧ isAudio payload ∧
      Played (streamAfter config before) payload format
  made : set = true → ∀ before payload rc after,
    log = before ++ .message EAF_SENDPIN_WS_BINARY payload rc :: after → isAudio payload →
    ∃ before' format timestampUs pcm, before = before' ++ [.app (.audio format timestampUs pcm)]

/-- Where a log can be split, it can be split in the part before or in the part behind. -/
theorem split_append {log new before after : List Event} {e : Event}
    (h : log ++ new = before ++ e :: after) :
    (∃ rest, log = before ++ e :: rest ∧ after = rest ++ new) ∨
      ∃ more, before = log ++ more ∧ new = more ++ e :: after := by
  rcases List.append_eq_append_iff.mp h with ⟨more, hbefore, hnew⟩ | ⟨rest, hlog, hafter⟩
  · exact .inr ⟨more, hbefore, hnew⟩
  · cases rest with
    | nil => exact .inr ⟨[], by simpa using hlog.symm, by simpa using hafter.symm⟩
    | cons x rest =>
      obtain ⟨rfl, hrest⟩ := List.cons.inj hafter
      exact .inl ⟨rest, hlog, hrest⟩

theorem audioSpec_nil (config : Config) (set : Bool) : AudioSpec config set [] := by
  refine ⟨?_, ?_⟩
  · intro before format timestampUs pcm after h
    exact absurd h.symm (List.append_ne_nil_of_right_ne_nil _ (List.cons_ne_nil _ _))
  · intro _ before payload rc after h
    exact absurd h.symm (List.append_ne_nil_of_right_ne_nil _ (List.cons_ne_nil _ _))

/-- Events that are not about audio. -/
theorem audioSpec_append {config : Config} {set : Bool} {log more : List Event}
    (h : AudioSpec config set log) (hcall : ∀ e ∈ more, ¬ e.isAudioCall)
    (hmessage : set = true → ∀ e ∈ more, ¬ e.isAudioMessage) :
    AudioSpec config set (log ++ more) := by
  refine ⟨?_, ?_⟩
  · intro before format timestampUs pcm after hsplit
    rcases split_append hsplit with ⟨rest, hlog, rfl⟩ | ⟨pre, -, hmore⟩
    · obtain ⟨hset, payload, after', rfl, haudio, hplayed⟩ := h.heard _ _ _ _ _ hlog
      exact ⟨hset, payload, after' ++ more, rfl, haudio, hplayed⟩
    · exact absurd trivial (hcall (.app (.audio format timestampUs pcm)) (by simp [hmore]))
  · intro hset before payload rc after hsplit haudio
    rcases split_append hsplit with ⟨rest, hlog, -⟩ | ⟨pre, -, hmore⟩
    · exact h.made hset _ _ _ _ hlog haudio
    · exact absurd ⟨rfl, haudio⟩ (hmessage hset (.message _ payload rc) (by simp [hmore]))

/-- The callback, and the chunk that it was made for. -/
theorem audioSpec_audio {config : Config} {set : Bool} {log : List Event}
    (h : AudioSpec config set log) (hset : set = true) {payload : List UInt8}
    (haudio : isAudio payload) {format : StreamStart} (timestampUs : Int) (pcm : List UInt8)
    (hplayed : Played (streamAfter config log) payload format) :
    AudioSpec config set (log ++ [.app (.audio format timestampUs pcm),
      .message EAF_SENDPIN_WS_BINARY payload EAF_OK]) := by
  refine ⟨?_, ?_⟩
  · intro before format' timestampUs' pcm' after hsplit
    rcases split_append hsplit with ⟨rest, hlog, rfl⟩ | ⟨pre, rfl, hmore⟩
    · obtain ⟨-, payload', after', rfl, haudio', hplayed'⟩ := h.heard _ _ _ _ _ hlog
      exact ⟨hset, payload', _, rfl, haudio', hplayed'⟩
    · cases pre with
      | nil =>
        obtain ⟨hcall, rfl⟩ := List.cons.inj hmore
        cases hcall
        rw [List.append_nil]
        exact ⟨hset, payload, [], rfl, haudio, hplayed⟩
      | cons e pre =>
        obtain ⟨-, hmore⟩ := List.cons.inj hmore
        cases pre with
        | nil => cases (List.cons.inj hmore).1
        | cons e pre =>
          exact absurd (List.cons.inj hmore).2.symm
            (List.append_ne_nil_of_right_ne_nil _ (List.cons_ne_nil _ _))
  · intro _ before payload' rc after hsplit haudio'
    rcases split_append hsplit with ⟨rest, hlog, -⟩ | ⟨pre, rfl, hmore⟩
    · exact h.made hset _ _ _ _ hlog haudio'
    · cases pre with
      | nil => cases (List.cons.inj hmore).1
      | cons e pre =>
        obtain ⟨rfl, hrest⟩ := List.cons.inj hmore
        cases pre with
        | nil => exact ⟨log, format, timestampUs, pcm, rfl⟩
        | cons e pre =>
          exact absurd (List.cons.inj hrest).2.symm
            (List.append_ne_nil_of_right_ne_nil _ (List.cons_ne_nil _ _))

/-! ## What a text message does to the stream -/

theorem jsonStringEquals_inj {v : JsonValue} {a b : String} (ha : jsonStringEquals v a = true)
    (hb : jsonStringEquals v b = true) : ascii a = ascii b := by
  simp only [jsonStringEquals, Bool.and_eq_true, beq_iff_eq] at ha hb
  exact ha.2.symm.trans hb.2

@[simp] theorem callApp_stream (set : Bool) (e : AppEvent) (c : Client φ) :
    (callApp set e c).stream = c.stream := by
  unfold callApp
  split
  · rfl
  · rfl

theorem onServerHello_stream (env : Env φ) (json : Span) (c : Client φ) :
    (onServerHello env json c).2.stream = c.stream := by
  unfold onServerHello
  split
  · rfl
  · rename_i hello _
    split
    · have hcall := callApp_stream c.callbacks.ready (.ready hello) c
      generalize callApp c.callbacks.ready (.ready hello) c = c1 at hcall ⊢
      simp only
      split
      · exact hcall
      · rename_i text _
        have hqueue := (sends_queueJson text c1).stream.trans hcall
        generalize queueJson text c1 = r at hqueue ⊢
        split
        · exact hqueue
        · exact (sends_sendTime env { r.2 with handshaken := true }).stream.trans hqueue
    · rfl

/-- The message is a stream/start. -/
def startsStream (text : List UInt8) : Prop :=
  ∃ type, jsonGet ⟨0, text⟩ (ascii "type") = .ok type ∧ jsonStringEquals type "stream/start" = true

/-- Any other message leaves the description of the stream alone. -/
theorem dispatchText_stream (env : Env φ) {text : List UInt8} (h : ¬ startsStream text)
    (c : Client φ) : (dispatchText env ⟨0, text⟩ c).2.stream = c.stream := by
  unfold dispatchText
  rcases htype : jsonGet ⟨0, text⟩ (ascii "type") with rc | type
  · rfl
  · simp only
    split_ifs with hhello htime hstart hclear hend hgroup hcommand
    · exact onServerHello_stream env _ c
    · unfold onServerTime monotonicTime
      split
      · rfl
      · rfl
    · exact absurd ⟨type, htype, hstart⟩ h
    · exact callApp_stream _ _ c
    · unfold onStreamEnd
      split
      · rfl
      · exact callApp_stream _ _ _
    · unfold onGroupUpdate
      split
      · rfl
      · exact callApp_stream _ _ c
    · unfold onServerCommand
      split
      · rfl
      · simp only [callApp_stream]
        split
        · rfl
        · rfl
    · rfl

/-- A stream/start that is taken was accepted. -/
theorem dispatchText_start (env : Env φ) {text : List UInt8} (h : startsStream text)
    {c : Client φ} (hrc : (dispatchText env ⟨0, text⟩ c).1 = EAF_OK) :
    ∃ start, parseStreamStart ⟨0, text⟩ = .ok start ∧
      clientSupportsCodec c.config start.codec = true ∧
      (dispatchText env ⟨0, text⟩ c).2.stream = start := by
  obtain ⟨type, htype, hstart⟩ := h
  have hhello : ¬ jsonStringEquals type "server/hello" = true := by
    intro hhello
    exact absurd (jsonStringEquals_inj hhello hstart) (by decide)
  have htime : ¬ jsonStringEquals type "server/time" = true := by
    intro htime
    exact absurd (jsonStringEquals_inj htime hstart) (by decide)
  have heq : dispatchText env ⟨0, text⟩ c = onStreamStart ⟨0, text⟩ c := by
    unfold dispatchText
    simp only [htype]
    rw [if_neg hhello, if_neg htime, if_pos hstart]
  rw [heq] at hrc ⊢
  unfold onStreamStart at hrc ⊢
  rcases hparse : parseStreamStart ⟨0, text⟩ with rc | start
  · rw [hparse] at hrc
    cases hrc
  · simp only [hparse] at hrc ⊢
    split at hrc
    · rename_i hcodec
      rw [if_pos hcodec]
      exact ⟨start, rfl, hcodec, callApp_stream _ _ _⟩
    · cases hrc

/-- The stream that is open after a text message: a new one, or the one before. -/
theorem afterText_some {config : Config} {text : List UInt8} {stream : Option OpenStream}
    {o : OpenStream} (h : afterText config text stream = some o) :
    (startsStream text ∧ ∃ start, o = ⟨start, text, []⟩) ∨
      ∃ o', stream = some o' ∧ o = o'.add text := by
  have hmap : stream.map (.add text) = some o → ∃ o', stream = some o' ∧ o = o'.add text := by
    intro hm
    obtain ⟨o', hstream, rfl⟩ := Option.map_eq_some_iff.mp hm
    exact ⟨o', hstream, rfl⟩
  unfold afterText at h
  split at h
  · exact .inr (hmap h)
  · rename_i type htype
    split_ifs at h with hstart hend
    · split at h
      · exact .inr (hmap h)
      · split at h
        · cases h
          exact .inl ⟨⟨type, htype, hstart⟩, _, rfl⟩
        · exact .inr (hmap h)
    · split at h
      · exact .inr (hmap h)
      · split at h
        · cases h
        · exact .inr (hmap h)
    · exact .inr (hmap h)

/-- A refused message that leaves the view is no stream/start. -/
theorem heldRefused_some {text : List UInt8} {held : Option OpenStream} {o : OpenStream}
    (h : heldRefused text held = some o) : ¬ startsStream text ∧ held.map (.add text) = some o := by
  unfold heldRefused at h
  split at h
  · rename_i hnone
    refine ⟨?_, h⟩
    rintro ⟨type, htype, -⟩
    rw [hnone] at htype
    cases htype
  · rename_i type htype
    split at h
    · cases h
    · rename_i hother
      refine ⟨?_, h⟩
      rintro ⟨type', htype', hstart⟩
      rw [htype] at htype'
      cases htype'
      exact hother hstart

/-- What opens a stream where there was none opens it in place of any other. -/
theorem afterText_opens {config : Config} {text : List UInt8} {o : OpenStream}
    (h : afterText config text none = some o) (stream : Option OpenStream) :
    afterText config text stream = some o := by
  unfold afterText at h ⊢
  split at h
  · cases h
  · split_ifs at h with hstart hend
    · rw [if_pos hstart]
      split at h
      · cases h
      · split_ifs at h with hcodec
        · rw [if_pos hcodec, h]
        · cases h
    · split at h
      · cases h
      · split_ifs at h
        cases h
    · cases h

/-- The view that the client holds while a stream is open is that of the stream. -/
theorem held_of_open {config : Config} {log : List Event} {o : OpenStream}
    (h : streamAfter config log = some o) : heldAfter config log = some o := by
  induction log using List.reverseRecOn generalizing o with
  | nil => cases h
  | append_singleton log e ih =>
    rw [streamAfter_snoc] at h
    rw [heldAfter_snoc]
    cases e with
    | connected => cases h
    | message opcode payload rc =>
      rw [afterEvent_message] at h
      rw [afterHeld_message]
      split_ifs at h with hclosed hcontrol htext
      · rw [if_pos hcontrol]
        exact ih h
      · rw [not_or, not_not] at hclosed
        rw [if_neg hcontrol, if_pos htext, if_pos hclosed.1]
        rcases hopen : streamAfter config log with _ | o'
        · rw [hopen] at h
          rw [afterText_opens h]
          rfl
        · rw [ih hopen, ← hopen, h]
          rfl
      · obtain ⟨o', ho', rfl⟩ := Option.map_eq_some_iff.mp h
        rw [if_neg hcontrol, if_neg htext, ih ho']
        rfl
    | app e =>
      cases e with
      | disconnected => cases h
      | _ => exact ih h
    | _ => exact ih h

/-- An accepted stream/start is the stream that is open. -/
theorem afterText_start {config : Config} {text : List UInt8} (h : startsStream text)
    {start : StreamStart} (hparse : parseStreamStart ⟨0, text⟩ = .ok start)
    (hcodec : clientSupportsCodec config start.codec = true) (stream : Option OpenStream) :
    afterText config text stream = some ⟨start, text, []⟩ := by
  obtain ⟨type, htype, hstart⟩ := h
  unfold afterText
  simp only [htype, hparse]
  rw [if_pos hstart, if_pos hcodec]

end EmbeddedAudio.Sendspin
