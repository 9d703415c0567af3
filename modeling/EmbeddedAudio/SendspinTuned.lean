-- The client describes the stream that is open: each message keeps that, and
-- lies in the message buffer over the ones before it.
import EmbeddedAudio.SendspinStream
import EmbeddedAudio.WsShown

namespace EmbeddedAudio.Sendspin

open Storage Ws

variable {φ : Type}

/-! ## The invariant -/

/-- The client describes the stream that it has last accepted, open or not. -/
structure Streaming (config : Config) (callbacks : Callbacks) (c : Client φ) : Prop where
  formats : c.config.formats = config.formats
  callbacks : c.callbacks = callbacks
  held : ∀ o, heldAfter config c.log = some o →
    c.stream = o.start ∧ parseStreamStart ⟨0, o.text⟩ = .ok o.start
  spec : AudioSpec config c.callbacks.audio c.log

/-- What the message buffer shows of the open stream and the messages since. -/
def shownOf (config : Config) (c : Client φ) : Option (List UInt8) :=
  (streamAfter config c.log).map OpenStream.shown

section Messages

variable {env : Env φ} {config : Config} {callbacks : Callbacks} {c : Client φ}

theorem supports_congr (h : c.config.formats = config.formats) (codec : Codec) :
    clientSupportsCodec c.config codec = clientSupportsCodec config codec := by
  unfold clientSupportsCodec
  rw [h]

theorem Streaming.stream (h : Streaming config callbacks c) (o : OpenStream)
    (ho : streamAfter config c.log = some o) :
    c.stream = o.start ∧ parseStreamStart ⟨0, o.text⟩ = .ok o.start :=
  h.held o (held_of_open ho)

/-- So it does with another message behind the stream/start. -/
theorem Streaming.add (h : Streaming config callbacks c) {o : OpenStream} {payload : List UInt8}
    (ho : (heldAfter config c.log).map (.add payload) = some o) :
    c.stream = o.start ∧ parseStreamStart ⟨0, o.text⟩ = .ok o.start := by
  obtain ⟨o', ho', rfl⟩ := Option.map_eq_some_iff.mp ho
  exact h.held o' ho'

/-- No reply is a message. -/
theorem Event.not_message_of_reply {e : Event} (h : e.isReply) : ¬ e.isMessage := by
  cases e with
  | message opcode payload rc => exact h.elim
  | _ => exact id

/-- A message that is no audio chunk, and what the client replies to it. -/
theorem streaming_reply {c' : Client φ} (h : Streaming config callbacks c)
    (hkeep : Keeps Event.isReply c c') {opcode : UInt8} {payload : List UInt8} {rc : Rc}
    (haudio : c.callbacks.audio = true → ¬ (Event.message opcode payload rc).isAudioMessage)
    (hheld : ∀ o, afterHeld config (heldAfter config c.log) (.message opcode payload rc) =
      some o → c'.stream = o.start ∧ parseStreamStart ⟨0, o.text⟩ = .ok o.start) :
    Streaming config callbacks (record (.message opcode payload rc) c') := by
  obtain ⟨new, hlog, hreply⟩ := hkeep.log
  refine ⟨hkeep.formats.trans h.formats, hkeep.callbacks.trans h.callbacks, ?_, ?_⟩
  · intro o ho
    apply hheld o
    rw [← ho]
    simp only [record]
    rw [hlog, heldAfter_snoc, heldAfter_still fun e he => Event.not_message_of_reply (hreply e he)]
  · simp only [record]
    rw [hlog, List.append_assoc, hkeep.callbacks]
    apply audioSpec_append h.spec
    · intro e he
      rcases List.mem_append.mp he with he | he
      · intro hcall
        have hr := hreply e he
        cases e with
        | app e =>
          cases e with
          | audio format timestampUs pcm => exact hr.elim
          | _ => exact hcall.elim
        | _ => exact hcall.elim
      · obtain rfl := List.mem_singleton.mp he
        exact id
    · intro hset e he
      rcases List.mem_append.mp he with he | he
      · intro hmessage
        have hr := hreply e he
        cases e with
        | message opcode payload rc => exact hr.elim
        | _ => exact hmessage.elim
      · obtain rfl := List.mem_singleton.mp he
        exact haudio hset

theorem streaming_text (h : Streaming config callbacks c) (text : List UInt8) :
    Streaming config callbacks (record (.message EAF_SENDPIN_WS_TEXT text
      (dispatchText env ⟨0, text⟩ c).1) (dispatchText env ⟨0, text⟩ c).2) := by
  apply streaming_reply h (keeps_dispatchText env ⟨0, text⟩ c)
  · intro _ haudio
    exact absurd haudio.1 (by decide)
  · intro o ho
    rw [afterHeld_message, if_neg (by decide), if_pos rfl] at ho
    split at ho
    · rename_i hok
      by_cases hstarts : startsStream text
      · obtain ⟨start, hparse, hcodec, hstream⟩ := dispatchText_start env hstarts hok
        rw [supports_congr h.formats] at hcodec
        rw [afterText_start hstarts hparse hcodec] at ho
        cases ho
        exact ⟨hstream, hparse⟩
      · rw [dispatchText_stream env hstarts]
        rcases Option.or_eq_some_iff.mp ho with hopen | ⟨-, hadd⟩
        · rcases afterText_some hopen with ⟨hs, -⟩ | ⟨o', ho', rfl⟩
          · exact absurd hs hstarts
          · exact h.held o' ho'
        · exact h.add hadd
    · obtain ⟨hstarts, hadd⟩ := heldRefused_some ho
      rw [dispatchText_stream env hstarts]
      exact h.add hadd

theorem played_onAudio (h : Streaming config callbacks c) {buf : List UInt8} {length : Nat}
    (hover : Overlaid (shownOf config) c EAF_SENDPIN_WS_BINARY buf length) :
    Played (streamAfter config c.log) (buf.take length) { c.stream with
      codecHeader := ⟨c.stream.codecHeader.start,
        slice buf c.stream.codecHeader.start c.stream.codecHeader.bytes.length⟩ } := by
  intro o ho
  obtain ⟨hstream, hparse⟩ := h.stream o ho
  have hshown : shownOf config c = some o.shown := by
    unfold shownOf
    rw [ho]
    rfl
  have hover' := hover.2 (by decide) o.shown hshown
  obtain ⟨heq, hlen⟩ := slice_within (within_codecHeader hparse)
    ((le_length_shown o).trans (le_length_overlay o.shown (buf.take length))) hover'
  rw [hstream]
  refine ⟨hparse, ?_, heq⟩
  unfold StreamStart.described
  simp only [hlen]

/-- A binary message: the callback is given what stands in the message buffer. -/
theorem streaming_binary (h : Streaming config callbacks c) {buf : List UInt8} {length : Nat}
    (hover : Overlaid (shownOf config) c EAF_SENDPIN_WS_BINARY buf length) :
    Streaming config callbacks (record (.message EAF_SENDPIN_WS_BINARY (buf.take length)
      (onAudio buf length c).1) (onAudio buf length c).2) := by
  have hheld : ∀ o, afterHeld config (heldAfter config c.log)
      (.message EAF_SENDPIN_WS_BINARY (buf.take length) EAF_OK) = some o →
      c.stream = o.start ∧ parseStreamStart ⟨0, o.text⟩ = .ok o.start := fun _ ho => h.add ho
  have hkind := isAudio_take hover.1
  unfold onAudio
  split
  · rename_i hskip
    refine streaming_reply h (.refl c) ?_ hheld
    intro _ haudio
    exact hkind.mp haudio.2 hskip
  · rename_i hchunk
    have haudio := hkind.mpr hchunk
    have hplayed := played_onAudio h hover
    simp only
    rcases hset : c.callbacks.audio with _ | _
    · refine streaming_reply h (.refl c) ?_ hheld
      intro hset'
      rw [hset] at hset'
      cases hset'
    · refine ⟨h.formats, h.callbacks, ?_, ?_⟩
      · intro o ho
        apply hheld o
        rw [← ho]
        simp only [record, callApp, if_true, heldAfter_snoc]
        rfl
      · have hspec := audioSpec_audio h.spec hset haudio
          (signed64 (readBE (slice buf 1 8))) ((buf.take length).drop 9) hplayed
        simp only [record, callApp, if_true, List.append_assoc]
        exact hspec

/-- An event of the connection itself. -/
def Event.isQuiet : Event → Prop
  | .message _ _ _ => False
  | .app e => e = .disconnected
  | _ => True

theorem Event.not_message_of_quiet {e : Event} (h : e.isQuiet) : ¬ e.isMessage := by
  cases e with
  | message opcode payload rc => exact h.elim
  | _ => exact id

theorem quiet_stream {more : List Event} (h : ∀ e ∈ more, e.isQuiet) {log : List Event}
    {o : OpenStream} (ho : streamAfter config (log ++ more) = some o) :
    streamAfter config log = some o := by
  induction more using List.reverseRecOn with
  | nil => rwa [List.append_nil] at ho
  | append_singleton more e ih =>
    have he := h e (by simp)
    rw [← List.append_assoc, streamAfter_snoc] at ho
    apply ih (fun x hx => h x (List.mem_append_left _ hx))
    cases e with
    | connected => cases ho
    | sent data => exact ho
    | queued opcode payload mask => exact ho
    | upgrade data => exact ho
    | received data => exact ho
    | message opcode payload rc => exact he.elim
    | app e =>
      obtain rfl : e = .disconnected := he
      cases ho

/-- What happens to the connection says nothing about audio, and opens no stream. -/
theorem streaming_quiet {c' : Client φ} (h : Streaming config callbacks c)
    (hformats : c'.config.formats = c.config.formats) (hcallbacks : c'.callbacks = c.callbacks)
    (hstream : c'.stream = c.stream) {more : List Event} (hlog : c'.log = c.log ++ more)
    (hquiet : ∀ e ∈ more, e.isQuiet) : Streaming config callbacks c' := by
  refine ⟨hformats.trans h.formats, hcallbacks.trans h.callbacks, ?_, ?_⟩
  · intro o ho
    rw [hlog, heldAfter_still fun e he => Event.not_message_of_quiet (hquiet e he)] at ho
    rw [hstream]
    exact h.held o ho
  · rw [hlog, hcallbacks]
    apply audioSpec_append h.spec
    · intro e he hcall
      have hq := hquiet e he
      cases e with
      | app e =>
        obtain rfl : e = .disconnected := hq
        exact hcall
      | _ => exact hcall
    · intro _ e he hmessage
      have hq := hquiet e he
      cases e with
      | message opcode payload rc => exact hq
      | _ => exact hmessage

theorem notifyClosed_quiet (c : Client φ) : (notifyClosed c).stream = c.stream ∧
    ∃ more, (notifyClosed c).log = c.log ++ more ∧ ∀ e ∈ more, e.isQuiet := by
  unfold notifyClosed callApp
  simp only
  split
  · exact ⟨rfl, [], (List.append_nil _).symm, by simp⟩
  · split
    · exact ⟨rfl, [.app .disconnected], rfl, by simp [Event.isQuiet]⟩
    · exact ⟨rfl, [], (List.append_nil _).symm, by simp⟩

theorem streaming_notifyClosed (h : Streaming config callbacks c) :
    Streaming config callbacks (notifyClosed c) := by
  obtain ⟨hstream, more, hlog, hquiet⟩ := notifyClosed_quiet c
  have hkeep := keeps_notifyClosed c
  exact streaming_quiet h hkeep.formats hkeep.callbacks hstream hlog hquiet

theorem streaming_close (h : Streaming config callbacks c) (payload : List UInt8) :
    Streaming config callbacks
      (record (.message EAF_SENDPIN_WS_CLOSE payload EAF_OK) (notifyClosed c)) := by
  have hclosed := streaming_notifyClosed h
  apply streaming_reply hclosed (.refl _)
  · intro _ haudio
    exact absurd haudio.1 (by decide)
  · -- a close frame is no message that lies in the buffer
    exact hclosed.held

/-- A message keeps the invariant. -/
theorem streaming_onMessage (h : Streaming config callbacks c) {opcode : UInt8} {buf : List UInt8}
    {length : Nat} (hover : Overlaid (shownOf config) c opcode buf length) :
    Streaming config callbacks (onMessage env c opcode buf length).2 := by
  have hother : ∀ {c' : Client φ} {rc : Rc}, Keeps Event.isReply c c' → c'.stream = c.stream →
      opcode ≠ EAF_SENDPIN_WS_TEXT → opcode ≠ EAF_SENDPIN_WS_BINARY →
      Streaming config callbacks (record (.message opcode (buf.take length) rc) c') := by
    intro c' rc hkeep hstream htext hbinary
    apply streaming_reply h hkeep (fun _ haudio => hbinary haudio.1)
    intro o ho
    rw [afterHeld_message, if_neg htext] at ho
    rw [hstream]
    split at ho
    · exact h.held o ho
    · exact h.add ho
  unfold onMessage handleMessage
  split_ifs with hping hpong hclose htext hbinary
  · subst hping
    have hqueue := sends_queueFrame EAF_SENDPIN_WS_PONG (buf.take length) c
    exact hother (hqueue.toKeeps.mono fun _ => Event.reply_of_sent) hqueue.stream (by decide)
      (by decide)
  · subst hpong
    exact hother (.refl c) rfl (by decide) (by decide)
  · subst hclose
    exact streaming_close h (buf.take length)
  · subst htext
    exact streaming_text h (buf.take length)
  · subst hbinary
    exact streaming_binary h hover
  · exact hother (.refl c) rfl htext hbinary

/-- What a message that is no close frame does to the open stream. -/
theorem onMessage_stream (config : Config) {opcode : UInt8} (hclose : opcode ≠ EAF_SENDPIN_WS_CLOSE)
    (c : Client φ) (buf : List UInt8) (length : Nat) :
    streamAfter config (onMessage env c opcode buf length).2.log =
      afterEvent config (streamAfter config c.log)
        (.message opcode (buf.take length) (handleMessage env c opcode buf length).1) := by
  obtain ⟨new, hlog, hspeech⟩ := (keeps_handleMessage env c opcode buf length hclose).log
  simp only [onMessage, record]
  rw [hlog, streamAfter_snoc, streamAfter_speech hspeech]

/-- Each message lies in the buffer over the ones before it. -/
theorem overlays_onMessage (env : Env φ) (config : Config) :
    Overlays (onMessage env) (shownOf config) := by
  have hclosed : ∀ (c : Client φ) buf length,
      shownOf config (onMessage env c EAF_SENDPIN_WS_CLOSE buf length).2 = none := by
    intro c buf length
    simp only [shownOf, onMessage, record, handleMessage_close]
    rw [streamAfter_snoc, afterEvent_message, if_pos (.inr rfl)]
    rfl
  constructor
  · intro c opcode buf length s hcontrol hs
    by_cases hclose : opcode = EAF_SENDPIN_WS_CLOSE
    · rw [hclose, hclosed] at hs
      cases hs
    · unfold shownOf at hs ⊢
      rw [onMessage_stream config hclose, afterEvent_message] at hs
      split at hs
      · cases hs
      · exact hs
  · intro c opcode buf length s hdata hs
    by_cases hclose : opcode = EAF_SENDPIN_WS_CLOSE
    · rw [hclose, hclosed] at hs
      cases hs
    · unfold shownOf at hs ⊢
      rw [onMessage_stream config hclose, afterEvent_message] at hs
      obtain ⟨o, ho, rfl⟩ := Option.map_eq_some_iff.mp hs
      have hlater : ∀ o', streamAfter config c.log = some o' → o = o'.add (buf.take length) →
          ∃ t, (streamAfter config c.log).map OpenStream.shown = some t ∧
            o.shown = overwrite t 0 (buf.take length) := by
        intro o' ho' hadd
        refine ⟨o'.shown, by rw [ho']; rfl, ?_⟩
        rw [hadd, shown_add]
      split_ifs at ho with hrc hcontrol htext
      · rw [hdata] at hcontrol
        cases hcontrol
      · rcases afterText_some ho with ⟨-, start, rfl⟩ | ⟨o', ho', hadd⟩
        · exact .inl rfl
        · exact .inr (hlater o' ho' hadd)
      · obtain ⟨o', ho', hadd⟩ := Option.map_eq_some_iff.mp ho
        exact .inr (hlater o' ho' hadd.symm)

end Messages

/-! ## Runs -/

/-- A client between two calls. -/
abbrev Tuned (config : Config) (callbacks : Callbacks) (c : Client φ) : Prop :=
  Shows (shownOf config) (Streaming config callbacks) c.rx c

section Runs

variable {env : Env φ} {config : Config} {callbacks : Callbacks} {c c' : Client φ}

theorem tuned_quiet (more : List Event) (h : Tuned config callbacks c) (hrx : c'.rx = c.rx)
    (hformats : c'.config.formats = c.config.formats) (hcallbacks : c'.callbacks = c.callbacks)
    (hstream : c'.stream = c.stream) (hlog : c'.log = c.log ++ more)
    (hquiet : ∀ e ∈ more, e.isQuiet) : Tuned config callbacks c' := by
  have hshown : ∀ s, shownOf config c' = some s → shownOf config c = some s := by
    intro s hs
    obtain ⟨o, ho, rfl⟩ := Option.map_eq_some_iff.mp hs
    rw [hlog] at ho
    unfold shownOf
    rw [quiet_stream hquiet ho]
    rfl
  unfold Tuned
  rw [hrx]
  exact ⟨h.wf, ⟨h.showing.opcode, fun s hs => h.showing.rest s (hshown s hs),
    fun s hs => h.showing.empty s (hshown s hs)⟩,
    streaming_quiet h.keeps hformats hcallbacks hstream hlog hquiet⟩

theorem tuned_sends (h : Tuned config callbacks c) (hs : Sends c c') :
    Tuned config callbacks c' := by
  obtain ⟨more, hlog, hsent⟩ := hs.log
  apply tuned_quiet more h hs.rx hs.formats hs.callbacks hs.stream hlog
  intro e he
  have hin := hsent e he
  cases e with
  | sent data => trivial
  | queued opcode payload mask => trivial
  | _ => exact hin.elim

theorem tuned_notifyClosed (h : Tuned config callbacks c) :
    Tuned config callbacks (notifyClosed c) := by
  obtain ⟨hstream, more, hlog, hquiet⟩ := notifyClosed_quiet c
  have hkeep := keeps_notifyClosed c
  exact tuned_quiet more h hkeep.rx hkeep.formats hkeep.callbacks hstream hlog hquiet

theorem tuned_fed (h : Tuned config callbacks c) (data : List UInt8) :
    Tuned config callbacks (fed env data c).2 := by
  have hreceived : Tuned config callbacks (dataReceived data c) :=
    tuned_quiet [.received data] h rfl rfl rfl rfl rfl (by simp [Event.isQuiet])
  have hfed := shows_wsRxFeed (overlays_onMessage env config)
    (fun c opcode buf length hover hc => streaming_onMessage hc hover) hreceived data
  exact ⟨hfed.wf, ⟨hfed.showing.opcode, hfed.showing.rest, hfed.showing.empty⟩,
    ⟨hfed.keeps.formats, hfed.keeps.callbacks, hfed.keeps.held, hfed.keeps.spec⟩⟩

theorem tuned_effect {call : Call} (h : Tuned config callbacks c) (he : Effect env c call c') :
    Tuned config callbacks c' := by
  have hup : ∀ {d : Client φ} (data : List UInt8), Tuned config callbacks d →
      Tuned config callbacks (upgradeReceived data d) := by
    intro d data hd
    exact tuned_quiet [.upgrade data] hd rfl rfl rfl rfl rfl (by simp [Event.isQuiet])
  cases he with
  | sends hs => exact tuned_sends h hs
  | closes hs => exact tuned_notifyClosed (tuned_sends h hs)
  | connects request prng ticks _ =>
    exact tuned_quiet [.connected] h rfl rfl rfl rfl rfl (by simp [Event.isQuiet])
  | waits data hs _ _ => exact hup data (tuned_sends h hs)
  | refuses data hs _ hs' => exact tuned_notifyClosed (tuned_sends (hup data (tuned_sends h hs)) hs')
  | upgrades data hs _ _ hs' =>
    exact tuned_quiet [] (tuned_sends (hup data (tuned_sends h hs)) hs') rfl rfl rfl rfl
      (List.append_nil _).symm (by simp)
  | receives data hs _ _ _ => exact tuned_fed (tuned_sends h hs) data
  | drops data hs _ _ _ => exact tuned_notifyClosed (tuned_fed (tuned_sends h hs) data)

theorem tuned_afterCalls (h : Tuned config callbacks c) (calls : List Call) :
    Tuned config callbacks (afterCalls env c calls) := by
  induction calls generalizing c with
  | nil => exact h
  | cons call calls ih => exact ih (tuned_effect h (effect_afterCall env c call))

theorem tuned_init (env : Env φ) (config : Config) (callbacks : Callbacks) :
    Tuned config callbacks (clientInit env config callbacks) := by
  refine ⟨wf_init _, ⟨rfl, ?_, ?_⟩, ⟨rfl, rfl, ?_, audioSpec_nil _ _⟩⟩
  · intro s hs
    cases hs
  · intro s hs
    cases hs
  · intro o ho
    cases ho

/-- What the log of every run says about audio. -/
theorem audioSpec_afterCalls (env : Env φ) (config : Config) (callbacks : Callbacks)
    (calls : List Call) : AudioSpec config callbacks.audio
      (afterCalls env (clientInit env config callbacks) calls).log := by
  have h := (@tuned_afterCalls φ env _ _ _ (tuned_init env config callbacks) calls).keeps
  have hspec := h.spec
  rw [h.callbacks] at hspec
  exact hspec

end Runs

end EmbeddedAudio.Sendspin
