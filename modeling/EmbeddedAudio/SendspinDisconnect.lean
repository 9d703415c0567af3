-- After the application is told that it is disconnected, it hears nothing more
-- until the next connect. The frames behind a close frame in the same receive
-- call break this: the receiver goes on with them.
import EmbeddedAudio.SendspinReconnect

namespace EmbeddedAudio.Sendspin

open Storage Ws

variable {φ : Type}

/-! ## Disconnected -/

def downStep (down : Bool) : Event → Bool
  | .connected => false
  | .app .disconnected => true
  | _ => down

/-- The application was told that it is disconnected, and there was no connect since. -/
def isDown (log : List Event) : Bool := log.foldl downStep false

/-- While the application is disconnected there is no callback, no handshake and no stream. -/
structure QuietWhenDown (c : Client φ) : Prop where
  quiet : ∀ pre e post, c.log = pre ++ .app e :: post → isDown pre = false
  flags : isDown c.log = true → c.handshaken = false ∧ c.streamActive = false

theorem isDown_append (log more : List Event) :
    isDown (log ++ more) = more.foldl downStep (isDown log) := List.foldl_append ..

theorem isDown_speech {more : List Event} (h : ∀ e ∈ more, e.isSpeech) (log : List Event) :
    isDown (log ++ more) = isDown log := by
  rw [isDown_append]
  induction more with
  | nil => rfl
  | cons e more ih =>
    have he := h e List.mem_cons_self
    have hsame : downStep (isDown log) e = isDown log := by
      cases e with
      | sent data => rfl
      | queued opcode payload mask => rfl
      | app e => cases e <;> first | rfl | exact absurd rfl he
      | _ => exact he.elim
    rw [List.foldl_cons, hsame]
    exact ih fun x hx => h x (List.mem_cons_of_mem _ hx)

/-- The log says that no callback was made while the application was disconnected. -/
def QuietLog (log : List Event) : Prop :=
  ∀ pre e post, log = pre ++ .app e :: post → isDown pre = false

theorem quietLog_snoc {log : List Event} (h : QuietLog log) {e : Event}
    (he : ∀ a, e = .app a → isDown log = false) : QuietLog (log ++ [e]) := by
  intro pre a post heq
  rcases List.eq_nil_or_concat post with rfl | ⟨post', last, rfl⟩
  · obtain ⟨hlog, hlast⟩ := List.append_inj' heq rfl
    rw [← hlog]
    exact he a (by simpa using hlast)
  · rw [List.concat_eq_append, ← List.cons_append, ← List.append_assoc] at heq
    exact h pre a post' (List.append_inj' heq rfl).1

/-- The application may be called as long as it is not disconnected. -/
theorem quietLog_speech {log more : List Event} (h : QuietLog log) (hdown : isDown log = false)
    (hmore : ∀ e ∈ more, e.isSpeech) : QuietLog (log ++ more) := by
  induction more using List.reverseRecOn with
  | nil => rwa [List.append_nil]
  | append_singleton more e ih =>
    have hin : ∀ x ∈ more, x.isSpeech := fun x hx => hmore x (List.mem_append_left _ hx)
    rw [← List.append_assoc]
    exact quietLog_snoc (ih hin) fun _ _ => by rw [isDown_speech hin, hdown]

theorem quietLog_sent {log more : List Event} (h : QuietLog log)
    (hmore : ∀ e ∈ more, e.isSent) : QuietLog (log ++ more) := by
  induction more using List.reverseRecOn with
  | nil => rwa [List.append_nil]
  | append_singleton more e ih =>
    rw [← List.append_assoc]
    refine quietLog_snoc (ih fun x hx => hmore x (List.mem_append_left _ hx)) fun a ha => ?_
    have := hmore e (by simp)
    rw [ha] at this
    exact this.elim

/-! ## The invariant -/

/-- A client between two operations: quiet, and closed while the application is disconnected. -/
structure Settled (c : Client φ) : Prop where
  quiet : QuietLog c.log
  flags : isDown c.log = true → c.handshaken = false ∧ c.streamActive = false
  closed : isDown c.log = true → c.state = .closed ∧ c.notified = true

theorem Settled.quietWhenDown {c : Client φ} (h : Settled c) : QuietWhenDown c := ⟨h.quiet, h.flags⟩

/-- An operation that tells the application nothing, and starts no handshake and no stream. -/
structure Hushed (c c' : Client φ) : Prop extends Keeps Event.isSent c c' where
  stays : c'.state = c.state
  handshaken : c'.handshaken = c.handshaken
  streamActive : c'.streamActive = c.streamActive ∨ c'.streamActive = false
  notified : c'.notified = c.notified

theorem Sends.hushed {c c' : Client φ} (h : Sends c c') : Hushed c c' :=
  ⟨h.toKeeps, h.stays, h.handshaken, .inl h.streamActive, h.notified⟩

theorem Hushed.refl (c : Client φ) : Hushed c c := (Sends.refl c).hushed

theorem settled_hushed {c c' : Client φ} (h : Settled c) (hh : Hushed c c') : Settled c' := by
  obtain ⟨more, hlog, hsent⟩ := hh.log
  have hdown : isDown c'.log = isDown c.log := by
    rw [hlog, isDown_speech fun e he => Event.speech_of_sent (hsent e he)]
  refine ⟨?_, fun hd => ?_, fun hd => ?_⟩
  · rw [hlog]
    exact quietLog_sent h.quiet hsent
  · obtain ⟨hs, ha⟩ := h.flags (hdown ▸ hd)
    refine ⟨hh.handshaken.trans hs, ?_⟩
    rcases hh.streamActive with heq | heq
    · exact heq.trans ha
    · exact heq
  · obtain ⟨hc, hn⟩ := h.closed (hdown ▸ hd)
    exact ⟨hh.stays.trans hc, hh.notified.trans hn⟩

theorem settled_sends {c c' : Client φ} (h : Settled c) (hs : Sends c c') : Settled c' :=
  settled_hushed h hs.hushed

/-- Closing tells the application once, and clears the flags. -/
theorem settled_notifyClosed {c : Client φ} (h : Settled c) : Settled (notifyClosed c) := by
  rcases hn : c.notified with _ | _
  · have hup : isDown c.log = false := by
      by_contra hd
      have := (h.closed (by simpa using hd)).2
      rw [hn] at this
      cases this
    rcases hset : c.callbacks.disconnected with _ | _
    · have hlog : (notifyClosed c).log = c.log := by simp [notifyClosed, callApp, hn, hset]
      refine ⟨?_, ?_, ?_⟩ <;> rw [hlog]
      · exact h.quiet
      · rw [hup]; nofun
      · rw [hup]; nofun
    · have heq : notifyClosed c = record (.app .disconnected) { c with
          tcpOpen := false, state := .closed, handshaken := false, streamActive := false,
          notified := true } := by simp [notifyClosed, callApp, hn, hset]
      rw [heq]
      exact ⟨quietLog_snoc h.quiet fun _ _ => hup, fun _ => ⟨rfl, rfl⟩, fun _ => ⟨rfl, rfl⟩⟩
  · have heq : notifyClosed c = { c with
        tcpOpen := false, state := .closed, handshaken := false, streamActive := false } := by
      simp [notifyClosed, hn]
    rw [heq]
    exact ⟨h.quiet, fun _ => ⟨rfl, rfl⟩, fun _ => ⟨rfl, hn⟩⟩

/-- An event of the connection that is not a callback. -/
theorem settled_record {c c' : Client φ} (h : Settled c) {e : Event} (he : ∀ a, e ≠ .app a)
    (hcon : e ≠ .connected) (hlog : c'.log = c.log ++ [e]) (hh : c'.handshaken = c.handshaken)
    (ha : c'.streamActive = c.streamActive) (hs : isDown c.log = true → c'.state = .closed)
    (hn : c'.notified = c.notified) : Settled c' := by
  have hdown : isDown c'.log = isDown c.log := by
    rw [hlog, isDown_append]
    cases e <;> first | rfl | exact absurd rfl hcon | exact absurd rfl (he _)
  refine ⟨?_, fun hd => ?_, fun hd => ?_⟩
  · rw [hlog]
    exact quietLog_snoc h.quiet fun a ha => absurd ha (he a)
  · rw [hh, ha]
    exact h.flags (hdown ▸ hd)
  · rw [hn]
    exact ⟨hs (hdown ▸ hd), (h.closed (hdown ▸ hd)).2⟩

/-! ## What a message does -/

/-- What `on_message` does with a message, as far as the message decides it. -/
inductive Verdict where
  | refused
  | silent
  | announced
  deriving DecidableEq

/-- `announced` if the callback is set. -/
def Verdict.ofCallback (set : Bool) : Verdict := if set then .announced else .silent

/-- The verdict on a text message. -/
def textVerdict (c : Client φ) (json : Span) : Verdict :=
  match jsonGet json (ascii "type") with
  | .error _ => .silent
  | .ok type =>
    if jsonStringEquals type "server/hello" then
      match parseServerHello json with
      | .error _ => .refused
      | .ok hello => if hello.playerActive then .announced else .refused
    else if jsonStringEquals type "server/time" then
      match parseServerTime json with
      | .error _ => .refused
      | .ok _ => .silent
    else if jsonStringEquals type "stream/start" then
      match parseStreamStart json with
      | .error _ => .refused
      | .ok start => if clientSupportsCodec c.config start.codec then .announced else .refused
    else if jsonStringEquals type "stream/clear" then .ofCallback c.callbacks.streamClear
    else if jsonStringEquals type "stream/end" then
      match parseStreamEnd json with
      | .error _ => .refused
      | .ok _ => .ofCallback c.callbacks.streamEnd
    else if jsonStringEquals type "group/update" then
      match parseGroupUpdate json with
      | .error _ => .refused
      | .ok _ => .ofCallback c.callbacks.groupUpdate
    else if jsonStringEquals type "server/command" then
      match parseServerCommand json with
      | .error _ => .refused
      | .ok _ => .ofCallback c.callbacks.command
    else .silent

def verdict (c : Client φ) (m : Msg) : Verdict :=
  if m.1 = EAF_SENDPIN_WS_TEXT then textVerdict c ⟨0, m.2⟩
  else if m.1 = EAF_SENDPIN_WS_BINARY ∧ 9 ≤ m.2.length ∧ m.2.getD 0 0 = 0x04 then
    .ofCallback c.callbacks.audio
  else .silent

theorem verdict_congr {c c' : Client φ} (hcallbacks : c'.callbacks = c.callbacks)
    (hformats : c'.config.formats = c.config.formats) (m : Msg) : verdict c' m = verdict c m := by
  have hcodec : ∀ codec, clientSupportsCodec c'.config codec = clientSupportsCodec c.config codec := by
    intro codec
    unfold clientSupportsCodec
    rw [hformats]
  simp only [verdict, textVerdict, hcodec, hcallbacks]

theorem verdict_close (c : Client φ) (payload : List UInt8) :
    verdict c (EAF_SENDPIN_WS_CLOSE, payload) = .silent := by
  unfold verdict
  rw [if_neg (show ¬ EAF_SENDPIN_WS_CLOSE = EAF_SENDPIN_WS_TEXT by decide),
    if_neg fun h => absurd h.1 (show ¬ EAF_SENDPIN_WS_CLOSE = EAF_SENDPIN_WS_BINARY by decide)]

/-- A verdict against what the handler did. -/
def Verdict.Holds (v : Verdict) (c : Client φ) (r : Rc × Client φ) : Prop :=
  match v with
  | .refused => r.1 ≠ EAF_OK ∧ Hushed c r.2
  | .silent => Hushed c r.2
  | .announced => True

theorem holds_ofCallback {set : Bool} {c c' : Client φ} (rc : Rc) (e : AppEvent)
    (h : Hushed c c') : (Verdict.ofCallback set).Holds c (rc, callApp set e c') := by
  cases set
  · exact h
  · trivial

theorem textVerdict_holds (env : Env φ) (c : Client φ) (json : Span) :
    (textVerdict c json).Holds c (dispatchText env json c) := by
  have hquiet : ∀ c' : Client φ, c'.rx = c.rx → c'.http = c.http → c'.callbacks = c.callbacks →
      c'.config.formats = c.config.formats → c'.state = c.state → c'.log = c.log →
      c'.handshaken = c.handshaken → c'.notified = c.notified →
      c'.streamActive = c.streamActive ∨ c'.streamActive = false → Hushed c c' :=
    fun c' h1 h2 h3 h4 h5 h6 h7 h8 h9 => ⟨.silent h1 h2 h3 h4 h5 h6, h5, h7, h9, h8⟩
  unfold textVerdict dispatchText
  rcases jsonGet json (ascii "type") with _ | type
  · exact .refl c
  · simp only
    split_ifs
    · unfold onServerHello
      rcases parseServerHello json with _ | hello
      · exact ⟨nofun, .refl c⟩
      · simp only
        rcases hello.playerActive
        · exact ⟨nofun, .refl c⟩
        · trivial
    · unfold onServerTime monotonicTime
      rcases parseServerTime json with _ | time
      · exact ⟨nofun, .refl c⟩
      · exact hquiet _ rfl rfl rfl rfl rfl rfl rfl rfl (.inl rfl)
    · unfold onStreamStart
      rcases parseStreamStart json with _ | start
      · exact ⟨nofun, hquiet _ rfl rfl rfl rfl rfl rfl rfl rfl (.inl rfl)⟩
      · simp only
        rcases clientSupportsCodec c.config start.codec
        · exact ⟨nofun, hquiet _ rfl rfl rfl rfl rfl rfl rfl rfl (.inl rfl)⟩
        · trivial
    · exact holds_ofCallback _ _ (.refl c)
    · unfold onStreamEnd
      rcases parseStreamEnd json with _ | streamEnd
      · exact ⟨nofun, .refl c⟩
      · exact holds_ofCallback _ _ (hquiet _ rfl rfl rfl rfl rfl rfl rfl rfl (.inr rfl))
    · unfold onGroupUpdate
      rcases parseGroupUpdate json with _ | group
      · exact ⟨nofun, .refl c⟩
      · exact holds_ofCallback _ _ (.refl c)
    · unfold onServerCommand
      rcases parseServerCommand json with _ | command
      · exact ⟨nofun, .refl c⟩
      · simp only
        split
        · exact holds_ofCallback _ _ (hquiet _ rfl rfl rfl rfl rfl rfl rfl rfl (.inl rfl))
        · exact holds_ofCallback _ _ (.refl c)
    · exact .refl c

theorem audioVerdict_holds (c : Client φ) (buf : List UInt8) (length : Nat)
    (hle : length ≤ buf.length) :
    (if 9 ≤ (buf.take length).length ∧ (buf.take length).getD 0 0 = 0x04 then
      Verdict.ofCallback c.callbacks.audio else .silent).Holds c (onAudio buf length c) := by
  have hlen : (buf.take length).length = length := by rw [List.length_take]; omega
  have hget : ¬ length < 9 → (buf.take length).getD 0 0 = buf.getD 0 0 := by
    intro hlong
    rcases buf with _ | ⟨b, buf⟩
    · simp
    · rcases length with _ | length
      · omega
      · rfl
  unfold onAudio
  rw [hlen]
  by_cases hskip : length < 9 ∨ buf.getD 0 0 ≠ 0x04
  · rw [if_pos hskip, if_neg]
    · exact Hushed.refl c
    · rintro ⟨hlong, hkind⟩
      rcases hskip with hshort | hno
      · omega
      · exact hno (hget (by omega) ▸ hkind)
  · rw [if_neg hskip]
    simp only [not_or, not_not] at hskip
    rw [if_pos ⟨by omega, (hget hskip.1).trans hskip.2⟩]
    exact holds_ofCallback _ _ (.refl c)

/-- The verdict on a message other than a close frame is what happens. -/
theorem verdict_holds (env : Env φ) (c : Client φ) (opcode : UInt8) (buf : List UInt8)
    (length : Nat) (hle : length ≤ buf.length) (hclose : opcode ≠ EAF_SENDPIN_WS_CLOSE) :
    (verdict c (opcode, buf.take length)).Holds c (handleMessage env c opcode buf length) := by
  by_cases htext : opcode = EAF_SENDPIN_WS_TEXT
  · subst htext
    exact textVerdict_holds env c _
  · by_cases hbinary : opcode = EAF_SENDPIN_WS_BINARY
    · subst hbinary
      have haudio := audioVerdict_holds c buf length hle
      show (verdict c (EAF_SENDPIN_WS_BINARY, buf.take length)).Holds c (onAudio buf length c)
      simpa only [verdict, htext, if_false, true_and] using haudio
    · have hsilent : verdict c (opcode, buf.take length) = .silent := by
        simp [verdict, htext, hbinary]
      rw [hsilent]
      show Hushed c (handleMessage env c opcode buf length).2
      unfold handleMessage
      split_ifs
      · exact (sends_queueFrame _ _ c).hushed
      · exact .refl c
      · exact .refl c

/-! ## The messages of a receive call -/

/-- The messages up to the first one that is refused. -/
def attended (c : Client φ) : List Msg → List Msg
  | [] => []
  | m :: ms => if verdict c m = .refused then [m] else m :: attended c ms

/-- The messages from the first close frame on. -/
def fromClose (ms : List Msg) : List Msg := ms.dropWhile fun m => m.1 != EAF_SENDPIN_WS_CLOSE

theorem attended_of_prefix (c : Client φ) {ms all : List Msg} (h : ms <+: all)
    (hlast : ∀ m ∈ ms.dropLast, verdict c m ≠ .refused) : ms <+: attended c all := by
  induction ms generalizing all with
  | nil => exact List.nil_prefix
  | cons m ms ih =>
    obtain ⟨rest, rfl⟩ := h
    rw [List.cons_append]
    unfold attended
    split
    · rename_i hm
      rcases ms with _ | ⟨m', ms⟩
      · exact List.prefix_refl _
      · exact absurd hm (hlast m (by simp))
    · rw [List.cons_prefix_cons]
      refine ⟨rfl, ih (List.prefix_append _ _) fun x hx => hlast x ?_⟩
      rcases ms with _ | ⟨m', ms⟩
      · simp at hx
      · simp only [List.dropLast_cons_cons]
        exact List.mem_cons_of_mem _ hx

theorem fromClose_append {ms : List Msg} (h : fromClose ms ≠ []) (more : List Msg) :
    fromClose (ms ++ more) = fromClose ms ++ more := by
  unfold fromClose at h ⊢
  rw [List.dropWhile_append, if_neg (by simpa using h)]

theorem mem_fromClose_append {ms : List Msg} {m : Msg} (h : m ∈ fromClose ms) (more : List Msg) :
    m ∈ fromClose (ms ++ more) := by
  rw [fromClose_append (List.ne_nil_of_mem h)]
  exact List.mem_append_left _ h

/-- Nothing behind a close frame would make a callback, a handshake or a stream. -/
def CalmAfterClose (c : Client φ) (ms : List Msg) : Prop :=
  ∀ m ∈ fromClose ms, verdict c m ≠ .announced

theorem calmAfterClose_mono {c : Client φ} {ms all : List Msg} (h : CalmAfterClose c all)
    (hpre : ms <+: all) : CalmAfterClose c ms := by
  obtain ⟨more, rfl⟩ := hpre
  exact fun m hm => h m (mem_fromClose_append hm more)

theorem attended_congr {c c' : Client φ} (h : ∀ m, verdict c' m = verdict c m) (ms : List Msg) :
    attended c' ms = attended c ms := by
  induction ms with
  | nil => rfl
  | cons m ms ih => simp only [attended, h, ih]

theorem calm_congr {c c' : Client φ} (hcallbacks : c'.callbacks = c.callbacks)
    (hformats : c'.config.formats = c.config.formats) {ms : List Msg}
    (h : CalmAfterClose c (attended c ms)) : CalmAfterClose c' (attended c' ms) := by
  have hverdict := verdict_congr hcallbacks hformats
  rw [attended_congr hverdict]
  exact fun m hm => hverdict m ▸ h m hm

/-! ## One receive call -/

/-- A client inside a receive call that began at `c₀`, after the messages `given`. -/
structure Attending (c₀ c : Client φ) (given : List (Msg × Rc)) : Prop where
  keeps : Keeps Event.isFed c₀ c
  log : dispatched c.log = dispatched c₀.log ++ given
  refused : ∀ x ∈ given, verdict c₀ x.1 = .refused → x.2 ≠ EAF_OK
  settled : CalmAfterClose c₀ (given.map Prod.fst) →
    Settled c ∧ (isDown c.log = true → fromClose (given.map Prod.fst) ≠ [])

theorem attending_message {env : Env φ} {c₀ c : Client φ} {given : List (Msg × Rc)}
    (h : Attending c₀ c given) (opcode : UInt8) (buf : List UInt8) (length : Nat)
    (hle : length ≤ buf.length) :
    Attending c₀ (onMessage env c opcode buf length).2 (given ++
      [((opcode, buf.take length), (handleMessage env c opcode buf length).1)]) := by
  have hverdict : ∀ m, verdict c m = verdict c₀ m := verdict_congr h.keeps.callbacks h.keeps.formats
  have hinner := keeps_message env c opcode buf length
  -- the message goes into the log behind what the handler wrote
  have hsettle : Settled (handleMessage env c opcode buf length).2 →
      Settled (onMessage env c opcode buf length).2 := fun hs =>
    settled_record (e := .message opcode (buf.take length) _) hs
      (fun _ h => Event.noConfusion h) (fun h => Event.noConfusion h) rfl rfl rfl
      (fun hd => (hs.closed hd).1) rfl
  have hdown : isDown (onMessage env c opcode buf length).2.log =
      isDown (handleMessage env c opcode buf length).2.log := isDown_append _ _
  refine ⟨?_, ?_, ?_, fun hcalm => ?_⟩
  · refine h.keeps.trans ((hinner.mono fun _ => Event.fed_of_inner).trans ?_)
    exact ⟨rfl, rfl, rfl, rfl, .inl rfl, [_], rfl, by simp [Event.isFed]⟩
  · rw [← List.append_assoc, ← h.log]
    exact records_onMessage env c opcode buf length
  · intro x hx hrefused
    rcases List.mem_append.mp hx with hx | hx
    · exact h.refused x hx hrefused
    · obtain rfl := List.mem_singleton.mp hx
      rw [← hverdict] at hrefused
      by_cases hclose : opcode = EAF_SENDPIN_WS_CLOSE
      · subst hclose
        rw [verdict_close] at hrefused
        cases hrefused
      · have hholds := verdict_holds env c opcode buf length hle hclose
        rw [hrefused] at hholds
        exact hholds.1
  · rw [List.map_append] at hcalm
    obtain ⟨hsettled, hclosed⟩ := h.settled (calmAfterClose_mono hcalm (List.prefix_append _ _))
    have hmore : fromClose (given.map Prod.fst) ≠ [] →
        fromClose (given.map Prod.fst ++ [(opcode, buf.take length)]) ≠ [] := fun hne => by
      rw [fromClose_append hne]
      simp
    rw [hdown, List.map_append]
    by_cases hclose : opcode = EAF_SENDPIN_WS_CLOSE
    · subst hclose
      refine ⟨hsettle (settled_notifyClosed hsettled), fun _ => ?_⟩
      by_cases hne : fromClose (given.map Prod.fst) = []
      · unfold fromClose at hne ⊢
        rw [List.map_cons, List.map_nil, List.dropWhile_append, if_pos (by rw [hne]; rfl)]
        simp
      · exact hmore hne
    · obtain ⟨more, hlog, hspeech⟩ := (keeps_handleMessage env c opcode buf length hclose).log
      rcases hd : isDown c.log with _ | _
      · -- nothing has been said about a disconnect, and this message says nothing about it
        have hup : isDown (handleMessage env c opcode buf length).2.log = false := by
          rw [hlog, isDown_speech hspeech, hd]
        rw [hup]
        refine ⟨hsettle ⟨?_, fun h => absurd (hup.symm.trans h) Bool.false_ne_true,
          fun h => absurd (hup.symm.trans h) Bool.false_ne_true⟩,
          fun h => absurd h Bool.false_ne_true⟩
        rw [hlog]
        exact quietLog_speech hsettled.quiet hd hspeech
      · -- the message comes behind a close frame
        have hne := hclosed hd
        have hmem : (opcode, buf.take length) ∈
            fromClose (given.map Prod.fst ++ [(opcode, buf.take length)]) := by
          rw [fromClose_append hne]
          simp
        have hno := hcalm _ hmem
        rw [← hverdict] at hno
        have hholds := verdict_holds env c opcode buf length hle hclose
        have hhushed : Hushed c (handleMessage env c opcode buf length).2 := by
          rcases hv : verdict c (opcode, buf.take length) with _ | _ | _
          · rw [hv] at hholds
            exact hholds.2
          · rw [hv] at hholds
            exact hholds
          · exact absurd hv hno
        exact ⟨hsettle (settled_hushed hsettled hhushed), fun _ => hmore hne⟩

theorem attending_start {c : Client φ} (h : Settled c) (hopen : c.state = .ws)
    (data : List UInt8) : Settled (dataReceived data c) ∧
      Attending (dataReceived data c) (dataReceived data c) [] := by
  have hsettled : Settled (dataReceived data c) :=
    settled_record (e := .received data) h (fun _ => nofun) nofun rfl rfl rfl
      (fun hd => (h.closed hd).1) rfl
  refine ⟨hsettled, .refl _, (List.append_nil _).symm, by simp, fun _ => ⟨hsettled, fun hd => ?_⟩⟩
  have := (hsettled.closed hd).1
  rw [show (dataReceived data c).state = c.state from rfl, hopen] at this
  cases this

/-- A receive call whose messages are calm after a close frame leaves a settled client. -/
theorem settled_fed {env : Env φ} {c : Client φ} (h : Settled c) (hopen : c.state = .ws)
    (hwf : Wf c.rx) (data : List UInt8)
    (hcalm : CalmAfterClose c (attended c (wsRxFeed recorder c.rx [] data).2.2)) :
    Settled (fed env data c).2 := by
  obtain ⟨_, hstart⟩ := attending_start h hopen data
  obtain ⟨given, hatt⟩ := wsRxFeed_ctx (onMessage env)
    (P := fun c' => ∃ given, Attending (dataReceived data c) c' given)
    (fun c' opcode buf length hle h => by
      obtain ⟨given, h⟩ := h
      exact ⟨_, attending_message h opcode buf length hle⟩) hwf ⟨[], hstart⟩ data
  obtain ⟨ds, hds, hpre, hlast, _, _⟩ :=
    wsRxFeed_follows (records_onMessage env) c.rx (dataReceived data c) data
  have hgiven : given = ds := by
    have := hatt.log
    rw [show dispatched (wsRxFeed (onMessage env) c.rx (dataReceived data c) data).2.2.log = _ from hds]
      at this
    exact (List.append_cancel_left this).symm
  subst hgiven
  -- the messages are those of the recorder, up to the first refused one
  have hfrom := wsRxFeed_recorder_from c.rx ((dispatched (dataReceived data c).log).map Prod.fst) [] data
  rw [List.append_nil] at hfrom
  simp only at hds hpre
  rw [hds, List.map_append, hfrom, List.prefix_append_right_inj] at hpre
  have hattended : given.map Prod.fst <+: attended c (wsRxFeed recorder c.rx [] data).2.2 := by
    refine attended_of_prefix c hpre fun m hm hrefused => ?_
    rw [← List.map_dropLast, List.mem_map] at hm
    obtain ⟨x, hx, rfl⟩ := hm
    exact hatt.refused x (List.mem_of_mem_dropLast hx) hrefused (hlast x hx)
  have hsettled := (hatt.settled (calmAfterClose_mono hcalm hattended)).1
  exact ⟨hsettled.quiet, hsettled.flags, hsettled.closed⟩

/-! ## Runs -/

/-- No receive call completes, behind a close frame, a message that would make a callback, a
handshake or a stream. -/
def CalmCall (c : Client φ) (call : Call) : Prop :=
  ∀ data, c.state = .ws → StepGives c call data →
    CalmAfterClose c (attended c (wsRxFeed recorder c.rx [] data).2.2)

theorem settled_effect {env : Env φ} {c c' : Client φ} {call : Call} (h : Settled c)
    (hwf : Wf c.rx) (hcalm : CalmCall c call) (he : Effect env c call c') : Settled c' := by
  have hup : ∀ {d : Client φ} (data : List UInt8), Settled d → d.state = .http →
      Settled (upgradeReceived data d) := fun {d} data hd hstate =>
    settled_record (e := .upgrade data) hd (fun _ => nofun) nofun rfl rfl rfl
      (fun hdown => (hd.closed hdown).1) rfl
  have hfed : ∀ {d : Client φ} (data : List UInt8), Sends c d → c.state = .ws → StepGives c call data →
      Settled (fed env data d).2 := fun {d} data hs hstate hgives => by
    apply settled_fed (settled_sends h hs) (hs.stays.trans hstate) (hs.rx ▸ hwf) data
    rw [hs.rx]
    exact calm_congr hs.callbacks hs.formats (hcalm data hstate hgives)
  cases he with
  | sends hs => exact settled_sends h hs
  | closes hs => exact settled_notifyClosed (settled_sends h hs)
  | connects request prng ticks _ =>
    have hup : isDown (connectedWith request prng ticks c).log = false := isDown_append _ _
    refine ⟨quietLog_snoc h.quiet nofun, ?_, ?_⟩ <;> rw [hup] <;> nofun
  | waits data hs hstate _ => exact hup data (settled_sends h hs) (hs.stays.trans hstate)
  | refuses data hs hstate hs' =>
    exact settled_notifyClosed
      (settled_sends (hup data (settled_sends h hs) (hs.stays.trans hstate)) hs')
  | @upgrades d e data hs hstate hend hs' =>
    have hsettled := settled_sends (hup data (settled_sends h hs) (hs.stays.trans hstate)) hs'
    refine ⟨hsettled.quiet, hsettled.flags, fun hd => ?_⟩
    have hhttp : e.state = .http := (hs'.stays.trans hs.stays).trans hstate
    rw [(hsettled.closed hd).1] at hhttp
    cases hhttp
  | receives data hs hstate _ hgives => exact hfed data hs hstate hgives
  | drops data hs hstate _ hgives => exact settled_notifyClosed (hfed data hs hstate hgives)

/-- Every call of a run is calm. -/
def CalmRun (env : Env φ) : Client φ → List Call → Prop
  | _, [] => True
  | c, call :: calls => CalmCall c call ∧ CalmRun env (afterCall env c call) calls

theorem settled_afterCalls {env : Env φ} {c : Client φ} (h : Settled c)
    (hbuffers : Buffers EAF_SENDPIN_MESSAGE_BYTES CONTROL_BYTES c.rx) {calls : List Call}
    (hcalm : CalmRun env c calls) : Settled (afterCalls env c calls) := by
  induction calls generalizing c with
  | nil => exact h
  | cons call calls ih =>
    have he := effect_afterCall env c call
    exact ih (settled_effect h hbuffers.wf hcalm.1 he) (buffers_effect env hbuffers he) hcalm.2

/-- Once the application is told that it is disconnected, there is no callback, no handshake and
no stream until the next connect, in every state of a run whose calls are calm. -/
theorem quietWhenDown_afterCalls {env : Env φ} {config : Config} {callbacks : Callbacks}
    {calls : List Call} (hcalm : CalmRun env (clientInit env config callbacks) calls) :
    QuietWhenDown (afterCalls env (clientInit env config callbacks) calls) := by
  have hstart : Settled (clientInit env config callbacks) :=
    ⟨fun _ _ _ h => by simp [clientInit] at h, nofun, nofun⟩
  exact (settled_afterCalls hstart buffers_freshRx hcalm).quietWhenDown

/-- A close frame, and a pong behind it. -/
def closePong : List UInt8 := [0x88, 0x02, 0x03, 0xE8] ++ pong

theorem quietWhenDown_closePong :
    QuietWhenDown (reached [dial, receive response, receive closePong]) := by
  refine quietWhenDown_afterCalls ⟨fun _ hs => ?_, fun _ hs => ?_, fun data _ hgives => ?_, trivial⟩
  · exact absurd hs (by decide +kernel)
  · exact absurd hs (by decide +kernel)
  · obtain ⟨input, hcall, _, _, rfl⟩ := hgives
    cases hcall
    unfold CalmAfterClose
    decide +kernel

/-- The text of a message that starts a stream. -/
def streamText : List UInt8 :=
  ascii ("\x7b\"type\":\"stream/start\",\"payload\":\x7b\"player\":\x7b\"codec\":\"pcm\"," ++
    "\"sample_rate\":48000,\"channels\":2,\"bit_depth\":16\x7d\x7d\x7d")

/-- A close frame, and the start of a stream behind it: the application hears of the stream after
it was told that it is disconnected, and the stream is active on a closed client. -/
theorem closeStart_announced :
    let c := reached [dial, receive response,
      receive ([0x88, 0x02, 0x03, 0xE8] ++ 0x81 :: streamText.length.toUInt8 :: streamText)]
    (c.state = .closed ∧ isDown c.log = true ∧ c.streamActive = true) ∧ ¬ QuietWhenDown c := by
  intro c
  have hrun : c.state = .closed ∧ isDown c.log = true ∧ c.streamActive = true := by decide +kernel
  refine ⟨hrun, fun h => ?_⟩
  have := (h.flags hrun.2.1).2
  rw [hrun.2.2] at this
  cases this

end EmbeddedAudio.Sendspin
