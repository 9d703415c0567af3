-- What each operation of the Sendspin client may change, read off its log.
-- Handling a message and sending never touch the receiver; only the receive
-- calls of a step do, and they write down every byte and every message.
import EmbeddedAudio.SendspinClient
import EmbeddedAudio.WsIdle

namespace EmbeddedAudio.Sendspin

open Storage Ws

variable {φ : Type}

/-! ## Reading the log -/

/-- An event of a client that only sends. -/
def Event.isSent : Event → Prop
  | .sent _ => True
  | .queued _ _ _ => True
  | _ => False

/-- An event of a client that sends, or that answers a message other than a close frame. -/
def Event.isSpeech : Event → Prop
  | .sent _ => True
  | .queued _ _ _ => True
  | .app e => e ≠ .disconnected
  | _ => False

/-- An event of a client that sends, or that answers a text message. -/
def Event.isReply : Event → Prop
  | .sent _ => True
  | .queued _ _ _ => True
  | .app .disconnected => False
  | .app (.audio _ _ _) => False
  | .app _ => True
  | _ => False

/-- An event that is not one of the connection itself. -/
def Event.isInner : Event → Prop
  | .sent _ => True
  | .queued _ _ _ => True
  | .app _ => True
  | _ => False

theorem Event.reply_of_sent {e : Event} (h : e.isSent) : e.isReply := by
  cases e <;> simp_all [isSent, isReply]

theorem Event.speech_of_reply {e : Event} (h : e.isReply) : e.isSpeech := by
  cases e with
  | sent data => trivial
  | queued opcode payload mask => trivial
  | app e =>
    cases e with
    | disconnected => exact h.elim
    | _ => exact AppEvent.noConfusion
  | _ => exact h.elim

theorem Event.speech_of_sent {e : Event} (h : e.isSent) : e.isSpeech := by
  cases e <;> simp_all [isSent, isSpeech]

theorem Event.inner_of_speech {e : Event} (h : e.isSpeech) : e.isInner := by
  cases e <;> simp_all [isSpeech, isInner]

/-- The messages given to `on_message`, with what it returned. -/
def dispatched : List Event → List (Msg × Rc) :=
  List.filterMap fun
    | .message opcode payload rc => some ((opcode, payload), rc)
    | _ => none

/-- The bytes given to the receiver. -/
def received : List Event → List UInt8 :=
  List.flatMap fun
    | .received data => data
    | _ => []

/-- The bytes received before the connection was upgraded. -/
def upgradeBytes : List Event → List UInt8 :=
  List.flatMap fun
    | .upgrade data => data
    | _ => []

@[simp] theorem dispatched_append (a b : List Event) :
    dispatched (a ++ b) = dispatched a ++ dispatched b := List.filterMap_append ..

@[simp] theorem received_append (a b : List Event) : received (a ++ b) = received a ++ received b :=
  List.flatMap_append ..

@[simp] theorem upgradeBytes_append (a b : List Event) :
    upgradeBytes (a ++ b) = upgradeBytes a ++ upgradeBytes b := List.flatMap_append ..

theorem inner_events {new : List Event} (h : ∀ e ∈ new, e.isInner) :
    dispatched new = [] ∧ received new = [] ∧ upgradeBytes new = [] ∧ Event.connected ∉ new := by
  induction new with
  | nil => exact ⟨rfl, rfl, rfl, List.not_mem_nil⟩
  | cons e new ih =>
    obtain ⟨hd, hr, hu, hc⟩ := ih fun x hx => h x (List.mem_cons_of_mem _ hx)
    have he := h e List.mem_cons_self
    have hmem : ∀ x : Event, x ≠ .connected → Event.connected ∉ x :: new := fun x hne hmem =>
      (List.mem_cons.mp hmem).elim (fun heq => hne heq.symm) hc
    cases e with
    | sent data => exact ⟨hd, hr, hu, hmem _ nofun⟩
    | queued opcode payload mask => exact ⟨hd, hr, hu, hmem _ nofun⟩
    | app e => exact ⟨hd, hr, hu, hmem _ nofun⟩
    | _ => exact he.elim

/-! ## What an operation keeps -/

/-- What is the same after an operation that handles a message or sends, and the events that
it may write down. -/
structure Keeps (allowed : Event → Prop) (c c' : Client φ) : Prop where
  rx : c'.rx = c.rx
  http : c'.http = c.http
  callbacks : c'.callbacks = c.callbacks
  formats : c'.config.formats = c.config.formats
  state : c'.state = c.state ∨ c'.state = .closed
  log : ∃ new, c'.log = c.log ++ new ∧ ∀ e ∈ new, allowed e

section Keeps

variable {allowed allowed' : Event → Prop} {a b c c' : Client φ}

theorem Keeps.refl (c : Client φ) : Keeps allowed c c :=
  ⟨rfl, rfl, rfl, rfl, .inl rfl, [], (List.append_nil _).symm, by simp⟩

theorem Keeps.trans (h : Keeps allowed a b) (h' : Keeps allowed b c) : Keeps allowed a c := by
  obtain ⟨new, hnew, hin⟩ := h.log
  obtain ⟨new', hnew', hin'⟩ := h'.log
  refine ⟨h'.rx.trans h.rx, h'.http.trans h.http, h'.callbacks.trans h.callbacks,
    h'.formats.trans h.formats, ?_, new ++ new', by rw [hnew', hnew, List.append_assoc], ?_⟩
  · rcases h'.state with hs | hs
    · rw [hs]
      exact h.state
    · exact .inr hs
  · intro e he
    exact (List.mem_append.mp he).elim (hin e) (hin' e)

theorem Keeps.mono (h : Keeps allowed c c') (hall : ∀ e, allowed e → allowed' e) :
    Keeps allowed' c c' := by
  obtain ⟨new, hnew, hin⟩ := h.log
  exact { h with log := ⟨new, hnew, fun e he => hall e (hin e he)⟩ }

/-- An operation that writes nothing into the log. -/
theorem Keeps.silent (hrx : c'.rx = c.rx) (hhttp : c'.http = c.http)
    (hcallbacks : c'.callbacks = c.callbacks) (hformats : c'.config.formats = c.config.formats)
    (hstate : c'.state = c.state) (hlog : c'.log = c.log) : Keeps allowed c c' :=
  ⟨hrx, hhttp, hcallbacks, hformats, .inl hstate, [], by rw [hlog, List.append_nil], by simp⟩

theorem Keeps.callApp (h : Keeps allowed c c') (set : Bool) (e : AppEvent)
    (he : allowed (.app e)) : Keeps allowed c (callApp set e c') := by
  unfold Sendspin.callApp
  split
  · exact h.trans ⟨rfl, rfl, rfl, rfl, .inl rfl, [.app e], rfl, by simpa using he⟩
  · exact h

theorem Keeps.dispatched (h : Keeps Event.isInner c c') :
    dispatched c'.log = dispatched c.log := by
  obtain ⟨new, hnew, hin⟩ := h.log
  rw [hnew, dispatched_append, (inner_events hin).1, List.append_nil]

theorem keeps_notifyClosed (c : Client φ) : Keeps Event.isInner c (notifyClosed c) := by
  have hclosed : Keeps Event.isInner c { c with
      tcpOpen := false, state := .closed, handshaken := false, streamActive := false } :=
    ⟨rfl, rfl, rfl, rfl, .inr rfl, [], by simp, by simp⟩
  unfold notifyClosed
  simp only
  split
  · exact hclosed
  · refine Keeps.callApp ?_ _ _ trivial
    exact { hclosed with }

end Keeps

/-! ## Sending -/

/-- An operation that only sends: the connection and the stream are as they were. -/
structure Sends (c c' : Client φ) : Prop extends Keeps Event.isSent c c' where
  stays : c'.state = c.state
  handshaken : c'.handshaken = c.handshaken
  streamActive : c'.streamActive = c.streamActive
  notified : c'.notified = c.notified
  stream : c'.stream = c.stream

theorem Sends.refl (c : Client φ) : Sends c c := ⟨.refl c, rfl, rfl, rfl, rfl, rfl⟩

theorem Sends.trans {a b c : Client φ} (h : Sends a b) (h' : Sends b c) : Sends a c :=
  ⟨h.toKeeps.trans h'.toKeeps, h'.stays.trans h.stays, h'.handshaken.trans h.handshaken,
    h'.streamActive.trans h.streamActive, h'.notified.trans h.notified, h'.stream.trans h.stream⟩

theorem sends_queueFrame (opcode : UInt8) (payload : List UInt8) (c : Client φ) :
    Sends c (queueFrame opcode payload c).2 := by
  have hcompact : ∀ needed, Sends c (compactWire c needed) := by
    intro needed
    unfold compactWire
    split <;> exact ⟨.silent rfl rfl rfl rfl rfl rfl, rfl, rfl, rfl, rfl, rfl⟩
  apply (hcompact (payload.length + EAF_SENDPIN_WS_HEADER_MAX)).trans
  unfold queueFrame
  simp only
  split
  · exact ⟨.silent rfl rfl rfl rfl rfl rfl, rfl, rfl, rfl, rfl, rfl⟩
  · exact ⟨⟨rfl, rfl, rfl, rfl, .inl rfl, [_], rfl, by simp [Event.isSent]⟩,
      rfl, rfl, rfl, rfl, rfl⟩

theorem sends_queueJson (text : List UInt8) (c : Client φ) : Sends c (queueJson text c).2 :=
  sends_queueFrame _ text c

theorem sends_flush (sends : List (Rc × Nat)) (c : Client φ) : Sends c (flush sends c).2 := by
  induction sends generalizing c with
  | nil =>
    unfold flush
    split <;> exact ⟨.silent rfl rfl rfl rfl rfl rfl, rfl, rfl, rfl, rfl, rfl⟩
  | cons r sends ih =>
    obtain ⟨rc, sent⟩ := r
    unfold flush
    split
    · simp only
      generalize (c.wire.drop c.wireOffset).take sent = data
      have hsent : Sends c (record (.sent data)
          { c with wireOffset := c.wireOffset + data.length }) :=
        ⟨⟨rfl, rfl, rfl, rfl, .inl rfl, [.sent data], rfl, by simp [Event.isSent]⟩,
          rfl, rfl, rfl, rfl, rfl⟩
      split
      · exact hsent
      · split
        · exact hsent
        · exact hsent.trans (ih _)
    · exact ⟨.silent rfl rfl rfl rfl rfl rfl, rfl, rfl, rfl, rfl, rfl⟩

theorem sends_sendTime (env : Env φ) (c : Client φ) : Sends c (sendTime env c) := by
  unfold sendTime monotonicTime
  simp only
  split
  · exact ⟨.silent rfl rfl rfl rfl rfl rfl, rfl, rfl, rfl, rfl, rfl⟩
  · rename_i text _
    have hqueue := sends_queueJson text { c with ticks := c.ticks + 1 }
    exact ⟨⟨hqueue.rx, hqueue.http, hqueue.callbacks, hqueue.formats, hqueue.state, hqueue.log⟩,
      hqueue.stays, hqueue.handshaken, hqueue.streamActive, hqueue.notified, hqueue.stream⟩

/-! ## Handling a message -/

section Handlers

variable (env : Env φ) (json : Span) (c : Client φ)

theorem keeps_onServerHello : Keeps Event.isReply c (onServerHello env json c).2 := by
  unfold onServerHello
  split
  · exact .refl c
  · rename_i hello _
    split
    · simp only
      have hcall : Keeps Event.isReply c _ :=
        (Keeps.refl c).callApp c.callbacks.ready (.ready hello) trivial
      split
      · exact hcall
      · rename_i text _
        have hqueue := hcall.trans ((sends_queueJson text _).toKeeps.mono fun _ => Event.reply_of_sent)
        split
        · exact hqueue
        · simp only
          refine Keeps.trans ?_ ((sends_sendTime env _).toKeeps.mono fun _ => Event.reply_of_sent)
          exact ⟨hqueue.rx, hqueue.http, hqueue.callbacks, hqueue.formats, hqueue.state, hqueue.log⟩
    · exact .refl c

theorem keeps_dispatchText : Keeps Event.isReply c (dispatchText env json c).2 := by
  unfold dispatchText
  split
  · exact .refl c
  · split_ifs
    · exact keeps_onServerHello env json c
    · unfold onServerTime monotonicTime
      split <;> exact .silent rfl rfl rfl rfl rfl rfl
    · unfold onStreamStart
      split
      · exact .silent rfl rfl rfl rfl rfl rfl
      · simp only
        split
        · refine Keeps.callApp ?_ _ _ trivial
          exact .silent rfl rfl rfl rfl rfl rfl
        · exact .silent rfl rfl rfl rfl rfl rfl
    · exact (Keeps.refl c).callApp _ _ trivial
    · unfold onStreamEnd
      split
      · exact .refl c
      · refine Keeps.callApp ?_ _ _ trivial
        exact .silent rfl rfl rfl rfl rfl rfl
    · unfold onGroupUpdate
      split
      · exact .refl c
      · exact (Keeps.refl c).callApp _ _ trivial
    · unfold onServerCommand
      split
      · exact .refl c
      · simp only
        split
        · refine Keeps.callApp ?_ _ _ trivial
          exact .silent rfl rfl rfl rfl rfl rfl
        · exact (Keeps.refl c).callApp _ _ trivial
    · exact .refl c

/-- Only a close frame makes the client say that it is disconnected. -/
theorem keeps_handleMessage (opcode : UInt8) (buf : List UInt8) (length : Nat)
    (hclose : opcode ≠ EAF_SENDPIN_WS_CLOSE) :
    Keeps Event.isSpeech c (handleMessage env c opcode buf length).2 := by
  unfold handleMessage
  split_ifs
  · exact (sends_queueFrame _ _ c).toKeeps.mono fun _ => Event.speech_of_sent
  · exact .refl c
  · exact (keeps_dispatchText env _ c).mono fun _ => Event.speech_of_reply
  · unfold onAudio
    split
    · exact .refl c
    · exact (Keeps.refl c).callApp _ _ nofun
  · exact .refl c

theorem handleMessage_close (buf : List UInt8) (length : Nat) :
    handleMessage env c EAF_SENDPIN_WS_CLOSE buf length = (EAF_OK, notifyClosed c) := rfl

/-- No message makes the client change its receiver. -/
theorem keeps_message (opcode : UInt8) (buf : List UInt8) (length : Nat) :
    Keeps Event.isInner c (handleMessage env c opcode buf length).2 := by
  by_cases hclose : opcode = EAF_SENDPIN_WS_CLOSE
  · rw [hclose, handleMessage_close]
    exact keeps_notifyClosed c
  · exact (keeps_handleMessage env c opcode buf length hclose).mono fun _ => Event.inner_of_speech

end Handlers

/-! ## A receive call -/

/-- Every message that the receiver gives is written down once, behind the earlier ones. -/
theorem records_onMessage (env : Env φ) : Records (onMessage env) fun c => dispatched c.log := by
  intro c opcode buf length
  have hkeep := keeps_message env c opcode buf length
  simp only [onMessage, record, dispatched_append, hkeep.dispatched]
  rfl

/-- An event that a receive call may write down. -/
def Event.isFed : Event → Prop
  | .sent _ => True
  | .queued _ _ _ => True
  | .app _ => True
  | .message _ _ _ => True
  | _ => False

theorem Event.fed_of_inner {e : Event} (h : e.isInner) : e.isFed := by
  cases e <;> simp_all [isInner, isFed]

theorem fed_events {new : List Event} (h : ∀ e ∈ new, e.isFed) :
    received new = [] ∧ upgradeBytes new = [] ∧ Event.connected ∉ new := by
  induction new with
  | nil => exact ⟨rfl, rfl, List.not_mem_nil⟩
  | cons e new ih =>
    obtain ⟨hr, hu, hc⟩ := ih fun x hx => h x (List.mem_cons_of_mem _ hx)
    have he := h e List.mem_cons_self
    have hmem : ∀ x : Event, x ≠ .connected → Event.connected ∉ x :: new := fun x hne hmem =>
      (List.mem_cons.mp hmem).elim (fun heq => hne heq.symm) hc
    cases e with
    | sent data => exact ⟨hr, hu, hmem _ nofun⟩
    | queued opcode payload mask => exact ⟨hr, hu, hmem _ nofun⟩
    | app e => exact ⟨hr, hu, hmem _ nofun⟩
    | message opcode payload rc => exact ⟨hr, hu, hmem _ nofun⟩
    | _ => exact he.elim

theorem keeps_feed (env : Env φ) {rx : WsRx} (hwf : Wf rx) (c : Client φ) (data : List UInt8) :
    Keeps Event.isFed c (wsRxFeed (onMessage env) rx c data).2.2 := by
  refine wsRxFeed_ctx _ (P := fun c' => Keeps Event.isFed c c') ?_ hwf (Keeps.refl c) data
  intro c' opcode buf length _ h
  refine h.trans (((keeps_message env c' opcode buf length).mono fun _ => Event.fed_of_inner).trans ?_)
  exact ⟨rfl, rfl, rfl, rfl, .inl rfl, [_], rfl, by simp [Event.isFed]⟩

/-! ## A call of the application -/

/-- The client after a successful connect. -/
def connectedWith (request : List UInt8) (prng : UInt32) (ticks : Nat) (c : Client φ) : Client φ :=
  record .connected { c with
    tcpOpen := true, wire := request, wireOffset := 0, http := [], prng := prng, ticks := ticks,
    notified := false, state := .http }

/-- The client that has received a part of the upgrade response. -/
def upgradeReceived (data : List UInt8) (c : Client φ) : Client φ :=
  record (.upgrade data) { c with http := c.http ++ data }

/-- The client that has received `data`, before it looks at it. -/
def dataReceived (data : List UInt8) (c : Client φ) : Client φ :=
  record (.received data) { c with rxTotal := c.rxTotal + UInt64.ofNat data.length }

/-- The receive call on `data`, with the receiver that it leaves. -/
def fed (env : Env φ) (data : List UInt8) (c : Client φ) : Rc × Client φ :=
  let r := wsRxFeed (onMessage env) c.rx (dataReceived data c) data
  (r.1, { r.2.2 with rx := r.2.1 })

/-- The call is a step that sends everything, and whose receive call gives `data`. -/
def StepGives (c : Client φ) (call : Call) (data : List UInt8) : Prop :=
  ∃ input, call = .step input ∧ (flush input.sends c).1 = EAF_OK ∧ input.recv.1 = EAF_OK ∧
    data = input.recv.2.take EAF_SENDPIN_RX_BYTES

/-- What a call of the application does to a client. -/
inductive Effect (env : Env φ) (c : Client φ) (call : Call) : Client φ → Prop
  | sends {c' : Client φ} (h : Sends c c') : Effect env c call c'
  | closes {c' : Client φ} (h : Sends c c') : Effect env c call (notifyClosed c')
  | connects (request : List UInt8) (prng : UInt32) (ticks : Nat) (h : c.state = .closed) :
      Effect env c call (connectedWith request prng ticks c)
  | waits {c' : Client φ} (data : List UInt8) (h : Sends c c') (hstate : c.state = .http)
      (hend : findHeaderEnd (c.http ++ data) = false) : Effect env c call (upgradeReceived data c')
  | refuses {c' c'' : Client φ} (data : List UInt8) (h : Sends c c') (hstate : c.state = .http)
      (h' : Sends (upgradeReceived data c') c'') : Effect env c call (notifyClosed c'')
  | upgrades {c' c'' : Client φ} (data : List UInt8) (h : Sends c c') (hstate : c.state = .http)
      (hend : findHeaderEnd (c.http ++ data) = true)
      (h' : Sends (upgradeReceived data c') c'') : Effect env c call { c'' with state := .ws }
  | receives {c' : Client φ} (data : List UInt8) (h : Sends c c') (hstate : c.state = .ws)
      (hrc : (fed env data c').1 = EAF_OK) (hgives : StepGives c call data) :
      Effect env c call (fed env data c').2
  | drops {c' : Client φ} (data : List UInt8) (h : Sends c c') (hstate : c.state = .ws)
      (hrc : (fed env data c').1 ≠ EAF_OK) (hgives : StepGives c call data) :
      Effect env c call (notifyClosed (fed env data c').2)

section Calls

variable (env : Env φ) (c : Client φ) {call : Call}

theorem effect_connect (ipv4 : UInt32) (port : UInt16) (tcpConnect : Rc) :
    Effect env c call (connect env ipv4 port tcpConnect c).2 := by
  unfold connect monotonicTime
  split
  · exact .sends (.refl c)
  · rename_i hfree
    have hclosed : c.state = .closed := by
      by_contra hne
      exact hfree (.inl hne)
    simp only
    split
    · exact .sends ⟨.silent rfl rfl rfl rfl rfl rfl, rfl, rfl, rfl, rfl, rfl⟩
    · split
      · exact .sends ⟨.silent rfl rfl rfl rfl rfl rfl, rfl, rfl, rfl, rfl, rfl⟩
      · split
        · refine .closes ?_
          exact ⟨.silent rfl rfl rfl rfl rfl rfl, rfl, rfl, rfl, rfl, rfl⟩
        · exact .connects _ _ _ hclosed

theorem effect_stepHttp {c' : Client φ} (h : Sends c c') (hstate : c.state = .http)
    (recv : Rc × List UInt8) : Effect env c call (stepHttp recv c').2 := by
  unfold stepHttp
  simp only
  generalize recv.2.take (EAF_SENDPIN_HTTP_BYTES - c'.http.length) = data
  split
  · exact .sends h
  · split
    · exact .closes h
    · have hhttp : (record (.upgrade data) { c' with http := c'.http ++ data }).http =
          c.http ++ data := by rw [← h.http]; rfl
      simp only [hhttp]
      split
      · rename_i hend
        split
        · exact .refuses data h hstate (.refl _)
        · exact .waits data h hstate hend
      · rename_i hend
        split
        · exact .refuses data h hstate (.refl _)
        · split
          · exact .refuses data h hstate (.refl _)
          · rename_i text _
            have hqueue := sends_queueJson text (upgradeReceived data c')
            split
            · exact .refuses data h hstate hqueue
            · exact .upgrades data h hstate (by simpa using hend) hqueue

theorem receiveFrames_eq (recv : Rc × List UInt8) :
    receiveFrames env recv c =
      if recv.1 = EAF_AGAIN then (EAF_OK, c)
      else if recv.1 ≠ EAF_OK then fail c
      else if (fed env (recv.2.take EAF_SENDPIN_RX_BYTES) c).1 ≠ EAF_OK then
        fail (fed env (recv.2.take EAF_SENDPIN_RX_BYTES) c).2
      else (EAF_OK, (fed env (recv.2.take EAF_SENDPIN_RX_BYTES) c).2) := rfl

theorem effect_receiveFrames {c' : Client φ} (h : Sends c c') (hstate : c.state = .ws)
    (recv : Rc × List UInt8)
    (hgives : recv.1 = EAF_OK → StepGives c call (recv.2.take EAF_SENDPIN_RX_BYTES)) :
    Effect env c call (receiveFrames env recv c').2 := by
  rw [receiveFrames_eq]
  generalize recv.2.take EAF_SENDPIN_RX_BYTES = data at hgives ⊢
  split
  · exact .sends h
  · split
    · exact .closes h
    · rename_i hok
      split
      · exact .drops _ h hstate ‹_› (hgives (not_not.mp hok))
      · exact .receives _ h hstate (not_not.mp ‹_›) (hgives (not_not.mp hok))

/-- Everything that a call can do. -/
theorem effect_afterCall (call : Call) : Effect env c call (afterCall env c call) := by
  rcases call with ⟨ipv4, port, tcpConnect⟩ | input | _
  · exact effect_connect env c ipv4 port tcpConnect
  · unfold afterCall step
    have hflush := sends_flush input.sends c
    simp only
    split
    · exact .sends (.refl c)
    · rename_i hopen
      split
      · exact .sends hflush
      · split
        · exact .closes hflush
        · rename_i hok
          split
          · rename_i hstate
            exact effect_stepHttp env c hflush (hflush.stays ▸ hstate) input.recv
          · rename_i hstate
            rw [hflush.stays] at hstate
            have hws : c.state = .ws := by
              rcases hs : c.state with _ | _ | _
              · exact absurd hs hopen
              · exact absurd hs hstate
              · rfl
            unfold stepWs monotonicTime
            simp only
            have htick : Sends c { (flush input.sends c).2 with
                ticks := (flush input.sends c).2.ticks + 1 } :=
              hflush.trans ⟨.silent rfl rfl rfl rfl rfl rfl, rfl, rfl, rfl, rfl, rfl⟩
            have hgives : input.recv.1 = EAF_OK →
                StepGives c (.step input) (input.recv.2.take EAF_SENDPIN_RX_BYTES) :=
              fun hrecv => ⟨input, rfl, not_not.mp hok, hrecv, rfl⟩
            split
            · exact effect_receiveFrames env c (htick.trans (sends_sendTime env _)) hws input.recv hgives
            · exact effect_receiveFrames env c htick hws input.recv hgives
  · exact .closes (.refl c)

end Calls

end EmbeddedAudio.Sendspin
