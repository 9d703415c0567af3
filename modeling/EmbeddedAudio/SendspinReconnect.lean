-- What a connection gives to the client depends on nothing but its bytes, if
-- the receiver stands between two frames when the connection begins.
import EmbeddedAudio.SendspinLog

namespace EmbeddedAudio.Sendspin

open Storage Ws

variable {φ : Type}

/-! ## The messages in the bytes of a connection -/

/-- The receiver of a client that was just initialised. -/
def freshRx : WsRx := wsRxInit (List.replicate EAF_SENDPIN_MESSAGE_BYTES 0)

/-- What the receiver of a fresh client makes of `bytes`, if no message is refused. -/
def heard (bytes : List UInt8) : Rc × WsRx × List Msg := wsRxFeed recorder freshRx [] bytes

/-- The messages in `bytes`. -/
def messagesIn (bytes : List UInt8) : List Msg := (heard bytes).2.2

/-- The client was given the messages in `bytes`, up to the first one that it refused. -/
structure FollowsBytes (events : List Event) (bytes : List UInt8) : Prop where
  inOrder : (dispatched events).map Prod.fst <+: messagesIn bytes
  refusedLast : Taken (dispatched events).dropLast
  complete : Taken (dispatched events) → (dispatched events).map Prod.fst = messagesIn bytes

theorem buffers_freshRx : Buffers EAF_SENDPIN_MESSAGE_BYTES CONTROL_BYTES freshRx := by
  have h := buffers_init (List.replicate EAF_SENDPIN_MESSAGE_BYTES 0)
  rwa [List.length_replicate] at h

theorem heard_append {bytes : List UInt8} (h : (heard bytes).1 = EAF_OK) (data : List UInt8) :
    heard (bytes ++ data) = wsRxFeed recorder (heard bytes).2.1 (heard bytes).2.2 data := by
  unfold heard at h ⊢
  rw [wsRxFeed_append buffers_freshRx.wf]
  unfold feedNext
  rw [if_neg (by simp [h])]

/-! ## One receive call -/

/-- A receive call on a client whose receiver is like `rx'`, against the recorder's from `rx'`. -/
theorem fed_spec (env : Env φ) {c : Client φ} (data : List UInt8) {rx' : WsRx} (log : List Msg)
    (h : Alike c.rx rx') (hwf : Wf c.rx) (hwf' : Wf rx') :
    ∃ new, (fed env data c).2.log = c.log ++ .received data :: new ∧ (∀ e ∈ new, e.isFed) ∧
      log ++ (dispatched new).map Prod.fst <+: (wsRxFeed recorder rx' log data).2.2 ∧
      Taken (dispatched new).dropLast ∧ ((fed env data c).1 = EAF_OK → Taken (dispatched new)) ∧
      (Taken (dispatched new) →
        log ++ (dispatched new).map Prod.fst = (wsRxFeed recorder rx' log data).2.2 ∧
        (fed env data c).1 = (wsRxFeed recorder rx' log data).1 ∧
        ((fed env data c).1 = EAF_OK →
          Alike (fed env data c).2.rx (wsRxFeed recorder rx' log data).2.1)) := by
  obtain ⟨new, hnew, hfed⟩ := (keeps_feed env hwf (dataReceived data c) data).log
  obtain ⟨ds, hds, hpre, hlast, hok, heq⟩ :=
    wsRxFeed_follows (records_onMessage env) c.rx (dataReceived data c) data
  obtain ⟨hrc, hlog, halike⟩ := wsRxFeed_alike h hwf hwf' [] data
  simp only at hds hpre heq
  -- both describe the messages of this call
  have hnew' : dispatched new = ds := by
    rw [hnew, dispatched_append] at hds
    exact List.append_cancel_left hds
  subst hnew'
  -- the recorder's log, without what the client's log held before
  have hfrom := wsRxFeed_recorder_from c.rx ((dispatched (dataReceived data c).log).map Prod.fst) [] data
  have hfrom' := wsRxFeed_recorder_from rx' log [] data
  rw [List.append_nil] at hfrom hfrom'
  rw [hds, List.map_append] at hpre heq
  rw [hfrom] at hpre heq
  simp only [List.prefix_append_right_inj, List.append_cancel_left_eq] at hpre heq
  rw [hfrom', ← hlog, ← hrc]
  refine ⟨new, ?_, hfed, ?_, hlast, hok, fun hall => ?_⟩
  · unfold fed
    simp only [hnew]
    simp [dataReceived, record]
  · rwa [List.prefix_append_right_inj]
  · obtain ⟨h1, h2, h3⟩ := heq hall
    refine ⟨by rw [h3], h1, fun hfine => ?_⟩
    have hfine' : (wsRxFeed (onMessage env) c.rx (dataReceived data c) data).1 = EAF_OK := hfine
    rw [h1] at hfine'
    have := halike hfine'
    unfold fed
    simp only [h2]
    exact this

/-! ## A run of one connection -/

/-- The events since a connect, and the client that they lead to. -/
structure Tracks (new : List Event) (c : Client φ) : Prop where
  follows : FollowsBytes new (received new)
  live : c.state ≠ .closed → Taken (dispatched new) ∧ (heard (received new)).1 = EAF_OK ∧
    Alike c.rx (heard (received new)).2.1

theorem tracks_inner {new more : List Event} {c c' : Client φ} (h : Tracks new c)
    (hdispatched : dispatched more = []) (hreceived : received more = [])
    (hrx : c'.rx = c.rx) (hstate : c'.state ≠ .closed → c.state ≠ .closed) :
    Tracks (new ++ more) c' := by
  have hd : dispatched (new ++ more) = dispatched new := by simp [hdispatched]
  have hr : received (new ++ more) = received new := by simp [hreceived]
  refine ⟨?_, ?_⟩
  · rw [hr]
    exact ⟨hd ▸ h.follows.inOrder, hd ▸ h.follows.refusedLast, hd ▸ h.follows.complete⟩
  · intro hopen
    rw [hd, hr, hrx]
    exact h.live (hstate hopen)

/-- The part of the log that leads from the connect to the upgrade. -/
structure Upgrading (new : List Event) (c : Client φ) : Prop where
  http : c.state = .http → c.http = upgradeBytes new ∧ received new = []
  ended : c.state = .ws ∨ received new ≠ [] → findHeaderEnd (upgradeBytes new) = true

/-- What holds of a client since the connect that `new` begins after. -/
structure Followed (new : List Event) (c : Client φ) : Prop where
  tracks : Tracks new c
  upgrading : Upgrading new c
  buffers : Buffers EAF_SENDPIN_MESSAGE_BYTES CONTROL_BYTES c.rx

section Followed

variable {env : Env φ} {new base : List Event} {c c' : Client φ} {call : Call}

theorem followed_keeps {allowed : Event → Prop} (h : Followed new c) (hk : Keeps allowed c c')
    (hall : ∀ e, allowed e → e.isInner) :
    ∃ more, c'.log = c.log ++ more ∧ Followed (new ++ more) c' := by
  obtain ⟨more, hmore, hin⟩ := hk.log
  obtain ⟨hd, hr, hu, _⟩ := inner_events fun e he => hall e (hin e he)
  have hstate : ∀ s, s ≠ .closed → c'.state = s → c.state = s := by
    intro s hs hs'
    rcases hk.state with hsame | hclosed
    · rw [← hsame, hs']
    · exact absurd (hs'.symm.trans hclosed) hs
  refine ⟨more, hmore, ?_, ?_, ?_⟩
  · exact tracks_inner h.tracks hd hr hk.rx fun hopen hc => hopen (by
      rcases hk.state with hsame | hclosed
      · rw [hsame, hc]
      · exact hclosed)
  · refine ⟨fun hs => ?_, fun hs => ?_⟩
    · have := h.upgrading.http (hstate _ nofun hs)
      rw [hk.http, upgradeBytes_append, received_append, hu, hr]
      simpa using this
    · rw [upgradeBytes_append, hu, List.append_nil]
      rw [received_append, hr, List.append_nil] at hs
      exact h.upgrading.ended (hs.imp_left (hstate _ nofun))
  · rw [hk.rx]
    exact h.buffers

theorem followed_sends (h : Followed new c) (hk : Sends c c') :
    ∃ more, c'.log = c.log ++ more ∧ Followed (new ++ more) c' :=
  followed_keeps h hk.toKeeps fun _ he => Event.inner_of_speech (Event.speech_of_sent he)

theorem followed_notifyClosed (h : Followed new c) :
    ∃ more, (notifyClosed c).log = c.log ++ more ∧ Followed (new ++ more) (notifyClosed c) :=
  followed_keeps h (keeps_notifyClosed c) fun _ he => he

theorem followed_upgradeReceived (h : Followed new c) (hstate : c.state = .http)
    (data : List UInt8) : Followed (new ++ [.upgrade data]) (upgradeReceived data c) := by
  obtain ⟨hhttp, hnone⟩ := h.upgrading.http hstate
  have hclosed : c.state ≠ .closed := fun h => ClientState.noConfusion (hstate.symm.trans h)
  refine ⟨tracks_inner h.tracks rfl rfl rfl fun _ => hclosed, ?_, h.buffers⟩
  refine ⟨fun _ => ?_, fun hs => ?_⟩
  · rw [upgradeBytes_append, received_append, hnone, ← hhttp]
    exact ⟨by simp [upgradeReceived, record, upgradeBytes], rfl⟩
  · rcases hs with hs | hs
    · exact ClientState.noConfusion (hs.symm.trans hstate)
    · rw [received_append, hnone] at hs
      exact absurd rfl hs

theorem followed_upgraded (h : Followed new c) (hhttp : c.state = .http)
    (hend : findHeaderEnd c.http = true) : Followed new { c with state := .ws } := by
  refine ⟨⟨h.tracks.follows, fun _ => h.tracks.live (by rw [hhttp]; nofun)⟩, ?_, h.buffers⟩
  refine ⟨nofun, fun _ => ?_⟩
  rw [← (h.upgrading.http hhttp).1]
  exact hend

theorem buffers_heard (bytes : List UInt8) :
    Buffers EAF_SENDPIN_MESSAGE_BYTES CONTROL_BYTES (heard bytes).2.1 :=
  buffers_wsRxFeed buffers_freshRx _ _

variable (env) in
/-- A receive call on a client that is followed. After an error only the closed client is. -/
theorem followed_fed (h : Followed new c) (hstate : c.state = .ws) (data : List UInt8) :
    ∃ more, (fed env data c).2.log = c.log ++ more ∧
      Followed (new ++ more) { (fed env data c).2 with state := .closed } ∧
      ((fed env data c).1 = EAF_OK → Followed (new ++ more) (fed env data c).2) := by
  obtain ⟨htaken, hok, halike⟩ := h.tracks.live (by rw [hstate]; nofun)
  have hwf := (buffers_heard (received new)).wf
  obtain ⟨more, hlog, hfed, hpre, hlast, hrc, heq⟩ :=
    fed_spec env data (messagesIn (received new)) halike h.buffers.wf hwf
  obtain ⟨hr, hu, _⟩ := fed_events hfed
  have hkeep := keeps_feed env h.buffers.wf (dataReceived data c) data
  have hmap := h.tracks.follows.complete htaken
  have hd : dispatched (new ++ .received data :: more) = dispatched new ++ dispatched more :=
    dispatched_append new _
  have hbytes : received (new ++ .received data :: more) = received new ++ data := by
    rw [received_append]
    show received new ++ (data ++ received more) = _
    rw [hr, List.append_nil]
  have hup : upgradeBytes (new ++ .received data :: more) = upgradeBytes new := by
    rw [upgradeBytes_append]
    show upgradeBytes new ++ upgradeBytes more = _
    rw [hu, List.append_nil]
  have hheard : heard (received (new ++ .received data :: more)) =
      wsRxFeed recorder (heard (received new)).2.1 (messagesIn (received new)) data := by
    rw [hbytes, heard_append hok]
    rfl
  have hended : findHeaderEnd (upgradeBytes (new ++ .received data :: more)) = true := by
    rw [hup]
    exact h.upgrading.ended (.inl hstate)
  have hopen : (fed env data c).2.state ≠ .http := by
    rcases hkeep.state with hs | hs
    · intro hh
      exact absurd ((hs.symm.trans hh).symm.trans hstate) nofun
    · intro hh
      exact absurd (hs.symm.trans hh) nofun
  have hfollows : FollowsBytes (new ++ .received data :: more)
      (received (new ++ .received data :: more)) := by
    have hall : Taken (dispatched new ++ dispatched more).dropLast :=
      taken_dropLast_append htaken hlast
    have hin : messagesIn (received (new ++ .received data :: more)) =
        (wsRxFeed recorder (heard (received new)).2.1 (messagesIn (received new)) data).2.2 := by
      rw [← hheard]
      rfl
    rw [← hin] at hpre
    refine ⟨?_, hd ▸ hall, fun hall => ?_⟩ <;> rw [hd, List.map_append, hmap]
    · exact hpre
    · rw [hd] at hall
      rw [hin]
      exact (heq fun x hx => hall x (List.mem_append_right _ hx)).1
  have hbuffers : Buffers EAF_SENDPIN_MESSAGE_BYTES CONTROL_BYTES (fed env data c).2.rx :=
    buffers_wsRxFeed h.buffers _ _
  refine ⟨.received data :: more, hlog, ?_, fun hfine => ?_⟩
  · exact ⟨⟨hfollows, fun hs => absurd rfl hs⟩, ⟨nofun, fun _ => hended⟩, hbuffers⟩
  · obtain ⟨_, hrc', halike'⟩ := heq (hrc hfine)
    refine ⟨⟨hfollows, fun _ => ⟨?_, ?_, ?_⟩⟩, ⟨fun hs => absurd hs hopen, fun _ => hended⟩, hbuffers⟩
    · rw [hd]
      intro x hx
      exact (List.mem_append.mp hx).elim (htaken x) (hrc hfine x)
    · rw [hheard, ← hrc']
      exact hfine
    · rw [hheard]
      exact halike' hfine

/-- The client since the connect that made its log `base`. -/
def Since (base : List Event) (c : Client φ) : Prop := ∃ new, c.log = base ++ new ∧ Followed new c

theorem since_of_followed {more : List Event} (hlog : c.log = base ++ new)
    (h : c'.log = c.log ++ more ∧ Followed (new ++ more) c') : Since base c' :=
  ⟨new ++ more, by rw [h.1, hlog, List.append_assoc], h.2⟩

theorem since_sends (h : Since base c) (hs : Sends c c') : Since base c' := by
  obtain ⟨new, hlog, hf⟩ := h
  obtain ⟨more, hmore⟩ := followed_sends hf hs
  exact since_of_followed hlog hmore

theorem since_notifyClosed (h : Since base c) : Since base (notifyClosed c) := by
  obtain ⟨new, hlog, hf⟩ := h
  obtain ⟨more, hmore⟩ := followed_notifyClosed hf
  exact since_of_followed hlog hmore

theorem since_upgradeReceived (h : Since base c) (hstate : c.state = .http) (data : List UInt8) :
    Since base (upgradeReceived data c) := by
  obtain ⟨new, hlog, hf⟩ := h
  exact since_of_followed hlog ⟨rfl, followed_upgradeReceived hf hstate data⟩

/-- One call on a client, if it does not connect again. -/
theorem since_effect (h : Since base c) (he : Effect env c call c') :
    Since base c' ∨ c'.log = c.log ++ [.connected] := by
  cases he with
  | sends hs => exact .inl (since_sends h hs)
  | closes hs => exact .inl (since_notifyClosed (since_sends h hs))
  | connects request prng ticks _ => exact .inr rfl
  | waits data hs hstate _ =>
    exact .inl (since_upgradeReceived (since_sends h hs) (hs.stays.trans hstate) data)
  | refuses data hs hstate hs' =>
    have hup := since_upgradeReceived (since_sends h hs) (hs.stays.trans hstate) data
    exact .inl (since_notifyClosed (since_sends hup hs'))
  | @upgrades d e data hs hstate hend hs' =>
    have hstate' : (upgradeReceived data d).state = .http := hs.stays.trans hstate
    have hup := since_upgradeReceived (since_sends h hs) (hs.stays.trans hstate) data
    obtain ⟨new, hlog, hf⟩ := since_sends hup hs'
    have hhttp : e.http = c.http ++ data := by
      rw [hs'.http, ← hs.http]
      rfl
    exact .inl ⟨new, hlog, followed_upgraded hf (hs'.stays.trans hstate') (by rw [hhttp, hend])⟩
  | @receives d data hs hstate hrc _ =>
    obtain ⟨new, hlog, hf⟩ := since_sends h hs
    obtain ⟨more, hmore, _, hf'⟩ := followed_fed env hf (hs.stays.trans hstate) data
    exact .inl (since_of_followed hlog ⟨hmore, hf' hrc⟩)
  | @drops d data hs hstate _ _ =>
    obtain ⟨new, hlog, hf⟩ := since_sends h hs
    obtain ⟨more, hmore, hf', _⟩ := followed_fed env hf (hs.stays.trans hstate) data
    have hclosed : Since base { (fed env data d).2 with state := .closed } :=
      since_of_followed hlog ⟨hmore, hf'⟩
    have hnotified := since_notifyClosed hclosed
    exact .inl hnotified

end Followed

/-! ## Runs -/

section Runs

variable (env : Env φ)

/-- A call writes behind what the log holds, and never takes anything back. -/
theorem effect_log {c c' : Client φ} {call : Call} (hwf : Wf c.rx) (he : Effect env c call c') :
    c.log <+: c'.log := by
  have hkeeps : ∀ {allowed : Event → Prop} {d e : Client φ}, Keeps allowed d e → d.log <+: e.log :=
    fun hk => by
      obtain ⟨more, hmore, _⟩ := hk.log
      exact ⟨more, hmore.symm⟩
  have hup : ∀ (data : List UInt8) (d : Client φ), d.log <+: (upgradeReceived data d).log :=
    fun data d => ⟨[.upgrade data], rfl⟩
  have hfed : ∀ (data : List UInt8) (d : Client φ), d.rx = c.rx → d.log <+: (fed env data d).2.log :=
    fun data d hrx => List.IsPrefix.trans ⟨[.received data], rfl⟩
      (hkeeps (keeps_feed env (hrx ▸ hwf) (dataReceived data d) data))
  have hclosed : ∀ d : Client φ, d.log <+: (notifyClosed d).log :=
    fun d => hkeeps (keeps_notifyClosed d)
  cases he with
  | sends hs => exact hkeeps hs.toKeeps
  | closes hs => exact (hkeeps hs.toKeeps).trans (hclosed _)
  | connects request prng ticks _ => exact ⟨[.connected], rfl⟩
  | waits data hs hstate _ => exact (hkeeps hs.toKeeps).trans (hup _ _)
  | refuses data hs hstate hs' =>
    exact (((hkeeps hs.toKeeps).trans (hup _ _)).trans (hkeeps hs'.toKeeps)).trans (hclosed _)
  | @upgrades d e data hs hstate hend hs' =>
    show c.log <+: e.log
    exact ((hkeeps hs.toKeeps).trans (hup _ _)).trans (hkeeps hs'.toKeeps)
  | receives data hs hstate _ _ => exact (hkeeps hs.toKeeps).trans (hfed _ _ hs.rx)
  | drops data hs hstate _ _ => exact ((hkeeps hs.toKeeps).trans (hfed _ _ hs.rx)).trans (hclosed _)

theorem buffers_effect {c c' : Client φ} {call : Call}
    (h : Buffers EAF_SENDPIN_MESSAGE_BYTES CONTROL_BYTES c.rx) (he : Effect env c call c') :
    Buffers EAF_SENDPIN_MESSAGE_BYTES CONTROL_BYTES c'.rx := by
  have hclosed : ∀ d : Client φ, (notifyClosed d).rx = d.rx := fun d => (keeps_notifyClosed d).rx
  cases he with
  | sends hs => rwa [hs.rx]
  | closes hs => rwa [hclosed, hs.rx]
  | connects request prng ticks _ => exact h
  | waits data hs hstate _ =>
    show Buffers _ _ _
    rwa [show (upgradeReceived data _).rx = _ from hs.rx]
  | refuses data hs hstate hs' =>
    rw [hclosed, hs'.rx]
    rwa [show (upgradeReceived data _).rx = _ from hs.rx]
  | @upgrades d e data hs hstate hend hs' =>
    show Buffers _ _ e.rx
    rw [hs'.rx]
    rwa [show (upgradeReceived data d).rx = _ from hs.rx]
  | receives data hs hstate _ _ => exact buffers_wsRxFeed (hs.rx ▸ h) _ _
  | drops data hs hstate _ _ =>
    rw [hclosed]
    exact buffers_wsRxFeed (hs.rx ▸ h) _ _

theorem buffers_afterCalls {c : Client φ}
    (h : Buffers EAF_SENDPIN_MESSAGE_BYTES CONTROL_BYTES c.rx) (calls : List Call) :
    Buffers EAF_SENDPIN_MESSAGE_BYTES CONTROL_BYTES (afterCalls env c calls).rx := by
  induction calls generalizing c with
  | nil => exact h
  | cons call calls ih => exact ih (buffers_effect env h (effect_afterCall env c call))

/-- A run on a client, as long as it does not connect again. -/
theorem since_afterCalls {base : List Event} {c : Client φ} (h : Since base c)
    (hbuffers : Buffers EAF_SENDPIN_MESSAGE_BYTES CONTROL_BYTES c.rx) (calls : List Call) :
    Since base (afterCalls env c calls) ∨
      ∃ new, (afterCalls env c calls).log = base ++ new ∧ .connected ∈ new := by
  induction calls using List.reverseRecOn with
  | nil => exact .inl h
  | append_singleton calls call ih =>
    have he := effect_afterCall env (afterCalls env c calls) call
    rw [show afterCalls env c (calls ++ [call]) = afterCall env (afterCalls env c calls) call by
      simp [afterCalls]]
    rcases ih with hs | ⟨new, hlog, hmem⟩
    · obtain ⟨new, hlog, hf⟩ := hs
      rcases since_effect ⟨new, hlog, hf⟩ he with hs' | hcon
      · exact .inl hs'
      · exact .inr ⟨new ++ [.connected], by rw [hcon, hlog, List.append_assoc], by simp⟩
    · obtain ⟨more, hmore⟩ := effect_log env (buffers_afterCalls env hbuffers calls).wf he
      exact .inr ⟨new ++ more, by rw [← hmore, hlog, List.append_assoc], List.mem_append_left _ hmem⟩

/-- The events of a new connection of `c`, up to some moment before the next connect. -/
def NewConnection (c : Client φ) (events : List Event) : Prop :=
  ∃ ipv4 port tcpConnect after, (connect env ipv4 port tcpConnect c).1 = EAF_OK ∧
    (afterCalls env c (.connect ipv4 port tcpConnect :: after)).log = c.log ++ .connected :: events ∧
    .connected ∉ events

theorem connect_ok {c : Client φ} {ipv4 : UInt32} {port : UInt16} {tcpConnect : Rc}
    (h : (connect env ipv4 port tcpConnect c).1 = EAF_OK) :
    ∃ request prng ticks,
      (connect env ipv4 port tcpConnect c).2 = connectedWith request prng ticks c := by
  unfold connect monotonicTime at h ⊢
  split at h
  · exact absurd h nofun
  · rename_i hfree
    simp only at h ⊢
    split at h
    · exact absurd h nofun
    · rename_i host hhost
      split at h
      · exact absurd h ‹_›
      · rename_i htcp
        split at h
        · exact absurd h nofun
        · rename_i request hrequest
          rw [if_neg hfree]
          simp only [htcp, if_false]
          exact ⟨_, _, _, rfl⟩

/-- A connection that finds the receiver idle is followed from its first event on. -/
theorem followed_newConnection {c : Client φ} {events : List Event}
    (hbuffers : Buffers EAF_SENDPIN_MESSAGE_BYTES CONTROL_BYTES c.rx) (hidle : Idle c.rx)
    (h : NewConnection env c events) : ∃ c' : Client φ, Followed events c' := by
  obtain ⟨ipv4, port, tcpConnect, after, hok, hlog, hsame⟩ := h
  obtain ⟨request, prng, ticks, hconnect⟩ := connect_ok env hok
  have halike : Alike c.rx freshRx := alike_of_idle hidle ⟨rfl, rfl, rfl⟩
    (hbuffers.message_size.trans buffers_freshRx.message_size.symm)
    (hbuffers.control_size.trans buffers_freshRx.control_size.symm)
  have hheard : heard [] = (EAF_OK, freshRx, []) := wsRxFeed_nil _ _
  have hstart : Followed [] (connectedWith request prng ticks c) := by
    refine ⟨⟨⟨by simp [dispatched], by simp [dispatched, Taken], fun _ => ?_⟩, fun _ => ?_⟩,
      ⟨fun _ => ⟨rfl, rfl⟩, fun hs => ?_⟩, hbuffers⟩
    · show [] = messagesIn (received [])
      rw [show received [] = [] from rfl, messagesIn, hheard]
    · rw [show received [] = [] from rfl, hheard]
      exact ⟨by simp [dispatched, Taken], rfl, halike⟩
    · exact hs.elim (fun h => ClientState.noConfusion h) fun hne => absurd rfl hne
  have hrun : afterCalls env c (.connect ipv4 port tcpConnect :: after) =
      afterCalls env (connectedWith request prng ticks c) after := by
    rw [← hconnect]
    rfl
  rw [hrun] at hlog
  have hbase : (connectedWith request prng ticks c).log = c.log ++ [.connected] := rfl
  have hcut : ∀ new, (afterCalls env (connectedWith request prng ticks c) after).log =
      (connectedWith request prng ticks c).log ++ new → new = events := by
    intro new hnew
    rw [hlog, hbase, List.append_assoc] at hnew
    simpa using hnew.symm
  rcases since_afterCalls env ⟨[], (List.append_nil _).symm, hstart⟩ hbuffers after with
    ⟨new, hnew, hf⟩ | ⟨new, hnew, hmem⟩
  · rw [hcut new hnew] at hf
    exact ⟨_, hf⟩
  · rw [hcut new hnew] at hmem
    exact absurd hmem hsame

end Runs

/-! ## Example runs -/

/-- A clock that counts its readings, and a filter that keeps nothing. -/
def plainEnv : Env Unit where
  filterInit := ()
  filterExchange _ _ _ := ()
  timeSynchronized _ := false
  timeError _ := 0
  clock n := UInt64.ofNat n

def plainConfig : Config where
  clientId := some (ascii "id")
  name := some (ascii "name")
  productName := none
  manufacturer := none
  softwareVersion := none
  formats := []
  sampleRate := 48000
  channels := 2
  bitDepth := 16
  bufferCapacity := 4096
  supportVolume := false
  supportMute := false
  volume := 0
  staticDelayMs := 0
  requiredLeadTimeMs := 0
  minBufferMs := 0

def allCallbacks : Callbacks := ⟨true, true, true, true, true, true, true, true⟩

/-- A step whose socket takes everything that is to be sent, and gives `data`. -/
def receive (data : List UInt8) : Call := .step ⟨[(EAF_OK, EAF_SENDPIN_WIRE_BYTES)], (EAF_OK, data)⟩

/-- A step whose receive call fails. -/
def receiveError : Call := .step ⟨[(EAF_OK, EAF_SENDPIN_WIRE_BYTES)], ( EAF_IO, [])⟩

def dial : Call := .connect 0x7F000001 8927 EAF_OK

def response : List UInt8 := ascii "HTTP/1.1 101 Switching Protocols\r\n\r\n"

/-- An unmasked pong with one byte of payload. -/
def pong : List UInt8 := [0x8A, 0x01, 0x00]

/-- The client after some calls. -/
def reached (calls : List Call) : Client Unit :=
  afterCalls plainEnv (clientInit plainEnv plainConfig allCallbacks) calls

/-- What a client writes down since its last connect. -/
def lastEvents (c : Client φ) : List Event :=
  (c.log.reverse.takeWhile (· ≠ .connected)).reverse

/-- A fresh client that receives a pong. -/
theorem newConnection_pong : NewConnection plainEnv (reached [])
    (lastEvents (reached [dial, receive response, receive pong])) :=
  ⟨0x7F000001, 8927, EAF_OK, [receive response, receive pong], by decide +kernel⟩

/-! ## Reconnecting -/

instance (messages : List (Msg × Rc)) : Decidable (Taken messages) :=
  inferInstanceAs (Decidable (∀ x ∈ messages, x.2 = EAF_OK))

/-- The messages end with one that was refused. -/
def EndsRefused (messages : List (Msg × Rc)) : Prop := Taken messages.dropLast ∧ ¬ Taken messages

/-- The same messages, as far as neither client refused one. -/
def SameMessages (a b : List (Msg × Rc)) : Prop :=
  a.map Prod.fst = b.map Prod.fst ∨
    (a.map Prod.fst <+: b.map Prod.fst ∧ EndsRefused a) ∨
    (b.map Prod.fst <+: a.map Prod.fst ∧ EndsRefused b)

theorem sameMessages_of_follows {events events' : List Event} {bytes : List UInt8}
    (h : FollowsBytes events bytes) (h' : FollowsBytes events' bytes) :
    SameMessages (dispatched events) (dispatched events') := by
  by_cases ht : Taken (dispatched events)
  · by_cases ht' : Taken (dispatched events')
    · exact .inl ((h.complete ht).trans (h'.complete ht').symm)
    · exact .inr (.inr ⟨h.complete ht ▸ h'.inOrder, h'.refusedLast, ht'⟩)
  · by_cases ht' : Taken (dispatched events')
    · exact .inr (.inl ⟨h'.complete ht' ▸ h.inOrder, h.refusedLast, ht⟩)
    · -- both ends are refused: the shorter one is a prefix of the other
      rcases List.prefix_or_prefix_of_prefix h.inOrder h'.inOrder with hp | hp
      · exact .inr (.inl ⟨hp, h.refusedLast, ht⟩)
      · exact .inr (.inr ⟨hp, h'.refusedLast, ht'⟩)

theorem buffers_reached (env : Env φ) (config : Config) (callbacks : Callbacks) (calls : List Call) :
    Buffers EAF_SENDPIN_MESSAGE_BYTES CONTROL_BYTES
      (afterCalls env (clientInit env config callbacks) calls).rx :=
  buffers_afterCalls env buffers_freshRx calls

/-- A connection gets the messages that a fresh client gets from the same bytes, if the
connections before it left the receiver idle. -/
theorem reconnect_isolated {env env' : Env φ} {config config' : Config}
    {callbacks callbacks' : Callbacks} (before : List Call) {events fresh : List Event}
    (hidle : Idle (afterCalls env (clientInit env config callbacks) before).rx)
    (h : NewConnection env (afterCalls env (clientInit env config callbacks) before) events)
    (hfresh : NewConnection env' (clientInit env' config' callbacks') fresh)
    (hbytes : received events = received fresh) :
    SameMessages (dispatched events) (dispatched fresh) := by
  obtain ⟨_, hf⟩ := followed_newConnection env (buffers_reached env config callbacks before) hidle h
  obtain ⟨_, hf'⟩ := followed_newConnection env' buffers_freshRx ⟨rfl, rfl, rfl⟩ hfresh
  exact sameMessages_of_follows hf.tracks.follows (hbytes ▸ hf'.tracks.follows)

/-- A connection that ended between two frames, and one after it. -/
theorem reconnect_isolated_closed :
    SameMessages
      (dispatched (lastEvents (reached [dial, receive response, receive pong, receiveError, dial,
        receive response, receive pong])))
      (dispatched (lastEvents (reached [dial, receive response, receive pong]))) :=
  @reconnect_isolated Unit plainEnv plainEnv plainConfig plainConfig allCallbacks allCallbacks
    [dial, receive response, receive pong, receiveError] _ _
    ⟨by decide +kernel, by decide +kernel, by decide +kernel⟩
    ⟨0x7F000001, 8927, EAF_OK, [receive response, receive pong], by decide +kernel⟩
    newConnection_pong (by decide +kernel)

/-- The first connection is cut after the first byte of a frame. The next one has the same bytes
as a fresh client, which gets a message from them. -/
theorem cutHeader_misread :
    ∃ events fresh : List Event,
      NewConnection plainEnv (reached [dial, receive response, receive [0x8A], receiveError]) events ∧
      NewConnection plainEnv (reached []) fresh ∧ received events = received fresh ∧
      ¬ SameMessages (dispatched events) (dispatched fresh) := by
  refine ⟨lastEvents (reached [dial, receive response, receive [0x8A], receiveError, dial,
    receive response, receive pong]), lastEvents (reached [dial, receive response, receive pong]),
    ⟨0x7F000001, 8927, EAF_OK, [receive response, receive pong], by decide +kernel⟩,
    newConnection_pong, by decide +kernel, ?_⟩
  unfold SameMessages EndsRefused
  decide +kernel

end EmbeddedAudio.Sendspin
