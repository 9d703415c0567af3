-- What goes over a connection of the Sendspin client: the upgrade request and
-- the frames that were queued, in their order, whatever the socket takes at a
-- time.
import EmbeddedAudio.SendspinReconnect
import EmbeddedAudio.TxBuffer
import EmbeddedAudio.WsRoundTrip

namespace EmbeddedAudio.Sendspin

open Storage Ws TxBuffer

variable {φ : Type}

/-! ## The connection in the log -/

/-- The bytes that the socket took. -/
def sentBytes : List Event → List UInt8 :=
  List.flatMap fun
    | .sent data => data
    | _ => []

/-- The bytes of the frames that found room. -/
def queuedBytes : List Event → List UInt8 :=
  List.flatMap fun
    | .queued opcode payload mask => wsFrame opcode payload mask
    | _ => []

theorem sentBytes_append (a b : List Event) : sentBytes (a ++ b) = sentBytes a ++ sentBytes b :=
  List.flatMap_append ..

theorem queuedBytes_append (a b : List Event) :
    queuedBytes (a ++ b) = queuedBytes a ++ queuedBytes b := List.flatMap_append ..

/-- The request with which a connection starts. -/
def IsUpgrade (request : List UInt8) : Prop :=
  ∃ ipv4 port host key, formatHost ipv4 port = .ok host ∧
    buildUpgrade EAF_SENDPIN_WIRE_BYTES host (ascii "/sendspin") key = .ok request

/-- At any time up to the next connect, the bytes that were sent are the first of the request and
of the frames that were queued. -/
def InOrder (request : List UInt8) (after : List Event) : Prop :=
  ∀ part, part <+: after → .connected ∉ part → sentBytes part <+: request ++ queuedBytes part

theorem inOrder_nil (request : List UInt8) : InOrder request [] := by
  intro part hpart _
  rw [List.prefix_nil.mp hpart]
  exact List.nil_prefix

theorem inOrder_snoc {request : List UInt8} {after : List Event} {e : Event}
    (h : InOrder request after)
    (he : .connected ∉ after ++ [e] →
      sentBytes (after ++ [e]) <+: request ++ queuedBytes (after ++ [e])) :
    InOrder request (after ++ [e]) := by
  intro part hpart hsame
  rcases List.prefix_concat_iff.mp hpart with rfl | hshort
  · exact he hsame
  · exact h part hshort hsame

/-- The last connect of a log is one. -/
theorem last_connected {before before' after after' : List Event}
    (h : before ++ .connected :: after = before' ++ .connected :: after')
    (hafter : .connected ∉ after) (hafter' : .connected ∉ after') : after = after' := by
  rcases List.append_eq_append_iff.mp h with ⟨more, -, hmore⟩ | ⟨more, -, hmore⟩
  · rcases more with _ | ⟨x, more⟩
    · exact (List.cons.inj hmore).2
    · rw [List.cons_append] at hmore
      have hin := (List.cons.inj hmore).2
      exact absurd (by rw [hin]; simp) hafter
  · rcases more with _ | ⟨x, more⟩
    · exact (List.cons.inj hmore).2.symm
    · rw [List.cons_append] at hmore
      have hin := (List.cons.inj hmore).2
      exact absurd (by rw [hin]; simp) hafter'

/-! ## The invariant -/

/-- Every connection of a log sent its bytes in order. -/
def AllInOrder (log : List Event) : Prop :=
  ∀ before after, log = before ++ .connected :: after → ∃ request, IsUpgrade request ∧
    InOrder request after

/-- What an open connection has sent, and what is in the buffer for it. -/
def Connected (log : List Event) (wire : List UInt8) (offset : Nat) : Prop :=
  ∃ before after request, log = before ++ .connected :: after ∧ .connected ∉ after ∧
    IsUpgrade request ∧ InOrder request after ∧
    Conveys (request ++ queuedBytes after) (sentBytes after) wire offset

structure Spoken (log : List Event) (wire : List UInt8) (offset : Nat) (up : Bool) : Prop where
  past : AllInOrder log
  now : up = true → Connected log wire offset
  fits : offset ≤ wire.length

/-- What every function of the client keeps. -/
def Speaks (c : Client φ) : Prop := Spoken c.log c.wire c.wireOffset (c.state != .closed)

/-- A log with one more entry, split at a connect. -/
theorem snoc_split {log before after : List Event} {e : Event}
    (h : log ++ [e] = before ++ .connected :: after) :
    (after = [] ∧ e = .connected) ∨
      ∃ after', after = after' ++ [e] ∧ log = before ++ .connected :: after' := by
  rcases List.eq_nil_or_concat' after with rfl | ⟨after', last, rfl⟩
  · have hlast := (List.append_inj' h rfl).2
    exact Or.inl ⟨rfl, (List.cons.inj hlast).1⟩
  · rw [← List.cons_append, ← List.append_assoc] at h
    obtain ⟨hlog, hlast⟩ := List.append_inj' h rfl
    obtain rfl := List.singleton_inj.mp hlast
    exact Or.inr ⟨after', rfl, hlog⟩

section Spoken

variable {log : List Event} {wire : List UInt8} {offset : Nat} {up : Bool} {e : Event}

theorem allInOrder_unsent (h : AllInOrder log) (hcon : e ≠ .connected) (hunsent : sentBytes [e] = []) :
    AllInOrder (log ++ [e]) := by
  intro before after hsplit
  rcases snoc_split hsplit with ⟨-, rfl⟩ | ⟨after', rfl, hlog⟩
  · exact absurd rfl hcon
  · obtain ⟨request, hrequest, horder⟩ := h before after' hlog
    refine ⟨request, hrequest, inOrder_snoc horder ?_⟩
    intro hsame
    have hbefore := horder after' List.prefix_rfl fun hin => hsame (List.mem_append_left _ hin)
    rw [sentBytes_append, hunsent, List.append_nil, queuedBytes_append, ← List.append_assoc]
    exact hbefore.trans (List.prefix_append _ _)

/-- An event that neither connects nor sends, with what it does to the buffer. -/
theorem Spoken.unsent {wire' : List UInt8} {offset' : Nat} (h : Spoken log wire offset up)
    (hcon : e ≠ .connected) (hunsent : sentBytes [e] = []) (hfits : offset' ≤ wire'.length)
    (hqueue : ∀ due sent, Conveys due sent wire offset →
      Conveys (due ++ queuedBytes [e]) sent wire' offset') :
    Spoken (log ++ [e]) wire' offset' up := by
  have hpast := allInOrder_unsent h.past hcon hunsent
  refine ⟨hpast, ?_, hfits⟩
  intro hup
  obtain ⟨before, after, request, hlog, hafter, hrequest, horder, hconveys⟩ := h.now hup
  have hsent : sentBytes (after ++ [e]) = sentBytes after := by
    rw [sentBytes_append, hunsent, List.append_nil]
  refine ⟨before, after ++ [e], request, ?_, ?_, hrequest, ?_, ?_⟩
  · rw [hlog, List.append_assoc, List.cons_append]
  · intro hin
    rcases List.mem_append.mp hin with hold | hnew
    · exact hafter hold
    · exact hcon (List.mem_singleton.mp hnew).symm
  · refine inOrder_snoc horder fun _ => ?_
    rw [hsent, queuedBytes_append, ← List.append_assoc]
    exact (horder after List.prefix_rfl hafter).trans (List.prefix_append _ _)
  · rw [hsent, queuedBytes_append, ← List.append_assoc]
    exact hqueue _ _ hconveys

/-- An event that is none of the buffer. -/
theorem Spoken.other (h : Spoken log wire offset up) (hcon : e ≠ .connected)
    (hunsent : sentBytes [e] = []) (hunqueued : queuedBytes [e] = []) :
    Spoken (log ++ [e]) wire offset up := by
  apply h.unsent hcon hunsent h.fits
  intro due sent hconveys
  rw [hunqueued, List.append_nil]
  exact hconveys

/-- A frame behind those that wait. -/
theorem Spoken.queue {opcode : UInt8} {payload : List UInt8} {mask : UInt32}
    (h : Spoken log wire offset up) :
    Spoken (log ++ [.queued opcode payload mask]) (wire ++ wsFrame opcode payload mask) offset
      up := by
  have hfits : offset ≤ (wire ++ wsFrame opcode payload mask).length := by
    rw [List.length_append]
    exact Nat.le_trans h.fits (Nat.le_add_right _ _)
  have hbytes : queuedBytes [.queued opcode payload mask] = wsFrame opcode payload mask :=
    List.append_nil _
  apply h.unsent (by simp) rfl hfits
  intro due sent hconveys
  rw [hbytes]
  exact hconveys.put h.fits _

/-- What is in the buffer does not change when it is moved. -/
theorem Spoken.buffer {wire' : List UInt8} {offset' : Nat} (h : Spoken log wire offset up)
    (hfits : offset' ≤ wire'.length)
    (hmove : ∀ due sent, Conveys due sent wire offset → Conveys due sent wire' offset') :
    Spoken log wire' offset' up := by
  refine ⟨h.past, ?_, hfits⟩
  intro hup
  obtain ⟨before, after, request, hlog, hafter, hrequest, horder, hconveys⟩ := h.now hup
  exact ⟨before, after, request, hlog, hafter, hrequest, horder, hmove _ _ hconveys⟩

/-- The socket takes some of what waits. -/
theorem Spoken.send (h : Spoken log wire offset true) (n : Nat) :
    Spoken (log ++ [.sent ((wire.drop offset).take n)]) wire
      (offset + ((wire.drop offset).take n).length) true := by
  obtain ⟨before, after, request, hlog, hafter, hrequest, horder, hconveys⟩ := h.now rfl
  have hgive := hconveys.give n
  have hsent : sentBytes (after ++ [.sent ((wire.drop offset).take n)]) =
      sentBytes after ++ (wire.drop offset).take n := by
    rw [sentBytes_append]
    congr 1
    exact List.append_nil _
  have hqueued : queuedBytes (after ++ [.sent ((wire.drop offset).take n)]) = queuedBytes after := by
    rw [queuedBytes_append]
    exact List.append_nil _
  have hnow : InOrder request (after ++ [.sent ((wire.drop offset).take n)]) := by
    refine inOrder_snoc horder fun _ => ?_
    rw [hsent, hqueued]
    exact hgive.leading
  refine ⟨?_, fun _ => ?_, ?_⟩
  · intro before' after' hsplit
    rcases snoc_split hsplit with ⟨-, he⟩ | ⟨after'', rfl, hlog'⟩
    · cases he
    · by_cases hin : .connected ∈ after''
      · obtain ⟨request', hrequest', horder'⟩ := h.past before' after'' hlog'
        refine ⟨request', hrequest', inOrder_snoc horder' fun hsame => ?_⟩
        exact absurd (List.mem_append_left _ hin) hsame
      · obtain rfl := last_connected (hlog.symm.trans hlog') hafter hin
        exact ⟨request, hrequest, hnow⟩
  · refine ⟨before, _, request, ?_, ?_, hrequest, hnow, ?_⟩
    · rw [hlog, List.append_assoc, List.cons_append]
    · simp [hafter]
    · rw [hsent, hqueued]
      exact hgive
  · have hfits := h.fits
    simp only [List.length_take, List.length_drop]
    omega

theorem Spoken.down (h : Spoken log wire offset up) : Spoken log wire offset false :=
  ⟨h.past, Bool.noConfusion, h.fits⟩

/-- A new connection, with nothing but its request. -/
theorem Spoken.connect {request : List UInt8} (h : Spoken log wire offset up)
    (hrequest : IsUpgrade request) : Spoken (log ++ [.connected]) request 0 true := by
  refine ⟨?_, fun _ => ?_, Nat.zero_le _⟩
  · intro before after hsplit
    rcases snoc_split hsplit with ⟨rfl, -⟩ | ⟨after', rfl, hlog⟩
    · exact ⟨request, hrequest, inOrder_nil request⟩
    · obtain ⟨request', hrequest', horder⟩ := h.past before after' hlog
      refine ⟨request', hrequest', inOrder_snoc horder fun hsame => ?_⟩
      exact absurd (by simp) hsame
  · refine ⟨log, [], request, rfl, List.not_mem_nil, hrequest, inOrder_nil request, ?_⟩
    have hdue : request ++ queuedBytes [] = request := List.append_nil request
    rw [hdue]
    exact conveys_start request

end Spoken

section Functions

variable (env : Env φ) {c : Client φ}

/-! ## Sending -/

/-- What is in the buffer and was not sent. -/
def pending (c : Client φ) : List UInt8 := c.wire.drop c.wireOffset

theorem compactWire_keeps (c : Client φ) (needed : Nat) :
    (compactWire c needed).log = c.log ∧ pending (compactWire c needed) = pending c := by
  unfold compactWire
  split
  · exact ⟨rfl, rfl⟩
  · exact ⟨rfl, rfl⟩

theorem compactWire_speaks (needed : Nat) (h : Speaks c) : Speaks (compactWire c needed) := by
  unfold compactWire
  split
  · apply Spoken.buffer h (Nat.zero_le _)
    intro due sent hconveys
    exact hconveys.compact
  · exact h

theorem queueFrame_speaks (opcode : UInt8) (payload : List UInt8) (h : Speaks c) :
    Speaks (queueFrame opcode payload c).2 := by
  have hcompact := compactWire_speaks (payload.length + EAF_SENDPIN_WS_HEADER_MAX) h
  unfold queueFrame
  simp only [wsEncode_eq]
  split
  · exact hcompact
  · rename_i frame hframe
    split at hframe
    · cases hframe
      exact hcompact.queue
    · cases hframe

/-- A frame is queued whole, or there is no room for it and nothing of it is queued. -/
theorem queueFrame_cases (opcode : UInt8) (payload : List UInt8) (c : Client φ) :
    let needed := payload.length + EAF_SENDPIN_WS_HEADER_MAX
    let frame := wsFrame opcode payload (prngNext c.prng)
    let r := queueFrame opcode payload c
    if (compactWire c needed).wire.length + frame.length ≤ EAF_SENDPIN_WIRE_BYTES then
      r.1 = EAF_OK ∧ r.2.log = c.log ++ [.queued opcode payload (prngNext c.prng)]
    else r.1 = EAF_INVALID ∧ r.2.log = c.log ∧ pending r.2 = pending c := by
  obtain ⟨hlog, hpending⟩ := compactWire_keeps c (payload.length + EAF_SENDPIN_WS_HEADER_MAX)
  have hprng : (compactWire c (payload.length + EAF_SENDPIN_WS_HEADER_MAX)).prng = c.prng := by
    unfold compactWire
    split <;> rfl
  have hlong := length_wsFrame opcode payload (prngNext c.prng)
  simp only [queueFrame, wsEncode_eq, hprng]
  by_cases hroom : (compactWire c (payload.length + EAF_SENDPIN_WS_HEADER_MAX)).wire.length +
      (wsFrame opcode payload (prngNext c.prng)).length ≤ EAF_SENDPIN_WIRE_BYTES
  · rw [if_pos hroom, if_pos (by omega)]
    exact ⟨rfl, congrArg (· ++ [_]) hlog⟩
  · rw [if_neg hroom, if_neg (by omega)]
    exact ⟨rfl, hlog, hpending⟩

theorem queueJson_speaks (text : List UInt8) (h : Speaks c) : Speaks (queueJson text c).2 :=
  queueFrame_speaks EAF_SENDPIN_WS_TEXT text h

/-- The buffer is sent as far as the socket takes it. -/
theorem flush_speaks (sends : List (Rc × Nat)) (hopen : c.state ≠ .closed) (h : Speaks c) :
    Speaks (flush sends c).2 := by
  have hclear : ∀ d : Client φ, Speaks d → ¬ d.wireOffset < d.wire.length →
      Speaks { d with wire := [], wireOffset := 0 } := by
    intro d hd hdone
    apply Spoken.buffer hd (Nat.zero_le _)
    intro due sent hconveys
    exact hconveys.clear (Nat.not_lt.mp hdone)
  induction sends generalizing c with
  | nil =>
    unfold flush
    split
    · exact h
    · rename_i hdone
      exact hclear c h hdone
  | cons r sends ih =>
    obtain ⟨rc, sent⟩ := r
    unfold flush
    split
    · have hup : (c.state != .closed) = true := bne_iff_ne.mpr hopen
      have hsend : Speaks (record (.sent ((c.wire.drop c.wireOffset).take sent))
          { c with wireOffset := c.wireOffset + ((c.wire.drop c.wireOffset).take sent).length }) := by
        have hspoken : Spoken c.log c.wire c.wireOffset true := hup ▸ h
        have hsent := hspoken.send sent
        rw [← hup] at hsent
        exact hsent
      simp only
      split
      · exact hsend
      · split
        · exact hsend
        · exact ih hopen hsend
    · rename_i hdone
      exact hclear c h hdone

/-! ## Handling a message -/

theorem callApp_speaks (set : Bool) (e : AppEvent) (h : Speaks c) : Speaks (callApp set e c) := by
  unfold callApp
  split
  · exact Spoken.other h (by simp) rfl rfl
  · exact h

theorem notifyClosed_speaks (h : Speaks c) : Speaks (notifyClosed c) := by
  have hdown : Spoken c.log c.wire c.wireOffset false := h.down
  unfold notifyClosed
  simp only
  split
  · exact hdown
  · apply callApp_speaks _ _
    exact hdown

theorem sendTime_speaks (h : Speaks c) : Speaks (sendTime env c) := by
  unfold sendTime monotonicTime
  simp only
  split
  · exact h
  · rename_i text _
    exact queueJson_speaks text (c := { c with ticks := c.ticks + 1 }) h

theorem onServerHello_speaks (json : Span) (h : Speaks c) : Speaks (onServerHello env json c).2 := by
  unfold onServerHello
  split
  · exact h
  · rename_i hello _
    split
    · have hready := callApp_speaks c.callbacks.ready (.ready hello) h
      simp only
      generalize callApp c.callbacks.ready (.ready hello) c = d at hready ⊢
      split
      · exact hready
      · rename_i text _
        have hqueue := queueJson_speaks text hready
        generalize queueJson text d = r at hqueue ⊢
        obtain ⟨rc, d'⟩ := r
        split
        · exact hqueue
        · have hdone : Speaks { d' with handshaken := true } := hqueue
          have htime := sendTime_speaks env hdone
          simp only
          exact htime
    · exact h

theorem dispatchText_speaks (json : Span) (h : Speaks c) : Speaks (dispatchText env json c).2 := by
  unfold dispatchText
  split
  · exact h
  split
  · exact onServerHello_speaks env json h
  split
  · unfold onServerTime monotonicTime
    split
    · exact h
    · exact h
  split
  · unfold onStreamStart
    split
    · exact h
    · rename_i start _
      simp only
      split
      · exact callApp_speaks _ _ (c := { c with stream := start, streamActive := true }) h
      · exact h
  split
  · exact callApp_speaks _ _ h
  split
  · unfold onStreamEnd
    split
    · exact h
    · exact callApp_speaks _ _ (c := { c with streamActive := false }) h
  split
  · unfold onGroupUpdate
    split
    · exact h
    · exact callApp_speaks _ _ h
  split
  · unfold onServerCommand
    split
    · exact h
    · simp only
      apply callApp_speaks _ _
      split
      · exact h
      · exact h
  · exact h

theorem handleMessage_speaks (opcode : UInt8) (buf : List UInt8) (length : Nat) (h : Speaks c) :
    Speaks (handleMessage env c opcode buf length).2 := by
  unfold handleMessage
  split
  · exact queueFrame_speaks _ _ h
  split
  · exact h
  split
  · exact notifyClosed_speaks h
  split
  · exact dispatchText_speaks env _ h
  split
  · unfold onAudio
    split
    · exact h
    · exact callApp_speaks _ _ h
  · exact h

theorem onMessage_speaks (opcode : UInt8) (buf : List UInt8) (length : Nat) (h : Speaks c) :
    Speaks (onMessage env c opcode buf length).2 := by
  have hhandled := handleMessage_speaks env opcode buf length h
  exact Spoken.other hhandled (by simp) rfl rfl

/-! ## The calls of the application -/

theorem connect_speaks (ipv4 : UInt32) (port : UInt16) (tcpConnect : Rc) (h : Speaks c) :
    Speaks (connect env ipv4 port tcpConnect c).2 := by
  unfold connect monotonicTime
  split
  · exact h
  · simp only
    split
    · exact h
    · rename_i host hhost
      split
      · exact h
      · split
        · exact notifyClosed_speaks (c := { c with
            ticks := c.ticks + 1
            prng := (clientKey (prngInit (env.clock c.ticks).toUInt32)).2
            tcpOpen := true }) h
        · rename_i request hrequest
          exact Spoken.connect h ⟨ipv4, port, host, _, hhost, hrequest⟩

theorem stepHttp_speaks (recv : Rc × List UInt8) (hstate : c.state = .http) (h : Speaks c) :
    Speaks (stepHttp recv c).2 := by
  unfold stepHttp
  simp only
  generalize recv.2.take (EAF_SENDPIN_HTTP_BYTES - c.http.length) = data
  split
  · exact h
  split
  · exact notifyClosed_speaks h
  have hreceived : Speaks (record (.upgrade data) { c with http := c.http ++ data }) :=
    Spoken.other h (by simp) rfl rfl
  have hhttp : (record (.upgrade data) { c with http := c.http ++ data }).state = .http := hstate
  generalize record (.upgrade data) { c with http := c.http ++ data } = d at hreceived hhttp ⊢
  split
  · split
    · exact notifyClosed_speaks hreceived
    · exact hreceived
  split
  · exact notifyClosed_speaks hreceived
  split
  · exact notifyClosed_speaks hreceived
  · rename_i text _
    have hqueue := queueJson_speaks text hreceived
    have hstays := (sends_queueJson text d).stays
    split
    · exact notifyClosed_speaks hqueue
    · -- the connection is open before and behind the upgrade
      unfold Speaks at hqueue
      rw [hstays, hhttp] at hqueue
      exact hqueue

theorem fed_speaks (data : List UInt8) (hwf : Wf c.rx) (h : Speaks c) :
    Speaks (fed env data c).2 := by
  have hreceived : Speaks (dataReceived data c) := Spoken.other h (by simp) rfl rfl
  exact wsRxFeed_ctx (onMessage env) (P := Speaks)
    (fun d opcode buf length _ hd => onMessage_speaks env opcode buf length hd) hwf hreceived data

theorem receiveFrames_speaks (recv : Rc × List UInt8) (hwf : Wf c.rx) (h : Speaks c) :
    Speaks (receiveFrames env recv c).2 := by
  rw [receiveFrames_eq]
  split
  · exact h
  split
  · exact notifyClosed_speaks h
  split
  · exact notifyClosed_speaks (fed_speaks env _ hwf h)
  · exact fed_speaks env _ hwf h

theorem step_speaks (input : StepInput) (hwf : Wf c.rx) (h : Speaks c) :
    Speaks (step env input c).2 := by
  unfold step
  split
  · exact h
  · rename_i hopen
    have hflush := flush_speaks input.sends hopen h
    have hrx := (sends_flush input.sends c).rx
    simp only
    split
    · exact hflush
    split
    · exact notifyClosed_speaks hflush
    split
    · rename_i hstate
      exact stepHttp_speaks input.recv hstate hflush
    · generalize (flush input.sends c).2 = d at hflush hrx ⊢
      rw [← hrx] at hwf
      unfold stepWs monotonicTime
      simp only
      split
      · have htime := sendTime_speaks env (c := { d with ticks := d.ticks + 1 }) hflush
        have hkept := (sends_sendTime env { d with ticks := d.ticks + 1 }).rx
        exact receiveFrames_speaks env input.recv (by rw [hkept]; exact hwf) htime
      · exact receiveFrames_speaks env input.recv (c := { d with ticks := d.ticks + 1 }) hwf hflush

theorem afterCall_speaks (call : Call) (hwf : Wf c.rx) (h : Speaks c) :
    Speaks (afterCall env c call) := by
  cases call with
  | connect ipv4 port tcpConnect => exact connect_speaks env ipv4 port tcpConnect h
  | step input => exact step_speaks env input hwf h
  | close => exact notifyClosed_speaks h

theorem clientInit_speaks (config : Config) (callbacks : Callbacks) :
    Speaks (clientInit env config callbacks) := by
  refine ⟨?_, fun hup => absurd hup Bool.false_ne_true, Nat.le_refl _⟩
  intro before after hsplit
  have hempty : ([] : List Event) = before ++ .connected :: after := hsplit
  cases before <;> cases hempty

theorem afterCalls_speaks (config : Config) (callbacks : Callbacks) (calls : List Call) :
    Speaks (afterCalls env (clientInit env config callbacks) calls) := by
  have hinit := buffers_init (List.replicate EAF_SENDPIN_MESSAGE_BYTES 0)
  rw [List.length_replicate] at hinit
  induction calls using List.reverseRecOn with
  | nil => exact clientInit_speaks env config callbacks
  | append_singleton calls call ih =>
    have hbuffers := buffers_afterCalls env (c := clientInit env config callbacks) hinit calls
    have hlast : afterCalls env (clientInit env config callbacks) (calls ++ [call]) =
        afterCall env (afterCalls env (clientInit env config callbacks) calls) call := by
      simp [afterCalls]
    rw [hlast]
    exact afterCall_speaks env call hbuffers.wf ih

end Functions

/-- A frame that finds no room is an error, and leaves the log and all that waits as they were; one
that finds room is queued. -/
def QueuesWhole (c : Client φ) : Prop :=
  ∀ opcode payload,
    if (compactWire c (payload.length + EAF_SENDPIN_WS_HEADER_MAX)).wire.length +
        (wsFrame opcode payload (prngNext c.prng)).length ≤ EAF_SENDPIN_WIRE_BYTES then
      (queueFrame opcode payload c).1 = EAF_OK ∧
        (queueFrame opcode payload c).2.log = c.log ++ [.queued opcode payload (prngNext c.prng)]
    else (queueFrame opcode payload c).1 = EAF_INVALID ∧
      (queueFrame opcode payload c).2.log = c.log ∧
        pending (queueFrame opcode payload c).2 = pending c

/-- Whatever the socket takes at a time, what went over a connection is the first part of its
upgrade request and of the frames that were queued since, and an open connection has the rest in
its buffer. -/
theorem wire_in_order (env : Env φ) (config : Config) (callbacks : Callbacks) (calls : List Call) :
    let c := afterCalls env (clientInit env config callbacks) calls
    AllInOrder c.log ∧ (c.state ≠ .closed → Connected c.log c.wire c.wireOffset) ∧
      ∀ d : Client φ, QueuesWhole d := by
  have hspeaks := afterCalls_speaks env config callbacks calls
  refine ⟨hspeaks.past, ?_, ?_⟩
  · intro hopen
    exact hspeaks.now (bne_iff_ne.mpr hopen)
  · intro d opcode payload
    exact queueFrame_cases opcode payload d

end EmbeddedAudio.Sendspin
