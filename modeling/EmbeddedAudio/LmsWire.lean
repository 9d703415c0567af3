-- What goes over the control connection of the LMS client: the greeting and the
-- packets that were queued, in their order, whatever the socket takes at a time.
import EmbeddedAudio.LmsLaws
import EmbeddedAudio.TxBuffer

namespace EmbeddedAudio.Lms

open Storage TxBuffer

/-! ## The connection in the log -/

/-- A control connection: its greeting, the packets that were queued for it, and the bytes that
the socket took. -/
structure Wire where
  hello : List UInt8
  packets : List (List UInt8 × List UInt8)
  sent : List UInt8

def zeroWire : Wire := ⟨[], [], []⟩

/-- A packet on the wire: the opcode, the length of the body, the body. -/
def packetBytes (packet : List UInt8 × List UInt8) : List UInt8 :=
  packet.1 ++ writeBE 4 packet.2.length ++ packet.2

/-- All that the server is to be given. -/
def Wire.due (w : Wire) : List UInt8 := w.hello ++ w.packets.flatMap packetBytes

def wireStep (w : Wire) : Event → Wire
  | .connect .control _ _ rc => if rc = EAF_OK then zeroWire else w
  | .hello packet => { w with hello := packet }
  | .queued opcode body => { w with packets := w.packets ++ [(opcode, body)] }
  | .send .control data _ => { w with sent := w.sent ++ data }
  | _ => w

/-- The control connection that a log ends with. -/
def wire (log : List Event) : Wire := log.foldl wireStep zeroWire

theorem wire_snoc (log : List Event) (e : Event) : wire (log ++ [e]) = wireStep (wire log) e := by
  simp [wire]

/-! ## Packets -/

/-- The four bytes behind an opcode are the length of what follows them. -/
def LengthLeads (bytes : List UInt8) : Prop :=
  8 ≤ bytes.length ∧ readBE (slice bytes 4 4) = bytes.length - 8

/-- The HELO packet of a client. -/
def Greets (hello : List UInt8) : Prop :=
  ∃ mac : Vector UInt8 6,
    helo EAF_LMS_TX_BYTES mac.toList (ascii "Model=eaf,MaxSampleRate=96000,pcm") = .ok hello

theorem lengthLeads_packet {opcode body : List UInt8} {n : Nat} (hopcode : opcode.length = 4)
    (hlength : body.length = n) (hn : n < 2 ^ 32) :
    LengthLeads (opcode ++ writeBE 4 n ++ body) := by
  have hslice : slice (opcode ++ writeBE 4 n ++ body) 4 4 = writeBE 4 n := by
    unfold slice
    rw [List.append_assoc, ← hopcode, List.drop_left, hopcode,
      List.take_append_of_le_length (by simp), List.take_of_length_le (by simp)]
  have htotal : (opcode ++ writeBE 4 n ++ body).length = 8 + n := by
    simp only [List.length_append, length_writeBE, hopcode, hlength]
  refine ⟨by omega, ?_⟩
  rw [hslice, readBE_writeBE 4 n (by simpa using hn)]
  omega

/-- The greeting is a packet like the others. -/
theorem Greets.framed {hello : List UInt8} (h : Greets hello) :
    hello.take 4 = ascii "HELO" ∧ LengthLeads hello := by
  obtain ⟨mac, hmac⟩ := h
  unfold helo at hmac
  split at hmac
  · cases hmac
  · cases hmac
    have hopcode : (ascii "HELO").length = 4 := by decide
    have hcaps : (ascii "Model=eaf,MaxSampleRate=96000,pcm").length = 33 := by decide
    have hlong : (mac.toList).length = 6 := Vector.length_toList
    refine ⟨?_, ?_⟩
    · simp only [List.append_assoc]
      rw [← hopcode, List.take_left]
    · have hbody : ([12, 0] ++ mac.toList ++ List.replicate 28 0 ++
          ascii "Model=eaf,MaxSampleRate=96000,pcm").length = 33 + 36 := by
        simp [hcaps, hlong]
      have hleads := lengthLeads_packet hopcode hbody (by decide)
      rw [hcaps]
      simpa only [List.append_assoc] using hleads

/-- What went over a connection is the first part of what was due, which is framed. -/
structure Framed (w : Wire) : Prop where
  sent : w.sent <+: w.due
  hello : w.sent ≠ [] → Greets w.hello
  packets : ∀ packet ∈ w.packets, packet.1.length = 4 ∧ LengthLeads (packetBytes packet)

theorem framed_zero : Framed zeroWire where
  sent := List.nil_prefix
  hello h := absurd rfl h
  packets := List.forall_mem_nil _

/-! ## The invariant -/

/-- The connections of the log were framed all along, and an open one has the rest of what is due
in the queue. -/
structure Spoken (log : List Event) (tx : List UInt8) (txSent : Nat) (up : Bool) : Prop where
  framed : ∀ before, before <+: log → Framed (wire before)
  conveys : up = true → Conveys (wire log).due (wire log).sent tx txSent
  greets : up = true → Greets (wire log).hello

/-- What every function of the client keeps. -/
def Speaks (c : Client) : Prop := Spoken c.log c.tx c.txSent c.controlOpen

section Spoken

variable {log : List Event} {tx : List UInt8} {txSent : Nat} {up : Bool} {e : Event}

theorem framed_snoc (h : ∀ before, before <+: log → Framed (wire before))
    (he : Framed (wire (log ++ [e]))) : ∀ before, before <+: log ++ [e] → Framed (wire before) := by
  intro before hbefore
  rcases List.prefix_concat_iff.mp hbefore with rfl | hshort
  · exact he
  · exact h before hshort

/-- An event that is none of the control connection. -/
theorem Spoken.other (h : Spoken log tx txSent up) (he : wireStep (wire log) e = wire log) :
    Spoken (log ++ [e]) tx txSent up := by
  have hwire : wire (log ++ [e]) = wire log := (wire_snoc log e).trans he
  refine ⟨framed_snoc h.framed ?_, ?_, ?_⟩
  · rw [hwire]
    exact h.framed log List.prefix_rfl
  · rw [hwire]
    exact h.conveys
  · rw [hwire]
    exact h.greets

theorem Spoken.down (h : Spoken log tx txSent up) (tx' : List UInt8) (txSent' : Nat) :
    Spoken log tx' txSent' false := ⟨h.framed, Bool.noConfusion, Bool.noConfusion⟩

/-- A packet behind the ones that wait. -/
theorem Spoken.queue {opcode body : List UInt8} (h : Spoken log tx txSent up)
    (hsent : txSent ≤ tx.length) (hopcode : opcode.length = 4) (hbody : body.length < 2 ^ 32) :
    Spoken (log ++ [.queued opcode body]) (tx ++ packetBytes (opcode, body)) txSent up := by
  have hwire : wire (log ++ [.queued opcode body]) =
      { wire log with packets := (wire log).packets ++ [(opcode, body)] } := wire_snoc _ _
  have hdue : (wire (log ++ [.queued opcode body])).due =
      (wire log).due ++ packetBytes (opcode, body) := by
    rw [hwire]
    simp [Wire.due]
  have hframed := h.framed log List.prefix_rfl
  refine ⟨framed_snoc h.framed ⟨?_, ?_, ?_⟩, ?_, ?_⟩
  · rw [hdue, hwire]
    exact hframed.sent.trans (List.prefix_append _ _)
  · rw [hwire]
    exact hframed.hello
  · rw [hwire]
    intro packet hpacket
    rcases List.mem_append.mp hpacket with hold | hnew
    · exact hframed.packets packet hold
    · obtain rfl := List.mem_singleton.mp hnew
      exact ⟨hopcode, lengthLeads_packet hopcode rfl hbody⟩
  · intro hup
    rw [hdue, hwire]
    exact (h.conveys hup).put hsent _
  · rw [hwire]
    exact h.greets

/-- The socket takes some of what waits. -/
theorem Spoken.send {rc : Rc} (h : Spoken log tx txSent true) (n : Nat) :
    Spoken (log ++ [.send .control ((tx.drop txSent).take n) rc]) tx
      (txSent + ((tx.drop txSent).take n).length) true := by
  have hwire : wire (log ++ [.send .control ((tx.drop txSent).take n) rc]) =
      { wire log with sent := (wire log).sent ++ (tx.drop txSent).take n } := wire_snoc _ _
  have hgive := (h.conveys rfl).give n
  have hframed := h.framed log List.prefix_rfl
  refine ⟨framed_snoc h.framed ⟨?_, ?_, ?_⟩, ?_, ?_⟩
  · rw [hwire]
    exact hgive.leading
  · rw [hwire]
    exact fun _ => h.greets rfl
  · rw [hwire]
    exact hframed.packets
  · rw [hwire]
    exact fun _ => hgive
  · rw [hwire]
    exact h.greets

/-- A new connection, with nothing but a greeting. -/
theorem Spoken.greet {ipv4 port : Nat} {hello : List UInt8} (h : Spoken log tx txSent up)
    (hgreets : Greets hello) :
    Spoken (log ++ [.connect .control ipv4 port EAF_OK] ++ [.hello hello]) hello 0 true := by
  have hzero : wire (log ++ [.connect .control ipv4 port EAF_OK]) = zeroWire := wire_snoc _ _
  have hwire : wire (log ++ [.connect .control ipv4 port EAF_OK] ++ [.hello hello]) =
      ⟨hello, [], []⟩ := by
    rw [wire_snoc, hzero]
    rfl
  have hdue : Wire.due ⟨hello, [], []⟩ = hello := List.append_nil hello
  refine ⟨framed_snoc (framed_snoc h.framed ?_) ?_, ?_, ?_⟩
  · rw [hzero]
    exact framed_zero
  · rw [hwire]
    exact ⟨List.nil_prefix, fun hne => absurd rfl hne, List.forall_mem_nil _⟩
  · intro _
    rw [hwire, hdue]
    exact conveys_start hello
  · intro _
    rw [hwire]
    exact hgreets

end Spoken

section Functions

variable (env : Env) {c : Client}

theorem speaks_andThen {r : Rc × Client} {next : Client → Rc × Client} (hr : Speaks r.2)
    (hnext : ∀ d, Speaks d → Speaks (next d).2) : Speaks (andThen r next).2 := by
  unfold andThen
  by_cases hok : r.1 = EAF_OK
  · rw [if_pos hok]
    exact hnext r.2 hr
  · rw [if_neg hok]
    exact hr

/-! ## Packets to the server -/

theorem compactTx_pending (c : Client) :
    (compactTx c).tx.drop (compactTx c).txSent = c.tx.drop c.txSent ∧ (compactTx c).txSent = 0 := by
  unfold compactTx
  by_cases hsent : c.txSent ≠ 0
  · rw [if_pos hsent]
    exact ⟨rfl, rfl⟩
  · rw [if_neg hsent]
    exact ⟨rfl, not_not.mp hsent⟩

theorem compactTx_keeps (c : Client) :
    (compactTx c).log = c.log ∧ (compactTx c).controlOpen = c.controlOpen := by
  unfold compactTx
  by_cases hsent : c.txSent ≠ 0
  · rw [if_pos hsent]
    exact ⟨rfl, rfl⟩
  · rw [if_neg hsent]
    exact ⟨rfl, rfl⟩

theorem compactTx_speaks (h : Speaks c) : Speaks (compactTx c) := by
  obtain ⟨hpending, -⟩ := compactTx_pending c
  obtain ⟨hlog, hopen⟩ := compactTx_keeps c
  refine ⟨?_, ?_, ?_⟩
  · rw [hlog]
    exact h.framed
  · rw [hlog, hopen]
    intro hup
    have hconveys := h.conveys hup
    unfold Conveys at hconveys ⊢
    rw [hpending]
    exact hconveys
  · rw [hlog, hopen]
    exact h.greets

/-- A packet that finds no room leaves everything that waits, and the log, as they were. -/
theorem enqueue_failed {opcode body : List UInt8} (h : (enqueue opcode body c).1 ≠ EAF_OK) :
    (enqueue opcode body c).2.log = c.log ∧
      (enqueue opcode body c).2.tx.drop (enqueue opcode body c).2.txSent = c.tx.drop c.txSent := by
  unfold enqueue at h ⊢
  by_cases hroom : body.length > EAF_LMS_TX_BYTES - 8 ∨
      (compactTx c).tx.length > EAF_LMS_TX_BYTES - 8 - body.length
  · simp only [hroom, if_true]
    exact ⟨(compactTx_keeps c).1, (compactTx_pending c).1⟩
  · simp only [hroom, if_false] at h
    exact absurd rfl h

theorem enqueue_speaks {opcode body : List UInt8} (hopcode : opcode.length = 4) (h : Speaks c) :
    Speaks (enqueue opcode body c).2 := by
  have hcompact := compactTx_speaks h
  have hzero := (compactTx_pending c).2
  unfold enqueue
  by_cases hroom : body.length > EAF_LMS_TX_BYTES - 8 ∨
      (compactTx c).tx.length > EAF_LMS_TX_BYTES - 8 - body.length
  · simp only [hroom, if_true]
    exact hcompact
  · simp only [hroom, if_false]
    have hbody : body.length < 2 ^ 32 := by
      unfold EAF_LMS_TX_BYTES at hroom
      omega
    exact hcompact.queue (by rw [hzero]; exact Nat.zero_le _) hopcode hbody

theorem status_speaks (event : List UInt8) (timestamp : Nat) (h : Speaks c) :
    Speaks (status env event timestamp c).2 := by
  have htick : Speaks (monotonicTime env c).2 := h
  exact enqueue_speaks (by decide) htick

/-! ## The commands of the server -/

theorem tcpClose_speaks (socket : Socket) (h : Speaks c) : Speaks (tcpClose socket c) := by
  cases socket with
  | control =>
    unfold tcpClose
    by_cases hopen : c.controlOpen = true
    · simp only [hopen, if_true]
      exact (h.down c.tx c.txSent).other rfl
    · simp only [hopen]
      exact h
  | http =>
    unfold tcpClose
    by_cases hopen : c.httpOpen = true
    · simp only [hopen, if_true]
      exact h.other rfl
    · simp only [hopen]
      exact h

theorem stopStream_speaks (h : Speaks c) : Speaks (stopStream c) := by
  have hclose := tcpClose_speaks .http h
  unfold stopStream
  simp only
  by_cases hstreaming : (tcpClose .http c).streaming = true
  · simp only [hstreaming, if_true]
    exact hclose.other rfl
  · simp only [hstreaming]
    exact hclose

theorem audg_speaks (p : List UInt8) (h : Speaks c) : Speaks (audg env p c).2 := by
  unfold audg
  split_ifs
  · exact h
  · exact h.other rfl
  · exact h

theorem cont_speaks (p : List UInt8) (h : Speaks c) : Speaks (cont p c).2 := by
  unfold cont
  split_ifs
  · exact h
  · exact h
  · exact h
  · exact h.other rfl

theorem unpause_speaks (h : Speaks c) : Speaks (unpause env c).2 := by
  unfold unpause
  split_ifs
  · exact h
  · exact h.other rfl
  · exact h
  · exact h.other rfl

theorem strmU_speaks (s : Stream) (h : Speaks c) : Speaks (strmU env s c).2 := by
  unfold strmU
  split_ifs
  · exact h
  · exact h
  · apply speaks_andThen (unpause_speaks env h)
    intro d hd
    exact status_speaks env _ 0 (c := setPaused false d) hd

theorem strmP_speaks (s : Stream) (h : Speaks c) : Speaks (strmP env s c).2 := by
  unfold strmP
  split_ifs
  · exact h
  · exact h
  · have hpause : Speaks (callPause env true c).2 := h.other rfl
    apply speaks_andThen hpause
    intro d hd
    exact status_speaks env _ 0 (c := setPaused true d) hd

theorem startOutput_speaks (s : Stream) (h : Speaks c) : Speaks (startOutput env s c).2 := by
  unfold startOutput
  simp only
  split_ifs
  · apply speaks_andThen
    · exact h.other rfl
    · intro d hd
      split_ifs
      · exact hd.other rfl
      · exact hd
  · exact h.other rfl

theorem orHangUp_speaks {r : Rc × Client} (h : Speaks r.2) : Speaks (orHangUp r).2 := by
  unfold orHangUp
  split_ifs
  · exact h
  · exact tcpClose_speaks .http h

theorem connectHttp_speaks (ipv4 port : Nat) (h : Speaks c) :
    Speaks (tcpConnect env .http ipv4 port c).2 := by
  unfold tcpConnect
  simp only
  split_ifs
  · exact h.other rfl
  · exact h.other rfl

theorem playStream_speaks (s : Stream) (h : Speaks c) : Speaks (playStream env s c).2 := by
  apply speaks_andThen (connectHttp_speaks env _ _ h)
  intro d hd
  apply speaks_andThen (orHangUp_speaks (startOutput_speaks env s hd))
  intro d hd
  have hopen : Speaks (openStream s d) := hd.other rfl
  exact status_speaks env _ 0 hopen

theorem strmS_speaks (s : Stream) (h : Speaks c) : Speaks (strmS env s c).2 := by
  have hstop := stopStream_speaks h
  unfold strmS
  split_ifs
  · exact hstop
  · exact playStream_speaks env s (c := configure s (stopStream c)) hstop

theorem strm_speaks (p : List UInt8) (h : Speaks c) : Speaks (strm env p c).2 := by
  unfold strm
  split
  · exact h
  · split_ifs
    · exact status_speaks env _ _ h
    · exact status_speaks env _ _ (stopStream_speaks h)
    · exact strmU_speaks env _ h
    · exact strmP_speaks env _ h
    · exact h
    · exact strmS_speaks env _ h

theorem command_speaks (p : List UInt8) (h : Speaks c) : Speaks (command env p c).2 := by
  have hnoted : Speaks (record (.command p) { c with stage := .command, opcode := p.take 4 }) :=
    h.other rfl
  unfold command
  simp only
  split_ifs
  · exact audg_speaks env p hnoted
  · exact cont_speaks p hnoted
  · exact hnoted
  · exact strm_speaks env p hnoted

/-! ## The stream -/

theorem contentTypeLine_speaks (line : List UInt8) (h : Speaks c) :
    Speaks (contentTypeLine line c) := by
  unfold contentTypeLine
  split_ifs
  · exact h
  · exact h

theorem contentLengthLine_speaks (line : List UInt8) (h : Speaks c) :
    Speaks (contentLengthLine line c).2 := by
  unfold contentLengthLine
  split_ifs
  · exact h
  · split
    · exact h
    · exact h
  · exact h

theorem headerLines_speaks (fuel : Nat) (text : List UInt8) (h : Speaks c) :
    Speaks (headerLines fuel text c).2 := by
  induction fuel generalizing text c with
  | zero => exact h
  | succ fuel ih =>
    unfold headerLines
    split_ifs
    · exact h
    · split
      · exact h
      · rename_i line rest _
        refine speaks_andThen ?_ fun d hd => ih rest hd
        unfold headerLine
        split_ifs
        · exact h
        · exact contentLengthLine_speaks line (contentTypeLine_speaks line h)

theorem headers_speaks (h : Speaks c) : Speaks (headers c).2 := by
  unfold headers
  split_ifs
  · exact h
  · split
    · exact h
    · rename_i rest _
      apply speaks_andThen (headerLines_speaks _ rest (c := noteStatus c) h)
      intro d hd
      exact enqueue_speaks (c := completeHeader d) (by decide) hd

theorem headerBytes_speaks (data : List UInt8) (h : Speaks c) :
    Speaks (headerBytes data c).2.2 := by
  induction data generalizing c with
  | nil => exact h
  | cons b rest ih =>
    unfold headerBytes
    split_ifs
    · exact h
    · exact h
    · have hheaders := headers_speaks (c := addHeader b c) h
      generalize headers (addHeader b c) = r at hheaders
      obtain ⟨rc, d⟩ := r
      simp only
      split_ifs
      · exact hheaders
      · exact ih hheaders
    · exact ih (c := addHeader b c) h

theorem ingressFill_speaks (data : List UInt8) (h : Speaks c) :
    Speaks (ingressFill data c).2 := by
  unfold ingressFill
  split
  · exact h
  split
  · exact h
  split
  · exact h
  · exact h

theorem flushPcm_speaks (h : Speaks c) : Speaks (flushPcm env c).2 := by
  have hcall : Speaks (callPcm env c).2 := h.other rfl
  unfold flushPcm
  split_ifs
  · exact h
  · unfold settlePcm
    split_ifs
    · exact hcall
    · exact hcall
    · exact hcall

theorem announceReady_speaks (h : Speaks c) : Speaks (announceReady env c).2 :=
  speaks_andThen (status_speaks env _ 0 h) fun _ hd => hd

theorem releaseOutput_speaks (h : Speaks c) : Speaks (releaseOutput env c).2 := by
  have hcall : Speaks (callRelease env c).2 := h.other rfl
  exact speaks_andThen hcall fun _ hd => hd

theorem announceDone_speaks (h : Speaks c) : Speaks (announceDone env c).2 :=
  speaks_andThen (status_speaks env _ 0 h) fun _ hd => hd

theorem serviceBuffered_speaks (h : Speaks c) : Speaks (serviceBuffered env c).2 := by
  unfold serviceBuffered
  split
  · exact h
  apply speaks_andThen
  · split
    · exact announceReady_speaks env h
    · exact h
  intro d hd
  apply speaks_andThen
  · split
    · exact releaseOutput_speaks env hd
    · exact hd
  intro d hd
  split
  · exact announceDone_speaks env hd
  · exact hd

theorem refill_speaks (h : Speaks c) : Speaks (refill env c).2 := by
  unfold refill
  simp only
  split_ifs
  · exact flushPcm_speaks env (c := setProgress (ingressDecode (clearPcm c))) h
  · exact h
  · exact h

theorem finishInput_speaks (h : Speaks c) : Speaks (finishInput env c).2 := by
  have heof : Speaks (callEof c) := by
    have hrecord : Speaks { record .eof (setProgress c) with inputEof := true } := h.other rfl
    exact tcpClose_speaks .http hrecord
  unfold finishInput
  split_ifs
  · exact h
  · exact serviceBuffered_speaks env heof
  · exact status_speaks env _ 0 heof

theorem sendHttp_speaks (data : List UInt8) (h : Speaks c) :
    Speaks (tcpSend env .http data c).2.2 := h.other rfl

theorem sendRequest_speaks (h : Speaks c) : Speaks (sendRequest env c).2 := by
  have hsend := sendHttp_speaks env (c.request.drop c.requestSent) (c := setStage .httpSend c) h
  unfold sendRequest
  generalize tcpSend env .http (c.request.drop c.requestSent) (setStage .httpSend c) = r at hsend
  obtain ⟨rc, n, d⟩ := r
  simp only
  split_ifs
  · exact hsend
  · exact hsend
  · exact hsend

theorem recv_speaks (socket : Socket) (capacity : Nat) (h : Speaks c) :
    Speaks (tcpRecv env socket capacity c).2.2 := h.other rfl

theorem receiveBody_speaks (data : List UInt8) (h : Speaks c) :
    Speaks (receiveBody data c).2 := by
  have hheader := headerBytes_speaks data (c := countReceived data.length c) h
  unfold receiveBody
  generalize headerBytes data (countReceived data.length c) = r at hheader
  obtain ⟨rc, rest, d⟩ := r
  simp only
  split_ifs
  · exact hheader
  · exact ingressFill_speaks rest (c := setStage .decode d) hheader

theorem receiveHttp_speaks (h : Speaks c) : Speaks (receiveHttp env c).2 := by
  unfold receiveHttp
  simp only
  generalize min (EAF_LMS_INGRESS_BYTES - c.ingress.length) EAF_LMS_RX_BYTES = want
  have hrecv := recv_speaks env .http want (c := setStage .httpRecv c) h
  generalize tcpRecv env .http want (setStage .httpRecv c) = r at hrecv
  obtain ⟨rc, data, d⟩ := r
  simp only
  split_ifs
  · exact hrecv
  · exact hrecv
  · exact hrecv
  · exact hrecv
  · exact receiveBody_speaks data hrecv

theorem pumpBody_speaks (h : Speaks c) : Speaks (pumpBody env c).2 := by
  apply speaks_andThen (flushPcm_speaks env h)
  intro d hd
  apply speaks_andThen (refill_speaks env hd)
  intro d hd
  split_ifs
  · exact finishInput_speaks env hd
  · exact hd
  · exact sendRequest_speaks env hd
  · exact receiveHttp_speaks env hd

theorem pumpHttp_speaks (h : Speaks c) : Speaks (pumpHttp env c).2 := by
  unfold pumpHttp
  split_ifs with hidle
  · exact h
  · apply speaks_andThen (serviceBuffered_speaks env h)
    intro d hd
    split_ifs
    · exact hd
    · exact hd
    · exact announceReady_speaks env hd
    · exact hd
    · exact pumpBody_speaks env hd

/-! ## The calls of the application -/

/-- What the socket takes is written down and counted. -/
theorem sendTx_speaks (hopen : c.controlOpen = true) (h : Speaks c) (stage : Stage)
    {rc : Rc} {n : Nat} {d : Client}
    (hsend : tcpSend env .control (c.tx.drop c.txSent) (setStage stage c) = (rc, n, d)) :
    Speaks (countTx n d) ∧ (rc ≠ EAF_OK → Speaks d) := by
  unfold tcpSend at hsend
  have hlog : (setStage stage c).log = c.log := rfl
  rw [hlog] at hsend
  generalize env.send c.log .control (c.tx.drop c.txSent) = answer at hsend
  obtain ⟨rc', m⟩ := answer
  simp only [Prod.mk.injEq] at hsend
  obtain ⟨rfl, rfl, rfl⟩ := hsend
  by_cases hrc : rc' = EAF_OK
  · subst hrc
    rw [if_pos rfl]
    have hup : Spoken c.log c.tx c.txSent true := hopen ▸ h
    have hsent := @Spoken.send _ _ _ EAF_OK hup m
    rw [← hopen] at hsent
    exact ⟨hsent, fun hne => absurd rfl hne⟩
  · rw [if_neg hrc]
    have hnone : Spoken (c.log ++ [.send .control [] rc']) c.tx c.txSent c.controlOpen :=
      h.other (by simp [wireStep])
    exact ⟨hnone, fun _ => hnone⟩

theorem sendControl_speaks (hopen : c.controlOpen = true) (h : Speaks c) :
    Speaks (sendControl env c).2 := by
  unfold sendControl
  split_ifs with hwaits
  · have hsend := @sendTx_speaks env c hopen h .controlSend
    generalize tcpSend env .control (c.tx.drop c.txSent) (setStage .controlSend c) = r at hsend
    obtain ⟨rc, n, d⟩ := r
    obtain ⟨htaken, hfailed⟩ := hsend rfl
    simp only
    by_cases hrc : rc = EAF_AGAIN ∨ rc = EAF_OK
    · rw [if_pos hrc]
      exact htaken
    · rw [if_neg hrc]
      exact hfailed fun hok => hrc (Or.inr hok)
  · exact h

theorem feedControl_speaks (data : List UInt8) (h : Speaks c) :
    Speaks (feedControl env data c).2 := by
  have hpacket : ∀ packet (d : Client), Speaks d →
      if (command env packet d).1 = EAF_OK then Speaks (command env packet d).2
      else Speaks (command env packet d).2 := by
    intro packet d hd
    rw [ite_self]
    exact command_speaks env packet hd
  have hfeed := @feed_keeps Client (command env) Speaks Speaks hpacket (fun _ hd => hd) c.parser c
    data h
  rw [ite_self] at hfeed
  exact hfeed

theorem recvControl_speaks (h : Speaks c) : Speaks (recvControl env c).2 := by
  have hrecv := recv_speaks env .control 256 (c := setStage .controlRecv c) h
  unfold recvControl
  generalize tcpRecv env .control 256 (setStage .controlRecv c) = r at hrecv
  obtain ⟨rc, data, d⟩ := r
  simp only
  split_ifs
  · exact hrecv
  · exact hrecv
  · exact feedControl_speaks env data (c := noteProgress (data.length != 0) d) hrecv

theorem recordError_speaks (rc : Rc) (h : Speaks c) : Speaks (recordError rc c) := by
  unfold recordError
  split
  · exact h
  · exact h

theorem clientClose_speaks (h : Speaks c) : Speaks (clientClose c) := by
  have hclose := tcpClose_speaks .control (stopStream_speaks h)
  have hclosed : (tcpClose .control (stopStream c)).controlOpen = false := by
    unfold tcpClose
    by_cases hopen : (stopStream c).controlOpen = true
    · simp only [hopen, if_true]
      rfl
    · simp [hopen]
  have hdown : Spoken (clientClose c).log [] 0 false := hclose.down [] 0
  rw [← hclosed] at hdown
  exact hdown

theorem clientStep_speaks (h : Speaks c) : Speaks (clientStep env c).2 := by
  unfold clientStep
  split_ifs with hclosed
  · exact h
  · have hopen : c.controlOpen = true := by simpa using hclosed
    have hsend := sendControl_speaks env (c := beginStep c) hopen h
    have hstep : Speaks
        (andThen (andThen (sendControl env (beginStep c)) (recvControl env)) (pumpHttp env)).2 := by
      refine speaks_andThen (speaks_andThen hsend ?_) ?_
      · exact fun d hd => recvControl_speaks env hd
      · exact fun d hd => pumpHttp_speaks env hd
    unfold orClose
    split_ifs
    · exact hstep
    · exact clientClose_speaks (recordError_speaks _ hstep)

theorem pumpLoop_speaks (begin : UInt64) (maxUs left : Nat) (result : PumpResult) (h : Speaks c) :
    Speaks (pumpLoop env begin maxUs left result c).2.2 := by
  induction left generalizing result c with
  | zero => exact h
  | succ left ih =>
    have hstep := clientStep_speaks env h
    unfold pumpLoop
    generalize clientStep env c = r at hstep
    obtain ⟨rc, d⟩ := r
    simp only
    split_ifs
    · exact hstep
    · exact hstep
    · exact hstep
    · exact ih _ (c := (monotonicTime env d).2) hstep

theorem clientPump_speaks (maxSteps maxUs : Nat) (h : Speaks c) :
    Speaks (clientPump env maxSteps maxUs c).2.2 := by
  unfold clientPump
  split_ifs
  · exact h
  · exact pumpLoop_speaks env _ maxUs maxSteps _ (c := (monotonicTime env c).2) h

theorem reportPlayback_speaks (p : Playback) (h : Speaks c) :
    Speaks (reportPlayback env p c).2 := by
  unfold reportPlayback
  split
  · exact h
  split
  · exact h
  split
  · exact h
  simp only
  generalize (if (p.started && !c.startedSent) = true then ascii "STMs" else ascii "STMt") = event
  have hstatus := status_speaks env event 0 (c := setPlayback p c) h
  generalize status env event 0 (setPlayback p c) = r at hstatus
  obtain ⟨rc, d⟩ := r
  have herror := recordError_speaks rc hstatus
  split
  · exact herror
  · exact herror

theorem clientConnect_speaks (server port : Nat) (mac : Vector UInt8 6) (h : Speaks c) :
    Speaks (clientConnect env server port mac c).2 := by
  unfold clientConnect
  split_ifs with hopen
  · exact h
  · simp only [tcpConnect]
    generalize env.connect c.log .control server port = rc
    by_cases hrc : rc = EAF_OK
    · subst hrc
      simp only [ne_eq, not_true_eq_false, if_false]
      rcases hhelo : helo EAF_LMS_TX_BYTES mac.toList
          (ascii "Model=eaf,MaxSampleRate=96000,pcm") with _ | hello
      · -- there is always room for the greeting
        exfalso
        have hcaps : (ascii "Model=eaf,MaxSampleRate=96000,pcm").length = 33 := by decide
        simp [helo, hcaps, EAF_LMS_MAX_PACKET, EAF_LMS_TX_BYTES] at hhelo
      · exact h.greet ⟨mac, hhelo⟩
    · simp only [ne_eq, hrc, not_false_eq_true, if_true]
      have hfailed : Speaks (record (.connect .control server port rc)
          { c with diagnostics := zeroDiagnostics, stage := .connect }) :=
        h.other (by simp [wireStep, hrc])
      exact recordError_speaks rc hfailed

/-! ## Runs -/

theorem afterCall_speaks (call : Call) (h : Speaks c) : Speaks (afterCall env c call) := by
  cases call with
  | connect server port mac => exact clientConnect_speaks env server port mac h
  | step => exact clientStep_speaks env h
  | pump maxSteps maxUs => exact clientPump_speaks env maxSteps maxUs h
  | report playback => exact reportPlayback_speaks env playback h
  | close => exact clientClose_speaks h

theorem afterCalls_speaks (calls : List Call) (h : Speaks c) : Speaks (afterCalls env c calls) := by
  induction calls generalizing c with
  | nil => exact h
  | cons call calls ih => exact ih (afterCall_speaks env call h)

theorem clientInit_speaks {callbacks : Callbacks} (h : clientInit callbacks = .ok c) :
    Speaks c := by
  unfold clientInit at h
  split at h
  · cases h
  · cases h
    refine ⟨?_, Bool.noConfusion, Bool.noConfusion⟩
    intro before hbefore
    rw [List.prefix_nil.mp hbefore]
    exact framed_zero

end Functions

/-- What a run has put on its control connections is framed all along, and an open connection has
the rest of what is due in its queue. -/
structure InOrder (c : Client) : Prop where
  framed : ∀ before, before <+: c.log → Framed (wire before)
  greets : c.controlOpen = true → Greets (wire c.log).hello
  conveys : c.controlOpen = true →
    Conveys (wire c.log).due (wire c.log).sent c.tx c.txSent

/-- A packet that finds no room leaves the log, and everything that waits, as they were. -/
def LosesNothing (c : Client) : Prop :=
  ∀ opcode body, (enqueue opcode body c).1 ≠ EAF_OK →
    (enqueue opcode body c).2.log = c.log ∧
      (enqueue opcode body c).2.tx.drop (enqueue opcode body c).2.txSent = c.tx.drop c.txSent

/-- Whatever the socket takes at a time, what went over a control connection is the first part of
its greeting and of the packets that were queued for it, and a packet that finds no room changes
nothing of that. -/
theorem control_in_order {callbacks : Callbacks} {c : Client} (h : clientInit callbacks = .ok c)
    (env : Env) (calls : List Call) :
    InOrder (afterCalls env c calls) ∧ (∀ d : Client, LosesNothing d) ∧
      ∀ hello, Greets hello → hello.take 4 = ascii "HELO" ∧ LengthLeads hello := by
  have hspeaks := afterCalls_speaks env calls (clientInit_speaks h)
  refine ⟨⟨hspeaks.framed, hspeaks.greets, hspeaks.conveys⟩, ?_, ?_⟩
  · intro d opcode body hfailed
    exact enqueue_failed hfailed
  · intro hello hgreets
    exact hgreets.framed

/-- A socket that takes ten bytes at a time, and a server that asks for the status. -/
def trickling : Env :=
  { scripted [[], strmPacket 0x74 0] [] with send := fun _ _ _ => (EAF_OK, 10) }

theorem control_in_order_trickling : ∃ c, clientInit legacyOutput = .ok c ∧
    (wire (afterCalls trickling c (stepping 8)).log).sent.length = 80 ∧
    (wire (afterCalls trickling c (stepping 8)).log).packets.length = 1 ∧
    (InOrder (afterCalls trickling c (stepping 8)) ∧ (∀ d : Client, LosesNothing d) ∧
      ∀ hello, Greets hello → hello.take 4 = ascii "HELO" ∧ LengthLeads hello) :=
  ⟨_, rfl, by decide +kernel, by decide +kernel,
    @control_in_order legacyOutput _ rfl trickling (stepping 8)⟩

end EmbeddedAudio.Lms
