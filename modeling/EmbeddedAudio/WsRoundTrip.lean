-- The frames of the encoder (`eaf_sendspin_ws_encode`), fed to a receiver: each
-- one gives its message and nothing else.
import EmbeddedAudio.ClientMessages
import EmbeddedAudio.WsPrompt

namespace EmbeddedAudio.Sendspin

open Storage Ws

/-! ## The frame that the encoder writes -/

/-- The bytes of the frame, wherever they go. -/
def wsFrame (opcode : UInt8) (payload : List UInt8) (maskKey : UInt32) : List UInt8 :=
  let length := payload.length
  let size :=
    if length ≤ 125 then [0x80 ||| length.toUInt8]
    else if length ≤ 0xFFFF then (0x80 ||| 126) :: writeBE 2 length
    else (0x80 ||| 127) :: writeBE 8 length
  (0x80 ||| (opcode &&& 0x0F)) :: size ++ bytesLE maskKey ++
    unmaskBytes (bytesLE maskKey) 0 payload

/-- The encoder writes the whole frame, or nothing. -/
theorem wsEncode_eq (capacity : Nat) (opcode : UInt8) (payload : List UInt8) (maskKey : UInt32) :
    wsEncode capacity opcode payload maskKey =
      if (wsFrame opcode payload maskKey).length ≤ capacity then
        .ok (wsFrame opcode payload maskKey)
      else .error EAF_INVALID := rfl

theorem length_bytesLE (v : UInt32) : (bytesLE v).length = 4 := rfl

theorem length_wsFrame (opcode : UInt8) (payload : List UInt8) (maskKey : UInt32) :
    payload.length < (wsFrame opcode payload maskKey).length := by
  simp only [wsFrame, List.length_append, List.length_cons, length_unmaskBytes, length_bytesLE]
  omega

def maskOf (maskKey : UInt32) : MaskKey :=
  ⟨maskKey.toUInt8, (maskKey >>> 8).toUInt8, (maskKey >>> 16).toUInt8, (maskKey >>> 24).toUInt8⟩

/-- The frame as a value: final and masked. -/
def clientFrame (opcode : UInt8) (payload : List UInt8) (maskKey : UInt32)
    (legal : payload.length < 2 ^ 64) : Frame where
  fin := true
  opcode := opcode
  key := some (maskOf maskKey)
  payload := payload
  legal := legal

theorem wsFrame_eq {opcode : UInt8} {payload : List UInt8} {maskKey : UInt32}
    (hopcode : opcode < 16) (legal : payload.length < 2 ^ 64) :
    wsFrame opcode payload maskKey = (clientFrame opcode payload maskKey legal).encode := by
  have hlow : opcode &&& 0x0F = opcode :=
    forall_byte (p := fun op => op < 16 → op &&& 0x0F = op) (by decide +kernel) opcode hopcode
  have hfirst : (clientFrame opcode payload maskKey legal).firstByte = 0x80 ||| opcode := rfl
  have hsecond : (clientFrame opcode payload maskKey legal).secondByte =
      0x80 ||| lengthCode payload.length := rfl
  have htail : (clientFrame opcode payload maskKey legal).tail =
      lengthBytes payload.length ++ bytesLE maskKey ++ unmaskBytes (bytesLE maskKey) 0 payload := rfl
  unfold wsFrame Frame.encode
  rw [hfirst, hsecond, htail]
  simp only [hlow, lengthCode, lengthBytes]
  by_cases hshort : payload.length ≤ 125
  · simp only [hshort, if_true, List.cons_append, List.nil_append]
  · by_cases hmedium : payload.length ≤ 0xFFFF
    · simp only [hshort, hmedium, if_true, if_false, List.cons_append]
    · simp only [hshort, hmedium, if_false, List.cons_append]

/-! ## Feeding it -/

/-- A receiver that has seen whole messages only. `Buffers` holds of every receiver that was
initialized and fed (`buffers_init`, `buffers_wsRxFeed`). -/
structure Idle (cap : Nat) (rx : WsRx) : Prop where
  buffers : Buffers cap CONTROL_BYTES rx
  no_header : rx.header = []
  whole : rx.fragmenting = false

theorem Idle.atBoundary {cap : Nat} {rx : WsRx} (h : Idle cap rx) : AtBoundary cap rx none := by
  have hready : rx.frameReady = false := by
    by_contra hready
    have hheader := (h.buffers.wf.ready_header (Bool.not_eq_false _ ▸ hready)).1
    rw [h.no_header] at hheader
    cases hheader
  exact ⟨h.buffers.wf, h.no_header, hready, h.buffers.message_size, h.buffers.control_size, h.whole,
    fun m hm => by cases hm⟩

theorem idle_of_atBoundary {cap : Nat} {rx : WsRx} (h : AtBoundary cap rx none) : Idle cap rx :=
  ⟨⟨h.wf, h.message_size, h.control_size⟩, h.no_header, h.fragmenting⟩

/-- An opcode that messages have, with the room that its payload needs. -/
def Sendable (cap : Nat) (opcode : UInt8) (length : Nat) : Prop :=
  if isControl opcode then length ≤ CONTROL_BYTES
  else (opcode = EAF_SENDPIN_WS_TEXT ∨ opcode = EAF_SENDPIN_WS_BINARY) ∧ length ≤ cap

theorem accept_sendable {cap : Nat} {f : Frame} (hfin : f.fin = true)
    (h : Sendable cap f.opcode f.payload.length) :
    accept cap none f = some (none, some (f.opcode, f.payload)) := by
  unfold Sendable at h
  unfold accept
  by_cases hc : isControl f.opcode = true
  · rw [if_pos hc] at h ⊢
    rw [if_pos h]
  · rw [if_neg hc] at h ⊢
    simp only
    rw [if_pos h.1]
    unfold extend
    simp only [List.length_nil, Nat.zero_add, List.nil_append]
    rw [if_pos h.2, if_pos hfin]

/-- What the encoder wrote gives its message, however it is cut into calls: the callback is called
once, and unless it fails the receiver is idle again. -/
theorem wsEncode_roundTrip {σ : Type} (callback : MessageFn σ) (ctx : σ) {cap capacity : Nat}
    (hcapacity : capacity < 2 ^ 64) {rx : WsRx} (hidle : Idle cap rx) {opcode : UInt8}
    {payload : List UInt8} (hsendable : Sendable cap opcode payload.length) {maskKey : UInt32}
    {frame : List UInt8} (hencode : wsEncode capacity opcode payload maskKey = .ok frame)
    {chunks : List (List UInt8)} (hchunks : chunks.flatten = frame) :
    ∃ rx' buf n, buf.take n = payload ∧
      wsRxFeedAll (traced callback) rx (ctx, []) chunks =
        ((callback ctx opcode buf n).1, rx', (callback ctx opcode buf n).2, [(opcode, payload)]) ∧
      ((callback ctx opcode buf n).1 = EAF_OK → Idle cap rx') := by
  rw [wsEncode_eq] at hencode
  split at hencode
  · rename_i hfits
    cases hencode
    have hlong := length_wsFrame opcode payload maskKey
    have legal : payload.length < 2 ^ 64 := by omega
    have haccept : accept cap none (clientFrame opcode payload maskKey legal) =
        some (none, some (opcode, payload)) := accept_sendable rfl hsendable
    have hbound := hidle.atBoundary
    have hopcode : opcode < 16 := opcode_of_accept haccept
    have htail : (clientFrame opcode payload maskKey legal).tail ≠ [] := by
      intro hnil
      have hbare := (tail_eq_nil _).mp hnil
      cases hbare.1
    have hwf := wf_payloadRead (wf_begun (wsRxFeed_head callback hbound hopcode ctx []).2
      (enterFrame_headerRead hbound haccept))
    rw [wsRxFeedAll_eq _ hbound.wf, hchunks, wsFrame_eq hopcode legal,
      wsRxFeed_frame hbound haccept htail]
    rcases giveMessage_spec (traced callback) hbound haccept with
      ⟨hnone, -⟩ | ⟨op, buf, n, hmessage, hgive⟩
    · cases hnone
    · cases hmessage
      refine ⟨(afterFrame (traced callback) rx (clientFrame opcode (buf.take n) maskKey legal)
        (ctx, [])).2.1, buf, n, rfl, ?_, ?_⟩
      · unfold afterFrame
        rw [hgive]
        rfl
      · intro hok
        have hrc : (giveMessage (traced callback) rx (clientFrame opcode (buf.take n) maskKey legal)
            (ctx, [])).1 = EAF_OK := by
          rw [hgive]
          exact hok
        unfold afterFrame
        rw [if_pos hrc]
        exact idle_of_atBoundary (atBoundary_frameDone hbound haccept hwf)
  · cases hencode

/-- A ping of five bytes, cut inside its mask key and inside a word of its payload. -/
theorem wsEncode_roundTrip_ping : ∃ rx' buf n, buf.take n = [1, 2, 3, 4, 5] ∧
    wsRxFeedAll (traced recorder) (wsRxInit []) ([], [])
        [[0x89, 0x85, 4, 3], [2, 1, 5, 1], [1, 5, 1]] =
      ((recorder [] EAF_SENDPIN_WS_PING buf n).1, rx', (recorder [] EAF_SENDPIN_WS_PING buf n).2,
        [(EAF_SENDPIN_WS_PING, [1, 2, 3, 4, 5])]) ∧
    ((recorder [] EAF_SENDPIN_WS_PING buf n).1 = EAF_OK → Idle 0 rx') :=
  @wsEncode_roundTrip _ recorder [] 0 11 (by decide) _ ⟨buffers_init [], rfl, rfl⟩ _ _
    (by unfold Sendable; decide) 0x01020304 _ (by decide) _ rfl

end EmbeddedAudio.Sendspin
