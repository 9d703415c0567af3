-- The bounds of the receiver: whatever bytes a peer sends, however they are cut,
-- whatever the callbacks answer and however often it is called behind an error,
-- the receiver writes inside its buffers only.
import EmbeddedAudio.WsFrames

namespace EmbeddedAudio.Ws

open Storage

/-! ## Writes -/

inductive Buffer where
  | header
  | control
  | message
  deriving DecidableEq, Repr

/-- A write of the receive loop: the cells of a buffer that it covers. -/
structure Write where
  buffer : Buffer
  pos : Nat
  length : Nat
  deriving DecidableEq, Repr

def Write.Covers (w : Write) (buffer : Buffer) (i : Nat) : Prop :=
  w.buffer = buffer ∧ w.pos ≤ i ∧ i < w.pos + w.length

/-- How many cells a buffer has, next to a message buffer of `cap` cells. -/
def Buffer.size (cap : Nat) : Buffer → Nat
  | .header => EAF_SENDPIN_WS_HEADER_MAX
  | .control => CONTROL_BYTES
  | .message => cap

def Write.Inside (cap : Nat) (w : Write) : Prop := w.pos + w.length ≤ w.buffer.size cap

/-- The payload copy of a turn that has `n` bytes left. -/
def payloadWrites (rx : WsRx) (n : Nat) : List Write :=
  if (enterFrame rx).1 ≠ EAF_OK then []
  else if isControl (enterFrame rx).2.opcode then
    [⟨.control, (enterFrame rx).2.controlLength, min n (missing (enterFrame rx).2)⟩]
  else [⟨.message, (enterFrame rx).2.messageLength, min n (missing (enterFrame rx).2)⟩]

/-- The writes of one turn of the receive loop. -/
def turnWrites (rx : WsRx) (b : UInt8) (data : List UInt8) : List Write :=
  if rx.header.length < 2 then [⟨.header, rx.header.length, 1⟩]
  else
    let rx' := growHeader rx ((b :: data).take (headerMissing rx))
    ⟨.header, rx.header.length, ((b :: data).take (headerMissing rx)).length⟩ ::
      if rx'.header.length < rx'.headerNeeded then []
      else payloadWrites rx' ((b :: data).drop (headerMissing rx)).length

/-! ## The bounds -/

/-- A header is counted against its length as soon as its first two bytes say what that is. -/
structure Bounds (cap : Nat) (rx : WsRx) : Prop where
  header_max : rx.header.length ≤ EAF_SENDPIN_WS_HEADER_MAX
  header_needed : 2 ≤ rx.header.length → rx.header.length ≤ rx.headerNeeded
  message_max : rx.messageLength ≤ cap
  control_max : rx.controlLength ≤ CONTROL_BYTES
  payload_used : rx.payloadUsed ≤ rx.payloadLength

section Receiver

variable {cap : Nat} {rx : WsRx}

theorem headerLength_le (header : List UInt8) : (headerLength header).2 ≤ 10 := by
  unfold headerLength
  simp only
  split_ifs
  · simp
  · simp
  · simp

/-- A header that has been read so far is as long as a header may be. -/
theorem needed_le (h : Wf rx) (hlen : 2 ≤ rx.header.length) :
    rx.header.length ≤ rx.headerNeeded ∧ rx.headerNeeded ≤ EAF_SENDPIN_WS_HEADER_MAX := by
  obtain ⟨hle, hneeded⟩ := h.header_shape hlen
  have hposition := headerLength_le rx.header
  refine ⟨hle, ?_⟩
  rw [hneeded]
  show _ ≤ 14
  rcases rx.masked with _ | _
  · rw [if_neg Bool.false_ne_true]
    omega
  · rw [if_pos rfl]
    omega

theorem bounds_of_buffers (h : Buffers cap CONTROL_BYTES rx) : Bounds cap rx where
  header_max := by
    rcases Nat.lt_or_ge rx.header.length 2 with hshort | hlen
    · show _ ≤ 14
      omega
    · exact Nat.le_trans (needed_le h.wf hlen).1 (needed_le h.wf hlen).2
  header_needed hlen := (needed_le h.wf hlen).1
  message_max := h.message_size ▸ h.wf.message_le
  control_max := h.control_size ▸ h.wf.control_le
  payload_used := h.wf.used_le

theorem buffers_growHeader (h : Buffers cap CONTROL_BYTES rx) (hlen : 2 ≤ rx.header.length)
    (data : List UInt8) :
    Buffers cap CONTROL_BYTES (growHeader rx (data.take (headerMissing rx))) :=
  ⟨wf_growHeader h.wf hlen data, h.message_size, h.control_size⟩

/-- Beginning a frame writes to no buffer. -/
theorem enterFrame_buffers (rx : WsRx) :
    (enterFrame rx).2.message = rx.message ∧ (enterFrame rx).2.control = rx.control := by
  obtain ⟨-, -, -, -, -, -, -, hmessage, hcontrol⟩ := beginFrame_frame rx
  unfold enterFrame
  split
  · exact ⟨rfl, rfl⟩
  · simp only
    split
    · exact ⟨hmessage, hcontrol⟩
    · exact ⟨hmessage, hcontrol⟩

theorem buffers_enterFrame (h : Buffers cap CONTROL_BYTES rx) (hlen : 2 ≤ rx.header.length)
    (hdone : rx.headerNeeded ≤ rx.header.length) :
    Buffers cap CONTROL_BYTES (enterFrame rx).2 := by
  obtain ⟨hmessage, hcontrol⟩ := enterFrame_buffers rx
  refine ⟨wf_enterFrame h.wf hlen hdone, ?_, ?_⟩
  · rw [hmessage]
    exact h.message_size
  · rw [hcontrol]
    exact h.control_size

theorem payloadWrites_inside (h : Buffers cap CONTROL_BYTES rx) (hlen : 2 ≤ rx.header.length)
    (hdone : rx.headerNeeded ≤ rx.header.length) (n : Nat) :
    ∀ w ∈ payloadWrites rx n, w.Inside cap := by
  have henter := buffers_enterFrame h hlen hdone
  intro w hw
  unfold payloadWrites at hw
  split at hw
  · cases hw
  · rename_i hok
    have hready := enterFrame_ready (not_not.mp hok)
    split at hw
    · rename_i hc
      obtain rfl := List.mem_singleton.mp hw
      have hfit := henter.wf.control_fit hready hc
      rw [henter.control_size] at hfit
      simp only [Write.Inside, Buffer.size, missing]
      omega
    · rename_i hc
      obtain rfl := List.mem_singleton.mp hw
      have hfit := henter.wf.message_fit hready (Bool.not_eq_true _ ▸ hc)
      rw [henter.message_size] at hfit
      simp only [Write.Inside, Buffer.size, missing]
      omega

/-- Every write of a turn stays inside its buffer. -/
theorem turnWrites_inside (h : Buffers cap CONTROL_BYTES rx) (b : UInt8) (data : List UInt8) :
    ∀ w ∈ turnWrites rx b data, w.Inside cap := by
  intro w hw
  unfold turnWrites at hw
  split at hw
  · rename_i hshort
    obtain rfl := List.mem_singleton.mp hw
    show rx.header.length + 1 ≤ 14
    omega
  · rename_i hlong
    have hlen : 2 ≤ rx.header.length := Nat.not_lt.mp hlong
    have hgrow := buffers_growHeader h hlen (b :: data)
    have hneeded := needed_le h.wf hlen
    rcases List.mem_cons.mp hw with rfl | hw
    · simp only [Write.Inside, Buffer.size, List.length_take, headerMissing]
      omega
    · split at hw
      · cases hw
      · rename_i hfull
        refine payloadWrites_inside hgrow ?_ (Nat.not_lt.mp hfull) _ w hw
        simp only [growHeader, List.length_append]
        omega

/-! ## Nothing else is written -/

/-- The cells of the two buffers that a turn writes payload to. -/
def cells (rx : WsRx) : Buffer → List UInt8
  | .header => []
  | .control => rx.control
  | .message => rx.message

section Turn

variable {σ : Type} (callback : MessageFn σ)

theorem cells_completeFrame (rx : WsRx) (ctx : σ) (buffer : Buffer) :
    cells (completeFrame callback rx ctx).2.1 buffer = cells rx buffer := by
  unfold completeFrame
  simp only
  split_ifs <;> cases buffer <;> rfl

theorem cells_enterFrame (rx : WsRx) (buffer : Buffer) :
    cells (enterFrame rx).2 buffer = cells rx buffer := by
  obtain ⟨hmessage, hcontrol⟩ := enterFrame_buffers rx
  cases buffer with
  | header => rfl
  | control => exact hcontrol
  | message => exact hmessage

/-- The payload copy leaves the cells alone that it does not cover. -/
theorem cells_store (h : Wf rx) (hready : rx.frameReady = true) {bytes : List UInt8}
    (hfit : bytes.length ≤ missing rx) {buffer : Buffer} {i : Nat}
    (hfree : ¬ Write.Covers (if isControl rx.opcode then ⟨.control, rx.controlLength, bytes.length⟩
      else ⟨.message, rx.messageLength, bytes.length⟩) buffer i) :
    (cells (store rx bytes) buffer)[i]? = (cells rx buffer)[i]? := by
  unfold missing at hfit
  unfold store
  by_cases hc : isControl rx.opcode = true
  · rw [if_pos hc] at hfree ⊢
    have hroom := h.control_fit hready hc
    cases buffer with
    | header => rfl
    | message => rfl
    | control =>
      have hout := getElem?_overwrite rx.control rx.controlLength bytes i (by omega)
      rw [if_neg fun hin => hfree ⟨rfl, hin.1, hin.2⟩] at hout
      exact hout
  · rw [if_neg hc] at hfree ⊢
    have hroom := h.message_fit hready (Bool.not_eq_true _ ▸ hc)
    cases buffer with
    | header => rfl
    | control => rfl
    | message =>
      have hout := getElem?_overwrite rx.message rx.messageLength bytes i (by omega)
      rw [if_neg fun hin => hfree ⟨rfl, hin.1, hin.2⟩] at hout
      exact hout

theorem cells_framePhase (h : Wf rx) (hlen : 2 ≤ rx.header.length)
    (hdone : rx.headerNeeded ≤ rx.header.length) (ctx : σ) (data : List UInt8) {buffer : Buffer}
    {i : Nat} (hfree : ∀ w ∈ payloadWrites rx data.length, ¬ w.Covers buffer i) :
    (cells (framePhase callback rx ctx data).rx buffer)[i]? = (cells rx buffer)[i]? := by
  have henter := wf_enterFrame h hlen hdone
  have hcells := cells_enterFrame rx buffer
  unfold payloadWrites at hfree
  rcases he : enterFrame rx with ⟨rc, e⟩
  rw [he] at henter hcells hfree
  by_cases hrc : rc = EAF_OK
  · subst hrc
    have henter : Wf e := henter
    have hready : e.frameReady = true := by
      have hok := enterFrame_ready (show (enterFrame rx).1 = EAF_OK by rw [he])
      rwa [he] at hok
    have hcopy : ∀ bytes : List UInt8, bytes.length = min data.length (missing e) →
        (cells (store e bytes) buffer)[i]? = (cells rx buffer)[i]? := by
      intro bytes hbytes
      simp only at hcells
      rw [← hcells]
      apply cells_store henter hready (by omega)
      rw [hbytes]
      simp only [ne_eq, not_true_eq_false, if_false] at hfree
      by_cases hc : isControl e.opcode = true
      · simp only [hc, if_true] at hfree ⊢
        exact hfree _ List.mem_cons_self
      · simp only [hc] at hfree ⊢
        exact hfree _ List.mem_cons_self
    rcases Nat.lt_or_ge data.length (missing e) with hshort | hfull
    · rw [framePhase_short he henter hshort]
      apply hcopy (plain e data)
      rw [length_plain]
      omega
    · rw [framePhase_full he henter hfull]
      have hlength : (plain e (data.take (missing e))).length = min data.length (missing e) := by
        rw [length_plain, List.length_take, Nat.min_comm]
      have hstored := hcopy _ hlength
      have hcomplete := cells_completeFrame callback (store e (plain e (data.take (missing e)))) ctx buffer
      rw [← hcomplete] at hstored
      unfold endTurn
      split
      · exact hstored
      · exact hstored
  · rw [framePhase_err he hrc, ← hcells]
    rfl

/-- A turn changes no cell that its writes do not cover. -/
theorem cells_feedTurn (h : Wf rx) (ctx : σ) (b : UInt8) (data : List UInt8) {buffer : Buffer}
    {i : Nat} (hfree : ∀ w ∈ turnWrites rx b data, ¬ w.Covers buffer i) :
    (cells (feedTurn callback rx ctx b data).rx buffer)[i]? = (cells rx buffer)[i]? := by
  unfold turnWrites at hfree
  rcases Nat.lt_or_ge rx.header.length 2 with hshort | hlen
  · have hpush : cells (pushHeader rx b) buffer = cells rx buffer := by
      unfold pushHeader
      simp only
      split <;> cases buffer <;> rfl
    unfold feedTurn
    rw [if_pos hshort]
    exact congrArg (fun cs => cs[i]?) hpush
  · have hgrow := wf_growHeader h hlen (b :: data)
    have hcells : cells (growHeader rx ((b :: data).take (headerMissing rx))) buffer =
        cells rx buffer := by
      cases buffer <;> rfl
    rw [if_neg (Nat.not_lt.mpr hlen)] at hfree
    rw [feedTurn_eq hlen, ← hcells]
    simp only at hfree ⊢
    split
    · rfl
    · rename_i hfull
      rw [if_neg hfull] at hfree
      refine cells_framePhase callback hgrow ?_ (Nat.not_lt.mp hfull) ctx _ ?_
      · simp only [growHeader, List.length_append]
        omega
      · intro w hw
        exact hfree w (List.mem_cons_of_mem _ hw)

end Turn

end Receiver

/-! ## Every receiver that can be reached -/

section Reached

variable {σ : Type}

/-- The receivers that a peer can make of a new one: any turn on any bytes, with any callback, also
behind a turn that returned an error. -/
inductive Reached (σ : Type) (message : List UInt8) : WsRx → Prop
  | init : Reached σ message (wsRxInit message)
  | turn {rx : WsRx} (callback : MessageFn σ) (ctx : σ) (b : UInt8) (data : List UInt8)
      (h : Reached σ message rx) : Reached σ message (feedTurn callback rx ctx b data).rx

theorem Reached.buffers {message : List UInt8} {rx : WsRx} (h : Reached σ message rx) :
    Buffers message.length CONTROL_BYTES rx := by
  induction h with
  | init => exact buffers_init message
  | turn callback ctx b data _ ih => exact buffers_feedTurn callback ih ctx b data

/-- Receive calls one after the other, whatever they return, each with a callback of its own. -/
def feedCalls (rx : WsRx) (calls : List (MessageFn σ × σ × List UInt8)) : WsRx :=
  calls.foldl (fun rx (callback, ctx, data) => (wsRxFeed callback rx ctx data).2.1) rx

/-- The turns of a receive call. -/
theorem Reached.feed {message : List UInt8} {rx : WsRx} (h : Reached σ message rx)
    (callback : MessageFn σ) (ctx : σ) (data : List UInt8) :
    Reached σ message (wsRxFeed callback rx ctx data).2.1 := by
  unfold wsRxFeed
  generalize 2 * data.length + 1 = turns
  induction turns generalizing rx ctx data with
  | zero => cases data <;> exact h
  | succ turns ih =>
    cases data with
    | nil => exact h
    | cons b data =>
      have hturn := h.turn callback ctx b data
      unfold feedLoop
      generalize feedTurn callback rx ctx b data = turn at hturn
      cases turn with
      | more rx' ctx' rest => exact ih hturn ctx' rest
      | done rc rx' ctx' => exact hturn

theorem reached_calls (message : List UInt8) (calls : List (MessageFn σ × σ × List UInt8)) :
    Reached σ message (feedCalls (wsRxInit message) calls) := by
  induction calls using List.reverseRecOn with
  | nil => exact .init
  | append_singleton calls call ih =>
    unfold feedCalls at ih ⊢
    rw [List.foldl_append]
    exact ih.feed call.1 call.2.1 call.2.2

/-- What holds of a receiver at every turn: it keeps its bounds, and the turn writes inside its
buffers and nowhere else. -/
structure Contained (σ : Type) (cap : Nat) (rx : WsRx) : Prop where
  bounds : Bounds cap rx
  inside : ∀ b data, ∀ w ∈ turnWrites rx b data, w.Inside cap
  nowhere_else : ∀ (callback : MessageFn σ) ctx b data buffer i,
    (∀ w ∈ turnWrites rx b data, ¬ w.Covers buffer i) →
      (cells (feedTurn callback rx ctx b data).rx buffer)[i]? = (cells rx buffer)[i]?

/-- No bytes, no cuts, no callbacks and no errors make a receiver leave its buffers. -/
theorem receiver_contained (σ : Type) (message : List UInt8) :
    (∀ rx, Reached σ message rx → Contained σ message.length rx) ∧
      ∀ calls : List (MessageFn σ × σ × List UInt8),
        Reached σ message (feedCalls (wsRxInit message) calls) := by
  refine ⟨?_, reached_calls message⟩
  intro rx h
  have hbuffers := h.buffers
  refine ⟨bounds_of_buffers hbuffers, turnWrites_inside hbuffers, ?_⟩
  intro callback ctx b data buffer i hfree
  exact cells_feedTurn callback hbuffers.wf ctx b data hfree

/-- One byte of a header is more than the receiver knows to need. -/
theorem first_byte_exceeds : ¬ ∀ (message : List UInt8) (rx : WsRx),
    Reached Unit message rx → rx.header.length ≤ rx.headerNeeded := by
  intro h
  have hreached : Reached Unit [] (feedTurn (fun _ _ _ _ => (EAF_OK, ())) (wsRxInit []) () 0x81 []).rx :=
    .turn _ _ _ _ .init
  have hle := h [] _ hreached
  revert hle
  decide

end Reached

end EmbeddedAudio.Ws
