-- The laws of one receive call: the three unmasking loops are one map, the
-- receive loop ends, and a chunk gives what its two parts give one after the
-- other. So what a peer makes the receiver do never depends on how its bytes
-- are cut into chunks.
import EmbeddedAudio.WsReceiver

namespace EmbeddedAudio.Ws

open Storage

/-! ## Unmasking -/

@[simp] theorem length_unmaskBytes (mask : List UInt8) (k : Nat) (data : List UInt8) :
    (unmaskBytes mask k data).length = data.length := by
  induction data generalizing k with
  | nil => rfl
  | cons b rest ih => simp [unmaskBytes, ih]

theorem unmaskBytes_append (mask : List UInt8) (k : Nat) (a b : List UInt8) :
    unmaskBytes mask k (a ++ b) = unmaskBytes mask k a ++ unmaskBytes mask (k + a.length) b := by
  induction a generalizing k with
  | nil => simp [unmaskBytes]
  | cons x a ih =>
    simp only [List.cons_append, unmaskBytes, ih, List.length_cons]
    rw [show k + (a.length + 1) = k + 1 + a.length by omega]

/-- Masking twice with the same mask gives the bytes back. -/
theorem unmaskBytes_unmaskBytes (mask : List UInt8) (k : Nat) (data : List UInt8) :
    unmaskBytes mask k (unmaskBytes mask k data) = data := by
  induction data generalizing k with
  | nil => rfl
  | cons b rest ih =>
    simp only [unmaskBytes, maskByte, ih, UInt8.xor_assoc, UInt8.xor_self, UInt8.xor_zero]

theorem unmaskLead_eq (mask : List UInt8) (k : Nat) (data : List UInt8) :
    (unmaskLead mask k data).1 ++
      unmaskBytes mask (k + (unmaskLead mask k data).1.length) (unmaskLead mask k data).2 =
        unmaskBytes mask k data ∧
    ((unmaskLead mask k data).2 = [] ∨ (k + (unmaskLead mask k data).1.length) % 4 = 0) := by
  induction data generalizing k with
  | nil => simp [unmaskLead, unmaskBytes]
  | cons b rest ih =>
    unfold unmaskLead
    split
    · rename_i h
      simp [h]
    · obtain ⟨h1, h2⟩ := ih (k + 1)
      simp only [List.cons_append, List.length_cons, unmaskBytes]
      rw [show k + ((unmaskLead mask (k + 1) rest).1.length + 1) =
        k + 1 + (unmaskLead mask (k + 1) rest).1.length by omega]
      exact ⟨by rw [h1], h2⟩

/-- From phase 0 on, four bytes at a time are the same bytes. -/
theorem unmaskWords_eq (mask : List UInt8) (hmask : mask.length = 4) (k : Nat) (hk : k % 4 = 0)
    (data : List UInt8) :
    (unmaskWords mask data).1 ++
      unmaskBytes mask (k + (unmaskWords mask data).1.length) (unmaskWords mask data).2 =
        unmaskBytes mask k data := by
  fun_induction unmaskWords mask data generalizing k with
  | case1 a b c d rest out left hrest ih =>
    obtain ⟨m0, m1, m2, m3, rfl⟩ : ∃ m0 m1 m2 m3, mask = [m0, m1, m2, m3] := by
      match mask, hmask with
      | [m0, m1, m2, m3], _ => exact ⟨m0, m1, m2, m3, rfl⟩
    have h1 : (k + 1) % 4 = 1 := by omega
    have h2 : (k + 1 + 1) % 4 = 2 := by omega
    have h3 : (k + 1 + 1 + 1) % 4 = 3 := by omega
    have htail := ih (k + 4) (by omega)
    rw [hrest] at htail
    simp only [unmaskBytes, maskByte, hk, h1, h2, h3, List.zipWith_cons_cons,
      List.zipWith_nil_left, List.cons_append, List.nil_append, List.length_cons,
      List.getD_cons_zero, List.getD_cons_succ]
    rw [show k + (out.length + 1 + 1 + 1 + 1) = k + 4 + out.length by omega, htail]
  | case2 data hshort => simp

/-- The three loops of the masked copy are the plain byte loop. -/
theorem unmask_eq (mask : List UInt8) (hmask : mask.length = 4) (used : Nat)
    (data : List UInt8) : unmask mask used data = unmaskBytes mask used data := by
  obtain ⟨hlead, hphase⟩ := unmaskLead_eq mask used data
  unfold unmask
  simp only
  rw [← hlead, List.append_assoc]
  congr 1
  rcases hphase with hnil | hphase
  · simp [hnil, unmaskWords, unmaskBytes]
  · exact unmaskWords_eq mask hmask _ hphase _

/-! ## The invariant of the receiver -/

/-- What holds of a receiver between two turns of the loop, whatever the peer sends. -/
structure Wf (rx : WsRx) : Prop where
  mask_length : rx.mask.length = 4
  header_shape : 2 ≤ rx.header.length → rx.header.length ≤ rx.headerNeeded ∧
    rx.headerNeeded = (headerLength rx.header).2 + if rx.masked then 4 else 0
  ready_header : rx.frameReady = true → 2 ≤ rx.header.length ∧ rx.headerNeeded ≤ rx.header.length
  used_le : rx.payloadUsed ≤ rx.payloadLength
  message_le : rx.messageLength ≤ rx.message.length
  control_le : rx.controlLength ≤ rx.control.length
  message_fit : rx.frameReady = true → isControl rx.opcode = false →
    rx.messageLength + (rx.payloadLength - rx.payloadUsed) ≤ rx.message.length
  control_fit : rx.frameReady = true → isControl rx.opcode = true →
    rx.controlLength + (rx.payloadLength - rx.payloadUsed) ≤ rx.control.length

theorem wf_init (message : List UInt8) : Wf (wsRxInit message) := by
  constructor <;> simp [wsRxInit]

theorem headerLength_append (header more : List UInt8) (h : 2 ≤ header.length) :
    (headerLength (header ++ more)).2 = (headerLength header).2 := by
  have hget : (header ++ more).getD 1 0 = header.getD 1 0 := by
    simp only [List.getD_eq_getElem?_getD]
    rw [List.getElem?_append_left (by omega)]
  unfold headerLength
  simp only [hget]
  split_ifs <;> rfl

/-- The header as far as it has come after one more byte. -/
theorem pushHeader_header (rx : WsRx) (b : UInt8) :
    (pushHeader rx b).header = rx.header ++ [b] := by
  unfold pushHeader
  simp only
  split <;> rfl

theorem wf_pushHeader {rx : WsRx} (h : Wf rx) (b : UInt8) (hlen : rx.header.length < 2) :
    Wf (pushHeader rx b) := by
  have hready : rx.frameReady = false := by
    rcases hr : rx.frameReady with _ | _
    · rfl
    · have := h.ready_header hr
      omega
  unfold pushHeader
  simp only
  split
  · rename_i b0 b1 hb
    refine ⟨h.mask_length, fun _ => ?_, by simp [hready], h.used_le, h.message_le, h.control_le,
      by simp [hready], by simp [hready]⟩
    rw [hb]
    simp only [headerLength, List.getD_cons_succ, List.getD_cons_zero, List.length_cons,
      List.length_nil]
    split_ifs <;> simp
  · rename_i hne
    have hshort : (rx.header ++ [b]).length < 2 := by
      rcases hh : rx.header with _ | ⟨b0, rest⟩
      · simp
      · rw [hh] at hlen hne
        have : rest = [] := List.eq_nil_of_length_eq_zero (by
          simp only [List.length_cons] at hlen
          omega)
        subst this
        exact absurd rfl (hne b0 b)
    exact ⟨h.mask_length, fun hl => by simp only at hl; omega, by simp [hready], h.used_le,
      h.message_le, h.control_le, by simp [hready], by simp [hready]⟩

theorem wf_loadMask {rx : WsRx} (h : Wf rx) (hlen : 2 ≤ rx.header.length)
    (hdone : rx.headerNeeded ≤ rx.header.length) : Wf (loadMask rx) := by
  unfold loadMask
  split
  · rename_i hmasked
    have hneed := (h.header_shape hlen).2
    rw [hmasked] at hneed
    simp only [if_true] at hneed
    exact { h with mask_length := length_slice (by omega) }
  · exact h

theorem wf_openFrame {rx : WsRx} (h : Wf rx) (hready : rx.frameReady = false) :
    Wf (openFrame rx).2 := by
  unfold openFrame
  split_ifs
  · exact h
  · exact h
  · exact h
  · exact { h with
      message_le := Nat.zero_le _
      message_fit := fun hr => by simp [hready] at hr
      control_fit := fun hr => by simp [hready] at hr }
  · exact { h with
      control_le := Nat.zero_le _
      message_fit := fun hr => by simp [hready] at hr
      control_fit := fun hr => by simp [hready] at hr }
  · exact h

/-- What `begin_frame` leaves alone. -/
theorem beginFrame_frame (rx : WsRx) :
    (beginFrame rx).2.header = rx.header ∧ (beginFrame rx).2.headerNeeded = rx.headerNeeded ∧
    (beginFrame rx).2.frameReady = rx.frameReady ∧ (beginFrame rx).2.opcode = rx.opcode ∧
    (beginFrame rx).2.fin = rx.fin ∧ (beginFrame rx).2.masked = rx.masked ∧
    (beginFrame rx).2.fragmenting = rx.fragmenting ∧ (beginFrame rx).2.message = rx.message ∧
    (beginFrame rx).2.control = rx.control := by
  unfold beginFrame openFrame loadMask
  simp only
  split_ifs <;> simp

theorem wf_beginFrame {rx : WsRx} (h : Wf rx) (hready : rx.frameReady = false)
    (hlen : 2 ≤ rx.header.length) (hdone : rx.headerNeeded ≤ rx.header.length) :
    Wf (beginFrame rx).2 := by
  have hmask := wf_loadMask h hlen hdone
  have hready' : (loadMask rx).frameReady = false := by
    unfold loadMask
    split <;> exact hready
  have hopen := wf_openFrame hmask hready'
  have hno : (openFrame (loadMask rx)).2.frameReady = false := by
    unfold openFrame
    split_ifs <;> exact hready'
  unfold beginFrame
  simp only
  split
  · exact hopen
  · split
    · exact hopen
    · exact { hopen with
        used_le := Nat.zero_le _
        message_fit := fun hr => by simp [hno] at hr
        control_fit := fun hr => by simp [hno] at hr }

/-- After `begin_frame` succeeds, the payload fits its buffer. -/
theorem beginFrame_room {rx : WsRx} (h : (beginFrame rx).1 = EAF_OK) :
    (beginFrame rx).2.payloadUsed = 0 ∧
      (beginFrame rx).2.payloadLength ≤ roomLeft (beginFrame rx).2 := by
  unfold beginFrame at h ⊢
  simp only at h ⊢
  split
  · rename_i hrc
    simp [hrc] at h
  · rename_i hrc
    split
    · rename_i hroom
      simp [hrc, hroom] at h
    · rename_i hroom
      refine ⟨rfl, ?_⟩
      simp only [roomLeft] at hroom ⊢
      omega

theorem wf_enterFrame {rx : WsRx} (h : Wf rx) (hlen : 2 ≤ rx.header.length)
    (hdone : rx.headerNeeded ≤ rx.header.length) : Wf (enterFrame rx).2 := by
  unfold enterFrame
  split
  · exact h
  · rename_i hready
    have hready : rx.frameReady = false := by simpa using hready
    have hbegin := wf_beginFrame h hready hlen hdone
    obtain ⟨hh, hn, _⟩ := beginFrame_frame rx
    simp only
    split
    · rename_i hok
      obtain ⟨hused, hroom⟩ := beginFrame_room hok
      have hle := hbegin.message_le
      have hcle := hbegin.control_le
      simp only [roomLeft] at hroom
      exact { hbegin with
        ready_header := fun _ => by simp only [hh, hn]; exact ⟨hlen, hdone⟩
        message_fit := fun _ hc => by simp only [hc, Bool.false_eq_true, if_false] at hroom ⊢; omega
        control_fit := fun _ hc => by simp only [hc, if_true] at hroom ⊢; omega }
    · exact hbegin

/-! ## The payload copy -/

/-- The bytes of a frame's payload, unmasked if the frame is masked. -/
def plain (rx : WsRx) (data : List UInt8) : List UInt8 :=
  if rx.masked then unmaskBytes rx.mask rx.payloadUsed data else data

/-- Payload bytes stored after those that are there. -/
def store (rx : WsRx) (bytes : List UInt8) : WsRx :=
  if isControl rx.opcode then
    { rx with
      control := overwrite rx.control rx.controlLength bytes
      controlLength := rx.controlLength + bytes.length
      payloadUsed := rx.payloadUsed + bytes.length }
  else
    { rx with
      message := overwrite rx.message rx.messageLength bytes
      messageLength := rx.messageLength + bytes.length
      payloadUsed := rx.payloadUsed + bytes.length }

/-- The payload bytes that the frame still needs. -/
def missing (rx : WsRx) : Nat := rx.payloadLength - rx.payloadUsed

@[simp] theorem length_plain (rx : WsRx) (data : List UInt8) :
    (plain rx data).length = data.length := by
  unfold plain
  split <;> simp

theorem take_min (data : List UInt8) (n : Nat) : data.take (min data.length n) = data.take n := by
  rw [Nat.min_comm, ← List.take_take, List.take_of_length_le (Nat.le_refl _)]

theorem drop_min (data : List UInt8) (n : Nat) : data.drop (min data.length n) = data.drop n := by
  rcases Nat.le_total data.length n with h | h
  · rw [Nat.min_eq_left h, List.drop_of_length_le h, List.drop_of_length_le (Nat.le_refl _)]
  · rw [Nat.min_eq_right h]

/-- The copy takes the bytes that the frame misses and leaves the rest. -/
theorem takePayload_eq {rx : WsRx} (h : Wf rx) (data : List UInt8) :
    takePayload rx data =
      (store rx (plain rx (data.take (missing rx))), data.drop (missing rx)) := by
  have hmissing : rx.payloadLength - rx.payloadUsed = missing rx := rfl
  have hlen : min data.length (missing rx) = (plain rx (data.take (missing rx))).length := by
    rw [length_plain, List.length_take, Nat.min_comm]
  unfold takePayload
  simp only [hmissing, take_min, drop_min, unmask_eq _ h.mask_length]
  change (_ , _) = _
  rw [hlen]
  unfold store plain
  split <;> rfl

/-- What the payload copy leaves alone. -/
theorem store_frame (rx : WsRx) (bytes : List UInt8) :
    (store rx bytes).header = rx.header ∧ (store rx bytes).headerNeeded = rx.headerNeeded ∧
    (store rx bytes).payloadLength = rx.payloadLength ∧ (store rx bytes).mask = rx.mask ∧
    (store rx bytes).opcode = rx.opcode ∧ (store rx bytes).fin = rx.fin ∧
    (store rx bytes).masked = rx.masked ∧ (store rx bytes).frameReady = rx.frameReady ∧
    (store rx bytes).messageOpcode = rx.messageOpcode ∧
    (store rx bytes).fragmenting = rx.fragmenting := by
  unfold store
  split <;> simp

theorem store_used (rx : WsRx) (bytes : List UInt8) :
    (store rx bytes).payloadUsed = rx.payloadUsed + bytes.length := by
  unfold store
  split <;> rfl

/-- Two stores are one store of both. -/
theorem store_store {rx : WsRx} (h : Wf rx) (xs ys : List UInt8) :
    store (store rx xs) ys = store rx (xs ++ ys) := by
  unfold store
  split
  · rename_i hc
    simp only [List.length_append, Nat.add_assoc]
    rw [overwrite_overwrite _ _ _ _ h.control_le]
  · rename_i hc
    simp only [List.length_append, Nat.add_assoc]
    rw [overwrite_overwrite _ _ _ _ h.message_le]

theorem plain_append (rx : WsRx) (a b : List UInt8) :
    plain rx (a ++ b) = plain rx a ++ plain (store rx (plain rx a)) b := by
  obtain ⟨_, _, _, hm, _, _, hk, _⟩ := store_frame rx (plain rx a)
  unfold plain at hm hk ⊢
  rw [hm, hk, store_used]
  split
  · rw [unmaskBytes_append, length_unmaskBytes]
  · rfl

theorem wf_store {rx : WsRx} (h : Wf rx) (hready : rx.frameReady = true) (bytes : List UInt8)
    (hfit : bytes.length ≤ missing rx) : Wf (store rx bytes) := by
  unfold missing at hfit
  have hused := h.used_le
  unfold store
  split
  · rename_i hc
    have hroom := h.control_fit hready hc
    have hlen : (overwrite rx.control rx.controlLength bytes).length = rx.control.length :=
      length_overwrite _ _ _ (by omega)
    exact { h with
      used_le := by simp only; omega
      control_le := by simp only [hlen]; omega
      message_fit := fun _ hd => by simp [hc] at hd
      control_fit := fun _ _ => by simp only [hlen]; omega }
  · rename_i hc
    have hroom := h.message_fit hready (by simpa using hc)
    have hlen : (overwrite rx.message rx.messageLength bytes).length = rx.message.length :=
      length_overwrite _ _ _ (by omega)
    exact { h with
      used_le := by simp only; omega
      message_le := by simp only [hlen]; omega
      message_fit := fun _ _ => by simp only [hlen]; omega
      control_fit := fun _ hd => absurd hd hc }

/-- Between two messages nothing is asked of the place in the message. -/
theorem wf_messageDone {rx : WsRx} (h : Wf rx) :
    Wf { rx with fragmenting := false, messageLength := 0 } :=
  { h with
    message_le := Nat.zero_le _
    message_fit := fun hr hc => by have := h.message_fit hr hc; simp only; omega }

theorem wf_messageMore {rx : WsRx} (h : Wf rx) : Wf { rx with fragmenting := true } := { h with }

theorem wf_endFrame {rx : WsRx} (h : Wf rx) : Wf (endFrame rx) := by
  refine ⟨h.mask_length, ?_, ?_, Nat.zero_le _, h.message_le, h.control_le, ?_, ?_⟩ <;>
    simp [endFrame]

section Feed

variable {σ : Type} {callback : MessageFn σ}

variable (callback) in
theorem wf_completeFrame {rx : WsRx} (h : Wf rx) (ctx : σ) :
    Wf (completeFrame callback rx ctx).2.1 := by
  unfold completeFrame
  simp only
  split
  · split
    · exact h
    · exact wf_endFrame h
  · split
    · split
      · exact h
      · exact wf_endFrame (wf_messageDone h)
    · exact wf_endFrame (wf_messageMore h)

/-- The receiver that a turn leaves. -/
def Turn.rx : Turn σ → WsRx
  | .more rx _ _ => rx
  | .done _ rx _ => rx

/-- The callback's state that a turn leaves. -/
def Turn.ctx : Turn σ → σ
  | .more _ ctx _ => ctx
  | .done _ _ ctx => ctx

theorem enterFrame_ready {rx : WsRx} (h : (enterFrame rx).1 = EAF_OK) :
    (enterFrame rx).2.frameReady = true := by
  unfold enterFrame at h ⊢
  split
  · assumption
  · rename_i hr
    simp only [hr, Bool.false_eq_true, if_false] at h ⊢
    simp [h]

theorem wf_framePhase {rx : WsRx} (h : Wf rx) (hlen : 2 ≤ rx.header.length)
    (hdone : rx.headerNeeded ≤ rx.header.length) (ctx : σ) (data : List UInt8) :
    Wf (framePhase callback rx ctx data).rx := by
  have henter := wf_enterFrame h hlen hdone
  unfold framePhase
  simp only
  split
  · exact henter
  · rename_i hrc
    have hready := enterFrame_ready (not_not.mp hrc)
    rw [takePayload_eq henter]
    have hstore := wf_store henter hready
      (plain (enterFrame rx).2 (data.take (missing (enterFrame rx).2)))
      (by rw [length_plain, List.length_take]; omega)
    simp only
    split
    · have hcomplete := wf_completeFrame callback hstore ctx
      split
      · exact hcomplete
      · exact hcomplete
    · exact hstore

/-- More header bytes. -/
def growHeader (rx : WsRx) (bytes : List UInt8) : WsRx := { rx with header := rx.header ++ bytes }

/-- The header bytes that are still to come. -/
def headerMissing (rx : WsRx) : Nat := rx.headerNeeded - rx.header.length

/-- A turn once the header says how long it is. -/
theorem feedTurn_eq {rx : WsRx} (hlen : 2 ≤ rx.header.length) (ctx : σ) (b : UInt8)
    (data : List UInt8) :
    feedTurn callback rx ctx b data =
      let rx' := growHeader rx ((b :: data).take (headerMissing rx))
      if rx'.header.length < rx'.headerNeeded then .more rx' ctx ((b :: data).drop (headerMissing rx))
      else framePhase callback rx' ctx ((b :: data).drop (headerMissing rx)) := by
  unfold feedTurn
  rw [if_neg (by omega)]
  simp only [Nat.min_comm (rx.headerNeeded - rx.header.length), take_min, drop_min]
  rfl

theorem wf_growHeader {rx : WsRx} (h : Wf rx) (hlen : 2 ≤ rx.header.length) (data : List UInt8) :
    Wf (growHeader rx (data.take (headerMissing rx))) := by
  obtain ⟨hle, hneed⟩ := h.header_shape hlen
  have hmissing : headerMissing rx = rx.headerNeeded - rx.header.length := rfl
  refine { h with header_shape := fun _ => ?_, ready_header := fun hr => ?_ }
  · simp only [growHeader, headerLength_append _ _ hlen]
    refine ⟨?_, hneed⟩
    simp only [List.length_append, List.length_take]
    omega
  · have := h.ready_header hr
    simp only [growHeader, List.length_append]
    omega

variable (callback) in
/-- One turn keeps the invariant, whether it goes on or returns. -/
theorem wf_feedTurn {rx : WsRx} (h : Wf rx) (ctx : σ) (b : UInt8) (data : List UInt8) :
    Wf (feedTurn callback rx ctx b data).rx := by
  rcases Nat.lt_or_ge rx.header.length 2 with hlen | hlen
  · unfold feedTurn
    rw [if_pos hlen]
    exact wf_pushHeader h b hlen
  · have hgrow := wf_growHeader h hlen (b :: data)
    rw [feedTurn_eq hlen]
    simp only
    split
    · exact hgrow
    · rename_i hfull
      refine wf_framePhase hgrow ?_ (by omega) _ _
      simp only [growHeader, List.length_append]
      omega

/-! ## The loop ends -/

/-- What a turn uses up: two for each byte, and one for a header that is complete. -/
def weight (rx : WsRx) (data : List UInt8) : Nat :=
  2 * data.length + if 2 ≤ rx.header.length then 1 else 0

theorem completeFrame_header {rx rx' : WsRx} {ctx ctx' : σ}
    (h : completeFrame callback rx ctx = (EAF_OK, rx', ctx')) : rx'.header = [] := by
  unfold completeFrame at h
  simp only at h
  split_ifs at h <;> simp only [Prod.mk.injEq] at h <;> obtain ⟨h1, h2, _⟩ := h <;>
    first | exact absurd h1 ‹_› | (rw [← h2]; rfl)

/-- The turn that a completed frame ends. -/
def endTurn (r : Rc × WsRx × σ) (rest : List UInt8) : Turn σ :=
  if r.1 ≠ EAF_OK then .done r.1 r.2.1 r.2.2 else .more r.2.1 r.2.2 rest

theorem framePhase_err {rx rx' : WsRx} {rc : Rc} (h : enterFrame rx = (rc, rx'))
    (hrc : rc ≠ EAF_OK) (ctx : σ) (data : List UInt8) :
    framePhase callback rx ctx data = .done rc rx' ctx := by
  unfold framePhase
  rw [h]
  simp [hrc]

/-- The chunk holds the rest of the payload: the frame is done. -/
theorem framePhase_full {rx rx' : WsRx} (h : enterFrame rx = (EAF_OK, rx')) (hwf : Wf rx')
    {data : List UInt8} (hdata : missing rx' ≤ data.length) (ctx : σ) :
    framePhase callback rx ctx data =
      endTurn (completeFrame callback (store rx' (plain rx' (data.take (missing rx')))) ctx)
        (data.drop (missing rx')) := by
  have hused : (store rx' (plain rx' (data.take (missing rx')))).payloadUsed =
      (store rx' (plain rx' (data.take (missing rx')))).payloadLength := by
    rw [store_used, (store_frame rx' _).2.2.1, length_plain, List.length_take]
    have := hwf.used_le
    unfold missing at hdata ⊢
    omega
  unfold framePhase
  rw [h]
  simp only [takePayload_eq hwf, hused, ne_eq, not_true_eq_false, if_false, if_true]
  rfl

/-- The chunk ends inside the payload. -/
theorem framePhase_short {rx rx' : WsRx} (h : enterFrame rx = (EAF_OK, rx')) (hwf : Wf rx')
    {data : List UInt8} (hdata : data.length < missing rx') (ctx : σ) :
    framePhase callback rx ctx data = .more (store rx' (plain rx' data)) ctx [] := by
  have hused : (store rx' (plain rx' data)).payloadUsed ≠
      (store rx' (plain rx' data)).payloadLength := by
    rw [store_used, (store_frame rx' _).2.2.1, length_plain]
    unfold missing at hdata
    omega
  unfold framePhase
  rw [h]
  simp only [takePayload_eq hwf, List.take_of_length_le (Nat.le_of_lt hdata),
    List.drop_of_length_le (Nat.le_of_lt hdata), hused, ne_eq, not_true_eq_false, if_false]

theorem endTurn_more {r : Rc × WsRx × σ} {rest rest' : List UInt8} {rx' : WsRx} {ctx' : σ}
    (h : endTurn r rest = .more rx' ctx' rest') : r = (EAF_OK, rx', ctx') ∧ rest' = rest := by
  unfold endTurn at h
  split at h
  · cases h
  · rename_i hrc
    obtain ⟨rc, rx, ctx⟩ := r
    simp only [Turn.more.injEq, ne_eq, not_not] at h hrc
    obtain ⟨rfl, rfl, rfl⟩ := h
    exact ⟨by rw [hrc], rfl⟩

/-- A frame phase that goes on has used at least one byte, or ended its frame. -/
theorem framePhase_weight {rx rx' : WsRx} {ctx ctx' : σ} {data rest : List UInt8} (h : Wf rx)
    (hlen : 2 ≤ rx.header.length) (hdone : rx.headerNeeded ≤ rx.header.length)
    (hturn : framePhase callback rx ctx data = .more rx' ctx' rest) :
    weight rx' rest ≤ 2 * data.length ∨ rest = [] := by
  have henter := wf_enterFrame h hlen hdone
  rcases he : enterFrame rx with ⟨rc, rx1⟩
  rw [he] at henter
  by_cases hrc : rc = EAF_OK
  · subst hrc
    rcases Nat.lt_or_ge data.length (missing rx1) with hshort | hfull
    · rw [framePhase_short he henter hshort] at hturn
      cases hturn
      exact Or.inr rfl
    · rw [framePhase_full he henter hfull] at hturn
      obtain ⟨hcomplete, rfl⟩ := endTurn_more hturn
      have hheader := completeFrame_header hcomplete
      left
      simp [weight, hheader]
  · rw [framePhase_err he hrc] at hturn
    cases hturn

/-- Every turn that goes on makes the weight smaller. -/
theorem feedTurn_weight {rx rx' : WsRx} {ctx ctx' : σ} {b : UInt8} {data rest : List UInt8}
    (h : Wf rx) (hturn : feedTurn callback rx ctx b data = .more rx' ctx' rest) :
    weight rx' rest < weight rx (b :: data) := by
  rcases Nat.lt_or_ge rx.header.length 2 with hlen | hlen
  · unfold feedTurn at hturn
    rw [if_pos hlen] at hturn
    cases hturn
    simp only [weight, List.length_cons]
    split <;> omega
  · rw [feedTurn_eq hlen] at hturn
    have hgrow := wf_growHeader h hlen (b :: data)
    have hlen' : 2 ≤ (growHeader rx ((b :: data).take (headerMissing rx))).header.length := by
      simp only [growHeader, List.length_append]
      omega
    have hw : weight rx (b :: data) = 2 * (b :: data).length + 1 := by simp [weight, hlen]
    have hbound : ∀ n, 2 * ((b :: data).drop n).length ≤ 2 * (b :: data).length := by
      intro n
      rw [List.length_drop]
      omega
    simp only at hturn
    split at hturn
    · rename_i hpart
      have hpos : 0 < headerMissing rx := by
        have : headerMissing rx = rx.headerNeeded - rx.header.length := rfl
        simp only [growHeader, List.length_append, List.length_take] at hpart
        omega
      cases hturn
      rw [hw]
      simp only [weight, List.length_drop, List.length_cons]
      split <;> omega
    · rename_i hfull
      rcases framePhase_weight hgrow hlen' (by omega) hturn with hle | hnil
      · have := hbound (headerMissing rx)
        omega
      · subst hnil
        rw [hw]
        simp only [weight, List.length_nil, List.length_cons]
        split <;> omega

/-- The bound on the turns does not matter once it covers the weight. -/
theorem feedLoop_turns {rx : WsRx} {ctx : σ} {data : List UInt8} {n m : Nat} (h : Wf rx)
    (hn : weight rx data ≤ n) (hm : weight rx data ≤ m) :
    feedLoop callback n rx ctx data = feedLoop callback m rx ctx data := by
  induction n generalizing rx ctx data m with
  | zero =>
    rcases data with _ | ⟨b, data⟩
    · simp [feedLoop]
    · simp [weight] at hn
  | succ n ih =>
    rcases data with _ | ⟨b, data⟩
    · simp [feedLoop]
    · rcases m with _ | m
      · simp [weight] at hm
      · simp only [feedLoop]
        rcases hturn : feedTurn callback rx ctx b data with ⟨rx', ctx', rest⟩ | ⟨rc, rx', ctx'⟩
        · have hlt := feedTurn_weight h hturn
          have hwf : Wf rx' := by
            have := wf_feedTurn callback h ctx b data
            rwa [hturn] at this
          exact ih hwf (by omega) (by omega)
        · rfl

@[simp] theorem wsRxFeed_nil (rx : WsRx) (ctx : σ) :
    wsRxFeed callback rx ctx [] = (EAF_OK, rx, ctx) := by
  simp [wsRxFeed, feedLoop]

/-- The receive call after a turn. -/
def feedAfter (callback : MessageFn σ) : Turn σ → Rc × WsRx × σ
  | .more rx ctx rest => wsRxFeed callback rx ctx rest
  | .done rc rx ctx => (rc, rx, ctx)

/-- The receive call makes one turn, and goes on with what the turn left. -/
theorem wsRxFeed_cons {rx : WsRx} (h : Wf rx) (ctx : σ) (b : UInt8) (data : List UInt8) :
    wsRxFeed callback rx ctx (b :: data) = feedAfter callback (feedTurn callback rx ctx b data) := by
  unfold feedAfter wsRxFeed
  simp only [List.length_cons, feedLoop]
  rcases hturn : feedTurn callback rx ctx b data with ⟨rx', ctx', rest⟩ | ⟨rc, rx', ctx'⟩
  · have hlt := feedTurn_weight h hturn
    have hwf : Wf rx' := by
      have := wf_feedTurn callback h ctx b data
      rwa [hturn] at this
    apply feedLoop_turns hwf
    · simp only [weight, List.length_cons] at hlt ⊢
      split_ifs at hlt ⊢ <;> omega
    · simp only [weight]
      split <;> omega
  · rfl

/-! ## Two chunks are one -/

/-- The receive call on a second chunk, if the first one went well. -/
def feedNext (callback : MessageFn σ) (r : Rc × WsRx × σ) (data : List UInt8) : Rc × WsRx × σ :=
  if r.1 ≠ EAF_OK then r else wsRxFeed callback r.2.1 r.2.2 data

/-- A turn on `a` against the same turn on `a ++ b`: it does the same and leaves `b` behind
its own rest, or `a` ends inside a header or a payload and the turn on `a ++ b` is the turn
that comes next. -/
inductive Splits (callback : MessageFn σ) (c : UInt8) (b : List UInt8) : Turn σ → Turn σ → Prop
  | done (rc rx ctx) (h : rc ≠ EAF_OK) : Splits callback c b (.done rc rx ctx) (.done rc rx ctx)
  | same (rx ctx rest) : Splits callback c b (.more rx ctx rest) (.more rx ctx (rest ++ c :: b))
  | inside (rx ctx) : Splits callback c b (.more rx ctx []) (feedTurn callback rx ctx c b)

theorem enterFrame_frame (rx : WsRx) :
    (enterFrame rx).2.header = rx.header ∧ (enterFrame rx).2.headerNeeded = rx.headerNeeded := by
  unfold enterFrame
  split
  · simp
  · simp only
    split
    · exact ⟨(beginFrame_frame rx).1, (beginFrame_frame rx).2.1⟩
    · exact ⟨(beginFrame_frame rx).1, (beginFrame_frame rx).2.1⟩

/-- A turn on a frame in progress goes straight to its payload. -/
theorem feedTurn_ready {rx : WsRx} (h : Wf rx) (hready : rx.frameReady = true) (ctx : σ)
    (c : UInt8) (b : List UInt8) :
    feedTurn callback rx ctx c b = framePhase callback rx ctx (c :: b) := by
  obtain ⟨hlen, hfull⟩ := h.ready_header hready
  have hzero : headerMissing rx = 0 := by
    unfold headerMissing
    omega
  have hgrow : growHeader rx [] = rx := by simp [growHeader]
  rw [feedTurn_eq hlen]
  simp only [hzero, List.take_zero, List.drop_zero, hgrow]
  rw [if_neg (by omega)]

theorem framePhase_splits {rx : WsRx} (h : Wf rx) (hlen : 2 ≤ rx.header.length)
    (hdone : rx.headerNeeded ≤ rx.header.length) (ctx : σ) (a : List UInt8) (c : UInt8)
    (b : List UInt8) :
    Splits callback c b (framePhase callback rx ctx a) (framePhase callback rx ctx (a ++ c :: b)) := by
  have henter := wf_enterFrame h hlen hdone
  rcases he : enterFrame rx with ⟨rc, rx1⟩
  by_cases hrc : rc = EAF_OK
  · subst hrc
    rw [he] at henter
    have henter : Wf rx1 := henter
    have hready : rx1.frameReady = true := by
      have := enterFrame_ready (show (enterFrame rx).1 = EAF_OK by rw [he])
      rwa [he] at this
    rcases Nat.lt_or_ge a.length (missing rx1) with hshort | hfull
    · -- `a` ends inside the payload: the turn on the next chunk takes what is left
      have hwf2 := wf_store henter hready (plain rx1 a) (by rw [length_plain]; omega)
      have hready2 : (store rx1 (plain rx1 a)).frameReady = true := by
        rw [(store_frame rx1 _).2.2.2.2.2.2.2.1, hready]
      have hmiss : missing (store rx1 (plain rx1 a)) = missing rx1 - a.length := by
        unfold missing
        rw [store_used, (store_frame rx1 _).2.2.1, length_plain]
        omega
      have hbegun : enterFrame (store rx1 (plain rx1 a)) = (EAF_OK, store rx1 (plain rx1 a)) := by
        unfold enterFrame
        rw [hready2]
        rfl
      have hjoin : framePhase callback rx ctx (a ++ c :: b) =
          feedTurn callback (store rx1 (plain rx1 a)) ctx c b := by
        rw [feedTurn_ready hwf2 hready2]
        rcases Nat.lt_or_ge (a ++ c :: b).length (missing rx1) with hlong | hlong
        · rw [framePhase_short he henter hlong, framePhase_short hbegun hwf2
            (by rw [hmiss]; rw [List.length_append] at hlong; omega), plain_append,
            store_store henter]
        · rw [framePhase_full he henter hlong, framePhase_full hbegun hwf2
            (by rw [hmiss]; rw [List.length_append] at hlong; omega), hmiss,
            List.take_append, List.take_of_length_le (Nat.le_of_lt hshort), plain_append,
            store_store henter, List.drop_append, List.drop_of_length_le (Nat.le_of_lt hshort),
            List.nil_append]
      rw [framePhase_short he henter hshort, hjoin]
      exact .inside _ _
    · rw [framePhase_full he henter hfull, framePhase_full he henter
        (by rw [List.length_append]; omega), List.take_append_of_le_length hfull,
        List.drop_append_of_le_length hfull]
      unfold endTurn
      split
      · exact .done _ _ _ ‹_›
      · exact .same _ _ _
  · rw [framePhase_err he hrc, framePhase_err he hrc]
    exact .done _ _ _ hrc

variable (callback) in
theorem feedTurn_splits {rx : WsRx} (h : Wf rx) (ctx : σ) (x : UInt8) (a : List UInt8) (c : UInt8)
    (b : List UInt8) :
    Splits callback c b (feedTurn callback rx ctx x a)
      (feedTurn callback rx ctx x (a ++ c :: b)) := by
  rcases Nat.lt_or_ge rx.header.length 2 with hlen | hlen
  · unfold feedTurn
    rw [if_pos hlen, if_pos hlen]
    exact .same _ _ _
  · rw [feedTurn_eq hlen, feedTurn_eq hlen, ← List.cons_append]
    simp only
    have hmissing : headerMissing rx = rx.headerNeeded - rx.header.length := rfl
    rcases Nat.lt_or_ge (x :: a).length (headerMissing rx) with hshort | hfull
    · -- `a` ends inside the header
      have hgrow2 : ∀ p q : List UInt8, growHeader (growHeader rx p) q = growHeader rx (p ++ q) := by
        intro p q
        simp [growHeader]
      have hm : headerMissing (growHeader rx (x :: a)) = headerMissing rx - (x :: a).length := by
        simp only [headerMissing, growHeader, List.length_append]
        omega
      have hjoin : feedTurn callback (growHeader rx (x :: a)) ctx c b = _ :=
        feedTurn_eq (by simp only [growHeader, List.length_append]; omega) ctx c b
      rw [List.take_of_length_le (Nat.le_of_lt hshort), List.drop_of_length_le (Nat.le_of_lt hshort),
        List.take_append, List.take_of_length_le (Nat.le_of_lt hshort), List.drop_append,
        List.drop_of_length_le (Nat.le_of_lt hshort), List.nil_append, ← hgrow2, ← hm]
      simp only at hjoin
      rw [← hjoin, if_pos (by simp only [growHeader, List.length_append]; omega)]
      exact .inside _ _
    · rw [List.take_append_of_le_length hfull, List.drop_append_of_le_length hfull]
      have hgrow := wf_growHeader h hlen (x :: a)
      split
      · exact .same _ _ _
      · exact framePhase_splits hgrow (by simp only [growHeader, List.length_append]; omega)
          (by omega) ctx _ c b

/-- A chunk gives what its two parts give one after the other. -/
theorem wsRxFeed_append {rx : WsRx} (h : Wf rx) (ctx : σ) (a b : List UInt8) :
    wsRxFeed callback rx ctx (a ++ b) = feedNext callback (wsRxFeed callback rx ctx a) b := by
  rcases b with _ | ⟨c, b⟩
  · rcases hr : wsRxFeed callback rx ctx a with ⟨rc, rx', ctx'⟩
    by_cases hrc : rc = EAF_OK
    · simp [feedNext, hr, hrc]
    · simp [feedNext, hr, hrc]
  induction hw : weight rx a using Nat.strong_induction_on generalizing rx ctx a with
  | _ w ih =>
    rcases a with _ | ⟨x, a⟩
    · simp [feedNext]
    · have hwf := wf_feedTurn callback h ctx x a
      have hsplit := feedTurn_splits callback h ctx x a c b
      rw [List.cons_append, wsRxFeed_cons h, wsRxFeed_cons h]
      rcases hturn : feedTurn callback rx ctx x a with ⟨rx', ctx', rest⟩ | ⟨rc, rx', ctx'⟩
      · rw [hturn] at hsplit hwf
        have hwf : Wf rx' := hwf
        have hlt := feedTurn_weight h hturn
        generalize feedTurn callback rx ctx x (a ++ c :: b) = turn at hsplit
        cases hsplit with
        | same => exact ih _ (by omega) hwf _ _ rfl
        | inside =>
          simp only [feedAfter, wsRxFeed_nil, feedNext, ne_eq, not_true_eq_false, if_false]
          exact (wsRxFeed_cons hwf _ _ _).symm
      · rw [hturn] at hsplit
        generalize feedTurn callback rx ctx x (a ++ c :: b) = turn at hsplit
        cases hsplit with
        | done _ _ _ hrc => simp [feedAfter, feedNext, hrc]

/-! ## What a receive call keeps -/

/-- What every message keeps of the callback's state, a turn keeps. -/
theorem feedTurn_ctx {P : σ → Prop} (h : ∀ ctx opcode buf length, length ≤ buf.length → P ctx →
      P (callback ctx opcode buf length).2) {rx : WsRx} (hwf : Wf rx) {ctx : σ} (hctx : P ctx)
    (b : UInt8) (data : List UInt8) :
    P (feedTurn callback rx ctx b data).ctx := by
  have hcomplete : ∀ rx, Wf rx → P (completeFrame callback rx ctx).2.2 := by
    intro rx hwf
    unfold completeFrame
    simp only
    split_ifs <;>
      first | exact h _ _ _ _ hwf.control_le hctx | exact h _ _ _ _ hwf.message_le hctx | exact hctx
  rcases Nat.lt_or_ge rx.header.length 2 with hlen | hlen
  · unfold feedTurn
    rw [if_pos hlen]
    exact hctx
  · have hgrow := wf_growHeader hwf hlen (b :: data)
    rw [feedTurn_eq hlen]
    simp only
    split
    · exact hctx
    · have hlen' : 2 ≤ (growHeader rx ((b :: data).take (headerMissing rx))).header.length := by
        simp only [growHeader, List.length_append]
        omega
      have henter := wf_enterFrame hgrow hlen' (by omega)
      rcases he : enterFrame (growHeader rx ((b :: data).take (headerMissing rx))) with ⟨rc, rx1⟩
      simp only [he] at henter
      by_cases hrc : rc = EAF_OK
      · subst hrc
        have hready : rx1.frameReady = true := by
          have := enterFrame_ready (show (enterFrame (growHeader rx _)).1 = EAF_OK by rw [he])
          rwa [he] at this
        generalize (b :: data).drop (headerMissing rx) = rest
        rcases Nat.lt_or_ge rest.length (missing rx1) with hshort | hfull
        · rw [framePhase_short he henter hshort]
          exact hctx
        · have hstore := wf_store henter hready (plain rx1 (rest.take (missing rx1)))
            (by rw [length_plain, List.length_take]; omega)
          rw [framePhase_full he henter hfull]
          unfold endTurn
          split <;> exact hcomplete _ hstore
      · rw [framePhase_err he hrc]
        exact hctx

variable (callback) in
/-- What every message keeps of the callback's state, a receive call keeps. -/
theorem wsRxFeed_ctx {P : σ → Prop} (h : ∀ ctx opcode buf length, length ≤ buf.length → P ctx →
      P (callback ctx opcode buf length).2) {rx : WsRx} (hwf : Wf rx) {ctx : σ} (hctx : P ctx)
    (data : List UInt8) : P (wsRxFeed callback rx ctx data).2.2 := by
  unfold wsRxFeed
  generalize 2 * data.length + 1 = turns
  induction turns generalizing rx ctx data with
  | zero => rcases data with _ | ⟨b, data⟩ <;> exact hctx
  | succ turns ih =>
    rcases data with _ | ⟨b, data⟩
    · exact hctx
    · have hturn := feedTurn_ctx h hwf hctx b data
      have hwf' := wf_feedTurn callback hwf ctx b data
      simp only [feedLoop]
      rcases hf : feedTurn callback rx ctx b data with ⟨rx', ctx', rest⟩ | ⟨rc, rx', ctx'⟩
      · rw [hf] at hturn hwf'
        exact ih hwf' hturn _
      · rw [hf] at hturn
        exact hturn

/-- The invariant of a receiver, with the sizes of its two buffers. -/
structure Buffers (messageBytes controlBytes : Nat) (rx : WsRx) : Prop where
  wf : Wf rx
  message_size : rx.message.length = messageBytes
  control_size : rx.control.length = controlBytes

theorem buffers_init (message : List UInt8) :
    Buffers message.length CONTROL_BYTES (wsRxInit message) :=
  ⟨wf_init message, rfl, by simp [wsRxInit]⟩

theorem buffers_store {m n : Nat} {rx : WsRx} (h : Buffers m n rx) (hready : rx.frameReady = true)
    (bytes : List UInt8) (hfit : bytes.length ≤ missing rx) : Buffers m n (store rx bytes) := by
  refine ⟨wf_store h.wf hready bytes hfit, ?_, ?_⟩
  · rcases hc : isControl rx.opcode with _ | _
    · have hroom := h.wf.message_fit hready hc
      unfold missing at hfit
      simp only [store, hc, Bool.false_eq_true, if_false]
      rw [length_overwrite _ _ _ (by omega), h.message_size]
    · simp only [store, hc, if_true, h.message_size]
  · rcases hc : isControl rx.opcode with _ | _
    · simp only [store, hc, Bool.false_eq_true, if_false, h.control_size]
    · have hroom := h.wf.control_fit hready hc
      unfold missing at hfit
      simp only [store, hc, if_true]
      rw [length_overwrite _ _ _ (by omega), h.control_size]

variable (callback) in
theorem buffers_completeFrame {m n : Nat} {rx : WsRx} (h : Buffers m n rx) (ctx : σ) :
    Buffers m n (completeFrame callback rx ctx).2.1 := by
  refine ⟨wf_completeFrame _ h.wf ctx, ?_, ?_⟩ <;> unfold completeFrame <;> simp only <;> split_ifs <;>
    first | exact h.message_size | exact h.control_size

theorem buffers_framePhase {m n : Nat} {rx : WsRx} (h : Buffers m n rx)
    (hlen : 2 ≤ rx.header.length) (hdone : rx.headerNeeded ≤ rx.header.length) (ctx : σ)
    (data : List UInt8) : Buffers m n (framePhase callback rx ctx data).rx := by
  have henter : Buffers m n (enterFrame rx).2 := by
    obtain ⟨_, _, _, _, _, _, _, hmessage, hcontrol⟩ := beginFrame_frame rx
    refine ⟨wf_enterFrame h.wf hlen hdone, ?_, ?_⟩ <;> unfold enterFrame <;> split <;>
      first
      | exact h.message_size
      | exact h.control_size
      | simp only; split <;> simp only [hmessage, hcontrol, h.message_size, h.control_size]
  rcases he : enterFrame rx with ⟨rc, rx1⟩
  simp only [he] at henter
  by_cases hrc : rc = EAF_OK
  · subst hrc
    have hready : rx1.frameReady = true := by
      have := enterFrame_ready (show (enterFrame rx).1 = EAF_OK by rw [he])
      rwa [he] at this
    rcases Nat.lt_or_ge data.length (missing rx1) with hshort | hfull
    · rw [framePhase_short he henter.wf hshort]
      exact buffers_store henter hready _ (by rw [length_plain]; omega)
    · rw [framePhase_full he henter.wf hfull]
      have hstore := buffers_store henter hready (plain rx1 (data.take (missing rx1)))
        (by rw [length_plain, List.length_take]; omega)
      have hcomplete := buffers_completeFrame callback hstore ctx
      unfold endTurn
      split <;> exact hcomplete
  · rw [framePhase_err he hrc]
    exact henter

variable (callback) in
theorem buffers_feedTurn {m n : Nat} {rx : WsRx} (h : Buffers m n rx) (ctx : σ) (b : UInt8)
    (data : List UInt8) : Buffers m n (feedTurn callback rx ctx b data).rx := by
  rcases Nat.lt_or_ge rx.header.length 2 with hlen | hlen
  · have hpush : (pushHeader rx b).message = rx.message ∧ (pushHeader rx b).control = rx.control := by
      unfold pushHeader
      simp only
      split <;> exact ⟨rfl, rfl⟩
    refine ⟨wf_feedTurn _ h.wf ctx b data, ?_, ?_⟩ <;> unfold feedTurn <;> rw [if_pos hlen] <;>
      simp only [Turn.rx, hpush, h.message_size, h.control_size]
  · have hgrow : Buffers m n (growHeader rx ((b :: data).take (headerMissing rx))) :=
      ⟨wf_growHeader h.wf hlen _, h.message_size, h.control_size⟩
    rw [feedTurn_eq hlen]
    simp only
    split
    · exact hgrow
    · refine buffers_framePhase hgrow ?_ (by omega) ctx _
      simp only [growHeader, List.length_append]
      omega

theorem buffers_wsRxFeed {m n : Nat} {rx : WsRx} (h : Buffers m n rx) (ctx : σ)
    (data : List UInt8) : Buffers m n (wsRxFeed callback rx ctx data).2.1 := by
  unfold wsRxFeed
  generalize 2 * data.length + 1 = turns
  induction turns generalizing rx ctx data with
  | zero => rcases data with _ | ⟨b, data⟩ <;> exact h
  | succ turns ih =>
    rcases data with _ | ⟨b, data⟩
    · exact h
    · have hturn := buffers_feedTurn callback h ctx b data
      simp only [feedLoop]
      rcases hf : feedTurn callback rx ctx b data with ⟨rx', ctx', rest⟩ | ⟨rc, rx', ctx'⟩
      · rw [hf] at hturn
        exact ih hturn _ _
      · rw [hf] at hturn
        exact hturn

end Feed

end EmbeddedAudio.Ws
