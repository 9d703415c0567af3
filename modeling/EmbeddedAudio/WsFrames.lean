-- WebSocket frames as a peer sends them, the messages that they make up, and
-- what the receiver gives for them. A frame is a value here, so a stream of
-- valid frames is a list, and its bytes are the encodings one after another.
import EmbeddedAudio.WsFeed

namespace EmbeddedAudio.Ws

open Storage

/-! ## Frames -/

/-- An opcode and its payload. -/
abbrev Msg := UInt8 × List UInt8

structure MaskKey where
  k0 : UInt8
  k1 : UInt8
  k2 : UInt8
  k3 : UInt8
  deriving DecidableEq, Repr

def MaskKey.bytes (k : MaskKey) : List UInt8 := [k.k0, k.k1, k.k2, k.k3]

structure Frame where
  fin : Bool
  opcode : UInt8
  key : Option MaskKey
  payload : List UInt8
  /-- A header has eight bytes for a payload length. -/
  legal : payload.length < 2 ^ 64

/-- The length code of the second byte: the length itself, or how many bytes hold it. -/
def lengthCode (n : Nat) : UInt8 := if n ≤ 125 then n.toUInt8 else if n ≤ 0xFFFF then 126 else 127

def lengthBytes (n : Nat) : List UInt8 :=
  if n ≤ 125 then [] else if n ≤ 0xFFFF then writeBE 2 n else writeBE 8 n

namespace Frame

def firstByte (f : Frame) : UInt8 := (if f.fin then 0x80 else 0) ||| f.opcode

def secondByte (f : Frame) : UInt8 :=
  (if f.key.isSome then 0x80 else 0) ||| lengthCode f.payload.length

def keyBytes (f : Frame) : List UInt8 := (f.key.map MaskKey.bytes).getD []

/-- The payload as it stands on the wire. -/
def wirePayload (f : Frame) : List UInt8 :=
  match f.key with
  | none => f.payload
  | some k => unmaskBytes k.bytes 0 f.payload

/-- What comes after the first two bytes. -/
def tail (f : Frame) : List UInt8 := lengthBytes f.payload.length ++ f.keyBytes ++ f.wirePayload

def encode (f : Frame) : List UInt8 := f.firstByte :: f.secondByte :: f.tail

end Frame

def encodeAll (fs : List Frame) : List UInt8 := (fs.map Frame.encode).flatten

/-! ## Messages -/

/-- A frame of the message `m` that has started: it goes on, or ends. -/
def extend (cap : Nat) (m : Msg) (f : Frame) : Option (Option Msg × Option Msg) :=
  if m.2.length + f.payload.length ≤ cap then
    if f.fin then some (none, some (m.1, m.2 ++ f.payload))
    else some (some (m.1, m.2 ++ f.payload), none)
  else none

/-- What a frame makes of the message that has started, and the message that it ends. The FIN bit
of a control frame says nothing. `none`: the frame is not valid there, or it does not fit. -/
def accept (cap : Nat) (started : Option Msg) (f : Frame) : Option (Option Msg × Option Msg) :=
  if isControl f.opcode then
    if f.payload.length ≤ CONTROL_BYTES then some (started, some (f.opcode, f.payload))
    else none
  else
    match started with
    | some m => if f.opcode = 0 then extend cap m f else none
    | none =>
      if f.opcode = EAF_SENDPIN_WS_TEXT ∨ f.opcode = EAF_SENDPIN_WS_BINARY then
        extend cap (f.opcode, []) f
      else none

/-- The messages of a stream of frames. `none`: the stream is not valid. -/
def acceptAll (cap : Nat) : Option Msg → List Frame → Option (Option Msg × List Msg)
  | started, [] => some (started, [])
  | started, f :: fs => do
    let (started, m) ← accept cap started f
    let (started, ms) ← acceptAll cap started fs
    return (started, m.toList ++ ms)

/-! ## The bytes of a header -/

/-- A fact about every byte, from the 256 of them. -/
theorem forall_byte {p : UInt8 → Prop} (h : ∀ n : Fin 256, p ⟨⟨n⟩⟩) (b : UInt8) : p b := h b.toFin

theorem opcode_of_accept {cap : Nat} {started : Option Msg} {f : Frame} {r : Option Msg × Option Msg}
    (h : accept cap started f = some r) : f.opcode < 16 := by
  unfold accept isControl at h
  split at h
  · rename_i hc
    simp only [Bool.or_eq_true, beq_iff_eq] at hc
    rcases hc with (hc | hc) | hc <;> rw [hc] <;> decide
  · split at h
    · split at h
      · rename_i ho
        rw [ho]
        decide
      · cases h
    · split at h
      · rename_i ho
        rcases ho with ho | ho <;> rw [ho] <;> decide
      · cases h

theorem firstByte_opcode (f : Frame) (h : f.opcode < 16) : f.firstByte &&& 0x0F = f.opcode := by
  unfold Frame.firstByte
  revert h
  generalize f.opcode = op
  cases f.fin
  · exact forall_byte (p := fun op => op < 16 → (0 ||| op) &&& 0x0F = op) (by decide +kernel) op
  · exact forall_byte (p := fun op => op < 16 → (0x80 ||| op) &&& 0x0F = op) (by decide +kernel) op

theorem firstByte_fin (f : Frame) (h : f.opcode < 16) : (f.firstByte &&& 0x80 != 0) = f.fin := by
  unfold Frame.firstByte
  revert h
  generalize f.opcode = op
  cases f.fin
  · exact forall_byte (p := fun op => op < 16 → ((0 ||| op) &&& 0x80 != 0) = false)
      (by decide +kernel) op
  · exact forall_byte (p := fun op => op < 16 → ((0x80 ||| op) &&& 0x80 != 0) = true)
      (by decide +kernel) op

theorem lengthCode_lt (n : Nat) : lengthCode n < 128 := by
  unfold lengthCode
  split
  · rw [UInt8.lt_iff_toNat_lt]
    simp [Nat.toUInt8, UInt8.toNat_ofNat']
    omega
  · split <;> decide

theorem secondByte_masked (f : Frame) : (f.secondByte &&& 0x80 != 0) = f.key.isSome := by
  unfold Frame.secondByte
  have h := lengthCode_lt f.payload.length
  revert h
  generalize lengthCode f.payload.length = code
  cases f.key.isSome
  · exact forall_byte (p := fun c => c < 128 → ((0 ||| c) &&& 0x80 != 0) = false)
      (by decide +kernel) code
  · exact forall_byte (p := fun c => c < 128 → ((0x80 ||| c) &&& 0x80 != 0) = true)
      (by decide +kernel) code

theorem secondByte_code (f : Frame) : f.secondByte &&& 0x7F = lengthCode f.payload.length := by
  unfold Frame.secondByte
  have h := lengthCode_lt f.payload.length
  revert h
  generalize lengthCode f.payload.length = code
  cases f.key.isSome
  · exact forall_byte (p := fun c => c < 128 → (0 ||| c) &&& 0x7F = c) (by decide +kernel) code
  · exact forall_byte (p := fun c => c < 128 → (0x80 ||| c) &&& 0x7F = c) (by decide +kernel) code

theorem toNat_toUInt8_of_le {n : Nat} (h : n ≤ 125) : n.toUInt8.toNat = n := by
  simp [Nat.toUInt8, UInt8.toNat_ofNat']
  omega

theorem slice_lengthBytes (b0 b1 : UInt8) (bytes more : List UInt8) :
    slice (b0 :: b1 :: (bytes ++ more)) 2 bytes.length = bytes := by
  simp [slice]

/-- A complete header gives the payload length and where the mask key starts. -/
theorem headerLength_encode (f : Frame) (more : List UInt8) :
    headerLength (f.firstByte :: f.secondByte :: (lengthBytes f.payload.length ++ more)) =
      (f.payload.length, 2 + (lengthBytes f.payload.length).length) := by
  have hn := f.legal
  have hslice := slice_lengthBytes f.firstByte f.secondByte (lengthBytes f.payload.length) more
  unfold headerLength
  simp only [List.getD_cons_succ, List.getD_cons_zero, secondByte_code]
  generalize f.payload.length = n at *
  by_cases h1 : n ≤ 125
  · have h126 : n.toUInt8 ≠ 126 := fun h => by
      have := congrArg UInt8.toNat h
      rw [toNat_toUInt8_of_le h1] at this
      simp at this
      omega
    have h127 : n.toUInt8 ≠ 127 := fun h => by
      have := congrArg UInt8.toNat h
      rw [toNat_toUInt8_of_le h1] at this
      simp at this
      omega
    simp only [lengthCode, lengthBytes, h1, h126, h127, if_true, if_false, toNat_toUInt8_of_le,
      List.length_nil]
  · by_cases h2 : n ≤ 0xFFFF
    · simp only [lengthBytes, h1, h2, if_false, if_true, length_writeBE] at hslice
      simp only [lengthCode, lengthBytes, h1, h2, if_false, if_true, length_writeBE, hslice]
      rw [readBE_writeBE 2 n (by omega)]
    · simp only [lengthBytes, h1, h2, if_false, length_writeBE] at hslice
      simp only [lengthCode, lengthBytes, h1, h2, if_false, length_writeBE, hslice,
        show (127 : UInt8) ≠ 126 by decide, if_true]
      rw [readBE_writeBE 8 n (by omega)]

/-- How many header bytes the second byte asks for. -/
theorem headerNeeded_encode (f : Frame) :
    (if f.secondByte &&& 0x7F = 126 then 4 else if f.secondByte &&& 0x7F = 127 then 10 else 2) =
      2 + (lengthBytes f.payload.length).length := by
  have h := congrArg Prod.snd (headerLength_encode f [])
  unfold headerLength at h
  simp only [List.getD_cons_succ, List.getD_cons_zero] at h
  rw [← h]
  split_ifs <;> rfl

/-! ## The receiver between two frames -/

/-- The receiver at the end of a frame: no byte of the next one is in. -/
structure AtBoundary (cap : Nat) (rx : WsRx) (started : Option Msg) : Prop where
  wf : Wf rx
  no_header : rx.header = []
  not_ready : rx.frameReady = false
  message_size : rx.message.length = cap
  control_size : rx.control.length = CONTROL_BYTES
  fragmenting : rx.fragmenting = started.isSome
  started_message : ∀ m, started = some m →
    rx.messageOpcode = m.1 ∧ rx.message.take rx.messageLength = m.2

theorem atBoundary_init (message : List UInt8) :
    AtBoundary message.length (wsRxInit message) none :=
  ⟨wf_init message, rfl, rfl, rfl, by simp [wsRxInit], rfl, fun m hm => by cases hm⟩

/-- The receiver after the first two bytes of a frame. -/
def headed (rx : WsRx) (f : Frame) : WsRx :=
  { rx with
    header := [f.firstByte, f.secondByte]
    opcode := f.opcode
    fin := f.fin
    masked := f.key.isSome
    headerNeeded := 2 + (lengthBytes f.payload.length).length + f.keyBytes.length }

theorem length_keyBytes (f : Frame) : f.keyBytes.length = if f.key.isSome then 4 else 0 := by
  unfold Frame.keyBytes
  cases f.key <;> simp [MaskKey.bytes]

theorem pushHeader_two {rx : WsRx} (h : rx.header = []) {f : Frame} (hop : f.opcode < 16) :
    pushHeader (pushHeader rx f.firstByte) f.secondByte = headed rx f := by
  have h1 : pushHeader rx f.firstByte = { rx with header := [f.firstByte] } := by
    simp [pushHeader, h]
  rw [h1]
  unfold pushHeader headed
  simp only [List.singleton_append, firstByte_opcode f hop, firstByte_fin f hop,
    secondByte_masked, headerNeeded_encode, length_keyBytes]
  split <;> simp

/-- The receiver once the header is complete and nothing of it is looked at. -/
def headerRead (rx : WsRx) (f : Frame) : WsRx :=
  growHeader (headed rx f) (lengthBytes f.payload.length ++ f.keyBytes)

/-- The receiver once the frame has begun. -/
def begun (rx : WsRx) (f : Frame) : WsRx :=
  { headerRead rx f with
    mask := (f.key.map MaskKey.bytes).getD rx.mask
    messageLength := if isControl f.opcode ∨ f.opcode = 0 then rx.messageLength else 0
    messageOpcode := if isControl f.opcode ∨ f.opcode = 0 then rx.messageOpcode else f.opcode
    controlLength := if isControl f.opcode then 0 else rx.controlLength
    payloadLength := f.payload.length
    payloadUsed := 0
    frameReady := true }

theorem loadMask_headerRead (rx : WsRx) (f : Frame) :
    loadMask (headerRead rx f) =
      { headerRead rx f with mask := (f.key.map MaskKey.bytes).getD rx.mask } := by
  unfold loadMask
  rcases hk : f.key with _ | k
  · simp [headerRead, growHeader, headed, hk]
  · have hpos : (headerLength (headerRead rx f).header).2 = 2 + (lengthBytes f.payload.length).length :=
      congrArg Prod.snd (headerLength_encode f f.keyBytes)
    have hslice : slice (headerRead rx f).header (2 + (lengthBytes f.payload.length).length) 4 =
        k.bytes := by
      simp only [headerRead, growHeader, headed, slice, Frame.keyBytes, hk, Option.map_some,
        Option.getD_some]
      rw [← List.append_assoc, List.drop_left' (by simp; omega)]
      rfl
    rw [hpos, hslice]
    simp [headerRead, growHeader, headed, hk]

/-- A valid frame, by its kind. -/
inductive Kind (cap : Nat) (f : Frame) : Option Msg → Option Msg × Option Msg → Prop
  | control (started : Option Msg) (hc : isControl f.opcode = true)
      (hlen : f.payload.length ≤ CONTROL_BYTES) :
      Kind cap f started (started, some (f.opcode, f.payload))
  | more (m : Msg) (hop : f.opcode = 0) (hlen : m.2.length + f.payload.length ≤ cap)
      (hfin : f.fin = false) : Kind cap f (some m) (some (m.1, m.2 ++ f.payload), none)
  | last (m : Msg) (hop : f.opcode = 0) (hlen : m.2.length + f.payload.length ≤ cap)
      (hfin : f.fin = true) : Kind cap f (some m) (none, some (m.1, m.2 ++ f.payload))
  | first (hop : f.opcode = EAF_SENDPIN_WS_TEXT ∨ f.opcode = EAF_SENDPIN_WS_BINARY)
      (hlen : f.payload.length ≤ cap) (hfin : f.fin = false) :
      Kind cap f none (some (f.opcode, f.payload), none)
  | whole (hop : f.opcode = EAF_SENDPIN_WS_TEXT ∨ f.opcode = EAF_SENDPIN_WS_BINARY)
      (hlen : f.payload.length ≤ cap) (hfin : f.fin = true) :
      Kind cap f none (none, some (f.opcode, f.payload))

theorem kind_of_accept {cap : Nat} {started : Option Msg} {f : Frame} {r : Option Msg × Option Msg}
    (h : accept cap started f = some r) : Kind cap f started r := by
  unfold accept at h
  split at h
  · rename_i hc
    split at h
    · rename_i hlen
      cases h
      exact .control _ hc hlen
    · cases h
  · rcases started with _ | m
    · simp only at h
      split at h
      · rename_i hop
        unfold extend at h
        simp only [List.length_nil, Nat.zero_add, List.nil_append] at h
        split_ifs at h with hlen hfin <;> cases h
        · exact .whole hop hlen hfin
        · exact .first hop hlen (by simpa using hfin)
      · cases h
    · simp only at h
      split at h
      · rename_i hop
        unfold extend at h
        split_ifs at h with hlen hfin <;> cases h
        · exact .last m hop hlen hfin
        · exact .more m hop hlen (by simpa using hfin)
      · cases h

theorem not_control_of_data {op : UInt8}
    (h : op = EAF_SENDPIN_WS_TEXT ∨ op = EAF_SENDPIN_WS_BINARY) :
    isControl op = false ∧ op ≠ 0 := by
  rcases h with rfl | rfl <;> decide

theorem isControl_zero : isControl 0 = false := rfl

theorem started_length {cap : Nat} {rx : WsRx} {m : Msg} (h : AtBoundary cap rx (some m)) :
    rx.messageLength = m.2.length := by
  have hle := h.wf.message_le
  rw [← (h.started_message m rfl).2, List.length_take]
  omega

theorem openFrame_control {rx : WsRx} (hc : isControl rx.opcode = true) :
    openFrame rx = (EAF_OK, { rx with controlLength := 0 }) := by
  have hne : rx.opcode ≠ 0 := fun h0 => by rw [h0] at hc; cases hc
  have hdata : ¬ (rx.opcode = EAF_SENDPIN_WS_TEXT ∨ rx.opcode = EAF_SENDPIN_WS_BINARY) :=
    fun hd => by rw [(not_control_of_data hd).1] at hc; cases hc
  simp [openFrame, hne, hdata, hc]

theorem openFrame_continue {rx : WsRx} (hop : rx.opcode = 0) (hfrag : rx.fragmenting = true) :
    openFrame rx = (EAF_OK, rx) := by
  simp [openFrame, hop, hfrag]

theorem openFrame_data {rx : WsRx}
    (hop : rx.opcode = EAF_SENDPIN_WS_TEXT ∨ rx.opcode = EAF_SENDPIN_WS_BINARY)
    (hfrag : rx.fragmenting = false) :
    openFrame rx = (EAF_OK, { rx with messageLength := 0, messageOpcode := rx.opcode }) := by
  simp [openFrame, (not_control_of_data hop).2, hop, hfrag]

/-- A frame that opens and whose payload fits begins. -/
theorem beginFrame_ok {rx rx' : WsRx} (hopen : openFrame (loadMask rx) = (EAF_OK, rx'))
    (hroom : (headerLength rx.header).1 ≤ roomLeft rx') :
    beginFrame rx =
      (EAF_OK, { rx' with payloadLength := (headerLength rx.header).1, payloadUsed := 0 }) := by
  unfold beginFrame
  simp only [hopen, ne_eq, not_true_eq_false, if_false]
  rw [if_neg (by omega)]

/-- A valid frame begins. -/
theorem enterFrame_headerRead {cap : Nat} {rx : WsRx} {started : Option Msg} {f : Frame}
    {r : Option Msg × Option Msg} (h : AtBoundary cap rx started)
    (hacc : accept cap started f = some r) :
    enterFrame (headerRead rx f) = (EAF_OK, begun rx f) := by
  have hlen : (headerLength (headerRead rx f).header).1 = f.payload.length :=
    congrArg Prod.fst (headerLength_encode f f.keyBytes)
  have hfrag := h.fragmenting
  have hbegin : beginFrame (headerRead rx f) = (EAF_OK, { begun rx f with frameReady := false }) := by
    cases kind_of_accept hacc with
    | control _ hc hroom =>
      rw [beginFrame_ok (by rw [loadMask_headerRead]; exact openFrame_control hc), hlen]
      · simp [begun, headerRead, growHeader, headed, hc, h.not_ready]
      · rw [hlen]
        simpa [roomLeft, headerRead, growHeader, headed, hc, h.control_size] using hroom
    | more m hop hroom _ | last m hop hroom _ =>
      have hc : isControl f.opcode = false := by rw [hop]; rfl
      rw [beginFrame_ok (by rw [loadMask_headerRead]; exact openFrame_continue hop hfrag), hlen]
      · simp [begun, headerRead, growHeader, headed, hop, h.not_ready, isControl_zero]
      · rw [hlen]
        simp only [roomLeft, headerRead, growHeader, headed, hc, Bool.false_eq_true, if_false,
          h.message_size, started_length h]
        omega
    | first hop hroom _ | whole hop hroom _ =>
      obtain ⟨hc, hne⟩ := not_control_of_data hop
      rw [beginFrame_ok (by rw [loadMask_headerRead]; exact openFrame_data hop hfrag), hlen]
      · simp [begun, headerRead, growHeader, headed, hc, hne, h.not_ready]
      · rw [hlen]
        simpa [roomLeft, headerRead, growHeader, headed, hc, h.message_size] using hroom
  have hready : (headerRead rx f).frameReady = false := h.not_ready
  unfold enterFrame
  simp only [hready, Bool.false_eq_true, if_false, hbegin, if_true]
  rfl

/-- The receiver once the whole payload is in. -/
def payloadRead (rx : WsRx) (f : Frame) : WsRx := store (begun rx f) f.payload

theorem missing_begun (rx : WsRx) (f : Frame) : missing (begun rx f) = f.payload.length := rfl

theorem length_wirePayload (f : Frame) : f.wirePayload.length = f.payload.length := by
  unfold Frame.wirePayload
  split <;> simp

/-- The payload on the wire is unmasked to the payload of the frame. -/
theorem plain_begun (rx : WsRx) (f : Frame) : plain (begun rx f) f.wirePayload = f.payload := by
  unfold plain Frame.wirePayload begun headerRead growHeader headed
  rcases hk : f.key with _ | k
  · simp
  · simp [unmaskBytes_unmaskBytes]

theorem wf_headerRead {rx : WsRx} {f : Frame} (hwf : Wf (headed rx f)) : Wf (headerRead rx f) := by
  have htake : (lengthBytes f.payload.length ++ f.keyBytes).take (headerMissing (headed rx f)) =
      lengthBytes f.payload.length ++ f.keyBytes := by
    apply List.take_of_length_le
    simp only [headerMissing, headed, List.length_append, List.length_cons, List.length_nil]
    omega
  have := wf_growHeader hwf (by simp [headed]) (lengthBytes f.payload.length ++ f.keyBytes)
  rwa [htake] at this

/-- The first turn on what comes after the two bytes reads the header and goes to the payload. -/
theorem feedTurn_headed {σ : Type} {callback : MessageFn σ} (rx : WsRx) (f : Frame) (ctx : σ)
    (c : UInt8) (data : List UInt8) (more : List UInt8)
    (hdata : c :: data = lengthBytes f.payload.length ++ f.keyBytes ++ more) :
    feedTurn callback (headed rx f) ctx c data = framePhase callback (headerRead rx f) ctx more := by
  have hm : headerMissing (headed rx f) =
      (lengthBytes f.payload.length ++ f.keyBytes).length := by
    simp only [headerMissing, headed, List.length_append, List.length_cons, List.length_nil]
    omega
  rw [feedTurn_eq (by simp [headed]), hm, hdata, List.take_left, List.drop_left]
  have hfull : ¬ (headerRead rx f).header.length < (headerRead rx f).headerNeeded := by
    simp only [headerRead, growHeader, headed, List.length_append, List.length_cons,
      List.length_nil]
    omega
  exact if_neg hfull

/-- The receiver after a valid frame. -/
def frameDone (rx : WsRx) (f : Frame) : WsRx :=
  endFrame (if isControl f.opcode then payloadRead rx f
    else if f.fin then { payloadRead rx f with fragmenting := false, messageLength := 0 }
    else { payloadRead rx f with fragmenting := true })

/-- The payload of a control frame ends up in the control buffer. -/
theorem payloadRead_control {cap : Nat} {rx : WsRx} {started : Option Msg} {f : Frame}
    (h : AtBoundary cap rx started) (hc : isControl f.opcode = true)
    (hlen : f.payload.length ≤ CONTROL_BYTES) :
    (payloadRead rx f).control.take (payloadRead rx f).controlLength = f.payload ∧
      (payloadRead rx f).control.length = CONTROL_BYTES ∧
      (payloadRead rx f).message = rx.message ∧
      (payloadRead rx f).messageLength = rx.messageLength ∧
      (payloadRead rx f).messageOpcode = rx.messageOpcode := by
  have hsize := h.control_size
  have hread : payloadRead rx f = { begun rx f with
      control := overwrite rx.control 0 f.payload
      controlLength := f.payload.length
      payloadUsed := f.payload.length } := by
    simp [payloadRead, store, begun, headerRead, growHeader, headed, hc]
  rw [hread]
  have htake := take_overwrite rx.control 0 f.payload (Nat.zero_le _)
  rw [Nat.zero_add] at htake
  exact ⟨by simpa using htake, by simp only; rw [length_overwrite _ _ _ (by omega), hsize], rfl,
    by simp [begun, hc], by simp [begun, hc]⟩

/-- The payload of a data frame ends up after the fragments before it. -/
theorem payloadRead_data {cap : Nat} {rx : WsRx} {started : Option Msg} {f : Frame} {acc : List UInt8}
    (h : AtBoundary cap rx started) (hc : isControl f.opcode = false)
    (hacc : rx.message.take (begun rx f).messageLength = acc ∧ (begun rx f).messageLength = acc.length)
    (hlen : acc.length + f.payload.length ≤ cap) :
    (payloadRead rx f).message.take (payloadRead rx f).messageLength = acc ++ f.payload ∧
      (payloadRead rx f).message.length = cap ∧
      (payloadRead rx f).control = rx.control ∧
      (payloadRead rx f).messageOpcode = (begun rx f).messageOpcode := by
  have hsize := h.message_size
  have hread : payloadRead rx f = { begun rx f with
      message := overwrite rx.message acc.length f.payload
      messageLength := acc.length + f.payload.length
      payloadUsed := f.payload.length } := by
    rw [← hacc.2]
    simp [payloadRead, store, begun, headerRead, growHeader, headed, hc]
  have hacc1 := hacc.1
  rw [hacc.2] at hacc1
  rw [hread]
  refine ⟨?_, ?_, rfl, rfl⟩
  · simp only
    rw [take_overwrite _ _ _ (by omega), hacc1]
  · simp only
    rw [length_overwrite _ _ _ (by omega), hsize]

/-- The four kinds of a data frame are one: the bytes `acc` are there, of the message with
opcode `op`, and the payload comes after them. -/
theorem data_of_accept {cap : Nat} {rx : WsRx} {started started' : Option Msg} {f : Frame}
    {m : Option Msg} (h : AtBoundary cap rx started)
    (hacc : accept cap started f = some (started', m)) (hc : isControl f.opcode = false) :
    ∃ op acc, rx.message.take (begun rx f).messageLength = acc ∧
      (begun rx f).messageLength = acc.length ∧ (begun rx f).messageOpcode = op ∧
      acc.length + f.payload.length ≤ cap ∧
      started' = (if f.fin then none else some (op, acc ++ f.payload)) ∧
      m = (if f.fin then some (op, acc ++ f.payload) else none) := by
  cases kind_of_accept hacc with
  | control _ hc' => rw [hc] at hc'; cases hc'
  | more m hop hroom hfin | last m hop hroom hfin =>
    obtain ⟨hop', hacc'⟩ := h.started_message m rfl
    refine ⟨m.1, m.2, ?_, ?_, ?_, hroom, by simp [hfin], by simp [hfin]⟩
    · simpa [begun, hop, headerRead, growHeader, headed] using hacc'
    · simpa [begun, hop, headerRead, growHeader, headed] using started_length h
    · simpa [begun, hop, headerRead, growHeader, headed] using hop'
  | first hop hroom hfin | whole hop hroom hfin =>
    have hne := (not_control_of_data hop).2
    refine ⟨f.opcode, [], ?_, ?_, ?_, by simpa using hroom, by simp [hfin], by simp [hfin]⟩
    · simp [begun, hc, hne]
    · simp [begun, hc, hne]
    · simp [begun, hc, hne]

/-- After a valid frame the receiver is at a boundary again. -/
theorem atBoundary_frameDone {cap : Nat} {rx : WsRx} {started started' : Option Msg} {f : Frame}
    {m : Option Msg} (h : AtBoundary cap rx started)
    (hacc : accept cap started f = some (started', m)) (hwf : Wf (payloadRead rx f)) :
    AtBoundary cap (frameDone rx f) started' := by
  unfold frameDone
  by_cases hc : isControl f.opcode = true
  · cases kind_of_accept hacc with
    | control _ _ hlen =>
      obtain ⟨_, hcs, hm, hml, hmo⟩ := payloadRead_control h hc hlen
      have hfrag : (payloadRead rx f).fragmenting = rx.fragmenting :=
        (store_frame _ _).2.2.2.2.2.2.2.2.2
      rw [if_pos hc]
      refine ⟨wf_endFrame hwf, rfl, rfl, by rw [← h.message_size, ← hm]; rfl, hcs,
        hfrag.trans h.fragmenting, fun m hm' => ?_⟩
      simp only [endFrame, hm, hml, hmo]
      exact h.started_message m hm'
    | more m hop _ _ | last m hop _ _ => rw [hop] at hc; cases hc
    | first hop _ _ | whole hop _ _ => rw [(not_control_of_data hop).1] at hc; cases hc
  · have hc : isControl f.opcode = false := by simpa using hc
    obtain ⟨op, acc, hacc1, hacc2, hop, hroom, hst, _⟩ := data_of_accept h hacc hc
    obtain ⟨hmt, hms, hcs, hmo⟩ := payloadRead_data h hc ⟨hacc1, hacc2⟩ hroom
    rw [if_neg (by simp [hc])]
    have hcontrol : (payloadRead rx f).control.length = CONTROL_BYTES := by rw [hcs, h.control_size]
    rcases hfin : f.fin with _ | _
    · simp only [hfin, Bool.false_eq_true, if_false] at hst
      rw [if_neg (by simp), hst]
      refine ⟨wf_endFrame (wf_messageMore hwf),
        rfl, rfl, hms, hcontrol, rfl, fun m hm => ?_⟩
      cases hm
      exact ⟨hmo.trans hop, hmt⟩
    · simp only [hfin, if_true] at hst
      rw [if_pos rfl, hst]
      refine ⟨wf_endFrame (wf_messageDone hwf), rfl, rfl, hms, hcontrol, rfl, fun m hm => by cases hm⟩

/-- The callback that only writes down what it is given. -/
def recorder : MessageFn (List Msg) := fun log opcode buf length =>
  (EAF_OK, log ++ [(opcode, buf.take length)])

section Callback

variable {σ : Type} {callback : MessageFn σ}

/-- The callback on the message of a frame, when its payload is in. -/
def giveMessage (callback : MessageFn σ) (rx : WsRx) (f : Frame) (ctx : σ) : Rc × σ :=
  if isControl f.opcode then
    callback ctx f.opcode (payloadRead rx f).control (payloadRead rx f).controlLength
  else if f.fin then
    callback ctx (payloadRead rx f).messageOpcode (payloadRead rx f).message
      (payloadRead rx f).messageLength
  else (EAF_OK, ctx)

variable (callback) in
theorem completeFrame_payloadRead (rx : WsRx) (f : Frame) (ctx : σ) :
    completeFrame callback (payloadRead rx f) ctx =
      ((giveMessage callback rx f ctx).1,
        if (giveMessage callback rx f ctx).1 = EAF_OK then frameDone rx f else payloadRead rx f,
        (giveMessage callback rx f ctx).2) := by
  have hop : (payloadRead rx f).opcode = f.opcode := (store_frame _ _).2.2.2.2.1
  have hfin : (payloadRead rx f).fin = f.fin := (store_frame _ _).2.2.2.2.2.1
  unfold completeFrame giveMessage frameDone
  rw [hop, hfin]
  simp only
  split_ifs <;> simp_all

variable (callback) in
/-- The receive call after the first two bytes of a frame. -/
theorem wsRxFeed_head {cap : Nat} {rx : WsRx} {started : Option Msg}
    (h : AtBoundary cap rx started) {f : Frame} (hop : f.opcode < 16) (ctx : σ)
    (rest : List UInt8) :
    wsRxFeed callback rx ctx (f.firstByte :: f.secondByte :: rest) =
        wsRxFeed callback (headed rx f) ctx rest ∧ Wf (headed rx f) := by
  have hlen : rx.header.length < 2 := by simp [h.no_header]
  have hwf1 := wf_pushHeader h.wf f.firstByte hlen
  have hlen1 : (pushHeader rx f.firstByte).header.length < 2 := by
    simp [pushHeader_header, h.no_header]
  have hwf2 := wf_pushHeader hwf1 f.secondByte hlen1
  rw [pushHeader_two h.no_header hop] at hwf2
  refine ⟨?_, hwf2⟩
  rw [wsRxFeed_cons h.wf]
  unfold feedTurn
  rw [if_pos hlen]
  simp only [feedAfter]
  rw [wsRxFeed_cons hwf1]
  unfold feedTurn
  rw [if_pos hlen1, pushHeader_two h.no_header hop]
  rfl

variable (callback) in
/-- The callback is given the message of the frame, or is not called. -/
theorem giveMessage_spec {cap : Nat} {rx : WsRx} {started started' : Option Msg} {f : Frame}
    {m : Option Msg} (h : AtBoundary cap rx started)
    (hacc : accept cap started f = some (started', m)) :
    (m = none ∧ ∀ ctx, giveMessage callback rx f ctx = (EAF_OK, ctx)) ∨
    (∃ op buf length, m = some (op, buf.take length) ∧
      ∀ ctx, giveMessage callback rx f ctx = callback ctx op buf length) := by
  by_cases hc : isControl f.opcode = true
  · right
    cases kind_of_accept hacc with
    | control _ _ hlen =>
      have htake := (payloadRead_control h hc hlen).1
      exact ⟨f.opcode, _, _, by rw [htake], fun ctx => by simp [giveMessage, hc]⟩
    | more m hop _ _ | last m hop _ _ => rw [hop] at hc; cases hc
    | first hop _ _ | whole hop _ _ => rw [(not_control_of_data hop).1] at hc; cases hc
  · have hc : isControl f.opcode = false := by simpa using hc
    obtain ⟨op, acc, hacc1, hacc2, hop, hroom, _, hm⟩ := data_of_accept h hacc hc
    obtain ⟨hmt, _, _, hmo⟩ := payloadRead_data h hc ⟨hacc1, hacc2⟩ hroom
    rcases hfin : f.fin with _ | _
    · left
      exact ⟨by simpa [hfin] using hm, fun ctx => by simp [giveMessage, hc, hfin]⟩
    · right
      simp only [hfin, if_true] at hm
      exact ⟨op, _, _, by rw [hm, hmt], fun ctx => by simp [giveMessage, hc, hfin, hmo, hop]⟩

/-- What a whole frame gives: the answer of the callback on its message. -/
def afterFrame (callback : MessageFn σ) (rx : WsRx) (f : Frame) (ctx : σ) : Rc × WsRx × σ :=
  ((giveMessage callback rx f ctx).1,
    if (giveMessage callback rx f ctx).1 = EAF_OK then frameDone rx f else payloadRead rx f,
    (giveMessage callback rx f ctx).2)

theorem wf_begun {rx : WsRx} {f : Frame} (hwf : Wf (headed rx f))
    (hbegun : enterFrame (headerRead rx f) = (EAF_OK, begun rx f)) : Wf (begun rx f) := by
  have hshape := wf_enterFrame (wf_headerRead hwf)
    (by simp only [headerRead, growHeader, headed, List.length_append, List.length_cons,
      List.length_nil]; omega)
    (by simp only [headerRead, growHeader, headed, List.length_append, List.length_cons,
      List.length_nil]; omega)
  rwa [hbegun] at hshape

theorem wf_payloadRead {rx : WsRx} {f : Frame} (hwf : Wf (begun rx f)) : Wf (payloadRead rx f) :=
  wf_store hwf rfl _ (by rw [missing_begun])

variable (callback) in
/-- The turn that reads the last byte of a frame, with `more` behind it. -/
theorem framePhase_frame {rx : WsRx} {f : Frame} (hwf : Wf (headed rx f))
    (hbegun : enterFrame (headerRead rx f) = (EAF_OK, begun rx f)) (ctx : σ) (more : List UInt8) :
    framePhase callback (headerRead rx f) ctx (f.wirePayload ++ more) =
      endTurn (afterFrame callback rx f ctx) more := by
  have hlen := length_wirePayload f
  have hwfb := wf_begun hwf hbegun
  rw [framePhase_full hbegun hwfb (by rw [missing_begun, List.length_append]; omega),
    missing_begun, List.take_append_of_le_length (by omega), List.take_of_length_le (by omega),
    List.drop_append_of_le_length (by omega), List.drop_of_length_le (by omega), plain_begun]
  have hcomplete := completeFrame_payloadRead callback rx f ctx
  unfold payloadRead at hcomplete
  rw [hcomplete]
  rfl

/-- Feeding a frame whose last byte is not its second one gives its message at once. -/
theorem wsRxFeed_frame {cap : Nat} {rx : WsRx} {started : Option Msg} {f : Frame}
    {r : Option Msg × Option Msg} (h : AtBoundary cap rx started)
    (hacc : accept cap started f = some r) (htail : f.tail ≠ []) (ctx : σ) :
    wsRxFeed callback rx ctx f.encode = afterFrame callback rx f ctx := by
  obtain ⟨hhead, hwf⟩ := wsRxFeed_head callback h (opcode_of_accept hacc) ctx f.tail
  have hbegun := enterFrame_headerRead h hacc
  unfold Frame.encode
  rw [hhead]
  rcases htl : f.tail with _ | ⟨c, data⟩
  · exact absurd htl htail
  · have hframe := framePhase_frame callback hwf hbegun ctx []
    rw [List.append_nil] at hframe
    rw [wsRxFeed_cons hwf, feedTurn_headed rx f ctx c data f.wirePayload htl.symm, hframe]
    unfold endTurn
    split
    · rfl
    · rename_i hrc
      have hrc := not_not.mp hrc
      simp only [feedAfter, wsRxFeed_nil]
      rw [← hrc]

/-- A frame whose second byte is its last one stays unread. -/
theorem wsRxFeed_bare {cap : Nat} {rx : WsRx} {started : Option Msg} {f : Frame}
    {r : Option Msg × Option Msg} (h : AtBoundary cap rx started)
    (hacc : accept cap started f = some r) (htail : f.tail = []) (ctx : σ) :
    wsRxFeed callback rx ctx f.encode = (EAF_OK, headed rx f, ctx) := by
  obtain ⟨hhead, _⟩ := wsRxFeed_head callback h (opcode_of_accept hacc) ctx f.tail
  unfold Frame.encode
  rw [hhead, htail, wsRxFeed_nil]

/-- The next byte gives its message first. -/
theorem wsRxFeed_headed {cap : Nat} {rx : WsRx} {started : Option Msg} {f : Frame}
    {r : Option Msg × Option Msg} (h : AtBoundary cap rx started)
    (hacc : accept cap started f = some r) (htail : f.tail = []) (ctx : σ) (c : UInt8)
    (data : List UInt8) :
    wsRxFeed callback (headed rx f) ctx (c :: data) =
      feedNext callback (afterFrame callback rx f ctx) (c :: data) := by
  have hwf := (wsRxFeed_head callback h (opcode_of_accept hacc) ctx f.tail).2
  have hbegun := enterFrame_headerRead h hacc
  have hparts : lengthBytes f.payload.length ++ f.keyBytes = [] ∧ f.wirePayload = [] := by
    simpa [Frame.tail, and_assoc] using htail
  have hframe := framePhase_frame callback hwf hbegun ctx (c :: data)
  rw [hparts.2, List.nil_append] at hframe
  rw [wsRxFeed_cons hwf, feedTurn_headed rx f ctx c data (c :: data) (by rw [hparts.1]; rfl), hframe]
  unfold endTurn feedNext
  split <;> rfl

variable (callback) in
/-- A frame that is not complete gives nothing. -/
theorem wsRxFeed_partial {cap : Nat} {rx : WsRx} {started : Option Msg} {f : Frame}
    {r : Option Msg × Option Msg} (h : AtBoundary cap rx started)
    (hacc : accept cap started f = some r) {p : List UInt8} (hp : p <+: f.encode)
    (hne : p ≠ f.encode) (ctx : σ) :
    ∃ rx', wsRxFeed callback rx ctx p = (EAF_OK, rx', ctx) := by
  have hbegun := enterFrame_headerRead h hacc
  obtain ⟨hhead, hwf⟩ := wsRxFeed_head callback h (opcode_of_accept hacc) ctx []
  obtain ⟨q, hq⟩ := hp
  unfold Frame.encode at hq
  rcases p with _ | ⟨b0, _ | ⟨b1, p⟩⟩
  · exact ⟨rx, wsRxFeed_nil _ _⟩
  · have hlen : rx.header.length < 2 := by simp [h.no_header]
    rw [wsRxFeed_cons h.wf]
    unfold feedTurn
    rw [if_pos hlen]
    exact ⟨_, wsRxFeed_nil _ _⟩
  · simp only [List.cons_append, List.cons.injEq] at hq
    obtain ⟨rfl, rfl, hq⟩ := hq
    have hp : p ≠ f.tail := fun hp => hne (by rw [hp]; rfl)
    obtain ⟨hhead, _⟩ := wsRxFeed_head callback h (opcode_of_accept hacc) ctx p
    rw [hhead]
    rcases p with _ | ⟨c, data⟩
    · exact ⟨_, wsRxFeed_nil _ _⟩
    · have htake := congrArg (List.take (lengthBytes f.payload.length ++ f.keyBytes).length) hq
      have hdrop := congrArg (List.drop (lengthBytes f.payload.length ++ f.keyBytes).length) hq
      rw [Frame.tail, List.take_left] at htake
      rw [Frame.tail, List.drop_left] at hdrop
      rcases Nat.lt_or_ge (c :: data).length (lengthBytes f.payload.length ++ f.keyBytes).length
        with hshort | hfull
      · -- the header is not complete
        have hm : headerMissing (headed rx f) =
            (lengthBytes f.payload.length ++ f.keyBytes).length := by
          simp only [headerMissing, headed, List.length_append, List.length_cons, List.length_nil]
          omega
        rw [wsRxFeed_cons hwf, feedTurn_eq (by simp [headed]), hm,
          List.take_of_length_le (Nat.le_of_lt hshort), List.drop_of_length_le (Nat.le_of_lt hshort)]
        simp only
        rw [if_pos (by
          simp only [growHeader, headed, List.length_append, List.length_cons, List.length_nil]
            at hshort ⊢
          omega)]
        exact ⟨_, wsRxFeed_nil _ _⟩
      · -- the payload is not complete
        rw [List.take_append_of_le_length hfull] at htake
        rw [List.drop_append_of_le_length hfull] at hdrop
        have hparts : c :: data = lengthBytes f.payload.length ++ f.keyBytes ++
            (c :: data).drop (lengthBytes f.payload.length ++ f.keyBytes).length := by
          conv => lhs; rw [← List.take_append_drop
            (lengthBytes f.payload.length ++ f.keyBytes).length (c :: data), htake]
        have hq' : q ≠ [] := fun hnil => hp (by rw [hnil, List.append_nil] at hq; exact hq)
        have hmore : ((c :: data).drop
            (lengthBytes f.payload.length ++ f.keyBytes).length).length < missing (begun rx f) := by
          have hlen := congrArg List.length hdrop
          have hpos := List.length_pos_iff.mpr hq'
          rw [List.length_append, length_wirePayload] at hlen
          rw [missing_begun]
          omega
        rw [wsRxFeed_cons hwf, feedTurn_headed rx f ctx c data _ hparts,
          framePhase_short hbegun (wf_begun hwf hbegun) hmore]
        exact ⟨_, wsRxFeed_nil _ _⟩

end Callback

end EmbeddedAudio.Ws
