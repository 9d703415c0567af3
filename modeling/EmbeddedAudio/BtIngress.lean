-- The queue of SBC packets between the Bluetooth callback and the decode
-- worker (bt_ingress.c), and the binding that fills it (bt_a2dp_esp_idf.c).
-- What one side sees of the other is a step of its own: a load of the other
-- cursor, a copy of a slot, a store of its cursor.
import EmbeddedAudio.Results
import EmbeddedAudio.RingCursor
import Mathlib.Logic.Function.Basic

namespace EmbeddedAudio.Bt

def EAF_BT_PACKET_BYTES : Nat := 1024
def EAF_BT_QUEUE_PACKETS : UInt32 := 8

/-! ## The queue -/

/-- `eaf_bt_packet_t`. `data` are the first `length` bytes of the field. -/
structure Packet where
  sequence : UInt16
  length : UInt16
  timestamp : UInt32
  frameCount : UInt8
  discontinuity : Bool
  data : List UInt8
  deriving DecidableEq, Repr

/-- `eaf_bt_ingress_t`. -/
structure Ingress where
  slots : Fin 8 → Packet
  readCursor : UInt32
  writeCursor : UInt32
  dropped : UInt32
  expectedSequence : UInt16
  haveSequence : Bool
  discontinuity : Bool

/-- A packet of zeros. -/
def emptyPacket : Packet := ⟨0, 0, 0, 0, false, []⟩

/-- `eaf_bt_ingress_init`. -/
def ingressInit : Ingress where
  slots _ := emptyPacket
  readCursor := 0
  writeCursor := 0
  dropped := 0
  expectedSequence := 0
  haveSequence := false
  discontinuity := false

theorem queue_toNat : EAF_BT_QUEUE_PACKETS.toNat = 8 := rfl

/-- The slot of a cursor. -/
def slotOf (cursor : UInt32) : Fin 8 :=
  ⟨(cursor % EAF_BT_QUEUE_PACKETS).toNat, by
    rw [UInt32.toNat_mod]
    exact Nat.mod_lt _ (by decide)⟩

/-- What `eaf_bt_sbc_receive` asks of a payload: a media header of one byte, with a frame count
and no fragmentation bits, and at least one byte of media. -/
def mediaValid (payload : List UInt8) : Bool :=
  2 ≤ payload.length && payload.length - 1 ≤ EAF_BT_PACKET_BYTES &&
    payload.headD 0 &&& 0xf0 == 0 && payload.headD 0 &&& 0x0f != 0

/-- Where the callback task is inside `eaf_bt_sbc_receive`. -/
inductive Producer where
  | idle
  | claiming (packet : Packet)
  | filling (write : UInt32) (packet : Packet)
  | publishing (write : UInt32) (packet : Packet)
  deriving DecidableEq, Repr

/-- Where the decode worker is inside `eaf_bt_ingress_pop`. -/
inductive Consumer where
  | idle
  | copying (read : UInt32)
  | copied (read : UInt32) (out : Packet)
  deriving DecidableEq, Repr

/-- A payload that cannot be a packet, or for which there is no slot. -/
def refuse (q : Ingress) : Ingress :=
  { q with dropped := q.dropped + 1, discontinuity := true }

/-- The packet that a payload is, with what its sequence number says about a gap. -/
def packetOf (q : Ingress) (sequence : UInt16) (timestamp : UInt32) (payload : List UInt8) :
    Packet where
  sequence := sequence
  length := UInt16.ofNat (payload.length - 1)
  timestamp := timestamp
  frameCount := payload.headD 0 &&& 0x0f
  discontinuity := q.haveSequence && sequence != q.expectedSequence
  data := payload.tail

/-- `expected_sequence` and `have_sequence` behind a packet. -/
def expectAfter (q : Ingress) (sequence : UInt16) : Ingress :=
  { q with expectedSequence := sequence + 1, haveSequence := true }

/-! ## The binding -/

inductive ConnectionState where
  | disconnected
  | connecting
  | connected
  | disconnecting
  deriving DecidableEq, Repr

/-- What `a2d_cb` is told. A configuration comes with what `accepts` says about it. -/
inductive A2dEvent where
  | sepRegState (success : Bool)
  | connectionState (state : ConnectionState) (peer : List UInt8)
  | audioCfg (accepted : Bool)
  | audioState (started : Bool)
  | other
  deriving DecidableEq, Repr

/-- `eaf_bt_esp_idf_event_t`. -/
inductive Notification where
  | connected
  | disconnected
  | configured
  | started
  | suspended
  | released
  deriving DecidableEq, Repr

/-- `eaf_bt_esp_idf_status_t`. -/
structure Status where
  peer : List UInt8
  ready : Bool
  connected : Bool
  connecting : Bool
  streaming : Bool
  deriving DecidableEq, Repr

/-- The state of the binding. -/
structure Binding where
  sequence : UInt16
  configured : Bool
  streaming : Bool
  status : Status
  deriving DecidableEq, Repr

/-- `esp_a2d_audio_buff_t`. `data` are the `data_len` bytes behind the pointer, if it is one. -/
structure AudioBuff where
  numberFrame : UInt16
  timestamp : UInt32
  data : Option (List UInt8)
  deriving DecidableEq, Repr

/-- The binding after an event, and whom it tells what. -/
def a2dCb (b : Binding) : A2dEvent → Binding × Option Notification
  | .sepRegState success => ({ b with status := { b.status with ready := success } }, none)
  | .connectionState state peer =>
    let connected := decide (state = .connected)
    ({ b with
        streaming := false
        configured := b.configured && connected
        status := { b.status with
          streaming := false
          connected := connected
          connecting := decide (state = .connecting)
          peer := peer } },
      some (if connected then .connected else .disconnected))
  | .audioCfg accepted =>
    ({ b with
        configured := accepted
        streaming := false
        status := { b.status with streaming := false } },
      some (if accepted then .configured else .released))
  | .audioState started =>
    ({ b with streaming := started, status := { b.status with streaming := started } },
      some (if started then .started else .suspended))
  | .other => (b, none)

/-- The events that mark the next packet discontinuous. -/
def marks : A2dEvent → Bool
  | .connectionState _ _ => true
  | .audioCfg _ => true
  | .audioState _ => true
  | .sepRegState _ => false
  | .other => false

/-- What `audio_data_cb` asks of a buffer, and the payload that it stages for the queue. -/
def staged (buf : AudioBuff) : Option (List UInt8) :=
  match buf.data with
  | none => none
  | some data =>
    if buf.numberFrame ≠ 0 ∧ buf.numberFrame ≤ 15 ∧ data.length ≤ EAF_BT_PACKET_BYTES then
      some ((buf.numberFrame &&& 0x0f).toUInt8 :: data)
    else
      none

/-! ## Both tasks at once -/

/-- What became of a buffer that came while the stream was active. -/
inductive Outcome where
  | lost (buf : AudioBuff)
  | placed (packet : Packet)
  deriving DecidableEq, Repr

/-- The queue, the binding, the two tasks, what became of the buffers, in order, and the packets
that pops have returned. `current` is the buffer that the callback is at. -/
structure A2dp where
  ingress : Ingress
  binding : Binding
  producer : Producer
  current : AudioBuff
  consumer : Consumer
  history : List Outcome
  popped : List Packet
  notified : List Notification

/-- `eaf_bt_esp_idf_register`, after which callbacks may come. -/
def registered : A2dp where
  ingress := ingressInit
  binding := ⟨1, false, false, ⟨[], false, false, false, false⟩⟩
  producer := .idle
  current := ⟨0, 0, none⟩
  consumer := .idle
  history := []
  popped := []
  notified := []

/-- The buffer that the callback is at does not become a packet. -/
def lose (s : A2dp) : A2dp :=
  { s with producer := .idle, history := s.history ++ [.lost s.current] }

/-- `eaf_bt_sbc_receive` up to where it looks for a slot. -/
def sbcReceive (s : A2dp) (sequence : UInt16) (timestamp : UInt32) (payload : List UInt8) : A2dp :=
  if mediaValid payload then
    { s with
      ingress := expectAfter s.ingress sequence
      producer := .claiming (packetOf s.ingress sequence timestamp payload) }
  else
    lose { s with ingress := refuse s.ingress }

/-- `audio_data_cb` with a buffer. -/
def audioDataCb (s : A2dp) (buf : AudioBuff) : A2dp :=
  if s.binding.streaming then
    match staged buf with
    | none => lose { s with current := buf }
    | some payload =>
      sbcReceive
        { s with
          current := buf
          binding := { s.binding with sequence := s.binding.sequence + 1 } }
        s.binding.sequence buf.timestamp payload
  else
    s

/-- `a2d_cb`. -/
def onA2d (s : A2dp) (event : A2dEvent) : A2dp :=
  { s with
    binding := (a2dCb s.binding event).1
    ingress := { s.ingress with discontinuity := s.ingress.discontinuity || marks event }
    notified := s.notified ++ (a2dCb s.binding event).2.toList }

/-- One step of the callback task inside `eaf_bt_sbc_receive`. -/
def producerStep (s : A2dp) : A2dp :=
  match s.producer with
  | .idle => s
  | .claiming packet =>
    if s.ingress.writeCursor - s.ingress.readCursor = EAF_BT_QUEUE_PACKETS then
      lose { s with ingress := refuse s.ingress }
    else
      { s with producer := .filling s.ingress.writeCursor packet }
  | .filling write packet =>
    let marked := { packet with discontinuity := packet.discontinuity || s.ingress.discontinuity }
    { s with
      ingress := { s.ingress with
        slots := Function.update s.ingress.slots (slotOf write) marked
        discontinuity := false }
      producer := .publishing write marked }
  | .publishing write packet =>
    { s with
      ingress := { s.ingress with writeCursor := write + 1 }
      producer := .idle
      history := s.history ++ [.placed packet] }

/-- One step of the decode worker inside `eaf_bt_ingress_pop`, which it enters when it is idle. -/
def consumerStep (s : A2dp) : A2dp :=
  match s.consumer with
  | .idle =>
    if s.ingress.readCursor = s.ingress.writeCursor then s
    else { s with consumer := .copying s.ingress.readCursor }
  | .copying read => { s with consumer := .copied read (s.ingress.slots (slotOf read)) }
  | .copied read out =>
    { s with
      ingress := { s.ingress with readCursor := read + 1 }
      consumer := .idle
      popped := s.popped ++ [out] }

/-- What happens next: a callback of the Bluetooth task, which makes them one after the other, or
a step of a task. -/
inductive Action where
  | audioData (buf : AudioBuff)
  | a2d (event : A2dEvent)
  | producer
  | consumer
  deriving DecidableEq, Repr

def step (s : A2dp) : Action → A2dp
  | .audioData buf => if s.producer = .idle then audioDataCb s buf else s
  | .a2d event => if s.producer = .idle then onA2d s event else s
  | .producer => producerStep s
  | .consumer => consumerStep s

def run (s : A2dp) (actions : List Action) : A2dp := actions.foldl step s

theorem run_cons (s : A2dp) (action : Action) (actions : List Action) :
    run s (action :: actions) = run (step s action) actions := rfl

theorem run_append (s : A2dp) (xs ys : List Action) : run s (xs ++ ys) = run (run s xs) ys :=
  List.foldl_append

end EmbeddedAudio.Bt
