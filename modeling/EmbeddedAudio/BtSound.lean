-- The way of the sound through the Bluetooth speaker (main.c): the callback
-- task fills the queue of packets, the decode task takes them to the reservoir,
-- and the output task takes blocks out of it. What one task sees of another is
-- a step of its own, and so is each notification.
import EmbeddedAudio.BtDecoder
import EmbeddedAudio.SpscPulls

namespace EmbeddedAudio.BtSound

open Bt BtDecoder Storage
open EmbeddedAudio.Core (Spsc Buffer Reservoir Fifo reservoirInit reservoirLevel
  reservoirBackpressure pullValid spscStep spscStart channelsOf)

/-! ## The three tasks -/

/-- The SBC codec. What it answers can depend on all that happened. -/
structure Codec where
  reset : List BtDecoder.Event → Rc
  frame : List BtDecoder.Event → List UInt8 → CodecAnswer

/-- What a part of `eaf_bt_decoder_step` meets in which a write takes `room` frames. The packets
come from the queue. -/
def Codec.env (codec : Codec) (room : UInt32) : Env where
  reset := codec.reset
  frame := codec.frame
  pop _ := none
  room _ := room

/-- Where `decode_entry` is. `before` is the level in front of the step of the decoder. -/
inductive Decode where
  | starting
  | waiting
  | woken
  | looking
  | called (before : UInt32)
  | offering (before : UInt32)
  | popping (before : UInt32)
  | writing (before : UInt32)
  | returned (before : UInt32)
  | pacing (before : UInt32)
  | comparing (before : UInt32)
  deriving DecidableEq, Repr

/-- Where `output_entry` is. `waking` is inside a pull that has released its frames. -/
inductive Output where
  | acquiring
  | pulling
  | waking
  deriving DecidableEq, Repr

/-- The queue with its binding and the reservoir, each with both its sides, the decoder, and the
three tasks. `telling` says that the callback has an event to tell, `notified` that the decode task
has a notification, and `seen` is what that task last saw of the link. -/
structure Sound where
  a2dp : A2dp
  telling : Bool
  notified : Bool
  decode : Decode
  wasConnected : Bool
  seen : Option (Bool × Bool)
  decoder : Decoder
  spsc : Spsc
  output : Output

/-- `wake_decode`. Nobody is told before the task has put its handle there. -/
def wakeDecode (s : Sound) : Sound :=
  if s.decode = .starting then s else { s with notified := true }

/-! ## The callback task -/

/-- The next step of the callback task inside a callback: it tells an event, or goes on in
`eaf_bt_sbc_receive`. -/
def callbackStep (s : Sound) : Sound :=
  if s.telling then wakeDecode { s with telling := false }
  else { s with a2dp := producerStep s.a2dp }

/-! ## The decode task -/

/-- The frames that a write has taken, when it returns with the producer's next step. -/
def writeReturns (spsc : Spsc) : Option UInt32 :=
  match spsc.producer with
  | .called _ _ => if spsc.r.finished then some 0 else none
  | .copying _ _ frames copied =>
    if copied < frames.toNat * channelsOf spsc then none else some frames
  | _ => none

/-- `eaf_reservoir_write` is called with what is pending. -/
def callWrite (s : Sound) : Sound :=
  { s with
    spsc := spscStep s.spsc (.write (s.decoder.pcm31.drop (s.decoder.sent.toNat * 2))
      (s.decoder.pending - s.decoder.sent)) }

/-- What `eaf_bt_decoder_step` does behind the codec: a rejected frame ends the loop of the task,
the others go to the reservoir. -/
def decoded (s : Sound) (before : UInt32) (result : Rc × Decoder) : Sound :=
  if result.1 ≠ EAF_OK then { s with decoder := result.2, decode := .waiting }
  else callWrite { s with decoder := result.2, decode := .writing before }

/-- What `eaf_bt_decoder_step` does when nothing is pending any more. -/
def goOn (codec : Codec) (s : Sound) (before : UInt32) : Sound :=
  let s := { s with decoder := { s.decoder with pending := 0, sent := 0 } }
  if s.decoder.framesLeft ≠ 0 then decoded s before (decodeFrame (codec.env 0) s.decoder)
  else { s with decode := .popping before }

/-- A step inside a write, and what is done when it returns. -/
def writeStep (codec : Codec) (s : Sound) (next : Sound → Sound) : Sound :=
  let s' := { s with spsc := Core.producerStep s.spsc }
  match writeReturns s.spsc with
  | none => s'
  | some frames => next { s' with decoder := offer (codec.env frames) s.decoder }

/-- A step inside `eaf_bt_ingress_pop`, and what is done when it returns. -/
def popStep (codec : Codec) (s : Sound) (before : UInt32) : Sound :=
  let s' := { s with a2dp := consumerStep s.a2dp }
  match s.a2dp.consumer with
  | .idle =>
    if s.a2dp.ingress.readCursor = s.a2dp.ingress.writeCursor then
      { s with decode := .returned before }
    else s'
  | .copying _ => s'
  | .copied _ packet => decoded s' before (beginPacket (codec.env 0) s.decoder packet)

/-- One step of `decode_entry`. -/
def decodeStep (codec : Codec) (s : Sound) : Sound :=
  match s.decode with
  | .starting => { s with decode := .waiting }
  | .waiting => if s.notified then { s with notified := false, decode := .woken } else s
  | .woken =>
    let status := s.a2dp.binding.status
    let s := { s with
      decoder :=
        if s.wasConnected ∧ ¬ status.connected then (decoderReset (codec.env 0) s.decoder).2
        else s.decoder
      wasConnected := status.connected
      seen := some (status.connected, status.streaming) }
    { s with decode := if status.streaming then .looking else .waiting }
  | .looking => { s with decode := .called (reservoirLevel s.spsc.r) }
  | .called before =>
    if s.decoder.pending > s.decoder.sent then callWrite { s with decode := .offering before }
    else goOn codec s before
  | .offering before =>
    writeStep codec s fun s =>
      if s.decoder.pending > s.decoder.sent then { s with decode := .returned before }
      else goOn codec s before
  | .popping before => popStep codec s before
  | .writing before => writeStep codec s fun s => { s with decode := .returned before }
  | .returned before => { s with decode := .pacing before }
  | .pacing before =>
    { s with decode := if reservoirBackpressure s.spsc.r then .waiting else .comparing before }
  | .comparing before =>
    { s with decode := if reservoirLevel s.spsc.r = before then .waiting else .looking }

/-! ## The output task -/

/-- A block of the sink, of `n` frames of two channels. -/
def sinkBlock (n : UInt32) (format : Format) : Buffer := ⟨some 0, n, n, n.toNat * 2, format, 0⟩

/-- One step of `output_entry`. `ok` is the answer of the sink when it is asked for a block. A pull
that fails at once leaves silence, and the gain and the sink take no other task's data. -/
def outputStep (n : UInt32) (s : Sound) (ok : Bool) : Sound :=
  match s.output with
  | .acquiring =>
    if ok ∧ pullValid s.spsc.r (sinkBlock n s.spsc.r.format) then
      { s with
        spsc := spscStep s.spsc (.pull (sinkBlock n s.spsc.r.format))
        output := .pulling }
    else s
  | .pulling =>
    let spsc := Core.consumerStep s.spsc
    { s with
      spsc := spsc
      output :=
        if spsc.consumer = .idle then
          if (spsc.pulls.getLast?.map (·.pulled.wake)).getD false then .waking else .acquiring
        else .pulling }
  | .waking => wakeDecode { s with output := .acquiring }

/-! ## Runs -/

/-- What happens next: a callback, or a step of a task. -/
inductive Action where
  | audioData (buf : AudioBuff)
  | a2d (event : A2dEvent)
  | callback
  | decode
  | output (ok : Bool)
  deriving DecidableEq, Repr

/-- The Bluetooth task makes its callbacks one after the other. `n` is the size of a block. -/
def soundStep (codec : Codec) (n : UInt32) (s : Sound) : Action → Sound
  | .audioData buf =>
    if s.a2dp.producer = .idle ∧ s.telling = false then { s with a2dp := audioDataCb s.a2dp buf }
    else s
  | .a2d event =>
    if s.a2dp.producer = .idle ∧ s.telling = false then
      { s with a2dp := onA2d s.a2dp event, telling := (a2dCb s.a2dp.binding event).2.isSome }
    else s
  | .callback => callbackStep s
  | .decode => decodeStep codec s
  | .output ok => outputStep n s ok

def soundRun (codec : Codec) (n : UInt32) (s : Sound) (actions : List Action) : Sound :=
  actions.foldl (soundStep codec n) s

theorem soundRun_snoc (codec : Codec) (n : UInt32) (s : Sound) (actions : List Action)
    (action : Action) :
    soundRun codec n s (actions ++ [action]) =
      soundStep codec n (soundRun codec n s actions) action :=
  List.foldl_concat ..

theorem soundRun_append (codec : Codec) (n : UInt32) (s : Sound) (before after : List Action) :
    soundRun codec n s (before ++ after) = soundRun codec n (soundRun codec n s before) after :=
  List.foldl_append

/-- What outlives each step outlives a run. -/
theorem soundRun_law {codec : Codec} {n : UInt32} {I : Sound → Prop}
    (hstep : ∀ s action, I s → I (soundStep codec n s action)) {s : Sound} (h : I s)
    (actions : List Action) : I (soundRun codec n s actions) :=
  List.foldlRecOn actions (soundStep codec n) h fun s hs action _ => hstep s action hs

/-- The part of `start_audio` that the tasks rely on, with the queue registered. `frames` is the
size of the reservoir, and `sizeMax` is `SIZE_MAX`. -/
def startAudio (codec : Codec) (sizeMax sampleRate : Nat) (frames : UInt32) : Except Rc Sound :=
  let format : Format := ⟨sampleRate, 2, 3⟩
  match reservoirInit sizeMax (List.replicate (frames.toNat * 2) 0) frames format (frames / 2) with
  | .error _ => .error EAF_IO
  | .ok reservoir =>
    match decoderInit (codec.env 0) format with
    | (rc, some decoder) =>
      if rc ≠ EAF_OK then .error EAF_IO
      else
        .ok {
          a2dp := registered
          telling := false
          notified := false
          decode := .starting
          wasConnected := false
          seen := none
          decoder := decoder
          spsc := spscStart { reservoir with wakeProducer := true } 0
          output := .acquiring }
    | _ => .error EAF_IO

theorem startAudio_ok {codec : Codec} {sizeMax sampleRate : Nat} {frames : UInt32} {s : Sound}
    (h : startAudio codec sizeMax sampleRate frames = .ok s) :
    ∃ reservoir decoder,
      reservoirInit sizeMax (List.replicate (frames.toNat * 2) 0) frames ⟨sampleRate, 2, 3⟩
        (frames / 2) = .ok reservoir ∧
      decoderInit (codec.env 0) ⟨sampleRate, 2, 3⟩ = (EAF_OK, some decoder) ∧
      s = ⟨registered, false, false, .starting, false, none, decoder,
        spscStart { reservoir with wakeProducer := true } 0, .acquiring⟩ := by
  unfold startAudio at h
  dsimp only at h
  split at h
  · cases h
  rename_i reservoir hreservoir
  split at h
  · rename_i rc decoder hdecoder
    split at h
    · cases h
    rename_i hok
    cases h
    refine ⟨reservoir, decoder, hreservoir, ?_, rfl⟩
    rw [hdecoder, not_not.mp hok]
  · cases h

end EmbeddedAudio.BtSound
