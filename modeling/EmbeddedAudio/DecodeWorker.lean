-- The decode worker (eaf_decoder.c): a decoder adapter on one side, a sink that
-- takes what it can on the other, and every decoded frame in between.
import EmbeddedAudio.Results
import EmbeddedAudio.LogLaw
import EmbeddedAudio.Storage
import EmbeddedAudio.TxBuffer

namespace EmbeddedAudio.DecodeWorker

open Log Storage TxBuffer

/-! ## The worker -/

/-- What `pull` of an adapter leaves behind. `pcm` is what stands in the scratch block then. -/
structure PullAnswer where
  rc : Rc
  frames : UInt32
  format : Format
  pcm : Nat → Int32

/-- What the adapter was asked, and what became of the frames, in order. -/
inductive Event where
  | opened (rc : Rc)
  | push (bytes : List UInt8) (rc : Rc) (consumed : Nat)
  | pull (answer : PullAnswer)
  | reset (rc : Rc)
  | wrote (frames : UInt32) (samples : List Int32)
  | dropped (frames : UInt32) (samples : List Int32)

/-- An adapter and a sink that keep their contracts. What they answer can depend on all that
happened. -/
structure Env where
  opens : List Event → Rc
  push : List Event → List UInt8 → Rc × Nat
  pull : List Event → UInt32 → PullAnswer
  reset : List Event → Rc
  sink : List Event → List Int32 → UInt32 → UInt32
  pull_le : ∀ log maxFrames, (pull log maxFrames).frames.toNat ≤ maxFrames.toNat
  sink_le : ∀ log samples frames, (sink log samples frames).toNat ≤ frames.toNat

/-- `eaf_decoder_config_t`, as far as `eaf_decoder_open` looks at it. -/
structure Config where
  sampleRate : Nat
  channels : Nat
  deriving DecidableEq, Repr

/-- `eaf_decode_worker_t`. -/
structure Worker where
  format : Format
  scratch : List Int32
  scratchFrames : UInt32
  pending : UInt32
  sent : UInt32
  framesWritten : UInt32
  framesDropped : UInt32
  isOpen : Bool
  log : List Event

/-- The bytes of a call of push, or a null pointer with a length. -/
inductive Input where
  | bytes (data : List UInt8)
  | null (length : Nat)
  deriving DecidableEq, Repr

abbrev emit (w : Worker) (e : Event) : Worker := { w with log := w.log ++ [e] }

/-- `eaf_decoder_open`, with all pointers set. -/
def decoderOpen (env : Env) (w : Worker) (cfg : Config) : Rc × Worker :=
  if formatValid w.format = false ∨ cfg.sampleRate = 0 ∨ cfg.channels = 0 ∨
      cfg.channels > EAF_MAX_CHANNELS then (EAF_INVALID, w)
  else
    let rc := env.opens w.log
    (rc, emit w (.opened rc))

/-- `eaf_decoder_push`. -/
def decoderPush (env : Env) (w : Worker) : Input → Rc × Nat × Worker
  | .null (_ + 1) => (EAF_INVALID, 0, w)
  | .null 0 =>
    let (rc, consumed) := env.push w.log []
    (rc, consumed, emit w (.push [] rc consumed))
  | .bytes data =>
    let (rc, consumed) := env.push w.log data
    (rc, consumed, emit w (.push data rc consumed))

/-- `eaf_decoder_pull` into the scratch block. -/
def decoderPull (env : Env) (w : Worker) : Rc × UInt32 × Format × Worker :=
  if w.scratchFrames = 0 then (EAF_INVALID, 0, ⟨0, 0, 0⟩, w)
  else
    let answer := env.pull w.log w.scratchFrames
    (answer.rc, answer.frames, answer.format, emit { w with
      scratch := (List.range (w.scratchFrames.toNat * w.format.numChannels)).map answer.pcm }
      (.pull answer))

/-- `eaf_decoder_reset`. -/
def decoderReset (env : Env) (w : Worker) : Rc × Worker :=
  let rc := env.reset w.log
  (rc, emit w (.reset rc))

/-- `eaf_decode_worker_open`. The log starts here. -/
def workerOpen (env : Env) (w : Worker) (cfg : Config) : Rc × Worker :=
  let (rc, w) := decoderOpen env { w with log := [] } cfg
  if rc ≠ EAF_OK then (rc, w)
  else
    (EAF_OK, { w with
      pending := 0, sent := 0, framesWritten := 0, framesDropped := 0, isOpen := true })

/-- `eaf_decode_worker_can_push`. -/
def canPush (w : Worker) : Bool := w.isOpen && w.pending == w.sent

/-- `eaf_decode_worker_push`: the code, and the bytes that were consumed. -/
def workerPush (env : Env) (w : Worker) (input : Input) : Rc × Nat × Worker :=
  if w.isOpen = false then (EAF_STATE, 0, w)
  else if w.pending > w.sent then (EAF_OK, 0, w)
  else decoderPush env w input

/-- `drain`. -/
def drain (env : Env) (w : Worker) : Worker :=
  let channels := w.format.numChannels
  let offered := w.pending - w.sent
  let written := env.sink w.log
    (slice w.scratch (w.sent.toNat * channels) (offered.toNat * channels)) offered
  emit { w with sent := w.sent + written, framesWritten := w.framesWritten + written }
    (.wrote written (slice w.scratch (w.sent.toNat * channels) (written.toNat * channels)))

/-- `eaf_decode_worker_step`. -/
def workerStep (env : Env) (w : Worker) : Rc × Worker :=
  if w.isOpen = false then (EAF_STATE, w)
  else if w.pending > w.sent then (EAF_OK, drain env w)
  else
    let (rc, frames, format, w) := decoderPull env { w with pending := 0, sent := 0 }
    if rc ≠ EAF_OK then (rc, (decoderReset env w).2)
    else if frames = 0 then (EAF_OK, w)
    else if format ≠ w.format then (EAF_INVALID, (decoderReset env w).2)
    else (EAF_OK, drain env { w with pending := frames, sent := 0 })

/-- The first part of `eaf_decode_worker_reset`: what is pending is dropped. -/
def dropPending (w : Worker) : Worker :=
  let channels := w.format.numChannels
  let left := w.pending - w.sent
  if w.pending > w.sent then
    emit { w with framesDropped := w.framesDropped + left, pending := 0, sent := 0 }
      (.dropped left (slice w.scratch (w.sent.toNat * channels) (left.toNat * channels)))
  else { w with pending := 0, sent := 0 }

/-- `eaf_decode_worker_reset`. -/
def workerReset (env : Env) (w : Worker) : Rc × Worker :=
  let w := dropPending w
  if w.isOpen = false then (EAF_OK, w) else decoderReset env w

/-- The calls between open and close. -/
inductive Call where
  | push (input : Input)
  | step
  | reset
  deriving DecidableEq, Repr

def call (env : Env) (w : Worker) : Call → Worker
  | .push input => (workerPush env w input).2.2
  | .step => (workerStep env w).2
  | .reset => (workerReset env w).2

def callAll (env : Env) (w : Worker) (calls : List Call) : Worker := calls.foldl (call env) w

/-! ## What the log says -/

/-- Frames with the negotiated format. -/
def negotiated (format : Format) (answer : PullAnswer) : Bool :=
  decide (answer.rc = EAF_OK) && decide (answer.format = format)

/-- The samples that a pull decoded. -/
def decodedIn (format : Format) : Event → List Int32
  | .pull answer =>
    if negotiated format answer then
      (List.range (answer.frames.toNat * format.numChannels)).map answer.pcm
    else []
  | _ => []

/-- All that was decoded in the negotiated format, in order. -/
def decodedOf (format : Format) (log : List Event) : List Int32 := log.flatMap (decodedIn format)

def pulledIn (format : Format) : Event → Nat
  | .pull answer => if negotiated format answer then answer.frames.toNat else 0
  | _ => 0

/-- How many frames those were. -/
def pulledFrames (format : Format) (log : List Event) : Nat := (log.map (pulledIn format)).sum

def handedIn : Event → List Int32
  | .wrote _ samples => samples
  | .dropped _ samples => samples
  | _ => []

/-- The samples that the sink took or a reset dropped, in order. -/
def handedOf (log : List Event) : List Int32 := log.flatMap handedIn

def writtenIn : Event → Nat
  | .wrote frames _ => frames.toNat
  | _ => 0

def writtenFrames (log : List Event) : Nat := (log.map writtenIn).sum

def droppedIn : Event → Nat
  | .dropped frames _ => frames.toNat
  | _ => 0

def droppedFrames (log : List Event) : Nat := (log.map droppedIn).sum

section Snoc

variable (format : Format) (log : List Event) (e : Event)

@[simp] theorem decodedOf_snoc :
    decodedOf format (log ++ [e]) = decodedOf format log ++ decodedIn format e := by
  simp [decodedOf]

@[simp] theorem pulledFrames_snoc :
    pulledFrames format (log ++ [e]) = pulledFrames format log + pulledIn format e := by
  simp [pulledFrames]

@[simp] theorem handedOf_snoc : handedOf (log ++ [e]) = handedOf log ++ handedIn e := by
  simp [handedOf]

@[simp] theorem writtenFrames_snoc :
    writtenFrames (log ++ [e]) = writtenFrames log + writtenIn e := by
  simp [writtenFrames]

@[simp] theorem droppedFrames_snoc :
    droppedFrames (log ++ [e]) = droppedFrames log + droppedIn e := by
  simp [droppedFrames]

end Snoc

/-- The adapter gets no input, and is asked for no frame, while frames are pending. -/
def law (format : Format) (before : List Event) : Event → Prop
  | .push _ _ _ => handedOf before = decodedOf format before
  | .pull _ => handedOf before = decodedOf format before
  | _ => True

/-! ## The invariant -/

/-- The counters count what the log says. -/
structure Counted (w : Worker) : Prop where
  written : w.framesWritten = UInt32.ofNat (writtenFrames w.log)
  dropped : w.framesDropped = UInt32.ofNat (droppedFrames w.log)

/-- Each decoded frame was handed over or stands in the scratch block. -/
structure Kept (w : Worker) : Prop where
  law : Throughout (law w.format) w.log
  counted : Counted w
  le : w.sent.toNat ≤ w.pending.toNat
  room : w.pending.toNat * w.format.numChannels ≤ w.scratch.length
  conveys : Conveys (decodedOf w.format w.log) (handedOf w.log)
    (w.scratch.take (w.pending.toNat * w.format.numChannels))
    (w.sent.toNat * w.format.numChannels)
  balance : writtenFrames w.log + droppedFrames w.log + (w.pending.toNat - w.sent.toNat) =
    pulledFrames w.format w.log

/-- No frame is pending. -/
structure Settled (w : Worker) : Prop where
  law : Throughout (law w.format) w.log
  counted : Counted w
  all : handedOf w.log = decodedOf w.format w.log
  balance : writtenFrames w.log + droppedFrames w.log = pulledFrames w.format w.log

section Steps

variable {env : Env} {w : Worker}

theorem Kept.settled (h : Kept w) (hpending : ¬ w.pending > w.sent) : Settled w := by
  have hle : w.pending.toNat ≤ w.sent.toNat := Nat.le_of_not_lt hpending
  refine ⟨h.law, h.counted, ?_, ?_⟩
  · have hconveys := h.conveys
    have hcells : w.pending.toNat * w.format.numChannels ≤ w.sent.toNat * w.format.numChannels :=
      Nat.mul_le_mul_right _ hle
    unfold Conveys at hconveys
    rwa [List.drop_eq_nil_of_le (by rw [List.length_take]; omega), List.append_nil] at hconveys
  · have hbalance := h.balance
    omega

theorem Settled.kept (h : Settled w) (hsame : w.pending = w.sent)
    (hroom : w.pending.toNat * w.format.numChannels ≤ w.scratch.length) : Kept w := by
  refine ⟨h.law, h.counted, ?_, hroom, ?_, ?_⟩
  · rw [hsame]
  · rw [hsame]
    unfold Conveys
    rw [List.drop_eq_nil_of_le (List.length_take_le _ _), List.append_nil, h.all]
  · rw [hsame, Nat.sub_self, Nat.add_zero, h.balance]

/-- The sink takes some of the pending frames. -/
theorem drain_eq (hle : w.sent.toNat ≤ w.pending.toNat) : ∃ n : UInt32,
    n.toNat ≤ w.pending.toNat - w.sent.toNat ∧
    drain env w = emit { w with sent := w.sent + n, framesWritten := w.framesWritten + n }
      (.wrote n (slice w.scratch (w.sent.toNat * w.format.numChannels)
        (n.toNat * w.format.numChannels))) := by
  refine ⟨_, ?_, rfl⟩
  rw [← UInt32.toNat_sub_of_le _ _ hle]
  exact env.sink_le _ _ _

/-- What the sink leaves stays pending. -/
theorem kept_drain (h : Kept w) : Kept (drain env w) := by
  obtain ⟨hlaw, ⟨hwritten, hdropped⟩, hle, hroom, hconveys, hbalance⟩ := h
  obtain ⟨n, hnle, hdrain⟩ := @drain_eq env w hle
  have hpending := w.pending.toNat_lt
  have hsent : (w.sent + n).toNat = w.sent.toNat + n.toNat := by
    rw [UInt32.toNat_add]
    omega
  have hcells : w.sent.toNat * w.format.numChannels + n.toNat * w.format.numChannels ≤
      w.pending.toNat * w.format.numChannels := by
    rw [← Nat.add_mul]
    exact Nat.mul_le_mul_right _ (by omega)
  have hgive := hconveys.giveFirst hcells hroom
  rw [hdrain]
  refine ⟨throughout_snoc hlaw trivial, ⟨?_, ?_⟩, ?_, hroom, ?_, ?_⟩
  · simp [hwritten, writtenIn, UInt32.ofNat_add]
  · simp [hdropped, droppedIn]
  · show (w.sent + n).toNat ≤ w.pending.toNat
    omega
  · show Conveys (decodedOf w.format (w.log ++ [_])) (handedOf (w.log ++ [_]))
      (w.scratch.take (w.pending.toNat * w.format.numChannels))
      ((w.sent + n).toNat * w.format.numChannels)
    rw [hsent, Nat.add_mul, decodedOf_snoc, handedOf_snoc]
    simpa only [decodedIn, handedIn, slice, List.append_nil] using hgive
  · show writtenFrames (w.log ++ [_]) + droppedFrames (w.log ++ [_]) +
      (w.pending.toNat - (w.sent + n).toNat) = pulledFrames w.format (w.log ++ [_])
    rw [hsent, writtenFrames_snoc, droppedFrames_snoc, pulledFrames_snoc]
    simp only [writtenIn, droppedIn, pulledIn]
    omega

/-- A reset drops what is pending and counts it. -/
theorem settled_dropPending (h : Kept w) : Settled (dropPending w) := by
  unfold dropPending
  by_cases hpending : w.pending > w.sent
  · simp only [hpending, if_true]
    obtain ⟨hlaw, ⟨hwritten, hdropped⟩, hle, hroom, hconveys, hbalance⟩ := h
    have hleft : (w.pending - w.sent).toNat = w.pending.toNat - w.sent.toNat :=
      UInt32.toNat_sub_of_le _ _ hle
    have hcells : w.sent.toNat * w.format.numChannels +
        (w.pending - w.sent).toNat * w.format.numChannels =
        w.pending.toNat * w.format.numChannels := by
      rw [← Nat.add_mul, hleft]
      congr 1
      omega
    have hgive := hconveys.giveFirst hcells.le hroom
    rw [hcells] at hgive
    have hall := hgive.clear (List.length_take_le _ _)
    refine ⟨throughout_snoc hlaw trivial, ⟨?_, ?_⟩, ?_, ?_⟩
    · simp [hwritten, writtenIn]
    · simp [hdropped, droppedIn, UInt32.ofNat_add]
    · show handedOf (w.log ++ [_]) = decodedOf w.format (w.log ++ [_])
      rw [handedOf_snoc, decodedOf_snoc]
      simpa only [handedIn, decodedIn, slice, Conveys, List.append_nil, List.drop_nil] using hall
    · show writtenFrames (w.log ++ [_]) + droppedFrames (w.log ++ [_]) =
        pulledFrames w.format (w.log ++ [_])
      rw [writtenFrames_snoc, droppedFrames_snoc, pulledFrames_snoc]
      simp only [writtenIn, droppedIn, pulledIn, hleft]
      omega
  · simp only [hpending, if_false]
    have hsettled := h.settled hpending
    exact ⟨hsettled.law, ⟨hsettled.counted.written, hsettled.counted.dropped⟩, hsettled.all,
      hsettled.balance⟩

/-- An event that is about no frame. -/
def spares (format : Format) : Event → Bool
  | .opened _ => true
  | .push _ _ _ => true
  | .pull answer => !negotiated format answer || decide (answer.frames = 0)
  | .reset _ => true
  | .wrote _ _ => false
  | .dropped _ _ => false

theorem in_spared {format : Format} {e : Event} (h : spares format e = true) :
    decodedIn format e = [] ∧ pulledIn format e = 0 ∧ handedIn e = [] ∧ writtenIn e = 0 ∧
      droppedIn e = 0 := by
  cases e with
  | pull answer =>
    simp only [spares, Bool.or_eq_true, Bool.not_eq_true', decide_eq_true_eq] at h
    refine ⟨?_, ?_, rfl, rfl, rfl⟩
    · rcases h with hnot | hzero
      · simp [decodedIn, hnot]
      · simp [decodedIn, hzero]
    · rcases h with hnot | hzero
      · simp [pulledIn, hnot]
      · simp [pulledIn, hzero]
  | wrote frames samples => cases h
  | dropped frames samples => cases h
  | opened rc => exact ⟨rfl, rfl, rfl, rfl, rfl⟩
  | push bytes rc consumed => exact ⟨rfl, rfl, rfl, rfl, rfl⟩
  | reset rc => exact ⟨rfl, rfl, rfl, rfl, rfl⟩

theorem settled_spared (h : Settled w) {e : Event} (he : spares w.format e = true)
    (hlaw : law w.format w.log e) : Settled (emit w e) := by
  obtain ⟨hdecoded, hpulled, hhanded, hwritten, hdropped⟩ := in_spared he
  refine ⟨throughout_snoc h.law hlaw, ⟨?_, ?_⟩, ?_, ?_⟩
  · simp [h.counted.written, hwritten]
  · simp [h.counted.dropped, hdropped]
  · simp [hhanded, hdecoded, h.all]
  · simp [hwritten, hdropped, hpulled, h.balance]

/-- What matters of a worker without pending frames. -/
theorem Settled.congr {w' : Worker} (h : Settled w) (hformat : w'.format = w.format)
    (hlog : w'.log = w.log) (hwritten : w'.framesWritten = w.framesWritten)
    (hdropped : w'.framesDropped = w.framesDropped) : Settled w' := by
  obtain ⟨hlaw, ⟨hcount, hdrops⟩, hall, hbalance⟩ := h
  refine ⟨?_, ⟨?_, ?_⟩, ?_, ?_⟩
  · rw [hformat, hlog]
    exact hlaw
  · rw [hwritten, hlog, hcount]
  · rw [hdropped, hlog, hdrops]
  · rw [hformat, hlog, hall]
  · rw [hformat, hlog, hbalance]

/-- The frames of a pull stand in the scratch block. -/
theorem kept_pulled (h : Settled w) {answer : PullAnswer}
    (hnegotiated : negotiated w.format answer = true)
    (hframes : answer.frames.toNat ≤ w.scratchFrames.toNat) :
    Kept (emit { w with
      scratch := (List.range (w.scratchFrames.toNat * w.format.numChannels)).map answer.pcm
      pending := answer.frames
      sent := 0 } (.pull answer)) := by
  have hcells : answer.frames.toNat * w.format.numChannels ≤
      w.scratchFrames.toNat * w.format.numChannels := Nat.mul_le_mul_right _ hframes
  have hlaw : law w.format w.log (.pull answer) := h.all
  refine ⟨throughout_snoc h.law hlaw, ⟨?_, ?_⟩, Nat.zero_le _, ?_, ?_, ?_⟩
  · simp [h.counted.written, writtenIn]
  · simp [h.counted.dropped, droppedIn]
  · simpa using hcells
  · show Conveys (decodedOf w.format (w.log ++ [_])) (handedOf (w.log ++ [_]))
      (((List.range (w.scratchFrames.toNat * w.format.numChannels)).map answer.pcm).take
        (answer.frames.toNat * w.format.numChannels)) ((0 : UInt32).toNat * w.format.numChannels)
    have htake : ((List.range (w.scratchFrames.toNat * w.format.numChannels)).map answer.pcm).take
        (answer.frames.toNat * w.format.numChannels) =
        (List.range (answer.frames.toNat * w.format.numChannels)).map answer.pcm := by
      rw [← List.map_take, List.take_range, Nat.min_eq_left hcells]
    rw [htake, decodedOf_snoc, handedOf_snoc]
    simp [decodedIn, handedIn, hnegotiated, Conveys, h.all]
  · have hbalance := h.balance
    simp [writtenIn, droppedIn, pulledIn, hnegotiated]
    omega

theorem settled_decoderReset (h : Settled w) : Settled (decoderReset env w).2 :=
  settled_spared h rfl trivial

theorem kept_workerPush (h : Kept w) (input : Input) : Kept (workerPush env w input).2.2 := by
  unfold workerPush
  by_cases hopen : w.isOpen = false
  · rw [if_pos hopen]
    exact h
  rw [if_neg hopen]
  by_cases hpending : w.pending > w.sent
  · rw [if_pos hpending]
    exact h
  rw [if_neg hpending]
  have hsettled := h.settled hpending
  have hsame : w.pending = w.sent :=
    UInt32.toNat_inj.mp (Nat.le_antisymm (Nat.le_of_not_lt hpending) h.le)
  -- nothing is pending, so the adapter may get its input
  have hpush : ∀ bytes rc consumed, Kept (emit w (.push bytes rc consumed)) := by
    intro bytes rc consumed
    have hlaw : law w.format w.log (.push bytes rc consumed) := hsettled.all
    exact (settled_spared hsettled rfl hlaw).kept hsame h.room
  rcases input with data | _ | n
  · exact hpush _ _ _
  · exact hpush _ _ _
  · exact h

theorem kept_workerReset (h : Kept w) : Kept (workerReset env w).2 := by
  have hsettled := settled_dropPending h
  have hzero : (dropPending w).pending = 0 ∧ (dropPending w).sent = 0 := by
    unfold dropPending
    by_cases hpending : w.pending > w.sent
    · simp only [hpending, if_true, and_self]
    · simp only [hpending, if_false, and_self]
  have hsame := hzero.1.trans hzero.2.symm
  have hroom : (dropPending w).pending.toNat * (dropPending w).format.numChannels ≤
      (dropPending w).scratch.length := by
    rw [hzero.1]
    simp
  simp only [workerReset]
  by_cases hopen : (dropPending w).isOpen = false
  · rw [if_pos hopen]
    exact hsettled.kept hsame hroom
  · rw [if_neg hopen]
    exact (settled_decoderReset hsettled).kept hsame hroom

/-- What a pull finds is pending if the worker takes it, and no frame otherwise. -/
theorem pull_spec (h : Settled w) {rc : Rc} {frames : UInt32} {format : Format} {w' : Worker}
    (hpull : decoderPull env w = (rc, frames, format, w')) :
    w'.format = w.format ∧ w'.pending = w.pending ∧ w'.sent = w.sent ∧
      (rc = EAF_OK ∧ frames ≠ 0 ∧ format = w.format →
        Kept { w' with pending := frames, sent := 0 }) ∧
      (¬ (rc = EAF_OK ∧ frames ≠ 0 ∧ format = w.format) → Settled w') := by
  unfold decoderPull at hpull
  by_cases hnone : w.scratchFrames = 0
  · rw [if_pos hnone] at hpull
    simp only [Prod.mk.injEq] at hpull
    obtain ⟨rfl, rfl, rfl, rfl⟩ := hpull
    exact ⟨rfl, rfl, rfl, fun htaken => absurd rfl htaken.2.1, fun _ => h⟩
  · rw [if_neg hnone] at hpull
    simp only [Prod.mk.injEq] at hpull
    obtain ⟨rfl, rfl, rfl, rfl⟩ := hpull
    have hframes := env.pull_le w.log w.scratchFrames
    generalize env.pull w.log w.scratchFrames = answer at hframes ⊢
    refine ⟨rfl, rfl, rfl, ?_, ?_⟩
    · rintro ⟨hrc, -, hformat⟩
      exact kept_pulled h (by simp [negotiated, hrc, hformat]) hframes
    · intro hnot
      have hspares : spares w.format (.pull answer) = true := by
        by_cases hzero : answer.frames = 0
        · simp [spares, hzero]
        · have hother : negotiated w.format answer = false := by
            rw [Bool.eq_false_iff]
            intro hnegotiated
            simp only [negotiated, Bool.and_eq_true, decide_eq_true_eq] at hnegotiated
            exact hnot ⟨hnegotiated.1, hzero, hnegotiated.2⟩
          simp [spares, hother]
      have hlaw : law w.format w.log (.pull answer) := h.all
      exact (settled_spared h hspares hlaw).congr rfl rfl rfl rfl

theorem kept_workerStep (h : Kept w) : Kept (workerStep env w).2 := by
  unfold workerStep
  by_cases hopen : w.isOpen = false
  · rw [if_pos hopen]
    exact h
  rw [if_neg hopen]
  by_cases hpending : w.pending > w.sent
  · rw [if_pos hpending]
    exact kept_drain h
  rw [if_neg hpending]
  have hsettled : Settled { w with pending := 0, sent := 0 } :=
    (h.settled hpending).congr rfl rfl rfl rfl
  generalize hpull : decoderPull env { w with pending := 0, sent := 0 } = r
  obtain ⟨rc, frames, format, w'⟩ := r
  obtain ⟨hformat, hpending', hsent', htaken, hnot⟩ := pull_spec hsettled hpull
  -- without frames to hand over the worker is idle again
  have hidle : ∀ {t : Worker}, Settled t → t.pending = 0 → t.sent = 0 → Kept t := by
    intro t ht hp hs
    exact ht.kept (hp.trans hs.symm) (by simp [hp])
  simp only
  by_cases hrc : rc ≠ EAF_OK
  · rw [if_pos hrc]
    exact hidle (settled_decoderReset (hnot fun hall => hrc hall.1)) hpending' hsent'
  rw [if_neg hrc]
  by_cases hframes : frames = 0
  · rw [if_pos hframes]
    exact hidle (hnot fun hall => hall.2.1 hframes) hpending' hsent'
  rw [if_neg hframes]
  by_cases hother : format ≠ w'.format
  · rw [if_pos hother]
    exact hidle (settled_decoderReset (hnot fun hall => hother (hall.2.2.trans hformat.symm)))
      hpending' hsent'
  · rw [if_neg hother]
    exact kept_drain (htaken ⟨not_not.mp hrc, hframes, (not_not.mp hother).trans hformat⟩)

theorem kept_call (h : Kept w) (c : Call) : Kept (call env w c) := by
  cases c with
  | push input => exact kept_workerPush h input
  | step => exact kept_workerStep h
  | reset => exact kept_workerReset h

theorem kept_callAll (h : Kept w) (calls : List Call) : Kept (callAll env w calls) := by
  induction calls generalizing w with
  | nil => exact h
  | cons c calls ih => exact ih (kept_call h c)

end Steps

theorem kept_workerOpen {env : Env} {w w' : Worker} {cfg : Config}
    (h : workerOpen env w cfg = (EAF_OK, w')) : Kept w' := by
  unfold workerOpen at h
  generalize hopen : decoderOpen env { w with log := [] } cfg = r at h
  obtain ⟨rc, opened⟩ := r
  simp only at h
  by_cases hrc : rc ≠ EAF_OK
  · rw [if_pos hrc] at h
    cases h
    exact absurd rfl hrc
  rw [if_neg hrc] at h
  cases h
  unfold decoderOpen at hopen
  split at hopen
  · cases hopen
    exact absurd (not_not.mp hrc) (by decide)
  · cases hopen
    have hlaw : Throughout (law w.format) [.opened (env.opens [])] :=
      @throughout_snoc _ (law w.format) [] _ throughout_nil trivial
    exact Settled.kept ⟨hlaw, ⟨rfl, rfl⟩, rfl, rfl⟩ rfl (by simp)

/-! ## Conservation -/

/-- The samples that are pending. -/
def pendingPcm (w : Worker) : List Int32 :=
  (w.scratch.take (w.pending.toNat * w.format.numChannels)).drop
    (w.sent.toNat * w.format.numChannels)

/-- No decoded frame is lost, made up or given twice. -/
structure Conserves (w : Worker) : Prop where
  /-- What the sink took and what a reset dropped, in order, with what is pending, is what was
  decoded. -/
  frames : handedOf w.log ++ pendingPcm w = decodedOf w.format w.log
  /-- So the counters balance. -/
  balance : w.framesWritten + w.framesDropped + (w.pending - w.sent) =
    UInt32.ofNat (pulledFrames w.format w.log)
  written : w.framesWritten = UInt32.ofNat (writtenFrames w.log)
  dropped : w.framesDropped = UInt32.ofNat (droppedFrames w.log)
  /-- The adapter got no input while frames were pending. -/
  law : Throughout (law w.format) w.log

theorem Kept.conserves {w : Worker} (h : Kept w) : Conserves w where
  frames := h.conveys
  balance := by
    have hleft : w.pending - w.sent = UInt32.ofNat (w.pending.toNat - w.sent.toNat) := by
      rw [← UInt32.toNat_sub_of_le _ _ h.le, UInt32.ofNat_toNat]
    rw [h.counted.written, h.counted.dropped, hleft, ← UInt32.ofNat_add, ← UInt32.ofNat_add,
      h.balance]
  written := h.counted.written
  dropped := h.counted.dropped
  law := h.law

/-- From an open on, whatever the adapter decodes and the sink takes, the worker conserves the
frames. -/
theorem worker_conserves {env : Env} {w w' : Worker} {cfg : Config}
    (h : workerOpen env w cfg = (EAF_OK, w')) (calls : List Call) :
    Conserves (callAll env w' calls) :=
  (kept_callAll (kept_workerOpen h) calls).conserves

/-- An adapter that decodes six frames at a time, and a sink that takes two. -/
def shortSink : Env where
  opens _ := EAF_OK
  push _ bytes := (EAF_OK, bytes.length)
  pull _ maxFrames := ⟨EAF_OK, if 6 ≤ maxFrames then 6 else 0, ⟨44100, 2, 3⟩, Int32.ofNat⟩
  reset _ := EAF_OK
  sink _ _ frames := if 2 ≤ frames then 2 else frames
  pull_le _ maxFrames := by
    simp only
    split
    · rename_i hfits
      exact hfits
    · exact Nat.zero_le _
  sink_le _ _ frames := by
    split
    · rename_i hmany
      exact hmany
    · exact Nat.le_refl _

/-- A worker behind `eaf_decode_worker_init`, with room for eight frames. -/
def stereoWorker : Worker := ⟨⟨44100, 2, 3⟩, List.replicate 16 0, 8, 0, 0, 0, 0, false, []⟩

theorem worker_conserves_shortSink :
    Conserves (callAll shortSink (workerOpen shortSink stereoWorker ⟨44100, 2⟩).2
      [.push (.bytes [1, 2, 3]), .step, .step, .reset, .step]) :=
  @worker_conserves shortSink stereoWorker _ ⟨44100, 2⟩ rfl
    [.push (.bytes [1, 2, 3]), .step, .step, .reset, .step]

end EmbeddedAudio.DecodeWorker
