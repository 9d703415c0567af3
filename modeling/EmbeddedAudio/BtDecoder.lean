-- The worker that decodes the Bluetooth packets into the reservoir
-- (bt_decoder.c), against every codec, queue and reservoir: what it pops and
-- decodes, and what becomes of the frames.
import EmbeddedAudio.BtReceipts
import EmbeddedAudio.LogLaw
import EmbeddedAudio.Storage
import EmbeddedAudio.TxBuffer

namespace EmbeddedAudio.BtDecoder

open Bt Log Storage TxBuffer

/-! ## The packets of the queue -/

/-- What the queue promises of a packet. -/
structure Queued (packet : Packet) : Prop where
  frameCount : 0 < packet.frameCount.toNat
  length : 0 < packet.length.toNat
  data : packet.data.length = packet.length.toNat

theorem queued_of_carries {d : Delivery} {packet : Packet} (h : Carries d packet) :
    Queued packet := by
  have hvalid := h.valid
  simp only [mediaValid, Bool.and_eq_true, decide_eq_true_eq, bne_iff_ne, ne_eq] at hvalid
  obtain ⟨⟨⟨hbytes, -⟩, -⟩, hcount⟩ := hvalid
  refine ⟨?_, ?_, ?_⟩
  · rw [h.frameCount]
    exact Nat.pos_of_ne_zero fun hzero => hcount (UInt8.toNat_inj.mp hzero)
  · rw [h.length]
    omega
  · rw [h.data, h.length, List.length_drop]

/-- Whatever is received, the decoder pops such packets. -/
theorem popped_queued (uses : List Use) {packet : Packet}
    (h : packet ∈ (useAll freshLine uses).tasks.popped) : Queued packet := by
  obtain ⟨i, hi, hpacket⟩ := List.getElem_of_mem h
  have hout : (useAll freshLine uses).tasks.popped[i]? = some packet := by
    rw [List.getElem?_eq_getElem hi, hpacket]
  obtain ⟨before, d, after, -, -, hbecomes⟩ := (ingress_inTurn uses).popped i packet hout
  exact queued_of_carries hbecomes.carries

/-! ## The decoder -/

/-- What a call of `frame` leaves behind. -/
structure CodecAnswer where
  rc : Rc
  used : Nat
  frames : UInt32
  format : Format
  pcm16 : Vector Int16 256

/-- What happened to the packets and the frames, in order. `taken` is the answer of a codec frame
that the worker accepted, and `wrote` are the samples that the reservoir took. -/
inductive Event where
  | codecReset (rc : Rc)
  | popped (packet : Packet)
  | frame (offset : Nat) (bytes : List UInt8) (answer : CodecAnswer)
  | taken (answer : CodecAnswer)
  | wrote (samples : List Int32)
  | rejected
  | reset

/-- The codec, the queue and the room in the reservoir, which can depend on all that happened. -/
structure Env where
  reset : List Event → Rc
  frame : List Event → List UInt8 → CodecAnswer
  pop : List Event → Option { packet : Packet // Queued packet }
  room : List Event → UInt32

/-- `eaf_bt_decoder_t`. `format` is the one of the reservoir. -/
structure Decoder where
  format : Format
  packet : Packet
  offset : Nat
  framesLeft : UInt32
  pcm31 : List Int32
  pending : UInt32
  sent : UInt32
  rejected : UInt32
  log : List Event

/-- `eaf_pcm16_to_q31`. -/
def pcm16ToQ31 (x : Int16) : Int32 := x.toInt32 * 65536

/-- `eaf_s16_to_q31_interleaved`: the samples that it writes. -/
def s16ToQ31Interleaved (src : List Int16) (frames srcChannels dstChannels : Nat) : List Int32 :=
  (List.range frames).flatMap fun i =>
    let left := pcm16ToQ31 (src.getD (i * srcChannels) 0)
    if dstChannels = 2 then
      [left, if srcChannels = 2 then pcm16ToQ31 (src.getD (i * srcChannels + 1) 0) else left]
    else
      [left]

/-- The samples of an accepted codec frame. -/
def pcmOf (answer : CodecAnswer) : List Int32 :=
  s16ToQ31Interleaved answer.pcm16.toList answer.frames.toNat 2 2

theorem length_pcmOf (answer : CodecAnswer) : (pcmOf answer).length = answer.frames.toNat * 2 := by
  unfold pcmOf s16ToQ31Interleaved
  generalize answer.frames.toNat = n
  induction n with
  | zero => rfl
  | succ n ih =>
    rw [List.range_succ, List.flatMap_append, List.length_append, ih]
    simp
    omega

abbrev emit (d : Decoder) (e : Event) : Decoder := { d with log := d.log ++ [e] }

/-- `reset` of the codec. -/
def codecReset (env : Env) (d : Decoder) : Rc × Decoder :=
  let rc := env.reset d.log
  (rc, emit d (.codecReset rc))

/-- `eaf_bt_decoder_reset`. -/
def decoderReset (env : Env) (d : Decoder) : Rc × Decoder :=
  codecReset env (emit { d with pending := 0, sent := 0, framesLeft := 0, offset := 0 } .reset)

/-- What `eaf_bt_decoder_init` assigns. -/
def zeroDecoder (format : Format) : Decoder where
  format := format
  packet := emptyPacket
  offset := 0
  framesLeft := 0
  pcm31 := List.replicate 256 0
  pending := 0
  sent := 0
  rejected := 0
  log := []

/-- `eaf_bt_decoder_init`, with all pointers set. -/
def decoderInit (env : Env) (format : Format) : Rc × Option Decoder :=
  if format.numChannels ≠ 2 ∨ format.channelMask ≠ 3 then (EAF_INVALID, none)
  else
    let (rc, d) := codecReset env (zeroDecoder format)
    (rc, some d)

/-- `reject`. -/
def reject (env : Env) (d : Decoder) (rc : Rc) : Rc × Decoder :=
  let (reset, d) := codecReset env (emit
    { d with rejected := d.rejected + 1, pending := 0, sent := 0, framesLeft := 0 } .rejected)
  (if reset ≠ EAF_OK then reset else rc, d)

/-- `eaf_reservoir_write` of what is pending, with `sent` moved on. -/
def offer (env : Env) (d : Decoder) : Decoder :=
  let frames := d.pending - d.sent
  let available := env.room d.log
  let frames := if frames > available then available else frames
  emit { d with sent := d.sent + frames }
    (.wrote (slice d.pcm31 (d.sent.toNat * 2) (frames.toNat * 2)))

/-- The part of `eaf_bt_decoder_step` behind the packet: one codec frame. `pending` and `sent` are
zero there. -/
def decodeFrame (env : Env) (d : Decoder) : Rc × Decoder :=
  let bytes := slice d.packet.data d.offset (d.packet.length.toNat - d.offset)
  let answer := env.frame d.log bytes
  let d := emit d (.frame d.offset bytes answer)
  if answer.rc ≠ EAF_OK then reject env d answer.rc
  else if answer.used = 0 ∨ answer.used > d.packet.length.toNat - d.offset ∨ answer.frames = 0 ∨
      answer.frames > 128 ∨ answer.format ≠ d.format then reject env d EAF_INVALID
  else
    let d := { d with offset := d.offset + answer.used, framesLeft := d.framesLeft - 1 }
    if d.framesLeft = 0 ∧ d.offset ≠ d.packet.length.toNat ∨
        d.framesLeft ≠ 0 ∧ d.offset = d.packet.length.toNat then reject env d EAF_INVALID
    else
      (EAF_OK, offer env (emit { d with
        pcm31 := overwrite d.pcm31 0 (pcmOf answer)
        pending := answer.frames } (.taken answer)))

/-- What `eaf_bt_decoder_step` does with a packet that it popped. -/
def beginPacket (env : Env) (d : Decoder) (packet : Packet) : Rc × Decoder :=
  let d := emit { d with
    packet := packet, offset := 0, framesLeft := packet.frameCount.toUInt32 } (.popped packet)
  if packet.discontinuity then
    let (rc, d) := codecReset env d
    if rc ≠ EAF_OK then reject env d rc else decodeFrame env d
  else
    decodeFrame env d

/-- `eaf_bt_decoder_step`. -/
def decoderStep (env : Env) (d : Decoder) : Rc × Decoder :=
  let d := if d.pending > d.sent then offer env d else d
  if d.pending > d.sent then (EAF_OK, d)
  else
    let d := { d with pending := 0, sent := 0 }
    if d.framesLeft ≠ 0 then decodeFrame env d
    else
      match env.pop d.log with
      | none => (EAF_OK, d)
      | some packet => beginPacket env d packet.val

/-- The calls of the worker. -/
inductive Call where
  | step
  | reset
  deriving DecidableEq, Repr

def call (env : Env) (d : Decoder) : Call → Decoder
  | .step => (decoderStep env d).2
  | .reset => (decoderReset env d).2

def callAll (env : Env) (d : Decoder) (calls : List Call) : Decoder := calls.foldl (call env) d

/-! ## What the log says -/

/-- What an event makes of the events since the last reset. -/
def nextReset (events : List Event) : Event → List Event
  | .reset => []
  | e => events ++ [e]

/-- The events since the last reset by the owner. -/
def sinceReset (log : List Event) : List Event := log.foldl nextReset []

@[simp] theorem sinceReset_nil : sinceReset [] = [] := rfl

@[simp] theorem sinceReset_snoc (log : List Event) (e : Event) :
    sinceReset (log ++ [e]) = nextReset (sinceReset log) e := List.foldl_concat ..

/-- What an event makes of the packet and the events since it was popped. -/
def nextPop (current : Option (Packet × List Event)) : Event → Option (Packet × List Event)
  | .popped packet => some (packet, [])
  | .reset => none
  | e => current.map fun (packet, events) => (packet, events ++ [e])

/-- The last packet that was popped, unless it was reset, and the events since then. -/
def sincePop (log : List Event) : Option (Packet × List Event) := log.foldl nextPop none

@[simp] theorem sincePop_nil : sincePop [] = none := rfl

@[simp] theorem sincePop_snoc (log : List Event) (e : Event) :
    sincePop (log ++ [e]) = nextPop (sincePop log) e := List.foldl_concat ..

/-- The codec frames that were accepted. -/
def takenOf (events : List Event) : List CodecAnswer :=
  events.filterMap fun
    | .taken answer => some answer
    | _ => none

@[simp] theorem takenOf_append (xs ys : List Event) :
    takenOf (xs ++ ys) = takenOf xs ++ takenOf ys := List.filterMap_append

/-- The bytes that the accepted codec frames used. -/
def usedOf (events : List Event) : Nat := ((takenOf events).map CodecAnswer.used).sum

/-- The samples of the accepted codec frames. -/
def acceptedPcm (events : List Event) : List Int32 := (takenOf events).flatMap pcmOf

/-- The samples that the reservoir took. -/
def receivedPcm (events : List Event) : List Int32 :=
  events.flatMap fun
    | .wrote samples => samples
    | _ => []

@[simp] theorem receivedPcm_append (xs ys : List Event) :
    receivedPcm (xs ++ ys) = receivedPcm xs ++ receivedPcm ys := List.flatMap_append

/-- How often a packet was rejected. -/
def rejections (events : List Event) : Nat :=
  events.countP fun
    | .rejected => true
    | _ => false

@[simp] theorem rejections_append (xs ys : List Event) :
    rejections (xs ++ ys) = rejections xs + rejections ys := List.countP_append

/-- The packet was decoded to its end, or it was rejected once. -/
def Settled (packet : Packet) (events : List Event) : Prop :=
  rejections events = 0 ∧ (takenOf events).length = packet.frameCount.toNat ∧
      usedOf events = packet.length.toNat ∨
    rejections events = 1 ∧ (takenOf events).length < packet.frameCount.toNat

/-- There are codec frames left in the packet. -/
def Unsettled (packet : Packet) (events : List Event) : Prop :=
  rejections events = 0 ∧ (takenOf events).length < packet.frameCount.toNat

/-- What the log says before each event. -/
def law (before : List Event) : Event → Prop
  | .popped _ => ∀ packet events, sincePop before = some (packet, events) → Settled packet events
  | .frame offset bytes _ =>
    receivedPcm (sinceReset before) = acceptedPcm (sinceReset before) ∧
      ∃ packet events, sincePop before = some (packet, events) ∧ Unsettled packet events ∧
        offset = usedOf events ∧ offset < packet.length.toNat ∧
        bytes = slice packet.data offset (packet.length.toNat - offset) ∧
        (packet.discontinuity = true → .codecReset EAF_OK ∈ events)
  | .taken answer => ∃ offset bytes, before.getLast? = some (.frame offset bytes answer)
  | .wrote samples =>
    receivedPcm (sinceReset before) ++ samples <+: acceptedPcm (sinceReset before)
  | .rejected => ∃ packet events, sincePop before = some (packet, events) ∧
      Unsettled packet events
  | .codecReset _ => True
  | .reset => True

/-! ## The invariant -/

/-- The frames that are accepted and not yet received stand in the buffer. -/
structure Buffered (d : Decoder) : Prop where
  le : d.sent.toNat ≤ d.pending.toNat
  bound : d.pending.toNat ≤ 128
  room : d.pcm31.length = 256
  conveys : Conveys (acceptedPcm (sinceReset d.log)) (receivedPcm (sinceReset d.log))
    (d.pcm31.take (d.pending.toNat * 2)) (d.sent.toNat * 2)

/-- The reservoir has all the frames. -/
structure Drained (d : Decoder) : Prop where
  room : d.pcm31.length = 256
  all : receivedPcm (sinceReset d.log) = acceptedPcm (sinceReset d.log)

/-- The worker is inside a packet. -/
structure Within (d : Decoder) (packet : Packet) (events : List Event) : Prop where
  same : d.packet = packet
  offset : d.offset = usedOf events
  inside : d.offset < packet.length.toNat
  rejections : rejections events = 0
  left : 0 < d.framesLeft.toNat
  count : (takenOf events).length + d.framesLeft.toNat = packet.frameCount.toNat
  reset : packet.discontinuity = true → .codecReset EAF_OK ∈ events

/-- Where the worker stands in the packet that it popped last. -/
def Stands (d : Decoder) : Option (Packet × List Event) → Prop
  | none => d.framesLeft = 0
  | some (packet, events) =>
    Within d packet events ∨ d.framesLeft = 0 ∧ Settled packet events

structure Kept (d : Decoder) : Prop where
  law : Throughout law d.log
  buffered : Buffered d
  stands : Stands d (sincePop d.log)

theorem Within.unsettled {d : Decoder} {packet : Packet} {events : List Event}
    (h : Within d packet events) : Unsettled packet events := by
  have hleft := h.left
  have hcount := h.count
  exact ⟨h.rejections, by omega⟩

/-- An event that does not settle a packet or take a frame of it. -/
def sparesPacket : Event → Bool
  | .codecReset _ => true
  | .frame _ _ _ => true
  | .wrote _ => true
  | _ => false

/-- An event that does not touch the frames. -/
def sparesPcm : Event → Bool
  | .codecReset _ => true
  | .frame _ _ _ => true
  | .popped _ => true
  | .rejected => true
  | _ => false

section Steps

variable {env : Env} {d d' : Decoder} {packet : Packet} {events : List Event} {e : Event}

theorem of_sparesPacket (he : sparesPacket e = true) (events : List Event) :
    takenOf (events ++ [e]) = takenOf events ∧ rejections (events ++ [e]) = rejections events := by
  cases e <;> simp_all [sparesPacket, takenOf, rejections]

theorem nextPop_spares (he : sparesPacket e = true) (current : Option (Packet × List Event)) :
    nextPop current e = current.map fun (packet, events) => (packet, events ++ [e]) := by
  cases e <;> simp_all [sparesPacket, nextPop]

theorem Within.spares (h : Within d packet events) (he : sparesPacket e = true) :
    Within d packet (events ++ [e]) := by
  obtain ⟨htaken, hrejections⟩ := of_sparesPacket he events
  refine ⟨h.same, ?_, h.inside, ?_, h.left, ?_, ?_⟩
  · unfold usedOf
    rw [htaken]
    exact h.offset
  · rw [hrejections, h.rejections]
  · rw [htaken]
    exact h.count
  · intro hdiscontinuity
    exact List.mem_append_left _ (h.reset hdiscontinuity)

theorem Settled.spares (h : Settled packet events) (he : sparesPacket e = true) :
    Settled packet (events ++ [e]) := by
  obtain ⟨htaken, hrejections⟩ := of_sparesPacket he events
  unfold Settled usedOf
  rw [htaken, hrejections]
  exact h

theorem Within.congr (h : Within d packet events) (hpacket : d'.packet = d.packet)
    (hoffset : d'.offset = d.offset) (hleft : d'.framesLeft = d.framesLeft) :
    Within d' packet events := by
  refine ⟨hpacket.trans h.same, hoffset.trans h.offset, ?_, h.rejections, ?_, ?_, h.reset⟩
  · rw [hoffset]
    exact h.inside
  · rw [hleft]
    exact h.left
  · rw [hleft]
    exact h.count

theorem Stands.congr {current : Option (Packet × List Event)} (h : Stands d current)
    (hpacket : d'.packet = d.packet) (hoffset : d'.offset = d.offset)
    (hleft : d'.framesLeft = d.framesLeft) : Stands d' current := by
  rcases current with _ | ⟨packet, events⟩
  · exact hleft.trans h
  · rcases h with hwithin | ⟨hnone, hsettled⟩
    · exact .inl (hwithin.congr hpacket hoffset hleft)
    · exact .inr ⟨hleft.trans hnone, hsettled⟩

theorem Stands.spares {current : Option (Packet × List Event)} (h : Stands d current)
    (he : sparesPacket e = true) : Stands d (nextPop current e) := by
  rw [nextPop_spares he]
  rcases current with _ | ⟨packet, events⟩
  · exact h
  · rcases h with hwithin | ⟨hnone, hsettled⟩
    · exact .inl (hwithin.spares he)
    · exact .inr ⟨hnone, hsettled.spares he⟩

theorem pcm_spares (he : sparesPcm e = true) (log : List Event) :
    acceptedPcm (sinceReset (log ++ [e])) = acceptedPcm (sinceReset log) ∧
      receivedPcm (sinceReset (log ++ [e])) = receivedPcm (sinceReset log) := by
  rw [sinceReset_snoc]
  cases e <;> simp_all [sparesPcm, nextReset, acceptedPcm, takenOf, receivedPcm]

theorem pcm_taken (log : List Event) (answer : CodecAnswer) :
    acceptedPcm (sinceReset (log ++ [.taken answer])) =
        acceptedPcm (sinceReset log) ++ pcmOf answer ∧
      receivedPcm (sinceReset (log ++ [.taken answer])) = receivedPcm (sinceReset log) := by
  rw [sinceReset_snoc]
  simp [nextReset, acceptedPcm, takenOf, receivedPcm]

theorem Drained.spares (h : Drained d) (he : sparesPcm e = true) : Drained (emit d e) := by
  obtain ⟨haccepted, hreceived⟩ := pcm_spares he d.log
  exact ⟨h.room, hreceived.trans (h.all.trans haccepted.symm)⟩

theorem Buffered.spares (h : Buffered d) (he : sparesPcm e = true) : Buffered (emit d e) := by
  obtain ⟨haccepted, hreceived⟩ := pcm_spares he d.log
  refine ⟨h.le, h.bound, h.room, ?_⟩
  show Conveys (acceptedPcm (sinceReset (d.log ++ [e]))) (receivedPcm (sinceReset (d.log ++ [e])))
    _ _
  rw [haccepted, hreceived]
  exact h.conveys

/-- Nothing is in the buffer. -/
theorem Drained.buffered (h : Drained d) (hpending : d.pending = 0) (hsent : d.sent = 0) :
    Buffered d := by
  refine ⟨?_, ?_, h.room, ?_⟩
  · rw [hpending, hsent]
  · simp [hpending]
  · simp [hpending, hsent, Conveys, h.all]

theorem Buffered.drained (h : Buffered d) (hsent : d.pending.toNat ≤ d.sent.toNat) :
    Drained d := by
  refine ⟨h.room, ?_⟩
  have hconveys := h.conveys
  unfold Conveys at hconveys
  rw [List.drop_eq_nil_of_le (by rw [List.length_take]; omega), List.append_nil] at hconveys
  exact hconveys

theorem kept_codecReset (h : Kept d) : Kept (codecReset env d).2 := by
  have hlaw : law d.log (.codecReset (env.reset d.log)) := trivial
  refine ⟨throughout_snoc h.law hlaw, h.buffered.spares rfl, ?_⟩
  show Stands _ (sincePop (d.log ++ [_]))
  rw [sincePop_snoc]
  exact (h.stands.spares rfl).congr rfl rfl rfl

/-- A packet is rejected once. -/
theorem kept_reject (hlaw : Throughout law d.log) (hdrained : Drained d)
    (hpop : sincePop d.log = some (packet, events)) (hunsettled : Unsettled packet events)
    (rc : Rc) : Kept (reject env d rc).2 := by
  have hnext : law d.log .rejected := ⟨packet, events, hpop, hunsettled⟩
  obtain ⟨hrejections, hcount⟩ := hunsettled
  have hafter : Kept (emit
      { d with rejected := d.rejected + 1, pending := 0, sent := 0, framesLeft := 0 }
      .rejected) := by
    obtain ⟨haccepted, hreceived⟩ := @pcm_spares .rejected rfl d.log
    have hall := hreceived.trans (hdrained.all.trans haccepted.symm)
    refine ⟨throughout_snoc hlaw hnext, Drained.buffered ⟨hdrained.room, hall⟩ rfl rfl, ?_⟩
    have hsince : sincePop (d.log ++ [.rejected]) = some (packet, events ++ [.rejected]) := by
      simp [hpop, nextPop]
    show Stands _ (sincePop (d.log ++ [.rejected]))
    rw [hsince]
    refine .inr ⟨rfl, .inr ⟨?_, ?_⟩⟩
    · rw [rejections_append, hrejections]
      rfl
    · simpa [takenOf] using hcount
  exact kept_codecReset hafter

/-- The reservoir takes some of what is pending, in order. -/
theorem kept_offer (h : Kept d) : Kept (offer env d) := by
  obtain ⟨hlaw, ⟨hle, hbound, hroom, hconveys⟩, hstands⟩ := h
  generalize hn : (if d.pending - d.sent > env.room d.log then env.room d.log
    else d.pending - d.sent) = n
  have hoffer : offer env d = emit { d with sent := d.sent + n }
      (.wrote (slice d.pcm31 (d.sent.toNat * 2) (n.toNat * 2))) := by
    simp only [offer, hn]
  have hnle : n.toNat ≤ d.pending.toNat - d.sent.toNat := by
    rw [← UInt32.toNat_sub_of_le _ _ hle, ← hn]
    split
    · rename_i hgt
      exact Nat.le_of_lt hgt
    · exact Nat.le_refl _
  have hsent : (d.sent + n).toNat = d.sent.toNat + n.toNat := by
    rw [UInt32.toNat_add]
    omega
  have hgive : Conveys (acceptedPcm (sinceReset d.log)) (receivedPcm (sinceReset d.log) ++
      slice d.pcm31 (d.sent.toNat * 2) (n.toNat * 2)) (d.pcm31.take (d.pending.toNat * 2))
      (d.sent.toNat * 2 + n.toNat * 2) := hconveys.giveFirst (by omega) (by omega)
  have hwrote : law d.log (.wrote (slice d.pcm31 (d.sent.toNat * 2) (n.toNat * 2))) :=
    hgive.leading
  rw [hoffer]
  refine ⟨throughout_snoc hlaw hwrote, ⟨?_, hbound, hroom, ?_⟩, ?_⟩
  · show (d.sent + n).toNat ≤ d.pending.toNat
    omega
  · show Conveys (acceptedPcm (sinceReset (d.log ++ [_]))) (receivedPcm (sinceReset (d.log ++ [_])))
      (d.pcm31.take (d.pending.toNat * 2)) ((d.sent + n).toNat * 2)
    rw [hsent, Nat.add_mul]
    simpa [nextReset, acceptedPcm, takenOf, receivedPcm] using hgive
  · show Stands _ (sincePop (d.log ++ [_]))
    rw [sincePop_snoc]
    exact (hstands.spares rfl).congr rfl rfl rfl

/-- The samples of a codec frame are the first ones of the buffer. -/
theorem take_pcm31 (hroom : d.pcm31.length = 256) {answer : CodecAnswer}
    (hframes : answer.frames.toNat ≤ 128) :
    (overwrite d.pcm31 0 (pcmOf answer)).length = 256 ∧
      (overwrite d.pcm31 0 (pcmOf answer)).take (answer.frames.toNat * 2) = pcmOf answer := by
  have hlong := length_pcmOf answer
  refine ⟨?_, ?_⟩
  · rw [length_overwrite _ _ _ (by omega), hroom]
  · unfold overwrite
    rw [List.take_zero, List.nil_append, ← hlong, List.take_left]

/-- An accepted codec frame: its samples are in the buffer, and the packet goes on or is done. -/
theorem kept_taken (hlaw : Throughout law d.log) (hdrained : Drained d) (hsent : d.sent = 0)
    {offset : Nat} {bytes : List UInt8} {answer : CodecAnswer}
    (hlast : d.log.getLast? = some (.frame offset bytes answer))
    (hpop : sincePop d.log = some (packet, events)) (hwithin : Within d packet events)
    (hframes : answer.frames.toNat ≤ 128)
    (hdone : d.framesLeft - 1 = 0 → d.offset + answer.used = packet.length.toNat)
    (hmore : d.framesLeft - 1 ≠ 0 → d.offset + answer.used < packet.length.toNat) :
    Kept (emit { d with
      offset := d.offset + answer.used
      framesLeft := d.framesLeft - 1
      pcm31 := overwrite d.pcm31 0 (pcmOf answer)
      pending := answer.frames } (.taken answer)) := by
  obtain ⟨hroom, htake⟩ := take_pcm31 hdrained.room hframes
  have htaken : law d.log (.taken answer) := ⟨offset, bytes, hlast⟩
  have hleft : (d.framesLeft - 1).toNat = d.framesLeft.toNat - 1 :=
    UInt32.toNat_sub_of_le _ _ hwithin.left
  have hused : usedOf (events ++ [.taken answer]) = usedOf events + answer.used := by
    simp [usedOf, takenOf]
  have hcount : (takenOf (events ++ [.taken answer])).length = (takenOf events).length + 1 := by
    simp [takenOf]
  have hrejections : rejections (events ++ [.taken answer]) = 0 := by
    rw [rejections_append, hwithin.rejections]
    rfl
  obtain ⟨haccepted, hreceived⟩ := pcm_taken d.log answer
  have hleading := hwithin.count
  have hpositive := hwithin.left
  refine ⟨throughout_snoc hlaw htaken, ⟨?_, hframes, hroom, ?_⟩, ?_⟩
  · show d.sent.toNat ≤ answer.frames.toNat
    rw [hsent]
    exact Nat.zero_le _
  · show Conveys (acceptedPcm (sinceReset (d.log ++ [_]))) (receivedPcm (sinceReset (d.log ++ [_])))
      ((overwrite d.pcm31 0 (pcmOf answer)).take (answer.frames.toNat * 2)) (d.sent.toNat * 2)
    rw [htake, hsent, haccepted, hreceived, hdrained.all]
    rfl
  · have hsince : sincePop (d.log ++ [.taken answer]) =
        some (packet, events ++ [.taken answer]) := by
      simp [hpop, nextPop]
    show Stands _ (sincePop (d.log ++ [.taken answer]))
    rw [hsince]
    by_cases hzero : d.framesLeft - 1 = 0
    · refine .inr ⟨hzero, .inl ⟨hrejections, ?_, ?_⟩⟩
      · rw [hzero] at hleft
        have hnone : (0 : UInt32).toNat = 0 := rfl
        omega
      · rw [hused, ← hwithin.offset]
        exact hdone hzero
    · refine .inl ⟨hwithin.same, ?_, hmore hzero, hrejections, ?_, ?_, ?_⟩
      · rw [hused, ← hwithin.offset]
      · exact Nat.pos_of_ne_zero fun h => hzero (UInt32.toNat_inj.mp h)
      · show (takenOf (events ++ [.taken answer])).length + (d.framesLeft - 1).toNat = _
        omega
      · intro hdiscontinuity
        exact List.mem_append_left _ (hwithin.reset hdiscontinuity)

/-- One codec frame of the packet. -/
theorem kept_decodeFrame (hlaw : Throughout law d.log) (hdrained : Drained d) (hsent : d.sent = 0)
    (hpop : sincePop d.log = some (packet, events)) (hwithin : Within d packet events) :
    Kept (decodeFrame env d).2 := by
  simp only [decodeFrame, emit]
  generalize hbytes : slice d.packet.data d.offset (d.packet.length.toNat - d.offset) = bytes
  generalize env.frame d.log bytes = answer
  have hframe : law d.log (.frame d.offset bytes answer) := by
    refine ⟨hdrained.all, packet, events, hpop, hwithin.unsettled, hwithin.offset, hwithin.inside,
      ?_, hwithin.reset⟩
    rw [← hbytes, hwithin.same]
  have hlaw' := throughout_snoc hlaw hframe
  have hdrained' : Drained (emit d (.frame d.offset bytes answer)) := hdrained.spares rfl
  have hpop' : sincePop (d.log ++ [.frame d.offset bytes answer]) =
      some (packet, events ++ [.frame d.offset bytes answer]) := by
    rw [sincePop_snoc, hpop]
    rfl
  have hwithin' : Within d packet (events ++ [.frame d.offset bytes answer]) := hwithin.spares rfl
  have hunsettled := hwithin'.unsettled
  by_cases hrc : answer.rc ≠ EAF_OK
  · rw [if_pos hrc]
    exact kept_reject hlaw' hdrained' hpop' hunsettled _
  rw [if_neg hrc]
  by_cases hbad : answer.used = 0 ∨ answer.used > d.packet.length.toNat - d.offset ∨
      answer.frames = 0 ∨ answer.frames > 128 ∨ answer.format ≠ d.format
  · rw [if_pos hbad]
    exact kept_reject hlaw' hdrained' hpop' hunsettled _
  rw [if_neg hbad]
  by_cases hend : d.framesLeft - 1 = 0 ∧ d.offset + answer.used ≠ d.packet.length.toNat ∨
      d.framesLeft - 1 ≠ 0 ∧ d.offset + answer.used = d.packet.length.toNat
  · have hdrained'' : Drained { d with
        offset := d.offset + answer.used
        framesLeft := d.framesLeft - 1
        log := d.log ++ [.frame d.offset bytes answer] } := ⟨hdrained'.room, hdrained'.all⟩
    rw [if_pos hend]
    exact kept_reject hlaw' hdrained'' hpop' hunsettled _
  · rw [if_neg hend]
    simp only [not_or, not_and, not_not] at hbad hend
    obtain ⟨-, hfits, -, hframes, -⟩ := hbad
    obtain ⟨hdone, hmore⟩ := hend
    rw [hwithin.same] at hfits hdone hmore
    have hinside := hwithin.inside
    have hlast : (d.log ++ [Event.frame d.offset bytes answer]).getLast? =
        some (Event.frame d.offset bytes answer) := List.getLast?_concat
    refine kept_offer (@kept_taken (emit d (.frame d.offset bytes answer)) _ _ hlaw' hdrained' hsent
      _ _ _ hlast hpop' (hwithin'.congr rfl rfl rfl) ?_ hdone ?_)
    · exact Nat.le_of_not_lt hframes
    · intro hne
      have hnot := hmore hne
      show d.offset + answer.used < packet.length.toNat
      omega

/-- A packet of which nothing is decoded yet. -/
theorem within_popped (hqueued : Queued packet) (hpacket : d.packet = packet)
    (hoffset : d.offset = 0) (hleft : d.framesLeft = packet.frameCount.toUInt32)
    (htaken : takenOf events = [])
    (hrejections : rejections events = 0)
    (hreset : packet.discontinuity = true → .codecReset EAF_OK ∈ events) :
    Within d packet events := by
  have hcount : d.framesLeft.toNat = packet.frameCount.toNat := by
    rw [hleft, UInt8.toNat_toUInt32]
  refine ⟨hpacket, ?_, ?_, hrejections, ?_, ?_, hreset⟩
  · rw [hoffset]
    unfold usedOf
    rw [htaken]
    rfl
  · rw [hoffset]
    exact hqueued.length
  · rw [hcount]
    exact hqueued.frameCount
  · rw [htaken, hcount]
    exact Nat.zero_add _

/-- A packet from the queue, behind one that is settled. -/
theorem kept_beginPacket (hlaw : Throughout law d.log) (hdrained : Drained d) (hsent : d.sent = 0)
    (hsettled : ∀ packet events, sincePop d.log = some (packet, events) → Settled packet events)
    (hqueued : Queued packet) : Kept (beginPacket env d packet).2 := by
  have hlaw' := throughout_snoc hlaw (show law d.log (.popped packet) from hsettled)
  have hdrained' : Drained (emit { d with
      packet := packet, offset := 0, framesLeft := packet.frameCount.toUInt32 }
      (.popped packet)) := by
    obtain ⟨haccepted, hreceived⟩ := @pcm_spares (.popped packet) rfl d.log
    exact ⟨hdrained.room, hreceived.trans (hdrained.all.trans haccepted.symm)⟩
  have hpop : sincePop (d.log ++ [.popped packet]) = some (packet, []) := by
    simp [nextPop]
  unfold beginPacket
  by_cases hdiscontinuity : packet.discontinuity = true
  · rw [if_pos hdiscontinuity]
    obtain ⟨rc, hcodec⟩ : ∃ rc, codecReset env (emit { d with
        packet := packet, offset := 0, framesLeft := packet.frameCount.toUInt32 }
        (.popped packet)) = (rc, emit (emit { d with
          packet := packet, offset := 0, framesLeft := packet.frameCount.toUInt32 }
          (.popped packet)) (.codecReset rc)) := ⟨_, rfl⟩
    have hreset : law (d.log ++ [.popped packet]) (.codecReset rc) := trivial
    have hpop' : sincePop (d.log ++ [.popped packet] ++ [.codecReset rc]) =
        some (packet, [.codecReset rc]) := by
      rw [sincePop_snoc, hpop]
      rfl
    rw [hcodec]
    simp only
    by_cases hrc : rc ≠ EAF_OK
    · rw [if_pos hrc]
      exact kept_reject (throughout_snoc hlaw' hreset) (hdrained'.spares rfl) hpop'
        ⟨rfl, hqueued.frameCount⟩ _
    · rw [if_neg hrc]
      apply kept_decodeFrame (throughout_snoc hlaw' hreset) (hdrained'.spares rfl) hsent hpop'
      apply within_popped hqueued rfl rfl rfl rfl rfl
      intro _
      rw [not_not.mp hrc]
      exact List.mem_singleton_self _
  · rw [if_neg hdiscontinuity]
    apply kept_decodeFrame hlaw' hdrained' hsent hpop
    exact within_popped hqueued rfl rfl rfl rfl rfl fun h => absurd h hdiscontinuity

theorem kept_decoderStep (h : Kept d) : Kept (decoderStep env d).2 := by
  unfold decoderStep
  have hoffered : Kept (if d.pending > d.sent then offer env d else d) := by
    split
    · exact kept_offer h
    · exact h
  generalize (if d.pending > d.sent then offer env d else d) = d at hoffered
  simp only
  by_cases hpending : d.pending > d.sent
  · rw [if_pos hpending]
    exact hoffered
  rw [if_neg hpending]
  have hdrained := hoffered.buffered.drained (Nat.le_of_not_lt hpending)
  have hstands := hoffered.stands
  by_cases hleft : d.framesLeft ≠ 0
  · rw [if_pos hleft]
    rcases hpop : sincePop d.log with _ | ⟨packet, events⟩ <;> rw [hpop] at hstands
    · exact absurd hstands hleft
    · rcases hstands with hwithin | ⟨hnone, -⟩
      · exact @kept_decodeFrame env { d with pending := 0, sent := 0 } _ _ hoffered.law
          ⟨hdrained.room, hdrained.all⟩ rfl hpop (hwithin.congr rfl rfl rfl)
      · exact absurd hnone hleft
  rw [if_neg hleft]
  have hsettled : ∀ packet events, sincePop d.log = some (packet, events) →
      Settled packet events := by
    intro packet events hpop
    rw [hpop] at hstands
    rcases hstands with hwithin | ⟨-, hsettled⟩
    · have hpositive := hwithin.left
      rw [not_not.mp hleft] at hpositive
      exact absurd hpositive (Nat.lt_irrefl 0)
    · exact hsettled
  split
  · exact ⟨hoffered.law, Drained.buffered ⟨hdrained.room, hdrained.all⟩ rfl rfl,
      hstands.congr rfl rfl rfl⟩
  · rename_i packet _
    exact kept_beginPacket hoffered.law ⟨hdrained.room, hdrained.all⟩ rfl hsettled packet.property

theorem kept_decoderReset (h : Kept d) : Kept (decoderReset env d).2 := by
  have hreset : law d.log .reset := trivial
  have hafter : Kept (emit { d with pending := 0, sent := 0, framesLeft := 0, offset := 0 }
      .reset) := by
    refine ⟨throughout_snoc h.law hreset, Drained.buffered ⟨h.buffered.room, ?_⟩ rfl rfl, ?_⟩
    · show receivedPcm (sinceReset (d.log ++ [.reset])) =
        acceptedPcm (sinceReset (d.log ++ [.reset]))
      rw [sinceReset_snoc]
      rfl
    · show Stands _ (sincePop (d.log ++ [.reset]))
      rw [sincePop_snoc]
      rfl
  exact kept_codecReset hafter

theorem kept_call (h : Kept d) (c : Call) : Kept (call env d c) := by
  cases c with
  | step => exact kept_decoderStep h
  | reset => exact kept_decoderReset h

theorem kept_callAll (h : Kept d) (calls : List Call) : Kept (callAll env d calls) := by
  induction calls generalizing d with
  | nil => exact h
  | cons c calls ih => exact ih (kept_call h c)

theorem kept_decoderInit {format : Format} {rc : Rc}
    (h : decoderInit env format = (rc, some d)) : Kept d := by
  unfold decoderInit at h
  split at h
  · cases h
  · cases h
    apply kept_codecReset
    exact ⟨throughout_nil, Drained.buffered ⟨List.length_replicate, rfl⟩ rfl rfl, rfl⟩

end Steps

/-! ## Conservation -/

/-- The samples that wait for the reservoir. -/
def pendingPcm (d : Decoder) : List Int32 :=
  (d.pcm31.take (d.pending.toNat * 2)).drop (d.sent.toNat * 2)

/-- The samples of accepted codec frames that the reservoir has not got. -/
def waiting (log : List Event) : List Int32 :=
  (acceptedPcm (sinceReset log)).drop (receivedPcm (sinceReset log)).length

/-- The reservoir gets the first samples that wait, as many as it has room for. No packet is popped
and no codec frame decoded while there are any. -/
def handsOver (env : Env) (before : List Event) : Event → Prop
  | .wrote samples => samples = (waiting before).take ((env.room before).toNat * 2)
  | .popped _ => waiting before = []
  | .frame _ _ _ => waiting before = []
  | _ => True

section HandsOver

variable {env : Env} {d : Decoder}

theorem Buffered.waiting_eq (h : Buffered d) : waiting d.log = pendingPcm d := by
  unfold waiting
  rw [← h.conveys, List.drop_left]
  rfl

theorem Drained.waiting_eq (h : Drained d) : waiting d.log = [] := by
  unfold waiting
  rw [h.all, List.drop_length]

theorem waiting_spares {e : Event} (he : sparesPcm e = true) (log : List Event) :
    waiting (log ++ [e]) = waiting log := by
  obtain ⟨haccepted, hreceived⟩ := pcm_spares he log
  unfold waiting
  rw [haccepted, hreceived]

/-- A hand-over is one of the smaller of the room and what is pending. -/
theorem offered_frames (hle : d.sent.toNat ≤ d.pending.toNat) :
    (if d.pending - d.sent > env.room d.log then env.room d.log else d.pending - d.sent).toNat =
      min (env.room d.log).toNat (d.pending.toNat - d.sent.toNat) := by
  rw [← UInt32.toNat_sub_of_le _ _ hle]
  split
  · rename_i hgt
    exact (Nat.min_eq_left (Nat.le_of_lt hgt)).symm
  · rename_i hle
    exact (Nat.min_eq_right (Nat.le_of_not_lt hle)).symm

theorem offer_log (hle : d.sent.toNat ≤ d.pending.toNat) :
    (offer env d).log = d.log ++ [.wrote ((pendingPcm d).take ((env.room d.log).toNat * 2))] := by
  unfold offer pendingPcm slice
  dsimp only
  rw [offered_frames hle, List.drop_take, List.take_take, ← Nat.sub_mul, Nat.mul_min_mul_right]

theorem offer_sent (hle : d.sent.toNat ≤ d.pending.toNat) :
    (offer env d).sent.toNat =
      d.sent.toNat + min (env.room d.log).toNat (d.pending.toNat - d.sent.toNat) := by
  have hfits := d.pending.toNat_lt
  unfold offer
  dsimp only
  rw [UInt32.toNat_add, offered_frames hle]
  omega

theorem hands_offer (h : Throughout (handsOver env) d.log)
    (hwaiting : waiting d.log = pendingPcm d) (hle : d.sent.toNat ≤ d.pending.toNat) :
    Throughout (handsOver env) (offer env d).log := by
  rw [offer_log hle, ← hwaiting]
  exact throughout_snoc h rfl

theorem hands_codecReset (h : Throughout (handsOver env) d.log) :
    Throughout (handsOver env) (codecReset env d).2.log :=
  throughout_snoc h trivial

theorem hands_reject (h : Throughout (handsOver env) d.log) (rc : Rc) :
    Throughout (handsOver env) (reject env d rc).2.log :=
  hands_codecReset (throughout_snoc h trivial)

/-- The samples of a codec frame wait, and are offered at once. -/
theorem hands_decodeFrame (h : Throughout (handsOver env) d.log) (hdrained : Drained d)
    (hsent : d.sent = 0) : Throughout (handsOver env) (decodeFrame env d).2.log := by
  simp only [decodeFrame, emit]
  generalize slice d.packet.data d.offset (d.packet.length.toNat - d.offset) = bytes
  generalize env.frame d.log bytes = answer
  have hframe : Throughout (handsOver env) (d.log ++ [.frame d.offset bytes answer]) :=
    throughout_snoc h hdrained.waiting_eq
  split
  · exact hands_reject hframe _
  split
  · exact hands_reject hframe _
  rename_i hgood
  split
  · exact hands_reject hframe _
  simp only [not_or] at hgood
  obtain ⟨-, -, -, hframes, -⟩ := hgood
  obtain ⟨-, htake⟩ := take_pcm31 hdrained.room (Nat.le_of_not_lt hframes)
  have hdrained' : Drained (emit d (.frame d.offset bytes answer)) := hdrained.spares rfl
  have hall := hdrained'.all
  refine hands_offer (throughout_snoc hframe trivial) ?_ ?_
  · -- All that waits is the codec frame that was just accepted.
    obtain ⟨haccepted, hreceived⟩ := pcm_taken (d.log ++ [.frame d.offset bytes answer]) answer
    unfold waiting pendingPcm
    dsimp only
    rw [haccepted, hreceived, hall, List.drop_left, htake, hsent]
    rfl
  · show d.sent.toNat ≤ answer.frames.toNat
    rw [hsent]
    exact Nat.zero_le _

theorem hands_beginPacket (h : Throughout (handsOver env) d.log) (hdrained : Drained d)
    (hsent : d.sent = 0) (packet : Packet) :
    Throughout (handsOver env) (beginPacket env d packet).2.log := by
  have hpopped : Throughout (handsOver env) (d.log ++ [.popped packet]) :=
    throughout_snoc h hdrained.waiting_eq
  have hdrained' : Drained (emit { d with
      packet := packet, offset := 0, framesLeft := packet.frameCount.toUInt32 }
      (.popped packet)) := by
    obtain ⟨haccepted, hreceived⟩ := @pcm_spares (.popped packet) rfl d.log
    exact ⟨hdrained.room, hreceived.trans (hdrained.all.trans haccepted.symm)⟩
  unfold beginPacket
  dsimp only
  split
  · split
    · exact hands_reject (hands_codecReset hpopped) _
    · exact hands_decodeFrame (hands_codecReset hpopped) (hdrained'.spares rfl) hsent
  · exact hands_decodeFrame hpopped hdrained' hsent

theorem hands_decoderStep (hkept : Kept d) (h : Throughout (handsOver env) d.log) :
    Throughout (handsOver env) (decoderStep env d).2.log := by
  unfold decoderStep
  have hoffered : Kept (if d.pending > d.sent then offer env d else d) ∧
      Throughout (handsOver env) (if d.pending > d.sent then offer env d else d).log := by
    split
    · exact ⟨kept_offer hkept, hands_offer h hkept.buffered.waiting_eq hkept.buffered.le⟩
    · exact ⟨hkept, h⟩
  generalize (if d.pending > d.sent then offer env d else d) = d at hoffered
  obtain ⟨hkept', hlaw⟩ := hoffered
  dsimp only
  split
  · exact hlaw
  rename_i hdone
  have hdrained := hkept'.buffered.drained (Nat.le_of_not_lt hdone)
  have hcleared : Drained { d with pending := 0, sent := 0 } := ⟨hdrained.room, hdrained.all⟩
  split
  · exact hands_decodeFrame hlaw hcleared rfl
  split
  · exact hlaw
  · exact @hands_beginPacket _ { d with pending := 0, sent := 0 } hlaw hcleared rfl _

theorem hands_callAll (hkept : Kept d) (h : Throughout (handsOver env) d.log)
    (calls : List Call) : Throughout (handsOver env) (callAll env d calls).log := by
  induction calls generalizing d with
  | nil => exact h
  | cons c calls ih =>
    apply ih (kept_call hkept c)
    cases c with
    | step => exact hands_decoderStep hkept h
    | reset => exact hands_codecReset (throughout_snoc h trivial)

theorem leads_codecReset {log : List Event} (h : log <+: d.log) :
    log <+: (codecReset env d).2.log :=
  h.trans (List.prefix_append _ _)

theorem leads_reject {log : List Event} (h : log <+: d.log) (rc : Rc) :
    log <+: (reject env d rc).2.log :=
  leads_codecReset (h.trans (List.prefix_append _ _))

theorem leads_decodeFrame {log : List Event} (h : log <+: d.log) :
    log <+: (decodeFrame env d).2.log := by
  unfold decodeFrame
  dsimp only
  split
  · exact leads_reject (h.trans (List.prefix_append _ _)) _
  split
  · exact leads_reject (h.trans (List.prefix_append _ _)) _
  split
  · exact leads_reject (h.trans (List.prefix_append _ _)) _
  · exact ((h.trans (List.prefix_append _ _)).trans (List.prefix_append _ _)).trans
      (List.prefix_append _ _)

theorem leads_beginPacket {log : List Event} (h : log <+: d.log) (packet : Packet) :
    log <+: (beginPacket env d packet).2.log := by
  have hpopped := h.trans (List.prefix_append _ [.popped packet])
  unfold beginPacket
  dsimp only
  split
  · split
    · exact leads_reject (leads_codecReset hpopped) _
    · exact leads_decodeFrame (leads_codecReset hpopped)
  · exact leads_decodeFrame hpopped

/-- A step begins with what waits. When some of it still waits then, it is all that the step
does. -/
theorem decoderStep_hands (hkept : Kept d) (hwaits : pendingPcm d ≠ []) :
    ∃ more, (decoderStep env d).2.log =
        d.log ++ .wrote ((pendingPcm d).take ((env.room d.log).toNat * 2)) :: more ∧
      ((env.room d.log).toNat * 2 < (pendingPcm d).length → more = []) := by
  obtain ⟨hle, hbound, hroom, -⟩ := hkept.buffered
  have hlength : (pendingPcm d).length = (d.pending.toNat - d.sent.toNat) * 2 := by
    unfold pendingPcm
    rw [List.length_drop, List.length_take, hroom]
    omega
  have hpos := List.length_pos_iff.mpr hwaits
  have hpending : d.pending > d.sent := UInt32.lt_iff_toNat_lt.mpr (by omega)
  have hlog := @offer_log env d hle
  unfold decoderStep
  rw [if_pos hpending]
  dsimp only
  by_cases hleft : (offer env d).pending > (offer env d).sent
  · rw [if_pos hleft]
    exact ⟨[], hlog, fun _ => rfl⟩
  rw [if_neg hleft]
  have hnone : (pendingPcm d).length ≤ (env.room d.log).toNat * 2 := by
    have hsent := @offer_sent env d hle
    have hall : (offer env d).pending.toNat ≤ (offer env d).sent.toNat := Nat.le_of_not_lt hleft
    rw [show (offer env d).pending = d.pending from rfl] at hall
    omega
  have hgrows : ∀ {r : Rc × Decoder}, (offer env d).log <+: r.2.log → ∃ more, r.2.log =
      d.log ++ .wrote ((pendingPcm d).take ((env.room d.log).toNat * 2)) :: more ∧
        ((env.room d.log).toNat * 2 < (pendingPcm d).length → more = []) := by
    rintro r ⟨more, hmore⟩
    refine ⟨more, ?_, fun hshort => absurd hshort (Nat.not_lt.mpr hnone)⟩
    rw [← hmore, hlog, List.append_assoc, List.singleton_append]
  apply hgrows
  split
  · exact leads_decodeFrame List.prefix_rfl
  split
  · exact List.prefix_rfl
  · apply leads_beginPacket
    exact List.prefix_rfl

end HandsOver

/-- Nothing of a packet or of its frames is lost or made up. -/
structure Conserves (env : Env) (d : Decoder) : Prop where
  /-- What the reservoir got, with what waits for it, are the accepted codec frames. -/
  pcm : receivedPcm (sinceReset d.log) ++ pendingPcm d = acceptedPcm (sinceReset d.log)
  /-- A packet that the worker is not inside of any more is settled. -/
  settled : d.framesLeft = 0 → ∀ packet events, sincePop d.log = some (packet, events) →
    Settled packet events
  /-- So it was at each pop, and no packet was decoded or rejected that was settled. -/
  law : Throughout law d.log
  /-- Each time the reservoir got what it had room for, before anything else was decoded. -/
  hands : Throughout (handsOver env) d.log
  /-- While there are samples that wait, a step hands over the first of them. It does no more when
  some are left. -/
  step : pendingPcm d ≠ [] → ∃ more, (decoderStep env d).2.log =
      d.log ++ .wrote ((pendingPcm d).take ((env.room d.log).toNat * 2)) :: more ∧
    ((env.room d.log).toNat * 2 < (pendingPcm d).length → more = [])

theorem Kept.conserves {env : Env} {d : Decoder} (h : Kept d)
    (hhands : Throughout (handsOver env) d.log) : Conserves env d := by
  refine ⟨h.buffered.conveys, ?_, h.law, hhands, decoderStep_hands h⟩
  intro hleft packet events hpop
  have hstands := h.stands
  rw [hpop] at hstands
  rcases hstands with hwithin | ⟨-, hsettled⟩
  · have hpositive := hwithin.left
    rw [hleft] at hpositive
    exact absurd hpositive (Nat.lt_irrefl 0)
  · exact hsettled

theorem hands_decoderInit {env : Env} {format : Format} {rc : Rc} {d : Decoder}
    (h : decoderInit env format = (rc, some d)) : Throughout (handsOver env) d.log := by
  unfold decoderInit at h
  split at h
  · cases h
  · cases h
    exact hands_codecReset throughout_nil

/-- The decoder conserves packets and frames, whatever the codec answers, the queue holds and the
reservoir takes. -/
theorem decoder_conserves (env : Env) {format : Format} {rc : Rc} {d : Decoder}
    (h : decoderInit env format = (rc, some d)) (calls : List Call) :
    Conserves env (callAll env d calls) :=
  (kept_callAll (kept_decoderInit h) calls).conserves
    (hands_callAll (kept_decoderInit h) (hands_decoderInit h) calls)

/-- Packets of two codec frames of one byte, and a reservoir that takes a frame at a time. -/
def twoFrames : Env where
  reset _ := EAF_OK
  frame _ _ := ⟨EAF_OK, 1, 2, ⟨44100, 2, 3⟩, Vector.replicate 256 1⟩
  pop _ := some ⟨⟨1, 2, 0, 2, true, [7, 7]⟩, by constructor <;> decide⟩
  room _ := 1

theorem decoder_conserves_twoFrames :
    Conserves twoFrames (callAll twoFrames (codecReset twoFrames (zeroDecoder ⟨44100, 2, 3⟩)).2
      [.step, .step, .step, .reset, .step]) :=
  @decoder_conserves twoFrames ⟨44100, 2, 3⟩ EAF_OK _ rfl [.step, .step, .step, .reset, .step]

end EmbeddedAudio.BtDecoder
