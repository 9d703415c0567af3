-- What the three tasks of the Bluetooth speaker keep, however they take turns:
-- the packets reach the decoder as they were placed, and the output gets what
-- the codec has made of them, in order, except for the rest of a codec frame
-- at each end of a link.
import EmbeddedAudio.BtSound

namespace EmbeddedAudio.BtSound

open Bt BtDecoder Storage Log
open EmbeddedAudio.Core (Spsc Buffer Reservoir Fifo reservoirInit pullValid spscStep spscStart
  channelsOf fifo_step fifo_start writeFrames)

/-! ## The packets of the callback -/

/-- The packet that the callback is at. -/
def heldPacket : Bt.Producer → Option Packet
  | .idle => none
  | .claiming packet => some packet
  | .filling _ packet => some packet
  | .publishing _ packet => some packet

/-- All packets are such as the decoder relies on. -/
structure Fit (a : A2dp) : Prop where
  placed : ∀ packet ∈ placedOf a.history, Queued packet
  held : ∀ packet, heldPacket a.producer = some packet → Queued packet

section Fit

variable {a : A2dp}

theorem fit_registered : Fit registered :=
  ⟨fun _ h => absurd h List.not_mem_nil, fun _ h => absurd h.symm (Option.some_ne_none _)⟩

theorem queued_packetOf (q : Ingress) (sequence : UInt16) (timestamp : UInt32)
    {payload : List UInt8} (hvalid : mediaValid payload = true) :
    Queued (packetOf q sequence timestamp payload) :=
  queued_of_carries (@carries_packetOf q ⟨sequence, timestamp, payload⟩ hvalid)

theorem fit_lose (h : ∀ packet ∈ placedOf a.history, Queued packet) : Fit (lose a) := by
  refine ⟨?_, fun _ hheld => absurd hheld.symm (Option.some_ne_none _)⟩
  simpa [lose] using h

theorem fit_audioDataCb (h : Fit a) (buf : AudioBuff) : Fit (audioDataCb a buf) := by
  unfold audioDataCb
  split
  · split
    · exact fit_lose h.placed
    · unfold sbcReceive
      split
      · rename_i hvalid
        refine ⟨h.placed, fun packet hheld => ?_⟩
        rw [← Option.some.inj hheld]
        exact queued_packetOf _ _ _ hvalid
      · exact fit_lose h.placed
  · exact h

theorem fit_producerStep (h : Fit a) : Fit (producerStep a) := by
  have hheld := h.held
  unfold producerStep
  rcases hp : a.producer with _ | packet | ⟨write, packet⟩ | ⟨write, packet⟩ <;> rw [hp] at hheld
  · exact h
  · dsimp only
    split
    · exact fit_lose h.placed
    · exact ⟨h.placed, hheld⟩
  · have hqueued := hheld packet rfl
    refine ⟨h.placed, fun marked hmarked => ?_⟩
    rw [← Option.some.inj hmarked]
    exact ⟨hqueued.frameCount, hqueued.length, hqueued.data⟩
  · refine ⟨fun packet' hmem => ?_, fun _ h => absurd h.symm (Option.some_ne_none _)⟩
    rw [placedOf_append, List.mem_append] at hmem
    rcases hmem with hold | hnew
    · exact h.placed packet' hold
    · rw [List.mem_singleton.mp hnew]
      exact hheld packet rfl

theorem fit_consumerStep (h : Fit a) : Fit (consumerStep a) := by
  unfold consumerStep
  split
  · split
    · exact h
    · exact ⟨h.placed, h.held⟩
  · exact ⟨h.placed, h.held⟩
  · exact ⟨h.placed, h.held⟩

/-- A packet that is about to be popped. -/
theorem queued_copied {w r : Nat} (hqueue : Queue w r a) (h : Fit a) {read : UInt32}
    {packet : Packet} (hcopied : a.consumer = .copied read packet) : Queued packet := by
  have hholds := hqueue.consumer
  unfold consumerHolds at hholds
  rw [hcopied] at hholds
  exact h.placed packet (List.mem_of_getElem? hholds.2)

end Fit

/-! ## The log of the decoder -/

/-- The packets that were popped. -/
def poppedOf (log : List BtDecoder.Event) : List Packet :=
  log.filterMap fun
    | .popped packet => some packet
    | _ => none

/-- The events between two resets, as they were and those since the last one. -/
def nextEpoch (epochs : List (List BtDecoder.Event) × List BtDecoder.Event) :
    BtDecoder.Event → List (List BtDecoder.Event) × List BtDecoder.Event
  | .reset => (epochs.1 ++ [epochs.2], [])
  | e => (epochs.1, epochs.2 ++ [e])

/-- The events before each reset by the owner, and those since the last one. -/
def splitResets (log : List BtDecoder.Event) :
    List (List BtDecoder.Event) × List BtDecoder.Event := log.foldl nextEpoch ([], [])

/-- The parts of the log between the resets, the last one included. -/
def epochs (log : List BtDecoder.Event) : List (List BtDecoder.Event) :=
  (splitResets log).1 ++ [(splitResets log).2]

theorem splitResets_snoc (log : List BtDecoder.Event) (e : BtDecoder.Event) :
    splitResets (log ++ [e]) = nextEpoch (splitResets log) e := List.foldl_concat ..

theorem splitResets_last (log : List BtDecoder.Event) :
    (splitResets log).2 = sinceReset log := by
  induction log using List.reverseRecOn with
  | nil => rfl
  | append_singleton log e ih =>
    rw [splitResets_snoc, sinceReset_snoc, ← ih]
    cases e <;> rfl

/-- What the reservoir took is what it took between the resets. -/
theorem receivedPcm_epochs (log : List BtDecoder.Event) :
    receivedPcm log = (epochs log).flatMap receivedPcm := by
  unfold epochs
  induction log using List.reverseRecOn with
  | nil => rfl
  | append_singleton log e ih =>
    rw [List.flatMap_append] at ih
    rw [receivedPcm_append, ih, splitResets_snoc]
    cases e <;> simp [nextEpoch, receivedPcm]

/-- An event of the codec, or of a write that has taken nothing yet. -/
def Inner : BtDecoder.Event → Prop
  | .codecReset _ => True
  | .frame _ _ _ => True
  | .taken _ => True
  | .rejected => True
  | .wrote samples => samples = []
  | .popped _ => False
  | .reset => False

/-- A log goes on with such events. -/
def Grows (log log' : List BtDecoder.Event) : Prop :=
  ∃ more, log' = log ++ more ∧ ∀ e ∈ more, Inner e

section Grows

variable {log log' log'' : List BtDecoder.Event} {codec : Codec} {d : Decoder}

theorem Grows.refl (log : List BtDecoder.Event) : Grows log log :=
  ⟨[], (List.append_nil log).symm, fun _ h => absurd h List.not_mem_nil⟩

theorem Grows.trans (h : Grows log log') (h' : Grows log' log'') : Grows log log'' := by
  obtain ⟨more, rfl, hmore⟩ := h
  obtain ⟨rest, rfl, hrest⟩ := h'
  refine ⟨more ++ rest, List.append_assoc .., fun e he => ?_⟩
  rcases List.mem_append.mp he with he | he
  · exact hmore e he
  · exact hrest e he

theorem Grows.snoc (h : Grows log log') (e : BtDecoder.Event) (he : Inner e) :
    Grows log (log' ++ [e]) :=
  h.trans ⟨[e], rfl, fun _ hmem => List.mem_singleton.mp hmem ▸ he⟩

theorem Grows.popped (h : Grows log log') : poppedOf log' = poppedOf log := by
  obtain ⟨more, rfl, hmore⟩ := h
  have hnone : poppedOf more = [] := by
    apply List.filterMap_eq_nil_iff.mpr
    intro e he
    have hinner := hmore e he
    cases e <;> first | rfl | exact absurd hinner id
  rw [poppedOf, List.filterMap_append]
  exact (congrArg _ hnone).trans (List.append_nil _)

theorem Grows.received (h : Grows log log') : receivedPcm log' = receivedPcm log := by
  obtain ⟨more, rfl, hmore⟩ := h
  have hnone : receivedPcm more = [] := by
    apply List.flatMap_eq_nil_iff.mpr
    intro e he
    have hinner := hmore e he
    cases e <;> first | rfl | exact hinner
  rw [receivedPcm_append, hnone, List.append_nil]

theorem Grows.closed (h : Grows log log') : (splitResets log').1 = (splitResets log).1 := by
  obtain ⟨more, rfl, hmore⟩ := h
  induction more using List.reverseRecOn with
  | nil => rw [List.append_nil]
  | append_singleton more e ih =>
    have hinner := hmore e (List.mem_append_right _ (List.mem_singleton_self e))
    rw [← List.append_assoc, splitResets_snoc,
      ← ih fun e' he' => hmore e' (List.mem_append_left _ he')]
    cases e <;> first | rfl | exact absurd hinner id

theorem grows_reject (h : Grows log d.log) (env : Env) (rc : Rc) :
    Grows log (reject env d rc).2.log := by
  unfold reject codecReset
  exact (h.snoc .rejected trivial).snoc (.codecReset _) trivial

theorem grows_offer (h : Grows log d.log) : Grows log (offer (codec.env 0) d).log := by
  unfold offer
  apply h.snoc
  show slice _ _ _ = []
  split
  · rfl
  · rename_i hle
    have hzero : d.pending - d.sent = 0 := by
      apply UInt32.toNat_inj.mp
      exact Nat.le_zero.mp (UInt32.le_iff_toNat_le.mp (UInt32.not_lt.mp hle))
    rw [hzero]
    rfl

theorem grows_decodeFrame (h : Grows log d.log) :
    Grows log (decodeFrame (codec.env 0) d).2.log := by
  unfold decodeFrame
  dsimp only
  generalize (codec.env 0).frame d.log _ = answer
  have hframe : ∀ offset bytes, Grows log (d.log ++ [.frame offset bytes answer]) :=
    fun offset bytes => h.snoc (.frame offset bytes answer) trivial
  split
  · exact grows_reject (hframe _ _) _ _
  split
  · exact grows_reject (hframe _ _) _ _
  split
  · exact grows_reject (hframe _ _) _ _
  · exact grows_offer ((hframe _ _).snoc (.taken answer) trivial)

/-- A packet that was popped is in the log, and then only the codec. -/
theorem grows_beginPacket (packet : Packet) :
    Grows (d.log ++ [.popped packet]) (beginPacket (codec.env 0) d packet).2.log := by
  unfold beginPacket
  dsimp only
  split
  · have hreset := (Grows.refl (d.log ++ [.popped packet])).snoc (.codecReset
      ((codec.env 0).reset (d.log ++ [.popped packet]))) trivial
    split
    · exact grows_reject hreset _ _
    · exact grows_decodeFrame hreset
  · exact grows_decodeFrame (Grows.refl _)

end Grows

/-! ## The decoder between its calls -/

section Decoder

variable {env : Env} {d : Decoder} {packet : Packet}

/-- Nothing is pending: the frames are all in the reservoir. -/
theorem kept_cleared (h : Kept d) (hdone : ¬ d.pending > d.sent) :
    Kept { d with pending := 0, sent := 0 } := by
  have hdrained := h.buffered.drained (Nat.le_of_not_lt hdone)
  exact ⟨h.law, Drained.buffered ⟨hdrained.room, hdrained.all⟩ rfl rfl, h.stands.congr rfl rfl rfl⟩

/-- The next codec frame of a packet. -/
theorem kept_frame (h : Kept d) (hpending : d.pending = 0) (hsent : d.sent = 0)
    (hleft : d.framesLeft ≠ 0) : Kept (decodeFrame env d).2 := by
  have hdrained : Drained d := by
    apply h.buffered.drained
    rw [hpending, hsent]
  have hstands := h.stands
  rcases hpop : sincePop d.log with _ | ⟨packet, events⟩ <;> rw [hpop] at hstands
  · exact absurd hstands hleft
  · rcases hstands with hwithin | ⟨hnone, -⟩
    · exact kept_decodeFrame h.law hdrained hsent hpop hwithin
    · exact absurd hnone hleft

/-- A packet behind one that is done. -/
theorem kept_packet (h : Kept d) (hpending : d.pending = 0) (hsent : d.sent = 0)
    (hleft : d.framesLeft = 0) (hqueued : Queued packet) :
    Kept (beginPacket env d packet).2 := by
  have hdrained : Drained d := by
    apply h.buffered.drained
    rw [hpending, hsent]
  apply kept_beginPacket h.law hdrained hsent _ hqueued
  intro packet events hpop
  have hstands := h.stands
  rw [hpop] at hstands
  rcases hstands with hwithin | ⟨-, hsettled⟩
  · have hpositive := hwithin.left
    rw [hleft] at hpositive
    exact absurd hpositive (Nat.lt_irrefl 0)
  · exact hsettled

end Decoder

/-- What the output may have missed of the codec frames between two resets: the rest of one. -/
def CutShort (epoch : List BtDecoder.Event) : Prop :=
  ∃ lost, receivedPcm epoch ++ lost = acceptedPcm epoch ∧ lost.length ≤ 256

theorem cutShort_kept {d : Decoder} (h : Kept d) : CutShort (sinceReset d.log) := by
  have hbound := h.buffered.bound
  refine ⟨_, h.buffered.conveys, ?_⟩
  rw [List.length_drop, List.length_take]
  omega

/-! ## A write -/

/-- A write of these frames goes on. -/
def Writing (src : List Int32) (frames : UInt32) : Core.Producer → Prop
  | .idle => False
  | .called src' frames' => src' = src ∧ frames' = frames
  | .opened src' frames' => src' = src ∧ frames' = frames
  | .placed src' frames' _ => src' = src ∧ frames' = frames
  | .copying src' _ taken _ => src' = src ∧ taken ≤ frames

section Writing

variable {spsc : Spsc} {src : List Int32} {frames : UInt32}

theorem writeFrames_le (r : Reservoir) (frames write read : UInt32) :
    writeFrames r frames write read ≤ frames := by
  unfold writeFrames
  dsimp only
  split
  · rename_i h
    exact UInt32.le_of_lt h
  · exact UInt32.le_refl _

/-- A step of a write: it returns with the frames that it has taken, or it goes on. -/
theorem writing_step (h : Writing src frames spsc.producer) (hopen : spsc.r.finished = false) :
    (writeReturns spsc = none ∧ Writing src frames (Core.producerStep spsc).producer ∧
      (Core.producerStep spsc).accepted = spsc.accepted) ∨
    ∃ n, writeReturns spsc = some n ∧ n ≤ frames ∧ (Core.producerStep spsc).producer = .idle ∧
      (Core.producerStep spsc).accepted =
        spsc.accepted ++ src.take (n.toNat * channelsOf spsc) := by
  unfold writeReturns
  rcases hp : spsc.producer with _ | ⟨src', frames'⟩ | ⟨src', frames'⟩ | ⟨src', frames', write⟩ |
    ⟨src', write, taken, copied⟩ <;> rw [hp] at h
  · exact absurd h id
  · left
    rw [Core.producerStep_called hp]
    simp only [hopen, Bool.false_eq_true, if_false]
    exact ⟨trivial, h, trivial⟩
  · left
    rw [Core.producerStep_opened hp]
    exact ⟨rfl, h, rfl⟩
  · left
    rw [Core.producerStep_placed hp]
    refine ⟨rfl, ⟨h.1, ?_⟩, rfl⟩
    rw [← h.2]
    exact writeFrames_le ..
  · dsimp only
    by_cases hmore : copied < taken.toNat * channelsOf spsc
    · left
      rw [Core.producerStep_store hp hmore, if_pos hmore]
      exact ⟨rfl, h, rfl⟩
    · right
      rw [Core.producerStep_publish hp hmore, if_neg hmore]
      refine ⟨taken, rfl, h.2, rfl, ?_⟩
      rw [← h.1]

/-- The frames that were taken are logged as the ones that the reservoir took. -/
theorem offer_taken (codec : Codec) (d : Decoder) {n : UInt32} (hn : n ≤ d.pending - d.sent) :
    receivedPcm (offer (codec.env n) d).log =
      receivedPcm d.log ++ (d.pcm31.drop (d.sent.toNat * 2)).take (n.toNat * 2) := by
  have hframes : (if d.pending - d.sent > n then n else d.pending - d.sent) = n := by
    split
    · rfl
    · rename_i hle
      exact UInt32.le_antisymm (UInt32.not_lt.mp hle) hn
  unfold offer
  dsimp only
  rw [show (codec.env n).room d.log = n from rfl, hframes]
  simp [receivedPcm, slice]

end Writing

/-! ## The invariant -/

/-- Where the decode task is, and what it is at there. -/
def Stage (s : Sound) : Prop :=
  match s.decode with
  | .offering _ => Writing (s.decoder.pcm31.drop (s.decoder.sent.toNat * 2))
      (s.decoder.pending - s.decoder.sent) s.spsc.producer ∧ s.a2dp.consumer = .idle
  | .writing _ => Writing (s.decoder.pcm31.drop (s.decoder.sent.toNat * 2))
      (s.decoder.pending - s.decoder.sent) s.spsc.producer ∧ s.a2dp.consumer = .idle
  | .popping _ => s.spsc.producer = .idle ∧ s.decoder.pending = 0 ∧ s.decoder.sent = 0 ∧
      s.decoder.framesLeft = 0
  | _ => s.spsc.producer = .idle ∧ s.a2dp.consumer = .idle

/-- The packets and the frames go from task to task, and none is lost or made up. -/
structure Steady (a : A2dp) (d : Decoder) (spsc : Spsc) : Prop where
  queue : ∃ w r, Queue w r a
  fit : Fit a
  fifo : ∃ w r, Fifo 0 w r spsc
  unfinished : spsc.r.finished = false
  channels : channelsOf spsc = 2
  kept : Kept d
  closed : ∀ epoch ∈ (splitResets d.log).1, CutShort epoch
  popped : poppedOf d.log = a.popped
  wrote : receivedPcm d.log = spsc.accepted

structure Flows (s : Sound) : Prop where
  steady : Steady s.a2dp s.decoder s.spsc
  stage : Stage s

section Steps

variable {s : Sound} {codec : Codec}

theorem flows_wakeDecode (h : Flows s) : Flows (wakeDecode s) := by
  unfold wakeDecode
  split
  · exact h
  · exact ⟨h.steady, h.stage⟩

/-! ### The callback and the output -/

/-- The callback leaves alone what the decode task has of the queue. -/
theorem flows_callback (h : Flows s) {a : A2dp} (hqueue : ∃ w r, Queue w r a) (hfit : Fit a)
    (hpopped : a.popped = s.a2dp.popped) (hconsumer : a.consumer = s.a2dp.consumer)
    (telling : Bool) : Flows { s with a2dp := a, telling := telling } := by
  refine ⟨{ h.steady with
    queue := hqueue, fit := hfit, popped := h.steady.popped.trans hpopped.symm }, ?_⟩
  have hstage := h.stage
  unfold Stage at hstage ⊢
  simp only [hconsumer]
  exact hstage

theorem audioDataCb_beside (a : A2dp) (buf : AudioBuff) :
    (audioDataCb a buf).popped = a.popped ∧ (audioDataCb a buf).consumer = a.consumer := by
  unfold audioDataCb
  split
  · split
    · exact ⟨rfl, rfl⟩
    · unfold sbcReceive
      split <;> exact ⟨rfl, rfl⟩
  · exact ⟨rfl, rfl⟩

theorem producerStep_beside (a : A2dp) :
    (producerStep a).popped = a.popped ∧ (producerStep a).consumer = a.consumer := by
  unfold producerStep
  split
  · exact ⟨rfl, rfl⟩
  · split <;> exact ⟨rfl, rfl⟩
  · exact ⟨rfl, rfl⟩
  · exact ⟨rfl, rfl⟩

/-- The output leaves alone what the decode task has of the reservoir. -/
theorem flows_output (h : Flows s) {spsc : Spsc} (hfifo : ∃ w r, Fifo 0 w r spsc)
    (hfinished : spsc.r.finished = s.spsc.r.finished)
    (hchannels : channelsOf spsc = channelsOf s.spsc)
    (haccepted : spsc.accepted = s.spsc.accepted) (hproducer : spsc.producer = s.spsc.producer)
    (output : Output) : Flows { s with spsc := spsc, output := output } := by
  refine ⟨{ h.steady with
    fifo := hfifo
    unfinished := hfinished.trans h.steady.unfinished
    channels := hchannels.trans h.steady.channels
    wrote := h.steady.wrote.trans haccepted.symm }, ?_⟩
  have hstage := h.stage
  unfold Stage at hstage ⊢
  simp only [hproducer]
  exact hstage

theorem flows_outputStep (h : Flows s) (n : UInt32) (ok : Bool) : Flows (outputStep n s ok) := by
  obtain ⟨w, r, hfifo⟩ := h.steady.fifo
  unfold outputStep
  split
  · split
    · apply flows_output h (fifo_step hfifo _)
      all_goals
        unfold spscStep
        dsimp only
        split <;> rfl
    · exact h
  · have hframe := Core.consumerStep_frame s.spsc
    have hfifo' : ∃ w r, Fifo 0 w r (Core.consumerStep s.spsc) := fifo_step hfifo .consumer
    apply flows_output h hfifo'
    all_goals
      rw [hframe]
      try rfl
  · apply flows_wakeDecode
    exact ⟨h.steady, h.stage⟩

/-! ### The decode task -/

/-- A write of what is pending has all its samples. -/
theorem flows_callWrite (h : Steady s.a2dp s.decoder s.spsc) (hp : s.spsc.producer = .idle)
    (hc : s.a2dp.consumer = .idle) {before : UInt32}
    (hat : s.decode = .offering before ∨ s.decode = .writing before) : Flows (callWrite s) := by
  obtain ⟨w, r, hfifo⟩ := h.fifo
  have hle := h.kept.buffered.le
  have hbound := h.kept.buffered.bound
  have hroom := h.kept.buffered.room
  have hframes := UInt32.toNat_sub_of_le _ _ (UInt32.le_iff_toNat_le.mpr hle)
  have hguard : s.spsc.producer = .idle ∧
      (s.decoder.pending - s.decoder.sent).toNat * channelsOf s.spsc ≤
        (s.decoder.pcm31.drop (s.decoder.sent.toNat * 2)).length := by
    refine ⟨hp, ?_⟩
    rw [h.channels, List.length_drop, hroom, hframes]
    omega
  have hfifo' := fifo_step hfifo (.write (s.decoder.pcm31.drop (s.decoder.sent.toNat * 2))
    (s.decoder.pending - s.decoder.sent))
  unfold callWrite
  unfold spscStep at hfifo' ⊢
  dsimp only at hfifo' ⊢
  rw [if_pos hguard] at hfifo' ⊢
  refine ⟨{ h with fifo := hfifo' }, ?_⟩
  unfold Stage
  rcases hat with hat | hat <;> rw [hat] <;> exact ⟨⟨rfl, rfl⟩, hc⟩

theorem flows_decoded {before : UInt32} {result : Rc × Decoder}
    (h : Steady s.a2dp result.2 s.spsc) (hp : s.spsc.producer = .idle)
    (hc : s.a2dp.consumer = .idle) : Flows (decoded s before result) := by
  unfold decoded
  split
  · exact ⟨h, hp, hc⟩
  · exact flows_callWrite h hp hc (.inr rfl)

/-- The decoder goes on with the codec. -/
theorem Steady.grows {a : A2dp} {d d' : Decoder} {spsc : Spsc} (h : Steady a d spsc)
    (hkept : Kept d') (hgrows : Grows d.log d'.log) : Steady a d' spsc := by
  refine { h with
    kept := hkept
    closed := ?_
    popped := hgrows.popped.trans h.popped
    wrote := hgrows.received.trans h.wrote }
  rw [hgrows.closed]
  exact h.closed

theorem flows_goOn (h : Steady s.a2dp s.decoder s.spsc) (hp : s.spsc.producer = .idle)
    (hc : s.a2dp.consumer = .idle) (hdone : ¬ s.decoder.pending > s.decoder.sent)
    (before : UInt32) : Flows (goOn codec s before) := by
  have hcleared := kept_cleared h.kept hdone
  unfold goOn
  dsimp only
  split
  · rename_i hleft
    apply flows_decoded _ hp hc
    exact h.grows (kept_frame hcleared rfl rfl hleft) (grows_decodeFrame (Grows.refl _))
  · rename_i hleft
    exact ⟨h.grows hcleared (Grows.refl _), hp, rfl, rfl, not_not.mp hleft⟩

/-- A step of a write. -/
theorem flows_writeStep (h : Steady s.a2dp s.decoder s.spsc)
    (hwriting : Writing (s.decoder.pcm31.drop (s.decoder.sent.toNat * 2))
      (s.decoder.pending - s.decoder.sent) s.spsc.producer)
    (hc : s.a2dp.consumer = .idle) {before : UInt32}
    (hat : s.decode = .offering before ∨ s.decode = .writing before) {next : Sound → Sound}
    (hnext : ∀ s', Steady s'.a2dp s'.decoder s'.spsc → s'.spsc.producer = .idle →
      s'.a2dp.consumer = .idle → Flows (next s')) : Flows (writeStep codec s next) := by
  obtain ⟨w, r, hfifo⟩ := h.fifo
  have hfifo' : ∃ w r, Fifo 0 w r (Core.producerStep s.spsc) := fifo_step hfifo .producer
  have hframe := Core.producerStep_frame s.spsc
  have hfinished : (Core.producerStep s.spsc).r.finished = s.spsc.r.finished := by
    rw [hframe]
  have hchannels : channelsOf (Core.producerStep s.spsc) = channelsOf s.spsc := by
    rw [hframe]
    rfl
  unfold writeStep
  rcases writing_step hwriting h.unfinished with ⟨hreturns, hgoes, haccepted⟩ |
    ⟨n, hreturns, hn, hidle, haccepted⟩ <;> rw [hreturns] <;> dsimp only
  · refine ⟨{ h with
      fifo := hfifo'
      unfinished := hfinished.trans h.unfinished
      channels := hchannels.trans h.channels
      wrote := h.wrote.trans haccepted.symm }, ?_⟩
    unfold Stage
    rcases hat with hat | hat <;> rw [hat] <;> exact ⟨hgoes, hc⟩
  · refine hnext _ ?_ hidle hc
    refine { h with
      fifo := hfifo'
      unfinished := hfinished.trans h.unfinished
      channels := hchannels.trans h.channels
      kept := kept_offer h.kept
      closed := ?_
      popped := ?_
      wrote := ?_ }
    · unfold offer emit
      dsimp only
      rw [splitResets_snoc]
      exact h.closed
    · unfold offer emit poppedOf
      dsimp only
      rw [List.filterMap_append]
      exact (List.append_nil _).trans h.popped
    · rw [offer_taken codec s.decoder hn, haccepted, h.wrote, h.channels]

theorem flows_popStep (h : Steady s.a2dp s.decoder s.spsc) (hp : s.spsc.producer = .idle)
    {before : UInt32} (hat : s.decode = .popping before) (hpending : s.decoder.pending = 0)
    (hsent : s.decoder.sent = 0) (hleft : s.decoder.framesLeft = 0) :
    Flows (popStep codec s before) := by
  obtain ⟨w, r, hqueue⟩ := h.queue
  obtain ⟨r', hqueue', -⟩ := queue_consumerStep hqueue
  have hfit' := fit_consumerStep h.fit
  have hgoes : (consumerStep s.a2dp).popped = s.a2dp.popped →
      Flows { s with a2dp := consumerStep s.a2dp } := by
    intro hpopped
    refine ⟨{ h with
      queue := ⟨w, r', hqueue'⟩, fit := hfit', popped := h.popped.trans hpopped.symm }, ?_⟩
    unfold Stage
    rw [hat]
    exact ⟨hp, hpending, hsent, hleft⟩
  unfold popStep
  rcases hc : s.a2dp.consumer with _ | read | ⟨read, packet⟩ <;> dsimp only
  · split
    · exact ⟨h, hp, hc⟩
    · apply hgoes
      unfold consumerStep
      rw [hc]
      dsimp only
      split <;> rfl
  · apply hgoes
    unfold consumerStep
    rw [hc]
  · have hqueued := queued_copied hqueue h.fit hc
    have hgrows := @grows_beginPacket codec s.decoder packet
    have hpopped : (consumerStep s.a2dp).popped = s.a2dp.popped ++ [packet] := by
      unfold consumerStep
      rw [hc]
    have hidle : (consumerStep s.a2dp).consumer = .idle := by
      unfold consumerStep
      rw [hc]
    refine flows_decoded { h with
      queue := ⟨w, r', hqueue'⟩
      fit := hfit'
      kept := kept_packet h.kept hpending hsent hleft hqueued
      closed := ?_
      popped := ?_
      wrote := ?_ } hp hidle
    · rw [hgrows.closed, splitResets_snoc]
      exact h.closed
    · rw [hgrows.popped, hpopped, ← h.popped, poppedOf, List.filterMap_append]
      rfl
    · rw [hgrows.received, ← h.wrote]
      simp [receivedPcm]

/-- A link has ended, and the decoder is reset. -/
theorem steady_reset (h : Steady s.a2dp s.decoder s.spsc) :
    Steady s.a2dp (decoderReset (codec.env 0) s.decoder).2 s.spsc := by
  have hlog : (decoderReset (codec.env 0) s.decoder).2.log =
      s.decoder.log ++ [.reset] ++ [.codecReset (codec.reset (s.decoder.log ++ [.reset]))] := rfl
  refine { h with kept := kept_decoderReset h.kept, closed := ?_, popped := ?_, wrote := ?_ }
  · rw [hlog, splitResets_snoc, splitResets_snoc]
    intro epoch hmem
    rcases List.mem_append.mp hmem with hold | hnew
    · exact h.closed epoch hold
    · rw [List.mem_singleton.mp hnew, splitResets_last]
      exact cutShort_kept h.kept
  · rw [← h.popped, hlog]
    simp [poppedOf]
  · rw [← h.wrote, hlog]
    simp [receivedPcm]

/-- The task goes to one of two places. -/
theorem stage_choice {x y : Decode} (p : Prop) [Decidable p]
    (hx : Stage { s with decode := x }) (hy : Stage { s with decode := y }) :
    Stage { s with decode := if p then x else y } := by
  split
  · exact hx
  · exact hy

theorem flows_decodeStep (h : Flows s) : Flows (decodeStep codec s) := by
  have hstage := h.stage
  unfold Stage at hstage
  unfold decodeStep
  rcases hd : s.decode with _ | _ | _ | _ | before | before | before | before | before | before |
    before <;> rw [hd] at hstage <;> dsimp only
  · exact ⟨h.steady, hstage⟩
  · split
    · exact ⟨h.steady, hstage⟩
    · exact h
  · have hreset : Steady s.a2dp
        (if s.wasConnected ∧ ¬ s.a2dp.binding.status.connected then
          (decoderReset (codec.env 0) s.decoder).2
        else s.decoder) s.spsc := by
      split
      · exact steady_reset h.steady
      · exact h.steady
    refine ⟨hreset, ?_⟩
    unfold Stage
    dsimp only
    cases s.a2dp.binding.status.streaming <;> exact hstage
  · exact ⟨h.steady, hstage⟩
  · obtain ⟨hp, hc⟩ := hstage
    split
    · exact flows_callWrite h.steady hp hc (.inl rfl)
    · rename_i hdone
      exact flows_goOn h.steady hp hc hdone before
  · apply flows_writeStep h.steady hstage.1 hstage.2 (.inl hd)
    intro s' hsteady hp hc
    split
    · exact ⟨hsteady, hp, hc⟩
    · rename_i hdone
      exact flows_goOn hsteady hp hc hdone before
  · obtain ⟨hp, hpending, hsent, hleft⟩ := hstage
    exact flows_popStep h.steady hp hd hpending hsent hleft
  · apply flows_writeStep h.steady hstage.1 hstage.2 (.inr hd)
    intro s' hsteady hp hc
    exact ⟨hsteady, hp, hc⟩
  · exact ⟨h.steady, hstage⟩
  · exact ⟨h.steady, stage_choice _ hstage hstage⟩
  · exact ⟨h.steady, stage_choice _ hstage hstage⟩

theorem flows_soundStep (h : Flows s) (n : UInt32) (action : Action) :
    Flows (soundStep codec n s action) := by
  obtain ⟨w, r, hqueue⟩ := h.steady.queue
  have hfit := h.steady.fit
  cases action with
  | audioData buf =>
    unfold soundStep
    dsimp only
    split
    · obtain ⟨hpopped, hconsumer⟩ := audioDataCb_beside s.a2dp buf
      exact flows_callback h ⟨w, r, queue_audioDataCb hqueue buf⟩ (fit_audioDataCb hfit buf) hpopped
        hconsumer s.telling
    · exact h
  | a2d event =>
    unfold soundStep
    dsimp only
    split
    · exact flows_callback h ⟨w, r, queue_onA2d hqueue event⟩ ⟨hfit.placed, hfit.held⟩ rfl rfl _
    · exact h
  | callback =>
    show Flows (callbackStep s)
    unfold callbackStep
    split
    · apply flows_wakeDecode
      exact flows_callback h ⟨w, r, hqueue⟩ hfit rfl rfl false
    · obtain ⟨hpopped, hconsumer⟩ := producerStep_beside s.a2dp
      obtain ⟨w', -, hqueue'⟩ := queue_producerStep hqueue
      exact flows_callback h ⟨w', r, hqueue'⟩ (fit_producerStep hfit) hpopped hconsumer s.telling
  | decode => exact flows_decodeStep h
  | output ok => exact flows_outputStep h n ok

theorem flows_soundRun (codec : Codec) (h : Flows s) (n : UInt32) (actions : List Action) :
    Flows (soundRun codec n s actions) :=
  soundRun_law (I := Flows) (fun _ action hs => flows_soundStep hs n action) h actions

end Steps

/-! ## From the callback to the output -/

theorem flows_startAudio {codec : Codec} {sizeMax sampleRate : Nat} {frames : UInt32} {s : Sound}
    (h : startAudio codec sizeMax sampleRate frames = .ok s) : Flows s := by
  obtain ⟨reservoir, decoder, hreservoir, hdecoder, rfl⟩ := startAudio_ok h
  obtain ⟨-, -, -, -, hformat, -⟩ := Core.reservoirInit_ok hreservoir
  have hfifo := fifo_start hreservoir (by rw [List.length_replicate]) 0
  have hlog : decoder.log = [.codecReset (codec.reset [])] := by
    unfold decoderInit at hdecoder
    split at hdecoder
    · cases hdecoder
    · obtain ⟨-, hdecoder⟩ := Prod.mk.inj hdecoder
      rw [← Option.some.inj hdecoder]
      rfl
  refine ⟨⟨⟨0, 0, queue_registered⟩, fit_registered, ⟨0, 0, ?_⟩, ?_, ?_, kept_decoderInit hdecoder,
    ?_, ?_, ?_⟩, rfl, rfl⟩
  · exact ⟨hfifo.ring, hfifo.channels, hfifo.size, hfifo.accepted, hfifo.write, hfifo.read,
      hfifo.le, hfifo.level, hfifo.order, hfifo.data, hfifo.framesRead, trivial, trivial⟩
  · unfold reservoirInit at hreservoir
    split at hreservoir
    · cases hreservoir
    · cases hreservoir
      rfl
  · exact congrArg Format.numChannels hformat
  · rw [hlog]
    exact fun _ hmem => absurd hmem List.not_mem_nil
  · rw [hlog]
    rfl
  · rw [hlog]
    rfl

/-- In every run, whatever comes over the link, whatever the codec answers and however the tasks
take turns. The decoder gets the packets of the callback in their order, and it decodes each one to
its end or rejects it once, unless the link ends. The output gets the frames that the codec made of
them in their order, and at the end of a link it misses the rest of one codec frame at most. No
more than a reservoir of them is on its way. -/
theorem sound_conserved {codec : Codec} {sizeMax sampleRate : Nat} {frames : UInt32} {start : Sound}
    (h : startAudio codec sizeMax sampleRate frames = .ok start) (n : UInt32)
    (actions : List Action) :
    let s := soundRun codec n start actions
    poppedOf s.decoder.log = s.a2dp.popped ∧ s.a2dp.popped <+: placedOf s.a2dp.history ∧
      Throughout BtDecoder.law s.decoder.log ∧
      s.spsc.delivered <+: (epochs s.decoder.log).flatMap receivedPcm ∧
      ((epochs s.decoder.log).flatMap receivedPcm).length ≤
        s.spsc.delivered.length + s.spsc.r.capacity.toNat * 2 ∧
      ∀ epoch ∈ epochs s.decoder.log,
        ∃ lost, receivedPcm epoch ++ lost = acceptedPcm epoch ∧ lost.length ≤ 256 := by
  intro s
  obtain ⟨hsteady, -⟩ := flows_soundRun codec (flows_startAudio h) n actions
  obtain ⟨w, r, hqueue⟩ := hsteady.queue
  obtain ⟨v, q, hfifo⟩ := hsteady.fifo
  refine ⟨hsteady.popped, ?_, hsteady.kept.law, ?_, ?_, ?_⟩
  · rw [hqueue.popped]
    exact List.take_prefix _ _
  · rw [← receivedPcm_epochs, hsteady.wrote, hfifo.order]
    exact List.take_prefix _ _
  · rw [← receivedPcm_epochs, hsteady.wrote, hfifo.order, List.length_take, hfifo.accepted,
      hsteady.channels]
    have hle := hfifo.le
    have hlevel : v ≤ q + s.spsc.r.capacity.toNat := hfifo.level
    omega
  · intro epoch hmem
    rcases List.mem_append.mp hmem with hold | hnew
    · exact hsteady.closed epoch hold
    · rw [List.mem_singleton.mp hnew, splitResets_last]
      exact cutShort_kept hsteady.kept

/-- A codec that makes two frames of a byte. -/
def twoOfEach : Codec where
  reset _ := EAF_OK
  frame _ _ := ⟨EAF_OK, 1, 2, ⟨44100, 2, 3⟩, Vector.replicate 256 1⟩

/-- A speaker with a reservoir of four frames. -/
def smallSpeaker : Sound := (startAudio twoOfEach 0xFFFFFFFF 44100 4).toOption.get rfl

/-- The callbacks with a packet of one codec frame. -/
def packetComes : List Action :=
  [.audioData ⟨1, 0, some [7]⟩, .callback, .callback, .callback]

/-- The stream starts, packets come, and the decode task takes them to the reservoir. -/
def packetsDecoded (count : Nat) : List Action :=
  [.decode, .a2d (.audioState true), .callback] ++ (List.replicate count packetComes).flatten ++
    List.replicate 60 Action.decode

theorem sound_conserved_twoPackets :
    let s := soundRun twoOfEach 1 smallSpeaker (packetsDecoded 2)
    poppedOf s.decoder.log = s.a2dp.popped ∧ s.a2dp.popped <+: placedOf s.a2dp.history ∧
      Throughout BtDecoder.law s.decoder.log ∧
      s.spsc.delivered <+: (epochs s.decoder.log).flatMap receivedPcm ∧
      ((epochs s.decoder.log).flatMap receivedPcm).length ≤
        s.spsc.delivered.length + s.spsc.r.capacity.toNat * 2 ∧
      ∀ epoch ∈ epochs s.decoder.log,
        ∃ lost, receivedPcm epoch ++ lost = acceptedPcm epoch ∧ lost.length ≤ 256 :=
  @sound_conserved twoOfEach 0xFFFFFFFF 44100 4 smallSpeaker rfl 1 (packetsDecoded 2)

end EmbeddedAudio.BtSound
