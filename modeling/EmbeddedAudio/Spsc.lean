-- One producer and one consumer on a reservoir at the same time. Each load and
-- store of a cursor or of the flag is a step of its own, and so is each sample
-- of a copy; an interleaving is a list of actions.
import EmbeddedAudio.Reservoir

namespace EmbeddedAudio.Core

open Storage Cursor

/-! ## The two programs -/

/-- Where the producer is inside `eaf_reservoir_write`. -/
inductive Producer where
  | idle
  | called (src : List Int32) (frames : UInt32)
  | opened (src : List Int32) (frames : UInt32)
  | placed (src : List Int32) (frames write : UInt32)
  | copying (src : List Int32) (write frames : UInt32) (copied : Nat)
  deriving DecidableEq, Repr

/-- Where the consumer is inside `eaf_reservoir_pull`. `loaded` are the samples that it has
copied out of the ring. -/
inductive Consumer where
  | idle
  | called (n : UInt32)
  | sawFinished (n : UInt32) (finished : Bool)
  | sawRead (n : UInt32) (finished : Bool) (read : UInt32)
  | copying (n : UInt32) (finished : Bool) (read available : UInt32) (loaded : List Int32)
  deriving DecidableEq, Repr

/-- A pull that has returned: the frames asked for, what it loaded of the other side, its result,
and what was accepted and delivered until it returned. -/
structure PullDone where
  n : UInt32
  finished : Bool
  available : UInt32
  pulled : Pulled
  accepted : List Int32
  delivered : List Int32
  deriving DecidableEq, Repr

/-- The reservoir, the two programs, and what went in and came out: `accepted` holds the samples
of the frames that writes have accepted, and `delivered` those that pulls have delivered: of each
block the frames that the pull took out of the ring, without the padding behind them. `pulls` are
the pulls that have returned, in order. -/
structure Spsc where
  r : Reservoir
  producer : Producer
  consumer : Consumer
  accepted : List Int32
  delivered : List Int32
  pulls : List PullDone
  deriving DecidableEq, Repr

/-- The cell that sample `i` of a copy of `frames` frames goes to or comes from. The copy has two
parts when it reaches the end of the ring. -/
def copyCell (capacity : UInt32) (channels : Nat) (start frames : UInt32) (i : Nat) : Nat :=
  let first := (firstPart capacity start frames).toNat * channels
  if i < first then (slotOf capacity start).toNat * channels + i else i - first

def channelsOf (s : Spsc) : Nat := s.r.format.numChannels

/-- One step of the producer. -/
def producerStep (s : Spsc) : Spsc :=
  match s.producer with
  | .idle => s
  | .called src frames =>
    { s with producer := if s.r.finished then .idle else .opened src frames }
  | .opened src frames => { s with producer := .placed src frames s.r.writeCursor }
  | .placed src frames write =>
    { s with producer := .copying src write (writeFrames s.r frames write s.r.readCursor) 0 }
  | .copying src write frames copied =>
    if copied < frames.toNat * channelsOf s then
      { s with
        r := { s.r with
          storage := s.r.storage.set (copyCell s.r.capacity (channelsOf s) write frames copied)
            (src.getD copied 0) }
        producer := .copying src write frames (copied + 1) }
    else
      { s with
        r := { s.r with writeCursor := write + frames }
        producer := .idle
        accepted := s.accepted ++ src.take (frames.toNat * channelsOf s) }

/-- One step of the consumer. -/
def consumerStep (s : Spsc) : Spsc :=
  match s.consumer with
  | .idle => s
  | .called n => { s with consumer := .sawFinished n s.r.finished }
  | .sawFinished n finished => { s with consumer := .sawRead n finished s.r.readCursor }
  | .sawRead n finished read =>
    { s with consumer := .copying n finished read (s.r.writeCursor - read) [] }
  | .copying n finished read available loaded =>
    let take := pullTake s.r finished available n
    if loaded.length < take.toNat * channelsOf s then
      { s with consumer := .copying n finished read available (loaded ++
          [s.r.storage.getD (copyCell s.r.capacity (channelsOf s) read take loaded.length) 0]) }
    else
      let pulled := pullRest s.r finished read available n loaded
      let delivered := s.delivered ++ pulled.block.take (take.toNat * channelsOf s)
      { s with
        r := pulled.reservoir
        consumer := .idle
        delivered := delivered
        pulls := s.pulls ++ [⟨n, finished, available, pulled, s.accepted, delivered⟩] }

/-- What happens next: a call that one side makes, or a step of a side. -/
inductive Action where
  | write (src : List Int32) (frames : UInt32)
  | finish
  | pull (buf : Buffer)
  | producer
  | consumer
  deriving DecidableEq

/-- A write is given all its samples, and a pull a valid buffer. A side that is in a call makes
no other one. -/
def spscStep (s : Spsc) : Action → Spsc
  | .write src frames =>
    if s.producer = .idle ∧ frames.toNat * channelsOf s ≤ src.length then
      { s with producer := .called src frames }
    else s
  | .finish => if s.producer = .idle then { s with r := reservoirFinish s.r } else s
  | .pull buf =>
    if s.consumer = .idle ∧ pullValid s.r buf = true then
      { s with consumer := .called buf.frameCount }
    else s
  | .producer => producerStep s
  | .consumer => consumerStep s

def spscRun (s : Spsc) (actions : List Action) : Spsc := actions.foldl spscStep s

/-- A reservoir whose two cursors stand at `base`, with both sides idle. -/
def spscStart (r : Reservoir) (base : UInt32) : Spsc where
  r := { r with readCursor := base, writeCursor := base }
  producer := .idle
  consumer := .idle
  accepted := []
  delivered := []
  pulls := []

theorem spscRun_cons (s : Spsc) (action : Action) (actions : List Action) :
    spscRun s (action :: actions) = spscRun (spscStep s action) actions := rfl

theorem spscRun_append (s : Spsc) (xs ys : List Action) :
    spscRun s (xs ++ ys) = spscRun (spscRun s xs) ys := List.foldl_append

/-! ## The steps, one by one -/

section Steps

variable {s : Spsc} {src loaded : List Int32} {n frames write read available : UInt32}
  {copied : Nat} {finished : Bool}

theorem producerStep_idle (h : s.producer = .idle) : producerStep s = s := by
  unfold producerStep
  rw [h]

theorem producerStep_called (h : s.producer = .called src frames) :
    producerStep s =
      { s with producer := if s.r.finished then .idle else .opened src frames } := by
  unfold producerStep
  rw [h]

theorem producerStep_opened (h : s.producer = .opened src frames) :
    producerStep s = { s with producer := .placed src frames s.r.writeCursor } := by
  unfold producerStep
  rw [h]

theorem producerStep_placed (h : s.producer = .placed src frames write) :
    producerStep s = { s with
      producer := .copying src write (writeFrames s.r frames write s.r.readCursor) 0 } := by
  unfold producerStep
  rw [h]

theorem producerStep_store (h : s.producer = .copying src write frames copied)
    (hmore : copied < frames.toNat * channelsOf s) :
    producerStep s = { s with
      r := { s.r with
        storage := s.r.storage.set (copyCell s.r.capacity (channelsOf s) write frames copied)
          (src.getD copied 0) }
      producer := .copying src write frames (copied + 1) } := by
  unfold producerStep
  rw [h]
  exact if_pos hmore

theorem producerStep_publish (h : s.producer = .copying src write frames copied)
    (hdone : ¬ copied < frames.toNat * channelsOf s) :
    producerStep s = { s with
      r := { s.r with writeCursor := write + frames }
      producer := .idle
      accepted := s.accepted ++ src.take (frames.toNat * channelsOf s) } := by
  unfold producerStep
  rw [h]
  exact if_neg hdone

theorem consumerStep_idle (h : s.consumer = .idle) : consumerStep s = s := by
  unfold consumerStep
  rw [h]

theorem consumerStep_called (h : s.consumer = .called n) :
    consumerStep s = { s with consumer := .sawFinished n s.r.finished } := by
  unfold consumerStep
  rw [h]

theorem consumerStep_sawFinished (h : s.consumer = .sawFinished n finished) :
    consumerStep s = { s with consumer := .sawRead n finished s.r.readCursor } := by
  unfold consumerStep
  rw [h]

theorem consumerStep_sawRead (h : s.consumer = .sawRead n finished read) :
    consumerStep s =
      { s with consumer := .copying n finished read (s.r.writeCursor - read) [] } := by
  unfold consumerStep
  rw [h]

theorem consumerStep_load (h : s.consumer = .copying n finished read available loaded)
    (hmore : loaded.length < (pullTake s.r finished available n).toNat * channelsOf s) :
    consumerStep s = { s with
      consumer := .copying n finished read available (loaded ++
        [s.r.storage.getD (copyCell s.r.capacity (channelsOf s) read
          (pullTake s.r finished available n) loaded.length) 0]) } := by
  unfold consumerStep
  rw [h]
  exact if_pos hmore

theorem consumerStep_release (h : s.consumer = .copying n finished read available loaded)
    (hdone : ¬ loaded.length < (pullTake s.r finished available n).toNat * channelsOf s) :
    consumerStep s = { s with
      r := (pullRest s.r finished read available n loaded).reservoir
      consumer := .idle
      delivered := s.delivered ++ (pullRest s.r finished read available n loaded).block.take
        ((pullTake s.r finished available n).toNat * channelsOf s)
      pulls := s.pulls ++ [⟨n, finished, available, pullRest s.r finished read available n loaded,
        s.accepted, s.delivered ++ (pullRest s.r finished read available n loaded).block.take
          ((pullTake s.r finished available n).toNat * channelsOf s)⟩] } := by
  unfold consumerStep
  rw [h]
  exact if_neg hdone

end Steps

/-! ## The cells of a copy -/

theorem firstPart_le (capacity start frames : UInt32) :
    (firstPart capacity start frames).toNat ≤ frames.toNat := by
  unfold firstPart
  simp only
  split
  · exact Nat.le_refl _
  · rename_i h
    exact UInt32.le_iff_toNat_le.mp (UInt32.not_lt.mp h)

theorem toNat_firstPart {capacity : UInt32} (h : PowerOfTwo capacity) (start frames : UInt32) :
    (firstPart capacity start frames).toNat =
      min (capacity.toNat - start.toNat % capacity.toNat) frames.toNat := by
  have hslot := toNat_slotOf h start
  have hlt := Nat.mod_lt start.toNat h.pos
  have hsub : (capacity - slotOf capacity start).toNat =
      capacity.toNat - start.toNat % capacity.toNat := by
    rw [UInt32.toNat_sub_of_le _ _ (UInt32.le_iff_toNat_le.mpr (by rw [hslot]; omega)), hslot]
  unfold firstPart
  simp only
  split
  · rename_i hgt
    have := UInt32.lt_iff_toNat_lt.mp hgt
    omega
  · rename_i hle
    have := UInt32.le_iff_toNat_le.mp (UInt32.not_lt.mp hle)
    omega

/-- The two parts of a copy are one run of cells in the ring. -/
theorem copyCell_eq {capacity : UInt32} (h : PowerOfTwo capacity) {channels : Nat}
    (hc : 0 < channels) {start frames : UInt32} (hfit : frames.toNat ≤ capacity.toNat) {i : Nat}
    (hi : i < frames.toNat * channels) :
    copyCell capacity channels start frames i = cellOf capacity channels start i := by
  have hlt := Nat.mod_lt start.toNat h.pos
  have hscale : start.toNat * channels % (capacity.toNat * channels) =
      start.toNat % capacity.toNat * channels := Nat.mul_mod_mul_right ..
  have hle : frames.toNat * channels ≤ capacity.toNat * channels := Nat.mul_le_mul_right _ hfit
  unfold copyCell
  rw [cellOf_eq h hc, toNat_firstPart h, toNat_slotOf h, Nat.add_mod, hscale,
    Nat.mod_eq_of_lt (Nat.lt_of_lt_of_le hi hle)]
  generalize start.toNat % capacity.toNat = slot at hlt ⊢
  have hslot : slot * channels + (capacity.toNat - slot) * channels = capacity.toNat * channels := by
    rw [← Nat.add_mul]
    congr 1
    omega
  rcases Nat.le_total (capacity.toNat - slot) frames.toNat with hcut | hwhole
  · rw [Nat.min_eq_left hcut]
    simp only
    split
    · rw [Nat.mod_eq_of_lt (by omega)]
    · rename_i hge
      rw [Nat.mod_eq_sub_mod (by omega), Nat.mod_eq_of_lt (by omega)]
      omega
  · have hbound : frames.toNat * channels ≤ (capacity.toNat - slot) * channels :=
      Nat.mul_le_mul_right _ hwhole
    rw [Nat.min_eq_right hwhole]
    simp only
    rw [if_pos hi, Nat.mod_eq_of_lt (by omega)]

/-! ## What the other side keeps -/

section Frames

variable (s : Spsc)

/-- The producer changes the ring, its cursor and what was accepted. -/
theorem producerStep_frame : producerStep s =
    { s with
      r := { s.r with
        storage := (producerStep s).r.storage, writeCursor := (producerStep s).r.writeCursor }
      producer := (producerStep s).producer
      accepted := (producerStep s).accepted } := by
  unfold producerStep
  split
  · rfl
  · rfl
  · rfl
  · rfl
  · split
    · rfl
    · rfl

theorem pullRest_frame (r : Reservoir) (finished : Bool) (read available n : UInt32)
    (loaded : List Int32) :
    (pullRest r finished read available n loaded).reservoir =
      { r with
        readCursor := (pullRest r finished read available n loaded).reservoir.readCursor
        state := (pullRest r finished read available n loaded).reservoir.state
        underruns := (pullRest r finished read available n loaded).reservoir.underruns
        framesRead := (pullRest r finished read available n loaded).reservoir.framesRead
        last := (pullRest r finished read available n loaded).reservoir.last } := by
  unfold pullRest
  simp only
  split
  · rfl
  · split
    · split
      · rfl
      · rfl
    · rfl

/-- The consumer changes its part of the reservoir, its cursor and what was delivered. -/
theorem consumerStep_frame : consumerStep s =
    { s with
      r := { s.r with
        readCursor := (consumerStep s).r.readCursor
        state := (consumerStep s).r.state
        underruns := (consumerStep s).r.underruns
        framesRead := (consumerStep s).r.framesRead
        last := (consumerStep s).r.last }
      consumer := (consumerStep s).consumer
      delivered := (consumerStep s).delivered
      pulls := (consumerStep s).pulls } := by
  unfold consumerStep
  split
  · rfl
  · rfl
  · rfl
  · rfl
  · simp only
    split
    · rfl
    · rw [pullRest_frame]

theorem length_storage_producerStep : (producerStep s).r.storage.length = s.r.storage.length := by
  unfold producerStep
  split
  · rfl
  · rfl
  · rfl
  · rfl
  · split
    · exact List.length_set
    · rfl

end Frames

end EmbeddedAudio.Core
