-- What holds of a reservoir between a producer and a consumer, in every
-- interleaving: pulls deliver the frames that writes accepted, in order, and
-- neither side touches a cell that belongs to the other one.
import EmbeddedAudio.Spsc

namespace EmbeddedAudio.Core

open Storage Cursor

/-! ## The invariant -/

/-- The cell of sample `j`, counted from the start of the run. -/
def sampleCell (base : UInt32) (s : Spsc) (j : Nat) : Nat :=
  cellOf s.r.capacity (channelsOf s) base j

def producerHolds (base : UInt32) (w r : Nat) (s : Spsc) : Prop :=
  match s.producer with
  | .idle => True
  | .called src frames => frames.toNat * channelsOf s ≤ src.length
  | .opened src frames => frames.toNat * channelsOf s ≤ src.length
  | .placed src frames write =>
    frames.toNat * channelsOf s ≤ src.length ∧ write = s.r.writeCursor
  | .copying src write frames copied =>
    frames.toNat * channelsOf s ≤ src.length ∧ write = s.r.writeCursor ∧
      w + frames.toNat ≤ r + s.r.capacity.toNat ∧ copied ≤ frames.toNat * channelsOf s ∧
      ∀ j < copied, s.r.storage[sampleCell base s (w * channelsOf s + j)]? = src[j]?

def consumerHolds (w r : Nat) (s : Spsc) : Prop :=
  match s.consumer with
  | .sawRead _ _ read => read = s.r.readCursor
  | .copying n finished read available loaded =>
    read = s.r.readCursor ∧ r + available.toNat ≤ w ∧
      loaded.length ≤ (pullTake s.r finished available n).toNat * channelsOf s ∧
      loaded = (s.accepted.drop (r * channelsOf s)).take loaded.length
  | _ => True

/-- After `w` frames were accepted and `r` frames were delivered. The cells of the frames in
between hold these frames, and the other cells are the producer's. -/
structure Fifo (base : UInt32) (w r : Nat) (s : Spsc) : Prop where
  ring : PowerOfTwo s.r.capacity
  channels : 0 < channelsOf s
  size : s.r.capacity.toNat * channelsOf s ≤ s.r.storage.length
  accepted : s.accepted.length = w * channelsOf s
  write : s.r.writeCursor = base + UInt32.ofNat w
  read : s.r.readCursor = base + UInt32.ofNat r
  le : r ≤ w
  level : w ≤ r + s.r.capacity.toNat
  order : s.delivered = s.accepted.take (r * channelsOf s)
  data : ∀ j, r * channelsOf s ≤ j → j < w * channelsOf s →
    s.r.storage[sampleCell base s j]? = s.accepted[j]?
  framesRead : s.r.framesRead = UInt64.ofNat r
  producer : producerHolds base w r s
  consumer : consumerHolds w r s

section Cells

variable {base : UInt32} {w r : Nat} {s : Spsc}

theorem sampleCell_eq (h : Fifo base w r s) (j : Nat) :
    sampleCell base s j = (base.toNat * channelsOf s + j) % (s.r.capacity.toNat * channelsOf s) :=
  cellOf_eq h.ring h.channels base j

theorem sampleCell_lt (h : Fifo base w r s) (j : Nat) :
    sampleCell base s j < s.r.storage.length :=
  Nat.lt_of_lt_of_le (cellOf_lt h.ring h.channels base j) h.size

/-- Samples less than a round apart have different cells. -/
theorem sampleCell_ne (h : Fifo base w r s) {i j : Nat} (hlt : i < j)
    (hround : j < i + s.r.capacity.toNat * channelsOf s) :
    sampleCell base s i ≠ sampleCell base s j := by
  rw [sampleCell_eq h, sampleCell_eq h]
  exact mod_ne (by omega) (by omega)

/-- A copy that starts at the cursor of frame `k` goes through the cells of the samples from
there on. -/
theorem copyCell_sample (h : Fifo base w r s) {k : Nat} {start frames : UInt32}
    (hstart : start = base + UInt32.ofNat k) (hfit : frames.toNat ≤ s.r.capacity.toNat) {i : Nat}
    (hi : i < frames.toNat * channelsOf s) :
    copyCell s.r.capacity (channelsOf s) start frames i =
      sampleCell base s (k * channelsOf s + i) := by
  rw [copyCell_eq h.ring h.channels hfit hi, hstart, cellOf_add h.ring h.channels, sampleCell_eq h]

/-- The frames that the producer may copy: there is room for them behind the accepted ones. -/
theorem room_samples {frames : UInt32} (hroom : w + frames.toNat ≤ r + s.r.capacity.toNat) :
    w * channelsOf s + frames.toNat * channelsOf s ≤
      r * channelsOf s + s.r.capacity.toNat * channelsOf s := by
  rw [← Nat.add_mul, ← Nat.add_mul]
  exact Nat.mul_le_mul_right _ hroom

/-- The cells that the producer copies to hold no frame that is still to be delivered. -/
theorem producer_cell_free (h : Fifo base w r s) {frames : UInt32}
    (hroom : w + frames.toNat ≤ r + s.r.capacity.toNat) {i j : Nat}
    (hi : i < frames.toNat * channelsOf s) (hj : r * channelsOf s ≤ j) (hj' : j < w * channelsOf s) :
    sampleCell base s j ≠ sampleCell base s (w * channelsOf s + i) := by
  have hrs := room_samples hroom
  exact sampleCell_ne h (by omega) (by omega)

/-- The distance of the cursors is the number of frames in the ring. -/
theorem toNat_level (h : Fifo base w r s) : (s.r.writeCursor - s.r.readCursor).toNat = w - r := by
  rw [h.write, h.read]
  apply toNat_distance base h.le
  have := h.level
  have := s.r.capacity.toNat_lt
  omega

end Cells

/-! ## The producer -/

section Steps

variable {base : UInt32} {w r : Nat} {s : Spsc}

/-- Moving on without touching the reservoir. -/
theorem fifo_producer (h : Fifo base w r s) (p : Producer)
    (hp : producerHolds base w r { s with producer := p }) :
    Fifo base w r { s with producer := p } :=
  { h with producer := hp }

theorem fifo_consumer (h : Fifo base w r s) (c : Consumer)
    (hc : consumerHolds w r { s with consumer := c }) :
    Fifo base w r { s with consumer := c } :=
  { h with consumer := hc }

theorem pullTake_le (r : Reservoir) (finished : Bool) (available n : UInt32) :
    (pullTake r finished available n).toNat ≤ available.toNat := by
  unfold pullTake
  split
  · split
    · exact Nat.le_refl _
    · rename_i hge
      exact UInt32.le_iff_toNat_le.mp (UInt32.not_lt.mp hge)
  · exact Nat.zero_le _

/-- What a pull has copied so far was accepted. -/
theorem loaded_in {finished : Bool} {available n : UInt32} {loaded : List Int32}
    (haccepted : s.accepted.length = w * channelsOf s) (havail : r + available.toNat ≤ w)
    (hloaded : loaded.length ≤ (pullTake s.r finished available n).toNat * channelsOf s) :
    r * channelsOf s + loaded.length ≤ s.accepted.length := by
  have htake := pullTake_le s.r finished available n
  have hmul : (r + (pullTake s.r finished available n).toNat) * channelsOf s ≤
      w * channelsOf s := Nat.mul_le_mul_right _ (by omega)
  rw [Nat.add_mul] at hmul
  omega

/-- What a write accepts fits between the cursors that it has loaded. -/
theorem writeFrames_room (h : Fifo base w r s) (frames : UInt32) :
    (writeFrames s.r frames s.r.writeCursor s.r.readCursor).toNat ≤ frames.toNat ∧
      w + (writeFrames s.r frames s.r.writeCursor s.r.readCursor).toNat ≤
        r + s.r.capacity.toNat := by
  have hlevel := toNat_level h
  have hle := h.le
  have hroom := h.level
  have havail : (s.r.capacity - (s.r.writeCursor - s.r.readCursor)).toNat =
      s.r.capacity.toNat - (w - r) := by
    rw [UInt32.toNat_sub_of_le _ _ (UInt32.le_iff_toNat_le.mpr (by omega)), hlevel]
  unfold writeFrames
  simp only
  split
  · rename_i hgt
    have := UInt32.lt_iff_toNat_lt.mp hgt
    omega
  · rename_i hle'
    have := UInt32.le_iff_toNat_le.mp (UInt32.not_lt.mp hle')
    omega

/-- Copying one sample in: it goes to a cell that holds nothing. -/
theorem fifo_store (h : Fifo base w r s) {src : List Int32} {write frames : UInt32} {copied : Nat}
    (hp : s.producer = .copying src write frames copied)
    (hmore : copied < frames.toNat * channelsOf s) : Fifo base w r (producerStep s) := by
  have hholds := h.producer
  unfold producerHolds at hholds
  rw [hp] at hholds
  obtain ⟨hsrc, hwrite, hroom, hcopied, hdone⟩ := hholds
  have hfit : frames.toNat ≤ s.r.capacity.toNat := by have := h.le; omega
  have hcell := copyCell_sample h (hwrite.trans h.write) hfit hmore
  have hrw : r * channelsOf s ≤ w * channelsOf s := Nat.mul_le_mul_right _ h.le
  have hlt := sampleCell_lt h (w * channelsOf s + copied)
  have hrs := room_samples hroom
  have heq : producerStep s = { s with
      r := { s.r with
        storage := s.r.storage.set (sampleCell base s (w * channelsOf s + copied))
          (src.getD copied 0) }
      producer := .copying src write frames (copied + 1) } := by
    rw [producerStep_store hp hmore, hcell]
  rw [heq]
  refine { h with
    size := by simpa only [channelsOf, List.length_set] using h.size
    data := fun j hj hj' => ?_
    producer := ⟨hsrc, hwrite, hroom, hmore, fun j hj => ?_⟩ }
  · show (s.r.storage.set _ _)[sampleCell base s j]? = _
    rw [List.getElem?_set_ne (producer_cell_free h hroom hmore hj hj').symm]
    exact h.data j hj hj'
  · show (s.r.storage.set _ _)[sampleCell base s (w * channelsOf s + j)]? = _
    rcases Nat.lt_or_eq_of_le (Nat.le_of_lt_succ hj) with hlt' | rfl
    · rw [List.getElem?_set_ne (sampleCell_ne h (by omega) (by omega)).symm]
      exact hdone j hlt'
    · have hsome : j < src.length := by omega
      rw [List.getElem?_set_self hlt, List.getD_eq_getElem?_getD, List.getElem?_eq_getElem hsome,
        Option.getD_some]

/-- Publishing the copied frames: they are the next frames of the ring. -/
theorem fifo_publish (h : Fifo base w r s) {src : List Int32} {write frames : UInt32} {copied : Nat}
    (hp : s.producer = .copying src write frames copied)
    (hdone : ¬ copied < frames.toNat * channelsOf s) :
    Fifo base (w + frames.toNat) r (producerStep s) := by
  have hholds := h.producer
  unfold producerHolds at hholds
  rw [hp] at hholds
  obtain ⟨hsrc, hwrite, hroom, hcopied, hcells⟩ := hholds
  obtain rfl : copied = frames.toNat * channelsOf s := by omega
  have hle := h.le
  have hlen := h.accepted
  have hrw : r * channelsOf s ≤ w * channelsOf s := Nat.mul_le_mul_right _ hle
  have hmul : (w + frames.toNat) * channelsOf s = w * channelsOf s + frames.toNat * channelsOf s :=
    Nat.add_mul ..
  rw [producerStep_publish hp hdone]
  refine {
    ring := h.ring
    channels := h.channels
    size := h.size
    accepted := ?_
    write := ?_
    read := h.read
    le := by omega
    level := hroom
    order := ?_
    data := fun j hj hj' => ?_
    framesRead := h.framesRead
    producer := trivial
    consumer := ?_ }
  · show (s.accepted ++ src.take (frames.toNat * channelsOf s)).length = (w + frames.toNat) * channelsOf s
    rw [List.length_append, List.length_take, hlen, hmul]
    omega
  · show write + frames = _
    rw [hwrite, h.write, ofNat_add_toNat]
  · show s.delivered = (s.accepted ++ _).take (r * channelsOf s)
    rw [List.take_append_of_le_length (by omega), h.order]
  · show s.r.storage[sampleCell base s j]? = (s.accepted ++ src.take (frames.toNat * channelsOf s))[j]?
    have hj' : j < (w + frames.toNat) * channelsOf s := hj'
    have hj : r * channelsOf s ≤ j := hj
    rcases Nat.lt_or_ge j (w * channelsOf s) with hold | hnew
    · rw [List.getElem?_append_left (by omega)]
      exact h.data j hj hold
    · have hcell := hcells (j - w * channelsOf s) (by omega)
      rw [Nat.add_sub_cancel' hnew] at hcell
      rw [List.getElem?_append_right (by omega), hlen, List.getElem?_take_of_lt (by omega)]
      exact hcell
  · have hholds := h.consumer
    unfold consumerHolds at hholds ⊢
    rcases hc : s.consumer with _ | n | ⟨n, fin⟩ | ⟨n, fin, read⟩ | ⟨n, fin, read, available, loaded⟩
    · trivial
    · trivial
    · trivial
    · rw [hc] at hholds
      exact hholds
    · rw [hc] at hholds
      obtain ⟨hread, havail, hloaded, hpre⟩ := hholds
      have hin := loaded_in hlen havail hloaded
      refine ⟨hread, by omega, hloaded, ?_⟩
      show loaded = ((s.accepted ++ _).drop (r * channelsOf s)).take loaded.length
      rw [List.drop_append_of_le_length (by omega), List.take_append_of_le_length
        (by rw [List.length_drop]; omega)]
      exact hpre

/-- One step of the producer. -/
theorem fifo_producerStep (h : Fifo base w r s) :
    Fifo base w r (producerStep s) ∨ ∃ n, Fifo base (w + n) r (producerStep s) := by
  have hholds := h.producer
  unfold producerHolds at hholds
  rcases hp : s.producer with _ | ⟨src, frames⟩ | ⟨src, frames⟩ | ⟨src, frames, write⟩ |
    ⟨src, write, frames, copied⟩
  · left
    rwa [producerStep_idle hp]
  · left
    rw [hp] at hholds
    rw [producerStep_called hp]
    apply fifo_producer h _
    rcases s.r.finished
    · exact hholds
    · trivial
  · left
    rw [hp] at hholds
    rw [producerStep_opened hp]
    exact fifo_producer h _ ⟨hholds, rfl⟩
  · left
    rw [hp] at hholds
    obtain ⟨hsrc, rfl⟩ := hholds
    obtain ⟨hle, hroom⟩ := writeFrames_room h frames
    rw [producerStep_placed hp]
    refine fifo_producer h _ ⟨?_, rfl, hroom, Nat.zero_le _, nofun⟩
    exact Nat.le_trans (Nat.mul_le_mul_right _ hle) hsrc
  · by_cases hmore : copied < frames.toNat * channelsOf s
    · exact .inl (fifo_store h hp hmore)
    · exact .inr ⟨_, fifo_publish h hp hmore⟩

/-! ## The consumer -/

/-- What the end of a pull leaves of the reservoir. Without frames to take the cursor stays. -/
theorem pullRest_shared (res : Reservoir) (finished : Bool) (available n : UInt32)
    (loaded : List Int32) :
    let res' := (pullRest res finished res.readCursor available n loaded).reservoir
    res'.storage = res.storage ∧ res'.capacity = res.capacity ∧ res'.format = res.format ∧
      res'.writeCursor = res.writeCursor ∧ res'.finished = res.finished ∧
      res'.readCursor = res.readCursor + pullTake res finished available n ∧
      res'.framesRead = res.framesRead + (pullTake res finished available n).toUInt64 := by
  unfold pullRest
  simp only
  rcases finished
  · by_cases hstream : pullState res available n = .streaming
    · simp only [Bool.false_eq_true, if_false, hstream, if_true]
      split <;> simp
    · have hzero : pullTake res false available n = 0 := by
        unfold pullTake
        rw [if_neg (by simp [hstream])]
      simp [hstream, hzero]
  · simp

/-- A block starts with the frames that were copied out of the ring. -/
theorem pullRest_block (res : Reservoir) (finished : Bool) (read available n : UInt32)
    {loaded : List Int32}
    (h : loaded.length = (pullTake res finished available n).toNat * res.format.numChannels) :
    (pullRest res finished read available n loaded).block.take
      ((pullTake res finished available n).toNat * res.format.numChannels) = loaded := by
  have hpad : ∀ pad : List Int32, (loaded ++ pad).take loaded.length = loaded := fun pad => by
    rw [List.take_append_of_le_length (Nat.le_refl _), List.take_length]
  rw [← h]
  unfold pullRest
  simp only
  rcases finished
  · by_cases hstream : pullState res available n = .streaming
    · simp only [Bool.false_eq_true, if_false, hstream, if_true]
      split
      · exact hpad _
      · exact List.take_length
    · have hzero : pullTake res false available n = 0 := by
        unfold pullTake
        rw [if_neg (by simp [hstream])]
      rw [hzero] at h
      obtain rfl : loaded = [] := List.length_eq_zero_iff.mp (by simpa using h)
      rfl
  · simp only [if_true]
    exact hpad _

/-- Copying one sample out: it is the next accepted one. -/
theorem fifo_load (h : Fifo base w r s) {n read available : UInt32} {finished : Bool}
    {loaded : List Int32} (hc : s.consumer = .copying n finished read available loaded)
    (hmore : loaded.length < (pullTake s.r finished available n).toNat * channelsOf s) :
    Fifo base w r (consumerStep s) := by
  have hholds := h.consumer
  unfold consumerHolds at hholds
  rw [hc] at hholds
  obtain ⟨hread, havail, hloaded, hpre⟩ := hholds
  have htake := pullTake_le s.r finished available n
  have hle := h.le
  have hlevel := h.level
  have hcell := copyCell_sample h (hread.trans h.read) (by omega) hmore
  have hmul : (r + (pullTake s.r finished available n).toNat) * channelsOf s ≤
      w * channelsOf s := Nat.mul_le_mul_right _ (by omega)
  rw [Nat.add_mul] at hmul
  have hsample : s.accepted[r * channelsOf s + loaded.length]? =
      some (s.r.storage.getD (sampleCell base s (r * channelsOf s + loaded.length)) 0) := by
    rw [List.getD_eq_getElem?_getD, h.data _ (by omega) (by omega),
      List.getElem?_eq_getElem (by rw [h.accepted]; omega), Option.getD_some]
  have heq : consumerStep s = { s with
      consumer := .copying n finished read available (loaded ++
        [s.r.storage.getD (sampleCell base s (r * channelsOf s + loaded.length)) 0]) } := by
    rw [consumerStep_load hc hmore, hcell]
  rw [heq]
  refine fifo_consumer h _ ⟨hread, havail, ?_, ?_⟩
  · rw [List.length_append]
    exact hmore
  · show loaded ++ [_] = (s.accepted.drop (r * channelsOf s)).take (loaded ++ [_]).length
    rw [List.length_append, List.length_singleton, List.take_add_one, ← hpre, List.getElem?_drop,
      hsample]
    rfl

/-- A pull that has copied all its frames. -/
theorem copied_all (h : Fifo base w r s) {n read available : UInt32} {finished : Bool}
    {loaded : List Int32} (hc : s.consumer = .copying n finished read available loaded)
    (hdone : ¬ loaded.length < (pullTake s.r finished available n).toNat * channelsOf s) :
    read = s.r.readCursor ∧ r + available.toNat ≤ w ∧
      loaded.length = (pullTake s.r finished available n).toNat * channelsOf s ∧
      loaded = (s.accepted.drop (r * channelsOf s)).take loaded.length := by
  have hholds := h.consumer
  unfold consumerHolds at hholds
  rw [hc] at hholds
  obtain ⟨hread, havail, hloaded, hpre⟩ := hholds
  exact ⟨hread, havail, by omega, hpre⟩

/-- The end of a pull, with the frames of the block for what it delivers. -/
theorem release_eq (h : Fifo base w r s) {n read available : UInt32} {finished : Bool}
    {loaded : List Int32} (hc : s.consumer = .copying n finished read available loaded)
    (hdone : ¬ loaded.length < (pullTake s.r finished available n).toNat * channelsOf s) :
    consumerStep s = { s with
      r := (pullRest s.r finished s.r.readCursor available n loaded).reservoir
      consumer := .idle
      delivered := s.delivered ++ loaded
      pulls := s.pulls ++ [⟨n, finished, available,
        pullRest s.r finished s.r.readCursor available n loaded, s.accepted,
        s.delivered ++ loaded⟩] } := by
  obtain ⟨rfl, _, hlen, _⟩ := copied_all h hc hdone
  rw [consumerStep_release hc hdone]
  simp only [channelsOf, pullRest_block s.r finished s.r.readCursor available n hlen]

/-- Releasing the frames that were copied out: they are the next delivered ones. -/
theorem fifo_release (h : Fifo base w r s) {n read available : UInt32} {finished : Bool}
    {loaded : List Int32} (hc : s.consumer = .copying n finished read available loaded)
    (hdone : ¬ loaded.length < (pullTake s.r finished available n).toNat * channelsOf s) :
    Fifo base w (r + (pullTake s.r finished available n).toNat) (consumerStep s) := by
  obtain ⟨rfl, havail, hlen, hpre⟩ := copied_all h hc hdone
  have htake := pullTake_le s.r finished available n
  have hle := h.le
  have hlevel := h.level
  obtain ⟨hstorage, hcapacity, hformat, hwrite, hfin, hread, hframes⟩ :=
    pullRest_shared s.r finished available n loaded
  rw [release_eq h hc hdone]
  generalize s.pulls ++ _ = pulls
  generalize (pullRest s.r finished s.r.readCursor available n loaded).reservoir = res at *
  generalize pullTake s.r finished available n = take at *
  have hchannels : res.format.numChannels = channelsOf s := by rw [hformat]; rfl
  have hmul : (r + take.toNat) * channelsOf s = r * channelsOf s + take.toNat * channelsOf s :=
    Nat.add_mul ..
  refine {
    ring := by simpa only [hcapacity] using h.ring
    channels := by simpa only [channelsOf, hformat] using h.channels
    size := by simpa only [channelsOf, hformat, hcapacity, hstorage] using h.size
    accepted := by simpa only [channelsOf, hformat] using h.accepted
    write := by simpa only [hwrite] using h.write
    read := by rw [hread, h.read, ofNat_add_toNat]
    le := by omega
    level := by simp only [hcapacity]; omega
    order := ?_
    data := fun j hj hj' => ?_
    framesRead := ?_
    producer := ?_
    consumer := trivial }
  · show s.delivered ++ loaded = s.accepted.take ((r + take.toNat) * res.format.numChannels)
    rw [hchannels, hmul, List.take_add, h.order, ← hlen, ← hpre]
  · have hj : (r + take.toNat) * channelsOf s ≤ j := by rw [← hchannels]; exact hj
    have hj' : j < w * channelsOf s := by rw [← hchannels]; exact hj'
    show res.storage[cellOf res.capacity res.format.numChannels base j]? = _
    rw [hstorage, hcapacity, hchannels]
    exact h.data j (by omega) hj'
  · rw [hframes, h.framesRead, UInt64.ofNat_add, UInt64.ofNat_uInt32ToNat]
  · have hholds := h.producer
    unfold producerHolds at hholds ⊢
    rcases hp : s.producer with _ | ⟨src, frames⟩ | ⟨src, frames⟩ | ⟨src, frames, write⟩ |
      ⟨src, write, frames, copied⟩
    all_goals rw [hp] at hholds
    all_goals simp only [channelsOf, hformat, hwrite, hcapacity, hstorage, sampleCell] at hholds ⊢
    · exact hholds
    · exact hholds
    · exact hholds
    · obtain ⟨hsrc, hw, hroom, hcopied, hcells⟩ := hholds
      exact ⟨hsrc, hw, by omega, hcopied, hcells⟩

/-- One step of the consumer. -/
theorem fifo_consumerStep (h : Fifo base w r s) :
    Fifo base w r (consumerStep s) ∨ ∃ n, Fifo base w (r + n) (consumerStep s) := by
  rcases hc : s.consumer with _ | n | ⟨n, fin⟩ | ⟨n, fin, read⟩ | ⟨n, fin, read, available, loaded⟩
  · left
    rwa [consumerStep_idle hc]
  · left
    rw [consumerStep_called hc]
    exact fifo_consumer h _ trivial
  · left
    rw [consumerStep_sawFinished hc]
    exact fifo_consumer h _ rfl
  · left
    have hread : read = s.r.readCursor := by
      have hholds := h.consumer
      unfold consumerHolds at hholds
      rwa [hc] at hholds
    subst hread
    rw [consumerStep_sawRead hc]
    have hlevel := toNat_level h
    have hle := h.le
    exact fifo_consumer h _ ⟨rfl, by omega, Nat.zero_le _, rfl⟩
  · by_cases hmore : loaded.length < (pullTake s.r fin available n).toNat * channelsOf s
    · exact .inl (fifo_load h hc hmore)
    · exact .inr ⟨_, fifo_release h hc hmore⟩

end Steps

/-! ## Runs -/

/-- Every action keeps the invariant, with the frames counted on. -/
theorem fifo_step {base : UInt32} {w r : Nat} {s : Spsc} (h : Fifo base w r s) (action : Action) :
    ∃ w' r', Fifo base w' r' (spscStep s action) := by
  cases action with
  | write src frames =>
    simp only [spscStep]
    split
    · rename_i hcall
      exact ⟨w, r, fifo_producer h _ hcall.2⟩
    · exact ⟨w, r, h⟩
  | finish =>
    simp only [spscStep]
    split
    · rename_i hidle
      refine ⟨w, r, { h with producer := ?_ }⟩
      show producerHolds base w r { s with r := reservoirFinish s.r }
      unfold producerHolds
      simp only [hidle]
    · exact ⟨w, r, h⟩
  | pull buf =>
    simp only [spscStep]
    split
    · exact ⟨w, r, fifo_consumer h _ trivial⟩
    · exact ⟨w, r, h⟩
  | producer =>
    rcases fifo_producerStep h with hstep | ⟨n, hstep⟩
    · exact ⟨w, r, hstep⟩
    · exact ⟨w + n, r, hstep⟩
  | consumer =>
    rcases fifo_consumerStep h with hstep | ⟨n, hstep⟩
    · exact ⟨w, r, hstep⟩
    · exact ⟨w, r + n, hstep⟩

theorem fifo_run {base : UInt32} {w r : Nat} {s : Spsc} (h : Fifo base w r s)
    (actions : List Action) : ∃ w' r', Fifo base w' r' (spscRun s actions) := by
  induction actions generalizing w r s with
  | nil => exact ⟨w, r, h⟩
  | cons action actions ih =>
    obtain ⟨w', r', hstep⟩ := fifo_step h action
    exact ih hstep

/-- What `eaf_reservoir_init` makes sure of. -/
theorem reservoirInit_ok {sizeMax : Nat} {storage : List Int32} {capacity : UInt32} {fmt : Format}
    {highWatermark : UInt32} {res : Reservoir}
    (h : reservoirInit sizeMax storage capacity fmt highWatermark = .ok res) :
    PowerOfTwo capacity ∧ 0 < fmt.numChannels ∧ res.storage = storage ∧ res.capacity = capacity ∧
      res.format = fmt ∧ res.framesRead = 0 ∧ res.underruns = 0 ∧ res.state = .prebuffering := by
  unfold reservoirInit at h
  split at h
  · cases h
  · rename_i hvalid
    simp only [not_or, Bool.not_eq_false, not_not, UInt32.not_lt] at hvalid
    obtain ⟨hfmt, htwo, hmax, hpower, _⟩ := hvalid
    cases h
    refine ⟨?_, (formatValid_channels hfmt).1, rfl, rfl, rfl, rfl, rfl, rfl⟩
    have hpos : 2 ≤ capacity.toNat := UInt32.le_iff_toNat_le.mp htwo
    have hone : (1 : UInt32) ≤ capacity := UInt32.le_iff_toNat_le.mpr (Nat.le_of_succ_le hpos)
    have hand : capacity.toNat &&& (capacity.toNat - 1) = 0 := by
      have := congrArg UInt32.toNat hpower
      rwa [UInt32.toNat_and, UInt32.toNat_sub_of_le _ _ hone] at this
    obtain ⟨e, he⟩ := (Nat.and_sub_one_eq_zero_iff_isPowerOfTwo (by omega)).mp hand
    refine ⟨e, ?_, he⟩
    have hlt : 2 ^ e < 2 ^ 32 := he ▸ capacity.toNat_lt
    exact (Nat.pow_lt_pow_iff_right (by decide)).mp hlt

theorem fifo_start {sizeMax : Nat} {storage : List Int32} {capacity : UInt32} {fmt : Format}
    {highWatermark : UInt32} {res : Reservoir}
    (h : reservoirInit sizeMax storage capacity fmt highWatermark = .ok res)
    (hstorage : capacity.toNat * fmt.numChannels ≤ storage.length) (base : UInt32) :
    Fifo base 0 0 (spscStart res base) := by
  obtain ⟨hring, hchannels, rfl, rfl, rfl, hframes, -⟩ := reservoirInit_ok h
  refine {
    ring := hring
    channels := hchannels
    size := hstorage
    accepted := by simp [spscStart]
    write := by simp [spscStart]
    read := by simp [spscStart]
    le := Nat.le_refl _
    level := Nat.zero_le _
    order := by simp [spscStart]
    data := fun j _ hj => by simp at hj
    framesRead := hframes
    producer := trivial
    consumer := trivial }

/-! ## Safety -/

/-- The cells of the frames that are published and not yet released. -/
def HeldCell (s : Spsc) (cell : Nat) : Prop :=
  ∃ i < (s.r.writeCursor - s.r.readCursor).toNat * channelsOf s,
    cell = cellOf s.r.capacity (channelsOf s) s.r.readCursor i

/-- What both sides rely on. -/
structure SpscSafe (s : Spsc) : Prop where
  whole : channelsOf s ∣ s.accepted.length ∧ channelsOf s ∣ s.delivered.length
  order : s.delivered <+: s.accepted
  /-- What is accepted and not delivered is in the ring. -/
  kept : ∀ i < (s.r.writeCursor - s.r.readCursor).toNat * channelsOf s,
    s.r.storage[cellOf s.r.capacity (channelsOf s) s.r.readCursor i]? =
      s.accepted[s.delivered.length + i]?
  level : s.r.writeCursor - s.r.readCursor ≤ s.r.capacity ∧
    reservoirLevel s.r = s.r.writeCursor - s.r.readCursor ∧
    s.accepted.length = s.delivered.length + (reservoirLevel s.r).toNat * channelsOf s
  /-- A sample is stored only to a cell that the consumer has released. -/
  store : ∀ src write frames copied, s.producer = .copying src write frames copied →
    copied < frames.toNat * channelsOf s →
    ¬ HeldCell s (copyCell s.r.capacity (channelsOf s) write frames copied)
  /-- A sample is loaded only from a cell that the producer has published. -/
  load : ∀ n finished read available loaded,
    s.consumer = .copying n finished read available loaded →
    loaded.length < (pullTake s.r finished available n).toNat * channelsOf s →
    HeldCell s (copyCell s.r.capacity (channelsOf s) read (pullTake s.r finished available n)
      loaded.length)
  framesRead : s.r.framesRead = UInt64.ofNat (s.delivered.length / channelsOf s)

theorem spscSafe_of_fifo {base : UInt32} {w r : Nat} {s : Spsc} (h : Fifo base w r s) :
    SpscSafe s := by
  have hlevel := toNat_level h
  have hle := h.le
  have hbound := h.level
  have hrw : r * channelsOf s ≤ w * channelsOf s := Nat.mul_le_mul_right _ hle
  have hdelivered : s.delivered.length = r * channelsOf s := by
    rw [h.order, List.length_take, h.accepted, Nat.min_eq_left hrw]
  have hsub : (w - r) * channelsOf s = w * channelsOf s - r * channelsOf s := Nat.sub_mul ..
  have hcell : ∀ i, cellOf s.r.capacity (channelsOf s) s.r.readCursor i =
      sampleCell base s (r * channelsOf s + i) := fun i => by
    rw [h.read, cellOf_add h.ring h.channels, sampleCell_eq h]
  have hcap : s.r.writeCursor - s.r.readCursor ≤ s.r.capacity :=
    UInt32.le_iff_toNat_le.mpr (by omega)
  have hclamp : reservoirLevel s.r = s.r.writeCursor - s.r.readCursor := by
    unfold reservoirLevel levelOf
    simp only
    rw [if_neg (UInt32.not_lt.mpr hcap)]
  refine {
    whole := ⟨⟨w, by rw [h.accepted, Nat.mul_comm]⟩, ⟨r, by rw [hdelivered, Nat.mul_comm]⟩⟩
    order := h.order ▸ List.take_prefix _ _
    kept := fun i hi => ?_
    level := ⟨hcap, hclamp, by rw [hclamp, hlevel, h.accepted, hdelivered, hsub]; omega⟩
    store := fun src write frames copied hp hmore hheld => ?_
    load := fun n finished read available loaded hc hmore => ?_
    framesRead := ?_ }
  · rw [hlevel, hsub] at hi
    rw [hcell, hdelivered]
    exact h.data _ (by omega) (by omega)
  · have hholds := h.producer
    unfold producerHolds at hholds
    rw [hp] at hholds
    obtain ⟨_, hwrite, hroom, _⟩ := hholds
    obtain ⟨i, hi, heq⟩ := hheld
    rw [hlevel, hsub] at hi
    rw [copyCell_sample h (hwrite.trans h.write) (by omega) hmore, hcell] at heq
    exact producer_cell_free h hroom hmore (by omega) (by omega) heq.symm
  · have hholds := h.consumer
    unfold consumerHolds at hholds
    rw [hc] at hholds
    obtain ⟨hread, havail, _⟩ := hholds
    have htake := pullTake_le s.r finished available n
    have hmul : (pullTake s.r finished available n).toNat * channelsOf s ≤ (w - r) * channelsOf s :=
      Nat.mul_le_mul_right _ (by omega)
    refine ⟨loaded.length, by rw [hlevel]; omega, ?_⟩
    rw [copyCell_sample h (hread.trans h.read) (by omega) hmore, hcell]
  · rw [h.framesRead, hdelivered, Nat.mul_div_cancel _ h.channels]

/-- In every interleaving, from every start of the cursors. -/
theorem spsc_safe {sizeMax : Nat} {storage : List Int32} {capacity : UInt32} {fmt : Format}
    {highWatermark : UInt32} {res : Reservoir}
    (h : reservoirInit sizeMax storage capacity fmt highWatermark = .ok res)
    (hstorage : capacity.toNat * fmt.numChannels ≤ storage.length) (base : UInt32)
    (actions : List Action) : SpscSafe (spscRun (spscStart res base) actions) := by
  obtain ⟨_, _, hf⟩ := fifo_run (fifo_start h hstorage base) actions
  exact spscSafe_of_fifo hf

/-- A ring of two frames. -/
def wrapRing : Reservoir where
  storage := [0, 0]
  capacity := 2
  highWatermark := 1
  backpressureLow := 1
  backpressureHigh := 2
  format := ⟨48000, 1, 1⟩
  readCursor := 0
  writeCursor := 0
  finished := false
  state := .prebuffering
  underruns := 0
  framesRead := 0
  last := List.replicate EAF_MAX_CHANNELS 0
  wakeProducer := false

theorem wrapRing_init : reservoirInit 0xFFFFFFFF [0, 0] 2 wrapRing.format 1 = .ok wrapRing := by
  decide +kernel

def wrapActions : List Action :=
  [.write [7, 8] 2] ++ List.replicate 6 .producer ++
    [.pull ⟨some 0, 1, 1, 1, wrapRing.format, 0⟩, .consumer, .consumer, .write [9] 1, .producer,
      .consumer, .consumer, .consumer, .producer] ++ List.replicate 3 .producer

theorem spsc_safe_wrap :
    SpscSafe (spscRun (spscStart wrapRing 0xFFFFFFFF) wrapActions) ∧
      (spscRun (spscStart wrapRing 0xFFFFFFFF) wrapActions).delivered = [7] ∧
      (spscRun (spscStart wrapRing 0xFFFFFFFF) wrapActions).accepted = [7, 8, 9] :=
  ⟨spsc_safe wrapRing_init (by decide) 0xFFFFFFFF wrapActions, by decide +kernel,
    by decide +kernel⟩

end EmbeddedAudio.Core
