-- A call that runs to its end without a step of the other side in between does
-- what the whole function does.
import EmbeddedAudio.SpscFifo

namespace EmbeddedAudio.Core

open Storage Cursor

/-! ## Copies -/

/-- The ring after `copied` samples of a copy. -/
def storedPart (storage : List Int32) (capacity start frames : UInt32) (channels : Nat)
    (src : List Int32) (copied : Nat) : List Int32 :=
  let pos := (slotOf capacity start).toNat * channels
  let first := (firstPart capacity start frames).toNat * channels
  if copied ≤ first then overwrite storage pos (src.take copied)
  else overwrite (overwrite storage pos (src.take first)) 0 (slice src first (copied - first))

theorem slot_fits {capacity : UInt32} (h : PowerOfTwo capacity) (start frames : UInt32)
    (channels : Nat) : (slotOf capacity start).toNat * channels +
      (firstPart capacity start frames).toNat * channels ≤ capacity.toNat * channels := by
  have hlt := Nat.mod_lt start.toNat h.pos
  rw [toNat_slotOf h, toNat_firstPart h, ← Nat.add_mul]
  exact Nat.mul_le_mul_right _ (by omega)

section Copies

variable {storage src : List Int32} {capacity start frames : UInt32} {channels : Nat}

theorem storedPart_zero : storedPart storage capacity start frames channels src 0 = storage := by
  simp [storedPart]

variable (start) in
theorem storedPart_succ (h : PowerOfTwo capacity) (hfit : frames.toNat ≤ capacity.toNat)
    (hsize : capacity.toNat * channels ≤ storage.length)
    (hsrc : frames.toNat * channels ≤ src.length) {copied : Nat}
    (hmore : copied < frames.toNat * channels) :
    (storedPart storage capacity start frames channels src copied).set
        (copyCell capacity channels start frames copied) (src.getD copied 0) =
      storedPart storage capacity start frames channels src (copied + 1) := by
  have hslot := slot_fits h start frames channels
  have hle : frames.toNat * channels ≤ capacity.toNat * channels := Nat.mul_le_mul_right _ hfit
  have hsome : src[copied]? = some (src.getD copied 0) := by
    rw [List.getD_eq_getElem?_getD, List.getElem?_eq_getElem (by omega), Option.getD_some]
  unfold storedPart copyCell
  simp only
  generalize (slotOf capacity start).toNat * channels = pos at *
  generalize (firstPart capacity start frames).toNat * channels = first at *
  rcases Nat.lt_or_ge copied first with hlt | hge
  · rw [if_pos (Nat.le_of_lt hlt), if_pos hlt, if_pos (Nat.succ_le_of_lt hlt), List.take_add_one,
      hsome, Option.toList_some]
    have hlen : (src.take copied).length = copied := by rw [List.length_take]; omega
    have hset := overwrite_snoc storage pos (src.take copied) (src.getD copied 0)
      (by rw [hlen]; omega)
    rwa [hlen] at hset
  · have hlen : (slice src first (copied - first)).length = copied - first :=
      length_slice (by omega)
    have hfirst : (src.take first).length = first := by rw [List.length_take]; omega
    have hring : (overwrite storage pos (src.take first)).length = storage.length :=
      length_overwrite _ _ _ (by rw [hfirst]; omega)
    have hset := overwrite_snoc (overwrite storage pos (src.take first)) 0
      (slice src first (copied - first)) (src.getD copied 0) (by rw [hlen, hring]; omega)
    have hsnoc : slice src first (copied - first) ++ [src.getD copied 0] =
        slice src first (copied + 1 - first) := by
      unfold slice
      rw [Nat.succ_sub hge, List.take_add_one, List.getElem?_drop, Nat.add_sub_cancel' hge, hsome]
      rfl
    rw [if_neg (Nat.not_lt.mpr hge), if_neg (show ¬ copied + 1 ≤ first by omega), ← hsnoc, ← hset,
      Nat.zero_add, hlen]
    congr 1
    split
    · rename_i hle'
      obtain rfl : copied = first := by omega
      simp [slice]
    · rfl

/-- The whole copy is `storage_store`. -/
theorem storedPart_all (hc : 0 < channels) :
    storedPart storage capacity start frames channels src (frames.toNat * channels) =
      storageStore storage capacity start src frames channels := by
  have hfirst := firstPart_le capacity start frames
  unfold storedPart storageStore
  simp only
  rcases Nat.lt_or_eq_of_le hfirst with hlt | heq
  · have hmul : (firstPart capacity start frames).toNat * channels < frames.toNat * channels :=
      Nat.mul_lt_mul_of_pos_right hlt hc
    rw [if_neg (by omega), if_pos (UInt32.lt_iff_toNat_lt.mpr hlt),
      UInt32.toNat_sub_of_le _ _ (UInt32.le_iff_toNat_le.mpr hfirst), Nat.sub_mul]
  · rw [heq, if_pos (Nat.le_refl _), if_neg (by rw [UInt32.lt_iff_toNat_lt]; omega)]

variable (start) in
/-- Every sample of `storage_load` comes from its cell. -/
theorem storageLoad_cells (h : PowerOfTwo capacity) (hfit : frames.toNat ≤ capacity.toNat)
    (hsize : capacity.toNat * channels ≤ storage.length) :
    storageLoad storage capacity start frames channels =
      (List.range (frames.toNat * channels)).map
        (fun i => storage.getD (copyCell capacity channels start frames i) 0) := by
  have hslot := slot_fits h start frames channels
  have hle : frames.toNat * channels ≤ capacity.toNat * channels := Nat.mul_le_mul_right _ hfit
  have hfirst := firstPart_le capacity start frames
  have hmul : (firstPart capacity start frames).toNat * channels ≤ frames.toNat * channels :=
    Nat.mul_le_mul_right _ hfirst
  have hrest : (if firstPart capacity start frames < frames then
      slice storage 0 ((frames - firstPart capacity start frames).toNat * channels) else []) =
      slice storage 0
        (frames.toNat * channels - (firstPart capacity start frames).toNat * channels) := by
    split
    · rw [UInt32.toNat_sub_of_le _ _ (UInt32.le_iff_toNat_le.mpr hfirst), Nat.sub_mul]
    · rename_i hge
      rw [UInt32.lt_iff_toNat_lt] at hge
      rw [show (firstPart capacity start frames).toNat = frames.toNat by omega, Nat.sub_self]
      rfl
  unfold storageLoad copyCell
  simp only
  rw [hrest]
  generalize (slotOf capacity start).toNat * channels = pos at *
  generalize (firstPart capacity start frames).toNat * channels = first at *
  generalize frames.toNat * channels = total at *
  rw [← slice_cells storage (by omega : pos + first ≤ storage.length),
    ← slice_cells storage (by omega : 0 + (total - first) ≤ storage.length)]
  rw [show total = first + (total - first) by omega, List.range_add, List.map_append, List.map_map]
  rw [Nat.add_sub_cancel_left]
  congr 1
  · refine List.map_congr_left fun i hi => ?_
    rw [if_pos (List.mem_range.mp hi)]
  · refine List.map_congr_left fun i _ => ?_
    simp only [Function.comp]
    rw [if_neg (by omega), Nat.add_sub_cancel_left, Nat.zero_add]

end Copies

/-! ## Whole calls -/

section Calls

variable {base : UInt32} {w r : Nat} {s : Spsc}

/-- The producer after `copied` samples of a copy. -/
def storing (s : Spsc) (src : List Int32) (write frames : UInt32) (copied : Nat) : Spsc :=
  { s with
    r := { s.r with
      storage := storedPart s.r.storage s.r.capacity write frames (channelsOf s) src copied }
    producer := .copying src write frames copied }

/-- The producer copies on, sample by sample. -/
theorem storeRun (h : Fifo base w r s) {src : List Int32} (write : UInt32) {frames : UInt32}
    (hfit : frames.toNat ≤ s.r.capacity.toNat) (hsrc : frames.toNat * channelsOf s ≤ src.length)
    (copied : Nat) (hle : copied ≤ frames.toNat * channelsOf s) :
    spscRun { s with producer := .copying src write frames 0 }
      (List.replicate copied .producer) = storing s src write frames copied := by
  induction copied with
  | zero => simp only [storing, storedPart_zero]; rfl
  | succ copied ih =>
    rw [List.replicate_succ', spscRun_append, ih (by omega)]
    have hstep : producerStep (storing s src write frames copied) = _ := producerStep_store rfl hle
    apply hstep.trans
    have hset := storedPart_succ write h.ring hfit h.size hsrc hle
    simp only [storing, channelsOf] at hset ⊢
    rw [hset]

/-- A write without interference is `eaf_reservoir_write`. -/
theorem write_uninterrupted (h : Fifo base w r s) (hidle : s.producer = .idle)
    {src : List Int32} {frames : UInt32} (hsrc : frames.toNat * channelsOf s ≤ src.length) :
    ∃ k, spscRun s (.write src frames :: List.replicate k .producer) =
      { s with
        r := (reservoirWrite s.r src frames).2
        accepted := s.accepted ++
          src.take ((reservoirWrite s.r src frames).1.toNat * channelsOf s) } := by
  have hcall : spscStep s (.write src frames) = { s with producer := .called src frames } := by
    simp only [spscStep]
    rw [if_pos ⟨hidle, hsrc⟩]
  rcases hfin : s.r.finished with _ | _
  · have hroom := writeFrames_room h frames
    have hfit : (writeFrames s.r frames s.r.writeCursor s.r.readCursor).toNat ≤
        s.r.capacity.toNat := by have := h.le; omega
    have hsrc' := Nat.le_trans (Nat.mul_le_mul_right (channelsOf s) hroom.1) hsrc
    have hwrite : reservoirWrite s.r src frames =
        (writeFrames s.r frames s.r.writeCursor s.r.readCursor, { s.r with
          storage := storageStore s.r.storage s.r.capacity s.r.writeCursor src
            (writeFrames s.r frames s.r.writeCursor s.r.readCursor) s.r.format.numChannels
          writeCursor := s.r.writeCursor +
            writeFrames s.r frames s.r.writeCursor s.r.readCursor }) := by
      unfold reservoirWrite
      rw [if_neg (by rw [hfin]; exact Bool.false_ne_true)]
    have hload : spscRun s (.write src frames :: List.replicate 3 .producer) =
        { s with
          producer := .copying src s.r.writeCursor
            (writeFrames s.r frames s.r.writeCursor s.r.readCursor) 0 } := by
      rw [spscRun_cons, hcall]
      show producerStep (producerStep (producerStep _)) = _
      simp [producerStep, hfin]
    rw [hwrite]
    generalize writeFrames s.r frames s.r.writeCursor s.r.readCursor = taken at *
    refine ⟨3 + taken.toNat * channelsOf s + 1, ?_⟩
    have hstore := storeRun h s.r.writeCursor hfit hsrc' _ (Nat.le_refl _)
    rw [List.replicate_add, List.replicate_add, ← List.cons_append, ← List.cons_append,
      spscRun_append, spscRun_append, hload, hstore]
    have hstep : producerStep (storing s src s.r.writeCursor taken (taken.toNat * channelsOf s)) =
        _ := producerStep_publish rfl (Nat.lt_irrefl (taken.toNat * channelsOf s))
    apply hstep.trans
    have hall : storedPart s.r.storage s.r.capacity s.r.writeCursor taken (channelsOf s) src
        (taken.toNat * channelsOf s) = _ := storedPart_all h.channels
    simp only [storing, channelsOf, hidle] at hall ⊢
    rw [hall]
  · refine ⟨1, ?_⟩
    have hwrite : reservoirWrite s.r src frames = (0, s.r) := by
      unfold reservoirWrite
      rw [if_pos hfin]
    have hstep : producerStep { s with producer := .called src frames } = _ :=
      producerStep_called rfl
    rw [hwrite, spscRun_cons, hcall]
    apply hstep.trans
    simp [hfin, hidle]

/-- The consumer copies on, sample by sample. -/
theorem loadRun {n read available : UInt32} {finished : Bool} (loaded : Nat)
    (hle : loaded ≤ (pullTake s.r finished available n).toNat * channelsOf s) :
    spscRun { s with consumer := .copying n finished read available [] }
        (List.replicate loaded .consumer) =
      { s with
        consumer := .copying n finished read available ((List.range loaded).map
          (fun i => s.r.storage.getD (copyCell s.r.capacity (channelsOf s) read
            (pullTake s.r finished available n) i) 0)) } := by
  induction loaded with
  | zero => rfl
  | succ loaded ih =>
    rw [List.replicate_succ', spscRun_append, ih (by omega)]
    have hlen : ((List.range loaded).map (fun i => s.r.storage.getD (copyCell s.r.capacity
        (channelsOf s) read (pullTake s.r finished available n) i) 0)).length = loaded := by
      rw [List.length_map, List.length_range]
    generalize hsome : (List.range loaded).map _ = some at hlen ⊢
    have hstep : consumerStep { s with consumer := .copying n finished read available some } = _ :=
      consumerStep_load rfl (by rw [hlen]; exact hle)
    apply hstep.trans
    rw [List.range_succ, List.map_append, hsome, hlen]
    rfl

/-- A pull without interference is `eaf_reservoir_pull`. -/
theorem pull_uninterrupted (h : Fifo base w r s) (hidle : s.consumer = .idle) {buf : Buffer}
    (hvalid : pullValid s.r buf = true) :
    ∃ k take, spscRun s (.pull buf :: List.replicate k .consumer) =
      { s with
        r := (reservoirPull s.r buf).2.2.reservoir
        delivered := s.delivered ++
          (reservoirPull s.r buf).2.2.block.take (take * channelsOf s)
        pulls := s.pulls ++ [⟨buf.frameCount, s.r.finished, s.r.writeCursor - s.r.readCursor,
          (reservoirPull s.r buf).2.2, s.accepted,
          s.delivered ++ (reservoirPull s.r buf).2.2.block.take (take * channelsOf s)⟩] } := by
  have hcall : spscStep s (.pull buf) = { s with consumer := .called buf.frameCount } := by
    simp only [spscStep]
    rw [if_pos ⟨hidle, hvalid⟩]
  have hcursors : spscRun s (.pull buf :: List.replicate 3 .consumer) =
      { s with
        consumer := .copying buf.frameCount s.r.finished s.r.readCursor
          (s.r.writeCursor - s.r.readCursor) [] } := by
    rw [spscRun_cons, hcall]
    rfl
  have hfit : (pullTake s.r s.r.finished (s.r.writeCursor - s.r.readCursor)
      buf.frameCount).toNat ≤ s.r.capacity.toNat := by
    have htake := pullTake_le s.r s.r.finished (s.r.writeCursor - s.r.readCursor) buf.frameCount
    have hlevel := toNat_level h
    have hbound := h.level
    omega
  have hpull : (reservoirPull s.r buf).2.2 = pullRest s.r s.r.finished s.r.readCursor
      (s.r.writeCursor - s.r.readCursor) buf.frameCount
      (storageLoad s.r.storage s.r.capacity s.r.readCursor (pullTake s.r s.r.finished
        (s.r.writeCursor - s.r.readCursor) buf.frameCount) (channelsOf s)) := by
    unfold reservoirPull
    rw [if_neg (by rw [hvalid]; exact Bool.noConfusion)]
    rfl
  have hloaded := storageLoad_cells s.r.readCursor h.ring hfit h.size
  rw [hpull, hloaded]
  generalize hsome : (List.range ((pullTake s.r s.r.finished (s.r.writeCursor - s.r.readCursor)
    buf.frameCount).toNat * channelsOf s)).map _ = some
  have hlen : some.length = (pullTake s.r s.r.finished (s.r.writeCursor - s.r.readCursor)
      buf.frameCount).toNat * channelsOf s := by
    rw [← hsome, List.length_map, List.length_range]
  refine ⟨3 + some.length + 1, (pullTake s.r s.r.finished (s.r.writeCursor - s.r.readCursor)
    buf.frameCount).toNat, ?_⟩
  rw [List.replicate_add, List.replicate_add, ← List.cons_append, ← List.cons_append,
    spscRun_append, spscRun_append, hcursors, hlen, loadRun _ (Nat.le_refl _), hsome]
  have hstep : consumerStep { s with
      consumer := .copying buf.frameCount s.r.finished s.r.readCursor
        (s.r.writeCursor - s.r.readCursor) some } = _ :=
    consumerStep_release rfl (by rw [hlen]; exact Nat.lt_irrefl _)
  apply hstep.trans
  rw [hidle]
  rfl

end Calls

end EmbeddedAudio.Core
