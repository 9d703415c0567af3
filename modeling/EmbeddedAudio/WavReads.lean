-- The laws of the reads of the WAV reader (dec_wav.c): the walk over the chunks
-- ends and stays inside the file, and the source stays inside the data chunk.
import EmbeddedAudio.WavFile
import Mathlib.Data.Nat.Bitwise

namespace EmbeddedAudio.WavFile

open Q31 Storage

/-! ## The walk -/

/-- The read asks for bytes that the file has, and the buffer has room for them. -/
def Inside (reader : Reader) (read : ReadAt) : Prop :=
  read.offset.toNat + read.length ≤ reader.size.toNat ∧ read.length ≤ read.room

/-- A chunk with audio: a header with its name and length was read right before it. -/
def DataChunk (reader : Reader) (reads : List ReadAt) (start length : Nat) : Prop :=
  ∃ before after offset header, reads = before ++ ⟨offset, 8, 16⟩ :: after ∧
    offset.toNat + 8 = start ∧ reader.readAt before offset 8 = (EAF_OK, header) ∧
    header.take 4 = ascii "data" ∧ (u32 header 4).toNat = length

/-- A format that the walk accepted. -/
structure FmtFound (c : Chunks) : Prop where
  channels : c.format.numChannels = 1 ∨ c.format.numChannels = 2
  bits : c.bits = 16 ∨ c.bits = 24 ∨ c.bits = 32
  align : c.align.toNat = c.format.numChannels * (c.bits.toNat / 8)

/-- What holds before each turn of the walk. -/
structure Walking (reader : Reader) (stop offset : UInt64) (c : Chunks) (reads : List ReadAt) :
    Prop where
  offset_le : offset ≤ stop
  stop_le : stop ≤ reader.size
  inside : ∀ read ∈ reads, Inside reader read
  fmt : c.haveFmt = true → FmtFound c
  data : c.haveData = true →
    DataChunk reader reads c.dataOffset.toNat c.dataSize.toNat ∧
      c.dataOffset.toNat + c.dataSize.toNat ≤ reader.size.toNat

theorem DataChunk.later {reader : Reader} {reads : List ReadAt} {start length : Nat}
    (h : DataChunk reader reads start length) (more : List ReadAt) :
    DataChunk reader (reads ++ more) start length := by
  obtain ⟨before, after, offset, header, hreads, hrest⟩ := h
  refine ⟨before, after ++ more, offset, header, ?_, hrest⟩
  rw [hreads, List.append_assoc, List.cons_append]

theorem inside_snoc {reader : Reader} {reads : List ReadAt} {read : ReadAt}
    (h : ∀ read ∈ reads, Inside reader read) (hread : Inside reader read) :
    ∀ read' ∈ reads ++ [read], Inside reader read' := by
  intro read' hmem
  rcases List.mem_append.mp hmem with hold | hnew
  · exact h read' hold
  · rw [List.mem_singleton.mp hnew]
    exact hread

/-- The length of a chunk with its padding. -/
theorem toNat_padded (size : UInt32) :
    (size.toUInt64 + (size &&& 1).toUInt64).toNat = size.toNat + size.toNat % 2 := by
  have hsize := size.toNat_lt
  have hbit : (size &&& 1).toNat = size.toNat % 2 := by
    rw [UInt32.toNat_and]
    exact Nat.and_one_is_mod _
  rw [UInt64.toNat_add, UInt32.toNat_toUInt64, UInt32.toNat_toUInt64, hbit,
    Nat.mod_eq_of_lt (by omega)]

theorem toNat_header {stop offset : UInt64} (hle : offset ≤ stop) (h : ¬stop - offset < 8) :
    offset.toNat + 8 ≤ stop.toNat ∧ (offset + 8).toNat = offset.toNat + 8 := by
  have hstop := stop.toNat_lt
  rw [UInt64.lt_iff_toNat_lt, UInt64.toNat_sub_of_le _ _ hle] at h
  rw [UInt64.le_iff_toNat_le] at hle
  change ¬stop.toNat - offset.toNat < 8 at h
  refine ⟨by omega, ?_⟩
  rw [UInt64.toNat_add]
  change (offset.toNat + 8) % 2 ^ 64 = _
  omega

/-- Where the next chunk begins, when this one fits: nothing of it wraps around. -/
theorem toNat_next {stop offset : UInt64} {size : UInt32} (hle : offset ≤ stop)
    (h : ¬stop - offset < 8)
    (hpadded : ¬size.toUInt64 + (size &&& 1).toUInt64 > stop - (offset + 8)) :
    (offset + 8 + (size.toUInt64 + (size &&& 1).toUInt64)).toNat =
        offset.toNat + 8 + size.toNat + size.toNat % 2 ∧
      offset.toNat + 8 + size.toNat + size.toNat % 2 ≤ stop.toNat := by
  obtain ⟨hroom, hnext⟩ := toNat_header hle h
  have hstop := stop.toNat_lt
  have hpad := toNat_padded size
  rw [gt_iff_lt, UInt64.lt_iff_toNat_lt,
    UInt64.toNat_sub_of_le _ _ (UInt64.le_iff_toNat_le.mpr (by omega)), hnext, hpad] at hpadded
  rw [UInt64.toNat_add, hnext, hpad, Nat.mod_eq_of_lt (by omega)]
  omega

theorem toNat_chunk {stop offset : UInt64} {size : UInt32} (hle : offset ≤ stop)
    (h : ¬stop - offset < 8)
    (hpadded : ¬size.toUInt64 + (size &&& 1).toUInt64 > stop - (offset + 8)) :
    offset.toNat + 8 + size.toNat ≤ stop.toNat ∧
      offset + 8 + (size.toUInt64 + (size &&& 1).toUInt64) ≤ stop ∧
      offset.toNat + 8 ≤ (offset + 8 + (size.toUInt64 + (size &&& 1).toUInt64)).toNat := by
  obtain ⟨hsum, hfits⟩ := toNat_next hle h hpadded
  refine ⟨by omega, ?_, by omega⟩
  rw [UInt64.le_iff_toNat_le]
  omega

/-- What an accepted `fmt ` chunk changes. -/
theorem fmtChunk_ok {header : List UInt8} {c c' : Chunks} (h : fmtChunk header c = .ok c') :
    FmtFound c' ∧ c'.haveFmt = true ∧ c'.haveData = c.haveData ∧ c'.dataOffset = c.dataOffset ∧
      c'.dataSize = c.dataSize := by
  unfold fmtChunk at h
  simp only at h
  by_cases hpcm : u16 header 0 ≠ 1
  · rw [if_pos hpcm] at h
    cases h
  rw [if_neg hpcm] at h
  by_cases hchannels : u16 header 2 ≠ 1 ∧ u16 header 2 ≠ 2
  · rw [if_pos hchannels] at h
    cases h
  rw [if_neg hchannels] at h
  by_cases hbits : u16 header 14 ≠ 16 ∧ u16 header 14 ≠ 24 ∧ u16 header 14 ≠ 32
  · rw [if_pos hbits] at h
    cases h
  rw [if_neg hbits] at h
  generalize hformat : (⟨(u32 header 4).toNat, (u16 header 2).toUInt8.toNat,
    if u16 header 2 = 1 then EAF_CH_FRONT_CENTER else 3⟩ : Format) = format at h
  split at h
  · cases h
  next hvalid =>
  cases h
  have halign : (u16 header 12).toUInt32 =
      (u16 header 2).toUInt32 * ((u16 header 14).toUInt32 / 8) := by
    by_contra hne
    exact hvalid (.inr (.inl hne))
  have hcount : format.numChannels = (u16 header 2).toUInt8.toNat := by rw [← hformat]
  have hone : u16 header 2 = 1 ∨ u16 header 2 = 2 := by
    by_contra hneither
    exact hchannels (not_or.mp hneither)
  have hwidth : u16 header 14 = 16 ∨ u16 header 14 = 24 ∨ u16 header 14 = 32 := by
    by_contra hnone
    rw [not_or, not_or] at hnone
    exact hbits hnone
  have halign' : (u16 header 12).toNat =
      ((u16 header 2).toUInt32 * ((u16 header 14).toUInt32 / 8)).toNat := by
    rw [← halign, UInt16.toNat_toUInt32]
  refine ⟨⟨?_, hwidth, ?_⟩, rfl, rfl, rfl, rfl⟩
  · simp only [hcount]
    rcases hone with hone | hone
    · rw [hone]
      exact .inl rfl
    · rw [hone]
      exact .inr rfl
  · simp only [hcount, halign']
    rcases hone with hone | hone <;> rcases hwidth with hwidth | hwidth | hwidth <;>
      rw [hone, hwidth] <;> rfl

/-- The walk goes on behind more reads. -/
theorem Walking.next {reader : Reader} {stop offset next : UInt64} {c : Chunks}
    {reads more : List ReadAt} (h : Walking reader stop offset c reads) (hnext : next ≤ stop)
    (hinside : ∀ read ∈ reads ++ more, Inside reader read) :
    Walking reader stop next c (reads ++ more) :=
  ⟨hnext, h.stop_le, hinside, h.fmt,
    fun hdata => ⟨(h.data hdata).1.later more, (h.data hdata).2⟩⟩

/-- A turn of the walk: its reads are inside the file, and it moves on. -/
theorem chunk_walking {reader : Reader} {stop offset : UInt64} {c : Chunks}
    {reads : List ReadAt} (h : Walking reader stop offset c reads) :
    (∀ read ∈ (chunk reader stop offset c reads).2, Inside reader read) ∧
      ∀ next c', (chunk reader stop offset c reads).1 = .ok (next, c') →
        Walking reader stop next c' (chunk reader stop offset c reads).2 ∧
          offset.toNat + 8 ≤ next.toNat := by
  have hsize : stop.toNat ≤ reader.size.toNat := UInt64.le_iff_toNat_le.mp h.stop_le
  unfold chunk
  by_cases hroom : stop - offset < 8
  · rw [if_pos hroom]
    exact ⟨h.inside, fun _ _ hok => nomatch hok⟩
  obtain ⟨hheader, hnext⟩ := toNat_header h.offset_le hroom
  have hfirst : ∀ read ∈ reads ++ [⟨offset, 8, 16⟩], Inside reader read :=
    inside_snoc h.inside ⟨by simp only; omega, Nat.le_add_right 8 8⟩
  rw [if_neg hroom]
  simp only
  by_cases hrc : (reader.readAt reads offset 8).1 ≠ EAF_OK
  · rw [if_pos hrc]
    exact ⟨hfirst, fun _ _ hok => nomatch hok⟩
  rw [if_neg hrc]
  generalize hanswer : (reader.readAt reads offset 8).2 = header
  by_cases hpadded : (u32 header 4).toUInt64 + (u32 header 4 &&& 1).toUInt64 > stop - (offset + 8)
  · rw [if_pos hpadded]
    exact ⟨hfirst, fun _ _ hok => nomatch hok⟩
  rw [if_neg hpadded]
  obtain ⟨hfits, hle, hmoves⟩ := toNat_chunk h.offset_le hroom hpadded
  by_cases hfmt : header.take 4 = ascii "fmt "
  · rw [if_pos hfmt]
    by_cases hshort : c.haveFmt = true ∨ u32 header 4 < 16
    · rw [if_pos hshort]
      exact ⟨hfirst, fun _ _ hok => nomatch hok⟩
    rw [if_neg hshort]
    have hlong : 16 ≤ (u32 header 4).toNat := by
      have hlt := (not_or.mp hshort).2
      rw [UInt32.lt_iff_toNat_lt] at hlt
      exact Nat.le_of_not_lt hlt
    have hsecond : ∀ read ∈ reads ++ [⟨offset, 8, 16⟩] ++ [⟨offset + 8, 16, 16⟩],
        Inside reader read :=
      inside_snoc hfirst ⟨by simp only; omega, Nat.le_refl 16⟩
    by_cases hrc' : (reader.readAt (reads ++ [⟨offset, 8, 16⟩]) (offset + 8) 16).1 ≠ EAF_OK
    · rw [if_pos hrc']
      exact ⟨hsecond, fun _ _ hok => nomatch hok⟩
    rw [if_neg hrc']
    cases hchunk : fmtChunk (reader.readAt (reads ++ [⟨offset, 8, 16⟩]) (offset + 8) 16).2 c with
    | error rc => exact ⟨hsecond, fun _ _ hok => nomatch hok⟩
    | ok c' =>
      obtain ⟨hfound, _, hdata, hoffset, hlength⟩ := fmtChunk_ok hchunk
      refine ⟨hsecond, ?_⟩
      intro next c'' hok
      obtain ⟨rfl, rfl⟩ := Prod.mk.inj (Except.ok.inj hok)
      have hinside : ∀ read ∈ reads ++ ([⟨offset, 8, 16⟩] ++ [⟨offset + 8, 16, 16⟩]),
          Inside reader read := by
        rw [← List.append_assoc]
        exact hsecond
      have hskip := h.next hle hinside
      rw [← List.append_assoc] at hskip
      refine ⟨⟨hle, h.stop_le, hsecond, fun _ => hfound, ?_⟩, hmoves⟩
      rw [hdata, hoffset, hlength]
      exact hskip.data
  rw [if_neg hfmt]
  by_cases haudio : header.take 4 = ascii "data"
  · rw [if_pos haudio]
    by_cases htwice : c.haveData = true
    · rw [if_pos htwice]
      exact ⟨hfirst, fun _ _ hok => nomatch hok⟩
    rw [if_neg htwice]
    refine ⟨hfirst, ?_⟩
    intro next c' hok
    obtain ⟨rfl, rfl⟩ := Prod.mk.inj (Except.ok.inj hok)
    refine ⟨⟨hle, h.stop_le, hfirst, ?_, fun _ => ⟨?_, ?_⟩⟩, hmoves⟩
    · intro hfound
      exact ⟨(h.fmt hfound).channels, (h.fmt hfound).bits, (h.fmt hfound).align⟩
    · refine ⟨reads, [], offset, header, rfl, hnext.symm, ?_, haudio, ?_⟩
      · rw [← hanswer, ← of_not_not hrc]
      · exact (UInt32.toNat_toUInt64 _).symm
    · simp only [UInt32.toNat_toUInt64, hnext]
      omega
  · rw [if_neg haudio]
    refine ⟨hfirst, ?_⟩
    intro next c' hok
    obtain ⟨rfl, rfl⟩ := Prod.mk.inj (Except.ok.inj hok)
    exact ⟨h.next hle hfirst, hmoves⟩

theorem fmtChunk_error {header : List UInt8} {c : Chunks} {rc : Rc}
    (h : fmtChunk header c = .error rc) : rc ≠ EAF_OK := by
  unfold fmtChunk at h
  simp only at h
  generalize (⟨(u32 header 4).toNat, (u16 header 2).toUInt8.toNat,
    if u16 header 2 = 1 then EAF_CH_FRONT_CENTER else 3⟩ : Format) = format at h
  repeat' split at h
  all_goals
    cases h
    try decide

/-- The walk stops with an error only. -/
theorem chunk_error {reader : Reader} {stop offset : UInt64} {c : Chunks} {reads : List ReadAt}
    {rc : Rc} (h : (chunk reader stop offset c reads).1 = .error rc) : rc ≠ EAF_OK := by
  unfold chunk at h
  by_cases hroom : stop - offset < 8
  · rw [if_pos hroom] at h
    cases h
    decide
  rw [if_neg hroom] at h
  simp only at h
  by_cases hrc : (reader.readAt reads offset 8).1 ≠ EAF_OK
  · rw [if_pos hrc] at h
    cases h
    exact hrc
  rw [if_neg hrc] at h
  split at h
  · cases h
    decide
  split at h
  · split at h
    · cases h
      decide
    split at h
    next hrc' =>
      cases h
      exact hrc'
    split at h
    next hchunk =>
      cases h
      exact fmtChunk_error hchunk
    next => cases h
  split at h
  · split at h
    · cases h
      decide
    · cases h
  · cases h

/-- The walk ends: a turn moves on by eight bytes at least, and the file is finite. -/
theorem walk_ends {reader : Reader} {stop : UInt64} : ∀ (bound : Nat) {offset : UInt64}
    {c : Chunks} {reads : List ReadAt}, Walking reader stop offset c reads →
    stop.toNat < offset.toNat + bound →
    ∃ result reads', walk reader stop bound offset c reads = some (result, reads') ∧
      (∀ read ∈ reads', Inside reader read) ∧ (∀ rc, result = .error rc → rc ≠ EAF_OK) ∧
      ∀ c', result = .ok c' → ∃ next, Walking reader stop next c' reads' := by
  intro bound
  induction bound with
  | zero =>
    intro offset c reads h hbound
    have hle := UInt64.le_iff_toNat_le.mp h.offset_le
    omega
  | succ bound ih =>
    intro offset c reads h hbound
    rw [walk]
    by_cases hmore : offset < stop
    · rw [if_pos hmore]
      obtain ⟨hinside, hok⟩ := chunk_walking h
      have herror := @chunk_error reader stop offset c reads
      generalize chunk reader stop offset c reads = turn at hinside hok herror
      obtain ⟨result, reads'⟩ := turn
      cases result with
      | error rc =>
        refine ⟨.error rc, reads', rfl, hinside, ?_, nofun⟩
        intro rc' hrc
        cases hrc
        exact herror rfl
      | ok found =>
        obtain ⟨next, c'⟩ := found
        obtain ⟨hnext, hmoves⟩ := hok next c' rfl
        exact ih hnext (by omega)
    · rw [if_neg hmore]
      refine ⟨.ok c, reads, rfl, h.inside, nofun, ?_⟩
      intro c' hc
      cases hc
      exact ⟨offset, h⟩

/-! ## The open -/

/-- A reader that plays the data chunk of `length` bytes at `start`. -/
structure Playable (wav : Wav) (start length : Nat) : Prop where
  channels : wav.format.numChannels = 1 ∨ wav.format.numChannels = 2
  bits : wav.bits = 16 ∨ wav.bits = 24 ∨ wav.bits = 32
  align : wav.blockAlign.toNat = wav.format.numChannels * (wav.bits.toNat / 8)
  offset : wav.dataOffset.toNat = start
  frames : wav.totalFrames.toNat * wav.blockAlign.toNat = length
  fits : start + length ≤ wav.reader.size.toNat
  position : wav.position ≤ wav.totalFrames
  scratch : wav.scratch.length = 2048

theorem wavOpen_spec (reader : Reader) (wav : Wav) (source : Source) :
    ∃ rc wav' source' reads, wavOpen reader wav source = some (rc, wav', source', reads) ∧
      (∀ read ∈ reads, Inside reader read) ∧ (rc ≠ EAF_OK → wav' = wav ∧ source' = source) ∧
      (rc = EAF_OK → ∃ start length, DataChunk reader reads start length ∧
        Playable wav' start length ∧ wav'.reader = reader) := by
  unfold wavOpen
  by_cases hsmall : reader.size < 12
  · rw [if_pos hsmall]
    exact ⟨_, _, _, _, rfl, by simp, fun _ => ⟨rfl, rfl⟩, fun h => absurd h (by decide)⟩
  have hsize : 12 ≤ reader.size.toNat := by
    rw [UInt64.lt_iff_toNat_lt] at hsmall
    exact Nat.le_of_not_lt hsmall
  have hfirst : ∀ read ∈ ([⟨0, 12, 16⟩] : List ReadAt), Inside reader read := by
    intro read hmem
    rw [List.mem_singleton.mp hmem]
    refine ⟨?_, by decide⟩
    change 0 + 12 ≤ _
    omega
  rw [if_neg hsmall]
  simp only
  by_cases hrc : (reader.readAt [] 0 12).1 ≠ EAF_OK
  · rw [if_pos hrc]
    exact ⟨_, _, _, _, rfl, hfirst, fun _ => ⟨rfl, rfl⟩, fun h => absurd h hrc⟩
  rw [if_neg hrc]
  generalize (reader.readAt [] 0 12).2 = header
  by_cases hmagic : header.take 4 ≠ ascii "RIFF" ∨ slice header 8 4 ≠ ascii "WAVE"
  · rw [if_pos hmagic]
    exact ⟨_, _, _, _, rfl, hfirst, fun _ => ⟨rfl, rfl⟩, fun h => absurd h (by decide)⟩
  rw [if_neg hmagic]
  generalize (u32 header 4).toUInt64 + 8 = stop
  by_cases hstop : stop < 12 ∨ stop > reader.size
  · rw [if_pos hstop]
    exact ⟨_, _, _, _, rfl, hfirst, fun _ => ⟨rfl, rfl⟩, fun h => absurd h (by decide)⟩
  rw [if_neg hstop]
  obtain ⟨hlow, hhigh⟩ := not_or.mp hstop
  have hbegin : Walking reader stop 12 noChunks [⟨0, 12, 16⟩] :=
    ⟨UInt64.not_lt.mp hlow, UInt64.not_lt.mp hhigh, hfirst, nofun, nofun⟩
  obtain ⟨result, reads, hwalk, hinside, herror, hok⟩ :=
    walk_ends stop.toNat hbegin (Nat.lt_add_of_pos_left (by decide))
  rw [hwalk]
  cases result with
  | error rc =>
    exact ⟨_, _, _, _, rfl, hinside, fun _ => ⟨rfl, rfl⟩, fun h => absurd h (herror rc rfl)⟩
  | ok c =>
    simp only
    by_cases hchunks : c.haveFmt = false ∨ c.haveData = false ∨
      c.dataSize % c.align.toUInt64 ≠ 0
    · rw [if_pos hchunks]
      exact ⟨_, _, _, _, rfl, hinside, fun _ => ⟨rfl, rfl⟩, fun h => absurd h (by decide)⟩
    rw [if_neg hchunks]
    rw [not_or, not_or, Bool.not_eq_false, Bool.not_eq_false, not_not] at hchunks
    obtain ⟨hfmt, hdata, hwhole⟩ := hchunks
    obtain ⟨next, hwalking⟩ := hok c rfl
    have hfound := hwalking.fmt hfmt
    obtain ⟨hchunk, hfits⟩ := hwalking.data hdata
    have hframes : (c.dataSize / c.align.toUInt64).toNat * c.align.toNat = c.dataSize.toNat := by
      rw [UInt64.toNat_div, UInt16.toNat_toUInt64]
      refine Nat.div_mul_cancel (Nat.dvd_of_mod_eq_zero ?_)
      rw [← UInt16.toNat_toUInt64, ← UInt64.toNat_mod, hwhole]
      rfl
    exact ⟨_, _, _, _, rfl, hinside, fun h => absurd rfl h, fun _ => ⟨_, _, hchunk,
      ⟨hfound.channels, hfound.bits, hfound.align, rfl, hframes, hfits,
        UInt64.le_iff_toNat_le.mpr (Nat.zero_le _), List.length_replicate⟩, rfl⟩⟩

/-! ## The source -/

/-- A call of the source. -/
inductive Call where
  | read (capacity : UInt32)
  | seek (frame : UInt64)
  deriving DecidableEq, Repr

/-- An opened reader, and all reads so far. -/
structure Use where
  wav : Wav
  reads : List ReadAt

def use (u : Use) : Call → Use
  | .read capacity =>
    let (_, _, _, wav, reads) := readFrames u.wav capacity u.reads
    ⟨wav, reads⟩
  | .seek frame => { u with wav := (seekFrame u.wav frame).2 }

def useAll (u : Use) (calls : List Call) : Use := calls.foldl use u

/-- The read asks for bytes of the data chunk, and the scratch bytes have room for them. -/
structure InData (start length : Nat) (read : ReadAt) : Prop where
  after : start ≤ read.offset.toNat
  within : read.offset.toNat + read.length ≤ start + length
  fits : read.length ≤ read.room
  scratch : read.room = 2048

/-- How many frames a read takes. -/
theorem takeOf_toNat {wav : Wav} (h : wav.position ≤ wav.totalFrames) (capacity : UInt32) :
    (takeOf wav capacity).toNat =
      min (min capacity.toNat 256) (wav.totalFrames.toNat - wav.position.toNat) := by
  have hleft : (wav.totalFrames - wav.position).toNat =
      wav.totalFrames.toNat - wav.position.toNat := UInt64.toNat_sub_of_le _ _ h
  have hblock : (if capacity < EAF_WAV_BLOCK_FRAMES then capacity
      else EAF_WAV_BLOCK_FRAMES).toNat = min capacity.toNat 256 := by
    split
    next hless => exact (Nat.min_eq_left (Nat.le_of_lt (UInt32.lt_iff_toNat_lt.mp hless))).symm
    next hmore => exact (Nat.min_eq_right (UInt32.le_iff_toNat_le.mp (UInt32.not_lt.mp hmore))).symm
  unfold takeOf
  generalize (if capacity < EAF_WAV_BLOCK_FRAMES then capacity
    else EAF_WAV_BLOCK_FRAMES) = block at hblock
  simp only
  split
  next hless =>
    rw [UInt64.lt_iff_toNat_lt, UInt32.toNat_toUInt64, hleft] at hless
    rw [UInt64.toNat_toUInt32, hleft]
    omega
  next hmore =>
    rw [UInt64.lt_iff_toNat_lt, UInt32.toNat_toUInt64, hleft] at hmore
    omega

theorem takeOf_le {wav : Wav} (h : wav.position ≤ wav.totalFrames) (capacity : UInt32) :
    (takeOf wav capacity).toNat ≤ 256 ∧
      wav.position.toNat + (takeOf wav capacity).toNat ≤ wav.totalFrames.toNat := by
  have htake := takeOf_toNat h capacity
  rw [UInt64.le_iff_toNat_le] at h
  omega

theorem Playable.align_le {wav : Wav} {start length : Nat} (h : Playable wav start length) :
    wav.blockAlign.toNat ≤ 8 := by
  rw [h.align]
  rcases h.channels with hch | hch <;> rcases h.bits with hbits | hbits | hbits <;>
    rw [hch, hbits] <;> decide

/-- The offset of a read does not wrap around. -/
theorem Playable.toNat_offset {wav : Wav} {start length : Nat} (h : Playable wav start length) :
    (wav.dataOffset + wav.position * wav.blockAlign.toUInt64).toNat =
      start + wav.position.toNat * wav.blockAlign.toNat := by
  have hsize := wav.reader.size.toNat_lt
  have hfits := h.fits
  have hposition : wav.position.toNat * wav.blockAlign.toNat ≤ length := by
    rw [← h.frames]
    exact Nat.mul_le_mul_right _ (UInt64.le_iff_toNat_le.mp h.position)
  rw [UInt64.toNat_add, UInt64.toNat_mul, UInt16.toNat_toUInt64, h.offset, Nat.add_mod_mod,
    Nat.mod_eq_of_lt (by omega)]

theorem readFrames_playable {wav : Wav} {start length : Nat} (h : Playable wav start length)
    (capacity : UInt32) (reads : List ReadAt) :
    Playable (readFrames wav capacity reads).2.2.2.1 start length ∧
      ∃ more, (readFrames wav capacity reads).2.2.2.2 = reads ++ more ∧
        ∀ read ∈ more, InData start length read := by
  unfold readFrames
  by_cases hcapacity : capacity = 0
  · rw [if_pos hcapacity]
    exact ⟨h, [], by simp, nofun⟩
  obtain ⟨hblock, hend⟩ := takeOf_le h.position capacity
  rw [if_neg hcapacity]
  simp only
  by_cases hnone : takeOf wav capacity = 0
  · rw [if_pos hnone]
    exact ⟨h, [], by simp, nofun⟩
  rw [if_neg hnone]
  have hoffset := h.toNat_offset
  have halign := h.align_le
  generalize wav.dataOffset + wav.position * wav.blockAlign.toUInt64 = offset at hoffset
  have hlength : (takeOf wav capacity).toNat * wav.blockAlign.toNat ≤ 2048 :=
    Nat.mul_le_mul hblock halign
  have hwithin : wav.position.toNat * wav.blockAlign.toNat +
      (takeOf wav capacity).toNat * wav.blockAlign.toNat ≤ length := by
    rw [← Nat.add_mul, ← h.frames]
    exact Nat.mul_le_mul_right _ hend
  have hread : InData start length
      ⟨offset, (takeOf wav capacity).toNat * wav.blockAlign.toNat, wav.scratch.length⟩ :=
    ⟨by simp only; omega, by simp only; omega, by rw [h.scratch]; exact hlength, h.scratch⟩
  have hwritten := wav.reader.length_le reads offset
    ((takeOf wav capacity).toNat * wav.blockAlign.toNat)
  have hscratch : (overwrite wav.scratch 0 (wav.reader.readAt reads offset
      ((takeOf wav capacity).toNat * wav.blockAlign.toNat)).2).length = 2048 := by
    rw [length_overwrite _ 0 _ (by rw [h.scratch]; omega), h.scratch]
  have hmore : ∀ read ∈ [(⟨offset, (takeOf wav capacity).toNat * wav.blockAlign.toNat,
      wav.scratch.length⟩ : ReadAt)], InData start length read := by
    intro read hmem
    rw [List.mem_singleton.mp hmem]
    exact hread
  by_cases hrc : (wav.reader.readAt reads offset
      ((takeOf wav capacity).toNat * wav.blockAlign.toNat)).1 ≠ EAF_OK
  · rw [if_pos hrc]
    exact ⟨⟨h.channels, h.bits, h.align, h.offset, h.frames, h.fits, h.position, hscratch⟩,
      _, rfl, hmore⟩
  · rw [if_neg hrc]
    have hposition : wav.position + (takeOf wav capacity).toUInt64 ≤ wav.totalFrames := by
      have htotal := wav.totalFrames.toNat_lt
      rw [UInt64.le_iff_toNat_le, UInt64.toNat_add, UInt32.toNat_toUInt64,
        Nat.mod_eq_of_lt (by omega)]
      exact hend
    exact ⟨⟨h.channels, h.bits, h.align, h.offset, h.frames, h.fits, hposition, hscratch⟩,
      _, rfl, hmore⟩

theorem use_playable {u : Use} {start length : Nat} (h : Playable u.wav start length)
    (call : Call) : Playable (use u call).wav start length ∧
      ∃ more, (use u call).reads = u.reads ++ more ∧ ∀ read ∈ more, InData start length read := by
  cases call with
  | read capacity => exact readFrames_playable h capacity u.reads
  | seek frame =>
    refine ⟨?_, [], by simp [use], nofun⟩
    simp only [use, seekFrame]
    split
    next => exact h
    next hframe =>
      exact ⟨h.channels, h.bits, h.align, h.offset, h.frames, h.fits, UInt64.not_lt.mp hframe,
        h.scratch⟩

theorem useAll_playable {start length : Nat} (calls : List Call) {u : Use}
    (h : Playable u.wav start length) : Playable (useAll u calls).wav start length ∧
      ∃ more, (useAll u calls).reads = u.reads ++ more ∧
        ∀ read ∈ more, InData start length read := by
  induction calls generalizing u with
  | nil => exact ⟨h, [], by simp [useAll], nofun⟩
  | cons call calls ih =>
    obtain ⟨hfirst, more, hreads, hmore⟩ := use_playable h call
    obtain ⟨hrest, more', hreads', hmore'⟩ := ih hfirst
    refine ⟨hrest, more ++ more', ?_, ?_⟩
    · rw [← List.append_assoc, ← hreads]
      exact hreads'
    · intro read hmem
      rcases List.mem_append.mp hmem with hmem | hmem
      · exact hmore read hmem
      · exact hmore' read hmem

/-- Whatever a file holds and whichever reads fail: the open ends and reads inside the file only.
A file that is rejected changes nothing. An accepted one is then read inside a `data` chunk only,
no read is more than the scratch bytes hold, and the position stays within the frames. -/
theorem reads_safe (reader : Reader) (wav : Wav) (source : Source) :
    ∃ rc wav' source' reads, wavOpen reader wav source = some (rc, wav', source', reads) ∧
      (∀ read ∈ reads, Inside reader read) ∧
      (rc ≠ EAF_OK → wav' = wav ∧ source' = source) ∧
      (rc = EAF_OK → ∃ start length, DataChunk reader reads start length ∧
        start + length ≤ reader.size.toNat ∧
        ∀ calls, ∃ more, (useAll ⟨wav', reads⟩ calls).reads = reads ++ more ∧
          (∀ read ∈ more, InData start length read) ∧
          (useAll ⟨wav', reads⟩ calls).wav.position ≤
            (useAll ⟨wav', reads⟩ calls).wav.totalFrames) := by
  obtain ⟨rc, wav', source', reads, hopen, hinside, hreject, haccept⟩ :=
    wavOpen_spec reader wav source
  refine ⟨rc, wav', source', reads, hopen, hinside, hreject, ?_⟩
  intro hok
  obtain ⟨start, length, hchunk, hplayable, hreader⟩ := haccept hok
  refine ⟨start, length, hchunk, hreader ▸ hplayable.fits, ?_⟩
  intro calls
  obtain ⟨hafter, more, hreads, hmore⟩ := @useAll_playable start length calls ⟨wav', reads⟩ hplayable
  exact ⟨more, hreads, hmore, hafter.position⟩

/-- A file in memory. -/
def memoryFile (bytes : List UInt8) : Reader where
  size := UInt64.ofNat bytes.length
  readAt _ offset length :=
    if offset.toNat + length ≤ bytes.length then (EAF_OK, slice bytes offset.toNat length)
    else ( EAF_IO, [])
  length_le _ offset length := by
    split
    next => simp [slice]
    next => exact Nat.zero_le _
  exact_ok _ offset length h := by
    split at h
    next hfits =>
      rw [if_pos hfits]
      exact length_slice hfits
    next => exact absurd h (by decide)

/-- The file of test_wav.c with 16 bits and mono: an odd chunk with its padding first. -/
def testFile : List UInt8 :=
  ascii "RIFF" ++ [52, 0, 0, 0] ++ ascii "WAVEJUNK" ++ [1, 0, 0, 0, 99, 0] ++
    ascii "fmt " ++ [16, 0, 0, 0, 1, 0, 1, 0, 128, 187, 0, 0, 0, 119, 1, 0, 2, 0, 16, 0] ++
    ascii "data" ++ [6, 0, 0, 0, 0, 128, 255, 127, 0, 0]

example :
    (wavOpen (memoryFile testFile) ⟨memoryFile [], 0, 0, 0, ⟨0, 0, 0⟩, 0, 0, []⟩
        ⟨false, ⟨0, 0, 0⟩, 0⟩).map (fun r => (r.1, r.2.2.2, (readFrames r.2.1 3 r.2.2.2).2.2.1)) =
      some (EAF_OK, [⟨0, 12, 16⟩, ⟨12, 8, 16⟩, ⟨22, 8, 16⟩, ⟨30, 16, 16⟩, ⟨46, 8, 16⟩],
        [-2147483648, 2147418112, 0]) := by
  decide +kernel

end EmbeddedAudio.WavFile
