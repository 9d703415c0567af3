-- The frames that the WAV reader gives (dec_wav.c) for a file that it accepted: the
-- ones of the data chunk, from the position on, whatever was read and sought before
-- and whichever reads failed.
import EmbeddedAudio.Converters
import EmbeddedAudio.RiffChunks

namespace EmbeddedAudio.WavFile

open Converters LittleEndian Q31 RiffChunks Storage

/-! ## The file behind the reader -/

/-- A reader of a file. Any read can fail, and one that succeeds gives the bytes of the file. -/
structure FileReader where
  reader : Reader
  file : List UInt8
  size_eq : reader.size.toNat = file.length
  serves : ∀ reads offset length, offset.toNat + length ≤ file.length →
    (reader.readAt reads offset length).1 = EAF_OK →
    (reader.readAt reads offset length).2 = slice file offset.toNat length

/-- The body of a `fmt ` chunk for PCM of so many channels and bits. -/
def Says (body : List UInt8) (channels bits : Nat) : Prop :=
  readLE (slice body 0 2) = 1 ∧ readLE (slice body 2 2) = channels ∧
    readLE (slice body 14 2) = bits

/-- A RIFF file of the form `WAVE`. -/
abbrev WaveFile (file : List UInt8) (chunks : List RiffChunk) : Prop :=
  RiffFile (ascii "WAVE") file chunks

/-- One of the chunks of the file is a `fmt ` chunk, and it says so. -/
def FmtIn (file : List UInt8) (channels bits : Nat) : Prop :=
  ∃ chunks body, WaveFile file chunks ∧ named (ascii "fmt ") chunks = [body] ∧
    Says body channels bits

/-- One of the chunks of the file is a `data` chunk, with these bytes. -/
def DataIn (file data : List UInt8) : Prop :=
  ∃ chunks, WaveFile file chunks ∧ named (ascii "data") chunks = [data]

theorem DataIn.unique {file data other : List UInt8} (h : DataIn file data)
    (h' : DataIn file other) : other = data := by
  obtain ⟨chunks, hwave, hdata⟩ := h
  obtain ⟨others, hwave', hother⟩ := h'
  rw [hwave.unique hwave', hother] at hdata
  exact List.head_eq_of_cons_eq hdata

/-! ## The numbers in the chunks -/

theorem toNat_u16 {bytes : List UInt8} {i : Nat} (h : i + 2 ≤ bytes.length) :
    (u16 bytes i).toNat = readLE (slice bytes i 2) := by
  rw [← slice_cells bytes h 0]
  exact toNat_lor_byte16 _ _

theorem toNat_u32 {bytes : List UInt8} {i : Nat} (h : i + 4 ≤ bytes.length) :
    (u32 bytes i).toNat = readLE (slice bytes i 4) := by
  have hcells := slice_cells bytes h 0
  rw [← toNat_assembleLE (by rw [length_slice h]), ← hcells]
  exact congrArg UInt32.toNat (assembleLE_four _ _ _ _).symm

variable {f : FileReader}

/-- What the walk takes from a `fmt ` chunk. -/
theorem fmtChunk_fields {header : List UInt8} {c c' : Chunks} (h : fmtChunk header c = .ok c') :
    u16 header 0 = 1 ∧ (u16 header 2).toNat = c'.format.numChannels ∧ u16 header 14 = c'.bits := by
  unfold fmtChunk at h
  simp only at h
  by_cases hpcm : u16 header 0 ≠ 1
  · rw [if_pos hpcm] at h
    cases h
  rw [if_neg hpcm] at h
  by_cases hchannels : u16 header 2 ≠ 1 ∧ u16 header 2 ≠ 2
  · rw [if_pos hchannels] at h
    cases h
  rw [if_neg hchannels] at h
  by_cases hbits : u16 header 14 ≠ 16 ∧ u16 header 14 ≠ 24 ∧ u16 header 14 ≠ 32
  · rw [if_pos hbits] at h
    cases h
  rw [if_neg hbits] at h
  generalize hformat : (⟨(u32 header 4).toNat, (u16 header 2).toUInt8.toNat,
    if u16 header 2 = 1 then EAF_CH_FRONT_CENTER else 3⟩ : Format) = format at h
  split at h
  · cases h
  cases h
  refine ⟨of_not_not hpcm, ?_, rfl⟩
  simp only [← hformat]
  rcases not_and_or.mp hchannels with hone | htwo
  · rw [of_not_not hone]
    rfl
  · rw [of_not_not htwo]
    rfl

/-- What the walk knows of the chunks behind it. -/
structure Passed (file : List UInt8) (offset : Nat) (chunks : List RiffChunk) (c : Chunks) :
    Prop where
  begun : 12 ≤ offset
  laid : chunks.flatMap RiffChunk.bytes = slice file 12 (offset - 12)
  noFmt : c.haveFmt = false → named (ascii "fmt ") chunks = []
  fmt : c.haveFmt = true → ∃ body, named (ascii "fmt ") chunks = [body] ∧
    Says body c.format.numChannels c.bits.toNat
  noData : c.haveData = false → named (ascii "data") chunks = []
  data : c.haveData = true →
    named (ascii "data") chunks = [slice file c.dataOffset.toNat c.dataSize.toNat]

/-- One more chunk. -/
theorem laid_snoc {file : List UInt8} {offset next : Nat} {chunks : List RiffChunk}
    {chunk : RiffChunk} (hbegun : 12 ≤ offset)
    (h : chunks.flatMap RiffChunk.bytes = slice file 12 (offset - 12)) (hle : offset ≤ next)
    (hbytes : chunk.bytes = slice file offset (next - offset)) :
    (chunks ++ [chunk]).flatMap RiffChunk.bytes = slice file 12 (next - 12) := by
  have hplace : offset = 12 + (offset - 12) := by omega
  rw [List.flatMap_append, List.flatMap_singleton, h, hbytes]
  conv_lhs =>
    arg 2
    arg 2
    rw [hplace]
  rw [slice_append]
  congr 1
  omega

/-- The body of a `fmt ` chunk, read again. -/
theorem says_of_fields {file header : List UInt8} {place size : Nat} {c' : Chunks}
    (hheader : header = slice file place 16) (hfits : place + 16 ≤ file.length) (hlong : 16 ≤ size)
    (hfields : u16 header 0 = 1 ∧ (u16 header 2).toNat = c'.format.numChannels ∧
      u16 header 14 = c'.bits) :
    Says (slice file place size) c'.format.numChannels c'.bits.toNat := by
  have hlength : header.length = 16 := by
    rw [hheader]
    exact length_slice hfits
  have hcell : ∀ i, i + 2 ≤ 16 →
      readLE (slice (slice file place size) i 2) = (u16 header i).toNat := by
    intro i hi
    rw [toNat_u16 (by omega), hheader, slice_slice (by omega), slice_slice (by omega)]
  obtain ⟨hpcm, hchannels, hbits⟩ := hfields
  refine ⟨?_, ?_, ?_⟩
  · rw [hcell 0 (by decide), hpcm]
    rfl
  · rw [hcell 2 (by decide)]
    exact hchannels
  · rw [hcell 14 (by decide), hbits]

section Passed

variable {file : List UInt8} {offset next : Nat} {chunks : List RiffChunk} {one : RiffChunk}
  {c c' : Chunks}

theorem Passed.fmtChunk (h : Passed file offset chunks c) (hbegun : 12 ≤ next)
    (hlaid : (chunks ++ [one]).flatMap RiffChunk.bytes = slice file 12 (next - 12))
    (hname : one.name = ascii "fmt ") (hfirst : c.haveFmt = false)
    (hshown : Says one.body c'.format.numChannels c'.bits.toNat)
    (hok : c'.haveFmt = true ∧ c'.haveData = c.haveData ∧ c'.dataOffset = c.dataOffset ∧
      c'.dataSize = c.dataSize) : Passed file next (chunks ++ [one]) c' := by
  obtain ⟨hfound, hhave, hoffset, hsize⟩ := hok
  have hsame : named (ascii "data") (chunks ++ [one]) = named (ascii "data") chunks := by
    rw [named_snoc, if_neg (by rw [hname]; decide), List.append_nil]
  refine ⟨hbegun, hlaid, ?_, ?_, ?_, ?_⟩
  · rw [hfound]
    nofun
  · intro _
    refine ⟨one.body, ?_, hshown⟩
    rw [named_snoc, h.noFmt hfirst, if_pos hname]
    rfl
  · rw [hsame, hhave]
    exact h.noData
  · rw [hsame, hhave, hoffset, hsize]
    exact h.data

theorem Passed.dataChunk (h : Passed file offset chunks c) (hbegun : 12 ≤ next)
    (hlaid : (chunks ++ [one]).flatMap RiffChunk.bytes = slice file 12 (next - 12))
    (hname : one.name = ascii "data") (hfirst : c.haveData = false) {start size : UInt64}
    (hbody : one.body = slice file start.toNat size.toNat) :
    Passed file next (chunks ++ [one])
      { c with dataOffset := start, dataSize := size, haveData := true } := by
  have hsame : named (ascii "fmt ") (chunks ++ [one]) = named (ascii "fmt ") chunks := by
    rw [named_snoc, if_neg (by rw [hname]; decide), List.append_nil]
  refine ⟨hbegun, hlaid, ?_, ?_, nofun, fun _ => ?_⟩
  · rw [hsame]
    exact h.noFmt
  · rw [hsame]
    exact h.fmt
  · rw [named_snoc, h.noData hfirst, if_pos hname, hbody]
    rfl

/-- Any other chunk is skipped. -/
theorem Passed.skip (h : Passed file offset chunks c) (hbegun : 12 ≤ next)
    (hlaid : (chunks ++ [one]).flatMap RiffChunk.bytes = slice file 12 (next - 12))
    (hfmt : one.name ≠ ascii "fmt ") (hdata : one.name ≠ ascii "data") :
    Passed file next (chunks ++ [one]) c := by
  have hsame : ∀ name, one.name ≠ name → named name (chunks ++ [one]) = named name chunks := by
    intro name hne
    rw [named_snoc, if_neg hne, List.append_nil]
  refine ⟨hbegun, hlaid, ?_, ?_, ?_, ?_⟩
  · rw [hsame _ hfmt]
    exact h.noFmt
  · rw [hsame _ hfmt]
    exact h.fmt
  · rw [hsame _ hdata]
    exact h.noData
  · rw [hsame _ hdata]
    exact h.data

end Passed

/-- A turn of the walk passes one chunk of the file. -/
theorem chunk_passed {stop offset next : UInt64} {c c' : Chunks} {reads reads' : List ReadAt}
    (h : Walking f.reader stop offset c reads) {chunks : List RiffChunk}
    (hold : Passed f.file offset.toNat chunks c)
    (hturn : chunk f.reader stop offset c reads = (.ok (next, c'), reads')) :
    ∃ one, Passed f.file next.toNat (chunks ++ [one]) c' := by
  have hsize : stop.toNat ≤ f.file.length := f.size_eq ▸ UInt64.le_iff_toNat_le.mp h.stop_le
  have hbegun := hold.begun
  unfold chunk at hturn
  split at hturn
  · cases hturn
  next hroom =>
  obtain ⟨hheader, hnext⟩ := toNat_header h.offset_le hroom
  simp only at hturn
  split at hturn
  · cases hturn
  next hrc =>
  have hbytes := f.serves reads offset 8 (by omega) (of_not_not hrc)
  generalize (f.reader.readAt reads offset 8).2 = header at hbytes hturn
  split at hturn
  · cases hturn
  next hpadded =>
  -- the header, and where the next chunk begins
  have hlength : (u32 header 4).toNat = readLE (slice f.file (offset.toNat + 4) 4) := by
    rw [toNat_u32 (by rw [hbytes, length_slice (by omega)]), hbytes, slice_slice (by decide)]
  obtain ⟨hplace, hfits⟩ := toNat_next h.offset_le hroom hpadded
  rw [hlength] at hplace hfits
  obtain ⟨one, hone⟩ : ∃ one, one = chunkAt f.file offset.toNat (by omega) := ⟨_, rfl⟩
  have hname : one.name = header.take 4 := by
    have hfirst : header.take 4 = slice f.file offset.toNat 4 := by
      rw [hbytes]
      exact List.take_take
    rw [hone, hfirst]
    rfl
  have hbody : one.body = slice f.file (offset + 8).toNat (u32 header 4).toNat := by
    rw [hone, hnext, hlength]
    rfl
  have hlaid : (chunks ++ [one]).flatMap RiffChunk.bytes = slice f.file 12
      ((offset + 8 + ((u32 header 4).toUInt64 + (u32 header 4 &&& 1).toUInt64)).toNat - 12) := by
    refine laid_snoc hbegun hold.laid (by omega) ?_
    rw [hone, bytes_chunkAt, hplace]
    congr 1
    omega
  refine ⟨one, ?_⟩
  split at hturn
  next hfmt =>
    split at hturn
    · cases hturn
    next hshort =>
    obtain ⟨hfirst, hlong⟩ := not_or.mp hshort
    rw [UInt32.lt_iff_toNat_lt, Nat.not_lt] at hlong
    change 16 ≤ _ at hlong
    split at hturn
    · cases hturn
    next hrc' =>
    have hchunk := f.serves _ _ 16 (by omega) (of_not_not hrc')
    split at hturn
    · cases hturn
    next c'' hok =>
    cases hturn
    refine hold.fmtChunk (by omega) hlaid (hname.trans hfmt) (Bool.not_eq_true _ |>.mp hfirst) ?_
      (fmtChunk_ok hok).2
    rw [hbody]
    exact says_of_fields hchunk (by omega) hlong (fmtChunk_fields hok)
  next hfmt =>
    split at hturn
    next hdata =>
      split at hturn
      · cases hturn
      next hfirst =>
      cases hturn
      refine hold.dataChunk (by omega) hlaid (hname.trans hdata)
        (Bool.not_eq_true _ |>.mp hfirst) ?_
      rw [hbody, UInt32.toNat_toUInt64]
    next hdata =>
      cases hturn
      exact hold.skip (by omega) hlaid (hname.trans_ne hfmt) (hname.trans_ne hdata)

/-- The whole walk passes the chunks as far as the file says that it goes. -/
theorem walk_passed {stop : UInt64} (bound : Nat) {offset : UInt64} {c c' : Chunks}
    {reads reads' : List ReadAt} (h : Walking f.reader stop offset c reads)
    {chunks : List RiffChunk} (hold : Passed f.file offset.toNat chunks c)
    (hwalk : walk f.reader stop bound offset c reads = some (.ok c', reads')) :
    ∃ all, Passed f.file stop.toNat all c' := by
  induction bound generalizing offset c reads chunks with
  | zero => cases hwalk
  | succ bound ih =>
    rw [walk] at hwalk
    split at hwalk
    · split at hwalk
      next => cases hwalk
      next next c'' reads'' hturn =>
        have hnext := (chunk_walking h).2 next c'' (by rw [hturn])
        rw [hturn] at hnext
        obtain ⟨one, hpassed⟩ := chunk_passed h hold hturn
        exact ih hnext.1 hpassed hwalk
    next hdone =>
      cases hwalk
      have hend : offset.toNat = stop.toNat := by
        rw [UInt64.lt_iff_toNat_lt] at hdone
        have hle := UInt64.le_iff_toNat_le.mp h.offset_le
        omega
      exact ⟨chunks, hend ▸ hold⟩

/-- The end of the walk, as the header of the file declares it. -/
theorem toNat_stop {file header : List UInt8} (hheader : header = slice file 0 12)
    (hfile : 12 ≤ file.length) :
    ((u32 header 4).toUInt64 + 8).toNat = readLE (slice file 4 4) + 8 := by
  have hlt := (u32 header 4).toNat_lt
  have hlength : (u32 header 4).toNat = readLE (slice file 4 4) := by
    rw [toNat_u32 (by rw [hheader, length_slice (by omega)]; decide), hheader,
      slice_slice (by decide)]
  rw [UInt64.toNat_add, UInt32.toNat_toUInt64, hlength]
  rw [hlength] at hlt
  change (_ + 8) % 2 ^ 64 = _
  exact Nat.mod_eq_of_lt (by omega)

/-- A walk that came to the end has the chunks of the file. -/
theorem waveFile_of_passed {file header : List UInt8} {c : Chunks} {all : List RiffChunk}
    {stop : Nat} (hheader : header = slice file 0 12)
    (hmagic : header.take 4 = ascii "RIFF" ∧ slice header 8 4 = ascii "WAVE")
    (hstop : stop = readLE (slice file 4 4) + 8) (hleast : 12 ≤ stop) (hmost : stop ≤ file.length)
    (hall : Passed file stop all c) : WaveFile file all := by
  refine ⟨?_, ?_, by omega, by omega, ?_⟩
  · rw [hheader, slice, List.take_take] at hmagic
    exact hmagic.1
  · rw [← hmagic.2, hheader]
    exact (slice_slice (by decide : 8 + 4 ≤ 12)).symm
  · rw [hall.laid]
    congr 1
    omega

/-- A data chunk of whole frames. -/
theorem frames_of_mod {size : UInt64} {align : UInt16} (h : size % align.toUInt64 = 0) :
    (size / align.toUInt64).toNat * align.toNat = size.toNat := by
  rw [UInt64.toNat_div, UInt16.toNat_toUInt64]
  refine Nat.div_mul_cancel (Nat.dvd_of_mod_eq_zero ?_)
  rw [← UInt16.toNat_toUInt64, ← UInt64.toNat_mod, h]
  rfl

/-- An accepted file: its format and its frames are those of its chunks, and the source begins at
the first frame. -/
theorem wavOpen_chunks {wav wav' : Wav} {source source' : Source} {reads : List ReadAt}
    (hopen : wavOpen f.reader wav source = some (EAF_OK, wav', source', reads)) :
    FmtIn f.file wav'.format.numChannels wav'.bits.toNat ∧
      DataIn f.file (slice f.file wav'.dataOffset.toNat
        (wav'.totalFrames.toNat * wav'.blockAlign.toNat)) ∧
      source'.format = wav'.format ∧ wav'.position = 0 := by
  unfold wavOpen at hopen
  split at hopen
  · cases hopen
  next hsmall =>
  have hsize : 12 ≤ f.reader.size.toNat := by
    rw [UInt64.lt_iff_toNat_lt] at hsmall
    exact Nat.le_of_not_lt hsmall
  have hfile : 12 ≤ f.file.length := f.size_eq ▸ hsize
  simp only at hopen
  split at hopen
  next hrc => exact absurd (congrArg Prod.fst (Option.some.inj hopen)) hrc
  next hrc =>
  have hheader := f.serves [] 0 12 (by simpa using hfile) (of_not_not hrc)
  generalize (f.reader.readAt [] 0 12).2 = header at hheader hopen
  replace hheader : header = slice f.file 0 12 := hheader
  split at hopen
  · cases hopen
  next hmagic =>
  rw [not_or, not_not, not_not] at hmagic
  split at hopen
  · cases hopen
  next hstop =>
  obtain ⟨hlow, hhigh⟩ := not_or.mp hstop
  have hfirst : ∀ read ∈ ([⟨0, 12, 16⟩] : List ReadAt), Inside f.reader read := by
    intro read hmem
    rw [List.mem_singleton.mp hmem]
    exact ⟨(Nat.zero_add 12).le.trans hsize, by decide⟩
  have hbegin := Walking.mk (c := noChunks) (UInt64.not_lt.mp hlow) (UInt64.not_lt.mp hhigh) hfirst
    nofun nofun
  have hnone : Passed f.file (12 : UInt64).toNat [] noChunks :=
    ⟨le_rfl, (by simp [slice]), fun _ => rfl, nofun, fun _ => rfl, nofun⟩
  split at hopen
  next => cases hopen
  next rc reads'' hwalk =>
    obtain ⟨_, _, hends, -, herror, -⟩ := walk_ends _ hbegin (Nat.lt_add_of_pos_left (by decide))
    cases hends.symm.trans hwalk
    exact absurd (congrArg Prod.fst (Option.some.inj hopen)) (herror rc rfl)
  next c reads'' hwalk =>
    split at hopen
    · cases hopen
    next hchunks =>
    rw [not_or, not_or, Bool.not_eq_false, Bool.not_eq_false, not_not] at hchunks
    obtain ⟨hfmt, hdata, hwhole⟩ := hchunks
    obtain ⟨all, hall⟩ := walk_passed _ hbegin hnone hwalk
    have hleast := UInt64.le_iff_toNat_le.mp hbegin.offset_le
    have hmost := UInt64.le_iff_toNat_le.mp hbegin.stop_le
    rw [f.size_eq] at hmost
    have hwave : WaveFile f.file all :=
      waveFile_of_passed hheader hmagic (toNat_stop hheader hfile) hleast hmost hall
    obtain ⟨body, hbody, hshown⟩ := hall.fmt hfmt
    cases hopen
    refine ⟨⟨all, body, hwave, hbody, hshown⟩, ⟨all, hwave, ?_⟩, rfl, rfl⟩
    rw [frames_of_mod hwhole]
    exact hall.data hdata

/-! ## The reference -/

section Reference

variable {width channels : Nat}

theorem length_streamQ31 (hpos : 0 < width * channels) {n : Nat} {bytes : List UInt8}
    (h : bytes.length = n * (width * channels)) :
    (streamQ31 width channels channels bytes).length = n * channels := by
  rw [streamQ31_samples hpos h, List.length_map, List.length_range]

/-- Some frames of a stream, decoded on their own. -/
theorem streamQ31_slice (hpos : 0 < width * channels) {first count total : Nat} {data : List UInt8}
    (hdata : data.length = total * (width * channels)) (h : first + count ≤ total) :
    streamQ31 width channels channels
        (slice data (first * (width * channels)) (count * (width * channels))) =
      slice (streamQ31 width channels channels data) (first * channels) (count * channels) := by
  have hroom : (first + count) * (width * channels) ≤ data.length :=
    hdata ▸ Nat.mul_le_mul_right _ h
  rw [Nat.add_mul] at hroom
  have hbefore : (data.take (first * (width * channels))).length = first * (width * channels) := by
    rw [List.length_take]
    omega
  have hmiddle := length_slice (n := count * (width * channels)) hroom
  have hparts : data = data.take (first * (width * channels)) ++
      (slice data (first * (width * channels)) (count * (width * channels)) ++
        data.drop (first * (width * channels) + count * (width * channels))) := by
    unfold slice
    rw [← List.drop_drop, List.take_append_drop, List.take_append_drop]
  have hfirst := length_streamQ31 hpos hbefore
  have hsecond := length_streamQ31 hpos hmiddle
  conv_rhs => rw [hparts]
  rw [streamQ31_append ⟨first, by rw [hbefore, Nat.mul_comm]⟩,
    streamQ31_append ⟨count, by rw [hmiddle, Nat.mul_comm]⟩]
  unfold slice at hsecond ⊢
  rw [← hfirst, List.drop_left, ← hsecond, List.take_left]

end Reference

/-! ## A read -/

section Read

variable {wav : Wav} {start length : Nat}

/-- A read takes a frame at least when there is one left. -/
theorem takeOf_pos (h : wav.position ≤ wav.totalFrames) {capacity : UInt32}
    (hcapacity : capacity ≠ 0) (hnone : takeOf wav capacity = 0) :
    wav.position = wav.totalFrames := by
  have htake := takeOf_toNat h capacity
  have hpos : capacity.toNat ≠ 0 := fun hzero => hcapacity (UInt32.toNat_inj.mp hzero)
  rw [hnone, UInt32.toNat_zero] at htake
  rw [UInt64.le_iff_toNat_le] at h
  rw [← UInt64.toNat_inj]
  omega

/-- What a read of up to `capacity` frames is to give. -/
structure Exact (reference : List Int32) (channels : Nat) (wav : Wav) (capacity : UInt32)
    (r : Rc × UInt32 × List Int32 × Wav × List ReadAt) : Prop where
  room : r.2.1 ≤ capacity
  frames : r.1 = EAF_OK →
    r.2.2.1 = slice reference (wav.position.toNat * channels) (r.2.1.toNat * channels)
  length : r.1 = EAF_OK → r.2.2.1.length = r.2.1.toNat * channels
  nonempty : r.1 = EAF_OK → wav.position ≠ wav.totalFrames → r.2.1 ≠ 0
  moved : r.1 = EAF_OK → r.2.2.2.1.position.toNat = wav.position.toNat + r.2.1.toNat
  failed : r.1 ≠ EAF_OK → r.2.1 = 0 ∧ r.2.2.2.1.position = wav.position

theorem readFrames_exact {width channels : Nat} (h : Playable wav start length)
    (hreader : wav.reader = f.reader) (hbits : wav.bits.toNat = 8 * width)
    (hchannels : wav.format.numChannels = channels) {capacity : UInt32} (hcapacity : capacity ≠ 0)
    (reads : List ReadAt) :
    Exact (streamQ31 width channels channels (slice f.file start length)) channels wav capacity
      (readFrames wav capacity reads) := by
  have hstereo := hchannels ▸ h.channels
  have hpos := frameBytes_pos (pcmWidth_of_playable h hbits) hstereo
  have halign : wav.blockAlign.toNat = width * channels := by
    rw [h.align, hbits, hchannels, Nat.mul_div_cancel_left _ (by decide), Nat.mul_comm]
  have hframes := h.frames
  rw [halign] at hframes
  have hsize : start + length ≤ f.file.length := by
    rw [← f.size_eq, ← hreader]
    exact h.fits
  obtain ⟨-, hend⟩ := takeOf_le h.position capacity
  have htake : (takeOf wav capacity).toNat ≤ capacity.toNat := by
    rw [takeOf_toNat h.position]
    omega
  have hsamples := wav_samples h hbits hchannels capacity reads
  have hserves := f.serves reads (wav.dataOffset + wav.position * wav.blockAlign.toUInt64)
  rw [h.toNat_offset, halign] at hserves
  rw [hreader] at hsamples
  unfold readFrames at hsamples ⊢
  rw [if_neg hcapacity] at hsamples ⊢
  simp only at hsamples ⊢
  by_cases hnone : takeOf wav capacity = 0
  · rw [if_pos hnone]
    refine ⟨?_, ?_, ?_, ?_, ?_, ?_⟩
    · exact UInt32.le_iff_toNat_le.mpr (Nat.zero_le _)
    · intro _
      exact (by simp [slice])
    · intro _
      exact (Nat.zero_mul channels).symm
    · intro _ hleft
      exact absurd (takeOf_pos h.position hcapacity hnone) hleft
    · intro _
      rfl
    · intro hrc
      exact absurd rfl hrc
  rw [if_neg hnone] at hsamples ⊢
  by_cases hrc : (wav.reader.readAt reads (wav.dataOffset + wav.position * wav.blockAlign.toUInt64)
      ((takeOf wav capacity).toNat * wav.blockAlign.toNat)).1 ≠ EAF_OK
  · rw [if_pos hrc]
    refine ⟨UInt32.le_iff_toNat_le.mpr (Nat.zero_le _), ?_, ?_, ?_, ?_, fun _ => ⟨rfl, rfl⟩⟩
    all_goals exact fun hok => absurd hok hrc
  rw [if_neg hrc]
  rw [if_neg (hreader ▸ hrc)] at hsamples
  rcases (hsamples rfl).2 with ⟨hzero, -⟩ | ⟨bytes, hbytes, hread, hdecoded⟩
  · exact absurd hzero hnone
  replace hbytes : bytes.length = (takeOf wav capacity).toNat * (width * channels) := hbytes
  -- the bytes that came are those of the frames at the position
  have hwithin : wav.position.toNat * (width * channels) +
      (takeOf wav capacity).toNat * (width * channels) ≤ length := by
    rw [← Nat.add_mul, ← hframes]
    exact Nat.mul_le_mul_right _ hend
  have hfile := hserves bytes.length (by rw [hbytes]; omega) (by rw [hread])
  rw [hread] at hfile
  have hdata : bytes = slice (slice f.file start length) (wav.position.toNat * (width * channels))
      ((takeOf wav capacity).toNat * (width * channels)) := by
    rw [slice_slice hwithin, ← hbytes]
    exact hfile
  have hlength := length_slice hsize
  rw [← hframes] at hlength
  refine ⟨UInt32.le_iff_toNat_le.mpr htake, ?_, ?_, ?_, ?_, fun hne => absurd rfl hne⟩
  · intro _
    refine hdecoded.trans ?_
    rw [hdata, ← hframes]
    exact streamQ31_slice hpos hlength hend
  · intro _
    rw [hdecoded]
    exact length_streamQ31 hpos hbytes
  · exact fun _ _ => hnone
  · intro _
    have htotal := wav.totalFrames.toNat_lt
    simp only [UInt64.toNat_add, UInt32.toNat_toUInt64]
    rw [Nat.mod_eq_of_lt (by omega)]

/-- What no call changes. -/
structure Kept (wav wav' : Wav) : Prop where
  reader : wav'.reader = wav.reader
  format : wav'.format = wav.format
  bits : wav'.bits = wav.bits

theorem use_kept (u : Use) (call : Call) : Kept u.wav (use u call).wav := by
  cases call with
  | read capacity =>
    unfold use readFrames
    simp only
    split_ifs <;> exact ⟨rfl, rfl, rfl⟩
  | seek frame =>
    unfold use seekFrame
    simp only
    split_ifs <;> exact ⟨rfl, rfl, rfl⟩

theorem useAll_kept (calls : List Call) (u : Use) : Kept u.wav (useAll u calls).wav := by
  induction calls generalizing u with
  | nil => exact ⟨rfl, rfl, rfl⟩
  | cons call calls ih =>
    have hfirst := use_kept u call
    have hrest := ih (use u call)
    exact ⟨hrest.reader.trans hfirst.reader, hrest.format.trans hfirst.format,
      hrest.bits.trans hfirst.bits⟩

end Read

/-! ## Any calls -/

/-- An accepted file has a format and a `data` chunk, and behind any calls a read gives the frames
of that chunk at the position and moves the position behind them. A read that fails, and a seek
past the end, leave it where it was. -/
theorem wav_exact (f : FileReader) {wav wav' : Wav} {source source' : Source}
    {reads : List ReadAt}
    (hopen : wavOpen f.reader wav source = some (EAF_OK, wav', source', reads)) :
    ∃ width channels data, PcmWidth width ∧ (channels = 1 ∨ channels = 2) ∧
      FmtIn f.file channels (8 * width) ∧ DataIn f.file data ∧
      (∀ other, DataIn f.file other → other = data) ∧
      wav'.totalFrames.toNat * (width * channels) = data.length ∧
      source'.format.numChannels = channels ∧ wav'.position = 0 ∧
      ∀ calls, let u := useAll ⟨wav', reads⟩ calls
        (∀ capacity, capacity ≠ 0 → Exact (streamQ31 width channels channels data) channels u.wav
          capacity (readFrames u.wav capacity u.reads)) ∧
        ∀ frame, seekFrame u.wav frame =
          if frame ≤ u.wav.totalFrames then (EAF_OK, { u.wav with position := frame })
          else (EAF_INVALID, u.wav) := by
  obtain ⟨hfmt, hdata, hformat, hposition⟩ := wavOpen_chunks hopen
  obtain ⟨_, _, _, _, hopen', -, -, haccept⟩ := wavOpen_spec f.reader wav source
  cases hopen'.symm.trans hopen
  obtain ⟨start, length, -, hplayable, hreader⟩ := haccept rfl
  rw [hplayable.offset, hplayable.frames] at hdata
  have hfits : start + length ≤ f.file.length := by
    rw [← f.size_eq, ← hreader]
    exact hplayable.fits
  obtain ⟨width, hbits⟩ : ∃ width, wav'.bits.toNat = 8 * width := by
    rcases hplayable.bits with hb | hb | hb
    · exact ⟨2, by rw [hb]; rfl⟩
    · exact ⟨3, by rw [hb]; rfl⟩
    · exact ⟨4, by rw [hb]; rfl⟩
  have halign : wav'.blockAlign.toNat = width * wav'.format.numChannels := by
    rw [hplayable.align, hbits, Nat.mul_div_cancel_left _ (by decide), Nat.mul_comm]
  refine ⟨width, wav'.format.numChannels, slice f.file start length,
    pcmWidth_of_playable hplayable hbits, hplayable.channels, hbits ▸ hfmt,
    hdata, fun _ hother => hdata.unique hother, ?_, by rw [hformat], hposition, ?_⟩
  · rw [length_slice hfits, ← hplayable.frames, halign]
  intro calls u
  have hkept := useAll_kept calls ⟨wav', reads⟩
  obtain ⟨hafter, -⟩ := @useAll_playable start length calls ⟨wav', reads⟩ hplayable
  refine ⟨?_, ?_⟩
  · intro capacity hcapacity
    exact readFrames_exact hafter (hkept.reader.trans hreader) (by rw [hkept.bits]; exact hbits)
      (by rw [hkept.format]) hcapacity u.reads
  · intro frame
    unfold seekFrame
    by_cases hframe : frame ≤ u.wav.totalFrames
    · rw [if_pos hframe, if_neg (UInt64.not_lt.mpr hframe)]
    · rw [if_neg hframe, if_pos (UInt64.not_le.mp hframe)]

/-- A file in memory serves its bytes. -/
def memoryReader (bytes : List UInt8) (h : bytes.length < 2 ^ 64) : FileReader where
  reader := memoryFile bytes
  file := bytes
  size_eq := UInt64.toNat_ofNat_of_lt' h
  serves _ _ _ hfits _ := congrArg Prod.snd (if_pos hfits)

/-- The file of test_wav.c, opened. -/
def testUse : Use where
  wav := ⟨memoryFile testFile, 54, 0, 3, ⟨48000, 1, 8⟩, 16, 2, List.replicate 2048 0⟩
  reads := [⟨0, 12, 16⟩, ⟨12, 8, 16⟩, ⟨22, 8, 16⟩, ⟨30, 16, 16⟩, ⟨46, 8, 16⟩]

theorem wav_exact_testFile : ∃ width channels data, PcmWidth width ∧ DataIn testFile data ∧
    Exact (streamQ31 width channels channels data) channels (use testUse (.seek 1)).wav 2
      (readFrames (use testUse (.seek 1)).wav 2 (use testUse (.seek 1)).reads) := by
  have hopen : wavOpen (memoryFile testFile) ⟨memoryFile [], 0, 0, 0, ⟨0, 0, 0⟩, 0, 0, []⟩
      ⟨false, ⟨0, 0, 0⟩, 0⟩ =
      some (EAF_OK, testUse.wav, ⟨true, ⟨48000, 1, 8⟩, 3⟩, testUse.reads) := rfl
  obtain ⟨width, channels, data, hwidth, -, -, hdata, -, -, -, -, hcalls⟩ :=
    wav_exact (memoryReader testFile (by decide)) hopen
  exact ⟨width, channels, data, hwidth, hdata, (hcalls [.seek 1]).1 2 (by decide)⟩

end EmbeddedAudio.WavFile
