-- The WAV reader (dec_wav.c): the walk over the chunks of a file that can hold
-- anything, behind an interface that can fail at any read, and the source that an
-- accepted file becomes.
import EmbeddedAudio.Q31
import EmbeddedAudio.Results
import EmbeddedAudio.Storage

namespace EmbeddedAudio.WavFile

open BtDecoder (s16ToQ31Interleaved)
open Q31 Storage

abbrev EAF_WAV_BLOCK_FRAMES : UInt32 := 256

abbrev EAF_CH_FRONT_CENTER : Nat := 8

/-! ## The file -/

/-- A read that was asked for: where, how many bytes, and how many the buffer has room for. -/
structure ReadAt where
  offset : UInt64
  length : Nat
  room : Nat
  deriving DecidableEq, Repr

/-- `eaf_reader_t`. What it answers can depend on the reads before. A read that fails can have
written a part, one that succeeds has written all. -/
structure Reader where
  size : UInt64
  readAt : List ReadAt → UInt64 → Nat → Rc × List UInt8
  length_le : ∀ reads offset length, (readAt reads offset length).2.length ≤ length
  exact_ok : ∀ reads offset length, (readAt reads offset length).1 = EAF_OK →
    (readAt reads offset length).2.length = length

/-- `eaf_wav_t`. -/
structure Wav where
  reader : Reader
  dataOffset : UInt64
  position : UInt64
  totalFrames : UInt64
  format : Format
  bits : UInt16
  blockAlign : UInt16
  scratch : List UInt8

/-- `eaf_source_t`, bound to a WAV reader or to anything else. -/
structure Source where
  bound : Bool
  format : Format
  totalFrames : UInt64
  deriving DecidableEq, Repr

/-! ## The chunks -/

/-- `u16`. -/
def u16 (bytes : List UInt8) (i : Nat) : UInt16 :=
  (bytes.getD i 0).toUInt16 ||| (bytes.getD (i + 1) 0).toUInt16 <<< 8

/-- `u32`. -/
def u32 (bytes : List UInt8) (i : Nat) : UInt32 :=
  (bytes.getD i 0).toUInt32 ||| (bytes.getD (i + 1) 0).toUInt32 <<< 8 |||
    (bytes.getD (i + 2) 0).toUInt32 <<< 16 ||| (bytes.getD (i + 3) 0).toUInt32 <<< 24

/-- What the walk has found. -/
structure Chunks where
  format : Format
  bits : UInt16
  align : UInt16
  dataOffset : UInt64
  dataSize : UInt64
  haveFmt : Bool
  haveData : Bool
  deriving DecidableEq, Repr

def noChunks : Chunks := ⟨⟨0, 0, 0⟩, 0, 0, 0, 0, false, false⟩

/-- The 16 bytes of a `fmt ` chunk. -/
def fmtChunk (header : List UInt8) (c : Chunks) : Except Rc Chunks :=
  let channels := u16 header 2
  let bits := u16 header 14
  let align := u16 header 12
  let format : Format := ⟨(u32 header 4).toNat, channels.toUInt8.toNat,
    if channels = 1 then EAF_CH_FRONT_CENTER else 3⟩
  if u16 header 0 ≠ 1 then .error EAF_UNSUPPORTED
  else if channels ≠ 1 ∧ channels ≠ 2 then .error EAF_UNSUPPORTED
  else if bits ≠ 16 ∧ bits ≠ 24 ∧ bits ≠ 32 then .error EAF_UNSUPPORTED
  else if formatValid format = false ∨ align.toUInt32 ≠ channels.toUInt32 * (bits.toUInt32 / 8) ∨
      (u32 header 4).toUInt64 * align.toUInt64 ≠ (u32 header 8).toUInt64 then .error EAF_INVALID
  else .ok { c with format := format, bits := bits, align := align, haveFmt := true }

/-- A turn of the walk: the offset of the next chunk and what was found, and the reads. -/
def chunk (reader : Reader) (stop offset : UInt64) (c : Chunks) (reads : List ReadAt) :
    Except Rc (UInt64 × Chunks) × List ReadAt :=
  if stop - offset < 8 then (.error EAF_INVALID, reads)
  else
    let (rc, header) := reader.readAt reads offset 8
    let reads := reads ++ [⟨offset, 8, 16⟩]
    if rc ≠ EAF_OK then (.error rc, reads)
    else
      let size := u32 header 4
      let padded := size.toUInt64 + (size &&& 1).toUInt64
      let offset := offset + 8
      if padded > stop - offset then (.error EAF_INVALID, reads)
      else if header.take 4 = ascii "fmt " then
        if c.haveFmt = true ∨ size < 16 then (.error EAF_INVALID, reads)
        else
          let (rc, header) := reader.readAt reads offset 16
          let reads := reads ++ [⟨offset, 16, 16⟩]
          if rc ≠ EAF_OK then (.error rc, reads)
          else
            match fmtChunk header c with
            | .error rc => (.error rc, reads)
            | .ok c => (.ok (offset + padded, c), reads)
      else if header.take 4 = ascii "data" then
        if c.haveData then (.error EAF_INVALID, reads)
        else (.ok (offset + padded,
          { c with dataOffset := offset, dataSize := size.toUInt64, haveData := true }), reads)
      else (.ok (offset + padded, c), reads)

/-- The walk. It has no result when the bound on its turns is too small. -/
def walk (reader : Reader) (stop : UInt64) :
    Nat → UInt64 → Chunks → List ReadAt → Option (Except Rc Chunks × List ReadAt)
  | 0, _, _, _ => none
  | bound + 1, offset, c, reads =>
    if offset < stop then
      match chunk reader stop offset c reads with
      | (.error rc, reads) => some (.error rc, reads)
      | (.ok (offset, c), reads) => walk reader stop bound offset c reads
    else some (.ok c, reads)

/-- `eaf_wav_open`, with the reads that it makes. -/
def wavOpen (reader : Reader) (wav : Wav) (source : Source) :
    Option (Rc × Wav × Source × List ReadAt) :=
  if reader.size < 12 then some (EAF_INVALID, wav, source, [])
  else
    let (rc, header) := reader.readAt [] 0 12
    let reads : List ReadAt := [⟨0, 12, 16⟩]
    if rc ≠ EAF_OK then some (rc, wav, source, reads)
    else if header.take 4 ≠ ascii "RIFF" ∨ slice header 8 4 ≠ ascii "WAVE" then
      some (EAF_UNSUPPORTED, wav, source, reads)
    else
      let stop := (u32 header 4).toUInt64 + 8
      if stop < 12 ∨ stop > reader.size then some (EAF_INVALID, wav, source, reads)
      else
        match walk reader stop stop.toNat 12 noChunks reads with
        | none => none
        | some (.error rc, reads) => some (rc, wav, source, reads)
        | some (.ok c, reads) =>
          if c.haveFmt = false ∨ c.haveData = false ∨ c.dataSize % c.align.toUInt64 ≠ 0 then
            some (EAF_INVALID, wav, source, reads)
          else
            let wav : Wav := {
              reader := reader
              dataOffset := c.dataOffset
              position := 0
              totalFrames := c.dataSize / c.align.toUInt64
              format := c.format
              bits := c.bits
              blockAlign := c.align
              scratch := List.replicate 2048 0 }
            some (EAF_OK, wav, ⟨true, c.format, wav.totalFrames⟩, reads)

/-! ## The source -/

/-- The scratch bytes as the 16-bit numbers of a little-endian host. -/
def hostS16 (scratch : List UInt8) (count : Nat) : List Int16 :=
  (List.range count).map fun i => (u16 scratch (2 * i)).toInt16

/-- The samples of `take` frames in the scratch bytes. -/
def scratchSamples (wav : Wav) (take : Nat) : List Int32 :=
  let width := (wav.bits / 8).toNat
  let channels := wav.format.numChannels
  if wav.bits = 16 then
    s16ToQ31Interleaved (hostS16 wav.scratch (take * channels)) take channels channels
  else
    (List.range (take * channels)).map fun i =>
      let raw := assembleLE (slice wav.scratch (i * width) width)
      if wav.bits = 24 then pcm24ToQ31 (signExtend24 raw).toInt32 else pcm32ToQ31 raw.toInt32

/-- The frames that a read takes: no more than the scratch bytes hold, and no more than are left. -/
def takeOf (wav : Wav) (capacity : UInt32) : UInt32 :=
  let left := wav.totalFrames - wav.position
  let take := if capacity < EAF_WAV_BLOCK_FRAMES then capacity else EAF_WAV_BLOCK_FRAMES
  if left < take.toUInt64 then left.toUInt32 else take

/-- `read_frames`: the result, the frames and their samples, the reader, and the reads. -/
def readFrames (wav : Wav) (capacity : UInt32) (reads : List ReadAt) :
    Rc × UInt32 × List Int32 × Wav × List ReadAt :=
  if capacity = 0 then (EAF_INVALID, 0, [], wav, reads)
  else
    let take := takeOf wav capacity
    if take = 0 then (EAF_OK, 0, [], wav, reads)
    else
      let offset := wav.dataOffset + wav.position * wav.blockAlign.toUInt64
      let length := take.toNat * wav.blockAlign.toNat
      let (rc, bytes) := wav.reader.readAt reads offset length
      let reads := reads ++ [⟨offset, length, wav.scratch.length⟩]
      let wav := { wav with scratch := overwrite wav.scratch 0 bytes }
      if rc ≠ EAF_OK then (rc, 0, [], wav, reads)
      else (EAF_OK, take, scratchSamples wav take.toNat,
        { wav with position := wav.position + take.toUInt64 }, reads)

/-- `seek_frame`. -/
def seekFrame (wav : Wav) (frame : UInt64) : Rc × Wav :=
  if frame > wav.totalFrames then (EAF_INVALID, wav) else (EAF_OK, { wav with position := frame })

end EmbeddedAudio.WavFile
