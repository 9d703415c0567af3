-- The chunks of a RIFF file: each has a name of four bytes, the length of its body
-- and its body, and a body of odd length has one more byte behind it. Nothing here
-- is about audio.
import EmbeddedAudio.LittleEndian

namespace EmbeddedAudio.RiffChunks

open LittleEndian Storage

/-! ## Chunks -/

/-- A chunk. -/
structure RiffChunk where
  name : List UInt8
  size : List UInt8
  body : List UInt8
  pad : List UInt8
  name_length : name.length = 4
  size_length : size.length = 4
  size_eq : readLE size = body.length
  pad_length : pad.length = body.length % 2

/-- The bytes of a chunk. -/
def RiffChunk.bytes (c : RiffChunk) : List UInt8 := c.name ++ (c.size ++ (c.body ++ c.pad))

/-- The bodies of the chunks with a name. -/
def named (name : List UInt8) (chunks : List RiffChunk) : List (List UInt8) :=
  (chunks.filter fun c => c.name = name).map RiffChunk.body

/-- The bytes of `RIFF`. -/
def riffName : List UInt8 := [0x52, 0x49, 0x46, 0x46]

/-- A RIFF file of some form: chunk behind chunk from offset 12 on, as far as the length in its
header says. -/
structure RiffFile (form file : List UInt8) (chunks : List RiffChunk) : Prop where
  riff : slice file 0 4 = riffName
  form : slice file 8 4 = form
  least : 4 ≤ readLE (slice file 4 4)
  most : 8 + readLE (slice file 4 4) ≤ file.length
  laid : chunks.flatMap RiffChunk.bytes = slice file 12 (readLE (slice file 4 4) - 4)

/-! ## One way to read the bytes -/

theorem bytes_ne_nil (c : RiffChunk) : c.bytes ≠ [] := by
  intro h
  have hlength := c.name_length
  rw [(List.append_eq_nil_iff.mp h).1] at hlength
  cases hlength

/-- The first chunk is what the bytes begin with. -/
theorem bytes_first {c d : RiffChunk} {rest rest' : List UInt8}
    (h : c.bytes ++ rest = d.bytes ++ rest') : c = d ∧ rest = rest' := by
  unfold RiffChunk.bytes at h
  simp only [List.append_assoc] at h
  obtain ⟨hname, h⟩ := List.append_inj h (c.name_length.trans d.name_length.symm)
  obtain ⟨hsize, h⟩ := List.append_inj h (c.size_length.trans d.size_length.symm)
  have hlength : c.body.length = d.body.length := by rw [← c.size_eq, ← d.size_eq, hsize]
  obtain ⟨hbody, h⟩ := List.append_inj h hlength
  obtain ⟨hpad, hrest⟩ := List.append_inj h (by rw [c.pad_length, d.pad_length, hlength])
  refine ⟨?_, hrest⟩
  cases c
  cases d
  simp only at hname hsize hbody hpad
  subst hname hsize hbody hpad
  rfl

theorem chunks_unique {chunks others : List RiffChunk}
    (h : chunks.flatMap RiffChunk.bytes = others.flatMap RiffChunk.bytes) : chunks = others := by
  induction chunks generalizing others with
  | nil =>
    cases others with
    | nil => rfl
    | cons d others => exact absurd (List.append_eq_nil_iff.mp h.symm).1 (bytes_ne_nil d)
  | cons c chunks ih =>
    cases others with
    | nil => exact absurd (List.append_eq_nil_iff.mp h).1 (bytes_ne_nil c)
    | cons d others =>
      obtain ⟨hfirst, hrest⟩ := bytes_first h
      rw [hfirst, ih hrest]

/-- A file has its chunks in one way only. -/
theorem RiffFile.unique {form file : List UInt8} {chunks others : List RiffChunk}
    (h : RiffFile form file chunks) (h' : RiffFile form file others) : chunks = others :=
  chunks_unique (h.laid.trans h'.laid.symm)

/-! ## One chunk more -/

theorem named_snoc (name : List UInt8) (chunks : List RiffChunk) (c : RiffChunk) :
    named name (chunks ++ [c]) = named name chunks ++ if c.name = name then [c.body] else [] := by
  unfold named
  rw [List.filter_append, List.map_append]
  congr 1
  by_cases h : c.name = name
  · simp [h]
  · simp [h]

/-- The chunk at a place. -/
def chunkAt (file : List UInt8) (place : Nat)
    (h : place + 8 + readLE (slice file (place + 4) 4) +
      readLE (slice file (place + 4) 4) % 2 ≤ file.length) : RiffChunk where
  name := slice file place 4
  size := slice file (place + 4) 4
  body := slice file (place + 8) (readLE (slice file (place + 4) 4))
  pad := slice file (place + 8 + readLE (slice file (place + 4) 4))
    (readLE (slice file (place + 4) 4) % 2)
  name_length := length_slice (by omega)
  size_length := length_slice (by omega)
  size_eq := (length_slice (by omega)).symm
  pad_length := by
    rw [length_slice (by omega), length_slice (by omega)]

theorem bytes_chunkAt (file : List UInt8) (place : Nat)
    (h : place + 8 + readLE (slice file (place + 4) 4) +
      readLE (slice file (place + 4) 4) % 2 ≤ file.length) :
    (chunkAt file place h).bytes = slice file place
      (8 + readLE (slice file (place + 4) 4) + readLE (slice file (place + 4) 4) % 2) := by
  unfold RiffChunk.bytes chunkAt
  simp only
  rw [slice_append, show place + 8 = place + 4 + 4 from rfl, slice_append, slice_append]
  congr 1
  omega

end EmbeddedAudio.RiffChunks
