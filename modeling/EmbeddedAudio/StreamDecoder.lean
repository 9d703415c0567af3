-- What the FLAC and the MP3 adapter (dec_flac.c, dec_mp3.c) share: a library that reads the
-- stream through a callback whenever it wants, and the decoder that it has made.
import EmbeddedAudio.DecAwait
import EmbeddedAudio.Reads

namespace EmbeddedAudio.StreamDecoder

open DecAwait Reads
open PcmAdapter (decInputReset)

variable {δ σ : Type}

/-! ## The callback -/

/-- A decoder of the library, with all the bytes that it has read. -/
structure Held (δ : Type) where
  decoder : δ
  heard : List UInt8

/-- The input of an adapter while a decoder reads it. -/
structure Feed (σ : Type) where
  fifo : Fifo σ
  heard : List UInt8

/-- The read callback, `eaf_dec_input_read`. -/
def readFeed (feed : Feed σ) (length : Nat) : Option (List UInt8 × Feed σ) :=
  (decInputRead feed.fifo length).map fun done => (done.bytes, ⟨done.fifo, feed.heard ++ done.bytes⟩)

/-- What a library decodes into its caller's buffer, and its state behind it. -/
structure Decoded (δ : Type) (τ : Type) where
  got : Nat
  samples : List τ
  next : δ

/-- `eaf_dec_input_init` over the ring of before, or `eaf_dec_input_reset`. Both start a stream. -/
def startStream (fifo : Fifo σ) : Fifo σ :=
  { fifo with input := decInputReset fifo.input, accepted := [], returned := [] }

/-- The test for enough of a header. Without an await function a short read would be taken for the
end of the stream. -/
def needsHeader (fifo : Fifo σ) (headerMin : Nat) : Bool :=
  fifo.await.isNone && decide (fifo.input.count < headerMin) && !fifo.input.eof

/-! ## The bytes that a decoder has read -/

/-- An input whose await function keeps its promise. -/
structure Served (fifo : Fifo σ) : Prop where
  aligned : Aligned fifo
  delivers : ∀ await, fifo.await = some await → Delivers await

/-- A decoder has read the stream from its first byte on, and nothing else. -/
def Follows (held : Option (Held δ)) (fifo : Fifo σ) : Prop :=
  match held with
  | none => fifo.returned = []
  | some held => held.heard = fifo.returned

/-- The feed of a decoder that follows the stream. -/
structure Fed (feed : Feed σ) : Prop where
  served : Served feed.fifo
  heard : feed.heard = feed.fifo.returned

theorem served_startStream {fifo : Fifo σ} (h : Served fifo) : Served (startStream fifo) :=
  ⟨⟨Nat.lt_of_le_of_lt (Nat.zero_le _) h.aligned.tail, Nat.zero_le _, rfl⟩, h.delivers⟩

theorem served_supplied {fifo : Fifo σ} (h : Served fifo) (supply : Supply) :
    Served (supplied fifo supply) := by
  refine ⟨aligned_supplied h.aligned supply, ?_⟩
  rw [(supplied_frame fifo supply).1]
  exact h.delivers

theorem follows_supplied {held : Option (Held δ)} {fifo : Fifo σ} (h : Follows held fifo)
    (supply : Supply) : Follows held (supplied fifo supply) := by
  unfold Follows at h ⊢
  rw [(supplied_frame fifo supply).2]
  exact h

/-- The callback always answers. -/
theorem readFeed_serves : Serves (readFeed (σ := σ)) Fed := by
  intro feed length h
  obtain ⟨done, hdone, hout⟩ :=
    readLoop_outcome _ h.served.aligned h.served.delivers (cost_le feed.fifo length)
  refine ⟨done.bytes, ⟨done.fifo, feed.heard ++ done.bytes⟩, ?_, ⟨hout.aligned, ?_⟩, ?_⟩
  · rw [readFeed, decInputRead, hdone, Option.map_some]
  · rw [hout.await]
    exact h.served.delivers
  · rw [hout.returned, h.heard]

end EmbeddedAudio.StreamDecoder
