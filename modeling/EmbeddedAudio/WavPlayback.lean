-- A WAV file through the player (dec_wav.c, eaf_player.c), as play_file.c plays one:
-- from the bytes of the file to the frames that the pipeline pulls.
import EmbeddedAudio.PlayerStream
import EmbeddedAudio.WavFrames

namespace EmbeddedAudio.WavPlayback

open Converters LittleEndian Q31 Storage WavFile
open EmbeddedAudio.Core
  (PipelineEnv Reservoir reservoirInit afterPipelineCalls zeroPipeline PipelineCall KeepsRing Mem)
open Playback (ReadAnswer Player playerInit playerRun readFails EAF_PLAYER_DECODE_FRAMES)

/-! ## The file as a source -/

/-- What no read and no seek changes of an opened file. -/
structure Serves (f : FileReader) (start length width channels : Nat) (total : UInt64) (u : Use) :
    Prop where
  playable : Playable u.wav start length
  reader : u.wav.reader = f.reader
  bits : u.wav.bits.toNat = 8 * width
  channels : u.wav.format.numChannels = channels
  total : u.wav.totalFrames = total

/-- An opened file. -/
abbrev Opened (f : FileReader) (start length width channels : Nat) (total : UInt64) : Type :=
  { u : Use // Serves f start length width channels total u }

variable {f : FileReader} {start length width channels : Nat} {total : UInt64}

/-- The samples of the data chunk. -/
def reference (f : FileReader) (start length width channels : Nat) : List Int32 :=
  streamQ31 width channels channels (slice f.file start length)

/-- Where the file stands. -/
def frameOf (u : Opened f start length width channels total) : Nat := u.val.wav.position.toNat

variable {format : Format}

/-- The width of a sample of an opened file, in bytes. -/
def widthOf (wav : Wav) : Nat := wav.bits.toNat / 8

section Opened

variable {wav wav' : Wav} {source source' : WavFile.Source} {reads : List ReadAt}

end Opened

end EmbeddedAudio.WavPlayback
