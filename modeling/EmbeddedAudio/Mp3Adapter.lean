-- The MP3 adapter (dec_mp3.c). The object of the library lives from the first open to the close;
-- between the two it is initialised for one stream after another.
import EmbeddedAudio.StreamDecoder
import EmbeddedAudio.OpusAdapter

namespace EmbeddedAudio.Mp3Adapter

open DecAwait Reads StreamDecoder
open PcmAdapter (DecoderConfig validateOpen)
open BtDecoder (s16ToQ31Interleaved)
open OpusAdapter (widthOf length_s16)

/-! ## The library -/

/-- dr_mp3, with whatever state its decoder has. It decodes no more than it is asked for, a sample
for each channel, and a stream keeps its number of channels. -/
structure Mp3Lib (δ : Type) where
  init : Program UInt8 (Option δ)
  readFrames : δ → Nat → Program UInt8 (Decoded δ Int16)
  channels : δ → Nat
  sampleRate : δ → Nat
  reads_fit : ∀ d cap, (readFrames d cap).All fun r =>
    r.got ≤ cap ∧ r.samples.length = r.got * channels d ∧ channels r.next = channels d

variable {δ σ : Type}

/-! ## The adapter -/

abbrev EAF_DEC_MP3_HEADER_MIN : Nat := 4096
abbrev EAF_DEC_MP3_TEMP_FRAMES : Nat := 1152

/-- `eaf_dec_mp3_t`. The object is `allocated`, and it is initialised when there is a decoder in
it. The counts are those of the calls of `malloc`, `free`, `drmp3_init` and `drmp3_uninit` that
made or gave back something. -/
structure DecMp3 (δ σ : Type) where
  allocated : Bool
  decoder : Option (Held δ)
  fifo : Fifo σ
  format : Format
  cfgChannels : Nat
  mp3Channels : Nat
  outputChannels : Nat
  mallocs : Nat
  frees : Nat
  inits : Nat
  uninits : Nat

/-- What a pull returns. The library has written `written` samples into `temp`. -/
structure Mp3Pull where
  rc : Rc
  frames : Nat
  pcm : List Int32
  format : Option Format
  written : Nat
  deriving DecidableEq, Repr

/-- A pull that gives nothing. -/
def emptyPull (rc : Rc) : Mp3Pull := ⟨rc, 0, [], none, 0⟩

/-- `mp3_uninit`. -/
def mp3Uninit (state : DecMp3 δ σ) : DecMp3 δ σ :=
  if state.allocated ∧ state.decoder.isSome then
    { state with decoder := none, uninits := state.uninits + 1 }
  else state

/-- The end of `mp3_open`, with an object. -/
def mp3Begin (state : DecMp3 δ σ) (cfg : DecoderConfig) (output : Format) : DecMp3 δ σ :=
  { state with
    decoder := none
    fifo := startStream state.fifo
    cfgChannels := cfg.channels
    outputChannels := output.numChannels
    format := output }

/-- `mp3_open`. `memory` tells whether `malloc` has some. -/
def mp3Open (state : DecMp3 δ σ) (cfg : DecoderConfig) (output : Format) (memory : Bool) :
    Rc × DecMp3 δ σ :=
  let rc := validateOpen cfg output .mp3 true
  if rc ≠ EAF_OK then (rc, state)
  else
    let state := mp3Uninit state
    if state.allocated then (EAF_OK, mp3Begin state cfg output)
    else if memory then
      (EAF_OK, mp3Begin { state with allocated := true, mallocs := state.mallocs + 1 } cfg output)
    else ( EAF_IO, state)

/-- `mp3_push`: how many bytes were accepted. -/
def mp3Push (state : DecMp3 δ σ) (data : List UInt8) : Nat × DecMp3 δ σ :=
  ((PcmAdapter.decInputPush state.fifo.input data).1,
    { state with fifo := supplied state.fifo (.push data) })

/-- `eaf_dec_mp3_finish`. -/
def mp3Finish (state : DecMp3 δ σ) : DecMp3 δ σ :=
  { state with fifo := supplied state.fifo .finish }

/-- The checks on the decoder of a new stream, and what they return. -/
def mp3Check (lib : Mp3Lib δ) (state : DecMp3 δ σ) (decoder : δ) : Rc :=
  let channels := lib.channels decoder
  if channels = 0 ∨ 2 < channels ∨ lib.sampleRate decoder ≠ state.format.sampleRate then
    EAF_UNSUPPORTED
  else if state.cfgChannels ≠ 0 ∧ state.cfgChannels ≠ channels then EAF_INVALID
  else if state.outputChannels ≠ channels ∧ ¬ (channels = 1 ∧ state.outputChannels = 2) then
    EAF_UNSUPPORTED
  else EAF_OK

/-- `mp3_uninit` and `eaf_dec_input_reset`, as an error of a pull and `mp3_reset` do. -/
def mp3Drop (state : DecMp3 δ σ) : DecMp3 δ σ :=
  let state := mp3Uninit state
  { state with fifo := startStream state.fifo }

/-- What `mp3_pull` keeps and gives of what the library has decoded. -/
def mp3Emit (state : DecMp3 δ σ) (decoded : Decoded δ Int16) (feed : Feed σ) :
    Mp3Pull × DecMp3 δ σ :=
  let state := { state with decoder := some ⟨decoded.next, feed.heard⟩, fifo := feed.fifo }
  if decoded.got = 0 then ({ emptyPull EAF_OK with written := decoded.samples.length }, state)
  else
    (⟨EAF_OK, decoded.got,
      s16ToQ31Interleaved decoded.samples decoded.got state.mp3Channels state.outputChannels,
      some state.format, decoded.samples.length⟩, state)

/-- The part of `mp3_pull` behind the checks. -/
def mp3Decode (lib : Mp3Lib δ) (state : DecMp3 δ σ) (held : Held δ) (maxFrames : Nat) :
    Option (Mp3Pull × DecMp3 δ σ) :=
  let cap := min maxFrames EAF_DEC_MP3_TEMP_FRAMES
  if cap = 0 then some (emptyPull EAF_INVALID, state)
  else
    ((lib.readFrames held.decoder cap).run readFeed ⟨state.fifo, held.heard⟩).map
      fun (decoded, feed) => mp3Emit state decoded feed

/-- `mp3_pull`. There is no result where a read of the input has none. -/
def mp3Pull (lib : Mp3Lib δ) (state : DecMp3 δ σ) (maxFrames : Nat) :
    Option (Mp3Pull × DecMp3 δ σ) :=
  if !state.allocated then some (emptyPull EAF_STATE, state)
  else
    match state.decoder with
    | some held => mp3Decode lib state held maxFrames
    | none =>
      if needsHeader state.fifo EAF_DEC_MP3_HEADER_MIN then some (emptyPull EAF_OK, state)
      else
        (lib.init.run readFeed ⟨state.fifo, []⟩).bind fun (decoder, feed) =>
          match decoder with
          | none =>
            some (emptyPull EAF_INVALID, { state with fifo := startStream feed.fifo })
          | some decoder =>
            let held : Held δ := ⟨decoder, feed.heard⟩
            let ready := { state with
              decoder := some held
              fifo := feed.fifo
              inits := state.inits + 1 }
            let rc := mp3Check lib ready decoder
            if rc ≠ EAF_OK then some (emptyPull rc, mp3Drop ready)
            else
              mp3Decode lib { ready with mp3Channels := lib.channels decoder } held maxFrames

/-- `mp3_close`. `mp3_reset` is `mp3Drop`. -/
def mp3Close (state : DecMp3 δ σ) : DecMp3 δ σ :=
  let state := mp3Uninit state
  { state with
    allocated := false
    frees := state.frees + if state.allocated then 1 else 0
    fifo := startStream state.fifo }

/-- A call of the adapter. -/
inductive Call where
  | openStream (cfg : DecoderConfig) (output : Format) (memory : Bool)
  | push (data : List UInt8)
  | finish
  | pull (maxFrames : Nat)
  | reset
  | close

/-- What a call leaves, and what a pull returns. -/
def mp3Step (lib : Mp3Lib δ) (state : DecMp3 δ σ) :
    Call → Option (Option Mp3Pull × DecMp3 δ σ)
  | .openStream cfg output memory => some (none, (mp3Open state cfg output memory).2)
  | .push data => some (none, (mp3Push state data).2)
  | .finish => some (none, mp3Finish state)
  | .pull maxFrames => (mp3Pull lib state maxFrames).map fun r => (some r.1, r.2)
  | .reset => some (none, mp3Drop state)
  | .close => some (none, mp3Close state)

/-- The pulls of a run, and the state behind it. -/
def mp3Run (lib : Mp3Lib δ) : DecMp3 δ σ → List Call → Option (List Mp3Pull × DecMp3 δ σ)
  | state, [] => some ([], state)
  | state, call :: calls =>
    (mp3Step lib state call).bind fun (pull, state) =>
      (mp3Run lib state calls).map fun (pulls, state) => (pull.toList ++ pulls, state)

/-- A state before its first stream, over a ring with any bytes in it. -/
def mp3Start (ring : List UInt8) (await : Option (AwaitFn σ)) (awaitCtx : σ) : DecMp3 δ σ where
  allocated := false
  decoder := none
  fifo := fifoInit ring await awaitCtx
  format := ⟨0, 0, 0⟩
  cfgChannels := 0
  mp3Channels := 0
  outputChannels := 0
  mallocs := 0
  frees := 0
  inits := 0
  uninits := 0

/-! ## The invariant -/

/-- What the checks have found out about a decoder. -/
structure Checked (lib : Mp3Lib δ) (state : DecMp3 δ σ) (d : δ) : Prop where
  channels : state.mp3Channels = lib.channels d
  few : state.mp3Channels = 1 ∨ state.mp3Channels = 2
  output : state.outputChannels = state.mp3Channels ∨
    state.mp3Channels = 1 ∧ state.outputChannels = 2

/-- The object and the decoder in it are counted. -/
structure Counted (state : DecMp3 δ σ) : Prop where
  served : Served state.fifo
  objects : state.mallocs = state.frees + if state.allocated then 1 else 0
  decoders : state.inits = state.uninits + if state.decoder.isSome then 1 else 0
  owned : state.decoder.isSome → state.allocated

/-- The decoder follows the stream and has passed the checks. -/
structure Sound (lib : Mp3Lib δ) (state : DecMp3 δ σ) : Prop extends Counted state where
  follows : Follows state.decoder state.fifo
  checked : ∀ held, state.decoder = some held → Checked lib state held.decoder

/-- What a pull gives. -/
structure Pulled (state : DecMp3 δ σ) (maxFrames : Nat) (pull : Mp3Pull) : Prop where
  frames : pull.frames ≤ min maxFrames EAF_DEC_MP3_TEMP_FRAMES
  written : pull.written ≤ EAF_DEC_MP3_TEMP_FRAMES * 2
  pcm : pull.pcm.length = pull.frames * state.outputChannels
  format : ∀ format, pull.format = some format → format = state.format

theorem pulled_empty (state : DecMp3 δ σ) (maxFrames : Nat) (rc : Rc) :
    Pulled state maxFrames (emptyPull rc) := by
  refine ⟨Nat.zero_le _, Nat.zero_le _, ?_, fun _ h => absurd h.symm (Option.some_ne_none _)⟩
  rw [emptyPull, Nat.zero_mul, List.length_nil]

theorem mp3Check_ok {lib : Mp3Lib δ} {state : DecMp3 δ σ} {d : δ}
    (h : mp3Check lib state d = EAF_OK) :
    Checked lib { state with mp3Channels := lib.channels d } d := by
  unfold mp3Check at h
  dsimp only at h
  split at h
  · exact absurd h (by decide)
  split at h
  · exact absurd h (by decide)
  split at h
  · exact absurd h (by decide)
  rename_i hrange _ houtput
  simp only [not_or, not_lt] at hrange
  rw [not_and_or, not_not, not_not] at houtput
  refine ⟨rfl, ?_, houtput⟩
  dsimp only
  omega

section Steps

variable {lib : Mp3Lib δ} {state : DecMp3 δ σ}

theorem sound_start (lib : Mp3Lib δ) {ring : List UInt8} (hring : ring ≠ [])
    {await : Option (AwaitFn σ)} (hawait : ∀ fn, await = some fn → Delivers fn) (awaitCtx : σ) :
    Sound lib (mp3Start ring await awaitCtx) :=
  ⟨⟨⟨aligned_init hring await awaitCtx, hawait⟩, rfl, rfl, fun h => Bool.noConfusion h⟩, rfl,
    fun _ h => absurd h.symm (Option.some_ne_none _)⟩

/-- What is left of a state by `mp3_uninit`, the bytes of its stream apart. -/
structure Idle (state : DecMp3 δ σ) : Prop where
  served : Served state.fifo
  objects : state.mallocs = state.frees + if state.allocated then 1 else 0
  decoder : state.decoder = none
  decoders : state.inits = state.uninits

theorem idle_uninit (h : Counted state) : Idle (mp3Uninit state) := by
  have hdecoders := h.decoders
  unfold mp3Uninit
  split
  · rename_i hheld
    rw [if_pos hheld.2] at hdecoders
    exact ⟨h.served, h.objects, rfl, hdecoders⟩
  · rename_i hnone
    have hdecoder : state.decoder = none := by
      cases hdecoder : state.decoder with
      | none => rfl
      | some held =>
        have hsome : state.decoder.isSome := by rw [hdecoder, Option.isSome_some]
        exact absurd ⟨h.owned hsome, hsome⟩ hnone
    rw [hdecoder] at hdecoders
    exact ⟨h.served, h.objects, hdecoder, by simpa using hdecoders⟩

/-- A new stream after `mp3_uninit`. -/
theorem sound_restart (h : Idle state) : Sound lib { state with fifo := startStream state.fifo } :=
  by
  refine ⟨⟨served_startStream h.served, h.objects, ?_, ?_⟩, ?_, ?_⟩
  · simp [h.decoder, h.decoders]
  · simp [h.decoder]
  · simp only [h.decoder, Follows]
    rfl
  · simp [h.decoder]

theorem sound_drop (h : Counted state) : Sound lib (mp3Drop state) :=
  sound_restart (idle_uninit h)

theorem sound_begin (h : Idle state) (cfg : DecoderConfig) (output : Format) :
    Sound lib (mp3Begin state cfg output) := by
  refine ⟨⟨served_startStream h.served, h.objects, ?_, fun h => Bool.noConfusion h⟩, rfl,
    fun _ h => absurd h.symm (Option.some_ne_none _)⟩
  simp [mp3Begin, h.decoders]

theorem sound_open (h : Sound lib state) (cfg : DecoderConfig) (output : Format) (memory : Bool) :
    Sound lib (mp3Open state cfg output memory).2 := by
  unfold mp3Open
  dsimp only
  split
  · exact h
  have hidle := idle_uninit h.toCounted
  split
  · exact sound_begin hidle cfg output
  rename_i hobject
  split
  · have hobjects := hidle.objects
    rw [if_neg hobject] at hobjects
    have hready : Idle { mp3Uninit state with
        allocated := true, mallocs := (mp3Uninit state).mallocs + 1 } := by
      refine ⟨hidle.served, ?_, hidle.decoder, hidle.decoders⟩
      rw [if_pos rfl, hobjects]
    exact sound_begin hready cfg output
  · -- Without an object `mp3_uninit` has done nothing.
    have hsame : mp3Uninit state = state := by
      unfold mp3Uninit
      rw [if_neg]
      intro hheld
      unfold mp3Uninit at hobject
      rw [if_pos hheld] at hobject
      exact hobject hheld.1
    rw [hsame]
    exact h

theorem sound_close (h : Sound lib state) : Sound lib (mp3Close state) := by
  have hidle := idle_uninit h.toCounted
  have hobjects := hidle.objects
  have hfreed : Idle { mp3Uninit state with
      allocated := false
      frees := (mp3Uninit state).frees + if (mp3Uninit state).allocated then 1 else 0 } := by
    refine ⟨hidle.served, ?_, hidle.decoder, hidle.decoders⟩
    simpa using hobjects
  exact sound_restart hfreed

theorem sound_supplied (h : Sound lib state) (supply : Supply) :
    Sound lib { state with fifo := supplied state.fifo supply } :=
  ⟨⟨served_supplied h.served supply, h.objects, h.decoders, h.owned⟩,
    follows_supplied h.follows supply, fun held hheld =>
      ⟨(h.checked held hheld).1, (h.checked held hheld).2, (h.checked held hheld).3⟩⟩

/-- A decoder that has passed the checks goes on where it stopped. -/
theorem sound_decode {held : Held δ} (h : Sound lib state) (hheld : state.decoder = some held)
    (maxFrames : Nat) :
    ∃ pull state', mp3Decode lib state held maxFrames = some (pull, state') ∧ Sound lib state' ∧
      Pulled state maxFrames pull := by
  unfold mp3Decode
  dsimp only
  split
  · exact ⟨_, _, rfl, h, pulled_empty ..⟩
  have hfollows := h.follows
  rw [hheld] at hfollows
  obtain ⟨decoded, feed, hrun, hfed, hgot, hsamples, hkept⟩ :=
    (lib.readFrames held.decoder (min maxFrames EAF_DEC_MP3_TEMP_FRAMES)).run_serves
      (s := ⟨state.fifo, held.heard⟩) readFeed_serves ⟨h.served, hfollows⟩
      (lib.reads_fit held.decoder (min maxFrames EAF_DEC_MP3_TEMP_FRAMES))
  have hchecked := h.checked held hheld
  have hdecoders := h.decoders
  rw [hheld] at hdecoders
  have hsound : Sound lib { state with
      decoder := some ⟨decoded.next, feed.heard⟩, fifo := feed.fifo } := by
    refine ⟨⟨hfed.served, h.objects, hdecoders, ?_⟩, hfed.heard, ?_⟩
    · intro _
      apply h.owned
      rw [hheld, Option.isSome_some]
    · intro held' hheld'
      rw [← Option.some.inj hheld']
      exact ⟨hchecked.channels.trans hkept.symm, hchecked.few, hchecked.output⟩
  have hwritten : decoded.samples.length ≤ EAF_DEC_MP3_TEMP_FRAMES * 2 := by
    rw [hsamples, ← hchecked.channels]
    apply Nat.mul_le_mul
    · omega
    · have hfew := hchecked.few
      omega
  rw [hrun, Option.map_some]
  dsimp only
  unfold mp3Emit
  dsimp only
  split
  · exact ⟨_, _, rfl, hsound, Nat.zero_le _, hwritten, (pulled_empty state maxFrames EAF_OK).pcm,
      fun _ h => absurd h.symm (Option.some_ne_none _)⟩
  · refine ⟨_, _, rfl, hsound, hgot, hwritten, ?_, fun _ h => (Option.some.inj h).symm⟩
    rw [length_s16, widthOf]
    have hfew := hchecked.few
    have houtput := hchecked.output
    congr 1
    split <;> omega

theorem sound_pull (h : Sound lib state) (maxFrames : Nat) :
    ∃ pull state', mp3Pull lib state maxFrames = some (pull, state') ∧ Sound lib state' ∧
      Pulled state maxFrames pull := by
  unfold mp3Pull
  split
  · exact ⟨_, _, rfl, h, pulled_empty ..⟩
  rename_i hobject
  have hallocated : state.allocated = true := by simpa using hobject
  cases hdecoder : state.decoder with
  | some held => exact sound_decode h hdecoder maxFrames
  | none =>
    have hfollows := h.follows
    have hdecoders := h.decoders
    rw [hdecoder] at hfollows hdecoders
    dsimp only
    split
    · exact ⟨_, _, rfl, h, pulled_empty ..⟩
    obtain ⟨decoder, feed, hrun, hfed, -⟩ :=
      lib.init.run_serves (s := ⟨state.fifo, []⟩) readFeed_serves ⟨h.served, hfollows.symm⟩
        lib.init.all_true
    rw [hrun, Option.bind_some]
    cases decoder with
    | none =>
      have hidle : Idle ({ state with decoder := none, fifo := feed.fifo } : DecMp3 δ σ) :=
        ⟨hfed.served, h.objects, rfl, by simpa using hdecoders⟩
      exact ⟨_, _, rfl, sound_restart hidle, pulled_empty ..⟩
    | some decoder =>
      have hready : Counted { state with
          decoder := some (⟨decoder, feed.heard⟩ : Held δ)
          fifo := feed.fifo
          inits := state.inits + 1 } := by
        refine ⟨hfed.served, h.objects, ?_, fun _ => hallocated⟩
        simpa using hdecoders
      dsimp only
      split
      · exact ⟨_, _, rfl, sound_drop hready, pulled_empty ..⟩
      rename_i hpass
      have hchecked := mp3Check_ok (not_not.mp hpass)
      have hsettled : Sound lib { state with
          decoder := some (⟨decoder, feed.heard⟩ : Held δ)
          fifo := feed.fifo
          inits := state.inits + 1
          mp3Channels := lib.channels decoder } := by
        refine ⟨⟨hready.served, hready.objects, hready.decoders, hready.owned⟩, hfed.heard, ?_⟩
        intro held hheld
        rw [← Option.some.inj hheld]
        exact ⟨hchecked.channels, hchecked.few, hchecked.output⟩
      obtain ⟨pull, state', hdecode, hsound, hpulled⟩ := sound_decode hsettled rfl maxFrames
      exact ⟨pull, state', hdecode, hsound, hpulled.frames, hpulled.written, hpulled.pcm,
        hpulled.format⟩

theorem sound_step (h : Sound lib state) (call : Call) :
    ∃ pull state', mp3Step lib state call = some (pull, state') ∧ Sound lib state' := by
  cases call with
  | openStream cfg output memory => exact ⟨_, _, rfl, sound_open h cfg output memory⟩
  | push data => exact ⟨_, _, rfl, sound_supplied h (.push data)⟩
  | finish => exact ⟨_, _, rfl, sound_supplied h .finish⟩
  | pull maxFrames =>
    obtain ⟨pull, state', hpull, hsound, -⟩ := sound_pull h maxFrames
    refine ⟨some pull, state', ?_, hsound⟩
    rw [mp3Step, hpull, Option.map_some]
  | reset => exact ⟨_, _, rfl, sound_drop h.toCounted⟩
  | close => exact ⟨_, _, rfl, sound_close h⟩

theorem sound_run (calls : List Call) {state : DecMp3 δ σ} (h : Sound lib state) :
    ∃ pulls state', mp3Run lib state calls = some (pulls, state') ∧ Sound lib state' := by
  induction calls generalizing state with
  | nil => exact ⟨[], state, rfl, h⟩
  | cons call calls ih =>
    obtain ⟨pull, middle, hstep, hmiddle⟩ := sound_step h call
    obtain ⟨pulls, state', hrun, hsound⟩ := ih hmiddle
    refine ⟨pull.toList ++ pulls, state', ?_, hsound⟩
    rw [mp3Run, hstep, Option.bind_some]
    dsimp only
    rw [hrun, Option.map_some]

end Steps

/-- Whatever is called, whatever the library reads, whatever the await function delivers and
whenever memory runs out: each call returns. The decoder has read a first part of the bytes that
were accepted for its stream, in order, and no other byte. The object that was allocated is there
or was freed, and in it a decoder that was initialised is there or was given back. -/
theorem mp3_follows (lib : Mp3Lib δ) {ring : List UInt8} (hring : ring ≠ [])
    (await : Option (AwaitFn σ)) (hawait : ∀ fn, await = some fn → Delivers fn) (awaitCtx : σ)
    (calls : List Call) :
    ∃ pulls state, mp3Run lib (mp3Start ring await awaitCtx) calls = some (pulls, state) ∧
      (∀ held, state.decoder = some held → held.heard <+: state.fifo.accepted) ∧
      (state.decoder = none → state.fifo.returned = []) ∧
      state.mallocs = state.frees + (if state.allocated then 1 else 0) ∧
      state.inits = state.uninits + (if state.decoder.isSome then 1 else 0) := by
  obtain ⟨pulls, state, hrun, hsound⟩ := sound_run calls (sound_start lib hring hawait awaitCtx)
  have hfollows := hsound.follows
  refine ⟨pulls, state, hrun, ?_, ?_, hsound.objects, hsound.decoders⟩
  · intro held hheld
    rw [hheld] at hfollows
    rw [show held.heard = _ from hfollows]
    exact hsound.served.aligned.once
  · intro hnone
    rw [hnone] at hfollows
    exact hfollows

/-- A library that reads a header of four bytes and then a byte for each frame of silence. -/
def silentMp3 : Mp3Lib Unit where
  init := .read 4 fun given => .done (if given.length = 4 then some () else none)
  readFrames := fun _ cap => .read cap fun given =>
    .done ⟨min given.length cap, List.replicate (min given.length cap) 0, ()⟩
  channels := fun _ => 1
  sampleRate := fun _ => 44100
  reads_fit := by
    intro d cap given
    exact ⟨Nat.min_le_right _ _, by simp, rfl⟩

/-- A ring of eight cells. The first stream is of another rate and is refused; of the second the
header and two frames are read, and then its end. -/
theorem mp3_follows_eight :
    ∃ pulls state, mp3Run silentMp3 (mp3Start (List.replicate 8 0) (some twoAtATime) 3)
        [.openStream ⟨.mp3, 48000, 1, 16⟩ ⟨48000, 2, 3⟩ true, .pull 2,
          .openStream ⟨.mp3, 44100, 0, 16⟩ ⟨44100, 2, 3⟩ false, .pull 2, .pull 5, .close] =
          some (pulls, state) ∧
      (∀ held, state.decoder = some held → held.heard <+: state.fifo.accepted) ∧
      (state.decoder = none → state.fifo.returned = []) ∧
      state.mallocs = state.frees + (if state.allocated then 1 else 0) ∧
      state.inits = state.uninits + (if state.decoder.isSome then 1 else 0) := by
  apply mp3_follows silentMp3 (List.cons_ne_nil _ _) (some twoAtATime)
  intro fn hfn
  rw [← Option.some.inj hfn]
  exact delivers_twoAtATime

/-! ## The buffers -/

/-- In every state, and whatever the stream contains, a pull stays in `temp` and in a block for
the frames that it was asked for. -/
theorem mp3_pull_fits (lib : Mp3Lib δ) {ring : List UInt8} (hring : ring ≠ [])
    (await : Option (AwaitFn σ)) (hawait : ∀ fn, await = some fn → Delivers fn) (awaitCtx : σ)
    (calls : List Call) :
    ∃ pulls state, mp3Run lib (mp3Start ring await awaitCtx) calls = some (pulls, state) ∧
      ∀ maxFrames, ∃ pull state', mp3Pull lib state maxFrames = some (pull, state') ∧
        pull.frames ≤ maxFrames ∧ pull.written ≤ EAF_DEC_MP3_TEMP_FRAMES * 2 ∧
        pull.pcm.length = pull.frames * state.outputChannels ∧
        ∀ format, pull.format = some format → format = state.format := by
  obtain ⟨pulls, state, hrun, hsound⟩ := sound_run calls (sound_start lib hring hawait awaitCtx)
  refine ⟨pulls, state, hrun, ?_⟩
  intro maxFrames
  obtain ⟨pull, state', hpull, -, hpulled⟩ := sound_pull hsound maxFrames
  exact ⟨pull, state', hpull, hpulled.frames.trans (Nat.min_le_left _ _), hpulled.written,
    hpulled.pcm, hpulled.format⟩

theorem mp3_pull_fits_eight :
    ∃ pulls state, mp3Run silentMp3 (mp3Start (List.replicate 8 0) (some twoAtATime) 3)
        [.openStream ⟨.mp3, 44100, 0, 16⟩ ⟨44100, 2, 3⟩ true] = some (pulls, state) ∧
      ∀ maxFrames, ∃ pull state', mp3Pull silentMp3 state maxFrames = some (pull, state') ∧
        pull.frames ≤ maxFrames ∧ pull.written ≤ EAF_DEC_MP3_TEMP_FRAMES * 2 ∧
        pull.pcm.length = pull.frames * state.outputChannels ∧
        ∀ format, pull.format = some format → format = state.format := by
  apply mp3_pull_fits silentMp3 (List.cons_ne_nil _ _) (some twoAtATime)
  intro fn hfn
  rw [← Option.some.inj hfn]
  exact delivers_twoAtATime

end EmbeddedAudio.Mp3Adapter
