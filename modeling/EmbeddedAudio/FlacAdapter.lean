-- The FLAC adapter (dec_flac.c). The library reads the stream while it opens and while it
-- decodes; its decoder is kept from one pull to the next.
import EmbeddedAudio.StreamDecoder
import EmbeddedAudio.OpusAdapter

namespace EmbeddedAudio.FlacAdapter

open DecAwait Q31 Reads StreamDecoder
open PcmAdapter (DecoderConfig validateOpen)

/-! ## The library -/

/-- dr_flac, with whatever state its decoder has. It decodes no more than it is asked for, and a
sample for each channel of the stream. -/
structure FlacLib (δ : Type) where
  openStream : Program UInt8 (Option δ)
  readFrames : δ → Nat → Program UInt8 (Decoded δ Int32)
  channels : δ → Nat
  reads_fit : ∀ d cap, (readFrames d cap).All fun r =>
    r.got ≤ cap ∧ r.samples.length = r.got * channels d

variable {δ σ : Type}

/-! ## The adapter -/

abbrev EAF_DEC_FLAC_HEADER_MIN : Nat := 4096
abbrev EAF_DEC_FLAC_TEMP_FRAMES : Nat := 512

/-- `eaf_dec_flac_t`. `opened`, `closed` and `lost` count the decoders that were made, that were
closed, and that the adapter let go of without closing them. -/
structure DecFlac (δ σ : Type) where
  flac : Option (Held δ)
  fifo : Fifo σ
  format : Format
  flacChannels : Nat
  outputChannels : Nat
  opened : Nat
  closed : Nat
  lost : Nat

/-- What a pull returns. The library has written `written` samples into a buffer for `room`. -/
structure FlacPull where
  rc : Rc
  frames : Nat
  pcm : List Int32
  format : Option Format
  written : Nat
  room : Nat
  deriving DecidableEq, Repr

/-- `flac_open`. A decoder that is still there is not closed. -/
def flacOpen (state : DecFlac δ σ) (cfg : DecoderConfig) (output : Format) : Rc × DecFlac δ σ :=
  let rc := validateOpen cfg output .flac false
  if rc ≠ EAF_OK then (rc, state)
  else (EAF_OK, { state with
    flac := none
    fifo := startStream state.fifo
    flacChannels := cfg.channels
    outputChannels := output.numChannels
    format := output
    lost := state.lost + if state.flac.isSome then 1 else 0 })

/-- `flac_push`: how many bytes were accepted. -/
def flacPush (state : DecFlac δ σ) (data : List UInt8) : Nat × DecFlac δ σ :=
  ((PcmAdapter.decInputPush state.fifo.input data).1,
    { state with fifo := supplied state.fifo (.push data) })

/-- `eaf_dec_flac_finish`. -/
def flacFinish (state : DecFlac δ σ) : DecFlac δ σ :=
  { state with fifo := supplied state.fifo .finish }

/-- The frames that a pull asks the library for. -/
def flacCap (state : DecFlac δ σ) (maxFrames : Nat) : Nat :=
  if state.flacChannels ≠ state.outputChannels then min maxFrames EAF_DEC_FLAC_TEMP_FRAMES
  else maxFrames

/-- The samples that there is room for, in `temp` or in the caller's block. -/
def flacRoom (state : DecFlac δ σ) (maxFrames : Nat) : Nat :=
  if state.flacChannels ≠ state.outputChannels then EAF_DEC_FLAC_TEMP_FRAMES
  else maxFrames * state.outputChannels

/-- The part of `flac_pull` behind the opening of the decoder. -/
def flacDecode (lib : FlacLib δ) (state : DecFlac δ σ) (held : Held δ) (maxFrames : Nat) :
    Option (FlacPull × DecFlac δ σ) :=
  let cap := flacCap state maxFrames
  let room := flacRoom state maxFrames
  if cap = 0 then some (⟨EAF_INVALID, 0, [], none, 0, room⟩, state)
  else
    ((lib.readFrames held.decoder cap).run readFeed ⟨state.fifo, held.heard⟩).map
      fun (decoded, feed) =>
        let state := { state with flac := some ⟨decoded.next, feed.heard⟩, fifo := feed.fifo }
        if decoded.got = 0 then (⟨EAF_OK, 0, [], none, decoded.samples.length, room⟩, state)
        else
          let pcm := if state.flacChannels ≠ state.outputChannels then
              q31Interleaved decoded.samples decoded.got state.flacChannels state.outputChannels
            else decoded.samples
          (⟨EAF_OK, decoded.got, pcm, some state.format, decoded.samples.length, room⟩, state)

/-- `flac_pull`. There is no result where a read of the input has none. -/
def flacPull (lib : FlacLib δ) (state : DecFlac δ σ) (maxFrames : Nat) :
    Option (FlacPull × DecFlac δ σ) :=
  match state.flac with
  | some held => flacDecode lib state held maxFrames
  | none =>
    if needsHeader state.fifo EAF_DEC_FLAC_HEADER_MIN then
      some (⟨EAF_OK, 0, [], none, 0, 0⟩, state)
    else
      (lib.openStream.run readFeed ⟨state.fifo, []⟩).bind fun (decoder, feed) =>
        match decoder with
        | none =>
          some (⟨EAF_INVALID, 0, [], none, 0, 0⟩, { state with fifo := startStream feed.fifo })
        | some decoder =>
          let held := ⟨decoder, feed.heard⟩
          flacDecode lib { state with
            flac := some held
            fifo := feed.fifo
            opened := state.opened + 1 } held maxFrames

/-- The decoder that a pull goes on with: the one that is held, or the one that it opens. -/
def pullDecoder (lib : FlacLib δ) (state : DecFlac δ σ) : Option δ :=
  match state.flac with
  | some held => some held.decoder
  | none =>
    if needsHeader state.fifo EAF_DEC_FLAC_HEADER_MIN then none
    else (lib.openStream.run readFeed ⟨state.fifo, []⟩).bind fun opened => opened.1

/-- `flac_release`. -/
def flacRelease (state : DecFlac δ σ) : DecFlac δ σ :=
  if state.flac.isSome then { state with flac := none, closed := state.closed + 1 } else state

/-- `flac_reset`, and `flac_close` as well. -/
def flacReset (state : DecFlac δ σ) : DecFlac δ σ :=
  let state := flacRelease state
  { state with fifo := startStream state.fifo }

/-- A call of the adapter. -/
inductive Call where
  | openStream (cfg : DecoderConfig) (output : Format)
  | push (data : List UInt8)
  | finish
  | pull (maxFrames : Nat)
  | reset
  | close

/-- What a call leaves, and what a pull returns. -/
def flacStep (lib : FlacLib δ) (state : DecFlac δ σ) :
    Call → Option (Option FlacPull × DecFlac δ σ)
  | .openStream cfg output => some (none, (flacOpen state cfg output).2)
  | .push data => some (none, (flacPush state data).2)
  | .finish => some (none, flacFinish state)
  | .pull maxFrames => (flacPull lib state maxFrames).map fun r => (some r.1, r.2)
  | .reset => some (none, flacReset state)
  | .close => some (none, flacReset state)

/-- The pulls of a run, and the state behind it. -/
def flacRun (lib : FlacLib δ) : DecFlac δ σ → List Call → Option (List FlacPull × DecFlac δ σ)
  | state, [] => some ([], state)
  | state, call :: calls =>
    (flacStep lib state call).bind fun (pull, state) =>
      (flacRun lib state calls).map fun (pulls, state) => (pull.toList ++ pulls, state)

/-- A state before its first stream, over a ring with any bytes in it. -/
def flacStart (ring : List UInt8) (await : Option (AwaitFn σ)) (awaitCtx : σ) : DecFlac δ σ where
  flac := none
  fifo := fifoInit ring await awaitCtx
  format := ⟨0, 0, 0⟩
  flacChannels := 0
  outputChannels := 0
  opened := 0
  closed := 0
  lost := 0

/-! ## One pull -/

theorem length_q31 (src : List Int32) (n channels out : Nat) :
    (q31Interleaved src n channels out).length = n * OpusAdapter.widthOf out := by
  unfold q31Interleaved OpusAdapter.widthOf
  induction n with
  | zero => rw [Nat.zero_mul]; rfl
  | succ n ih =>
    rw [List.range_succ, List.flatMap_append, List.length_append, ih, List.flatMap_singleton,
      Nat.succ_mul]
    split <;> rfl

/-- What a pull gives: nothing, or as many frames as its decoder has decoded, no more than it was
asked for. -/
structure Pulled (lib : FlacLib δ) (state : DecFlac δ σ) (maxFrames : Nat) (pull : FlacPull) :
    Prop where
  frames : pull.frames ≤ flacCap state maxFrames
  written : pull.frames = 0 ∧ pull.written = 0 ∧ pull.pcm = [] ∨
    pull.room = flacRoom state maxFrames ∧ ∃ d, pullDecoder lib state = some d ∧ pull.written = pull.frames * lib.channels d ∧
      pull.pcm.length = if state.flacChannels = state.outputChannels then pull.written
        else pull.frames * OpusAdapter.widthOf state.outputChannels

/-! ## The invariant -/

/-- The decoder follows the stream, and each decoder that was made is held, closed or lost. -/
structure Sound (state : DecFlac δ σ) : Prop where
  served : Served state.fifo
  follows : Follows state.flac state.fifo
  balance : state.opened = state.closed + state.lost + if state.flac.isSome then 1 else 0
  channels : state.flacChannels = state.outputChannels ∨
    state.flacChannels = 1 ∧ state.outputChannels = 2

section Steps

variable {state : DecFlac δ σ}

theorem sound_start {ring : List UInt8} (hring : ring ≠ []) {await : Option (AwaitFn σ)}
    (hawait : ∀ fn, await = some fn → Delivers fn) (awaitCtx : σ) :
    Sound (flacStart ring await awaitCtx : DecFlac δ σ) :=
  ⟨⟨aligned_init hring await awaitCtx, hawait⟩, rfl, rfl, .inl rfl⟩

theorem sound_open (h : Sound state) (cfg : DecoderConfig) (output : Format) :
    Sound (flacOpen state cfg output).2 := by
  unfold flacOpen
  dsimp only
  split
  · exact h
  · rename_i hpass
    obtain ⟨-, houtput⟩ := PcmAdapter.channels_of_validateOpen (not_not.mp hpass)
    have hbalance := h.balance
    refine ⟨served_startStream h.served, rfl, ?_, houtput.imp Eq.symm id⟩
    simp only [Option.isSome_none, Bool.false_eq_true, if_false]
    omega

theorem sound_reset (h : Sound state) : Sound (flacReset state) := by
  have hbalance := h.balance
  unfold flacReset flacRelease
  split
  · rename_i hheld
    rw [if_pos hheld] at hbalance
    refine ⟨served_startStream h.served, rfl, ?_, h.channels⟩
    simp only [Option.isSome_none, Bool.false_eq_true, if_false]
    omega
  · rename_i hnone
    have hflac : state.flac = none := by simpa using hnone
    refine ⟨served_startStream h.served, ?_, hbalance, h.channels⟩
    simp only [Follows, hflac]
    rfl

theorem sound_supplied (h : Sound state) (supply : Supply) :
    Sound { state with fifo := supplied state.fifo supply } :=
  ⟨served_supplied h.served supply, follows_supplied h.follows supply, h.balance, h.channels⟩

/-- A decoder goes on where it stopped. -/
theorem sound_decode (lib : FlacLib δ) {held : Held δ} (h : Sound state)
    (hheld : state.flac = some held) (maxFrames : Nat) :
    ∃ pull state', flacDecode lib state held maxFrames = some (pull, state') ∧ Sound state' ∧
      Pulled lib state maxFrames pull := by
  unfold flacDecode
  dsimp only
  split
  · exact ⟨_, _, rfl, h, Nat.zero_le _, .inl ⟨rfl, rfl, rfl⟩⟩
  · have hfollows := h.follows
    rw [hheld] at hfollows
    obtain ⟨decoded, feed, hrun, hfed, hgot, hsamples⟩ :=
      (lib.readFrames held.decoder (flacCap state maxFrames)).run_serves
        (s := ⟨state.fifo, held.heard⟩) readFeed_serves ⟨h.served, hfollows⟩
        (lib.reads_fit held.decoder (flacCap state maxFrames))
    have hbalance := h.balance
    rw [hheld] at hbalance
    have hsound : Sound { state with
        flac := some ⟨decoded.next, feed.heard⟩, fifo := feed.fifo } :=
      ⟨hfed.served, hfed.heard, hbalance, h.channels⟩
    rw [hrun, Option.map_some]
    dsimp only
    split
    · rename_i hzero
      rw [hzero, Nat.zero_mul] at hsamples
      exact ⟨_, _, rfl, hsound, Nat.zero_le _, .inl ⟨rfl, hsamples, rfl⟩⟩
    · have hdecoder : pullDecoder lib state = some held.decoder := by
        unfold pullDecoder
        rw [hheld]
      refine ⟨_, _, rfl, hsound, hgot, .inr ⟨rfl, held.decoder, hdecoder, hsamples, ?_⟩⟩
      by_cases hsame : state.flacChannels = state.outputChannels
      · rw [if_neg (not_not_intro hsame), if_pos hsame]
      · rw [if_pos hsame, if_neg hsame]
        exact length_q31 ..

theorem sound_pull (lib : FlacLib δ) (h : Sound state) (maxFrames : Nat) :
    ∃ pull state', flacPull lib state maxFrames = some (pull, state') ∧ Sound state' ∧
      Pulled lib state maxFrames pull := by
  have hnothing : ∀ {pull : FlacPull}, pull.frames = 0 → pull.written = 0 → pull.pcm = [] →
      Pulled lib state maxFrames pull := by
    intro pull hframes hwritten hpcm
    exact ⟨hframes ▸ Nat.zero_le _, .inl ⟨hframes, hwritten, hpcm⟩⟩
  unfold flacPull
  cases hflac : state.flac with
  | some held => exact sound_decode lib h hflac maxFrames
  | none =>
    have hfollows := h.follows
    rw [hflac] at hfollows
    dsimp only
    split
    · exact ⟨_, _, rfl, h, hnothing rfl rfl rfl⟩
    · rename_i hheader
      obtain ⟨decoder, feed, hrun, hfed, -⟩ :=
        lib.openStream.run_serves (s := ⟨state.fifo, []⟩) readFeed_serves
          ⟨h.served, hfollows.symm⟩ lib.openStream.all_true
      rw [hrun, Option.bind_some]
      have hbalance := h.balance
      rw [hflac] at hbalance
      cases decoder with
      | none =>
        refine ⟨_, _, rfl, ⟨served_startStream hfed.served, ?_, ?_, h.channels⟩,
          hnothing rfl rfl rfl⟩
        · simp only [Follows]
          rfl
        · simpa [hflac] using hbalance
      | some decoder =>
        have hopened : Sound { state with
            flac := some ⟨decoder, feed.heard⟩
            fifo := feed.fifo
            opened := state.opened + 1 } := by
          refine ⟨hfed.served, hfed.heard, ?_, h.channels⟩
          simp only [Option.isSome_none, Option.isSome_some, Bool.false_eq_true, if_false,
            if_true] at hbalance ⊢
          omega
        have hdecoder : pullDecoder lib state = some decoder := by
          unfold pullDecoder
          rw [hflac]
          dsimp only
          rw [if_neg hheader, hrun]
          rfl
        obtain ⟨pull, state', hdecode, hsound, hframes, hwritten⟩ :=
          sound_decode lib hopened rfl maxFrames
        refine ⟨pull, state', hdecode, hsound, hframes, hwritten.imp_right ?_⟩
        rintro ⟨hroom, d, hd, hsamples⟩
        exact ⟨hroom, d, hdecoder.trans hd, hsamples⟩

theorem sound_step (lib : FlacLib δ) (h : Sound state) (call : Call) :
    ∃ pull state', flacStep lib state call = some (pull, state') ∧ Sound state' := by
  cases call with
  | openStream cfg output => exact ⟨_, _, rfl, sound_open h cfg output⟩
  | push data => exact ⟨_, _, rfl, sound_supplied h (.push data)⟩
  | finish => exact ⟨_, _, rfl, sound_supplied h .finish⟩
  | pull maxFrames =>
    obtain ⟨pull, state', hpull, hsound, -⟩ := sound_pull lib h maxFrames
    refine ⟨some pull, state', ?_, hsound⟩
    rw [flacStep, hpull, Option.map_some]
  | reset => exact ⟨_, _, rfl, sound_reset h⟩
  | close => exact ⟨_, _, rfl, sound_reset h⟩

theorem sound_run (lib : FlacLib δ) (calls : List Call) {state : DecFlac δ σ} (h : Sound state) :
    ∃ pulls state', flacRun lib state calls = some (pulls, state') ∧ Sound state' := by
  induction calls generalizing state with
  | nil => exact ⟨[], state, rfl, h⟩
  | cons call calls ih =>
    obtain ⟨pull, middle, hstep, hmiddle⟩ := sound_step lib h call
    obtain ⟨pulls, state', hrun, hsound⟩ := ih hmiddle
    refine ⟨pull.toList ++ pulls, state', ?_, hsound⟩
    rw [flacRun, hstep, Option.bind_some]
    dsimp only
    rw [hrun, Option.map_some]

end Steps

/-- Whatever is called, whatever the library reads, and whatever the await function delivers: each
call returns. The decoder that is held has read a first part of the bytes that were accepted for
its stream, in order, and no other byte. A decoder that was made is held, or was closed, or an
open has let go of it. -/
theorem flac_follows (lib : FlacLib δ) {ring : List UInt8} (hring : ring ≠ [])
    (await : Option (AwaitFn σ)) (hawait : ∀ fn, await = some fn → Delivers fn) (awaitCtx : σ)
    (calls : List Call) :
    ∃ pulls state, flacRun lib (flacStart ring await awaitCtx) calls = some (pulls, state) ∧
      (∀ held, state.flac = some held → held.heard <+: state.fifo.accepted) ∧
      (state.flac = none → state.fifo.returned = []) ∧
      state.opened = state.closed + state.lost + if state.flac.isSome then 1 else 0 := by
  obtain ⟨pulls, state, hrun, hserved, hfollows, hbalance, -⟩ :=
    sound_run lib calls (sound_start hring hawait awaitCtx)
  refine ⟨pulls, state, hrun, ?_, ?_, hbalance⟩
  · intro held hheld
    rw [hheld] at hfollows
    rw [show held.heard = _ from hfollows]
    exact hserved.aligned.once
  · intro hnone
    rw [hnone] at hfollows
    exact hfollows

/-- A library that reads a header of four bytes and then a byte for each frame of silence. -/
def silentFlac : FlacLib Unit where
  openStream := .read 4 fun given => .done (if given.length = 4 then some () else none)
  readFrames := fun _ cap => .read cap fun given =>
    .done ⟨min given.length cap, List.replicate (min given.length cap) 0, ()⟩
  channels := fun _ => 1
  reads_fit := by
    intro d cap given
    exact ⟨Nat.min_le_right _ _, by simp⟩

theorem twoAtATime_delivers : ∀ fn, some twoAtATime = some fn → Delivers fn := by
  intro fn hfn
  rw [← Option.some.inj hfn]
  exact delivers_twoAtATime

/-- A ring of eight cells: the header and two frames of the stream are read, and then its end. -/
theorem flac_follows_eight :
    ∃ pulls state, flacRun silentFlac (flacStart (List.replicate 8 0) (some twoAtATime) 3)
        [.openStream ⟨.flac, 44100, 1, 16⟩ ⟨44100, 2, 3⟩, .pull 2, .pull 5, .close] =
          some (pulls, state) ∧
      (∀ held, state.flac = some held → held.heard <+: state.fifo.accepted) ∧
      (state.flac = none → state.fifo.returned = []) ∧
      state.opened = state.closed + state.lost + if state.flac.isSome then 1 else 0 :=
  flac_follows silentFlac (List.cons_ne_nil _ _) (some twoAtATime) twoAtATime_delivers 3 _

/-! ## The buffers -/

section Buffers

variable {state : DecFlac δ σ} {lib : FlacLib δ} {maxFrames : Nat} {pull : FlacPull} {d : δ}

/-- A decoder of no more channels than the configuration says. -/
theorem Pulled.fits (h : Pulled lib state maxFrames pull) (hsound : Sound state)
    (hd : pullDecoder lib state = some d) (hchannels : lib.channels d ≤ state.flacChannels) :
    pull.written ≤ pull.room ∧ pull.pcm.length ≤ maxFrames * state.outputChannels := by
  rcases h.written with ⟨-, hzero, hnone⟩ | ⟨hroom, d', hd', hwrote, hpcm⟩
  · rw [hzero, hnone]
    exact ⟨Nat.zero_le _, Nat.zero_le _⟩
  obtain rfl := Option.some.inj (hd.symm.trans hd')
  have hframes := h.frames
  rcases hsound.channels with hsame | ⟨hone, htwo⟩
  · have hcap : flacCap state maxFrames = maxFrames := if_neg (not_not_intro hsame)
    have hwide : flacRoom state maxFrames = maxFrames * state.outputChannels :=
      if_neg (not_not_intro hsame)
    rw [hcap] at hframes
    have hbound : pull.written ≤ maxFrames * state.outputChannels := by
      rw [hwrote, ← hsame]
      exact Nat.mul_le_mul hframes hchannels
    rw [if_pos hsame] at hpcm
    exact ⟨by rw [hroom, hwide]; exact hbound, by rw [hpcm]; exact hbound⟩
  · have hother : state.flacChannels ≠ state.outputChannels := by omega
    have hcap : flacCap state maxFrames = min maxFrames EAF_DEC_FLAC_TEMP_FRAMES := if_pos hother
    have hwide : flacRoom state maxFrames = EAF_DEC_FLAC_TEMP_FRAMES := if_pos hother
    rw [hcap] at hframes
    rw [hone] at hchannels
    rw [if_neg hother] at hpcm
    refine ⟨?_, ?_⟩
    · rw [hroom, hwide, hwrote]
      calc pull.frames * lib.channels d
          ≤ pull.frames * 1 := Nat.mul_le_mul_left _ hchannels
        _ ≤ EAF_DEC_FLAC_TEMP_FRAMES := by omega
    · rw [hpcm, htwo]
      exact Nat.mul_le_mul_right 2 (by omega)

/-- A decoder of more channels. -/
theorem Pulled.overflows (h : Pulled lib state maxFrames pull) (hsound : Sound state)
    (hd : pullDecoder lib state = some d) (hchannels : state.flacChannels < lib.channels d)
    (hlarge : EAF_DEC_FLAC_TEMP_FRAMES ≤ maxFrames) (hall : pull.frames = flacCap state maxFrames) :
    pull.room < pull.written := by
  have htemp : EAF_DEC_FLAC_TEMP_FRAMES = 512 := rfl
  have hcap : 0 < flacCap state maxFrames := by
    unfold flacCap
    split <;> omega
  rcases h.written with ⟨hzero, -, -⟩ | ⟨hroom, d', hd', hwrote, -⟩
  · omega
  obtain rfl := Option.some.inj (hd.symm.trans hd')
  rw [hroom, hwrote, hall]
  rcases hsound.channels with hsame | ⟨hone, htwo⟩
  · rw [flacCap, flacRoom, if_neg (not_not_intro hsame), if_neg (not_not_intro hsame)]
    rw [flacCap, if_neg (not_not_intro hsame)] at hcap
    rw [← hsame]
    exact Nat.mul_lt_mul_of_pos_left hchannels hcap
  · have hother : state.flacChannels ≠ state.outputChannels := by omega
    rw [flacCap, flacRoom, if_pos hother, if_pos hother, Nat.min_eq_right hlarge]
    rw [hone] at hchannels
    calc EAF_DEC_FLAC_TEMP_FRAMES
        < EAF_DEC_FLAC_TEMP_FRAMES * 2 := by omega
      _ ≤ EAF_DEC_FLAC_TEMP_FRAMES * lib.channels d := Nat.mul_le_mul_left _ hchannels

/-- Without a decoder nothing is written. -/
theorem Pulled.nothing (h : Pulled lib state maxFrames pull) (hd : pullDecoder lib state = none) :
    pull.frames = 0 ∧ pull.written = 0 ∧ pull.pcm = [] := by
  rcases h.written with hnone | ⟨-, d, hd', -⟩
  · exact hnone
  · rw [hd] at hd'
    cases hd'

end Buffers

/-- In every state, a pull stays in its buffers when its decoder has no more channels than the
configuration says. The adapter does not ask the decoder how many there are: when there are more,
a pull for 512 frames or more that gets all of them writes past its buffer. -/
theorem flac_pull_fits (lib : FlacLib δ) {ring : List UInt8} (hring : ring ≠ [])
    (await : Option (AwaitFn σ)) (hawait : ∀ fn, await = some fn → Delivers fn) (awaitCtx : σ)
    (calls : List Call) :
    ∃ pulls state, flacRun lib (flacStart ring await awaitCtx) calls = some (pulls, state) ∧
      ∀ maxFrames, ∃ pull state', flacPull lib state maxFrames = some (pull, state') ∧
        (pullDecoder lib state = none → pull.frames = 0 ∧ pull.written = 0 ∧ pull.pcm = []) ∧
        ∀ d, pullDecoder lib state = some d →
          (lib.channels d ≤ state.flacChannels →
            pull.written ≤ pull.room ∧ pull.pcm.length ≤ maxFrames * state.outputChannels) ∧
          (state.flacChannels < lib.channels d → EAF_DEC_FLAC_TEMP_FRAMES ≤ maxFrames →
            pull.frames = flacCap state maxFrames → pull.room < pull.written) := by
  obtain ⟨pulls, state, hrun, hsound⟩ := sound_run lib calls (sound_start hring hawait awaitCtx)
  refine ⟨pulls, state, hrun, ?_⟩
  intro maxFrames
  obtain ⟨pull, state', hpull, -, hpulled⟩ := sound_pull lib hsound maxFrames
  exact ⟨pull, state', hpull, hpulled.nothing,
    fun d hd => ⟨hpulled.fits hsound hd, hpulled.overflows hsound hd⟩⟩

/-- A library that finds two channels of silence behind a header of four bytes. -/
def stereoFlac : FlacLib Unit where
  openStream := .read 4 fun given => .done (if given.length = 4 then some () else none)
  readFrames := fun _ cap => .done ⟨cap, List.replicate (cap * 2) 0, ()⟩
  channels := fun _ => 2
  reads_fit := by
    intro d cap
    exact ⟨Nat.le_refl cap, List.length_replicate⟩

/-- The stream of one channel that a pull opens. -/
def monoCalls : List Call := [.openStream ⟨.flac, 44100, 1, 16⟩ ⟨44100, 2, 3⟩]

/-- The configuration says one channel. A stream of one fits, and one of two does not. -/
theorem flac_pull_fits_eight :
    (∃ pulls state, flacRun silentFlac (flacStart (List.replicate 8 0) (some twoAtATime) 3)
        monoCalls = some (pulls, state) ∧
      ∃ pull state', flacPull silentFlac state 2 = some (pull, state') ∧
        pull.written ≤ pull.room ∧ pull.pcm.length ≤ 2 * state.outputChannels) ∧
    ∃ pulls state, flacRun stereoFlac (flacStart (List.replicate 8 0) (some twoAtATime) 3)
        monoCalls = some (pulls, state) ∧
      ∃ pull state', flacPull stereoFlac state 512 = some (pull, state') ∧
        pull.room < pull.written := by
  constructor
  · obtain ⟨pulls, state, hrun, hpulls⟩ := flac_pull_fits silentFlac
      (List.cons_ne_nil _ (List.replicate 7 0)) (some twoAtATime) twoAtATime_delivers 3 monoCalls
    obtain ⟨pull, state', hpull, -, hfits⟩ := hpulls 2
    refine ⟨pulls, state, hrun, pull, state', hpull, ?_⟩
    cases hrun
    exact (hfits () rfl).1 (by decide)
  · obtain ⟨pulls, state, hrun, hpulls⟩ := flac_pull_fits stereoFlac
      (List.cons_ne_nil _ (List.replicate 7 0)) (some twoAtATime) twoAtATime_delivers 3 monoCalls
    obtain ⟨pull, state', hpull, -, hfits⟩ := hpulls 512
    refine ⟨pulls, state, hrun, pull, state', hpull, ?_⟩
    cases hrun
    refine (hfits () rfl).2 (by decide) (by decide) ?_
    cases hpull
    rfl

end EmbeddedAudio.FlacAdapter
