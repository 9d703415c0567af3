-- The Vorbis adapter (dec_vorbis.c). The library is given all the pending bytes on each call and
-- says how many of them it has used up; what it has not used stays in the buffer.
import EmbeddedAudio.PcmAdapter
import EmbeddedAudio.OpusAdapter

namespace EmbeddedAudio.VorbisAdapter

open PcmAdapter (DecoderConfig validateOpen)
open OpusAdapter (widthOf)

/-! ## The library -/

/-- What `stb_vorbis_open_pushdata` returns. -/
inductive OpenAnswer (δ : Type) where
  | opened (decoder : δ) (consumed : Nat)
  | needMoreData
  | failed

/-- What `stb_vorbis_decode_frame_pushdata` returns. `output channel i` is a sample. -/
structure FrameAnswer (δ φ : Type) where
  consumed : Nat
  channels : Nat
  samples : Nat
  output : Nat → Nat → φ
  next : δ

/-- stb_vorbis, with whatever state its decoder has, over whatever numbers `φ` it computes with.
It uses up no more than it is given. `floatToQ31` is `eaf_float_to_q31`. -/
structure VorbisLib (δ φ : Type) where
  openPushdata : List UInt8 → OpenAnswer δ
  decodeFrame : δ → List UInt8 → FrameAnswer δ φ
  floatToQ31 : φ → Int32
  open_uses : ∀ data d consumed, openPushdata data = .opened d consumed → consumed ≤ data.length
  frame_uses : ∀ d data, (decodeFrame d data).consumed ≤ data.length

variable {δ φ : Type}

/-! ## The adapter -/

abbrev EAF_DEC_VORBIS_BUFFER_BYTES : Nat := 32768

/-- `eaf_dec_vorbis_t`. `accepted` and `used` are the bytes of this stream that the adapter has
taken and that the library has used up; `opened` and `closed` count the decoders; `widths` has the
number of channels of each frame that was given since the channels were last set. -/
structure DecVorbis (δ : Type) where
  v : Option δ
  pending : List UInt8
  format : Format
  vorbisChannels : Nat
  outputChannels : Nat
  accepted : List UInt8
  used : List UInt8
  opened : Nat
  closed : Nat
  widths : List Nat

/-- What a pull returns. -/
structure VorbisPull where
  rc : Rc
  frames : Nat
  pcm : List Int32
  format : Option Format
  deriving DecidableEq, Repr

/-- A pull that gives nothing. -/
def emptyPull (rc : Rc) : VorbisPull := ⟨rc, 0, [], none⟩

/-- `vorbis_release`. -/
def vorbisRelease (state : DecVorbis δ) : DecVorbis δ :=
  if state.v.isSome then { state with v := none, closed := state.closed + 1 } else state

/-- `length = 0`: what is pending is dropped. -/
def dropPending (state : DecVorbis δ) : DecVorbis δ :=
  { state with pending := [], accepted := [], used := [] }

/-- `vorbis_open`. -/
def vorbisOpen (state : DecVorbis δ) (cfg : DecoderConfig) (output : Format) :
    Rc × DecVorbis δ :=
  let rc := validateOpen cfg output .vorbis true
  if rc ≠ EAF_OK then (rc, state)
  else (EAF_OK, { dropPending (vorbisRelease state) with
    vorbisChannels := cfg.channels
    outputChannels := output.numChannels
    format := output
    widths := [] })

/-- The bytes that a push takes. -/
def vorbisTake (state : DecVorbis δ) (data : List UInt8) : Nat :=
  min data.length (EAF_DEC_VORBIS_BUFFER_BYTES - state.pending.length)

/-- `vorbis_push`: how many bytes were accepted. -/
def vorbisPush (state : DecVorbis δ) (data : List UInt8) : Nat × DecVorbis δ :=
  let taken := data.take (vorbisTake state data)
  (vorbisTake state data, { state with
    pending := state.pending ++ taken
    accepted := state.accepted ++ taken })

/-- The `memmove`: the library has used up the first bytes. -/
def useUp (state : DecVorbis δ) (consumed : Nat) : DecVorbis δ :=
  { state with
    pending := state.pending.drop consumed
    used := state.used ++ state.pending.take consumed }

/-- The samples that are written for a frame. -/
def interleave (lib : VorbisLib δ φ) (answer : FrameAnswer δ φ) (outputChannels : Nat) :
    List Int32 :=
  (List.range answer.samples).flatMap fun i =>
    let left := lib.floatToQ31 (answer.output 0 i)
    if outputChannels = 2 then
      [left, if 1 < answer.channels then lib.floatToQ31 (answer.output 1 i) else left]
    else [left]

/-- The checks on a frame, and what the pull returns. -/
def vorbisEmit (lib : VorbisLib δ φ) (state : DecVorbis δ) (answer : FrameAnswer δ φ)
    (maxFrames : Nat) : VorbisPull × DecVorbis δ :=
  let channels := answer.channels
  if channels < 1 ∨ 2 < channels then (emptyPull EAF_UNSUPPORTED, state)
  else
    let state := if state.vorbisChannels = 0 then { state with vorbisChannels := channels }
      else state
    if state.vorbisChannels ≠ channels then (emptyPull EAF_INVALID, state)
    else if state.outputChannels ≠ channels ∧ ¬ (channels = 1 ∧ state.outputChannels = 2) then
      (emptyPull EAF_UNSUPPORTED, state)
    else if maxFrames < answer.samples then (emptyPull EAF_INVALID, state)
    else
      (⟨EAF_OK, answer.samples, interleave lib answer state.outputChannels,
        some state.format⟩, { state with widths := state.widths ++ [channels] })

/-- The loop of `vorbis_pull`. Each turn uses up a byte, so that as many turns as there are bytes
are enough. -/
def vorbisLoop (lib : VorbisLib δ φ) (maxFrames : Nat) :
    Nat → DecVorbis δ → δ → VorbisPull × DecVorbis δ
  | 0, state, _ => (emptyPull EAF_OK, state)
  | fuel + 1, state, decoder =>
    if state.pending.length = 0 then (emptyPull EAF_OK, state)
    else
      let answer := lib.decodeFrame decoder state.pending
      let state := useUp { state with v := some answer.next } answer.consumed
      if 0 < answer.samples then vorbisEmit lib state answer maxFrames
      else if answer.consumed = 0 then (emptyPull EAF_OK, state)
      else vorbisLoop lib maxFrames fuel state answer.next

/-- `vorbis_pull`. -/
def vorbisPull (lib : VorbisLib δ φ) (state : DecVorbis δ) (maxFrames : Nat) :
    VorbisPull × DecVorbis δ :=
  match state.v with
  | some decoder => vorbisLoop lib maxFrames state.pending.length state decoder
  | none =>
    if state.pending.length = 0 then (emptyPull EAF_OK, state)
    else
      match lib.openPushdata state.pending with
      | .needMoreData => (emptyPull EAF_OK, state)
      | .failed => (emptyPull EAF_INVALID, dropPending state)
      | .opened decoder consumed =>
        let state := useUp { state with v := some decoder, opened := state.opened + 1 } consumed
        vorbisLoop lib maxFrames state.pending.length state decoder

/-- `vorbis_reset`. The channels of the configuration are forgotten as well. -/
def vorbisReset (state : DecVorbis δ) : DecVorbis δ :=
  { dropPending (vorbisRelease state) with vorbisChannels := 0, widths := [] }

/-- `vorbis_close`. -/
def vorbisClose (state : DecVorbis δ) : DecVorbis δ := dropPending (vorbisRelease state)

/-- A call of the adapter. -/
inductive Call where
  | openStream (cfg : DecoderConfig) (output : Format)
  | push (data : List UInt8)
  | pull (maxFrames : Nat)
  | reset
  | close

/-- What a call leaves, what a push takes and what a pull returns. -/
def vorbisStep (lib : VorbisLib δ φ) (state : DecVorbis δ) :
    Call → Nat × Option VorbisPull × DecVorbis δ
  | .openStream cfg output => (0, none, (vorbisOpen state cfg output).2)
  | .push data => ((vorbisPush state data).1, none, (vorbisPush state data).2)
  | .pull maxFrames =>
    (0, some (vorbisPull lib state maxFrames).1, (vorbisPull lib state maxFrames).2)
  | .reset => (0, none, vorbisReset state)
  | .close => (0, none, vorbisClose state)

/-- The bytes that the pushes of a run take, its pulls, and the state behind it. -/
def vorbisRun (lib : VorbisLib δ φ) :
    DecVorbis δ → List Call → List Nat × List VorbisPull × DecVorbis δ
  | state, [] => ([], [], state)
  | state, call :: calls =>
    let (taken, pull, state) := vorbisStep lib state call
    let (more, pulls, state) := vorbisRun lib state calls
    (taken :: more, pull.toList ++ pulls, state)

/-- A state before its first stream. -/
def vorbisStart : DecVorbis δ where
  v := none
  pending := []
  format := ⟨0, 0, 0⟩
  vorbisChannels := 0
  outputChannels := 0
  accepted := []
  used := []
  opened := 0
  closed := 0
  widths := []

/-! ## The invariant -/

/-- What the library has used up and what is pending are the bytes of the stream, and each decoder
that was made is held or was closed. -/
structure Sound (state : DecVorbis δ) : Prop where
  history : state.accepted = state.used ++ state.pending
  fits : state.pending.length ≤ EAF_DEC_VORBIS_BUFFER_BYTES
  fresh : state.v = none → state.used = []
  balance : state.opened = state.closed + if state.v.isSome then 1 else 0
  widths : ∀ width ∈ state.widths, width = state.vorbisChannels ∧ width ≠ 0

section Steps

variable {state : DecVorbis δ}

theorem sound_start : Sound (vorbisStart : DecVorbis δ) :=
  ⟨rfl, Nat.zero_le _, fun _ => rfl, rfl, fun _ h => absurd h List.not_mem_nil⟩

/-- A state without a decoder and without bytes, whatever its channels are. -/
theorem sound_empty (h : Sound state) (format : Format) (channels out : Nat) :
    Sound { dropPending (vorbisRelease state) with
      format := format
      vorbisChannels := channels
      outputChannels := out
      widths := [] } := by
  have hbalance := h.balance
  refine ⟨rfl, Nat.zero_le _, fun _ => rfl, ?_, fun _ h => absurd h List.not_mem_nil⟩
  unfold dropPending vorbisRelease
  split
  · rename_i hheld
    rw [if_pos hheld] at hbalance
    simpa using hbalance
  · rename_i hnone
    simpa [hnone] using hbalance

theorem sound_open (h : Sound state) (cfg : DecoderConfig) (output : Format) :
    Sound (vorbisOpen state cfg output).2 := by
  unfold vorbisOpen
  dsimp only
  split
  · exact h
  · exact sound_empty h ..

theorem sound_close (h : Sound state) : Sound (vorbisClose state) := by
  obtain ⟨hhistory, hfits, hfresh, hbalance, -⟩ := sound_empty h state.format 0 0
  refine ⟨hhistory, hfits, hfresh, hbalance, ?_⟩
  have hwidths := h.widths
  unfold vorbisClose dropPending vorbisRelease
  split
  · exact hwidths
  · exact hwidths

theorem length_push (state : DecVorbis δ) (data : List UInt8) :
    (vorbisPush state data).2.pending.length = state.pending.length + vorbisTake state data := by
  simp only [vorbisPush, List.length_append, List.length_take]
  unfold vorbisTake
  omega

theorem sound_push (h : Sound state) (data : List UInt8) : Sound (vorbisPush state data).2 := by
  have hfits := h.fits
  refine ⟨?_, ?_, h.fresh, h.balance, h.widths⟩
  · simp only [vorbisPush]
    rw [h.history, List.append_assoc]
  · rw [length_push]
    unfold vorbisTake
    omega

/-- A decoder for the stream so far. -/
theorem sound_opened (h : Sound state) (hnone : state.v = none) (decoder : δ) :
    Sound { state with v := some decoder, opened := state.opened + 1 } := by
  have hbalance := h.balance
  rw [hnone] at hbalance
  refine ⟨h.history, h.fits, fun hv => absurd hv.symm (Option.some_ne_none _).symm, ?_, h.widths⟩
  simpa using hbalance

/-- The library uses up bytes. -/
theorem sound_useUp (h : Sound state) (hheld : state.v.isSome) (next : δ) (consumed : Nat) :
    Sound (useUp { state with v := some next } consumed) := by
  have hbalance := h.balance
  rw [if_pos hheld] at hbalance
  refine ⟨?_, ?_, fun hv => absurd hv (Option.some_ne_none _), hbalance, h.widths⟩
  · simp only [useUp, h.history]
    rw [List.append_assoc, List.take_append_drop]
  · have hfits := h.fits
    simp only [useUp, List.length_drop]
    omega

end Steps

/-! ## One pull -/

/-- What a pull gives, and why it gives no more. -/
structure Pulled (lib : VorbisLib δ φ) (state : DecVorbis δ) (maxFrames : Nat)
    (r : VorbisPull × DecVorbis δ) : Prop where
  frames : r.1.frames ≤ maxFrames
  pcm : r.1.pcm.length = r.1.frames * state.outputChannels
  format : ∀ format, r.1.format = some format → format = state.format
  output : r.2.outputChannels = state.outputChannels
  waits : r.1.rc = EAF_OK → r.1.frames = 0 → r.2.pending = [] ∨
    r.2.v = none ∧ lib.openPushdata r.2.pending = .needMoreData ∨
    ∃ d, (lib.decodeFrame d r.2.pending).samples = 0 ∧
      (lib.decodeFrame d r.2.pending).consumed = 0 ∧
      r.2.v = some (lib.decodeFrame d r.2.pending).next

section Pull

variable {lib : VorbisLib δ φ} {state : DecVorbis δ}

theorem length_interleave (answer : FrameAnswer δ φ) (out : Nat) :
    (interleave lib answer out).length = answer.samples * widthOf out := by
  unfold interleave widthOf
  induction answer.samples with
  | zero => rw [Nat.zero_mul]; rfl
  | succ n ih =>
    rw [List.range_succ, List.flatMap_append, List.length_append, ih, List.flatMap_singleton,
      Nat.succ_mul]
    split <;> rfl

theorem pulled_empty (rc : Rc) (state' : DecVorbis δ) (maxFrames : Nat)
    (houtput : state'.outputChannels = state.outputChannels) (hrc : rc ≠ EAF_OK) :
    Pulled lib state maxFrames (emptyPull rc, state') := by
  refine ⟨Nat.zero_le _, ?_, fun _ h => absurd h.symm (Option.some_ne_none _), houtput,
    fun h => absurd h hrc⟩
  rw [emptyPull, Nat.zero_mul, List.length_nil]

/-- The first frame sets the channels, unless the configuration has. -/
theorem sound_setChannels (h : Sound state) (channels : Nat) :
    Sound (if state.vorbisChannels = 0 then { state with vorbisChannels := channels }
      else state) := by
  split
  · rename_i hzero
    refine ⟨h.history, h.fits, h.fresh, h.balance, ?_⟩
    intro width hwidth
    obtain ⟨hsame, hne⟩ := h.widths width hwidth
    exact absurd (hsame.trans hzero) hne
  · exact h

theorem sound_emit (lib : VorbisLib δ φ) (h : Sound state) (answer : FrameAnswer δ φ)
    (hsamples : 0 < answer.samples) (maxFrames : Nat) :
    Sound (vorbisEmit lib state answer maxFrames).2 ∧
      Pulled lib state maxFrames (vorbisEmit lib state answer maxFrames) := by
  unfold vorbisEmit
  dsimp only
  split
  · exact ⟨h, pulled_empty _ _ _ rfl (by decide)⟩
  rename_i hfew
  have hset := sound_setChannels h answer.channels
  set state' := if state.vorbisChannels = 0 then
    { state with vorbisChannels := answer.channels } else state with hstate'
  have houtput : state'.outputChannels = state.outputChannels := by
    rw [hstate']
    split <;> rfl
  have hformat : state'.format = state.format := by
    rw [hstate']
    split <;> rfl
  split
  · exact ⟨hset, pulled_empty _ _ _ houtput (by decide)⟩
  rename_i hsame
  split
  · exact ⟨hset, pulled_empty _ _ _ houtput (by decide)⟩
  rename_i hfit
  split
  · exact ⟨hset, pulled_empty _ _ _ houtput (by decide)⟩
  rename_i hroom
  rw [not_not] at hsame
  rw [not_and_or, not_not, not_not, houtput] at hfit
  refine ⟨⟨hset.history, hset.fits, hset.fresh, hset.balance, ?_⟩, ?_, ?_, ?_, houtput, ?_⟩
  · intro width hwidth
    rcases List.mem_append.mp hwidth with hold | hnew
    · exact hset.widths width hold
    · rw [List.mem_singleton.mp hnew]
      exact ⟨hsame.symm, by omega⟩
  · exact not_lt.mp hroom
  · rw [length_interleave, widthOf, houtput]
    congr 1
    split <;> omega
  · intro format hgiven
    rw [← Option.some.inj hgiven, hformat]
  · intro _ hzero
    exact absurd hzero (Nat.pos_iff_ne_zero.mp hsamples)

/-- Each turn uses up a byte, and the last one has a frame or waits for more bytes. -/
theorem sound_loop (lib : VorbisLib δ φ) (maxFrames : Nat) :
    ∀ (fuel : Nat) {state : DecVorbis δ} {decoder : δ}, Sound state → state.v = some decoder →
      state.pending.length ≤ fuel →
      Sound (vorbisLoop lib maxFrames fuel state decoder).2 ∧
        Pulled lib state maxFrames (vorbisLoop lib maxFrames fuel state decoder) := by
  intro fuel
  have hnothing : ∀ {state : DecVorbis δ}, state.pending = [] →
      Pulled lib state maxFrames (emptyPull EAF_OK, state) := by
    intro state hpending
    refine ⟨Nat.zero_le _, ?_, fun _ h => absurd h.symm (Option.some_ne_none _), rfl,
      fun _ _ => .inl hpending⟩
    rw [emptyPull, Nat.zero_mul, List.length_nil]
  induction fuel with
  | zero =>
    intro state decoder h _ hfuel
    exact ⟨h, hnothing (List.length_eq_zero_iff.mp (Nat.le_zero.mp hfuel))⟩
  | succ fuel ih =>
    intro state decoder h hv hfuel
    unfold vorbisLoop
    dsimp only
    split
    · rename_i hzero
      exact ⟨h, hnothing (List.length_eq_zero_iff.mp hzero)⟩
    have huses := lib.frame_uses decoder state.pending
    have hnext := sound_useUp h (by rw [hv, Option.isSome_some])
      (lib.decodeFrame decoder state.pending).next
      (lib.decodeFrame decoder state.pending).consumed
    split
    · rename_i hsamples
      obtain ⟨hsound, hframes, hpcm, hformat, houtput, hwaits⟩ :=
        sound_emit lib hnext _ hsamples maxFrames
      exact ⟨hsound, hframes, hpcm, hformat, houtput, hwaits⟩
    rename_i hsamples
    split
    · rename_i hzero
      refine ⟨hnext, Nat.zero_le _, ?_, fun _ h => absurd h.symm (Option.some_ne_none _), rfl, ?_⟩
      · rw [emptyPull, Nat.zero_mul, List.length_nil]
      · intro _ _
        refine .inr (.inr ⟨decoder, ?_⟩)
        simp only [useUp, hzero, List.drop_zero]
        exact ⟨by omega, trivial, trivial⟩
    · rename_i hused
      obtain ⟨hsound, hframes, hpcm, hformat, houtput, hwaits⟩ := ih hnext rfl (by
        simp only [useUp, List.length_drop]
        omega)
      exact ⟨hsound, hframes, hpcm, hformat, houtput, hwaits⟩

theorem sound_pull (lib : VorbisLib δ φ) (h : Sound state) (maxFrames : Nat) :
    Sound (vorbisPull lib state maxFrames).2 ∧
      Pulled lib state maxFrames (vorbisPull lib state maxFrames) := by
  unfold vorbisPull
  cases hv : state.v with
  | some decoder => exact sound_loop lib maxFrames _ h hv (Nat.le_refl _)
  | none =>
    dsimp only
    have hwait : (state.pending = [] ∨ lib.openPushdata state.pending = .needMoreData) →
        Pulled lib state maxFrames (emptyPull EAF_OK, state) := by
      intro hwhy
      refine ⟨Nat.zero_le _, ?_, fun _ h => absurd h.symm (Option.some_ne_none _), rfl,
        fun _ _ => hwhy.imp id fun hmore => .inl ⟨hv, hmore⟩⟩
      rw [emptyPull, Nat.zero_mul, List.length_nil]
    split
    · rename_i hzero
      exact ⟨h, hwait (.inl (List.length_eq_zero_iff.mp hzero))⟩
    split
    · rename_i hmore
      exact ⟨h, hwait (.inr hmore)⟩
    · refine ⟨⟨rfl, Nat.zero_le _, fun _ => rfl, h.balance, h.widths⟩,
        pulled_empty _ _ _ rfl (by decide)⟩
    · rename_i decoder consumed hopen
      have hnext := sound_useUp (sound_opened h hv decoder) rfl decoder consumed
      obtain ⟨hsound, hframes, hpcm, hformat, houtput, hwaits⟩ :=
        sound_loop lib maxFrames _ hnext rfl (Nat.le_refl _)
      exact ⟨hsound, hframes, hpcm, hformat, houtput, hwaits⟩

theorem sound_step (h : Sound state) (call : Call) :
    Sound (vorbisStep lib state call).2.2 := by
  cases call with
  | openStream cfg output => exact sound_open h cfg output
  | push data => exact sound_push h data
  | pull maxFrames => exact (sound_pull lib h maxFrames).1
  | reset => exact sound_empty h ..
  | close => exact sound_close h

theorem sound_run (lib : VorbisLib δ φ) (calls : List Call) {state : DecVorbis δ} (h : Sound state) :
    Sound (vorbisRun lib state calls).2.2 := by
  induction calls generalizing state with
  | nil => exact h
  | cons call calls ih => exact ih (sound_step h call)

end Pull

/-- Whatever is called and whatever the library answers: the bytes of the stream are used up in
order, each one once, and the others are in the buffer, which they fit. A decoder that was made is
held or was closed, and without one nothing is used up. All the frames since the last open or reset
have the same channels. -/
theorem vorbis_conserves (lib : VorbisLib δ φ) (calls : List Call) :
    let state := (vorbisRun lib vorbisStart calls).2.2
    state.accepted = state.used ++ state.pending ∧
      state.pending.length ≤ EAF_DEC_VORBIS_BUFFER_BYTES ∧
      (state.v = none → state.used = []) ∧
      state.opened = state.closed + (if state.v.isSome then 1 else 0) ∧
      ∀ width ∈ state.widths, width = state.vorbisChannels ∧ width ≠ 0 := by
  obtain ⟨hhistory, hfits, hfresh, hbalance, hwidths⟩ := sound_run lib calls sound_start
  exact ⟨hhistory, hfits, hfresh, hbalance, hwidths⟩

/-- In every state, a pull gives no more frames than it was asked for, in the channels of the
output. One that returns without a frame and without an error has nothing left that the library
can decode: no byte is pending, or the library asks for more. -/
theorem vorbis_pull_drains (lib : VorbisLib δ φ) (calls : List Call) (maxFrames : Nat) :
    let state := (vorbisRun lib vorbisStart calls).2.2
    let pull := (vorbisPull lib state maxFrames).1
    let after := (vorbisPull lib state maxFrames).2
    pull.frames ≤ maxFrames ∧ pull.pcm.length = pull.frames * state.outputChannels ∧
      (pull.rc = EAF_OK → pull.frames = 0 → after.pending = [] ∨
        after.v = none ∧ lib.openPushdata after.pending = .needMoreData ∨
        ∃ d, (lib.decodeFrame d after.pending).samples = 0 ∧
          (lib.decodeFrame d after.pending).consumed = 0 ∧
          after.v = some (lib.decodeFrame d after.pending).next) := by
  obtain ⟨hframes, hpcm, -, -, hwaits⟩ :=
    (sound_pull lib (sound_run lib calls sound_start) maxFrames).2
  exact ⟨hframes, hpcm, hwaits⟩

/-! ## Headers that do not fit -/

/-- A push or a pull. -/
def Call.plays : Call → Bool
  | .push _ => true
  | .pull _ => true
  | _ => false

/-- With a full buffer in which the library does not find the whole header, no push takes a byte
and no pull gives a frame or an error, for as long as there are only pushes and pulls. -/
theorem vorbis_stalls (lib : VorbisLib δ φ) (state : DecVorbis δ) (hnone : state.v = none)
    (hfull : state.pending.length = EAF_DEC_VORBIS_BUFFER_BYTES)
    (hmore : lib.openPushdata state.pending = .needMoreData) (calls : List Call)
    (hcalls : ∀ call ∈ calls, call.plays) :
    let r := vorbisRun lib state calls
    (∀ taken ∈ r.1, taken = 0) ∧ (∀ pull ∈ r.2.1, pull = emptyPull EAF_OK) ∧ r.2.2 = state := by
  have htake : ∀ data, vorbisTake state data = 0 := by
    intro data
    unfold vorbisTake
    omega
  have hpush : ∀ data, (vorbisPush state data).2 = state := by
    intro data
    unfold vorbisPush
    simp only [htake, List.take_zero, List.append_nil]
  have hpull : ∀ maxFrames, vorbisPull lib state maxFrames = (emptyPull EAF_OK, state) := by
    intro maxFrames
    unfold vorbisPull
    simp only [hnone, hmore, ite_self]
  induction calls with
  | nil => exact ⟨by simp [vorbisRun], by simp [vorbisRun], rfl⟩
  | cons call calls ih =>
    have hrest := ih fun call hcall => hcalls call (List.mem_cons_of_mem _ hcall)
    have hplays := hcalls call List.mem_cons_self
    cases call with
    | push data =>
      simp only [vorbisRun, vorbisStep, hpush, Option.toList_none, List.nil_append]
      refine ⟨?_, hrest.2⟩
      intro taken htaken
      rcases List.mem_cons.mp htaken with hhead | htail
      · rw [hhead]
        exact htake data
      · exact hrest.1 taken htail
    | pull maxFrames =>
      simp only [vorbisRun, vorbisStep, hpull, Option.toList_some, List.singleton_append]
      refine ⟨?_, ?_, hrest.2.2⟩
      · intro taken htaken
        rcases List.mem_cons.mp htaken with hhead | htail
        · exact hhead
        · exact hrest.1 taken htail
      · intro pull hgiven
        rcases List.mem_cons.mp hgiven with hhead | htail
        · exact hhead
        · exact hrest.2.1 pull htail
    | openStream cfg output => exact Bool.noConfusion hplays
    | reset => exact Bool.noConfusion hplays
    | close => exact Bool.noConfusion hplays

/-- A library that wants more bytes than the buffer has for the header. -/
def largeHeader : VorbisLib Unit Int32 where
  openPushdata := fun data => if data.length < 40000 then .needMoreData else .opened () 40000
  decodeFrame := fun _ data => ⟨data.length, 1, data.length, fun _ _ => 0, ()⟩
  floatToQ31 := id
  open_uses := by
    intro data d consumed h
    split at h
    · exact absurd h (by simp)
    · rename_i hlarge
      injection h with _ hconsumed
      omega
  frame_uses := fun _ data => Nat.le_refl data.length

theorem vorbis_stalls_large :
    let state := (vorbisPush (vorbisStart : DecVorbis Unit) (List.replicate 40000 0)).2
    let r := vorbisRun largeHeader state [.pull 64, .push [1, 2, 3], .pull 64]
    (∀ taken ∈ r.1, taken = 0) ∧ (∀ pull ∈ r.2.1, pull = emptyPull EAF_OK) ∧ r.2.2 = state := by
  have hlength : (vorbisPush (vorbisStart : DecVorbis Unit)
      (List.replicate 40000 0)).2.pending.length = EAF_DEC_VORBIS_BUFFER_BYTES := by
    rw [length_push, vorbisTake, List.length_replicate]
    rfl
  refine vorbis_stalls largeHeader _ rfl hlength ?_ _ (by decide)
  simp only [largeHeader]
  rw [if_pos (by rw [hlength]; decide)]

end EmbeddedAudio.VorbisAdapter
