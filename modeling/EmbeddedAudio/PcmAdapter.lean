-- The PCM decoder adapter (dec_pcm.c) and the byte ring it stages its input in
-- (eaf_dec_input.c).
import EmbeddedAudio.BlockRing
import EmbeddedAudio.Samples

namespace EmbeddedAudio.PcmAdapter

open BtDecoder (pcm16ToQ31)
open BlockRing Groups LittleEndian Q31 Storage

/-! ## The input ring -/

/-- `eaf_dec_input_t`, without an `await` function. -/
structure DecInput where
  ring : List UInt8
  tail : Nat
  count : Nat
  eof : Bool
  deriving DecidableEq, Repr

/-- `eaf_dec_input_init`, over a ring with any bytes in it. -/
def decInputInit (ring : List UInt8) : DecInput := ⟨ring, 0, 0, false⟩

/-- `eaf_dec_input_reset`. -/
def decInputReset (input : DecInput) : DecInput := { input with tail := 0, count := 0, eof := false }

/-- `eaf_dec_input_push`: how many bytes were taken. -/
def decInputPush (input : DecInput) (data : List UInt8) : Nat × DecInput :=
  if input.eof ∨ data = [] then (0, input)
  else
    let capacity := input.ring.length
    let space := capacity - input.count
    let take := min data.length space
    let write := (input.tail + input.count) % capacity
    (take, { input with
      ring := put input.ring write (data.take take)
      count := input.count + take })

/-- The loop of `eaf_dec_input_read`. A turn takes a byte at least, so the length is bound
enough. -/
def decInputReadIn : Nat → DecInput → Nat → List UInt8 × DecInput
  | 0, input, _ => ([], input)
  | bound + 1, input, left =>
    if left = 0 ∨ input.count = 0 then ([], input)
    else
      let capacity := input.ring.length
      let chunk := min (min (capacity - input.tail) input.count) left
      let bytes := slice input.ring input.tail chunk
      let (more, input) := decInputReadIn bound { input with
        tail := (input.tail + chunk) % capacity
        count := input.count - chunk } (left - chunk)
      (bytes ++ more, input)

/-- `eaf_dec_input_read`. -/
def decInputRead (input : DecInput) (length : Nat) : List UInt8 × DecInput :=
  decInputReadIn length input length

/-! ## The adapter -/

/-- `eaf_codec_t`. -/
inductive DecoderCodec where
  | none
  | pcm
  | flac
  | opus
  | mp3
  | vorbis
  deriving DecidableEq, Repr

/-- `eaf_decoder_config_t`, as far as the PCM adapter looks at it. -/
structure DecoderConfig where
  codec : DecoderCodec
  sampleRate : Nat
  channels : Nat
  bitDepth : Nat
  deriving DecidableEq, Repr

/-- What a pull gives, and the bytes that it read from the ring for it. -/
structure Pull where
  bytes : List UInt8
  pcm : List Int32
  frames : Nat
  format : Format
  deriving DecidableEq, Repr

/-- `eaf_decoder_pcm_t`. -/
structure Pcm where
  format : Format
  inputChannels : Nat
  inputBits : Nat
  outputChannels : Nat
  sampleBytes : Nat
  frameBytes : Nat
  input : DecInput
  deriving DecidableEq, Repr

abbrev EAF_DECODER_PCM_RING_BYTES : Nat := 4096

/-- `eaf_decoder_validate_open`. -/
def validateOpen (cfg : DecoderConfig) (output : Format) (codec : DecoderCodec)
    (unknownChannels : Bool) : Rc :=
  let channelsOk :=
    if cfg.channels = 0 then unknownChannels
    else decide (cfg.channels ≤ 2) && (output.numChannels == cfg.channels ||
      (cfg.channels == 1 && output.numChannels == 2))
  if cfg.codec ≠ codec ∨ channelsOk = false ∨ cfg.sampleRate ≠ output.sampleRate then
    EAF_UNSUPPORTED
  else EAF_OK

/-- `pcm_open`, over a ring with any bytes in it. -/
def pcmOpen (ring : List UInt8) (cfg : DecoderConfig) (output : Format) : Except Rc Pcm :=
  let rc := validateOpen cfg output .pcm false
  if rc ≠ EAF_OK then .error rc
  else if cfg.bitDepth ≠ 16 ∧ cfg.bitDepth ≠ 24 ∧ cfg.bitDepth ≠ 32 then .error EAF_UNSUPPORTED
  else .ok {
    inputChannels := cfg.channels
    inputBits := cfg.bitDepth
    outputChannels := output.numChannels
    sampleBytes := cfg.bitDepth / 8
    frameBytes := cfg.channels * (cfg.bitDepth / 8)
    format := output
    input := decInputInit ring }

/-- `pcm_push`: how many bytes were accepted. -/
def pcmPush (state : Pcm) (data : List UInt8) : Nat × Pcm :=
  let (consumed, input) := decInputPush state.input data
  (consumed, { state with input := input })

/-- `pcm_sample`. -/
def pcmSample (state : Pcm) (frame : List UInt8) (offset : Nat) : Int32 :=
  let value := assembleLE (slice frame offset state.sampleBytes)
  if state.sampleBytes = 2 then pcm16ToQ31 value.toUInt16.toInt16
  else if state.sampleBytes = 3 then pcm24ToQ31 (signExtend24 value).toInt32
  else pcm32ToQ31 value.toInt32

/-- One frame of a pull, converted. -/
def convertFrame (state : Pcm) (frame : List UInt8) : List Int32 :=
  let converted := [pcmSample state frame 0,
    if state.inputChannels = 2 then pcmSample state frame state.sampleBytes else 0]
  q31Interleaved converted 1 state.inputChannels state.outputChannels

/-- The loop of `pcm_pull`: the bytes it reads, the samples, and the state. -/
def pullFrames (state : Pcm) : Nat → List UInt8 × List Int32 × Pcm
  | 0 => ([], [], state)
  | count + 1 =>
    let (frame, input) := decInputRead state.input state.frameBytes
    let (bytes, pcm, state') := pullFrames { state with input := input } count
    (frame ++ bytes, convertFrame state frame ++ pcm, state')

/-- `pcm_pull`. -/
def pcmPull (state : Pcm) (maxFrames : Nat) : Pull × Pcm :=
  let available := state.input.count / state.frameBytes
  let count := min available maxFrames
  let (bytes, pcm, state') := pullFrames state count
  (⟨bytes, pcm, count, state.format⟩, state')

/-- `pcm_reset`. -/
def pcmReset (state : Pcm) : Pcm := { state with input := decInputReset state.input }

/-! ## The bytes in the ring -/

/-- The bytes that were accepted and not yet read. -/
def held (input : DecInput) : List UInt8 := contents input.ring input.tail input.count

/-- A ring in use. -/
structure Staging (input : DecInput) : Prop where
  tail : input.tail < input.ring.length
  count : input.count ≤ input.ring.length
  eof : input.eof = false

theorem staging_init {ring : List UInt8} (h : 0 < ring.length) : Staging (decInputInit ring) :=
  ⟨h, Nat.zero_le _, rfl⟩

theorem length_held {input : DecInput} (h : Staging input) : (held input).length = input.count :=
  length_contents h.count

/-- A push takes a first part of the bytes, and puts it behind those in the ring. -/
theorem push_held {input : DecInput} (h : Staging input) (data : List UInt8) :
    Staging (decInputPush input data).2 ∧
      held (decInputPush input data).2 = held input ++ data.take (decInputPush input data).1 := by
  unfold decInputPush
  by_cases hnone : input.eof ∨ data = []
  · rw [if_pos hnone]
    exact ⟨h, by simp⟩
  rw [if_neg hnone]
  have hlength : (data.take (min data.length (input.ring.length - input.count))).length =
      min data.length (input.ring.length - input.count) := by
    rw [List.length_take]
    omega
  have hcount := h.count
  have hwrite : (input.tail + input.count) % input.ring.length < input.ring.length :=
    Nat.mod_lt _ (Nat.lt_of_le_of_lt (Nat.zero_le _) h.tail)
  have hput := @length_put _ input.ring _
    (data.take (min data.length (input.ring.length - input.count))) (Nat.le_of_lt hwrite)
    (by omega)
  refine ⟨⟨?_, ?_, h.eof⟩, ?_⟩
  · simp only [hput]
    exact h.tail
  · simp only [hput]
    omega
  · have hcontents := @contents_put _ input.ring input.tail input.count
      (data.take (min data.length (input.ring.length - input.count))) h.tail (by omega)
    rw [hlength] at hcontents
    exact hcontents

/-- A read takes from the front, as many bytes as there are. -/
theorem readIn_held : ∀ (bound : Nat) {input : DecInput} {left : Nat}, Staging input →
    left ≤ bound → left ≤ input.count →
    Staging (decInputReadIn bound input left).2 ∧
      (decInputReadIn bound input left).1.length = left ∧
      held input =
        (decInputReadIn bound input left).1 ++ held (decInputReadIn bound input left).2 := by
  intro bound
  induction bound with
  | zero =>
    intro input left h hbound hleft
    exact ⟨h, (Nat.le_zero.mp hbound).symm, rfl⟩
  | succ bound ih =>
    intro input left h hbound hleft
    rw [decInputReadIn]
    by_cases hdone : left = 0 ∨ input.count = 0
    · rw [if_pos hdone]
      have hzero : left = 0 := by omega
      exact ⟨h, hzero.symm, rfl⟩
    rw [if_neg hdone]
    have htail := h.tail
    have hcount := h.count
    simp only
    generalize hchunk : min (min (input.ring.length - input.tail) input.count) left = chunk
    have hnext : Staging { input with
        tail := (input.tail + chunk) % input.ring.length
        count := input.count - chunk } :=
      ⟨Nat.mod_lt _ (Nat.lt_of_le_of_lt (Nat.zero_le _) htail),
        Nat.le_trans (Nat.sub_le _ _) hcount, h.eof⟩
    have hrest := @ih { input with
        tail := (input.tail + chunk) % input.ring.length
        count := input.count - chunk } (left - chunk) hnext (by omega)
      (show left - chunk ≤ input.count - chunk by omega)
    generalize decInputReadIn bound { input with
        tail := (input.tail + chunk) % input.ring.length
        count := input.count - chunk } (left - chunk) = r at hrest
    obtain ⟨more, input'⟩ := r
    obtain ⟨hstaging, hlength, hheld⟩ := hrest
    simp only at hstaging hlength hheld ⊢
    refine ⟨hstaging, ?_, ?_⟩
    · rw [List.length_append, hlength, length_slice (by omega)]
      omega
    · have htake := @contents_take _ input.ring input.tail input.count chunk htail hcount (by omega)
        (by omega)
      unfold held at hheld ⊢
      rw [htake, List.append_assoc, ← hheld]

theorem read_held {input : DecInput} {length : Nat} (h : Staging input)
    (hlength : length ≤ input.count) :
    Staging (decInputRead input length).2 ∧ (decInputRead input length).1.length = length ∧
      held input = (decInputRead input length).1 ++ held (decInputRead input length).2 :=
  readIn_held length h (Nat.le_refl _) hlength

/-! ## The frames -/

/-- What open makes sure of. -/
structure Layout (state : Pcm) : Prop where
  width : PcmWidth state.sampleBytes
  frame : state.frameBytes = state.sampleBytes * state.inputChannels
  input : state.inputChannels = 1 ∨ state.inputChannels = 2
  output : state.outputChannels = state.inputChannels ∨
    state.inputChannels = 1 ∧ state.outputChannels = 2

/-- The reference for the bytes of a stream. -/
def decoded (state : Pcm) (bytes : List UInt8) : List Int32 :=
  streamQ31 state.sampleBytes state.inputChannels state.outputChannels bytes

theorem Layout.pos {state : Pcm} (h : Layout state) : 0 < state.frameBytes := by
  rw [h.frame]
  exact frameBytes_pos h.width h.input

/-- A configuration that passes has the channels of the output, or is mono for stereo. -/
theorem channels_of_validateOpen {cfg : DecoderConfig} {output : Format} {codec : DecoderCodec}
    (h : validateOpen cfg output codec false = EAF_OK) :
    (cfg.channels = 1 ∨ cfg.channels = 2) ∧
      (output.numChannels = cfg.channels ∨ cfg.channels = 1 ∧ output.numChannels = 2) := by
  unfold validateOpen at h
  by_cases hzero : cfg.channels = 0
  · rw [if_pos hzero, if_pos (.inr (.inl rfl))] at h
    exact absurd h (by decide)
  simp only [if_neg hzero] at h
  split at h
  · exact absurd h (by decide)
  next hpass =>
    simp only [not_or, Bool.not_eq_false, Bool.and_eq_true, Bool.or_eq_true, decide_eq_true_eq,
      beq_iff_eq] at hpass
    obtain ⟨-, ⟨htwo, houtput⟩, -⟩ := hpass
    exact ⟨by omega, houtput⟩

theorem frameBytes_open {ring : List UInt8} {cfg : DecoderConfig} {output : Format} {state : Pcm}
    (h : pcmOpen ring cfg output = .ok state) :
    state.frameBytes = cfg.channels * (cfg.bitDepth / 8) := by
  unfold pcmOpen at h
  dsimp only at h
  split at h
  · cases h
  split at h
  · cases h
  · rw [← Except.ok.inj h]

theorem layout_open {ring : List UInt8} {cfg : DecoderConfig} {output : Format} {state : Pcm}
    (h : pcmOpen ring cfg output = .ok state) :
    Layout state ∧ state.input = decInputInit ring ∧
      decoded state = streamQ31 (cfg.bitDepth / 8) cfg.channels output.numChannels := by
  unfold pcmOpen at h
  by_cases hrc : validateOpen cfg output .pcm false ≠ EAF_OK
  · rw [if_pos hrc] at h
    exact absurd h (by simp)
  by_cases hdepth : cfg.bitDepth ≠ 16 ∧ cfg.bitDepth ≠ 24 ∧ cfg.bitDepth ≠ 32
  · rw [if_neg hrc, if_pos hdepth] at h
    exact absurd h (by simp)
  rw [if_neg hrc, if_neg hdepth, Except.ok.injEq] at h
  subst h
  obtain ⟨hinput, houtput⟩ := channels_of_validateOpen (of_not_not hrc)
  have hwidth : PcmWidth (cfg.bitDepth / 8) := by
    unfold PcmWidth
    omega
  exact ⟨⟨hwidth, Nat.mul_comm _ _, hinput, houtput⟩, rfl, rfl⟩

theorem pcmSample_eq {state : Pcm} (h : Layout state) {frame : List UInt8} {offset : Nat}
    (hframe : offset + state.sampleBytes ≤ frame.length) :
    pcmSample state frame offset = q31 (slice frame offset state.sampleBytes) := by
  have hlength : (slice frame offset state.sampleBytes).length = state.sampleBytes :=
    length_slice hframe
  have hwidth : PcmWidth (slice frame offset state.sampleBytes).length := by
    rw [hlength]
    exact h.width
  rw [← assembled_eq hwidth, hlength]
  rfl

/-- A frame of a pull is what the reference says. -/
theorem convertFrame_eq {state : Pcm} (h : Layout state) {frame : List UInt8}
    (hframe : frame.length = state.frameBytes) :
    convertFrame state frame =
      frameQ31 state.sampleBytes state.inputChannels state.outputChannels frame := by
  rw [h.frame] at hframe
  have hleft : pcmSample state frame 0 = q31 (slice frame 0 state.sampleBytes) := by
    apply pcmSample_eq h
    rcases h.input with hmono | hstereo
    · rw [hframe, hmono]
      omega
    · rw [hframe, hstereo]
      omega
  rcases h.input with hmono | hstereo
  · rcases h.output with houtput | ⟨-, houtput⟩
    · rw [hmono] at houtput
      simp [convertFrame, q31Interleaved, frameQ31, hmono, houtput, hleft]
    · simp [convertFrame, q31Interleaved, frameQ31, hmono, houtput, hleft, List.range_succ]
  · have houtput : state.outputChannels = 2 := by
      rcases h.output with houtput | ⟨hone, -⟩ <;> omega
    have hright : pcmSample state frame state.sampleBytes =
        q31 (slice frame state.sampleBytes state.sampleBytes) := by
      apply pcmSample_eq h
      rw [hframe, hstereo]
      omega
    simp [convertFrame, q31Interleaved, frameQ31, hstereo, houtput, hleft, hright,
      List.range_succ]

/-- Frames that are all in the ring come out in order, whether they go around its end or not. -/
theorem pullFrames_held : ∀ (count : Nat) {state : Pcm}, Layout state → Staging state.input →
    count * state.frameBytes ≤ state.input.count →
    ∃ bytes input, pullFrames state count = (bytes, decoded state bytes, { state with input }) ∧
      Staging input ∧ bytes.length = count * state.frameBytes ∧
      held state.input = bytes ++ held input := by
  intro count
  induction count with
  | zero =>
    intro state h hstaging _
    exact ⟨[], state.input, by simp [pullFrames, decoded, streamQ31], hstaging, by simp, rfl⟩
  | succ count ih =>
    intro state h hstaging hcount
    rw [Nat.succ_mul] at hcount
    have hfirst := read_held hstaging (show state.frameBytes ≤ state.input.count by omega)
    rw [pullFrames]
    generalize decInputRead state.input state.frameBytes = first at hfirst
    obtain ⟨frame, input⟩ := first
    obtain ⟨hnext, hframe, hheld⟩ := hfirst
    simp only at hnext hframe hheld ⊢
    have hleft : count * state.frameBytes ≤ input.count := by
      have htotal := congrArg List.length hheld
      rw [List.length_append, length_held hstaging, length_held hnext] at htotal
      omega
    obtain ⟨bytes, input', hrest, hstaging', hlength, hheld'⟩ :=
      @ih { state with input } ⟨h.width, h.frame, h.input, h.output⟩ hnext hleft
    have hdvd : state.sampleBytes * state.inputChannels ∣ frame.length := by
      rw [hframe, h.frame]
    have hone : decoded state frame = convertFrame state frame := by
      rw [convertFrame_eq h hframe]
      exact streamQ31_one (frameBytes_pos h.width h.input) (by rw [hframe, h.frame])
    have hboth : decoded state (frame ++ bytes) = decoded state frame ++ decoded state bytes :=
      streamQ31_append hdvd
    refine ⟨frame ++ bytes, input', ?_, hstaging', ?_, ?_⟩
    · rw [hrest, hboth, hone]
      rfl
    · rw [List.length_append, hframe, hlength, Nat.succ_mul, Nat.add_comm]
    · rw [hheld, hheld', List.append_assoc]

theorem pcmPull_held {state : Pcm} (h : Layout state) (hstaging : Staging state.input)
    (maxFrames : Nat) : ∃ bytes input, pcmPull state maxFrames =
      (⟨bytes, decoded state bytes, min (state.input.count / state.frameBytes) maxFrames,
        state.format⟩, { state with input }) ∧
      Staging input ∧
      bytes.length = min (state.input.count / state.frameBytes) maxFrames * state.frameBytes ∧
      held state.input = bytes ++ held input := by
  have hcount : min (state.input.count / state.frameBytes) maxFrames * state.frameBytes ≤
      state.input.count := by
    calc min (state.input.count / state.frameBytes) maxFrames * state.frameBytes
        ≤ state.input.count / state.frameBytes * state.frameBytes :=
          Nat.mul_le_mul_right _ (Nat.min_le_left _ _)
      _ ≤ state.input.count := Nat.div_mul_le_self _ _
  obtain ⟨bytes, input, hpull, hnext, hlength, hheld⟩ := pullFrames_held _ h hstaging hcount
  refine ⟨bytes, input, ?_, hnext, hlength, hheld⟩
  rw [pcmPull, hpull]

/-! ## A stream in pieces -/

/-- A call of the adapter: up to `length` bytes of what is left of the stream, or a pull. -/
inductive Call where
  | push (length : Nat)
  | pull (maxFrames : Nat)
  deriving DecidableEq, Repr

/-- A stream on its way: what the adapter has not accepted, what it has, what the pulls have read
of it, and what they gave. -/
structure Passage where
  rest : List UInt8
  accepted : List UInt8
  used : List UInt8
  pulled : List Int32
  state : Pcm

def Passage.begin (stream : List UInt8) (state : Pcm) : Passage := ⟨stream, [], [], [], state⟩

def passageStep (p : Passage) : Call → Passage
  | .push length =>
    let (consumed, state) := pcmPush p.state (p.rest.take length)
    { p with
      rest := p.rest.drop consumed
      accepted := p.accepted ++ p.rest.take consumed
      state := state }
  | .pull maxFrames =>
    let (pull, state) := pcmPull p.state maxFrames
    { p with used := p.used ++ pull.bytes, pulled := p.pulled ++ pull.pcm, state := state }

def passageRun (p : Passage) (calls : List Call) : Passage := calls.foldl passageStep p

/-- Each accepted byte was used once or is in the ring, and what was used was decoded. -/
structure Passing (stream : List UInt8) (opened : Pcm) (p : Passage) : Prop where
  state : p.state = { opened with input := p.state.input }
  staging : Staging p.state.input
  stream : p.accepted ++ p.rest = stream
  used : p.used ++ held p.state.input = p.accepted
  frames : opened.frameBytes ∣ p.used.length
  pulled : p.pulled = decoded opened p.used

theorem passing_begin {stream ring : List UInt8} {opened : Pcm} (hring : 0 < ring.length)
    (h : opened.input = decInputInit ring) :
    Passing stream opened (Passage.begin stream opened) := by
  refine ⟨rfl, ?_, rfl, ?_, Nat.dvd_zero _, ?_⟩
  · simp only [Passage.begin, h]
    exact staging_init hring
  · simp [Passage.begin, h, held, decInputInit, contents]
  · simp [Passage.begin, decoded, streamQ31]

theorem push_le (input : DecInput) (data : List UInt8) :
    (decInputPush input data).1 ≤ data.length := by
  unfold decInputPush
  split
  · exact Nat.zero_le _
  · exact Nat.min_le_left _ _

theorem passing_step {stream : List UInt8} {opened : Pcm} {p : Passage} (hlayout : Layout opened)
    (h : Passing stream opened p) (call : Call) : Passing stream opened (passageStep p call) := by
  have hlayout' : Layout p.state := by
    rw [h.state]
    exact ⟨hlayout.width, hlayout.frame, hlayout.input, hlayout.output⟩
  cases call with
  | push length =>
    obtain ⟨hstaging, hheld⟩ := push_held h.staging (p.rest.take length)
    have hle := push_le p.state.input (p.rest.take length)
    rw [List.length_take] at hle
    refine ⟨?_, hstaging, ?_, ?_, h.frames, h.pulled⟩
    · simp only [passageStep, pcmPush]
      rw [h.state]
    · simp only [passageStep, pcmPush]
      rw [List.append_assoc, List.take_append_drop, h.stream]
    · simp only [passageStep, pcmPush]
      rw [hheld, List.take_take, Nat.min_eq_left (by omega), ← List.append_assoc, h.used]
  | pull maxFrames =>
    obtain ⟨bytes, input, hpull, hstaging, hlength, hheld⟩ :=
      pcmPull_held hlayout' h.staging maxFrames
    have hframe : p.state.frameBytes = opened.frameBytes := by rw [h.state]
    have hdecoded : decoded p.state bytes = decoded opened bytes := by rw [h.state]; rfl
    simp only [passageStep, hpull]
    refine ⟨?_, hstaging, h.stream, ?_, ?_, ?_⟩
    · simp only
      rw [h.state]
    · rw [List.append_assoc, ← hheld, h.used]
    · rw [List.length_append]
      exact Nat.dvd_add h.frames (hframe ▸ hlength ▸ Nat.dvd_mul_left _ _)
    · rw [h.pulled, hdecoded]
      exact (streamQ31_append (hlayout.frame ▸ h.frames)).symm

theorem passing_run {stream : List UInt8} {opened : Pcm} (hlayout : Layout opened)
    (calls : List Call) {p : Passage} (h : Passing stream opened p) :
    Passing stream opened (passageRun p calls) := by
  induction calls generalizing p with
  | nil => exact h
  | cons call calls ih => exact ih (passing_step hlayout h call)

/-- However a stream is cut into pushes and pulls: the accepted bytes are a first part of it, each
of them was used once or is still in the ring, and what was pulled is what the reference gives
for them, less the frames that are in the ring. -/
theorem pulled_exact {ring : List UInt8} {cfg : DecoderConfig} {output : Format} {state : Pcm}
    (hring : ring.length = EAF_DECODER_PCM_RING_BYTES) (h : pcmOpen ring cfg output = .ok state)
    (stream : List UInt8) (calls : List Call) :
    let p := passageRun (Passage.begin stream state) calls
    let reference := streamQ31 (cfg.bitDepth / 8) cfg.channels output.numChannels
    p.accepted ++ p.rest = stream ∧ p.used ++ held p.state.input = p.accepted ∧
      p.pulled = reference p.used ∧
      p.pulled ++ reference (held p.state.input) = reference p.accepted := by
  intro p reference
  obtain ⟨hlayout, hinput, hreference⟩ := layout_open h
  have hp : Passing stream state p :=
    passing_run hlayout calls (passing_begin (by rw [hring]; decide) hinput)
  have hpulled : p.pulled = reference p.used := by rw [hp.pulled, hreference]
  refine ⟨hp.stream, hp.used, hpulled, ?_⟩
  rw [hpulled, ← hp.used, ← show decoded state = reference from hreference]
  exact (streamQ31_append (hlayout.frame ▸ hp.frames)).symm

/-- Frames of six bytes: the last one goes around the end of the ring. -/
theorem pulled_exact_wrapped :
    let stream := (List.range 4098).map UInt8.ofNat
    let output : Format := ⟨44100, 2, 3⟩
    let state : Pcm := ⟨output, 2, 24, 2, 3, 6, decInputInit (List.replicate 4096 0)⟩
    let p := passageRun (Passage.begin stream state)
      [.push 4099, .pull 600, .pull 82, .push 100, .pull 4]
    p.accepted ++ p.rest = stream ∧ p.used ++ held p.state.input = p.accepted ∧
      p.pulled = streamQ31 3 2 2 p.used ∧
      p.pulled ++ streamQ31 3 2 2 (held p.state.input) = streamQ31 3 2 2 p.accepted :=
  @pulled_exact (List.replicate 4096 0) ⟨.pcm, 44100, 2, 24⟩ ⟨44100, 2, 3⟩
    ⟨⟨44100, 2, 3⟩, 2, 24, 2, 3, 6, decInputInit (List.replicate 4096 0)⟩ List.length_replicate rfl
    _ _

end EmbeddedAudio.PcmAdapter
