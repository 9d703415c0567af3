-- The Opus adapter (dec_opus.c): one packet waits while the frames of the packet before it are
-- emitted over as many pulls as it takes.
import EmbeddedAudio.PcmAdapter

namespace EmbeddedAudio.OpusAdapter

open BtDecoder (s16ToQ31Interleaved)
open PcmAdapter (DecoderConfig validateOpen)
open Storage

/-! ## The library -/

abbrev EAF_DEC_OPUS_MAX_PACKET : Nat := 1500

abbrev EAF_DEC_OPUS_MAX_FRAMES : Nat := 5760

/-- `temp`. -/
abbrev Temp := Vector Int16 (EAF_DEC_OPUS_MAX_FRAMES * 2)

/-- What `opus_decode` returns and what it leaves in `temp`. A negative number is an error. It is
given `EAF_DEC_OPUS_MAX_FRAMES`, and it decodes no more than that. -/
structure OpusAnswer where
  samples : Int
  temp : Temp
  fits : samples ≤ EAF_DEC_OPUS_MAX_FRAMES

/-- libopus, with whatever state the decoder has. -/
structure OpusLib (σ : Type) where
  create : Nat → Nat → Option σ
  decode : σ → List UInt8 → Temp → OpusAnswer × σ
  resetState : σ → σ

variable {σ : Type}

/-! ## The adapter -/

/-- `eaf_dec_opus_t`, apart from the decoder. -/
structure DecOpus where
  format : Format
  channels : Nat
  outputChannels : Nat
  packetLength : Nat
  decodedFrames : UInt32
  decodedPos : UInt32
  packet : List UInt8
  temp : Temp

/-- `opus_open`, over a state with anything in it. -/
def opusOpen (lib : OpusLib σ) (state : DecOpus) (cfg : DecoderConfig) (output : Format) :
    Except Rc (DecOpus × σ) :=
  let rc := validateOpen cfg output .opus false
  if rc ≠ EAF_OK then .error rc
  else
    match lib.create cfg.sampleRate cfg.channels with
    | none => .error EAF_UNSUPPORTED
    | some dec => .ok ({ state with
        channels := cfg.channels
        outputChannels := output.numChannels
        packetLength := 0
        decodedFrames := 0
        decodedPos := 0
        format := output }, dec)

/-- `opus_push`: what it returns, and how much it consumed. -/
def opusPush (state : DecOpus) (data : List UInt8) : Rc × Nat × DecOpus :=
  if state.packetLength ≠ 0 then (EAF_OK, 0, state)
  else if data.length > EAF_DEC_OPUS_MAX_PACKET then (EAF_INVALID, 0, state)
  else (EAF_OK, data.length, { state with
    packet := overwrite state.packet 0 data
    packetLength := data.length })

/-- What a pull returns and leaves. `decoded` is the packet that it gave to `opus_decode`, with the
answer. -/
structure OpusPull (σ : Type) where
  rc : Rc
  frames : UInt32
  pcm : List Int32
  format : Option Format
  state : DecOpus
  dec : σ
  decoded : Option (List UInt8 × OpusAnswer)

/-- The end of `opus_pull`: as many of the decoded frames as are asked for. -/
def emitFrames (state : DecOpus) (dec : σ) (decoded : Option (List UInt8 × OpusAnswer))
    (maxFrames : UInt32) : OpusPull σ :=
  let available := state.decodedFrames - state.decodedPos
  let count := if available < maxFrames then available else maxFrames
  { rc := EAF_OK
    frames := count
    pcm := s16ToQ31Interleaved (state.temp.toList.drop (state.decodedPos.toNat * state.channels))
      count.toNat state.channels state.outputChannels
    format := some state.format
    state := { state with decodedPos := state.decodedPos + count }
    dec := dec
    decoded := decoded }

/-- `opus_pull`. -/
def opusPull (lib : OpusLib σ) (state : DecOpus) (dec : σ) (maxFrames : UInt32) : OpusPull σ :=
  if maxFrames = 0 then ⟨EAF_INVALID, 0, [], none, state, dec, none⟩
  else if state.decodedPos ≥ state.decodedFrames then
    let state := { state with decodedPos := 0, decodedFrames := 0 }
    if state.packetLength = 0 then ⟨EAF_OK, 0, [], none, state, dec, none⟩
    else
      let packet := state.packet.take state.packetLength
      let answer := (lib.decode dec packet state.temp).1
      let dec := (lib.decode dec packet state.temp).2
      let state := { state with packetLength := 0, temp := answer.temp }
      if answer.samples < 0 then ⟨EAF_INVALID, 0, [], none, state, dec, some (packet, answer)⟩
      else
        let state := { state with decodedFrames := UInt32.ofNat answer.samples.toNat }
        if state.decodedFrames = 0 then ⟨EAF_OK, 0, [], none, state, dec, some (packet, answer)⟩
        else emitFrames state dec (some (packet, answer)) maxFrames
  else emitFrames state dec none maxFrames

/-- `opus_reset`. -/
def opusReset (lib : OpusLib σ) (state : DecOpus) (dec : σ) : DecOpus × σ :=
  ({ state with packetLength := 0, decodedFrames := 0, decodedPos := 0 }, lib.resetState dec)

/-! ## What is staged -/

/-- The packet that waits, if there is one. -/
def waiting (state : DecOpus) : List (List UInt8) :=
  if state.packetLength = 0 then [] else [state.packet.take state.packetLength]

/-- How many frames are still to be emitted. -/
def left (state : DecOpus) : Nat := state.decodedFrames.toNat - state.decodedPos.toNat

/-- Their samples. -/
def pending (state : DecOpus) : List Int32 :=
  s16ToQ31Interleaved (state.temp.toList.drop (state.decodedPos.toNat * state.channels))
    (left state) state.channels state.outputChannels

/-- The frames of a packet, as they are to be emitted. After an error there are none. -/
def framesOf (state : DecOpus) (answer : OpusAnswer) : List Int32 :=
  s16ToQ31Interleaved answer.temp.toList answer.samples.toNat state.channels state.outputChannels

section Widening

variable {src : List Int16} {channels out : Nat}

theorem s16_add (src : List Int16) (a b channels out : Nat) :
    s16ToQ31Interleaved src (a + b) channels out = s16ToQ31Interleaved src a channels out ++
      s16ToQ31Interleaved (src.drop (a * channels)) b channels out := by
  have hcell : ∀ i k, (src.drop (a * channels)).getD (i * channels + k) 0 =
      src.getD ((a + i) * channels + k) 0 := by
    intro i k
    rw [List.getD_eq_getElem?_getD, List.getD_eq_getElem?_getD, List.getElem?_drop, Nat.add_mul,
      Nat.add_assoc]
  have hfirst : ∀ i, (src.drop (a * channels)).getD (i * channels) 0 =
      src.getD ((a + i) * channels) 0 := fun i => hcell i 0
  unfold s16ToQ31Interleaved
  rw [List.range_add, List.flatMap_append, List.flatMap_map]
  simp only [hcell, hfirst]

/-- The samples of an output frame. -/
def widthOf (out : Nat) : Nat := if out = 2 then 2 else 1

theorem length_s16 (src : List Int16) (n channels out : Nat) :
    (s16ToQ31Interleaved src n channels out).length = n * widthOf out := by
  unfold s16ToQ31Interleaved widthOf
  induction n with
  | zero => rw [Nat.zero_mul]; rfl
  | succ n ih =>
    rw [List.range_succ, List.flatMap_append, List.length_append, ih, List.flatMap_singleton,
      Nat.succ_mul]
    split <;> rfl

end Widening

/-! ## The calls, one by one -/

/-- The offset is in what was decoded, and that is in `temp`. -/
structure Within (state : DecOpus) : Prop where
  pos : state.decodedPos.toNat ≤ state.decodedFrames.toNat
  frames : state.decodedFrames.toNat ≤ EAF_DEC_OPUS_MAX_FRAMES

section Calls

variable {lib : OpusLib σ} {state : DecOpus} {dec : σ} {maxFrames : UInt32}

/-- What a pull does to the frames that are staged: it emits the first of them, as many as it is
asked for. -/
structure Emits (staged : List Int32) (frames : Nat) (maxFrames : UInt32) (r : OpusPull σ) :
    Prop where
  rc : r.rc = EAF_OK
  count : r.frames.toNat = min frames maxFrames.toNat
  length : r.pcm.length = r.frames.toNat * widthOf r.state.outputChannels
  rest : staged = r.pcm ++ pending r.state
  within : Within r.state

theorem emitFrames_emits (h : Within state) (dec : σ) (decoded : Option (List UInt8 × OpusAnswer))
    (maxFrames : UInt32) :
    Emits (pending state) (left state) maxFrames (emitFrames state dec decoded maxFrames) := by
  have hpos := h.pos
  have hframes : state.decodedFrames.toNat ≤ 5760 := h.frames
  have havailable : (state.decodedFrames - state.decodedPos).toNat = left state :=
    UInt32.toNat_sub_of_le _ _ (UInt32.le_iff_toNat_le.mpr hpos)
  have hcount : (emitFrames state dec decoded maxFrames).frames.toNat =
      min (left state) maxFrames.toNat := by
    unfold emitFrames
    simp only
    split
    · rename_i hlt
      have hlt' := UInt32.lt_iff_toNat_lt.mp hlt
      omega
    · rename_i hge
      have hge' := UInt32.le_iff_toNat_le.mp (UInt32.not_lt.mp hge)
      omega
  have hleft : left state = state.decodedFrames.toNat - state.decodedPos.toNat := rfl
  have hnext : (emitFrames state dec decoded maxFrames).state.decodedPos.toNat =
      state.decodedPos.toNat + (emitFrames state dec decoded maxFrames).frames.toNat := by
    change (state.decodedPos + (emitFrames state dec decoded maxFrames).frames).toNat = _
    rw [UInt32.toNat_add, Nat.mod_eq_of_lt (by omega)]
  have hrest : left (emitFrames state dec decoded maxFrames).state =
      left state - (emitFrames state dec decoded maxFrames).frames.toNat := by
    unfold left
    rw [hnext]
    exact Nat.sub_add_eq _ _ _
  refine ⟨rfl, hcount, length_s16 _ _ _ _, ?_, ⟨?_, hframes⟩⟩
  · have hsplit : left state = (emitFrames state dec decoded maxFrames).frames.toNat +
        (left state - (emitFrames state dec decoded maxFrames).frames.toNat) := by omega
    have hdrop : (state.temp.toList.drop (state.decodedPos.toNat * state.channels)).drop
          ((emitFrames state dec decoded maxFrames).frames.toNat * state.channels) =
        state.temp.toList.drop
          ((emitFrames state dec decoded maxFrames).state.decodedPos.toNat * state.channels) := by
      rw [List.drop_drop, ← Nat.add_mul, hnext]
    unfold pending
    rw [hrest]
    conv_lhs => rw [hsplit, s16_add, hdrop]
    rfl
  · rw [hnext, hcount]
    change _ ≤ state.decodedFrames.toNat
    omega

/-- What a pull can do. -/
inductive Pulls (lib : OpusLib σ) (state : DecOpus) (dec : σ) (maxFrames : UInt32)
    (r : OpusPull σ) : Prop
  /-- There is nothing to emit. -/
  | nothing : maxFrames = 0 ∨ (left state = 0 ∧ waiting state = []) → r.decoded = none →
      r.pcm = [] → waiting r.state = waiting state → pending r.state = pending state →
      Within r.state → Pulls lib state dec maxFrames r
  /-- The frames of an earlier packet are emitted first. -/
  | emits : maxFrames ≠ 0 → 0 < left state → r.decoded = none → waiting r.state = waiting state →
      Emits (pending state) (left state) maxFrames r → Pulls lib state dec maxFrames r
  /-- The packet that waits is decoded. -/
  | decodes (packet : List UInt8) : maxFrames ≠ 0 → left state = 0 → waiting state = [packet] →
      r.decoded = some (packet, (lib.decode dec packet state.temp).1) → waiting r.state = [] →
      framesOf state (lib.decode dec packet state.temp).1 = r.pcm ++ pending r.state →
      Within r.state → Pulls lib state dec maxFrames r

theorem s16_zero (src : List Int16) (channels out : Nat) :
    s16ToQ31Interleaved src 0 channels out = [] := rfl

theorem pending_none (h : left state = 0) : pending state = [] := by
  unfold pending
  rw [h, s16_zero]

/-- A packet that was just decoded. -/
theorem pending_decoded (state : DecOpus) (answer : OpusAnswer) (next : DecOpus)
    (htemp : next.temp = answer.temp)
    (hframes : next.decodedFrames = UInt32.ofNat answer.samples.toNat) (hpos : next.decodedPos = 0)
    (hchannels : next.channels = state.channels)
    (hout : next.outputChannels = state.outputChannels) :
    Within next ∧ left next = answer.samples.toNat ∧ pending next = framesOf state answer := by
  have hfits := answer.fits
  have hcount : next.decodedFrames.toNat = answer.samples.toNat := by
    rw [hframes]
    exact UInt32.toNat_ofNat_of_lt' (Nat.lt_of_le_of_lt (Int.toNat_le.mpr hfits) (by decide))
  have hleft : left next = answer.samples.toNat := by
    unfold left
    rw [hcount, hpos]
    rfl
  refine ⟨⟨?_, ?_⟩, hleft, ?_⟩
  · rw [hpos]
    exact Nat.zero_le _
  · rw [hcount]
    exact Int.toNat_le.mpr hfits
  · unfold pending framesOf
    rw [hleft, htemp, hpos, hchannels, hout, UInt32.toNat_zero, Nat.zero_mul, List.drop_zero]

theorem opusPull_pulls (h : Within state) (lib : OpusLib σ) (dec : σ) (maxFrames : UInt32) :
    Pulls lib state dec maxFrames (opusPull lib state dec maxFrames) := by
  unfold opusPull
  by_cases hmax : maxFrames = 0
  · rw [if_pos hmax]
    exact .nothing (.inl hmax) rfl rfl rfl rfl h
  rw [if_neg hmax]
  by_cases hdone : state.decodedPos ≥ state.decodedFrames
  · have hleft : left state = 0 := Nat.sub_eq_zero_of_le (UInt32.le_iff_toNat_le.mp hdone)
    rw [if_pos hdone]
    by_cases hempty : state.packetLength = 0
    · have hwaiting : waiting state = [] := if_pos hempty
      simp only [hempty, if_true]
      refine .nothing (.inr ⟨hleft, hwaiting⟩) rfl rfl ?_ ?_ ⟨Nat.le_refl _, Nat.zero_le _⟩
      · rw [hwaiting]
        rfl
      · rw [pending_none hleft]
        rfl
    · have hwaiting : waiting state = [state.packet.take state.packetLength] := if_neg hempty
      simp only [hempty, if_false]
      generalize hpacket : state.packet.take state.packetLength = packet at hwaiting ⊢
      by_cases herror : (lib.decode dec packet state.temp).1.samples < 0
      · have hnone : framesOf state (lib.decode dec packet state.temp).1 = [] := by
          unfold framesOf
          rw [Int.toNat_of_nonpos (by omega), s16_zero]
        rw [if_pos herror]
        refine .decodes packet hmax hleft hwaiting rfl rfl ?_ ⟨Nat.le_refl _, Nat.zero_le _⟩
        rw [hnone]
        rfl
      rw [if_neg herror]
      obtain ⟨hwithin, -, hframes⟩ := pending_decoded state
        (lib.decode dec packet state.temp).1
        { state with
          decodedPos := 0
          decodedFrames := UInt32.ofNat (lib.decode dec packet state.temp).1.samples.toNat
          packetLength := 0
          temp := (lib.decode dec packet state.temp).1.temp } rfl rfl rfl rfl rfl
      by_cases hzero : UInt32.ofNat (lib.decode dec packet state.temp).1.samples.toNat = 0
      · rw [if_pos hzero]
        exact .decodes packet hmax hleft hwaiting rfl rfl hframes.symm hwithin
      · rw [if_neg hzero]
        have hemits := emitFrames_emits hwithin (lib.decode dec packet state.temp).2
          (some (packet, (lib.decode dec packet state.temp).1)) maxFrames
        refine .decodes packet hmax hleft hwaiting rfl rfl ?_ hemits.within
        rw [← hframes]
        exact hemits.rest
  · rw [if_neg hdone]
    have hlt := UInt32.lt_iff_toNat_lt.mp (UInt32.not_le.mp hdone)
    exact .emits hmax (Nat.sub_pos_of_lt hlt) rfl rfl (emitFrames_emits h dec none maxFrames)

theorem opusPull_channels (lib : OpusLib σ) (state : DecOpus) (dec : σ) (maxFrames : UInt32) :
    (opusPull lib state dec maxFrames).state.channels = state.channels ∧
      (opusPull lib state dec maxFrames).state.outputChannels = state.outputChannels := by
  unfold opusPull
  simp only
  split
  · exact ⟨rfl, rfl⟩
  · split
    · split
      · exact ⟨rfl, rfl⟩
      · split
        · exact ⟨rfl, rfl⟩
        · split <;> exact ⟨rfl, rfl⟩
    · exact ⟨rfl, rfl⟩

end Calls

/-! ## Runs -/

inductive OpusCall where
  | push (data : List UInt8)
  | pull (maxFrames : UInt32)
  | reset

/-- What happened from an open or a reset on: the packets that were accepted, those that were
decoded with what came of it, and the samples that were emitted, each in order. -/
structure Epoch where
  accepted : List (List UInt8)
  decodes : List (List UInt8 × OpusAnswer)
  emitted : List Int32

/-- The adapter, and what has happened. Each reset ends an epoch. -/
structure OpusRun (σ : Type) where
  state : DecOpus
  dec : σ
  past : List Epoch
  now : Epoch

def opusStart (opened : DecOpus × σ) : OpusRun σ := ⟨opened.1, opened.2, [], ⟨[], [], []⟩⟩

def opusStep (lib : OpusLib σ) (run : OpusRun σ) : OpusCall → OpusRun σ
  | .push data =>
    let r := opusPush run.state data
    { run with
      state := r.2.2
      now := { run.now with
        accepted := run.now.accepted ++ if r.2.1 = 0 then [] else [data] } }
  | .pull maxFrames =>
    let r := opusPull lib run.state run.dec maxFrames
    { run with
      state := r.state
      dec := r.dec
      now := { run.now with
        decodes := run.now.decodes ++ r.decoded.toList
        emitted := run.now.emitted ++ r.pcm } }
  | .reset =>
    let r := opusReset lib run.state run.dec
    { state := r.1, dec := r.2, past := run.past ++ [run.now], now := ⟨[], [], []⟩ }

def opusRun (lib : OpusLib σ) (run : OpusRun σ) (calls : List OpusCall) : OpusRun σ :=
  calls.foldl (opusStep lib) run

/-- The frames of the packets that were decoded. -/
def Epoch.frames (epoch : Epoch) (opened : DecOpus) : List Int32 :=
  epoch.decodes.flatMap fun d => framesOf opened d.2

/-- What holds of an epoch that a reset has ended: packets were decoded in order, none of them
twice, and what was emitted are their frames in order, up to where the reset came. -/
def Epoch.InOrder (epoch : Epoch) (opened : DecOpus) : Prop :=
  epoch.decodes.map Prod.fst <+: epoch.accepted ∧ epoch.emitted <+: epoch.frames opened

/-- The invariant of a run. -/
structure Stages (opened : DecOpus) (run : OpusRun σ) : Prop where
  channels : run.state.channels = opened.channels
  out : run.state.outputChannels = opened.outputChannels
  within : Within run.state
  /-- Each accepted packet is decoded, or it waits. -/
  once : run.now.accepted = run.now.decodes.map Prod.fst ++ waiting run.state
  /-- Each decoded frame is emitted, or it is pending. -/
  whole : run.now.emitted ++ pending run.state = run.now.frames opened
  past : ∀ epoch ∈ run.past, epoch.InOrder opened

section Runs

variable {lib : OpusLib σ} {opened : DecOpus} {run : OpusRun σ}

theorem framesOf_congr {state : DecOpus} (hchannels : state.channels = opened.channels)
    (hout : state.outputChannels = opened.outputChannels) (answer : OpusAnswer) :
    framesOf state answer = framesOf opened answer := by
  unfold framesOf
  rw [hchannels, hout]

theorem Epoch.frames_snoc (epoch : Epoch) (opened : DecOpus) (d : List UInt8 × OpusAnswer)
    (accepted : List (List UInt8)) (emitted : List Int32) :
    Epoch.frames ⟨accepted, epoch.decodes ++ [d], emitted⟩ opened =
      epoch.frames opened ++ framesOf opened d.2 := by
  unfold Epoch.frames
  rw [List.flatMap_append, List.flatMap_singleton]

/-- A push consumes a packet when none waits, and otherwise nothing. -/
theorem opusPush_cases (state : DecOpus) (data : List UInt8) :
    (opusPush state data).2.2 = state ∧ (opusPush state data).2.1 = 0 ∨
      waiting state = [] ∧ (opusPush state data).2.2 = { state with
        packet := overwrite state.packet 0 data
        packetLength := data.length } ∧ (opusPush state data).2.1 = data.length := by
  unfold opusPush
  by_cases hbusy : state.packetLength ≠ 0
  · rw [if_pos hbusy]
    exact .inl ⟨rfl, rfl⟩
  rw [if_neg hbusy]
  by_cases hlong : data.length > EAF_DEC_OPUS_MAX_PACKET
  · rw [if_pos hlong]
    exact .inl ⟨rfl, rfl⟩
  · rw [if_neg hlong]
    exact .inr ⟨if_pos (not_not.mp hbusy), rfl, rfl⟩

theorem waiting_filled (state : DecOpus) (data : List UInt8) :
    waiting { state with packet := overwrite state.packet 0 data, packetLength := data.length } =
      if data.length = 0 then [] else [data] := by
  have htake := take_overwrite state.packet 0 data (Nat.zero_le _)
  rw [Nat.zero_add, List.take_zero, List.nil_append] at htake
  unfold waiting
  simp only [htake]

theorem stages_push (h : Stages opened run) (data : List UInt8) :
    Stages opened (opusStep lib run (.push data)) := by
  rcases opusPush_cases run.state data with ⟨hstate, hnone⟩ | ⟨hfree, hstate, hcount⟩
  · refine ⟨?_, ?_, ?_, ?_, ?_, h.past⟩
    all_goals simp only [opusStep, hstate, hnone, if_true, List.append_nil]
    · exact h.channels
    · exact h.out
    · exact h.within
    · exact h.once
    · exact h.whole
  · refine ⟨?_, ?_, ?_, ?_, ?_, h.past⟩
    all_goals simp only [opusStep, hstate, hcount]
    · exact h.channels
    · exact h.out
    · exact ⟨h.within.pos, h.within.frames⟩
    · rw [waiting_filled, h.once, hfree, List.append_nil]
    · exact h.whole

theorem stages_pull (h : Stages opened run) (maxFrames : UInt32) :
    Stages opened (opusStep lib run (.pull maxFrames)) := by
  have hkeep := opusPull_channels lib run.state run.dec maxFrames
  have hpulls := opusPull_pulls h.within lib run.dec maxFrames
  unfold opusStep
  simp only
  generalize opusPull lib run.state run.dec maxFrames = r at hkeep hpulls
  have hchannels := hkeep.1.trans h.channels
  have hout := hkeep.2.trans h.out
  rcases hpulls with ⟨-, hdecoded, hpcm, hwaiting, hpending, hwithin⟩ |
    ⟨-, -, hdecoded, hwaiting, hemits⟩ |
    ⟨packet, -, hleft, hwaiting, hdecoded, hfree, hframes, hwithin⟩
  · refine ⟨hchannels, hout, hwithin, ?_, ?_, h.past⟩
    · simp only [hdecoded, Option.toList_none, List.append_nil, hwaiting]
      exact h.once
    · simp only [hdecoded, Option.toList_none, List.append_nil, hpcm, hpending]
      exact h.whole
  · refine ⟨hchannels, hout, hemits.within, ?_, ?_, h.past⟩
    · simp only [hdecoded, Option.toList_none, List.append_nil, hwaiting]
      exact h.once
    · have hwhole := h.whole
      rw [hemits.rest, ← List.append_assoc] at hwhole
      simp only [hdecoded, Option.toList_none, List.append_nil]
      exact hwhole
  · refine ⟨hchannels, hout, hwithin, ?_, ?_, h.past⟩
    · have honce := h.once
      rw [hwaiting] at honce
      simp only [hdecoded, Option.toList_some, hfree, List.append_nil, List.map_append,
        List.map_cons, List.map_nil]
      exact honce
    · -- all earlier frames are out, so those of the new packet follow on them
      have hwhole := h.whole
      rw [pending_none hleft, List.append_nil] at hwhole
      simp only [hdecoded, Option.toList_some, Epoch.frames_snoc]
      rw [List.append_assoc, ← hframes, hwhole, framesOf_congr h.channels h.out]

/-- A reset drops the packet that waits and the frames that are pending. -/
theorem stages_reset (h : Stages opened run) : Stages opened (opusStep lib run .reset) := by
  refine ⟨h.channels, h.out, ⟨Nat.le_refl _, Nat.zero_le _⟩, rfl, rfl, fun epoch hepoch => ?_⟩
  rcases List.mem_append.mp hepoch with hpast | hnow
  · exact h.past epoch hpast
  · rw [List.mem_singleton.mp hnow]
    exact ⟨⟨_, h.once.symm⟩, ⟨_, h.whole⟩⟩

theorem stages_run (h : Stages opened run) (calls : List OpusCall) :
    Stages opened (opusRun lib run calls) := by
  induction calls generalizing run with
  | nil => exact h
  | cons call calls ih =>
    apply ih
    cases call with
    | push data => exact stages_push h data
    | pull maxFrames => exact stages_pull h maxFrames
    | reset => exact stages_reset h

theorem opusOpen_stages {state : DecOpus} {cfg : DecoderConfig} {output : Format} {dec : σ}
    (h : opusOpen lib state cfg output = .ok (opened, dec)) :
    opened.channels ≤ 2 ∧ Stages opened (opusStart (opened, dec)) := by
  unfold opusOpen at h
  simp only at h
  split at h
  · cases h
  · rename_i hrc
    obtain ⟨hchannels, -⟩ := PcmAdapter.channels_of_validateOpen (not_not.mp hrc)
    split at h
    · cases h
    · cases h
      refine ⟨?_, rfl, rfl, ⟨Nat.le_refl _, Nat.zero_le _⟩, rfl, rfl, ?_⟩
      · change cfg.channels ≤ 2
        omega
      · exact fun _ hepoch => absurd hepoch List.not_mem_nil

/-- What the adapter does with the packets, after any calls. -/
structure Staged (lib : OpusLib σ) (opened : DecOpus) (run : OpusRun σ) : Prop where
  /-- Each accepted packet was decoded once, in order, or it waits. -/
  once : run.now.accepted = run.now.decodes.map Prod.fst ++ waiting run.state
  /-- Each decoded frame was emitted once, in order, or it is pending. -/
  whole : run.now.emitted ++ pending run.state = run.now.frames opened
  past : ∀ epoch ∈ run.past, epoch.InOrder opened
  /-- A pull that finds frames pending emits of these, and the packet that waits is held. -/
  held : ∀ maxFrames, maxFrames ≠ 0 → 0 < left run.state →
    (opusPull lib run.state run.dec maxFrames).decoded = none ∧
      waiting (opusPull lib run.state run.dec maxFrames).state = waiting run.state ∧
      Emits (pending run.state) (left run.state) maxFrames
        (opusPull lib run.state run.dec maxFrames)
  /-- When none are pending, it decodes the packet that waits. -/
  taken : ∀ maxFrames, maxFrames ≠ 0 → left run.state = 0 → ∀ packet ∈ waiting run.state,
    ∃ answer, (opusPull lib run.state run.dec maxFrames).decoded = some (packet, answer)
  /-- A packet is decoded only when all frames of the packets before it are out. -/
  decodes : ∀ maxFrames packet answer,
    (opusPull lib run.state run.dec maxFrames).decoded = some (packet, answer) →
    run.now.emitted = run.now.frames opened ∧ waiting run.state = [packet] ∧
      waiting (opusPull lib run.state run.dec maxFrames).state = []
  refused : waiting run.state ≠ [] → ∀ data, opusPush run.state data = (EAF_OK, 0, run.state)
  /-- The frames are read from inside of `temp`. -/
  inside : (run.state.decodedPos.toNat + left run.state) * run.state.channels ≤
    EAF_DEC_OPUS_MAX_FRAMES * 2

theorem staged_of_stages (h : Stages opened run) (hchannels : opened.channels ≤ 2) :
    Staged lib opened run := by
  have hwhole := h.whole
  refine ⟨h.once, hwhole, h.past, fun maxFrames hmax hleft => ?_,
    fun maxFrames hmax hleft packet hpacket => ?_, fun maxFrames packet answer hdecoded => ?_,
    fun hwaiting data => ?_, ?_⟩
  · rcases opusPull_pulls h.within lib run.dec maxFrames with ⟨hnone, -⟩ |
      ⟨-, -, hdecoded, hwaiting, hemits⟩ | ⟨_, -, hzero, -⟩
    · rcases hnone with hzero | ⟨hzero, -⟩
      · exact absurd hzero hmax
      · omega
    · exact ⟨hdecoded, hwaiting, hemits⟩
    · omega
  · rcases opusPull_pulls h.within lib run.dec maxFrames with ⟨hnone, -⟩ | ⟨-, hpos, -⟩ |
      ⟨other, -, -, hwaiting, hdecoded, -⟩
    · rcases hnone with hzero | ⟨-, hempty⟩
      · exact absurd hzero hmax
      · rw [hempty] at hpacket
        cases hpacket
    · omega
    · rw [hwaiting, List.mem_singleton] at hpacket
      exact ⟨_, hpacket ▸ hdecoded⟩
  · rcases opusPull_pulls h.within lib run.dec maxFrames with ⟨-, hnone, -⟩ | ⟨-, -, hnone, -⟩ |
      ⟨other, -, hleft, hwaiting, hother, hfree, -⟩
    · rw [hnone] at hdecoded
      cases hdecoded
    · rw [hnone] at hdecoded
      cases hdecoded
    · rw [hother] at hdecoded
      cases hdecoded
      rw [pending_none hleft, List.append_nil] at hwhole
      exact ⟨hwhole, hwaiting, hfree⟩
  · have hbusy : run.state.packetLength ≠ 0 := fun hzero => hwaiting (if_pos hzero)
    unfold opusPush
    rw [if_pos hbusy]
  · have hpos := h.within.pos
    have hend : run.state.decodedPos.toNat + left run.state ≤ EAF_DEC_OPUS_MAX_FRAMES := by
      unfold left
      rw [Nat.add_sub_cancel' hpos]
      exact h.within.frames
    rw [h.channels]
    exact Nat.mul_le_mul hend hchannels

end Runs

/-- After any calls behind an open, whatever the library makes of the packets. -/
theorem opus_staged {lib : OpusLib σ} {state opened : DecOpus} {cfg : DecoderConfig}
    {output : Format} {dec : σ} (h : opusOpen lib state cfg output = .ok (opened, dec))
    (calls : List OpusCall) : Staged lib opened (opusRun lib (opusStart (opened, dec)) calls) := by
  obtain ⟨hchannels, hstart⟩ := opusOpen_stages h
  exact staged_of_stages (stages_run hstart calls) hchannels

/-- A library that decodes a frame for each byte, and has an error for a byte alone. -/
def bytewise : OpusLib Nat where
  create := fun _ _ => some 0
  decode := fun count packet temp =>
    (⟨if packet.length = 1 then -4 else min packet.length 5760, temp, by
      change _ ≤ (5760 : Int)
      split <;> omega⟩, count + 1)
  resetState := fun _ => 0

def blank : DecOpus where
  format := ⟨48000, 2, 3⟩
  channels := 2
  outputChannels := 2
  packetLength := 0
  decodedFrames := 0
  decodedPos := 0
  packet := []
  temp := Vector.replicate (EAF_DEC_OPUS_MAX_FRAMES * 2) 0

/-- A packet that is held while the one before it is emitted, one that has an error, and a reset. -/
def blankCalls : List OpusCall :=
  [.push [1, 2, 3], .pull 1, .push [4], .push [5, 6], .pull 2, .pull 7, .push [5, 6], .pull 1,
    .reset]

theorem opus_staged_blank :
    Staged bytewise blank (opusRun bytewise (opusStart (blank, 0)) blankCalls) := by
  have hopen : opusOpen bytewise blank ⟨.opus, 48000, 2, 16⟩ ⟨48000, 2, 3⟩ = .ok (blank, 0) := rfl
  exact opus_staged hopen blankCalls

end EmbeddedAudio.OpusAdapter
