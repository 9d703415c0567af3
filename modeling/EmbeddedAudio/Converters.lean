-- The parts of the framework that turn PCM into fixed-point samples: the decoder
-- adapter, the WAV reader, the Sendspin player and the LMS client. Each was written
-- on its own, and all give what the reference says.
import EmbeddedAudio.LmsSamples
import EmbeddedAudio.LmsTracked
import EmbeddedAudio.PcmAdapter
import EmbeddedAudio.SendspinPlayer
import EmbeddedAudio.WavReads

namespace EmbeddedAudio.Converters

open BtDecoder (pcm16ToQ31 s16ToQ31Interleaved)
open Groups LittleEndian Q31 Storage

variable {width channels : Nat}

/-! ## The adapter -/

/-- A pull of the adapter, whatever is in its ring. -/
theorem adapter_samples {ring : List UInt8} {cfg : PcmAdapter.DecoderConfig} {output : Format}
    {opened : PcmAdapter.Pcm} (h : PcmAdapter.pcmOpen ring cfg output = .ok opened)
    (hdepth : cfg.bitDepth = 8 * width) (hchannels : cfg.channels = channels)
    {input : PcmAdapter.DecInput} (hinput : PcmAdapter.Staging input) (maxFrames : Nat) :
    let r := PcmAdapter.pcmPull { opened with input } maxFrames
    PcmAdapter.held input = r.1.bytes ++ PcmAdapter.held r.2.input ∧
      r.1.pcm = streamQ31 width channels output.numChannels r.1.bytes ∧
      r.1.frames = min ((PcmAdapter.held input).length / (width * channels)) maxFrames ∧
      r.1.bytes.length = r.1.frames * (width * channels) := by
  obtain ⟨hlayout, -, hdecoded⟩ := PcmAdapter.layout_open h
  obtain ⟨bytes, input', hpull, -, hlength, hheld⟩ := @PcmAdapter.pcmPull_held
    { opened with input } ⟨hlayout.width, hlayout.frame, hlayout.input, hlayout.output⟩ hinput
    maxFrames
  intro r
  have hr : r = _ := hpull
  have hwidth : cfg.bitDepth / 8 = width := by omega
  have hframe : opened.frameBytes = width * channels := by
    rw [PcmAdapter.frameBytes_open h, hwidth, hchannels, Nat.mul_comm]
  rw [hr]
  dsimp only at hlength ⊢
  rw [hframe] at hlength
  refine ⟨hheld, ?_, ?_, ?_⟩
  · rw [← hwidth, ← hchannels, ← hdecoded]
    rfl
  · rw [hframe, PcmAdapter.length_held hinput]
  · rw [hframe]
    exact hlength

/-! ## The WAV reader -/

theorem getD_hostS16 (scratch : List UInt8) {count i : Nat} (h : i < count) :
    (WavFile.hostS16 scratch count).getD i 0 = (WavFile.u16 scratch (2 * i)).toInt16 := by
  unfold WavFile.hostS16
  rw [List.getD_eq_getElem _ _ (by simpa using h)]
  simp

/-- A number of the host in the scratch bytes. -/
theorem pcm16_u16 {bytes : List UInt8} {i : Nat} (h : i + 2 ≤ bytes.length) :
    pcm16ToQ31 (WavFile.u16 bytes i).toInt16 = q31 (slice bytes i 2) := by
  have hcells : slice bytes i 2 = [bytes.getD i 0, bytes.getD (i + 1) 0] := by
    rw [← slice_cells bytes h 0]
    rfl
  rw [hcells]
  exact pcm16_eq rfl (toNat_lor_byte16 _ _)

/-- Without a change of the channels, 16-bit numbers are converted one by one. -/
theorem s16ToQ31Interleaved_same (src : List Int16) (frames : Nat)
    (h : channels = 1 ∨ channels = 2) : s16ToQ31Interleaved src frames channels channels =
      (List.range (frames * channels)).map fun i => pcm16ToQ31 (src.getD i 0) := by
  rw [← flatMap_range_map]
  refine List.flatMap_congr fun i _ => ?_
  rcases h with rfl | rfl
  · simp
  · simp [List.range_succ]

theorem pcmWidth_of_playable {wav : WavFile.Wav} {start length : Nat}
    (h : WavFile.Playable wav start length) (hbits : wav.bits.toNat = 8 * width) :
    PcmWidth width := by
  have hnat : wav.bits.toNat = 16 ∨ wav.bits.toNat = 24 ∨ wav.bits.toNat = 32 := by
    rcases h.bits with hb | hb | hb <;> rw [hb] <;> decide
  unfold PcmWidth
  omega

/-- The scratch bytes of a read, as samples. -/
theorem scratchSamples_eq {wav : WavFile.Wav} {take : Nat} {bytes : List UInt8}
    (hwidth : PcmWidth width) (hstereo : channels = 1 ∨ channels = 2)
    (hbits : wav.bits.toNat = 8 * width) (hchannels : wav.format.numChannels = channels)
    (hbytes : bytes.length = take * (width * channels)) (hscratch : bytes <+: wav.scratch) :
    WavFile.scratchSamples wav take = streamQ31 width channels channels bytes := by
  obtain ⟨more, hscratch⟩ := hscratch
  have hpos := frameBytes_pos hwidth hstereo
  have hsamples := streamQ31_samples hpos hbytes
  have hcell : ∀ i < take * channels, i * width + width ≤ bytes.length := by
    intro i hi
    rw [hbytes, Nat.mul_comm width, ← Nat.mul_assoc]
    exact block_le hi width
  have hslice : ∀ i < take * channels,
      slice wav.scratch (i * width) width = slice bytes (i * width) width := by
    intro i hi
    rw [← hscratch]
    unfold slice
    rw [List.drop_append_of_le_length (by have := hcell i hi; omega),
      List.take_append_of_le_length (by rw [List.length_drop]; have := hcell i hi; omega)]
  rw [hsamples]
  unfold WavFile.scratchSamples
  simp only [hchannels]
  by_cases htwo : wav.bits = 16
  · have hwidth2 : width = 2 := by
      rw [htwo] at hbits
      change 16 = 8 * width at hbits
      omega
    rw [if_pos htwo, s16ToQ31Interleaved_same _ _ hstereo]
    refine List.map_congr_left fun i hi => ?_
    rw [List.mem_range] at hi
    have hfits := hcell i hi
    rw [hwidth2] at hfits
    rw [getD_hostS16 _ hi, ← hslice i hi, hwidth2, Nat.mul_comm i]
    apply pcm16_u16
    rw [← hscratch, List.length_append]
    omega
  · have hwidth2 : width ≠ 2 := by
      intro htwo'
      rw [htwo'] at hbits
      exact htwo (UInt16.toNat_inj.mp hbits)
    have hbytes8 : (wav.bits / 8).toNat = width := by
      rw [UInt16.toNat_div, hbits]
      exact Nat.mul_div_cancel_left width (by decide)
    have hthree : wav.bits = 24 ↔ width = 3 := by
      rw [← UInt16.toNat_inj, hbits]
      change 8 * width = 24 ↔ width = 3
      omega
    rw [if_neg htwo]
    refine List.map_congr_left fun i hi => ?_
    rw [List.mem_range] at hi
    have hfits := hcell i hi
    have hlength : (slice bytes (i * width) width).length = width := length_slice hfits
    rw [hbytes8, hslice i hi, ← assembled_eq (by rw [hlength]; exact hwidth), hlength,
      if_neg hwidth2]
    simp only [hthree]

/-- A read of the WAV reader, whatever bytes it gets. -/
theorem wav_samples {wav : WavFile.Wav} {start length : Nat} (h : WavFile.Playable wav start length)
    (hbits : wav.bits.toNat = 8 * width) (hchannels : wav.format.numChannels = channels)
    (capacity : UInt32) (reads : List WavFile.ReadAt) :
    let offset := wav.dataOffset + wav.position * wav.blockAlign.toUInt64
    let r := WavFile.readFrames wav capacity reads
    r.1 = EAF_OK →
      r.2.1.toNat =
        min (min capacity.toNat 256) (wav.totalFrames.toNat - wav.position.toNat) ∧
      (r.2.1 = 0 ∧ r.2.2.1 = [] ∨
      ∃ bytes, bytes.length = r.2.1.toNat * (width * channels) ∧
        wav.reader.readAt reads offset bytes.length = (EAF_OK, bytes) ∧
        r.2.2.1 = streamQ31 width channels channels bytes) := by
  intro offset
  have htake := WavFile.takeOf_toNat h.position capacity
  have halign : wav.blockAlign.toNat = width * channels := by
    rw [h.align, hbits, hchannels, Nat.mul_div_cancel_left _ (by decide), Nat.mul_comm]
  obtain ⟨hblock, -⟩ := WavFile.takeOf_le h.position capacity
  have hlength : (WavFile.takeOf wav capacity).toNat * wav.blockAlign.toNat ≤ 2048 :=
    Nat.mul_le_mul hblock h.align_le
  unfold WavFile.readFrames
  by_cases hcapacity : capacity = 0
  · rw [if_pos hcapacity]
    exact fun hok => absurd (show EAF_INVALID = EAF_OK from hok) (by decide)
  rw [if_neg hcapacity]
  simp only
  by_cases hnone : WavFile.takeOf wav capacity = 0
  · rw [if_pos hnone]
    rw [hnone] at htake
    exact fun _ => ⟨htake, .inl ⟨rfl, rfl⟩⟩
  rw [if_neg hnone]
  have hexact := wav.reader.exact_ok reads offset
    ((WavFile.takeOf wav capacity).toNat * wav.blockAlign.toNat)
  by_cases hrc : (wav.reader.readAt reads offset
      ((WavFile.takeOf wav capacity).toNat * wav.blockAlign.toNat)).1 ≠ EAF_OK
  · rw [if_pos hrc]
    exact fun hok => absurd hok hrc
  rw [if_neg hrc]
  intro _
  have hbytes := hexact (of_not_not hrc)
  refine ⟨htake, .inr ⟨(wav.reader.readAt reads offset
      ((WavFile.takeOf wav capacity).toNat * wav.blockAlign.toNat)).2, ?_, ?_, ?_⟩⟩
  · rw [hbytes, halign]
  · rw [hbytes]
    exact Prod.ext (of_not_not hrc) rfl
  · refine scratchSamples_eq (pcmWidth_of_playable h hbits) (hchannels ▸ h.channels) hbits hchannels
      (by rw [hbytes, halign]) ?_
    simp only [overwrite, List.take_zero, List.nil_append]
    exact List.prefix_append _ _

/-! ## The Sendspin player -/

section Player

variable {p : SendspinPlayer.Player}

theorem sampleToQ31_eq (hwidth : PcmWidth width) (hbits : p.inputBits.toNat = 8 * width)
    {bytes : List UInt8} (h : width ≤ bytes.length) :
    SendspinPlayer.sampleToQ31 bytes p.inputBits = q31 (bytes.take width) := by
  have hcells : bytes.take width = (List.range width).map fun i => bytes.getD (0 + i) 0 := by
    rw [slice_cells bytes (by omega) 0]
    rfl
  have hiff : ∀ n : UInt8, p.inputBits = n ↔ 8 * width = n.toNat := by
    intro n
    rw [← UInt8.toNat_inj, hbits]
  unfold SendspinPlayer.sampleToQ31
  simp only [hiff]
  rcases hwidth with rfl | rfl | rfl
  · rw [if_pos (by decide), hcells]
    exact pcm16_eq rfl (toNat_lor_byte16 _ _)
  · rw [if_neg (by decide), if_pos (by decide), hcells]
    apply pcm24_eq rfl
    rw [← assembleLE_three]
    exact toNat_assembleLE (Nat.le_succ 3)
  · rw [if_neg (by decide), if_neg (by decide), hcells]
    apply pcm32_eq rfl
    rw [← assembleLE_four]
    exact toNat_assembleLE (Nat.le_refl 4)

/-- A frame of a chunk, on both channels of the output. -/
theorem frameToQ31_eq (hwidth : PcmWidth width) (hstereo : channels = 1 ∨ channels = 2)
    (hbits : p.inputBits.toNat = 8 * width) (hchannels : p.inputChannels.toNat = channels)
    {bytes : List UInt8} (h : width * channels ≤ bytes.length) :
    SendspinPlayer.frameToQ31 p bytes =
      frameQ31 width channels 2 (bytes.take (width * channels)) := by
  have hsample : SendspinPlayer.sampleBytes p = width := by
    rw [SendspinPlayer.sampleBytes, hbits, Nat.mul_div_cancel_left _ (by decide)]
  have htwo : p.inputChannels = 2 ↔ channels = 2 := by
    rw [← UInt8.toNat_inj, hchannels]
    rfl
  have hleft : SendspinPlayer.sampleToQ31 bytes p.inputBits = q31 (bytes.take width) := by
    apply sampleToQ31_eq hwidth hbits
    rcases hstereo with rfl | rfl <;> omega
  unfold SendspinPlayer.frameToQ31
  simp only [hleft, hsample]
  rcases hstereo with rfl | rfl
  · rw [if_neg (fun h => absurd (htwo.mp h) (by decide))]
    simp [frameQ31, slice, List.range_succ, List.take_take]
  · rw [if_pos (htwo.mpr rfl), sampleToQ31_eq hwidth hbits (by rw [List.length_drop]; omega)]
    have hfirst : min width (width * 2) = width := by omega
    have hsecond : min width (width * 2 - width) = width := by omega
    simp [frameQ31, slice, List.range_succ, List.take_take, List.drop_take, hfirst, hsecond]

/-- A block of a chunk. -/
theorem player_samples (hwidth : PcmWidth width) (hstereo : channels = 1 ∨ channels = 2)
    (hbits : p.inputBits.toNat = 8 * width) (hchannels : p.inputChannels.toNat = channels)
    (pcm : List UInt8) {index count : Nat}
    (h : (index + count) * (width * channels) ≤ pcm.length) :
    SendspinPlayer.scratchOf p pcm index count = streamQ31 width channels 2
      (slice pcm (index * (width * channels)) (count * (width * channels))) := by
  have hframe : SendspinPlayer.frameBytes p = width * channels := by
    rw [SendspinPlayer.frameBytes, SendspinPlayer.sampleBytes, hbits, hchannels,
      Nat.mul_div_cancel_left _ (by decide), Nat.mul_comm]
  rw [Nat.add_mul] at h
  have hlength : (slice pcm (index * (width * channels)) (count * (width * channels))).length =
      count * (width * channels) := length_slice h
  rw [streamQ31_frames (frameBytes_pos hwidth hstereo) hlength]
  unfold SendspinPlayer.scratchOf
  refine List.flatMap_congr fun i hi => ?_
  rw [List.mem_range] at hi
  have hwithin : i * (width * channels) + width * channels ≤ count * (width * channels) :=
    block_le hi _
  rw [hframe, slice_slice hwithin, Nat.add_mul,
    frameToQ31_eq hwidth hstereo hbits hchannels (by rw [List.length_drop]; omega)]
  rfl

end Player

/-! ## The LMS client -/

/-- Of little-endian frames nothing is turned around. -/
theorem pcmFrame_little (frame : List UInt8) :
    Lms.pcmFrame width channels false frame = frameQ31 width channels channels frame := by
  unfold Lms.pcmFrame frameQ31
  refine List.map_congr_left fun ch hch => ?_
  rw [List.mem_range] at hch
  have hoffset : (if channels = 1 then 0 else ch) = ch := by
    split
    next hmono => omega
    next => rfl
  rw [hoffset]
  rfl

/-- A tail that is too long for a frame would never become one. -/
theorem decodeLoop_long {bigEndian : Bool} {ingress tail : List UInt8} {pcm : List Lms.Frame}
    (h : width * channels ≤ tail.length) :
    tail ++ ingress = (Lms.decodeLoop width channels bigEndian ingress tail pcm).2.1 ++
        (Lms.decodeLoop width channels bigEndian ingress tail pcm).1 ∧
      (Lms.decodeLoop width channels bigEndian ingress tail pcm).2.2 = pcm := by
  induction ingress generalizing tail with
  | nil => exact ⟨rfl, rfl⟩
  | cons b ingress ih =>
    unfold Lms.decodeLoop
    by_cases hroom : pcm.length < Lms.EAF_LMS_PCM_FRAMES
    · have hlonger : (tail ++ [b]).length ≠ width * channels := by
        rw [List.length_append, List.length_singleton]
        omega
      have hrest := @ih (tail ++ [b]) (by rw [List.length_append]; omega)
      simp only [hroom, if_true]
      rw [if_pos hlonger]
      rw [List.append_assoc, List.singleton_append] at hrest
      exact hrest
    · rw [if_neg hroom]
      exact ⟨rfl, rfl⟩

/-- How many frames the decoder makes of the bytes that it is given. -/
theorem decodeLoop_length {bigEndian : Bool} {ingress tail : List UInt8} {pcm : List Lms.Frame}
    (h : tail.length < width * channels) :
    (Lms.decodeLoop width channels bigEndian ingress tail pcm).2.2.length = pcm.length +
      min (Lms.EAF_LMS_PCM_FRAMES - pcm.length)
        ((tail ++ ingress).length / (width * channels)) := by
  induction ingress generalizing tail pcm with
  | nil =>
    rw [List.append_nil, Nat.div_eq_of_lt h, Nat.min_zero]
    rfl
  | cons b ingress ih =>
    have hsplit : tail ++ b :: ingress = (tail ++ [b]) ++ ingress := by simp
    unfold Lms.decodeLoop
    by_cases hroom : pcm.length < Lms.EAF_LMS_PCM_FRAMES
    · simp only [hroom, if_true]
      by_cases hpart : (tail ++ [b]).length ≠ width * channels
      · rw [if_pos hpart, hsplit]
        apply ih
        rw [List.length_append, List.length_singleton] at hpart ⊢
        omega
      · -- The byte completes a frame, and the rest is decoded behind it.
        rw [not_not] at hpart
        rw [if_neg (not_not.mpr hpart), hsplit, List.length_append, hpart,
          Nat.add_div_left _ (by omega), ih (by rw [List.length_nil]; omega)]
        rw [List.length_append, List.length_singleton, List.nil_append]
        omega
    · rw [if_neg hroom, Nat.sub_eq_zero_of_le (Nat.le_of_not_lt hroom), Nat.zero_min]
      rfl

/-- What the client decodes of the bytes that it has. -/
theorem lms_samples {c : Lms.Client} (hwidth : PcmWidth width) (hbits : c.width = width)
    (hchannels : c.format.numChannels = channels) (hlittle : c.bigEndian = false) :
    ∃ bytes, c.tail ++ c.ingress = bytes ++
        ((Lms.ingressDecode c).tail ++ (Lms.ingressDecode c).ingress) ∧
      (Lms.ingressDecode c).pcm.flatten =
        c.pcm.flatten ++ streamQ31 width channels channels bytes ∧
      (c.tail.length < width * channels → bytes.length =
        min (Lms.EAF_LMS_PCM_FRAMES - c.pcm.length)
          ((c.tail ++ c.ingress).length / (width * channels)) * (width * channels)) := by
  have hdecode : Lms.ingressDecode c =
      { c with
        ingress := (Lms.decodeLoop width channels false c.ingress c.tail c.pcm).1
        tail := (Lms.decodeLoop width channels false c.ingress c.tail c.pcm).2.1
        pcm := (Lms.decodeLoop width channels false c.ingress c.tail c.pcm).2.2 } := by
    unfold Lms.ingressDecode
    rw [hbits, hchannels, hlittle]
  rw [hdecode]
  rcases Nat.lt_or_ge c.tail.length (width * channels) with htail | hlong
  · obtain ⟨bytes, hbytes, hwhole, hframes, -⟩ :=
      @Lms.decodeLoop_whole width channels false c.ingress c.tail c.pcm htail
    refine ⟨bytes, hbytes, ?_, fun _ => ?_⟩
    · simp only [hframes, List.flatten_append]
      congr 1
      unfold streamQ31
      rw [List.flatMap_def]
      congr 1
      refine List.map_congr_left fun frame hmem => ?_
      rw [Lms.frameOf_eq hwidth false (length_of_mem_groups hmem), pcmFrame_little]
    · have hlength := congrArg List.length hframes
      rw [decodeLoop_length htail, @List.length_append _ c.pcm, List.length_map, length_groups,
        Nat.add_left_cancel_iff] at hlength
      rw [hlength, Nat.div_mul_cancel hwhole]
  · obtain ⟨hbytes, hframes⟩ :=
      @decodeLoop_long width channels false c.ingress c.tail c.pcm hlong
    exact ⟨[], hbytes, by simp [hframes, streamQ31], fun hshort => absurd hshort (by omega)⟩

/-! ## All of them -/

/-- For each width and each number of channels, the four of them agree: whatever bytes they
convert, the samples are those of the reference, and they convert all the frames that they have and
have room for. The reference is the number of a sample in two's
complement, moved up to 32 bits, and puts mono on both channels where it is widened. -/
theorem converters_agree (hwidth : PcmWidth width) (hstereo : channels = 1 ∨ channels = 2) :
    (∀ ring cfg output opened stream calls maxFrames,
      ring.length = PcmAdapter.EAF_DECODER_PCM_RING_BYTES →
      PcmAdapter.pcmOpen ring cfg output = .ok opened →
      cfg.bitDepth = 8 * width → cfg.channels = channels →
      let p := PcmAdapter.passageRun (PcmAdapter.Passage.begin stream opened) calls
      let r := PcmAdapter.pcmPull p.state maxFrames
      PcmAdapter.held p.state.input = r.1.bytes ++ PcmAdapter.held r.2.input ∧
        r.1.pcm = streamQ31 width channels output.numChannels r.1.bytes ∧
        r.1.frames =
          min ((PcmAdapter.held p.state.input).length / (width * channels)) maxFrames ∧
        r.1.bytes.length = r.1.frames * (width * channels)) ∧
    (∀ reader before source wav source' reads calls capacity,
      WavFile.wavOpen reader before source = some (EAF_OK, wav, source', reads) →
      let u := WavFile.useAll ⟨wav, reads⟩ calls
      let offset := u.wav.dataOffset + u.wav.position * u.wav.blockAlign.toUInt64
      let r := WavFile.readFrames u.wav capacity u.reads
      u.wav.bits.toNat = 8 * width → u.wav.format.numChannels = channels → r.1 = EAF_OK →
      r.2.1.toNat =
        min (min capacity.toNat 256) (u.wav.totalFrames.toNat - u.wav.position.toNat) ∧
      (r.2.1 = 0 ∧ r.2.2.1 = [] ∨
        ∃ bytes, bytes.length = r.2.1.toNat * (width * channels) ∧
          u.wav.reader.readAt u.reads offset bytes.length = (EAF_OK, bytes) ∧
          r.2.2.1 = streamQ31 width channels channels bytes)) ∧
    (∀ (p : SendspinPlayer.Player) pcm index count,
      p.inputBits.toNat = 8 * width → p.inputChannels.toNat = channels →
      (index + count) * (width * channels) ≤ pcm.length →
      SendspinPlayer.scratchOf p pcm index count = streamQ31 width channels 2
        (slice pcm (index * (width * channels)) (count * (width * channels)))) ∧
    (∀ c : Lms.Client, c.width = width → c.format.numChannels = channels → c.bigEndian = false →
      ∃ bytes, c.tail ++ c.ingress = bytes ++
          ((Lms.ingressDecode c).tail ++ (Lms.ingressDecode c).ingress) ∧
        (Lms.ingressDecode c).pcm.flatten =
          c.pcm.flatten ++ streamQ31 width channels channels bytes ∧
        (c.tail.length < width * channels → bytes.length =
          min (Lms.EAF_LMS_PCM_FRAMES - c.pcm.length)
            ((c.tail ++ c.ingress).length / (width * channels)) * (width * channels))) ∧
    (∀ sample, sample.length = width →
      (q31 sample).toInt = signedLE sample * 2 ^ (32 - 8 * width)) ∧
    ∀ frame, frameQ31 width 1 2 frame = [q31 (slice frame 0 width), q31 (slice frame 0 width)] := by
  refine ⟨?_, ?_, ?_, ?_, ?_, ?_⟩
  · intro ring cfg output opened stream calls maxFrames hring hopen hdepth hchannels p
    obtain ⟨hlayout, hinput, -⟩ := PcmAdapter.layout_open hopen
    have hp : PcmAdapter.Passing stream opened p := PcmAdapter.passing_run hlayout calls
      (PcmAdapter.passing_begin (by rw [hring]; decide) hinput)
    rw [hp.state]
    exact adapter_samples hopen hdepth hchannels hp.staging maxFrames
  · intro reader before source wav source' reads calls capacity hopen u offset r hbits hchannels
    obtain ⟨_, _, _, _, hopen', -, -, haccept⟩ := WavFile.wavOpen_spec reader before source
    cases hopen'.symm.trans hopen
    obtain ⟨start, length, -, hplayable, -⟩ := haccept rfl
    obtain ⟨hafter, -⟩ := @WavFile.useAll_playable start length calls ⟨wav, reads⟩ hplayable
    exact wav_samples hafter hbits hchannels capacity u.reads
  · intro p pcm index count hbits hchannels hfits
    exact player_samples hwidth hstereo hbits hchannels pcm hfits
  · intro c hbits hchannels hlittle
    exact lms_samples hwidth hbits hchannels hlittle
  · intro sample h
    rw [toInt_q31 (by rw [h]; exact hwidth), h]
  · intro frame
    simp [frameQ31, List.range_succ]

/-- One frame of 24-bit mono: the lowest sample there is. -/
def file24 : List UInt8 :=
  ascii "RIFF" ++ [40, 0, 0, 0] ++ ascii "WAVE" ++
    ascii "fmt " ++ [16, 0, 0, 0, 1, 0, 1, 0, 128, 187, 0, 0, 128, 50, 2, 0, 3, 0, 24, 0] ++
    ascii "data" ++ [3, 0, 0, 0, 0, 0, 128, 0]

def wav24 : WavFile.Wav :=
  ⟨WavFile.memoryFile file24, 44, 0, 1, ⟨48000, 1, 8⟩, 24, 3, List.replicate 2048 0⟩

def pcm24 : PcmAdapter.Pcm :=
  ⟨⟨44100, 2, 3⟩, 1, 24, 2, 3, 3, PcmAdapter.decInputInit (List.replicate 4096 0)⟩

theorem converters_agree_negative :
    let p := PcmAdapter.passageRun (PcmAdapter.Passage.begin [0, 0, 128] pcm24) [.push 3]
    let r := PcmAdapter.pcmPull p.state 1
    let reads : List WavFile.ReadAt := [⟨0, 12, 16⟩, ⟨12, 8, 16⟩, ⟨20, 16, 16⟩, ⟨36, 8, 16⟩]
    let r' := WavFile.readFrames wav24 8 reads
    r.1.pcm = streamQ31 3 1 2 r.1.bytes ∧
      (∃ bytes, bytes.length = 3 ∧ (WavFile.memoryFile file24).readAt reads 44 3 = (EAF_OK, bytes) ∧
        r'.2.2.1 = streamQ31 3 1 1 bytes) ∧
      (q31 [0, 0, 128]).toInt = -2 ^ 31 := by
  obtain ⟨hadapter, hwav, -, -, hexact, -⟩ :=
    @converters_agree 3 1 (.inr (.inl rfl)) (.inl rfl)
  refine ⟨?_, ?_, ?_⟩
  · exact (hadapter (List.replicate 4096 0) ⟨.pcm, 44100, 1, 24⟩ ⟨44100, 2, 3⟩ pcm24 [0, 0, 128]
      [.push 3] 1 List.length_replicate rfl rfl rfl).2.1
  · rcases (hwav (WavFile.memoryFile file24) wav24 ⟨false, ⟨0, 0, 0⟩, 0⟩ wav24
      ⟨true, ⟨48000, 1, 8⟩, 1⟩ [⟨0, 12, 16⟩, ⟨12, 8, 16⟩, ⟨20, 16, 16⟩, ⟨36, 8, 16⟩] [] 8 rfl rfl
      rfl (by decide +kernel)).2 with ⟨hnone, -⟩ | ⟨bytes, hlength, hread, hsamples⟩
    · exact absurd hnone (by decide +kernel)
    · have hthree : bytes.length = 3 := by
        rw [hlength]
        decide +kernel
      rw [hthree] at hread
      exact ⟨bytes, hthree, hread, hsamples⟩
  · rw [hexact [0, 0, 128] rfl]
    decide

end EmbeddedAudio.Converters
