-- What a pull puts where frames are missing: down from the last sample that was output, in at
-- most 16 frames, and then silence. Nothing that was output before is heard again.
import EmbeddedAudio.SignedRange
import EmbeddedAudio.SpscGate
import Mathlib.Data.List.GetD

namespace EmbeddedAudio.Core

open Storage Cursor SignedRange

/-! ## The ramp -/

/-- How loud a sample is. -/
def loudness (sample : Int32) : Nat := sample.toInt.natAbs

/-- The samples `pad` that follow on `prior` where `missing` frames are missing. -/
structure FadesOut (prior : Int32) (pad : Nat → Int32) (missing : Nat) : Prop where
  starts : 0 < missing → loudness (pad 0) ≤ loudness prior
  sign : ∀ i < missing, (0 ≤ prior.toInt → 0 ≤ (pad i).toInt) ∧
    (prior.toInt ≤ 0 → (pad i).toInt ≤ 0)
  falls : ∀ i, i + 1 < missing → loudness (pad (i + 1)) ≤ loudness (pad i)
  /-- From the 16th frame on at the latest, and the last one in any case. -/
  silent : ∀ i < missing, min missing 16 ≤ i + 1 → pad i = 0

section Ramp

variable {sample prior : Int32} {fade i : Nat}

/-- The quotient before it is cast: no louder than the sample, and on its side. -/
theorem ramp_bounds (x : Int) (hi : i < fade) :
    let y := (x * ((fade - i - 1 : Nat) : Int)).tdiv fade
    y.natAbs = x.natAbs * (fade - i - 1) / fade ∧ y.natAbs ≤ x.natAbs ∧ (0 ≤ x → 0 ≤ y) ∧
      (x ≤ 0 → y ≤ 0) := by
  intro y
  have habs : y.natAbs = x.natAbs * (fade - i - 1) / fade := by
    change (Int.tdiv _ _).natAbs = _
    rw [Int.natAbs_tdiv, Int.natAbs_mul, Int.natAbs_natCast, Int.natAbs_natCast]
    rfl
  refine ⟨habs, ?_, fun h => ?_, fun h => ?_⟩
  · rw [habs]
    apply Nat.div_le_of_le_mul
    rw [Nat.mul_comm fade]
    exact Nat.mul_le_mul_left _ (by omega)
  · exact Int.tdiv_nonneg (Int.mul_nonneg h (Int.natCast_nonneg _)) (Int.natCast_nonneg _)
  · have hneg : y = -((-x * ((fade - i - 1 : Nat) : Int)).tdiv fade) := by
      change Int.tdiv _ _ = _
      rw [Int.neg_mul, Int.neg_tdiv, Int.neg_neg]
    have hup : 0 ≤ (-x * ((fade - i - 1 : Nat) : Int)).tdiv fade :=
      Int.tdiv_nonneg (Int.mul_nonneg (by omega) (Int.natCast_nonneg _)) (Int.natCast_nonneg _)
    omega

theorem toInt_rampSample (sample : Int32) (hi : i < fade) :
    (rampSample sample fade i).toInt = (sample.toInt * ((fade - i - 1 : Nat) : Int)).tdiv fade := by
  have hsample := inRange_32.mp (inRange_toInt sample)
  obtain ⟨-, hle, hpos, hneg⟩ := ramp_bounds sample.toInt hi
  unfold rampSample
  rw [toInt_ofInt]
  rw [inRange_32]
  omega

theorem loudness_rampSample (sample : Int32) (hi : i < fade) :
    loudness (rampSample sample fade i) = loudness sample * (fade - i - 1) / fade := by
  unfold loudness
  rw [toInt_rampSample sample hi]
  exact (ramp_bounds sample.toInt hi).1

theorem rampSample_zero (hi : i < fade) : rampSample 0 fade i = 0 := by
  apply Int32.toInt_inj.mp
  rw [toInt_rampSample 0 hi]
  change (0 * _ : Int).tdiv _ = 0
  rw [Int.zero_mul, Int.zero_tdiv]

/-- The ramp from the last sample, or from silence where nothing is remembered. -/
theorem fadesOut_ramp {missing : Nat} (hprior : sample = 0 ∨ sample = prior) :
    FadesOut prior (fun i =>
      if i < min missing 16 then rampSample sample (min missing 16) i else 0) missing := by
  have hquiet : loudness sample ≤ loudness prior ∧ (0 ≤ prior.toInt → 0 ≤ sample.toInt) ∧
      (prior.toInt ≤ 0 → sample.toInt ≤ 0) := by
    rcases hprior with rfl | rfl
    · exact ⟨Nat.zero_le _, fun _ => Int.le_refl _, fun _ => Int.le_refl _⟩
    · exact ⟨Nat.le_refl _, id, id⟩
  obtain ⟨hloud, hpos, hneg⟩ := hquiet
  refine ⟨fun hmissing => ?_, fun i hi => ?_, fun i hi => ?_, fun i hi hend => ?_⟩
  · have hfade : 0 < min missing 16 := by omega
    obtain ⟨-, hle, -⟩ := ramp_bounds sample.toInt hfade
    rw [if_pos hfade]
    unfold loudness at hloud ⊢
    rw [toInt_rampSample sample hfade]
    exact hle.trans hloud
  · by_cases hfade : i < min missing 16
    · obtain ⟨-, -, hup, hdown⟩ := ramp_bounds sample.toInt hfade
      rw [if_pos hfade, toInt_rampSample sample hfade]
      exact ⟨fun h => hup (hpos h), fun h => hdown (hneg h)⟩
    · rw [if_neg hfade]
      exact ⟨fun _ => Int.le_refl _, fun _ => Int.le_refl _⟩
  · by_cases hfade : i + 1 < min missing 16
    · rw [if_pos hfade, if_pos (by omega), loudness_rampSample sample hfade,
        loudness_rampSample sample (by omega)]
      apply Nat.div_le_div_right
      exact Nat.mul_le_mul_left _ (by omega)
    · rw [if_neg hfade]
      exact Nat.zero_le _
  · by_cases hfade : i < min missing 16
    · have hlast : min missing 16 - i - 1 = 0 := by omega
      apply Int32.toInt_inj.mp
      rw [if_pos hfade, toInt_rampSample sample hfade, hlast, Int.natCast_zero, Int.mul_zero,
        Int.zero_tdiv]
      rfl
    · exact if_neg hfade

end Ramp

/-! ## The padding -/

section Padding

variable {α : Type} {f : Nat → List α} {width k i c : Nat}

theorem length_chunks (h : ∀ i, (f i).length = width) (k : Nat) :
    ((List.range k).flatMap f).length = k * width := by
  induction k with
  | zero => rw [Nat.zero_mul]; rfl
  | succ k ih =>
    rw [List.range_succ, List.flatMap_append, List.length_append, ih, List.flatMap_singleton, h,
      Nat.succ_mul]

/-- Cell `c` of chunk `i`. -/
theorem getElem?_chunks (h : ∀ i, (f i).length = width) (hi : i < k) (hc : c < width) :
    ((List.range k).flatMap f)[i * width + c]? = (f i)[c]? := by
  induction k with
  | zero => omega
  | succ k ih =>
    rw [List.range_succ, List.flatMap_append, List.flatMap_singleton]
    rcases Nat.lt_succ_iff_lt_or_eq.mp hi with hlt | rfl
    · have hnext := block_le hlt width
      rw [List.getElem?_append_left (by rw [length_chunks h]; omega), ih hlt]
    · rw [List.getElem?_append_right (by rw [length_chunks h]; omega), length_chunks h,
        Nat.add_sub_cancel_left]

end Padding

section Shortfall

variable {channels missing i c : Nat} {lastFrame : List Int32}

theorem shortfall_fade (missing : Nat) :
    (if missing < 16 then missing else 16) = min missing 16 := by
  split <;> omega

theorem length_shortfall (h : lastFrame.length = channels) (missing : Nat) :
    (shortfall channels lastFrame missing).length = missing * channels := by
  have hchunk : ∀ i, (lastFrame.map (rampSample · (min missing 16) i)).length = channels := by
    intro i
    rw [List.length_map, h]
  unfold shortfall
  simp only [shortfall_fade]
  rw [List.length_append, length_chunks hchunk, List.length_replicate, ← Nat.add_mul]
  congr 1
  omega

/-- A sample of the padding. -/
theorem shortfall_sample (h : lastFrame.length = channels) (hc : c < channels) :
    (shortfall channels lastFrame missing).getD (i * channels + c) 0 =
      if i < min missing 16 then rampSample (lastFrame.getD c 0) (min missing 16) i else 0 := by
  have hchunk : ∀ i, (lastFrame.map (rampSample · (min missing 16) i)).length = channels := by
    intro i
    rw [List.length_map, h]
  unfold shortfall
  simp only [shortfall_fade]
  rw [List.getD_eq_getElem?_getD]
  by_cases hfade : i < min missing 16
  · have hnext := block_le hfade channels
    rw [List.getElem?_append_left (by rw [length_chunks hchunk]; omega),
      getElem?_chunks hchunk hfade hc, if_pos hfade, List.getElem?_map,
      List.getElem?_eq_getElem (h ▸ hc), List.getD_eq_getElem _ _ (h ▸ hc)]
    rfl
  · have hstart : min missing 16 * channels ≤ i * channels := Nat.mul_le_mul_right _ (by omega)
    rw [List.getElem?_append_right (by rw [length_chunks hchunk]; omega), if_neg hfade]
    rw [List.getElem?_replicate]
    split <;> rfl

end Shortfall

/-! ## The blocks of the pulls -/

/-- The last frame of a block that is not empty is at its end. -/
theorem lastFrame_ends {frames : UInt32} (h : frames ≠ 0) (channels : Nat) :
    (frames.toNat - 1) * channels + channels = frames.toNat * channels := by
  have hpos : 0 < frames.toNat := Nat.pos_of_ne_zero fun hzero => h (UInt32.toNat_inj.mp hzero)
  rw [← Nat.succ_mul]
  congr 1
  omega

/-- The frame from which a pull fades out: its own last one, or the one that is remembered. -/
def fadeFrom (channels : Nat) (r : Reservoir) (p : PullDone) (loaded : List Int32) : List Int32 :=
  if p.available ≠ 0 then slice loaded ((p.available.toNat - 1) * channels) channels
  else r.last.take channels

/-- What a pull before the end of the stream gives, and what it remembers. -/
inductive Gives (r : Reservoir) (p : PullDone) : Prop
  | silence : pullState r p.available p.n ≠ .streaming →
      p.pulled.block = List.replicate (p.n.toNat * r.format.numChannels) 0 →
      p.pulled.reservoir.last = r.last →
      p.pulled.reservoir.state = pullState r p.available p.n → Gives r p
  | short (loaded : List Int32) : pullState r p.available p.n = .streaming → p.available < p.n →
      loaded.length = p.available.toNat * r.format.numChannels →
      p.pulled.block = loaded ++ shortfall r.format.numChannels
        (fadeFrom r.format.numChannels r p loaded) (p.n - p.available).toNat →
      p.pulled.reservoir.last = List.replicate EAF_MAX_CHANNELS 0 →
      p.pulled.reservoir.state = .underrun → Gives r p
  | full : pullState r p.available p.n = .streaming → p.n ≤ p.available →
      p.pulled.block.length = p.n.toNat * r.format.numChannels →
      p.pulled.reservoir.last = overwrite r.last 0 (slice p.pulled.block
        ((p.n.toNat - 1) * r.format.numChannels) r.format.numChannels) →
      p.pulled.reservoir.state = .streaming → Gives r p

section Pull

variable {r : Reservoir} {delivered : List Int32} {p : PullDone}

theorem pullOf_gives (h : PullOf r delivered p) (hfin : p.finished = false) : Gives r p := by
  obtain ⟨r', loaded, hpart, hlen, hpulled, -⟩ := h.result
  obtain ⟨-, hwater, hformat, -, hstate, -, -, hlast⟩ := consumerPart_eq hpart
  have hpullState : pullState r' p.available p.n = pullState r p.available p.n := by
    unfold pullState
    rw [hstate, hwater]
  rw [hfin] at hlen hpulled
  by_cases hstream : pullState r p.available p.n = .streaming
  · have htake : pullTake r' false p.available p.n =
        if p.available < p.n then p.available else p.n := by
      unfold pullTake
      rw [if_pos (.inr (hpullState.trans hstream))]
    by_cases hlt : p.available < p.n
    · rw [if_pos hlt] at htake
      rw [htake, hformat] at hlen
      have hresult : p.pulled.block = loaded ++ shortfall r.format.numChannels
            (fadeFrom r.format.numChannels r p loaded) (p.n - p.available).toNat ∧
          p.pulled.reservoir.last = List.replicate EAF_MAX_CHANNELS 0 ∧
          p.pulled.reservoir.state = .underrun := by
        rw [hpulled]
        unfold pullRest fadeFrom
        simp only [Bool.false_eq_true, if_false, hpullState, hstream, if_true, htake, hlt, hformat,
          hlast, and_self]
      exact .short loaded hstream hlt hlen hresult.1 hresult.2.1 hresult.2.2
    · rw [if_neg hlt] at htake
      rw [htake, hformat] at hlen
      have hresult : p.pulled.block = loaded ∧
          p.pulled.reservoir.last = overwrite r.last 0 (slice loaded
            ((p.n.toNat - 1) * r.format.numChannels) r.format.numChannels) ∧
          p.pulled.reservoir.state = .streaming := by
        rw [hpulled]
        unfold pullRest
        simp only [Bool.false_eq_true, if_false, hpullState, hstream, if_true, htake,
          UInt32.lt_irrefl, hformat, hlast, and_self]
      obtain ⟨hblock, hkept, hnext⟩ := hresult
      exact .full hstream (UInt32.not_lt.mp hlt) (by rw [hblock, hlen]) (by rw [hblock, hkept])
        hnext
  · have hresult : p.pulled.block = List.replicate (p.n.toNat * r.format.numChannels) 0 ∧
        p.pulled.reservoir.last = r.last ∧
        p.pulled.reservoir.state = pullState r p.available p.n := by
      rw [hpulled]
      unfold pullRest
      simp only [Bool.false_eq_true, if_false, hpullState, hstream, hformat, hlast, and_self]
    exact .silence hstream hresult.1 hresult.2.1 hresult.2.2

theorem length_fadeFrom {loaded : List Int32} (hlast : r.last.length = EAF_MAX_CHANNELS)
    (hchannels : r.format.numChannels ≤ EAF_MAX_CHANNELS)
    (hlen : loaded.length = p.available.toNat * r.format.numChannels) :
    (fadeFrom r.format.numChannels r p loaded).length = r.format.numChannels := by
  unfold fadeFrom
  by_cases hsome : p.available ≠ 0
  · rw [if_pos hsome]
    apply length_slice
    rw [hlen, lastFrame_ends hsome]
  · rw [if_neg hsome, List.length_take, hlast]
    omega

theorem toNat_missing (hlt : p.available < p.n) :
    (p.n - p.available).toNat = p.n.toNat - p.available.toNat :=
  UInt32.toNat_sub_of_le _ _ (UInt32.le_of_lt hlt)

/-- Every pull fills its block. -/
theorem pullOf_fills (h : PullOf r delivered p) (hlast : r.last.length = EAF_MAX_CHANNELS)
    (hchannels : r.format.numChannels ≤ EAF_MAX_CHANNELS) :
    p.pulled.block.length = p.n.toNat * r.format.numChannels := by
  rcases hfin : p.finished with _ | _
  · rcases pullOf_gives h hfin with ⟨-, hblock, -⟩ | ⟨loaded, -, hlt, hlen, hblock, -⟩ |
      ⟨-, -, hblock, -⟩
    · rw [hblock, List.length_replicate]
    · have hle := UInt32.lt_iff_toNat_lt.mp hlt
      rw [hblock, List.length_append, hlen,
        length_shortfall (length_fadeFrom hlast hchannels hlen), ← Nat.add_mul, toNat_missing hlt]
      congr 1
      omega
    · exact hblock
  · obtain ⟨frames, -, hlen, hblock, -⟩ := pullOf_finished h hfin
    have hle := lastTake_le_n (p := p)
    rw [hblock, List.length_append, hlen, List.length_replicate, ← Nat.add_mul,
      UInt32.toNat_sub_of_le _ _ (UInt32.le_iff_toNat_le.mpr hle)]
    congr 1
    omega

end Pull

/-! ## What is remembered -/

/-- What channel `c` was left at by the pulls `before`. -/
def lastOutput (channels : Nat) (before : List PullDone) (c : Nat) : Int32 :=
  match before.getLast? with
  | none => 0
  | some q => q.pulled.block.getD ((q.n.toNat - 1) * channels + c) 0

/-- The state that a pull finds. -/
def stateBefore (before : List PullDone) : ReservoirState :=
  match before.getLast? with
  | none => .prebuffering
  | some q => q.pulled.reservoir.state

/-- Before the end of the stream: what is remembered is the last frame that was output, or
nothing. In front of the gate it is nothing. -/
structure Remembers (channels : Nat) (before : List PullDone) (r : Reservoir) : Prop where
  cells : r.last.length = EAF_MAX_CHANNELS
  state : r.state = stateBefore before
  running : r.state ≠ .drained
  quiet : r.state = .prebuffering → r.last = List.replicate EAF_MAX_CHANNELS 0
  last : ∀ c < channels, r.last.getD c 0 = 0 ∨ r.last.getD c 0 = lastOutput channels before c

section Memory

variable {channels : Nat} {before : List PullDone} {r : Reservoir} {delivered : List Int32}
  {p : PullDone}

theorem pullState_running (h : r.state ≠ .drained) (available n : UInt32) :
    pullState r available n = .streaming ∨
      (r.state = .prebuffering ∧ pullState r available n = .prebuffering) := by
  unfold pullState
  rcases hstate : r.state with _ | _ | _ | _
  · simp only [reduceCtorEq, if_false, true_and]
    split
    · exact .inl rfl
    · exact .inr rfl
  · exact .inl rfl
  · exact .inl rfl
  · exact absurd hstate h

theorem getD_silent (c : Nat) : (List.replicate EAF_MAX_CHANNELS (0 : Int32)).getD c 0 = 0 := by
  rw [List.getD_eq_getElem?_getD, List.getElem?_replicate]
  split <;> rfl

/-- A pull that wipes the memory, or that finds it wiped. -/
theorem remembers_wiped {r' : Reservoir} (before : List PullDone)
    (hlast : r'.last = List.replicate EAF_MAX_CHANNELS 0) (hstate : r'.state = stateBefore before)
    (hrunning : r'.state ≠ .drained) : Remembers channels before r' where
  cells := by rw [hlast, List.length_replicate]
  state := hstate
  running := hrunning
  quiet := fun _ => hlast
  last := fun c _ => by
    rw [hlast, getD_silent]
    exact .inl rfl

theorem stateBefore_snoc (before : List PullDone) (p : PullDone) :
    stateBefore (before ++ [p]) = p.pulled.reservoir.state := by
  unfold stateBefore
  rw [List.getLast?_concat]

theorem lastOutput_snoc (channels : Nat) (before : List PullDone) (p : PullDone) (c : Nat) :
    lastOutput channels (before ++ [p]) c =
      p.pulled.block.getD ((p.n.toNat - 1) * channels + c) 0 := by
  unfold lastOutput
  rw [List.getLast?_concat]

theorem remembers_pull (h : Remembers channels before r) (hformat : r.format.numChannels = channels)
    (hchannels : channels ≤ EAF_MAX_CHANNELS) (hp : PullOf r delivered p)
    (hfin : p.finished = false) (hn : p.n ≠ 0) :
    Remembers channels (before ++ [p]) p.pulled.reservoir := by
  subst hformat
  have hnext := (stateBefore_snoc before p).symm
  rcases pullOf_gives hp hfin with ⟨hstream, -, hlast, hstate⟩ |
    ⟨loaded, -, -, -, -, hlast, hstate⟩ | ⟨-, -, hlen, hlast, hstate⟩
  · -- the gate is still closed
    obtain ⟨hclosed, hstays⟩ := (pullState_running h.running _ _).resolve_left hstream
    apply remembers_wiped _ (hlast.trans (h.quiet hclosed)) hnext
    rw [hstate, hstays]
    exact nofun
  · apply remembers_wiped _ hlast hnext
    rw [hstate]
    exact nofun
  · have hslice : (slice p.pulled.block ((p.n.toNat - 1) * r.format.numChannels)
        r.format.numChannels).length = r.format.numChannels := by
      apply length_slice
      rw [hlen, lastFrame_ends hn]
    have hroom : 0 + (slice p.pulled.block ((p.n.toNat - 1) * r.format.numChannels)
        r.format.numChannels).length ≤ r.last.length := by
      rw [hslice, h.cells]
      omega
    refine ⟨?_, hnext, by rw [hstate]; exact nofun, fun hwait => ?_, fun c hc => .inr ?_⟩
    · rw [hlast, length_overwrite _ _ _ hroom, h.cells]
    · rw [hstate] at hwait
      cases hwait
    · rw [lastOutput_snoc, hlast, List.getD_eq_getElem?_getD, getElem?_overwrite _ _ _ _ hroom,
        if_pos ⟨Nat.zero_le _, by omega⟩, List.getD_eq_getElem?_getD, Nat.sub_zero]
      unfold slice
      rw [List.getElem?_take_of_lt hc, List.getElem?_drop]

end Memory

/-! ## The pulls of a run -/

/-- No pull is for no frames. -/
def asks (s : Spsc) : Prop :=
  match s.consumer with
  | .idle => True
  | .called n => n ≠ 0
  | .sawFinished n _ => n ≠ 0
  | .sawRead n _ _ => n ≠ 0
  | .copying n _ _ _ _ => n ≠ 0

structure Asked (s : Spsc) : Prop where
  consumer : asks s
  pulls : ∀ p ∈ s.pulls, p.n ≠ 0

/-- A reservoir that was just reset. -/
structure Fresh (r : Reservoir) : Prop where
  state : r.state = .prebuffering
  last : r.last = List.replicate EAF_MAX_CHANNELS 0
  channels : r.format.numChannels ≤ EAF_MAX_CHANNELS

section Runs

variable {s : Spsc} {r₀ : Reservoir}

theorem asked_consumerStep (h : Asked s) : Asked (consumerStep s) := by
  have hcall := h.consumer
  rcases hc : s.consumer with _ | ⟨n⟩ | ⟨n, finished⟩ | ⟨n, finished, read⟩ |
    ⟨n, finished, read, available, loaded⟩
  all_goals
    unfold asks at hcall
    rw [hc] at hcall
  · rwa [consumerStep_idle hc]
  · rw [consumerStep_called hc]
    exact ⟨hcall, h.pulls⟩
  · rw [consumerStep_sawFinished hc]
    exact ⟨hcall, h.pulls⟩
  · rw [consumerStep_sawRead hc]
    exact ⟨hcall, h.pulls⟩
  · by_cases hmore : loaded.length < (pullTake s.r finished available n).toNat * channelsOf s
    · rw [consumerStep_load hc hmore]
      exact ⟨hcall, h.pulls⟩
    · rw [consumerStep_release hc hmore]
      refine ⟨trivial, fun p hp => ?_⟩
      rcases List.mem_append.mp hp with hp | hp
      · exact h.pulls p hp
      · rw [List.mem_singleton.mp hp]
        exact hcall

theorem pullValid_asks {r : Reservoir} {buf : Buffer} (h : pullValid r buf = true) :
    buf.frameCount ≠ 0 := by
  unfold pullValid at h
  simp only [Bool.and_eq_true, bne_iff_ne, ne_eq] at h
  exact h.1.1.1.2

theorem asked_step (h : Asked s) (action : Action) : Asked (spscStep s action) := by
  cases action with
  | write src frames =>
    unfold spscStep
    simp only
    split
    · exact ⟨h.consumer, h.pulls⟩
    · exact h
  | finish =>
    unfold spscStep
    simp only
    split
    · exact ⟨h.consumer, h.pulls⟩
    · exact h
  | pull buf =>
    unfold spscStep
    simp only
    split
    · rename_i hvalid
      exact ⟨pullValid_asks hvalid.2, h.pulls⟩
    · exact h
  | producer =>
    unfold spscStep
    simp only
    rw [producerStep_frame]
    exact ⟨h.consumer, h.pulls⟩
  | consumer => exact asked_consumerStep h

theorem channels_le (h : History r₀ s) (hfresh : Fresh r₀) : channelsOf s ≤ EAF_MAX_CHANNELS := by
  rw [← history_channels h (List.nil_append s.pulls).symm]
  exact hfresh.channels

/-- By induction on the pulls, the last one first. -/
theorem remembers_before (h : History r₀ s) (hfresh : Fresh r₀) (hasked : Asked s)
    {before after : List PullDone} (hsplit : s.pulls = before ++ after)
    (hopen : ∀ p ∈ before, p.finished = false) :
    Remembers (channelsOf s) before (reservoirAfter r₀ before) := by
  induction before using List.reverseRecOn generalizing after with
  | nil =>
    refine remembers_wiped [] hfresh.last hfresh.state ?_
    rw [show reservoirAfter r₀ [] = r₀ from rfl, hfresh.state]
    exact nofun
  | append_singleton before p ih =>
    rw [List.append_assoc, List.singleton_append] at hsplit
    have hbefore := ih hsplit fun q hq => hopen q (List.mem_append_left _ hq)
    have hpull := (pulls_split (hsplit ▸ h.chain)).1
    have hformat := history_channels h hsplit
    rw [reservoirAfter_snoc]
    apply remembers_pull hbefore hformat (channels_le h hfresh) hpull
    · exact hopen p (List.mem_append_right _ (List.mem_singleton_self p))
    · apply hasked.pulls
      rw [hsplit]
      exact List.mem_append_right _ List.mem_cons_self

end Runs

/-! ## Underruns -/

/-- A streaming pull that finds fewer frames than it was asked for. -/
def RunsShort (before : List PullDone) (p : PullDone) : Prop :=
  p.finished = false ∧ stateBefore before ≠ .prebuffering ∧ p.available < p.n

/-- A sample of the block of a pull. -/
def sampleOf (channels : Nat) (p : PullDone) (frame c : Nat) : Int32 :=
  p.pulled.block.getD (frame * channels + c) 0

/-- The last sample that was output on channel `c` before the padding of `p`. -/
def priorOf (channels : Nat) (before : List PullDone) (p : PullDone) (c : Nat) : Int32 :=
  if p.available ≠ 0 then sampleOf channels p (p.available.toNat - 1) c
  else lastOutput channels before c

/-- What the pulls of a run do about missing frames. -/
structure Concealed (s : Spsc) : Prop where
  filled : ∀ p ∈ s.pulls, p.pulled.block.length = p.n.toNat * channelsOf s
  fades : ∀ before p after, s.pulls = before ++ p :: after → RunsShort before p →
    before ≠ [] ∧ ∀ c < channelsOf s, FadesOut (priorOf (channelsOf s) before p c)
      (fun i => sampleOf (channelsOf s) p (p.available.toNat + i) c)
      (p.n.toNat - p.available.toNat)
  /-- The pull behind one that has run short, when it finds nothing. -/
  follows : ∀ before p q after, s.pulls = before ++ p :: q :: after → RunsShort before p →
    q.available = 0 → ∀ sample ∈ q.pulled.block, sample = 0

section Short

variable {channels c : Nat} {before : List PullDone} {r : Reservoir} {delivered : List Int32}
  {p : PullDone}

/-- What a pull that runs short gives. -/
theorem pullOf_short (hp : PullOf r delivered p) (hr : Remembers channels before r)
    (hshort : RunsShort before p) : ∃ loaded,
      loaded.length = p.available.toNat * r.format.numChannels ∧
      p.pulled.block = loaded ++ shortfall r.format.numChannels
        (fadeFrom r.format.numChannels r p loaded) (p.n - p.available).toNat ∧
      p.pulled.reservoir.last = List.replicate EAF_MAX_CHANNELS 0 ∧
      p.pulled.reservoir.state = .underrun := by
  obtain ⟨hfin, hopen, hlt⟩ := hshort
  have hstream : pullState r p.available p.n = .streaming :=
    (pullState_running hr.running _ _).resolve_right fun hclosed => hopen (hr.state ▸ hclosed.1)
  rcases pullOf_gives hp hfin with ⟨hne, -⟩ | ⟨loaded, -, -, hlen, hblock, hlast, hstate⟩ |
    ⟨-, hle, -⟩
  · exact absurd hstream hne
  · exact ⟨loaded, hlen, hblock, hlast, hstate⟩
  · exact absurd (UInt32.lt_of_lt_of_le hlt hle) (UInt32.lt_irrefl _)

/-- The frame that a pull fades out from: what was output last, or nothing. -/
theorem fadeFrom_prior (hr : Remembers channels before r)
    {loaded pad : List Int32} (hlen : loaded.length = p.available.toNat * channels)
    (hblock : p.pulled.block = loaded ++ pad) (hc : c < channels) :
    (fadeFrom channels r p loaded).getD c 0 = 0 ∨
      (fadeFrom channels r p loaded).getD c 0 = priorOf channels before p c := by
  unfold fadeFrom priorOf
  by_cases hsome : p.available ≠ 0
  · have hframe := lastFrame_ends hsome channels
    rw [if_pos hsome, if_pos hsome]
    refine .inr ?_
    unfold sampleOf slice
    rw [List.getD_eq_getElem?_getD, List.getD_eq_getElem?_getD, List.getElem?_take_of_lt hc,
      List.getElem?_drop, hblock, List.getElem?_append_left (by omega)]
  · rw [if_neg hsome, if_neg hsome, List.getD_eq_getElem?_getD, List.getElem?_take_of_lt hc,
      ← List.getD_eq_getElem?_getD]
    exact hr.last c hc

theorem fadesOut_pull (hp : PullOf r delivered p) (hr : Remembers channels before r)
    (hformat : r.format.numChannels = channels) (hchannels : channels ≤ EAF_MAX_CHANNELS)
    (hshort : RunsShort before p) (hc : c < channels) :
    FadesOut (priorOf channels before p c)
      (fun i => sampleOf channels p (p.available.toNat + i) c)
      (p.n.toNat - p.available.toNat) := by
  obtain ⟨loaded, hlen, hblock, -⟩ := pullOf_short hp hr hshort
  subst hformat
  have hfrom := length_fadeFrom hr.cells hchannels hlen
  rw [toNat_missing hshort.2.2] at hblock
  have hpad : ∀ i, sampleOf r.format.numChannels p (p.available.toNat + i) c =
      (shortfall r.format.numChannels (fadeFrom r.format.numChannels r p loaded)
        (p.n.toNat - p.available.toNat)).getD (i * r.format.numChannels + c) 0 := by
    intro i
    unfold sampleOf
    rw [hblock, List.getD_eq_getElem?_getD, List.getD_eq_getElem?_getD, Nat.add_mul, Nat.add_assoc,
      ← hlen, List.getElem?_append_right (Nat.le_add_right _ _), Nat.add_sub_cancel_left]
  simp only [hpad, shortfall_sample hfrom hc]
  exact fadesOut_ramp (fadeFrom_prior hr hlen hblock hc)

/-- From silence there is nothing to fade out. -/
theorem shortfall_silent {lastFrame : List Int32} (h : ∀ sample ∈ lastFrame, sample = 0)
    (missing : Nat) : ∀ sample ∈ shortfall channels lastFrame missing, sample = 0 := by
  intro sample hsample
  unfold shortfall at hsample
  rcases List.mem_append.mp hsample with hfade | hrest
  · obtain ⟨i, hi, hmem⟩ := List.mem_flatMap.mp hfade
    obtain ⟨from', hfrom, rfl⟩ := List.mem_map.mp hmem
    rw [h from' hfrom]
    exact rampSample_zero (List.mem_range.mp hi)
  · exact (List.mem_replicate.mp hrest).2

/-- A pull that finds nothing on a memory that is wiped. -/
theorem pullOf_nothing (hp : PullOf r delivered p) (hstate : r.state = .underrun)
    (hlast : r.last = List.replicate EAF_MAX_CHANNELS 0) (hnothing : p.available = 0) :
    ∀ sample ∈ p.pulled.block, sample = 0 := by
  intro sample hsample
  rcases hfin : p.finished with _ | _
  · have hstream : pullState r p.available p.n = .streaming := by
      unfold pullState
      rw [hstate]
      rfl
    rcases pullOf_gives hp hfin with ⟨hne, -⟩ | ⟨loaded, -, -, hlen, hblock, -⟩ |
      ⟨-, hle, hlen, -⟩
    · exact absurd hstream hne
    · rw [hnothing, UInt32.toNat_zero, Nat.zero_mul] at hlen
      rw [hblock, List.length_eq_zero_iff.mp hlen, List.nil_append] at hsample
      apply shortfall_silent _ _ sample hsample
      intro last hmem
      unfold fadeFrom at hmem
      rw [hnothing, if_neg (not_not.mpr rfl), hlast] at hmem
      exact (List.mem_replicate.mp (List.mem_of_mem_take hmem)).2
    · have hzero : p.n.toNat = 0 := by
        have hle' := UInt32.le_iff_toNat_le.mp hle
        rw [hnothing] at hle'
        exact Nat.le_zero.mp hle'
      rw [hzero, Nat.zero_mul] at hlen
      rw [List.length_eq_zero_iff.mp hlen] at hsample
      cases hsample
  · obtain ⟨frames, -, hlen, hblock, -⟩ := pullOf_finished hp hfin
    have hle := lastTake_le (p := p)
    rw [hnothing] at hle
    rw [Nat.le_zero.mp hle, Nat.zero_mul] at hlen
    rw [hblock, List.length_eq_zero_iff.mp hlen, List.nil_append] at hsample
    exact (List.mem_replicate.mp hsample).2

end Short

/-- The memory keeps its size, also at the end of the stream. -/
theorem pullOf_cells {r : Reservoir} {delivered : List Int32} {p : PullDone}
    (hp : PullOf r delivered p) (hcells : r.last.length = EAF_MAX_CHANNELS)
    (hchannels : r.format.numChannels ≤ EAF_MAX_CHANNELS) :
    p.pulled.reservoir.last.length = EAF_MAX_CHANNELS := by
  rcases hfin : p.finished with _ | _
  · rcases pullOf_gives hp hfin with ⟨-, -, hlast, -⟩ | ⟨_, -, -, -, -, hlast, -⟩ |
      ⟨-, -, hlen, hlast, -⟩
    · rw [hlast, hcells]
    · rw [hlast, List.length_replicate]
    · have hslice : (slice p.pulled.block ((p.n.toNat - 1) * r.format.numChannels)
          r.format.numChannels).length ≤ r.format.numChannels := by
        unfold slice
        rw [List.length_take]
        exact Nat.min_le_left _ _
      rw [hlast, length_overwrite _ _ _ (by omega), hcells]
  · obtain ⟨r', loaded, hpart, -, hpulled, -⟩ := hp.result
    obtain ⟨-, -, -, -, -, -, -, hlast⟩ := consumerPart_eq hpart
    rw [hpulled, hfin]
    unfold pullRest
    simp only [if_true, hlast, hcells]

theorem cells_before {r₀ : Reservoir} {s : Spsc} (h : History r₀ s) (hfresh : Fresh r₀)
    {before after : List PullDone} (hsplit : s.pulls = before ++ after) :
    (reservoirAfter r₀ before).last.length = EAF_MAX_CHANNELS := by
  induction before using List.reverseRecOn generalizing after with
  | nil =>
    rw [show reservoirAfter r₀ [] = r₀ from rfl, hfresh.last, List.length_replicate]
  | append_singleton before p ih =>
    rw [List.append_assoc, List.singleton_append] at hsplit
    rw [reservoirAfter_snoc]
    apply pullOf_cells (pulls_split (hsplit ▸ h.chain)).1 (ih hsplit)
    rw [history_channels h hsplit]
    exact channels_le h hfresh

theorem concealed_of_history {r₀ : Reservoir} {s : Spsc} (h : History r₀ s) (hfresh : Fresh r₀)
    (hasked : Asked s) : Concealed s := by
  have hchannels := channels_le h hfresh
  -- before a pull that has not seen the end, no pull has
  have hremembers : ∀ before p after, s.pulls = before ++ p :: after → p.finished = false →
      Remembers (channelsOf s) before (reservoirAfter r₀ before) := by
    intro before p after hsplit hfin
    refine remembers_before h hfresh hasked hsplit fun q hq => ?_
    have hlater := hsplit ▸ h.later
    rcases hended : q.finished with _ | _
    · rfl
    · have hp := (List.pairwise_append.mp hlater).2.2 q hq p List.mem_cons_self hended
      rw [hp] at hfin
      cases hfin
  refine ⟨fun p hp => ?_, fun before p after hsplit hshort => ⟨?_, fun c hc => ?_⟩, ?_⟩
  · obtain ⟨before, after, hsplit⟩ := List.append_of_mem hp
    have hpull := (pulls_split (hsplit ▸ h.chain)).1
    have hformat := history_channels h hsplit
    rw [← hformat]
    exact pullOf_fills hpull (cells_before h hfresh hsplit) (hformat ▸ hchannels)
  · rintro rfl
    exact hshort.2.1 rfl
  · exact fadesOut_pull (pulls_split (hsplit ▸ h.chain)).1 (hremembers _ _ _ hsplit hshort.1)
      (history_channels h hsplit) hchannels hshort hc
  · intro before p q after hsplit hshort hnothing
    obtain ⟨hpull, hnext, -⟩ := pulls_split (hsplit ▸ h.chain)
    obtain ⟨-, -, -, hlast, hstate⟩ := pullOf_short hpull (hremembers _ _ _ hsplit hshort.1) hshort
    exact pullOf_nothing hnext hstate hlast hnothing

/-! ## Every run -/

/-- What a producer and a consumer can do with a reservoir from `eaf_reservoir_init` on. It is reset
only while both endpoints are quiescent, and the log of the pulls starts again then. -/
inductive ReservoirRun (sizeMax : Nat) : Spsc → Prop
  | init {storage : List Int32} {capacity : UInt32} {fmt : Format} {highWatermark : UInt32}
      {res : Reservoir} (base : UInt32) :
      reservoirInit sizeMax storage capacity fmt highWatermark = .ok res →
      capacity.toNat * fmt.numChannels ≤ storage.length →
      ReservoirRun sizeMax (spscStart res base)
  | step {s : Spsc} (action : Action) : ReservoirRun sizeMax s →
      ReservoirRun sizeMax (spscStep s action)
  | reset {s : Spsc} (base : UInt32) : ReservoirRun sizeMax s → s.producer = .idle →
      s.consumer = .idle → ReservoirRun sizeMax (spscStart (reservoirReset s.r) base)

/-- A reset leaves a ring that is empty. -/
theorem fifo_reset {base : UInt32} {w r : Nat} {s : Spsc} (h : Fifo base w r s)
    (base' : UInt32) : Fifo base' 0 0 (spscStart (reservoirReset s.r) base') where
  ring := h.ring
  channels := h.channels
  size := h.size
  accepted := by simp [spscStart]
  write := by simp [spscStart]
  read := by simp [spscStart]
  le := Nat.le_refl _
  level := Nat.zero_le _
  order := by simp [spscStart]
  data := fun j _ hj => by simp at hj
  framesRead := rfl
  producer := trivial
  consumer := trivial

/-- So does an init. -/
theorem fresh_init {sizeMax : Nat} {storage : List Int32} {capacity : UInt32} {fmt : Format}
    {highWatermark : UInt32} {res : Reservoir} {base : UInt32}
    (h : reservoirInit sizeMax storage capacity fmt highWatermark = .ok res) :
    Fresh { res with readCursor := base, writeCursor := base } := by
  unfold reservoirInit at h
  split at h
  · cases h
  · rename_i hvalid
    simp only [not_or, Bool.not_eq_false] at hvalid
    cases h
    exact ⟨rfl, rfl, (formatValid_channels hvalid.1).2⟩

theorem asked_start (res : Reservoir) (base : UInt32) : Asked (spscStart res base) :=
  ⟨trivial, fun _ hp => absurd hp List.not_mem_nil⟩

theorem reservoirRun_history {sizeMax : Nat} {s : Spsc} (h : ReservoirRun sizeMax s) :
    ∃ r₀ base w r, Fifo base w r s ∧ History r₀ s ∧ Fresh r₀ ∧ Asked s := by
  induction h with
  | init base hinit hstorage =>
    refine ⟨_, base, 0, 0, fifo_start hinit hstorage base, history_start _ base, ?_,
      asked_start _ base⟩
    exact fresh_init hinit
  | step action _ ih =>
    obtain ⟨r₀, base, w, r, hfifo, hhistory, hfresh, hasked⟩ := ih
    obtain ⟨w', r', hfifo'⟩ := fifo_step hfifo action
    exact ⟨r₀, base, w', r', hfifo', history_step hfifo hhistory action, hfresh,
      asked_step hasked action⟩
  | reset base _ _ _ ih =>
    obtain ⟨r₀, base₀, w, r, hfifo, hhistory, hfresh, -⟩ := ih
    refine ⟨_, base, 0, 0, fifo_reset hfifo base, history_start _ base, ⟨rfl, rfl, ?_⟩,
      asked_start _ base⟩
    rw [show (reservoirReset _).format = _ from history_format hhistory]
    exact hfresh.channels

theorem reservoirRun_actions {sizeMax : Nat} {s : Spsc} (h : ReservoirRun sizeMax s)
    (actions : List Action) : ReservoirRun sizeMax (spscRun s actions) := by
  induction actions generalizing s with
  | nil => exact h
  | cons action actions ih => exact ih (.step action h)

/-- In every run, whatever the interleaving: a pull fills its block, one that runs short fades out
from what was output last, and behind it nothing old is heard. -/
theorem reservoir_conceals {sizeMax : Nat} {s : Spsc} (h : ReservoirRun sizeMax s) :
    Concealed s := by
  obtain ⟨r₀, -, -, -, -, hhistory, hfresh, hasked⟩ := reservoirRun_history h
  exact concealed_of_history hhistory hfresh hasked

/-- A frame between a pull in front of the gate and one that runs short. -/
theorem reservoir_conceals_gate :
    Concealed (spscRun (spscStart wrapRing 0xFFFFFFFF) gateActions) ∧
      (spscRun (spscStart wrapRing 0xFFFFFFFF) gateActions).pulls.map (·.pulled.block) =
        [[0], [7], [0]] :=
  ⟨reservoir_conceals (reservoirRun_actions (.init 0xFFFFFFFF wrapRing_init (by decide))
    gateActions), by decide +kernel⟩

end EmbeddedAudio.Core
