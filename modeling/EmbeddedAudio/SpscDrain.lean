-- The end of the stream. The flag is raised after the last write, so a pull that
-- has seen it has seen every frame: it raises EOS exactly with the last of them.
import EmbeddedAudio.SpscPulls

namespace EmbeddedAudio.Core

open Storage Cursor

/-! ## A pull that has seen the end -/

/-- The frames that a pull takes when the stream has ended. -/
def lastTake (p : PullDone) : UInt32 := if p.available < p.n then p.available else p.n

section Pull

variable {r : Reservoir} {delivered : List Int32} {p : PullDone}

/-- What such a pull delivers, and its block. -/
theorem pullOf_finished (h : PullOf r delivered p) (hfin : p.finished = true) :
    ∃ frames, p.delivered = delivered ++ frames ∧
      frames.length = (lastTake p).toNat * r.format.numChannels ∧
      p.pulled.block =
        frames ++ List.replicate ((p.n - lastTake p).toNat * r.format.numChannels) 0 ∧
      p.pulled.flags = ((if lastTake p = 0 then EAF_FRAME_SILENCE else 0) |||
        if p.available ≤ p.n then EAF_FRAME_EOS else 0) ∧
      p.pulled.reservoir.underruns = r.underruns := by
  obtain ⟨r', loaded, hpart, hlen, hpulled, hdelivered⟩ := h.result
  obtain ⟨-, -, hformat, -, -, hunder, -⟩ := consumerPart_eq hpart
  rw [hfin] at hlen hpulled
  have htake : pullTake r' true p.available p.n = lastTake p := by
    unfold pullTake lastTake
    rw [if_pos (.inl rfl)]
  rw [htake, hformat] at hlen
  refine ⟨loaded, hdelivered, hlen, ?_⟩
  rw [hpulled]
  unfold pullRest
  simp only [htake, if_true, hformat, hunder]
  refine ⟨trivial, ?_, trivial⟩
  by_cases hle : p.available ≤ p.n
  · simp [hle]
  · simp [hle]

/-- Before the end of the stream no pull raises EOS. -/
theorem pullOf_unfinished_flags (h : PullOf r delivered p) (hfin : p.finished = false) :
    p.pulled.flags &&& EAF_FRAME_EOS = 0 := by
  obtain ⟨r', loaded, -, -, hpulled, -⟩ := h.result
  rw [hpulled]
  unfold pullRest
  simp only [hfin, Bool.false_eq_true, if_false]
  split
  · split
    · exact (by decide : EAF_FRAME_UNDERRUN &&& EAF_FRAME_EOS = 0)
    · exact (by decide : 0 &&& EAF_FRAME_EOS = 0)
  · exact (by decide : EAF_FRAME_SILENCE &&& EAF_FRAME_EOS = 0)

theorem lastTake_le : (lastTake p).toNat ≤ p.available.toNat := by
  unfold lastTake
  split
  · exact Nat.le_refl _
  · rename_i hge
    exact UInt32.le_iff_toNat_le.mp (UInt32.not_lt.mp hge)

theorem lastTake_le_n : (lastTake p).toNat ≤ p.n.toNat := by
  unfold lastTake
  split
  · rename_i hlt
    exact Nat.le_of_lt (UInt32.lt_iff_toNat_lt.mp hlt)
  · exact Nat.le_refl _

theorem lastTake_eq_iff : (lastTake p).toNat = p.available.toNat ↔ p.available ≤ p.n := by
  rw [UInt32.le_iff_toNat_le]
  unfold lastTake
  split
  · rename_i hlt
    have := UInt32.lt_iff_toNat_lt.mp hlt
    omega
  · rename_i hge
    have := UInt32.le_iff_toNat_le.mp (UInt32.not_lt.mp hge)
    omega

/-- A pull that has seen the end delivers the last frame exactly when it finds no more frames
than it was asked for. -/
theorem drains_iff (h : PullOf r delivered p) (hfin : p.finished = true)
    (hchannels : 0 < r.format.numChannels) : p.delivered = p.accepted ↔ p.available ≤ p.n := by
  obtain ⟨frames, hdelivered, hlen, -⟩ := pullOf_finished h hfin
  have hrest := h.rest hfin
  have hlength : p.delivered.length = delivered.length + (lastTake p).toNat * r.format.numChannels := by
    rw [hdelivered, List.length_append, hlen]
  rw [← lastTake_eq_iff]
  constructor
  · intro heq
    rw [heq, hrest] at hlength
    exact (Nat.eq_of_mul_eq_mul_right hchannels (Nat.add_left_cancel hlength)).symm
  · intro heq
    apply h.order.eq_of_length
    rw [hlength, hrest, heq]

theorem eos_iff (h : PullOf r delivered p) (hchannels : 0 < r.format.numChannels) :
    p.pulled.flags &&& EAF_FRAME_EOS ≠ 0 ↔ p.finished = true ∧ p.delivered = p.accepted := by
  rcases hfin : p.finished with _ | _
  · rw [pullOf_unfinished_flags h hfin]
    simp
  · obtain ⟨frames, -, -, -, hflags, -⟩ := pullOf_finished h hfin
    have hsilence : EAF_FRAME_SILENCE &&& EAF_FRAME_EOS = 0 := by decide
    have hboth : (EAF_FRAME_SILENCE ||| EAF_FRAME_EOS) &&& EAF_FRAME_EOS ≠ 0 := by decide
    have heos : EAF_FRAME_EOS ≠ 0 := by decide
    rw [hflags, drains_iff h hfin hchannels]
    by_cases hle : p.available ≤ p.n
    · by_cases hzero : lastTake p = 0
      · simp [hle, hzero, hboth]
      · simp [hle, hzero, heos]
    · by_cases hzero : lastTake p = 0
      · simp [hle, hzero, hsilence]
      · simp [hle, hzero]

end Pull

/-! ## Runs -/

/-- The frames that a pull puts into its block, and the padding behind them. -/
def PaddedWithZeros (channels : Nat) (delivered : List Int32) (p : PullDone) : Prop :=
  ∃ frames, p.delivered = delivered ++ frames ∧
    p.pulled.block = frames ++ List.replicate (p.n.toNat * channels - frames.length) 0

/-- The underruns that are counted after the pulls `ps`. -/
def underrunsAfter (ps : List PullDone) : UInt32 :=
  ps.foldl (fun _ p => p.pulled.reservoir.underruns) 0

def RaisesEos (p : PullDone) : Prop := p.pulled.flags &&& EAF_FRAME_EOS ≠ 0

/-- What the pulls of a run say about the end of the stream. -/
structure EndOfStream (s : Spsc) : Prop where
  raised : ∀ p ∈ s.pulls, RaisesEos p ↔ p.finished = true ∧ p.delivered = p.accepted
  /-- Nothing is accepted any more when a pull has seen the end. -/
  final : ∀ p ∈ s.pulls, p.finished = true → p.accepted = s.accepted
  padded : ∀ before p after, s.pulls = before ++ p :: after → RaisesEos p →
    PaddedWithZeros (channelsOf s) (deliveredAfter [] before) p
  underruns : ∀ before p after, s.pulls = before ++ p :: after → p.finished = true →
    ∀ q ∈ p :: after, q.finished = true ∧
      q.pulled.reservoir.underruns = underrunsAfter before
  silent : ∀ before p after, s.pulls = before ++ p :: after → RaisesEos p →
    ∀ q ∈ after, q.delivered = p.delivered ∧
      q.pulled.block = List.replicate (q.n.toNat * channelsOf s) 0 ∧
      q.pulled.flags = EAF_FRAME_SILENCE ||| EAF_FRAME_EOS

theorem pulls_underruns {r : Reservoir} {delivered : List Int32} {ps : List PullDone}
    (h : Pulls r delivered ps) (hfin : ∀ q ∈ ps, q.finished = true) :
    ∀ q ∈ ps, q.pulled.reservoir.underruns = r.underruns := by
  induction ps generalizing r delivered with
  | nil =>
    intro q hq
    cases hq
  | cons p ps ih =>
    obtain ⟨-, -, -, -, -, hunder⟩ := pullOf_finished h.1 (hfin p List.mem_cons_self)
    intro q hq
    rcases List.mem_cons.mp hq with rfl | hq
    · exact hunder
    · rw [ih h.2 (fun q hq => hfin q (List.mem_cons_of_mem _ hq)) q hq, hunder]

theorem underrunsAfter_eq {r : Reservoir} (h : r.underruns = 0) (ps : List PullDone) :
    (reservoirAfter r ps).underruns = underrunsAfter ps := by
  rcases List.eq_nil_or_concat' ps with rfl | ⟨ps, p, rfl⟩
  · exact h
  · rw [reservoirAfter_snoc, underrunsAfter, List.foldl_append]
    rfl

/-- A pull behind the last frame. -/
theorem pullOf_behind {r : Reservoir} {delivered : List Int32} {p : PullDone}
    (h : PullOf r delivered p) (hchannels : 0 < r.format.numChannels) (hfin : p.finished = true)
    (hend : p.accepted.length ≤ delivered.length) :
    p.delivered = delivered ∧
      p.pulled.block = List.replicate (p.n.toNat * r.format.numChannels) 0 ∧
      p.pulled.flags = EAF_FRAME_SILENCE ||| EAF_FRAME_EOS := by
  obtain ⟨frames, hdelivered, hlen, hblock, hflags, -⟩ := pullOf_finished h hfin
  have hrest := h.rest hfin
  have hnone : p.available = 0 := by
    have hmul : p.available.toNat * r.format.numChannels = 0 := by omega
    rcases Nat.mul_eq_zero.mp hmul with hzero | hzero
    · exact UInt32.toNat_inj.mp hzero
    · omega
  have htake : lastTake p = 0 := by
    have := lastTake_le (p := p)
    rw [hnone] at this
    exact UInt32.toNat_inj.mp (Nat.le_zero.mp this)
  have hle : p.available ≤ p.n := by
    rw [hnone]
    exact UInt32.le_iff_toNat_le.mpr (Nat.zero_le _)
  obtain rfl : frames = [] := List.length_eq_zero_iff.mp (by rw [hlen, htake]; exact Nat.zero_mul _)
  rw [htake] at hblock
  refine ⟨by rw [hdelivered, List.append_nil], ?_, ?_⟩
  · rw [hblock, List.nil_append, UInt32.sub_zero]
  · rw [hflags, if_pos htake, if_pos hle]

theorem endOfStream_of_history {r₀ : Reservoir} {s : Spsc} (h : History r₀ s)
    (hchannels : 0 < r₀.format.numChannels) (hunder : r₀.underruns = 0) : EndOfStream s := by
  have hformat := history_format h
  have hch : channelsOf s = r₀.format.numChannels := congrArg Format.numChannels hformat
  -- the channels that a pull of the chain sees
  have hkeep : ∀ before after, s.pulls = before ++ after →
      (reservoirAfter r₀ before).format.numChannels = channelsOf s := by
    intro before after hsplit
    rw [pulls_format (pulls_append.mp (hsplit ▸ h.chain)).1, hch]
  have heos : ∀ before p after, s.pulls = before ++ p :: after →
      (RaisesEos p ↔ p.finished = true ∧ p.delivered = p.accepted) := by
    intro before p after hsplit
    apply eos_iff (pulls_split (hsplit ▸ h.chain)).1
    rw [hkeep before _ hsplit, hch]
    exact hchannels
  refine {
    raised := ?_
    final := fun p hp hfin => (h.ended p hp hfin).2
    padded := ?_
    underruns := ?_
    silent := ?_ }
  · intro p hp
    obtain ⟨before, after, hsplit⟩ := List.append_of_mem hp
    exact heos before p after hsplit
  · intro before p after hsplit hraises
    obtain ⟨hfin, hall⟩ := (heos before p after hsplit).mp hraises
    have hpull := (pulls_split (hsplit ▸ h.chain)).1
    obtain ⟨frames, hdelivered, hlen, hblock, -⟩ := pullOf_finished hpull hfin
    refine ⟨frames, hdelivered, ?_⟩
    rw [hblock, hlen, hkeep before _ hsplit, ← Nat.sub_mul,
      UInt32.toNat_sub_of_le _ _ (UInt32.le_iff_toNat_le.mpr lastTake_le_n)]
  · intro before p after hsplit hfin q hq
    obtain ⟨hpull, hrest⟩ := pulls_split (hsplit ▸ h.chain)
    have hall : ∀ q ∈ p :: after, q.finished = true := by
      intro q hq
      rcases List.mem_cons.mp hq with rfl | hq
      · exact hfin
      · have hlater := List.pairwise_append.mp (hsplit ▸ h.later)
        exact (List.pairwise_cons.mp hlater.2.1).1 q hq hfin
    refine ⟨hall q hq, ?_⟩
    rw [← underrunsAfter_eq hunder]
    have hchain : Pulls (reservoirAfter r₀ before) (deliveredAfter [] before) (p :: after) :=
      ⟨hpull, hrest⟩
    exact pulls_underruns hchain hall q hq
  · intro before p after hsplit hraises q hq
    obtain ⟨hfin, hall⟩ := (heos before p after hsplit).mp hraises
    obtain ⟨between, rest, hbetween⟩ := List.append_of_mem hq
    have hq' : s.pulls = (before ++ p :: between) ++ q :: rest := by
      rw [hsplit, hbetween, List.append_assoc, List.cons_append]
    have hmem : ∀ x ∈ p :: after, x ∈ s.pulls := by
      intro x hx
      rw [hsplit]
      exact List.mem_append_right _ hx
    have hlater := (List.pairwise_append.mp (hsplit ▸ h.later)).2.1
    have hqfin : q.finished = true := (List.pairwise_cons.mp hlater).1 q hq hfin
    have haccepted : q.accepted = p.delivered := by
      rw [(h.ended q (hmem q (List.mem_cons_of_mem _ hq)) hqfin).2, hall,
        (h.ended p (hmem p List.mem_cons_self) hfin).2]
    obtain ⟨-, hrest⟩ := pulls_split (hsplit ▸ h.chain)
    have hpulls := pulls_split (hq' ▸ h.chain)
    have hdelivered : p.delivered <+: deliveredAfter [] (before ++ p :: between) := by
      have hgrow := pulls_delivered (pulls_append.mp (hbetween ▸ hrest)).1
      rwa [deliveredAfter, List.foldl_append, List.foldl_cons]
    obtain ⟨hsame, hblock, hflags⟩ := pullOf_behind hpulls.1
      (by rw [hkeep _ _ hq', hch]; exact hchannels) hqfin
      (by rw [haccepted]; exact hdelivered.length_le)
    rw [hkeep _ _ hq'] at hblock
    refine ⟨?_, hblock, hflags⟩
    rw [← hsame] at hdelivered
    have horder := hpulls.1.order
    rw [haccepted] at horder
    exact horder.eq_of_length_le hdelivered.length_le

/-- In every interleaving, from every start of the cursors. -/
theorem spsc_endOfStream {sizeMax : Nat} {storage : List Int32} {capacity : UInt32} {fmt : Format}
    {highWatermark : UInt32} {res : Reservoir}
    (h : reservoirInit sizeMax storage capacity fmt highWatermark = .ok res)
    (hstorage : capacity.toNat * fmt.numChannels ≤ storage.length) (base : UInt32)
    (actions : List Action) : EndOfStream (spscRun (spscStart res base) actions) := by
  obtain ⟨-, hchannels, -, -, hformat, -, hunder, -⟩ := reservoirInit_ok h
  have hhistory := history_run (fifo_start h hstorage base) (history_start res base) actions
  refine endOfStream_of_history hhistory ?_ hunder
  rw [hformat]
  exact hchannels

def oneFrame : Buffer := ⟨some 0, 1, 1, 1, wrapRing.format, 0⟩

/-- Two frames and the end of the stream, and then three pulls of one frame. -/
def drainActions : List Action :=
  [.write [7, 8] 2] ++ List.replicate 6 .producer ++ [.finish] ++
    (List.replicate 3 ([.pull oneFrame] ++ List.replicate 5 .consumer)).flatten

theorem spsc_endOfStream_wrap :
    EndOfStream (spscRun (spscStart wrapRing 0xFFFFFFFF) drainActions) ∧
      (spscRun (spscStart wrapRing 0xFFFFFFFF) drainActions).pulls.map (·.pulled.flags) =
        [0, EAF_FRAME_EOS, EAF_FRAME_SILENCE ||| EAF_FRAME_EOS] :=
  ⟨spsc_endOfStream wrapRing_init (by decide) 0xFFFFFFFF drainActions, by decide +kernel⟩

end EmbeddedAudio.Core
