-- The prefill gate. Until a pull has found enough frames, or the end of the
-- stream, pulls are silent and take nothing; from then on they take what is there,
-- and those that find too little are counted.
import EmbeddedAudio.SpscDrain

namespace EmbeddedAudio.Core

open Storage Cursor

/-- What opens the gate: the end of the stream, or a level of at least the high watermark that
also fills the block. -/
def opens (highWatermark : UInt32) (p : PullDone) : Bool :=
  p.finished || (p.available ≥ highWatermark && p.available ≥ p.n)

/-- The pulls that are short of frames: after the gate was opened, and before the end of the
stream was seen. -/
def shortPulls (highWatermark : UInt32) : Bool → List PullDone → Nat
  | _, [] => 0
  | opened, p :: ps =>
    (if opened && !p.finished && p.available < p.n then 1 else 0) +
      shortPulls highWatermark (opened || opens highWatermark p) ps

/-! ## One pull -/

section Pull

variable {r : Reservoir} {delivered : List Int32} {p : PullDone}

theorem pullOf_highWatermark (h : PullOf r delivered p) :
    p.pulled.reservoir.highWatermark = r.highWatermark := by
  obtain ⟨r', loaded, hpart, -, hpulled, -⟩ := h.result
  obtain ⟨-, hwater, -⟩ := consumerPart_eq hpart
  rw [hpulled, ← hwater]
  unfold pullRest
  simp only
  split
  · rfl
  · split
    · split
      · rfl
      · rfl
    · rfl

/-- A pull in front of the closed gate. -/
theorem pullOf_waiting (h : PullOf r delivered p) (hstate : r.state = .prebuffering)
    (hclosed : opens r.highWatermark p = false) :
    p.delivered = delivered ∧ p.pulled.flags = EAF_FRAME_SILENCE ∧
      p.pulled.block = List.replicate (p.n.toNat * r.format.numChannels) 0 ∧
      p.pulled.reservoir.state = .prebuffering ∧ p.pulled.reservoir.readCursor = r.readCursor ∧
      p.pulled.reservoir.framesRead = r.framesRead ∧
      p.pulled.reservoir.underruns = r.underruns := by
  obtain ⟨r', loaded, hpart, hlen, hpulled, hdelivered⟩ := h.result
  obtain ⟨-, hwater, hformat, hread, hstate', hunder, hframes, -⟩ := consumerPart_eq hpart
  simp only [opens, Bool.or_eq_false_iff] at hclosed
  obtain ⟨hfin, hlow⟩ := hclosed
  have hprebuffering : pullState r' p.available p.n = .prebuffering := by
    unfold pullState
    rw [hstate', hstate, hwater]
    simp only [reduceCtorEq, if_false, true_and]
    rw [if_neg (by simpa using hlow)]
  have htake : pullTake r' p.finished p.available p.n = 0 := by
    unfold pullTake
    rw [hprebuffering, hfin]
    rfl
  rw [htake] at hlen
  obtain rfl : loaded = [] := List.length_eq_zero_iff.mp (by rw [hlen]; exact Nat.zero_mul _)
  rw [hdelivered, List.append_nil, hpulled, hfin]
  unfold pullRest
  simp [hprebuffering, hformat, hread, hframes, hunder]

/-- A pull behind the open gate, before the end of the stream. -/
theorem pullOf_streaming (h : PullOf r delivered p) (hfin : p.finished = false)
    (hstream : pullState r p.available p.n = .streaming) :
    (∃ frames, p.delivered = delivered ++ frames ∧
      frames.length = (lastTake p).toNat * r.format.numChannels ∧
      frames <+: p.pulled.block) ∧
    p.pulled.reservoir.underruns = r.underruns + (if p.available < p.n then 1 else 0) ∧
    (p.pulled.reservoir.state = .streaming ∨ p.pulled.reservoir.state = .underrun) := by
  obtain ⟨r', loaded, hpart, hlen, hpulled, hdelivered⟩ := h.result
  obtain ⟨-, hwater, hformat, -, hstate, hunder, -⟩ := consumerPart_eq hpart
  have hstream' : pullState r' p.available p.n = .streaming := by
    unfold pullState at hstream ⊢
    rwa [hstate, hwater]
  have htake : pullTake r' p.finished p.available p.n = lastTake p := by
    unfold pullTake lastTake
    rw [if_pos (.inr hstream')]
  rw [htake, hformat] at hlen
  rw [hfin] at hpulled htake
  have hshort : lastTake p < p.n ↔ p.available < p.n := by
    unfold lastTake
    split
    · rfl
    · rename_i hge
      exact ⟨fun hlt => absurd hlt (UInt32.lt_irrefl _), fun hlt => absurd hlt hge⟩
  rw [hpulled]
  unfold pullRest
  simp only [Bool.false_eq_true, if_false, hstream', if_true, htake, hshort]
  by_cases hlt : p.available < p.n
  · simp only [hlt, if_true, hunder]
    exact ⟨⟨loaded, hdelivered, hlen, List.prefix_append _ _⟩, trivial, .inr trivial⟩
  · simp only [hlt, if_false, hunder, UInt32.add_zero]
    exact ⟨⟨loaded, hdelivered, hlen, List.prefix_rfl⟩, trivial, .inl trivial⟩

theorem pullOf_finished_state (h : PullOf r delivered p) (hfin : p.finished = true) :
    p.pulled.reservoir.state = .drained ∨ p.pulled.reservoir.state = .streaming := by
  obtain ⟨r', loaded, -, -, hpulled, -⟩ := h.result
  rw [hpulled, hfin]
  unfold pullRest
  simp only [if_true]
  split
  · exact .inl rfl
  · exact .inr rfl

end Pull

/-! ## The gate over a chain of pulls -/

/-- The gate before the pulls `ps`. Only pulls that see the end follow on a drained reservoir. -/
structure Gate (opened : Bool) (r : Reservoir) (ps : List PullDone) : Prop where
  closed : opened = false → r.state = .prebuffering
  opened : opened = true → r.state ≠ .prebuffering
  drained : r.state = .drained → ∀ p ∈ ps, p.finished = true
  later : ps.Pairwise fun p q => p.finished = true → q.finished = true

section Chain

variable {opened : Bool} {r : Reservoir} {delivered : List Int32} {p : PullDone}
  {ps : List PullDone}

/-- Where the gate is open, or this pull opens it, the pull streams. -/
theorem Gate.streaming (h : Gate opened r (p :: ps)) (hfin : p.finished = false)
    (hopen : (opened || opens r.highWatermark p) = true) :
    pullState r p.available p.n = .streaming := by
  have hnot : r.state ≠ .drained := by
    intro hdrained
    have := h.drained hdrained p List.mem_cons_self
    rw [hfin] at this
    cases this
  unfold pullState
  rcases hstate : r.state with _ | _ | _ | _
  · have hclosed : opened = false := by
      by_contra hne
      exact h.opened (Bool.not_eq_false _ ▸ hne) hstate
    simp only [hclosed, opens, hfin, Bool.false_or, Bool.and_eq_true, decide_eq_true_eq] at hopen
    simp [hopen]
  · simp
  · simp
  · exact absurd hstate hnot

/-- A pull with the gate in front of it. -/
theorem gate_pull (hp : PullOf r delivered p) (h : Gate opened r (p :: ps)) :
    Gate (opened || opens r.highWatermark p) p.pulled.reservoir ps ∧
      p.pulled.reservoir.underruns =
        r.underruns + (if opened && !p.finished && p.available < p.n then 1 else 0) := by
  obtain ⟨hlater, hrest⟩ := List.pairwise_cons.mp h.later
  rcases hfin : p.finished with _ | _
  · rcases hopen : opened || opens r.highWatermark p with _ | _
    · obtain ⟨hopened, hopens⟩ := Bool.or_eq_false_iff.mp hopen
      obtain ⟨-, -, -, hstate, -, -, hunder⟩ := pullOf_waiting hp (h.closed hopened) hopens
      refine ⟨⟨fun _ => hstate, ?_, ?_, hrest⟩, ?_⟩
      · intro hne
        cases hne
      · intro hdrained
        rw [hstate] at hdrained
        cases hdrained
      · simp [hunder, hopened]
    · obtain ⟨-, hunder, hstate⟩ := pullOf_streaming hp hfin (h.streaming hfin hopen)
      refine ⟨⟨?_, ?_, ?_, hrest⟩, ?_⟩
      · intro hne
        cases hne
      · intro _ hpre
        rcases hstate with hstate | hstate
        · rw [hpre] at hstate
          cases hstate
        · rw [hpre] at hstate
          cases hstate
      · intro hdrained
        rcases hstate with hstate | hstate
        · rw [hdrained] at hstate
          cases hstate
        · rw [hdrained] at hstate
          cases hstate
      · rw [hunder]
        rcases hopened : opened with _ | _
        · -- the pull that opens the gate finds a whole block
          simp only [hopened, opens, hfin, Bool.false_or, Bool.and_eq_true,
            decide_eq_true_eq] at hopen
          simp [UInt32.not_lt.mpr hopen.2]
        · simp
  · obtain ⟨-, -, -, -, -, hunder⟩ := pullOf_finished hp hfin
    have hstate := pullOf_finished_state hp hfin
    refine ⟨⟨?_, ?_, ?_, hrest⟩, ?_⟩
    · simp [opens, hfin]
    · intro _ hpre
      rcases hstate with hstate | hstate
      · rw [hpre] at hstate
        cases hstate
      · rw [hpre] at hstate
        cases hstate
    · intro _ q hq
      exact hlater q hq hfin
    · simp [hunder]

/-- The gate after some of the pulls, and what is counted by then. -/
theorem gate_after {rest : List PullDone} (h : Gate opened r (ps ++ rest))
    (hps : Pulls r delivered ps) :
    Gate (opened || ps.any (opens r.highWatermark)) (reservoirAfter r ps) rest ∧
      (reservoirAfter r ps).highWatermark = r.highWatermark ∧
      (reservoirAfter r ps).underruns =
        r.underruns + UInt32.ofNat (shortPulls r.highWatermark opened ps) := by
  induction ps generalizing opened r delivered with
  | nil =>
    refine ⟨by simpa [reservoirAfter] using h, rfl, ?_⟩
    simp [shortPulls, reservoirAfter]
  | cons p ps ih =>
    obtain ⟨hgate, hunder⟩ := gate_pull hps.1 h
    have hwater := pullOf_highWatermark hps.1
    obtain ⟨hgate', hwater', hunder'⟩ := ih hgate hps.2
    rw [hwater] at hgate' hwater' hunder'
    refine ⟨?_, hwater', ?_⟩
    · rw [List.any_cons, ← Bool.or_assoc]
      exact hgate'
    · have hcount : UInt32.ofNat (shortPulls r.highWatermark opened (p :: ps)) =
          (if opened && !p.finished && p.available < p.n then 1 else 0) + UInt32.ofNat
            (shortPulls r.highWatermark (opened || opens r.highWatermark p) ps) := by
        rw [shortPulls, UInt32.ofNat_add]
        split
        · rfl
        · rfl
      rw [hcount, ← UInt32.add_assoc, ← hunder]
      exact hunder'

/-- While the gate is closed nothing moves. -/
theorem waiting_after {rest : List PullDone} (h : Gate opened r (ps ++ rest))
    (hps : Pulls r delivered ps) (hclosed : (opened || ps.any (opens r.highWatermark)) = false) :
    deliveredAfter delivered ps = delivered ∧ (reservoirAfter r ps).readCursor = r.readCursor ∧
      (reservoirAfter r ps).framesRead = r.framesRead ∧
      (reservoirAfter r ps).underruns = r.underruns := by
  induction ps generalizing opened r delivered with
  | nil => exact ⟨rfl, rfl, rfl, rfl⟩
  | cons p ps ih =>
    rw [List.any_cons, ← Bool.or_assoc] at hclosed
    have hopen := (Bool.or_eq_false_iff.mp hclosed).1
    obtain ⟨hopened, hopens⟩ := Bool.or_eq_false_iff.mp hopen
    obtain ⟨hdelivered, -, -, -, hread, hframes, hunder⟩ :=
      pullOf_waiting hps.1 (h.closed hopened) hopens
    rw [← pullOf_highWatermark hps.1] at hclosed
    obtain ⟨hd, hr, hf, hu⟩ :=
      ih (pullOf_highWatermark hps.1 ▸ (gate_pull hps.1 h).1) hps.2 hclosed
    exact ⟨hd.trans hdelivered, hr.trans hread, hf.trans hframes, hu.trans hunder⟩

end Chain

/-! ## Runs -/

/-- What a pull in front of the closed gate returns, and what it leaves. -/
def Silent (channels : Nat) (base : UInt32) (p : PullDone) : Prop :=
  p.delivered = [] ∧ p.pulled.flags = EAF_FRAME_SILENCE ∧
    p.pulled.block = List.replicate (p.n.toNat * channels) 0 ∧
    p.pulled.reservoir.readCursor = base ∧ p.pulled.reservoir.framesRead = 0 ∧
    p.pulled.reservoir.underruns = 0

/-- The pull has found `p.available` frames, and all of them are in its block and delivered. -/
def DeliversFound (channels : Nat) (delivered : List Int32) (p : PullDone) : Prop :=
  ∃ frames, p.delivered = delivered ++ frames ∧
    frames.length = p.available.toNat * channels ∧ frames <+: p.pulled.block

structure PrefillGate (base : UInt32) (s : Spsc) : Prop where
  /-- Nothing is delivered or counted before the gate opens. -/
  waiting : s.pulls.any (opens s.r.highWatermark) = false →
    s.delivered = [] ∧ s.r.readCursor = base ∧ s.r.underruns = 0 ∧ s.r.state = .prebuffering
  silent : ∀ before p after, s.pulls = before ++ p :: after →
    (before ++ [p]).any (opens s.r.highWatermark) = false → Silent (channelsOf s) base p
  /-- From the pull on that opens the gate the reservoir never prebuffers. -/
  streaming : ∀ before p after, s.pulls = before ++ p :: after →
    (opens s.r.highWatermark p = true ∨ p.pulled.reservoir.state ≠ .prebuffering) →
    (∀ q ∈ p :: after, q.pulled.reservoir.state ≠ .prebuffering) ∧ s.r.state ≠ .prebuffering
  counted : s.r.underruns = UInt32.ofNat (shortPulls s.r.highWatermark false s.pulls)
  found : ∀ before p after, s.pulls = before ++ p :: after →
    before.any (opens s.r.highWatermark) = true → p.finished = false → p.available < p.n →
    DeliversFound (channelsOf s) (deliveredAfter [] before) p

section History

variable {r₀ : Reservoir} {s : Spsc}

/-- The gate after some pulls of a run. -/
theorem history_gate (h : History r₀ s) (hstate : r₀.state = .prebuffering)
    {before after : List PullDone} (hsplit : s.pulls = before ++ after) :
    Gate (before.any (opens r₀.highWatermark)) (reservoirAfter r₀ before) after ∧
      (reservoirAfter r₀ before).highWatermark = r₀.highWatermark ∧
      (reservoirAfter r₀ before).underruns =
        r₀.underruns + UInt32.ofNat (shortPulls r₀.highWatermark false before) := by
  have hstart : Gate false r₀ (before ++ after) := by
    refine ⟨fun _ => hstate, ?_, ?_, hsplit ▸ h.later⟩
    · intro hne
      cases hne
    · intro hdrained
      rw [hstate] at hdrained
      cases hdrained
  obtain ⟨hgate, hrest⟩ := gate_after hstart (pulls_append.mp (hsplit ▸ h.chain)).1
  exact ⟨by simpa using hgate, hrest⟩

theorem history_waiting (h : History r₀ s) (hstate : r₀.state = .prebuffering)
    {before after : List PullDone} (hsplit : s.pulls = before ++ after)
    (hclosed : before.any (opens r₀.highWatermark) = false) :
    deliveredAfter [] before = [] ∧ (reservoirAfter r₀ before).readCursor = r₀.readCursor ∧
      (reservoirAfter r₀ before).framesRead = r₀.framesRead ∧
      (reservoirAfter r₀ before).underruns = r₀.underruns := by
  have hstart : Gate false r₀ (before ++ after) := by
    have hgate := (history_gate h hstate (List.nil_append _).symm).1
    rwa [hsplit] at hgate
  exact waiting_after hstart (pulls_append.mp (hsplit ▸ h.chain)).1 (by simpa using hclosed)

theorem history_channels (h : History r₀ s) {before after : List PullDone}
    (hsplit : s.pulls = before ++ after) :
    (reservoirAfter r₀ before).format.numChannels = channelsOf s := by
  rw [pulls_format (pulls_append.mp (hsplit ▸ h.chain)).1, ← history_format h]
  rfl

theorem history_highWatermark (h : History r₀ s) (hstate : r₀.state = .prebuffering) :
    s.r.highWatermark = r₀.highWatermark := by
  obtain ⟨-, hwater, -⟩ := consumerPart_eq h.reservoir
  rw [hwater]
  exact (history_gate h hstate (List.append_nil _).symm).2.1

/-- After a pull that opens the gate, or that leaves it open, it stays open. -/
theorem history_open (h : History r₀ s) (hstate : r₀.state = .prebuffering)
    {before after : List PullDone} {p : PullDone} (hsplit : s.pulls = before ++ p :: after)
    (hopen : opens r₀.highWatermark p = true ∨ p.pulled.reservoir.state ≠ .prebuffering) :
    (before ++ [p]).any (opens r₀.highWatermark) = true := by
  have hsplit' : s.pulls = (before ++ [p]) ++ after := by
    rw [hsplit, List.append_assoc]
    rfl
  rcases hopen with hopen | hne
  · simp [hopen]
  · by_contra hclosed
    have hgate := (history_gate h hstate hsplit').1
    rw [reservoirAfter_snoc] at hgate
    exact hne (hgate.closed (Bool.eq_false_of_not_eq_true hclosed))

theorem prefillGate_of_history (h : History r₀ s) (hstate : r₀.state = .prebuffering)
    (hunder : r₀.underruns = 0) (hframes : r₀.framesRead = 0) :
    PrefillGate r₀.readCursor s := by
  obtain ⟨-, -, -, hread, hst, hun, -, -⟩ := consumerPart_eq h.reservoir
  have hw := history_highWatermark h hstate
  have hall : s.pulls = s.pulls ++ [] := (List.append_nil _).symm
  refine {
    waiting := ?_
    silent := ?_
    streaming := ?_
    counted := ?_
    found := ?_ }
  · rw [hw]
    intro hclosed
    obtain ⟨hd, hr, -, hu⟩ := history_waiting h hstate hall hclosed
    refine ⟨h.delivered.trans hd, hread.trans hr, hun.trans (hu.trans hunder), ?_⟩
    rw [hst]
    exact (history_gate h hstate hall).1.closed hclosed
  · rw [hw]
    intro before p after hsplit hclosed
    rw [List.any_append, Bool.or_eq_false_iff] at hclosed
    obtain ⟨hgate, hkeep, -⟩ := history_gate h hstate hsplit
    obtain ⟨hd, hr, hf, hu⟩ := history_waiting h hstate hsplit hclosed.1
    obtain ⟨hdelivered, hflags, hblock, -, hread', hframes', hunder'⟩ :=
      pullOf_waiting (pulls_split (hsplit ▸ h.chain)).1 (hgate.closed hclosed.1)
        (by rw [hkeep]; simpa using hclosed.2)
    rw [history_channels h hsplit] at hblock
    exact ⟨hdelivered.trans hd, hflags, hblock, hread'.trans hr, hframes'.trans (hf.trans hframes),
      hunder'.trans (hu.trans hunder)⟩
  · rw [hw]
    intro before p after hsplit hopen
    have hopened := history_open h hstate hsplit hopen
    -- every later part of the run has the open gate in front of it
    have hlater : ∀ more rest, p :: after = p :: more ++ rest →
        (reservoirAfter r₀ (before ++ p :: more)).state ≠ .prebuffering := by
      intro more rest hmore
      have hsplit' : s.pulls = (before ++ p :: more) ++ rest := by
        rw [hsplit, hmore, List.append_assoc]
      refine (history_gate h hstate hsplit').1.opened ?_
      rw [List.any_append, List.any_cons, ← Bool.or_assoc]
      rw [List.any_append] at hopened
      simp only [List.any_cons, List.any_nil, Bool.or_false] at hopened
      rw [hopened, Bool.true_or]
    constructor
    · intro q hq
      rcases List.mem_cons.mp hq with rfl | hq
      · have hne := hlater [] after rfl
        rwa [reservoirAfter_snoc] at hne
      · obtain ⟨more, rest, rfl⟩ := List.append_of_mem hq
        have hne := hlater (more ++ [q]) rest (by simp)
        rwa [← List.cons_append, ← List.append_assoc, reservoirAfter_snoc] at hne
    · rw [hst, hsplit]
      exact hlater after [] (List.append_nil _).symm
  · rw [hw, hun, (history_gate h hstate hall).2.2, hunder, UInt32.zero_add]
  · rw [hw]
    intro before p after hsplit hopened hfin hlt
    obtain ⟨hgate, hkeep, -⟩ := history_gate h hstate hsplit
    have hpull := (pulls_split (hsplit ▸ h.chain)).1
    obtain ⟨⟨frames, hdelivered, hlen, hblock⟩, -⟩ :=
      pullOf_streaming hpull hfin (hgate.streaming hfin (by rw [hopened, Bool.true_or]))
    refine ⟨frames, hdelivered, ?_, hblock⟩
    rw [hlen, history_channels h hsplit, lastTake, if_pos hlt]

end History

/-- In every interleaving, from every start of the cursors. -/
theorem spsc_prefillGate {sizeMax : Nat} {storage : List Int32} {capacity : UInt32} {fmt : Format}
    {highWatermark : UInt32} {res : Reservoir}
    (h : reservoirInit sizeMax storage capacity fmt highWatermark = .ok res)
    (hstorage : capacity.toNat * fmt.numChannels ≤ storage.length) (base : UInt32)
    (actions : List Action) : PrefillGate base (spscRun (spscStart res base) actions) := by
  obtain ⟨-, -, -, -, -, hframes, hunder, hstate⟩ := reservoirInit_ok h
  have hhistory := history_run (fifo_start h hstorage base) (history_start res base) actions
  exact prefillGate_of_history hhistory hstate hunder hframes

/-- A pull that finds nothing, a frame, and then two pulls of one frame. -/
def gateActions : List Action :=
  [.pull oneFrame] ++ List.replicate 5 .consumer ++ [.write [7] 1] ++ List.replicate 6 .producer ++
    (List.replicate 2 ([.pull oneFrame] ++ List.replicate 5 .consumer)).flatten

theorem spsc_prefillGate_wrap :
    PrefillGate 0xFFFFFFFF (spscRun (spscStart wrapRing 0xFFFFFFFF) gateActions) ∧
      (spscRun (spscStart wrapRing 0xFFFFFFFF) gateActions).pulls.map (·.pulled.flags) =
        [EAF_FRAME_SILENCE, 0, EAF_FRAME_UNDERRUN] :=
  ⟨spsc_prefillGate wrapRing_init (by decide) 0xFFFFFFFF gateActions, by decide +kernel⟩

end EmbeddedAudio.Core
