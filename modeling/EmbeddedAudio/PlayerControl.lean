-- What holds of the player in every state: who may be where, the sizes that were
-- checked at its start, and a reservoir that is a queue between its two sides.
import EmbeddedAudio.PlayerMoves
import EmbeddedAudio.SpscPulls

namespace EmbeddedAudio.Playback

open EmbeddedAudio.Core Storage Cursor

variable {σ : Type}

/-! ## Who is where -/

/-- The decoder is let through, or is about to be. -/
def Live (x : Player σ) : Prop :=
  x.initialized = true ∧ (x.gate = true ∨ ∃ caller, x.owner = .opening caller)

section Control

variable {src : Source σ} {x x' : Player σ}

theorem Owner.untied {owner : Owner} (h : owner.tied = false) (caller : Caller) :
    owner ≠ .opening caller := by
  rintro rfl
  cases h

/-- Only a decoder inside a write has a call on the reservoir. -/
theorem Control.resting (h : Control src x)
    (hd : ∀ frames samples offset, x.decoder ≠ .writing frames samples offset) :
    x.spsc.producer = .idle := by
  by_contra hbusy
  obtain ⟨frames, samples, offset, hw⟩ := h.producer hbusy
  exact hd _ _ _ hw

theorem pull_called {s : Spsc} {buf : Buffer} (hidle : s.consumer = .idle)
    (hvalid : pullValid s.r buf = true) :
    spscStep s (.pull buf) = { s with consumer := .called buf.frameCount } := by
  simp only [spscStep]
  exact if_pos ⟨hidle, hvalid⟩

/-- Only an owner inside a pull has one. -/
theorem Control.unpulled (h : Control src x) (ho : x.owner.tied = false) :
    x.spsc.consumer = .idle := by
  by_contra hbusy
  obtain ⟨owned, hp⟩ := h.consumer hbusy
  rw [hp] at ho
  cases ho

/-- The decoder has come through the gate, and it is not at the top of its loop. -/
def Decoder.inside : Decoder → Bool
  | .none | .exited | .gateLoad | .gateQuit | .gateTake | .loop _ => false
  | _ => true

theorem Control.open (h : Control src x) (hin : x.decoder.inside = true) : x.gate = true := by
  cases hd : x.decoder with
  | none | exited | gateLoad | gateQuit | gateTake | loop =>
    rw [hd] at hin
    cases hin
  | _ =>
    rcases h.gate (by simp [hd]) (by simp [hd]) (by rw [hd]; rfl) with hgate | ⟨-, ended, hloop⟩
    · exact hgate
    · rw [hd] at hloop
      cases hloop

/-- What the owner relies on where it is. -/
theorem Control.stands (h : Control src x) {owner : Owner} (ho : x.owner = owner) :
    ownerHolds src { x with owner := owner } := by
  subst ho
  exact h.owner

theorem Control.on (h : Control src x) (ho : x.owner ≠ .idle) : x.initialized ≠ false := by
  intro hoff
  exact ho (h.initialized hoff).2.1

/-- The gate of a pipeline that runs is open, or the owner is about to open it. -/
theorem Control.opened (h : Control src x) (hr : x.pipeline.state = .running)
    (ho : ∀ caller, x.owner ≠ .opening caller) : x.gate = true := by
  apply (h.running hr).resolve_right
  rintro ⟨caller, hopening⟩
  exact ho caller hopening

/-- The decoder leaves the owner's part as it is. -/
theorem decodes_frame (h : Decodes src x x') :
    x' = { x with
      spsc := x'.spsc, position := x'.position, decoder := x'.decoder, wake := x'.wake
      failed := x'.failed, sourceError := x'.sourceError } ∧
      x'.spsc.consumer = x.spsc.consumer := by
  cases h with
  | finishes =>
    refine ⟨rfl, ?_⟩
    simp only [spscStep]
    split
    · rfl
    · rfl
  | writes =>
    refine ⟨rfl, ?_⟩
    simp only [spscStep]
    split
    · rfl
    · rfl
  | copies =>
    refine ⟨rfl, ?_⟩
    rw [producerStep_frame]
  | wrote =>
    refine ⟨rfl, ?_⟩
    rw [producerStep_frame]
  | _ => exact ⟨rfl, rfl⟩

theorem decodes_live (h : Decodes src x x') : Live x' ↔ Live x := by
  unfold Live
  rw [(decodes_frame h).1]

theorem decodes_none (h : Decodes src x x') (hnone : x.decoder = .none) : x' = x := by
  cases h with
  | stays => rfl
  | goes hg =>
    cases hg with
    | timeout ha =>
      rw [hnone] at ha
      cases ha
    | _ => simp_all
  | takes ha =>
    rw [hnone] at ha
    cases ha
  | _ => simp_all

theorem awaits_parked {d next : Decoder} (h : Awaits d next) (hparked : d.parked = true) :
    next.parked = true := by
  cases h with
  | gate => rfl
  | _ => cases hparked

/-- A decoder behind a closed gate stays there, until it is told to quit. -/
theorem decodes_parked (h : Decodes src x x') (hparked : x.decoder.parked = true)
    (hgate : x.gate = false) (hquit : x.quit = false) :
    x'.decoder.parked = true ∧ x'.position = x.position ∧ x'.spsc = x.spsc := by
  cases h with
  | stays => exact ⟨hparked, rfl, rfl⟩
  | goes hg =>
    refine ⟨?_, rfl, rfl⟩
    cases hg with
    | timeout ha => exact awaits_parked ha hparked
    | shut => rfl
    | waitAtGate => rfl
    | _ => simp_all [Decoder.parked]
  | takes ha => exact ⟨awaits_parked ha hparked, rfl, rfl⟩
  | _ => simp_all [Decoder.parked]

theorem decodes_holds (hd : Decodes src x x') (h : Control src x) : ownerHolds src x' := by
  have hholds := h.owner
  obtain ⟨hframe, hconsumer⟩ := decodes_frame hd
  have howner : x'.owner = x.owner := by rw [hframe]
  have hgate : x'.gate = x.gate := by rw [hframe]
  have hquit : x'.quit = x.quit := by rw [hframe]
  have hstate : x'.pipeline = x.pipeline := by rw [hframe]
  have hended : x'.ended = x.ended := by rw [hframe]
  unfold ownerHolds at hholds ⊢
  rw [howner, hgate, hquit, hstate, hended, hconsumer]
  cases ho : x.owner with
  | creating =>
    rw [ho] at hholds
    rw [decodes_none hd hholds.1]
    exact hholds
  | seeking =>
    rw [ho] at hholds
    rw [decodes_none hd hholds.1]
    exact hholds
  | resetting =>
    rw [ho] at hholds
    rw [decodes_none hd hholds.1]
    exact hholds
  | launching =>
    rw [ho] at hholds
    obtain ⟨hparked, hposition, -⟩ := decodes_parked hd hholds.1 hholds.2.1 hholds.2.2.1
    rw [hposition]
    exact ⟨hparked, hholds.2⟩
  | opening =>
    rw [ho] at hholds
    exact ⟨(decodes_parked hd hholds.1 hholds.2.1 hholds.2.2).1, hholds.2⟩
  | _ =>
    rw [ho] at hholds
    exact hholds

/-- A decoder that has come through the gate, or that quits. -/
theorem decodes_gate (hd : Decodes src x x') (h : Control src x) : x'.decoder ≠ .none →
    x'.decoder ≠ .exited → x'.decoder.parked = false →
    x'.gate = true ∨ x'.quit = true ∧ ∃ ended, x'.decoder = .loop ended := by
  intro hnone hexited hparked
  cases hd with
  | stays => exact h.gate hnone hexited hparked
  | goes hg =>
    cases hg with
    | pass _ hopen => exact .inl hopen
    | shut => cases hparked
    | quitAtGate _ hquit => exact .inr ⟨hquit, _, rfl⟩
    | waitAtGate => cases hparked
    | leave => exact absurd rfl hexited
    | linger hd hquit | next hd hquit =>
      rcases h.gate (by simp [hd]) (by simp [hd]) (by simp [hd, Decoder.parked]) with hg | ⟨hq, -⟩
      · exact .inl hg
      · rw [hquit] at hq
        cases hq
    | exit => exact absurd rfl hexited
    | timeout ha =>
      generalize hd : x.decoder = d at ha
      cases ha with
      | gate => cases hparked
      | _ => exact .inl (h.open (by rw [hd]; rfl))
    | full hd | spare hd | above hd | below hd | quitHeld hd | waitHeld hd | read hd | written hd =>
      exact .inl (h.open (by rw [hd]; rfl))
  | takes ha =>
    generalize hd : x.decoder = d at ha
    cases ha with
    | gate => cases hparked
    | _ => exact .inl (h.open (by rw [hd]; rfl))
  | fails _ hd | ends hd | gets hd | failed hd | finishes hd | writes hd | copies hd | wrote hd =>
    exact .inl (h.open (by rw [hd]; rfl))

theorem goes_resting {d : Decoder} (hg : Goes x d) (h : Control src x) :
    x.spsc.producer = .idle := by
  apply h.resting
  intro frames samples offset hw
  cases hg with
  | timeout ha =>
    rw [hw] at ha
    cases ha
  | _ => simp_all

theorem decodes_producer (hd : Decodes src x x') (h : Control src x) :
    x'.spsc.producer ≠ .idle →
      ∃ frames samples offset, x'.decoder = .writing frames samples offset := by
  intro hbusy
  cases hd with
  | stays => exact h.producer hbusy
  | goes hg => exact absurd (goes_resting hg h) hbusy
  | takes ha => exact absurd (goes_resting (.timeout ha) h) hbusy
  | fails _ hd | ends hd | gets hd | failed hd =>
    exact absurd (h.resting (by simp [hd])) hbusy
  | finishes hd =>
    refine absurd ?_ hbusy
    have hidle := h.resting (by simp [hd])
    simp only [spscStep]
    rw [if_pos hidle]
    exact hidle
  | writes => exact ⟨_, _, _, rfl⟩
  | copies hd => exact ⟨_, _, _, hd⟩
  | wrote _ hidle => exact absurd hidle hbusy

theorem decodes_control (hd : Decodes src x x') (h : Control src x) : Control src x' := by
  have hholds := decodes_holds hd h
  have hgate := decodes_gate hd h
  have hproducer := decodes_producer hd h
  have hstill := decodes_none hd
  obtain ⟨hframe, hconsumer⟩ := decodes_frame hd
  refine ⟨hholds, hgate, hproducer, ?_, ?_, ?_⟩
  · rw [hconsumer, hframe]
    exact h.consumer
  · rw [hframe]
    exact h.running
  · intro hoff
    rw [hframe] at hoff
    obtain ⟨hnone, hidle, hstate⟩ := h.initialized hoff
    rw [hstill hnone]
    exact ⟨hnone, hidle, hstate⟩

/-- An owner that is told about the gate again, or that there is no decoder any more. -/
theorem holds_none (h : ownerHolds src x) (hnone : x.decoder = .none)
    (hstill : x.pipeline.state ≠ .running) (ho : x.owner.tied = false) :
    ownerHolds src { x with gate := false, quit := false, failed := false, sourceError := 0 } := by
  unfold ownerHolds at h ⊢
  cases howner : x.owner with
  | creating =>
    rw [howner] at h
    exact ⟨hnone, rfl, rfl, h.2.2.2⟩
  | launching =>
    rw [howner, hnone] at h
    cases h.1
  | opening | pulling | waking =>
    rw [howner] at ho
    cases ho
  | quitting | quitGive => exact fun _ => hstill
  | joining => exact hstill
  | seeking => exact ⟨hnone, hstill⟩
  | resetting =>
    rw [howner] at h
    exact ⟨hnone, hstill, h.2.2⟩
  | _ => trivial

theorem holds_joined (h : ownerHolds src x) (hexited : x.decoder = .exited)
    (ho : x.owner.tied = false) : ownerHolds src { x with decoder := .none } := by
  unfold ownerHolds at h ⊢
  cases howner : x.owner with
  | creating | launching | seeking | resetting =>
    rw [howner, hexited] at h
    cases h.1
  | opening | pulling | waking =>
    rw [howner] at ho
    cases ho
  | _ =>
    rw [howner] at h
    exact h

/-! ## The moves of the owner -/

theorem control_aside (h : Control src x) {p : Pipeline} {owner : Owner} (results : List Rc)
    (commands : List Command) (gains : List Int32) (htied : x.owner.tied = false)
    (hinit : x.initialized = true ∨ owner = .idle)
    (hrunning : p.state = .running → x.pipeline.state = .running)
    (hnew : ownerHolds src { x with pipeline := p, owner := owner }) :
    Control src { x with
      pipeline := p, owner := owner, results := results, commands := commands, gains := gains } := by
  refine ⟨hnew, h.gate, h.producer, ?_, ?_, ?_⟩
  · intro hbusy
    exact absurd (h.unpulled htied) hbusy
  · intro hr
    exact .inl (h.opened (hrunning hr) (Owner.untied htied))
  · intro hoff
    obtain ⟨hnone, -, hstill⟩ := h.initialized hoff
    refine ⟨hnone, hinit.resolve_left ?_, fun hr => hstill (hrunning hr)⟩
    intro hon
    exact Bool.false_ne_true (hoff.symm.trans hon)

/-- A decoder is created in front of the gate. -/
theorem control_creates (h : Control src x) {sought : Option UInt64} {caller : Caller}
    (ho : x.owner = .creating sought caller) :
    Control src { x with decoder := .gateLoad, owner := .launching sought caller } := by
  obtain ⟨hnone, hgate, hquit, hready⟩ :
    x.decoder = .none ∧ x.gate = false ∧ x.quit = false ∧ _ := h.stands ho
  have hidle := h.resting (by simp [hnone])
  have hunpulled := h.unpulled (by rw [ho]; rfl)
  refine ⟨⟨rfl, hgate, hquit, hready⟩, fun _ _ => nofun,
    fun hbusy => absurd hidle hbusy, fun hbusy => absurd hunpulled hbusy, ?_, ?_⟩
  · intro hr
    rcases hready.1 with hs | hs
    · rw [hs] at hr
      cases hr
    · rw [hs] at hr
      cases hr
  · exact fun hoff => absurd hoff (h.on (by simp [ho]))

theorem control_resets (h : Control src x) (htied : x.owner.tied = false) :
    Control src (resetReservoir x) := by
  have hholds := h.owner
  have howner : (resetReservoir x).owner = x.owner := rfl
  refine ⟨?_, h.gate, fun hbusy => absurd rfl hbusy, fun hbusy => absurd rfl hbusy, h.running,
    h.initialized⟩
  unfold ownerHolds at hholds ⊢
  rw [howner]
  cases ho : x.owner with
  | pulling =>
    rw [ho] at htied
    cases htied
  | _ =>
    rw [ho] at hholds
    exact hholds

theorem control_starts (h : Control src x) {sought : Option UInt64} {caller : Caller}
    {p : Pipeline} {r : Reservoir} (ho : x.owner = .launching sought caller)
    (hspsc : x.spsc = spscStart (reservoirReset r) 0) :
    Control src { x with
      pipeline := p
      owner := .opening caller
      events := x.events ++ [.start sought x.position]
      origin := x.position, pulled := [], ended := false } := by
  obtain ⟨hparked, hgate, hquit, -⟩ := h.stands ho
  refine ⟨⟨hparked, hgate, hquit⟩, h.gate, h.producer, ?_, fun _ => .inr ⟨_, rfl⟩, ?_⟩
  · intro hbusy
    rw [hspsc] at hbusy
    exact absurd rfl hbusy
  · exact fun hoff => absurd hoff (h.on (by simp [ho]))

/-- The decoder is told to quit. -/
theorem control_quits (h : Control src x) {owner : Owner} (htied : x.owner.tied = false)
    (hon : x.owner ≠ .idle)
    (hnew : ownerHolds src { x with quit := true, owner := owner }) :
    Control src { x with quit := true, owner := owner } := by
  refine ⟨hnew, ?_, h.producer, ?_, ?_, ?_⟩
  · intro hnone hexited hparked
    exact (h.gate hnone hexited hparked).imp id (fun hq => ⟨rfl, hq.2⟩)
  · intro hbusy
    exact absurd (h.unpulled htied) hbusy
  · exact fun hr => .inl (h.opened hr (Owner.untied htied))
  · exact fun hoff => absurd hoff (h.on hon)

theorem control_opens (h : Control src x) {caller : Caller} (ho : x.owner = .opening caller) :
    Control src { x with gate := true, owner := .openGive caller } := by
  refine ⟨trivial, fun _ _ _ => .inl rfl, h.producer, ?_, fun _ => .inl rfl, ?_⟩
  · intro hbusy
    obtain ⟨owned, hp⟩ := h.consumer hbusy
    simp [ho] at hp
  · exact fun hoff => absurd hoff (h.on (by simp [ho]))

theorem control_pulls (h : Control src x) {owned : Buffer} (ho : x.owner = .stepping)
    (hrunning : x.pipeline.state = .running)
    (hvalid : pullValid x.spsc.r { owned with frameCount := x.pipeline.blockFrames } = true) :
    Control src { x with
      spsc := spscStep x.spsc (.pull { owned with frameCount := x.pipeline.blockFrames })
      owner := .pulling owned } := by
  have hidle := h.unpulled (by rw [ho]; rfl)
  rw [pull_called hidle hvalid]
  refine ⟨⟨hrunning, nofun⟩, h.gate, h.producer, fun _ => ⟨_, rfl⟩, ?_, ?_⟩
  · exact fun hr => .inl (h.opened hr (by simp [ho]))
  · exact fun hoff => absurd hoff (h.on (by simp [ho]))

theorem control_loads (h : Control src x) {owned : Buffer} (ho : x.owner = .pulling owned)
    (hbusy : (consumerStep x.spsc).consumer ≠ .idle) :
    Control src { x with spsc := consumerStep x.spsc } := by
  obtain ⟨hrunning, -⟩ := h.stands ho
  refine ⟨?_, h.gate, ?_, fun _ => ⟨_, ho⟩, h.running, h.initialized⟩
  · unfold ownerHolds
    simp only [ho]
    exact ⟨hrunning, hbusy⟩
  · rw [consumerStep_frame]
    exact h.producer

theorem control_releases (h : Control src x) {owned : Buffer} {done : PullDone}
    (ho : x.owner = .pulling owned) (hidle : (consumerStep x.spsc).consumer = .idle) :
    Control src { x with
      spsc := consumerStep x.spsc
      owner := .waking owned done.pulled
      events := x.events ++
        [.pull ((consumerStep x.spsc).delivered.drop x.spsc.delivered.length) done.pulled.flags]
      pulled := x.pulled ++ (consumerStep x.spsc).delivered.drop x.spsc.delivered.length
      ended := x.ended || done.pulled.flags &&& EAF_FRAME_EOS ≠ 0 } := by
  obtain ⟨hrunning, -⟩ := h.stands ho
  refine ⟨⟨hrunning, ?_⟩, h.gate, ?_, fun hbusy => absurd hidle hbusy, ?_, ?_⟩
  · intro heos
    exact Bool.or_eq_true_iff.mpr (.inr (decide_eq_true heos))
  · rw [consumerStep_frame]
    exact h.producer
  · exact fun hr => .inl (h.opened hr (by simp [ho]))
  · exact fun hoff => absurd hoff (h.on (by simp [ho]))

theorem control_wakes (h : Control src x) {owned : Buffer} {pulled : Pulled}
    (ho : x.owner = .waking owned pulled) :
    Control src { x with wake := x.wake || pulled.wake, owner := .stepping } := by
  refine ⟨trivial, h.gate, h.producer, ?_, ?_, ?_⟩
  · intro hbusy
    obtain ⟨owned, hp⟩ := h.consumer hbusy
    simp [ho] at hp
  · exact fun hr => .inl (h.opened hr (by simp [ho]))
  · exact fun hoff => absurd hoff (h.on (by simp [ho]))

theorem owns_control (hm : Owns src x x') (h : Control src x) : Control src x' := by
  have hholds := h.owner
  cases hm with
  | aside results commands gains htied _ hinit _ hrunning _ hnew =>
    exact control_aside h results commands gains htied hinit hrunning hnew
  | queues => exact ⟨hholds, h.gate, h.producer, h.consumer, h.running, h.initialized⟩
  | prepares hnone hstill htied =>
    exact ⟨holds_none hholds hnone hstill htied, fun hn => absurd hnone hn, h.producer, h.consumer,
      fun hr => absurd hr hstill, h.initialized⟩
  | creates ho => exact control_creates h ho
  | resets _ _ htied => exact control_resets h htied
  | starts ho hspsc _ _ => exact control_starts h ho hspsc
  | aborts ho => exact control_quits h (by rw [ho]; rfl) (by simp [ho]) trivial
  | quits ho => exact control_quits h (by rw [ho]; rfl) (by simp [ho]) (h.stands ho)
  | gives => exact ⟨hholds, h.gate, h.producer, h.consumer, h.running, h.initialized⟩
  | joins hexited htied =>
    refine ⟨holds_joined hholds hexited htied, fun hn => absurd rfl hn, ?_, h.consumer, h.running,
      ?_⟩
    · intro hbusy
      exact absurd (h.resting (by simp [hexited])) hbusy
    · intro hoff
      exact ⟨rfl, (h.initialized hoff).2⟩
  | opens ho => exact control_opens h ho
  | seeks position ho =>
    refine ⟨?_, h.gate, h.producer, h.consumer, h.running, h.initialized⟩
    unfold ownerHolds
    simp only [ho]
    exact h.stands ho
  | pulls ho hrunning hvalid => exact control_pulls h ho hrunning hvalid
  | refuses => exact ⟨hholds, h.gate, h.producer, h.consumer, h.running, h.initialized⟩
  | loads ho hbusy => exact control_loads h ho hbusy
  | releases ho hidle _ => exact control_releases h ho hidle
  | wakes ho => exact control_wakes h ho
  | detaches hnone hstill htied =>
    have hunpulled := h.unpulled htied
    exact ⟨trivial, h.gate, h.producer, fun hbusy => absurd hunpulled hbusy,
      fun hr => absurd hr hstill, fun _ => ⟨hnone, rfl, hstill⟩⟩

end Control

/-! ## The sizes -/

/-- What no step on a reservoir changes. -/
structure SameMarks (r r' : Reservoir) : Prop extends SameRing r r' where
  low : r'.backpressureLow = r.backpressureLow
  high : r'.backpressureHigh = r.backpressureHigh
  watermark : r'.highWatermark = r.highWatermark
  wakeProducer : r'.wakeProducer = r.wakeProducer

theorem SameMarks.refl (r : Reservoir) : SameMarks r r :=
  ⟨⟨rfl, rfl, rfl⟩, rfl, rfl, rfl, rfl⟩

theorem spscStep_marks (s : Spsc) (action : Core.Action) : SameMarks s.r (spscStep s action).r := by
  cases action with
  | write | finish | pull =>
    simp only [spscStep]
    split
    · exact ⟨⟨rfl, rfl, rfl⟩, rfl, rfl, rfl, rfl⟩
    · exact .refl _
  | producer =>
    have hlength := length_storage_producerStep s
    simp only [spscStep]
    rw [producerStep_frame]
    exact ⟨⟨rfl, rfl, hlength⟩, rfl, rfl, rfl, rfl⟩
  | consumer =>
    simp only [spscStep]
    rw [consumerStep_frame]
    exact ⟨⟨rfl, rfl, rfl⟩, rfl, rfl, rfl, rfl⟩

/-- What `eaf_reservoir_init`, `eaf_pipeline_configure` and `eaf_player_init` have checked. -/
structure Fits (src : Source σ) (x : Player σ) : Prop where
  ring : PowerOfTwo x.spsc.r.capacity
  storage : x.spsc.r.capacity.toNat * src.format.numChannels ≤ x.spsc.r.storage.length
  format : x.spsc.r.format = src.format
  channels : 0 < src.format.numChannels
  low : 0 < x.spsc.r.backpressureLow.toNat
  marks : x.spsc.r.backpressureLow.toNat < x.spsc.r.backpressureHigh.toNat
  high : x.spsc.r.backpressureHigh.toNat ≤ x.spsc.r.capacity.toNat
  watermark : x.spsc.r.highWatermark.toNat ≤ x.spsc.r.backpressureHigh.toNat
  block : 0 < x.pipeline.blockFrames.toNat
  blocks : x.pipeline.blockFrames.toNat ≤ x.spsc.r.backpressureHigh.toNat
  output : src.format.numChannels ≤ x.pipeline.outputFormat.numChannels
  wakes : x.initialized = true → x.spsc.r.wakeProducer = true

section Sizes

variable {src : Source σ} {x x' : Player σ}

theorem Fits.keep (h : Fits src x) (hr : SameMarks x.spsc.r x'.spsc.r)
    (hp : SameSizes x.pipeline x'.pipeline) (hinit : x'.initialized = x.initialized) :
    Fits src x' where
  ring := hr.capacity ▸ h.ring
  storage := by rw [hr.capacity, hr.storage]; exact h.storage
  format := hr.format.trans h.format
  channels := h.channels
  low := by rw [hr.low]; exact h.low
  marks := by rw [hr.low, hr.high]; exact h.marks
  high := by rw [hr.high, hr.capacity]; exact h.high
  watermark := by rw [hr.watermark, hr.high]; exact h.watermark
  block := by rw [hp.1]; exact h.block
  blocks := by rw [hp.1, hr.high]; exact h.blocks
  output := by rw [hp.2]; exact h.output
  wakes := by rw [hinit, hr.wakeProducer]; exact h.wakes

/-- The decoder takes a step on the reservoir or leaves it alone. -/
theorem decodes_spsc (h : Decodes src x x') :
    x'.spsc = x.spsc ∨ ∃ action, x'.spsc = spscStep x.spsc action := by
  cases h with
  | finishes => exact .inr ⟨.finish, rfl⟩
  | writes => exact .inr ⟨.write _ _, rfl⟩
  | copies => exact .inr ⟨.producer, rfl⟩
  | wrote => exact .inr ⟨.producer, rfl⟩
  | _ => exact .inl rfl

theorem decodes_marks (h : Decodes src x x') : SameMarks x.spsc.r x'.spsc.r := by
  rcases decodes_spsc h with hsame | ⟨action, hstep⟩
  · rw [hsame]
    exact .refl _
  · rw [hstep]
    exact spscStep_marks _ _

theorem decodes_fits (hd : Decodes src x x') (h : Fits src x) : Fits src x' := by
  have hframe := (decodes_frame hd).1
  apply h.keep (decodes_marks hd)
  · rw [hframe]
    exact ⟨rfl, rfl⟩
  · rw [hframe]

theorem owns_fits (hm : Owns src x x') (h : Fits src x) : Fits src x' := by
  cases hm with
  | aside _ _ _ _ _ _ hsizes => exact h.keep (.refl _) hsizes rfl
  | starts _ _ _ hsizes => exact h.keep (.refl _) hsizes rfl
  | resets => exact h.keep ⟨⟨rfl, rfl, rfl⟩, rfl, rfl, rfl, rfl⟩ ⟨rfl, rfl⟩ rfl
  | pulls => exact h.keep (spscStep_marks _ _) ⟨rfl, rfl⟩ rfl
  | loads => exact h.keep (spscStep_marks _ .consumer) ⟨rfl, rfl⟩ rfl
  | releases => exact h.keep (spscStep_marks _ .consumer) ⟨rfl, rfl⟩ rfl
  | detaches => exact { h with wakes := nofun }
  | _ => exact h.keep (.refl _) ⟨rfl, rfl⟩ rfl

end Sizes

/-! ## The reservoir -/

/-- A reservoir that is a queue since its last reset. -/
structure Linked (s : Spsc) : Prop where
  queue : ∃ w r, Fifo 0 w r s
  history : ∃ r₀, History r₀ s ∧ r₀.underruns = 0

theorem linked_step {s : Spsc} (h : Linked s) (action : Core.Action) :
    Linked (spscStep s action) := by
  obtain ⟨w, r, hf⟩ := h.queue
  obtain ⟨r₀, hh, hunder⟩ := h.history
  exact ⟨fifo_step hf action, r₀, history_step hf hh action, hunder⟩

section Reservoir

variable {src : Source σ} {x x' : Player σ}

theorem linked_reset (h : Fits src x) (r : Reservoir) (hr : SameRing x.spsc.r r) :
    Linked (spscStart (reservoirReset r) 0) := by
  refine ⟨⟨0, 0, ?_⟩, _, history_start (reservoirReset r) 0, rfl⟩
  have hchannels : r.format.numChannels = src.format.numChannels := by rw [hr.format, h.format]
  refine {
    ring := ?_
    channels := ?_
    size := ?_
    accepted := by simp [spscStart]
    write := rfl
    read := rfl
    le := Nat.le_refl _
    level := Nat.zero_le _
    order := by simp [spscStart]
    data := fun j _ hj => by simp at hj
    framesRead := rfl
    producer := trivial
    consumer := trivial }
  · show PowerOfTwo r.capacity
    rw [hr.capacity]
    exact h.ring
  · show 0 < r.format.numChannels
    rw [hchannels]
    exact h.channels
  · show r.capacity.toNat * r.format.numChannels ≤ r.storage.length
    rw [hchannels, hr.capacity, hr.storage]
    exact h.storage

theorem decodes_linked (hd : Decodes src x x') (h : Live x → Linked x.spsc) :
    Live x' → Linked x'.spsc := by
  intro hlive
  have hsame := (decodes_live hd).mp hlive
  rcases decodes_spsc hd with heq | ⟨action, hstep⟩
  · rw [heq]
    exact h hsame
  · rw [hstep]
    exact linked_step (h hsame) action

/-- A gate that is open now was open before, when the owner is not about to open it. -/
theorem Live.before (h : Live x') (ho : ∀ caller, x'.owner ≠ .opening caller)
    (hinit : x'.initialized = x.initialized) (hgate : x'.gate = x.gate) : Live x := by
  refine ⟨hinit ▸ h.1, .inl (hgate ▸ h.2.resolve_right ?_)⟩
  rintro ⟨caller, hopening⟩
  exact ho caller hopening

theorem not_live (hgate : x.gate = false) (htied : x.owner.tied = false) : ¬ Live x := by
  rintro ⟨-, hopen | ⟨caller, ho⟩⟩
  · rw [hgate] at hopen
    cases hopen
  · exact absurd ho (Owner.untied htied caller)

theorem owns_linked (hm : Owns src x x') (hf : Fits src x) (h : Live x → Linked x.spsc) :
    Live x' → Linked x'.spsc := by
  intro hlive
  cases hm with
  | aside _ _ _ _ htied => exact h (hlive.before (Owner.untied htied) rfl rfl)
  | prepares _ _ htied => exact absurd hlive (not_live rfl htied)
  | resets => exact linked_reset hf x.spsc.r ⟨rfl, rfl, rfl⟩
  | @starts _ _ _ r _ hspsc =>
    show Linked x.spsc
    have hmarks : SameRing x.spsc.r r := by
      rw [hspsc]
      exact ⟨rfl, rfl, rfl⟩
    rw [hspsc]
    exact linked_reset hf r hmarks
  | creates | aborts | quits | wakes => exact h (hlive.before nofun rfl rfl)
  | opens ho => exact h ⟨hlive.1, .inr ⟨_, ho⟩⟩
  | pulls => exact linked_step (h (hlive.before nofun rfl rfl)) (.pull _)
  | loads => exact linked_step (h hlive) .consumer
  | releases => exact linked_step (h (hlive.before nofun rfl rfl)) .consumer
  | detaches => cases hlive.1
  | _ => exact h hlive

end Reservoir

/-! ## Runs -/

/-- What both claims of a player rest on. -/
structure Sound (src : Source σ) (x : Player σ) : Prop where
  control : Control src x
  fits : Fits src x
  linked : Live x → Linked x.spsc

section Runs

variable {src : Source σ} {x x' : Player σ}

theorem decodes_sound (hd : Decodes src x x') (h : Sound src x) : Sound src x' :=
  ⟨decodes_control hd h.control, decodes_fits hd h.fits, decodes_linked hd h.linked⟩

theorem owns_sound (hm : Owns src x x') (h : Sound src x) : Sound src x' :=
  ⟨owns_control hm h.control, owns_fits hm h.fits, owns_linked hm h.fits h.linked⟩

/-- What every move keeps holds after every run. -/
theorem playerRun_keeps {I : Player σ → Prop}
    (hdecodes : ∀ x x', Sound src x → I x → Decodes src x x' → I x')
    (howns : ∀ x x', Sound src x → I x → Owns src x x' → I x') (env : PipelineEnv)
    (hs : Sound src x) (hi : I x) (actions : List Action) :
    Sound src (playerRun src env x actions) ∧ I (playerRun src env x actions) := by
  have hmoves : ∀ y y', Moves src y y' → Sound src y → I y → Sound src y' ∧ I y' := by
    intro y y' hm hy hi
    induction hm with
    | refl => exact ⟨hy, hi⟩
    | tail _ hstep ih => exact ⟨owns_sound hstep ih.1, howns _ _ ih.1 ih.2 hstep⟩
  induction actions generalizing x with
  | nil => exact ⟨hs, hi⟩
  | cons action actions ih =>
    rcases playerStep_moves env hs.control action with hd | hm
    · exact ih (decodes_sound hd hs) (hdecodes _ _ hs hi hd)
    · obtain ⟨hs', hi'⟩ := hmoves _ _ hm hs hi
      exact ih hs' hi'

end Runs

/-! ## The start -/

/-- What `eaf_reservoir_init` and `eaf_pipeline_configure` have made of a pipeline. -/
structure Suited (pipeline : Pipeline) : Prop where
  ring : PowerOfTwo pipeline.reservoir.capacity
  storage : pipeline.reservoir.capacity.toNat * pipeline.reservoir.format.numChannels ≤
    pipeline.reservoir.storage.length
  channels : 0 < pipeline.reservoir.format.numChannels
  block : 0 < pipeline.blockFrames.toNat
  output : pipeline.reservoir.format.numChannels ≤ pipeline.outputFormat.numChannels

/-- Every pipeline that was configured on an initialized reservoir, whatever was called since. -/
theorem suited_calls {sizeMax : Nat} {storage : List Int32} {capacity : UInt32} {fmt : Format}
    {highWatermark : UInt32} {res : Reservoir}
    (h : reservoirInit sizeMax storage capacity fmt highWatermark = .ok res)
    (hstorage : capacity.toNat * fmt.numChannels ≤ storage.length) (env : PipelineEnv) (mem : Mem)
    {calls : List PipelineCall} (hcalls : ∀ call ∈ calls, KeepsRing res call)
    (hstate : (afterPipelineCalls env (zeroPipeline res mem) calls).state = .configured ∨
      (afterPipelineCalls env (zeroPipeline res mem) calls).state = .stopped) :
    Suited (afterPipelineCalls env (zeroPipeline res mem) calls) := by
  obtain ⟨hring, hchannels, hst, hcap, hformat, -⟩ := reservoirInit_ok h
  have hsized := sized_calls env mem hcalls
  have horderly := orderly_calls env (orderly_zero res mem) calls
  have hready : (afterPipelineCalls env (zeroPipeline res mem) calls).sinkReady = true := by
    apply horderly.chain
    rcases hstate with hs | hs
    · exact .inl hs
    · exact .inr (.inr hs)
  obtain ⟨hblock, houtput⟩ := hsized.ready hready
  refine ⟨?_, ?_, ?_, hblock, ?_⟩
  · rw [hsized.ring.capacity, hcap]
    exact hring
  · rw [hsized.ring.capacity, hsized.ring.format, hsized.ring.storage, hcap, hformat, hst]
    exact hstorage
  · rw [hsized.ring.format, hformat]
    exact hchannels
  · rw [hsized.ring.format]
    exact houtput

/-- `eaf_player_init` on such a pipeline. -/
theorem sound_init {src : Source σ} {position : σ} {pipeline : Pipeline} {volume : Option Nat}
    {volumes : List Nat} {gains : List Int32} {hal : Rc} {x : Player σ} (hs : Suited pipeline)
    (h : playerInit src position pipeline volume volumes gains hal = .ok x) : Sound src x := by
  unfold playerInit at h
  simp only at h
  split at h
  · cases h
  · rename_i hrc
    split at h
    · cases h
    · cases h
      unfold initRc at hrc
      simp only at hrc
      split at hrc
      · exact absurd (by decide) hrc
      · split at hrc
        · exact absurd (by decide) hrc
        · rename_i hstate
          split at hrc
          · exact absurd (by decide) hrc
          · rename_i hmarks
            simp only [not_or, not_not, UInt32.not_le, UInt32.not_lt, ge_iff_le, gt_iff_lt] at hmarks
            obtain ⟨hformat, -, hlow, horder, hhigh, hwater, hblocks⟩ := hmarks
            have hstill : pipeline.state ≠ .running := by
              intro hrunning
              rw [hrunning] at hstate
              exact hstate ⟨nofun, nofun⟩
            refine ⟨⟨trivial, fun hne => absurd rfl hne, fun hne => absurd rfl hne,
              fun hne => absurd rfl hne, fun hr => absurd hr hstill, nofun⟩, ?_, ?_⟩
            · refine ⟨hs.ring, ?_, hformat, ?_, ?_, UInt32.lt_iff_toNat_lt.mp horder,
                UInt32.le_iff_toNat_le.mp hhigh, UInt32.le_iff_toNat_le.mp hwater, hs.block,
                UInt32.le_iff_toNat_le.mp hblocks, ?_, fun _ => rfl⟩
              · rw [← hformat]
                exact hs.storage
              · rw [← hformat]
                exact hs.channels
              · apply Nat.pos_of_ne_zero
                intro hzero
                exact hlow (UInt32.toNat_inj.mp hzero)
              · rw [← hformat]
                exact hs.output
            · rintro ⟨-, hgate | ⟨caller, ho⟩⟩
              · cases hgate
              · cases ho

end EmbeddedAudio.Playback
