-- The decoder and the pulls never wait for each other: a decoder that waits for
-- room has left so much in the reservoir that the next pull takes frames out.
import EmbeddedAudio.PlayerStalls

namespace EmbeddedAudio.Playback

open EmbeddedAudio.Core Storage Cursor

variable {σ : Type}

/-! ## Waiting for room -/

/-- There is enough in the ring for the next pull, and enough is seen by a pull under way. -/
structure Stocked (x : Player σ) : Prop where
  live : Live x
  low : x.spsc.r.backpressureLow.toNat ≤ level x.spsc
  primed : Primed x.spsc
  undrained : x.spsc.r.state ≠ .drained
  seen : ∀ n finished read available loaded,
    x.spsc.consumer = .copying n finished read available loaded →
    x.spsc.r.backpressureLow.toNat ≤ available.toNat ∧
      (x.spsc.r.state = .prebuffering → x.spsc.r.backpressureHigh.toNat ≤ available.toNat)

/-- The waits for room: the reservoir is full enough, or a write has accepted nothing. -/
def Decoder.blocked : Decoder → Bool
  | .holdTake | .writeTake _ _ _ => true
  | _ => false

/-- The decoder waits for room, and nothing is on its way to wake it. -/
structure Waiting (x : Player σ) : Prop where
  blocked : x.decoder.blocked = true
  token : x.wake = false
  pull : ∀ owned, x.owner ≠ .pulling owned
  waking : ∀ owned pulled, x.owner = .waking owned pulled → pulled.wake = false

/-- A pull takes a frame out of the ring at least. -/
def Nourishes (src : Source σ) : Event σ → Prop
  | .pull frames _ => src.format.numChannels ≤ frames.length
  | _ => True

/-! ## The next pull -/

section Next

variable {src : Source σ} {x x' : Player σ}

theorem waiting_stocked (hs : Sound src x) (hst : Streams src x) (h : Stalls x) (hw : Waiting x) :
    Stocked x := by
  have hdecoder := h.decoder
  have hstreams := hst.decoder
  unfold decoderStalls at hdecoder
  unfold decoderStreams at hstreams
  have hwait : Live x ∧ Primed x.spsc ∧ Awake x ∧ x.spsc.r.finished = false := by
    have hblocked := hw.blocked
    cases hd : x.decoder with
    | holdTake =>
      rw [hd] at hdecoder hstreams
      exact ⟨decoder_live hs (by rw [hd]; rfl), hdecoder.1, hdecoder.2, hstreams.2⟩
    | writeTake =>
      rw [hd] at hdecoder hstreams
      exact ⟨decoder_live hs (by rw [hd]; rfl), hdecoder.1, hdecoder.2, hstreams.2.1⟩
    | _ =>
      rw [hd] at hblocked
      cases hblocked
  obtain ⟨hlive, hprimed, hawake, hopen⟩ := hwait
  refine ⟨hlive, ?_, hprimed, ?_, ?_⟩
  · rcases hawake with htoken | ⟨owned, pulled, ho, hwake⟩ | hlow
    · rw [hw.token] at htoken
      cases htoken
    · rw [hw.waking owned pulled ho] at hwake
      cases hwake
    · exact hlow
  · intro hdrained
    have hfin := h.drained hlive hdrained
    rw [hopen] at hfin
    cases hfin
  · intro n finished read available loaded hc
    obtain ⟨owned, ho⟩ := hs.control.consumer (by rw [hc]; nofun)
    exact absurd ho (hw.pull owned)

/-- The decoder adds to what is there. -/
theorem decodes_stocked (hd : Decodes src x x') (hs : Sound src x) (h : Stocked x) : Stocked x' := by
  have hlinked := hs.linked h.live
  have hstate := decodes_state hd
  have hconsumer := (decodes_frame hd).2
  have hmarks := decodes_marks hd
  have hlevel : level x.spsc ≤ level x'.spsc := by
    cases hd with
    | finishes | writes =>
      simp only [spscStep]
      split
      · exact Nat.le_refl _
      · exact Nat.le_refl _
    | copies | wrote => exact level_producerStep hlinked
    | _ => exact Nat.le_refl _
  refine ⟨(decodes_live hd).mpr h.live, ?_, ?_, ?_, ?_⟩
  · rw [hmarks.low]
    exact Nat.le_trans h.low hlevel
  · intro hp
    rw [hmarks.high]
    exact Nat.le_trans (h.primed (hstate ▸ hp)) hlevel
  · rw [hstate]
    exact h.undrained
  · intro n finished read available loaded hc
    rw [hconsumer] at hc
    rw [hmarks.low, hmarks.high, hstate]
    exact h.seen n finished read available loaded hc

/-- A pull sees what is there. -/
theorem loads_stocked (hs : Sound src x) (h : Stocked x)
    (hbusy : (consumerStep x.spsc).consumer ≠ .idle) :
    Stocked { x with spsc := consumerStep x.spsc } := by
  obtain ⟨w, r, hf⟩ := (hs.linked h.live).queue
  have hholds := hf.consumer
  unfold consumerHolds at hholds
  have hseen := h.seen
  have hstep := consumerStep_loads hbusy
  refine ⟨h.live, by rw [hstep]; exact h.low, by rw [hstep]; exact h.primed,
    by rw [hstep]; exact h.undrained, ?_⟩
  intro n finished read available loaded hc'
  have hr : (consumerStep x.spsc).r = x.spsc.r := by rw [hstep]
  show (consumerStep x.spsc).r.backpressureLow.toNat ≤ _ ∧ _
  rw [hr]
  have hc' : (consumerStep x.spsc).consumer = .copying n finished read available loaded := hc'
  rcases hc : x.spsc.consumer with _ | m | ⟨m, fin⟩ | ⟨m, fin, start⟩ | ⟨m, fin, start, found, before⟩
  all_goals rw [hc] at hholds
  · rw [consumerStep_idle hc, hc] at hc'
    cases hc'
  · rw [consumerStep_called hc] at hc'
    cases hc'
  · rw [consumerStep_sawFinished hc] at hc'
    cases hc'
  · rw [consumerStep_sawRead hc] at hc'
    injection hc' with _ _ _ havailable _
    rw [← havailable, hholds]
    exact ⟨h.low, h.primed⟩
  · by_cases hmore : before.length < (pullTake x.spsc.r fin found m).toNat * channelsOf x.spsc
    · rw [consumerStep_load hc hmore] at hc'
      injection hc' with _ _ _ havailable _
      rw [← havailable]
      exact hseen _ _ _ _ _ hc
    · rw [consumerStep_release hc hmore] at hc'
      cases hc'

/-- A pull of a stocked ring takes a frame out of it. -/
theorem releases_nourishes (hs : Sound src x) (hst : Stalls x) (h : Stocked x) {owned : Buffer}
    (ho : x.owner = .pulling owned) (hidle : (consumerStep x.spsc).consumer = .idle)
    {done : PullDone} (hlast : (consumerStep x.spsc).pulls.getLast? = some done) :
    src.format.numChannels ≤
      ((consumerStep x.spsc).delivered.drop x.spsc.delivered.length).length := by
  obtain ⟨n, finished, read, available, loaded, hc, hr⟩ := pulling_released hs ho hidle hlast
  obtain ⟨hlow, hready⟩ := h.seen _ _ _ _ _ hc
  have hasks := hst.asks
  rw [hc] at hasks
  obtain rfl : n = x.pipeline.blockFrames := hasks
  have hfits := hs.fits
  have hpos : 0 < (pullTake x.spsc.r finished available x.pipeline.blockFrames).toNat := by
    apply pullTake_pos _ _ _ _ hfits.block (Nat.lt_of_lt_of_le hfits.low hlow) h.undrained
    intro hp
    have hhigh := hready hp
    exact ⟨UInt32.le_iff_toNat_le.mpr (Nat.le_trans hfits.watermark hhigh),
      UInt32.le_iff_toNat_le.mpr (Nat.le_trans hfits.blocks hhigh)⟩
  have hchannels : channelsOf x.spsc = src.format.numChannels := by
    unfold channelsOf
    rw [hfits.format]
  rw [hr.delivered, hr.length, hchannels]
  exact Nat.le_mul_of_pos_left _ hpos

/-- The sink's buffer is good enough for the pull. -/
theorem fits_pullValid (h : Fits src x) {owned : Buffer}
    (hfits : acquiredFits x.pipeline owned = true) :
    pullValid x.spsc.r { owned with frameCount := x.pipeline.blockFrames } = true := by
  unfold acquiredFits at hfits
  simp only [Bool.and_eq_true, decide_eq_true_eq] at hfits
  obtain ⟨⟨hsamples, hframes⟩, hcapacity⟩ := hfits
  have hblock : x.pipeline.blockFrames ≠ 0 := by
    intro hzero
    have := h.block
    rw [hzero] at this
    cases this
  have hle : x.pipeline.blockFrames.toNat ≤ x.spsc.r.capacity.toNat := Nat.le_trans h.blocks h.high
  have hdiv : owned.capacitySamples / x.pipeline.outputFormat.numChannels ≤
      owned.capacitySamples / src.format.numChannels := Nat.div_le_div_left h.output h.channels
  unfold pullValid
  simp only [Bool.and_eq_true, decide_eq_true_eq, bne_iff_ne]
  refine ⟨⟨⟨⟨hsamples, hblock⟩, hframes⟩, UInt32.le_iff_toNat_le.mpr hle⟩, ?_⟩
  rw [h.format]
  exact Nat.le_trans hcapacity hdiv

/-! ## Until something is written down -/

/-- The first thing written down after `events` is no pull that takes nothing. -/
def Fed (src : Source σ) (events : List (Event σ)) (x : Player σ) : Prop :=
  (x.events = events ∧ (Live x → Stocked x)) ∨
    ∃ event rest, x.events = events ++ event :: rest ∧ Nourishes src event

theorem Fed.keep {events : List (Event σ)} (h : Fed src events x) (hevents : x'.events = x.events)
    (hlive : Live x' → Live x) (hstocked : Live x' → Stocked x → Stocked x') :
    Fed src events x' := by
  rcases h with ⟨hsame, hx⟩ | ⟨event, rest, hmore, hn⟩
  · exact .inl ⟨hevents.trans hsame, fun hl => hstocked hl (hx (hlive hl))⟩
  · exact .inr ⟨event, rest, hevents.trans hmore, hn⟩

theorem Fed.add {events : List (Event σ)} (h : Fed src events x) {event : Event σ}
    (hevents : x'.events = x.events ++ [event])
    (hn : (Live x → Stocked x) → Nourishes src event) : Fed src events x' := by
  rcases h with ⟨hsame, hx⟩ | ⟨first, rest, hmore, hfirst⟩
  · exact .inr ⟨event, [], by rw [hevents, hsame], hn hx⟩
  · exact .inr ⟨first, rest ++ [event], by rw [hevents, hmore]; simp, hfirst⟩

/-- A move that leaves the reservoir alone. -/
theorem Stocked.same (h : Stocked x) (hlive : Live x') (hspsc : x'.spsc = x.spsc) : Stocked x' := by
  refine ⟨hlive, ?_, ?_, ?_, ?_⟩
  · rw [hspsc]
    exact h.low
  · rw [hspsc]
    exact h.primed
  · rw [hspsc]
    exact h.undrained
  · rw [hspsc]
    exact h.seen

theorem decodes_fed {events : List (Event σ)} (hd : Decodes src x x') (hs : Sound src x)
    (h : Fed src events x) : Fed src events x' := by
  have hframe := (decodes_frame hd).1
  exact h.keep (by rw [hframe]) (decodes_live hd).mp (fun _ => decodes_stocked hd hs)

theorem owns_fed {events : List (Event σ)} (hm : Owns src x x') (hs : Sound src x) (hst : Stalls x)
    (h : Fed src events x) : Fed src events x' := by
  cases hm with
  | aside _ _ _ _ htied =>
    exact h.keep rfl (fun hl => hl.before (Owner.untied htied) rfl rfl) (fun hl hx => hx.same hl rfl)
  | queues | gives | joins | seeks => exact h.keep rfl id (fun hl hx => hx.same hl rfl)
  | prepares _ _ htied =>
    exact h.keep rfl (fun hl => absurd hl (not_live rfl htied)) (fun hl hx => hx.same hl rfl)
  | creates | aborts | quits | wakes =>
    exact h.keep rfl (fun hl => hl.before nofun rfl rfl) (fun hl hx => hx.same hl rfl)
  | resets => exact h.add rfl (fun _ => trivial)
  | starts => exact h.add rfl (fun _ => trivial)
  | opens ho => exact h.keep rfl (fun hl => ⟨hl.1, .inr ⟨_, ho⟩⟩) (fun hl hx => hx.same hl rfl)
  | pulls ho _ hvalid =>
    rw [pull_called (hs.control.unpulled (by rw [ho]; rfl)) hvalid]
    refine h.keep rfl (fun hl => hl.before nofun rfl rfl) ?_
    intro hl hx
    exact ⟨hl, hx.low, hx.primed, hx.undrained, nofun⟩
  | refuses _ hfits hinvalid =>
    rw [fits_pullValid hs.fits hfits] at hinvalid
    cases hinvalid
  | loads _ hbusy => exact h.keep rfl id (fun _ hx => loads_stocked hs hx hbusy)
  | releases ho hidle hlast =>
    apply h.add rfl
    intro hx
    exact releases_nourishes hs hst (hx (pulling_live hs ho).2) ho hidle hlast
  | detaches => exact h.keep rfl (fun hl => Bool.noConfusion hl.1) (fun hl => Bool.noConfusion hl.1)

end Next

/-! ## Every pull returns -/

section Returns

variable {src : Source σ} {x : Player σ}

theorem pullTake_le_asked (r : Reservoir) (finished : Bool) (available n : UInt32) :
    (pullTake r finished available n).toNat ≤ n.toNat := by
  unfold pullTake
  split
  · split
    · rename_i hless
      exact Nat.le_of_lt (UInt32.lt_iff_toNat_lt.mp hless)
    · exact Nat.le_refl _
  · exact Nat.zero_le _

/-- The steps that are left of a pull, at most. -/
def pullSteps (s : Spsc) : Nat :=
  match s.consumer with
  | .idle => 0
  | .called n => n.toNat * channelsOf s + 4
  | .sawFinished n _ => n.toNat * channelsOf s + 3
  | .sawRead n _ _ => n.toNat * channelsOf s + 2
  | .copying n _ _ _ loaded => n.toNat * channelsOf s - loaded.length + 1

theorem pullSteps_step {s : Spsc} (hbusy : (consumerStep s).consumer ≠ .idle) :
    pullSteps (consumerStep s) < pullSteps s := by
  rcases hc : s.consumer with _ | n | ⟨n, fin⟩ | ⟨n, fin, read⟩ | ⟨n, fin, read, available, loaded⟩
  · rw [consumerStep_idle hc] at hbusy
    exact absurd hc hbusy
  · rw [consumerStep_called hc]
    unfold pullSteps
    rw [hc]
    exact Nat.lt_succ_self _
  · rw [consumerStep_sawFinished hc]
    unfold pullSteps
    rw [hc]
    exact Nat.lt_succ_self _
  · rw [consumerStep_sawRead hc]
    unfold pullSteps
    rw [hc]
    exact Nat.lt_succ_self _
  · by_cases hmore : loaded.length < (pullTake s.r fin available n).toNat * channelsOf s
    · have hle : (pullTake s.r fin available n).toNat * channelsOf s ≤ n.toNat * channelsOf s :=
        Nat.mul_le_mul_right _ (pullTake_le_asked s.r fin available n)
      rw [consumerStep_load hc hmore]
      unfold pullSteps
      rw [hc]
      show n.toNat * channelsOf s - (loaded ++ [_]).length + 1 <
        n.toNat * channelsOf s - loaded.length + 1
      rw [List.length_append, List.length_singleton]
      omega
    · rw [consumerStep_release hc hmore] at hbusy
      exact absurd rfl hbusy

/-- The owner needs nobody to come to the end of its pull. -/
theorem pull_returns (env : PipelineEnv) {owned : Buffer} (ho : x.owner = .pulling owned)
    (hbusy : x.spsc.consumer ≠ .idle) : ∃ (k : Nat) (pulled : Pulled) (frames : List Int32),
      (playerRun src env x (List.replicate k (.owner EAF_OK))).events =
        x.events ++ [.pull frames pulled.flags] ∧
      (playerRun src env x (List.replicate k (.owner EAF_OK))).owner = .waking owned pulled ∧
      (playerRun src env x (List.replicate k (.owner EAF_OK))).decoder = x.decoder ∧
      (playerRun src env x (List.replicate k (.owner EAF_OK))).wake = x.wake := by
  induction hn : pullSteps x.spsc using Nat.strong_induction_on generalizing x with
  | h n ih =>
    have hstep : playerStep src env x (.owner EAF_OK) = pullStep owned x := by
      simp only [playerStep, ownerStep, ho]
    by_cases hidle : (consumerStep x.spsc).consumer = .idle
    · obtain ⟨done, hlast⟩ := consumerStep_logs hbusy hidle
      refine ⟨1, done.pulled, (consumerStep x.spsc).delivered.drop x.spsc.delivered.length, ?_⟩
      show (playerStep src env x (.owner EAF_OK)).events = _ ∧
        (playerStep src env x (.owner EAF_OK)).owner = _ ∧
        (playerStep src env x (.owner EAF_OK)).decoder = _ ∧
        (playerStep src env x (.owner EAF_OK)).wake = _
      rw [hstep, pullStep_releases hidle hlast]
      exact ⟨rfl, rfl, rfl, rfl⟩
    · obtain ⟨k, pulled, frames, hrest⟩ := ih (pullSteps (consumerStep x.spsc))
        (hn ▸ pullSteps_step hidle) (x := { x with spsc := consumerStep x.spsc }) ho hidle rfl
      refine ⟨k + 1, pulled, frames, ?_⟩
      have hrun : playerRun src env x (List.replicate (k + 1) (.owner EAF_OK)) =
          playerRun src env { x with spsc := consumerStep x.spsc }
            (List.replicate k (.owner EAF_OK)) := by
        rw [List.replicate_succ]
        unfold playerRun
        rw [List.foldl_cons, hstep, pullStep_loads hidle]
      rw [hrun]
      exact hrest

end Returns

/-! ## Runs -/

/-- A wait for room and the pulls never hold each other up. -/
structure Prefills (src : Source σ) (env : PipelineEnv) (x : Player σ) : Prop where
  ready : Waiting x → x.spsc.r.state = .prebuffering →
    x.spsc.r.highWatermark.toNat ≤ level x.spsc ∧ x.pipeline.blockFrames.toNat ≤ level x.spsc
  next : Waiting x → ∀ actions event rest,
    (playerRun src env x actions).events = x.events ++ event :: rest → Nourishes src event
  pull : ∀ owned, x.owner = .pulling owned → ∃ (k : Nat) (pulled : Pulled) (frames : List Int32),
    (playerRun src env x (List.replicate k (.owner EAF_OK))).events =
      x.events ++ [.pull frames pulled.flags] ∧
    (x.decoder.blocked = true → x.wake = false →
      pulled.wake = true ∨ Waiting (playerRun src env x (List.replicate k (.owner EAF_OK))))

section Runs

variable {src : Source σ} {x : Player σ}

theorem stalls_init {position : σ} {pipeline : Pipeline} {volume : Option Nat} {volumes : List Nat}
    {gains : List Int32} {hal : Rc} (hs : Sound src x)
    (h : playerInit src position pipeline volume volumes gains hal = .ok x) : Stalls x := by
  obtain ⟨-, -, -, -, -, hdecoder, howner, hgate⟩ := init_spec h
  have htied : x.owner.tied = false := by rw [howner]; rfl
  refine ⟨stalls_quiescent (.inl hdecoder), fun hlive => absurd hlive (not_live hgate htied), ?_⟩
  rw [hs.control.unpulled htied]
  trivial

/-- Every run of a player keeps what its waits rest on. -/
theorem playerRun_stalls (env : PipelineEnv) (hs : Sound src x) (hst : Streams src x)
    (h : Stalls x) (actions : List Action) :
    Sound src (playerRun src env x actions) ∧ Streams src (playerRun src env x actions) ∧
      Stalls (playerRun src env x actions) :=
  playerRun_keeps (I := fun y => Streams src y ∧ Stalls y)
    (fun _ _ hs hi hd => ⟨decodes_keeps hd hs hi.1, decodes_keepStalls hd hs hi.1 hi.2⟩)
    (fun _ _ hs hi hm => ⟨owns_keeps hm hs hi.1, owns_keepStalls hm hs hi.1 hi.2⟩) env hs ⟨hst, h⟩
    actions

/-- What is written down first after a wait for room. -/
theorem waiting_next (env : PipelineEnv) (hs : Sound src x) (hst : Streams src x) (h : Stalls x)
    (hw : Waiting x) (actions : List Action) {event : Event σ} {rest : List (Event σ)}
    (hevents : (playerRun src env x actions).events = x.events ++ event :: rest) :
    Nourishes src event := by
  have hfed : Fed src x.events x := .inl ⟨rfl, fun _ => waiting_stocked hs hst h hw⟩
  obtain ⟨-, -, -, hrun⟩ := playerRun_keeps
    (I := fun y => Streams src y ∧ Stalls y ∧ Fed src x.events y)
    (fun _ _ hs hi hd => ⟨decodes_keeps hd hs hi.1, decodes_keepStalls hd hs hi.1 hi.2.1,
      decodes_fed hd hs hi.2.2⟩)
    (fun _ _ hs hi hm => ⟨owns_keeps hm hs hi.1, owns_keepStalls hm hs hi.1 hi.2.1,
      owns_fed hm hs hi.2.1 hi.2.2⟩) env hs ⟨hst, h, hfed⟩ actions
  rcases hrun with ⟨hnothing, -⟩ | ⟨first, more, hfirst, hn⟩
  · rw [hnothing] at hevents
    exact absurd hevents (by simp)
  · rw [hfirst] at hevents
    injection List.append_cancel_left hevents with hsame _
    exact hsame ▸ hn

theorem prefills_stalls (env : PipelineEnv) (hs : Sound src x) (hst : Streams src x)
    (h : Stalls x) : Prefills src env x := by
  refine ⟨?_, fun hw actions event rest => waiting_next env hs hst h hw actions, ?_⟩
  · intro hw hprebuffering
    have hhigh := (waiting_stocked hs hst h hw).primed hprebuffering
    exact ⟨Nat.le_trans hs.fits.watermark hhigh, Nat.le_trans hs.fits.blocks hhigh⟩
  · intro owned ho
    obtain ⟨-, hbusy⟩ := hs.control.stands ho
    obtain ⟨k, pulled, frames, hevents, howner, hdecoder, hwake⟩ := pull_returns env ho hbusy
    refine ⟨k, pulled, frames, hevents, ?_⟩
    intro hblocked htoken
    by_cases hgiven : pulled.wake = true
    · exact .inl hgiven
    · refine .inr ⟨by rw [hdecoder]; exact hblocked, by rw [hwake]; exact htoken, ?_, ?_⟩
      · intro owned' ho'
        rw [howner] at ho'
        cases ho'
      · intro owned' pulled' ho'
        rw [howner] at ho'
        injection ho' with _ hpulled
        exact hpulled ▸ Bool.eq_false_of_not_eq_true hgiven

/-- For every source, pipeline and reservoir, in every interleaving, whatever fails. -/
theorem player_prefills {sizeMax : Nat} {storage : List Int32} {capacity : UInt32} {fmt : Format}
    {highWatermark : UInt32} {res : Reservoir}
    (h : reservoirInit sizeMax storage capacity fmt highWatermark = .ok res)
    (hstorage : capacity.toNat * fmt.numChannels ≤ storage.length) (env : PipelineEnv) (mem : Mem)
    {calls : List PipelineCall} (hcalls : ∀ call ∈ calls, KeepsRing res call) {position : σ}
    {volume : Option Nat} {volumes : List Nat} {gains : List Int32} {hal : Rc}
    (hplayer : playerInit src position (afterPipelineCalls env (zeroPipeline res mem) calls) volume
      volumes gains hal = .ok x) (actions : List Action) :
    Prefills src env (playerRun src env x actions) := by
  have hs := sound_init (suited_calls h hstorage env mem hcalls (init_spec hplayer).1) hplayer
  obtain ⟨hs', hst, hstalls⟩ := playerRun_stalls env hs (streams_init hplayer)
    (stalls_init hs hplayer) actions
  exact prefills_stalls env hs' hst hstalls

end Runs

/-! ## A write that finds no room -/

/-- Starts the player, and lets the decoder fill the ring. -/
def fillActions : List Action :=
  [.call .start] ++ List.replicate 4 (.owner EAF_OK) ++ List.replicate 40 .decoder

/-- The decoder waits for room while the consumer still prebuffers, and the next pull takes a
frame. -/
theorem player_prefills_full :
    Prefills sixFrames (returning EAF_OK)
        (playerRun sixFrames (returning EAF_OK) sixPlayer fillActions) ∧
      Waiting (playerRun sixFrames (returning EAF_OK) sixPlayer fillActions) ∧
      (playerRun sixFrames (returning EAF_OK) sixPlayer fillActions).spsc.r.state = .prebuffering ∧
      (playerRun sixFrames (returning EAF_OK) sixPlayer
        (fillActions ++ [.call .step] ++ List.replicate 9 (.owner EAF_OK))).pulled = [0] := by
  have hcalls : ∀ call ∈ monoCalls, KeepsRing fourFrames call := by simp [monoCalls, KeepsRing]
  have hplayer : playerInit sixFrames 0 (afterPipelineCalls (returning EAF_OK)
    (zeroPipeline fourFrames fun _ => [0]) monoCalls) none [] [] EAF_OK = .ok sixPlayer := rfl
  have howner : (playerRun sixFrames (returning EAF_OK) sixPlayer fillActions).owner = .idle := by
    decide +kernel
  refine ⟨?_, ⟨by decide +kernel, by decide +kernel, ?_, ?_⟩, by decide +kernel, by decide +kernel⟩
  · exact player_prefills fourFrames_init (by decide) (returning EAF_OK) (fun _ => [0]) hcalls
      hplayer fillActions
  · intro owned ho
    rw [howner] at ho
    cases ho
  · intro owned pulled ho
    rw [howner] at ho
    cases ho

end EmbeddedAudio.Playback
