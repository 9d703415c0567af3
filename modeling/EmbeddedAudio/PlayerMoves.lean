-- What the two sides of the player can do at one time: the moves of the decoder
-- and those of the owner, with what each of them relies on.
import EmbeddedAudio.PipelineSizes
import EmbeddedAudio.Player
import Mathlib.Logic.Relation

namespace EmbeddedAudio.Playback

open EmbeddedAudio.Core Storage

variable {σ : Type}

/-! ## The decoder -/

/-- The waits for the token, and where each goes on. -/
inductive Awaits : Decoder → Decoder → Prop where
  | gate : Awaits .gateTake .gateLoad
  | ended : Awaits .endedTake (.loop true)
  | hold : Awaits .holdTake .hold
  | write (frames : UInt32) (samples : List Int32) (offset : UInt32) :
      Awaits (.writeTake frames samples offset) (.writeTest frames samples offset)

/-- The decoder goes on and changes nothing else. -/
inductive Goes (x : Player σ) : Decoder → Prop where
  | pass : x.decoder = .gateLoad → x.gate = true → Goes x (.loop false)
  | shut : x.decoder = .gateLoad → x.gate = false → Goes x .gateQuit
  | quitAtGate : x.decoder = .gateQuit → x.quit = true → Goes x (.loop false)
  | waitAtGate : x.decoder = .gateQuit → x.quit = false → Goes x .gateTake
  | leave {ended : Bool} : x.decoder = .loop ended → x.quit = true → Goes x .exited
  | linger : x.decoder = .loop true → x.quit = false → Goes x .endedTake
  | next : x.decoder = .loop false → x.quit = false → Goes x .pressure
  | full : x.decoder = .pressure → reservoirBackpressure x.spsc.r = true → Goes x .hold
  | spare : x.decoder = .pressure → reservoirBackpressure x.spsc.r = false → Goes x .checkQuit
  | above : x.decoder = .hold → x.spsc.r.backpressureLow ≤ reservoirLevel x.spsc.r →
      Goes x .holdQuit
  | below : x.decoder = .hold → ¬ x.spsc.r.backpressureLow ≤ reservoirLevel x.spsc.r →
      Goes x .checkQuit
  | quitHeld : x.decoder = .holdQuit → x.quit = true → Goes x .checkQuit
  | waitHeld : x.decoder = .holdQuit → x.quit = false → Goes x .holdTake
  | exit : x.decoder = .checkQuit → x.quit = true → Goes x .exited
  | read : x.decoder = .checkQuit → x.quit = false → Goes x .reading
  | written {frames : UInt32} {samples : List Int32} {offset : UInt32} :
      x.decoder = .writeTest frames samples offset →
      (x.quit = false → ¬ offset < frames) → Goes x (.loop false)
  | timeout {d : Decoder} : Awaits x.decoder d → Goes x d

/-- A move of the decoder. -/
inductive Decodes (src : Source σ) (x : Player σ) : Player σ → Prop where
  | stays : Decodes src x x
  | goes {d : Decoder} : Goes x d → Decodes src x { x with decoder := d }
  | takes {d : Decoder} : Awaits x.decoder d → x.wake = true →
      Decodes src x { x with wake := false, decoder := d }
  | fails {a : ReadAnswer} {position : σ} (error : Rc) : x.decoder = .reading →
      src.read x.position = (a, position) → readFails a = true →
      Decodes src x { x with position := position, sourceError := error, decoder := .failing }
  | ends {a : ReadAnswer} {position : σ} : x.decoder = .reading →
      src.read x.position = (a, position) → readFails a = false → a.frames = 0 →
      Decodes src x { x with position := position, decoder := .finishing }
  | gets {a : ReadAnswer} {position : σ} : x.decoder = .reading →
      src.read x.position = (a, position) → readFails a = false → a.frames ≠ 0 →
      Decodes src x { x with
        position := position
        decoder := .writeTest a.frames (a.samples (channelsOf x.spsc)) 0 }
  | failed : x.decoder = .failing → Decodes src x { x with failed := true, decoder := .loop true }
  | finishes : x.decoder = .finishing →
      Decodes src x { x with spsc := spscStep x.spsc .finish, decoder := .loop true }
  | writes {frames : UInt32} {samples : List Int32} {offset : UInt32} :
      x.decoder = .writeTest frames samples offset → offset < frames → x.quit = false →
      Decodes src x { x with
        spsc := spscStep x.spsc
          (.write (samples.drop (offset.toNat * channelsOf x.spsc)) (frames - offset))
        decoder := .writing frames samples offset }
  | copies {frames : UInt32} {samples : List Int32} {offset : UInt32} :
      x.decoder = .writing frames samples offset → (producerStep x.spsc).producer ≠ .idle →
      Decodes src x { x with spsc := producerStep x.spsc }
  | wrote {frames : UInt32} {samples : List Int32} {offset : UInt32} :
      x.decoder = .writing frames samples offset → (producerStep x.spsc).producer = .idle →
      Decodes src x { x with
        spsc := producerStep x.spsc
        decoder := if writeReturns x.spsc = 0 then .writeTake frames samples offset
          else .writeTest frames samples (offset + writeReturns x.spsc) }

section Decoder

variable (src : Source σ) (x : Player σ)

theorem awaits_taken (d : Decoder) : Awaits d d.taken ∨ d.taken = d := by
  cases d with
  | gateTake => exact .inl .gate
  | endedTake => exact .inl .ended
  | holdTake => exact .inl .hold
  | writeTake frames samples offset => exact .inl (.write _ _ _)
  | _ => exact .inr rfl

/-- A wait for the token. -/
theorem decodes_take {d : Decoder} (hd : x.decoder = d) (h : Awaits d d.taken) :
    Decodes src x (if x.wake then { x with wake := false, decoder := d.taken } else x) := by
  subst hd
  by_cases hwake : x.wake = true
  · rw [if_pos hwake]
    exact .takes h hwake
  · rw [if_neg hwake]
    exact .stays

theorem decoderStep_decodes : Decodes src x (decoderStep src x) := by
  unfold decoderStep
  split
  case h_1 => exact .stays
  case h_2 => exact .stays
  case h_3 hd =>
    by_cases hgate : x.gate = true
    · rw [if_pos hgate]
      exact .goes (.pass hd hgate)
    · rw [if_neg hgate]
      exact .goes (.shut hd (Bool.eq_false_of_not_eq_true hgate))
  case h_4 hd =>
    by_cases hquit : x.quit = true
    · rw [if_pos hquit]
      exact .goes (.quitAtGate hd hquit)
    · rw [if_neg hquit]
      exact .goes (.waitAtGate hd (Bool.eq_false_of_not_eq_true hquit))
  case h_5 ended hd =>
    by_cases hquit : x.quit = true
    · rw [if_pos hquit]
      exact .goes (.leave hd hquit)
    · rw [if_neg hquit]
      cases ended
      · exact .goes (.next hd (Bool.eq_false_of_not_eq_true hquit))
      · exact .goes (.linger hd (Bool.eq_false_of_not_eq_true hquit))
  case h_6 hd =>
    by_cases hfull : reservoirBackpressure x.spsc.r = true
    · rw [if_pos hfull]
      exact .goes (.full hd hfull)
    · rw [if_neg hfull]
      exact .goes (.spare hd (Bool.eq_false_of_not_eq_true hfull))
  case h_7 hd =>
    by_cases hlow : reservoirLevel x.spsc.r ≥ x.spsc.r.backpressureLow
    · rw [if_pos hlow]
      exact .goes (.above hd hlow)
    · rw [if_neg hlow]
      exact .goes (.below hd hlow)
  case h_8 hd =>
    by_cases hquit : x.quit = true
    · rw [if_pos hquit]
      exact .goes (.quitHeld hd hquit)
    · rw [if_neg hquit]
      exact .goes (.waitHeld hd (Bool.eq_false_of_not_eq_true hquit))
  case h_9 hd =>
    by_cases hquit : x.quit = true
    · rw [if_pos hquit]
      exact .goes (.exit hd hquit)
    · rw [if_neg hquit]
      exact .goes (.read hd (Bool.eq_false_of_not_eq_true hquit))
  case h_10 hd =>
    obtain ⟨a, position, hread⟩ : ∃ a position, src.read x.position = (a, position) :=
      ⟨_, _, rfl⟩
    rw [hread]
    simp only
    by_cases hfails : readFails a = true
    · rw [if_pos hfails]
      exact .fails _ hd hread hfails
    · rw [if_neg hfails]
      have hok := Bool.eq_false_of_not_eq_true hfails
      by_cases hnone : a.frames = 0
      · rw [if_pos hnone]
        exact .ends hd hread hok hnone
      · rw [if_neg hnone]
        exact .gets hd hread hok hnone
  case h_11 hd => exact .failed hd
  case h_12 hd => exact .finishes hd
  case h_13 frames samples offset hd =>
    by_cases hmore : offset < frames ∧ x.quit = false
    · rw [if_pos hmore]
      exact .writes hd hmore.1 hmore.2
    · rw [if_neg hmore]
      refine .goes (.written hd ?_)
      intro hquit hlt
      exact hmore ⟨hlt, hquit⟩
  case h_14 frames samples offset hd =>
    simp only
    by_cases hidle : (producerStep x.spsc).producer = .idle
    · rw [if_neg (not_not.mpr hidle)]
      exact .wrote hd hidle
    · rw [if_pos hidle]
      exact .copies hd hidle
  case h_15 =>
    rcases hd : x.decoder with _ | _ | _ | _ | _ | _ | _ | _ | _ | _ | _ | _ | _ | _ | _ | _ | _ | _
    case gateTake => exact decodes_take src x hd .gate
    case endedTake => exact decodes_take src x hd .ended
    case holdTake => exact decodes_take src x hd .hold
    case writeTake => exact decodes_take src x hd (.write _ _ _)
    all_goals
      exfalso
      simp_all

theorem decoderTimeout_decodes : Decodes src x (decoderTimeout x) := by
  unfold decoderTimeout
  rcases awaits_taken x.decoder with h | h
  · exact .goes (.timeout h)
  · rw [h]
    exact .stays

end Decoder

/-! ## Where the owner may be -/

/-- The decoder is behind the gate. -/
def Decoder.parked : Decoder → Bool
  | .gateLoad | .gateQuit | .gateTake => true
  | _ => false

/-- No decoder can come to the reservoir. -/
def Quiescent (decoder : Decoder) (gate : Bool) : Prop :=
  decoder = .none ∨ decoder.parked = true ∧ gate = false

/-- The source stands where a seek for `sought` has put it. -/
def Sought (src : Source σ) (position : σ) (sought : Option UInt64) : Prop :=
  ∀ frame, sought = some frame → ∃ before, src.seek before frame = (EAF_OK, position)

def ownerHolds (src : Source σ) (x : Player σ) : Prop :=
  match x.owner with
  | .creating sought _ =>
    x.decoder = .none ∧ x.gate = false ∧ x.quit = false ∧
      (x.pipeline.state = .configured ∨ x.pipeline.state = .stopped) ∧
      Sought src x.position sought
  | .launching sought _ =>
    x.decoder.parked = true ∧ x.gate = false ∧ x.quit = false ∧
      (x.pipeline.state = .configured ∨ x.pipeline.state = .stopped) ∧
      Sought src x.position sought
  | .opening _ => x.decoder.parked = true ∧ x.gate = false ∧ x.quit = false
  | .quitting _ rc => rc = EAF_OK → x.pipeline.state ≠ .running
  | .quitGive _ rc => rc = EAF_OK → x.pipeline.state ≠ .running
  | .joining _ => x.pipeline.state ≠ .running
  | .seeking _ _ _ => x.decoder = .none ∧ x.pipeline.state ≠ .running
  | .resetting frame _ _ =>
    x.decoder = .none ∧ x.pipeline.state ≠ .running ∧ Sought src x.position (some frame)
  | .pulling _ => x.pipeline.state = .running ∧ x.spsc.consumer ≠ .idle
  | .waking _ pulled =>
    x.pipeline.state = .running ∧ (pulled.flags &&& EAF_FRAME_EOS ≠ 0 → x.ended = true)
  | _ => True

/-- More than the owner itself relies on where it is. -/
def Owner.tied : Owner → Bool
  | .opening _ => true
  | .pulling _ => true
  | .waking _ _ => true
  | _ => false

/-- Who is where, in every state. -/
structure Control (src : Source σ) (x : Player σ) : Prop where
  owner : ownerHolds src x
  gate : x.decoder ≠ .none → x.decoder ≠ .exited → x.decoder.parked = false →
    x.gate = true ∨ x.quit = true ∧ ∃ ended, x.decoder = .loop ended
  producer : x.spsc.producer ≠ .idle → ∃ frames samples offset,
    x.decoder = .writing frames samples offset
  consumer : x.spsc.consumer ≠ .idle → ∃ owned, x.owner = .pulling owned
  running : x.pipeline.state = .running → x.gate = true ∨ ∃ caller, x.owner = .opening caller
  initialized : x.initialized = false →
    x.decoder = .none ∧ x.owner = .idle ∧ x.pipeline.state ≠ .running

/-! ## The owner -/

/-- What no call of the player changes of its pipeline. -/
def SameSizes (p p' : Pipeline) : Prop :=
  p'.blockFrames = p.blockFrames ∧ p'.outputFormat = p.outputFormat

/-- A move of the owner. A step of the owner is some of them, one after the other. -/
inductive Owns (src : Source σ) (x : Player σ) : Player σ → Prop where
  | aside {p : Pipeline} {owner : Owner} (results : List Rc) (commands : List Command)
      (gains : List Int32) : x.owner.tied = false → owner.tied = false →
      x.initialized = true ∨ owner = .idle → SameSizes x.pipeline p →
      (p.state = .running → x.pipeline.state = .running) →
      (p.completed = true → x.pipeline.completed = true ∨ x.ended = true) →
      ownerHolds src { x with pipeline := p, owner := owner } →
      Owns src x { x with
        pipeline := p, owner := owner, results := results, commands := commands, gains := gains }
  | queues (commands : List Command) : Owns src x { x with commands := commands }
  | prepares : x.decoder = .none → x.pipeline.state ≠ .running → x.owner.tied = false →
      Owns src x { x with gate := false, quit := false, failed := false, sourceError := 0 }
  | creates {sought : Option UInt64} {caller : Caller} : x.owner = .creating sought caller →
      Owns src x { x with decoder := .gateLoad, owner := .launching sought caller }
  | resets : Quiescent x.decoder x.gate → x.pipeline.state ≠ .running → x.owner.tied = false →
      Owns src x (resetReservoir x)
  | starts {sought : Option UInt64} {caller : Caller} {p : Pipeline} {r : Reservoir} :
      x.owner = .launching sought caller → x.spsc = spscStart (reservoirReset r) 0 →
      p.completed = false → SameSizes x.pipeline p →
      Owns src x { x with
        pipeline := p
        owner := .opening caller
        events := x.events ++ [.start sought x.position]
        origin := x.position, pulled := [], ended := false }
  | aborts {caller : Caller} {rc : Rc} : x.owner = .aborting caller rc →
      Owns src x { x with quit := true, owner := .abortGive caller rc }
  | quits {after : AfterStop} {rc : Rc} : x.owner = .quitting after rc →
      Owns src x { x with quit := true, owner := .quitGive after rc }
  | gives : x.owner.tied = false → Owns src x { x with wake := true }
  | joins : x.decoder = .exited → x.owner.tied = false → Owns src x { x with decoder := .none }
  | opens {caller : Caller} : x.owner = .opening caller →
      Owns src x { x with gate := true, owner := .openGive caller }
  | seeks {frame : UInt64} {running : Bool} {caller : Caller} (position : σ) :
      x.owner = .seeking frame running caller → Owns src x { x with position := position }
  | pulls {owned : Buffer} : x.owner = .stepping → x.pipeline.state = .running →
      pullValid x.spsc.r { owned with frameCount := x.pipeline.blockFrames } = true →
      Owns src x { x with
        spsc := spscStep x.spsc (.pull { owned with frameCount := x.pipeline.blockFrames })
        owner := .pulling owned }
  | refuses {owned : Buffer} : x.owner = .stepping → acquiredFits x.pipeline owned = true →
      pullValid x.spsc.r { owned with frameCount := x.pipeline.blockFrames } = false →
      Owns src x { x with events := x.events ++ [.pull [] owned.flags] }
  | loads {owned : Buffer} : x.owner = .pulling owned → (consumerStep x.spsc).consumer ≠ .idle →
      Owns src x { x with spsc := consumerStep x.spsc }
  | releases {owned : Buffer} {done : PullDone} : x.owner = .pulling owned →
      (consumerStep x.spsc).consumer = .idle → (consumerStep x.spsc).pulls.getLast? = some done →
      Owns src x { x with
        spsc := consumerStep x.spsc
        owner := .waking owned done.pulled
        events := x.events ++
          [.pull ((consumerStep x.spsc).delivered.drop x.spsc.delivered.length) done.pulled.flags]
        pulled := x.pulled ++ (consumerStep x.spsc).delivered.drop x.spsc.delivered.length
        ended := x.ended || done.pulled.flags &&& EAF_FRAME_EOS ≠ 0 }
  | wakes {owned : Buffer} {pulled : Pulled} : x.owner = .waking owned pulled →
      Owns src x { x with wake := x.wake || pulled.wake, owner := .stepping }
  | detaches : x.decoder = .none → x.pipeline.state ≠ .running → x.owner.tied = false →
      Owns src x { x with
        spsc := { x.spsc with r := { x.spsc.r with wakeProducer := false } }
        initialized := false
        owner := .idle }

/-- Some moves of the owner. -/
def Moves (src : Source σ) : Player σ → Player σ → Prop := Relation.ReflTransGen (Owns src)

section Moves

variable {src : Source σ} {x : Player σ} (env : PipelineEnv)

theorem finish_moves (htied : x.owner.tied = false) (rc : Rc) : Moves src x (finish rc x) :=
  .single (.aside _ _ _ htied rfl (.inr rfl) ⟨rfl, rfl⟩ id .inl trivial)

theorem returnTo_moves (hinit : x.initialized = true) (htied : x.owner.tied = false)
    (caller : Caller) (rc : Rc) : Moves src x (returnTo caller rc x) := by
  unfold returnTo
  split
  · exact .single (.aside _ _ _ htied rfl (.inl hinit) ⟨rfl, rfl⟩ id .inl trivial)
  · exact finish_moves htied rc

theorem beginStop_moves (hinit : x.initialized = true) (htied : x.owner.tied = false)
    (after : AfterStop) : Moves src x (beginStop env after x) := by
  unfold beginStop
  split
  · have hframe := stop_frame env x.pipeline
    have hstate := stop_state env x.pipeline
    simp only
    generalize pipelineStop env x.pipeline = stopped at hframe hstate ⊢
    obtain ⟨rc, p⟩ := stopped
    simp only at hframe hstate ⊢
    refine .single (.aside _ _ _ htied rfl (.inl hinit) ?_ (fun h => (hstate h).2) ?_ ?_)
    · rw [hframe]
      exact ⟨rfl, rfl⟩
    · rw [hframe]
      exact .inl
    · intro hok hrunning
      exact (hstate hrunning).1 hok
  · rename_i hstill
    refine .single (.aside _ _ _ htied rfl (.inl hinit) ⟨rfl, rfl⟩ id .inl ?_)
    intro _ hrunning
    exact hstill (.inl hrunning)

theorem beginStart_moves (hinit : x.initialized = true) (htied : x.owner.tied = false)
    {sought : Option UInt64} (hsought : Sought src x.position sought) (caller : Caller) :
    Moves src x (beginStart sought caller x) := by
  unfold beginStart
  split
  · exact returnTo_moves hinit htied caller _
  · rename_i hready
    rw [not_or, not_not, not_and_or, not_not, not_not] at hready
    obtain ⟨hnone, hstate⟩ := hready
    have hstill : x.pipeline.state ≠ .running := by
      rcases hstate with h | h
      · simp [h]
      · simp [h]
    refine .head (.prepares hnone hstill htied) (.single ?_)
    exact .aside _ _ _ htied rfl (.inl hinit) ⟨rfl, rfl⟩ id .inl ⟨hnone, rfl, rfl, hstate, hsought⟩

theorem launch_moves (h : ownerHolds src x) {sought : Option UInt64} {caller : Caller}
    (ho : x.owner = .launching sought caller) (hinit : x.initialized = true) :
    Moves src x (launch env sought caller x) := by
  unfold ownerHolds at h
  rw [ho] at h
  obtain ⟨hparked, hgate, -, hstate, -⟩ := h
  have hstill : x.pipeline.state ≠ .running := by
    rcases hstate with h | h
    · simp [h]
    · simp [h]
  have htied : x.owner.tied = false := by rw [ho]; rfl
  have hframe := start_frame env { x.pipeline with reservoir := x.spsc.r } hstate
  have hrun := start_state env { x.pipeline with reservoir := x.spsc.r } hstill
  refine .head (.resets (.inr ⟨hparked, hgate⟩) hstill htied) ?_
  unfold launch
  simp only
  generalize pipelineStart env { x.pipeline with reservoir := x.spsc.r } = started at hframe hrun ⊢
  obtain ⟨rc, p⟩ := started
  simp only at hframe hrun ⊢
  have hcompleted : p.completed = false := by rw [hframe]
  have hsizes : SameSizes x.pipeline p := by
    rw [hframe]
    exact ⟨rfl, rfl⟩
  split
  · rename_i hrc
    refine .single (.aside _ _ _ htied rfl (.inl hinit) hsizes ?_ ?_ trivial)
    · intro hrunning
      exact absurd (hrun hrunning) hrc
    · intro hdone
      rw [hcompleted] at hdone
      cases hdone
  · exact .single (.starts ho rfl hcompleted hsizes)

theorem endStop_moves (hinit : x.initialized = true) (htied : x.owner.tied = false)
    (after : AfterStop) {rc : Rc}
    (hok : rc = EAF_OK → x.decoder = .none ∧ x.pipeline.state ≠ .running) :
    Moves src x (endStop after rc x) := by
  cases after with
  | call => exact finish_moves htied _
  | command => exact finish_moves htied _
  | seek frame running caller =>
    simp only [endStop]
    split
    · exact returnTo_moves hinit htied caller rc
    · rename_i hrc
      exact .single (.aside _ _ _ htied rfl (.inl hinit) ⟨rfl, rfl⟩ id .inl (hok (not_not.mp hrc)))
  | failed failure => exact finish_moves htied _
  | deinit =>
    simp only [endStop]
    split
    · exact finish_moves htied rc
    · rename_i hrc
      obtain ⟨hnone, hstill⟩ := hok (not_not.mp hrc)
      exact .head (.detaches hnone hstill htied) (finish_moves rfl EAF_OK)

theorem join_moves (htied : x.owner.tied = false) {hal : Rc} {next : Rc → Player σ → Player σ}
    (hfailed : hal ≠ EAF_OK → Moves src x (next hal x))
    (hjoined : Moves src { x with decoder := .none } (next EAF_OK { x with decoder := .none })) :
    Moves src x (join hal next x) := by
  unfold join
  split
  · rename_i hhal
    exact hfailed hhal
  · split
    · rename_i hexited
      exact .head (.joins hexited htied) hjoined
    · exact .refl

theorem beginSeek_moves (hinit : x.initialized = true) (htied : x.owner.tied = false)
    (frame : UInt64) (caller : Caller) : Moves src x (beginSeek src env frame caller x) := by
  unfold beginSeek
  split
  · exact returnTo_moves hinit htied caller _
  · exact beginStop_moves env hinit htied _

theorem endStep_moves (hinit : x.initialized = true) (htied : x.owner.tied = false) (rc : Rc) :
    Moves src x (endStep env rc x) := by
  unfold endStep
  split
  · exact beginStop_moves env hinit htied _
  · exact finish_moves htied _

theorem holds_stepping {y : Player σ} (ho : y.owner = .stepping) : ownerHolds src y := by
  unfold ownerHolds
  rw [ho]
  trivial

/-- The rest of a block that was pulled. -/
theorem endProcess_moves (hinit : x.initialized = true) (ho : x.owner = .stepping) (owned : Buffer)
    (pulled : Option Pulled)
    (hended : ∀ done, pulled = some done → done.flags &&& EAF_FRAME_EOS ≠ 0 → x.ended = true) :
    Moves src x (endProcess env owned pulled x) := by
  have hframe := processRest_frame env owned (pulledBlock x owned pulled)
  have hdone := processRest_completed env owned (pulledBlock x owned pulled)
  have hblock : (pulledBlock x owned pulled).p =
      { x.pipeline with
        mem := (pulledBlock x owned pulled).p.mem, log := (pulledBlock x owned pulled).p.log } := by
    cases pulled with
    | none => rfl
    | some done => rfl
  have hraises : raisesEos (pulledBlock x owned pulled) = true → x.ended = true := by
    cases pulled with
    | none =>
      intro h
      simp [raisesEos, pulledBlock] at h
    | some done =>
      intro h
      exact hended done rfl (of_decide_eq_true (Bool.and_eq_true_iff.mp h).2)
  unfold endProcess
  simp only
  rw [hblock] at hframe hdone
  generalize processRest env owned (pulledBlock x owned pulled) = y at hframe hdone ⊢
  obtain ⟨rc, p⟩ := y
  simp only at hframe hdone ⊢
  have htied : x.owner.tied = false := by rw [ho]; rfl
  refine .head (.aside x.results x.commands x.gains htied htied (.inl hinit) ?_ ?_ ?_ ?_)
    (endStep_moves env (x := { x with pipeline := p }) hinit htied rc)
  · rw [hframe]
    exact ⟨rfl, rfl⟩
  · rw [hframe]
    exact id
  · intro hcompleted
    exact (hdone hcompleted).imp id hraises
  · exact holds_stepping ho

theorem beginProcess_moves (hinit : x.initialized = true) (ho : x.owner = .stepping)
    (hrunning : x.pipeline.state = .running) : Moves src x (beginProcess env x) := by
  have htied : x.owner.tied = false := by rw [ho]; rfl
  unfold beginProcess
  split
  · exact endStep_moves env hinit htied _
  · generalize env.acquire x.pipeline.log = acquired
    obtain ⟨rc, buf⟩ := acquired
    simp only
    have hacquire : Owns src x { x with pipeline := x.pipeline.record (.acquire rc) } := by
      refine .aside x.results x.commands x.gains htied htied (.inl hinit) ⟨rfl, rfl⟩ id .inl ?_
      exact holds_stepping ho
    refine .head hacquire ?_
    split
    · exact endStep_moves env (by exact hinit) (by exact htied) _
    · cases buf with
      | none => exact endStep_moves env (by exact hinit) (by exact htied) _
      | some owned =>
        simp only
        split
        · exact endStep_moves env (by exact hinit) (by exact htied) _
        · rename_i hfits
          split
          · rename_i hinvalid
            refine .head (.refuses ho (Bool.not_eq_false _ ▸ hfits) hinvalid) ?_
            apply endProcess_moves env (by exact hinit) (by exact ho) owned none
            intro done hnone
            cases hnone
          · rename_i hvalid
            exact .single (.pulls (by exact ho) hrunning (Bool.not_eq_false _ ▸ hvalid))

/-- A step inside a pull. -/
theorem pullStep_loads {owned : Buffer} (h : (consumerStep x.spsc).consumer ≠ .idle) :
    pullStep owned x = { x with spsc := consumerStep x.spsc } := by
  unfold pullStep
  simp only
  split
  · contradiction
  · rfl

/-- The last step of a pull. -/
theorem pullStep_releases {owned : Buffer} {done : PullDone}
    (hidle : (consumerStep x.spsc).consumer = .idle)
    (hlast : (consumerStep x.spsc).pulls.getLast? = some done) :
    pullStep owned x = { x with
      spsc := consumerStep x.spsc
      owner := .waking owned done.pulled
      events := x.events ++
        [.pull ((consumerStep x.spsc).delivered.drop x.spsc.delivered.length) done.pulled.flags]
      pulled := x.pulled ++ (consumerStep x.spsc).delivered.drop x.spsc.delivered.length
      ended := x.ended || done.pulled.flags &&& EAF_FRAME_EOS ≠ 0 } := by
  unfold pullStep
  simp only
  rw [hidle, hlast]

/-- A pull that returns is in the log. -/
theorem consumerStep_logs {s : Spsc} (h : s.consumer ≠ .idle)
    (hidle : (consumerStep s).consumer = .idle) :
    ∃ done, (consumerStep s).pulls.getLast? = some done := by
  refine Option.isSome_iff_exists.mp (List.getLast?_isSome.mpr ?_)
  unfold consumerStep at hidle ⊢
  split at hidle
  · contradiction
  · cases hidle
  · cases hidle
  · cases hidle
  · simp only at hidle ⊢
    split at hidle
    · cases hidle
    · rename_i hdone
      rw [if_neg hdone]
      exact List.append_ne_nil_of_right_ne_nil _ (List.cons_ne_nil _ _)

theorem pullStep_moves {owned : Buffer} (ho : x.owner = .pulling owned)
    (hbusy : x.spsc.consumer ≠ .idle) : Moves src x (pullStep owned x) := by
  by_cases hidle : (consumerStep x.spsc).consumer = .idle
  · obtain ⟨done, hlast⟩ := consumerStep_logs hbusy hidle
    rw [pullStep_releases hidle hlast]
    exact .single (.releases ho hidle hlast)
  · rw [pullStep_loads hidle]
    exact .single (.loads ho hidle)

/-- What is left of a block does not depend on where the owner was. -/
theorem endProcess_owner (owned : Buffer) (pulled : Option Pulled) (owner : Owner) :
    endProcess env owned pulled { x with owner := owner } = endProcess env owned pulled x := by
  have hblock : pulledBlock { x with owner := owner } owned pulled = pulledBlock x owned pulled := by
    cases pulled with
    | none => rfl
    | some done => rfl
  unfold endProcess endStep beginStop finish
  rw [hblock]

theorem ownerStep_moves (h : Control src x) (hal : Rc) :
    Moves src x (ownerStep src env hal x) := by
  have hholds := h.owner
  have hinit : x.owner ≠ .idle → x.initialized = true := by
    intro hbusy
    by_contra hne
    exact hbusy (h.initialized (Bool.eq_false_of_not_eq_true hne)).2.1
  unfold ownerHolds at hholds
  unfold ownerStep
  rcases ho : x.owner with _ | ⟨sought, caller⟩ | ⟨sought, caller⟩ | ⟨caller, rc⟩ | ⟨caller, rc⟩ |
    ⟨caller, rc⟩ | caller | caller | ⟨after, rc⟩ | ⟨after, rc⟩ | after | ⟨frame, running, caller⟩ |
    ⟨frame, running, caller⟩ | _ | owned | ⟨owned, pulled⟩
  all_goals rw [ho] at hholds hinit
  case idle => exact .refl
  all_goals
    have hinit := hinit nofun
    simp only at hholds ⊢
  case creating =>
    obtain ⟨hnone, hgate, hquit, hstate, hsought⟩ := hholds
    have htied : x.owner.tied = false := by rw [ho]; rfl
    split
    · exact returnTo_moves hinit htied caller hal
    · exact .single (.creates ho)
  case launching => exact launch_moves env h.owner ho hinit
  case aborting => exact .single (.aborts ho)
  case abortGive =>
    have htied : x.owner.tied = false := by rw [ho]; rfl
    refine .head (.gives htied) (.single ?_)
    exact .aside x.results x.commands x.gains htied rfl (.inl hinit) ⟨rfl, rfl⟩ id .inl trivial
  case abortJoin =>
    have htied : x.owner.tied = false := by rw [ho]; rfl
    exact join_moves htied (fun _ => returnTo_moves hinit htied caller rc)
      (returnTo_moves (by exact hinit) (by exact htied) caller rc)
  case opening => exact .single (.opens ho)
  case openGive =>
    have htied : x.owner.tied = false := by rw [ho]; rfl
    exact .head (.gives htied) (returnTo_moves (by exact hinit) (by exact htied) caller _)
  case quitting => exact .single (.quits ho)
  case quitGive =>
    have htied : x.owner.tied = false := by rw [ho]; rfl
    refine .head (.gives htied) ?_
    split
    · rename_i hdone
      apply endStop_moves (by exact hinit) (by exact htied) after
      intro hok
      exact ⟨hdone.resolve_left (not_not.mpr hok), hholds hok⟩
    · rename_i hmore
      refine .single (.aside x.results x.commands x.gains htied rfl (.inl hinit) ⟨rfl, rfl⟩ id .inl ?_)
      exact hholds (not_not.mp (not_or.mp hmore).1)
  case joining =>
    have htied : x.owner.tied = false := by rw [ho]; rfl
    apply join_moves htied
    · intro hfailed
      exact endStop_moves hinit htied after (fun hok => absurd hok hfailed)
    · exact endStop_moves (by exact hinit) (by exact htied) after (fun _ => ⟨rfl, hholds⟩)
  case seeking =>
    have htied : x.owner.tied = false := by rw [ho]; rfl
    refine .head (.seeks (src.seek x.position frame).2 ho) ?_
    split
    · exact returnTo_moves (by exact hinit) (by exact htied) caller _
    · rename_i hrc
      refine .single (.aside x.results x.commands x.gains htied rfl (.inl hinit) ⟨rfl, rfl⟩ id .inl
        ⟨hholds.1, hholds.2, ?_⟩)
      rintro _ ⟨⟩
      exact ⟨x.position, Prod.ext (not_not.mp hrc) rfl⟩
  case resetting =>
    have htied : x.owner.tied = false := by rw [ho]; rfl
    refine .head (.resets (.inl hholds.1) hholds.2.1 htied) ?_
    split
    · exact beginStart_moves (by exact hinit) (by exact htied) (by exact hholds.2.2) caller
    · exact returnTo_moves (by exact hinit) (by exact htied) caller _
  case stepping =>
    have htied : x.owner.tied = false := by rw [ho]; rfl
    unfold stepBlock
    split
    · exact finish_moves htied _
    · rename_i hrunning
      split
      · exact endStep_moves env hinit htied _
      · exact beginProcess_moves env hinit ho (not_not.mp hrunning)
  case pulling => exact pullStep_moves ho hholds.2
  case waking =>
    refine .head (.wakes ho) ?_
    rw [← endProcess_owner env owned (some pulled) .stepping]
    apply endProcess_moves env (by exact hinit) rfl owned (some pulled)
    rintro _ ⟨⟩
    exact hholds.2

theorem beginCall_moves (ho : x.owner = .idle) (call : Call) :
    Moves src x (beginCall src env x call) := by
  have htied : x.owner.tied = false := by rw [ho]; rfl
  unfold beginCall
  split
  · exact finish_moves htied _
  · rename_i hinit
    have hinit : x.initialized = true := Bool.not_eq_false _ ▸ hinit
    cases call with
    | start =>
      refine beginStart_moves hinit htied ?_ _
      rintro _ ⟨⟩
    | stop => exact beginStop_moves env hinit htied _
    | seek frame => exact beginSeek_moves env hinit htied frame _
    | deinit => exact beginStop_moves env hinit htied _
    | step =>
      simp only [beginStep]
      split
      · exact .single (.aside _ _ _ htied rfl (.inl hinit) ⟨rfl, rfl⟩ id .inl trivial)
      · rename_i command commands _
        refine .head (.queues commands) ?_
        cases command with
        | stop => exact beginStop_moves env (by exact hinit) (by exact htied) _
        | seek frame => exact beginSeek_moves env (by exact hinit) (by exact htied) frame _
        | gain gain =>
          exact .single (.aside _ _ _ (by exact htied) rfl (.inl hinit) ⟨rfl, rfl⟩ id .inl trivial)
        | unknown => exact finish_moves (by exact htied) _

theorem playerCommand_moves (command : Command) : Moves src x (playerCommand src x command).2 := by
  unfold playerCommand
  split
  · exact .refl
  · exact .single (.queues _)

/-- Whatever happens next is a move of the decoder or some moves of the owner. -/
theorem playerStep_moves (h : Control src x) (action : Action) :
    Decodes src x (playerStep src env x action) ∨ Moves src x (playerStep src env x action) := by
  cases action with
  | decoder => exact .inl (decoderStep_decodes src x)
  | timeout => exact .inl (decoderTimeout_decodes src x)
  | owner hal => exact .inr (ownerStep_moves env h hal)
  | call call =>
    right
    simp only [playerStep]
    split
    · rename_i hidle
      exact beginCall_moves env hidle call
    · exact .refl
  | command command => exact .inr (playerCommand_moves command)

end Moves

end EmbeddedAudio.Playback
