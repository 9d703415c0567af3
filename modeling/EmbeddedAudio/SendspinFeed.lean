-- What becomes of the bytes of a compressed chunk: which of them the decoder has
-- accepted when a write returns.
import EmbeddedAudio.SendspinDrops

namespace EmbeddedAudio.SendspinPlayer

open DecodeWorker Sendspin

/-! ## The bytes that an adapter accepts -/

def acceptedIn : Event → List UInt8
  | .push data rc consumed => if rc = EAF_OK then data.take consumed else []
  | _ => []

/-- All bytes that the adapter accepted, in order. -/
def acceptedOf (log : List Event) : List UInt8 := log.flatMap acceptedIn

theorem acceptedOf_append (a b : List Event) : acceptedOf (a ++ b) = acceptedOf a ++ acceptedOf b :=
  List.flatMap_append

theorem accepted_stepped {format : Format} {events : List Event} (h : Stepped format events) :
    acceptedOf events = [] := by
  cases h <;> rfl

/-- One turn of feeding an adapter: it is offered the bytes that are left, and asked for frames
if it takes none. There is no next state when it reports an error. -/
def turn (env : Env) (w : Worker) (data : List UInt8) : Option (Worker × List UInt8) :=
  let (rc, consumed, w) := workerPush env.worker w (.bytes data)
  if rc ≠ EAF_OK then none
  else if consumed = 0 then
    let (rc, w) := workerStep env.worker w
    if rc ≠ EAF_OK then none else some (w, data)
  else some (w, data.drop consumed)

/-- So many turns, or as many as it takes. -/
def turns (env : Env) : Nat → Worker → List UInt8 → Option (Worker × List UInt8)
  | 0, w, data => some (w, data)
  | n + 1, w, data =>
    if data = [] then some (w, []) else (turn env w data).bind fun r => turns env n r.1 r.2

/-- The pulls behind the turns, up to the first that gives nothing: whether one reports an
error. -/
def pullsFail (env : Env) : Nat → Worker → Bool
  | 0, _ => false
  | n + 1, w =>
    let (rc, w') := workerStep env.worker w
    if rc ≠ EAF_OK then true
    else if w'.framesWritten = w.framesWritten then false
    else pullsFail env n w'

/-- The adapter takes the whole chunk in `EAF_SENDPIN_DECODE_STEPS` turns, or it reports an
error. -/
def Swallows (env : Env) (w : Worker) (data : List UInt8) : Prop :=
  ∀ w' left, turns env EAF_SENDPIN_DECODE_STEPS w data = some (w', left) →
    left = [] ∨ pullsFail env EAF_SENDPIN_DECODE_STEPS w' = true

section Turns

variable {env : Env} {w w' : Worker} {data left : List UInt8}

/-- A turn loses no byte and swaps none. -/
theorem turn_spec (h : Idle w) (hturn : turn env w data = some (w', left)) :
    Idle w' ∧ ∃ events, w'.log = w.log ++ events ∧ acceptedOf events ++ left = data := by
  unfold turn at hturn
  rcases @workerPush_idle env w h data with ⟨-, hpush⟩ | ⟨-, hpush⟩
  · rw [hpush] at hturn
    cases hturn
  rw [hpush] at hturn
  have hle := env.push_le w.log data
  generalize env.push w.log data = answer at hturn hle
  obtain ⟨rc, consumed⟩ := answer
  simp only at hturn hle
  by_cases hrc : rc ≠ EAF_OK
  · rw [if_pos hrc] at hturn
    cases hturn
  rw [if_neg hrc] at hturn
  have hok : rc = EAF_OK := not_not.mp hrc
  by_cases hstuck : consumed = 0
  · rw [if_pos hstuck] at hturn
    obtain ⟨hidle, -, events, hlog, hstepped⟩ :=
      @workerStep_idle env (emit w (.push data rc consumed)) h
    generalize workerStep env.worker (emit w (.push data rc consumed)) = r at hturn hidle hlog
    obtain ⟨rc', stepped⟩ := r
    simp only at hturn hidle hlog
    by_cases hrc' : rc' ≠ EAF_OK
    · rw [if_pos hrc'] at hturn
      cases hturn
    · rw [if_neg hrc'] at hturn
      cases hturn
      refine ⟨hidle, .push data rc consumed :: events, ?_, ?_⟩
      · rw [hlog, List.append_assoc]
        rfl
      · rw [show Event.push data rc consumed :: events = [.push data rc consumed] ++ events from rfl,
          acceptedOf_append, accepted_stepped hstepped]
        simp [acceptedOf, acceptedIn, hstuck]
  · rw [if_neg hstuck] at hturn
    cases hturn
    refine ⟨h, [.push data rc consumed], rfl, ?_⟩
    simp [acceptedOf, acceptedIn, hok]

theorem turns_spec : ∀ {n : Nat} {w : Worker} {data : List UInt8}, Idle w →
    turns env n w data = some (w', left) →
    Idle w' ∧ ∃ events, w'.log = w.log ++ events ∧ acceptedOf events ++ left = data := by
  intro n
  induction n with
  | zero =>
    intro w data h hturns
    cases hturns
    exact ⟨h, [], by simp, rfl⟩
  | succ n ih =>
    intro w data h hturns
    rw [turns] at hturns
    by_cases hnone : data = []
    · rw [if_pos hnone] at hturns
      cases hturns
      exact ⟨h, [], by simp, hnone.symm⟩
    rw [if_neg hnone] at hturns
    obtain ⟨⟨w1, left1⟩, hturn, hrest⟩ := Option.bind_eq_some_iff.mp hturns
    obtain ⟨hidle1, events1, hlog1, haccepted1⟩ := turn_spec h hturn
    obtain ⟨hidle2, events2, hlog2, haccepted2⟩ := ih hidle1 hrest
    refine ⟨hidle2, events1 ++ events2, ?_, ?_⟩
    · rw [hlog2, hlog1, List.append_assoc]
    · rw [acceptedOf_append, List.append_assoc, haccepted2, haccepted1]

end Turns

/-! ## The loops of the player -/

theorem step_worker {env : Env} {p : Player} (h : Idle p.worker) :
    (step env p).1 = (workerStep env.worker p.worker).1 ∧
      (step env p).2.worker = (workerStep env.worker p.worker).2 := by
  obtain ⟨-, -, events, hlog, hstepped⟩ := @workerStep_idle env p.worker h
  unfold step
  generalize workerStep env.worker p.worker = r at hlog
  obtain ⟨rc, worker⟩ := r
  simp only at hlog ⊢
  rw [hlog, List.drop_left]
  exact ⟨trivial, (foldl_handed env hstepped { p with worker := worker }).1⟩

/-- The first loop takes the turns of the adapter. -/
theorem feed_turns {env : Env} : ∀ (n : Nat) {p : Player} (data : List UInt8), Idle p.worker →
    match turns env n p.worker data with
    | none => (feed env n p data).1 ≠ EAF_OK
    | some (w', _) => (feed env n p data).1 = EAF_OK ∧ (feed env n p data).2.worker = w' := by
  intro n
  induction n with
  | zero => exact fun data h => ⟨rfl, rfl⟩
  | succ n ih =>
    intro p data h
    rw [feed, turns]
    by_cases hnone : data = []
    · rw [if_pos hnone, if_pos hnone]
      exact ⟨rfl, rfl⟩
    rw [if_neg hnone, if_neg hnone]
    unfold turn
    rcases @workerPush_idle env p.worker h data with ⟨hclosed, hpush⟩ | ⟨hopen, hpush⟩
    · -- a closed worker refuses the step and the push
      have hstep : (workerStep env.worker p.worker).1 = EAF_STATE := by
        rw [workerStep, if_pos hclosed]
      obtain ⟨hrc, -⟩ := @step_worker env p h
      rw [if_pos (by rw [canPush_idle h]; exact hclosed), hpush]
      generalize step env p = r at hrc
      obtain ⟨rc, q⟩ := r
      simp only at hrc
      have hstate : rc = EAF_STATE := hrc.trans hstep
      simp [hstate]
    · rw [if_neg (by rw [canPush_idle h, hopen]; decide), hpush]
      generalize env.push p.worker.log data = answer
      obtain ⟨rc, consumed⟩ := answer
      simp only
      by_cases hrc : rc ≠ EAF_OK
      · rw [if_pos hrc, if_pos hrc]
        exact hrc
      rw [if_neg hrc, if_neg hrc]
      by_cases hstuck : consumed = 0
      · rw [if_pos hstuck, if_pos hstuck]
        have hpushed : Idle ({ p with worker := emit p.worker (.push data rc consumed) } :
          Player).worker := h
        obtain ⟨hsame, hworker⟩ := @step_worker env _ hpushed
        obtain ⟨hidle, -, -⟩ := @workerStep_idle env _ hpushed
        generalize step env { p with worker := emit p.worker (.push data rc consumed) } = r
          at hsame hworker
        generalize workerStep env.worker (emit p.worker (.push data rc consumed)) = r'
          at hsame hworker hidle
        obtain ⟨rc', q⟩ := r
        obtain ⟨rc'', w'⟩ := r'
        simp only at hsame hworker hidle ⊢
        subst hsame
        by_cases hrc' : rc' ≠ EAF_OK
        · rw [if_pos hrc', if_pos hrc']
          exact hrc'
        · rw [if_neg hrc', if_neg hrc', Option.bind_some, ← hworker]
          exact @ih q data (by rw [hworker]; exact hidle)
      · rw [if_neg hstuck, if_neg hstuck]
        exact @ih { p with worker := emit p.worker (.push data rc consumed) } _ h

theorem workerStep_isOpen (env : DecodeWorker.Env) (w : Worker) :
    (workerStep env w).2.isOpen = w.isOpen := by
  unfold workerStep decoderPull
  simp only
  split_ifs <;> rfl

theorem workerStep_ok {env : DecodeWorker.Env} {w : Worker} (h : (workerStep env w).1 = EAF_OK) :
    (workerStep env w).2.isOpen = true := by
  rw [workerStep_isOpen]
  by_contra hclosed
  rw [workerStep, if_pos (by simpa using hclosed)] at h
  cases h

/-- The second loop makes the pulls behind the turns, and offers nothing. -/
theorem drain_pulls {env : Env} : ∀ (n : Nat) {p : Player}, Idle p.worker →
    ((drainDecoder env n p).1 ≠ EAF_OK ↔ pullsFail env n p.worker = true) ∧
      ∃ events, (drainDecoder env n p).2.worker.log = p.worker.log ++ events ∧
        acceptedOf events = [] := by
  intro n
  induction n with
  | zero => exact fun h => ⟨by simp [drainDecoder, pullsFail], [], by simp [drainDecoder], rfl⟩
  | succ n ih =>
    intro p h
    rw [drainDecoder, pullsFail]
    obtain ⟨hsame, hworker⟩ := @step_worker env p h
    obtain ⟨hidle, -, events, hlog, hstepped⟩ := @workerStep_idle env p.worker h
    have hopen := @workerStep_ok env.worker p.worker
    generalize step env p = r at hsame hworker
    generalize workerStep env.worker p.worker = r' at hsame hworker hidle hlog hopen
    obtain ⟨rc, q⟩ := r
    obtain ⟨rc', w'⟩ := r'
    simp only at hsame hworker hidle hlog hopen ⊢
    subst hsame
    have hnothing := accepted_stepped hstepped
    by_cases hrc : rc ≠ EAF_OK
    · rw [if_pos hrc, if_pos hrc]
      refine ⟨iff_of_true hrc rfl, events, ?_, hnothing⟩
      rw [hworker]
      exact hlog
    rw [if_neg hrc, if_neg hrc, hworker, canPush_idle hidle, hopen (not_not.mp hrc)]
    by_cases hdone : w'.framesWritten = p.worker.framesWritten
    · rw [if_pos ⟨hdone, rfl⟩, if_pos hdone]
      refine ⟨by simp, events, ?_, hnothing⟩
      rw [hworker]
      exact hlog
    · rw [if_neg (fun hall => hdone hall.1), if_neg hdone]
      obtain ⟨hiff, more, hmore, hnothing'⟩ := @ih q (by rw [hworker]; exact hidle)
      rw [hworker] at hiff hmore
      refine ⟨hiff, events ++ more, ?_, ?_⟩
      · rw [hmore, hlog, List.append_assoc]
      · rw [acceptedOf_append, hnothing, hnothing']
        rfl

/-! ## Exactly when no byte is lost -/

/-- A write that reports no error had all bytes of the chunk accepted, in order. -/
def Delivered (p : Player) (r : Rc × Player) (data : List UInt8) : Prop :=
  r.1 = EAF_OK → acceptedOf (r.2.worker.log.drop p.worker.log.length) = data

theorem writeCompressed_delivered {env : Env} {p : Player} (h : Idle p.worker)
    (data : List UInt8) :
    Delivered p (writeCompressed env p data) data ↔ Swallows env p.worker data := by
  have hfeed := @feed_turns env EAF_SENDPIN_DECODE_STEPS p data h
  unfold writeCompressed Swallows
  generalize feed env EAF_SENDPIN_DECODE_STEPS p data = r at hfeed
  obtain ⟨rc, q⟩ := r
  simp only
  rcases hturns : turns env EAF_SENDPIN_DECODE_STEPS p.worker data with _ | ⟨w', left⟩
  · -- a turn reports an error
    rw [hturns] at hfeed
    rw [if_pos hfeed]
    exact iff_of_true (fun hok => absurd hok hfeed) (fun w' left hsome => by cases hsome)
  · rw [hturns] at hfeed
    obtain ⟨hrc, hworker⟩ := hfeed
    obtain ⟨hidle, events, hlog, haccepted⟩ := turns_spec h hturns
    obtain ⟨hfails, more, hmore, hnothing⟩ :=
      @drain_pulls env EAF_SENDPIN_DECODE_STEPS q (by rw [hworker]; exact hidle)
    have hok : ¬rc ≠ EAF_OK := not_not.mpr hrc
    rw [if_neg hok]
    have hnew : acceptedOf ((drainDecoder env EAF_SENDPIN_DECODE_STEPS q).2.worker.log.drop
        p.worker.log.length) = acceptedOf events := by
      rw [hmore, hworker, hlog, List.append_assoc, List.drop_left, acceptedOf_append, hnothing,
        List.append_nil]
    unfold Delivered
    rw [hnew]
    rw [hworker] at hfails
    constructor
    · intro hdelivered w'' left' hsome
      cases hsome
      by_cases hfail : pullsFail env EAF_SENDPIN_DECODE_STEPS w' = true
      · exact .inr hfail
      · have hall := hdelivered (not_not.mp fun hne => hfail (hfails.mp hne))
        rw [hall] at haccepted
        exact .inl (List.append_right_eq_self.mp haccepted)
    · intro hswallows hquiet
      rcases hswallows w' left rfl with hleft | hfail
      · rw [hleft, List.append_nil] at haccepted
        exact haccepted
      · exact absurd hquiet (hfails.mpr hfail)

/-- A write of a chunk that is not late lets no byte of it go without an error, unless the
adapter still wants its bytes after `EAF_SENDPIN_DECODE_STEPS` turns: the bound of the loop ends
the feeding, and the rest is left out without a word. -/
theorem chunk_delivered {env : Env} {p : Player} (h : Playing env p) (hc : p.compressed = true)
    (moment : Moment) (hintime : late p moment = false) (data : List UInt8) :
    Delivered p (playerWrite env p moment (.bytes data)) data ↔ Swallows env p.worker data := by
  have hsound := h.sound
  rw [write_compressed hsound.active hintime hc]
  exact @writeCompressed_delivered env (primed p moment) (hsound.idle hc) data

/-- An adapter that takes a byte of each push. -/
def slowAdapter : Env :=
  { fullSink with
    push := fun _ data => (EAF_OK, min 1 data.length)
    push_le := fun _ data => Nat.min_le_right 1 data.length }

def flacStart : StreamStart := ⟨0, .flac, 48000, 2, 16, ⟨0, []⟩⟩

def flacPlayer : Player :=
  (playerBegin slowAdapter { idlePlayer with decoder := ⟨true, [0, 0], 1⟩ } flacStart).2

theorem playing_flac : Playing slowAdapter flacPlayer :=
  @Playing.begun slowAdapter { idlePlayer with decoder := ⟨true, [0, 0], 1⟩ } _ flacStart rfl

/-- A chunk of one byte more than the loop has turns. -/
def slowChunk : List UInt8 := List.replicate 65 0

theorem chunk_delivered_slow :
    Delivered flacPlayer
      (playerWrite slowAdapter flacPlayer ⟨true, 0, 0, .unity⟩ (.bytes slowChunk)) slowChunk ↔
      Swallows slowAdapter flacPlayer.worker slowChunk :=
  chunk_delivered playing_flac rfl ⟨true, 0, 0, .unity⟩ rfl slowChunk

/-- The write returns `EAF_OK`, and the last byte was never offered again. -/
theorem chunk_not_delivered :
    ¬∀ (env : Env) (p : Player) (moment : Moment) (data : List UInt8), Playing env p →
      p.compressed = true → late p moment = false →
      Delivered p (playerWrite env p moment (.bytes data)) data := by
  intro h
  have hall := h slowAdapter flacPlayer ⟨true, 0, 0, .unity⟩ slowChunk playing_flac rfl rfl
    (by decide +kernel)
  exact absurd hall (by decide +kernel)

end EmbeddedAudio.SendspinPlayer
