-- What the Sendspin player counts: each frame of a chunk, and each frame that the
-- decoder gives, is written or dropped.
import EmbeddedAudio.SendspinPlayer

namespace EmbeddedAudio.SendspinPlayer

open DecodeWorker Sendspin

/-! ## The blocks of a loop -/

/-- Blocks one behind the other, from the frame `index` to the last one. -/
def Chained (frames : Nat) : Nat → List (Nat × Nat) → Prop
  | index, [] => index = frames
  | index, (first, count) :: rest => first = index ∧ 0 < count ∧ Chained frames (index + count) rest

theorem chained_blocksFrom (frames : Nat) : ∀ bound index : Nat, index ≤ frames →
    frames ≤ index + bound → Chained frames index (blocksFrom frames bound index) := by
  intro bound
  induction bound with
  | zero =>
    intro index hle hbound
    exact Nat.le_antisymm hle hbound
  | succ bound ih =>
    intro index hle hbound
    unfold blocksFrom
    by_cases hlt : index < frames
    · rw [if_pos hlt]
      have hpos : 0 < min (frames - index) EAF_SENDPIN_PLAYER_CHUNK_FRAMES := by
        rw [Nat.lt_min]
        exact ⟨Nat.sub_pos_of_lt hlt, by decide⟩
      have hmin := Nat.min_le_left (frames - index) EAF_SENDPIN_PLAYER_CHUNK_FRAMES
      exact ⟨rfl, hpos, ih _ (by omega) (by omega)⟩
    · rw [if_neg hlt]
      exact Nat.le_antisymm hle (Nat.le_of_not_lt hlt)

theorem chained_blocks (frames : Nat) : Chained frames 0 (blocks frames) :=
  chained_blocksFrom frames frames 0 (Nat.zero_le _) (by omega)

theorem Chained.le {frames index : Nat} {bs : List (Nat × Nat)} (h : Chained frames index bs) :
    index ≤ frames := by
  induction bs generalizing index with
  | nil => exact Nat.le_of_eq h
  | cons b rest ih =>
    obtain ⟨-, -, hrest⟩ := h
    exact Nat.le_trans (Nat.le_add_right _ _) (ih hrest)

/-! ## What a call does to the counters -/

/-- The frames that the sink took of the blocks it was offered. -/
def acceptedFrames (offers : List Offer) : Nat := (offers.map Offer.written).sum

theorem acceptedFrames_append (a b : List Offer) :
    acceptedFrames (a ++ b) = acceptedFrames a + acceptedFrames b := by
  simp [acceptedFrames]

/-- Between two states of the player `n` frames came up. The counters, the sink and the worker
know of them, and nothing else has changed. -/
structure Accounts (p p' : Player) (n : Nat) : Prop where
  same : p' = { p with
    worker := p'.worker
    framesWritten := p'.framesWritten
    framesDropped := p'.framesDropped
    offers := p'.offers }
  offered : ∃ offers, p'.offers = p.offers ++ offers ∧
    p'.framesWritten = p.framesWritten + UInt32.ofNat (acceptedFrames offers)
  counted : p'.framesWritten + p'.framesDropped =
    p.framesWritten + p.framesDropped + UInt32.ofNat n

theorem accounts_refl (p : Player) : Accounts p p 0 :=
  ⟨rfl, ⟨[], by simp, by simp [acceptedFrames]⟩, by simp⟩

theorem Accounts.trans {p q r : Player} {n m : Nat} (h : Accounts p q n) (h' : Accounts q r m) :
    Accounts p r (n + m) := by
  obtain ⟨hsame, ⟨offers, hoffers, hwritten⟩, hcounted⟩ := h
  obtain ⟨hsame', ⟨offers', hoffers', hwritten'⟩, hcounted'⟩ := h'
  refine ⟨?_, ⟨offers ++ offers', ?_, ?_⟩, ?_⟩
  · rw [hsame', hsame]
  · rw [hoffers', hoffers, List.append_assoc]
  · rw [hwritten', hwritten, acceptedFrames_append, UInt32.ofNat_add, UInt32.add_assoc]
  · rw [hcounted', hcounted, UInt32.ofNat_add, UInt32.add_assoc]

theorem Accounts.ratio {p p' : Player} {n : Nat} (h : Accounts p p' n) :
    p'.activeRatio = p.activeRatio := by rw [h.same]

theorem sub_counted (w d : UInt32) {written produced : Nat} (h : written ≤ produced) :
    w + UInt32.ofNat written +
      (if written < produced then d + UInt32.ofNat (produced - written) else d) =
    w + d + UInt32.ofNat produced := by
  by_cases hlt : written < produced
  · rw [if_pos hlt]
    have hsum : UInt32.ofNat produced =
        UInt32.ofNat written + UInt32.ofNat (produced - written) := by
      rw [← UInt32.ofNat_add, Nat.add_sub_cancel' h]
    rw [hsum]
    ac_rfl
  · rw [if_neg hlt, Nat.le_antisymm h (Nat.le_of_not_lt hlt)]
    ac_rfl

/-- A block is counted, whatever the sink takes of it. -/
theorem queueBlock_accounts (env : Env) (p : Player) (samples : List Int32) (count : Nat) :
    Accounts p (queueBlock env p samples count).2.2 (queueBlock env p samples count).2.1 := by
  unfold queueBlock
  generalize (if p.activeRatio = .unity then (count, samples)
    else env.resample p.offers samples count) = r
  obtain ⟨produce, output⟩ := r
  refine ⟨rfl, ⟨_, rfl, ?_⟩, ?_⟩
  · simp [acceptedFrames]
  · exact sub_counted p.framesWritten p.framesDropped (env.sink_le p.offers output produce)

/-- At ratio 1.0 the sink is offered the block as it is. -/
theorem queueBlock_unity {env : Env} {p : Player} (h : p.activeRatio = .unity)
    (samples : List Int32) (count : Nat) :
    (queueBlock env p samples count).2.1 = count ∧
      (queueBlock env p samples count).1 = env.sink p.offers samples count ∧
      (queueBlock env p samples count).2.2.offers =
        p.offers ++ [⟨samples, count, env.sink p.offers samples count⟩] := by
  unfold queueBlock
  rw [if_pos h]
  exact ⟨rfl, rfl, rfl⟩

/-- `decode_sink` counts every frame of its block: where the sink is short, those behind too. -/
theorem decodeBlocks_accounts (env : Env) (samples : List Int32) (frames : Nat) :
    ∀ (bs : List (Nat × Nat)) (p : Player) (index : Nat), Chained frames index bs →
    ∃ n, Accounts p (decodeBlocks env samples frames bs p) n ∧
      (p.activeRatio = .unity → n = frames - index) := by
  intro bs
  induction bs with
  | nil =>
    intro p index hchain
    exact ⟨0, accounts_refl p, fun _ => by rw [hchain, Nat.sub_self]⟩
  | cons b rest ih =>
    obtain ⟨first, count⟩ := b
    intro p index hchain
    obtain ⟨rfl, hpos, hrest⟩ := hchain
    have hle := hrest.le
    have hblock := queueBlock_accounts env p (Storage.slice samples (first * 2) (count * 2)) count
    have hunity := fun h => (@queueBlock_unity env p h
      (Storage.slice samples (first * 2) (count * 2)) count).1
    simp only [decodeBlocks]
    generalize queueBlock env p (Storage.slice samples (first * 2) (count * 2)) count = r
      at hblock hunity
    obtain ⟨written, produced, q⟩ := r
    by_cases hshort : written < produced
    · simp only [hshort, if_true]
      refine ⟨produced + (frames - (first + count)), ?_, ?_⟩
      · refine hblock.trans ⟨rfl, ⟨[], by simp, by simp [acceptedFrames]⟩, ?_⟩
        simp only
        ac_rfl
      · intro hratio
        have := hunity hratio
        simp only at this
        omega
    · simp only [hshort, if_false]
      obtain ⟨n, haccounts, hn⟩ := ih q (first + count) hrest
      refine ⟨produced + n, hblock.trans haccounts, ?_⟩
      intro hratio
      have hproduced := hunity hratio
      have hcount := hn (by rw [hblock.ratio, hratio])
      simp only at hproduced
      omega

theorem decodeSink_accounts (env : Env) (p : Player) (samples : List Int32) (frames : Nat) :
    ∃ n, Accounts p (decodeSink env p samples frames) n ∧
      (p.activeRatio = .unity → n = frames) :=
  decodeBlocks_accounts env samples frames (blocks frames) p 0 (chained_blocks frames)

/-! ## A compressed chunk -/

/-- The worker has handed on all that it decoded. -/
def Idle (w : Worker) : Prop := w.pending = w.sent

theorem pulledFrames_append (format : Format) (a b : List Event) :
    pulledFrames format (a ++ b) = pulledFrames format a + pulledFrames format b := by
  simp [pulledFrames]

/-- The frames that `decode_sink` got are those of the pulls. -/
theorem drain_idle (env : Env) (w : Worker) :
    Idle (drain env.worker w) ∧ (drain env.worker w).format = w.format ∧
      ∃ samples, (drain env.worker w).log = w.log ++ [.wrote (w.pending - w.sent) samples] := by
  refine ⟨?_, rfl, _, rfl⟩
  change w.pending = w.sent + (w.pending - w.sent)
  rw [UInt32.add_comm, UInt32.sub_add_cancel]

/-- What one step of the worker tells: what its pull decoded goes to `decode_sink` at once. -/
inductive Stepped (format : Format) : List Event → Prop where
  | closed : Stepped format []
  | unanswered (answer : PullAnswer) (h : pulledIn format (.pull answer) = 0) :
      Stepped format [.pull answer]
  | refused (answer : PullAnswer) (rc : Rc) (h : pulledIn format (.pull answer) = 0) :
      Stepped format [.pull answer, .reset rc]
  | refusedAtOnce (rc : Rc) : Stepped format [.reset rc]
  | handed (answer : PullAnswer) (samples : List Int32)
      (h : pulledIn format (.pull answer) = answer.frames.toNat) :
      Stepped format [.pull answer, .wrote answer.frames samples]

theorem pulledIn_refused {format : Format} {answer : PullAnswer}
    (h : answer.rc ≠ EAF_OK ∨ answer.frames = 0 ∨ answer.format ≠ format) :
    pulledIn format (.pull answer) = 0 := by
  unfold pulledIn negotiated
  rcases h with hrc | hnone | hformat
  · simp [hrc]
  · simp [hnone]
  · simp [hformat]

theorem workerStep_idle {env : Env} {w : Worker} (hidle : Idle w) :
    Idle (workerStep env.worker w).2 ∧ (workerStep env.worker w).2.format = w.format ∧
      ∃ events, (workerStep env.worker w).2.log = w.log ++ events ∧ Stepped w.format events := by
  unfold workerStep
  by_cases hopen : w.isOpen = false
  · rw [if_pos hopen]
    exact ⟨hidle, rfl, [], by simp, .closed⟩
  rw [if_neg hopen, if_neg (by rw [show w.pending = w.sent from hidle]; exact UInt32.lt_irrefl _)]
  unfold decoderPull
  by_cases hnone : w.scratchFrames = 0
  · rw [if_pos (show (({ w with pending := 0, sent := 0 } : Worker).scratchFrames = 0) from hnone)]
    simp only [show EAF_INVALID ≠ EAF_OK by decide, if_true, ne_eq, not_false_eq_true]
    exact ⟨rfl, rfl, _, rfl, .refusedAtOnce _⟩
  · rw [if_neg (show ¬(({ w with pending := 0, sent := 0 } : Worker).scratchFrames = 0) from hnone)]
    simp only
    generalize env.worker.pull w.log w.scratchFrames = answer
    by_cases hrc : answer.rc ≠ EAF_OK
    · rw [if_pos hrc]
      exact ⟨rfl, rfl, _, List.append_assoc _ _ _, .refused answer _ (pulledIn_refused (.inl hrc))⟩
    rw [if_neg hrc]
    by_cases hframes : answer.frames = 0
    · rw [if_pos hframes]
      exact ⟨rfl, rfl, _, rfl, .unanswered answer (pulledIn_refused (.inr (.inl hframes)))⟩
    rw [if_neg hframes]
    by_cases hformat : answer.format ≠ w.format
    · rw [if_pos hformat]
      exact ⟨rfl, rfl, _, List.append_assoc _ _ _,
        .refused answer _ (pulledIn_refused (.inr (.inr hformat)))⟩
    · rw [if_neg hformat]
      obtain ⟨hidle', hsame, samples, hlog⟩ := drain_idle env
        { (emit { w with
            scratch := (List.range (w.scratchFrames.toNat * w.format.numChannels)).map answer.pcm
            pending := 0
            sent := 0 } (.pull answer)) with pending := answer.frames, sent := 0 }
      refine ⟨hidle', hsame, [.pull answer, .wrote answer.frames samples], ?_, .handed _ _ ?_⟩
      · rw [hlog]
        simp
      · have hok : answer.rc = EAF_OK := not_not.mp hrc
        have hsame : answer.format = w.format := not_not.mp hformat
        simp [pulledIn, negotiated, hok, hsame]

theorem decodeBlocks_worker (env : Env) (samples : List Int32) (frames : Nat) :
    ∀ (bs : List (Nat × Nat)) (p : Player),
    (decodeBlocks env samples frames bs p).worker = p.worker := by
  intro bs
  induction bs with
  | nil => exact fun p => rfl
  | cons b rest ih =>
    obtain ⟨first, count⟩ := b
    intro p
    have hblock : (queueBlock env p (Storage.slice samples (first * 2) (count * 2)) count).2.2.worker =
        p.worker := rfl
    simp only [decodeBlocks]
    generalize queueBlock env p (Storage.slice samples (first * 2) (count * 2)) count = r at hblock
    obtain ⟨written, produced, q⟩ := r
    by_cases hshort : written < produced
    · simp only [hshort, if_true]
      exact hblock
    · simp only [hshort, if_false]
      rw [ih q]
      exact hblock

/-- Between two states of the player the worker ran on, and all that the decoder gave came up. -/
structure Runs (p p' : Player) (events : List Event) : Prop where
  idle : Idle p'.worker
  format : p'.worker.format = p.worker.format
  log : p'.worker.log = p.worker.log ++ events
  accounts : ∃ n, Accounts p p' n ∧
    (p.activeRatio = .unity → n = pulledFrames p.worker.format events)

theorem runs_refl {p : Player} (h : Idle p.worker) : Runs p p [] :=
  ⟨h, rfl, by simp, 0, accounts_refl p, fun _ => rfl⟩

theorem Runs.trans {p q r : Player} {a b : List Event} (h : Runs p q a) (h' : Runs q r b) :
    Runs p r (a ++ b) := by
  obtain ⟨n, hn, hcount⟩ := h.accounts
  obtain ⟨m, hm, hcount'⟩ := h'.accounts
  refine ⟨h'.idle, h'.format.trans h.format, ?_, n + m, hn.trans hm, ?_⟩
  · rw [h'.log, h.log, List.append_assoc]
  · intro hratio
    rw [hcount hratio, hcount' (hn.ratio.trans hratio), h.format, pulledFrames_append]

/-- The blocks of a step go through `decode_sink`. -/
theorem foldl_handed (env : Env) {format : Format} {events : List Event}
    (h : Stepped format events) (p : Player) :
    (events.foldl (takeHanded env) p).worker = p.worker ∧
      ∃ n, Accounts p (events.foldl (takeHanded env) p) n ∧
        (p.activeRatio = .unity → n = pulledFrames format events) := by
  cases h with
  | closed => exact ⟨rfl, 0, accounts_refl p, fun _ => rfl⟩
  | refusedAtOnce rc => exact ⟨rfl, 0, accounts_refl p, fun _ => rfl⟩
  | unanswered answer h =>
    refine ⟨rfl, 0, accounts_refl p, fun _ => ?_⟩
    simp [pulledFrames, h]
  | refused answer rc h =>
    refine ⟨rfl, 0, accounts_refl p, fun _ => ?_⟩
    simp [pulledFrames, h]
    rfl
  | handed answer samples h =>
    obtain ⟨n, haccounts, hn⟩ := decodeSink_accounts env p samples answer.frames.toNat
    refine ⟨decodeBlocks_worker env samples _ _ p, n, haccounts, fun hratio => ?_⟩
    rw [hn hratio]
    simp [pulledFrames, h]
    rfl

theorem step_runs {env : Env} {p : Player} (h : Idle p.worker) :
    ∃ events, Runs p (step env p).2 events := by
  obtain ⟨hidle, hformat, events, hlog, hstepped⟩ := @workerStep_idle env p.worker h
  unfold step
  generalize workerStep env.worker p.worker = r at hidle hformat hlog
  obtain ⟨rc, worker⟩ := r
  simp only at hidle hformat hlog ⊢
  rw [hlog, List.drop_left]
  obtain ⟨hworker, n, haccounts, hn⟩ := foldl_handed env hstepped { p with worker := worker }
  refine ⟨events, ?_, ?_, ?_, n, ?_, hn⟩
  · rw [hworker]
    exact hidle
  · rw [hworker]
    exact hformat
  · rw [hworker]
    exact hlog
  · refine ⟨?_, haccounts.offered, haccounts.counted⟩
    conv_lhs => rw [haccounts.same]

theorem canPush_idle {w : Worker} (h : Idle w) : canPush w = w.isOpen := by
  simp [canPush, show w.pending = w.sent from h]

/-- What a push does to the worker. -/
theorem workerPush_idle {env : Env} {w : Worker} (h : Idle w) (data : List UInt8) :
    (w.isOpen = false ∧ workerPush env.worker w (.bytes data) = (EAF_STATE, 0, w)) ∨
    (w.isOpen = true ∧ workerPush env.worker w (.bytes data) =
      ((env.push w.log data).1, (env.push w.log data).2,
        emit w (.push data (env.push w.log data).1 (env.push w.log data).2))) := by
  unfold workerPush
  by_cases hopen : w.isOpen = false
  · rw [if_pos hopen]
    exact .inl ⟨hopen, rfl⟩
  · rw [if_neg hopen, if_neg (by rw [show w.pending = w.sent from h]; exact UInt32.lt_irrefl _)]
    exact .inr ⟨by simpa using hopen, rfl⟩

theorem push_runs {env : Env} {p : Player} (h : Idle p.worker) (data : List UInt8) :
    ∃ events, Runs p
      { p with worker := (workerPush env.worker p.worker (.bytes data)).2.2 } events := by
  rcases @workerPush_idle env p.worker h data with ⟨-, hpush⟩ | ⟨-, hpush⟩
  · rw [hpush]
    exact ⟨[], runs_refl h⟩
  · rw [hpush]
    exact ⟨_, h, rfl, rfl, 0, ⟨rfl, ⟨[], by simp, by simp [acceptedFrames]⟩, by simp⟩, fun _ => rfl⟩

theorem feed_runs {env : Env} : ∀ (guard : Nat) {p : Player} (data : List UInt8),
    Idle p.worker → ∃ events, Runs p (feed env guard p data).2 events := by
  intro guard
  induction guard with
  | zero => exact fun data h => ⟨[], runs_refl h⟩
  | succ guard ih =>
    intro p data h
    rw [feed]
    by_cases hnone : data = []
    · rw [if_pos hnone]
      exact ⟨[], runs_refl h⟩
    rw [if_neg hnone]
    by_cases hpush : canPush p.worker = false
    · -- the worker is closed
      rw [if_pos hpush]
      obtain ⟨events, hruns⟩ := @step_runs env p h
      generalize step env p = r at hruns
      obtain ⟨rc, q⟩ := r
      by_cases hrc : rc ≠ EAF_OK
      · simp only [hrc, ne_eq, not_false_eq_true, if_true]
        exact ⟨events, hruns⟩
      · simp only [hrc, if_false]
        obtain ⟨more, hmore⟩ := ih data hruns.idle
        exact ⟨events ++ more, hruns.trans hmore⟩
    rw [if_neg hpush]
    obtain ⟨events, hruns⟩ := @push_runs env p h data
    generalize workerPush env.worker p.worker (.bytes data) = r at hruns
    obtain ⟨rc, consumed, worker⟩ := r
    simp only at hruns ⊢
    by_cases hrc : rc ≠ EAF_OK
    · rw [if_pos hrc]
      exact ⟨events, hruns⟩
    rw [if_neg hrc]
    by_cases hstuck : consumed = 0
    · rw [if_pos hstuck]
      obtain ⟨more, hmore⟩ := @step_runs env { p with worker := worker } hruns.idle
      generalize step env { p with worker := worker } = r at hmore
      obtain ⟨rc', q⟩ := r
      by_cases hrc' : rc' ≠ EAF_OK
      · simp only [hrc', ne_eq, not_false_eq_true, if_true]
        exact ⟨events ++ more, hruns.trans hmore⟩
      · simp only [hrc', if_false]
        obtain ⟨rest, hrest⟩ := ih data hmore.idle
        exact ⟨_, (hruns.trans hmore).trans hrest⟩
    · rw [if_neg hstuck]
      obtain ⟨more, hmore⟩ := ih (data.drop consumed) hruns.idle
      exact ⟨events ++ more, hruns.trans hmore⟩

theorem drainDecoder_runs {env : Env} : ∀ (i : Nat) {p : Player}, Idle p.worker →
    ∃ events, Runs p (drainDecoder env i p).2 events := by
  intro i
  induction i with
  | zero => exact fun h => ⟨[], runs_refl h⟩
  | succ i ih =>
    intro p h
    rw [drainDecoder]
    obtain ⟨events, hruns⟩ := @step_runs env p h
    generalize step env p = r at hruns
    obtain ⟨rc, q⟩ := r
    simp only
    by_cases hrc : rc ≠ EAF_OK
    · rw [if_pos hrc]
      exact ⟨events, hruns⟩
    rw [if_neg hrc]
    by_cases hdone : q.worker.framesWritten = p.worker.framesWritten ∧ canPush q.worker = true
    · rw [if_pos hdone]
      exact ⟨events, hruns⟩
    · rw [if_neg hdone]
      obtain ⟨more, hmore⟩ := ih hruns.idle
      exact ⟨events ++ more, hruns.trans hmore⟩

theorem writeCompressed_runs {env : Env} {p : Player} (h : Idle p.worker) (data : List UInt8) :
    ∃ events, Runs p (writeCompressed env p data).2 events := by
  unfold writeCompressed
  obtain ⟨events, hruns⟩ := @feed_runs env EAF_SENDPIN_DECODE_STEPS p data h
  generalize feed env EAF_SENDPIN_DECODE_STEPS p data = r at hruns
  obtain ⟨rc, q⟩ := r
  simp only
  by_cases hrc : rc ≠ EAF_OK
  · rw [if_pos hrc]
    exact ⟨events, hruns⟩
  · rw [if_neg hrc]
    obtain ⟨more, hmore⟩ := @drainDecoder_runs env EAF_SENDPIN_DECODE_STEPS q hruns.idle
    exact ⟨events ++ more, hruns.trans hmore⟩

/-! ## A PCM chunk -/

/-- The sink takes each block but the last one in full, when it is offered them one after the
other. -/
def TakesAllButLast (env : Env) : List Offer → List (List Int32 × Nat) → Prop
  | _, [] => True
  | _, [_] => True
  | offers, (samples, count) :: next :: rest =>
    env.sink offers samples count = count ∧
      TakesAllButLast env (offers ++ [⟨samples, count, count⟩]) (next :: rest)

/-- The blocks of a PCM chunk as the sink is to be offered them. -/
def offersOf (p : Player) (pcm : List UInt8) (bs : List (Nat × Nat)) : List (List Int32 × Nat) :=
  bs.map fun b => (scratchOf p pcm b.1 b.2, b.2)

theorem Accounts.offersOf_eq {p p' : Player} {n : Nat} (h : Accounts p p' n) (pcm : List UInt8)
    (bs : List (Nat × Nat)) : offersOf p' pcm bs = offersOf p pcm bs := by
  rw [h.same]
  rfl

/-- The PCM loop counts the blocks up to the first one that the sink is short on. Those behind
it are counted nowhere. -/
theorem pcmBlocks_accounts (env : Env) (pcm : List UInt8) (frames : Nat) :
    ∀ (bs : List (Nat × Nat)) (p : Player) (index : Nat), Chained frames index bs →
    ∃ n, Accounts p (pcmBlocks env pcm bs p) n ∧
      (p.activeRatio = .unity → n ≤ frames - index ∧
        (n = frames - index ↔ TakesAllButLast env p.offers (offersOf p pcm bs))) := by
  intro bs
  induction bs with
  | nil =>
    intro p index hchain
    refine ⟨0, accounts_refl p, fun _ => ⟨Nat.zero_le _, ?_⟩⟩
    rw [show index = frames from hchain, Nat.sub_self]
    simp [offersOf, TakesAllButLast]
  | cons b rest ih =>
    obtain ⟨first, count⟩ := b
    intro p index hchain
    obtain ⟨rfl, hpos, hrest⟩ := hchain
    have hle := hrest.le
    have hblock := queueBlock_accounts env p (scratchOf p pcm first count) count
    have hunity := fun h => @queueBlock_unity env p h (scratchOf p pcm first count) count
    have hsink := env.sink_le p.offers (scratchOf p pcm first count) count
    simp only [pcmBlocks]
    generalize queueBlock env p (scratchOf p pcm first count) count = r at hblock hunity
    obtain ⟨written, produced, q⟩ := r
    simp only at hblock hunity ⊢
    by_cases hshort : written < produced
    · -- the loop ends here
      rw [if_pos hshort]
      refine ⟨produced, hblock, fun hratio => ?_⟩
      obtain ⟨rfl, rfl, -⟩ := hunity hratio
      refine ⟨by omega, ?_⟩
      cases rest with
      | nil =>
        have hend : first + produced = frames := hrest
        simp only [offersOf, List.map_cons, List.map_nil, TakesAllButLast, iff_true]
        omega
      | cons next rest =>
        obtain ⟨_, hmore, hchain⟩ := hrest
        have hlast := hchain.le
        simp only [offersOf, List.map_cons, TakesAllButLast]
        constructor
        · intro hall
          omega
        · intro htaken
          omega
    · rw [if_neg hshort]
      obtain ⟨n, haccounts, hn⟩ := ih q (first + count) hrest
      refine ⟨produced + n, hblock.trans haccounts, fun hratio => ?_⟩
      obtain ⟨rfl, rfl, hoffers⟩ := hunity hratio
      obtain ⟨hbound, hiff⟩ := hn (hblock.ratio.trans hratio)
      have hfull : env.sink p.offers (scratchOf p pcm first produced) produced = produced :=
        Nat.le_antisymm hsink (Nat.le_of_not_lt hshort)
      refine ⟨by omega, ?_⟩
      rw [hoffers, hfull, hblock.offersOf_eq] at hiff
      have hcount : produced + n = frames - first ↔ n = frames - (first + produced) := by omega
      rw [hcount, hiff]
      cases rest with
      | nil => simp [offersOf, TakesAllButLast]
      | cons next rest => simp [offersOf, TakesAllButLast, hfull]

/-! ## The player of a stream -/

/-- What begin makes sure of. -/
structure Sound (p : Player) : Prop where
  active : p.active = true
  pcm : p.compressed = false → (p.inputChannels = 1 ∨ p.inputChannels = 2) ∧
    (p.inputBits = 16 ∨ p.inputBits = 24 ∨ p.inputBits = 32)
  format : p.compressed = true → p.worker.format = p.format
  idle : p.compressed = true → Idle p.worker

theorem openDecoder_sound {env : Env} {p p' : Player} {start : StreamStart}
    (hactive : p.active = true) (h : openDecoder env p start = (EAF_OK, p')) : Sound p' := by
  unfold openDecoder at h
  rcases hinit : workerInit p.decoder p.format p.worker with ⟨rc, w⟩
  simp only [hinit] at h
  by_cases hrc : rc ≠ EAF_OK
  · rw [if_pos hrc] at h
    cases h
  rw [if_neg hrc] at h
  have hformat : w.format = p.format := by
    unfold workerInit at hinit
    split at hinit
    · cases hinit
      exact absurd (by decide) hrc
    · cases hinit
      rfl
  have hopened : ∀ w' : Worker, (workerOpen env.worker w
      ⟨start.sampleRate.toNat, start.channels.toNat⟩) = (EAF_OK, w') →
      w'.format = w.format ∧ Idle w' := by
    intro w' hopen
    unfold workerOpen at hopen
    rcases hdecoder : decoderOpen env.worker { w with log := [] }
      ⟨start.sampleRate.toNat, start.channels.toNat⟩ with ⟨rc', opened⟩
    have hsame : opened.format = w.format := by
      unfold decoderOpen at hdecoder
      split at hdecoder
      · cases hdecoder
        rfl
      · cases hdecoder
        rfl
    simp only [hdecoder] at hopen
    split at hopen
    · cases hopen
      exact absurd rfl ‹_›
    · cases hopen
      exact ⟨hsame, rfl⟩
  generalize workerOpen env.worker w ⟨start.sampleRate.toNat, start.channels.toNat⟩ = r at h hopened
  obtain ⟨rc', w'⟩ := r
  simp only at h
  by_cases hrc' : rc' ≠ EAF_OK
  · rw [if_pos hrc'] at h
    cases h
    exact absurd rfl hrc'
  · rw [if_neg hrc'] at h
    obtain ⟨hsame, hidle⟩ := hopened w' (by rw [not_not.mp hrc'])
    cases h
    exact ⟨hactive, fun hpcm => (by cases hpcm), fun _ => hsame.trans hformat,
      fun _ => hidle⟩

theorem begin_sound {env : Env} {p p' : Player} {start : StreamStart}
    (h : playerBegin env p start = (EAF_OK, p')) : Sound p' := by
  unfold playerBegin at h
  by_cases hactive : p.active = true
  · rw [if_pos hactive] at h
    cases h
  rw [if_neg hactive] at h
  by_cases hchannels : start.channels ≠ 1 ∧ start.channels ≠ 2
  · rw [if_pos hchannels] at h
    cases h
  rw [if_neg hchannels] at h
  by_cases hrate : start.sampleRate = 0
  · rw [if_pos hrate] at h
    cases h
  rw [if_neg hrate] at h
  simp only at h
  have hclosed : ({ p with
    worker := workerClose p.worker, compressed := false, activeRatio := .unity } :
    Player).compressed = false := rfl
  generalize ({ p with
    worker := workerClose p.worker, compressed := false, activeRatio := .unity } : Player) = q
    at h hclosed
  by_cases hunsupported : unsupported q start
  · rw [if_pos hunsupported] at h
    cases h
  rw [if_neg hunsupported] at h
  by_cases hcodec : start.codec ≠ .pcm
  · rw [if_pos hcodec] at h
    exact openDecoder_sound rfl h
  · rw [if_neg hcodec] at h
    cases h
    have hbits : start.bitDepth = 16 ∨ start.bitDepth = 24 ∨ start.bitDepth = 32 := by
      rw [unsupported, if_neg hcodec] at hunsupported
      grind
    have hset : (begun q start).inputBits = start.bitDepth := by
      change (if start.bitDepth ≠ 0 then start.bitDepth else 16) = start.bitDepth
      rw [if_pos]
      rcases hbits with hbits | hbits | hbits <;> rw [hbits] <;> decide
    refine ⟨rfl, fun _ => ⟨?_, ?_⟩, fun hc => ?_, fun hc => ?_⟩
    · change start.channels = 1 ∨ start.channels = 2
      grind
    · rw [hset]
      exact hbits
    · exact absurd (hclosed.symm.trans hc) (by decide)
    · exact absurd (hclosed.symm.trans hc) (by decide)

theorem frameBytes_pos {p : Player} (h : Sound p) (hpcm : p.compressed = false) :
    frameBytes p ≠ 0 := by
  obtain ⟨hchannels, hbits⟩ := h.pcm hpcm
  unfold frameBytes sampleBytes
  rcases hchannels with hc | hc <;> rcases hbits with hb | hb | hb <;> rw [hc, hb] <;> decide

/-! ## A write -/

/-- The frames of a write: those of a PCM chunk, or those that the decoder gave meanwhile. -/
def dueFrames (p p' : Player) (data : List UInt8) : Nat :=
  if p.compressed then pulledFrames p.format (p'.worker.log.drop p.worker.log.length)
  else data.length / frameBytes p

/-- The counters have gone up by what the sink took, and by what was to be written or dropped. -/
structure Accounted (p p' : Player) (data : List UInt8) : Prop where
  written : p'.framesWritten =
    p.framesWritten + UInt32.ofNat (acceptedFrames (p'.offers.drop p.offers.length))
  counted : p'.framesWritten + p'.framesDropped =
    p.framesWritten + p.framesDropped + UInt32.ofNat (dueFrames p p' data)

/-- The counters of a write on a compressed stream, of a late chunk, and of a PCM chunk of which
the sink takes each block but the last in full. -/
def Counts (env : Env) (p : Player) (moment : Moment) (data : List UInt8) : Prop :=
  p.compressed = true ∨ late p moment = true ∨
    TakesAllButLast env p.offers
      (offersOf p data (blocks (UInt32.ofNat (data.length / frameBytes p)).toNat))

/-- The player of a write that is not late. -/
def primed (p : Player) (moment : Moment) : Player :=
  { clocked p moment with activeRatio := playRatio p moment }

theorem write_late {env : Env} {p : Player} {moment : Moment} {data : List UInt8}
    (hactive : p.active = true) (hlate : late p moment = true) :
    playerWrite env p moment (.bytes data) =
      (EAF_OK, { dropChunk (clocked p moment) data with
        chunks := (dropChunk (clocked p moment) data).chunks + 1 }) := by
  simp [playerWrite, hactive, hlate]

theorem write_compressed {env : Env} {p : Player} {moment : Moment} {data : List UInt8}
    (hactive : p.active = true) (hlate : late p moment = false) (hc : p.compressed = true) :
    playerWrite env p moment (.bytes data) =
      ((writeCompressed env (primed p moment) data).1,
      { (writeCompressed env (primed p moment) data).2 with
        chunks := (writeCompressed env (primed p moment) data).2.chunks + 1 }) := by
  have hclocked : (clocked p moment).compressed = true := hc
  simp [playerWrite, hactive, hlate, hclocked, primed]

theorem write_pcm {env : Env} {p : Player} {moment : Moment} {data : List UInt8}
    (hactive : p.active = true) (hlate : late p moment = false) (hpcm : p.compressed = false) :
    playerWrite env p moment (.bytes data) =
      (EAF_OK, writePcm env (primed p moment) data) := by
  have hclocked : (clocked p moment).compressed = false := hpcm
  simp [playerWrite, hactive, hlate, hclocked, primed]

theorem writePcm_loop {env : Env} {p : Player} {data : List UInt8}
    (h : ¬data.length < frameBytes p) :
    writePcm env p data =
      { pcmBlocks env data (blocks (UInt32.ofNat (data.length / frameBytes p)).toNat) p with
        chunks :=
          (pcmBlocks env data (blocks (UInt32.ofNat (data.length / frameBytes p)).toNat) p).chunks +
            1 } := by
  rw [writePcm, if_neg h]

theorem accounted_late {env : Env} {p : Player} {moment : Moment} {data : List UInt8}
    (h : Sound p) (hlate : late p moment = true) :
    Accounted p (playerWrite env p moment (.bytes data)).2 data := by
  rw [write_late h.active hlate]
  unfold dropChunk
  by_cases hc : p.compressed = true
  · have hclocked : ¬((clocked p moment).compressed = false ∧ frameBytes (clocked p moment) ≠ 0) :=
      fun hpcm => absurd (hc.symm.trans hpcm.1) (by decide)
    rw [if_neg hclocked]
    refine ⟨?_, ?_⟩
    · simp [clocked, acceptedFrames]
    · simp [clocked, dueFrames, hc, pulledFrames]
  · have hpcm : p.compressed = false := by simpa using hc
    have hclocked : (clocked p moment).compressed = false ∧ frameBytes (clocked p moment) ≠ 0 :=
      ⟨hpcm, @frameBytes_pos p h hpcm⟩
    rw [if_pos hclocked]
    refine ⟨?_, ?_⟩
    · simp [clocked, acceptedFrames]
    · have hbytes : frameBytes (clocked p moment) = frameBytes p := rfl
      simp only [dueFrames, hpcm, Bool.false_eq_true, if_false, hbytes]
      simp only [clocked]
      ac_rfl

theorem accounted_compressed {env : Env} {p : Player} {moment : Moment} {data : List UInt8}
    (h : Sound p) (hlate : late p moment = false) (hc : p.compressed = true)
    (hratio : playRatio p moment = .unity) :
    Accounted p (playerWrite env p moment (.bytes data)).2 data := by
  rw [write_compressed h.active hlate hc]
  obtain ⟨events, hruns⟩ := @writeCompressed_runs env (primed p moment) (h.idle hc) data
  generalize writeCompressed env (primed p moment) data = r at hruns
  obtain ⟨rc, q⟩ := r
  obtain ⟨n, haccounts, hn⟩ := hruns.accounts
  obtain ⟨offers, hoffers, hwritten⟩ := haccounts.offered
  have hlog : q.worker.log.drop p.worker.log.length = events := by
    rw [hruns.log]
    exact List.drop_left
  have hnew : q.offers.drop p.offers.length = offers := by
    rw [hoffers]
    exact List.drop_left
  refine ⟨?_, ?_⟩
  · simp only [hnew]
    exact hwritten
  · simp only [dueFrames, hc, if_true, hlog, ← h.format hc]
    rw [haccounts.counted, hn hratio]
    rfl

theorem accounted_pcm {env : Env} {p : Player} {moment : Moment} {data : List UInt8}
    (h : Sound p) (hlate : late p moment = false) (hpcm : p.compressed = false)
    (hratio : playRatio p moment = .unity) :
    Accounted p (playerWrite env p moment (.bytes data)).2 data ↔
      TakesAllButLast env p.offers
        (offersOf p data (blocks (UInt32.ofNat (data.length / frameBytes p)).toNat)) := by
  rw [write_pcm h.active hlate hpcm]
  have hbytes : frameBytes (primed p moment) = frameBytes p := rfl
  by_cases hshort : data.length < frameBytes p
  · rw [writePcm, if_pos (by rw [hbytes]; exact hshort), Nat.div_eq_of_lt hshort]
    refine iff_of_true ⟨?_, ?_⟩ (by simp [blocks, blocksFrom, offersOf, TakesAllButLast])
    · simp [primed, clocked, acceptedFrames]
    · simp [primed, clocked, dueFrames, hpcm, Nat.div_eq_of_lt hshort]
  · rw [writePcm_loop (by rw [hbytes]; exact hshort), hbytes]
    generalize hframes : UInt32.ofNat (data.length / frameBytes p) = frames
    obtain ⟨n, haccounts, hn⟩ := pcmBlocks_accounts env data frames.toNat (blocks frames.toNat)
      (primed p moment) 0 (chained_blocks frames.toNat)
    obtain ⟨hle, hiff⟩ := hn hratio
    obtain ⟨offers, hoffers, hwritten⟩ := haccounts.offered
    generalize pcmBlocks env data (blocks frames.toNat) (primed p moment) = q
      at haccounts hoffers hwritten
    have hnew : q.offers.drop p.offers.length = offers := by
      rw [hoffers]
      exact List.drop_left
    have hsame : TakesAllButLast env p.offers (offersOf p data (blocks frames.toNat)) ↔
        n = frames.toNat := hiff.symm.trans (by rw [Nat.sub_zero])
    rw [hsame]
    have hcount : UInt32.ofNat n = frames ↔ n = frames.toNat := by
      have hlt := frames.toNat_lt
      rw [← UInt32.toNat_inj, UInt32.toNat_ofNat']
      omega
    rw [← hcount]
    have hcounted : q.framesWritten + q.framesDropped =
        p.framesWritten + p.framesDropped + UInt32.ofNat n := haccounts.counted
    have hdue : UInt32.ofNat (dueFrames p { q with chunks := q.chunks + 1 } data) = frames := by
      simp only [dueFrames, hpcm, Bool.false_eq_true, if_false, hframes]
    constructor
    · rintro ⟨-, hsum⟩
      rw [hdue] at hsum
      exact (UInt32.add_right_inj _).mp (hcounted.symm.trans hsum)
    · intro hall
      refine ⟨?_, ?_⟩
      · simp only [hnew]
        exact hwritten
      · rw [hdue, ← hall]
        exact hcounted

/-- A player that differs in the counters, the clocks and the worker only. -/
structure Alike (p p' : Player) : Prop where
  active : p'.active = p.active
  compressed : p'.compressed = p.compressed
  channels : p'.inputChannels = p.inputChannels
  bits : p'.inputBits = p.inputBits
  format : p'.format = p.format

theorem Accounts.alike {p p' : Player} {n : Nat} (h : Accounts p p' n) : Alike p p' := by
  constructor <;> rw [h.same]

theorem Sound.alike {p p' : Player} (h : Sound p) (ha : Alike p p')
    (hworker : p.compressed = true → p'.worker.format = p.worker.format ∧ Idle p'.worker) :
    Sound p' := by
  refine ⟨?_, ?_, ?_, ?_⟩
  · rw [ha.active]
    exact h.active
  · rw [ha.compressed, ha.channels, ha.bits]
    exact h.pcm
  · rw [ha.compressed, ha.format]
    exact fun hc => (hworker hc).1.trans (h.format hc)
  · rw [ha.compressed]
    exact fun hc => (hworker hc).2

theorem write_sound {env : Env} {p : Player} (h : Sound p) (moment : Moment) (input : Input) :
    Sound (playerWrite env p moment input).2 := by
  rcases input with data | n
  · by_cases hlate : late p moment = true
    · rw [write_late h.active hlate]
      unfold dropChunk
      split
      · exact h.alike ⟨rfl, rfl, rfl, rfl, rfl⟩ fun hc => ⟨rfl, h.idle hc⟩
      · exact h.alike ⟨rfl, rfl, rfl, rfl, rfl⟩ fun hc => ⟨rfl, h.idle hc⟩
    have hintime : late p moment = false := by simpa using hlate
    by_cases hc : p.compressed = true
    · rw [write_compressed h.active hintime hc]
      obtain ⟨events, hruns⟩ := @writeCompressed_runs env (primed p moment) (h.idle hc) data
      obtain ⟨n, haccounts, -⟩ := hruns.accounts
      obtain ⟨hactive, hcompressed, hchannels, hbits, hformat⟩ := haccounts.alike
      exact h.alike ⟨hactive, hcompressed, hchannels, hbits, hformat⟩
        fun _ => ⟨hruns.format, hruns.idle⟩
    · have hpcm : p.compressed = false := by simpa using hc
      rw [write_pcm h.active hintime hpcm]
      by_cases hshort : data.length < frameBytes (primed p moment)
      · rw [writePcm, if_pos hshort]
        exact h.alike ⟨rfl, rfl, rfl, rfl, rfl⟩ fun hc => ⟨rfl, h.idle hc⟩
      · rw [writePcm_loop hshort]
        obtain ⟨n, haccounts, -⟩ := pcmBlocks_accounts env data _ _ (primed p moment) 0
          (chained_blocks (UInt32.ofNat (data.length / frameBytes (primed p moment))).toNat)
        obtain ⟨hactive, hcompressed, hchannels, hbits, hformat⟩ := haccounts.alike
        exact h.alike ⟨hactive, hcompressed, hchannels, hbits, hformat⟩ fun hc' => absurd hc' hc
  · exact h

theorem Playing.sound {env : Env} {p : Player} (h : Playing env p) : Sound p := by
  induction h with
  | begun h => exact begin_sound h
  | written h moment input ih => exact write_sound ih moment input
  | tuned h dropLate rateControl ih =>
    exact ih.alike ⟨rfl, rfl, rfl, rfl, rfl⟩ fun hc => ⟨rfl, ih.idle hc⟩

/-! ## Exactly when all frames are counted -/

/-- A write at ratio 1.0 counts all frames unless the sink is short on a block of a PCM chunk
that is not the last: the PCM loop leaves out the frames behind that block, which `decode_sink`
counts. -/
theorem drops_counted {env : Env} {p : Player} (h : Playing env p) (moment : Moment)
    (hratio : playRatio p moment = .unity) (data : List UInt8) :
    Accounted p (playerWrite env p moment (.bytes data)).2 data ↔ Counts env p moment data := by
  have hsound := h.sound
  unfold Counts
  by_cases hlate : late p moment = true
  · exact iff_of_true (accounted_late hsound hlate) (.inr (.inl hlate))
  have hintime : late p moment = false := by simpa using hlate
  by_cases hc : p.compressed = true
  · exact iff_of_true (accounted_compressed hsound hintime hc hratio) (.inl hc)
  · have hpcm : p.compressed = false := by simpa using hc
    rw [accounted_pcm hsound hintime hpcm hratio]
    simp [hc, hlate]

/-- A sink that takes nothing, behind an adapter that decodes nothing. -/
def fullSink : Env where
  opens _ := EAF_OK
  push _ data := (EAF_OK, data.length)
  pull _ _ := ⟨EAF_OK, 0, ⟨48000, 2, 3⟩, fun _ => 0⟩
  reset _ := EAF_OK
  sink _ _ _ := 0
  resample _ samples count := (count, samples)
  push_le _ _ := Nat.le_refl _
  pull_le _ _ := Nat.zero_le _
  sink_le _ _ _ := Nat.zero_le _

def idlePlayer : Player where
  format := ⟨0, 0, 0⟩
  inputChannels := 0
  inputBits := 0
  active := false
  synchronized := false
  dropLate := false
  compressed := false
  lastLatencyUs := 0
  framesWritten := 0
  framesDropped := 0
  chunks := 0
  decoder := ⟨false, [], 0⟩
  worker := ⟨⟨0, 0, 0⟩, [], 0, 0, 0, 0, 0, false, []⟩
  activeRatio := .unity
  rateControl := false
  offers := []

/-- Mono PCM of 16 bits. -/
def monoStart : StreamStart := ⟨0, .pcm, 48000, 1, 16, ⟨0, []⟩⟩

def monoPlayer : Player := (playerBegin fullSink idlePlayer monoStart).2

theorem playing_mono : Playing fullSink monoPlayer := @Playing.begun fullSink idlePlayer _ monoStart rfl

/-- A chunk of 129 frames. -/
def longChunk : List UInt8 := List.replicate 258 0

theorem drops_counted_mono :
    Accounted monoPlayer (playerWrite fullSink monoPlayer ⟨true, 0, 0, .unity⟩ (.bytes longChunk)).2
      longChunk ↔ Counts fullSink monoPlayer ⟨true, 0, 0, .unity⟩ longChunk :=
  drops_counted playing_mono ⟨true, 0, 0, .unity⟩ rfl longChunk

/-- The frame behind the first block is counted nowhere. -/
theorem drops_not_counted :
    ¬∀ (env : Env) (p : Player) (moment : Moment) (data : List UInt8), Playing env p →
      playRatio p moment = .unity →
      Accounted p (playerWrite env p moment (.bytes data)).2 data := by
  intro h
  have hcounted := (h fullSink monoPlayer ⟨true, 0, 0, .unity⟩ longChunk playing_mono rfl).counted
  exact absurd hcounted (by decide +kernel)

end EmbeddedAudio.SendspinPlayer
