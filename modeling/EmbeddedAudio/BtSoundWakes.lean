-- Who wakes the decode task of the Bluetooth speaker. A packet does not: the
-- task is told of the events of the link, and by the pulls that leave little in
-- the reservoir. That is enough when a block is no longer than half of it.
import EmbeddedAudio.BtSoundKept

namespace EmbeddedAudio.BtSound

open Bt BtDecoder Storage
open EmbeddedAudio.Core (Spsc Buffer Reservoir Fifo PullDone reservoirInit reservoirLevel levelOf
  pullValid pullState pullTake pullRest spscStep spscStart channelsOf EAF_FRAME_SILENCE)

/-! ## The reservoir of the speaker -/

/-- A pull that is under way asks for a block of the sink, and the stream has not ended. -/
def Asks (n : UInt32) : Core.Consumer → Prop
  | .idle => True
  | .called m => m = n
  | .sawFinished m finished => m = n ∧ finished = false
  | .sawRead m finished _ => m = n ∧ finished = false
  | .copying m finished _ _ _ => m = n ∧ finished = false

/-- The reservoir as `start_audio` sets it up. -/
structure Tuned (n frames : UInt32) (spsc : Spsc) : Prop where
  capacity : spsc.r.capacity = frames
  high : spsc.r.highWatermark = frames / 2
  low : spsc.r.backpressureLow = frames / 2
  wakes : spsc.r.wakeProducer = true
  unfinished : spsc.r.finished = false
  state : spsc.r.state ≠ .drained
  consumer : Asks n spsc.consumer

section Pulls

variable {n frames read available : UInt32} {spsc : Spsc} {r : Reservoir} {loaded : List Int32}

theorem pullState_drained (hstate : r.state ≠ .drained) (available n : UInt32) :
    pullState r available n ≠ .drained := by
  unfold pullState
  dsimp only
  split
  · simp
  · split
    · simp
    · exact hstate

theorem pullRest_drained (hstate : r.state ≠ .drained) :
    (pullRest r false read available n loaded).reservoir.state ≠ .drained := by
  have hkeeps := pullState_drained hstate available n
  unfold pullRest
  dsimp only
  rw [if_neg Bool.false_ne_true]
  split
  · split <;> simp
  · exact hkeeps

/-- A pull that wakes nobody has a whole block, and leaves half of the reservoir. -/
theorem pullRest_quiet (hhigh : r.highWatermark = frames / 2)
    (hlow : r.backpressureLow = frames / 2) (hwakes : r.wakeProducer = true)
    (hstate : r.state ≠ .drained) (hn : 0 < n) (hhalf : n ≤ frames / 2)
    (hquiet : (pullRest r false read available n loaded).wake = false) :
    (pullRest r false read available n loaded).flags = 0 ∧ pullTake r false available n = n ∧
      n.toNat + (frames / 2).toNat ≤ available.toNat := by
  have hkeeps := pullState_drained hstate available n
  rw [UInt32.lt_iff_toNat_lt] at hn
  rw [UInt32.le_iff_toNat_le] at hhalf
  have hzero : (0 : UInt32).toNat = 0 := rfl
  unfold pullRest at hquiet ⊢
  dsimp only at hquiet ⊢
  rw [if_neg Bool.false_ne_true] at hquiet ⊢
  by_cases hstream : pullState r available n = .streaming
  · have htake : pullTake r false available n = if available < n then available else n := by
      unfold pullTake
      rw [if_pos (.inr hstream)]
    rw [if_pos hstream] at hquiet ⊢
    rw [htake] at hquiet ⊢
    by_cases hshort : available < n
    · -- An empty reservoir is less than half full.
      rw [if_pos hshort, if_pos hshort, UInt32.sub_self, hlow, hwakes, Bool.and_true] at hquiet
      have hempty := of_decide_eq_false hquiet
      rw [UInt32.lt_iff_toNat_lt] at hempty
      omega
    · rw [if_neg hshort, if_neg (UInt32.lt_irrefl n), hlow, hwakes, Bool.and_true] at hquiet
      rw [if_neg hshort, if_neg (UInt32.lt_irrefl n)]
      have hrest := of_decide_eq_false hquiet
      have henough := UInt32.le_iff_toNat_le.mp (UInt32.not_lt.mp hshort)
      rw [UInt32.lt_iff_toNat_lt, UInt32.toNat_sub_of_le _ _ (UInt32.not_lt.mp hshort)] at hrest
      exact ⟨rfl, rfl, by omega⟩
  · rw [if_neg hstream, hlow, hwakes, Bool.and_true] at hquiet
    have hrest := of_decide_eq_false hquiet
    rw [UInt32.lt_iff_toNat_lt] at hrest
    -- Half of the reservoir opens the gate.
    refine absurd ?_ hstream
    unfold pullState at hstream ⊢
    dsimp only at hstream ⊢
    by_cases hunder : r.state = .underrun
    · rw [if_pos hunder]
      rfl
    · rw [if_neg hunder] at hstream ⊢
      cases hr : r.state with
      | prebuffering =>
        apply if_pos
        refine ⟨rfl, ?_, ?_⟩
        · rw [hhigh, ge_iff_le, UInt32.le_iff_toNat_le]
          omega
        · rw [ge_iff_le, UInt32.le_iff_toNat_le]
          omega
      | streaming => rfl
      | underrun => exact absurd hr hunder
      | drained => exact absurd hr hstate

theorem tuned_consumerStep (h : Tuned n frames spsc) : Tuned n frames (Core.consumerStep spsc) := by
  have hasks := h.consumer
  rcases hc : spsc.consumer with _ | m | ⟨m, finished⟩ | ⟨m, finished, read⟩ |
    ⟨m, finished, read, available, loaded⟩ <;> rw [hc] at hasks
  · rw [Core.consumerStep_idle hc]
    exact h
  · rw [Core.consumerStep_called hc]
    exact { h with consumer := ⟨hasks, h.unfinished⟩ }
  · rw [Core.consumerStep_sawFinished hc]
    exact { h with consumer := hasks }
  · rw [Core.consumerStep_sawRead hc]
    exact { h with consumer := hasks }
  · obtain ⟨rfl, rfl⟩ := hasks
    by_cases hmore : loaded.length < (pullTake spsc.r false available m).toNat * channelsOf spsc
    · rw [Core.consumerStep_load hc hmore]
      exact { h with consumer := ⟨rfl, rfl⟩ }
    · rw [Core.consumerStep_release hc hmore]
      have hstate : (pullRest spsc.r false read available m loaded).reservoir.state ≠ .drained :=
        pullRest_drained h.state
      have hframe := Core.pullRest_frame spsc.r false read available m loaded
      refine ⟨?_, ?_, ?_, ?_, ?_, hstate, trivial⟩ <;> rw [hframe]
      · exact h.capacity
      · exact h.high
      · exact h.low
      · exact h.wakes
      · exact h.unfinished

theorem tuned_producerStep (h : Tuned n frames spsc) : Tuned n frames (Core.producerStep spsc) := by
  rw [Core.producerStep_frame]
  exact ⟨h.capacity, h.high, h.low, h.wakes, h.unfinished, h.state, h.consumer⟩

theorem tuned_write (h : Tuned n frames spsc) (src : List Int32) (count : UInt32) :
    Tuned n frames (spscStep spsc (.write src count)) := by
  unfold spscStep
  dsimp only
  split
  · exact { h with }
  · exact h

theorem tuned_pull (h : Tuned n frames spsc) (format : Format) :
    Tuned n frames (spscStep spsc (.pull (sinkBlock n format))) := by
  unfold spscStep
  dsimp only
  split
  · exact { h with consumer := rfl }
  · exact h

end Pulls

/-! ## The output task and its pulls -/

/-- The output task is in a pull when it says so. -/
def Pulling (s : Sound) : Prop := s.output = .pulling ↔ s.spsc.consumer ≠ .idle

structure Paced (n frames : UInt32) (s : Sound) : Prop where
  tuned : Tuned n frames s.spsc
  pulling : Pulling s

section Paced

variable {n frames : UInt32} {s : Sound} {codec : Codec}

theorem paced_wakeDecode (h : Paced n frames s) : Paced n frames (wakeDecode s) := by
  unfold wakeDecode
  split
  · exact h
  · exact ⟨h.tuned, h.pulling⟩

theorem paced_callWrite (h : Paced n frames s) : Paced n frames (callWrite s) := by
  refine ⟨tuned_write h.tuned _ _, ?_⟩
  have hpulling := h.pulling
  unfold Pulling callWrite spscStep at *
  dsimp only
  split <;> exact hpulling

theorem paced_decoded (h : Paced n frames s) (before : UInt32) (result : Rc × Decoder) :
    Paced n frames (decoded s before result) := by
  unfold decoded
  split
  · exact ⟨h.tuned, h.pulling⟩
  · exact paced_callWrite ⟨h.tuned, h.pulling⟩

theorem paced_goOn (h : Paced n frames s) (before : UInt32) :
    Paced n frames (goOn codec s before) := by
  unfold goOn
  dsimp only
  split
  · exact paced_decoded ⟨h.tuned, h.pulling⟩ ..
  · exact ⟨h.tuned, h.pulling⟩

theorem paced_writeStep (h : Paced n frames s) {next : Sound → Sound}
    (hnext : ∀ s', Paced n frames s' → Paced n frames (next s')) :
    Paced n frames (writeStep codec s next) := by
  have hgoes : ∀ d : Decoder, Paced n frames
      { s with spsc := Core.producerStep s.spsc, decoder := d } := by
    intro d
    refine ⟨tuned_producerStep h.tuned, ?_⟩
    have hpulling := h.pulling
    unfold Pulling at *
    rw [Core.producerStep_frame]
    exact hpulling
  unfold writeStep
  dsimp only
  split
  · exact hgoes s.decoder
  · exact hnext _ (hgoes _)

theorem paced_decodeStep (h : Paced n frames s) : Paced n frames (decodeStep codec s) := by
  unfold decodeStep
  split
  · exact ⟨h.tuned, h.pulling⟩
  · split
    · exact ⟨h.tuned, h.pulling⟩
    · exact h
  · exact ⟨h.tuned, h.pulling⟩
  · exact ⟨h.tuned, h.pulling⟩
  · split
    · exact paced_callWrite ⟨h.tuned, h.pulling⟩
    · exact paced_goOn h _
  · apply paced_writeStep h
    intro s' h'
    split
    · exact ⟨h'.tuned, h'.pulling⟩
    · exact paced_goOn h' _
  · unfold popStep
    dsimp only
    split
    · split <;> exact ⟨h.tuned, h.pulling⟩
    · exact ⟨h.tuned, h.pulling⟩
    · apply paced_decoded
      exact ⟨h.tuned, h.pulling⟩
  · apply paced_writeStep h
    intro s' h'
    exact ⟨h'.tuned, h'.pulling⟩
  · exact ⟨h.tuned, h.pulling⟩
  · exact ⟨h.tuned, h.pulling⟩
  · exact ⟨h.tuned, h.pulling⟩

theorem paced_outputStep (h : Paced n frames s) (ok : Bool) :
    Paced n frames (outputStep n s ok) := by
  have hpulling := h.pulling
  unfold outputStep
  rcases ho : s.output with _ | _ | _ <;> dsimp only
  · split
    · rename_i hvalid
      refine ⟨tuned_pull h.tuned _, ?_⟩
      have hidle : s.spsc.consumer = .idle := by
        by_contra hne
        exact Output.noConfusion (ho.symm.trans (hpulling.mpr hne))
      unfold Pulling spscStep
      dsimp only
      rw [if_pos ⟨hidle, hvalid.2⟩]
      simp
    · exact h
  · refine ⟨tuned_consumerStep h.tuned, ?_⟩
    unfold Pulling
    dsimp only
    by_cases hidle : (Core.consumerStep s.spsc).consumer = .idle
    · rw [if_pos hidle]
      simp only [hidle, ne_eq, not_true_eq_false, iff_false]
      split <;> simp
    · rw [if_neg hidle]
      simp [hidle]
  · apply paced_wakeDecode
    refine ⟨h.tuned, ?_⟩
    unfold Pulling at *
    rw [ho] at hpulling
    simpa using hpulling

theorem paced_soundStep (h : Paced n frames s) (action : Action) :
    Paced n frames (soundStep codec n s action) := by
  cases action with
  | audioData buf =>
    unfold soundStep
    dsimp only
    split
    · exact ⟨h.tuned, h.pulling⟩
    · exact h
  | a2d event =>
    unfold soundStep
    dsimp only
    split
    · exact ⟨h.tuned, h.pulling⟩
    · exact h
  | callback =>
    show Paced n frames (callbackStep s)
    unfold callbackStep
    split
    · exact paced_wakeDecode ⟨h.tuned, h.pulling⟩
    · exact ⟨h.tuned, h.pulling⟩
  | decode => exact paced_decodeStep h
  | output ok => exact paced_outputStep h ok

theorem paced_soundRun (h : Paced n frames s) (actions : List Action) :
    Paced n frames (soundRun codec n s actions) :=
  soundRun_law (I := Paced n frames) (fun _ action hs => paced_soundStep hs action) h actions

theorem paced_startAudio {sizeMax sampleRate : Nat}
    (h : startAudio codec sizeMax sampleRate frames = .ok s) : Paced n frames s := by
  obtain ⟨reservoir, decoder, hreservoir, -, rfl⟩ := startAudio_ok h
  unfold reservoirInit at hreservoir
  dsimp only at hreservoir
  split at hreservoir
  · cases hreservoir
  cases hreservoir
  exact ⟨⟨rfl, rfl, rfl, rfl, rfl, by simp [spscStart, Core.reservoirReset], trivial⟩,
    by simp [Pulling, spscStart]⟩

end Paced

/-! ## A decode task that sleeps -/

/-- The decode task waits, and nobody is about to wake it from the output. -/
def Asleep (s : Sound) : Prop :=
  s.decode = .waiting ∧ s.notified = false ∧ s.output ≠ .waking

instance (s : Sound) : Decidable (Asleep s) := inferInstanceAs (Decidable (_ ∧ _ ∧ _))

section Asleep

variable {n frames : UInt32} {s t : Sound} {codec : Codec}

/-- What the output has had since `s`, with a decode task that slept all the time. -/
structure Fed (n frames : UInt32) (s t : Sound) (pulls : List PullDone) : Prop where
  gained : t.spsc.pulls = s.spsc.pulls ++ pulls
  whole : ∀ pull ∈ pulls, pull.pulled.flags = 0
  accepted : t.spsc.accepted = s.spsc.accepted
  delivered : t.spsc.delivered.length = s.spsc.delivered.length + pulls.length * (n.toNat * 2)
  left : pulls = [] ∨
    t.spsc.delivered.length + (frames / 2).toNat * 2 ≤ t.spsc.accepted.length

/-- A step of the output. -/
theorem fed_consumerStep (hflows : Flows t) (hpaced : Paced n frames t) (hn : 0 < n)
    (hhalf : n ≤ frames / 2) {pulls : List PullDone} (h : Fed n frames s t pulls)
    (ho : t.output = .pulling) {ok : Bool} (hasleep : (outputStep n t ok).output ≠ .waking) :
    ∃ pulls', Fed n frames s (outputStep n t ok) pulls' := by
  have hasks := hpaced.tuned.consumer
  obtain ⟨w, r, hfifo⟩ := hflows.steady.fifo
  have hgoes : ∀ {c : Core.Consumer}, Core.consumerStep t.spsc = { t.spsc with consumer := c } →
      ∃ pulls', Fed n frames s (outputStep n t ok) pulls' := by
    intro c hstep
    refine ⟨pulls, ?_⟩
    unfold outputStep
    rw [ho]
    dsimp only
    rw [hstep]
    exact ⟨h.gained, h.whole, h.accepted, h.delivered, h.left⟩
  rcases hc : t.spsc.consumer with _ | m | ⟨m, finished⟩ | ⟨m, finished, read⟩ |
    ⟨m, finished, read, available, loaded⟩ <;> rw [hc] at hasks
  · exact absurd hc (hpaced.pulling.mp ho)
  · exact hgoes (Core.consumerStep_called hc)
  · exact hgoes (Core.consumerStep_sawFinished hc)
  · exact hgoes (Core.consumerStep_sawRead hc)
  obtain ⟨rfl, rfl⟩ := hasks
  by_cases hmore : loaded.length < (pullTake t.spsc.r false available m).toNat * channelsOf t.spsc
  · exact hgoes (Core.consumerStep_load hc hmore)
  -- The pull returns, and it has not waked the task.
  obtain ⟨-, havailable, hloaded, -⟩ := Core.copied_all hfifo hc hmore
  have hrelease := Core.release_eq hfifo hc hmore
  set pulled := pullRest t.spsc.r false t.spsc.r.readCursor available m loaded with hpulled
  have hquiet : pulled.wake = false := by
    unfold outputStep at hasleep
    rw [ho] at hasleep
    dsimp only at hasleep
    rw [hrelease] at hasleep
    simpa using hasleep
  obtain ⟨hflags, htake, hrest⟩ := pullRest_quiet hpaced.tuned.high hpaced.tuned.low
    hpaced.tuned.wakes hpaced.tuned.state hn hhalf hquiet
  rw [htake, hflows.steady.channels] at hloaded
  have hdelivered : t.spsc.delivered.length = r * 2 := by
    have hle := hfifo.le
    rw [hfifo.order, List.length_take, hfifo.accepted, hflows.steady.channels]
    omega
  have haccepted : t.spsc.accepted.length = w * 2 := by
    rw [hfifo.accepted, hflows.steady.channels]
  have hbefore := h.delivered
  refine ⟨pulls ++ [⟨m, false, available, pulled, t.spsc.accepted, t.spsc.delivered ++ loaded⟩], ?_⟩
  unfold outputStep
  rw [ho]
  dsimp only
  rw [hrelease]
  refine ⟨?_, ?_, h.accepted, ?_, .inr ?_⟩
  · show t.spsc.pulls ++ _ = _
    rw [h.gained, List.append_assoc]
  · intro pull hmem
    rcases List.mem_append.mp hmem with hold | hnew
    · exact h.whole pull hold
    · rw [List.mem_singleton.mp hnew]
      exact hflags
  · show (t.spsc.delivered ++ loaded).length = _
    rw [List.length_append, List.length_append, List.length_singleton, Nat.add_mul]
    omega
  · show (t.spsc.delivered ++ loaded).length + _ ≤ t.spsc.accepted.length
    rw [List.length_append]
    omega

theorem Fed.congr {u : Sound} {pulls : List PullDone} (h : Fed n frames s t pulls)
    (hpulls : u.spsc.pulls = t.spsc.pulls) (haccepted : u.spsc.accepted = t.spsc.accepted)
    (hdelivered : u.spsc.delivered = t.spsc.delivered) : Fed n frames s u pulls := by
  refine ⟨hpulls.trans h.gained, h.whole, haccepted.trans h.accepted, ?_, ?_⟩
  · rw [hdelivered]
    exact h.delivered
  · rw [hdelivered, haccepted]
    exact h.left

theorem wakeDecode_spsc (s : Sound) : (wakeDecode s).spsc = s.spsc := by
  unfold wakeDecode
  split <;> rfl

theorem fed_soundStep (hflows : Flows t) (hpaced : Paced n frames t) (hn : 0 < n)
    (hhalf : n ≤ frames / 2) {pulls : List PullDone} (h : Fed n frames s t pulls)
    (hasleep : Asleep t) (action : Action) (hstill : Asleep (soundStep codec n t action)) :
    ∃ pulls', Fed n frames s (soundStep codec n t action) pulls' := by
  cases action with
  | audioData buf =>
    refine ⟨pulls, ?_⟩
    unfold soundStep
    dsimp only
    split
    · exact h.congr rfl rfl rfl
    · exact h
  | a2d event =>
    refine ⟨pulls, ?_⟩
    unfold soundStep
    dsimp only
    split
    · exact h.congr rfl rfl rfl
    · exact h
  | callback =>
    refine ⟨pulls, ?_⟩
    show Fed n frames s (callbackStep t) pulls
    unfold callbackStep
    split
    · apply h.congr <;> rw [wakeDecode_spsc]
    · exact h.congr rfl rfl rfl
  | decode =>
    refine ⟨pulls, ?_⟩
    show Fed n frames s (decodeStep codec t) pulls
    obtain ⟨hwaiting, hnotified, -⟩ := hasleep
    unfold decodeStep
    rw [hwaiting, hnotified]
    exact h
  | output ok =>
    have houtput := hstill.2.2
    change (outputStep n t ok).output ≠ .waking at houtput
    show ∃ pulls', Fed n frames s (outputStep n t ok) pulls'
    rcases ho : t.output with _ | _ | _
    · refine ⟨pulls, ?_⟩
      unfold outputStep spscStep
      rw [ho]
      dsimp only
      split
      · apply h.congr <;> split <;> rfl
      · exact h
    · exact fed_consumerStep hflows hpaced hn hhalf h ho houtput
    · exact absurd ho hasleep.2.2

theorem fed_soundRun (hflows : Flows s) (hpaced : Paced n frames s) (hn : 0 < n)
    (hhalf : n ≤ frames / 2) (actions : List Action)
    (hasleep : ∀ part, part <+: actions → Asleep (soundRun codec n s part)) :
    ∃ pulls, Fed n frames s (soundRun codec n s actions) pulls := by
  induction actions using List.reverseRecOn with
  | nil =>
    refine ⟨[], (List.append_nil _).symm, fun _ hmem => absurd hmem List.not_mem_nil, rfl, ?_,
      .inl rfl⟩
    rw [List.length_nil, Nat.zero_mul]
    rfl
  | append_singleton actions action ih =>
    have hshorter := List.prefix_append actions [action]
    obtain ⟨pulls, hfed⟩ := ih fun part hpart => hasleep part (hpart.trans hshorter)
    have hstill := hasleep _ (List.prefix_refl _)
    rw [soundRun_snoc] at hstill ⊢
    exact fed_soundStep (flows_soundRun codec hflows n actions) (paced_soundRun hpaced actions) hn
      hhalf hfed (hasleep actions hshorter) action hstill

end Asleep

/-- A decode task that sleeps is not missed. When a block is no longer than half of the reservoir,
each block that the output takes while the task sleeps is whole, and after half of the reservoir
the task is woken. -/
theorem sleep_is_fed {codec : Codec} {sizeMax sampleRate : Nat} {frames : UInt32} {start : Sound}
    (h : startAudio codec sizeMax sampleRate frames = .ok start) {n : UInt32} (hn : 0 < n)
    (hhalf : n ≤ frames / 2) (before after : List Action)
    (hasleep : ∀ part, part <+: after → Asleep (soundRun codec n start (before ++ part))) :
    let s := soundRun codec n start before
    let t := soundRun codec n start (before ++ after)
    ∃ pulls, t.spsc.pulls = s.spsc.pulls ++ pulls ∧ (∀ pull ∈ pulls, pull.pulled.flags = 0) ∧
      t.spsc.delivered.length = s.spsc.delivered.length + pulls.length * (n.toNat * 2) ∧
      pulls.length * n.toNat + (frames / 2).toNat ≤ frames.toNat := by
  intro s t
  have hflows : Flows s := flows_soundRun codec (flows_startAudio h) n before
  have hpaced : Paced n frames s := paced_soundRun (paced_startAudio h) before
  have hrun : t = soundRun codec n s after := soundRun_append ..
  have hsleeps : ∀ part, part <+: after → Asleep (soundRun codec n s part) := by
    intro part hpart
    rw [← soundRun_append]
    exact hasleep part hpart
  obtain ⟨pulls, hfed⟩ := fed_soundRun hflows hpaced hn hhalf after hsleeps
  rw [← hrun] at hfed
  refine ⟨pulls, hfed.gained, hfed.whole, hfed.delivered, ?_⟩
  obtain ⟨w, r, hfifo⟩ := hflows.steady.fifo
  have hlevel : w ≤ r + frames.toNat := by
    rw [← hpaced.tuned.capacity]
    exact hfifo.level
  have hle := hfifo.le
  have hchannels := hflows.steady.channels
  have haccepted : t.spsc.accepted.length = w * 2 := by
    rw [hfed.accepted, hfifo.accepted, hchannels]
  have hdelivered : s.spsc.delivered.length = r * 2 := by
    rw [hfifo.order, List.length_take, hfifo.accepted, hchannels]
    omega
  have hgained := hfed.delivered
  rw [hdelivered, ← Nat.mul_assoc] at hgained
  rcases hfed.left with hnone | hleft
  · rw [hnone, List.length_nil, UInt32.toNat_div, Nat.zero_mul, Nat.zero_add]
    exact Nat.div_le_self ..
  · rw [haccepted] at hleft
    omega

theorem sleep_is_fed_twoPulls :
    let after := List.replicate 20 (Action.output true)
    let s := soundRun twoOfEach 1 smallSpeaker (packetsDecoded 2)
    let t := soundRun twoOfEach 1 smallSpeaker (packetsDecoded 2 ++ after)
    ∃ pulls, t.spsc.pulls = s.spsc.pulls ++ pulls ∧ (∀ pull ∈ pulls, pull.pulled.flags = 0) ∧
      t.spsc.delivered.length = s.spsc.delivered.length + pulls.length * (1 * 2) ∧
      pulls.length * 1 + 2 ≤ 4 := by
  intro after
  have hasleep : ∀ part ∈ after.inits,
      Asleep (soundRun twoOfEach 1 smallSpeaker (packetsDecoded 2 ++ part)) := by
    decide +kernel
  exact @sleep_is_fed twoOfEach 0xFFFFFFFF 44100 4 smallSpeaker rfl 1 (by decide) (by decide)
    (packetsDecoded 2) after fun part hpart => hasleep part ((List.mem_inits part after).mpr hpart)

/-! ## A block that is longer than half of the reservoir -/

section Stuck

variable {n frames level : UInt32} {s t : Sound} {codec : Codec}

/-- In front of the gate, with half of the reservoir and less than a block, a pull takes nothing
and wakes nobody. -/
theorem pullRest_stuck {r : Reservoir} (hstate : r.state = .prebuffering)
    (hlow : r.backpressureLow = frames / 2) (hhalf : frames / 2 ≤ level) (hshort : level < n)
    (read : UInt32) (loaded : List Int32) :
    pullTake r false level n = 0 ∧
      pullRest r false read level n loaded =
        ⟨r, EAF_FRAME_SILENCE, List.replicate (n.toNat * r.format.numChannels) 0, false⟩ := by
  have hgate : pullState r level n = .prebuffering := by
    unfold pullState
    rw [hstate]
    simp only [reduceCtorEq, if_false, true_and]
    rw [if_neg]
    rintro ⟨-, henough⟩
    exact absurd hshort (UInt32.not_lt.mpr henough)
  have hnot : ¬ (Core.ReservoirState.prebuffering = .streaming) := by simp
  refine ⟨?_, ?_⟩
  · unfold pullTake
    rw [hgate, if_neg (by simp)]
  · have hquiet : decide (level < r.backpressureLow) = false := by
      rw [hlow, decide_eq_false_iff_not, UInt32.not_lt]
      exact hhalf
    unfold pullRest
    dsimp only
    rw [if_neg Bool.false_ne_true, hgate, if_neg hnot, hquiet, ← hstate]
    rfl

/-- A pull that is under way finds the level that there is. -/
def Finds (level : UInt32) (spsc : Spsc) : Prop :=
  match spsc.consumer with
  | .sawRead _ _ read => read = spsc.r.readCursor
  | .copying _ _ _ available _ => available = level
  | _ => True

/-- Nothing has moved since `s` but the pulls, which were silent. -/
structure Stuck (level : UInt32) (s t : Sound) : Prop where
  waiting : t.decode = .waiting
  notified : t.notified = false
  telling : t.telling = false
  output : t.output ≠ .waking
  state : t.spsc.r.state = .prebuffering
  remains : t.spsc.r.writeCursor - t.spsc.r.readCursor = level
  finds : Finds level t.spsc
  delivered : t.spsc.delivered = s.spsc.delivered
  silent : ∃ pulls, t.spsc.pulls = s.spsc.pulls ++ pulls ∧
    ∀ pull ∈ pulls, pull.pulled.flags = EAF_FRAME_SILENCE

theorem stuck_consumerStep (hpaced : Paced n frames t) (hhalf : frames / 2 ≤ level)
    (hshort : level < n) (h : Stuck level s t) (ho : t.output = .pulling) (ok : Bool) :
    Stuck level s (outputStep n t ok) := by
  have hasks := hpaced.tuned.consumer
  have hfinds := h.finds
  have hgoes : ∀ {c : Core.Consumer}, c ≠ .idle →
      Core.consumerStep t.spsc = { t.spsc with consumer := c } →
      Finds level { t.spsc with consumer := c } → Stuck level s (outputStep n t ok) := by
    intro c hne hstep hfinds'
    unfold outputStep
    rw [ho]
    dsimp only
    rw [hstep]
    refine ⟨h.waiting, h.notified, h.telling, ?_, h.state, h.remains, hfinds', h.delivered,
      h.silent⟩
    dsimp only
    rw [if_neg hne]
    simp
  unfold Finds at hfinds
  rcases hc : t.spsc.consumer with _ | m | ⟨m, finished⟩ | ⟨m, finished, read⟩ |
    ⟨m, finished, read, available, loaded⟩ <;> rw [hc] at hasks hfinds
  · exact absurd hc (hpaced.pulling.mp ho)
  · exact hgoes (by simp) (Core.consumerStep_called hc) trivial
  · exact hgoes (by simp) (Core.consumerStep_sawFinished hc) rfl
  · refine hgoes (by simp) (Core.consumerStep_sawRead hc) ?_
    show t.spsc.r.writeCursor - read = level
    rw [show read = _ from hfinds]
    exact h.remains
  obtain ⟨rfl, rfl⟩ := hasks
  obtain rfl : available = level := hfinds
  obtain ⟨htake, hrest⟩ := pullRest_stuck h.state hpaced.tuned.low hhalf hshort read loaded
  have hdone :
      ¬ loaded.length < (pullTake t.spsc.r false available m).toNat * channelsOf t.spsc := by
    rw [htake]
    show ¬ loaded.length < 0 * _
    omega
  have hrelease := Core.consumerStep_release hc hdone
  rw [hrest, htake] at hrelease
  obtain ⟨pulls, hpulls, hsilent⟩ := h.silent
  have hdelivered : ∀ block : List Int32, t.spsc.delivered ++
      block.take ((0 : UInt32).toNat * channelsOf t.spsc) = t.spsc.delivered := by
    intro block
    rw [show (0 : UInt32).toNat = 0 from rfl, Nat.zero_mul, List.take_zero, List.append_nil]
  have hmore : ∀ done : PullDone, done.pulled.flags = EAF_FRAME_SILENCE → ∃ pulls',
      t.spsc.pulls ++ [done] = s.spsc.pulls ++ pulls' ∧
        ∀ pull ∈ pulls', pull.pulled.flags = EAF_FRAME_SILENCE := by
    intro done hdone
    refine ⟨pulls ++ [done], by rw [hpulls, List.append_assoc], fun pull hmem => ?_⟩
    rcases List.mem_append.mp hmem with hold | hnew
    · exact hsilent pull hold
    · rw [List.mem_singleton.mp hnew]
      exact hdone
  rw [hdelivered] at hrelease
  unfold outputStep
  rw [ho]
  dsimp only
  rw [hrelease]
  exact ⟨h.waiting, h.notified, h.telling, by simp, h.state, h.remains, trivial, h.delivered,
    hmore _ rfl⟩

theorem stuck_soundStep (hpaced : Paced n frames t) (hhalf : frames / 2 ≤ level)
    (hshort : level < n) (h : Stuck level s t) (action : Action)
    (hquiet : ∀ event, action ≠ .a2d event) : Stuck level s (soundStep codec n t action) := by
  cases action with
  | audioData buf =>
    unfold soundStep
    dsimp only
    split
    · exact { h with }
    · exact h
  | a2d event => exact absurd rfl (hquiet event)
  | callback =>
    show Stuck level s (callbackStep t)
    unfold callbackStep
    rw [if_neg (by simp [h.telling])]
    exact { h with }
  | decode =>
    show Stuck level s (decodeStep codec t)
    unfold decodeStep
    rw [h.waiting, h.notified]
    exact h
  | output ok =>
    show Stuck level s (outputStep n t ok)
    rcases ho : t.output with _ | _ | _
    · unfold outputStep spscStep
      rw [ho]
      dsimp only
      split
      · split
        · exact ⟨h.waiting, h.notified, h.telling, by simp, h.state, h.remains, trivial,
            h.delivered, h.silent⟩
        · exact ⟨h.waiting, h.notified, h.telling, by simp, h.state, h.remains, h.finds,
            h.delivered, h.silent⟩
      · exact h
    · exact stuck_consumerStep hpaced hhalf hshort h ho ok
    · exact absurd ho h.output

theorem stuck_soundRun (codec : Codec) (hpaced : Paced n frames t) (hhalf : frames / 2 ≤ level)
    (hshort : level < n) (h : Stuck level s t) (actions : List Action)
    (hquiet : ∀ action ∈ actions, ∀ event, action ≠ .a2d event) :
    Stuck level s (soundRun codec n t actions) := by
  induction actions generalizing t with
  | nil => exact h
  | cons action actions ih =>
    apply ih (paced_soundStep hpaced action)
    · exact stuck_soundStep hpaced hhalf hshort h action (hquiet action List.mem_cons_self)
    · exact fun action' hmem => hquiet action' (List.mem_cons_of_mem action hmem)

end Stuck

/-- A decode task that sleeps too long. In front of the gate, with half of the reservoir full and
less than a block in it, the output stays silent and wakes nobody, for as long as the link has no
event and however many packets come. -/
theorem sleep_is_final {codec : Codec} {sizeMax sampleRate : Nat} {frames : UInt32} {start : Sound}
    (h : startAudio codec sizeMax sampleRate frames = .ok start) {n : UInt32}
    (before after : List Action) (hasleep : Asleep (soundRun codec n start before))
    (htold : (soundRun codec n start before).telling = false)
    (hbetween : (soundRun codec n start before).output = .acquiring)
    (hclosed : (soundRun codec n start before).spsc.r.state = .prebuffering)
    (hhalf : frames / 2 ≤ reservoirLevel (soundRun codec n start before).spsc.r)
    (hshort : reservoirLevel (soundRun codec n start before).spsc.r < n)
    (hquiet : ∀ action ∈ after, ∀ event, action ≠ .a2d event) :
    let s := soundRun codec n start before
    let t := soundRun codec n start (before ++ after)
    t.decode = .waiting ∧ t.spsc.delivered = s.spsc.delivered ∧
      ∃ pulls, t.spsc.pulls = s.spsc.pulls ++ pulls ∧
        ∀ pull ∈ pulls, pull.pulled.flags = EAF_FRAME_SILENCE := by
  intro s t
  have hflows : Flows s := flows_soundRun codec (flows_startAudio h) n before
  have hpaced : Paced n frames s := paced_soundRun (paced_startAudio h) before
  obtain ⟨w, r, hfifo⟩ := hflows.steady.fifo
  have hlevel : s.spsc.r.writeCursor - s.spsc.r.readCursor = reservoirLevel s.spsc.r := by
    unfold reservoirLevel levelOf
    dsimp only
    rw [if_neg]
    rw [gt_iff_lt, UInt32.lt_iff_toNat_lt, Core.toNat_level hfifo]
    have hbound := hfifo.level
    omega
  have hidle : s.spsc.consumer = .idle := by
    by_contra hne
    exact Output.noConfusion (hbetween.symm.trans (hpaced.pulling.mpr hne))
  have hfinds : Finds (reservoirLevel s.spsc.r) s.spsc := by
    unfold Finds
    rw [hidle]
    trivial
  have hstuck := stuck_soundRun codec hpaced hhalf hshort
    ⟨hasleep.1, hasleep.2.1, htold, hasleep.2.2, hclosed, hlevel, hfinds, rfl, [],
      (List.append_nil _).symm, fun _ hmem => absurd hmem List.not_mem_nil⟩ after hquiet
  rw [← soundRun_append] at hstuck
  exact ⟨hstuck.waiting, hstuck.delivered, hstuck.silent⟩

theorem sleep_is_final_onePacket :
    let after := packetComes ++ Action.decode :: List.replicate 20 (.output true)
    let s := soundRun twoOfEach 3 smallSpeaker (packetsDecoded 1)
    let t := soundRun twoOfEach 3 smallSpeaker (packetsDecoded 1 ++ after)
    t.decode = .waiting ∧ t.spsc.delivered = s.spsc.delivered ∧
      ∃ pulls, t.spsc.pulls = s.spsc.pulls ++ pulls ∧
        ∀ pull ∈ pulls, pull.pulled.flags = EAF_FRAME_SILENCE :=
  @sleep_is_final twoOfEach 0xFFFFFFFF 44100 4 smallSpeaker rfl 3 (packetsDecoded 1) _
    (by decide +kernel) (by decide +kernel) (by decide +kernel) (by decide +kernel)
    (by decide +kernel) (by decide +kernel) (by simp [packetComes])

end EmbeddedAudio.BtSound
