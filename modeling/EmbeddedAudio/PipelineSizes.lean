-- What the calls of a pipeline leave as it was: the block size and the formats
-- that `eaf_pipeline_configure` has set, on a reservoir whose ring stays the same.
import EmbeddedAudio.PipelineLifecycle
import EmbeddedAudio.SpscFifo

namespace EmbeddedAudio.Core

open Storage Cursor

/-! ## Frames -/

section Frames

variable (env : PipelineEnv) (p : Pipeline)

theorem resetNodes_frame (is : List Nat) (x : Rc × Pipeline) :
    (resetNodes env is x).2 = { x.2 with log := (resetNodes env is x).2.log } := by
  induction is generalizing x with
  | nil => rfl
  | cons i is ih => exact ih _

theorem stop_frame : (pipelineStop env p).2 =
    { p with state := (pipelineStop env p).2.state, log := (pipelineStop env p).2.log } := by
  unfold pipelineStop
  simp only
  split
  · rfl
  · split
    · rfl
    · rw [resetNodes_frame]
      rfl

/-- A pipeline that is stopped does not run. -/
theorem stop_state : (pipelineStop env p).2.state = .running →
    (pipelineStop env p).1 ≠ EAF_OK ∧ p.state = .running := by
  unfold pipelineStop
  simp only
  split
  · intro hrunning
    rename_i hstate
    exact absurd hrunning hstate.1
  · split
    · intro hrunning
      rename_i hrc
      exact ⟨hrc, hrunning⟩
    · intro hrunning
      rw [resetNodes_frame] at hrunning
      rcases hready : p.sinkReady
      · simp [hready] at hrunning
      · simp [hready] at hrunning

theorem start_frame (hstate : p.state = .configured ∨ p.state = .stopped) :
    (pipelineStart env p).2 =
      { p with
        state := (pipelineStart env p).2.state
        reservoir := reservoirReset p.reservoir
        completed := false
        log := (pipelineStart env p).2.log } := by
  have hgo : ¬ (p.state ≠ .configured ∧ p.state ≠ .stopped) := by
    rcases hstate with h | h
    · simp [h]
    · simp [h]
  unfold pipelineStart
  rw [if_neg hgo]
  simp only
  split
  · rfl
  · rw [stop_frame]
    rfl

/-- A pipeline that is started runs, or the start has failed. -/
theorem start_state (hstate : p.state ≠ .running) :
    (pipelineStart env p).2.state = .running → (pipelineStart env p).1 = EAF_OK := by
  unfold pipelineStart
  simp only
  split
  · intro hrunning
    exact absurd hrunning hstate
  · split
    · exact fun _ => rfl
    · intro hrunning
      have hrecovery := (stop_state env _ hrunning).2
      cases hrecovery

theorem processNodes_frame (owned : Buffer) (is : List Nat) (x : Block) :
    (processNodes env owned is x).p =
      { x.p with
        mem := (processNodes env owned is x).p.mem
        log := (processNodes env owned is x).p.log } := by
  induction is generalizing x with
  | nil => rfl
  | cons i is ih =>
    rw [processNodes]
    split
    · rfl
    · exact ih _

theorem outputBlock_frame (owned : Buffer) (eos : Bool) (x : Block) :
    (outputBlock owned eos x).2 = { x.p with mem := (outputBlock owned eos x).2.mem } := by
  unfold outputBlock
  split
  · rfl
  · split
    · rfl
    · rfl

theorem processRest_frame (owned : Buffer) (x : Block) :
    (processRest env owned x).2 =
      { x.p with
        mem := (processRest env owned x).2.mem
        log := (processRest env owned x).2.log
        completed := (processRest env owned x).2.completed } := by
  have hnodes := processNodes_frame env owned (List.range x.p.config.nodes.length) x
  unfold processRest commitBlock
  simp only
  generalize processNodes env owned (List.range x.p.config.nodes.length) x = y at *
  have hout := outputBlock_frame owned (raisesEos x) y
  rw [hnodes] at hout
  generalize outputBlock owned (raisesEos x) y = out at *
  rw [hout]
  split
  · rfl
  · rfl

/-- A stream is complete with a block that the pull has marked. -/
theorem processRest_completed (owned : Buffer) (x : Block)
    (h : (processRest env owned x).2.completed = true) :
    x.p.completed = true ∨ raisesEos x = true := by
  have hnodes := processNodes_frame env owned (List.range x.p.config.nodes.length) x
  unfold processRest commitBlock at h
  simp only at h
  generalize processNodes env owned (List.range x.p.config.nodes.length) x = y at *
  have hout := outputBlock_frame owned (raisesEos x) y
  rw [hnodes] at hout
  generalize outputBlock owned (raisesEos x) y = out at *
  rw [hout] at h
  split at h
  · rename_i hends
    exact .inr hends.2.2
  · exact .inl h

end Frames

/-! ## A configured pipeline -/

/-- The ring of `r`: what no function of the reservoir changes. -/
structure SameRing (r r' : Reservoir) : Prop where
  capacity : r'.capacity = r.capacity
  format : r'.format = r.format
  storage : r'.storage.length = r.storage.length

/-- A pipeline on the ring of `r`. When its sink is ready, it has a block size, and its output has
all the channels of the reservoir. -/
structure Sized (r : Reservoir) (p : Pipeline) : Prop where
  ring : SameRing r p.reservoir
  ready : p.sinkReady = true →
    0 < p.blockFrames.toNat ∧ r.format.numChannels ≤ p.outputFormat.numChannels

section Calls

variable {r : Reservoir} {p : Pipeline} (env : PipelineEnv)

theorem SameRing.reset {r' : Reservoir} (h : SameRing r r') : SameRing r (reservoirReset r') :=
  ⟨h.capacity, h.format, h.storage⟩

theorem releaseNodes_frame (n : Nat) (p : Pipeline) : releaseNodes n p =
    { p with initializedNodes := 0, log := (releaseNodes n p).log } := by
  induction n generalizing p with
  | zero => rfl
  | succ n ih => exact ih _

theorem release_frame (p : Pipeline) : (release env p).2 =
    { p with
      state := (release env p).2.state
      sinkInitialized := (release env p).2.sinkInitialized
      sinkReady := false
      initializedNodes := (release env p).2.initializedNodes
      log := (release env p).2.log } := by
  unfold release releaseChain
  simp only
  split
  · split
    · rfl
    · rw [releaseNodes_frame]
      rfl
  · rw [releaseNodes_frame]

/-- A pipeline whose sink is not ready. -/
theorem sized_unready {p' : Pipeline} (hring : SameRing r p'.reservoir)
    (hready : p'.sinkReady = false) : Sized r p' := by
  refine ⟨hring, ?_⟩
  intro hup
  rw [hready] at hup
  cases hup

theorem sized_release (hring : SameRing r p.reservoir) : Sized r (release env p).2 := by
  rw [release_frame]
  exact sized_unready hring rfl

/-- The nodes keep the channels that they are given or add some. -/
theorem initNodes_frame (ns : List NodeConfig) (i : Nat) (fmt : Format) (p : Pipeline)
    (hready : p.sinkReady = false) :
    (initNodes env ns i fmt p).2.2.reservoir = p.reservoir ∧
      (initNodes env ns i fmt p).2.2.sinkReady = false ∧
      fmt.numChannels ≤ (initNodes env ns i fmt p).2.1.numChannels := by
  induction ns generalizing i fmt p with
  | nil => exact ⟨rfl, hready, Nat.le_refl _⟩
  | cons n ns ih =>
    unfold initNodes
    simp only
    split
    · rw [release_frame]
      exact ⟨rfl, rfl, Nat.le_refl _⟩
    · split
      · rw [release_frame]
        exact ⟨rfl, rfl, Nat.le_refl _⟩
      · rename_i hvalid
        simp only [not_or, Nat.not_lt] at hvalid
        obtain ⟨hres, hunready, hle⟩ := ih (i + 1) (env.nodeInit i p.log fmt).2
          { p.record (.nodeInit i (env.nodeInit i p.log fmt).1) with
            initializedNodes := p.initializedNodes + 1 } hready
        exact ⟨hres, hunready, Nat.le_trans hvalid.2.2 hle⟩

theorem sized_configure (h : Sized r p) (blockFrames : UInt32) :
    Sized r (pipelineConfigure env p blockFrames).2 := by
  unfold pipelineConfigure
  split
  · exact h
  · split
    · exact h
    · rename_i hblock
      simp only [not_or] at hblock
      have hpos : 0 < blockFrames.toNat := by
        rcases Nat.eq_zero_or_pos blockFrames.toNat with hzero | hpos
        · exact absurd (UInt32.toNat_inj.mp hzero) hblock.1
        · exact hpos
      have hfree := release_frame env p
      simp only
      generalize release env p = x at hfree ⊢
      obtain ⟨cleanup, q⟩ := x
      simp only at hfree ⊢
      have hring : SameRing r q.reservoir := by
        rw [hfree]
        exact h.ring
      have hunready : q.sinkReady = false := by rw [hfree]
      split
      · exact sized_unready hring hunready
      · obtain ⟨hres, hready, hle⟩ := initNodes_frame env q.config.nodes 0 q.reservoir.format
          { q with state := .initialized } hunready
        generalize initNodes env q.config.nodes 0 q.reservoir.format
          { q with state := .initialized } = y at hres hready hle ⊢
        obtain ⟨rc, fmt, s⟩ := y
        simp only at hres hready hle ⊢
        have hs : SameRing r s.reservoir := by
          rw [hres]
          exact hring
        split
        · exact sized_unready hs hready
        · split
          · exact sized_release env hs
          · refine ⟨hs, fun _ => ⟨hpos, ?_⟩⟩
            rw [← hring.format]
            exact hle

theorem pull_ring (r : Reservoir) (buf : Buffer) : SameRing r (reservoirPull r buf).2.2.reservoir := by
  unfold reservoirPull
  split
  · exact ⟨rfl, rfl, rfl⟩
  · obtain ⟨hstorage, hcapacity, hformat, -⟩ := pullRest_shared r r.finished
      (r.writeCursor - r.readCursor) buf.frameCount (storageLoad r.storage r.capacity r.readCursor
        (pullTake r r.finished (r.writeCursor - r.readCursor) buf.frameCount) r.format.numChannels)
    exact ⟨hcapacity, hformat, congrArg List.length hstorage⟩

theorem SameRing.trans {r₁ r₂ r₃ : Reservoir} (h : SameRing r₁ r₂) (h' : SameRing r₂ r₃) :
    SameRing r₁ r₃ :=
  ⟨h'.capacity.trans h.capacity, h'.format.trans h.format, h'.storage.trans h.storage⟩

theorem sized_process (h : Sized r p) : Sized r (pipelineProcess env p).2 := by
  unfold pipelineProcess
  split
  · exact h
  · split
    · exact h
    · simp only
      split
      · exact ⟨h.ring, h.ready⟩
      · split
        · exact ⟨h.ring, h.ready⟩
        · split
          · exact ⟨h.ring, h.ready⟩
          · rename_i owned _ _
            rw [processRest_frame]
            exact ⟨h.ring.trans (pull_ring _ _), h.ready⟩

theorem sized_start (h : Sized r p) : Sized r (pipelineStart env p).2 := by
  by_cases hstate : p.state = .configured ∨ p.state = .stopped
  · rw [start_frame env p hstate]
    exact ⟨h.ring.reset, h.ready⟩
  · unfold pipelineStart
    rw [if_pos (not_or.mp hstate)]
    exact h

/-- Whatever fills the reservoir between two calls leaves its ring as it is. -/
def KeepsRing (r : Reservoir) : PipelineCall → Prop
  | .elsewhere reservoir _ => SameRing r reservoir
  | _ => True

theorem sized_call (h : Sized r p) {call : PipelineCall} (hcall : KeepsRing r call) :
    Sized r (afterPipelineCall env p call) := by
  cases call with
  | init config =>
    show Sized r (pipelineInit p config).2
    unfold pipelineInit
    split
    · exact h
    · split
      · exact h
      · split
        · exact h
        · exact ⟨h.ring, h.ready⟩
  | configure blockFrames => exact sized_configure env h blockFrames
  | start => exact sized_start env h
  | process => exact sized_process env h
  | stop =>
    show Sized r (pipelineStop env p).2
    rw [stop_frame]
    exact ⟨h.ring, h.ready⟩
  | deinit =>
    show Sized r (pipelineDeinit env p).2
    unfold pipelineDeinit
    split
    · exact h
    · have hfree := release_frame env p
      simp only
      generalize release env p = x at hfree ⊢
      obtain ⟨rc, q⟩ := x
      simp only at hfree ⊢
      have hring : SameRing r q.reservoir := by
        rw [hfree]
        exact h.ring
      split
      · exact sized_unready hring (by rw [hfree])
      · exact sized_unready hring rfl
  | elsewhere reservoir mem => exact ⟨hcall, h.ready⟩

theorem sized_calls (mem : Mem) {calls : List PipelineCall} (hcalls : ∀ call ∈ calls, KeepsRing r call) :
    Sized r (afterPipelineCalls env (zeroPipeline r mem) calls) := by
  have hzero : Sized r (zeroPipeline r mem) := sized_unready ⟨rfl, rfl, rfl⟩ rfl
  unfold afterPipelineCalls
  generalize zeroPipeline r mem = p at hzero
  induction calls generalizing p with
  | nil => exact hzero
  | cons call calls ih =>
    apply ih (fun c hc => hcalls c (List.mem_cons_of_mem _ hc)) _
    exact sized_call env hzero (hcalls call List.mem_cons_self)

end Calls

end EmbeddedAudio.Core
