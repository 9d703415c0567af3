-- The order in which the pipeline calls its sink and its nodes, whatever they
-- return. A life says what has been initialised and what runs after a log, and in
-- a lawful log every call is one that the life before it allows.
import EmbeddedAudio.Pipeline

namespace EmbeddedAudio.Core

/-! ## Lives -/

/-- `owned`: the sink was initialised, even if that failed, and no deinit has succeeded since.
`ready`: its initialisation succeeded, and no deinit was tried since. `running`: it was started,
and not stopped since. A node is `held` from its initialisation on, and `live` if that succeeded,
until its deinit. -/
structure Life where
  owned : Bool
  ready : Bool
  running : Bool
  held : Nat → Bool
  live : Nat → Bool

def Life.unborn : Life := ⟨false, false, false, fun _ => false, fun _ => false⟩

def Life.after (l : Life) : PipelineEvent → Life
  | .sinkInit _ _ rc => { l with owned := true, ready := rc = EAF_OK, running := false }
  | .sinkStart rc => { l with running := l.running || rc = EAF_OK }
  | .sinkStop rc => { l with running := l.running && rc ≠ EAF_OK }
  | .sinkDeinit rc =>
    { l with owned := rc ≠ EAF_OK, ready := false, running := l.running && rc ≠ EAF_OK }
  | .nodeInit i rc =>
    { l with
      held := fun j => j = i || l.held j
      live := fun j => if j = i then rc = EAF_OK else l.live j }
  | .nodeDeinit i =>
    { l with held := fun j => j ≠ i && l.held j, live := fun j => j ≠ i && l.live j }
  | _ => l

/-- The calls that a life allows. -/
def Life.Allows (l : Life) : PipelineEvent → Prop
  | .sinkInit _ _ _ => l.owned = false
  | .sinkStart _ => l.ready = true ∧ l.running = false
  | .acquire _ => l.running = true
  | .commit _ _ _ => l.running = true
  | .sinkStop _ => l.owned = true
  | .sinkDeinit _ => l.owned = true
  | .nodeInit i _ => l.held i = false
  | .nodeDeinit i => l.held i = true
  | .nodeProcess i _ _ _ => l.live i = true
  | .nodeReset i _ => l.live i = true
  | .pull _ _ => True

def lifeAfter (log : List PipelineEvent) : Life := log.foldl Life.after Life.unborn

/-- Every call was one that the life before it allows. -/
def Lawful (log : List PipelineEvent) : Prop :=
  ∀ before e after, log = before ++ e :: after → (lifeAfter before).Allows e

theorem lifeAfter_snoc (log : List PipelineEvent) (e : PipelineEvent) :
    lifeAfter (log ++ [e]) = (lifeAfter log).after e := by
  simp [lifeAfter, List.foldl_append]

theorem lawful_snoc {log : List PipelineEvent} {e : PipelineEvent} (h : Lawful log)
    (he : (lifeAfter log).Allows e) : Lawful (log ++ [e]) := by
  intro before e' after hsplit
  rcases List.eq_nil_or_concat' after with rfl | ⟨after, last, rfl⟩
  · obtain ⟨rfl, hlast⟩ := List.append_inj' hsplit rfl
    obtain rfl := List.singleton_inj.mp hlast
    exact he
  · have hsplit' : log ++ [e] = (before ++ e' :: after) ++ [last] := by
      rw [hsplit, List.append_assoc, List.cons_append]
    obtain ⟨hlog, -⟩ := List.append_inj' hsplit' rfl
    exact h before e' after hlog

/-! ## The pipeline against its life -/

/-- The life that the flags of a pipeline stand for. -/
def lifeOf (running : Bool) (p : Pipeline) : Life :=
  ⟨p.sinkInitialized, p.sinkReady, running, fun i => i < p.initializedNodes,
    fun i => i < p.initializedNodes⟩

structure Tied (running : Bool) (p : Pipeline) : Prop where
  lawful : Lawful p.log
  life : lifeAfter p.log = lifeOf running p

section Steps

variable {running running' : Bool} {p p' : Pipeline} (env : PipelineEnv)

/-- One more call. -/
theorem Tied.call (h : Tied running p) {e : PipelineEvent}
    (hallows : (lifeOf running p).Allows e) (hlog : p'.log = p.log ++ [e])
    (hlife : (lifeOf running p).after e = lifeOf running' p') : Tied running' p' := by
  constructor
  · rw [hlog]
    apply lawful_snoc h.lawful
    rw [h.life]
    exact hallows
  · rw [hlog, lifeAfter_snoc, h.life, hlife]

/-- A change that is none of the sink's or the nodes'. -/
theorem Tied.silent (h : Tied running p) (hlog : p'.log = p.log)
    (hlife : lifeOf running p = lifeOf running' p') : Tied running' p' := by
  constructor
  · rw [hlog]
    exact h.lawful
  · rw [hlog, h.life, hlife]

@[simp] theorem releaseNodes_state (n : Nat) (p : Pipeline) :
    (releaseNodes n p).state = p.state := by
  induction n generalizing p with
  | zero => rfl
  | succ n ih => exact ih _

@[simp] theorem releaseNodes_config (n : Nat) (p : Pipeline) :
    (releaseNodes n p).config = p.config := by
  induction n generalizing p with
  | zero => rfl
  | succ n ih => exact ih _

@[simp] theorem releaseNodes_initializedNodes (n : Nat) (p : Pipeline) :
    (releaseNodes n p).initializedNodes = 0 := by
  induction n generalizing p with
  | zero => rfl
  | succ n ih => exact ih _

@[simp] theorem releaseNodes_sinkInitialized (n : Nat) (p : Pipeline) :
    (releaseNodes n p).sinkInitialized = p.sinkInitialized := by
  induction n generalizing p with
  | zero => rfl
  | succ n ih => exact ih _

@[simp] theorem releaseNodes_sinkReady (n : Nat) (p : Pipeline) :
    (releaseNodes n p).sinkReady = p.sinkReady := by
  induction n generalizing p with
  | zero => rfl
  | succ n ih => exact ih _

/-- Every node that is held gets its deinit. -/
theorem tied_releaseNodes (n : Nat) (h : Tied running { p with initializedNodes := n }) :
    Tied running (releaseNodes n p) := by
  induction n generalizing p with
  | zero => exact h
  | succ n ih =>
    refine ih (h.call (e := .nodeDeinit n) ?_ rfl ?_)
    · simp [Life.Allows, lifeOf]
    · simp only [Life.after, lifeOf, Pipeline.record, Life.mk.injEq, true_and]
      constructor
      · funext i
        by_cases hi : i = n
        · simp [hi]
        · simp only [ne_eq, hi, not_false_eq_true, decide_true, Bool.true_and]
          exact decide_eq_decide.mpr (by omega)
      · funext i
        by_cases hi : i = n
        · simp [hi]
        · simp only [ne_eq, hi, not_false_eq_true, decide_true, Bool.true_and]
          exact decide_eq_decide.mpr (by omega)

theorem tied_releaseChain (h : Tied running p) (hsink : p.sinkInitialized = false)
    (hready : p.sinkReady = false) : Tied running (releaseChain p) := by
  refine tied_releaseNodes _ (h.silent rfl ?_)
  simp [lifeOf, hsink, hready]

/-- `release`, on a pipeline that does not run: it succeeds and nothing is held any more, or the
sink stays owned. -/
theorem tied_release (h : Tied false p) (hready : p.sinkReady = true → p.sinkInitialized = true) :
    Tied false (release env p).2 ∧ (release env p).2.config = p.config ∧
      (release env p).2.sinkReady = false ∧
      ((release env p).1 = EAF_OK ∧ (release env p).2.state = p.state ∧
          (release env p).2.initializedNodes = 0 ∧ (release env p).2.sinkInitialized = false ∨
        (release env p).1 ≠ EAF_OK ∧ (release env p).2.state = .recovery ∧
          (release env p).2.sinkInitialized = true) := by
  unfold release
  by_cases hsink : p.sinkInitialized = true
  · rw [if_pos hsink]
    have hallows : (lifeOf false p).Allows (.sinkDeinit (env.sinkDeinit p.log)) := hsink
    simp only
    by_cases hrc : env.sinkDeinit p.log = EAF_OK
    · rw [if_neg (not_not.mpr hrc)]
      have hcall : Tied false { ({ p with sinkReady := false }.record
          (.sinkDeinit (env.sinkDeinit p.log))) with sinkInitialized := false, sinkReady := false } :=
        h.call hallows rfl (by simp [Life.after, lifeOf, hrc])
      refine ⟨tied_releaseNodes _ hcall, ?_, ?_, ?_⟩
      · simp [releaseChain, Pipeline.record]
      · simp [releaseChain]
      · simp [releaseChain, Pipeline.record]
    · rw [if_pos hrc]
      refine ⟨h.call hallows rfl ?_, rfl, rfl, .inr ⟨hrc, rfl, hsink⟩⟩
      simp [Life.after, lifeOf, Pipeline.record, hrc, hsink]
  · rw [if_neg hsink]
    have hunset : p.sinkInitialized = false := Bool.eq_false_of_not_eq_true hsink
    have hnot : p.sinkReady = false := by
      by_contra hne
      exact hsink (hready (Bool.not_eq_false _ ▸ hne))
    refine ⟨tied_releaseChain h hunset hnot, ?_, ?_, ?_⟩
    · simp [releaseChain]
    · simp [releaseChain]
    · simp [releaseChain]

/-- Without a sink `release` succeeds. -/
theorem release_unowned (h : p.sinkInitialized = false) : release env p = (EAF_OK, releaseChain p) := by
  unfold release
  rw [if_neg (by rw [h]; exact Bool.false_ne_true)]

/-- A node whose initialisation fails gets its deinit at once. -/
theorem tied_nodeInit_failed (h : Tied running p) {i : Nat} (hi : p.initializedNodes = i)
    (rc : Rc) : Tied running ((p.record (.nodeInit i rc)).record (.nodeDeinit i)) := by
  have hone : Lawful (p.log ++ [.nodeInit i rc]) := by
    apply lawful_snoc h.lawful
    rw [h.life]
    simp [Life.Allows, lifeOf, hi]
  constructor
  · apply lawful_snoc hone
    simp [lifeAfter_snoc, h.life, Life.after, Life.Allows]
  · rw [record_log, record_log, lifeAfter_snoc, lifeAfter_snoc, h.life]
    simp only [Life.after, lifeOf, record_sinkInitialized, record_sinkReady,
      record_initializedNodes, hi, Life.mk.injEq, true_and]
    constructor
    · funext j
      by_cases hj : j = i
      · simp [hj]
      · simp [hj]
    · funext j
      by_cases hj : j = i
      · simp [hj]
      · simp [hj]

theorem tied_nodeInit_ok (h : Tied running p) {i : Nat} (hi : p.initializedNodes = i) :
    Tied running { p.record (.nodeInit i EAF_OK) with initializedNodes := i + 1 } := by
  refine h.call (e := .nodeInit i EAF_OK) ?_ rfl ?_
  · simp [Life.Allows, lifeOf, hi]
  · simp only [Life.after, lifeOf, record_sinkInitialized, record_sinkReady, hi, Life.mk.injEq,
      true_and]
    constructor
    · funext j
      by_cases hj : j = i
      · simp [hj]
      · simp only [hj, decide_false, Bool.false_or]
        exact decide_eq_decide.mpr (by omega)
    · funext j
      by_cases hj : j = i
      · simp [hj]
      · simp only [hj, if_false]
        exact decide_eq_decide.mpr (by omega)

/-- A pipeline without a sink, after `release`. -/
theorem released (h : Tied false p) (hsink : p.sinkInitialized = false)
    (hready : p.sinkReady = false) : Tied false (release env p).2 ∧
      (release env p).2.state = p.state ∧ (release env p).2.config = p.config ∧
      (release env p).2.sinkInitialized = false ∧ (release env p).2.sinkReady = false := by
  rw [release_unowned env hsink]
  refine ⟨tied_releaseChain h hsink hready, ?_, ?_, ?_, ?_⟩
  · simp [releaseChain]
  · simp [releaseChain]
  · simp [releaseChain]
  · simp [releaseChain]

/-- The loop over the nodes of `eaf_pipeline_configure`. It initialises all nodes, or it releases
those that it has initialised. -/
theorem tied_initNodes (ns : List NodeConfig) {i : Nat} (fmt : Format) (h : Tied false p)
    (hi : p.initializedNodes = i) (hsink : p.sinkInitialized = false)
    (hready : p.sinkReady = false) :
    let r := initNodes env ns i fmt p
    Tied false r.2.2 ∧ r.2.2.state = p.state ∧ r.2.2.config = p.config ∧
      r.2.2.sinkInitialized = false ∧ r.2.2.sinkReady = false ∧
      (r.1 = EAF_OK → r.2.2.initializedNodes = i + ns.length) := by
  induction ns generalizing i fmt p with
  | nil => exact ⟨h, rfl, rfl, hsink, hready, fun _ => hi⟩
  | cons n ns ih =>
    subst hi
    unfold initNodes
    simp only
    by_cases hrc : (env.nodeInit p.initializedNodes p.log fmt).1 = EAF_OK
    · rw [if_neg (not_not.mpr hrc), hrc]
      have hone := tied_nodeInit_ok h rfl
      split
      · obtain ⟨ht, hstate, hconfig, hs, hr⟩ := released env hone hsink hready
        refine ⟨ht, hstate, hconfig, hs, hr, ?_⟩
        intro hfail
        cases hfail
      · obtain ⟨ht, hstate, hconfig, hs, hr, hall⟩ :=
          ih (env.nodeInit p.initializedNodes p.log fmt).2 hone rfl hsink hready
        refine ⟨ht, hstate, hconfig, hs, hr, ?_⟩
        intro hok
        apply (hall hok).trans
        have hlen : (n :: ns).length = ns.length + 1 := List.length_cons
        exact (Nat.add_right_comm p.initializedNodes 1 ns.length).trans (by rw [hlen]; rfl)
    · rw [if_pos hrc]
      have hfailed := tied_nodeInit_failed h rfl (env.nodeInit p.initializedNodes p.log fmt).1
      obtain ⟨ht, hstate, hconfig, hs, hr⟩ := released env hfailed hsink hready
      exact ⟨ht, hstate, hconfig, hs, hr, fun hok => absurd hok hrc⟩

/-- The loop over the nodes of `eaf_pipeline_stop`. -/
theorem tied_resetNodes (is : List Nat) (x : Rc × Pipeline) (h : Tied running x.2)
    (his : ∀ i ∈ is, i < x.2.initializedNodes) :
    Tied running (resetNodes env is x).2 ∧ (resetNodes env is x).2.state = x.2.state ∧
      (resetNodes env is x).2.config = x.2.config ∧
      (resetNodes env is x).2.sinkInitialized = x.2.sinkInitialized ∧
      (resetNodes env is x).2.sinkReady = x.2.sinkReady ∧
      (resetNodes env is x).2.initializedNodes = x.2.initializedNodes := by
  induction is generalizing x with
  | nil => exact ⟨h, rfl, rfl, rfl, rfl, rfl⟩
  | cons i is ih =>
    refine ih _ (h.call (e := .nodeReset i _) ?_ rfl rfl) ?_
    · exact decide_eq_true (his i List.mem_cons_self)
    · intro j hj
      exact his j (List.mem_cons_of_mem _ hj)

/-- The loop over the nodes of `eaf_pipeline_process`. -/
theorem tied_processNodes (owned : Buffer) (is : List Nat) (x : Block) (h : Tied running x.p)
    (his : ∀ i ∈ is, i < x.p.initializedNodes) :
    Tied running (processNodes env owned is x).p ∧
      (processNodes env owned is x).p.state = x.p.state ∧
      (processNodes env owned is x).p.config = x.p.config ∧
      (processNodes env owned is x).p.sinkInitialized = x.p.sinkInitialized ∧
      (processNodes env owned is x).p.sinkReady = x.p.sinkReady ∧
      (processNodes env owned is x).p.initializedNodes = x.p.initializedNodes := by
  induction is generalizing x with
  | nil => exact ⟨h, rfl, rfl, rfl, rfl, rfl⟩
  | cons i is ih =>
    unfold processNodes
    split
    · exact ⟨h, rfl, rfl, rfl, rfl, rfl⟩
    · refine ih _ (h.call (e := .nodeProcess i _ _ _) ?_ rfl rfl) ?_
      · exact decide_eq_true (his i List.mem_cons_self)
      · intro j hj
        exact his j (List.mem_cons_of_mem _ hj)

end Steps

/-! ## Runs -/

/-- A pipeline between two calls. -/
structure Orderly (p : Pipeline) : Prop where
  tied : Tied (p.state = .running) p
  ready : p.sinkReady = true →
    p.sinkInitialized = true ∧ p.initializedNodes = p.config.nodes.length
  chain : p.state = .configured ∨ p.state = .running ∨ p.state = .stopped → p.sinkReady = true
  recovery : p.state = .recovery → p.sinkInitialized = true
  fresh : p.state = .uninitialized → p.sinkReady = false

section Calls

variable {p : Pipeline} (env : PipelineEnv)

theorem Orderly.still (h : Orderly p) (hstate : p.state ≠ .running) : Tied false p := by
  have ht := h.tied
  rwa [decide_eq_false hstate] at ht

theorem Orderly.moving (h : Orderly p) (hstate : p.state = .running) : Tied true p := by
  have ht := h.tied
  rwa [decide_eq_true hstate] at ht

/-- A pipeline without a sink that is ready. -/
theorem orderly_unready (ht : Tied false p) (hready : p.sinkReady = false)
    (hstate : p.state = .initialized ∨ p.state = .uninitialized ∨
      p.state = .recovery ∧ p.sinkInitialized = true) : Orderly p := by
  have hne : p.state ≠ .running := by
    rcases hstate with hs | hs | ⟨hs, -⟩
    · simp [hs]
    · simp [hs]
    · simp [hs]
  refine ⟨?_, ?_, ?_, ?_, fun _ => hready⟩
  · rwa [decide_eq_false hne]
  · simp [hready]
  · rcases hstate with hs | hs | ⟨hs, -⟩
    · simp [hs]
    · simp [hs]
    · simp [hs]
  · rcases hstate with hs | hs | ⟨-, howned⟩
    · simp [hs]
    · simp [hs]
    · exact fun _ => howned

/-- A pipeline with a sink that is ready. -/
theorem orderly_ready (ht : Tied false p) (hready : p.sinkReady = true)
    (howned : p.sinkInitialized = true) (hnodes : p.initializedNodes = p.config.nodes.length)
    (hstate : p.state = .configured ∨ p.state = .stopped ∨ p.state = .recovery) : Orderly p := by
  have hne : p.state ≠ .running ∧ p.state ≠ .uninitialized := by
    rcases hstate with hs | hs | hs
    · simp [hs]
    · simp [hs]
    · simp [hs]
  refine ⟨?_, fun _ => ⟨howned, hnodes⟩, fun _ => hready, fun _ => howned, ?_⟩
  · rwa [decide_eq_false hne.1]
  · exact fun hs => absurd hs hne.2

theorem orderly_init (h : Orderly p) (config : PipelineConfig) :
    Orderly (pipelineInit p config).2 := by
  unfold pipelineInit
  split
  · exact h
  · split
    · exact h
    · rename_i hstate
      split
      · exact h
      · have hfresh := not_not.mp hstate
        have hstill := h.still (by simp [hfresh])
        exact orderly_unready (hstill.silent rfl rfl) (h.fresh hfresh) (.inl rfl)

theorem orderly_release (h : Orderly p) (hstate : p.state ≠ .running) :
    (release env p).2.config = p.config ∧ Tied false (release env p).2 ∧
      (release env p).2.sinkReady = false ∧
      ((release env p).1 = EAF_OK ∧ (release env p).2.initializedNodes = 0 ∧
          (release env p).2.sinkInitialized = false ∨
        (release env p).1 ≠ EAF_OK ∧ Orderly (release env p).2) := by
  obtain ⟨ht, hconfig, hready, hrelease⟩ :=
    tied_release env (h.still hstate) (fun hr => (h.ready hr).1)
  refine ⟨hconfig, ht, hready, ?_⟩
  rcases hrelease with ⟨hrc, -, hnodes, hsink⟩ | ⟨hrc, hrecovery, hsink⟩
  · exact .inl ⟨hrc, hnodes, hsink⟩
  · exact .inr ⟨hrc, orderly_unready ht hready (.inr (.inr ⟨hrecovery, hsink⟩))⟩

theorem orderly_stop (h : Orderly p) : Orderly (pipelineStop env p).2 := by
  unfold pipelineStop
  split
  · exact h
  · rename_i hstate
    have howned : p.sinkInitialized = true := by
      by_cases hrunning : p.state = .running
      · exact (h.ready (h.chain (.inr (.inl hrunning)))).1
      · apply h.recovery
        by_contra hne
        exact hstate ⟨hrunning, hne⟩
    have hallows : ∀ running, (lifeOf running p).Allows (.sinkStop (env.sinkStop p.log)) :=
      fun _ => howned
    simp only
    by_cases hrc : env.sinkStop p.log = EAF_OK
    · rw [if_neg (not_not.mpr hrc)]
      have hstopped : Tied false { p.record (.sinkStop (env.sinkStop p.log)) with
          state := if p.sinkReady then .stopped else .initialized } :=
        h.tied.call (hallows _) rfl (by simp [Life.after, lifeOf, hrc])
      obtain ⟨ht, hst, hconfig, hsink, hready, hnodes⟩ :=
        tied_resetNodes env (List.range p.initializedNodes) (EAF_OK, _) hstopped
          (fun i hi => List.mem_range.mp hi)
      rcases hr : p.sinkReady with _ | _
      · refine orderly_unready ht (hready.trans hr) (.inl (hst.trans ?_))
        simp [hr]
      · refine orderly_ready ht (hready.trans hr) (hsink.trans howned) ?_ (.inr (.inl (hst.trans ?_)))
        · exact hnodes.trans ((h.ready hr).2.trans (congrArg (·.nodes.length) hconfig.symm))
        · simp [hr]
    · rw [if_pos hrc]
      refine ⟨h.tied.call (hallows _) rfl ?_, h.ready, h.chain, h.recovery, h.fresh⟩
      simp only [Life.after, hrc, ne_eq, not_false_eq_true, decide_true, Bool.and_true]
      rfl

theorem orderly_start (h : Orderly p) : Orderly (pipelineStart env p).2 := by
  unfold pipelineStart
  split
  · exact h
  · rename_i hstate
    have hready : p.sinkReady = true := by
      by_cases hconfigured : p.state = .configured
      · exact h.chain (.inl hconfigured)
      · refine h.chain (.inr (.inr ?_))
        by_contra hne
        exact hstate ⟨hconfigured, hne⟩
    obtain ⟨howned, hnodes⟩ := h.ready hready
    have hstill : Tied false p := by
      apply h.still
      intro hrunning
      exact hstate ⟨by simp [hrunning], by simp [hrunning]⟩
    have hallows : (lifeOf false p).Allows (.sinkStart (env.sinkStart p.log)) := ⟨hready, rfl⟩
    simp only
    by_cases hrc : env.sinkStart p.log = EAF_OK
    · rw [if_pos hrc]
      have hrun : Tied true { ({ p with
          reservoir := reservoirReset p.reservoir, completed := false } : Pipeline).record
            (.sinkStart (env.sinkStart p.log)) with state := .running } :=
        hstill.call hallows rfl (by simp [Life.after, lifeOf, hrc])
      refine ⟨hrun, fun _ => ⟨howned, hnodes⟩, fun _ => hready, ?_, ?_⟩
      · simp
      · simp
    · rw [if_neg hrc]
      refine orderly_stop env (orderly_ready (hstill.call hallows rfl ?_) hready howned hnodes
        (.inr (.inr rfl)))
      simp only [Life.after, hrc, decide_false, Bool.or_false]
      rfl

/-- A call while the sink runs. -/
theorem orderly_running (h : Tied true p) (hstate : p.state = .running) (hready : p.sinkReady = true)
    (howned : p.sinkInitialized = true) (hnodes : p.initializedNodes = p.config.nodes.length) :
    Orderly p := by
  refine ⟨?_, fun _ => ⟨howned, hnodes⟩, fun _ => hready, fun _ => howned, ?_⟩
  · rwa [decide_eq_true hstate]
  · simp [hstate]

theorem orderly_commitBlock (h : Orderly p) (hrunning : p.state = .running) (rc : Rc) (eos : Bool)
    (buf : Buffer) : Orderly (commitBlock env rc eos buf p).2 := by
  have hready := h.chain (.inr (.inl hrunning))
  obtain ⟨howned, hnodes⟩ := h.ready hready
  unfold commitBlock
  simp only
  split
  · exact orderly_running ((h.moving hrunning).call (e := .commit _ _ _) rfl rfl rfl) hrunning hready
      howned hnodes
  · exact orderly_running ((h.moving hrunning).call (e := .commit _ _ _) rfl rfl rfl) hrunning hready
      howned hnodes

theorem orderly_outputBlock (owned : Buffer) (eos : Bool) (x : Block) (h : Orderly x.p) :
    Orderly (outputBlock owned eos x).2 ∧ (outputBlock owned eos x).2.state = x.p.state := by
  unfold outputBlock
  split
  · exact ⟨⟨h.tied.silent rfl rfl, h.ready, h.chain, h.recovery, h.fresh⟩, rfl⟩
  · split
    · exact ⟨h, rfl⟩
    · exact ⟨h, rfl⟩

/-- `eaf_pipeline_process` behind the pull. -/
theorem orderly_processRest (owned : Buffer) (x : Block) (h : Orderly x.p)
    (hrunning : x.p.state = .running) : Orderly (processRest env owned x).2 := by
  have hready := h.chain (.inr (.inl hrunning))
  obtain ⟨howned, hnodes⟩ := h.ready hready
  have his : ∀ i ∈ List.range x.p.config.nodes.length, i < x.p.initializedNodes := by
    intro i hi
    rw [hnodes]
    exact List.mem_range.mp hi
  obtain ⟨ht, hst, hconfig, hsink, hrd, hn⟩ :=
    tied_processNodes env owned _ x (h.moving hrunning) his
  unfold processRest
  simp only
  generalize processNodes env owned (List.range x.p.config.nodes.length) x = y at *
  have hy : Orderly y.p := by
    apply orderly_running ht (hst.trans hrunning) (hrd.trans hready) (hsink.trans howned)
    rw [hn, hnodes, hconfig]
  obtain ⟨ho, hos⟩ := orderly_outputBlock owned (raisesEos x) y hy
  exact orderly_commitBlock env ho (hos.trans (hst.trans hrunning)) _ _ _

theorem orderly_process (h : Orderly p) : Orderly (pipelineProcess env p).2 := by
  unfold pipelineProcess
  split
  · exact h
  · rename_i hstate
    have hrunning := not_not.mp hstate
    split
    · exact h
    · have hready := h.chain (.inr (.inl hrunning))
      obtain ⟨howned, hnodes⟩ := h.ready hready
      have hacquired : Orderly (p.record (.acquire (env.acquire p.log).1)) :=
        orderly_running ((h.moving hrunning).call (e := .acquire _) rfl rfl rfl) hrunning hready
          howned hnodes
      simp only
      split
      · exact hacquired
      · split
        · exact hacquired
        · split
          · exact hacquired
          · rename_i owned _ _
            refine orderly_processRest env owned _ (orderly_running ?_ hrunning hready howned hnodes)
              hrunning
            exact (hacquired.moving hrunning).call (e := .pull _ _) trivial rfl rfl

theorem orderly_configure (h : Orderly p) (blockFrames : UInt32) :
    Orderly (pipelineConfigure env p blockFrames).2 := by
  unfold pipelineConfigure
  split
  · exact h
  · rename_i hstate
    have hne : p.state ≠ .running := by
      intro hrunning
      exact hstate ⟨by simp [hrunning], by simp [hrunning], by simp [hrunning]⟩
    split
    · exact h
    · obtain ⟨hconfig, ht, hready, hrelease⟩ := orderly_release env h hne
      simp only
      rcases hrelease with ⟨hrc, hnodes, hsink⟩ | ⟨hrc, hstuck⟩
      · rw [if_neg (not_not.mpr hrc)]
        have hstart : Tied false { (release env p).2 with state := .initialized } :=
          ht.silent rfl rfl
        obtain ⟨hti, hsti, hconfigi, hsinki, hreadyi, hall⟩ :=
          tied_initNodes env (release env p).2.config.nodes
            (release env p).2.reservoir.format hstart hnodes hsink hready
        split
        · exact orderly_unready hti hreadyi (.inl hsti)
        · rename_i hok
          have hnodesi := (hall (not_not.mp hok)).trans (Nat.zero_add _)
          generalize initNodes env _ _ _ _ = r at *
          have hallows : (lifeOf false r.2.2).Allows
              (.sinkInit r.2.1 blockFrames (env.sinkInit r.2.2.log)) := hsinki
          split
          · rename_i hrc
            have hq : Tied false ({ r.2.2 with sinkInitialized := true }.record
                (.sinkInit r.2.1 blockFrames (env.sinkInit r.2.2.log))) :=
              hti.call hallows rfl (by simp [Life.after, lifeOf, hreadyi, hrc])
            obtain ⟨htq, -, hreadyq, hrelease⟩ := tied_release env hq (fun _ => rfl)
            rcases hrelease with ⟨-, hstq, -, -⟩ | ⟨-, hstq, hsinkq⟩
            · exact orderly_unready htq hreadyq (.inl (hstq.trans hsti))
            · exact orderly_unready htq hreadyq (.inr (.inr ⟨hstq, hsinkq⟩))
          · rename_i hrc
            refine orderly_ready (hti.call hallows rfl ?_) rfl rfl ?_ (.inl rfl)
            · simp [Life.after, lifeOf, not_not.mp hrc]
            · exact hnodesi.trans (congrArg (·.nodes.length) hconfigi.symm)
      · rw [if_pos hrc]
        exact hstuck

theorem orderly_deinit (h : Orderly p) : Orderly (pipelineDeinit env p).2 := by
  unfold pipelineDeinit
  split
  · exact h
  · rename_i hstate
    obtain ⟨-, ht, hready, hrelease⟩ := orderly_release env h hstate
    simp only
    rcases hrelease with ⟨hrc, hnodes, hsink⟩ | ⟨hrc, hstuck⟩
    · rw [if_neg (not_not.mpr hrc)]
      refine orderly_unready (ht.silent rfl ?_) rfl (.inr (.inl rfl))
      simp [lifeOf, hnodes, hsink, hready]
    · rw [if_pos hrc]
      exact hstuck

theorem orderly_call (h : Orderly p) (call : PipelineCall) : Orderly (afterPipelineCall env p call) := by
  cases call with
  | init config => exact orderly_init h config
  | configure blockFrames => exact orderly_configure env h blockFrames
  | start => exact orderly_start env h
  | process => exact orderly_process env h
  | stop => exact orderly_stop env h
  | deinit => exact orderly_deinit env h
  | elsewhere reservoir mem =>
    exact ⟨h.tied.silent rfl rfl, h.ready, h.chain, h.recovery, h.fresh⟩

theorem orderly_calls (h : Orderly p) (calls : List PipelineCall) :
    Orderly (afterPipelineCalls env p calls) := by
  induction calls generalizing p with
  | nil => exact h
  | cons call calls ih => exact ih (orderly_call env h call)

end Calls

theorem orderly_zero (reservoir : Reservoir) (mem : Mem) : Orderly (zeroPipeline reservoir mem) := by
  refine orderly_unready ⟨?_, ?_⟩ rfl (.inr (.inl rfl))
  · intro before e after hsplit
    cases before with
    | nil => cases hsplit
    | cons b before => cases hsplit
  · simp [lifeAfter, zeroPipeline, lifeOf, Life.unborn]

/-! ## What a lawful log says -/

/-- Between two initialisations of a node there is exactly one deinit. -/
def DeinitOnce (log : List PipelineEvent) : Prop :=
  ∀ i before rc between rc' after,
    log = before ++ .nodeInit i rc :: between ++ .nodeInit i rc' :: after →
    (∀ rc'', .nodeInit i rc'' ∉ between) → between.count (.nodeDeinit i) = 1

/-- After a deinit of the sink that failed there is one that succeeds before the sink is
initialised again. -/
def DeinitRetried (log : List PipelineEvent) : Prop :=
  ∀ before rc between fmt blockFrames rc' after, rc ≠ EAF_OK →
    log = before ++ .sinkDeinit rc :: between ++ .sinkInit fmt blockFrames rc' :: after →
    .sinkDeinit EAF_OK ∈ between

theorem lawful_left {xs ys : List PipelineEvent} (h : Lawful (xs ++ ys)) : Lawful xs := by
  intro before e after hsplit
  apply h before e (after ++ ys)
  rw [hsplit, List.append_assoc, List.cons_append]

/-- A node that is not initialised again gets at most one deinit, and is held until then. -/
theorem held_between {i : Nat} {between before : List PipelineEvent} {held : Bool}
    (h : Lawful (before ++ between)) (hnone : ∀ rc, .nodeInit i rc ∉ between)
    (hheld : (lifeAfter before).held i = held) :
    (lifeAfter (before ++ between)).held i = (held && between.count (.nodeDeinit i) = 0) ∧
      between.count (.nodeDeinit i) ≤ held.toNat := by
  induction between generalizing before held with
  | nil => simp [hheld]
  | cons e between ih =>
    have hassoc : before ++ e :: between = (before ++ [e]) ++ between := by simp
    rw [hassoc] at h ⊢
    have hnone' : ∀ rc, .nodeInit i rc ∉ between := by
      intro rc hmem
      exact hnone rc (List.mem_cons_of_mem _ hmem)
    have hallows := lawful_left h before e [] rfl
    by_cases he : e = .nodeDeinit i
    · subst he
      have hup : held = true := by rw [← hheld]; exact hallows
      have hdown : (lifeAfter (before ++ [.nodeDeinit i])).held i = false := by
        rw [lifeAfter_snoc]
        simp [Life.after]
      obtain ⟨hlast, hcount⟩ := ih h hnone' hdown
      rw [List.count_cons_self, hup, hlast]
      simp only [Bool.toNat_false, Nat.le_zero] at hcount
      simp [hcount]
    · have hsame : (lifeAfter (before ++ [e])).held i = held := by
        rw [lifeAfter_snoc, ← hheld]
        cases e with
        | nodeInit j rc =>
          have hne : i ≠ j := by
            rintro rfl
            exact hnone rc List.mem_cons_self
          simp [Life.after, hne]
        | nodeDeinit j =>
          have hne : i ≠ j := by
            rintro rfl
            exact he rfl
          simp [Life.after, hne]
        | _ => rfl
      rw [List.count_cons_of_ne he]
      exact ih h hnone' hsame

theorem deinitOnce_of_lawful {log : List PipelineEvent} (h : Lawful log) : DeinitOnce log := by
  intro i before rc between rc' after hlog hnone
  have hstart : (lifeAfter (before ++ [.nodeInit i rc])).held i = true := by
    rw [lifeAfter_snoc]
    simp [Life.after]
  have hassoc : before ++ .nodeInit i rc :: between = (before ++ [.nodeInit i rc]) ++ between := by
    simp
  have hallows := h _ _ _ hlog
  rw [hassoc] at hlog hallows
  obtain ⟨hheld, hcount⟩ := held_between (lawful_left (hlog ▸ h)) hnone hstart
  have hfree : (lifeAfter ((before ++ [.nodeInit i rc]) ++ between)).held i = false := hallows
  rw [hheld, Bool.true_and, decide_eq_false_iff_not] at hfree
  rw [Bool.toNat_true] at hcount
  omega

/-- The sink stays owned until a deinit succeeds. -/
theorem owned_between {between before : List PipelineEvent}
    (hnone : .sinkDeinit EAF_OK ∉ between) (howned : (lifeAfter before).owned = true) :
    (lifeAfter (before ++ between)).owned = true := by
  induction between generalizing before with
  | nil => simpa using howned
  | cons e between ih =>
    have hassoc : before ++ e :: between = (before ++ [e]) ++ between := by simp
    rw [hassoc]
    apply ih (fun hmem => hnone (List.mem_cons_of_mem _ hmem))
    rw [lifeAfter_snoc]
    cases e with
    | sinkDeinit rc =>
      have hne : rc ≠ EAF_OK := by
        rintro rfl
        exact hnone List.mem_cons_self
      simp [Life.after, hne]
    | sinkInit fmt blockFrames rc => rfl
    | _ => exact howned

theorem deinitRetried_of_lawful {log : List PipelineEvent} (h : Lawful log) : DeinitRetried log := by
  intro before rc between fmt blockFrames rc' after hrc hlog
  by_contra hnone
  have hstart : (lifeAfter (before ++ [.sinkDeinit rc])).owned = true := by
    rw [lifeAfter_snoc]
    simp [Life.after, hrc]
  have hallows : (lifeAfter (before ++ .sinkDeinit rc :: between)).owned = false := h _ _ _ hlog
  have hassoc : before ++ .sinkDeinit rc :: between = (before ++ [.sinkDeinit rc]) ++ between := by
    simp
  rw [hassoc, owned_between hnone hstart] at hallows
  cases hallows

/-- For all calls, and whatever the sink and the nodes return. -/
theorem pipeline_lawful (env : PipelineEnv) (reservoir : Reservoir) (mem : Mem)
    (calls : List PipelineCall) :
    let log := (afterPipelineCalls env (zeroPipeline reservoir mem) calls).log
    Lawful log ∧ DeinitOnce log ∧ DeinitRetried log := by
  have h := (orderly_calls env (orderly_zero reservoir mem) calls).tied.lawful
  exact ⟨h, deinitOnce_of_lawful h, deinitRetried_of_lawful h⟩

end EmbeddedAudio.Core
