-- One block through nodes that may return anything and leave anything in the
-- buffer: what of it reaches the sink, and when the end is reported.
import EmbeddedAudio.Pipeline

namespace EmbeddedAudio.Core

open Storage

/-! ## The way of a block -/

/-- A node that succeeded, and left a buffer that the next one can take. -/
def Sound (p : Pipeline) (owned : Buffer) (rc : Rc) (before after : Buffer) : Prop :=
  rc = EAF_OK ∧ metadataKept p owned after before.format.numChannels = true

/-- The first `i` nodes were called in order, each on the buffer of the one before, and were
sound. The last of them left `buf`. -/
inductive Passed (p : Pipeline) (owned pulled : Buffer) :
    Nat → Buffer → List PipelineEvent → Prop
  | pull : Passed p owned pulled 0 pulled []
  | node {i : Nat} {rc : Rc} {buf after : Buffer} {nodes : List PipelineEvent} :
      Passed p owned pulled i buf nodes → Sound p owned rc buf after →
      Passed p owned pulled (i + 1) after (nodes ++ [.nodeProcess i rc buf after])

/-- A block that the pull and all nodes have served, up to the format that was configured. -/
def Faultless (p : Pipeline) (owned : Buffer) (pullRc : Rc) (pulled : Buffer)
    (nodes : List PipelineEvent) : Prop :=
  pullRc = EAF_OK ∧ ∃ out, Passed p owned pulled p.config.nodes.length out nodes ∧
    out.format = p.outputFormat

/-- A block that failed. Nothing is called behind the call that failed. -/
inductive Failed (p : Pipeline) (owned : Buffer) : Rc → Buffer → List PipelineEvent → Prop
  | pull {pullRc : Rc} {pulled : Buffer} : pullRc ≠ EAF_OK → Failed p owned pullRc pulled []
  | node {i : Nat} {rc : Rc} {pulled buf after : Buffer} {nodes : List PipelineEvent} :
      i < p.config.nodes.length → Passed p owned pulled i buf nodes →
      ¬ Sound p owned rc buf after →
      Failed p owned EAF_OK pulled (nodes ++ [.nodeProcess i rc buf after])
  | format {pulled out : Buffer} {nodes : List PipelineEvent} :
      Passed p owned pulled p.config.nodes.length out nodes → out.format ≠ p.outputFormat →
      Failed p owned EAF_OK pulled nodes

/-- What the sink gets for a block. -/
structure Delivered (p : Pipeline) (owned : Buffer) (pullRc : Rc) (pulled : Buffer)
    (nodes : List PipelineEvent) (buf : Buffer) (block : List Int32) : Prop where
  samples : buf.samples = owned.samples
  capacitySamples : buf.capacitySamples = owned.capacitySamples
  capacityFrames : buf.capacityFrames = owned.capacityFrames
  frameCount : buf.frameCount = p.blockFrames
  format : buf.format = p.outputFormat
  /-- Silence, or a block that keeps the flag of the pull. -/
  content :
    Failed p owned pullRc pulled nodes ∧ buf.flags = EAF_FRAME_SILENCE ∧
        block = List.replicate (p.blockFrames.toNat * p.outputFormat.numChannels) 0 ∨
      Faultless p owned pullRc pulled nodes ∧
        (pulled.flags &&& EAF_FRAME_EOS ≠ 0 → buf.flags &&& EAF_FRAME_EOS ≠ 0)

/-- The result says that the stream has ended only if its last block was committed. -/
def EofEarned (p : Pipeline) (owned : Buffer) (pullRc : Rc) (pulled : Buffer)
    (nodes : List PipelineEvent) (commit result : Rc) : Prop :=
  result = EAF_EOF → Faultless p owned pullRc pulled nodes ∧
    pulled.flags &&& EAF_FRAME_EOS ≠ 0 ∧ commit = EAF_OK

/-- A call of `eaf_pipeline_process` on a buffer that fits makes one commit. -/
def Contained (env : PipelineEnv) (p : Pipeline) (owned : Buffer) : Prop :=
  ∃ pullRc pulled nodes buf block commit,
    (pipelineProcess env p).2.log =
        p.log ++ [.acquire EAF_OK, .pull pullRc pulled] ++ nodes ++ [.commit buf block commit] ∧
      Delivered p owned pullRc pulled nodes buf block ∧
      EofEarned p owned pullRc pulled nodes commit (pipelineProcess env p).1

/-! ## The condition -/

/-- What the node `i` is given as long as the nodes before it answer soundly: the buffer, the
memory, and what has been called so far. `x` is the block that was pulled. -/
inductive Handed (env : PipelineEnv) (p : Pipeline) (owned : Buffer) (x : Block) :
    Nat → Buffer → Mem → List PipelineEvent → Prop
  | pull : x.rc = EAF_OK → Handed env p owned x 0 x.buf x.p.mem x.p.log
  | node {i : Nat} {buf after : Buffer} {mem mem' : Mem} {log : List PipelineEvent} :
      Handed env p owned x i buf mem log →
      env.nodeProcess i log buf mem = (EAF_OK, after, mem') →
      metadataKept p owned after buf.format.numChannels = true →
      Handed env p owned x (i + 1) after mem' (log ++ [.nodeProcess i EAF_OK buf after])

/-- The buffer of a block without a failure, with the flag for the end of the stream. -/
def flagged (eos : Bool) (buf : Buffer) : Buffer :=
  if eos then { buf with flags := buf.flags ||| EAF_FRAME_EOS } else buf

/-- No node returns the code for the end, and neither does the sink for a block without a
failure. -/
structure NoEarlyEof (env : PipelineEnv) (p : Pipeline) (owned : Buffer) (x : Block) : Prop where
  nodes : ∀ i buf mem log after mem', i < p.config.nodes.length →
    Handed env p owned x i buf mem log →
    env.nodeProcess i log buf mem = (EAF_EOF, after, mem') →
    metadataKept p owned after buf.format.numChannels = false
  sink : ∀ buf mem log, Handed env p owned x p.config.nodes.length buf mem log →
    buf.format = p.outputFormat → env.commit log (flagged (raisesEos x) buf) ≠ EAF_EOF

/-! ## The loop over the nodes -/

/-- A block of `p`. -/
structure Block.Of (p : Pipeline) (x : Block) : Prop where
  blockFrames : x.p.blockFrames = p.blockFrames
  outputFormat : x.p.outputFormat = p.outputFormat

section Loop

variable {env : PipelineEnv} {p : Pipeline} {owned : Buffer} {x : Block}

theorem Block.Of.metadataKept (h : x.Of p) (buf : Buffer) (channels : Nat) :
    metadataKept x.p owned buf channels = metadataKept p owned buf channels := by
  unfold Core.metadataKept
  rw [h.blockFrames, h.outputFormat]

theorem Block.Of.processNode (h : x.Of p) (i : Nat) : (processNode env owned i x).Of p :=
  ⟨h.blockFrames, h.outputFormat⟩

theorem processNodes_failed (is : List Nat) (h : x.rc ≠ EAF_OK) :
    processNodes env owned is x = x := by
  cases is with
  | nil => rfl
  | cons i is => rw [processNodes, if_pos h]

theorem processNodes_append (is js : List Nat) (x : Block) :
    processNodes env owned (is ++ js) x =
      processNodes env owned js (processNodes env owned is x) := by
  induction is generalizing x with
  | nil => rfl
  | cons i is ih =>
    rw [List.cons_append, processNodes, processNodes]
    split
    · rename_i hrc
      rw [processNodes_failed js hrc]
    · exact ih _

theorem processNodes_range_succ (k : Nat) (x : Block) :
    processNodes env owned (List.range (k + 1)) x =
      if (processNodes env owned (List.range k) x).rc ≠ EAF_OK then
        processNodes env owned (List.range k) x
      else processNode env owned k (processNodes env owned (List.range k) x) := by
  rw [List.range_succ, processNodes_append]
  simp only [processNodes]

theorem processNodes_of (h : x.Of p) (is : List Nat) : (processNodes env owned is x).Of p := by
  induction is generalizing x with
  | nil => exact h
  | cons i is ih =>
    rw [processNodes]
    split
    · exact h
    · exact ih (h.processNode i)

/-- What a node answers decides the code. -/
theorem processNode_rc (h : x.Of p) (i : Nat) {rc : Rc} {after : Buffer} {mem : Mem}
    (hnode : env.nodeProcess i x.p.log x.buf x.p.mem = (rc, after, mem)) :
    processNode env owned i x =
      ⟨if metadataKept p owned after x.buf.format.numChannels then rc else EAF_INVALID, after,
        { x.p with mem := mem }.record (.nodeProcess i rc x.buf after)⟩ := by
  unfold processNode
  rw [hnode, ← h.metadataKept]
  rfl

/-- The calls that the loop has made: all were sound, or one failed, and it was the last. -/
inductive Walked (env : PipelineEnv) (p : Pipeline) (owned : Buffer) (x : Block) (k : Nat) :
    Block → Prop
  | passed {y : Block} {nodes : List PipelineEvent} : y.rc = EAF_OK →
      y.p.log = x.p.log ++ nodes → Passed p owned x.buf k y.buf nodes →
      Handed env p owned x k y.buf y.p.mem y.p.log → Walked env p owned x k y
  | failed {y : Block} {i : Nat} {rc : Rc} {buf after : Buffer} {mem mem' : Mem}
      {nodes : List PipelineEvent} : i < k → Passed p owned x.buf i buf nodes →
      Handed env p owned x i buf mem (x.p.log ++ nodes) →
      env.nodeProcess i (x.p.log ++ nodes) buf mem = (rc, after, mem') →
      ¬ Sound p owned rc buf after →
      y.rc = (if metadataKept p owned after buf.format.numChannels then rc else EAF_INVALID) →
      y.p.log = x.p.log ++ (nodes ++ [.nodeProcess i rc buf after]) → Walked env p owned x k y

theorem unsound_rc {rc : Rc} {before after : Buffer} (h : ¬ Sound p owned rc before after) :
    (if metadataKept p owned after before.format.numChannels then rc else EAF_INVALID) ≠ EAF_OK := by
  by_cases hkept : metadataKept p owned after before.format.numChannels = true
  · rw [if_pos hkept]
    intro hrc
    exact h ⟨hrc, hkept⟩
  · rw [if_neg hkept]
    simp

theorem Walked.rc_ne {k : Nat} {y : Block} (h : Walked env p owned x k y) (hrc : y.rc ≠ EAF_OK) :
    Walked env p owned x (k + 1) y := by
  cases h with
  | passed hok => exact absurd hok hrc
  | failed hi hpassed hhanded hnode hsound hyrc hlog =>
    exact .failed (Nat.lt_succ_of_lt hi) hpassed hhanded hnode hsound hyrc hlog

/-- One more turn of the loop. -/
theorem Walked.step {k : Nat} {y : Block} (h : Walked env p owned x k y) (hy : y.Of p)
    (hrc : y.rc = EAF_OK) : Walked env p owned x (k + 1) (processNode env owned k y) := by
  cases h with
  | failed _ _ _ _ hsound hyrc _ =>
    rw [hyrc] at hrc
    exact absurd hrc (unsound_rc hsound)
  | @passed nodes _ hlog hpassed hhanded =>
    rcases hnode : env.nodeProcess k y.p.log y.buf y.p.mem with ⟨rc, after, mem⟩
    rw [processNode_rc hy k hnode]
    by_cases hsound : Sound p owned rc y.buf after
    · obtain ⟨rfl, hkept⟩ := hsound
      apply @Walked.passed _ _ _ _ _ _ (nodes ++ [.nodeProcess k EAF_OK y.buf after])
      · rw [if_pos hkept]
      · simp [hlog]
      · exact .node hpassed ⟨rfl, hkept⟩
      · exact .node hhanded hnode hkept
    · rw [hlog] at hhanded hnode
      refine .failed (Nat.lt_succ_self k) hpassed hhanded hnode hsound rfl ?_
      simp [hlog]

theorem walked_range (hx : x.Of p) (hrc : x.rc = EAF_OK) (k : Nat) :
    Walked env p owned x k (processNodes env owned (List.range k) x) := by
  induction k with
  | zero => exact .passed hrc (by simp [processNodes]) .pull (.pull hrc)
  | succ k ih =>
    rw [processNodes_range_succ]
    by_cases hok : (processNodes env owned (List.range k) x).rc = EAF_OK
    · rw [if_neg (not_not.mpr hok)]
      exact ih.step (processNodes_of hx _) hok
    · rw [if_pos hok]
      exact ih.rc_ne hok

theorem handed_rc {k : Nat} {buf : Buffer} {mem : Mem} {log : List PipelineEvent}
    (h : Handed env p owned x k buf mem log) : x.rc = EAF_OK := by
  induction h with
  | pull hrc => exact hrc
  | node _ _ _ ih => exact ih

/-- What a node is given is what the loop has at that point. -/
theorem handed_loop (hx : x.Of p) {k : Nat} {buf : Buffer} {mem : Mem} {log : List PipelineEvent}
    (h : Handed env p owned x k buf mem log) :
    processNodes env owned (List.range k) x =
      ⟨EAF_OK, buf, { x.p with mem := mem, log := log }⟩ := by
  induction h with
  | pull hrc =>
    rw [← hrc]
    rfl
  | @node k buf after mem mem' log _ hnode hkept ih =>
    have hy : (⟨EAF_OK, buf, { x.p with mem := mem, log := log }⟩ : Block).Of p :=
      ⟨hx.blockFrames, hx.outputFormat⟩
    rw [processNodes_range_succ, ih, if_neg (by simp), processNode_rc hy k hnode, if_pos hkept]
    rfl

/-- A node that fails leaves its code to the loop. -/
theorem failed_loop (hx : x.Of p) {i n : Nat} {rc : Rc} {buf after : Buffer} {mem mem' : Mem}
    {log : List PipelineEvent} (hi : i < n) (h : Handed env p owned x i buf mem log)
    (hnode : env.nodeProcess i log buf mem = (rc, after, mem')) (hrc : rc ≠ EAF_OK)
    (hkept : metadataKept p owned after buf.format.numChannels = true) :
    processNodes env owned (List.range n) x =
      ⟨rc, after, { x.p with mem := mem', log := log ++ [.nodeProcess i rc buf after] }⟩ := by
  have hy : (⟨EAF_OK, buf, { x.p with mem := mem, log := log }⟩ : Block).Of p :=
    ⟨hx.blockFrames, hx.outputFormat⟩
  have hnext : processNodes env owned (List.range (i + 1)) x =
      ⟨rc, after, { x.p with mem := mem', log := log ++ [.nodeProcess i rc buf after] }⟩ := by
    rw [processNodes_range_succ, handed_loop hx h, if_neg (by simp), processNode_rc hy i hnode,
      if_pos hkept]
    rfl
  obtain ⟨m, rfl⟩ := Nat.exists_eq_add_of_le hi
  rw [List.range_add, processNodes_append, hnext]
  exact processNodes_failed _ hrc

/-- All calls of a block that passed were sound. -/
theorem passed_sound {pulled buf before after : Buffer} {k i : Nat} {rc : Rc}
    {nodes : List PipelineEvent} (h : Passed p owned pulled k buf nodes)
    (hmem : .nodeProcess i rc before after ∈ nodes) : Sound p owned rc before after := by
  induction h with
  | pull => cases hmem
  | node _ hsound ih =>
    rcases List.mem_append.mp hmem with hmem | hmem
    · exact ih hmem
    · have heq := List.mem_singleton.mp hmem
      injection heq with _ hrc hbefore hafter
      subst hrc hbefore hafter
      exact hsound

theorem passed_metadata {pulled buf : Buffer} {k : Nat} {nodes : List PipelineEvent}
    (h : Passed p owned pulled k buf nodes) (hsamples : pulled.samples = owned.samples)
    (hcapacity : pulled.capacitySamples = owned.capacitySamples)
    (hframes : pulled.capacityFrames = owned.capacityFrames)
    (hcount : pulled.frameCount = p.blockFrames) :
    buf.samples = owned.samples ∧ buf.capacitySamples = owned.capacitySamples ∧
      buf.capacityFrames = owned.capacityFrames ∧ buf.frameCount = p.blockFrames := by
  cases h with
  | pull => exact ⟨hsamples, hcapacity, hframes, hcount⟩
  | node _ hsound =>
    have hkept := hsound.2
    simp only [metadataKept, Bool.and_eq_true, beq_iff_eq] at hkept
    obtain ⟨⟨⟨⟨⟨⟨⟨hs, hc⟩, hf⟩, hn⟩, -⟩, -⟩, -⟩, -⟩ := hkept
    exact ⟨hs, hc, hf, hn⟩

end Loop

/-! ## The commit -/

section Commit

variable {env : PipelineEnv} {p : Pipeline} {owned : Buffer} {x : Block}

theorem commitBlock_log (rc : Rc) (eos : Bool) (buf : Buffer) (q : Pipeline) :
    (commitBlock env rc eos buf q).2.log = q.log ++ [.commit buf
      (memLoad q.mem buf.samples (buf.frameCount.toNat * buf.format.numChannels))
      (env.commit q.log buf)] := by
  unfold commitBlock
  simp only
  split
  · rfl
  · rfl

theorem commitBlock_failed {rc : Rc} (hrc : rc ≠ EAF_OK) (eos : Bool) (buf : Buffer)
    (q : Pipeline) : (commitBlock env rc eos buf q).1 = rc := by
  unfold commitBlock
  simp only
  rw [if_neg (fun h => hrc h.1), if_pos hrc]

theorem commitBlock_eof {eos : Bool} {buf : Buffer} {q : Pipeline}
    (h : (commitBlock env EAF_OK eos buf q).1 = EAF_EOF) (hsink : env.commit q.log buf ≠ EAF_EOF) :
    env.commit q.log buf = EAF_OK ∧ eos = true := by
  unfold commitBlock at h
  simp only at h
  split at h
  · rename_i hall
    exact hall.2
  · rw [if_neg (by simp)] at h
    exact absurd h hsink

theorem and_or_eos (flags : UInt32) : (flags ||| EAF_FRAME_EOS) &&& EAF_FRAME_EOS ≠ 0 := by
  have hone : (flags ||| EAF_FRAME_EOS) &&& EAF_FRAME_EOS = EAF_FRAME_EOS := by
    apply UInt32.eq_of_toBitVec_eq
    apply BitVec.eq_of_getElem_eq
    intro i hi
    simp only [UInt32.toBitVec_and, UInt32.toBitVec_or, BitVec.getElem_and, BitVec.getElem_or]
    cases (EAF_FRAME_EOS.toBitVec)[i] with
    | false => simp
    | true => simp
  rw [hone]
  decide

theorem memLoad_memStore (mem : Mem) (q : Nat) (xs : List Int32) :
    memLoad (memStore mem (some q) xs) (some q) xs.length = xs := by
  simp [memLoad, memStore, overwrite]

/-- The block in which `eaf_pipeline_process` begins the loop over the nodes. -/
structure Starts (p : Pipeline) (owned : Buffer) (x : Block) : Prop extends x.Of p where
  config : x.p.config = p.config
  samples : x.buf.samples = owned.samples
  capacitySamples : x.buf.capacitySamples = owned.capacitySamples
  capacityFrames : x.buf.capacityFrames = owned.capacityFrames
  frameCount : x.buf.frameCount = p.blockFrames
  rc : x.rc ≠ EAF_EOF

/-- `eaf_pipeline_process` behind the pull, when the block fails. -/
theorem processRest_failed (h : Starts p owned x) (hsamples : owned.samples.isSome)
    {y : Block} (hloop : processNodes env owned (List.range p.config.nodes.length) x = y)
    (hrc : outputRc y ≠ EAF_OK) {nodes : List PipelineEvent} (hlog : y.p.log = x.p.log ++ nodes)
    (hfailed : Failed p owned x.rc x.buf nodes) :
    (processRest env owned x).1 = outputRc y ∧ ∃ buf block commit,
      (processRest env owned x).2.log = x.p.log ++ nodes ++ [.commit buf block commit] ∧
        Delivered p owned x.rc x.buf nodes buf block := by
  obtain ⟨q, hq⟩ := Option.isSome_iff_exists.mp hsamples
  have hy : y.Of p := hloop ▸ processNodes_of h.toOf _
  have hrest : processRest env owned x = commitBlock env (outputRc y) (raisesEos x)
      (silenceBlock y.p owned).1 (silenceBlock y.p owned).2 := by
    unfold processRest outputBlock
    simp only [h.config, hloop]
    rw [if_pos hrc]
  rw [hrest, commitBlock_failed hrc, commitBlock_log, ← hlog]
  refine ⟨rfl, (silenceBlock y.p owned).1, memLoad (silenceBlock y.p owned).2.mem owned.samples
    (y.p.blockFrames.toNat * y.p.outputFormat.numChannels), _, rfl, ?_⟩
  refine ⟨rfl, rfl, rfl, hy.blockFrames, hy.outputFormat, .inl ⟨hfailed, rfl, ?_⟩⟩
  have hzeros := memLoad_memStore y.p.mem q
    (List.replicate (p.blockFrames.toNat * p.outputFormat.numChannels) 0)
  rw [List.length_replicate] at hzeros
  unfold silenceBlock
  simp only [hq, hy.blockFrames, hy.outputFormat]
  exact hzeros

/-- `eaf_pipeline_process` behind the pull, when nothing fails. -/
theorem processRest_faultless (h : Starts p owned x) {y : Block}
    (hloop : processNodes env owned (List.range p.config.nodes.length) x = y)
    {nodes : List PipelineEvent} (hlog : y.p.log = x.p.log ++ nodes) (hrc : x.rc = EAF_OK)
    (hyrc : y.rc = EAF_OK) (hpassed : Passed p owned x.buf p.config.nodes.length y.buf nodes)
    (hformat : y.buf.format = p.outputFormat) :
    processRest env owned x =
        commitBlock env EAF_OK (raisesEos x) (flagged (raisesEos x) y.buf) y.p ∧ ∃ block,
      (processRest env owned x).2.log = x.p.log ++ nodes ++
          [.commit (flagged (raisesEos x) y.buf) block
            (env.commit y.p.log (flagged (raisesEos x) y.buf))] ∧
        Delivered p owned x.rc x.buf nodes (flagged (raisesEos x) y.buf) block := by
  have hy : y.Of p := hloop ▸ processNodes_of h.toOf _
  obtain ⟨hs, hc, hf, hn⟩ :=
    passed_metadata hpassed h.samples h.capacitySamples h.capacityFrames h.frameCount
  have hok : outputRc y = EAF_OK := by
    unfold outputRc
    rw [if_neg, hyrc]
    rintro ⟨-, hne | hne⟩
    · exact hne (hformat.trans hy.outputFormat.symm)
    · exact hne (hn.trans hy.blockFrames.symm)
  have hrest : processRest env owned x =
      commitBlock env EAF_OK (raisesEos x) (flagged (raisesEos x) y.buf) y.p := by
    unfold processRest outputBlock flagged
    simp only [h.config, hloop, hok]
    cases raisesEos x with
    | false => simp
    | true => simp
  rw [hrest, commitBlock_log, ← hlog]
  refine ⟨rfl, memLoad y.p.mem (flagged (raisesEos x) y.buf).samples
    ((flagged (raisesEos x) y.buf).frameCount.toNat *
      (flagged (raisesEos x) y.buf).format.numChannels), rfl, ?_⟩
  have hbuf : ∀ eos, (flagged eos y.buf).samples = y.buf.samples ∧
      (flagged eos y.buf).capacitySamples = y.buf.capacitySamples ∧
      (flagged eos y.buf).capacityFrames = y.buf.capacityFrames ∧
      (flagged eos y.buf).frameCount = y.buf.frameCount ∧
      (flagged eos y.buf).format = y.buf.format := by
    intro eos
    cases eos with
    | false => exact ⟨rfl, rfl, rfl, rfl, rfl⟩
    | true => exact ⟨rfl, rfl, rfl, rfl, rfl⟩
  obtain ⟨hs', hc', hf', hn', hformat'⟩ := hbuf (raisesEos x)
  refine ⟨hs'.trans hs, hc'.trans hc, hf'.trans hf, hn'.trans hn, hformat'.trans hformat,
    .inr ⟨⟨hrc, y.buf, hpassed, hformat⟩, ?_⟩⟩
  intro heos
  have hraises : raisesEos x = true := by
    simp only [raisesEos, hrc, decide_true, Bool.true_and]
    exact decide_eq_true heos
  rw [hraises]
  exact and_or_eos y.buf.flags

end Commit

/-! ## Blocks, from the acquire on -/

section Contained

variable {env : PipelineEnv} {p : Pipeline} {owned : Buffer}

theorem passed_unique {pulled buf buf' : Buffer} {k : Nat} {nodes : List PipelineEvent}
    (h : Passed p owned pulled k buf nodes) (h' : Passed p owned pulled k buf' nodes) :
    buf = buf' := by
  cases h with
  | pull =>
    cases h'
    rfl
  | @node i rc before after nodes _ _ =>
    generalize hall : nodes ++ [PipelineEvent.nodeProcess i rc before buf] = all at h'
    generalize hk : i + 1 = k at h'
    cases h' with
    | pull => cases hk
    | node _ _ =>
      obtain ⟨-, hlast⟩ := List.append_inj' hall rfl
      have heq := List.singleton_inj.mp hlast
      injection heq

theorem faultless_not_failed {pullRc : Rc} {pulled : Buffer} {nodes : List PipelineEvent}
    (h : Faultless p owned pullRc pulled nodes) : ¬ Failed p owned pullRc pulled nodes := by
  obtain ⟨hrc, out, hpassed, hformat⟩ := h
  intro hfailed
  cases hfailed with
  | pull hne => exact hne hrc
  | node _ _ hsound =>
    exact hsound (passed_sound hpassed (List.mem_append_right _ (List.mem_singleton_self _)))
  | format hpassed' hne =>
    rw [passed_unique hpassed hpassed'] at hformat
    exact hne hformat

theorem starts_pullBlock (p : Pipeline) (owned : Buffer) (rc : Rc) :
    Starts p owned (pullBlock (p.record (.acquire rc)) owned) := by
  unfold pullBlock reservoirPull
  simp only
  split
  · exact ⟨⟨rfl, rfl⟩, rfl, rfl, rfl, rfl, rfl, (by decide : EAF_INVALID ≠ EAF_EOF)⟩
  · exact ⟨⟨rfl, rfl⟩, rfl, rfl, rfl, rfl, rfl, (by decide : EAF_OK ≠ EAF_EOF)⟩

theorem pullBlock_log (q : Pipeline) (owned : Buffer) : (pullBlock q owned).p.log =
    q.log ++ [.pull (pullBlock q owned).rc (pullBlock q owned).buf] := rfl

theorem process_rest (hrunning : p.state = .running) (hopen : p.completed = false)
    (hacquire : env.acquire p.log = (EAF_OK, some owned)) (hfits : acquiredFits p owned = true) :
    pipelineProcess env p =
      processRest env owned (pullBlock (p.record (.acquire EAF_OK)) owned) := by
  have hfits' : acquiredFits (p.record (.acquire EAF_OK)) owned = true := hfits
  unfold pipelineProcess
  simp [hrunning, hopen, hacquire, hfits']

/-- A block comes out of the loop without a failure, or it failed there or before; and then the
code is the one for the end only if a node has returned that. -/
theorem block_outcome {x y : Block} (h : Starts p owned x)
    (hloop : processNodes env owned (List.range p.config.nodes.length) x = y) :
    ∃ nodes, y.p.log = x.p.log ++ nodes ∧
      (x.rc = EAF_OK ∧ y.rc = EAF_OK ∧ Passed p owned x.buf p.config.nodes.length y.buf nodes ∧
          Handed env p owned x p.config.nodes.length y.buf y.p.mem y.p.log ∧
          y.buf.format = p.outputFormat ∨
        outputRc y ≠ EAF_OK ∧ Failed p owned x.rc x.buf nodes ∧
          (outputRc y = EAF_EOF → ∃ i buf mem log after mem', i < p.config.nodes.length ∧
            Handed env p owned x i buf mem log ∧
            env.nodeProcess i log buf mem = (EAF_EOF, after, mem') ∧
            metadataKept p owned after buf.format.numChannels = true)) := by
  have hy : y.Of p := hloop ▸ processNodes_of h.toOf _
  by_cases hrc : x.rc = EAF_OK
  · have hwalked := hloop ▸ walked_range h.toOf hrc p.config.nodes.length
    cases hwalked with
    | @passed nodes hyrc hlog hpassed hhanded =>
      refine ⟨nodes, hlog, ?_⟩
      by_cases hformat : y.buf.format = p.outputFormat
      · exact .inl ⟨hrc, hyrc, hpassed, hhanded, hformat⟩
      · have hinvalid : outputRc y = EAF_INVALID := by
          unfold outputRc
          rw [if_pos ⟨hyrc, .inl (hy.outputFormat ▸ hformat)⟩]
        rw [hinvalid, hrc]
        refine .inr ⟨by decide, .format hpassed hformat, ?_⟩
        intro heof
        cases heof
    | failed hi hpassed hhanded hnode hsound hyrc hlog =>
      refine ⟨_, hlog, .inr ?_⟩
      have hne : y.rc ≠ EAF_OK := hyrc ▸ unsound_rc hsound
      have hout : outputRc y = y.rc := by
        unfold outputRc
        rw [if_neg (fun hall => hne hall.1)]
      rw [hout, hrc]
      refine ⟨hne, .node hi hpassed hsound, ?_⟩
      intro heof
      rw [hyrc] at heof
      split at heof
      · rename_i hkept
        subst heof
        exact ⟨_, _, _, _, _, _, hi, hhanded, hnode, hkept⟩
      · cases heof
  · have hsame : y = x := by rw [← hloop, processNodes_failed _ hrc]
    subst hsame
    have hout : outputRc y = y.rc := by
      unfold outputRc
      rw [if_neg (fun hall => hrc hall.1)]
    rw [hout]
    refine ⟨[], (List.append_nil _).symm, .inr ⟨hrc, .pull hrc, ?_⟩⟩
    intro heof
    exact absurd heof h.rc

/-- Without a code for the end out of its turn the block is contained. -/
theorem contained_of_noEarlyEof {x : Block} (h : Starts p owned x) (hsamples : owned.samples.isSome)
    (hno : NoEarlyEof env p owned x) :
    ∃ nodes buf block commit,
      (processRest env owned x).2.log = x.p.log ++ nodes ++ [.commit buf block commit] ∧
        Delivered p owned x.rc x.buf nodes buf block ∧
        EofEarned p owned x.rc x.buf nodes commit (processRest env owned x).1 := by
  obtain ⟨nodes, hlog, hok | hfailed⟩ := block_outcome h rfl
  · obtain ⟨hrc, hyrc, hpassed, hhanded, hformat⟩ := hok
    obtain ⟨hrest, block, hfull, hdelivered⟩ :=
      processRest_faultless h rfl hlog hrc hyrc hpassed hformat
    refine ⟨nodes, _, block, _, hfull, hdelivered, ?_⟩
    intro heof
    rw [hrest] at heof
    obtain ⟨hcommit, heos⟩ := commitBlock_eof heof (hno.sink _ _ _ hhanded hformat)
    refine ⟨⟨hrc, _, hpassed, hformat⟩, ?_, hcommit⟩
    unfold raisesEos at heos
    simp only [Bool.and_eq_true, decide_eq_true_eq] at heos
    exact heos.2
  · obtain ⟨hne, hf, hfrom⟩ := hfailed
    obtain ⟨hrc, buf, block, commit, hfull, hdelivered⟩ :=
      processRest_failed h hsamples rfl hne hlog hf
    refine ⟨nodes, buf, block, commit, hfull, hdelivered, ?_⟩
    intro heof
    rw [hrc] at heof
    obtain ⟨i, buf, mem, log, after, mem', hi, hhanded, hnode, hkept⟩ := hfrom heof
    rw [hno.nodes i buf mem log after mem' hi hhanded hnode] at hkept
    cases hkept

/-- The log of a call says which nodes were called and what was committed. -/
theorem log_cancel {before nodes nodes' : List PipelineEvent} {e e' : PipelineEvent}
    (h : before ++ nodes ++ [e] = before ++ nodes' ++ [e']) : nodes = nodes' ∧ e = e' := by
  rw [List.append_assoc, List.append_assoc] at h
  obtain ⟨hnodes, he⟩ := List.append_inj' (List.append_cancel_left h) rfl
  exact ⟨hnodes, List.singleton_inj.mp he⟩

/-- A code for the end out of its turn is reported. -/
theorem noEarlyEof_of_contained {x : Block} (h : Starts p owned x)
    (hsamples : owned.samples.isSome) {nodes : List PipelineEvent} {buf : Buffer}
    {block : List Int32} {commit : Rc}
    (hfull : (processRest env owned x).2.log = x.p.log ++ nodes ++ [.commit buf block commit])
    (heof : EofEarned p owned x.rc x.buf nodes commit (processRest env owned x).1) :
    NoEarlyEof env p owned x := by
  constructor
  · intro i before mem log after mem' hi hhanded hnode
    by_contra hkept
    have hloop := failed_loop h.toOf hi hhanded hnode (by decide) (Bool.not_eq_false _ ▸ hkept)
    obtain ⟨nodes', hlog, hok | hfailed⟩ := block_outcome h hloop
    · exact absurd hok.2.1 (by decide : EAF_EOF ≠ EAF_OK)
    · obtain ⟨hne, hf, -⟩ := hfailed
      obtain ⟨hrc, buf', block', commit', hfull', -⟩ :=
        processRest_failed h hsamples hloop hne hlog hf
      obtain ⟨rfl, -⟩ := log_cancel (hfull.symm.trans hfull')
      exact faultless_not_failed (heof hrc).1 hf
  · intro out mem log hhanded hformat hcommit
    have hrc := handed_rc hhanded
    have hloop := handed_loop h.toOf hhanded
    have hwalked := hloop ▸ walked_range h.toOf hrc
      p.config.nodes.length
    cases hwalked with
    | failed _ _ _ _ hsound hyrc _ => exact absurd hyrc.symm (unsound_rc hsound)
    | passed hyrc hlog hpassed _ =>
      obtain ⟨hrest, block', hfull', -⟩ :=
        processRest_faultless h hloop hlog hrc hyrc hpassed hformat
      obtain ⟨-, he⟩ := log_cancel (hfull.symm.trans hfull')
      injection he with _ _ hsame
      have hresult : (processRest env owned x).1 = EAF_EOF := by
        rw [hrest]
        unfold commitBlock
        simp [hcommit]
      have hzero := (heof hresult).2.2
      rw [hsame, hcommit] at hzero
      cases hzero

theorem fits_samples (h : acquiredFits p owned = true) : owned.samples.isSome := by
  simp only [acquiredFits, Bool.and_eq_true] at h
  exact h.1.1

theorem processRest_log {x : Block} (h : Starts p owned x) (hsamples : owned.samples.isSome) :
    ∃ nodes commit, (processRest env owned x).2.log = x.p.log ++ nodes ++ [commit] := by
  obtain ⟨nodes, hlog, hok | hfailed⟩ := block_outcome h rfl
  · obtain ⟨hrc, hyrc, hpassed, -, hformat⟩ := hok
    obtain ⟨-, block, hfull, -⟩ := processRest_faultless h rfl hlog hrc hyrc hpassed hformat
    exact ⟨nodes, _, hfull⟩
  · obtain ⟨hne, hf, -⟩ := hfailed
    obtain ⟨-, buf, block, commit, hfull, -⟩ := processRest_failed h hsamples rfl hne hlog hf
    exact ⟨nodes, _, hfull⟩

/-- A contained call, from the pull on. -/
theorem rest_of_contained (hrunning : p.state = .running) (hopen : p.completed = false)
    (hacquire : env.acquire p.log = (EAF_OK, some owned)) (hfits : acquiredFits p owned = true)
    (h : Contained env p owned) :
    NoEarlyEof env p owned (pullBlock (p.record (.acquire EAF_OK)) owned) := by
  obtain ⟨pullRc, pulled, nodes, buf, block, commit, hfull, -, heof⟩ := h
  rw [process_rest hrunning hopen hacquire hfits] at hfull heof
  have hsamples := fits_samples hfits
  have hstarts := starts_pullBlock p owned EAF_OK
  have hlog : (pullBlock (p.record (.acquire EAF_OK)) owned).p.log =
      p.log ++ [.acquire EAF_OK, .pull (pullBlock (p.record (.acquire EAF_OK)) owned).rc
        (pullBlock (p.record (.acquire EAF_OK)) owned).buf] := by
    rw [pullBlock_log]
    simp
  generalize pullBlock (p.record (.acquire EAF_OK)) owned = x at *
  obtain ⟨nodes', commit', hfull'⟩ := processRest_log hstarts hsamples
  have hsplit : p.log ++ ([.acquire EAF_OK, .pull pullRc pulled] ++ nodes) ++
        [.commit buf block commit] =
      p.log ++ ([.acquire EAF_OK, .pull x.rc x.buf] ++ nodes') ++ [commit'] := by
    rw [← List.append_assoc, ← hfull, hfull', hlog, List.append_assoc p.log]
  obtain ⟨hsame, -⟩ := log_cancel hsplit
  injection hsame with _ hsame
  injection hsame with hpull _
  injection hpull with hrc hbuf
  subst hrc hbuf
  exact noEarlyEof_of_contained hstarts hsamples (hlog ▸ hfull) heof

/-- What one call makes of a block, for any nodes and any sink. -/
theorem process_contained_iff (hrunning : p.state = .running) (hopen : p.completed = false)
    (hacquire : env.acquire p.log = (EAF_OK, some owned)) (hfits : acquiredFits p owned = true) :
    Contained env p owned ↔
      NoEarlyEof env p owned (pullBlock (p.record (.acquire EAF_OK)) owned) := by
  constructor
  · exact rest_of_contained hrunning hopen hacquire hfits
  · intro hno
    obtain ⟨nodes, buf, block, commit, hfull, hdelivered, heof⟩ :=
      contained_of_noEarlyEof (starts_pullBlock p owned EAF_OK) (fits_samples hfits) hno
    rw [← process_rest hrunning hopen hacquire hfits] at hfull heof
    refine ⟨_, _, nodes, buf, block, commit, ?_, hdelivered, heof⟩
    rw [hfull, pullBlock_log]
    simp

end Contained

/-! ## One node, and what it returns -/

/-- A ring of two frames. -/
def twoFrames : Reservoir where
  storage := [0, 0]
  capacity := 2
  highWatermark := 1
  backpressureLow := 1
  backpressureHigh := 2
  format := ⟨48000, 1, 1⟩
  readCursor := 0
  writeCursor := 0
  finished := false
  state := .prebuffering
  underruns := 0
  framesRead := 0
  last := [0, 0, 0, 0]
  wakeProducer := false

/-- The buffer of the sink. -/
def sinkBuffer : Buffer := ⟨some 0, 0, 1, 1, ⟨0, 0, 0⟩, 0⟩

/-- A sink that does what it should, and nodes that leave the block alone and return `rc`. -/
def returning (rc : Rc) : PipelineEnv where
  sinkInit := fun _ => EAF_OK
  sinkStart := fun _ => EAF_OK
  sinkStop := fun _ => EAF_OK
  sinkDeinit := fun _ => EAF_OK
  acquire := fun _ => (EAF_OK, some sinkBuffer)
  commit := fun _ _ => EAF_OK
  nodeInit := fun _ _ fmt => (EAF_OK, fmt)
  nodeProcess := fun _ _ buf mem => (rc, buf, mem)
  nodeReset := fun _ _ => EAF_OK

/-- Started, with one node. -/
def oneNode (rc : Rc) : Pipeline :=
  afterPipelineCalls (returning rc) (zeroPipeline twoFrames fun _ => [0])
    [.init ⟨true, true, true, true, [⟨true, 1⟩]⟩, .configure 1, .start]

theorem process_contained_iff_ok : Contained (returning EAF_OK) (oneNode EAF_OK) sinkBuffer := by
  refine (process_contained_iff rfl rfl rfl (by decide)).mpr ⟨?_, ?_⟩
  · intro i buf mem log after mem' _ _ hnode
    cases hnode
  · intro buf mem log _ _ hcommit
    cases hcommit

/-- The node returns the code for the end, and the call reports it for the first block. -/
theorem process_early_eof : ¬ ∀ env reservoir mem calls owned,
    let p := afterPipelineCalls env (zeroPipeline reservoir mem) calls
    p.state = .running → p.completed = false → env.acquire p.log = (EAF_OK, some owned) →
      acquiredFits p owned = true → Contained env p owned := by
  intro h
  have hcontained := h (returning EAF_EOF) twoFrames (fun _ => [0])
    [.init ⟨true, true, true, true, [⟨true, 1⟩]⟩, .configure 1, .start] sinkBuffer rfl rfl rfl
    (by decide)
  have hno := rest_of_contained rfl rfl rfl (by decide) hcontained
  have hkept := hno.nodes 0 _ _ _ _ _ (by decide) (.pull (by decide)) rfl
  exact absurd hkept (by decide)

end EmbeddedAudio.Core
