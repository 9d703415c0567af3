-- The I2S sink (sink_i2s_core.c) over any back end: who owns the DMA blocks,
-- and what is left of the state when a call of the back end fails.
import EmbeddedAudio.Reservoir

namespace EmbeddedAudio.I2s

open EmbeddedAudio.Core

/-! ## The sink -/

/-- What the sink asked the back end to do, and what it told the error handler, in order. A block
goes by how many blocks the back end gave out before it. -/
inductive Event where
  | configure (rc : Rc)
  | enable (rc : Rc)
  | write (block : Option Nat) (bytes : Nat) (rc : Rc) (written : Nat)
  | start (rc : Rc)
  | drop (rc : Rc)
  | drain (rc : Rc)
  | disable (rc : Rc)
  | delete (rc : Rc)
  | alloc (block : Option Nat)
  | free (block : Option Nat)
  | error (operation : String) (error : Rc) (submitted : UInt32)
  deriving DecidableEq, Repr

/-- `eaf_i2s_backend_t`: which optional operations there are, and what each operation returns,
which can depend on all that happened. `maxFrames` is `EAF_I2S_CORE_MAX_FRAMES`. -/
structure Backend where
  hasDrop : Bool
  hasDisable : Bool
  hasDelete : Bool
  enableBeforeWrite : Bool
  maxFrames : Nat
  configure : List Event → Rc
  enable : List Event → Rc
  write : List Event → Nat → Rc × Nat
  start : List Event → Rc
  drop : List Event → Rc
  drain : List Event → Rc
  disable : List Event → Rc
  delete : List Event → Rc
  alloc : List Event → Bool

/-- `eaf_i2s_core_t`. `handler` says whether the error handler is set. -/
structure Sink where
  buffer : Buffer
  dma : Option Nat
  frames : UInt32
  submittedBlocks : UInt32
  configured : Bool
  running : Bool
  started : Bool
  paused : Bool
  held : Bool
  handler : Bool
  log : List Event
  deriving DecidableEq, Repr

/-- A sink of zeros. -/
def zeroSink (handler : Bool) : Sink where
  buffer := ⟨none, 0, 0, 0, ⟨0, 0, 0⟩, 0⟩
  dma := none
  frames := 0
  submittedBlocks := 0
  configured := false
  running := false
  started := false
  paused := false
  held := false
  handler := handler
  log := []

abbrev emit (c : Sink) (e : Event) : Sink := { c with log := c.log ++ [e] }

/-- How many blocks the back end gave out. -/
def obtained (log : List Event) : Nat :=
  log.countP fun
    | .alloc (some _) => true
    | _ => false

/-- `eaf_i2s_core_io_error`. -/
def ioError (c : Sink) (operation : String) (error : Rc) : Rc × Sink :=
  ( EAF_IO, if c.handler then emit c (.error operation error c.submittedBlocks) else c)

/-- `eaf_i2s_core_drain`. -/
def coreDrain (b : Backend) (c : Sink) : Rc × Sink :=
  if c.started = false then (EAF_OK, c)
  else
    let rc := b.drain c.log
    let c := emit c (.drain rc)
    if rc ≠ EAF_OK then ioError c "drain" rc
    else if b.hasDisable then
      let rc := b.disable c.log
      let c := emit c (.disable rc)
      if rc ≠ EAF_OK then ioError c "disable" rc else (EAF_OK, { c with started := false })
    else (EAF_OK, { c with started := false })

/-- `eaf_i2s_core_pause`. -/
def corePause (b : Backend) (c : Sink) (paused : Bool) : Rc × Sink :=
  if c.running = false ∨ c.held = true then (EAF_STATE, c)
  else if c.paused = paused then (EAF_OK, c)
  else if paused = true ∧ c.started = true then
    let (rc, c) := coreDrain b c
    if rc ≠ EAF_OK then (rc, c) else (EAF_OK, { c with paused := paused })
  else (EAF_OK, { c with paused := paused })

/-- `core_init`. -/
def coreInit (b : Backend) (c : Sink) (fmt : Format) (frames : Nat) : Rc × Sink :=
  if c.configured = true ∨ c.running = true then (EAF_STATE, c)
  else if formatValid fmt = false ∨ fmt.numChannels ≠ 2 ∨ fmt.channelMask ≠ 3 ∨ frames = 0 then
    (EAF_INVALID, c)
  else
    let frames := if frames > b.maxFrames then b.maxFrames else frames
    let rc := b.configure c.log
    let c := emit c (.configure rc)
    if rc ≠ EAF_OK then (rc, c)
    else
      (EAF_OK, { c with
        frames := UInt32.ofNat frames
        buffer := ⟨none, UInt32.ofNat frames, UInt32.ofNat frames, frames * 2, fmt, 0⟩
        dma := none
        held := false
        configured := true })

/-- `core_start`. -/
def coreStart (c : Sink) : Rc × Sink :=
  if c.configured = false ∨ c.running = true then (EAF_STATE, c)
  else
    (EAF_OK, { c with
      paused := false, submittedBlocks := 0, running := true, started := false, held := false })

/-- `core_acquire`. -/
def coreAcquire (b : Backend) (c : Sink) : Rc × Sink :=
  if c.running = false ∨ c.paused = true ∨ c.held = true then (EAF_STATE, c)
  else if b.alloc c.log then
    let block := some (obtained c.log)
    (EAF_OK, emit { c with
      dma := block
      held := true
      buffer := { c.buffer with samples := block, frameCount := c.frames, flags := 0 } }
      (.alloc block))
  else ioError (emit c (.alloc none)) "allocate" EAF_IO

/-- The hardware start in `core_commit`, behind the first block. -/
def coreLaunch (b : Backend) (c : Sink) : Rc × Sink :=
  if c.started = false then
    let rc := b.start c.log
    let c := emit c (.start rc)
    if rc ≠ EAF_OK then ioError c "start" rc else (EAF_OK, { c with started := true })
  else (EAF_OK, c)

/-- The part of `core_commit` behind the write: the block is the one of the driver now. -/
def coreCommitted (b : Backend) (c : Sink) : Rc × Sink :=
  let (rc, c) := coreLaunch b c
  if rc ≠ EAF_OK then (rc, c)
  else if c.buffer.flags &&& EAF_FRAME_EOS ≠ 0 then coreDrain b c
  else (EAF_OK, c)

/-- `core_commit` from the write on. -/
def coreWrite (b : Backend) (c : Sink) : Rc × Sink :=
  let bytes := c.buffer.frameCount.toNat * 2 * 4
  let (rc, written) := b.write c.log bytes
  let c := emit c (.write c.dma bytes rc written)
  if rc ≠ EAF_OK ∨ written ≠ bytes then
    ioError c "write" (if rc ≠ EAF_OK then rc else EAF_IO)
  else
    coreCommitted b { c with
      held := false, dma := none, submittedBlocks := c.submittedBlocks + 1 }

/-- `core_commit` with the buffer of the sink, as its owner filled it, or with another one. -/
def coreCommit (b : Backend) (c : Sink) (filled : Option Buffer) : Rc × Sink :=
  match filled with
  | none => (EAF_STATE, c)
  | some buffer =>
    let c := { c with buffer := buffer }
    if c.running = false ∨ c.held = false then (EAF_STATE, c)
    else if c.started = false ∧ b.enableBeforeWrite = true then
      let rc := b.enable c.log
      let c := emit c (.enable rc)
      if rc ≠ EAF_OK then ioError c "enable" rc else coreWrite b { c with started := true }
    else coreWrite b c

/-- The first part of `core_stop`: a block that was not committed is freed. -/
def coreReclaim (c : Sink) : Sink :=
  if c.held then emit { c with dma := none, held := false } (.free c.dma) else c

/-- The end of `core_stop`. -/
def coreDrop (b : Backend) (c : Sink) : Rc × Sink :=
  if b.hasDrop then
    let rc := b.drop c.log
    let c := emit c (.drop rc)
    if rc ≠ EAF_OK then ioError c "drop" rc
    else (EAF_OK, { c with running := false, paused := false })
  else (EAF_OK, { c with running := false, paused := false })

/-- `core_stop`. -/
def coreStop (b : Backend) (c : Sink) : Rc × Sink :=
  let c := coreReclaim c
  if c.started then
    let (rc, c) := coreDrain b c
    if rc ≠ EAF_OK then (rc, c) else coreDrop b c
  else coreDrop b c

/-- `core_deinit`. -/
def coreDeinit (b : Backend) (c : Sink) : Rc × Sink :=
  let (rc, c) := coreStop b c
  if rc ≠ EAF_OK then (rc, c)
  else if b.hasDelete then
    let rc := b.delete c.log
    let c := emit c (.delete rc)
    if rc ≠ EAF_OK then ioError c "delete" rc else (EAF_OK, { c with configured := false })
  else (EAF_OK, { c with configured := false })

/-- The calls of the owner of the sink. -/
inductive Call where
  | init (fmt : Format) (frames : Nat)
  | start
  | acquire
  | commit (filled : Option Buffer)
  | pause (paused : Bool)
  | stop
  | deinit
  deriving DecidableEq, Repr

def call (b : Backend) (c : Sink) : Call → Rc × Sink
  | .init fmt frames => coreInit b c fmt frames
  | .start => coreStart c
  | .acquire => coreAcquire b c
  | .commit filled => coreCommit b c filled
  | .pause paused => corePause b c paused
  | .stop => coreStop b c
  | .deinit => coreDeinit b c

def callAll (b : Backend) (c : Sink) (calls : List Call) : Sink :=
  calls.foldl (fun c k => (call b c k).2) c

/-! ## What the log says -/

/-- How often the driver took a block, which it does with a complete write. -/
def handed (i : Nat) (log : List Event) : Nat :=
  log.countP fun
    | .write block bytes rc written =>
      decide (block = some i) && decide (rc = EAF_OK) && decide (written = bytes)
    | _ => false

/-- How often a block was freed. -/
def freed (i : Nat) (log : List Event) : Nat :=
  log.countP fun
    | .free block => decide (block = some i)
    | _ => false

/-- The operations of the back end that failed. -/
def failed : Event → Bool
  | .configure rc => decide (rc ≠ EAF_OK)
  | .enable rc => decide (rc ≠ EAF_OK)
  | .write _ bytes rc written => decide (rc ≠ EAF_OK ∨ written ≠ bytes)
  | .start rc => decide (rc ≠ EAF_OK)
  | .drop rc => decide (rc ≠ EAF_OK)
  | .drain rc => decide (rc ≠ EAF_OK)
  | .disable rc => decide (rc ≠ EAF_OK)
  | .delete rc => decide (rc ≠ EAF_OK)
  | .alloc block => decide (block = none)
  | .free _ => false
  | .error _ _ _ => false

/-- The blocks that the back end gave out: one at most is in hand, and each of the others was
handed over once or freed once. -/
structure Blocks (log : List Event) (dma : Option Nat) : Prop where
  inside : ∀ i, dma = some i → i < obtained log
  once : ∀ i, i < obtained log → handed i log + freed i log = if dma = some i then 0 else 1
  fresh : ∀ i, obtained log ≤ i → handed i log + freed i log = 0

/-- Who owns what, between two calls. -/
structure Owned (c : Sink) : Prop where
  held : c.held = true → c.running = true ∧ c.paused = false
  running : c.running = true → c.configured = true
  started : c.started = true → c.running = true
  dma : c.held = c.dma.isSome
  blocks : Blocks c.log c.dma

/-- What a call that began in `s` and ended in `t` keeps when an operation failed in it. -/
def Keeps (s t : Sink) : Event → Prop
  | .configure _ => t.configured = false ∧ t.running = false
  | .enable _ => t.held = true ∧ t.running = true ∧ t.started = false
  | .write block _ _ _ => t.held = true ∧ t.dma = block ∧ t.running = true
  | .start _ => t.running = true ∧ t.paused = s.paused ∧ t.started = false
  | .drop _ => t.running = s.running ∧ t.paused = s.paused ∧ t.configured = s.configured
  | .drain _ => t.started = true ∧ t.running = s.running ∧ t.paused = s.paused
  | .disable _ => t.started = true ∧ t.running = s.running ∧ t.paused = s.paused
  | .delete _ => t.configured = s.configured
  | .alloc _ => t.held = false ∧ t.running = true ∧ t.paused = false
  | .free _ => True
  | .error _ _ _ => True

/-- What a call may have added to the log, and what it left: a failure is reported, and it keeps
what the next try needs. -/
def Retries (s : Sink) (rc : Rc) (t : Sink) : Prop :=
  ∃ added, t.log = s.log ++ added ∧
    ∀ e ∈ added, failed e = true → rc ≠ EAF_OK ∧ Keeps s t e

/-! ## The blocks -/

/-- An event that moves no block. -/
def quiet : Event → Bool
  | .write _ bytes rc written => decide (rc ≠ EAF_OK ∨ written ≠ bytes)
  | .alloc block => decide (block = none)
  | .free _ => false
  | _ => true

section Blocks

variable {log : List Event} {dma : Option Nat} {e : Event}

theorem counts_quiet (he : quiet e = true) (log : List Event) (i : Nat) :
    obtained (log ++ [e]) = obtained log ∧ handed i (log ++ [e]) = handed i log ∧
      freed i (log ++ [e]) = freed i log := by
  cases e with
  | write block bytes rc written =>
    simp only [quiet, decide_eq_true_eq] at he
    refine ⟨by simp [obtained], ?_, by simp [freed]⟩
    rcases he with hrc | hwritten
    · simp [handed, hrc]
    · simp [handed, hwritten]
  | alloc block =>
    simp only [quiet, decide_eq_true_eq] at he
    simp [obtained, handed, freed, he]
  | free block => cases he
  | _ => simp [obtained, handed, freed]

theorem blocks_quiet (h : Blocks log dma) (he : quiet e = true) : Blocks (log ++ [e]) dma := by
  refine ⟨?_, ?_, ?_⟩
  · intro i hi
    rw [(counts_quiet he log 0).1]
    exact h.inside i hi
  · intro i hi
    obtain ⟨hobtained, hhanded, hfreed⟩ := counts_quiet he log i
    rw [hobtained] at hi
    rw [hhanded, hfreed]
    exact h.once i hi
  · intro i hi
    obtain ⟨hobtained, hhanded, hfreed⟩ := counts_quiet he log i
    rw [hobtained] at hi
    rw [hhanded, hfreed]
    exact h.fresh i hi

/-- A new block is in hand. -/
theorem blocks_alloc (h : Blocks log none) :
    Blocks (log ++ [.alloc (some (obtained log))]) (some (obtained log)) := by
  have hobtained : obtained (log ++ [.alloc (some (obtained log))]) = obtained log + 1 := by
    simp [obtained]
  have hsame : ∀ i, handed i (log ++ [.alloc (some (obtained log))]) = handed i log ∧
      freed i (log ++ [.alloc (some (obtained log))]) = freed i log := by
    intro i
    simp [handed, freed]
  refine ⟨?_, ?_, ?_⟩
  · intro i hi
    cases hi
    omega
  · intro i hi
    rw [(hsame i).1, (hsame i).2]
    by_cases hnew : obtained log = i
    · rw [if_pos (by rw [hnew])]
      exact h.fresh i (by omega)
    · rw [if_neg (by simpa using hnew), h.once i (by omega)]
      simp
  · intro i hi
    rw [(hsame i).1, (hsame i).2]
    exact h.fresh i (by omega)

/-- The block in hand is given away, with an event that counts it. -/
theorem blocks_give {i : Nat} (h : Blocks log (some i))
    (hobtained : obtained (log ++ [e]) = obtained log)
    (hcount : ∀ j, handed j (log ++ [e]) + freed j (log ++ [e]) =
      handed j log + freed j log + if j = i then 1 else 0) : Blocks (log ++ [e]) none := by
  refine ⟨?_, ?_, ?_⟩
  · intro j hj
    cases hj
  · intro j hj
    rw [hobtained] at hj
    rw [hcount, h.once j hj]
    by_cases hsame : j = i
    · simp [hsame]
    · have hother : i ≠ j := fun h => hsame h.symm
      simp [hsame, hother]
  · intro j hj
    rw [hobtained] at hj
    have hinside := h.inside i rfl
    rw [hcount, h.fresh j hj, if_neg (by omega)]

/-- The driver takes the block in hand. -/
theorem blocks_hand {i : Nat} (h : Blocks log (some i)) (bytes : Nat) :
    Blocks (log ++ [.write (some i) bytes EAF_OK bytes]) none := by
  apply blocks_give h
  · simp [obtained]
  · intro j
    by_cases hsame : j = i
    · simp [handed, freed, hsame]
      omega
    · have hother : i ≠ j := fun h => hsame h.symm
      simp [handed, freed, hsame, hother]

theorem blocks_free {i : Nat} (h : Blocks log (some i)) :
    Blocks (log ++ [.free (some i)]) none := by
  apply blocks_give h
  · simp [obtained]
  · intro j
    by_cases hsame : j = i
    · simp [handed, freed, hsame]
      omega
    · have hother : i ≠ j := fun h => hsame h.symm
      simp [handed, freed, hsame, hother]

theorem blocks_quietAll {added : List Event} (h : Blocks log dma)
    (hquiet : ∀ e ∈ added, quiet e = true) : Blocks (log ++ added) dma := by
  induction added generalizing log with
  | nil =>
    rw [List.append_nil]
    exact h
  | cons e added ih =>
    rw [← List.singleton_append, ← List.append_assoc]
    apply ih (blocks_quiet h (hquiet e List.mem_cons_self))
    intro e' he'
    exact hquiet e' (List.mem_cons_of_mem _ he')

end Blocks

/-! ## The parts of the calls -/

section Parts

variable {b : Backend} {c t : Sink} {rc : Rc}

/-- Events that neither move a block nor fail. -/
def Smooth (added : List Event) : Prop := ∀ e ∈ added, quiet e = true ∧ failed e = false

theorem smooth_nil : Smooth [] := List.forall_mem_nil _

theorem smooth_cons {e : Event} {added : List Event} (hquiet : quiet e = true)
    (hfailed : failed e = false) (h : Smooth added) : Smooth (e :: added) :=
  List.forall_mem_cons.mpr ⟨⟨hquiet, hfailed⟩, h⟩

/-- Events that move no block, of which the first is the failure. -/
def FailsAt (e : Event) (added : List Event) : Prop :=
  ∃ report, added = e :: report ∧ quiet e = true ∧ Smooth report

theorem ioError_eq (c : Sink) (operation : String) (error : Rc) : ∃ report, Smooth report ∧
    ioError c operation error = ( EAF_IO, { c with log := c.log ++ report }) := by
  unfold ioError
  by_cases hhandler : c.handler = true
  · rw [if_pos hhandler]
    exact ⟨_, smooth_cons rfl rfl smooth_nil, rfl⟩
  · rw [if_neg hhandler]
    exact ⟨[], smooth_nil, by simp⟩

/-- An operation that failed, with its report. -/
theorem ioError_failed (c : Sink) (operation : String) (error : Rc) {e : Event}
    (he : quiet e = true) : ∃ added, FailsAt e added ∧
    ioError (emit c e) operation error = ( EAF_IO, { c with log := c.log ++ added }) := by
  obtain ⟨report, hreport, hio⟩ := ioError_eq (emit c e) operation error
  refine ⟨e :: report, ⟨report, rfl, he, hreport⟩, ?_⟩
  rw [hio]
  simp

theorem quiet_at {passed added : List Event} {f : Event} (hpassed : Smooth passed)
    (hadded : FailsAt f added) : ∀ e ∈ passed ++ added, quiet e = true := by
  obtain ⟨report, rfl, hf, hreport⟩ := hadded
  intro e he
  rcases List.mem_append.mp he with hmem | hmem
  · exact (hpassed e hmem).1
  · rcases List.mem_cons.mp hmem with rfl | hmem
    · exact hf
    · exact (hreport e hmem).1

/-- A drain stops the hardware, or it leaves everything as it was. -/
theorem coreDrain_spec (h : coreDrain b c = (rc, t)) :
    (∃ added, rc = EAF_OK ∧ Smooth added ∧
      t = { c with started := false, log := c.log ++ added }) ∨
    ∃ passed f added code, rc = EAF_IO ∧ c.started = true ∧ Smooth passed ∧ FailsAt f added ∧
      (f = .drain code ∨ f = .disable code) ∧ t = { c with log := c.log ++ (passed ++ added) } := by
  unfold coreDrain at h
  by_cases hstarted : c.started = false
  · rw [if_pos hstarted] at h
    cases h
    refine .inl ⟨[], rfl, smooth_nil, ?_⟩
    rw [List.append_nil, ← hstarted]
  rw [if_neg hstarted] at h
  have hon : c.started = true := by simpa using hstarted
  generalize b.drain c.log = code at h
  simp only at h
  by_cases hdrain : code ≠ EAF_OK
  · rw [if_pos hdrain] at h
    obtain ⟨added, hadded, hio⟩ := @ioError_failed c "drain" code (.drain code) rfl
    rw [hio] at h
    cases h
    exact .inr ⟨[], _, added, code, rfl, hon, smooth_nil, hadded, .inl rfl, rfl⟩
  rw [if_neg hdrain] at h
  have hsmooth : Smooth [.drain code] := smooth_cons rfl (decide_eq_false hdrain) smooth_nil
  by_cases hdisable : b.hasDisable = true
  · rw [if_pos hdisable] at h
    generalize b.disable (c.log ++ [.drain code]) = code' at h
    by_cases hfailed : code' ≠ EAF_OK
    · rw [if_pos hfailed] at h
      obtain ⟨added, hadded, hio⟩ :=
        @ioError_failed (emit c (.drain code)) "disable" code' (.disable code') rfl
      rw [hio] at h
      cases h
      refine .inr ⟨[.drain code], _, added, code', rfl, hon, hsmooth, hadded, .inr rfl, ?_⟩
      simp
    · rw [if_neg hfailed] at h
      cases h
      refine .inl ⟨[.drain code, .disable code'], rfl, ?_, by simp⟩
      exact smooth_cons rfl (decide_eq_false hdrain)
        (smooth_cons rfl (decide_eq_false hfailed) smooth_nil)
  · rw [if_neg hdisable] at h
    cases h
    exact .inl ⟨[.drain code], rfl, hsmooth, rfl⟩

/-- The end of a stop: the sink does not run any more, or it is as it was. -/
theorem coreDrop_spec (h : coreDrop b c = (rc, t)) :
    (∃ added, rc = EAF_OK ∧ Smooth added ∧
      t = { c with running := false, paused := false, log := c.log ++ added }) ∨
    ∃ added code, rc = EAF_IO ∧ FailsAt (.drop code) added ∧
      t = { c with log := c.log ++ added } := by
  unfold coreDrop at h
  by_cases hdrop : b.hasDrop = true
  · rw [if_pos hdrop] at h
    generalize b.drop c.log = code at h
    simp only at h
    by_cases hfailed : code ≠ EAF_OK
    · rw [if_pos hfailed] at h
      obtain ⟨added, hadded, hio⟩ := @ioError_failed c "drop" code (.drop code) rfl
      rw [hio] at h
      cases h
      exact .inr ⟨added, code, rfl, hadded, rfl⟩
    · rw [if_neg hfailed] at h
      cases h
      exact .inl ⟨[.drop code], rfl, smooth_cons rfl (decide_eq_false hfailed) smooth_nil, rfl⟩
  · rw [if_neg hdrop] at h
    cases h
    exact .inl ⟨[], rfl, smooth_nil, by simp⟩

/-- The hardware starts behind the first block, or the block is the driver's all the same. -/
theorem coreLaunch_spec (h : coreLaunch b c = (rc, t)) :
    (∃ added, rc = EAF_OK ∧ Smooth added ∧
      t = { c with started := true, log := c.log ++ added }) ∨
    ∃ added code, rc = EAF_IO ∧ c.started = false ∧ FailsAt (.start code) added ∧
      t = { c with log := c.log ++ added } := by
  unfold coreLaunch at h
  by_cases hstarted : c.started = false
  · rw [if_pos hstarted] at h
    generalize b.start c.log = code at h
    simp only at h
    by_cases hfailed : code ≠ EAF_OK
    · rw [if_pos hfailed] at h
      obtain ⟨added, hadded, hio⟩ := @ioError_failed c "start" code (.start code) rfl
      rw [hio] at h
      cases h
      exact .inr ⟨added, code, rfl, hstarted, hadded, rfl⟩
    · rw [if_neg hfailed] at h
      cases h
      exact .inl ⟨[.start code], rfl, smooth_cons rfl (decide_eq_false hfailed) smooth_nil, rfl⟩
  · rw [if_neg hstarted] at h
    cases h
    have hon : c.started = true := by simpa using hstarted
    exact .inl ⟨[], rfl, smooth_nil, by rw [List.append_nil, ← hon]⟩

end Parts

/-! ## The calls -/

section Calls

variable {b : Backend} {s c t : Sink} {rc : Rc}

theorem retries_same (s : Sink) (rc : Rc) : Retries s rc s :=
  ⟨[], by simp, by simp⟩

/-- A call in which nothing failed. -/
theorem retries_passed {passed : List Event} (hlog : t.log = s.log ++ passed)
    (hpassed : ∀ e ∈ passed, failed e = false) : Retries s rc t := by
  refine ⟨passed, hlog, ?_⟩
  intro e he hfailed
  rw [hpassed e he] at hfailed
  cases hfailed

/-- A call that ends with a failure. -/
theorem retries_failed {passed added : List Event} {f : Event}
    (hlog : t.log = s.log ++ (passed ++ added)) (hpassed : ∀ e ∈ passed, failed e = false)
    (hadded : FailsAt f added) (hrc : rc ≠ EAF_OK) (hkeeps : Keeps s t f) : Retries s rc t := by
  obtain ⟨report, rfl, -, hreport⟩ := hadded
  refine ⟨passed ++ f :: report, hlog, ?_⟩
  intro e he hfailed
  rcases List.mem_append.mp he with hmem | hmem
  · rw [hpassed e hmem] at hfailed
    cases hfailed
  · rcases List.mem_cons.mp hmem with rfl | hmem
    · exact ⟨hrc, hkeeps⟩
    · rw [(hreport e hmem).2] at hfailed
      cases hfailed

theorem retries_failedFirst {added : List Event} {f : Event} (hlog : t.log = s.log ++ added)
    (hadded : FailsAt f added) (hrc : rc ≠ EAF_OK) (hkeeps : Keeps s t f) : Retries s rc t :=
  @retries_failed _ _ _ [] _ _ hlog (List.forall_mem_nil _) hadded hrc hkeeps

/-- A call that goes on behind a part in which nothing failed. -/
theorem Retries.behind {passed : List Event} (h : Retries c rc t) (hlog : c.log = s.log ++ passed)
    (hpassed : ∀ e ∈ passed, failed e = false) (hrunning : c.running = s.running)
    (hpaused : c.paused = s.paused) (hconfigured : c.configured = s.configured) :
    Retries s rc t := by
  obtain ⟨added, hadded, hkeeps⟩ := h
  refine ⟨passed ++ added, by rw [hadded, hlog, List.append_assoc], ?_⟩
  intro e he hfailed
  rcases List.mem_append.mp he with hmem | hmem
  · rw [hpassed e hmem] at hfailed
    cases hfailed
  · obtain ⟨hrc, hkept⟩ := hkeeps e hmem hfailed
    refine ⟨hrc, ?_⟩
    unfold Keeps at hkept ⊢
    rw [hrunning, hpaused, hconfigured] at hkept
    exact hkept

theorem Smooth.quiet {added : List Event} (h : Smooth added) : ∀ e ∈ added, quiet e = true :=
  fun e he => (h e he).1

theorem Smooth.passed {added : List Event} (h : Smooth added) : ∀ e ∈ added, failed e = false :=
  fun e he => (h e he).2

theorem Owned.log (h : Owned c) {added : List Event} (hadded : ∀ e ∈ added, quiet e = true) :
    Owned { c with log := c.log ++ added } :=
  { h with blocks := blocks_quietAll h.blocks hadded }

theorem Owned.unheld (h : Owned c) (hrunning : ¬ c.running = true) :
    c.held = false ∧ c.dma = none := by
  have hheld : c.held = false := by
    by_contra hheld
    exact hrunning (h.held (by simpa using hheld)).1
  have hdma := h.dma
  rw [hheld] at hdma
  exact ⟨hheld, by simpa using hdma.symm⟩

theorem owned_coreInit (h : Owned c) {fmt : Format} {frames : Nat}
    (hinit : coreInit b c fmt frames = (rc, t)) : Owned t ∧ Retries c rc t := by
  unfold coreInit at hinit
  by_cases hstate : c.configured = true ∨ c.running = true
  · rw [if_pos hstate] at hinit
    cases hinit
    exact ⟨h, retries_same c _⟩
  rw [if_neg hstate] at hinit
  by_cases hformat : formatValid fmt = false ∨ fmt.numChannels ≠ 2 ∨ fmt.channelMask ≠ 3 ∨
      frames = 0
  · rw [if_pos hformat] at hinit
    cases hinit
    exact ⟨h, retries_same c _⟩
  rw [if_neg hformat] at hinit
  obtain ⟨hconfigured, hrunning⟩ := not_or.mp hstate
  obtain ⟨hheld, hdma⟩ := h.unheld hrunning
  have hquiet : ∀ code, ∀ e ∈ [Event.configure code], quiet e = true := by simp [quiet]
  generalize b.configure c.log = code at hinit
  simp only at hinit
  by_cases hfailed : code ≠ EAF_OK
  · rw [if_pos hfailed] at hinit
    cases hinit
    refine ⟨h.log (hquiet _), ?_⟩
    exact retries_failedFirst rfl ⟨[], rfl, rfl, smooth_nil⟩ hfailed
      ⟨by simpa using hconfigured, by simpa using hrunning⟩
  · rw [if_neg hfailed] at hinit
    cases hinit
    have hblocks := (h.log (hquiet code)).blocks
    simp only [hdma] at hblocks
    refine ⟨⟨?_, ?_, ?_, rfl, hblocks⟩, ?_⟩
    · intro hfalse
      cases hfalse
    · intro _
      rfl
    · exact h.started
    · exact retries_passed rfl (by simp [failed, not_not.mp hfailed])

theorem owned_coreStart (h : Owned c) (hstart : coreStart c = (rc, t)) :
    Owned t ∧ Retries c rc t := by
  unfold coreStart at hstart
  by_cases hstate : c.configured = false ∨ c.running = true
  · rw [if_pos hstate] at hstart
    cases hstart
    exact ⟨h, retries_same c _⟩
  · rw [if_neg hstate] at hstart
    cases hstart
    obtain ⟨hconfigured, hrunning⟩ := not_or.mp hstate
    obtain ⟨-, hdma⟩ := h.unheld hrunning
    refine ⟨⟨?_, ?_, ?_, ?_, h.blocks⟩,
      retries_passed (List.append_nil _).symm (List.forall_mem_nil _)⟩
    · intro hfalse
      cases hfalse
    · intro _
      simpa using hconfigured
    · intro hfalse
      cases hfalse
    · rw [hdma]
      rfl

theorem owned_coreAcquire (h : Owned c) (hacquire : coreAcquire b c = (rc, t)) :
    Owned t ∧ Retries c rc t := by
  unfold coreAcquire at hacquire
  by_cases hstate : c.running = false ∨ c.paused = true ∨ c.held = true
  · rw [if_pos hstate] at hacquire
    cases hacquire
    exact ⟨h, retries_same c _⟩
  rw [if_neg hstate] at hacquire
  simp only [not_or, Bool.not_eq_false, Bool.not_eq_true] at hstate
  obtain ⟨hrunning, hpaused, hheld⟩ := hstate
  have hdma : c.dma = none := by
    have hboth := h.dma
    rw [hheld] at hboth
    simpa using hboth.symm
  by_cases halloc : b.alloc c.log = true
  · rw [if_pos halloc] at hacquire
    cases hacquire
    have hblocks := h.blocks
    rw [hdma] at hblocks
    refine ⟨⟨?_, h.running, h.started, rfl, blocks_alloc hblocks⟩, ?_⟩
    · intro _
      exact ⟨hrunning, hpaused⟩
    · exact retries_passed rfl (by simp [failed])
  · rw [if_neg halloc] at hacquire
    obtain ⟨added, hadded, hio⟩ := @ioError_failed c "allocate" EAF_IO (.alloc none) rfl
    rw [hio] at hacquire
    cases hacquire
    refine ⟨h.log (quiet_at smooth_nil hadded), ?_⟩
    exact retries_failedFirst rfl hadded (by decide) ⟨hheld, hrunning, hpaused⟩

theorem owned_corePause (h : Owned c) {paused : Bool} (hpause : corePause b c paused = (rc, t)) :
    Owned t ∧ Retries c rc t := by
  unfold corePause at hpause
  by_cases hstate : c.running = false ∨ c.held = true
  · rw [if_pos hstate] at hpause
    cases hpause
    exact ⟨h, retries_same c _⟩
  rw [if_neg hstate] at hpause
  simp only [not_or, Bool.not_eq_false, Bool.not_eq_true] at hstate
  obtain ⟨hrunning, hheld⟩ := hstate
  have hunheld : c.held = true → c.running = true ∧ paused = false := by
    intro hon
    rw [hheld] at hon
    cases hon
  by_cases hsame : c.paused = paused
  · rw [if_pos hsame] at hpause
    cases hpause
    exact ⟨h, retries_same c _⟩
  rw [if_neg hsame] at hpause
  by_cases hstarted : paused = true ∧ c.started = true
  · rw [if_pos hstarted] at hpause
    generalize hdrain : coreDrain b c = r at hpause
    obtain ⟨rc', c'⟩ := r
    simp only at hpause
    obtain ⟨added, rfl, hadded, rfl⟩ |
        ⟨passed, f, added, code, rfl, hon, hpassed, hadded, hf, rfl⟩ := coreDrain_spec hdrain
    · rw [if_neg (by decide)] at hpause
      cases hpause
      have hblocks := (h.log hadded.quiet).blocks
      exact ⟨⟨hunheld, h.running, fun hfalse => (by cases hfalse), h.dma, hblocks⟩,
        retries_passed rfl hadded.passed⟩
    · rw [if_pos (by decide)] at hpause
      cases hpause
      refine ⟨h.log (quiet_at hpassed hadded),
        retries_failed rfl hpassed.passed hadded (by decide) ?_⟩
      rcases hf with rfl | rfl
      · exact ⟨hon, rfl, rfl⟩
      · exact ⟨hon, rfl, rfl⟩
  · rw [if_neg hstarted] at hpause
    cases hpause
    exact ⟨⟨hunheld, h.running, h.started, h.dma, h.blocks⟩,
      retries_passed (List.append_nil _).symm (List.forall_mem_nil _)⟩

/-- Behind a complete write the sink owns nothing, whatever the driver does then. -/
theorem owned_coreCommitted (h : Owned c) (hrunning : c.running = true)
    (hcommitted : coreCommitted b c = (rc, t)) : Owned t ∧ Retries c rc t := by
  unfold coreCommitted at hcommitted
  generalize hlaunch : coreLaunch b c = r at hcommitted
  obtain ⟨rc', c'⟩ := r
  simp only at hcommitted
  obtain ⟨added, rfl, hadded, rfl⟩ | ⟨added, code, rfl, hoff, hadded, rfl⟩ :=
    coreLaunch_spec hlaunch
  · rw [if_neg (by decide)] at hcommitted
    have hblocks := (h.log hadded.quiet).blocks
    have hlaunched : Owned { c with started := true, log := c.log ++ added } :=
      ⟨h.held, h.running, fun _ => hrunning, h.dma, hblocks⟩
    by_cases heos : c.buffer.flags &&& EAF_FRAME_EOS ≠ 0
    · rw [if_pos heos] at hcommitted
      obtain ⟨more, rfl, hmore, rfl⟩ | ⟨passed, f, more, code, rfl, hon, hpassed, hmore, hf, rfl⟩ :=
        coreDrain_spec hcommitted
      · have hblocks' := (hlaunched.log hmore.quiet).blocks
        refine ⟨⟨h.held, h.running, fun hfalse => (by cases hfalse), h.dma, hblocks'⟩, ?_⟩
        refine Retries.behind (retries_passed rfl hmore.passed) rfl hadded.passed rfl rfl rfl
      · refine ⟨hlaunched.log (quiet_at hpassed hmore), ?_⟩
        refine Retries.behind (retries_failed rfl hpassed.passed hmore (by decide) ?_) rfl
          hadded.passed rfl rfl rfl
        rcases hf with rfl | rfl
        · exact ⟨rfl, rfl, rfl⟩
        · exact ⟨rfl, rfl, rfl⟩
    · rw [if_neg heos] at hcommitted
      cases hcommitted
      exact ⟨hlaunched, retries_passed rfl hadded.passed⟩
  · rw [if_pos (by decide)] at hcommitted
    cases hcommitted
    refine ⟨h.log (quiet_at smooth_nil hadded), ?_⟩
    exact retries_failedFirst rfl hadded (by decide) ⟨hrunning, rfl, hoff⟩

theorem owned_coreWrite (h : Owned c) (hheld : c.held = true) (hwrite : coreWrite b c = (rc, t)) :
    Owned t ∧ Retries c rc t := by
  obtain ⟨hrunning, hpaused⟩ := h.held hheld
  have hdma := h.dma
  rw [hheld] at hdma
  obtain ⟨i, hi⟩ := Option.isSome_iff_exists.mp hdma.symm
  simp only [coreWrite] at hwrite
  generalize c.buffer.frameCount.toNat * 2 * 4 = bytes at hwrite
  generalize (b.write c.log bytes).1 = code, (b.write c.log bytes).2 = written at hwrite
  by_cases hfailed : code ≠ EAF_OK ∨ written ≠ bytes
  · rw [if_pos hfailed] at hwrite
    have hquiet : quiet (.write c.dma bytes code written) = true := decide_eq_true hfailed
    obtain ⟨added, hadded, hio⟩ :=
      ioError_failed c "write" (if code ≠ EAF_OK then code else EAF_IO) hquiet
    rw [hio] at hwrite
    cases hwrite
    refine ⟨h.log (quiet_at smooth_nil hadded), ?_⟩
    exact retries_failedFirst rfl hadded (by decide) ⟨hheld, rfl, hrunning⟩
  · rw [if_neg hfailed] at hwrite
    obtain ⟨hcode, hwritten⟩ := not_or.mp hfailed
    obtain rfl := not_not.mp hcode
    obtain rfl := not_not.mp hwritten
    have hblocks := h.blocks
    rw [hi] at hblocks
    have hgiven : Owned { c with
        held := false
        dma := none
        submittedBlocks := c.submittedBlocks + 1
        log := c.log ++ [.write c.dma written EAF_OK written] } := by
      refine ⟨fun hfalse => (by cases hfalse), h.running, h.started, rfl, ?_⟩
      rw [hi]
      exact blocks_hand hblocks written
    obtain ⟨howned, hretries⟩ := owned_coreCommitted hgiven hrunning hwrite
    refine ⟨howned, hretries.behind rfl ?_ rfl rfl rfl⟩
    intro e he
    rw [List.mem_singleton.mp he]
    simp [failed]

theorem owned_coreCommit (h : Owned c) {filled : Option Buffer}
    (hcommit : coreCommit b c filled = (rc, t)) : Owned t ∧ Retries c rc t := by
  rcases filled with _ | buffer
  · cases hcommit
    exact ⟨h, retries_same c _⟩
  simp only [coreCommit] at hcommit
  have hfilled : Owned { c with buffer := buffer } :=
    ⟨h.held, h.running, h.started, h.dma, h.blocks⟩
  have hsame : ∀ {t : Sink} {rc : Rc}, Retries { c with buffer := buffer } rc t → Retries c rc t :=
    fun hretries => hretries.behind (List.append_nil _).symm (List.forall_mem_nil _) rfl rfl rfl
  by_cases hstate : c.running = false ∨ c.held = false
  · rw [if_pos hstate] at hcommit
    cases hcommit
    exact ⟨hfilled, hsame (retries_same _ _)⟩
  rw [if_neg hstate] at hcommit
  simp only [not_or, Bool.not_eq_false] at hstate
  obtain ⟨hrunning, hheld⟩ := hstate
  by_cases henable : c.started = false ∧ b.enableBeforeWrite = true
  · rw [if_pos henable] at hcommit
    generalize b.enable c.log = code at hcommit
    by_cases hfailed : code ≠ EAF_OK
    · rw [if_pos hfailed] at hcommit
      obtain ⟨added, hadded, hio⟩ :=
        @ioError_failed { c with buffer := buffer } "enable" code (.enable code) rfl
      rw [hio] at hcommit
      cases hcommit
      refine ⟨hfilled.log (quiet_at smooth_nil hadded), hsame ?_⟩
      exact retries_failedFirst rfl hadded (by decide) ⟨hheld, hrunning, henable.1⟩
    · rw [if_neg hfailed] at hcommit
      have hsmooth : Smooth [.enable code] :=
        smooth_cons rfl (decide_eq_false hfailed) smooth_nil
      have henabled : Owned { c with
          buffer := buffer, started := true, log := c.log ++ [.enable code] } :=
        ⟨h.held, h.running, fun _ => hrunning, h.dma, (h.log hsmooth.quiet).blocks⟩
      obtain ⟨howned, hretries⟩ := owned_coreWrite henabled hheld hcommit
      exact ⟨howned, hretries.behind rfl hsmooth.passed rfl rfl rfl⟩
  · rw [if_neg henable] at hcommit
    obtain ⟨howned, hretries⟩ := owned_coreWrite hfilled hheld hcommit
    exact ⟨howned, hsame hretries⟩

/-- The owner gets rid of a block that it did not commit. -/
theorem owned_coreReclaim (h : Owned c) : Owned (coreReclaim c) ∧ (coreReclaim c).held = false ∧
    (∃ passed, (coreReclaim c).log = c.log ++ passed ∧ ∀ e ∈ passed, failed e = false) ∧
    (coreReclaim c).running = c.running ∧ (coreReclaim c).paused = c.paused ∧
    (coreReclaim c).configured = c.configured := by
  unfold coreReclaim
  by_cases hheld : c.held = true
  · rw [if_pos hheld]
    have hdma := h.dma
    rw [hheld] at hdma
    obtain ⟨i, hi⟩ := Option.isSome_iff_exists.mp hdma.symm
    have hblocks := h.blocks
    rw [hi] at hblocks
    refine ⟨⟨fun hfalse => (by cases hfalse), h.running, h.started, rfl, ?_⟩, rfl,
      ⟨_, rfl, by simp [failed]⟩, rfl, rfl, rfl⟩
    rw [hi]
    exact blocks_free hblocks
  · rw [if_neg hheld]
    exact ⟨h, by simpa using hheld, ⟨[], (List.append_nil _).symm, List.forall_mem_nil _⟩, rfl, rfl,
      rfl⟩

/-- What a stop left when it returned without an error. -/
def Stopped (c t : Sink) : Prop :=
  (∃ passed, t.log = c.log ++ passed ∧ ∀ e ∈ passed, failed e = false) ∧ t.running = false ∧
    t.held = false ∧ t.started = false ∧ t.configured = c.configured

theorem owned_drop (h : Owned c) (hheld : c.held = false) (hstarted : c.started = false)
    (hdrop : coreDrop b c = (rc, t)) :
    Owned t ∧ Retries c rc t ∧ (rc = EAF_OK → Stopped c t) := by
  obtain ⟨added, rfl, hadded, rfl⟩ | ⟨added, code, rfl, hadded, rfl⟩ := coreDrop_spec hdrop
  · have hblocks := (h.log hadded.quiet).blocks
    refine ⟨⟨?_, fun hfalse => (by cases hfalse), ?_, h.dma, hblocks⟩,
      retries_passed rfl hadded.passed, ?_⟩
    · intro hon
      rw [hheld] at hon
      cases hon
    · intro hon
      rw [hstarted] at hon
      cases hon
    · intro _
      exact ⟨⟨added, rfl, hadded.passed⟩, rfl, hheld, hstarted, rfl⟩
  · refine ⟨h.log (quiet_at smooth_nil hadded), ?_, fun hok => absurd hok (by decide)⟩
    exact retries_failedFirst rfl hadded (by decide) ⟨rfl, rfl, rfl⟩

theorem owned_coreStop (h : Owned c) (hstop : coreStop b c = (rc, t)) :
    Owned t ∧ Retries c rc t ∧ (rc = EAF_OK → Stopped c t) := by
  simp only [coreStop] at hstop
  obtain ⟨howned, hheld, ⟨passed, hlog, hpassed⟩, hrunning, hpaused, hconfigured⟩ :=
    owned_coreReclaim h
  generalize coreReclaim c = c₁ at *
  -- what comes behind the block is a call of its own on the rest
  have hbehind : Owned t ∧ Retries c₁ rc t ∧ (rc = EAF_OK → Stopped c₁ t) := by
    by_cases hstarted : c₁.started = true
    · rw [if_pos hstarted] at hstop
      generalize hdrain : coreDrain b c₁ = r at hstop
      obtain ⟨rc', c₂⟩ := r
      simp only at hstop
      obtain ⟨added, rfl, hadded, rfl⟩ |
          ⟨before, f, added, code, rfl, hon, hbefore, hadded, hf, rfl⟩ := coreDrain_spec hdrain
      · rw [if_neg (by decide)] at hstop
        have hdrained : Owned { c₁ with started := false, log := c₁.log ++ added } :=
          ⟨howned.held, howned.running, fun hfalse => (by cases hfalse), howned.dma,
            (howned.log hadded.quiet).blocks⟩
        obtain ⟨howned', hretries, hstopped⟩ := owned_drop hdrained hheld rfl hstop
        refine ⟨howned', hretries.behind rfl hadded.passed rfl rfl rfl, ?_⟩
        intro hok
        obtain ⟨⟨more, hmore, hsmooth⟩, hrest⟩ := hstopped hok
        refine ⟨⟨added ++ more, by rw [hmore, List.append_assoc], ?_⟩, hrest⟩
        intro e he
        rcases List.mem_append.mp he with hmem | hmem
        · exact hadded.passed e hmem
        · exact hsmooth e hmem
      · rw [if_pos (by decide)] at hstop
        cases hstop
        refine ⟨howned.log (quiet_at hbefore hadded),
          retries_failed rfl hbefore.passed hadded (by decide) ?_,
          fun hok => absurd hok (by decide)⟩
        rcases hf with rfl | rfl
        · exact ⟨hon, rfl, rfl⟩
        · exact ⟨hon, rfl, rfl⟩
    · rw [if_neg hstarted] at hstop
      exact owned_drop howned hheld (by simpa using hstarted) hstop
  obtain ⟨howned', hretries, hstopped⟩ := hbehind
  refine ⟨howned', hretries.behind hlog hpassed hrunning hpaused hconfigured, ?_⟩
  intro hok
  obtain ⟨⟨more, hmore, hsmooth⟩, hrun, hhold, hstart, hconf⟩ := hstopped hok
  refine ⟨⟨passed ++ more, by rw [hmore, hlog, List.append_assoc], ?_⟩, hrun, hhold, hstart,
    hconf.trans hconfigured⟩
  intro e he
  rcases List.mem_append.mp he with hmem | hmem
  · exact hpassed e hmem
  · exact hsmooth e hmem

theorem owned_coreDeinit (h : Owned c) (hdeinit : coreDeinit b c = (rc, t)) :
    Owned t ∧ Retries c rc t := by
  simp only [coreDeinit] at hdeinit
  generalize hstop : coreStop b c = r at hdeinit
  obtain ⟨rc', c'⟩ := r
  obtain ⟨howned, hretries, hstopped⟩ := owned_coreStop h hstop
  simp only at hdeinit
  by_cases hrc : rc' ≠ EAF_OK
  · rw [if_pos hrc] at hdeinit
    cases hdeinit
    exact ⟨howned, hretries⟩
  rw [if_neg hrc] at hdeinit
  obtain ⟨⟨passed, hlog, hpassed⟩, hrunning, hheld, hstarted, hconfigured⟩ :=
    hstopped (not_not.mp hrc)
  -- a sink that does not run may lose its configuration
  have hgone : ∀ {added : List Event}, (∀ e ∈ added, quiet e = true) →
      Owned { c' with configured := false, log := c'.log ++ added } := by
    intro added hquiet
    refine ⟨howned.held, ?_, howned.started, howned.dma, (howned.log hquiet).blocks⟩
    intro hon
    rw [hrunning] at hon
    cases hon
  by_cases hdelete : b.hasDelete = true
  · rw [if_pos hdelete] at hdeinit
    generalize b.delete c'.log = code at hdeinit
    by_cases hfailed : code ≠ EAF_OK
    · rw [if_pos hfailed] at hdeinit
      obtain ⟨added, hadded, hio⟩ := @ioError_failed c' "delete" code (.delete code) rfl
      rw [hio] at hdeinit
      cases hdeinit
      refine ⟨howned.log (quiet_at smooth_nil hadded), ?_⟩
      refine retries_failed ?_ hpassed hadded (by decide) hconfigured
      rw [hlog, List.append_assoc]
    · rw [if_neg hfailed] at hdeinit
      cases hdeinit
      have hsmooth : Smooth [.delete code] := smooth_cons rfl (decide_eq_false hfailed) smooth_nil
      refine ⟨hgone hsmooth.quiet, @retries_passed _ _ _ (passed ++ [.delete code]) ?_ ?_⟩
      · show c'.log ++ [.delete code] = _
        rw [hlog, List.append_assoc]
      · intro e he
        rcases List.mem_append.mp he with hmem | hmem
        · exact hpassed e hmem
        · exact hsmooth.passed e hmem
  · rw [if_neg hdelete] at hdeinit
    cases hdeinit
    refine ⟨?_, retries_passed hlog hpassed⟩
    have hnone := @hgone [] (List.forall_mem_nil _)
    rwa [List.append_nil] at hnone

theorem owned_call (h : Owned c) (k : Call) :
    Owned (call b c k).2 ∧ Retries c (call b c k).1 (call b c k).2 := by
  cases k with
  | init fmt frames => exact owned_coreInit h rfl
  | start => exact owned_coreStart h rfl
  | acquire => exact owned_coreAcquire h rfl
  | commit filled => exact owned_coreCommit h rfl
  | pause paused => exact owned_corePause h rfl
  | stop =>
    obtain ⟨howned, hretries, -⟩ := @owned_coreStop b c _ _ h rfl
    exact ⟨howned, hretries⟩
  | deinit => exact owned_coreDeinit h rfl

theorem owned_callAll (h : Owned c) (calls : List Call) : Owned (callAll b c calls) := by
  induction calls generalizing c with
  | nil => exact h
  | cons k calls ih => exact ih (owned_call h k).1

theorem owned_zeroSink (handler : Bool) : Owned (zeroSink handler) where
  held hfalse := by cases hfalse
  running hfalse := by cases hfalse
  started hfalse := by cases hfalse
  dma := rfl
  blocks := by
    refine ⟨?_, ?_, ?_⟩
    · intro i hi
      cases hi
    · intro i hi
      exact absurd hi (Nat.not_lt_zero i)
    · intro i _
      rfl

end Calls

/-- Whatever the back end does, each block of the driver has one owner, and a call that failed can
be made again. -/
theorem sink_owned (b : Backend) (handler : Bool) (calls : List Call) (k : Call) :
    Owned (callAll b (zeroSink handler) calls) ∧
      Retries (callAll b (zeroSink handler) calls)
        (call b (callAll b (zeroSink handler) calls) k).1
        (call b (callAll b (zeroSink handler) calls) k).2 := by
  have howned := @owned_callAll b _ (owned_zeroSink handler) calls
  exact ⟨howned, (owned_call howned k).2⟩

end EmbeddedAudio.I2s
