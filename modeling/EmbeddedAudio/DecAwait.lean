-- The input of the callback decoders (eaf_dec_input.c) with its await function. A read that
-- finds the ring empty calls it, and it pushes into the ring that the read is emptying.
import EmbeddedAudio.PcmAdapter

namespace EmbeddedAudio.DecAwait

open PcmAdapter (DecInput Staging decInputInit decInputPush decInputReset held
  push_held)
open BlockRing Storage

/-! ## The input and its await function -/

/-- `eaf_dec_input_finish`. -/
def decInputFinish (input : DecInput) : DecInput := { input with eof := true }

/-- What an await function does with the input. -/
inductive Supply where
  | push (data : List UInt8)
  | finish
  deriving DecidableEq, Repr

/-- A call of an await function: what it did, in this order, what it returned, and its context
behind the call. -/
structure Waited (σ : Type) where
  supplies : List Supply
  rc : Int
  awaitCtx : σ

/-- `eaf_dec_await_fn`. It can look at its context and at the input. -/
abbrev AwaitFn (σ : Type) := σ → DecInput → Waited σ

/-- A success with the ring empty has pushed a byte at least, or finished the input. -/
def Delivers {σ : Type} (await : AwaitFn σ) : Prop :=
  ∀ awaitCtx input, input.count = 0 → input.eof = false → (await awaitCtx input).rc = 0 →
    ∃ supply ∈ (await awaitCtx input).supplies,
      supply = .finish ∨ ∃ data, data ≠ [] ∧ supply = .push data

/-- `eaf_dec_input_t`, with the bytes that were accepted and the bytes that were returned since
the last reset. -/
structure Fifo (σ : Type) where
  input : DecInput
  await : Option (AwaitFn σ)
  awaitCtx : σ
  accepted : List UInt8
  returned : List UInt8

variable {σ : Type}

/-- `eaf_dec_input_init`, over a ring with any bytes in it. -/
def fifoInit (ring : List UInt8) (await : Option (AwaitFn σ)) (awaitCtx : σ) : Fifo σ :=
  ⟨decInputInit ring, await, awaitCtx, [], []⟩

/-- `eaf_dec_input_push` or `eaf_dec_input_finish`. -/
def supplied (fifo : Fifo σ) : Supply → Fifo σ
  | .push data =>
    let (taken, input) := decInputPush fifo.input data
    { fifo with input := input, accepted := fifo.accepted ++ data.take taken }
  | .finish => { fifo with input := decInputFinish fifo.input }

/-- `input->await(input->await_ctx)`. -/
def callAwait (await : AwaitFn σ) (fifo : Fifo σ) : Int × Fifo σ :=
  let waited := await fifo.awaitCtx fifo.input
  (waited.rc, { waited.supplies.foldl supplied fifo with awaitCtx := waited.awaitCtx })

/-- What a read wrote into `out`, the input behind it, and the input as the loop found it in its
last turn. -/
structure ReadDone (σ : Type) where
  bytes : List UInt8
  fifo : Fifo σ
  last : Fifo σ

/-- The copy of `chunk` bytes out of the ring, from the tail on. -/
def copied (fifo : Fifo σ) (chunk : Nat) : Fifo σ :=
  { fifo with
    input := { fifo.input with
      tail := (fifo.input.tail + chunk) % fifo.input.ring.length
      count := fifo.input.count - chunk }
    returned := fifo.returned ++ slice fifo.input.ring fifo.input.tail chunk }

/-- The loop of `eaf_dec_input_read`, with `left` bytes to go. It can go on for ever, so `none`
says that it is not done after `fuel` turns. -/
def readLoop : Nat → Fifo σ → Nat → Option (ReadDone σ)
  | 0, _, _ => none
  | fuel + 1, fifo, left =>
    if left = 0 then some ⟨[], fifo, fifo⟩
    else if fifo.input.count = 0 then
      if fifo.input.eof then some ⟨[], fifo, fifo⟩
      else
        match fifo.await with
        | none => some ⟨[], fifo, fifo⟩
        | some await =>
          let (rc, next) := callAwait await fifo
          if rc ≠ 0 then some ⟨[], next, fifo⟩
          else readLoop fuel next left
    else
      let chunk := min (min (fifo.input.ring.length - fifo.input.tail) fifo.input.count) left
      (readLoop fuel (copied fifo chunk) (left - chunk)).map fun done =>
        { done with bytes := slice fifo.input.ring fifo.input.tail chunk ++ done.bytes }

/-- `eaf_dec_input_read`, with the turns that are enough for it (`readLoop_outcome`). -/
def decInputRead (fifo : Fifo σ) (length : Nat) : Option (ReadDone σ) :=
  readLoop (2 * length + 2) fifo length

/-- A call from outside. -/
inductive Call where
  | push (data : List UInt8)
  | finish
  | read (length : Nat)
  | reset
  deriving DecidableEq, Repr

def fifoStep (fifo : Fifo σ) : Call → Option (Fifo σ)
  | .push data => some (supplied fifo (.push data))
  | .finish => some (supplied fifo .finish)
  | .read length => (decInputRead fifo length).map ReadDone.fifo
  | .reset => some { fifo with input := decInputReset fifo.input, accepted := [], returned := [] }

def fifoRun (fifo : Fifo σ) (calls : List Call) : Option (Fifo σ) := calls.foldlM fifoStep fifo

/-! ## The ring under pushes -/

/-- The tail is a cell, and each accepted byte was returned or is in the ring. -/
structure Aligned (fifo : Fifo σ) : Prop where
  tail : fifo.input.tail < fifo.input.ring.length
  count : fifo.input.count ≤ fifo.input.ring.length
  history : fifo.returned ++ held fifo.input = fifo.accepted

/-- A read has something to do without another wait. -/
def Ready (input : DecInput) : Prop := input.count ≠ 0 ∨ input.eof = true

theorem aligned_init {ring : List UInt8} (hring : ring ≠ []) (await : Option (AwaitFn σ))
    (awaitCtx : σ) : Aligned (fifoInit ring await awaitCtx) :=
  ⟨List.length_pos_iff.mpr hring, Nat.zero_le _, by simp [fifoInit, held, decInputInit, contents]⟩

theorem push_of_eof {input : DecInput} (h : input.eof = true) (data : List UInt8) :
    decInputPush input data = (0, input) := by
  unfold decInputPush
  rw [if_pos (.inl h)]

theorem aligned_supplied {fifo : Fifo σ} (h : Aligned fifo) (supply : Supply) :
    Aligned (supplied fifo supply) := by
  cases supply with
  | finish => exact ⟨h.tail, h.count, h.history⟩
  | push data =>
    cases heof : fifo.input.eof with
    | true =>
      simp only [supplied, push_of_eof heof, List.take_zero, List.append_nil]
      exact h
    | false =>
      obtain ⟨hstaging, hheld⟩ := push_held ⟨h.tail, h.count, heof⟩ data
      refine ⟨hstaging.tail, hstaging.count, ?_⟩
      simp only [supplied]
      rw [hheld, ← List.append_assoc, h.history]

/-- A push or a finish is only about the input and what was accepted. -/
theorem supplied_frame (fifo : Fifo σ) (supply : Supply) :
    (supplied fifo supply).await = fifo.await ∧
      (supplied fifo supply).returned = fifo.returned := by
  cases supply <;> exact ⟨rfl, rfl⟩

theorem ready_supplied {fifo : Fifo σ} (h : Ready fifo.input) (supply : Supply) :
    Ready (supplied fifo supply).input := by
  cases supply with
  | finish => exact .inr rfl
  | push data =>
    simp only [supplied, decInputPush]
    split
    · exact h
    · rcases h with hcount | heof
      · refine .inl ?_
        simp only
        omega
      · exact .inr heof

/-- There is room in an empty ring, so a push of a byte is enough. -/
theorem ready_of_supply {fifo : Fifo σ} (h : Aligned fifo) {supply : Supply}
    (hsupply : supply = .finish ∨ ∃ data, data ≠ [] ∧ supply = .push data) :
    Ready (supplied fifo supply).input := by
  rcases hsupply with rfl | ⟨data, hdata, rfl⟩
  · exact .inr rfl
  have hlength := List.length_pos_iff.mpr hdata
  have htail := h.tail
  simp only [supplied, decInputPush]
  by_cases heof : fifo.input.eof = true
  · rw [if_pos (.inl heof)]
    exact .inr heof
  · rw [if_neg (by simp [heof, hdata])]
    refine .inl ?_
    simp only
    omega

/-! ## A call of the await function -/

theorem supplies_aligned (supplies : List Supply) {fifo : Fifo σ} (h : Aligned fifo) :
    Aligned (supplies.foldl supplied fifo) := by
  induction supplies generalizing fifo with
  | nil => exact h
  | cons supply supplies ih => exact ih (aligned_supplied h supply)

theorem supplies_frame (supplies : List Supply) (fifo : Fifo σ) :
    (supplies.foldl supplied fifo).await = fifo.await ∧
      (supplies.foldl supplied fifo).returned = fifo.returned := by
  induction supplies generalizing fifo with
  | nil => exact ⟨rfl, rfl⟩
  | cons supply supplies ih =>
    obtain ⟨hawait, hreturned⟩ := ih (supplied fifo supply)
    obtain ⟨hawait', hreturned'⟩ := supplied_frame fifo supply
    exact ⟨hawait.trans hawait', hreturned.trans hreturned'⟩

theorem supplies_ready (supplies : List Supply) {fifo : Fifo σ} (h : Ready fifo.input) :
    Ready (supplies.foldl supplied fifo).input := by
  induction supplies generalizing fifo with
  | nil => exact h
  | cons supply supplies ih => exact ih (ready_supplied h supply)

/-- One supply of them all is enough, whatever comes before it and behind it. -/
theorem supplies_deliver {supplies : List Supply} {fifo : Fifo σ} (h : Aligned fifo)
    (hsome : ∃ supply ∈ supplies, supply = .finish ∨ ∃ data, data ≠ [] ∧ supply = .push data) :
    Ready (supplies.foldl supplied fifo).input := by
  induction supplies generalizing fifo with
  | nil => obtain ⟨supply, hmem, -⟩ := hsome; cases hmem
  | cons first supplies ih =>
    obtain ⟨supply, hmem, hsupply⟩ := hsome
    rcases List.mem_cons.mp hmem with rfl | hmem
    · exact supplies_ready supplies (ready_of_supply h hsupply)
    · exact ih (aligned_supplied h first) ⟨supply, hmem, hsupply⟩

theorem aligned_callAwait {fifo : Fifo σ} (h : Aligned fifo) (await : AwaitFn σ) :
    Aligned (callAwait await fifo).2 := by
  obtain ⟨htail, hcount, hhistory⟩ :=
    supplies_aligned (await fifo.awaitCtx fifo.input).supplies h
  exact ⟨htail, hcount, hhistory⟩

theorem callAwait_frame (await : AwaitFn σ) (fifo : Fifo σ) :
    (callAwait await fifo).2.await = fifo.await ∧
      (callAwait await fifo).2.returned = fifo.returned :=
  supplies_frame _ fifo

theorem ready_callAwait {fifo : Fifo σ} (h : Aligned fifo) {await : AwaitFn σ}
    (hawait : Delivers await) (hcount : fifo.input.count = 0) (heof : fifo.input.eof = false)
    (hrc : (callAwait await fifo).1 = 0) : Ready (callAwait await fifo).2.input :=
  supplies_deliver h (hawait _ _ hcount heof hrc)

/-! ## A read -/

/-- Why a read gave up: it found the ring empty, and the input was finished, or nothing to call
was there, or the call failed. -/
def Starved (done : ReadDone σ) : Prop :=
  done.last.input.count = 0 ∧
    (done.last.input.eof = true ∧ done.fifo = done.last ∨
      done.last.await = none ∧ done.fifo = done.last ∨
      ∃ await, done.last.await = some await ∧ (callAwait await done.last).1 ≠ 0 ∧
        done.fifo = (callAwait await done.last).2)

/-- What a read of `left` bytes from `fifo` on comes to. -/
structure Outcome (fifo : Fifo σ) (left : Nat) (done : ReadDone σ) : Prop where
  aligned : Aligned done.fifo
  await : done.fifo.await = fifo.await
  length : done.bytes.length ≤ left
  returned : done.fifo.returned = fifo.returned ++ done.bytes
  short : done.bytes.length < left → Starved done

/-- The turns that the loop can still take: a wait is followed by a copy, or it is the last. -/
def cost (fifo : Fifo σ) (left : Nat) : Nat :=
  if fifo.input.count ≠ 0 then 2 * left + 1 else if fifo.input.eof then 1 else 2 * left + 2

theorem cost_le (fifo : Fifo σ) (left : Nat) : cost fifo left ≤ 2 * left + 2 := by
  unfold cost
  split
  · omega
  · split <;> omega

theorem cost_pos (fifo : Fifo σ) (left : Nat) : 0 < cost fifo left := by
  unfold cost
  split
  · omega
  · split <;> omega

theorem cost_ready {fifo : Fifo σ} (h : Ready fifo.input) (left : Nat) :
    cost fifo left ≤ 2 * left + 1 := by
  unfold cost
  rcases h with hcount | heof
  · rw [if_pos hcount]
  · rw [heof]
    split
    · exact Nat.le_refl _
    · rw [if_pos rfl]
      omega

theorem aligned_copied {fifo : Fifo σ} (h : Aligned fifo) {chunk : Nat}
    (hcount : chunk ≤ fifo.input.count)
    (hround : chunk ≤ fifo.input.ring.length - fifo.input.tail) :
    Aligned (copied fifo chunk) := by
  refine ⟨Nat.mod_lt _ (Nat.lt_of_le_of_lt (Nat.zero_le _) h.tail),
    Nat.le_trans (Nat.sub_le _ _) h.count, ?_⟩
  have htake := contents_take h.tail h.count hcount hround
  calc (copied fifo chunk).returned ++ held (copied fifo chunk).input
      = fifo.returned ++ held fifo.input := by
        rw [held, held, htake, ← List.append_assoc]
        rfl
    _ = fifo.accepted := h.history

/-- The last turn, when it leaves the input as it is. -/
theorem outcome_stop {fifo : Fifo σ} (h : Aligned fifo) {left : Nat}
    (hstarved : left ≠ 0 → Starved ⟨[], fifo, fifo⟩) : Outcome fifo left ⟨[], fifo, fifo⟩ := by
  refine ⟨h, rfl, Nat.zero_le _, (List.append_nil _).symm, ?_⟩
  intro hshort
  exact hstarved (Nat.ne_of_gt hshort)

/-- The last turn, when it is a wait that fails. -/
theorem outcome_failed {fifo : Fifo σ} (h : Aligned fifo) {await : AwaitFn σ}
    (hcount : fifo.input.count = 0) (hinstalled : fifo.await = some await)
    (hrc : (callAwait await fifo).1 ≠ 0) (left : Nat) :
    Outcome fifo left ⟨[], (callAwait await fifo).2, fifo⟩ := by
  obtain ⟨hawait, hreturned⟩ := callAwait_frame await fifo
  refine ⟨aligned_callAwait h await, hawait, Nat.zero_le _, ?_, ?_⟩
  · rw [hreturned, List.append_nil]
  · intro _
    exact ⟨hcount, .inr (.inr ⟨await, hinstalled, hrc, rfl⟩)⟩

/-- A turn that waits hands on what the turns behind it come to. -/
theorem Outcome.waited {fifo : Fifo σ} {await : AwaitFn σ} {left : Nat} {done : ReadDone σ}
    (h : Outcome (callAwait await fifo).2 left done) : Outcome fifo left done := by
  obtain ⟨hawait, hreturned⟩ := callAwait_frame await fifo
  refine ⟨h.aligned, h.await.trans hawait, h.length, ?_, h.short⟩
  rw [h.returned, hreturned]

/-- A turn that copies puts its bytes in front of those of the turns behind it. -/
theorem Outcome.copied {fifo : Fifo σ} {chunk left : Nat} {done : ReadDone σ}
    (h : Outcome (copied fifo chunk) (left - chunk) done) (hleft : chunk ≤ left)
    (hslice : (slice fifo.input.ring fifo.input.tail chunk).length = chunk) :
    Outcome fifo left
      { done with bytes := slice fifo.input.ring fifo.input.tail chunk ++ done.bytes } := by
  have hlength := h.length
  refine ⟨h.aligned, h.await, ?_, ?_, ?_⟩
  · simp only [List.length_append]
    omega
  · rw [h.returned]
    exact List.append_assoc _ _ _
  · intro hshort
    simp only [List.length_append] at hshort
    exact h.short (by omega)

/-- The loop ends, for every amount that the waits deliver. -/
theorem readLoop_outcome : ∀ (fuel : Nat) {fifo : Fifo σ} {left : Nat}, Aligned fifo →
    (∀ await, fifo.await = some await → Delivers await) → cost fifo left ≤ fuel →
    ∃ done, readLoop fuel fifo left = some done ∧ Outcome fifo left done := by
  intro fuel
  induction fuel with
  | zero =>
    intro fifo left _ _ hcost
    have hpos := cost_pos fifo left
    omega
  | succ fuel ih =>
    intro fifo left h hawait hcost
    rw [readLoop]
    by_cases hleft : left = 0
    · rw [if_pos hleft]
      exact ⟨_, rfl, outcome_stop h (absurd hleft)⟩
    rw [if_neg hleft]
    by_cases hcount : fifo.input.count = 0
    · rw [if_pos hcount]
      by_cases heof : fifo.input.eof = true
      · rw [if_pos heof]
        exact ⟨_, rfl, outcome_stop h fun _ => ⟨hcount, .inl ⟨heof, rfl⟩⟩⟩
      rw [if_neg heof]
      cases hinstalled : fifo.await with
      | none => exact ⟨_, rfl, outcome_stop h fun _ => ⟨hcount, .inr (.inl ⟨hinstalled, rfl⟩)⟩⟩
      | some await =>
        simp only
        by_cases hrc : (callAwait await fifo).1 = 0
        · rw [if_neg (not_not_intro hrc)]
          -- a success leaves something to copy or the end of the input, so the cost is less
          have hready := ready_callAwait h (hawait await hinstalled) hcount
            (Bool.eq_false_iff.mpr heof) hrc
          have hless := cost_ready hready left
          rw [cost, if_neg (not_not_intro hcount), if_neg heof] at hcost
          have hsame := (callAwait_frame await fifo).1
          obtain ⟨done, hdone, hout⟩ := @ih (callAwait await fifo).2 left
            (aligned_callAwait h await) (by rw [hsame]; exact hawait) (by omega)
          exact ⟨done, hdone, hout.waited⟩
        · rw [if_pos hrc]
          exact ⟨_, rfl, outcome_failed h hcount hinstalled hrc left⟩
    · rw [if_neg hcount]
      simp only
      have htail := h.tail
      generalize hchunk : min (min (fifo.input.ring.length - fifo.input.tail) fifo.input.count)
        left = chunk
      have hless := cost_le (copied fifo chunk) (left - chunk)
      rw [cost, if_pos hcount] at hcost
      obtain ⟨done, hdone, hout⟩ := @ih (copied fifo chunk) (left - chunk)
        (aligned_copied h (by omega) (by omega)) hawait (by omega)
      have hslice : (slice fifo.input.ring fifo.input.tail chunk).length = chunk :=
        length_slice (by omega)
      refine ⟨_, ?_, hout.copied (by omega) hslice⟩
      rw [hdone, Option.map_some]

/-- More turns than the loop takes change nothing. -/
theorem readLoop_mono : ∀ {fuel fuel' : Nat} {fifo : Fifo σ} {left : Nat} {done : ReadDone σ},
    readLoop fuel fifo left = some done → fuel ≤ fuel' →
    readLoop fuel' fifo left = some done := by
  intro fuel
  induction fuel with
  | zero =>
    intro fuel' fifo left done h _
    exact absurd h (by simp [readLoop])
  | succ fuel ih =>
    intro fuel' fifo left done h hle
    obtain ⟨more, rfl⟩ : ∃ more, fuel' = more + 1 := ⟨fuel' - 1, by omega⟩
    rw [readLoop] at h ⊢
    by_cases hleft : left = 0
    · rw [if_pos hleft] at h ⊢
      exact h
    rw [if_neg hleft] at h ⊢
    by_cases hcount : fifo.input.count = 0
    · rw [if_pos hcount] at h ⊢
      by_cases heof : fifo.input.eof = true
      · rw [if_pos heof] at h ⊢
        exact h
      rw [if_neg heof] at h ⊢
      cases hinstalled : fifo.await with
      | none =>
        rw [hinstalled] at h
        exact h
      | some await =>
        rw [hinstalled] at h
        simp only at h ⊢
        by_cases hrc : (callAwait await fifo).1 = 0
        · rw [if_neg (not_not_intro hrc)] at h ⊢
          exact ih h (by omega)
        · rw [if_pos hrc] at h ⊢
          exact h
    · rw [if_neg hcount] at h ⊢
      simp only at h ⊢
      obtain ⟨rest, hrest, rfl⟩ := Option.map_eq_some_iff.mp h
      rw [ih hrest (by omega), Option.map_some]

/-! ## A run -/

theorem fifoStep_some {fifo : Fifo σ} (h : Aligned fifo)
    (hawait : ∀ await, fifo.await = some await → Delivers await) (call : Call) :
    ∃ next, fifoStep fifo call = some next ∧ Aligned next ∧ next.await = fifo.await := by
  cases call with
  | push data => exact ⟨_, rfl, aligned_supplied h _, (supplied_frame fifo _).1⟩
  | finish => exact ⟨_, rfl, aligned_supplied h _, (supplied_frame fifo _).1⟩
  | read length =>
    obtain ⟨done, hdone, hout⟩ := readLoop_outcome _ h hawait (cost_le fifo length)
    refine ⟨done.fifo, ?_, hout.aligned, hout.await⟩
    rw [fifoStep, decInputRead, hdone, Option.map_some]
  | reset =>
    exact ⟨_, rfl, ⟨Nat.lt_of_le_of_lt (Nat.zero_le _) h.tail, Nat.zero_le _, rfl⟩, rfl⟩

theorem fifoRun_some (calls : List Call) {fifo : Fifo σ} (h : Aligned fifo)
    (hawait : ∀ await, fifo.await = some await → Delivers await) :
    ∃ next, fifoRun fifo calls = some next ∧ Aligned next ∧ next.await = fifo.await := by
  induction calls generalizing fifo with
  | nil => exact ⟨fifo, rfl, h, rfl⟩
  | cons call calls ih =>
    obtain ⟨middle, hstep, hmiddle, hsame⟩ := fifoStep_some h hawait call
    obtain ⟨next, hrun, hnext, hsame'⟩ := ih hmiddle (by rw [hsame]; exact hawait)
    refine ⟨next, ?_, hnext, hsame'.trans hsame⟩
    rw [fifoRun, List.foldlM_cons, hstep]
    exact hrun

theorem Aligned.once {fifo : Fifo σ} (h : Aligned fifo) : fifo.returned <+: fifo.accepted :=
  ⟨held fifo.input, h.history⟩

/-- Whatever was called before, and whatever the await function delivers: what the reads have
returned since the last reset is a first part of what the pushes have accepted, in order. From
there on a read of any length ends, adds its bytes to those, and is only short when it starved. -/
theorem awaited_in_order {ring : List UInt8} (hring : ring ≠ []) (await : Option (AwaitFn σ))
    (hawait : ∀ fn, await = some fn → Delivers fn) (awaitCtx : σ) (calls : List Call) :
    ∃ fifo, fifoRun (fifoInit ring await awaitCtx) calls = some fifo ∧
      fifo.returned <+: fifo.accepted ∧
      ∀ length, ∃ done,
        (∀ fuel, 2 * length + 2 ≤ fuel → readLoop fuel fifo length = some done) ∧
        done.bytes.length ≤ length ∧ done.fifo.returned = fifo.returned ++ done.bytes ∧
        done.fifo.returned <+: done.fifo.accepted ∧
        (done.bytes.length < length → Starved done) := by
  obtain ⟨fifo, hrun, haligned, hsame⟩ :=
    fifoRun_some calls (aligned_init hring await awaitCtx) hawait
  refine ⟨fifo, hrun, haligned.once, fun length => ?_⟩
  have hdelivers : ∀ fn, fifo.await = some fn → Delivers fn := by
    rw [hsame]
    exact hawait
  obtain ⟨done, hdone, hout⟩ := readLoop_outcome _ haligned hdelivers (cost_le fifo length)
  exact ⟨done, fun fuel hfuel => readLoop_mono hdone hfuel, hout.length, hout.returned,
    hout.aligned.once, hout.short⟩

/-- It pushes two bytes as often as its context says, and then it finishes the input. -/
def twoAtATime : AwaitFn Nat := fun left _ =>
  match left with
  | 0 => ⟨[.finish], 0, 0⟩
  | left + 1 => ⟨[.push [7, 8]], 0, left⟩

theorem delivers_twoAtATime : Delivers twoAtATime := by
  intro left input _ _ _
  cases left with
  | zero => exact ⟨.finish, List.mem_singleton.mpr rfl, .inl rfl⟩
  | succ left =>
    exact ⟨.push [7, 8], List.mem_singleton.mpr rfl, .inr ⟨[7, 8], List.cons_ne_nil _ _, rfl⟩⟩

/-- A ring of three cells: the second wait of the read goes around its end. -/
theorem awaited_in_order_three :
    ∃ fifo, fifoRun (fifoInit [0, 0, 0] (some twoAtATime) 5) [.push [1, 2], .read 7] = some fifo ∧
      fifo.returned <+: fifo.accepted ∧
      ∀ length, ∃ done,
        (∀ fuel, 2 * length + 2 ≤ fuel → readLoop fuel fifo length = some done) ∧
        done.bytes.length ≤ length ∧ done.fifo.returned = fifo.returned ++ done.bytes ∧
        done.fifo.returned <+: done.fifo.accepted ∧
        (done.bytes.length < length → Starved done) := by
  refine awaited_in_order (List.cons_ne_nil _ _) (some twoAtATime) ?_ 5 [.push [1, 2], .read 7]
  intro fn hfn
  rw [← Option.some.inj hfn]
  exact delivers_twoAtATime

example : ((fifoRun (fifoInit [0, 0, 0] (some twoAtATime) 5) [.push [1, 2], .read 7]).map
    fun fifo => (fifo.returned, fifo.accepted)) =
      some ([1, 2, 7, 8, 7, 8, 7], [1, 2, 7, 8, 7, 8, 7, 8]) := by decide

end EmbeddedAudio.DecAwait
