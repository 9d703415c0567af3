-- The command queue between the control task and the audio task (eaf_control.c). A load or a
-- store of a cursor is a step of its own, and so is each field of a copy of a command.
import EmbeddedAudio.RingCursor
import Mathlib.Data.List.ReduceOption
import Mathlib.Logic.Function.Basic

namespace EmbeddedAudio.Commands

open Cursor

/-! ## The queue -/

abbrev EAF_CONTROL_CAPACITY : UInt32 := 16

/-- `eaf_command_type_t`. -/
inductive CommandType where
  | stop
  | seek
  | gain
  deriving DecidableEq, Repr

/-- `eaf_command_t`. -/
structure Command where
  type : CommandType
  frame : UInt64
  gain : Int32
  deriving DecidableEq, Repr

/-- `eaf_control_queue_t`. -/
structure ControlQueue where
  slots : Fin 16 → Command
  readCursor : UInt32
  writeCursor : UInt32

/-- `eaf_control_init`. It leaves the slots as they are. -/
def controlInit (q : ControlQueue) : ControlQueue := { q with readCursor := 0, writeCursor := 0 }

/-- The slot of a cursor. -/
def slotOf (cursor : UInt32) : Fin 16 :=
  ⟨(cursor % EAF_CONTROL_CAPACITY).toNat, by
    rw [UInt32.toNat_mod]
    exact Nat.mod_lt _ (by decide)⟩

/-- How many commands are unread. -/
def level (q : ControlQueue) : Nat := (q.writeCursor - q.readCursor).toNat

/-- The unread commands, the oldest first. -/
def unread (q : ControlQueue) : List Command :=
  (List.range (level q)).map fun i => q.slots (slotOf (q.readCursor + UInt32.ofNat i))

/-! ## The two programs -/

/-- A copy of one field of a command. -/
def copyField (field : Nat) (source target : Command) : Command :=
  match field with
  | 0 => { target with type := source.type }
  | 1 => { target with frame := source.frame }
  | _ => { target with gain := source.gain }

/-- Where the control task is inside `eaf_control_push`. -/
inductive Pusher where
  | idle
  | called (command : Command)
  | sawWrite (command : Command) (write : UInt32)
  | filling (command : Command) (write : UInt32) (fields : Nat)
  deriving DecidableEq, Repr

/-- Where the audio task is inside `eaf_control_pop`. `out` is the caller's command. -/
inductive Popper where
  | idle
  | called (out : Command)
  | sawRead (out : Command) (read : UInt32)
  | copying (out : Command) (read : UInt32) (fields : Nat)
  deriving DecidableEq, Repr

/-- The queue, the two tasks, and the calls that have returned: what was pushed, with the result,
and what was popped, if anything was. -/
structure Control where
  queue : ControlQueue
  pusher : Pusher
  popper : Popper
  pushes : List (Command × Bool)
  pops : List (Option Command)

/-- One step of the control task. -/
def pusherStep (s : Control) : Control :=
  match s.pusher with
  | .idle => s
  | .called command => { s with pusher := .sawWrite command s.queue.writeCursor }
  | .sawWrite command write =>
    if write - s.queue.readCursor = EAF_CONTROL_CAPACITY then
      { s with pusher := .idle, pushes := s.pushes ++ [(command, false)] }
    else { s with pusher := .filling command write 0 }
  | .filling command write fields =>
    if fields < 3 then
      { s with
        queue := { s.queue with
          slots := Function.update s.queue.slots (slotOf write)
            (copyField fields command (s.queue.slots (slotOf write))) }
        pusher := .filling command write (fields + 1) }
    else
      { s with
        queue := { s.queue with writeCursor := write + 1 }
        pusher := .idle
        pushes := s.pushes ++ [(command, true)] }

/-- One step of the audio task. -/
def popperStep (s : Control) : Control :=
  match s.popper with
  | .idle => s
  | .called out => { s with popper := .sawRead out s.queue.readCursor }
  | .sawRead out read =>
    if read = s.queue.writeCursor then { s with popper := .idle, pops := s.pops ++ [none] }
    else { s with popper := .copying out read 0 }
  | .copying out read fields =>
    if fields < 3 then
      { s with popper :=
          .copying (copyField fields (s.queue.slots (slotOf read)) out) read (fields + 1) }
    else
      { s with
        queue := { s.queue with readCursor := read + 1 }
        popper := .idle
        pops := s.pops ++ [some out] }

/-- What happens next: a call of one task, or a step of it. -/
inductive Action where
  | push (command : Command)
  | pop (out : Command)
  | pusher
  | popper
  deriving DecidableEq, Repr

/-- A task that is in a call makes no other one. -/
def controlStep (s : Control) : Action → Control
  | .push command => if s.pusher = .idle then { s with pusher := .called command } else s
  | .pop out => if s.popper = .idle then { s with popper := .called out } else s
  | .pusher => pusherStep s
  | .popper => popperStep s

def controlRun (s : Control) (actions : List Action) : Control := actions.foldl controlStep s

/-- Both tasks idle on a queue. -/
def controlStart (q : ControlQueue) : Control := ⟨q, .idle, .idle, [], []⟩

/-- The commands that were pushed successfully, in order. -/
def pushed (s : Control) : List Command := (s.pushes.filter Prod.snd).map Prod.fst

/-- The commands that were popped, in order. -/
def popped (s : Control) : List Command := s.pops.reduceOption

/-! ## Copies -/

/-- The first fields are copied. -/
structure Copied (fields : Nat) (source target : Command) : Prop where
  type : 0 < fields → target.type = source.type
  frame : 1 < fields → target.frame = source.frame
  gain : 2 < fields → target.gain = source.gain

section Copies

variable {fields : Nat} {source target : Command}

theorem copied_none (source target : Command) : Copied 0 source target :=
  ⟨nofun, nofun, nofun⟩

theorem Copied.field (h : Copied fields source target) (hmore : fields < 3) :
    Copied (fields + 1) source (copyField fields source target) := by
  match fields, hmore with
  | 0, _ => exact ⟨fun _ => rfl, fun hlt => by omega, fun hlt => by omega⟩
  | 1, _ => exact ⟨fun _ => h.type (by omega), fun _ => rfl, fun hlt => by omega⟩
  | 2, _ => exact ⟨fun _ => h.type (by omega), fun _ => h.frame (by omega), fun _ => rfl⟩

theorem Copied.all (h : Copied fields source target) (hall : ¬fields < 3) : target = source := by
  obtain ⟨htype, hframe, hgain⟩ := h
  cases target
  cases source
  simp only [Command.mk.injEq]
  exact ⟨htype (by omega), hframe (by omega), hgain (by omega)⟩

end Copies

/-! ## The slots -/

theorem capacity_powerOfTwo : PowerOfTwo EAF_CONTROL_CAPACITY := ⟨4, by decide, rfl⟩

/-- The slot of command `j`, counted from a cursor on. -/
theorem slotOf_val (base : UInt32) (j : Nat) :
    (slotOf (base + UInt32.ofNat j)).val = (base.toNat + j) % 16 := by
  have hmod := toNat_add_mod capacity_powerOfTwo base j
  unfold slotOf
  simp only [UInt32.toNat_mod]
  exact hmod

/-- Commands less than a round apart have different slots. -/
theorem slotOf_ne (base : UInt32) {i j : Nat} (hlt : i < j) (hround : j < i + 16) :
    slotOf (base + UInt32.ofNat i) ≠ slotOf (base + UInt32.ofNat j) := by
  intro h
  have hval := congrArg Fin.val h
  rw [slotOf_val, slotOf_val] at hval
  exact mod_ne (by omega) (by omega) hval

/-! ## The invariant -/

def pusherHolds (base : UInt32) (w r : Nat) (s : Control) : Prop :=
  match s.pusher with
  | .idle => True
  | .called _ => True
  | .sawWrite _ write => write = base + UInt32.ofNat w
  | .filling command write fields => write = base + UInt32.ofNat w ∧ w < r + 16 ∧
      Copied fields command (s.queue.slots (slotOf write))

def popperHolds (initial : List Command) (base : UInt32) (w r : Nat) (s : Control) : Prop :=
  match s.popper with
  | .idle => True
  | .called _ => True
  | .sawRead _ read => read = base + UInt32.ofNat r
  | .copying out read fields => read = base + UInt32.ofNat r ∧ r < w ∧
      ∃ command, (initial ++ pushed s)[r]? = some command ∧ Copied fields command out

/-- After `w` commands went in, those of the start included, and `r` came out. -/
structure Fifo (initial : List Command) (base : UInt32) (w r : Nat) (s : Control) : Prop where
  write : s.queue.writeCursor = base + UInt32.ofNat w
  read : s.queue.readCursor = base + UInt32.ofNat r
  le : r ≤ w
  level : w ≤ r + 16
  count : (initial ++ pushed s).length = w
  popped : popped s = (initial ++ pushed s).take r
  slots : ∀ j, r ≤ j → j < w →
    (initial ++ pushed s)[j]? = some (s.queue.slots (slotOf (base + UInt32.ofNat j)))
  pusher : pusherHolds base w r s
  popper : popperHolds initial base w r s

section Steps

variable {initial : List Command} {base : UInt32} {w r : Nat} {s : Control}

/-- The distance of the cursors is the number of unread commands. -/
theorem Fifo.toNat_level (h : Fifo initial base w r s) : Commands.level s.queue = w - r := by
  have hlevel := h.level
  unfold Commands.level
  rw [h.write, h.read]
  exact toNat_distance base h.le (by omega)

theorem pushed_refused (s : Control) (command : Command) :
    ((s.pushes ++ [(command, false)]).filter Prod.snd).map Prod.fst = pushed s := by
  rw [List.filter_append, List.map_append]
  exact List.append_nil _

theorem pushed_accepted (s : Control) (command : Command) :
    ((s.pushes ++ [(command, true)]).filter Prod.snd).map Prod.fst = pushed s ++ [command] := by
  rw [List.filter_append, List.map_append]
  rfl

/-- A push finds the queue full exactly when sixteen commands are unread. -/
theorem Fifo.full_iff (h : Fifo initial base w r s) {write : UInt32}
    (hwrite : write = base + UInt32.ofNat w) :
    write - s.queue.readCursor = EAF_CONTROL_CAPACITY ↔ w = r + 16 := by
  have hlevel := h.toNat_level
  have hle := h.le
  unfold Commands.level at hlevel
  rw [hwrite, ← h.write, ← UInt32.toNat_inj, hlevel]
  change w - r = 16 ↔ _
  omega

theorem fifo_sawWrite (h : Fifo initial base w r s) {command : Command} {write : UInt32}
    (hp : s.pusher = .sawWrite command write) : Fifo initial base w r (pusherStep s) := by
  have hwrite := h.pusher
  unfold pusherHolds at hwrite
  rw [hp] at hwrite
  unfold pusherStep
  rw [hp]
  by_cases hfull : write - s.queue.readCursor = EAF_CONTROL_CAPACITY
  · simp only [hfull, if_true]
    have hsame : pushed { s with pusher := .idle, pushes := s.pushes ++ [(command, false)] } =
        pushed s := pushed_refused s command
    exact ⟨h.write, h.read, h.le, h.level, hsame ▸ h.count, hsame ▸ h.popped, hsame ▸ h.slots,
      trivial, by
        have hpopper := h.popper
        unfold popperHolds at hpopper ⊢
        rwa [hsame]⟩
  · simp only [hfull, if_false]
    have hlevel := h.level
    have hne := (h.full_iff hwrite).not.mp hfull
    exact { h with pusher := ⟨hwrite, by omega, copied_none _ _⟩ }

/-- A field is stored to a slot that holds no unread command. -/
theorem fifo_field (h : Fifo initial base w r s) {command : Command} {write : UInt32} {fields : Nat}
    (hp : s.pusher = .filling command write fields) (hmore : fields < 3) :
    Fifo initial base w r (pusherStep s) := by
  have hholds := h.pusher
  unfold pusherHolds at hholds
  rw [hp] at hholds
  obtain ⟨hwrite, hroom, hcopied⟩ := hholds
  unfold pusherStep
  rw [hp]
  simp only [hmore, if_true]
  refine { h with
    slots := fun j hle hlt => ?_
    pusher := ⟨hwrite, hroom, ?_⟩ }
  · have hne : slotOf (base + UInt32.ofNat j) ≠ slotOf write := by
      rw [hwrite]
      exact slotOf_ne base hlt (by omega)
    simp only [Function.update_of_ne hne]
    exact h.slots j hle hlt
  · simp only [Function.update_self]
    exact hcopied.field hmore

/-- The command in the filled slot becomes the last unread one. -/
theorem fifo_publish (h : Fifo initial base w r s) {command : Command} {write : UInt32}
    {fields : Nat} (hp : s.pusher = .filling command write fields) (hall : ¬fields < 3) :
    Fifo initial base (w + 1) r (pusherStep s) := by
  have hholds := h.pusher
  unfold pusherHolds at hholds
  rw [hp] at hholds
  obtain ⟨hwrite, hroom, hcopied⟩ := hholds
  have hle := h.le
  have hcount := h.count
  have hslot := hcopied.all hall
  unfold pusherStep
  rw [hp]
  simp only [hall, if_false]
  have hmore : initial ++ pushed { s with
      queue := { s.queue with writeCursor := write + 1 }
      pusher := .idle
      pushes := s.pushes ++ [(command, true)] } = initial ++ pushed s ++ [command] := by
    rw [List.append_assoc]
    exact congrArg (initial ++ ·) (pushed_accepted s command)
  refine ⟨?_, h.read, by omega, by omega, ?_, ?_, fun j hj hlt => ?_, trivial, ?_⟩
  · rw [hwrite, UInt32.ofNat_add, UInt32.add_assoc]
    rfl
  · rw [hmore, List.length_append, hcount]
    rfl
  · rw [hmore, List.take_append_of_le_length (by omega)]
    exact h.popped
  · rw [hmore]
    rcases Nat.lt_or_eq_of_le (Nat.le_of_lt_succ hlt) with hold | rfl
    · rw [List.getElem?_append_left (by omega)]
      exact h.slots j hj hold
    · rw [List.getElem?_append_right (by omega), hcount, Nat.sub_self, ← hwrite, hslot]
      rfl
  · have hpopper := h.popper
    unfold popperHolds at hpopper ⊢
    rw [hmore]
    rcases hc : s.popper with _ | out | ⟨out, read⟩ | ⟨out, read, copied⟩ <;> rw [hc] at hpopper
    · trivial
    · trivial
    · exact hpopper
    · obtain ⟨hread, hlt, other, hother, hfields⟩ := hpopper
      exact ⟨hread, by omega, other, by rwa [List.getElem?_append_left (by omega)], hfields⟩

theorem fifo_pusherStep (h : Fifo initial base w r s) :
    ∃ w', w ≤ w' ∧ Fifo initial base w' r (pusherStep s) := by
  rcases hp : s.pusher with _ | command | ⟨command, write⟩ | ⟨command, write, fields⟩
  · refine ⟨w, Nat.le_refl w, ?_⟩
    unfold pusherStep
    rw [hp]
    exact h
  · refine ⟨w, Nat.le_refl w, ?_⟩
    unfold pusherStep
    rw [hp]
    exact { h with pusher := h.write }
  · exact ⟨w, Nat.le_refl w, fifo_sawWrite h hp⟩
  · by_cases hmore : fields < 3
    · exact ⟨w, Nat.le_refl w, fifo_field h hp hmore⟩
    · exact ⟨w + 1, Nat.le_succ w, fifo_publish h hp hmore⟩

/-- A pop finds the queue empty exactly when nothing is unread. -/
theorem Fifo.empty_iff (h : Fifo initial base w r s) {read : UInt32}
    (hread : read = base + UInt32.ofNat r) : read = s.queue.writeCursor ↔ r = w := by
  constructor
  · intro heq
    have hlevel := h.toNat_level
    have hle := h.le
    unfold Commands.level at hlevel
    rw [← heq, hread, ← h.read, UInt32.sub_self, UInt32.toNat_zero] at hlevel
    omega
  · rintro rfl
    rw [hread, h.write]

/-- The command that was copied out is the oldest unread one. -/
theorem fifo_release (h : Fifo initial base w r s) {out : Command} {read : UInt32} {fields : Nat}
    (hp : s.popper = .copying out read fields) (hall : ¬fields < 3) :
    Fifo initial base w (r + 1) (popperStep s) := by
  have hholds := h.popper
  unfold popperHolds at hholds
  rw [hp] at hholds
  obtain ⟨hread, hlt, command, hcommand, hcopied⟩ := hholds
  obtain rfl := hcopied.all hall
  have hlevel := h.level
  unfold popperStep
  rw [hp]
  simp only [hall, if_false]
  refine ⟨h.write, ?_, hlt, by omega, h.count, ?_, fun j hj hjw => h.slots j (by omega) hjw, ?_,
    trivial⟩
  · rw [hread, UInt32.ofNat_add, UInt32.add_assoc]
    rfl
  · change (s.pops ++ [some out]).reduceOption = List.take (r + 1) (initial ++ pushed s)
    rw [List.reduceOption_append, List.take_add_one, hcommand, ← h.popped]
    rfl
  · have hpusher := h.pusher
    unfold pusherHolds at hpusher ⊢
    rcases hc : s.pusher with _ | command | ⟨command, write⟩ | ⟨command, write, fields⟩ <;>
      rw [hc] at hpusher
    · trivial
    · trivial
    · exact hpusher
    · obtain ⟨hwrite, hroom, hfields⟩ := hpusher
      exact ⟨hwrite, by omega, hfields⟩

theorem fifo_popperStep (h : Fifo initial base w r s) :
    ∃ r', r ≤ r' ∧ Fifo initial base w r' (popperStep s) := by
  have hholds := h.popper
  unfold popperHolds at hholds
  rcases hp : s.popper with _ | out | ⟨out, read⟩ | ⟨out, read, fields⟩ <;> rw [hp] at hholds
  · refine ⟨r, Nat.le_refl r, ?_⟩
    unfold popperStep
    rw [hp]
    exact h
  · refine ⟨r, Nat.le_refl r, ?_⟩
    unfold popperStep
    rw [hp]
    exact { h with popper := h.read }
  · refine ⟨r, Nat.le_refl r, ?_⟩
    unfold popperStep
    rw [hp]
    by_cases hempty : read = s.queue.writeCursor
    · simp only [hempty, if_true]
      have hsame : popped { s with popper := .idle, pops := s.pops ++ [none] } = popped s := by
        unfold popped
        rw [List.reduceOption_append]
        exact List.append_nil _
      exact { h with popped := hsame.trans h.popped, popper := trivial }
    · simp only [hempty, if_false]
      have hne := (h.empty_iff hholds).not.mp hempty
      have hlt : r < w := Nat.lt_of_le_of_ne h.le hne
      exact { h with popper := ⟨hholds, hlt, _, h.slots r (Nat.le_refl r) hlt, copied_none _ _⟩ }
  · by_cases hmore : fields < 3
    · refine ⟨r, Nat.le_refl r, ?_⟩
      obtain ⟨hread, hlt, command, hcommand, hcopied⟩ := hholds
      have hslot := h.slots r (Nat.le_refl r) hlt
      rw [hcommand, ← hread] at hslot
      unfold popperStep
      rw [hp]
      simp only [hmore, if_true]
      refine { h with popper := ⟨hread, hlt, command, hcommand, ?_⟩ }
      rw [← Option.some.inj hslot]
      exact hcopied.field hmore
    · exact ⟨r + 1, Nat.le_succ r, fifo_release h hp hmore⟩

theorem fifo_step (h : Fifo initial base w r s) (action : Action) :
    ∃ w' r', w ≤ w' ∧ r ≤ r' ∧ Fifo initial base w' r' (controlStep s action) := by
  cases action with
  | push command =>
    refine ⟨w, r, Nat.le_refl w, Nat.le_refl r, ?_⟩
    unfold controlStep
    simp only
    split
    · exact { h with pusher := trivial }
    · exact h
  | pop out =>
    refine ⟨w, r, Nat.le_refl w, Nat.le_refl r, ?_⟩
    unfold controlStep
    simp only
    split
    · exact { h with popper := trivial }
    · exact h
  | pusher =>
    obtain ⟨w', hw, hstep⟩ := fifo_pusherStep h
    exact ⟨w', r, hw, Nat.le_refl r, hstep⟩
  | popper =>
    obtain ⟨r', hr, hstep⟩ := fifo_popperStep h
    exact ⟨w, r', Nat.le_refl w, hr, hstep⟩

theorem fifo_run (h : Fifo initial base w r s) (actions : List Action) :
    ∃ w' r', Fifo initial base w' r' (controlRun s actions) := by
  induction actions generalizing w r s with
  | nil => exact ⟨w, r, h⟩
  | cons action actions ih =>
    obtain ⟨w', r', -, -, hstep⟩ := fifo_step h action
    exact ih hstep

end Steps

/-- Wherever the cursors stand, the unread commands are those that went in before. -/
theorem fifo_start {q : ControlQueue} (h : level q ≤ 16) :
    Fifo (unread q) q.readCursor (level q) 0 (controlStart q) where
  write := by
    unfold level
    rw [UInt32.ofNat_toNat, UInt32.add_comm, UInt32.sub_add_cancel]
    rfl
  read := (UInt32.add_zero _).symm
  le := Nat.zero_le _
  level := by omega
  count := by
    change (unread q ++ []).length = _
    rw [List.append_nil, unread, List.length_map, List.length_range]
  popped := rfl
  slots := fun j _ hlt => by
    change (unread q ++ [])[j]? = _
    rw [List.append_nil, unread, List.getElem?_map, List.getElem?_range hlt]
    rfl
  pusher := trivial
  popper := trivial

/-! ## Safety -/

/-- What both tasks rely on. -/
structure ControlSafe (initial : List Command) (s : Control) : Prop where
  /-- What went in has come out in order, or it is unread. -/
  order : initial ++ pushed s = popped s ++ unread s.queue
  level : level s.queue ≤ 16
  /-- No step writes to the slot of an unread command. -/
  kept : ∀ action i, i < Commands.level s.queue →
    (controlStep s action).queue.slots (slotOf (s.queue.readCursor + UInt32.ofNat i)) =
      s.queue.slots (slotOf (s.queue.readCursor + UInt32.ofNat i))
  /-- A field is read only from the slot of the oldest unread command. -/
  read : ∀ out read fields, s.popper = .copying out read fields →
    read = s.queue.readCursor ∧ 0 < Commands.level s.queue
  /-- A push that finds the queue full fails, and it leaves the queue as it is. Any other push gets
  on. -/
  full : ∀ command write, s.pusher = .sawWrite command write →
    pusherStep s =
      if Commands.level s.queue = 16 then
        { s with pusher := .idle, pushes := s.pushes ++ [(command, false)] }
      else { s with pusher := .filling command write 0 }
  empty : ∀ out read, s.popper = .sawRead out read →
    popperStep s =
      if Commands.level s.queue = 0 then { s with popper := .idle, pops := s.pops ++ [none] }
      else { s with popper := .copying out read 0 }

section Safety

variable {initial : List Command} {base : UInt32} {w r : Nat} {s : Control}

theorem slot_unread (h : Fifo initial base w r s) (i : Nat) :
    s.queue.readCursor + UInt32.ofNat i = base + UInt32.ofNat (r + i) := by
  rw [h.read, UInt32.ofNat_add, UInt32.add_assoc]

theorem unread_eq (h : Fifo initial base w r s) :
    unread s.queue = (initial ++ pushed s).drop r := by
  have hle := h.le
  have hcount := h.count
  refine List.ext_getElem? fun i => ?_
  unfold unread
  rw [h.toNat_level, List.getElem?_map, List.getElem?_drop]
  by_cases hi : i < w - r
  · rw [List.getElem?_range hi, Option.map_some, slot_unread h,
      h.slots (r + i) (Nat.le_add_right r i) (by omega)]
  · rw [List.getElem?_eq_none (by rw [List.length_range]; omega),
      List.getElem?_eq_none (by omega)]
    rfl

theorem pusherStep_kept (h : Fifo initial base w r s) {i : Nat} (hi : i < level s.queue) :
    (pusherStep s).queue.slots (slotOf (s.queue.readCursor + UInt32.ofNat i)) =
      s.queue.slots (slotOf (s.queue.readCursor + UInt32.ofNat i)) := by
  have hholds := h.pusher
  unfold pusherHolds at hholds
  unfold pusherStep
  rcases hp : s.pusher with _ | command | ⟨command, write⟩ | ⟨command, write, fields⟩
  · rfl
  · rfl
  · by_cases hfull : write - s.queue.readCursor = EAF_CONTROL_CAPACITY
    · simp only [hfull, if_true]
    · simp only [hfull, if_false]
  · rw [hp] at hholds
    obtain ⟨hwrite, hroom, -⟩ := hholds
    by_cases hmore : fields < 3
    · rw [h.toNat_level] at hi
      have hne : slotOf (s.queue.readCursor + UInt32.ofNat i) ≠ slotOf write := by
        rw [hwrite, slot_unread h]
        exact slotOf_ne base (by omega) (by omega)
      simp only [hmore, if_true, Function.update_of_ne hne]
    · simp only [hmore, if_false]

theorem popperStep_slots (s : Control) : (popperStep s).queue.slots = s.queue.slots := by
  unfold popperStep
  rcases s.popper with _ | out | ⟨out, read⟩ | ⟨out, read, fields⟩
  · rfl
  · rfl
  · simp only
    split <;> rfl
  · simp only
    split <;> rfl

theorem controlSafe_of_fifo (h : Fifo initial base w r s) : ControlSafe initial s := by
  have hlevel := h.toNat_level
  have hle := h.le
  have hbound := h.level
  refine ⟨?_, by omega, fun action i hi => ?_, fun out read fields hp => ?_,
    fun command write hp => ?_, fun out read hp => ?_⟩
  · rw [h.popped, unread_eq h, List.take_append_drop]
  · cases action with
    | push command =>
      unfold controlStep
      simp only
      split <;> rfl
    | pop out =>
      unfold controlStep
      simp only
      split <;> rfl
    | pusher => exact pusherStep_kept h hi
    | popper => exact congrFun (popperStep_slots s) _
  · have hholds := h.popper
    unfold popperHolds at hholds
    rw [hp] at hholds
    exact ⟨hholds.1.trans h.read.symm, by omega⟩
  · have hwrite := h.pusher
    unfold pusherHolds at hwrite
    rw [hp] at hwrite
    have hfull : write - s.queue.readCursor = EAF_CONTROL_CAPACITY ↔
        Commands.level s.queue = 16 := by
      rw [h.full_iff hwrite, hlevel]
      omega
    unfold pusherStep
    rw [hp]
    simp only [hfull]
  · have hread := h.popper
    unfold popperHolds at hread
    rw [hp] at hread
    have hempty : read = s.queue.writeCursor ↔ Commands.level s.queue = 0 := by
      rw [h.empty_iff hread, hlevel]
      omega
    unfold popperStep
    rw [hp]
    simp only [hempty]

/-- From `eaf_control_init` on nothing is unread but what was pushed. -/
theorem controlSafe_init (q : ControlQueue) (actions : List Action) :
    ControlSafe [] (controlRun (controlStart (controlInit q)) actions) := by
  have hlevel : level (controlInit q) = 0 := by
    unfold level controlInit
    rw [UInt32.sub_self]
    rfl
  have hnone : unread (controlInit q) = [] := by
    unfold unread
    rw [hlevel]
    rfl
  have hstart := fifo_start (q := controlInit q) (by omega)
  rw [hnone] at hstart
  obtain ⟨w, r, hfifo⟩ := fifo_run hstart actions
  exact controlSafe_of_fifo hfifo

end Safety

/-- In every interleaving, wherever the cursors start: commands are popped as they were pushed, and
in that order. -/
theorem control_fifo {q : ControlQueue} (h : level q ≤ 16) (actions : List Action) :
    ControlSafe (unread q) (controlRun (controlStart q) actions) := by
  obtain ⟨w, r, hfifo⟩ := fifo_run (fifo_start h) actions
  exact controlSafe_of_fifo hfifo

/-- An empty queue at the end of the cursors. -/
def lastCursor : ControlQueue := ⟨fun _ => ⟨.stop, 0, 0⟩, 0xFFFFFFFF, 0xFFFFFFFF⟩

/-- Two pushes across the wrap, and a pop between the steps of the second one. -/
def wrapActions : List Action :=
  [.push ⟨.seek, 7, 0⟩] ++ List.replicate 6 .pusher ++ [.push ⟨.gain, 0, 5⟩] ++
    List.replicate 4 .pusher ++ [.pop ⟨.stop, 0, 0⟩] ++ List.replicate 6 .popper ++
    List.replicate 2 .pusher

theorem control_fifo_wrap :
    ControlSafe (unread lastCursor) (controlRun (controlStart lastCursor) wrapActions) ∧
      popped (controlRun (controlStart lastCursor) wrapActions) = [⟨.seek, 7, 0⟩] ∧
      unread (controlRun (controlStart lastCursor) wrapActions).queue = [⟨.gain, 0, 5⟩] :=
  ⟨control_fifo (by decide) wrapActions, by decide +kernel, by decide +kernel⟩

end EmbeddedAudio.Commands
