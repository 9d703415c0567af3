-- The tasks of the Bluetooth speaker side by side: the callbacks of the Bluetooth stack, the
-- owner task, and the callers of speaker_command. The queue, the text slots and the flag of
-- a lost event are what they share; a byte of a copy is a step of its own.
import EmbeddedAudio.Speaker
import EmbeddedAudio.SlotPool
import Mathlib.Logic.Function.Basic

namespace EmbeddedAudio.Speaker

/-! ## What the stack hands to the callbacks -/

/-- The attributes of a track, `esp_avrc_md_attr_mask_t`. -/
inductive MdAttr where
  | title
  | artist
  | album
  | other (id : Nat)
  deriving DecidableEq, Repr

/-- A metadata response. Its text is borrowed memory, and may be missing. -/
structure Attribute where
  id : MdAttr
  length : Int
  text : Option (Nat → UInt8)

/-- `length` of `ct_cb`: what fits in a slot before the final zero. -/
def Attribute.kept (attr : Attribute) : Nat :=
  let length := if attr.length > 0 then attr.length.toNat else 0
  if length ≥ SPEAKER_TEXT_MAX then SPEAKER_TEXT_MAX - 1 else length

/-- The test that keeps control characters out of a text. -/
def cleanByte (b : UInt8) : UInt8 := if b < 32 ∨ b = 127 then 32 else b

/-- A call of `gap_cb`, `ct_cb` or `tg_cb` with what they read of its parameters. -/
inductive Notice where
  | confirmRequest (peer : Peer)
  | pinRequest (min16Digit : Bool) (peer : Peer)
  | authComplete (status : UInt32) (peer : Peer)
  | removeBondComplete (status : UInt32)
  | ctConnection (connected : Bool)
  | rnCapabilities (bits : UInt16)
  | metadata (attr : Attribute)
  | changeNotify (event : RnEvent) (parameter : UInt32)
  | playStatusResponse (status position length : UInt32)
  | tgConnection (connected : Bool)
  | setAbsoluteVolume (volume : UInt8)
  | registerNotification (event : RnEvent)

/-- The events that a callback posts for a notice without a text, one after the other. -/
def messages : Notice → List Event
  | .authComplete status peer => [.auth status peer]
  | .removeBondComplete status => [.bondRemoved status]
  | .ctConnection connected => [.ctLink (if connected then 1 else 0)]
  | .rnCapabilities bits => [.caps bits.toUInt32]
  | .changeNotify .trackChange _ => [.track]
  | .changeNotify .playStatusChange parameter => [.playStatus parameter 1]
  | .changeNotify .playPosChanged parameter => [.position parameter 1]
  | .playStatusResponse status position length => [.playStatus status 0, .position position length]
  | .tgConnection connected => [.tgLink (if connected then 1 else 0)]
  | .setAbsoluteVolume volume => [.volume (volume.toUInt32 &&& 127)]
  | .registerNotification .volumeChange => [.volumeSubscribe]
  | _ => []

/-! ## The system -/

/-- A place of the event queue: an event, or the slot that holds the text of one. -/
inductive Item where
  | event (event : Event)
  | text (id : MdAttr) (slot : Fin SPEAKER_TEXT_SLOTS) (length : Nat)
  deriving DecidableEq

/-- A queue of FreeRTOS, with whatever state it has, and what it holds. `xQueueSend` without a wait
puts an item behind the others, or has no room. `xQueueReceive` gives the first one, or nothing when
its time is up. -/
structure EventQueue (κ : Type) where
  created : κ
  send : Item → κ → Option κ
  receive : κ → Option (Item × κ)
  items : κ → List Item
  created_items : items created = []
  send_items : ∀ {item q q'}, send item q = some q' → items q' = items q ++ [item]
  receive_items : ∀ {q item q'}, receive q = some (item, q') → items q = item :: items q'

/-- Where the callback task of the stack is. -/
inductive Callback where
  | idle
  | posting (events : List Event)
  | copying (slot : Fin SPEAKER_TEXT_SLOTS) (attr : Attribute) (done : Nat)
  | cleaning (slot : Fin SPEAKER_TEXT_SLOTS) (attr : Attribute) (done : Nat)
  | postingText (slot : Fin SPEAKER_TEXT_SLOTS) (attr : Attribute)
  | releasing (slot : Fin SPEAKER_TEXT_SLOTS)

/-- Where the owner task is: before its loop, or at a place of it. -/
inductive Task where
  | starting
  | waiting
  | reading (id : MdAttr) (slot : Fin SPEAKER_TEXT_SLOTS) (done : Nat)
  | releasing (slot : Fin SPEAKER_TEXT_SLOTS)
  | ticking
  deriving DecidableEq

/-- A reply to a peer that asks to pair. -/
inductive Reply where
  | confirm (peer : Peer) (accept : Bool)
  | pin (peer : Peer) (accept : Bool)
  deriving DecidableEq

/-- The shared state, the two tasks, and a history: the texts that went into the queue, what the
owner task made of them, and the replies. -/
structure System (κ : Type) where
  owner : Owner
  queue : κ
  overflow : Bool
  used : BitVec SPEAKER_TEXT_SLOTS
  texts : Fin SPEAKER_TEXT_SLOTS → Text
  callback : Callback
  task : Task
  posted : List Attribute
  taken : List (MdAttr × Option Text)
  replies : List Reply

section System

variable {κ : Type} (lib : EventQueue κ)

/-- `speaker_post`, with its result. -/
def post (item : Item) (s : System κ) : System κ × Bool :=
  match lib.send item s.queue with
  | some queue => ({ s with queue := queue }, true)
  | none => ({ s with overflow := true }, false)

/-- `speaker_command`. -/
def speakerCommand (command : Command) (value : UInt32) (s : System κ) : System κ × Rc :=
  if (command = .volume ∧ value > 127) ∨ (command = .mute ∧ value > 1) then (s, EAF_INVALID)
  else
    match lib.send (.event (.command command value)) s.queue with
    | some queue => ({ s with queue := queue }, EAF_OK)
    | none => (s, EAF_TIMEOUT)

/-- `speaker_text_acquire`. The slot is cleared. -/
def textAcquire (s : System κ) : Option (System κ × Fin SPEAKER_TEXT_SLOTS) :=
  (SlotPool.firstFree s.used).map fun slot =>
    ({ s with
      used := SlotPool.take s.used slot
      texts := Function.update s.texts slot (.replicate _ 0) }, slot)

/-- `speaker_text_release`. -/
def textRelease (slot : Fin SPEAKER_TEXT_SLOTS) (s : System κ) : System κ :=
  { s with used := SlotPool.give s.used slot }

/-- One byte of a slot is written. -/
def writeByte (slot : Fin SPEAKER_TEXT_SLOTS) (i : Nat) (b : UInt8) (s : System κ) : System κ :=
  { s with texts := Function.update s.texts slot ((s.texts slot).setIfInBounds i b) }

/-- The stack calls one of the callbacks. -/
def startCallback (notice : Notice) (s : System κ) : System κ :=
  match notice with
  | .confirmRequest peer => { s with replies := s.replies ++ [.confirm peer true] }
  | .pinRequest min16Digit peer =>
    { s with replies := s.replies ++ [.pin peer (!min16Digit && pairingAllowed s.owner peer)] }
  | .metadata attr =>
    match textAcquire s with
    | none => s
    | some (s, slot) => { s with callback := .copying slot attr 0 }
  | notice => { s with callback := .posting (messages notice) }

/-- One step of the callback that runs. -/
def callbackStep (s : System κ) : System κ :=
  match s.callback with
  | .idle => s
  | .posting [] => { s with callback := .idle }
  | .posting (event :: events) => { (post lib (.event event) s).1 with callback := .posting events }
  | .copying slot attr done =>
    match attr.text with
    | some text =>
      if done < attr.kept then
        { writeByte slot done (text done) s with callback := .copying slot attr (done + 1) }
      else { writeByte slot attr.kept 0 s with callback := .cleaning slot attr 0 }
    | none => { writeByte slot attr.kept 0 s with callback := .cleaning slot attr 0 }
  | .cleaning slot attr done =>
    if done < attr.kept then
      { writeByte slot done (cleanByte ((s.texts slot)[done]?.getD 0)) s with
        callback := .cleaning slot attr (done + 1) }
    else { s with callback := .postingText slot attr }
  | .postingText slot attr =>
    let (s, ok) := post lib (.text attr.id slot attr.kept) s
    if ok then { s with callback := .idle, posted := s.posted ++ [attr] }
    else { s with callback := .releasing slot }
  | .releasing slot => { textRelease slot s with callback := .idle }

/-- The buffer of the status that an attribute goes to. -/
def textOf (status : Status) : MdAttr → Option Text
  | .title => some status.title
  | .artist => some status.artist
  | .album => some status.album
  | .other _ => none

/-- One byte of the buffer that an attribute goes to is written. -/
def setTextByte (status : Status) (id : MdAttr) (i : Nat) (b : UInt8) : Status :=
  match id with
  | .title => { status with title := status.title.setIfInBounds i b }
  | .artist => { status with artist := status.artist.setIfInBounds i b }
  | .album => { status with album := status.album.setIfInBounds i b }
  | .other _ => status

/-- `xQueueReceive` and what follows, up to the copy of a text. -/
def receive (a : Answers) (s : System κ) : System κ :=
  match lib.receive s.queue with
  | none => { s with task := .ticking }
  | some (item, queue) =>
    let s := { s with queue := queue }
    match item with
    | .event event => { s with owner := handleEvent a event s.owner, task := .ticking }
    | .text id slot _ =>
      if s.owner.speaker.ctConnected ∧ (textOf s.owner.speaker.status id).isSome then
        { s with task := .reading id slot 0 }
      else { s with task := .releasing slot, taken := s.taken ++ [(id, none)] }

/-- One step of the owner task inside the case of a text. -/
def taskStep (s : System κ) : System κ :=
  match s.task with
  | .reading id slot done =>
    if done < SPEAKER_TEXT_MAX then
      { s with
        owner.speaker.status :=
          setTextByte s.owner.speaker.status id done ((s.texts slot)[done]?.getD 0)
        task := .reading id slot (done + 1) }
    else
      { s with
        task := .releasing slot
        taken := s.taken ++ [(id, textOf s.owner.speaker.status id)] }
  | .releasing slot =>
    { textRelease slot s with owner := publish s.owner, task := .ticking }
  | _ => s

/-- What happens next: a call of one task, or a step of it. -/
inductive Action where
  | notice (notice : Notice)
  | callback
  | command (command : Command) (value : UInt32)
  | start (list : Option BondList)
  | receive (answers : Answers)
  | task
  | tick (answers : TickAnswers)

/-- A task that is inside a call makes no other one. -/
def systemStep (s : System κ) : Action → System κ
  | .notice notice =>
    match s.callback with
    | .idle => startCallback notice s
    | _ => s
  | .callback => callbackStep lib s
  | .command command value => (speakerCommand lib command value s).1
  | .start list =>
    if s.task = .starting then { s with owner := controlStart list s.owner, task := .waiting }
    else s
  | .receive answers => if s.task = .waiting then receive lib answers s else s
  | .task => taskStep s
  | .tick answers =>
    if s.task = .ticking then
      { s with owner := tick answers s.overflow s.owner, overflow := false, task := .waiting }
    else s

def systemRun (s : System κ) (actions : List Action) : System κ :=
  actions.foldl (systemStep lib) s

/-- The system as `speaker_start` leaves it. The callbacks may run before the owner task does. -/
def systemStart (stored : Option Peer) (opened getOk : Bool) : System κ where
  owner := speakerStart stored opened getOk
  queue := lib.created
  overflow := false
  used := 0
  texts := fun _ => .replicate _ 0
  callback := .idle
  task := .starting
  posted := []
  taken := []
  replies := []

end System

/-! ## What a step does to the owner -/

/-- The owner with one byte of a text written. -/
def Owner.setTextByte (id : MdAttr) (i : Nat) (b : UInt8) (o : Owner) : Owner :=
  { o with speaker.status := Speaker.setTextByte o.speaker.status id i b }

/-- The bounds that `speaker_command` and the callbacks keep. -/
def Event.Fits : Event → Prop
  | .command .volume extra => extra ≤ 127
  | .volume value => value ≤ 127
  | _ => True

/-- A change of the owner's state in the loop of its task, and the step that makes it. A text is
copied only while the link of the remote control is up. -/
inductive OwnerStep (o : Owner) : Action → Owner → Prop
  | stay (action : Action) : OwnerStep o action o
  | event (a : Answers) (event : Event) (h : event.Fits) :
    OwnerStep o (.receive a) (handleEvent a event o)
  | text (id : MdAttr) (i : Nat) (b : UInt8) (h : o.speaker.ctConnected = true) :
    OwnerStep o .task (o.setTextByte id i b)
  | publish : OwnerStep o .task (publish o)
  | tick (a : TickAnswers) (overflow : Bool) : OwnerStep o (.tick a) (tick a overflow o)

/-- The owner task copies a text only while the link of the remote control is up, and the events
on their way to it keep their bounds. -/
structure Sane {κ : Type} (lib : EventQueue κ) (s : System κ) : Prop where
  reads : ∀ id slot done, s.task = .reading id slot done → s.owner.speaker.ctConnected = true
  queued : ∀ event, Item.event event ∈ lib.items s.queue → event.Fits
  posting : ∀ events, s.callback = .posting events → ∀ event ∈ events, event.Fits

theorem messages_fit (notice : Notice) : ∀ event ∈ messages notice, event.Fits := by
  intro event hevent
  unfold messages at hevent
  split at hevent
  case h_8 =>
    rcases List.mem_cons.mp hevent with rfl | hsecond
    · trivial
    · obtain rfl := List.mem_singleton.mp hsecond
      trivial
  case h_10 =>
    obtain rfl := List.mem_singleton.mp hevent
    exact UInt32.and_le_right
  case h_12 => cases hevent
  all_goals
    obtain rfl := List.mem_singleton.mp hevent
    trivial

section Owners

variable {κ : Type} {lib : EventQueue κ} {s : System κ}

/-- A step beside the owner task, one that leaves its state alone. -/
structure Beside (lib : EventQueue κ) (s t : System κ) : Prop where
  owner : t.owner = s.owner
  task : t.task = s.task
  sane : Sane lib s → Sane lib t

theorem beside_refl (lib : EventQueue κ) (s : System κ) : Beside lib s s := ⟨rfl, rfl, id⟩

theorem sane_push {t : System κ} {item : Item} (h : Sane lib s) (howner : t.owner = s.owner)
    (htask : t.task = s.task) (hqueue : lib.send item s.queue = some t.queue)
    (hitem : ∀ event, item = .event event → event.Fits)
    (hposting : ∀ events, t.callback = .posting events → ∀ event ∈ events, event.Fits) :
    Sane lib t := by
  refine ⟨?_, ?_, hposting⟩
  · rw [howner, htask]
    exact h.reads
  · intro event hevent
    rw [lib.send_items hqueue] at hevent
    rcases List.mem_append.mp hevent with hold | hnew
    · exact h.queued event hold
    · exact hitem event (List.mem_singleton.mp hnew).symm

theorem post_cases (lib : EventQueue κ) (item : Item) (s : System κ) :
    (∃ queue, lib.send item s.queue = some queue ∧
        post lib item s = ({ s with queue := queue }, true)) ∨
      post lib item s = ({ s with overflow := true }, false) := by
  unfold post
  cases hsend : lib.send item s.queue with
  | some queue => exact .inl ⟨queue, rfl, rfl⟩
  | none => exact .inr rfl

/-- The callbacks leave the owner alone. -/
theorem startCallback_beside (lib : EventQueue κ) (notice : Notice) (s : System κ) :
    Beside lib s (startCallback notice s) := by
  unfold startCallback
  split
  · exact ⟨rfl, rfl, fun h => ⟨h.reads, h.queued, h.posting⟩⟩
  · exact ⟨rfl, rfl, fun h => ⟨h.reads, h.queued, h.posting⟩⟩
  · unfold textAcquire
    cases SlotPool.firstFree s.used with
    | none => exact beside_refl lib s
    | some slot =>
      exact ⟨rfl, rfl, fun h => ⟨h.reads, h.queued, fun _ hp => Callback.noConfusion hp⟩⟩
  · refine ⟨rfl, rfl, fun h => ⟨h.reads, h.queued, ?_⟩⟩
    rintro events hevents
    obtain rfl := Callback.posting.inj hevents
    exact messages_fit _

theorem callbackStep_beside (lib : EventQueue κ) (s : System κ) :
    Beside lib s (callbackStep lib s) := by
  unfold callbackStep
  split
  · exact beside_refl lib s
  · exact ⟨rfl, rfl, fun h => ⟨h.reads, h.queued, fun _ hp => Callback.noConfusion hp⟩⟩
  · rename_i event events hcallback
    have hrest : Sane lib s → ∀ more, Callback.posting events = .posting more →
        ∀ event ∈ more, event.Fits := by
      rintro h more hmore event' hevent'
      obtain rfl := Callback.posting.inj hmore
      exact h.posting _ hcallback event' (List.mem_cons_of_mem _ hevent')
    rcases post_cases lib (.event event) s with ⟨queue, hsend, hpost⟩ | hpost
    · rw [hpost]
      refine ⟨rfl, rfl, fun h => sane_push h rfl rfl hsend ?_ (hrest h)⟩
      intro event' hevent'
      obtain rfl := Item.event.inj hevent'
      exact h.posting _ hcallback event List.mem_cons_self
    · rw [hpost]
      exact ⟨rfl, rfl, fun h => ⟨h.reads, h.queued, hrest h⟩⟩
  · split
    · split <;>
        exact ⟨rfl, rfl, fun h => ⟨h.reads, h.queued, fun _ hp => Callback.noConfusion hp⟩⟩
    · exact ⟨rfl, rfl, fun h => ⟨h.reads, h.queued, fun _ hp => Callback.noConfusion hp⟩⟩
  · split <;>
      exact ⟨rfl, rfl, fun h => ⟨h.reads, h.queued, fun _ hp => Callback.noConfusion hp⟩⟩
  · rename_i slot attr hcallback
    rcases post_cases lib (.text attr.id slot attr.kept) s with ⟨queue, hsend, hpost⟩ | hpost
    · simp only [hpost, if_true]
      refine ⟨rfl, rfl, fun h => sane_push h rfl rfl hsend ?_ fun _ hp => Callback.noConfusion hp⟩
      intro event hevent
      exact Item.noConfusion hevent
    · simp only [hpost, Bool.false_eq_true, if_false]
      exact ⟨rfl, rfl, fun h => ⟨h.reads, h.queued, fun _ hp => Callback.noConfusion hp⟩⟩
  · exact ⟨rfl, rfl, fun h => ⟨h.reads, h.queued, fun _ hp => Callback.noConfusion hp⟩⟩

theorem speakerCommand_beside (lib : EventQueue κ) (command : Command) (value : UInt32)
    (s : System κ) : Beside lib s (speakerCommand lib command value s).1 := by
  unfold speakerCommand
  split
  · exact beside_refl lib s
  · rename_i hvalid
    cases hsend : lib.send (.event (.command command value)) s.queue with
    | none => exact beside_refl lib s
    | some queue =>
      refine ⟨rfl, rfl, fun h => sane_push h rfl rfl hsend ?_ h.posting⟩
      intro event hevent
      obtain rfl := Item.event.inj hevent
      cases command with
      | volume =>
        apply UInt32.not_lt.mp
        intro hlt
        exact hvalid (.inl ⟨rfl, hlt⟩)
      | _ => trivial

theorem receive_owner (a : Answers) (h : Sane lib s) :
    OwnerStep s.owner (.receive a) (receive lib a s).owner ∧ Sane lib (receive lib a s) ∧
      (receive lib a s).task ≠ .starting := by
  unfold receive
  split
  · exact ⟨.stay _, ⟨fun _ _ _ h => Task.noConfusion h, h.queued, h.posting⟩,
      fun h => Task.noConfusion h⟩
  · rename_i item queue hreceive
    have hqueue := lib.receive_items hreceive
    have hqueued : ∀ event, Item.event event ∈ lib.items queue → event.Fits := by
      intro event hevent
      apply h.queued
      rw [hqueue]
      exact List.mem_cons_of_mem _ hevent
    dsimp only
    split
    · rename_i event
      have hfits : event.Fits := h.queued event (by simp [hqueue])
      exact ⟨.event a event hfits, ⟨fun _ _ _ h => Task.noConfusion h, hqueued, h.posting⟩,
        fun h => Task.noConfusion h⟩
    · split
      · rename_i hlinked
        exact ⟨.stay _, ⟨fun _ _ _ _ => hlinked.1, hqueued, h.posting⟩,
          fun h => Task.noConfusion h⟩
      · exact ⟨.stay _, ⟨fun _ _ _ h => Task.noConfusion h, hqueued, h.posting⟩,
          fun h => Task.noConfusion h⟩

theorem taskStep_owner (h : Sane lib s) (hstarted : s.task ≠ .starting) :
    OwnerStep s.owner .task (taskStep s).owner ∧ Sane lib (taskStep s) ∧
      (taskStep s).task ≠ .starting := by
  unfold taskStep
  split
  · rename_i id slot done htask
    have hlinked := h.reads id slot done htask
    split
    · exact ⟨.text id done _ hlinked, ⟨fun _ _ _ _ => hlinked, h.queued, h.posting⟩,
        fun h => Task.noConfusion h⟩
    · exact ⟨.stay _, ⟨fun _ _ _ h => Task.noConfusion h, h.queued, h.posting⟩,
        fun h => Task.noConfusion h⟩
  · exact ⟨.publish, ⟨fun _ _ _ h => Task.noConfusion h, h.queued, h.posting⟩,
      fun h => Task.noConfusion h⟩
  · exact ⟨.stay _, h, hstarted⟩

/-- What one step does to the owner: it starts, or it makes a step of its loop. -/
theorem systemStep_owner (lib : EventQueue κ) {s : System κ} (h : Sane lib s) (action : Action) :
    Sane lib (systemStep lib s action) ∧
      ((systemStep lib s action).task = s.task ∧ (systemStep lib s action).owner = s.owner ∨
        s.task = .starting ∧ (systemStep lib s action).task ≠ .starting ∧
          (∃ list, (systemStep lib s action).owner = controlStart list s.owner) ∨
        s.task ≠ .starting ∧ (systemStep lib s action).task ≠ .starting ∧
          OwnerStep s.owner action (systemStep lib s action).owner) := by
  cases action with
  | notice notice =>
    simp only [systemStep]
    split
    · have hbeside := startCallback_beside lib notice s
      exact ⟨hbeside.sane h, .inl ⟨hbeside.task, hbeside.owner⟩⟩
    · exact ⟨h, .inl ⟨rfl, rfl⟩⟩
  | callback =>
    have hbeside := callbackStep_beside lib s
    exact ⟨hbeside.sane h, .inl ⟨hbeside.task, hbeside.owner⟩⟩
  | command command value =>
    have hbeside := speakerCommand_beside lib command value s
    exact ⟨hbeside.sane h, .inl ⟨hbeside.task, hbeside.owner⟩⟩
  | start list =>
    simp only [systemStep]
    split
    · rename_i hstarting
      exact ⟨⟨fun _ _ _ h => Task.noConfusion h, h.queued, h.posting⟩,
        .inr (.inl ⟨hstarting, fun h => Task.noConfusion h, list, rfl⟩)⟩
    · exact ⟨h, .inl ⟨rfl, rfl⟩⟩
  | receive answers =>
    simp only [systemStep]
    split
    · rename_i hwaiting
      obtain ⟨hstep, hsane, hstarted⟩ := receive_owner answers h
      exact ⟨hsane, .inr (.inr ⟨by simp [hwaiting], hstarted, hstep⟩)⟩
    · exact ⟨h, .inl ⟨rfl, rfl⟩⟩
  | task =>
    simp only [systemStep]
    by_cases hstarting : s.task = .starting
    · have hstays : taskStep s = s := by simp [taskStep, hstarting]
      rw [hstays]
      exact ⟨h, .inl ⟨rfl, rfl⟩⟩
    · obtain ⟨hstep, hsane, hstarted⟩ := taskStep_owner h hstarting
      exact ⟨hsane, .inr (.inr ⟨hstarting, hstarted, hstep⟩)⟩
  | tick answers =>
    simp only [systemStep]
    split
    · rename_i hticking
      exact ⟨⟨fun _ _ _ h => Task.noConfusion h, h.queued, h.posting⟩,
        .inr (.inr ⟨by simp [hticking], fun h => Task.noConfusion h, .tick answers _⟩)⟩
    · exact ⟨h, .inl ⟨rfl, rfl⟩⟩

end Owners

/-! ## Runs -/

section Runs

variable {κ : Type} (lib : EventQueue κ)

theorem sane_start (stored : Option Peer) (opened getOk : Bool) :
    Sane lib (systemStart lib stored opened getOk) := by
  refine ⟨fun _ _ _ h => Task.noConfusion h, ?_, fun _ h => Callback.noConfusion h⟩
  intro event hevent
  rw [show lib.items (systemStart lib stored opened getOk).queue = [] from lib.created_items]
    at hevent
  cases hevent

@[simp] theorem systemRun_nil (s : System κ) : systemRun lib s [] = s := rfl

/-- What holds at the start and outlives each step holds after every run. -/
theorem systemRun_law (stored : Option Peer) (opened getOk : Bool) {I : System κ → Prop}
    (hstart : I (systemStart lib stored opened getOk))
    (hstep : ∀ s action, I s → I (systemStep lib s action)) (actions : List Action) :
    I (systemRun lib (systemStart lib stored opened getOk) actions) :=
  List.foldlRecOn actions (systemStep lib) hstart fun s hs action _ => hstep s action hs

/-- A law of the owner that each step of its loop keeps. -/
theorem owner_run {I : Owner → Prop} {P : Action → Prop} {s : System κ} (hsane : Sane lib s)
    (hstarted : s.task ≠ .starting) (hI : I s.owner)
    (hstep : ∀ o action o', P action → I o → OwnerStep o action o' → I o')
    (actions : List Action) (hactions : ∀ action ∈ actions, P action) :
    (systemRun lib s actions).task ≠ .starting ∧ I (systemRun lib s actions).owner := by
  induction actions generalizing s with
  | nil => exact ⟨hstarted, hI⟩
  | cons action actions ih =>
    obtain ⟨hfirst, hrest⟩ := List.forall_mem_cons.mp hactions
    obtain ⟨hsane', hcases⟩ := systemStep_owner lib hsane action
    rcases hcases with ⟨htask, howner⟩ | ⟨hstarting, -, -⟩ | ⟨-, hstarted', hmove⟩
    · exact ih hsane' (htask ▸ hstarted) (howner ▸ hI) hrest
    · exact absurd hstarting hstarted
    · exact ih hsane' hstarted' (hstep _ _ _ hfirst hI hmove) hrest

/-- After every run, the owner is as its start left it, or its law holds: one that the start of the
task gives and that each step of its loop keeps. -/
theorem owner_law (stored : Option Peer) (opened getOk : Bool) {I : Owner → Prop}
    (hstart : ∀ list, I (controlStart list (speakerStart stored opened getOk)))
    (hstep : ∀ o action o', I o → OwnerStep o action o' → I o') (actions : List Action) :
    let s := systemRun lib (systemStart lib stored opened getOk) actions
    Sane lib s ∧ (s.task = .starting ∧ s.owner = speakerStart stored opened getOk ∨
      s.task ≠ .starting ∧ I s.owner) := by
  apply systemRun_law lib stored opened getOk
    (I := fun s => Sane lib s ∧ (s.task = .starting ∧ s.owner = speakerStart stored opened getOk ∨
      s.task ≠ .starting ∧ I s.owner))
    ⟨sane_start lib stored opened getOk, .inl ⟨rfl, rfl⟩⟩
  rintro s action ⟨hsane, hlaw⟩
  obtain ⟨hsane', hcases⟩ := systemStep_owner lib hsane action
  refine ⟨hsane', ?_⟩
  rcases hcases with ⟨htask, howner⟩ | ⟨hstarting, hstarted, list, howner⟩ |
    ⟨hstarted, hstarted', hmove⟩
  · rw [htask, howner]
    exact hlaw
  · rcases hlaw with ⟨-, hfirst⟩ | ⟨hnot, -⟩
    · refine .inr ⟨hstarted, ?_⟩
      rw [howner, hfirst]
      exact hstart list
    · exact absurd hstarting hnot
  · rcases hlaw with ⟨hstarting, -⟩ | ⟨-, hI⟩
    · exact absurd hstarting hstarted
    · exact .inr ⟨hstarted', hstep _ _ _ hI hmove⟩

end Runs

end EmbeddedAudio.Speaker
