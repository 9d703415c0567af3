-- What the Bluetooth speaker remembers of its peers, in its settings and in its state, and how it
-- forgets them, over every run of its tasks.
import EmbeddedAudio.SpeakerPolicy

namespace EmbeddedAudio.Speaker

/-! ## What the speaker remembers of its peers -/

/-- The peers whose link came up since the speaker last let go of its peer. -/
def sinceForget (peers : List Peer) : Record → List Peer
  | .forget => []
  | .linkUp peer => peer :: peers
  | _ => peers

/-- The peers whose link came up since the peer was last erased from the settings. An erasure that
fails leaves it there. -/
def sinceErased (peers : List Peer) : Record → List Peer
  | .erasePeer true => []
  | .linkUp peer => peer :: peers
  | _ => peers

/-- The part of the owner's state that holds a peer, and the peers that it may hold. At first this
is the peer in the settings. -/
structure Memory where
  lastPeer : Option Peer
  stored : Option Peer
  seen : List Peer
  saved : List Peer

def memory (boot : Option Peer) (o : Owner) : Memory where
  lastPeer := if o.speaker.havePeer then some o.speaker.lastPeer else none
  stored := o.stored
  seen := o.history.foldl sinceForget boot.toList
  saved := o.history.foldl sinceErased boot.toList

/-- A peer is remembered only if its link came up since the last forget, and it is in the settings
only if its link came up since the last erasure. A forget comes before its erasure. -/
structure Memory.Fresh (m : Memory) : Prop where
  last : ∀ peer, m.lastPeer = some peer → peer ∈ m.seen
  stored : ∀ peer, m.stored = some peer → peer ∈ m.saved
  later : ∀ peer ∈ m.seen, peer ∈ m.saved

section MemoryFrames

variable (boot : Option Peer) (o : Owner)

@[simp] theorem memory_record (r : Record) : memory boot (o.record r) =
    { memory boot o with
      seen := sinceForget (memory boot o).seen r
      saved := sinceErased (memory boot o).saved r } := by
  simp only [memory, Owner.record, List.foldl_append, List.foldl_cons, List.foldl_nil]
  rfl

theorem seen_record (r : Record) :
    (memory boot (o.record r)).seen = sinceForget (memory boot o).seen r := by
  rw [memory_record]

theorem saved_record (r : Record) :
    (memory boot (o.record r)).saved = sinceErased (memory boot o).saved r := by
  rw [memory_record]

@[simp] theorem memory_publish : memory boot (publish o) = memory boot o := rfl

@[simp] theorem memory_scanMode : memory boot (scanMode o) = memory boot o := by
  simp only [scanMode, memory_publish]
  exact memory_record ..

@[simp] theorem memory_disconnect (link : LinkStatus) :
    memory boot (disconnect link o) = memory boot o := by
  unfold disconnect
  split
  · apply memory_record
  · rfl

@[simp] theorem memory_startPairing (link : LinkStatus) :
    memory boot (startPairing link o) = memory boot o := by
  simp [startPairing]

@[simp] theorem memory_avrcpClearTrack : memory boot (avrcpClearTrack o) = memory boot o := rfl

@[simp] theorem memory_avrcpRequestTrack :
    memory boot (avrcpRequestTrack o) = memory boot o := by
  unfold avrcpRequestTrack
  split
  · rfl
  · simp [sinceForget, sinceErased]

@[simp] theorem memory_avrcpSubscribe (capable : BitMaskTest) (event : RnEvent)
    (label : UInt8) :
    memory boot (avrcpSubscribe capable event label o) = memory boot o := by
  unfold avrcpSubscribe
  split
  · apply memory_record
  · rfl

@[simp] theorem memory_avrcpVolumeReply (response : RnResponse) :
    memory boot (avrcpVolumeReply response o) = memory boot o := by
  apply memory_record

@[simp] theorem memory_refreshBonds (list : Option BondList) :
    memory boot (refreshBonds list o) = memory boot o := by
  cases list <;> rfl

@[simp] theorem memory_removeFirst (list : Option BondList) :
    memory boot (removeFirst list o) = memory boot o := by
  unfold removeFirst
  split
  · apply memory_record
  · rfl

@[simp] theorem memory_setVolume (now : Int) (value : UInt32) (muted remote : Bool) :
    memory boot (setVolume now value muted remote o) = memory boot o := by
  have hnotify : ∀ before o, memory boot (notifyVolume before value muted remote o) =
      memory boot o := by
    intro before o
    unfold notifyVolume
    split
    · exact memory_avrcpVolumeReply boot o .changed
    · rfl
  refine (hnotify _ _).trans ?_
  cases remote
  · rfl
  · apply memory_record

@[simp] theorem memory_onCtLink (value : UInt32) :
    memory boot (onCtLink value o) = memory boot o := by
  unfold onCtLink
  dsimp only
  split
  · rw [memory_avrcpRequestTrack, memory_record]
    rfl
  · rfl

@[simp] theorem memory_onVolumeSubscribe : memory boot (onVolumeSubscribe o) = memory boot o := by
  unfold onVolumeSubscribe
  split
  · apply memory_avrcpVolumeReply
  · rfl

@[simp] theorem memory_onCaps (capable : BitMaskTest) (value : UInt32) :
    memory boot (onCaps capable value o) = memory boot o := by
  simp only [onCaps, memory_avrcpSubscribe]
  rfl

@[simp] theorem memory_onPlayStatus (capable : BitMaskTest) (value extra : UInt32) :
    memory boot (onPlayStatus capable value extra o) = memory boot o := by
  unfold onPlayStatus storePlayback
  simp only [apply_ite (memory boot), memory_avrcpSubscribe]
  split <;> split <;> rfl

@[simp] theorem memory_onPosition (capable : BitMaskTest) (value extra : UInt32) :
    memory boot (onPosition capable value extra o) = memory boot o := by
  unfold onPosition storePosition
  simp only [apply_ite (memory boot), memory_avrcpSubscribe]
  split <;> split <;> rfl

@[simp] theorem memory_gapTick (a : TickAnswers) : memory boot (gapTick a o) = memory boot o := by
  unfold gapTick
  split
  · split
    · rw [memory_startPairing]
      exact memory_refreshBonds ..
    · split
      · exact memory_removeFirst ..
      · rfl
  · rfl

end MemoryFrames

section MemorySteps

variable {boot : Option Peer} {o : Owner}

theorem fresh_setPeer (h : (memory boot o).Fresh) (hhave : o.speaker.havePeer = true)
    (setOk : Bool) : (memory boot (setPeer setOk o)).Fresh := by
  have hseen : (memory boot (setPeer setOk o)).seen = (memory boot o).seen :=
    seen_record boot o (.setPeer o.speaker.lastPeer setOk)
  have hsaved : (memory boot (setPeer setOk o)).saved = (memory boot o).saved :=
    saved_record boot o (.setPeer o.speaker.lastPeer setOk)
  refine ⟨?_, ?_, ?_⟩
  · rw [hseen]
    exact h.last
  · rw [hsaved]
    intro peer hpeer
    cases setOk with
    | false => exact h.stored peer hpeer
    | true =>
      -- what is saved is what is remembered
      apply h.later
      apply h.last
      simpa [memory, setPeer, hhave] using hpeer
  · rw [hseen, hsaved]
    exact h.later

/-- The settings take the peer that is remembered, or stay as they are. -/
theorem fresh_nvsTick (h : (memory boot o).Fresh) (now : Int) (setOk : Bool) :
    (memory boot (nvsTick now setOk o)).Fresh := by
  have hcommit : ∀ o, memory boot (commitSettings o) = memory boot o :=
    fun o => memory_record boot o .commit
  unfold nvsTick saveSettings
  split
  · split
    · exact h
    · rw [hcommit]
      split
      · rename_i hsave
        exact fresh_setPeer h (Bool.and_eq_true_iff.mp hsave).1 setOk
      · exact h
  · exact h

/-- Nothing is remembered, and no link has come up since. -/
structure Memory.Empty (m : Memory) : Prop where
  last : m.lastPeer = none
  seen : m.seen = []

theorem empty_markForgetting (boot : Option Peer) (o : Owner) :
    (memory boot (markForgetting o)).Empty :=
  ⟨rfl, seen_record boot o .forget⟩

theorem Memory.Empty.fresh {m : Memory} (h : m.Empty)
    (hstored : ∀ peer, m.stored = some peer → peer ∈ m.saved) : m.Fresh := by
  refine ⟨?_, hstored, ?_⟩
  · intro peer hpeer
    rw [h.last] at hpeer
    cases hpeer
  · intro peer hpeer
    rw [h.seen] at hpeer
    cases hpeer

theorem fresh_erasePeer (hstored : ∀ peer, o.stored = some peer → peer ∈ (memory boot o).saved)
    (hempty : (memory boot o).Empty) (eraseOk : Bool) :
    (memory boot (erasePeer eraseOk o)).Fresh := by
  refine Memory.Empty.fresh ⟨hempty.last, ?_⟩ ?_
  · exact (seen_record boot o (.erasePeer eraseOk)).trans hempty.seen
  · cases eraseOk with
    | false =>
      intro peer hpeer
      rw [show (memory boot (erasePeer false o)).saved = (memory boot o).saved from
        saved_record boot o (.erasePeer false)]
      exact hstored peer hpeer
    | true =>
      intro peer hpeer
      cases hpeer

/-- Nothing is remembered once a forget has begun. -/
theorem fresh_beginForget (h : (memory boot o).Fresh) (a : Answers) :
    (memory boot (beginForget a o)).Fresh := by
  have hsame : memory boot (scanMode (disconnect a.link (markForgetting o))) =
      memory boot (markForgetting o) := by
    rw [memory_scanMode, memory_disconnect]
  have hempty := empty_markForgetting boot o
  have hstored : ∀ peer, (memory boot (markForgetting o)).stored = some peer →
      peer ∈ (memory boot (markForgetting o)).saved := by
    intro peer hpeer
    rw [show (memory boot (markForgetting o)).saved = (memory boot o).saved from
      saved_record boot o .forget]
    exact h.stored peer hpeer
  unfold beginForget nvsForgetPeer
  split
  · rw [hsame]
    exact hempty.fresh hstored
  · rw [memory_record]
    rw [← hsame] at hempty hstored
    exact fresh_erasePeer hstored hempty a.eraseOk

theorem fresh_linkUp (h : (memory boot o).Fresh) (a : TickAnswers) :
    (memory boot (linkUp a o)).Fresh := by
  have hsame : memory boot (linkUp a o) = { memory boot o with
      lastPeer := some a.link.peer
      seen := a.link.peer :: (memory boot o).seen
      saved := a.link.peer :: (memory boot o).saved } := by
    have hrecord := memory_record boot o (.linkUp a.link.peer)
    unfold linkUp
    rw [memory_refreshBonds]
    exact congrArg (fun m : Memory => { m with lastPeer := some a.link.peer }) hrecord
  rw [hsame]
  refine ⟨?_, ?_, ?_⟩
  · intro peer hpeer
    rw [Option.some.inj hpeer]
    exact List.mem_cons_self
  · intro peer hpeer
    exact List.mem_cons_of_mem _ (h.stored peer hpeer)
  · intro peer hpeer
    rcases List.mem_cons.mp hpeer with rfl | hold
    · exact List.mem_cons_self
    · exact List.mem_cons_of_mem _ (h.later peer hold)

theorem fresh_handleEvent (h : (memory boot o).Fresh) (a : Answers) (event : Event) :
    (memory boot (handleEvent a event o)).Fresh := by
  unfold handleEvent
  rw [memory_publish]
  cases event with
  | command command extra =>
    cases command with
    | forget => exact fresh_beginForget h a
    | status => exact h
    | volume | mute | disconnect => simpa [eventBranch, handleCommand] using h
    | pair | reconnect =>
      simp only [eventBranch, handleCommand]
      split
      · rw [memory_startPairing]
        exact h
      · exact h
  | auth value peer =>
    simp only [eventBranch, onAuth, memory_refreshBonds]
    split
    · exact fresh_beginForget h a
    · exact h
  | tgLink => exact h
  | ctLink | volume | volumeSubscribe | caps | track | playStatus | position | bondRemoved =>
    simpa [eventBranch] using h

theorem fresh_tick (h : (memory boot o).Fresh) (a : TickAnswers) (overflow : Bool) :
    (memory boot (tick a overflow o)).Fresh := by
  have hwatch : (memory boot (watchLink a o)).Fresh := by
    unfold watchLink
    split
    · rw [memory_scanMode]
      split
      · apply fresh_linkUp
        exact h
      · exact h
    · exact h
  have hsaved : (memory boot (nvsTick a.now a.setOk
      (gapTick a (storeStreaming a (watchLink a o))))).Fresh := by
    apply fresh_nvsTick
    rw [memory_gapTick]
    exact hwatch
  unfold tick
  rw [memory_publish]
  split
  · rw [show ∀ o, memory boot (resync a.overflowLink o) = memory boot o from
      fun o => memory_disconnect boot o a.overflowLink]
    exact hsaved
  · exact hsaved

theorem fresh_ownerStep {o' : Owner} (h : (memory boot o).Fresh) {action : Action}
    (hstep : OwnerStep o action o') :
    (memory boot o').Fresh := by
  cases hstep with
  | stay => exact h
  | event a event hfits => exact fresh_handleEvent h a event
  | text id i b => exact h
  | publish => exact h
  | tick a overflow => exact fresh_tick h a overflow

end MemorySteps

theorem fresh_speakerStart (stored : Option Peer) (opened getOk : Bool) :
    (memory stored (speakerStart stored opened getOk)).Fresh := by
  have hseen : (memory stored (speakerStart stored opened getOk)).seen = stored.toList := by
    cases opened <;> rfl
  have hsaved : (memory stored (speakerStart stored opened getOk)).saved = stored.toList := by
    cases opened <;> rfl
  refine ⟨?_, ?_, ?_⟩
  · intro peer hpeer
    rw [hseen]
    cases opened with
    | false => cases hpeer
    | true =>
      cases getOk with
      | false => cases hpeer
      | true =>
        cases stored with
        | none => cases hpeer
        | some boot =>
          obtain rfl : boot = peer := Option.some.inj hpeer
          exact List.mem_singleton_self boot
  · intro peer hpeer
    rw [hsaved]
    have hkept : (speakerStart stored opened getOk).stored = stored := by
      cases opened <;> rfl
    rw [show stored = some peer from hkept.symm.trans hpeer]
    exact List.mem_singleton_self peer
  · rw [hseen, hsaved]
    exact fun peer hpeer => hpeer

/-- In every run, the peer that is remembered, the one that a save would put into the settings, is
one whose link came up since the last forget; and the peer in the settings is one whose link came up
since the last erasure. Before any forget it may be the peer of the last start. -/
theorem stored_peer_fresh {κ : Type} (lib : EventQueue κ) (stored : Option Peer)
    (opened getOk : Bool) (actions : List Action) :
    let o := (systemRun lib (systemStart lib stored opened getOk) actions).owner
    (o.speaker.havePeer = true →
        o.speaker.lastPeer ∈ o.history.foldl sinceForget stored.toList) ∧
      ∀ peer, o.stored = some peer → peer ∈ o.history.foldl sinceErased stored.toList := by
  intro o
  have hfresh : (memory stored o).Fresh := by
    rcases owner_law lib stored opened getOk
      (I := fun o => (memory stored o).Fresh) (fun list => by
        unfold controlStart
        rw [memory_scanMode, memory_refreshBonds]
        exact fresh_speakerStart stored opened getOk)
      (fun _ _ _ h hstep => fresh_ownerStep h hstep) actions with ⟨-, ⟨-, hstart⟩ | ⟨-, hlaw⟩⟩
    · rw [show o = _ from hstart]
      exact fresh_speakerStart stored opened getOk
    · exact hlaw
  refine ⟨?_, hfresh.stored⟩
  intro hhave
  apply hfresh.last
  simp [memory, hhave]

/-! ## A forget that goes on -/

/-- A tick that ends a forget: it sees no link and no bond. -/
def endsForget : Action → Bool
  | .tick a => !a.gapLink.connected && !a.gapLink.connecting && decide (a.bondNum = 0)
  | _ => false

/-- A forget goes on, and the settings hold what they held, or nothing. -/
structure Forgets (kept : Option Peer) (o : Owner) : Prop where
  forgetting : (policy o).forgetting = true
  stored : (memory none o).stored = kept ∨ (memory none o).stored = none

section Forgets

variable {kept : Option Peer} {o : Owner}

theorem forgets_of_same {o' : Owner} (h : Forgets kept o)
    (hpolicy : (policy o').forgetting = (policy o).forgetting)
    (hmemory : (memory none o').stored = (memory none o).stored) : Forgets kept o' := by
  refine ⟨hpolicy.trans h.forgetting, ?_⟩
  rw [hmemory]
  exact h.stored

theorem forgets_scanMode (h : Forgets kept o) : Forgets kept (scanMode o) :=
  forgets_of_same h rfl rfl

theorem forgets_disconnect (h : Forgets kept o) (link : LinkStatus) :
    Forgets kept (disconnect link o) :=
  forgets_of_same h (by rw [policy_disconnect]) (by rw [memory_disconnect])

theorem forgets_beginForget (h : Forgets kept o) (a : Answers) :
    Forgets kept (beginForget a o) := by
  have hmark : Forgets kept (markForgetting o) := ⟨rfl, h.stored⟩
  have hscan := forgets_scanMode (forgets_disconnect hmark a.link)
  unfold beginForget nvsForgetPeer
  split
  · exact hscan
  · refine ⟨hscan.forgetting, ?_⟩
    rw [memory_record]
    cases a.eraseOk with
    | false => exact hscan.stored
    | true => exact .inr rfl

theorem forgets_handleEvent (h : Forgets kept o) (a : Answers) (event : Event) :
    Forgets kept (handleEvent a event o) := by
  unfold handleEvent
  suffices hbranch : Forgets kept (eventBranch a event o) from forgets_of_same hbranch rfl rfl
  have hflag : o.speaker.forgetting = true := h.forgetting
  cases event with
  | command command extra =>
    cases command with
    | status => exact h
    | forget => exact forgets_beginForget h a
    | disconnect => exact forgets_scanMode (forgets_disconnect h a.link)
    | pair | reconnect => simpa [eventBranch, handleCommand, hflag] using h
    | volume | mute =>
      apply forgets_of_same h
      · simp [eventBranch, handleCommand]
      · simp [eventBranch, handleCommand]
  | auth value peer =>
    have hauth : Forgets kept (if staleBond value peer o then beginForget a o else o) := by
      split
      · exact forgets_beginForget h a
      · exact h
    apply forgets_of_same hauth
    · simp [eventBranch, onAuth]
    · simp [eventBranch, onAuth]
  | tgLink value => exact forgets_of_same h rfl rfl
  | ctLink | volume | volumeSubscribe | caps | track | playStatus | position | bondRemoved =>
    apply forgets_of_same h
    · simp [eventBranch]
    · simp [eventBranch]

/-- The settings are not written while a forget goes on. -/
theorem forgets_nvsTick (h : Forgets kept o) (now : Int) (setOk : Bool) :
    Forgets kept (nvsTick now setOk o) := by
  have hflag : o.speaker.forgetting = true := h.forgetting
  unfold nvsTick saveSettings
  split
  · split
    · exact h
    · simp only [hflag, Bool.not_true, Bool.and_false, Bool.false_eq_true, if_false]
      exact forgets_of_same h rfl rfl
  · exact h

theorem forgets_watchLink (h : Forgets kept o) (a : TickAnswers) :
    Forgets kept (watchLink a o) := by
  unfold watchLink
  split
  · apply forgets_scanMode
    split
    · refine forgets_of_same h ?_ ?_
      · rw [linkUp, policy_refreshBonds]
        rfl
      · rw [linkUp, memory_refreshBonds]
        rfl
    · exact forgets_of_same h rfl rfl
  · exact h

theorem forgets_gapTick (h : Forgets kept o) {a : TickAnswers}
    (hgoes : endsForget (.tick a) = false) : Forgets kept (gapTick a o) := by
  have hflag : o.speaker.forgetting = true := h.forgetting
  unfold gapTick
  split
  · rename_i hdown
    have hbonds : a.bondNum ≠ 0 := by
      intro hzero
      simp_all [endsForget]
    rw [if_neg hbonds]
    split
    · apply forgets_of_same h
      · exact congrArg Policy.forgetting (policy_removeFirst o a.firstBond)
      · exact congrArg Memory.stored (memory_removeFirst none o a.firstBond)
    · exact h
  · exact h

theorem forgets_tick (h : Forgets kept o) {a : TickAnswers}
    (hgoes : endsForget (.tick a) = false) (overflow : Bool) :
    Forgets kept (tick a overflow o) := by
  have hgap : Forgets kept (gapTick a (storeStreaming a (watchLink a o))) := by
    apply forgets_gapTick _ hgoes
    exact forgets_of_same (forgets_watchLink h a) rfl rfl
  have hsaved := forgets_nvsTick hgap a.now a.setOk
  unfold tick
  suffices hlast : Forgets kept (if overflow then resync a.overflowLink
      (nvsTick a.now a.setOk (gapTick a (storeStreaming a (watchLink a o))))
      else nvsTick a.now a.setOk (gapTick a (storeStreaming a (watchLink a o)))) from
    forgets_of_same hlast rfl rfl
  split
  · exact forgets_of_same (forgets_disconnect hsaved a.overflowLink) rfl rfl
  · exact hsaved

theorem forgets_ownerStep {action : Action} {o' : Owner} (hgoes : endsForget action = false)
    (h : Forgets kept o) (hstep : OwnerStep o action o') : Forgets kept o' := by
  cases hstep with
  | stay => exact h
  | event a event hfits => exact forgets_handleEvent h a event
  | text id i b =>
    refine forgets_of_same h ?_ rfl
    rw [policy_setTextByte]
  | publish => exact forgets_of_same h rfl rfl
  | tick a overflow => exact forgets_tick h hgoes overflow

end Forgets

/-- A forget goes on until a tick sees neither a link nor a bond. Until then no new peer may pair,
and nothing goes to the settings. -/
theorem forget_holds {κ : Type} (lib : EventQueue κ) (stored : Option Peer) (opened getOk : Bool)
    (before after : List Action)
    (hstarted : (systemRun lib (systemStart lib stored opened getOk) before).task ≠ .starting)
    (hforgets :
      (systemRun lib (systemStart lib stored opened getOk) before).owner.speaker.forgetting = true)
    (hgoes : ∀ action ∈ after, endsForget action = false) :
    let s := systemRun lib (systemStart lib stored opened getOk) before
    let t := systemRun lib (systemStart lib stored opened getOk) (before ++ after)
    t.owner.speaker.forgetting = true ∧ t.owner.speaker.status.pairing = false ∧
      t.owner.allowPairing = false ∧ (t.owner.stored = s.owner.stored ∨ t.owner.stored = none) := by
  intro s t
  have hrun : t = systemRun lib s after := by
    simp only [t, s, systemRun, List.foldl_append]
  have hsane : Sane lib s := (owner_law lib stored opened getOk (I := fun _ => True)
    (fun _ => trivial) (fun _ _ _ _ _ => trivial) before).1
  obtain ⟨-, hend⟩ := owner_run lib (I := Forgets s.owner.stored)
    (P := fun action => endsForget action = false) hsane hstarted ⟨hforgets, .inl rfl⟩
    (fun _ _ _ hgoes h hstep => forgets_ownerStep hgoes h hstep) after hgoes
  rw [← hrun] at hend
  obtain ⟨hpairing, hallow, -⟩ := policy_run lib stored opened getOk (before ++ after)
  have hclosed : isOpen t = false := by
    have hflag : t.owner.speaker.forgetting = true := hend.forgetting
    simp [isOpen, hflag]
  exact ⟨hend.forgetting, hpairing.trans hclosed, hallow.trans hclosed, hend.stored⟩

/-- A queue of 32 places. -/
def listQueue : EventQueue (List Item) where
  created := []
  send item queue := if queue.length < 32 then some (queue ++ [item]) else none
  receive
    | [] => none
    | item :: queue => some (item, queue)
  items := id
  created_items := rfl
  send_items := by
    intro item q q' h
    split at h
    · exact (Option.some.inj h).symm
    · cases h
  receive_items := by
    intro q item q' h
    cases q with
    | nil => cases h
    | cons first rest =>
      cases h
      rfl

/-- The bits of the notifications that a peer offers. -/
def rnMaskTest : BitMaskTest := fun capabilities event => capabilities.toNat.testBit event.id

/-- A forget that is asked for while a link is up goes on over a tick. -/
theorem forget_holds_over_link :
    let down : LinkStatus := ⟨.replicate _ 0, true, false, false, false⟩
    let up : LinkStatus := ⟨.replicate _ 7, true, true, false, false⟩
    let tick (link : LinkStatus) : Action :=
      .tick ⟨0, link, 0, none, link, 0, none, link, none, true, link⟩
    let before : List Action := [.start none, .receive ⟨0, down, true, none, rnMaskTest⟩, tick up,
      .command .forget 0, .receive ⟨0, up, true, none, rnMaskTest⟩]
    let t := systemRun listQueue (systemStart listQueue none true true) (before ++ [tick up])
    t.owner.speaker.forgetting = true ∧ t.owner.speaker.status.pairing = false ∧
      t.owner.allowPairing = false := by
  intro down up tick before t
  have hholds := forget_holds listQueue none true true before [tick up] (by decide) (by decide) (by
    intro action haction
    obtain rfl := List.mem_singleton.mp haction
    rfl)
  exact ⟨hholds.1, hholds.2.1, hholds.2.2.1⟩

end EmbeddedAudio.Speaker
