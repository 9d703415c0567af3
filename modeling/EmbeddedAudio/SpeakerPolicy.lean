-- Who may pair with the Bluetooth speaker, over every run of its tasks, in any order of their
-- steps.
import EmbeddedAudio.SpeakerTasks

namespace EmbeddedAudio.Speaker

/-! ## What pairing depends on -/

/-- The scan mode that a record leaves behind. -/
def scanOf (scan : Option (Bool × Bool)) : Record → Option (Bool × Bool)
  | .setScanMode connectable discoverable => some (connectable, discoverable)
  | _ => scan

/-- The part of the owner's state that decides about pairing. `scan` is the scan mode of the
stack. -/
structure Policy where
  connected : Bool
  pairing : Bool
  forgetting : Bool
  allowPairing : Bool
  scan : Option (Bool × Bool)

def policy (o : Owner) : Policy where
  connected := o.speaker.status.connected
  pairing := o.speaker.status.pairing
  forgetting := o.speaker.forgetting
  allowPairing := o.allowPairing
  scan := o.history.foldl scanOf none

/-- The speaker is open to a new peer, as the status, the callbacks and the stack know it, when it
has no peer and forgets none, and at no other time. -/
structure Policy.Settled (p : Policy) : Prop where
  pairing : p.pairing = (!p.connected && !p.forgetting)
  allow : p.allowPairing = p.pairing
  scan : p.scan = some (p.pairing, p.pairing)

section PolicyFrames

variable (o : Owner)

@[simp] theorem policy_record (r : Record) :
    policy (o.record r) = { policy o with scan := scanOf (policy o).scan r } := by
  simp [policy, Owner.record]

@[simp] theorem policy_publish : policy (publish o) =
    { policy o with allowPairing := (policy o).pairing && !(policy o).forgetting } := rfl

@[simp] theorem policy_avrcpClearTrack : policy (avrcpClearTrack o) = policy o := rfl

@[simp] theorem policy_avrcpRequestTrack : policy (avrcpRequestTrack o) = policy o := by
  unfold avrcpRequestTrack
  split
  · rfl
  · simp [scanOf]

@[simp] theorem policy_avrcpSubscribe (capable : BitMaskTest) (event : RnEvent)
    (label : UInt8) :
    policy (avrcpSubscribe capable event label o) = policy o := by
  unfold avrcpSubscribe
  split
  · simp [scanOf]
  · rfl

@[simp] theorem policy_avrcpVolumeReply (response : RnResponse) :
    policy (avrcpVolumeReply response o) = policy o := by
  simp [avrcpVolumeReply, scanOf]

@[simp] theorem policy_disconnect (link : LinkStatus) : policy (disconnect link o) = policy o := by
  unfold disconnect
  split
  · simp [scanOf]
  · rfl

@[simp] theorem policy_nvsTouch (now : Int) : policy (nvsTouch now o) = policy o := rfl

@[simp] theorem policy_nvsForgetPeer (eraseOk : Bool) :
    policy (nvsForgetPeer eraseOk o) = policy o := by
  unfold nvsForgetPeer
  split
  · rfl
  · simp [policy, Owner.record, erasePeer, scanOf]

@[simp] theorem policy_nvsTick (now : Int) (setOk : Bool) :
    policy (nvsTick now setOk o) = policy o := by
  unfold nvsTick saveSettings
  split
  · split
    · rfl
    · split <;> simp [policy, Owner.record, setPeer, commitSettings, scanOf]
  · rfl

@[simp] theorem policy_refreshBonds (list : Option BondList) :
    policy (refreshBonds list o) = policy o := by
  cases list <;> rfl

@[simp] theorem policy_removeFirst (list : Option BondList) :
    policy (removeFirst list o) = policy o := by
  unfold removeFirst
  split
  · simp [scanOf]
  · rfl

@[simp] theorem policy_storeVolume (value : UInt32) (muted : Bool) :
    policy (storeVolume value muted o) =
      { policy o with allowPairing := (policy o).pairing && !(policy o).forgetting } := rfl

@[simp] theorem policy_notifyVolume (before : UInt8) (value : UInt32) (muted remote : Bool) :
    policy (notifyVolume before value muted remote o) = policy o := by
  unfold notifyVolume
  split
  · exact policy_avrcpVolumeReply o .changed
  · rfl

@[simp] theorem policy_setVolume (now : Int) (value : UInt32) (muted remote : Bool) :
    policy (setVolume now value muted remote o) =
      { policy o with allowPairing := (policy o).pairing && !(policy o).forgetting } := by
  unfold setVolume
  cases remote <;> simp [scanOf]

@[simp] theorem policy_onVolumeSubscribe : policy (onVolumeSubscribe o) = policy o := by
  unfold onVolumeSubscribe
  split
  · rw [policy_avrcpVolumeReply]
    rfl
  · rfl

@[simp] theorem policy_onCtLink (value : UInt32) : policy (onCtLink value o) = policy o := by
  unfold onCtLink
  dsimp only
  split
  · rw [policy_avrcpRequestTrack, policy_record]
    rfl
  · rfl

@[simp] theorem policy_onCaps (capable : BitMaskTest) (value : UInt32) :
    policy (onCaps capable value o) = policy o := by
  simp only [onCaps, policy_avrcpSubscribe]
  rfl

@[simp] theorem policy_onPlayStatus (capable : BitMaskTest) (value extra : UInt32) :
    policy (onPlayStatus capable value extra o) = policy o := by
  have hstore : policy (storePlayback value o) = policy o := by
    unfold storePlayback
    split <;> rfl
  unfold onPlayStatus
  split
  · rw [policy_avrcpSubscribe, hstore]
  · exact hstore

@[simp] theorem policy_onPosition (capable : BitMaskTest) (value extra : UInt32) :
    policy (onPosition capable value extra o) = policy o := by
  have hstore : policy (storePosition value extra o) = policy o := by
    unfold storePosition
    split <;> rfl
  unfold onPosition
  split
  · rw [policy_avrcpSubscribe, hstore]
  · exact hstore

@[simp] theorem policy_resync (link : LinkStatus) : policy (resync link o) = policy o :=
  policy_disconnect o link

@[simp] theorem policy_setTextByte (id : MdAttr) (i : Nat) (b : UInt8) :
    policy (o.setTextByte id i b) = policy o := by
  cases id <;> rfl

end PolicyFrames

section PolicySteps

variable {o : Owner}

theorem settled_scanMode (o : Owner) : (policy (scanMode o)).Settled := by
  refine ⟨?_, ?_, ?_⟩
  · rfl
  · simp [scanMode, policy, publish, Owner.record]
  · simp [scanMode, policy, publish, Owner.record, scanOf]

theorem settled_publish (h : (policy o).Settled) : (policy (publish o)).Settled := by
  obtain ⟨hpairing, hallow, hscan⟩ := h
  refine ⟨hpairing, ?_, hscan⟩
  simp [hpairing]

theorem settled_beginForget (a : Answers) (o : Owner) : (policy (beginForget a o)).Settled := by
  unfold beginForget
  rw [policy_nvsForgetPeer]
  apply settled_scanMode

theorem settled_setVolume (h : (policy o).Settled) (now : Int) (value : UInt32)
    (muted remote : Bool) : (policy (setVolume now value muted remote o)).Settled := by
  rw [policy_setVolume]
  exact settled_publish h

theorem settled_handleCommand (h : (policy o).Settled) (a : Answers) (command : Command)
    (extra : UInt32) : (policy (handleCommand a command extra o)).Settled := by
  cases command with
  | status => exact h
  | volume => exact settled_setVolume h ..
  | mute => exact settled_setVolume h ..
  | pair | reconnect =>
    simp only [handleCommand]
    split
    · apply settled_scanMode
    · exact h
  | disconnect => apply settled_scanMode
  | forget => apply settled_beginForget

/-- An event keeps the law. -/
theorem settled_handleEvent (h : (policy o).Settled) (a : Answers) (event : Event) :
    (policy (handleEvent a event o)).Settled := by
  apply settled_publish
  cases event with
  | command command extra => exact settled_handleCommand h ..
  | tgLink value => exact h
  | volume value => exact settled_setVolume h ..
  | auth value peer =>
    simp only [eventBranch, onAuth, policy_refreshBonds]
    split
    · apply settled_beginForget
    · exact h
  | ctLink | volumeSubscribe | caps | track | playStatus | position | bondRemoved =>
    simpa [eventBranch] using h

theorem settled_gapTick (h : (policy o).Settled) (a : TickAnswers) :
    (policy (gapTick a o)).Settled := by
  unfold gapTick
  split
  · split
    · apply settled_scanMode
    · split
      · rw [← policy_removeFirst o a.firstBond] at h
        exact h
      · exact h
  · exact h

theorem settled_watchLink (h : (policy o).Settled) (a : TickAnswers) :
    (policy (watchLink a o)).Settled := by
  unfold watchLink
  split
  · apply settled_scanMode
  · exact h

/-- A tick keeps the law. -/
theorem settled_tick (h : (policy o).Settled) (a : TickAnswers) (overflow : Bool) :
    (policy (tick a overflow o)).Settled := by
  have hgap : (policy (gapTick a (storeStreaming a (watchLink a o)))).Settled := by
    apply settled_gapTick
    exact settled_watchLink h a
  unfold tick
  apply settled_publish
  split
  · rw [policy_resync, policy_nvsTick]
    exact hgap
  · rw [policy_nvsTick]
    exact hgap

theorem settled_ownerStep {o' : Owner} (h : (policy o).Settled) {action : Action}
    (hstep : OwnerStep o action o') :
    (policy o').Settled := by
  cases hstep with
  | stay => exact h
  | event a event hfits => exact settled_handleEvent h a event
  | text id i b =>
    rw [policy_setTextByte]
    exact h
  | publish => exact settled_publish h
  | tick a overflow => exact settled_tick h a overflow

end PolicySteps

/-! ## The law of pairing -/

theorem foldl_allowed (peer : Peer) (bonds : List Peer) (allow : Bool) :
    bonds.foldl (fun allowed bond => allowed || decide (bond = peer)) allow =
      (allow || decide (peer ∈ bonds)) := by
  induction bonds generalizing allow with
  | nil => simp
  | cons bond bonds ih =>
    rw [List.foldl_cons, ih, Bool.or_assoc]
    congr 1
    rw [← Bool.decide_or, decide_eq_decide, List.mem_cons]
    exact or_congr_left eq_comm

theorem policy_speakerStart (stored : Option Peer) (opened getOk : Bool) :
    policy (speakerStart stored opened getOk) = ⟨false, false, false, false, none⟩ := by
  cases opened <;> rfl

/-- The task is in its loop, and the speaker has no peer and forgets none. -/
def isOpen {κ : Type} (s : System κ) : Bool :=
  decide (s.task ≠ .starting) && !s.owner.speaker.status.connected && !s.owner.speaker.forgetting

theorem policy_run {κ : Type} (lib : EventQueue κ) (stored : Option Peer) (opened getOk : Bool)
    (actions : List Action) :
    let s := systemRun lib (systemStart lib stored opened getOk) actions
    (policy s.owner).pairing = isOpen s ∧ (policy s.owner).allowPairing = isOpen s ∧
      (policy s.owner).scan =
        if s.task = .starting then none else some (isOpen s, isOpen s) := by
  intro s
  have hlaw := owner_law lib stored opened getOk
    (I := fun o => (policy o).Settled) (fun list => settled_scanMode _)
    (fun _ _ _ h hstep => settled_ownerStep h hstep) actions
  rcases hlaw.2 with ⟨htask, howner⟩ | ⟨htask, hpairing, hallow, hscan⟩
  · have hclosed : isOpen s = false := by simp [isOpen, s, htask]
    rw [hclosed, if_pos htask, howner, policy_speakerStart]
    exact ⟨rfl, rfl, rfl⟩
  · have hopen : isOpen s = (policy s.owner).pairing := by
      rw [hpairing]
      simp [isOpen, s, htask, policy]
    rw [hopen, if_neg htask]
    exact ⟨rfl, hallow, hscan⟩

/-- In every run the status, the callbacks and the stack agree on who may pair: a new peer, when
the speaker has no peer and forgets none, and else a peer with a bond only. -/
theorem pairing_open {κ : Type} (lib : EventQueue κ) (stored : Option Peer) (opened getOk : Bool)
    (actions : List Action) :
    let s := systemRun lib (systemStart lib stored opened getOk) actions
    s.owner.speaker.status.pairing = isOpen s ∧ s.owner.allowPairing = isOpen s ∧
      s.owner.history.foldl scanOf none =
        (if s.task = .starting then none else some (isOpen s, isOpen s)) ∧
      ∀ min16Digit peer, (startCallback (.pinRequest min16Digit peer) s).replies = s.replies ++
        [.pin peer (!min16Digit && (isOpen s || decide (peer ∈ s.owner.bonds.val)))] := by
  intro s
  obtain ⟨hpairing, hallow, hscan⟩ := policy_run lib stored opened getOk actions
  refine ⟨hpairing, hallow, hscan, ?_⟩
  intro min16Digit peer
  simp only [startCallback, pairingAllowed]
  rw [foldl_allowed]
  rw [show s.owner.allowPairing = isOpen s from hallow]

end EmbeddedAudio.Speaker
