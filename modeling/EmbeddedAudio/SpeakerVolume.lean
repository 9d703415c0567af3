-- What the peer of the Bluetooth speaker hears of the volume, and what the audio task reads
-- of it, over every run of the tasks.
import EmbeddedAudio.SpeakerTasks

namespace EmbeddedAudio.Speaker

/-! ## The peer's side -/

/-- What the peer knows: the volume it was told last, or has set last; whether it waits for a change,
as it does from an interim response on; and whether it was told of one without waiting. -/
structure Monitor where
  heard : Option UInt8
  waits : Bool
  broken : Bool
  deriving DecidableEq

def hear (m : Monitor) : Record → Monitor
  | .volumeResponse .interim volume => { m with heard := some volume, waits := true }
  | .volumeResponse .changed volume =>
    { heard := some volume, waits := false, broken := m.broken || !m.waits }
  | .remoteVolume volume => { m with heard := some volume }
  | _ => m

/-- What the peer knows at the end of a history. -/
def hearAll (history : List Record) : Monitor := history.foldl hear ⟨none, false, false⟩

/-- What `speaker_audio_level` gives for a volume and a mute. -/
def packLevel (volume : UInt8) (muted : Bool) : UInt32 :=
  volume.toUInt32 ||| (if muted then 128 else 0)

/-- The part of the owner's state that is about the volume. -/
structure Loudness where
  tgConnected : Bool
  subscribed : Bool
  volume : UInt8
  muted : Bool
  level : UInt32
  monitor : Monitor

def loudness (o : Owner) : Loudness where
  tgConnected := o.speaker.tgConnected
  subscribed := o.speaker.volumeSubscribed
  volume := o.speaker.status.volume
  muted := o.speaker.status.muted
  level := o.audioLevel
  monitor := hearAll o.history

/-- A peer that has subscribed waits for a change and knows the volume; it was never told of a
change without waiting; and the audio task reads the volume that the status has. -/
structure Loudness.Told (v : Loudness) : Prop where
  level : v.level = packLevel v.volume v.muted
  fits : v.volume ≤ 127
  unbroken : v.monitor.broken = false
  heard : v.subscribed = true → v.tgConnected = true ∧ v.monitor.waits = true ∧
    v.monitor.heard = some (if v.muted then 0 else v.volume)

/-- The audio level is stored anew. -/
def Loudness.stored (v : Loudness) : Loudness := { v with level := packLevel v.volume v.muted }

theorem Loudness.Told.stored_eq {v : Loudness} (h : v.Told) : v.stored = v := by
  cases v
  simp only [Loudness.stored, ← h.level]

/-! ## What leaves the volume alone -/

section LoudnessFrames

variable (o : Owner)

@[simp] theorem loudness_record (r : Record) : loudness (o.record r) =
    { loudness o with monitor := hear (loudness o).monitor r } := by
  simp only [loudness, hearAll, Owner.record, List.foldl_append, List.foldl_cons, List.foldl_nil]

@[simp] theorem loudness_publish : loudness (publish o) = (loudness o).stored := rfl

@[simp] theorem loudness_scanMode : loudness (scanMode o) = (loudness o).stored := by
  simp only [scanMode, loudness_publish]
  exact congrArg Loudness.stored (loudness_record o _)

@[simp] theorem loudness_disconnect (link : LinkStatus) :
    loudness (disconnect link o) = loudness o := by
  unfold disconnect
  split
  · apply loudness_record
  · rfl

@[simp] theorem loudness_startPairing (link : LinkStatus) :
    loudness (startPairing link o) = (loudness o).stored := by
  simp [startPairing]

@[simp] theorem loudness_avrcpClearTrack : loudness (avrcpClearTrack o) = loudness o := rfl

@[simp] theorem loudness_avrcpRequestTrack : loudness (avrcpRequestTrack o) = loudness o := by
  unfold avrcpRequestTrack
  split
  · rfl
  · simp [hear]

@[simp] theorem loudness_avrcpSubscribe (capable : BitMaskTest) (event : RnEvent)
    (label : UInt8) :
    loudness (avrcpSubscribe capable event label o) = loudness o := by
  unfold avrcpSubscribe
  split
  · apply loudness_record
  · rfl

@[simp] theorem loudness_refreshBonds (list : Option BondList) :
    loudness (refreshBonds list o) = loudness o := by
  cases list <;> rfl

@[simp] theorem loudness_removeFirst (list : Option BondList) :
    loudness (removeFirst list o) = loudness o := by
  unfold removeFirst
  split
  · apply loudness_record
  · rfl

@[simp] theorem loudness_nvsTick (now : Int) (setOk : Bool) :
    loudness (nvsTick now setOk o) = loudness o := by
  have hset : loudness (setPeer setOk o) = loudness o := loudness_record o (.setPeer _ setOk)
  have hcommit : ∀ o, loudness (commitSettings o) = loudness o :=
    fun o => loudness_record o .commit
  unfold nvsTick saveSettings
  split
  · split
    · rfl
    · rw [hcommit]
      split
      · exact hset
      · rfl
  · rfl

@[simp] theorem loudness_beginForget (a : Answers) :
    loudness (beginForget a o) = (loudness o).stored := by
  have hmark : loudness (markForgetting o) = loudness o := loudness_record o .forget
  have hscan : loudness (scanMode (disconnect a.link (markForgetting o))) =
      (loudness o).stored := by
    rw [loudness_scanMode, loudness_disconnect, hmark]
  have herase : ∀ o, loudness (erasePeer a.eraseOk o) = loudness o :=
    fun o => loudness_record o (.erasePeer a.eraseOk)
  unfold beginForget nvsForgetPeer
  split
  · exact hscan
  · rw [loudness_record, herase]
    exact hscan

@[simp] theorem loudness_onCtLink (value : UInt32) : loudness (onCtLink value o) = loudness o := by
  unfold onCtLink
  dsimp only
  split
  · rw [loudness_avrcpRequestTrack, loudness_record]
    rfl
  · rfl

@[simp] theorem loudness_onCaps (capable : BitMaskTest) (value : UInt32) :
    loudness (onCaps capable value o) = loudness o := by
  simp only [onCaps, loudness_avrcpSubscribe]
  rfl

@[simp] theorem loudness_onPlayStatus (capable : BitMaskTest) (value extra : UInt32) :
    loudness (onPlayStatus capable value extra o) = loudness o := by
  unfold onPlayStatus storePlayback
  simp only [apply_ite loudness, loudness_avrcpSubscribe]
  split <;> split <;> rfl

@[simp] theorem loudness_onPosition (capable : BitMaskTest) (value extra : UInt32) :
    loudness (onPosition capable value extra o) = loudness o := by
  unfold onPosition storePosition
  simp only [apply_ite loudness, loudness_avrcpSubscribe]
  split <;> split <;> rfl

@[simp] theorem loudness_setTextByte (id : MdAttr) (i : Nat) (b : UInt8) :
    loudness (o.setTextByte id i b) = loudness o := by
  cases id <;> rfl

end LoudnessFrames

/-! ## The steps -/

section LoudnessSteps

variable {o : Owner}

theorem told_stored (h : (loudness o).Told) : (loudness o).stored.Told := by
  rw [h.stored_eq]
  exact h

theorem told_publish (h : (loudness o).Told) : (loudness (publish o)).Told := by
  rw [loudness_publish]
  exact told_stored h

/-- A subscription is answered with the volume. -/
theorem told_onVolumeSubscribe (h : (loudness o).Told) : (loudness (onVolumeSubscribe o)).Told := by
  unfold onVolumeSubscribe avrcpVolumeReply
  split
  · rename_i hlink
    rw [loudness_record]
    exact ⟨h.level, h.fits, h.unbroken, fun _ => ⟨hlink, rfl, rfl⟩⟩
  · exact h

theorem loudness_storeVolume (value : UInt32) (muted : Bool) (o : Owner) :
    loudness (storeVolume value muted o) =
      { loudness o with
        volume := value.toUInt8
        muted := muted
        level := packLevel value.toUInt8 muted } := rfl

theorem toUInt8_le {value : UInt32} (hfits : value ≤ 127) : value.toUInt8 ≤ 127 := by
  rw [UInt8.le_iff_toNat_le, UInt32.toNat_toUInt8]
  have hle := UInt32.le_iff_toNat_le.mp hfits
  exact Nat.le_trans (Nat.mod_le _ _) hle

/-- A remote change is known to the peer, which has made it. -/
theorem told_remote (h : (loudness o).Told) {value : UInt32} (hfits : value ≤ 127) (now : Int) :
    (loudness (setVolume now value false true o)).Told := by
  have hset : loudness (setVolume now value false true o) =
      { loudness (storeVolume value false o) with
        monitor := hear (loudness o).monitor (.remoteVolume value.toUInt8) } :=
    loudness_record (storeVolume value false o) (.remoteVolume value.toUInt8)
  rw [hset, loudness_storeVolume]
  refine ⟨rfl, toUInt8_le hfits, h.unbroken, ?_⟩
  intro hsubscribed
  obtain ⟨hlink, hwaits, -⟩ := h.heard hsubscribed
  exact ⟨hlink, hwaits, rfl⟩

/-- A change that the peer could not hear leaves the volume that it hears. -/
theorem heard_of_still {before : UInt8} {value : UInt32} {muted : Bool}
    (h : volumeMoved before value muted = false) :
    (if muted then 0 else value.toUInt8) = before := by
  have heq : before.toUInt32 = if muted then 0 else value := by
    simpa [volumeMoved] using h
  have hback := congrArg UInt32.toUInt8 heq
  rw [UInt8.toUInt8_toUInt32] at hback
  rw [hback]
  cases muted <;> rfl

/-- A local change is told to a peer that waits for it, unless it cannot be heard. -/
theorem told_local (h : (loudness o).Told) {value : UInt32} (hfits : value ≤ 127) (now : Int)
    (muted : Bool) : (loudness (setVolume now value muted false o)).Told := by
  have hset : loudness (setVolume now value muted false o) =
      loudness (notifyVolume (effectiveVolume o.speaker.status) value muted false
        (storeVolume value muted o)) := rfl
  rw [hset]
  unfold notifyVolume
  split
  · rename_i htell
    have hreply : loudness { avrcpVolumeReply .changed (storeVolume value muted o) with
        speaker.volumeSubscribed := false } =
        { loudness (storeVolume value muted o) with
          subscribed := false
          monitor := hear (loudness o).monitor (.volumeResponse .changed
            (if muted then 0 else value.toUInt8)) } := by
      have hrecord := loudness_record (storeVolume value muted o) (.volumeResponse .changed
        (if muted then 0 else value.toUInt8))
      exact congrArg (fun v : Loudness => { v with subscribed := false }) hrecord
    simp only [Bool.not_false, Bool.true_and, Bool.and_eq_true] at htell
    obtain ⟨-, hwaits, -⟩ := h.heard htell.1.2
    rw [hreply, loudness_storeVolume]
    refine ⟨rfl, toUInt8_le hfits, ?_, fun hsubscribed => Bool.noConfusion hsubscribed⟩
    simp [hear, h.unbroken, hwaits]
  · rename_i hquiet
    rw [loudness_storeVolume]
    refine ⟨rfl, toUInt8_le hfits, h.unbroken, ?_⟩
    intro hsubscribed
    obtain ⟨hlink, hwaits, hheard⟩ := h.heard hsubscribed
    have hstill : volumeMoved (effectiveVolume o.speaker.status) value muted = false := by
      have hsub : o.speaker.volumeSubscribed = true := hsubscribed
      have htg : o.speaker.tgConnected = true := hlink
      simpa [storeVolume, publish, hsub, htg] using hquiet
    refine ⟨hlink, hwaits, hheard.trans ?_⟩
    exact congrArg some (heard_of_still hstill).symm

theorem told_handleEvent (h : (loudness o).Told) (a : Answers) {event : Event}
    (hfits : event.Fits) : (loudness (handleEvent a event o)).Told := by
  apply told_publish
  cases event with
  | command command extra =>
    cases command with
    | status => exact h
    | volume => exact told_local h hfits a.now false
    | mute =>
      have hle : o.speaker.status.volume.toNat ≤ 127 := UInt8.le_iff_toNat_le.mp h.fits
      apply told_local h _ a.now
      rw [UInt32.le_iff_toNat_le, UInt8.toNat_toUInt32]
      exact hle
    | pair | reconnect =>
      simp only [eventBranch, handleCommand]
      split
      · rw [loudness_startPairing]
        exact told_stored h
      · exact h
    | disconnect =>
      simp only [eventBranch, handleCommand, loudness_scanMode, loudness_disconnect]
      exact told_stored h
    | forget =>
      simp only [eventBranch, handleCommand, loudness_beginForget]
      exact told_stored h
  | tgLink value => exact ⟨h.level, h.fits, h.unbroken, fun hsub => Bool.noConfusion hsub⟩
  | volume value => exact told_remote h hfits a.now
  | volumeSubscribe => exact told_onVolumeSubscribe h
  | auth value peer =>
    simp only [eventBranch, onAuth, loudness_refreshBonds]
    split
    · rw [loudness_beginForget]
      exact told_stored h
    · exact h
  | ctLink | caps | track | playStatus | position | bondRemoved => simpa [eventBranch] using h

theorem loudness_linkUp (a : TickAnswers) (o : Owner) : loudness (linkUp a o) = loudness o := by
  rw [linkUp, loudness_refreshBonds]
  exact loudness_record o (.linkUp a.link.peer)

theorem told_watchLink (h : (loudness o).Told) (a : TickAnswers) :
    (loudness (watchLink a o)).Told := by
  unfold watchLink
  split
  · rw [loudness_scanMode]
    apply told_stored
    split
    · rw [loudness_linkUp]
      exact h
    · exact h
  · exact h

theorem told_gapTick (h : (loudness o).Told) (a : TickAnswers) :
    (loudness (gapTick a o)).Told := by
  unfold gapTick
  split
  · split
    · have hbonds := loudness_refreshBonds o a.emptyBonds
      rw [loudness_startPairing]
      apply told_stored
      rw [← hbonds] at h
      exact h
    · split
      · have hremoved := loudness_removeFirst o a.firstBond
        rw [← hremoved] at h
        exact h
      · exact h
  · exact h

theorem told_tick (h : (loudness o).Told) (a : TickAnswers) (overflow : Bool) :
    (loudness (tick a overflow o)).Told := by
  have hgap : (loudness (gapTick a (storeStreaming a (watchLink a o)))).Told := by
    apply told_gapTick
    exact told_watchLink h a
  unfold tick
  apply told_publish
  split
  · -- An overflow ends the subscription, and the peer has to subscribe again.
    have hresync : ∀ o, loudness (resync a.overflowLink o) =
        { loudness o with subscribed := false } := fun o =>
      congrArg (fun v : Loudness => { v with subscribed := false })
        (loudness_disconnect o a.overflowLink)
    rw [hresync, loudness_nvsTick]
    exact ⟨hgap.level, hgap.fits, hgap.unbroken, fun hsub => Bool.noConfusion hsub⟩
  · rw [loudness_nvsTick]
    exact hgap

theorem told_ownerStep {action : Action} {o' : Owner} (h : (loudness o).Told)
    (hstep : OwnerStep o action o') : (loudness o').Told := by
  cases hstep with
  | stay => exact h
  | event a event hfits => exact told_handleEvent h a hfits
  | text id i b =>
    rw [loudness_setTextByte]
    exact h
  | publish => exact told_publish h
  | tick a overflow => exact told_tick h a overflow

end LoudnessSteps

theorem told_speakerStart (stored : Option Peer) (opened getOk : Bool) :
    (loudness (speakerStart stored opened getOk)).Told := by
  have hfull : (127 : UInt8) ≤ 127 := by decide
  cases opened <;> exact ⟨rfl, hfull, rfl, fun hsub => Bool.noConfusion hsub⟩

/-! ## The law -/

/-- A volume of seven bits leaves the eighth to the mute. -/
theorem packLevel_split {volume : UInt8} (h : volume ≤ 127) (muted : Bool) :
    (packLevel volume muted &&& 127).toUInt8 = volume ∧
      (packLevel volume muted &&& 128 != 0) = muted := by
  have hall : ∀ (n : Fin 128) (muted : Bool),
      (packLevel (UInt8.ofNat n) muted &&& 127).toUInt8 = UInt8.ofNat n ∧
        (packLevel (UInt8.ofNat n) muted &&& 128 != 0) = muted := by
    decide +kernel
  have hlt : volume.toNat < 128 := Nat.lt_succ_of_le (UInt8.le_iff_toNat_le.mp h)
  have hsplit := hall ⟨volume.toNat, hlt⟩ muted
  rwa [UInt8.ofNat_toNat] at hsplit

/-- In every run the audio task reads the volume and the mute of the status. A peer whose
subscription stands has heard just what is played, and no peer is told of a change more often than
it has subscribed. -/
theorem volume_told {κ : Type} (lib : EventQueue κ) (stored : Option Peer) (opened getOk : Bool)
    (actions : List Action) :
    let o := (systemRun lib (systemStart lib stored opened getOk) actions).owner
    (o.audioLevel &&& 127).toUInt8 = o.speaker.status.volume ∧
      (o.audioLevel &&& 128 != 0) = o.speaker.status.muted ∧
      (hearAll o.history).broken = false ∧
      (o.speaker.volumeSubscribed = true →
        (hearAll o.history).heard = some (effectiveVolume o.speaker.status)) := by
  intro o
  have htold : (loudness o).Told := by
    rcases owner_law lib stored opened getOk
      (I := fun o => (loudness o).Told) (fun list => by
        unfold controlStart
        rw [loudness_scanMode, loudness_refreshBonds]
        exact told_stored (told_speakerStart stored opened getOk))
      (fun _ _ _ h hstep => told_ownerStep h hstep) actions with ⟨-, ⟨-, hstart⟩ | ⟨-, hlaw⟩⟩
    · rw [show o = _ from hstart]
      exact told_speakerStart stored opened getOk
    · exact hlaw
  obtain ⟨hvolume, hmuted⟩ := packLevel_split htold.fits (loudness o).muted
  rw [← htold.level] at hvolume hmuted
  exact ⟨hvolume, hmuted, htold.unbroken, fun hsub => (htold.heard hsub).2.2⟩

end EmbeddedAudio.Speaker
