-- What the Bluetooth speaker shows of a track. A text that is shown ends inside its buffer and
-- has no control characters, and a track is shown only over the link that it came by.
import EmbeddedAudio.SpeakerTexts

namespace EmbeddedAudio.Speaker

/-! ## The track -/

/-- A byte of a text that is safe to print, or a zero behind the text. -/
def PlainByte (b : UInt8) : Prop := b = 0 ∨ 32 ≤ b ∧ b ≠ 127

/-- A text ends inside its buffer, and is safe to print. -/
structure PlainText (text : Text) : Prop where
  bytes : ∀ (i : Nat) (hi : i < SPEAKER_TEXT_MAX), PlainByte text[i]
  ends : text[SPEAKER_TEXT_MAX - 1] = 0

/-- The part of a status that is about the track. -/
structure Track where
  title : Text
  artist : Text
  album : Text
  positionMs : UInt32
  durationMs : UInt32

def Status.track (status : Status) : Track where
  title := status.title
  artist := status.artist
  album := status.album
  positionMs := status.positionMs
  durationMs := status.durationMs

structure Track.Plain (t : Track) : Prop where
  title : PlainText t.title
  artist : PlainText t.artist
  album : PlainText t.album

/-- No track: empty texts, and no time. -/
structure Track.Blank (t : Track) : Prop where
  title : t.title[0] = 0
  artist : t.artist[0] = 0
  album : t.album[0] = 0
  positionMs : t.positionMs = 0
  durationMs : t.durationMs = 0

/-- A track that is safe to print, and blank without a link. -/
structure Track.Shown (linked : Bool) (t : Track) : Prop where
  plain : t.Plain
  blank : linked = false → t.Blank

/-- The track of the owner's status, and that of the status it has published. -/
structure Displays (o : Owner) : Prop where
  status : o.speaker.status.track.Shown o.speaker.ctConnected
  published : o.published.track.Shown o.speaker.ctConnected

/-! ## Texts -/

theorem plainText_clear {text : Text} (h : PlainText text) : PlainText (clearText text) := by
  refine ⟨?_, ?_⟩
  · intro i hi
    unfold clearText
    rw [Vector.getElem_set]
    split
    · exact .inl rfl
    · exact h.bytes i hi
  · unfold clearText
    rw [Vector.getElem_set]
    split
    · rfl
    · exact h.ends

theorem plainText_zero : PlainText (.replicate _ 0) :=
  ⟨fun i hi => .inl (by simp), by simp⟩

theorem plainByte_clean (b : UInt8) : PlainByte (cleanByte b) := by
  unfold cleanByte
  split
  · exact .inr ⟨by decide, by decide⟩
  · rename_i hplain
    rw [not_or, UInt8.not_lt] at hplain
    exact .inr hplain

theorem plainText_wanted (attr : Attribute) : PlainText (wantedText attr) := by
  have hmax : SPEAKER_TEXT_MAX = 128 := rfl
  have hkept := kept_lt attr
  refine ⟨?_, ?_⟩
  · intro i hi
    simp only [wantedText, Vector.getElem_ofFn]
    split
    · apply plainByte_clean
    · exact .inl rfl
  · simp only [wantedText, Vector.getElem_ofFn]
    rw [if_neg (by omega)]

/-- A byte of a plain text is copied to its place in another. -/
theorem plainText_copy {text source : Text} (h : PlainText text) (hsource : PlainText source)
    (i : Nat) : PlainText (text.setIfInBounds i (source[i]?.getD 0)) := by
  by_cases hi : i < SPEAKER_TEXT_MAX
  · have hbyte : source[i]?.getD 0 = source[i] := by
      rw [Vector.getElem?_eq_getElem hi]
      rfl
    rw [hbyte]
    refine ⟨?_, ?_⟩
    · intro j hj
      rw [Vector.getElem_setIfInBounds]
      split
      · exact hsource.bytes i hi
      · exact h.bytes j hj
    · rw [Vector.getElem_setIfInBounds]
      split
      · rename_i hlast
        subst hlast
        exact hsource.ends
      · exact h.ends
  · rw [Vector.setIfInBounds_eq_of_size_le (by omega)]
    exact h

/-! ## What leaves the track alone -/

section TrackFrames

variable (o : Owner)

@[simp] theorem speaker_record (r : Record) : (o.record r).speaker = o.speaker := rfl

@[simp] theorem speaker_publish : (publish o).speaker = o.speaker := rfl

@[simp] theorem speaker_disconnect (link : LinkStatus) :
    (disconnect link o).speaker = o.speaker := by
  unfold disconnect
  split <;> rfl

@[simp] theorem speaker_avrcpRequestTrack : (avrcpRequestTrack o).speaker = o.speaker := by
  unfold avrcpRequestTrack
  split <;> rfl

@[simp] theorem speaker_avrcpSubscribe (capable : BitMaskTest) (event : RnEvent)
    (label : UInt8) :
    (avrcpSubscribe capable event label o).speaker = o.speaker := by
  unfold avrcpSubscribe
  split <;> rfl

@[simp] theorem speaker_nvsTick (now : Int) (setOk : Bool) :
    (nvsTick now setOk o).speaker = o.speaker := by
  unfold nvsTick saveSettings
  split
  · split
    · rfl
    · unfold commitSettings
      split <;> rfl
  · rfl

@[simp] theorem speaker_nvsForgetPeer (eraseOk : Bool) :
    (nvsForgetPeer eraseOk o).speaker = o.speaker := by
  unfold nvsForgetPeer
  split <;> rfl

@[simp] theorem speaker_refreshBonds (list : Option BondList) :
    (refreshBonds list o).speaker = o.speaker := by
  cases list <;> rfl

@[simp] theorem speaker_removeFirst (list : Option BondList) :
    (removeFirst list o).speaker = o.speaker := by
  unfold removeFirst
  split <;> rfl

end TrackFrames

/-- The track of an owner, with the link that it came by. -/
def Owner.track (o : Owner) : Bool × Track := (o.speaker.ctConnected, o.speaker.status.track)

section TrackSteps

variable {o : Owner}

theorem track_scanMode (o : Owner) : (scanMode o).track = o.track := rfl

theorem track_disconnect (link : LinkStatus) (o : Owner) :
    (disconnect link o).track = o.track := by
  rw [Owner.track, speaker_disconnect]
  rfl

theorem track_startPairing (link : LinkStatus) (o : Owner) :
    (startPairing link o).track = o.track := by
  rw [startPairing, track_scanMode, track_disconnect]

theorem track_beginForget (a : Answers) (o : Owner) : (beginForget a o).track = o.track := by
  rw [beginForget, Owner.track, speaker_nvsForgetPeer]
  change (scanMode (disconnect a.link (markForgetting o))).track = o.track
  rw [track_scanMode, track_disconnect]
  rfl

theorem track_setVolume (now : Int) (value : UInt32) (muted remote : Bool) (o : Owner) :
    (setVolume now value muted remote o).track = o.track := by
  have hnotify : ∀ before o, (notifyVolume before value muted remote o).track = o.track := by
    intro before o
    unfold notifyVolume
    split <;> rfl
  refine (hnotify _ _).trans ?_
  cases remote <;> rfl

theorem track_gapTick (a : TickAnswers) (o : Owner) : (gapTick a o).track = o.track := by
  unfold gapTick
  split
  · split
    · rw [track_startPairing]
      simp only [Owner.track, speaker_refreshBonds]
    · split
      · simp only [Owner.track, speaker_removeFirst]
      · rfl
  · rfl

/-- The law of one track, for an owner. -/
def Owner.Shows (o : Owner) : Prop := o.track.2.Shown o.track.1

theorem shows_of_track {o' : Owner} (h : o.Shows) (htrack : o'.track = o.track) : o'.Shows := by
  unfold Owner.Shows
  rw [htrack]
  exact h

theorem shows_avrcpClearTrack (h : o.speaker.status.track.Plain) : (avrcpClearTrack o).Shows := by
  have hblank : (avrcpClearTrack o).track.2.Blank :=
    ⟨Vector.getElem_set_self .., Vector.getElem_set_self .., Vector.getElem_set_self .., rfl, rfl⟩
  exact ⟨⟨plainText_clear h.title, plainText_clear h.artist, plainText_clear h.album⟩,
    fun _ => hblank⟩

theorem shows_onCtLink (h : o.Shows) (value : UInt32) : (onCtLink value o).Shows := by
  have hclear : (avrcpClearTrack { o with
      speaker.ctConnected := value != 0, speaker.capabilities := 0 }).Shows :=
    shows_avrcpClearTrack h.plain
  unfold onCtLink
  dsimp only
  split
  · apply shows_of_track hclear
    simp only [Owner.track, speaker_avrcpRequestTrack, speaker_record]
  · exact hclear

theorem shows_onPosition (h : o.Shows) (capable : BitMaskTest) (value extra : UInt32) :
    (onPosition capable value extra o).Shows := by
  have hstore : (storePosition value extra o).Shows := by
    unfold storePosition
    split
    · rename_i hlinked
      refine ⟨⟨h.plain.title, h.plain.artist, h.plain.album⟩, ?_⟩
      intro hdown
      exact absurd (hlinked.symm.trans hdown) (by decide)
    · exact h
  unfold onPosition
  split
  · apply shows_of_track hstore
    simp only [Owner.track, speaker_avrcpSubscribe]
  · exact hstore

theorem shows_handleCommand (h : o.Shows) (a : Answers) (command : Command) (extra : UInt32) :
    (handleCommand a command extra o).Shows := by
  apply shows_of_track h
  cases command with
  | status => rfl
  | volume | mute => apply track_setVolume
  | pair | reconnect =>
    simp only [handleCommand]
    split
    · apply track_startPairing
    · rfl
  | disconnect =>
    simp only [handleCommand, track_scanMode, track_disconnect]
  | forget => apply track_beginForget

theorem shows_eventBranch (h : o.Shows) (a : Answers) (event : Event) :
    (eventBranch a event o).Shows := by
  cases event with
  | command command extra => exact shows_handleCommand h a command extra
  | ctLink value => exact shows_onCtLink h value
  | tgLink value => exact h
  | volume value => exact shows_of_track h (track_setVolume ..)
  | volumeSubscribe =>
    apply shows_of_track h
    simp only [eventBranch, onVolumeSubscribe]
    split <;> rfl
  | caps value =>
    apply shows_of_track h
    simp only [eventBranch, onCaps, Owner.track, speaker_avrcpSubscribe]
  | track =>
    apply shows_of_track (shows_avrcpClearTrack h.plain)
    simp only [eventBranch, Owner.track, speaker_avrcpSubscribe, speaker_avrcpRequestTrack]
  | playStatus value extra =>
    apply shows_of_track h
    simp only [eventBranch, onPlayStatus, storePlayback]
    split <;> split <;> simp [Owner.track, Status.track]
  | position value extra => exact shows_onPosition h a.capable value extra
  | auth value peer =>
    apply shows_of_track h
    simp only [eventBranch, onAuth, Owner.track, speaker_refreshBonds]
    split
    · exact track_beginForget a o
    · rfl
  | bondRemoved value =>
    apply shows_of_track h
    simp only [eventBranch, Owner.track, speaker_refreshBonds]

theorem shows_watchLink (h : o.Shows) (a : TickAnswers) : (watchLink a o).Shows := by
  unfold watchLink
  split
  · refine shows_of_track (o := if a.link.connected then _ else _) ?_ (track_scanMode _)
    split
    · apply shows_of_track h
      simp only [linkUp, Owner.track, speaker_refreshBonds]
      rfl
    · exact shows_avrcpClearTrack h.plain
  · exact h

/-- A status that is published shows what the owner shows. -/
theorem displays_publish (h : o.Shows) : Displays (publish o) := ⟨h, h⟩

theorem displays_handleEvent (h : Displays o) (a : Answers) (event : Event) :
    Displays (handleEvent a event o) :=
  displays_publish (shows_eventBranch h.status a event)

theorem displays_tick (h : Displays o) (a : TickAnswers) (overflow : Bool) :
    Displays (tick a overflow o) := by
  have hwatch : (storeStreaming a (watchLink a o)).Shows := shows_watchLink h.status a
  have hsaved : (nvsTick a.now a.setOk (gapTick a (storeStreaming a (watchLink a o)))).Shows := by
    apply shows_of_track hwatch
    rw [Owner.track, speaker_nvsTick]
    exact track_gapTick ..
  unfold tick
  apply displays_publish
  split
  · refine shows_of_track (shows_avrcpClearTrack (o := disconnect a.overflowLink _) ?_) rfl
    rw [speaker_disconnect]
    exact hsaved.plain
  · exact hsaved

end TrackSteps

/-! ## The law -/

section TrackLaw

variable {κ : Type} {lib : EventQueue κ} {s : System κ}

/-- A text is copied to the status byte by byte, and each byte is safe to print. -/
theorem displays_taskStep (h : Displays s.owner) (hsane : Sane lib s) (hcarried : Carried lib s) :
    Displays (taskStep s).owner := by
  unfold taskStep
  split
  · rename_i id slot done htask
    split
    · have hlinked := hsane.reads id slot done htask
      obtain ⟨-, -, -, gone, waiting, -, -, hwaiting⟩ := hcarried
      simp only [linesOf, htask, Task.line, Option.toList_some, List.singleton_append] at hwaiting
      have hslot : PlainText (s.texts slot) := by
        cases hwaiting with
        | cons hcarries hrest =>
          rw [hcarries.2]
          apply plainText_wanted
      have hplain := h.status.plain
      have hnever : ∀ {t : Track}, s.owner.speaker.ctConnected = false → t.Blank := fun hdown =>
        absurd (hlinked.symm.trans hdown) (by decide)
      refine ⟨⟨?_, hnever⟩, h.published⟩
      cases id with
      | title => exact ⟨plainText_copy hplain.title hslot done, hplain.artist, hplain.album⟩
      | artist => exact ⟨hplain.title, plainText_copy hplain.artist hslot done, hplain.album⟩
      | album => exact ⟨hplain.title, hplain.artist, plainText_copy hplain.album hslot done⟩
      | other id => exact hplain
    · exact h
  · exact displays_publish h.status
  · exact h

theorem displays_systemStep (h : Displays s.owner) (hsane : Sane lib s) (hcarried : Carried lib s)
    (action : Action) : Displays (systemStep lib s action).owner := by
  obtain ⟨-, hcases⟩ := systemStep_owner lib hsane action
  rcases hcases with ⟨-, howner⟩ | ⟨-, -, list, howner⟩ | ⟨-, -, hmove⟩
  · rw [howner]
    exact h
  · rw [howner]
    apply displays_publish
    apply shows_of_track h.status
    cases list <;> rfl
  · generalize ho : (systemStep lib s action).owner = o' at hmove
    cases hmove with
    | stay => exact h
    | event a event hfits => exact displays_handleEvent h a event
    | text | publish =>
      rw [← ho]
      exact displays_taskStep h hsane hcarried
    | tick a overflow => exact displays_tick h a overflow

theorem displays_start (stored : Option Peer) (opened getOk : Bool) :
    Displays (speakerStart stored opened getOk) := by
  have hblank : ∀ {o : Owner}, o.speaker.status.track = (zeroOwner none).speaker.status.track →
      o.Shows := by
    intro o ho
    unfold Owner.Shows Owner.track
    rw [ho]
    exact ⟨⟨plainText_zero, plainText_zero, plainText_zero⟩,
      fun _ => ⟨by simp [zeroOwner, Status.track], by simp [zeroOwner, Status.track],
        by simp [zeroOwner, Status.track], rfl, rfl⟩⟩
  apply displays_publish
  apply hblank
  cases opened <;> rfl

end TrackLaw

/-- In every run, what anyone reads of the track is safe: each text ends inside its buffer, with no
control character in it. While the link of the remote control is down there is no track. -/
theorem track_shown {κ : Type} (lib : EventQueue κ) (stored : Option Peer) (opened getOk : Bool)
    (actions : List Action) :
    let o := (systemRun lib (systemStart lib stored opened getOk) actions).owner
    o.speaker.status.track.Plain ∧ o.published.track.Plain ∧
      (o.speaker.ctConnected = false → o.speaker.status.track.Blank ∧ o.published.track.Blank) := by
  intro o
  have hlaw := systemRun_law lib stored opened getOk
    (I := fun s => Sane lib s ∧ Carried lib s ∧ Displays s.owner)
    ⟨sane_start lib stored opened getOk, carried_run lib stored opened getOk [],
      displays_start stored opened getOk⟩ ?_ actions
  · obtain ⟨-, -, hstatus, hpublished⟩ := hlaw
    exact ⟨hstatus.plain, hpublished.plain, fun hdown => ⟨hstatus.blank hdown,
      hpublished.blank hdown⟩⟩
  · rintro s action ⟨hsane, hcarried, hdisplays⟩
    exact ⟨(systemStep_owner lib hsane action).1, carried_systemStep lib s action hcarried,
      displays_systemStep hdisplays hsane hcarried action⟩

end EmbeddedAudio.Speaker
