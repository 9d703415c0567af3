-- The owner task of the Bluetooth speaker (speaker.c, speaker_gap.c, speaker_avrcp.c,
-- speaker_nvs.c): its state, what an event and a tick do to it, and its calls of the
-- Bluetooth stack and of the settings store.
import EmbeddedAudio.Results

namespace EmbeddedAudio.Speaker

/-! ## The state -/

abbrev SPEAKER_TEXT_MAX : Nat := 128
abbrev SPEAKER_TEXT_SLOTS : Nat := 8

/-- A Bluetooth address. -/
abbrev Peer := Vector UInt8 6

/-- A C string in its buffer. -/
abbrev Text := Vector UInt8 SPEAKER_TEXT_MAX

/-- `speaker_status_t`. -/
structure Status where
  connected : Bool
  streaming : Bool
  pairing : Bool
  muted : Bool
  volume : UInt8
  playbackStatus : UInt8
  title : Text
  artist : Text
  album : Text
  positionMs : UInt32
  durationMs : UInt32
  deriving DecidableEq

/-- The notifications that one side registers with the other, `esp_avrc_rn_event_ids_t`. -/
inductive RnEvent where
  | playStatusChange
  | trackChange
  | playPosChanged
  | volumeChange
  | other (id : Nat)
  deriving DecidableEq, Repr

/-- The number that AVRCP gives a notification. -/
def RnEvent.id : RnEvent → Nat
  | playStatusChange => 1
  | trackChange => 2
  | playPosChanged => 5
  | volumeChange => 13
  | other id => id

inductive RnResponse where
  | interim
  | changed
  deriving DecidableEq, Repr

/-- `eaf_bt_esp_idf_status_t`. -/
structure LinkStatus where
  peer : Peer
  ready : Bool
  connected : Bool
  connecting : Bool
  streaming : Bool
  deriving DecidableEq

/-- `speaker_state_t`. -/
structure State where
  status : Status
  ctConnected : Bool
  tgConnected : Bool
  volumeSubscribed : Bool
  capabilities : UInt16
  lastPeer : Peer
  havePeer : Bool
  forgetting : Bool
  deriving DecidableEq

/-- What the owner task asks of the stack and of the settings store, with the results that count;
what it learns of its peer: a new link, and a volume that the peer has set; and that it has let go
of the peer that it remembered. -/
inductive Record where
  | setScanMode (connectable discoverable : Bool)
  | a2dpDisconnect
  | getRnCapabilities
  | metadata
  | playStatus
  | registerNotification (label : UInt8) (event : RnEvent) (parameter : UInt32)
  | volumeResponse (response : RnResponse) (volume : UInt8)
  | removeBond (peer : Peer)
  | setPeer (peer : Peer) (ok : Bool)
  | erasePeer (ok : Bool)
  | commit
  | linkUp (peer : Peer)
  | remoteVolume (volume : UInt8)
  | forget
  deriving DecidableEq

/-- The stack lists 16 bonds at most, as the callers ask. -/
abbrev BondList := { bonds : List Peer // bonds.length ≤ 16 }

/-- All that the owner task writes, and its history. `stored` is the peer in the settings. -/
structure Owner where
  speaker : State
  published : Status
  audioLevel : UInt32
  allowPairing : Bool
  bonds : BondList
  settingsOpen : Bool
  settingsDirty : Bool
  saveAt : Int
  removeAt : Int
  stored : Option Peer
  history : List Record
  deriving DecidableEq

def Owner.record (o : Owner) (r : Record) : Owner := { o with history := o.history ++ [r] }

/-! ## Policy (speaker.c) -/

/-- `speaker_publish`. -/
def publish (o : Owner) : Owner :=
  { o with
    audioLevel := o.speaker.status.volume.toUInt32 ||| (if o.speaker.status.muted then 128 else 0)
    published := o.speaker.status
    allowPairing := o.speaker.status.pairing && !o.speaker.forgetting }

/-- `speaker_scan_mode`. -/
def scanMode (o : Owner) : Owner :=
  let idle := !o.speaker.status.connected && !o.speaker.forgetting
  let o := o.record (.setScanMode idle idle)
  publish { o with speaker.status.pairing := idle }

/-- `speaker_disconnect`. `link` is what it reads of the link. -/
def disconnect (link : LinkStatus) (o : Owner) : Owner :=
  if link.connected || link.connecting then o.record .a2dpDisconnect else o

/-- `speaker_start_pairing`. -/
def startPairing (link : LinkStatus) (o : Owner) : Owner := scanMode (disconnect link o)

/-! ## Remote control (speaker_avrcp.c) -/

/-- The first byte of a text is cleared, and the rest stays. -/
def clearText (text : Text) : Text := text.set 0 0

/-- `speaker_avrcp_clear_track`. -/
def avrcpClearTrack (o : Owner) : Owner :=
  { o with speaker.status :=
      { o.speaker.status with
        title := clearText o.speaker.status.title
        artist := clearText o.speaker.status.artist
        album := clearText o.speaker.status.album
        positionMs := 0
        durationMs := 0
        playbackStatus := 0xff } }

/-- `speaker_avrcp_request_track`. -/
def avrcpRequestTrack (o : Owner) : Owner :=
  if !o.speaker.ctConnected then o else (o.record .metadata).record .playStatus

/-- `esp_avrc_rn_evt_bit_mask_operation` with `ESP_AVRC_BIT_MASK_OP_TEST`, whatever the stack makes
of the two. -/
abbrev BitMaskTest := UInt16 → RnEvent → Bool

/-- `speaker_avrcp_subscribe`. -/
def avrcpSubscribe (capable : BitMaskTest) (event : RnEvent) (label : UInt8) (o : Owner) : Owner :=
  if o.speaker.ctConnected && capable o.speaker.capabilities event then
    o.record (.registerNotification label event (if event = .playPosChanged then 1 else 0))
  else o

/-- What the peer hears of the volume. -/
def effectiveVolume (status : Status) : UInt8 := if status.muted then 0 else status.volume

/-- `speaker_avrcp_volume_reply`. -/
def avrcpVolumeReply (response : RnResponse) (o : Owner) : Owner :=
  o.record (.volumeResponse response (effectiveVolume o.speaker.status))

/-! ## Settings (speaker_nvs.c) -/

/-- The peer goes to the settings. `setOk` tells if the store took it. -/
def setPeer (setOk : Bool) (o : Owner) : Owner :=
  { o.record (.setPeer o.speaker.lastPeer setOk) with
    stored := if setOk then some o.speaker.lastPeer else o.stored }

def commitSettings (o : Owner) : Owner := { o.record .commit with settingsDirty := false }

/-- `save_settings`. -/
def saveSettings (setOk : Bool) (o : Owner) : Owner :=
  if !o.settingsOpen then o
  else
    commitSettings (if o.speaker.havePeer && !o.speaker.forgetting then setPeer setOk o else o)

/-- `speaker_nvs_init`. `opened` tells if the store opened, and `getOk` if it could be read. -/
def nvsInit (opened getOk : Bool) (o : Owner) : Owner :=
  if opened then
    let blob := if getOk then o.stored else none
    { o with
      settingsOpen := true
      speaker.lastPeer := blob.getD o.speaker.lastPeer
      speaker.havePeer := blob.isSome }
  else o

/-- `speaker_nvs_touch`. -/
def nvsTouch (now : Int) (o : Owner) : Owner :=
  { o with settingsDirty := true, saveAt := now + 2000 }

/-- `speaker_nvs_tick`. -/
def nvsTick (now : Int) (setOk : Bool) (o : Owner) : Owner :=
  if o.settingsDirty && decide (now ≥ o.saveAt) then saveSettings setOk o else o

/-- The peer leaves the settings. `eraseOk` tells if the store erased it. -/
def erasePeer (eraseOk : Bool) (o : Owner) : Owner :=
  { o.record (.erasePeer eraseOk) with stored := if eraseOk then none else o.stored }

/-- `speaker_nvs_forget_peer`. -/
def nvsForgetPeer (eraseOk : Bool) (o : Owner) : Owner :=
  if !o.settingsOpen then o else (erasePeer eraseOk o).record .commit

/-! ## Bonds (speaker_gap.c) -/

/-- `speaker_pairing_allowed`. -/
def pairingAllowed (o : Owner) (peer : Peer) : Bool :=
  o.bonds.val.foldl (fun allowed bond => allowed || decide (bond = peer)) o.allowPairing

/-- `speaker_refresh_bonds`. The list is `none` where the stack fails. -/
def refreshBonds (list : Option BondList) (o : Owner) : Owner :=
  match list with
  | none => o
  | some list => { o with bonds := list }

/-- What the calls inside the handling of one event give. -/
structure Answers where
  now : Int
  link : LinkStatus
  eraseOk : Bool
  bondList : Option BondList
  capable : BitMaskTest

/-- The flags of a forget that begins. -/
def markForgetting (o : Owner) : Owner :=
  { o.record .forget with
    speaker.forgetting := true
    speaker.havePeer := false
    speaker.status.pairing := false }

/-- `speaker_begin_forget`. -/
def beginForget (a : Answers) (o : Owner) : Owner :=
  nvsForgetPeer a.eraseOk (scanMode (disconnect a.link (markForgetting o)))

/-- What the calls inside one tick give, in the order in which a tick makes them. A read of the
link is a read of its own each time. -/
structure TickAnswers where
  now : Int
  link : LinkStatus
  touchNow : Int
  upBonds : Option BondList
  gapLink : LinkStatus
  bondNum : Nat
  emptyBonds : Option BondList
  pairLink : LinkStatus
  firstBond : Option BondList
  setOk : Bool
  overflowLink : LinkStatus

/-- The call that removes the first bond of the list, if there is one. -/
def removeFirst (list : Option BondList) (o : Owner) : Owner :=
  match list.map Subtype.val with
  | some (peer :: _) => o.record (.removeBond peer)
  | _ => o

/-- `speaker_gap_tick`. -/
def gapTick (a : TickAnswers) (o : Owner) : Owner :=
  if o.speaker.forgetting && !a.gapLink.connected && !a.gapLink.connecting then
    if a.bondNum = 0 then
      let o := refreshBonds a.emptyBonds o
      startPairing a.pairLink { o with speaker.forgetting := false }
    else if a.now ≥ o.removeAt then
      { removeFirst a.firstBond o with removeAt := a.now + 2000 }
    else o
  else o

/-! ## Events and ticks (speaker.c) -/

/-- `speaker_command_t`. -/
inductive Command where
  | status
  | volume
  | mute
  | pair
  | reconnect
  | disconnect
  | forget
  deriving DecidableEq, Repr

/-- The events that carry no text, with the fields that the owner task reads. -/
inductive Event where
  | command (command : Command) (extra : UInt32)
  | ctLink (value : UInt32)
  | tgLink (value : UInt32)
  | volume (value : UInt32)
  | volumeSubscribe
  | caps (value : UInt32)
  | track
  | playStatus (value extra : UInt32)
  | position (value extra : UInt32)
  | auth (value : UInt32) (peer : Peer)
  | bondRemoved (value : UInt32)
  deriving DecidableEq

/-- The step of `set_volume` that changes the volume. -/
def storeVolume (value : UInt32) (muted : Bool) (o : Owner) : Owner :=
  publish { o with speaker.status.volume := value.toUInt8, speaker.status.muted := muted }

/-- The test of `set_volume` for a change that can be heard. -/
def volumeMoved (before : UInt8) (value : UInt32) (muted : Bool) : Bool :=
  decide (before.toUInt32 ≠ if muted then 0 else value)

/-- The step of `set_volume` that tells the peer of a local change. `before` is what it heard. -/
def notifyVolume (before : UInt8) (value : UInt32) (muted remote : Bool) (o : Owner) : Owner :=
  if !remote && o.speaker.tgConnected && o.speaker.volumeSubscribed &&
      volumeMoved before value muted then
    { avrcpVolumeReply .changed o with speaker.volumeSubscribed := false }
  else o

/-- `set_volume`. The history keeps what the peer has set. -/
def setVolume (now : Int) (value : UInt32) (muted remote : Bool) (o : Owner) : Owner :=
  let before := effectiveVolume o.speaker.status
  let o := storeVolume value muted o
  let o := if remote then o.record (.remoteVolume value.toUInt8) else o
  nvsTouch now (notifyVolume before value muted remote o)

/-- `handle_command`. -/
def handleCommand (a : Answers) (command : Command) (extra : UInt32) (o : Owner) : Owner :=
  match command with
  | .status => o
  | .volume => setVolume a.now extra false false o
  | .mute => setVolume a.now o.speaker.status.volume.toUInt32 (extra != 0) false o
  | .pair => if !o.speaker.forgetting then startPairing a.link o else o
  | .reconnect => if !o.speaker.forgetting then startPairing a.link o else o
  | .disconnect => scanMode (disconnect a.link o)
  | .forget => beginForget a o

/-- The case `CT_LINK`. -/
def onCtLink (value : UInt32) (o : Owner) : Owner :=
  let o := avrcpClearTrack { o with speaker.ctConnected := value != 0, speaker.capabilities := 0 }
  if o.speaker.ctConnected then avrcpRequestTrack (o.record .getRnCapabilities) else o

/-- The case `VOLUME_SUBSCRIBE`. -/
def onVolumeSubscribe (o : Owner) : Owner :=
  if o.speaker.tgConnected then
    avrcpVolumeReply .interim { o with speaker.volumeSubscribed := true }
  else o

/-- The case `CAPS`. -/
def onCaps (capable : BitMaskTest) (value : UInt32) (o : Owner) : Owner :=
  avrcpSubscribe capable .playPosChanged 4 (avrcpSubscribe capable .playStatusChange 3
    (avrcpSubscribe capable .trackChange 2 { o with speaker.capabilities := value.toUInt16 }))

def storePlayback (value : UInt32) (o : Owner) : Owner :=
  if o.speaker.ctConnected then { o with speaker.status.playbackStatus := value.toUInt8 } else o

/-- The case `PLAY_STATUS`. -/
def onPlayStatus (capable : BitMaskTest) (value extra : UInt32) (o : Owner) : Owner :=
  if extra ≠ 0 then avrcpSubscribe capable .playStatusChange 3 (storePlayback value o)
  else storePlayback value o

def storePosition (value extra : UInt32) (o : Owner) : Owner :=
  if o.speaker.ctConnected then
    { o with
      speaker.status.positionMs := value
      speaker.status.durationMs := if extra ≠ 1 then extra else o.speaker.status.durationMs }
  else o

/-- The case `POSITION`. A length of 1 is the sign of a notification. -/
def onPosition (capable : BitMaskTest) (value extra : UInt32) (o : Owner) : Owner :=
  if extra = 1 then avrcpSubscribe capable .playPosChanged 4 (storePosition value extra o)
  else storePosition value extra o

/-- The peer that is remembered has lost the link key. -/
def staleBond (value : UInt32) (peer : Peer) (o : Owner) : Bool :=
  value != 0 && o.speaker.havePeer && !o.speaker.status.connected &&
    decide (peer = o.speaker.lastPeer)

/-- The case `AUTH`. -/
def onAuth (a : Answers) (value : UInt32) (peer : Peer) (o : Owner) : Owner :=
  refreshBonds a.bondList (if staleBond value peer o then beginForget a o else o)

/-- The branch that `handle_event` takes for an event without a text. -/
def eventBranch (a : Answers) (event : Event) (o : Owner) : Owner :=
  match event with
  | .command command extra => handleCommand a command extra o
  | .ctLink value => onCtLink value o
  | .tgLink value =>
    { o with speaker.tgConnected := value != 0, speaker.volumeSubscribed := false }
  | .volume value => setVolume a.now value false true o
  | .volumeSubscribe => onVolumeSubscribe o
  | .caps value => onCaps a.capable value o
  | .track => avrcpSubscribe a.capable .trackChange 2 (avrcpRequestTrack (avrcpClearTrack o))
  | .playStatus value extra => onPlayStatus a.capable value extra o
  | .position value extra => onPosition a.capable value extra o
  | .auth value peer => onAuth a value peer o
  | .bondRemoved _ => refreshBonds a.bondList o

/-- `handle_event` for an event without a text. -/
def handleEvent (a : Answers) (event : Event) (o : Owner) : Owner :=
  publish (eventBranch a event o)

/-- A new link: its peer is the one to remember. -/
def linkUp (a : TickAnswers) (o : Owner) : Owner :=
  let o := { o.record (.linkUp a.link.peer) with
    speaker.lastPeer := a.link.peer
    speaker.havePeer := true
    speaker.status.pairing := false }
  refreshBonds a.upBonds (nvsTouch a.touchNow o)

/-- The part of `tick` that watches the link. -/
def watchLink (a : TickAnswers) (o : Owner) : Owner :=
  if a.link.connected ≠ o.speaker.status.connected then
    let o := { o with speaker.status.connected := a.link.connected }
    scanMode (if a.link.connected then linkUp a o else avrcpClearTrack o)
  else o

/-- The part of `tick` that answers for a lost event. -/
def resync (link : LinkStatus) (o : Owner) : Owner :=
  { avrcpClearTrack (disconnect link o) with speaker.volumeSubscribed := false }

def storeStreaming (a : TickAnswers) (o : Owner) : Owner :=
  { o with speaker.status.streaming := a.link.streaming }

/-- `tick`. `overflow` tells if the queue has refused an event of a callback. -/
def tick (a : TickAnswers) (overflow : Bool) (o : Owner) : Owner :=
  let o := nvsTick a.now a.setOk (gapTick a (storeStreaming a (watchLink a o)))
  publish (if overflow then resync a.overflowLink o else o)

/-- The state of a program that has just started, over the peer that the settings hold. -/
def zeroOwner (stored : Option Peer) : Owner where
  speaker :=
    { status :=
        { connected := false, streaming := false, pairing := false, muted := false, volume := 0,
          playbackStatus := 0, title := .replicate _ 0, artist := .replicate _ 0,
          album := .replicate _ 0, positionMs := 0, durationMs := 0 }
      ctConnected := false
      tgConnected := false
      volumeSubscribed := false
      capabilities := 0
      lastPeer := .replicate _ 0
      havePeer := false
      forgetting := false }
  published :=
    { connected := false, streaming := false, pairing := false, muted := false, volume := 0,
      playbackStatus := 0, title := .replicate _ 0, artist := .replicate _ 0,
      album := .replicate _ 0, positionMs := 0, durationMs := 0 }
  audioLevel := 127
  allowPairing := false
  bonds := ⟨[], Nat.zero_le _⟩
  settingsOpen := false
  settingsDirty := false
  saveAt := 0
  removeAt := 0
  stored := stored
  history := []

/-- `speaker_start`, up to the start of the owner task. -/
def speakerStart (stored : Option Peer) (opened getOk : Bool) : Owner :=
  publish (nvsInit opened getOk
    { zeroOwner stored with speaker.status.volume := 127, speaker.status.muted := false })

/-- `control_task`, up to its loop. -/
def controlStart (list : Option BondList) (o : Owner) : Owner := scanMode (refreshBonds list o)

end EmbeddedAudio.Speaker
