-- What the receiver makes of any stream of frames: the messages of the frames
-- before the first one that it refuses, in their order and each in time, and an
-- error at that frame.
import EmbeddedAudio.WsPrompt

namespace EmbeddedAudio.Ws

open Storage

/-! ## Frames that are refused -/

/-- The frames of a stream before the first that is refused. -/
def accepted (cap : Nat) : Option Msg → List Frame → List Frame
  | _, [] => []
  | started, f :: fs =>
    match accept cap started f with
    | none => []
    | some (started', _) => f :: accepted cap started' fs

/-- The message that has started when a stream of frames was accepted. -/
def startedAfter (cap : Nat) (fs : List Frame) : Option Msg :=
  ((acceptAll cap none fs).map Prod.fst).getD none

/-- The messages that a stream is good for. -/
def reference (cap : Nat) (fs : List Frame) : List Msg := messages cap (accepted cap none fs)

/-- Why a frame is refused. -/
inductive Refused (cap : Nat) (started : Option Msg) (f : Frame) : Prop
  | unknown (hcontrol : isControl f.opcode = false) (hcontinue : f.opcode ≠ 0)
      (hdata : ¬ (f.opcode = EAF_SENDPIN_WS_TEXT ∨ f.opcode = EAF_SENDPIN_WS_BINARY))
  | unstarted (hcontinue : f.opcode = 0) (hstarted : started = none)
  | interrupts (hdata : f.opcode = EAF_SENDPIN_WS_TEXT ∨ f.opcode = EAF_SENDPIN_WS_BINARY)
      (hstarted : started ≠ none)
  | longControl (hcontrol : isControl f.opcode = true) (hlong : CONTROL_BYTES < f.payload.length)
  | longData (hcontrol : isControl f.opcode = false)
      (hlong : cap < ((started.map fun m => m.2.length).getD 0) + f.payload.length)

theorem extend_eq_none (cap : Nat) (m : Msg) (f : Frame) :
    extend cap m f = none ↔ cap < m.2.length + f.payload.length := by
  unfold extend
  by_cases hfits : m.2.length + f.payload.length ≤ cap
  · rw [if_pos hfits]
    constructor
    · intro h
      split at h
      · cases h
      · cases h
    · intro hlong
      exact absurd hfits (Nat.not_le.mpr hlong)
  · rw [if_neg hfits]
    exact ⟨fun _ => Nat.not_le.mp hfits, fun _ => rfl⟩

theorem refused_iff (cap : Nat) (started : Option Msg) (f : Frame) :
    accept cap started f = none ↔ Refused cap started f := by
  unfold accept
  by_cases hc : isControl f.opcode = true
  · rw [if_pos hc]
    have hne : f.opcode ≠ 0 := by
      intro h0
      rw [h0] at hc
      cases hc
    have hdata : ¬ (f.opcode = EAF_SENDPIN_WS_TEXT ∨ f.opcode = EAF_SENDPIN_WS_BINARY) := by
      intro hd
      rw [(not_control_of_data hd).1] at hc
      cases hc
    by_cases hlen : f.payload.length ≤ CONTROL_BYTES
    · rw [if_pos hlen]
      refine ⟨fun h => (by cases h), ?_⟩
      rintro (⟨h, -, -⟩ | ⟨h, -⟩ | ⟨h, -⟩ | ⟨-, h⟩ | ⟨h, -⟩)
      · rw [hc] at h
        cases h
      · exact absurd h hne
      · exact absurd h hdata
      · exact absurd hlen (Nat.not_le.mpr h)
      · rw [hc] at h
        cases h
    · rw [if_neg hlen]
      exact ⟨fun _ => .longControl hc (Nat.not_le.mp hlen), fun _ => rfl⟩
  · rw [if_neg hc]
    rw [Bool.not_eq_true] at hc
    rcases started with _ | m
    · simp only
      by_cases hdata : f.opcode = EAF_SENDPIN_WS_TEXT ∨ f.opcode = EAF_SENDPIN_WS_BINARY
      · rw [if_pos hdata, extend_eq_none]
        constructor
        · intro hlong
          exact .longData hc hlong
        · rintro (⟨-, -, h⟩ | ⟨h, -⟩ | ⟨-, h⟩ | ⟨h, -⟩ | ⟨-, h⟩)
          · exact absurd hdata h
          · exact absurd h (not_control_of_data hdata).2
          · exact absurd rfl h
          · rw [hc] at h
            cases h
          · exact h
      · rw [if_neg hdata]
        refine ⟨fun _ => ?_, fun _ => rfl⟩
        by_cases h0 : f.opcode = 0
        · exact .unstarted h0 rfl
        · exact .unknown hc h0 hdata
    · simp only
      by_cases h0 : f.opcode = 0
      · rw [if_pos h0, extend_eq_none]
        constructor
        · intro hlong
          exact .longData hc hlong
        · rintro (⟨-, h, -⟩ | ⟨-, h⟩ | ⟨h, -⟩ | ⟨h, -⟩ | ⟨-, h⟩)
          · exact absurd h0 h
          · cases h
          · exact absurd h0 (not_control_of_data h).2
          · rw [hc] at h
            cases h
          · exact h
      · rw [if_neg h0]
        refine ⟨fun _ => ?_, fun _ => rfl⟩
        by_cases hdata : f.opcode = EAF_SENDPIN_WS_TEXT ∨ f.opcode = EAF_SENDPIN_WS_BINARY
        · exact .interrupts hdata (by simp)
        · exact .unknown hc h0 hdata

/-- The bytes of a frame in front of its payload. -/
def headerSize (f : Frame) : Nat := 2 + (lengthBytes f.payload.length ++ f.keyBytes).length

/-- How much of a frame, and of what comes behind it, the receiver has seen when it looks at the
frame: a header of two bytes waits for the next byte. -/
def lookSize (f : Frame) : Nat := max 3 (headerSize f)

theorem loadMask_opcode (rx : WsRx) (f : Frame) :
    (loadMask (headerRead rx f)).opcode = f.opcode ∧
      (loadMask (headerRead rx f)).fragmenting = rx.fragmenting ∧
      (loadMask (headerRead rx f)).message = rx.message ∧
      (loadMask (headerRead rx f)).messageLength = rx.messageLength ∧
      (loadMask (headerRead rx f)).control = rx.control := by
  rw [loadMask_headerRead]
  exact ⟨rfl, rfl, rfl, rfl, rfl⟩

theorem invalid_ne : EAF_INVALID ≠ EAF_OK := by decide

theorem unsupported_ne : EAF_UNSUPPORTED ≠ EAF_OK := by decide

/-- A frame that does not fit does not begin. -/
theorem beginFrame_long {rx rx' : WsRx} (hopen : openFrame (loadMask rx) = (EAF_OK, rx'))
    (hroom : roomLeft rx' < (headerLength rx.header).1) : (beginFrame rx).1 ≠ EAF_OK := by
  unfold beginFrame
  simp only [hopen, ne_eq, not_true_eq_false, if_false]
  rw [if_pos hroom]
  exact unsupported_ne

theorem beginFrame_closed {rx : WsRx} (hopen : (openFrame (loadMask rx)).1 ≠ EAF_OK) :
    (beginFrame rx).1 ≠ EAF_OK := by
  unfold beginFrame
  simp only
  rw [if_pos hopen]
  exact hopen

/-- A data frame that is neither text nor binary goes on with a message that has started. -/
theorem beginFrame_refused_data {cap : Nat} {rx : WsRx} {started : Option Msg} {f : Frame}
    (h : AtBoundary cap rx started) (hc : isControl f.opcode = false)
    (hdata : ¬ (f.opcode = EAF_SENDPIN_WS_TEXT ∨ f.opcode = EAF_SENDPIN_WS_BINARY))
    (hstarted : f.opcode = 0 → started = none) : (beginFrame (headerRead rx f)).1 ≠ EAF_OK := by
  obtain ⟨hop, hfrag, -⟩ := loadMask_opcode rx f
  have hfragmenting := h.fragmenting
  apply beginFrame_closed
  unfold openFrame
  by_cases h0 : f.opcode = 0
  · rw [hstarted h0] at hfragmenting
    rw [hop, if_pos h0, hfrag, hfragmenting]
    exact invalid_ne
  · rw [hop, if_neg h0, if_neg hdata, hc, if_neg Bool.false_ne_true]
    exact unsupported_ne

/-- No message starts inside another one. -/
theorem beginFrame_interrupts {cap : Nat} {rx : WsRx} {started : Option Msg} {f : Frame}
    (h : AtBoundary cap rx started)
    (hdata : f.opcode = EAF_SENDPIN_WS_TEXT ∨ f.opcode = EAF_SENDPIN_WS_BINARY)
    (hstarted : started ≠ none) : (beginFrame (headerRead rx f)).1 ≠ EAF_OK := by
  obtain ⟨hop, hfrag, -⟩ := loadMask_opcode rx f
  have hfragmenting := h.fragmenting
  rw [Option.isSome_iff_ne_none.mpr hstarted] at hfragmenting
  apply beginFrame_closed
  unfold openFrame
  rw [hop, if_neg (not_control_of_data hdata).2, if_pos hdata, hfrag, hfragmenting, if_pos rfl]
  exact invalid_ne

theorem beginFrame_refused {cap : Nat} {rx : WsRx} {started : Option Msg} {f : Frame}
    (h : AtBoundary cap rx started) (href : Refused cap started f) :
    (beginFrame (headerRead rx f)).1 ≠ EAF_OK := by
  have hlen : (headerLength (headerRead rx f).header).1 = f.payload.length :=
    congrArg Prod.fst (headerLength_encode f f.keyBytes)
  obtain ⟨hop, hfrag, hmessage, hused, hcontrol⟩ := loadMask_opcode rx f
  have hfragmenting := h.fragmenting
  cases href with
  | unknown hc h0 hdata => exact beginFrame_refused_data h hc hdata fun h0' => absurd h0' h0
  | unstarted h0 hstarted =>
    have hc : isControl f.opcode = false := by rw [h0]; rfl
    have hdata : ¬ (f.opcode = EAF_SENDPIN_WS_TEXT ∨ f.opcode = EAF_SENDPIN_WS_BINARY) := by
      intro hd
      exact (not_control_of_data hd).2 h0
    exact beginFrame_refused_data h hc hdata fun _ => hstarted
  | interrupts hdata hstarted => exact beginFrame_interrupts h hdata hstarted
  | longControl hc hlong =>
    apply beginFrame_long (openFrame_control (by rw [hop]; exact hc))
    rw [hlen]
    simp only [roomLeft, hop, hc, if_true, hcontrol, h.control_size]
    exact hlong
  | longData hc hlong =>
    rcases started with _ | m
    · simp only [Option.map_none, Option.getD_none, Nat.zero_add] at hlong
      by_cases hdata : f.opcode = EAF_SENDPIN_WS_TEXT ∨ f.opcode = EAF_SENDPIN_WS_BINARY
      · apply beginFrame_long
          (openFrame_data (by rw [hop]; exact hdata) (by rw [hfrag]; exact hfragmenting))
        rw [hlen]
        simp only [roomLeft, hop, hc, Bool.false_eq_true, if_false, hmessage, h.message_size]
        exact hlong
      · exact beginFrame_refused_data h hc hdata (by simp)
    · simp only [Option.map_some, Option.getD_some] at hlong
      by_cases h0 : f.opcode = 0
      · have hle := h.wf.message_le
        rw [h.message_size, started_length h] at hle
        apply beginFrame_long
          (openFrame_continue (by rw [hop]; exact h0) (by rw [hfrag]; exact hfragmenting))
        rw [hlen]
        simp only [roomLeft, hop, hc, Bool.false_eq_true, if_false, hmessage, h.message_size, hused,
          started_length h]
        omega
      · by_cases hdata : f.opcode = EAF_SENDPIN_WS_TEXT ∨ f.opcode = EAF_SENDPIN_WS_BINARY
        · exact beginFrame_interrupts h hdata (by simp)
        · exact beginFrame_refused_data h hc hdata (fun h0' => absurd h0' h0)

theorem enterFrame_refused {cap : Nat} {rx : WsRx} {started : Option Msg} {f : Frame}
    (h : AtBoundary cap rx started) (href : Refused cap started f) :
    (enterFrame (headerRead rx f)).1 ≠ EAF_OK := by
  have hready : (headerRead rx f).frameReady = false := h.not_ready
  have hbegin := beginFrame_refused h href
  unfold enterFrame
  rw [hready, if_neg Bool.false_ne_true]
  exact hbegin

section Feed

variable {σ : Type} {callback : MessageFn σ}

/-! ## A refused frame -/

/-- As long as the receiver has not looked at a frame, nothing happens. -/
theorem wsRxFeed_unseen {cap : Nat} {rx : WsRx} {started : Option Msg} {f : Frame}
    (h : AtBoundary cap rx started) (hop : f.opcode < 16) {p more : List UInt8}
    (hp : p <+: f.encode ++ more) (hshort : p.length < lookSize f) (ctx : σ) :
    ∃ rx', wsRxFeed callback rx ctx p = (EAF_OK, rx', ctx) := by
  obtain ⟨q, hq⟩ := hp
  unfold Frame.encode at hq
  rcases p with _ | ⟨b0, _ | ⟨b1, p⟩⟩
  · exact ⟨rx, wsRxFeed_nil _ _⟩
  · have hlen : rx.header.length < 2 := by simp [h.no_header]
    rw [wsRxFeed_cons h.wf]
    unfold feedTurn
    rw [if_pos hlen]
    exact ⟨_, wsRxFeed_nil _ _⟩
  · simp only [List.cons_append, List.cons.injEq] at hq
    obtain ⟨rfl, rfl, -⟩ := hq
    obtain ⟨hhead, hwf⟩ := wsRxFeed_head callback h hop ctx p
    rw [hhead]
    rcases p with _ | ⟨c, data⟩
    · exact ⟨_, wsRxFeed_nil _ _⟩
    · -- three bytes are there, so the header is longer
      have hheader : (c :: data).length < (lengthBytes f.payload.length ++ f.keyBytes).length := by
        simp only [lookSize, headerSize, List.length_cons, List.length_append] at hshort ⊢
        omega
      have hm : headerMissing (headed rx f) =
          (lengthBytes f.payload.length ++ f.keyBytes).length := by
        simp only [headerMissing, headed, List.length_append, List.length_cons, List.length_nil]
        omega
      rw [wsRxFeed_cons hwf, feedTurn_eq (by simp [headed]), hm,
        List.take_of_length_le (Nat.le_of_lt hheader), List.drop_of_length_le (Nat.le_of_lt hheader)]
      simp only
      rw [if_pos (by
        simp only [growHeader, headed, List.length_append, List.length_cons, List.length_nil]
          at hheader ⊢
        omega)]
      exact ⟨_, wsRxFeed_nil _ _⟩

/-- When the receiver looks at a frame that it refuses, it returns an error and calls nobody. -/
theorem wsRxFeed_refused {cap : Nat} {rx : WsRx} {started : Option Msg} {f : Frame}
    (h : AtBoundary cap rx started) (hop : f.opcode < 16) (href : Refused cap started f)
    {p more : List UInt8} (hp : p <+: f.encode ++ more) (hlong : lookSize f ≤ p.length) (ctx : σ) :
    ∃ rc rx', rc ≠ EAF_OK ∧ wsRxFeed callback rx ctx p = (rc, rx', ctx) := by
  obtain ⟨q, hq⟩ := hp
  unfold lookSize headerSize at hlong
  unfold Frame.encode Frame.tail at hq
  rcases p with _ | ⟨b0, _ | ⟨b1, _ | ⟨c, data⟩⟩⟩
  · simp at hlong
  · simp at hlong
  · simp at hlong
  · simp only [List.cons_append, List.cons.injEq] at hq
    obtain ⟨rfl, rfl, hq⟩ := hq
    rw [← List.cons_append] at hq
    obtain ⟨hhead, hwf⟩ := wsRxFeed_head callback h hop ctx (c :: data)
    -- the rest of the header comes first
    have hheader : (lengthBytes f.payload.length ++ f.keyBytes).length ≤ (c :: data).length := by
      simp only [List.length_cons, List.length_append] at hlong ⊢
      omega
    have htake := congrArg (List.take (lengthBytes f.payload.length ++ f.keyBytes).length) hq
    rw [List.take_append_of_le_length hheader, List.append_assoc, List.take_left] at htake
    have hparts : c :: data = lengthBytes f.payload.length ++ f.keyBytes ++
        (c :: data).drop (lengthBytes f.payload.length ++ f.keyBytes).length := by
      conv => lhs; rw [← List.take_append_drop
        (lengthBytes f.payload.length ++ f.keyBytes).length (c :: data), htake]
    have henter := enterFrame_refused h href
    rcases he : enterFrame (headerRead rx f) with ⟨rc, rx'⟩
    rw [he] at henter
    refine ⟨rc, rx', henter, ?_⟩
    rw [hhead, wsRxFeed_cons hwf, feedTurn_headed rx f ctx c data _ hparts, framePhase_err he henter]
    rfl

/-! ## Calls that were made -/

/-- Calls that were made stay in the log. -/
theorem log_grows {rx : WsRx} (hwf : Wf rx) (ctx : σ) (log : List Msg) (data : List UInt8) :
    log <+: (wsRxFeed (traced callback) rx (ctx, log) data).2.2.2 := by
  refine wsRxFeed_ctx (traced callback) (P := fun s => log <+: s.2) ?_ hwf List.prefix_rfl data
  intro s opcode buf length _ hs
  exact hs.trans (List.prefix_append _ _)

/-- The calls on a part of some bytes are the first of those on all of them, and an error in the
part is the error of the whole. -/
theorem log_part {rx : WsRx} (hwf : Wf rx) (s : σ × List Msg) (data more : List UInt8) :
    (wsRxFeed (traced callback) rx s data).2.2.2 <+:
        (wsRxFeed (traced callback) rx s (data ++ more)).2.2.2 ∧
      ((wsRxFeed (traced callback) rx s data).1 ≠ EAF_OK →
        (wsRxFeed (traced callback) rx s (data ++ more)).1 ≠ EAF_OK) := by
  have hwf' : Wf (wsRxFeed (traced callback) rx s data).2.1 :=
    (buffers_wsRxFeed ⟨hwf, rfl, rfl⟩ s data).wf
  rw [wsRxFeed_append hwf]
  generalize wsRxFeed (traced callback) rx s data = r at hwf' ⊢
  obtain ⟨rc, rx', ctx', log'⟩ := r
  unfold feedNext
  by_cases hrc : rc = EAF_OK
  · rw [if_neg (not_not.mpr hrc)]
    exact ⟨log_grows hwf' ctx' log' more, fun hne => absurd hrc hne⟩
  · rw [if_pos hrc]
    exact ⟨List.prefix_rfl, fun _ => hrc⟩

/-- Behind frames that are accepted, with a byte more, all of their messages have been given. -/
theorem feed_behind (hcb : Succeeds callback) (message : List UInt8) (ctx : σ) {fs : List Frame}
    {mid : Option Msg} {ms : List Msg} (hfs : acceptAll message.length none fs = some (mid, ms)) :
    ∃ rx ctx', AtBoundary message.length rx mid ∧ ∀ p, p ≠ [] →
      wsRxFeed (traced callback) (wsRxInit message) (ctx, []) (encodeAll fs ++ p) =
        wsRxFeed (traced callback) rx (ctx', ms) p := by
  have hinit := atBoundary_init message
  obtain ⟨rx, ctx1, given, owed, hfeed, hbetween, rfl, -⟩ := feed_frames hcb hinit ctx fs hfs
  obtain ⟨rx', ctx', hbound, hlate⟩ := between_feed hcb hbetween ctx1 given
  refine ⟨rx', ctx', hbound, fun p hp => ?_⟩
  rw [wsRxFeed_append hinit.wf, hfeed]
  simp only [feedNext, ne_eq, not_true_eq_false, if_false]
  exact hlate p hp

/-! ## The stream before the first refused frame -/

theorem accepted_spec (cap : Nat) (started : Option Msg) (fs : List Frame) :
    ∃ mid ms, acceptAll cap started (accepted cap started fs) = some (mid, ms) ∧
      (accepted cap started fs = fs ∨
        ∃ bad rest, fs = accepted cap started fs ++ bad :: rest ∧ accept cap mid bad = none) := by
  induction fs generalizing started with
  | nil => exact ⟨started, [], rfl, Or.inl rfl⟩
  | cons f fs ih =>
    rcases haccept : accept cap started f with _ | ⟨next, m⟩
    · simp only [accepted, haccept]
      exact ⟨started, [], rfl, Or.inr ⟨f, fs, rfl, haccept⟩⟩
    · obtain ⟨mid, ms, hall, hrest⟩ := ih next
      simp only [accepted, haccept]
      refine ⟨mid, m.toList ++ ms, ?_, ?_⟩
      · simp [acceptAll, haccept, hall]
      · rcases hrest with hwhole | ⟨bad, rest, hsplit, hbad⟩
        · exact Or.inl (by rw [hwhole])
        · refine Or.inr ⟨bad, rest, ?_, hbad⟩
          rw [List.cons_append, ← hsplit]

theorem encodeAll_cons (f : Frame) (fs : List Frame) :
    encodeAll (f :: fs) = f.encode ++ encodeAll fs := rfl

/-- What calls on a part of a stream have to do. -/
structure Reassembles (cap : Nat) (fs : List Frame) (n : Nat) (rc : Rc) (log : List Msg) : Prop where
  /-- The calls are the first of the reference list. -/
  in_order : log <+: reference cap fs
  /-- What ends before the last byte has been given. -/
  in_time : ∀ done, done <+: accepted cap none fs → (encodeAll done).length < n →
    messages cap done <+: log
  /-- There is an error exactly when the receiver has looked at a frame that it refuses. -/
  refused : rc ≠ EAF_OK ↔ ∃ bad rest, fs = accepted cap none fs ++ bad :: rest ∧
    Refused cap (startedAfter cap (accepted cap none fs)) bad ∧
    (encodeAll (accepted cap none fs)).length + lookSize bad ≤ n

theorem acceptAll_leading {cap : Nat} {fs done : List Frame} {r : Option Msg × List Msg}
    (h : acceptAll cap none fs = some r) (hdone : done <+: fs) :
    ∃ mid ms, acceptAll cap none done = some (mid, ms) := by
  obtain ⟨rest, rfl⟩ := hdone
  obtain ⟨last, all⟩ := r
  obtain ⟨mid, ms, -, hms, -⟩ := acceptAll_split h
  exact ⟨mid, ms, hms⟩

theorem encodeAll_leading {fs done : List Frame} (hdone : done <+: fs) :
    encodeAll done <+: encodeAll fs := by
  obtain ⟨rest, rfl⟩ := hdone
  rw [encodeAll_append]
  exact List.prefix_append _ _

/-- The first refused frame is the only one that the receiver can have looked at and refused. -/
theorem looked_iff {cap : Nat} {fs rest : List Frame} {mid : Option Msg} {ms : List Msg}
    {bad : Frame} (hall : acceptAll cap none (accepted cap none fs) = some (mid, ms))
    (hfs : fs = accepted cap none fs ++ bad :: rest) (hbad : accept cap mid bad = none) (n : Nat) :
    (∃ bad rest, fs = accepted cap none fs ++ bad :: rest ∧
      Refused cap (startedAfter cap (accepted cap none fs)) bad ∧
      (encodeAll (accepted cap none fs)).length + lookSize bad ≤ n) ↔
    (encodeAll (accepted cap none fs)).length + lookSize bad ≤ n := by
  have hstarted : startedAfter cap (accepted cap none fs) = mid := by
    simp [startedAfter, hall]
  constructor
  · rintro ⟨bad', rest', hfs', -, hlook⟩
    have hsame := List.append_cancel_left (hfs'.symm.trans hfs)
    rwa [(List.cons.inj hsame).1] at hlook
  · intro hlook
    refine ⟨bad, rest, hfs, ?_, hlook⟩
    rw [hstarted]
    exact (refused_iff _ _ _).mp hbad

/-- A message is given when a byte behind its last frame is there. -/
theorem feed_in_time (hcb : Succeeds callback) (message : List UInt8) (ctx : σ) {fs : List Frame}
    {r : Option Msg × List Msg} (hall : acceptAll message.length none fs = some r)
    {data : List UInt8} (hdata : data <+: encodeAll fs ∨ encodeAll fs <+: data) {done : List Frame}
    (hdone : done <+: fs) (hshort : (encodeAll done).length < data.length) :
    messages message.length done <+:
      (wsRxFeed (traced callback) (wsRxInit message) (ctx, []) data).2.2.2 := by
  obtain ⟨mid, ms, hms⟩ := acceptAll_leading hall hdone
  have hpart : encodeAll done <+: data := by
    have hleading := encodeAll_leading hdone
    rcases hdata with hdata | hdata
    · exact List.prefix_of_prefix_length_le hleading hdata (Nat.le_of_lt hshort)
    · exact hleading.trans hdata
  obtain ⟨p, rfl⟩ := hpart
  have hp : p ≠ [] := by
    rintro rfl
    simp at hshort
  obtain ⟨rx, ctx', hbound, hfeed⟩ := feed_behind hcb message ctx hms
  have hgiven : messages message.length done = ms := by simp [messages, hms]
  rw [hfeed p hp, hgiven]
  exact log_grows hbound.wf ctx' ms p

/-- Where the bytes go on behind the accepted frames, all of their messages have been given, and
the next frame is an error once the receiver has looked at it. -/
theorem feed_refuses (hcb : Succeeds callback) (message : List UInt8) (ctx : σ) {fs : List Frame}
    {mid : Option Msg} {ms : List Msg} (hall : acceptAll message.length none fs = some (mid, ms))
    {bad : Frame} (hop : bad.opcode < 16) (hbad : accept message.length mid bad = none)
    {rest p : List UInt8} (hp : p ≠ []) (hmore : p <+: bad.encode ++ rest) :
    (wsRxFeed (traced callback) (wsRxInit message) (ctx, []) (encodeAll fs ++ p)).2.2.2 = ms ∧
      ((wsRxFeed (traced callback) (wsRxInit message) (ctx, []) (encodeAll fs ++ p)).1 ≠ EAF_OK ↔
        lookSize bad ≤ p.length) := by
  obtain ⟨rx, ctx', hbound, hfeed⟩ := feed_behind hcb message ctx hall
  rw [hfeed p hp]
  rcases Nat.lt_or_ge p.length (lookSize bad) with hunseen | hseen
  · obtain ⟨rx', hfed⟩ := @wsRxFeed_unseen _ (traced callback) _ _ _ _ hbound hop _ _ hmore
      hunseen (ctx', ms)
    rw [hfed]
    exact ⟨rfl, fun hne => absurd rfl hne, fun hlook => absurd hlook (Nat.not_le.mpr hunseen)⟩
  · obtain ⟨rc, rx', hrc, hfed⟩ := @wsRxFeed_refused _ (traced callback) _ _ _ _ hbound hop
      ((refused_iff _ _ _).mp hbad) _ _ hmore hseen (ctx', ms)
    rw [hfed]
    exact ⟨rfl, fun _ => hseen, fun _ => hrc⟩

theorem feed_reassembles (hcb : Succeeds callback) (message : List UInt8) (ctx : σ)
    (fs : List Frame) (hopcodes : ∀ f ∈ fs, f.opcode < 16) {data : List UInt8}
    (hdata : data <+: encodeAll fs) :
    Reassembles message.length fs data.length
      (wsRxFeed (traced callback) (wsRxInit message) (ctx, []) data).1
      (wsRxFeed (traced callback) (wsRxInit message) (ctx, []) data).2.2.2 := by
  obtain ⟨mid, ms, hall, hsplit⟩ := accepted_spec message.length none fs
  have hreference : reference message.length fs = ms := by simp [reference, messages, hall]
  have hgood : accepted message.length none fs <+: fs := by
    rcases hsplit with hwhole | ⟨bad, rest, hfs, -⟩
    · rw [hwhole]
    · exact ⟨bad :: rest, hfs.symm⟩
  have hbytes := encodeAll_leading hgood
  have hside := List.prefix_or_prefix_of_prefix hdata hbytes
  have htime := fun done (hdone : done <+: _) hshort =>
    feed_in_time hcb message ctx hall hside hdone hshort
  rcases Nat.lt_or_ge (encodeAll (accepted message.length none fs)).length data.length with
    hlong | hshort
  · -- the bytes go on behind the accepted frames
    have hpart := List.prefix_of_prefix_length_le hbytes hdata (Nat.le_of_lt hlong)
    rcases hsplit with hwhole | ⟨bad, rest, hfs, hbad⟩
    · have hle := hdata.length_le
      rw [hwhole] at hlong
      omega
    obtain ⟨p, rfl⟩ := hpart
    have hp : p ≠ [] := by
      rintro rfl
      simp at hlong
    have hop : bad.opcode < 16 := by
      apply hopcodes
      rw [hfs]
      simp
    have hmore : p <+: bad.encode ++ encodeAll rest := by
      have hdata' := hdata
      rw [hfs, encodeAll_append, encodeAll_cons, ← hfs] at hdata'
      exact (List.prefix_append_right_inj _).mp hdata'
    obtain ⟨hlog, hrefused⟩ := feed_refuses hcb message ctx hall hop hbad hp hmore
    refine ⟨?_, htime, ?_⟩
    · rw [hreference, hlog]
    · rw [looked_iff hall hfs hbad, hrefused, List.length_append]
      omega
  · -- the bytes are a part of the accepted frames
    have hinit := atBoundary_init message
    have hpart := List.prefix_of_prefix_length_le hdata hbytes hshort
    obtain ⟨more, hmore⟩ := hpart
    obtain ⟨rx, ctx', given, owed, hfeed, -, hgiven, -⟩ := feed_frames hcb hinit ctx _ hall
    obtain ⟨hlog, herr⟩ := @log_part _ callback _ hinit.wf (ctx, []) data more
    rw [hmore, hfeed] at hlog herr
    refine ⟨?_, htime, ?_⟩
    · rw [hreference, hgiven]
      exact hlog.trans (List.prefix_append _ _)
    · refine ⟨fun hne => absurd rfl (herr hne), ?_⟩
      rintro ⟨bad, rest, -, -, hlook⟩
      unfold lookSize at hlook
      omega

end Feed

/-! ## Calls on the chunks of a stream -/

/-- Whatever the frames are and however their bytes are cut into calls, the messages of the frames
before the first refused one are given, in their order and in time, and that frame is an error. -/
theorem wsRxFeedAll_reassembles {σ : Type} {callback : MessageFn σ} (hcb : Succeeds callback)
    (message : List UInt8) (ctx : σ) (fs : List Frame) (hopcodes : ∀ f ∈ fs, f.opcode < 16)
    (chunks : List (List UInt8)) (hchunks : chunks.flatten <+: encodeAll fs) :
    Reassembles message.length fs chunks.flatten.length
      (wsRxFeedAll (traced callback) (wsRxInit message) (ctx, []) chunks).1
      (wsRxFeedAll (traced callback) (wsRxInit message) (ctx, []) chunks).2.2.2 := by
  rw [wsRxFeedAll_eq _ (wf_init message)]
  exact feed_reassembles hcb message ctx fs hopcodes hchunks

/-- A text in two fragments, masked and not, with a ping between them, and a frame with an opcode
that there is not. -/
def fragmentedText : List Frame :=
  [⟨false, EAF_SENDPIN_WS_TEXT, some ⟨1, 2, 3, 4⟩, [0x61], by decide⟩,
    ⟨true, EAF_SENDPIN_WS_PING, none, [0x78], by decide⟩, ⟨true, 0, none, [0x62], by decide⟩,
    ⟨true, 3, none, [0x63], by decide⟩]

def byteByByte (bytes : List UInt8) : List (List UInt8) := bytes.map fun b => [b]

theorem wsRxFeedAll_reassembles_fragmentedText :
    (wsRxFeedAll (traced recorder) (wsRxInit [0, 0]) ([], [])
      (byteByByte (encodeAll fragmentedText))).2.2.2 =
        [(EAF_SENDPIN_WS_PING, [0x78]), (EAF_SENDPIN_WS_TEXT, [0x61, 0x62])] ∧
    Reassembles 2 fragmentedText (byteByByte (encodeAll fragmentedText)).flatten.length
      (wsRxFeedAll (traced recorder) (wsRxInit [0, 0]) ([], [])
        (byteByByte (encodeAll fragmentedText))).1
      (wsRxFeedAll (traced recorder) (wsRxInit [0, 0]) ([], [])
        (byteByByte (encodeAll fragmentedText))).2.2.2 :=
  ⟨by decide +kernel, wsRxFeedAll_reassembles recorder_succeeds [0, 0] [] fragmentedText (by decide)
    (byteByByte (encodeAll fragmentedText)) (by decide +kernel)⟩

end EmbeddedAudio.Ws
