-- When the receiver gives a message. Fed with the chunks of a valid stream, it
-- makes each callback in the call that supplies the last byte of the frame,
-- but for an empty unmasked frame at the end of a chunk: that one waits for
-- the next byte.
import EmbeddedAudio.WsFrames

namespace EmbeddedAudio.Ws

variable {σ : Type}

/-- A callback that also writes down what it is given. -/
def traced (callback : MessageFn σ) : MessageFn (σ × List Msg) := fun (ctx, log) opcode buf length =>
  let (rc, ctx) := callback ctx opcode buf length
  (rc, ctx, log ++ [(opcode, buf.take length)])

/-- A callback that never fails. -/
def Succeeds (callback : MessageFn σ) : Prop :=
  ∀ ctx opcode buf length, (callback ctx opcode buf length).1 = EAF_OK

/-- The receive calls on the chunks in turn, up to the first error. -/
def wsRxFeedAll (callback : MessageFn σ) (rx : WsRx) (ctx : σ) (chunks : List (List UInt8)) :
    Rc × WsRx × σ :=
  chunks.foldl (feedNext callback) (EAF_OK, rx, ctx)

theorem feedNext_foldl (callback : MessageFn σ) {r : Rc × WsRx × σ} (h : Wf r.2.1)
    (a : List UInt8) (chunks : List (List UInt8)) :
    chunks.foldl (feedNext callback) (feedNext callback r a) =
      feedNext callback r (a ++ chunks.flatten) := by
  induction chunks generalizing a with
  | nil => simp
  | cons b chunks ih =>
    have hjoin : feedNext callback (feedNext callback r a) b = feedNext callback r (a ++ b) := by
      by_cases hrc : r.1 = EAF_OK
      · have : wsRxFeed callback r.2.1 r.2.2 (a ++ b) = _ := wsRxFeed_append h r.2.2 a b
        simp only [feedNext, hrc, ne_eq, not_true_eq_false, if_false]
        rw [this]
        rfl
      · simp [feedNext, hrc]
    rw [List.foldl_cons, hjoin, ih, List.flatten_cons, List.append_assoc]

/-- The receive calls on the chunks of a stream are one call on the stream. -/
theorem wsRxFeedAll_eq (callback : MessageFn σ) {rx : WsRx} (h : Wf rx) (ctx : σ)
    (chunks : List (List UInt8)) :
    wsRxFeedAll callback rx ctx chunks = wsRxFeed callback rx ctx chunks.flatten := by
  have hstart : feedNext callback (EAF_OK, rx, ctx) [] = (EAF_OK, rx, ctx) := by simp [feedNext]
  unfold wsRxFeedAll
  conv => lhs; rw [← hstart]
  rw [feedNext_foldl callback (r := (EAF_OK, rx, ctx)) h, List.nil_append]
  simp [feedNext]

/-! ## Frames one after another -/

/-- A frame that is its first two bytes only: empty, and not masked. -/
def Frame.bare (f : Frame) : Prop := f.key = none ∧ f.payload = []

theorem tail_eq_nil (f : Frame) : f.tail = [] ↔ f.bare := by
  unfold Frame.bare
  constructor
  · intro h
    have hlen := congrArg List.length h
    simp only [Frame.tail, List.length_append, length_keyBytes, length_wirePayload,
      List.length_nil] at hlen
    refine ⟨?_, List.length_eq_zero_iff.mp (by omega)⟩
    rcases hk : f.key with _ | k
    · rfl
    · simp [hk] at hlen
  · rintro ⟨hk, hp⟩
    simp [Frame.tail, Frame.keyBytes, Frame.wirePayload, hk, hp, lengthBytes]

/-- The receiver between two frames of a stream, and the messages that it still owes. -/
inductive Between (cap : Nat) : WsRx → Option Msg → List Msg → Prop
  | boundary {rx : WsRx} {started : Option Msg} (h : AtBoundary cap rx started) :
      Between cap rx started []
  | waiting {rx : WsRx} {started started' : Option Msg} {f : Frame} {m : Option Msg}
      (h : AtBoundary cap rx started) (hacc : accept cap started f = some (started', m))
      (hbare : f.bare) : Between cap (headed rx f) started' m.toList

/-- Nothing is owed when no byte waits. -/
theorem between_idle {cap : Nat} {rx : WsRx} {started : Option Msg} {owed : List Msg}
    (h : Between cap rx started owed) (hidle : rx.header = []) : owed = [] := by
  cases h with
  | boundary h => rfl
  | waiting h hacc _ => simp [headed] at hidle

section Run

variable {callback : MessageFn σ}

/-- A whole frame gives its message, and leaves the receiver at a boundary. -/
theorem afterFrame_ok (hcb : Succeeds callback) {cap : Nat} {rx : WsRx}
    {started started' : Option Msg} {f : Frame} {m : Option Msg} (h : AtBoundary cap rx started)
    (hacc : accept cap started f = some (started', m)) (ctx : σ) (log : List Msg) :
    AtBoundary cap (frameDone rx f) started' ∧
    ∃ ctx', afterFrame (traced callback) rx f (ctx, log) =
      (EAF_OK, frameDone rx f, ctx', log ++ m.toList) := by
  have hwf := (wsRxFeed_head callback h (opcode_of_accept hacc) ctx []).2
  have hpay := wf_payloadRead (wf_begun hwf (enterFrame_headerRead h hacc))
  refine ⟨atBoundary_frameDone h hacc hpay, ?_⟩
  unfold afterFrame
  rcases giveMessage_spec (traced callback) h hacc with ⟨rfl, hgive⟩ | ⟨op, buf, n, rfl, hgive⟩
  · exact ⟨ctx, by simp [hgive]⟩
  · refine ⟨(callback ctx op buf n).2, ?_⟩
    have hrc := hcb ctx op buf n
    simp [hgive, traced, hrc]

/-- What the receiver owes is given before the next byte is read. -/
theorem between_feed (hcb : Succeeds callback) {cap : Nat} {rx : WsRx} {started : Option Msg}
    {owed : List Msg} (h : Between cap rx started owed) (ctx : σ) (log : List Msg) :
    ∃ rx' ctx', AtBoundary cap rx' started ∧ ∀ data, data ≠ [] →
      wsRxFeed (traced callback) rx (ctx, log) data =
        wsRxFeed (traced callback) rx' (ctx', log ++ owed) data := by
  cases h with
  | boundary h => exact ⟨rx, ctx, h, fun data _ => by rw [List.append_nil]⟩
  | @waiting rx started _ f m h hacc hbare =>
    have htail := (tail_eq_nil f).mpr hbare
    obtain ⟨hbound, ctx', hafter⟩ := afterFrame_ok hcb h hacc ctx log
    refine ⟨frameDone rx f, ctx', hbound, fun data hdata => ?_⟩
    rcases data with _ | ⟨c, data⟩
    · exact absurd rfl hdata
    · rw [wsRxFeed_headed h hacc htail, hafter]
      simp [feedNext]

/-- One more frame: what was owed and its message are given, up to what is owed now. -/
theorem between_frame (hcb : Succeeds callback) {cap : Nat} {rx : WsRx}
    {started started' : Option Msg} {owed : List Msg} {f : Frame} {m : Option Msg}
    (h : Between cap rx started owed) (hacc : accept cap started f = some (started', m)) (ctx : σ)
    (log : List Msg) :
    ∃ rx' ctx' given owed', wsRxFeed (traced callback) rx (ctx, log) f.encode =
        (EAF_OK, rx', ctx', log ++ given) ∧
      Between cap rx' started' owed' ∧ owed ++ m.toList = given ++ owed' ∧
      (rx'.header = [] ↔ ¬ f.bare) := by
  obtain ⟨rx1, ctx1, hbound, hfeed⟩ := between_feed hcb h ctx log
  rw [hfeed f.encode (by simp [Frame.encode])]
  by_cases hbare : f.bare
  · have htail := (tail_eq_nil f).mpr hbare
    exact ⟨headed rx1 f, ctx1, owed, m.toList, wsRxFeed_bare hbound hacc htail _,
      .waiting hbound hacc hbare, rfl, by simp [headed, hbare]⟩
  · have htail : f.tail ≠ [] := fun htail => hbare ((tail_eq_nil f).mp htail)
    obtain ⟨hbound', ctx', hafter⟩ := afterFrame_ok hcb hbound hacc ctx1 (log ++ owed)
    refine ⟨frameDone rx1 f, ctx', owed ++ m.toList, [], ?_, .boundary hbound', ?_, ?_⟩
    · rw [wsRxFeed_frame hbound hacc htail, hafter, List.append_assoc]
    · rw [List.append_nil]
    · simp [hbare, hbound'.no_header]

theorem acceptAll_append {cap : Nat} {started : Option Msg} (fs gs : List Frame) :
    acceptAll cap started (fs ++ gs) = (do
      let (started, ms) ← acceptAll cap started fs
      let (started, ms') ← acceptAll cap started gs
      return (started, ms ++ ms')) := by
  induction fs generalizing started with
  | nil =>
    simp only [List.nil_append, acceptAll, Option.bind_eq_bind, Option.bind_some]
    rcases acceptAll cap started gs with _ | ⟨st, ms⟩ <;> simp
  | cons f fs ih =>
    simp only [List.cons_append, acceptAll, ih, Option.bind_eq_bind]
    rcases accept cap started f with _ | ⟨st, m⟩
    · rfl
    · simp only [Option.bind_some]
      rcases acceptAll cap st fs with _ | ⟨st', ms⟩
      · rfl
      · simp only [Option.bind_some, Option.pure_def]
        rcases acceptAll cap st' gs with _ | ⟨st'', ms'⟩
        · rfl
        · simp

theorem acceptAll_split {cap : Nat} {started started' : Option Msg} {fs gs : List Frame}
    {ms : List Msg} (h : acceptAll cap started (fs ++ gs) = some (started', ms)) :
    ∃ mid ms1 ms2, acceptAll cap started fs = some (mid, ms1) ∧
      acceptAll cap mid gs = some (started', ms2) ∧ ms = ms1 ++ ms2 := by
  rw [acceptAll_append] at h
  rcases h1 : acceptAll cap started fs with _ | ⟨mid, ms1⟩
  · simp [h1] at h
  · rcases h2 : acceptAll cap mid gs with _ | ⟨st, ms2⟩
    · simp [h1, h2] at h
    · simp only [h1, h2, Option.bind_eq_bind, Option.bind_some, Option.pure_def,
        Option.some.injEq, Prod.mk.injEq] at h
      obtain ⟨rfl, rfl⟩ := h
      exact ⟨mid, ms1, ms2, rfl, h2, rfl⟩

theorem encodeAll_append (fs gs : List Frame) :
    encodeAll (fs ++ gs) = encodeAll fs ++ encodeAll gs := by
  simp [encodeAll]

/-- The frames of a valid stream, from the first one on. The last one decides whether the
receiver waits. -/
theorem feed_frames (hcb : Succeeds callback) {cap : Nat} {rx : WsRx} {started : Option Msg}
    (h : AtBoundary cap rx started) (ctx : σ) (fs : List Frame) {started' : Option Msg}
    {ms : List Msg} (hfs : acceptAll cap started fs = some (started', ms)) :
    ∃ rx' ctx' given owed, wsRxFeed (traced callback) rx (ctx, []) (encodeAll fs) =
        (EAF_OK, rx', ctx', given) ∧
      Between cap rx' started' owed ∧ ms = given ++ owed ∧
      (rx'.header = [] ↔ ∀ pre f, fs = pre ++ [f] → ¬ f.bare) := by
  induction fs using List.reverseRecOn generalizing started' ms with
  | nil =>
    simp only [acceptAll, Option.some.injEq, Prod.mk.injEq] at hfs
    obtain ⟨rfl, rfl⟩ := hfs
    exact ⟨rx, ctx, [], [], wsRxFeed_nil _ _, .boundary h, rfl, by simp [h.no_header]⟩
  | append_singleton fs f ih =>
    obtain ⟨mid, ms1, ms2, hfs1, hfs2, rfl⟩ := acceptAll_split hfs
    obtain ⟨rx1, ctx1, given1, owed1, hfeed1, hbet1, rfl, _⟩ := ih hfs1
    obtain ⟨m, hacc, rfl⟩ : ∃ m, accept cap mid f = some (started', m) ∧ ms2 = m.toList := by
      simp only [acceptAll, Option.bind_eq_bind] at hfs2
      rcases hacc : accept cap mid f with _ | ⟨st, m⟩
      · simp [hacc] at hfs2
      · simp only [hacc, Option.bind_some, Option.pure_def, Option.some.injEq, Prod.mk.injEq,
          List.append_nil] at hfs2
        exact ⟨m, by rw [hfs2.1], hfs2.2.symm⟩
    obtain ⟨rx2, ctx2, given2, owed2, hfeed2, hbet2, hsplit, hwait⟩ :=
      between_frame hcb hbet1 hacc ctx1 given1
    refine ⟨rx2, ctx2, given1 ++ given2, owed2, ?_, hbet2, ?_, ?_⟩
    · rw [encodeAll_append, wsRxFeed_append h.wf, hfeed1]
      simpa [feedNext, encodeAll] using hfeed2
    · rw [List.append_assoc, List.append_assoc, hsplit]
    · rw [hwait]
      constructor
      · intro hbare pre g hlast
        have := (List.append_inj_right' hlast rfl)
        simp only [List.cons.injEq, and_true] at this
        rwa [← this]
      · intro hlast
        exact hlast fs f rfl

/-! ## The frames that are complete -/

/-- The frames whose bytes are all among the first `n` of the stream. -/
def framesWithin : List Frame → Nat → List Frame
  | [], _ => []
  | f :: fs, n =>
    if f.encode.length ≤ n then f :: framesWithin fs (n - f.encode.length) else []

/-- The messages of a stream that is valid. -/
def messages (cap : Nat) (fs : List Frame) : List Msg := ((acceptAll cap none fs).map Prod.snd).getD []

/-- What comes after the complete frames is a part of the next one. -/
theorem framesWithin_split {fs : List Frame} {data : List UInt8} (h : data <+: encodeAll fs) :
    ∃ p gs, fs = framesWithin fs data.length ++ gs ∧
      data = encodeAll (framesWithin fs data.length) ++ p ∧
      (p = [] ∨ ∃ f gs', gs = f :: gs' ∧ p <+: f.encode ∧ p ≠ f.encode) := by
  induction fs generalizing data with
  | nil =>
    have : data = [] := by simpa [encodeAll] using h
    subst this
    exact ⟨[], [], rfl, rfl, .inl rfl⟩
  | cons f fs ih =>
    obtain ⟨q, hq⟩ := h
    rw [show encodeAll (f :: fs) = f.encode ++ encodeAll fs from rfl] at hq
    unfold framesWithin
    by_cases hlen : f.encode.length ≤ data.length
    · rw [if_pos hlen]
      have htake := congrArg (List.take f.encode.length) hq
      have hdrop := congrArg (List.drop f.encode.length) hq
      rw [List.take_left, List.take_append_of_le_length hlen] at htake
      rw [List.drop_left, List.drop_append_of_le_length hlen] at hdrop
      obtain ⟨p, gs, hfs, hdata, hp⟩ := ih ⟨q, hdrop⟩
      rw [List.length_drop] at hfs hdata
      refine ⟨p, gs, ?_, ?_, hp⟩
      · rw [List.cons_append, ← hfs]
      · calc data = data.take f.encode.length ++ data.drop f.encode.length :=
              (List.take_append_drop _ _).symm
          _ = f.encode ++ (encodeAll (framesWithin fs (data.length - f.encode.length)) ++ p) := by
              rw [htake, ← hdata]
          _ = _ := (List.append_assoc _ _ _).symm
    · rw [if_neg hlen]
      refine ⟨data, f :: fs, rfl, rfl, .inr ⟨f, fs, rfl, ?_, ?_⟩⟩
      · exact List.prefix_of_prefix_length_le ⟨q, hq⟩ ⟨_, rfl⟩ (by omega)
      · rintro rfl
        omega

theorem framesWithin_exact (fs gs : List Frame) :
    framesWithin (fs ++ gs) (encodeAll fs).length = fs := by
  induction fs with
  | nil =>
    rcases gs with _ | ⟨g, gs⟩
    · rfl
    · simp [framesWithin, encodeAll, Frame.encode]
  | cons f fs ih =>
    have hlen : (encodeAll (f :: fs)).length = f.encode.length + (encodeAll fs).length := by
      simp [encodeAll]
    rw [List.cons_append, framesWithin, hlen, if_pos (by omega), Nat.add_sub_cancel_left, ih]

/-! ## When a message is given -/

/-- The messages of the frames that are complete are given, and where the bytes end with a
frame, no byte of it waits in the receiver. -/
def PromptAt (callback : MessageFn σ) (message : List UInt8) (ctx : σ) (fs : List Frame)
    (chunks : List (List UInt8)) : Prop :=
  let (_, rx, _, log) := wsRxFeedAll (traced callback) (wsRxInit message) (ctx, []) chunks
  log = messages message.length (framesWithin fs chunks.flatten.length) ∧
    (chunks.flatten = encodeAll (framesWithin fs chunks.flatten.length) → rx.header = [])

/-- Every receive call gives the messages of the frames whose last byte it is given. -/
def Prompt (callback : MessageFn σ) (message : List UInt8) (ctx : σ) (fs : List Frame)
    (chunks : List (List UInt8)) : Prop :=
  ∀ j, j ≤ chunks.length → PromptAt callback message ctx fs (chunks.take j)

/-- The first chunks end where a frame ends that is its first two bytes only. -/
def EndsBare (fs : List Frame) (chunks : List (List UInt8)) : Prop :=
  ∃ pre f, pre ++ [f] <+: fs ∧ chunks.flatten = encodeAll (pre ++ [f]) ∧ f.bare

theorem promptAt_iff (hcb : Succeeds callback) (message : List UInt8) (ctx : σ) {fs : List Frame}
    {r : Option Msg × List Msg} (hfs : acceptAll message.length none fs = some r)
    {chunks : List (List UInt8)} (hchunks : chunks.flatten <+: encodeAll fs) :
    PromptAt callback message ctx fs chunks ↔ ¬ EndsBare fs chunks := by
  obtain ⟨p, gs, hsplit, hdata, hp⟩ := framesWithin_split hchunks
  have hinit := atBoundary_init message
  unfold PromptAt
  rw [wsRxFeedAll_eq _ hinit.wf]
  generalize hin : framesWithin fs chunks.flatten.length = done at *
  have hvalid : acceptAll message.length none (done ++ gs) = some (r.1, r.2) := by rw [← hsplit, hfs]
  obtain ⟨mid, ms1, ms2, hdone, hrest, _⟩ := acceptAll_split hvalid
  have hmsgs : messages message.length done = ms1 := by simp [messages, hdone]
  obtain ⟨rx', ctx', given, owed, hfeed, hbet, rfl, hwait⟩ :=
    feed_frames hcb hinit ctx done hdone
  have hexact : ∀ pre f, pre ++ [f] <+: fs → chunks.flatten = encodeAll (pre ++ [f]) →
      done = pre ++ [f] := by
    rintro pre f ⟨more, rfl⟩ hflat
    rw [← hin, hflat, framesWithin_exact]
  by_cases hpe : p = []
  · -- the bytes end with a frame
    subst hpe
    rw [List.append_nil] at hdata
    rw [hdata, hfeed, hmsgs]
    have hends : EndsBare fs chunks ↔ ∃ pre f, done = pre ++ [f] ∧ f.bare := by
      constructor
      · rintro ⟨pre, f, hpre, hflat, hbare⟩
        exact ⟨pre, f, hexact pre f hpre hflat, hbare⟩
      · rintro ⟨pre, f, hlast, hbare⟩
        exact ⟨pre, f, by rw [← hlast, hsplit]; exact ⟨gs, rfl⟩, by rw [← hlast, hdata], hbare⟩
    rw [hends]
    constructor
    · rintro ⟨-, hidle⟩ ⟨pre, f, hlast, hbare⟩
      exact hwait.mp (hidle rfl) pre f hlast hbare
    · intro hnot
      have hidle : rx'.header = [] := hwait.mpr fun pre f hlast hbare => hnot ⟨pre, f, hlast, hbare⟩
      exact ⟨by rw [between_idle hbet hidle, List.append_nil], fun _ => hidle⟩
  · -- the next frame has begun, so nothing is owed
    obtain ⟨f, gs', rfl, hpf, hne⟩ := hp.resolve_left hpe
    have hinside : chunks.flatten ≠ encodeAll done := by
      rw [hdata]
      simpa using hpe
    have hends : ¬ EndsBare fs chunks := fun ⟨pre, f', hpre, hflat, _⟩ =>
      hinside (by rw [hexact pre f' hpre hflat, hflat])
    obtain ⟨r', hacc⟩ : ∃ r', accept message.length mid f = some r' := by
      simp only [acceptAll, Option.bind_eq_bind] at hrest
      rcases hacc : accept message.length mid f with _ | r'
      · simp [hacc] at hrest
      · exact ⟨r', rfl⟩
    obtain ⟨rx1, ctx1, hbound, hlate⟩ := between_feed hcb hbet ctx' given
    obtain ⟨rx2, hpart⟩ := wsRxFeed_partial (traced callback) hbound hacc hpf hne
      (ctx1, given ++ owed)
    have hall : wsRxFeed (traced callback) (wsRxInit message) (ctx, []) chunks.flatten =
        (EAF_OK, rx2, ctx1, given ++ owed) := by
      rw [hdata, wsRxFeed_append hinit.wf, hfeed]
      simp only [feedNext, ne_eq, not_true_eq_false, if_false]
      rw [hlate p hpe, hpart]
    rw [hall, hmsgs]
    exact ⟨fun _ => hends, fun _ => ⟨rfl, fun hflat => absurd hflat hinside⟩⟩

end Run

/-- A receive call gives every message in time, and leaves no complete frame waiting, exactly
when no call's bytes end with an empty unmasked frame. -/
theorem wsRxFeedAll_prompt_iff {callback : MessageFn σ} (hcb : Succeeds callback)
    (message : List UInt8) (ctx : σ) {fs : List Frame} {r : Option Msg × List Msg}
    (hfs : acceptAll message.length none fs = some r) {chunks : List (List UInt8)}
    (hchunks : chunks.flatten = encodeAll fs) :
    Prompt callback message ctx fs chunks ↔
      ∀ j, j ≤ chunks.length → ¬ EndsBare fs (chunks.take j) := by
  have hpre : ∀ j, (chunks.take j).flatten <+: encodeAll fs := fun j =>
    ⟨(chunks.drop j).flatten, by
      rw [← List.flatten_append, List.take_append_drop, hchunks]⟩
  constructor
  · intro h j hj
    exact (promptAt_iff hcb message ctx hfs (hpre j)).mp (h j hj)
  · intro h j hj
    exact (promptAt_iff hcb message ctx hfs (hpre j)).mpr (h j hj)

def emptyPing : Frame := ⟨true, EAF_SENDPIN_WS_PING, none, [], by decide⟩

/-- A masked text frame, two bytes to the chunk. -/
def maskedText : Frame := ⟨true, EAF_SENDPIN_WS_TEXT, some ⟨1, 2, 3, 4⟩, [7], by decide⟩

theorem recorder_succeeds : Succeeds recorder := fun _ _ _ _ => rfl

theorem wsRxFeedAll_prompt_iff_masked :
    Prompt recorder [0, 0] [] [maskedText] [[0x81, 0x81, 1], [2, 3, 4, 6]] ↔
      ∀ j, j ≤ 2 → ¬ EndsBare [maskedText] (([[0x81, 0x81, 1], [2, 3, 4, 6]]).take j) :=
  wsRxFeedAll_prompt_iff recorder_succeeds [0, 0] [] (r := (none, [(1, [7])])) (by decide) (by decide)

/-- An empty ping in a chunk of its own is not given. -/
theorem emptyPing_late :
    ∃ (fs : List Frame) (chunks : List (List UInt8)) (r : Option Msg × List Msg),
      acceptAll 0 none fs = some r ∧ chunks.flatten = encodeAll fs ∧
      ¬ Prompt recorder [] [] fs chunks :=
  ⟨[emptyPing], [[0x89, 0x00]], (none, [(EAF_SENDPIN_WS_PING, [])]), by decide, by decide,
    fun h => absurd (h 1 (by decide)).1 (by decide)⟩

end EmbeddedAudio.Ws
