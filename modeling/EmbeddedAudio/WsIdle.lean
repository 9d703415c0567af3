-- Two ways to look at the messages of a receive call. The messages that a
-- callback is given are those of a recorder, up to the first one that the
-- callback refuses. And two receivers that differ only in what is left of an
-- earlier frame give the same messages.
import EmbeddedAudio.WsFrames

namespace EmbeddedAudio.Ws

open Storage

variable {σ : Type}

/-! ## A callback and the recorder -/

/-- `msgs` reads off a callback's state the messages that it was given, with its answers. -/
def Records (callback : MessageFn σ) (msgs : σ → List (Msg × Rc)) : Prop :=
  ∀ ctx opcode buf length, msgs (callback ctx opcode buf length).2 =
    msgs ctx ++ [((opcode, buf.take length), (callback ctx opcode buf length).1)]

/-- The callback took every one of these messages. -/
def Taken (new : List (Msg × Rc)) : Prop := ∀ x ∈ new, x.2 = EAF_OK

/-- A receive call against the recorder's. Only the last message can be a refused one. -/
def Follows (msgs : σ → List (Msg × Rc)) (ctx : σ) (r : Rc × WsRx × σ)
    (r' : Rc × WsRx × List Msg) : Prop :=
  ∃ new, msgs r.2.2 = msgs ctx ++ new ∧ (msgs r.2.2).map Prod.fst <+: r'.2.2 ∧
    Taken new.dropLast ∧ (r.1 = EAF_OK → Taken new) ∧
    (Taken new → r.1 = r'.1 ∧ r.2.1 = r'.2.1 ∧ (msgs r.2.2).map Prod.fst = r'.2.2)

theorem follows_refl (msgs : σ → List (Msg × Rc)) (rc : Rc) (rx : WsRx) (ctx : σ) :
    Follows msgs ctx (rc, rx, ctx) (rc, rx, (msgs ctx).map Prod.fst) :=
  ⟨[], by simp, List.prefix_refl _, by simp [Taken], by simp [Taken], fun _ => ⟨rfl, rfl, rfl⟩⟩

theorem taken_dropLast_append {new new' : List (Msg × Rc)} (h : Taken new)
    (h' : Taken new'.dropLast) : Taken (new ++ new').dropLast := by
  intro x hx
  rcases List.eq_nil_or_concat new' with rfl | ⟨init, last, rfl⟩
  · rw [List.append_nil] at hx
    exact h x (List.mem_of_mem_dropLast hx)
  · rw [List.concat_eq_append] at h' hx
    rw [← List.append_assoc, List.dropLast_concat, List.mem_append] at hx
    rw [List.dropLast_concat] at h'
    exact hx.elim (h x) (h' x)

theorem completeFrame_recorder (rx : WsRx) (log : List Msg) :
    (completeFrame recorder rx log).1 = EAF_OK ∧ log <+: (completeFrame recorder rx log).2.2 := by
  unfold completeFrame recorder
  split_ifs <;> simp

theorem framePhase_recorder (rx : WsRx) (log : List Msg) (data : List UInt8) :
    match framePhase recorder rx log data with
    | .more _ log' _ => log <+: log'
    | .done _ _ log' => log' = log := by
  have hcomplete := completeFrame_recorder (takePayload (enterFrame rx).2 data).1 log
  unfold framePhase
  simp only
  split_ifs with hrc hused hrc'
  · rfl
  · exact absurd hcomplete.1 hrc'
  · exact hcomplete.2
  · exact List.prefix_refl _

theorem feedLoop_recorder (turns : Nat) (rx : WsRx) (log : List Msg) (data : List UInt8) :
    log <+: (feedLoop recorder turns rx log data).2.2 := by
  induction turns generalizing rx log data with
  | zero => rcases data with _ | ⟨b, data⟩ <;> exact List.prefix_refl _
  | succ turns ih =>
    rcases data with _ | ⟨b, data⟩
    · exact List.prefix_refl _
    · simp only [feedLoop]
      unfold feedTurn
      simp only
      split_ifs
      · exact ih _ _ _
      · exact ih _ _ _
      · have hphase := framePhase_recorder
          { rx with header := rx.header ++
            (b :: data).take (min (rx.headerNeeded - rx.header.length) (b :: data).length) } log
          ((b :: data).drop (min (rx.headerNeeded - rx.header.length) (b :: data).length))
        split at hphase
        · rename_i hturn
          rw [hturn]
          exact hphase.trans (ih _ _ _)
        · rename_i hturn
          rw [hturn, hphase]

/-- A frame that is complete, given to the callback and to the recorder. -/
theorem completeFrame_records {callback : MessageFn σ} {msgs : σ → List (Msg × Rc)}
    (h : Records callback msgs) (rx : WsRx) (ctx : σ) :
    ∃ new, msgs (completeFrame callback rx ctx).2.2 = msgs ctx ++ new ∧
      (completeFrame recorder rx ((msgs ctx).map Prod.fst)).2.2 =
        (msgs (completeFrame callback rx ctx).2.2).map Prod.fst ∧
      (((completeFrame callback rx ctx).1 = EAF_OK ∧
          (completeFrame callback rx ctx).2.1 =
            (completeFrame recorder rx ((msgs ctx).map Prod.fst)).2.1 ∧ Taken new) ∨
        ((completeFrame callback rx ctx).1 ≠ EAF_OK ∧ ∃ x, new = [x] ∧ x.2 ≠ EAF_OK)) := by
  have hnone : msgs ctx = msgs ctx ++ [] := (List.append_nil _).symm
  unfold completeFrame recorder
  by_cases hc : isControl rx.opcode = true
  · have hrec := h ctx rx.opcode rx.control rx.controlLength
    simp only [hc, if_true]
    by_cases hrc : (callback ctx rx.opcode rx.control rx.controlLength).1 = EAF_OK
    · simp only [hrc, ne_eq, not_true_eq_false, if_false]
      exact ⟨_, hrec, by rw [hrec]; simp, .inl ⟨trivial, trivial, by simpa [Taken] using hrc⟩⟩
    · simp only [hrc, ne_eq, not_false_eq_true, if_true]
      exact ⟨_, hrec, by rw [hrec]; simp, .inr ⟨trivial, _, rfl, hrc⟩⟩
  · simp only [hc, Bool.false_eq_true, if_false]
    by_cases hfin : rx.fin = true
    · have hrec := h ctx rx.messageOpcode rx.message rx.messageLength
      simp only [hfin, if_true]
      by_cases hrc : (callback ctx rx.messageOpcode rx.message rx.messageLength).1 = EAF_OK
      · simp only [hrc, ne_eq, not_true_eq_false, if_false]
        exact ⟨_, hrec, by rw [hrec]; simp, .inl ⟨trivial, trivial, by simpa [Taken] using hrc⟩⟩
      · simp only [hrc, ne_eq, not_false_eq_true, if_true]
        exact ⟨_, hrec, by rw [hrec]; simp, .inr ⟨trivial, _, rfl, hrc⟩⟩
    · simp only [hfin, Bool.false_eq_true, if_false]
      exact ⟨[], hnone, trivial, .inl ⟨trivial, trivial, by simp [Taken]⟩⟩

/-- One turn with the callback and with the recorder: the same turn, or the callback refuses. -/
inductive TurnFollows (msgs : σ → List (Msg × Rc)) (ctx : σ) : Turn σ → Turn (List Msg) → Prop
  | more {rx : WsRx} {ctx' : σ} {rest : List UInt8} {new : List (Msg × Rc)}
      (h : msgs ctx' = msgs ctx ++ new) (hall : Taken new) :
      TurnFollows msgs ctx (.more rx ctx' rest) (.more rx ((msgs ctx').map Prod.fst) rest)
  | done (rc : Rc) (rx : WsRx) :
      TurnFollows msgs ctx (.done rc rx ctx) (.done rc rx ((msgs ctx).map Prod.fst))
  | refused {rc : Rc} {rx rx' : WsRx} {ctx' : σ} {rest : List UInt8} {x : Msg × Rc}
      (h : msgs ctx' = msgs ctx ++ [x]) (hno : x.2 ≠ EAF_OK) (hrc : rc ≠ EAF_OK) :
      TurnFollows msgs ctx (.done rc rx ctx') (.more rx' ((msgs ctx').map Prod.fst) rest)

theorem framePhase_records {callback : MessageFn σ} {msgs : σ → List (Msg × Rc)}
    (h : Records callback msgs) (rx : WsRx) (ctx : σ) (data : List UInt8) :
    TurnFollows msgs ctx (framePhase callback rx ctx data)
      (framePhase recorder rx ((msgs ctx).map Prod.fst) data) := by
  unfold framePhase
  simp only
  split
  · exact .done _ _
  · split
    · obtain ⟨new, hnew, hlog, hok | ⟨hrc, x, rfl, hno⟩⟩ :=
        completeFrame_records h (takePayload (enterFrame rx).2 data).1 ctx
      · have hrec := (completeFrame_recorder (takePayload (enterFrame rx).2 data).1
          ((msgs ctx).map Prod.fst)).1
        rw [if_neg (by simp [hok.1]), if_neg (by simp [hrec]), hlog, hok.2.1]
        exact .more hnew hok.2.2
      · have hrec := (completeFrame_recorder (takePayload (enterFrame rx).2 data).1
          ((msgs ctx).map Prod.fst)).1
        rw [if_pos hrc, if_neg (by simp [hrec]), hlog]
        exact .refused hnew hno hrc
    · exact .more (List.append_nil _).symm (by simp [Taken])

theorem feedTurn_records {callback : MessageFn σ} {msgs : σ → List (Msg × Rc)}
    (h : Records callback msgs) (rx : WsRx) (ctx : σ) (b : UInt8) (data : List UInt8) :
    TurnFollows msgs ctx (feedTurn callback rx ctx b data)
      (feedTurn recorder rx ((msgs ctx).map Prod.fst) b data) := by
  unfold feedTurn
  simp only
  split_ifs
  · exact .more (List.append_nil _).symm (by simp [Taken])
  · exact .more (List.append_nil _).symm (by simp [Taken])
  · exact framePhase_records h _ ctx _

/-- The messages of a receive call are the recorder's, all of them if none is refused. -/
theorem wsRxFeed_follows {callback : MessageFn σ} {msgs : σ → List (Msg × Rc)}
    (h : Records callback msgs) (rx : WsRx) (ctx : σ) (data : List UInt8) :
    Follows msgs ctx (wsRxFeed callback rx ctx data)
      (wsRxFeed recorder rx ((msgs ctx).map Prod.fst) data) := by
  unfold wsRxFeed
  generalize 2 * data.length + 1 = turns
  induction turns generalizing rx ctx data with
  | zero => rcases data with _ | ⟨b, data⟩ <;> exact follows_refl msgs EAF_OK rx ctx
  | succ turns ih =>
    rcases data with _ | ⟨b, data⟩
    · exact follows_refl msgs EAF_OK rx ctx
    · simp only [feedLoop]
      have hturn := feedTurn_records h rx ctx b data
      generalize feedTurn callback rx ctx b data = turn at hturn ⊢
      generalize feedTurn recorder rx ((msgs ctx).map Prod.fst) b data = turn' at hturn ⊢
      cases hturn with
      | @more rx' ctx' rest new hnew htaken =>
        obtain ⟨new', hnew', hpre, hlast, hok, heq⟩ := ih rx' ctx' rest
        refine ⟨new ++ new', by rw [hnew', hnew, List.append_assoc], hpre,
          taken_dropLast_append htaken hlast, fun hrc => ?_, fun hall => ?_⟩
        · intro x hx
          exact (List.mem_append.mp hx).elim (htaken x) (hok hrc x)
        · exact heq fun x hx => hall x (List.mem_append_right _ hx)
      | done rc rx' => exact follows_refl msgs rc rx' ctx
      | @refused rc rx' rx'' ctx' rest x hnew hno hrc =>
        refine ⟨[x], hnew, feedLoop_recorder _ _ _ _, by simp [Taken], fun hok => absurd hok hrc,
          fun hall => ?_⟩
        exact absurd (hall x (List.mem_singleton_self x)) hno

/-- The recorder writes behind what its log already holds. -/
theorem wsRxFeed_recorder_from (rx : WsRx) (pre log : List Msg) (data : List UInt8) :
    wsRxFeed recorder rx (pre ++ log) data =
      ((wsRxFeed recorder rx log data).1, (wsRxFeed recorder rx log data).2.1,
        pre ++ (wsRxFeed recorder rx log data).2.2) := by
  have hrec : Records recorder fun log => (pre ++ log).map fun m => (m, EAF_OK) := by
    intro ctx opcode buf length
    simp [recorder]
  obtain ⟨new, hnew, _, _, _, heq⟩ := wsRxFeed_follows hrec rx log data
  have hmap : ∀ l : List Msg, (l.map fun m => (m, EAF_OK)).map Prod.fst = l := by
    intro l
    simp [List.map_map, Function.comp_def]
  simp only [hmap] at heq hnew
  obtain ⟨h1, h2, h3⟩ := heq fun x hx => by
    have hmem : x ∈ (pre ++ (wsRxFeed recorder rx log data).2.2).map fun m => (m, EAF_OK) := by
      rw [hnew]
      exact List.mem_append_right _ hx
    obtain ⟨m, _, rfl⟩ := List.mem_map.mp hmem
    rfl
  rw [h1, h2, h3]

/-! ## What is left of an earlier frame -/

/-- Two receivers that agree on everything that a coming byte can make a difference with. -/
structure Alike (rx rx' : WsRx) : Prop where
  header : rx.header = rx'.header
  ready : rx.frameReady = rx'.frameReady
  fragmenting : rx.fragmenting = rx'.fragmenting
  message_size : rx.message.length = rx'.message.length
  control_size : rx.control.length = rx'.control.length
  parsed : 2 ≤ rx.header.length → rx.opcode = rx'.opcode ∧ rx.fin = rx'.fin ∧
    rx.masked = rx'.masked ∧ rx.headerNeeded = rx'.headerNeeded
  payload : rx.frameReady = true → rx.payloadLength = rx'.payloadLength ∧
    rx.payloadUsed = rx'.payloadUsed ∧ (rx.masked = true → rx.mask = rx'.mask)
  controlData : rx.frameReady = true → isControl rx.opcode = true →
    rx.controlLength = rx'.controlLength ∧
      rx.control.take rx.controlLength = rx'.control.take rx'.controlLength
  messageData : rx.fragmenting = true ∨ (rx.frameReady = true ∧ isControl rx.opcode = false) →
    rx.messageLength = rx'.messageLength ∧ rx.messageOpcode = rx'.messageOpcode ∧
      rx.message.take rx.messageLength = rx'.message.take rx'.messageLength

/-- A receiver between two frames, with no message started. -/
def Idle (rx : WsRx) : Prop :=
  rx.header = [] ∧ rx.frameReady = false ∧ rx.fragmenting = false

theorem alike_of_idle {rx rx' : WsRx} (h : Idle rx) (h' : Idle rx')
    (hmessage : rx.message.length = rx'.message.length)
    (hcontrol : rx.control.length = rx'.control.length) : Alike rx rx' where
  header := by rw [h.1, h'.1]
  ready := by rw [h.2.1, h'.2.1]
  fragmenting := by rw [h.2.2, h'.2.2]
  message_size := hmessage
  control_size := hcontrol
  parsed hlen := by rw [h.1] at hlen; simp at hlen
  payload hr := by rw [h.2.1] at hr; cases hr
  controlData hr := by rw [h.2.1] at hr; cases hr
  messageData hd := by simp [h.2.1, h.2.2] at hd

theorem not_ready_of_short {rx : WsRx} (h : Wf rx) (hlen : rx.header.length < 2) :
    rx.frameReady = false := by
  rcases hr : rx.frameReady with _ | _
  · rfl
  · have := h.ready_header hr
    omega

theorem alike_pushHeader {rx rx' : WsRx} (h : Alike rx rx') (hwf : Wf rx) (b : UInt8)
    (hlen : rx.header.length < 2) : Alike (pushHeader rx b) (pushHeader rx' b) := by
  have hready := not_ready_of_short hwf hlen
  have hready' : rx'.frameReady = false := by rw [← h.ready, hready]
  unfold pushHeader
  simp only [← h.header]
  split
  · rename_i b0 b1 hb
    exact { h with
      parsed := fun _ => ⟨rfl, rfl, rfl, rfl⟩
      payload := fun hr => by simp [hready] at hr
      controlData := fun hr => by simp [hready] at hr
      header := rfl
      messageData := fun hd => h.messageData (.inl (by simpa [hready] using hd)) }
  · rename_i hne
    refine { h with
      header := rfl
      parsed := fun hlen2 => ?_
      messageData := fun hd => h.messageData (.inl (by simpa [hready] using hd)) }
    -- a header of two bytes is the other case
    exfalso
    rcases hh : rx.header with _ | ⟨b0, _ | ⟨b1, rest⟩⟩
    · simp [hh] at hlen2
    · exact hne b0 b (by simp [hh])
    · simp only [hh, List.length_cons] at hlen
      omega

theorem alike_growHeader {rx rx' : WsRx} (h : Alike rx rx') (hlen : 2 ≤ rx.header.length)
    (bytes : List UInt8) : Alike (growHeader rx bytes) (growHeader rx' bytes) :=
  { h with
    header := by simp only [growHeader, h.header]
    parsed := fun _ => h.parsed hlen }

theorem alike_loadMask {rx rx' : WsRx} (h : Alike rx rx') (hlen : 2 ≤ rx.header.length)
    (hready : rx.frameReady = false) :
    Alike (loadMask rx) (loadMask rx') ∧
      ((loadMask rx).masked = true → (loadMask rx).mask = (loadMask rx').mask) := by
  have hready' : rx'.frameReady = false := by rw [← h.ready, hready]
  obtain ⟨hop, hfin, hmasked, hneeded⟩ := h.parsed hlen
  unfold loadMask
  rw [← hmasked, ← h.header]
  split
  · exact ⟨{ h with
      header := rfl
      parsed := fun _ => ⟨hop, hfin, rfl, hneeded⟩
      payload := fun hr => by simp [hready] at hr }, fun _ => rfl⟩
  · rename_i hm
    exact ⟨h, fun hm' => absurd hm' hm⟩

/-- Two receivers whose frame is open: the buffer that its payload goes to holds the same. -/
structure Opened (rx rx' : WsRx) : Prop extends Alike rx rx' where
  control : isControl rx.opcode = true → rx.controlLength = rx'.controlLength ∧
    rx.control.take rx.controlLength = rx'.control.take rx'.controlLength
  message : isControl rx.opcode = false → rx.messageLength = rx'.messageLength ∧
    rx.messageOpcode = rx'.messageOpcode ∧
      rx.message.take rx.messageLength = rx'.message.take rx'.messageLength

theorem alike_openFrame {rx rx' : WsRx} (h : Alike rx rx') (hlen : 2 ≤ rx.header.length)
    (hready : rx.frameReady = false) :
    (openFrame rx).1 = (openFrame rx').1 ∧
      ((openFrame rx).1 = EAF_OK → Opened (openFrame rx).2 (openFrame rx').2) := by
  obtain ⟨hop, _⟩ := h.parsed hlen
  by_cases h0 : rx.opcode = 0
  · -- a continuation
    rcases hf : rx.fragmenting with _ | _
    · simp [openFrame, ← hop, ← h.fragmenting, h0, hf]
    · have hdata := h.messageData (.inl hf)
      rw [openFrame_continue h0 hf, openFrame_continue (by rw [← hop, h0]) (by rw [← h.fragmenting, hf])]
      exact ⟨rfl, fun _ => { h with
        control := fun hc => by rw [h0] at hc; cases hc
        message := fun _ => hdata }⟩
  · by_cases hd : rx.opcode = EAF_SENDPIN_WS_TEXT ∨ rx.opcode = EAF_SENDPIN_WS_BINARY
    · -- a new message
      have hc := (not_control_of_data hd).1
      rcases hf : rx.fragmenting with _ | _
      · rw [openFrame_data hd hf, openFrame_data (by rwa [← hop]) (by rw [← h.fragmenting, hf])]
        exact ⟨rfl, fun _ => { h with
          controlData := fun hr => by simp [hready] at hr
          messageData := fun _ => ⟨rfl, hop, by simp⟩
          control := fun hctl => by simp only at hctl; rw [hc] at hctl; cases hctl
          message := fun _ => ⟨rfl, hop, by simp⟩ }⟩
      · simp [openFrame, ← hop, ← h.fragmenting, h0, hd, hf]
    · rcases hc : isControl rx.opcode with _ | _
      · simp [openFrame, ← hop, h0, hd, hc]
      · rw [openFrame_control hc, openFrame_control (by rw [← hop, hc])]
        exact ⟨rfl, fun _ => { h with
          controlData := fun hr => by simp [hready] at hr
          control := fun _ => ⟨rfl, by simp⟩
          message := fun hctl => by simp only at hctl; rw [hc] at hctl; cases hctl }⟩

theorem openFrame_frame (rx : WsRx) :
    (openFrame rx).2.masked = rx.masked ∧ (openFrame rx).2.mask = rx.mask ∧
      (openFrame rx).2.header = rx.header := by
  unfold openFrame
  split_ifs <;> simp

/-- A frame that has not begun: both receivers begin it, or both refuse it. -/
theorem alike_enterFrame {rx rx' : WsRx} (h : Alike rx rx') (hlen : 2 ≤ rx.header.length) :
    (enterFrame rx).1 = (enterFrame rx').1 ∧
      ((enterFrame rx).1 = EAF_OK → Alike (enterFrame rx).2 (enterFrame rx').2) := by
  unfold enterFrame
  rw [← h.ready]
  rcases hready : rx.frameReady with _ | _
  · obtain ⟨hload, hmask⟩ := alike_loadMask h hlen hready
    have hlen' : 2 ≤ (loadMask rx).header.length := by
      unfold loadMask
      split <;> exact hlen
    have hready' : (loadMask rx).frameReady = false := by
      unfold loadMask
      split <;> exact hready
    obtain ⟨hrc, hopened⟩ := alike_openFrame hload hlen' hready'
    have hframe := openFrame_frame (loadMask rx)
    have hframe' := openFrame_frame (loadMask rx')
    rcases ho : openFrame (loadMask rx) with ⟨rc, o⟩
    rcases ho' : openFrame (loadMask rx') with ⟨rc', o'⟩
    simp only [ho, ho'] at hrc hopened hframe hframe'
    subst hrc
    unfold beginFrame
    simp only [Bool.false_eq_true, if_false, ho, ho', ← h.header]
    by_cases hok : rc = EAF_OK
    · have hop := hopened hok
      have hroom : roomLeft o = roomLeft o' := by
        have heq := (hop.parsed (by rw [hframe.2.2]; exact hlen')).1
        unfold roomLeft
        rw [← heq, hop.message_size, hop.control_size]
        rcases hc : isControl o.opcode with _ | _
        · simp [(hop.message hc).1]
        · simp [(hop.control hc).1]
      simp only [hok, ne_eq, not_true_eq_false, if_false, ← hroom]
      by_cases hfull : (headerLength rx.header).1 > roomLeft o
      · simp only [hfull, if_true]
        exact ⟨trivial, fun he => by cases he⟩
      · simp only [hfull, if_false, if_true]
        refine ⟨trivial, fun _ => ?_⟩
        exact { hop.toAlike with
          ready := rfl
          payload := fun _ => ⟨rfl, rfl, fun hm => by
            simp only at hm ⊢
            rw [hframe.1] at hm
            rw [hframe.2.1, hframe'.2.1, hmask hm]⟩
          controlData := fun _ hc => hop.control hc
          messageData := fun hd => by
            rcases hc : isControl o.opcode with _ | _
            · exact hop.message hc
            · rcases hd with hd | hd
              · exact hop.messageData (.inl hd)
              · simp only at hd
                rw [hc] at hd
                exact absurd hd.2 (by decide) }
    · simp only [hok, ne_eq, not_false_eq_true, if_true, if_false]
      exact ⟨trivial, fun he => absurd he (by simp)⟩
  · simp only [if_true]
    exact ⟨trivial, fun _ => h⟩

/-- The same payload bytes go to the same place. -/
theorem alike_store {rx rx' : WsRx} (h : Alike rx rx') (hwf : Wf rx) (hwf' : Wf rx')
    (hready : rx.frameReady = true) (bytes : List UInt8)
    (hfit : isControl rx.opcode = true → rx.controlLength + bytes.length ≤ rx.control.length)
    (hfit' : isControl rx.opcode = false → rx.messageLength + bytes.length ≤ rx.message.length) :
    Alike (store rx bytes) (store rx' bytes) := by
  have hlen := (hwf.ready_header hready).1
  obtain ⟨hop, _⟩ := h.parsed hlen
  obtain ⟨hpl, hpu, hmask⟩ := h.payload hready
  have hctl : isControl rx'.opcode = isControl rx.opcode := by rw [hop]
  unfold store
  rcases hc : isControl rx.opcode with _ | _
  · obtain ⟨hml, hmo, hmt⟩ := h.messageData (.inr ⟨hready, hc⟩)
    have hfit' := hfit' hc
    simp only [hctl, hc, Bool.false_eq_true, if_false]
    exact { h with
      message_size := by
        simp only
        rw [length_overwrite _ _ _ hfit', length_overwrite _ _ _ (by
          rw [← hml, ← h.message_size]; exact hfit'), h.message_size]
      payload := fun _ => ⟨hpl, by simp only [hpu], hmask⟩
      controlData := fun _ hctl => by simp only at hctl; rw [hc] at hctl; cases hctl
      messageData := fun _ => ⟨by simp only [hml], hmo, by
        simp only
        rw [take_overwrite _ _ _ hwf.message_le, take_overwrite _ _ _ hwf'.message_le, hmt]⟩ }
  · obtain ⟨hcl, hct⟩ := h.controlData hready hc
    have hfit := hfit hc
    simp only [hctl, hc, if_true]
    exact { h with
      control_size := by
        simp only
        rw [length_overwrite _ _ _ hfit, length_overwrite _ _ _ (by
          rw [← hcl, ← h.control_size]; exact hfit), h.control_size]
      payload := fun _ => ⟨hpl, by simp only [hpu], hmask⟩
      controlData := fun _ _ => ⟨by simp only [hcl], by
        simp only
        rw [take_overwrite _ _ _ hwf.control_le, take_overwrite _ _ _ hwf'.control_le, hct]⟩
      messageData := fun hd => h.messageData (by
        rcases hd with hd | hd
        · exact .inl hd
        · simp only at hd
          rw [hc] at hd
          exact absurd hd.2 (by decide)) }

theorem alike_endFrame (rx rx' : WsRx) (h : Alike rx rx')
    (hdata : rx.fragmenting = true → rx.messageLength = rx'.messageLength ∧
      rx.messageOpcode = rx'.messageOpcode ∧
        rx.message.take rx.messageLength = rx'.message.take rx'.messageLength) :
    Alike (endFrame rx) (endFrame rx') where
  header := rfl
  ready := rfl
  fragmenting := h.fragmenting
  message_size := h.message_size
  control_size := h.control_size
  parsed hlen := by simp [endFrame] at hlen
  payload hr := by cases hr
  controlData hr := by cases hr
  messageData hd := by
    rcases hd with hd | hd
    · exact hdata hd
    · exact absurd hd.1 (by simp [endFrame])

/-- A frame that is complete gives the same message. -/
theorem alike_completeFrame {rx rx' : WsRx} (h : Alike rx rx') (hwf : Wf rx)
    (hready : rx.frameReady = true) (log : List Msg) :
    (completeFrame recorder rx log).2.2 = (completeFrame recorder rx' log).2.2 ∧
      Alike (completeFrame recorder rx log).2.1 (completeFrame recorder rx' log).2.1 := by
  obtain ⟨hop, hfin, _⟩ := h.parsed (hwf.ready_header hready).1
  have hctl : isControl rx'.opcode = isControl rx.opcode := by rw [hop]
  unfold completeFrame recorder
  rcases hc : isControl rx.opcode with _ | _
  · obtain ⟨hml, hmo, hmt⟩ := h.messageData (.inr ⟨hready, hc⟩)
    simp only [hctl, hc, Bool.false_eq_true, if_false, ne_eq, not_true_eq_false]
    by_cases hf : rx.fin = true
    · have hf' : rx'.fin = true := by rwa [← hfin]
      rw [if_pos hf, if_pos hf']
      exact ⟨by simp only [hmo, hmt],
        alike_endFrame { rx with fragmenting := false, messageLength := 0 }
          { rx' with fragmenting := false, messageLength := 0 }
          { h with fragmenting := rfl, messageData := fun _ => ⟨rfl, hmo, by simp⟩ }
          fun hd => by cases hd⟩
    · have hf' : ¬ rx'.fin = true := by rwa [← hfin]
      rw [if_neg hf, if_neg hf']
      exact ⟨rfl, alike_endFrame { rx with fragmenting := true } { rx' with fragmenting := true }
        { h with fragmenting := rfl, messageData := fun _ => ⟨hml, hmo, hmt⟩ }
        fun _ => ⟨hml, hmo, hmt⟩⟩
  · obtain ⟨hcl, hct⟩ := h.controlData hready hc
    simp only [hctl, hc, if_true, ne_eq, not_true_eq_false, if_false, hct]
    exact ⟨by rw [hop], alike_endFrame rx rx' h fun hd => h.messageData (.inl hd)⟩

/-- The same turn from two receivers. -/
inductive TurnAlike : Turn (List Msg) → Turn (List Msg) → Prop
  | more {rx rx' : WsRx} (log : List Msg) (rest : List UInt8) (h : Alike rx rx') :
      TurnAlike (.more rx log rest) (.more rx' log rest)
  | done {rc : Rc} (rx rx' : WsRx) (log : List Msg) (h : rc ≠ EAF_OK) :
      TurnAlike (.done rc rx log) (.done rc rx' log)

theorem alike_framePhase {rx rx' : WsRx} (h : Alike rx rx') (hwf : Wf rx) (hwf' : Wf rx')
    (hlen : 2 ≤ rx.header.length) (hdone : rx.headerNeeded ≤ rx.header.length) (log : List Msg)
    (data : List UInt8) :
    TurnAlike (framePhase recorder rx log data) (framePhase recorder rx' log data) := by
  obtain ⟨_, _, _, hneeded⟩ := h.parsed hlen
  obtain ⟨hrc, halike⟩ := alike_enterFrame h hlen
  have hwe := wf_enterFrame hwf hlen hdone
  have hwe' := wf_enterFrame hwf' (by rw [← h.header]; exact hlen)
    (by rw [← h.header, ← hneeded]; exact hdone)
  have hready : (enterFrame rx).1 = EAF_OK → (enterFrame rx).2.frameReady = true := enterFrame_ready
  have hheader := (enterFrame_frame rx).1
  rcases he : enterFrame rx with ⟨rc, e⟩
  rcases he' : enterFrame rx' with ⟨rc', e'⟩
  simp only [he, he'] at hrc halike hwe hwe' hready hheader
  subst hrc
  by_cases hok : rc = EAF_OK
  · subst hok
    have ha := halike rfl
    have hr := hready rfl
    obtain ⟨hpl, hpu, hmask⟩ := ha.payload hr
    have hm : missing e' = missing e := by simp only [missing, hpl, hpu]
    have hmasked := (ha.parsed (by rw [hheader]; exact hlen)).2.2.1
    have hplain : ∀ bytes, plain e' bytes = plain e bytes := by
      intro bytes
      unfold plain
      rw [← hmasked, ← hpu]
      split
      · rename_i hmk
        rw [hmask hmk]
      · rfl
    rcases Nat.lt_or_ge data.length (missing e) with hshort | hfull
    · have hstore := alike_store ha hwe hwe' hr (plain e data)
        (fun hc => by
          have := hwe.control_fit hr hc
          rw [length_plain]
          unfold missing at hshort
          omega)
        (fun hc => by
          have := hwe.message_fit hr hc
          rw [length_plain]
          unfold missing at hshort
          omega)
      rw [framePhase_short he hwe hshort, framePhase_short he' hwe' (by rw [hm]; exact hshort), hplain]
      exact .more _ _ hstore
    · have hlen' : (plain e (data.take (missing e))).length ≤ missing e := by
        rw [length_plain, List.length_take]
        omega
      have hmissing : missing e = e.payloadLength - e.payloadUsed := rfl
      have hstore := alike_store ha hwe hwe' hr (plain e (data.take (missing e)))
        (fun hc => by
          have := hwe.control_fit hr hc
          omega)
        (fun hc => by
          have := hwe.message_fit hr hc
          omega)
      have hws := wf_store hwe hr (plain e (data.take (missing e))) hlen'
      obtain ⟨hlog, hafter⟩ := alike_completeFrame hstore hws
        (by rw [(store_frame e _).2.2.2.2.2.2.2.1]; exact hr) log
      rw [framePhase_full he hwe hfull, framePhase_full he' hwe' (by rw [hm]; exact hfull), hm, hplain]
      unfold endTurn
      rw [if_neg (by simp [(completeFrame_recorder _ _).1]),
        if_neg (by simp [(completeFrame_recorder _ _).1]), hlog]
      exact .more _ _ hafter
  · rw [framePhase_err he hok, framePhase_err he' hok]
    exact .done _ _ _ hok

theorem alike_feedTurn {rx rx' : WsRx} (h : Alike rx rx') (hwf : Wf rx) (hwf' : Wf rx')
    (log : List Msg) (b : UInt8) (data : List UInt8) :
    TurnAlike (feedTurn recorder rx log b data) (feedTurn recorder rx' log b data) := by
  rcases Nat.lt_or_ge rx.header.length 2 with hlen | hlen
  · unfold feedTurn
    rw [if_pos hlen, if_pos (by rw [← h.header]; exact hlen)]
    exact .more _ _ (alike_pushHeader h hwf b hlen)
  · obtain ⟨_, _, _, hneeded⟩ := h.parsed hlen
    have hlen' : 2 ≤ rx'.header.length := by rw [← h.header]; exact hlen
    have hm : headerMissing rx' = headerMissing rx := by simp only [headerMissing, h.header, hneeded]
    have hgrow := alike_growHeader h hlen ((b :: data).take (headerMissing rx))
    have hwg := wf_growHeader hwf hlen (b :: data)
    have hwg' := wf_growHeader hwf' hlen' (b :: data)
    rw [hm] at hwg'
    have hglen : 2 ≤ (growHeader rx ((b :: data).take (headerMissing rx))).header.length := by
      simp only [growHeader, List.length_append]
      omega
    have hgn := (hgrow.parsed hglen).2.2.2
    rw [feedTurn_eq hlen, feedTurn_eq hlen', hm]
    simp only
    rw [← hgn, ← hgrow.header]
    split
    · exact .more _ _ hgrow
    · rename_i hfull
      exact alike_framePhase hgrow hwg hwg' hglen (by omega) log _

/-- Receivers that are alike give the same messages, and stay alike until an error. -/
theorem wsRxFeed_alike {rx rx' : WsRx} (h : Alike rx rx') (hwf : Wf rx) (hwf' : Wf rx')
    (log : List Msg) (data : List UInt8) :
    let r := wsRxFeed recorder rx log data
    let r' := wsRxFeed recorder rx' log data
    r.1 = r'.1 ∧ r.2.2 = r'.2.2 ∧ (r.1 = EAF_OK → Alike r.2.1 r'.2.1) := by
  unfold wsRxFeed
  generalize 2 * data.length + 1 = turns
  induction turns generalizing rx rx' log data with
  | zero => rcases data with _ | ⟨b, data⟩ <;> exact ⟨rfl, rfl, fun _ => h⟩
  | succ turns ih =>
    rcases data with _ | ⟨b, data⟩
    · exact ⟨rfl, rfl, fun _ => h⟩
    · simp only [feedLoop]
      have hturn := alike_feedTurn h hwf hwf' log b data
      have hwt := wf_feedTurn recorder hwf log b data
      have hwt' := wf_feedTurn recorder hwf' log b data
      generalize feedTurn recorder rx log b data = turn at hturn hwt ⊢
      generalize feedTurn recorder rx' log b data = turn' at hturn hwt' ⊢
      cases hturn with
      | more log' rest ha => exact ih ha hwt hwt' log' rest
      | done rx1 rx1' log' hrc => exact ⟨rfl, rfl, fun hok => absurd hok hrc⟩

end EmbeddedAudio.Ws
