-- What the message buffer of the receiver holds from one message to the next: a
-- message lies over the one before it, and what it is too short to reach stays.
import EmbeddedAudio.WsFeed

namespace EmbeddedAudio.Ws

open Storage

variable {σ : Type} {callback : MessageFn σ} {shown : σ → Option (List UInt8)}

/-- `shown` says what the buffer holds after a message, as far as the callback wants to know: the
message, or the message over what was shown before. A control frame has a buffer of its own. -/
structure Overlays (callback : MessageFn σ) (shown : σ → Option (List UInt8)) : Prop where
  control : ∀ ctx opcode buf length s, isControl opcode = true →
    shown (callback ctx opcode buf length).2 = some s → shown ctx = some s
  data : ∀ ctx opcode buf length s, isControl opcode = false →
    shown (callback ctx opcode buf length).2 = some s →
      s = buf.take length ∨ ∃ t, shown ctx = some t ∧ s = overwrite t 0 (buf.take length)

/-- What the part of a message that has arrived does not reach is still shown. -/
structure Showing (shown : σ → Option (List UInt8)) (rx : WsRx) (ctx : σ) : Prop where
  opcode : isControl rx.messageOpcode = false
  rest : ∀ s, shown ctx = some s → s.drop rx.messageLength <+: rx.message.drop rx.messageLength
  empty : ∀ s, shown ctx = some s → rx.fragmenting = false →
    rx.frameReady = false ∨ isControl rx.opcode = true → rx.messageLength = 0

/-- A message over what is shown is the buffer, as far as it goes. -/
theorem overlay_prefix {s buf : List UInt8} {length : Nat} (hle : length ≤ buf.length)
    (h : s.drop length <+: buf.drop length) : overwrite s 0 (buf.take length) <+: buf := by
  have hlen : (buf.take length).length = length := by
    rw [List.length_take]
    omega
  obtain ⟨rest, hrest⟩ := h
  refine ⟨rest, ?_⟩
  unfold overwrite
  rw [Nat.zero_add, hlen, List.take_zero, List.nil_append, List.append_assoc, hrest,
    List.take_append_drop]

section Turns

variable {rx : WsRx} {ctx : σ}

/-- A change of the receiver that leaves the message alone, and the frame too. -/
theorem Showing.same (h : Showing shown rx ctx) {rx' : WsRx}
    (hopcode : rx'.messageOpcode = rx.messageOpcode)
    (hmessage : rx'.message = rx.message) (hlength : rx'.messageLength = rx.messageLength)
    (hfragmenting : rx'.fragmenting = rx.fragmenting)
    (hready : rx'.frameReady = false ∨ isControl rx'.opcode = true →
      rx.frameReady = false ∨ isControl rx.opcode = true) : Showing shown rx' ctx := by
  refine ⟨hopcode ▸ h.opcode, ?_, ?_⟩
  · rw [hmessage, hlength]
    exact h.rest
  · rw [hlength, hfragmenting]
    exact fun s hs hf hr => h.empty s hs hf (hready hr)

theorem showing_openFrame (h : Showing shown rx ctx) (hready : rx.frameReady = false) :
    Showing shown (openFrame rx).2 ctx := by
  unfold openFrame
  split_ifs with hzero hfragmenting hdata hbusy
  · exact h
  · exact h
  · exact h
  · -- a new message begins where nothing of another one is left
    have hempty : ∀ s, shown ctx = some s → rx.messageLength = 0 := fun s hs =>
      h.empty s hs (by simpa using hbusy) (.inl hready)
    refine ⟨?_, ?_, fun _ _ _ _ => rfl⟩
    · have hkind : isControl rx.opcode = false := by
        rcases hdata with heq | heq
        · rw [heq]
          decide
        · rw [heq]
          decide
      exact hkind
    · intro s hs
      have hrest := h.rest s hs
      rwa [hempty s hs] at hrest
  · exact h.same rfl rfl rfl rfl id
  · exact h

theorem showing_enterFrame (h : Showing shown rx ctx) : Showing shown (enterFrame rx).2 ctx := by
  unfold enterFrame
  split
  · exact h
  · rename_i hr
    have hready : (loadMask rx).frameReady = false := by
      unfold loadMask
      split <;> simpa using hr
    have hmask : Showing shown (loadMask rx) ctx := by
      unfold loadMask
      split
      · exact h.same rfl rfl rfl rfl id
      · exact h
    have hopen := showing_openFrame hmask hready
    have hbegin : Showing shown (beginFrame rx).2 ctx := by
      unfold beginFrame
      simp only
      split
      · exact hopen
      · split
        · exact hopen
        · exact hopen.same rfl rfl rfl rfl id
    have hno : (beginFrame rx).2.frameReady = false := by
      rw [(beginFrame_frame rx).2.2.1]
      simpa using hr
    simp only
    split
    · exact hbegin.same rfl rfl rfl rfl (fun _ => .inl hno)
    · exact hbegin

theorem endTurn_rx (r : Rc × WsRx × σ) (rest : List UInt8) : (endTurn r rest).rx = r.2.1 := by
  unfold endTurn
  split
  · rfl
  · rfl

theorem endTurn_ctx (r : Rc × WsRx × σ) (rest : List UInt8) : (endTurn r rest).ctx = r.2.2 := by
  unfold endTurn
  split
  · rfl
  · rfl

theorem showing_store (h : Showing shown rx ctx) (hwf : Wf rx) (hready : rx.frameReady = true)
    (bytes : List UInt8) : Showing shown (store rx bytes) ctx := by
  unfold store
  split
  · exact h.same rfl rfl rfl rfl id
  · rename_i hdata
    refine ⟨h.opcode, ?_, ?_⟩
    · intro s hs
      obtain ⟨rest, hrest⟩ := h.rest s hs
      simp only
      rw [drop_overwrite _ _ _ hwf.message_le, ← List.drop_drop, ← List.drop_drop, ← hrest,
        List.drop_append]
      exact List.prefix_append _ _
    · intro s _ _ hr
      rcases hr with hr | hr
      · exact absurd (hready.symm.trans hr) (by decide)
      · exact absurd hr hdata

/-- What is shown after a message is in the buffer. -/
theorem Overlays.leading (hover : Overlays callback shown) (hwf : Wf rx)
    (h : Showing shown rx ctx) {s : List UInt8}
    (hs : shown (callback ctx rx.messageOpcode rx.message rx.messageLength).2 = some s) :
    s <+: rx.message ∧ s.drop rx.messageLength <+: rx.message.drop rx.messageLength := by
  rcases hover.data _ _ _ _ s h.opcode hs with rfl | ⟨t, ht, rfl⟩
  · refine ⟨List.take_prefix _ _, ?_⟩
    rw [List.drop_take, Nat.sub_self]
    exact List.nil_prefix
  · have hover := overlay_prefix hwf.message_le (h.rest t ht)
    refine ⟨hover, ?_⟩
    obtain ⟨rest, hrest⟩ := hover
    conv => rhs; rw [← hrest]
    rw [List.drop_append]
    exact List.prefix_append _ _

theorem showing_completeFrame (hover : Overlays callback shown) (hwf : Wf rx)
    (h : Showing shown rx ctx) (hready : rx.frameReady = true) :
    Showing shown (completeFrame callback rx ctx).2.1 (completeFrame callback rx ctx).2.2 := by
  unfold completeFrame
  simp only
  split
  · rename_i hcontrol
    have hback : ∀ s, shown (callback ctx rx.opcode rx.control rx.controlLength).2 = some s →
        shown ctx = some s := fun s hs => hover.control _ _ _ _ s hcontrol hs
    split
    · exact ⟨h.opcode, fun s hs => h.rest s (hback s hs), fun s hs => h.empty s (hback s hs)⟩
    · refine ⟨h.opcode, fun s hs => h.rest s (hback s hs), fun s hs hf _ => ?_⟩
      exact h.empty s (hback s hs) hf (.inr hcontrol)
  · rename_i hdata
    split
    · split
      · refine ⟨h.opcode, fun s hs => (hover.leading hwf h hs).2, fun s _ _ hr => ?_⟩
        rcases hr with hr | hr
        · exact absurd (hready.symm.trans hr) (by decide)
        · exact absurd hr hdata
      · exact ⟨h.opcode, fun s hs => (hover.leading hwf h hs).1, fun _ _ _ _ => rfl⟩
    · exact ⟨h.opcode, h.rest, fun s _ hf _ => Bool.noConfusion hf⟩

/-- What a message may rely on: the buffer shows it over what was shown before. -/
def Overlaid (shown : σ → Option (List UInt8)) (ctx : σ) (opcode : UInt8) (buf : List UInt8)
    (length : Nat) : Prop :=
  length ≤ buf.length ∧
    (isControl opcode = false → ∀ s, shown ctx = some s → overwrite s 0 (buf.take length) <+: buf)

theorem keeps_completeFrame {P : σ → Prop}
    (hkeep : ∀ ctx opcode buf length, Overlaid shown ctx opcode buf length → P ctx →
      P (callback ctx opcode buf length).2)
    (hwf : Wf rx) (h : Showing shown rx ctx) (hctx : P ctx) :
    P (completeFrame callback rx ctx).2.2 := by
  unfold completeFrame
  simp only
  split
  · rename_i hcontrol
    have hnext : P (callback ctx rx.opcode rx.control rx.controlLength).2 :=
      hkeep _ _ _ _ ⟨hwf.control_le, fun hdata => by rw [hcontrol] at hdata; cases hdata⟩ hctx
    split
    · exact hnext
    · exact hnext
  · split
    · have hnext : P (callback ctx rx.messageOpcode rx.message rx.messageLength).2 :=
        hkeep _ _ _ _ ⟨hwf.message_le, fun _ s hs => overlay_prefix hwf.message_le (h.rest s hs)⟩
          hctx
      split
      · exact hnext
      · exact hnext
    · exact hctx

/-- The receiver and the state of the callback, between two turns. -/
structure Shows (shown : σ → Option (List UInt8)) (P : σ → Prop) (rx : WsRx) (ctx : σ) : Prop where
  wf : Wf rx
  showing : Showing shown rx ctx
  keeps : P ctx

theorem shows_feedTurn {P : σ → Prop} (hover : Overlays callback shown)
    (hkeep : ∀ ctx opcode buf length, Overlaid shown ctx opcode buf length → P ctx →
      P (callback ctx opcode buf length).2)
    (h : Shows shown P rx ctx) (b : UInt8) (data : List UInt8) :
    Shows shown P (feedTurn callback rx ctx b data).rx (feedTurn callback rx ctx b data).ctx := by
  have hwf' := wf_feedTurn callback h.wf ctx b data
  rcases Nat.lt_or_ge rx.header.length 2 with hlen | hlen
  · have hno : rx.frameReady = false := by
      by_contra hready
      have := (h.wf.ready_header (by simpa using hready)).1
      omega
    have hpush : Showing shown (pushHeader rx b) ctx := by
      unfold pushHeader
      simp only
      split
      · exact h.showing.same rfl rfl rfl rfl (fun _ => .inl hno)
      · exact h.showing.same rfl rfl rfl rfl id
    unfold feedTurn at hwf' ⊢
    rw [if_pos hlen] at hwf' ⊢
    exact ⟨hwf', hpush, h.keeps⟩
  · have hgrow := wf_growHeader h.wf hlen (b :: data)
    have hshow : Showing shown (growHeader rx ((b :: data).take (headerMissing rx))) ctx :=
      h.showing.same rfl rfl rfl rfl id
    rw [feedTurn_eq hlen] at hwf' ⊢
    simp only at hwf' ⊢
    split
    · exact ⟨hgrow, hshow, h.keeps⟩
    · rename_i hfull
      rw [if_neg hfull] at hwf'
      have hlen' : 2 ≤ (growHeader rx ((b :: data).take (headerMissing rx))).header.length := by
        simp only [growHeader, List.length_append]
        omega
      have henter := wf_enterFrame hgrow hlen' (by omega)
      have hshow' := showing_enterFrame hshow
      rcases he : enterFrame (growHeader rx ((b :: data).take (headerMissing rx))) with ⟨rc, rx1⟩
      simp only [he] at henter hshow'
      by_cases hrc : rc = EAF_OK
      · subst hrc
        have hready : rx1.frameReady = true := by
          have hok := enterFrame_ready (show (enterFrame (growHeader rx _)).1 = EAF_OK by rw [he])
          rwa [he] at hok
        generalize (b :: data).drop (headerMissing rx) = rest at hwf' ⊢
        rcases Nat.lt_or_ge rest.length (missing rx1) with hshort | hfull
        · rw [framePhase_short he henter hshort] at hwf' ⊢
          exact ⟨hwf', showing_store hshow' henter hready _, h.keeps⟩
        · have hfit : (plain rx1 (rest.take (missing rx1))).length ≤ missing rx1 := by
            rw [length_plain, List.length_take]
            omega
          have hstore := wf_store henter hready _ hfit
          have hstored := showing_store hshow' henter hready
            (plain rx1 (rest.take (missing rx1)))
          have hready' : (store rx1 (plain rx1 (rest.take (missing rx1)))).frameReady = true := by
            rw [(store_frame rx1 _).2.2.2.2.2.2.2.1, hready]
          have hdone := showing_completeFrame hover hstore hstored hready'
          have hkept := keeps_completeFrame hkeep hstore hstored h.keeps
          rw [framePhase_full he henter hfull, endTurn_rx] at hwf' ⊢
          rw [endTurn_ctx]
          exact ⟨hwf', hdone, hkept⟩
      · rw [framePhase_err he hrc] at hwf' ⊢
        exact ⟨hwf', hshow', h.keeps⟩

/-- A receive call: what every message keeps of the callback's state, given that it lies in the
buffer over what was shown, the call keeps. -/
theorem shows_wsRxFeed {P : σ → Prop} (hover : Overlays callback shown)
    (hkeep : ∀ ctx opcode buf length, Overlaid shown ctx opcode buf length → P ctx →
      P (callback ctx opcode buf length).2)
    (h : Shows shown P rx ctx) (data : List UInt8) :
    Shows shown P (wsRxFeed callback rx ctx data).2.1 (wsRxFeed callback rx ctx data).2.2 := by
  unfold wsRxFeed
  generalize 2 * data.length + 1 = turns
  induction turns generalizing rx ctx data with
  | zero => rcases data with _ | ⟨b, data⟩ <;> exact h
  | succ turns ih =>
    rcases data with _ | ⟨b, data⟩
    · exact h
    · have hturn := shows_feedTurn hover hkeep h b data
      simp only [feedLoop]
      rcases hf : feedTurn callback rx ctx b data with ⟨rx', ctx', rest⟩ | ⟨rc, rx', ctx'⟩
      · rw [hf] at hturn
        exact ih hturn _
      · rw [hf] at hturn
        exact hturn

end Turns

end EmbeddedAudio.Ws
