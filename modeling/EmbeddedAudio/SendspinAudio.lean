-- The audio callback over whole runs: whether it comes while a stream is open,
-- and whether the codec header that it is shown is still the one of the stream.
import EmbeddedAudio.SendspinDisconnect
import EmbeddedAudio.SendspinTuned

namespace EmbeddedAudio.Sendspin

open Storage Ws

variable {φ : Type}

/-! ## Audio outside a stream -/

/-- Every audio callback comes while a stream is open, with the format of its stream/start. -/
def Bracketed (config : Config) (log : List Event) : Prop :=
  ∀ before format timestampUs pcm after,
    log = before ++ .app (.audio format timestampUs pcm) :: after →
    ∃ o, streamAfter config before = some o ∧ format.described = o.start.described

/-- Every audio chunk comes while a stream is open. -/
def Timely (config : Config) (log : List Event) : Prop :=
  ∀ before payload rc after,
    log = before ++ .message EAF_SENDPIN_WS_BINARY payload rc :: after → isAudio payload →
    ∃ o, streamAfter config before = some o

theorem streamAfter_audio (config : Config) (log : List Event) (format : StreamStart)
    (timestampUs : Int) (pcm : List UInt8) :
    streamAfter config (log ++ [.app (.audio format timestampUs pcm)]) = streamAfter config log :=
  streamAfter_snoc config log _

/-- The client looks at no stream when a chunk comes, so it is up to the server. -/
theorem bracketed_iff (env : Env φ) (config : Config) (callbacks : Callbacks) (calls : List Call) :
    let log := (afterCalls env (clientInit env config callbacks) calls).log
    Bracketed config log ↔ (callbacks.audio = true → Timely config log) := by
  intro log
  have hspec : AudioSpec config callbacks.audio log :=
    audioSpec_afterCalls env config callbacks calls
  constructor
  · intro h hset before payload rc after hsplit haudio
    obtain ⟨before', format, timestampUs, pcm, rfl⟩ := hspec.made hset _ _ _ _ hsplit haudio
    rw [List.append_assoc] at hsplit
    obtain ⟨o, ho, -⟩ := h _ _ _ _ _ hsplit
    exact ⟨o, (streamAfter_audio config before' format timestampUs pcm).trans ho⟩
  · intro h before format timestampUs pcm after hsplit
    obtain ⟨hset, payload, after', rfl, haudio, hplayed⟩ := hspec.heard _ _ _ _ _ hsplit
    have hmessage : log = (before ++ [.app (.audio format timestampUs pcm)]) ++
        .message EAF_SENDPIN_WS_BINARY payload EAF_OK :: after' := by
      rw [List.append_assoc]
      exact hsplit
    obtain ⟨o, ho⟩ := h hset _ _ _ _ hmessage haudio
    rw [streamAfter_audio] at ho
    exact ⟨o, ho, (hplayed o ho).2.1⟩

/-- An audio chunk with no samples. -/
def silentChunk : List UInt8 := [0x04, 0, 0, 0, 0, 0, 0, 0, 0]

/-- A log around one of its events. -/
theorem split_at {log : List Event} {k : Nat} {e : Event} (h : log[k]? = some e) :
    log = log.take k ++ e :: log.drop (k + 1) := by
  obtain ⟨hk, heq⟩ := List.getElem?_eq_some_iff.mp h
  rw [← heq, List.cons_getElem_drop_succ, List.take_append_drop]

/-- A chunk right after the upgrade: the callback is made before any stream/start. -/
theorem unopened_audio : ¬ ∀ (env : Env Unit) config callbacks calls,
    Bracketed config (afterCalls env (clientInit env config callbacks) calls).log := by
  intro h
  have hbracketed : Bracketed plainConfig
      (reached [dial, receive response, receive (0x82 :: 0x09 :: silentChunk)]).log := h _ _ _ _
  -- one look at the run, for what is in its log and for what is before that
  obtain ⟨hcall, hnone⟩ :
      (reached [dial, receive response, receive (0x82 :: 0x09 :: silentChunk)]).log[6]? =
        some (.app (.audio StreamStart.zero 0 [])) ∧
      streamAfter plainConfig
        ((reached [dial, receive response, receive (0x82 :: 0x09 :: silentChunk)]).log.take 6) =
        none := by decide +kernel
  obtain ⟨o, ho, -⟩ := hbracketed _ _ _ _ _ (split_at hcall)
  rw [hnone] at ho
  cases ho

/-! ## The codec header under later messages -/

/-- Every audio callback of a stream is shown the codec header of its stream/start. -/
def HeaderKept (config : Config) (log : List Event) : Prop :=
  ∀ before format timestampUs pcm after o,
    log = before ++ .app (.audio format timestampUs pcm) :: after →
    streamAfter config before = some o → format.codecHeader.bytes = o.start.codecHeader.bytes

/-- The cells of the message buffer that a view denotes. -/
def Denotes (view : Span) (i : Nat) : Prop := view.start ≤ i ∧ i < view.start + view.bytes.length

/-- At every point of a log: no message since the stream/start has written a cell that the view
which the client holds denotes, and a message that comes next does not either. -/
def NeverOverwritten (config : Config) (log : List Event) : Prop :=
  ∀ before after o, log = before ++ after → heldAfter config before = some o →
    ∀ i, Denotes o.start.codecHeader i → (∀ m ∈ o.later, m.length ≤ i) ∧
      ∀ opcode payload rc rest, after = .message opcode payload rc :: rest →
        isControl opcode = false → payload.length ≤ i

/-- What is there of a message that is still on its way has not written a cell that the stored view
denotes. -/
def PartApart (config : Config) (c : Client φ) : Prop :=
  ∀ o, heldAfter config c.log = some o → ∀ i, Denotes c.stream.codecHeader i →
    c.rx.messageLength ≤ i

/-- Wherever a message reaches a byte of the codec header, it has that byte there, or a message
behind it has it. -/
def Spared (o : OpenStream) (payload : List UInt8) : Prop :=
  ∀ k, k < o.start.codecHeader.bytes.length → ∀ before m after,
    o.later ++ [payload] = before ++ m :: after → o.start.codecHeader.start + k < m.length →
    (∀ m' ∈ after, m'.length ≤ o.start.codecHeader.start + k) →
    m[o.start.codecHeader.start + k]? = o.start.codecHeader.bytes[k]?

/-- Every text or binary message that comes while the client holds the view of a codec header ends
before the offset of that header in the stream/start. -/
def ShortMessages (config : Config) (log : List Event) : Prop :=
  ∀ before opcode payload rc after o, log = before ++ .message opcode payload rc :: after →
    isControl opcode = false → heldAfter config before = some o →
    o.start.codecHeader.bytes ≠ [] → payload.length ≤ o.start.codecHeader.start

/-- So does what is there of a message that is still on its way. -/
def ShortPart (config : Config) (c : Client φ) : Prop :=
  ∀ o, heldAfter config c.log = some o → o.start.codecHeader.bytes ≠ [] →
    c.rx.messageLength ≤ o.start.codecHeader.start

/-- What holds of the open stream at every audio chunk. -/
def AtChunks (config : Config) (holds : OpenStream → List UInt8 → Prop) (log : List Event) : Prop :=
  ∀ before payload rc after o,
    log = before ++ .message EAF_SENDPIN_WS_BINARY payload rc :: after → isAudio payload →
    streamAfter config before = some o → holds o payload

theorem getElem?_overlay (s payload : List UInt8) (i : Nat) :
    (overwrite s 0 payload)[i]? = if i < payload.length then payload[i]? else s[i]? := by
  unfold overwrite
  rw [List.take_zero, List.nil_append, Nat.zero_add]
  split
  · rw [List.getElem?_append_left ‹_›]
  · rename_i hle
    rw [List.getElem?_append_right (Nat.not_lt.mp hle), List.getElem?_drop]
    congr 1
    omega

/-- The last message that reaches a place says what stands there. -/
theorem getElem?_shown (messages : List (List UInt8)) (s : List UInt8) (i : Nat) :
    (messages.foldl (fun s payload => overwrite s 0 payload) s)[i]? = s[i]? ↔
      ∀ before m after, messages = before ++ m :: after → i < m.length →
        (∀ m' ∈ after, m'.length ≤ i) → m[i]? = s[i]? := by
  induction messages using List.reverseRecOn with
  | nil =>
    refine ⟨fun _ before m after h => ?_, fun _ => rfl⟩
    exact absurd h.symm (List.append_ne_nil_of_right_ne_nil _ (List.cons_ne_nil _ _))
  | append_singleton messages last ih =>
    rw [List.foldl_append, List.foldl_cons, List.foldl_nil, getElem?_overlay]
    by_cases hreach : i < last.length
    · rw [if_pos hreach]
      constructor
      · intro hlast before m after hsplit _ hafter
        rcases List.eq_nil_or_concat' after with rfl | ⟨after, x, rfl⟩
        · obtain ⟨-, heq⟩ := List.append_inj' hsplit rfl
          rw [← List.singleton_inj.mp heq]
          exact hlast
        · have hx : last = x := by
            rw [← List.cons_append, ← List.append_assoc] at hsplit
            exact List.singleton_inj.mp (List.append_inj' hsplit rfl).2
          have hshort := hafter x (by simp)
          rw [← hx] at hshort
          omega
      · intro h
        exact h messages last [] rfl hreach (by simp)
    · rw [if_neg hreach, ih]
      constructor
      · intro h before m after hsplit hm hafter
        rcases List.eq_nil_or_concat' after with rfl | ⟨after, x, rfl⟩
        · obtain ⟨-, heq⟩ := List.append_inj' hsplit rfl
          rw [← List.singleton_inj.mp heq] at hm
          exact absurd hm hreach
        · rw [← List.cons_append, ← List.append_assoc] at hsplit
          apply h before m after (List.append_inj' hsplit rfl).1 hm
          intro m' hm'
          exact hafter m' (List.mem_append_left _ hm')
      · intro h before m after hsplit hm hafter
        apply h before m (after ++ [last]) (by rw [hsplit]; simp) hm
        intro m' hm'
        rcases List.mem_append.mp hm' with hm' | hm'
        · exact hafter m' hm'
        · rw [List.mem_singleton.mp hm']
          exact Nat.not_lt.mp hreach

theorem slice_eq_iff (store bytes : List UInt8) (pos : Nat) :
    slice store pos bytes.length = bytes ↔
      ∀ k, k < bytes.length → store[pos + k]? = bytes[k]? := by
  have hslice : ∀ k, k < bytes.length → (slice store pos bytes.length)[k]? = store[pos + k]? := by
    intro k hk
    unfold slice
    rw [List.getElem?_take_of_lt hk, List.getElem?_drop]
  constructor
  · intro h k hk
    rw [← hslice k hk, h]
  · intro h
    refine List.ext_getElem? fun k => ?_
    rcases Nat.lt_or_ge k bytes.length with hk | hk
    · rw [hslice k hk, h k hk]
    · rw [List.getElem?_eq_none hk, List.getElem?_eq_none]
      unfold slice
      rw [List.length_take]
      omega

/-- The view shows the codec header exactly if the messages have spared it. -/
theorem shown_iff_spared {o : OpenStream} (hparse : parseStreamStart ⟨0, o.text⟩ = .ok o.start)
    (payload : List UInt8) :
    slice (overwrite o.shown 0 payload) o.start.codecHeader.start
        o.start.codecHeader.bytes.length = o.start.codecHeader.bytes ↔ Spared o payload := by
  have hover : overwrite o.shown 0 payload =
      (o.later ++ [payload]).foldl (fun s payload => overwrite s 0 payload) o.text := by
    rw [List.foldl_append]
    rfl
  have htext : ∀ k, k < o.start.codecHeader.bytes.length →
      o.text[o.start.codecHeader.start + k]? = o.start.codecHeader.bytes[k]? := by
    intro k hk
    rw [← List.getElem?_drop]
    obtain ⟨rest, hrest⟩ := within_codecHeader hparse
    rw [← hrest, List.getElem?_append_left hk]
  rw [slice_eq_iff, hover]
  unfold Spared
  refine forall_congr' fun k => forall_congr' fun hk => ?_
  rw [← htext k hk]
  exact getElem?_shown _ _ _

/-- All cells of a view are apart from a message exactly if its first cell is. -/
theorem apart_iff (view : Span) (n : Nat) :
    (∀ i, Denotes view i → n ≤ i) ↔ (view.bytes ≠ [] → n ≤ view.start) := by
  constructor
  · intro h hne
    have hpos := List.length_pos_of_ne_nil hne
    exact h view.start ⟨Nat.le_refl _, by omega⟩
  · rintro h i ⟨hstart, hend⟩
    have hne : view.bytes ≠ [] := by
      intro hnil
      rw [hnil, List.length_nil] at hend
      omega
    exact (h hne).trans hstart

/-- A text or binary message that came while the client held a view. -/
def CameDuring (config : Config) (log : List Event) (start : StreamStart) (m : List UInt8) : Prop :=
  ∃ before opcode rc after o, log = before ++ .message opcode m rc :: after ∧
    isControl opcode = false ∧ heldAfter config before = some o ∧ o.start = start

theorem CameDuring.later {config : Config} {log : List Event} {start : StreamStart}
    {m : List UInt8} (h : CameDuring config log start m) (e : Event) :
    CameDuring config (log ++ [e]) start m := by
  obtain ⟨before, opcode, rc, after, o, hsplit, hrest⟩ := h
  refine ⟨before, opcode, rc, after ++ [e], o, ?_, hrest⟩
  rw [hsplit, List.append_assoc, List.cons_append]

/-- So did all messages that have come since the stream/start. -/
theorem later_heard {config : Config} {log : List Event} {o : OpenStream}
    (h : heldAfter config log = some o) {m : List UInt8} (hm : m ∈ o.later) :
    CameDuring config log o.start m := by
  induction log using List.reverseRecOn generalizing o with
  | nil => cases h
  | append_singleton log e ih =>
    rw [heldAfter_snoc] at h
    cases e with
    | message opcode payload rc =>
      have hadd : isControl opcode = false →
          (heldAfter config log).map (.add payload) = some o →
          CameDuring config (log ++ [.message opcode payload rc]) o.start m := by
        intro hdata hmap
        obtain ⟨o', ho', rfl⟩ := Option.map_eq_some_iff.mp hmap
        rcases List.mem_append.mp hm with hold | hnew
        · exact (ih ho' hold).later _
        · obtain rfl := List.mem_singleton.mp hnew
          exact ⟨log, opcode, rc, [], o', rfl, hdata, ho', rfl⟩
      rw [afterHeld_message] at h
      split_ifs at h with hcontrol htext hrc
      · exact (ih h hm).later _
      · rw [Bool.not_eq_true] at hcontrol
        rcases Option.or_eq_some_iff.mp h with hopen | ⟨-, hmap⟩
        · rcases afterText_some hopen with ⟨-, start, rfl⟩ | ⟨o', ho', rfl⟩
          · cases hm
          · exact hadd hcontrol (by rw [ho']; rfl)
        · exact hadd hcontrol hmap
      · rw [Bool.not_eq_true] at hcontrol
        exact hadd hcontrol (heldRefused_some h).2
      · rw [Bool.not_eq_true] at hcontrol
        exact hadd hcontrol h
    | _ => exact (ih h hm).later _

/-- The view that the client holds is apart from all messages exactly if each of them is short when
it comes. -/
theorem neverOverwritten_iff (config : Config) (log : List Event) :
    NeverOverwritten config log ↔ ShortMessages config log := by
  constructor
  · intro h before opcode payload rc after o hsplit hdata ho
    refine (apart_iff _ _).mp fun i hi => ?_
    exact (h before _ o hsplit ho i hi).2 opcode payload rc after rfl hdata
  · intro h before after o hsplit ho i hi
    constructor
    · intro m hm
      obtain ⟨first, opcode, rc, rest, o', hfirst, hdata, ho', hstart⟩ := later_heard ho hm
      have hshort := h first opcode m rc (rest ++ after) o'
        (by rw [hsplit, hfirst, List.append_assoc, List.cons_append]) hdata ho'
      rw [hstart] at hshort
      exact (apart_iff _ _).mpr hshort i hi
    · rintro opcode payload rc rest rfl hdata
      exact (apart_iff _ _).mpr (h before opcode payload rc rest o hsplit hdata ho) i hi

/-- What short messages leave of the codec header is all of it. -/
theorem spared_of_short {config : Config} {log : List Event} (h : ShortMessages config log)
    {before after : List Event} {payload : List UInt8} {rc : Rc} {o : OpenStream}
    (hsplit : log = before ++ .message EAF_SENDPIN_WS_BINARY payload rc :: after)
    (ho : streamAfter config before = some o) : Spared o payload := by
  intro k hk first m rest hmessages hreach _
  have hi : Denotes o.start.codecHeader (o.start.codecHeader.start + k) :=
    ⟨Nat.le_add_right _ _, by omega⟩
  obtain ⟨hlater, hnext⟩ :=
    (neverOverwritten_iff config log).mpr h before _ o hsplit (held_of_open ho) _ hi
  have hmem : m ∈ o.later ++ [payload] := by
    rw [hmessages]
    simp
  rcases List.mem_append.mp hmem with hold | hnew
  · exact absurd (hlater m hold) (Nat.not_le.mpr hreach)
  · rw [List.mem_singleton.mp hnew] at hreach
    exact absurd (hnext _ payload rc after rfl (by decide)) (Nat.not_le.mpr hreach)

/-- A callback, seen as the chunk that it was made for. -/
theorem AudioSpec.call {config : Config} {set : Bool} {log : List Event}
    (h : AudioSpec config set log) {before after : List Event} {format : StreamStart}
    {timestampUs : Int} {pcm : List UInt8}
    (hsplit : log = before ++ .app (.audio format timestampUs pcm) :: after) :
    set = true ∧ ∃ payload after', isAudio payload ∧
      after = .message EAF_SENDPIN_WS_BINARY payload EAF_OK :: after' ∧
      log = (before ++ [.app (.audio format timestampUs pcm)]) ++
        .message EAF_SENDPIN_WS_BINARY payload EAF_OK :: after' ∧
      Played (streamAfter config before) payload format := by
  obtain ⟨hset, payload, after', rfl, haudio, hplayed⟩ := h.heard _ _ _ _ _ hsplit
  refine ⟨hset, payload, after', haudio, rfl, ?_, hplayed⟩
  rw [List.append_assoc]
  exact hsplit

/-- A chunk, seen as the callback that was made for it. -/
theorem AudioSpec.chunk {config : Config} {log : List Event} (h : AudioSpec config true log)
    {before after : List Event} {payload : List UInt8} {rc : Rc}
    (hsplit : log = before ++ .message EAF_SENDPIN_WS_BINARY payload rc :: after)
    (haudio : isAudio payload) {o : OpenStream} (ho : streamAfter config before = some o) :
    ∃ before' format timestampUs pcm,
      log = before' ++ .app (.audio format timestampUs pcm) ::
        .message EAF_SENDPIN_WS_BINARY payload rc :: after ∧
      streamAfter config before' = some o ∧ Played (some o) payload format := by
  obtain ⟨before', format, timestampUs, pcm, rfl⟩ := h.made rfl _ _ _ _ hsplit haudio
  rw [List.append_assoc] at hsplit
  rw [streamAfter_audio] at ho
  obtain ⟨-, payload', after', hafter, -, hplayed⟩ := h.heard _ _ _ _ _ hsplit
  cases hafter
  exact ⟨before', format, timestampUs, pcm, hsplit, ho, ho ▸ hplayed⟩

/-- Between two calls the stored view is that of the stream/start that was last accepted. -/
theorem partApart_iff (env : Env φ) (config : Config) (callbacks : Callbacks) (calls : List Call) :
    PartApart config (afterCalls env (clientInit env config callbacks) calls) ↔
      ShortPart config (afterCalls env (clientInit env config callbacks) calls) := by
  have htuned := @tuned_afterCalls φ env _ _ _ (tuned_init env config callbacks) calls
  refine forall_congr' fun o => forall_congr' fun ho => ?_
  rw [(htuned.keeps.held o ho).1]
  exact apart_iff _ _

/-- The codec header is what the messages leave of it, chunk by chunk. And at every point of a run
the view that the client holds is apart from what later frames have written exactly if no message,
whole or in part, that comes before the next stream/start is handled is long enough to reach it. -/
theorem headerKept_iff (env : Env φ) (config : Config) (callbacks : Callbacks) (calls : List Call) :
    let after := afterCalls env (clientInit env config callbacks)
    let log := (after calls).log
    (HeaderKept config log ↔ (callbacks.audio = true → AtChunks config Spared log)) ∧
      (HeaderKept config log ∧ NeverOverwritten config log ∧
          (∀ first, first <+: calls → PartApart config (after first)) ↔
        ShortMessages config log ∧ ∀ first, first <+: calls → ShortPart config (after first)) := by
  intro after log
  have hspec : AudioSpec config callbacks.audio log :=
    audioSpec_afterCalls env config callbacks calls
  have hkept : HeaderKept config log ↔ (callbacks.audio = true → AtChunks config Spared log) := by
    constructor
    · intro h hset before payload rc after o hsplit haudio ho
      rw [hset] at hspec
      obtain ⟨before', format, timestampUs, pcm, hcall, ho', hplayed⟩ :=
        hspec.chunk hsplit haudio ho
      obtain ⟨hparse, -, hbytes⟩ := hplayed o rfl
      rw [← shown_iff_spared hparse, ← hbytes]
      exact h _ _ _ _ _ o hcall ho'
    · intro h before format timestampUs pcm after o hsplit ho
      obtain ⟨hset, payload, after', haudio, -, hchunk, hplayed⟩ := hspec.call hsplit
      obtain ⟨hparse, -, hbytes⟩ := hplayed o ho
      rw [hbytes, shown_iff_spared hparse]
      exact h hset _ _ _ _ o hchunk haudio ((streamAfter_audio config before _ _ _).trans ho)
  refine ⟨hkept, ?_⟩
  have hparts : (∀ first, first <+: calls → PartApart config (after first)) ↔
      ∀ first, first <+: calls → ShortPart config (after first) :=
    forall_congr' fun first => forall_congr' fun _ => partApart_iff env config callbacks first
  rw [neverOverwritten_iff, hparts]
  constructor
  · rintro ⟨-, hshort, hpart⟩
    exact ⟨hshort, hpart⟩
  · rintro ⟨hshort, hpart⟩
    refine ⟨hkept.mpr ?_, hshort, hpart⟩
    intro _ before payload rc rest o hsplit _ ho
    exact spared_of_short hshort hsplit ho

/-- A stream/start with the codec header `AA`. -/
def headerText : List UInt8 :=
  ascii ("\x7b\"payload\":\x7b\"player\":\x7b\"codec_header\":\"AA\",\"codec\":\"pcm\"," ++
    "\"sample_rate\":48000,\"channels\":2,\"bit_depth\":16\x7d\x7d,\"type\":\"stream/start\"\x7d")

/-- That stream, and a chunk of zeros that is longer than the offset of its header. -/
def overwrittenHeader : List Event :=
  (reached [dial, receive response,
    receive (0x81 :: 126 :: 0 :: headerText.length.toUInt8 :: headerText),
    receive (0x82 :: 60 :: (silentChunk ++ List.replicate 51 0))]).log

/-- The callback for the chunk is shown two bytes of the chunk as the codec header. -/
theorem overwritten_header : ¬ ∀ (env : Env Unit) config callbacks calls,
    HeaderKept config (afterCalls env (clientInit env config callbacks) calls).log := by
  intro h
  have hkept : HeaderKept plainConfig overwrittenHeader := h _ _ _ _
  obtain ⟨hcall, hopen⟩ :
      overwrittenHeader[9]? = some (.app (.audio ⟨0, .pcm, 48000, 2, 16, ⟨38, [0, 0]⟩⟩ 0
        (List.replicate 51 0))) ∧
      streamAfter plainConfig (overwrittenHeader.take 9) =
        some ⟨⟨0, .pcm, 48000, 2, 16, ⟨38, ascii "AA"⟩⟩, headerText, []⟩ := by decide +kernel
  exact absurd (hkept _ _ _ _ _ _ (split_at hcall) hopen) (by decide)

end EmbeddedAudio.Sendspin
