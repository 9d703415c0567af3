-- What the output gets of the body of a response: its frames, in order and
-- behind the gates, and the end only behind all of them.
import EmbeddedAudio.LmsLaws
import EmbeddedAudio.LmsSamples

namespace EmbeddedAudio.Lms

open Storage Log Groups

/-! ## Frames -/

theorem bodyOf_leading (received data : List UInt8) :
    bodyOf received <+: bodyOf (received ++ data) := by
  rcases hsplit : splitHeader [] received with _ | ⟨header, body⟩
  · rw [bodyOf_none hsplit]
    exact List.nil_prefix
  · rw [bodyOf_some hsplit, bodyOf_append hsplit]
    exact List.prefix_append _ _

/-- What the output accepted is the beginning of what stands in the response, behind what was left
in the ring. -/
def Faithful (t : Course) : Prop :=
  t.accepted <+: pcmFrames t.stream (t.ring ++ bodyOf t.received)

theorem faithful_next {t : Course} {e : Event} (h : Faithful t) (hlaw : Lawful t e) :
    Faithful (t.next e) := by
  unfold Faithful at h ⊢
  cases e with
  | start format rc =>
    by_cases hrc : rc = EAF_OK
    · simp [Course.next, hrc, noCourse]
    · simpa [Course.next, hrc] using h
  | startBuffered format request rc limits =>
    by_cases hrc : rc = EAF_OK
    · simp [Course.next, hrc, noCourse]
    · simpa [Course.next, hrc] using h
  | opened stream ring =>
    have hnone : (t.next (.opened stream ring)).accepted = [] := hlaw.2
    rw [hnone]
    exact List.nil_prefix
  | pause paused rc =>
    by_cases hrc : rc = EAF_OK
    · simpa [Course.next, hrc] using h
    · simpa [Course.next, hrc] using h
  | pcm frames wrote =>
    obtain ⟨-, hsupported, -, hoffered, -⟩ := hlaw
    rw [framesOf_pcm hsupported] at hoffered
    exact ((List.prefix_append_right_inj _).mpr (List.take_prefix wrote frames)).trans hoffered
  | recv socket rc data =>
    cases socket with
    | control => exact h
    | http =>
      have hmore : t.ring ++ bodyOf t.received <+: t.ring ++ bodyOf (t.received ++ data) :=
        (List.prefix_append_right_inj _).mpr (bodyOf_leading t.received data)
      exact h.trans (pcmFrames_leading hmore)
  | _ => exact h

theorem faithful_log {log : List Event} (h : LawfulLog log) : Faithful (course log) := by
  induction log using List.reverseRecOn with
  | nil => exact List.nil_prefix
  | append_singleton log e ih =>
    rw [course_snoc]
    exact faithful_next (ih h.shorter) h.last

/-! ## One stream -/

/-- What the output is offered of a stream, and when it is told of the end. -/
structure Conserved (t : Course) (e : Event) : Prop where
  offered : ∀ frames wrote, e = .pcm frames wrote → t.Open ∧
    ∃ header body, splitHeader [] t.received = some (header, body) ∧
      t.accepted ++ frames <+: pcmFrames t.stream body
  ended : e = .eof → t.ended = false ∧ t.Open ∧
    ∃ header body, splitHeader [] t.received = some (header, body) ∧
      (match declaredLength header with
        | some n => body.length = n
        | none => t.finished = true) ∧
      pcmFrameBytes t.stream ∣ body.length ∧ t.accepted = pcmFrames t.stream body

/-- A stream behind an empty ring gets nothing but its own response. -/
theorem conserved_of_lawful {t : Course} {e : Event} (h : Lawful t e) (hring : t.ring = []) :
    Conserved t e where
  offered frames wrote he := by
    subst he
    obtain ⟨-, hsupported, hsome, hframes, hopen⟩ := h
    rw [hring, List.nil_append] at hframes
    rcases hsplit : splitHeader [] t.received with _ | ⟨header, body⟩
    · -- nothing can come of a response without a body
      rw [bodyOf_none hsplit, framesOf_nil] at hframes
      have hnone := List.prefix_nil.mp hframes
      exact absurd (List.append_eq_nil_iff.mp hnone).2 hsome
    · rw [bodyOf_some hsplit, framesOf_pcm hsupported] at hframes
      exact ⟨hopen (by rw [hsplit]; simp), header, body, rfl, hframes⟩
  ended he := by
    subst he
    obtain ⟨-, hsupported, hended, hopen, ⟨header, body, hsplit, hlength⟩, hwhole, haccepted⟩ := h
    rw [hring, List.nil_append, bodyOf_some hsplit] at hwhole haccepted
    rw [frameBytes_pcm hsupported] at hwhole
    rw [framesOf_pcm hsupported] at haccepted
    exact ⟨hended, hopen, header, body, hsplit, hlength, hwhole, haccepted⟩

def isOpened : Event → Bool
  | .opened _ _ => true
  | _ => false

/-- The streams that a log opens. -/
def streams (log : List Event) : Nat := log.countP isOpened

theorem streams_snoc (log : List Event) (e : Event) :
    streams (log ++ [e]) = streams log + (isOpened e).toNat := by
  unfold streams
  rw [List.countP_append]
  cases e <;> rfl

theorem next_ring {t : Course} {e : Event} (h : isOpened e = false) :
    (t.next e).ring = t.ring ∨ (t.next e).ring = [] := by
  cases e with
  | opened => cases h
  | start format rc =>
    by_cases hrc : rc = EAF_OK
    · exact Or.inr (by simp [Course.next, hrc, noCourse])
    · exact Or.inl (by simp [Course.next, hrc])
  | startBuffered format request rc limits =>
    by_cases hrc : rc = EAF_OK
    · exact Or.inr (by simp [Course.next, hrc, noCourse])
    · exact Or.inl (by simp [Course.next, hrc])
  | pause paused rc =>
    by_cases hrc : rc = EAF_OK
    · exact Or.inl (by simp [Course.next, hrc])
    · exact Or.inl (by simp [Course.next, hrc])
  | recv socket rc data =>
    cases socket with
    | control => exact Or.inl rfl
    | http => exact Or.inl rfl
  | _ => exact Or.inl rfl

/-! ## What a move adds to the log -/

/-- An event that opens no stream and does not end a connection. -/
def plain : Event → Bool
  | .opened _ _ => false
  | .recv .http rc _ => rc != EAF_EOF
  | _ => true

theorem plain_quiet {e : Event} (h : quiet e = true) : plain e = true := by
  cases e with
  | opened => cases h
  | recv socket rc data =>
    cases socket with
    | control => rfl
    | http =>
      simp only [quiet, Bool.and_eq_true] at h
      exact h.1
  | _ => rfl

theorem plain_stat {event : String} {e : Event} (h : isStat event e = true) : plain e = true := by
  obtain ⟨body, rfl, -⟩ := isStat_elim h
  rfl

theorem plain_starts {s : Session} {e : Event} (h : Starts s e) : plain e = true := by
  unfold Starts at h
  split at h
  · obtain ⟨request, rfl⟩ := h
    rfl
  · rw [h]
    rfl

/-- The events that a move adds. -/
inductive Adds (s d : Session) : List Event → Prop
  | plain {es : List Event} : (∀ e ∈ es, plain e = true) →
      (s.streaming = false → d.streaming = false ∧ d.ingress = s.ingress) → Adds s d es
  | opened {e : Event} (stream : Stream) : s.streaming = false → Lms.plain e = true →
      Adds s d [e, .opened stream s.ingress]
  | exhaust : s.streaming = true → s.headersDone = true →
      (s.hasLength = true → s.remaining = 0) → Adds s d [.recv .http EAF_EOF []]

theorem adds_streaming {s d : Session} {es : List Event} (hs : s.streaming = true)
    (hplain : ∀ e ∈ es, plain e = true) : Adds s d es := by
  refine .plain hplain fun hs' => ?_
  rw [hs] at hs'
  cases hs'

theorem move_adds {s d : Session} (h : Move s d) : ∃ es, d.log = s.log ++ es ∧ Adds s d es := by
  cases h with
  | quiet he => exact ⟨_, rfl, .plain (by simpa using plain_quiet he) fun hs => ⟨hs, rfl⟩⟩
  | idle hs hd hlog hingress =>
    exact ⟨[], by rw [hlog, List.append_nil], .plain (by simp) fun _ => ⟨hd, hingress⟩⟩
  | @refused e hs he =>
    refine ⟨_, rfl, .plain ?_ fun hs => ⟨hs, rfl⟩⟩
    cases e with
    | start => simp [plain]
    | startBuffered => simp [plain]
    | _ => cases he
  | misstart format request limits hs =>
    exact ⟨_, rfl, .plain (by simp [plain]) fun hs => ⟨hs, rfl⟩⟩
  | start hfresh _ hstarts _ =>
    exact ⟨_, rfl, .opened _ hfresh.streaming (plain_starts hstarts)⟩
  | stop hs _ hlog => exact ⟨_, hlog, adds_streaming hs (by simp [plain])⟩
  | continued hs => exact ⟨_, rfl, adds_streaming hs (by simp [plain])⟩
  | unpause hs => exact ⟨_, rfl, adds_streaming hs (by simp [plain])⟩
  | resume hs => exact ⟨_, rfl, adds_streaming hs (by simp [plain])⟩
  | pause hs => exact ⟨_, rfl, adds_streaming hs (by simp [plain])⟩
  | ready he hs => exact ⟨_, rfl, adds_streaming hs (by simpa using plain_stat he)⟩
  | release hs => exact ⟨_, rfl, adds_streaming hs (by simp [plain])⟩
  | done he hs => exact ⟨_, rfl, adds_streaming hs (by simpa using plain_stat he)⟩
  | finish hd => exact ⟨_, rfl, adds_streaming hd.streaming (by simp [plain])⟩
  | finishAll hd _ he =>
    obtain ⟨body, rfl, -⟩ := isStat_elim he
    exact ⟨_, rfl, adds_streaming hd.streaming (by simp [plain])⟩
  | play he hs => exact ⟨_, rfl, adds_streaming hs (by simpa using plain_stat he)⟩
  | offer wrote hs => exact ⟨_, rfl, adds_streaming hs (by simp [plain])⟩
  | decode hs => exact ⟨[], (List.append_nil _).symm, adds_streaming hs (by simp)⟩
  | @receive data es hs _ _ _ hquiet =>
    have hlog : (arrived data s).log = s.log := by
      unfold arrived
      split
      · rfl
      · split <;> rfl
    refine ⟨.recv .http EAF_OK data :: es, ?_, adds_streaming hs ?_⟩
    · rw [add_log, hlog]
    · intro e he
      rcases List.mem_cons.mp he with rfl | hin
      · simp [plain]
      · exact plain_quiet (hquiet e hin)
  | exhaust hs hdone _ hleft => exact ⟨_, rfl, .exhaust hs hdone hleft⟩

theorem plain_fault {s : Session} {es : List Event} (h : Fault s es) :
    (∀ e ∈ es, isOpened e = false) ∧ (s.streaming = false → es = []) := by
  cases h with
  | none => exact ⟨by simp, fun _ => rfl⟩
  | release hs | offer _ hs | receive _ hs | early hs =>
    refine ⟨by simp [isOpened], fun hs' => ?_⟩
    rw [hs] at hs'
    cases hs'
  | finish hd =>
    refine ⟨by simp [isOpened], fun hs' => ?_⟩
    rw [hd.streaming] at hs'
    cases hs'

theorem moves_extend {s d : Session} (h : Moves s d) : ∃ es, d.log = s.log ++ es := by
  induction h with
  | refl => exact ⟨[], (List.append_nil _).symm⟩
  | tail _ hmove ih =>
    obtain ⟨es, hes⟩ := ih
    obtain ⟨fs, hfs, -⟩ := move_adds hmove
    exact ⟨es ++ fs, by rw [hfs, hes, List.append_assoc]⟩

/-! ## The ring of the first stream -/

/-- The first stream finds nothing in the ring. -/
def FirstEmpty (before : List Event) (e : Event) : Prop :=
  streams before = 0 → ∀ stream ring, e = .opened stream ring → ring = []

/-- Before the first stream there is nothing in the ring. -/
structure Unused (s : Session) : Prop where
  first : Throughout FirstEmpty s.log
  ring : streams s.log = 0 → s.streaming = false ∧ s.ingress = []

theorem isOpened_quiet {e : Event} (h : quiet e = true) : isOpened e = false := by
  cases e with
  | opened => cases h
  | _ => rfl

theorem isOpened_plain {e : Event} (h : plain e = true) : isOpened e = false := by
  cases e with
  | opened => cases h
  | _ => rfl

/-- Events that open no stream. -/
theorem unused_more {log es : List Event} (hlog : Throughout FirstEmpty log)
    (hes : ∀ e ∈ es, isOpened e = false) :
    Throughout FirstEmpty (log ++ es) ∧ streams (log ++ es) = streams log := by
  refine ⟨throughout_append hlog ?_, ?_⟩
  · intro before e after hsplit _ stream ring he
    have hnone := hes e (by simp [hsplit])
    rw [he] at hnone
    cases hnone
  · unfold streams
    rw [List.countP_append]
    have hnone : es.countP isOpened = 0 := by
      rw [List.countP_eq_zero]
      intro e he hopened
      rw [hes e he] at hopened
      cases hopened
    rw [hnone]
    rfl

theorem unused_move {s d : Session} (h : Unused s) (hmove : Move s d) : Unused d := by
  obtain ⟨es, hlog, hadds⟩ := move_adds hmove
  cases hadds with
  | plain hplain hkept =>
    obtain ⟨hfirst, hcount⟩ := unused_more h.first fun e he => isOpened_plain (hplain e he)
    refine ⟨by rw [hlog]; exact hfirst, fun hnone => ?_⟩
    rw [hlog, hcount] at hnone
    obtain ⟨hs, hring⟩ := h.ring hnone
    obtain ⟨hd, hingress⟩ := hkept hs
    exact ⟨hd, hingress.trans hring⟩
  | @opened e stream hs he =>
    have hone : ∀ e' ∈ [e], isOpened e' = false := by simpa using isOpened_plain he
    obtain ⟨hfirst, hcount⟩ := unused_more h.first hone
    have hsplit : s.log ++ [e, .opened stream s.ingress] =
        s.log ++ [e] ++ [.opened stream s.ingress] := by simp
    refine ⟨?_, fun hnone => ?_⟩
    · rw [hlog, hsplit]
      refine throughout_snoc hfirst fun hnone stream' ring' heq => ?_
      cases heq
      rw [hcount] at hnone
      exact (h.ring hnone).2
    · rw [hlog, hsplit, streams_snoc] at hnone
      simp [isOpened] at hnone
  | exhaust hs _ _ =>
    obtain ⟨hfirst, hcount⟩ := @unused_more _ [.recv .http EAF_EOF []] h.first (by simp [isOpened])
    refine ⟨by rw [hlog]; exact hfirst, fun hnone => ?_⟩
    rw [hlog, hcount] at hnone
    rw [(h.ring hnone).1] at hs
    cases hs

theorem unused_crash {s d : Session} {es fs : List Event} (h : Unused s)
    (hcrash : Crash s d es fs) : Unused d := by
  obtain ⟨hfault, hidle⟩ := plain_fault hcrash.fault
  have hmore : ∀ e ∈ es ++ fs ++ (if s.streaming then [Event.stop] else []),
      isOpened e = false := by
    intro e he
    simp only [List.mem_append] at he
    rcases he with (hin | hin) | hin
    · exact hfault e hin
    · exact isOpened_quiet (hcrash.quiet e hin)
    · split at hin
      · rw [List.mem_singleton.mp hin]
        rfl
      · cases hin
  obtain ⟨hfirst, hcount⟩ := unused_more h.first hmore
  refine ⟨by rw [hcrash.log]; exact hfirst, fun hnone => ?_⟩
  rw [hcrash.log, hcount] at hnone
  obtain ⟨hs, hring⟩ := h.ring hnone
  exact ⟨hcrash.fresh.streaming, (hcrash.ingress hs).trans hring⟩

theorem unused_turns {s d : Session} (h : Unused s) (hturns : Turns s d) : Unused d := by
  induction hturns with
  | refl => exact h
  | tail _ hturn ih =>
    rcases hturn with hmove | ⟨es, fs, hcrash⟩
    · exact unused_move ih hmove
    · exact unused_crash ih hcrash

theorem unused_run {callbacks : Callbacks} {c : Client} (h : clientInit callbacks = .ok c)
    (env : Env) (calls : List Call) : Unused (afterCalls env c calls).toSession := by
  obtain ⟨hfresh, hlog, hingress⟩ := clientInit_session h
  refine unused_turns ⟨?_, fun _ => ⟨hfresh.streaming, hingress⟩⟩ (afterCalls_turns env calls)
  rw [hlog]
  exact throughout_nil

/-- As long as no second stream is opened, the course has an empty ring. -/
theorem ring_of_first {log : List Event} (h : Throughout FirstEmpty log) (hfew : streams log ≤ 1) :
    (course log).ring = [] := by
  induction log using List.reverseRecOn with
  | nil => rfl
  | append_singleton log e ih =>
    rw [streams_snoc] at hfew
    rw [course_snoc]
    by_cases hopened : isOpened e = true
    · rw [hopened, Bool.toNat_true] at hfew
      have hnone : streams log = 0 := by omega
      cases e with
      | opened stream ring => exact h.last hnone stream ring rfl
      | _ => cases hopened
    · have hring := ih h.shorter (by omega)
      rcases @next_ring (course log) e (Bool.eq_false_iff.mpr hopened) with hsame | hnone
      · rw [hsame, hring]
      · exact hnone

/-! ## Connections that end too early -/

/-- The response is not cut short. -/
def Course.Whole (t : Course) : Prop :=
  ∃ header body, splitHeader [] t.received = some (header, body) ∧
    ∀ n, declaredLength header = some n → body.length = n

/-- A connection that ends does so behind a whole response. -/
def EndsWhole (before : List Event) (e : Event) : Prop :=
  ∀ data, e = .recv .http EAF_EOF data → (course before).Whole

theorem whole_of_exhausted {s : Session} (h : Tracked s) (hs : s.streaming = true)
    (hdone : s.headersDone = true) (hleft : s.hasLength = true → s.remaining = 0) :
    (course s.log).Whole := by
  obtain ⟨hsplit, hlength, hremaining⟩ := (h.carries hs).headed hdone
  refine ⟨s.header, _, hsplit, fun n hn => ?_⟩
  have hset : s.hasLength = true := by
    rw [hlength, hn]
    rfl
  have hsum := hremaining n hn
  rw [hleft hset, Nat.zero_add] at hsum
  exact hsum

/-- Moves end no connection too early. -/
theorem moves_whole {s d : Session} (h : Tracked s) (hmoves : Moves s d) :
    ∃ es, d.log = s.log ++ es ∧
      Throughout (fun before e => EndsWhole (s.log ++ before) e) es := by
  induction hmoves with
  | refl => exact ⟨[], (List.append_nil _).symm, throughout_nil⟩
  | @tail m d hto hmove ih =>
    obtain ⟨es, hes, hwhole⟩ := ih
    have hm := tracked_turns h (Moves.turns hto)
    obtain ⟨fs, hfs, hadds⟩ := move_adds hmove
    refine ⟨es ++ fs, by rw [hfs, hes, List.append_assoc], throughout_append hwhole ?_⟩
    have hnone : ∀ e, plain e = true → ∀ before, EndsWhole before e := by
      intro e he before data heq
      subst heq
      simp [plain] at he
    cases hadds with
    | plain hplain _ =>
      intro before e after hsplit
      exact hnone e (hplain e (by simp [hsplit])) _
    | @opened e stream _ he =>
      intro before e' after hsplit
      have hin : e' ∈ [e, Event.opened stream m.ingress] := by
        rw [hsplit]
        simp
      rcases List.mem_pair.mp hin with rfl | rfl
      · exact hnone _ he _
      · intro data heq
        cases heq
    | exhaust hs hdone hleft =>
      intro before e after hsplit data _
      obtain ⟨rfl, -⟩ : before = [] ∧ e :: after = [.recv .http EAF_EOF []] := by
        cases before with
        | nil => exact ⟨rfl, hsplit.symm⟩
        | cons _ before => simp at hsplit
      rw [List.append_nil, ← hes]
      exact whole_of_exhausted hm hs hdone hleft

theorem clientStep_ok (env : Env) {c : Client} (hrc : (clientStep env c).1 = EAF_OK) :
    (andThen (andThen (sendControl env (beginStep c)) (recvControl env)) (pumpHttp env)).1 =
        EAF_OK ∧
      (clientStep env c).2 =
        (andThen (andThen (sendControl env (beginStep c)) (recvControl env)) (pumpHttp env)).2 := by
  unfold clientStep at hrc ⊢
  by_cases hclosed : (!c.controlOpen) = true
  · rw [if_pos hclosed] at hrc
    have hstate : EAF_STATE ≠ EAF_OK := by decide
    exact absurd hrc hstate
  rw [if_neg hclosed] at hrc ⊢
  unfold orClose at hrc ⊢
  split
  · rename_i hok
    exact ⟨hok, rfl⟩
  · rename_i hfailed
    rw [if_neg hfailed] at hrc
    exact absurd hrc hfailed

theorem clientStep_moves (env : Env) {c : Client} (hrc : (clientStep env c).1 = EAF_OK) :
    Moves c.toSession (clientStep env c).2.toSession := by
  obtain ⟨hok, hsame⟩ := clientStep_ok env hrc
  have hsend : Goes (beginStep c).toSession (sendControl env (beginStep c)) := sendControl_goes env
  have hgoes : Goes (beginStep c).toSession
      (andThen (andThen (sendControl env (beginStep c)) (recvControl env)) (pumpHttp env)) :=
    goes_andThen (goes_andThen hsend fun _ => recvControl_goes env) fun _ => pumpHttp_goes env
  rw [hsame]
  exact hgoes.ok hok

/-! ## Bodies that end inside a frame -/

/-- All of the response came and all of its frames were accepted, but there are bytes left. -/
structure Stuck (s : Session) : Prop where
  streaming : s.streaming = true
  httpOpen : s.httpOpen = true
  headersDone : s.headersDone = true
  gate : ¬ Gated s
  bodyDone : s.bodyDone = true
  pcm : s.pcmSent = s.pcm.length
  left : s.tail ++ s.ingress ≠ []
  short : (s.tail ++ s.ingress).length < s.width * s.format.numChannels

theorem Stuck.add {s : Session} (h : Stuck s) (es : List Event) : Stuck (s.add es) :=
  ⟨h.streaming, h.httpOpen, h.headersDone, h.gate, h.bodyDone, h.pcm, h.left, h.short⟩

/-- Less than a frame is only moved out of the ring. -/
theorem decodeLoop_short {width channels : Nat} {bigEndian : Bool} {ingress tail : List UInt8}
    (hshort : (tail ++ ingress).length < width * channels) :
    decodeLoop width channels bigEndian ingress tail [] = ([], tail ++ ingress, []) := by
  induction ingress generalizing tail with
  | nil => simp [decodeLoop]
  | cons b ingress ih =>
    have hroom : ([] : List Frame).length < EAF_LMS_PCM_FRAMES := by decide
    have hnext : (tail ++ [b]) ++ ingress = tail ++ b :: ingress := by simp
    have hpart : (tail ++ [b]).length ≠ width * channels := by
      rw [← hnext, List.length_append] at hshort
      omega
    unfold decodeLoop
    simp only [hroom, if_true]
    rw [if_pos hpart, ih (by rw [hnext]; exact hshort), hnext]

theorem refill_stuck (env : Env) {c : Client} (h : Stuck c.toSession) : ∃ d : Client,
    refill env c = (EAF_OK, d) ∧ d.bodyDone = true ∧ d.ingress = [] ∧ d.pcm = [] ∧
      d.pcmSent = 0 ∧ d.tail ≠ [] := by
  have hsession := @ingressDecode_session c
  have hdecoded : decoded c.toSession =
      { c.toSession with ingress := [], tail := c.tail ++ c.ingress, pcm := [], pcmSent := 0 } := by
    unfold decoded
    rw [decodeLoop_short h.short]
  rw [hdecoded] at hsession
  generalize hd : ingressDecode (clearPcm c) = d at hsession
  have hpcm : d.pcm = [] := by rw [hsession]
  refine ⟨d, ?_, ?_, ?_, hpcm, ?_, ?_⟩
  · unfold refill
    rw [if_pos h.pcm]
    simp only [hd, hpcm, ne_eq, not_true_eq_false, if_false]
  · rw [hsession]
    exact h.bodyDone
  · rw [hsession]
  · rw [hsession]
  · rw [hsession]
    exact h.left

theorem pumpBody_stuck (env : Env) {c : Client} (h : Stuck c.toSession) :
    (pumpBody env c).1 ≠ EAF_OK := by
  have hflush : flushPcm env c = (EAF_OK, c) := if_pos (Nat.le_of_eq h.pcm.symm)
  obtain ⟨d, hrefill, hbody, hingress, hpcm, hsent, htail⟩ := refill_stuck env h
  unfold pumpBody
  rw [hflush, andThen_ok, hrefill, andThen_ok, if_pos (by simp [hbody, hingress, hpcm, hsent])]
  unfold finishInput
  rw [if_pos htail]
  exact invalid_ne

theorem pumpHttp_stuck (env : Env) {c : Client} (h : Stuck c.toSession) :
    (pumpHttp env c).1 ≠ EAF_OK := by
  unfold pumpHttp
  rw [if_neg (by simp [h.streaming])]
  unfold andThen
  by_cases hrc : (serviceBuffered env c).1 = EAF_OK
  · rw [if_pos hrc]
    obtain ⟨ready, released, done, es, hserved⟩ := @serviceBuffered_served env c
    have hstuck : Stuck (serviceBuffered env c).2.toSession := by
      rw [hserved]
      exact ⟨h.streaming, h.httpOpen, h.headersDone, h.gate, h.bodyDone, h.pcm, h.left, h.short⟩
    generalize (serviceBuffered env c).2 = d at hstuck
    have hgate := hstuck.gate
    unfold Gated at hgate
    rw [hstuck.headersDone] at hgate
    simp only [true_and, not_or, not_and, Bool.not_eq_true] at hgate
    simp only
    rw [if_neg (by simp [hstuck.httpOpen]), if_neg (by simp [hgate.1]), if_neg]
    · exact pumpBody_stuck env hstuck
    · intro hwait
      simp only [Bool.and_eq_true, Bool.not_eq_true'] at hwait
      have hstart := hgate.2 hwait.1.1.1
      rw [hstart] at hwait
      exact absurd hwait.1.2 (by simp)
  · rw [if_neg hrc]
    exact hrc

/-- The client finds a stream stuck that, as its course has it, is. -/
theorem stuck_of_course {s : Session} (h : Tracked s) (hs : s.streaming = true)
    (hring : (course s.log).ring = []) (hopen : (course s.log).Open)
    (hcomplete : (course s.log).Complete)
    (hall : (course s.log).accepted =
      pcmFrames (course s.log).stream (bodyOf (course s.log).received))
    (hpart : ¬ pcmFrameBytes (course s.log).stream ∣ (bodyOf (course s.log).received).length)
    (hended : (course s.log).ended = false) : Stuck s := by
  have hf := h.follows hs
  have hc := h.carries hs
  rw [← framesOf_pcm hc.matching.supported] at hall
  rw [← frameBytes_pcm hc.matching.supported] at hpart
  obtain ⟨header, body, hsplit, hlength⟩ := hcomplete
  have hdone : s.headersDone = true := by
    by_contra hdone
    rw [(hc.headless (Bool.eq_false_iff.mpr hdone)).1] at hsplit
    cases hsplit
  obtain ⟨hheader, hhas, hremaining⟩ := hc.headed hdone
  rw [hsplit] at hheader
  obtain ⟨rfl, hbody⟩ := Prod.mk.inj (Option.some.inj hheader)
  obtain ⟨whole, hbytes, hwhole, hframes⟩ := hc.decoded
  rw [hring, List.nil_append] at hbytes
  have hjoined : framesOf (course s.log).stream (bodyOf (course s.log).received) =
      framesOf (course s.log).stream whole ++
        framesOf (course s.log).stream (s.tail ++ s.ingress) := by
    unfold framesOf
    rw [hbytes, groups_append hwhole, List.map_append]
  have hnone : s.pcm.drop s.pcmSent = [] ∧
      framesOf (course s.log).stream (s.tail ++ s.ingress) = [] := by
    rw [hall, hjoined, List.append_assoc] at hframes
    have hempty := List.append_eq_nil_iff.mp (List.append_right_eq_self.mp hframes)
    exact ⟨hempty.2, hempty.1⟩
  have hpos := frameBytes_pos hc.matching.supported
  have hshort : (s.tail ++ s.ingress).length < frameBytes (course s.log).stream := by
    have hgroups :
        (groups (frameBytes (course s.log).stream) (s.tail ++ s.ingress)).length = 0 := by
      rw [List.map_eq_nil_iff.mp hnone.2]
      rfl
    rw [length_groups, Nat.div_eq_zero_iff] at hgroups
    omega
  refine ⟨hs, ?_, hdone, fun hgate => ?_, ?_, ?_, fun hleft => ?_, ?_⟩
  · rw [hf.httpOpen, ← hf.ended, hended]
    rfl
  · obtain ⟨-, hcont | ⟨hlegacy, hstart⟩⟩ := hgate
    · rw [← hf.cont, hopen.1] at hcont
      cases hcont
    · rw [← hf.start, hopen.2 (hf.buffered.trans hlegacy)] at hstart
      cases hstart
  · rcases hdeclared : declaredLength s.header with _ | n
    · rw [hdeclared] at hlength
      exact hc.finished hlength
    · rw [hdeclared] at hlength
      have hsum := hremaining n hdeclared
      have hzero : s.remaining = 0 := by
        rw [← hbody] at hsum
        simp only at hlength
        omega
      refine hc.full hdone ?_ hzero
      rw [hhas, hdeclared]
      rfl
  · have hlength := List.drop_eq_nil_iff.mp hnone.1
    exact Nat.le_antisymm hc.pcmSent hlength
  · rw [hleft, List.append_nil] at hbytes
    rw [hbytes] at hpart
    exact hpart hwhole
  · rw [frameBytes_session hc.matching]
    exact hshort

/-! ## Steps that do not end the stream -/

/-- A packet that ends the stream at hand: `strm` with `q`, `f` or `s`. -/
def Ends (packet : List UInt8) : Prop :=
  packet.take 4 = ascii "strm" ∧
    (packet.getD 4 0 = 0x71 ∨ packet.getD 4 0 = 0x66 ∨ packet.getD 4 0 = 0x73)

/-- Gates that open and pauses do not help. -/
theorem Stuck.gates {s : Session} (h : Stuck s) {waitCont waitStart : Bool} (paused : Bool)
    (hcont : waitCont = true → s.waitCont = true)
    (hstart : waitStart = true → s.waitStart = true) :
    Stuck { s with waitCont := waitCont, waitStart := waitStart, outputPaused := paused } :=
  ⟨h.streaming, h.httpOpen, h.headersDone,
    fun hg => h.gate ⟨hg.1, hg.2.imp hcont fun hw => ⟨hw.1, hstart hw.2⟩⟩, h.bodyDone, h.pcm,
    h.left, h.short⟩

section Stuck

variable (env : Env) {c : Client}

theorem status_stuck (h : Stuck c.toSession) (event : List UInt8) (timestamp : Nat) :
    Stuck (status env event timestamp c).2.toSession := by
  obtain ⟨es, hsession⟩ := @status_session env c event timestamp
  rw [hsession]
  exact h.add es

theorem audg_stuck (h : Stuck c.toSession) (p : List UInt8) :
    Stuck (audg env p c).2.toSession := by
  unfold audg
  split
  · exact h
  · split
    · exact h.add _
    · exact h

theorem cont_stuck (h : Stuck c.toSession) (p : List UInt8) : Stuck (cont p c).2.toSession := by
  unfold cont
  split
  · exact h
  split
  · exact h
  split
  · exact h
  · exact (h.gates c.outputPaused (fun hcont => Bool.noConfusion hcont) id).add [.continued]

theorem callPause_stuck (h : Stuck c.toSession) (paused : Bool) :
    Stuck (callPause env paused c).2.toSession := h.add _

theorem unpause_stuck (h : Stuck c.toSession) : Stuck (unpause env c).2.toSession := by
  unfold unpause
  split
  · split
    · exact h
    · exact (h.gates c.outputPaused id fun hstart => Bool.noConfusion hstart).add
        [.unpaused c.outputPaused]
  · split
    · exact h
    · exact callPause_stuck env h false

/-- The client tells the server of a pause behind a call that left the stream stuck. -/
theorem pausedStatus_stuck {r : Rc × Client} (h : Stuck r.2.toSession) (event : List UInt8)
    (paused : Bool) :
    Stuck (andThen r fun c => status env event 0 (setPaused paused c)).2.toSession := by
  unfold andThen
  split
  · exact status_stuck env (h.gates paused id id) event 0
  · exact h

theorem strmU_stuck (h : Stuck c.toSession) (s : Stream) :
    Stuck (strmU env s c).2.toSession := by
  unfold strmU
  split
  · exact h
  split
  · exact h
  · exact pausedStatus_stuck env (unpause_stuck env h) _ false

theorem strmP_stuck (h : Stuck c.toSession) (s : Stream) :
    Stuck (strmP env s c).2.toSession := by
  unfold strmP
  split
  · exact h
  split
  · exact h
  · exact pausedStatus_stuck env (callPause_stuck env h true) _ true

/-- No other packet helps a stuck stream. -/
theorem command_stuck (h : Stuck c.toSession) {p : List UInt8} (hends : ¬ Ends p) :
    Stuck (command env p c).2.toSession := by
  have hnoted :
      Stuck (record (.command p) { c with stage := .command, opcode := p.take 4 }).toSession :=
    h.add [.command p]
  unfold command
  generalize record (.command p) { c with stage := .command, opcode := p.take 4 } = d at hnoted ⊢
  dsimp only
  split
  · exact audg_stuck env hnoted p
  split
  · exact cont_stuck hnoted p
  split
  · exact hnoted
  rename_i hstrm
  rw [not_not] at hstrm
  unfold strm
  split
  · exact hnoted
  rename_i stream hparse
  have hcommand : stream.command = p.getD 4 0 := by
    unfold parseStream at hparse
    split at hparse
    · cases hparse
    · cases hparse
      rfl
  have hother : ¬ (stream.command = 0x71 ∨ stream.command = 0x66) ∧ stream.command ≠ 0x73 := by
    rw [hcommand]
    exact ⟨fun hq => hends ⟨hstrm, hq.imp_right .inl⟩, fun hs => hends ⟨hstrm, .inr (.inr hs)⟩⟩
  split
  · exact status_stuck env hnoted _ _
  rw [if_neg hother.1]
  split
  · exact strmU_stuck env hnoted stream
  split
  · exact strmP_stuck env hnoted stream
  · rw [if_pos hother.2]
    exact hnoted

end Stuck

/-- The stream is stuck, or a packet that ended the one before was handled. -/
def Heard (s d : Session) : Prop :=
  (Stuck d ∧ ∃ es, d.log = s.log ++ es) ∨
    ∃ es packet, d.log = s.log ++ es ∧ Event.command packet ∈ es ∧ Ends packet

theorem Heard.after {s m d : Session} {es : List Event} (hm : m.log = s.log ++ es)
    (h : Heard m d) : Heard s d := by
  rcases h with ⟨hstuck, fs, hlog⟩ | ⟨fs, packet, hlog, hin, hends⟩
  · exact .inl ⟨hstuck, es ++ fs, by rw [hlog, hm, List.append_assoc]⟩
  · refine .inr ⟨es ++ fs, packet, ?_, List.mem_append_right _ hin, hends⟩
    rw [hlog, hm, List.append_assoc]

theorem sendControl_session (env : Env) (c : Client) :
    ∃ es, (sendControl env c).2.toSession = c.toSession.add es := by
  unfold sendControl
  by_cases hnone : c.txSent < c.tx.length
  · rw [if_pos hnone]
    obtain ⟨sent, hsession⟩ :=
      @tcpSend_session env (setStage .controlSend c) .control (c.tx.drop c.txSent)
    simp only
    split
    · exact ⟨_, hsession⟩
    · exact ⟨_, hsession⟩
  · rw [if_neg hnone]
    exact ⟨[], by simp [Session.add]⟩

/-- A packet that the client handles. -/
theorem command_heard (env : Env) {c d : Client} {packet : List UInt8}
    (h : Heard c.toSession d.toSession) (hok : (command env packet d).1 = EAF_OK) :
    Heard c.toSession (command env packet d).2.toSession := by
  obtain ⟨es, hes⟩ := moves_extend ((command_goes_noted env d packet).ok hok)
  rw [add_log, List.append_assoc] at hes
  rcases h with ⟨hstuck, fs, hfs⟩ | ⟨fs, earlier, hfs, hin, hends⟩
  · have hlog : (command env packet d).2.log = c.log ++ (fs ++ ([.command packet] ++ es)) := by
      rw [hes, hfs, List.append_assoc]
    by_cases hends : Ends packet
    · exact .inr ⟨_, packet, hlog, by simp, hends⟩
    · exact .inl ⟨command_stuck env hstuck hends, _, hlog⟩
  · refine .inr ⟨fs ++ ([.command packet] ++ es), earlier, ?_, List.mem_append_left _ hin, hends⟩
    rw [hes, hfs, List.append_assoc]

theorem feedControl_heard (env : Env) {c : Client} (h : Stuck c.toSession) {data : List UInt8}
    (hrc : (feedControl env data c).1 = EAF_OK) :
    Heard c.toSession (feedControl env data c).2.toSession := by
  have hgood : ∀ packet (d : Client), Heard c.toSession d.toSession →
      if (command env packet d).1 = EAF_OK then
        Heard c.toSession (command env packet d).2.toSession
      else True := by
    intro packet d hd
    split
    · rename_i hok
      exact command_heard env hd hok
    · trivial
  have hfeed := @feed_keeps Client (command env) (fun d => Heard c.toSession d.toSession)
    (fun _ => True) hgood (fun _ _ => trivial) c.parser c data
    (.inl ⟨h, [], (List.append_nil _).symm⟩)
  have hrc' : (feed (command env) c.parser c data).1 = EAF_OK := hrc
  rw [if_pos hrc'] at hfeed
  exact hfeed

theorem recvControl_heard (env : Env) {c : Client} (h : Stuck c.toSession)
    (hrc : (recvControl env c).1 = EAF_OK) :
    Heard c.toSession (recvControl env c).2.toSession := by
  unfold recvControl at hrc ⊢
  have hsession := @tcpRecv_session env (setStage .controlRecv c) .control 256
  have hset : (setStage .controlRecv c).toSession = c.toSession := rfl
  rw [hset] at hsession
  generalize tcpRecv env .control 256 (setStage .controlRecv c) = r at hsession hrc ⊢
  obtain ⟨rc, data, d⟩ := r
  simp only at hsession hrc ⊢
  have hstuck : Stuck d.toSession := by
    rw [hsession]
    exact h.add _
  have hlog := congrArg Session.log hsession
  by_cases hagain : rc = EAF_AGAIN
  · rw [if_pos hagain]
    exact .inl ⟨hstuck, _, hlog⟩
  rw [if_neg hagain] at hrc ⊢
  by_cases hok : rc = EAF_OK
  · rw [if_neg (by simp [hok])] at hrc ⊢
    have hnoted : Stuck (noteProgress (data.length != 0) d).toSession := hstuck
    exact Heard.after (m := d.toSession) hlog (feedControl_heard env hnoted hrc)
  · rw [if_pos hok] at hrc
    exact absurd hrc hok

/-- A stuck stream fails the next step, unless the server ends it. -/
theorem clientStep_stuck (env : Env) {c : Client} (h : Stuck c.toSession) {es : List Event}
    (hlog : (clientStep env c).2.log = c.log ++ es)
    (hnone : ∀ packet, Event.command packet ∈ es → ¬ Ends packet) :
    (clientStep env c).1 ≠ EAF_OK := by
  intro hrc
  obtain ⟨hok, hsame⟩ := clientStep_ok env hrc
  rw [hsame] at hlog
  obtain ⟨fs, hsent⟩ := sendControl_session env (beginStep c)
  have hbegin : (beginStep c).toSession = c.toSession := rfl
  rw [hbegin] at hsent
  have hstuck : Stuck (sendControl env (beginStep c)).2.toSession := by
    rw [hsent]
    exact h.add fs
  have hsentlog := congrArg Session.log hsent
  generalize hr : andThen (sendControl env (beginStep c)) (recvControl env) = r at hok hlog
  unfold andThen at hok hlog
  by_cases hheard : r.1 = EAF_OK
  · rw [if_pos hheard] at hok hlog
    have hr2 : Heard c.toSession r.2.toSession := by
      rw [← hr] at hheard ⊢
      unfold andThen at hheard ⊢
      split
      · rename_i hsendok
        rw [if_pos hsendok] at hheard
        exact Heard.after hsentlog (recvControl_heard env hstuck hheard)
      · exact .inl ⟨hstuck, fs, hsentlog⟩
    rcases hr2 with ⟨hstill, -⟩ | ⟨gs, packet, hgs, hin, hends⟩
    · exact pumpHttp_stuck env hstill hok
    · obtain ⟨ps, hps⟩ := moves_extend (pumpHttp_goes (c := r.2) env |>.ok hok)
      rw [hps, hgs, List.append_assoc] at hlog
      have hes := List.append_cancel_left hlog
      exact hnone packet (by rw [← hes]; exact List.mem_append_left _ hin) hends
  · rw [if_neg hheard] at hok
    exact hheard hok

/-! ## The first stream -/

/-- All of the response came and all of its frames were accepted, but the body ends inside a
frame. -/
structure Course.Cut (t : Course) : Prop where
  gate : t.Open
  complete : t.Complete
  notEnded : t.ended = false
  accepted : t.accepted = pcmFrames t.stream (bodyOf t.received)
  part : ¬ pcmFrameBytes t.stream ∣ (bodyOf t.received).length

/-- What a run comes to for its first stream. -/
structure FirstConserved (env : Env) (d : Client) : Prop where
  /-- Frames are offered behind the gates and in order, and the end comes once, behind all. -/
  events : Throughout (fun before e => streams before ≤ 1 → Conserved (course before) e) d.log
  /-- What the output accepted is a beginning of what is in the body, at any time. -/
  accepted : ∀ before, before <+: d.log → streams before ≤ 1 → (course before).accepted <+:
    pcmFrames (course before).stream (bodyOf (course before).received)
  /-- A connection that ends too early fails the step. -/
  early : (clientStep env d).1 = EAF_OK → ∀ es, (clientStep env d).2.log = d.log ++ es →
    Throughout (fun before e => EndsWhole (d.log ++ before) e) es
  /-- A body that ends inside a frame fails the next step, unless the server ends the stream. -/
  part : streams d.log ≤ 1 → d.streaming = true → (course d.log).Cut → ∀ es,
    (clientStep env d).2.log = d.log ++ es →
    (∀ packet, Event.command packet ∈ es → ¬ Ends packet) → (clientStep env d).1 ≠ EAF_OK

theorem first_stream_conserved {callbacks : Callbacks} {c : Client}
    (h : clientInit callbacks = .ok c) (env : Env) (calls : List Call) :
    FirstConserved env (afterCalls env c calls) := by
  have htracked := tracked_run h env calls
  have hunused := unused_run h env calls
  generalize afterCalls env c calls = d at htracked hunused
  constructor
  · intro before e after hsplit hfew
    have hfirst := hunused.first
    rw [hsplit] at hfirst
    exact conserved_of_lawful (htracked.lawful before e after hsplit)
      (ring_of_first hfirst.shorter hfew)
  · intro before hprefix hfew
    obtain ⟨after, hsplit⟩ := hprefix
    have hfirst := hunused.first
    have hlawful := htracked.lawful
    rw [← hsplit] at hfirst hlawful
    have hfaithful := faithful_log hlawful.shorter
    unfold Faithful at hfaithful
    rw [ring_of_first hfirst.shorter hfew, List.nil_append] at hfaithful
    exact hfaithful
  · intro hrc es hlog
    obtain ⟨fs, hfs, hwhole⟩ := moves_whole htracked (clientStep_moves env hrc)
    rw [hlog] at hfs
    rw [List.append_cancel_left hfs]
    exact hwhole
  · intro hfew hs hcut es hlog hnone
    have hring := ring_of_first hunused.first hfew
    have hstuck := stuck_of_course htracked hs hring hcut.gate hcut.complete hcut.accepted hcut.part
      hcut.notEnded
    exact clientStep_stuck env hstuck hlog hnone

theorem first_stream_conserved_pausedLate : ∃ c, clientInit legacyOutput = .ok c ∧
    FirstConserved pausedLate (afterCalls pausedLate c (stepping 6)) :=
  ⟨_, rfl, @first_stream_conserved legacyOutput _ rfl pausedLate (stepping 6)⟩

/-! ## Any stream -/

/-- The output is offered nothing but frames of the response. -/
def Isolated (t : Course) (e : Event) : Prop :=
  ∀ frames wrote, e = .pcm frames wrote →
    t.accepted ++ frames <+: framesOf t.stream (bodyOf t.received)

/-- Two streams that are the same, with the same bytes of their responses. -/
def SameStream (t u : Course) : Prop := t.stream = u.stream ∧ t.received = u.received

theorem isolated_of_lawful {t : Course} {e : Event} (h : Lawful t e) (hring : t.ring = []) :
    Isolated t e := by
  intro frames wrote he
  subst he
  obtain ⟨-, -, -, hframes, -⟩ := h
  rw [hring, List.nil_append] at hframes
  exact hframes

/-- A stream that found the ring empty gets nothing but its own response, and it gets the same as
any other such stream with the same response, in whatever run. -/
theorem isolated_behind_empty_ring {callbacks callbacks' : Callbacks} {c c' : Client}
    (h : clientInit callbacks = .ok c) (h' : clientInit callbacks' = .ok c') (env env' : Env)
    (calls calls' : List Call) :
    Throughout (fun before e => (course before).ring = [] → Isolated (course before) e)
        (afterCalls env c calls).log ∧
      ∀ before before', before <+: (afterCalls env c calls).log →
        before' <+: (afterCalls env' c' calls').log →
        (course before).ring = [] → (course before').ring = [] →
        SameStream (course before) (course before') →
        ((course before).accepted <+: (course before').accepted ∨
          (course before').accepted <+: (course before).accepted) ∧
        (before ++ [.eof] <+: (afterCalls env c calls).log →
          before' ++ [.eof] <+: (afterCalls env' c' calls').log →
          (course before).accepted = (course before').accepted) := by
  have htracked := tracked_run h env calls
  have htracked' := tracked_run h' env' calls'
  generalize afterCalls env c calls = d at htracked
  generalize afterCalls env' c' calls' = d' at htracked'
  refine ⟨fun before e after hsplit hring => ?_, ?_⟩
  · exact isolated_of_lawful (htracked.lawful before e after hsplit) hring
  · intro before before' hprefix hprefix' hring hring' hsame
    have hfaithful : ∀ {d : Client} {before : List Event}, Tracked d.toSession →
        before <+: d.log → (course before).ring = [] → (course before).accepted <+:
          pcmFrames (course before).stream (bodyOf (course before).received) := by
      intro d before hd hbefore hring
      obtain ⟨after, hsplit⟩ := hbefore
      have hlawful := hd.lawful
      rw [← hsplit] at hlawful
      have hfaithful := faithful_log hlawful.shorter
      unfold Faithful at hfaithful
      rw [hring, List.nil_append] at hfaithful
      exact hfaithful
    have hall : ∀ {d : Client} {before : List Event}, Tracked d.toSession →
        before ++ [.eof] <+: d.log → (course before).ring = [] → (course before).accepted =
          framesOf (course before).stream (bodyOf (course before).received) := by
      intro d before hd hbefore hring
      obtain ⟨after, hsplit⟩ := hbefore
      have hlaw := hd.lawful before .eof after (by rw [← hsplit]; simp)
      obtain ⟨-, -, -, -, -, -, haccepted⟩ := hlaw
      rw [hring, List.nil_append] at haccepted
      exact haccepted
    obtain ⟨hstream, hreceived⟩ := hsame
    refine ⟨?_, fun heof heof' => ?_⟩
    · have hfirst := hfaithful htracked hprefix hring
      have hsecond := hfaithful htracked' hprefix' hring'
      rw [hstream, hreceived] at hfirst
      exact List.prefix_or_prefix_of_prefix hfirst hsecond
    · rw [hall htracked heof hring, hall htracked' heof' hring', hstream, hreceived]

/-- A stream that waits for `cont` with its body in the ring, and then another stream. -/
def leftover : Env :=
  scripted [strmPacket 0x73 0x33, [], [], strmPacket 0x73 0x31] [responseHeader ++ [1, 2, 3, 4]]

theorem isolated_behind_empty_ring_pausedLate : ∃ c, clientInit legacyOutput = .ok c ∧
    Throughout (fun before e => (course before).ring = [] → Isolated (course before) e)
      (afterCalls pausedLate c (stepping 6)).log :=
  ⟨_, rfl, (@isolated_behind_empty_ring legacyOutput legacyOutput _ _ rfl rfl pausedLate pausedLate
    (stepping 6) (stepping 6)).1⟩

/-- The log of four steps with that. -/
def leftoverLog : List Event :=
  match clientInit legacyOutput with
  | .ok c => (afterCalls leftover c (stepping 4)).log
  | .error _ => []

/-- The second stream gets the bytes that the first left in the ring. -/
theorem leftover_offered :
    ¬ Throughout (fun before e => Isolated (course before) e) leftoverLog := by
  intro h
  have hsplit : leftoverLog = leftoverLog.take 24 ++
      .pcm [[33619968], [67305472]] 2 :: leftoverLog.drop 25 := by decide +kernel
  have hoffered := h _ _ _ hsplit _ _ rfl
  revert hoffered
  decide +kernel

end EmbeddedAudio.Lms
