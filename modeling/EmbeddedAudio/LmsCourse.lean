-- The course of a stream as the log tells it: the output, the two gates, what
-- the server was told, and the bytes and frames that went through.
import EmbeddedAudio.LmsCalls
import EmbeddedAudio.LogLaw
import EmbeddedAudio.Groups

namespace EmbeddedAudio.Lms

open Storage Log Groups

/-! ## The reference -/

def frameBytes (stream : Stream) : Nat := (digitOf stream.sampleSize + 1) * digitOf stream.channels

/-- The frames in the body of a response, one behind the other. -/
def framesOf (stream : Stream) (body : List UInt8) : List Frame :=
  (groups (frameBytes stream) body).map
    (frameOf (digitOf stream.sampleSize + 1) (digitOf stream.channels) (stream.endianness == 0x30))

/-- What stands behind the header in the bytes of a response. -/
def bodyOf (received : List UInt8) : List UInt8 :=
  match splitHeader [] received with
  | none => []
  | some (_, body) => body

/-! ## The course -/

/-- What a log says of the stream at hand. `asked` is whether the output was asked to release and
`released` whether it did. `paused` is whether the server has the output paused, `muted` whether the
callbacks left it so, and `finished` whether the HTTP server closed the connection. -/
structure Course where
  running : Bool
  buffered : Bool
  limits : BufferLimits
  stream : Stream
  ring : List UInt8
  cont : Bool
  start : Bool
  ready : Bool
  started : Bool
  asked : Bool
  released : Bool
  paused : Bool
  muted : Bool
  ended : Bool
  done : Bool
  received : List UInt8
  finished : Bool
  accepted : List Frame

def noStream : Stream := ⟨0, 0, 0, 0, 0, 0, 0, 0, 0, 0, 0, 0, 0, []⟩

/-- Nothing has happened. -/
def noCourse : Course where
  running := false
  buffered := false
  limits := zeroLimits
  stream := noStream
  ring := []
  cont := false
  start := false
  ready := false
  started := false
  asked := false
  released := false
  paused := false
  muted := false
  ended := false
  done := false
  received := []
  finished := false
  accepted := []

/-- What an event does to the course of the stream. -/
def Course.next (t : Course) : Event → Course
  | .start _ rc => if rc = EAF_OK then { noCourse with running := true } else t
  | .startBuffered _ _ rc limits =>
    if rc = EAF_OK then { noCourse with running := true, buffered := true, limits := limits } else t
  | .stop => { t with running := false }
  | .opened stream ring =>
    { t with
      stream := stream
      ring := ring
      cont := 0x32 ≤ stream.autostart
      start := stream.autostart == 0x30 || stream.autostart == 0x32 }
  | .continued => { t with cont := false }
  | .unpaused _ => { t with start := false, paused := false }
  | .pause paused rc => if rc = EAF_OK then { t with paused := paused, muted := paused } else t
  | .queued opcode body =>
    { t with
      ready := t.ready || isStat "STMl" (.queued opcode body)
      started := t.started || isStat "STMs" (.queued opcode body)
      done := t.done || isStat "STMd" (.queued opcode body) }
  | .release rc =>
    { t with
      asked := true
      released := t.released || rc == EAF_OK
      muted := t.muted && rc != EAF_OK }
  | .recv .http rc data =>
    { t with received := t.received ++ data, finished := t.finished || rc == EAF_EOF }
  | .pcm frames wrote => { t with accepted := t.accepted ++ frames.take wrote }
  | .eof => { t with ended := true }
  | _ => t

/-- The course that a log tells. -/
def course (log : List Event) : Course := log.foldl Course.next noCourse

theorem course_snoc (log : List Event) (e : Event) :
    course (log ++ [e]) = (course log).next e := by
  simp [course]

/-- The output holds as much as it asked for, or all there is. -/
def Course.Prefilled (t : Course) : Prop :=
  t.limits.readyFrames ≤ t.accepted.length ∨ t.ended = true

/-- The output may be given what comes of the response. -/
def Course.Open (t : Course) : Prop :=
  t.cont = false ∧ (t.buffered = false → t.start = false)

/-- All of the body has come. -/
def Course.Complete (t : Course) : Prop :=
  ∃ header body, splitHeader [] t.received = some (header, body) ∧
    match declaredLength header with
    | some n => body.length = n
    | none => t.finished = true

/-! ## The law of the log -/

/-- What an event asks of the course before it. -/
def Lawful (t : Course) : Event → Prop
  | .start _ _ => t.running = false
  | .startBuffered _ _ _ _ => t.running = false
  | .stop => t.running = true
  | .opened _ _ => t.running = true ∧ t.accepted = []
  | .unpaused paused => t.running = true ∧ t.cont = false ∧ t.start = true ∧ t.released = false ∧
      t.paused = paused
  | .queued opcode body =>
    (isStat "STMl" (.queued opcode body) = true → t.running = true ∧ t.cont = false ∧
      t.start = true ∧ t.ready = false ∧ (t.buffered = true → t.Prefilled)) ∧
    (isStat "STMs" (.queued opcode body) = true → t.running = true ∧ t.cont = false ∧
      t.start = false ∧ t.started = false) ∧
    (isStat "STMd" (.queued opcode body) = true → t.running = true ∧ t.ended = true ∧
      t.done = false ∧ (t.buffered = true → t.released = true))
  | .release _ => t.running = true ∧ t.buffered = true ∧ t.cont = false ∧ t.start = false ∧
      t.paused = false ∧ t.asked = false ∧ t.Prefilled
  | .pcm frames _ => t.running = true ∧ streamSupported t.stream = true ∧ frames ≠ [] ∧
      t.accepted ++ frames <+: framesOf t.stream (t.ring ++ bodyOf t.received) ∧
      (splitHeader [] t.received ≠ none → t.Open)
  | .eof => t.running = true ∧ streamSupported t.stream = true ∧ t.ended = false ∧ t.Open ∧
      t.Complete ∧
      frameBytes t.stream ∣ (t.ring ++ bodyOf t.received).length ∧
      t.accepted = framesOf t.stream (t.ring ++ bodyOf t.received)
  | _ => True

/-- The log of a client keeps the law. -/
def LawfulLog (log : List Event) : Prop :=
  Throughout (fun before e => Lawful (course before) e) log

/-! ## What the fields of the client say -/

/-- The flags of a stream are those of its course. -/
structure Follows (t : Course) (s : Session) : Prop where
  running : t.running = true
  buffered : t.buffered = s.bufferedOutput
  limits : s.bufferedOutput = true → t.limits = s.bufferLimits
  cont : t.cont = s.waitCont
  start : t.start = s.waitStart
  ready : t.ready = s.readySent
  started : t.started = s.startedSent
  asked : t.asked = s.outputReleased
  released : t.released = s.outputReleased
  paused : t.paused = s.outputPaused
  ended : t.ended = s.inputEof
  done : t.done = if s.bufferedOutput then s.eofSent else s.inputEof
  prefill : held s = true → s.prefillFrames = t.accepted.length
  holds : s.waitStart = true → s.outputReleased = false
  httpOpen : s.httpOpen = !s.inputEof

/-- The bytes of a stream are where its course has them. -/
structure Carries (t : Course) (s : Session) : Prop where
  matching : Matches t.stream s
  headless : s.headersDone = false → splitHeader [] t.received = none ∧ s.header = t.received ∧
    s.bodyDone = false ∧ s.hasLength = false
  headed : s.headersDone = true → splitHeader [] t.received = some (s.header, bodyOf t.received) ∧
    s.hasLength = (declaredLength s.header).isSome ∧
    ∀ n, declaredLength s.header = some n → s.remaining + (bodyOf t.received).length = n
  bodyDone : s.bodyDone = true → s.headersDone = true ∧ (s.hasLength = true → s.remaining = 0) ∧
    (s.hasLength = false → t.finished = true)
  full : s.headersDone = true → s.hasLength = true → s.remaining = 0 → s.bodyDone = true
  finished : t.finished = true → s.bodyDone = true
  pcmSent : s.pcmSent ≤ s.pcm.length
  tail : s.tail.length < frameBytes t.stream
  decoded : ∃ whole, t.ring ++ bodyOf t.received = whole ++ (s.tail ++ s.ingress) ∧
    frameBytes t.stream ∣ whole.length ∧
    t.accepted ++ s.pcm.drop s.pcmSent = framesOf t.stream whole

/-- The log keeps the law and tells where the stream is. -/
structure Tracked (s : Session) : Prop where
  lawful : LawfulLog s.log
  idle : s.streaming = false → (course s.log).running = false
  follows : s.streaming = true → Follows (course s.log) s
  carries : s.streaming = true → Carries (course s.log) s

/-! ## Events that say nothing -/

theorem isStat_elim {event : String} {e : Event} (h : isStat event e = true) :
    ∃ body, e = .queued (ascii "STAT") body ∧ body.take 4 = ascii event := by
  cases e with
  | queued opcode body =>
    simp only [isStat, Bool.and_eq_true, beq_iff_eq] at h
    exact ⟨body, by rw [h.1], h.2⟩
  | _ => cases h

theorem next_quiet {e : Event} (h : quiet e = true) (t : Course) : t.next e = t := by
  cases e with
  | queued opcode body =>
    simp only [quiet, Bool.not_eq_true', Bool.or_eq_false_iff] at h
    simp [Course.next, h.1.1, h.1.2, h.2]
  | recv socket rc data =>
    cases socket with
    | control => rfl
    | http =>
      simp only [quiet, Bool.and_eq_true, bne_iff_ne, ne_eq, beq_iff_eq] at h
      have hrc : (rc == EAF_EOF) = false := beq_eq_false_iff_ne.mpr h.1
      simp only [Course.next, hrc, h.2, List.append_nil, Bool.or_false]
  | pause paused rc =>
    simp only [quiet, bne_iff_ne, ne_eq] at h
    simp [Course.next, h]
  | opened | continued | unpaused | start | startBuffered | stop | pcm | eof | release => cases h
  | connect | send | closed | command | hello | volume => rfl

theorem lawful_quiet {e : Event} (h : quiet e = true) (t : Course) : Lawful t e := by
  cases e with
  | queued opcode body =>
    simp only [quiet, Bool.not_eq_true', Bool.or_eq_false_iff] at h
    simp [Lawful, h.1.1, h.1.2, h.2]
  | opened | continued | unpaused | start | startBuffered | stop | pcm | eof | release => cases h
  | connect | send | closed | command | hello | volume | recv | pause => trivial

theorem course_quiet {log es : List Event} (h : ∀ e ∈ es, quiet e = true) :
    course (log ++ es) = course log := by
  induction es using List.reverseRecOn with
  | nil => rw [List.append_nil]
  | append_singleton es e ih =>
    rw [← List.append_assoc, course_snoc, next_quiet (h e (by simp)), ih]
    intro e' he'
    exact h e' (by simp [he'])

theorem lawfulLog_quiet {log es : List Event} (hlog : LawfulLog log)
    (h : ∀ e ∈ es, quiet e = true) : LawfulLog (log ++ es) := by
  apply throughout_append hlog
  intro before e after hes
  exact lawful_quiet (h e (by simp [hes])) _

theorem lawfulLog_snoc {log : List Event} {e : Event} (hlog : LawfulLog log)
    (he : Lawful (course log) e) : LawfulLog (log ++ [e]) := throughout_snoc hlog he

end EmbeddedAudio.Lms
