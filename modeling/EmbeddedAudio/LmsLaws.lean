-- The laws of every run of the client: its outputs are started and stopped in
-- turn, the server is told of each event once and in its place, and the output
-- is not left paused.
import EmbeddedAudio.LmsTracked

namespace EmbeddedAudio.Lms

open Storage Log

/-! ## A server with a script -/

def isRecv (socket : Socket) : Event → Bool
  | .recv s _ _ => s == socket
  | _ => false

/-- What the next reading of a socket gives. -/
def scriptAt (script : List (List UInt8)) (n : Nat) : Rc × List UInt8 :=
  match script[n]? with
  | some bytes => (EAF_OK, bytes)
  | none => (EAF_AGAIN, [])

/-- Sockets that give what the scripts say, and callbacks that take everything. -/
def scripted (control http : List (List UInt8)) : Env where
  connect _ _ _ _ := EAF_OK
  send _ _ data := (EAF_OK, data.length)
  recv log socket _ :=
    scriptAt (if socket = .control then control else http) (log.countP (isRecv socket))
  start _ _ := EAF_OK
  startBuffered _ _ _ := (EAF_OK, ⟨4, 1, false⟩)
  pcm _ frames := frames.length
  pause _ _ := EAF_OK
  volume _ _ _ := EAF_OK
  release _ := EAF_OK
  clock _ := 0

/-- A `strm` packet for mono samples of 16 bits. -/
def strmPacket (command autostart : UInt8) : List UInt8 :=
  let body := ascii "strm" ++ [command, autostart, 0x70, 0x31, 0x33, 0x31, 0x31] ++
    List.replicate 17 0 ++ [13, 10, 13, 10]
  writeBE 2 body.length ++ body

def responseHeader : List UInt8 := ascii "HTTP/1.0 200 OK\r\n\r\n"

def legacyOutput : Callbacks := ⟨true, false, true, false, false⟩

/-- A connection and some steps. -/
def stepping (steps : Nat) : List Call :=
  .connect 0 0 #v[1, 2, 3, 4, 5, 6] :: List.replicate steps .step

/-- `strm s` with a wait for the start, and then `strm p` and `strm u` in one go. -/
def pausedEarly : Env :=
  scripted [strmPacket 0x73 0x30, [], [], strmPacket 0x70 0 ++ strmPacket 0x75 0]
    [responseHeader ++ [1, 2]]

/-- `strm s` without a wait, and then `strm p` and `strm u`. -/
def pausedLate : Env :=
  scripted [strmPacket 0x73 0x31, [], [], strmPacket 0x70 0, strmPacket 0x75 0]
    [responseHeader ++ [1, 2]]

/-! ## Starting and stopping -/

/-- An output that was started. -/
def isStarted : Event → Bool
  | .start _ rc => rc == EAF_OK
  | .startBuffered _ _ rc _ => rc == EAF_OK
  | _ => false

def isStop : Event → Bool
  | .stop => true
  | _ => false

def starts (log : List Event) : Nat := log.countP isStarted

def stops (log : List Event) : Nat := log.countP isStop

/-- When an output is asked to start, each that was started before has been stopped, and when one
is asked to stop there is exactly one that has not. -/
def Balanced (before : List Event) : Event → Prop
  | .start _ _ => starts before = stops before
  | .startBuffered _ _ _ _ => starts before = stops before
  | .stop => starts before = stops before + 1
  | _ => True

theorem LawfulLog.shorter {log more : List Event} (h : LawfulLog (log ++ more)) : LawfulLog log :=
  Throughout.shorter h

theorem LawfulLog.last {log : List Event} {e : Event} (h : LawfulLog (log ++ [e])) :
    Lawful (course log) e := Throughout.last h

/-- An output runs as long as there is one more start than there are stops. -/
theorem starts_of_lawful {log : List Event} (h : LawfulLog log) :
    starts log = stops log + (course log).running.toNat := by
  induction log using List.reverseRecOn with
  | nil => rfl
  | append_singleton log e ih =>
    have hlog := ih h.shorter
    have hlaw := h.last
    unfold starts stops at hlog ⊢
    rw [List.countP_append, List.countP_append, course_snoc, hlog]
    cases e with
    | start format rc =>
      have hrunning : (course log).running = false := hlaw
      by_cases hrc : rc = EAF_OK
      · simp [Course.next, isStarted, isStop, hrc, hrunning]
      · simp [Course.next, isStarted, isStop, hrc]
    | startBuffered format request rc limits =>
      have hrunning : (course log).running = false := hlaw
      by_cases hrc : rc = EAF_OK
      · simp [Course.next, isStarted, isStop, hrc, hrunning]
      · simp [Course.next, isStarted, isStop, hrc]
    | stop =>
      have hrunning : (course log).running = true := hlaw
      simp [Course.next, isStarted, isStop, hrunning]
    | pause paused rc =>
      by_cases hrc : rc = EAF_OK <;> simp [Course.next, isStarted, isStop, hrc]
    | recv socket rc data =>
      cases socket <;> simp [Course.next, isStarted, isStop]
    | _ => simp [Course.next, isStarted, isStop]

theorem balanced_of_lawful {log : List Event} (h : LawfulLog log) : Throughout Balanced log := by
  intro before e after hsplit
  have hlaw := h before e after hsplit
  rw [hsplit] at h
  have hcount := starts_of_lawful h.shorter
  cases e with
  | start format rc =>
    have hrunning : (course before).running = false := hlaw
    rw [hrunning] at hcount
    exact hcount
  | startBuffered format request rc limits =>
    have hrunning : (course before).running = false := hlaw
    rw [hrunning] at hcount
    exact hcount
  | stop =>
    have hrunning : (course before).running = true := hlaw
    rw [hrunning] at hcount
    exact hcount
  | _ => trivial

/-- Nothing of the connections is left. -/
structure Cleared (c : Client) : Prop where
  controlOpen : c.controlOpen = false
  httpOpen : c.httpOpen = false
  streaming : c.streaming = false
  tx : c.tx = []

theorem stopStream_httpOpen (c : Client) : (stopStream c).httpOpen = false := by
  have hclosed : (tcpClose .http c).httpOpen = false := by
    rw [tcpClose_http]
    rfl
  unfold stopStream
  simp only
  split
  · exact hclosed
  · exact hclosed

theorem clientClose_cleared (c : Client) : Cleared (clientClose c) := by
  have hsession := clientClose_session c
  refine ⟨?_, ?_, ?_, rfl⟩
  · unfold clientClose tcpClose
    by_cases hopen : (stopStream c).controlOpen = true
    · simp [hopen, record]
    · simp [hopen]
  · rw [hsession]
    exact stopStream_httpOpen c
  · rw [hsession]
    exact (stopStream_fresh c).streaming

theorem clientStep_cleared (env : Env) {c : Client} (hopen : c.controlOpen = true)
    (hrc : (clientStep env c).1 ≠ EAF_OK) : Cleared (clientStep env c).2 := by
  unfold clientStep at hrc ⊢
  rw [if_neg (by simp [hopen])] at hrc ⊢
  unfold orClose at hrc ⊢
  split
  · rename_i hok
    rw [if_pos hok] at hrc
    exact absurd hok hrc
  · exact clientClose_cleared _

/-- Outputs are started and stopped in turn, and a step that fails leaves nothing of the
connections. -/
theorem outputs_in_turn {callbacks : Callbacks} {c : Client} (h : clientInit callbacks = .ok c)
    (env : Env) (calls : List Call) :
    Throughout Balanced (afterCalls env c calls).log ∧
      ∀ d : Client, d.controlOpen = true → (clientStep env d).1 ≠ EAF_OK →
        Cleared (clientStep env d).2 :=
  ⟨balanced_of_lawful (tracked_run h env calls).lawful, fun _ => clientStep_cleared env⟩

theorem outputs_in_turn_pausedEarly : ∃ c, clientInit legacyOutput = .ok c ∧
    (Throughout Balanced (afterCalls pausedEarly c (stepping 6)).log ∧
      ∀ d : Client, d.controlOpen = true → (clientStep pausedEarly d).1 ≠ EAF_OK →
        Cleared (clientStep pausedEarly d).2) :=
  ⟨_, rfl, @outputs_in_turn legacyOutput _ rfl pausedEarly (stepping 6)⟩

/-! ## What the server is told -/

/-- What the events that the server is told of, and the release of the output, ask of the course
of the stream before them. -/
structure InTurn (t : Course) (e : Event) : Prop where
  ready : isStat "STMl" e = true → t.running = true ∧ t.start = true ∧ t.cont = false ∧
    t.ready = false ∧ (t.buffered = true → t.Prefilled)
  release : ∀ rc, e = .release rc → t.running = true ∧ t.cont = false ∧ t.start = false ∧
    t.paused = false ∧ t.asked = false ∧ t.Prefilled
  started : isStat "STMs" e = true → t.running = true ∧ t.cont = false ∧ t.start = false ∧
    t.started = false
  done : isStat "STMd" e = true → t.running = true ∧ t.ended = true ∧ t.done = false ∧
    (t.buffered = true → t.released = true)

theorem inTurn_of_lawful {t : Course} {e : Event} (h : Lawful t e) : InTurn t e where
  ready he := by
    obtain ⟨body, rfl, -⟩ := isStat_elim he
    obtain ⟨hrunning, hcont, hstart, hready, hprefill⟩ := h.1 he
    exact ⟨hrunning, hstart, hcont, hready, hprefill⟩
  release rc he := by
    subst he
    obtain ⟨hrunning, -, hcont, hstart, hpaused, hasked, hprefilled⟩ := h
    exact ⟨hrunning, hcont, hstart, hpaused, hasked, hprefilled⟩
  started he := by
    obtain ⟨body, rfl, -⟩ := isStat_elim he
    exact h.2.1 he
  done he := by
    obtain ⟨body, rfl, -⟩ := isStat_elim he
    exact h.2.2 he

/-- The server is told of each event of a stream once and in its place, and the course that says so
is that of the fields of the client. -/
theorem events_in_turn {callbacks : Callbacks} {c : Client} (h : clientInit callbacks = .ok c)
    (env : Env) (calls : List Call) :
    Throughout (fun before e => InTurn (course before) e) (afterCalls env c calls).log ∧
      ((afterCalls env c calls).streaming = true →
        Follows (course (afterCalls env c calls).log) (afterCalls env c calls).toSession) :=
  ⟨Throughout.mono (tracked_run h env calls).lawful fun _ _ => inTurn_of_lawful,
    (tracked_run h env calls).follows⟩

theorem events_in_turn_pausedEarly : ∃ c, clientInit legacyOutput = .ok c ∧
    (Throughout (fun before e => InTurn (course before) e)
        (afterCalls pausedEarly c (stepping 6)).log ∧
      ((afterCalls pausedEarly c (stepping 6)).streaming = true →
        Follows (course (afterCalls pausedEarly c (stepping 6)).log)
          (afterCalls pausedEarly c (stepping 6)).toSession)) :=
  ⟨_, rfl, @events_in_turn legacyOutput _ rfl pausedEarly (stepping 6)⟩

/-! ## Pauses -/

/-- The start gate of a stream without a buffer does not open while the output is paused. -/
def Awake (t : Course) (e : Event) : Prop := e = .unpaused true → t.buffered = true

/-- The output is paused if and only if the server has it so. -/
def Steady (t : Course) : Prop := (t.buffered = true → t.released = true) → t.muted = t.paused

theorem steady_next {t : Course} {e : Event} (h : Steady t) (hlaw : Lawful t e)
    (hawake : Awake t e) : Steady (t.next e) := by
  unfold Steady at h ⊢
  cases e with
  | start format rc =>
    by_cases hrc : rc = EAF_OK
    · simp [Course.next, hrc, noCourse]
    · simpa [Course.next, hrc] using h
  | startBuffered format request rc limits =>
    by_cases hrc : rc = EAF_OK
    · simp [Course.next, hrc, noCourse]
    · simpa [Course.next, hrc] using h
  | pause paused rc =>
    by_cases hrc : rc = EAF_OK
    · simp [Course.next, hrc]
    · simpa [Course.next, hrc] using h
  | unpaused paused =>
    obtain ⟨-, -, -, hreleased, hpaused⟩ := hlaw
    intro hheld
    have hlegacy : t.buffered = false := by
      by_contra hbuffered
      have hreleased' := hheld (Bool.eq_false_iff.not_left.mp hbuffered)
      have hnone : t.released = true := hreleased'
      rw [hreleased] at hnone
      cases hnone
    cases paused with
    | true =>
      have hbuffered := hawake rfl
      rw [hlegacy] at hbuffered
      cases hbuffered
    | false =>
      have hsame := h fun hbuffered => (by rw [hlegacy] at hbuffered; cases hbuffered)
      exact hsame.trans hpaused
  | release rc =>
    obtain ⟨-, -, -, -, hpaused, -, -⟩ := hlaw
    intro hheld
    by_cases hrc : rc = EAF_OK
    · have hmuted : (t.muted && rc != EAF_OK) = false := by simp [hrc]
      exact hmuted.trans hpaused.symm
    · have hbeq : (rc == EAF_OK) = false := beq_eq_false_iff_ne.mpr hrc
      have hmuted : (t.muted && rc != EAF_OK) = t.muted := by simp [hrc]
      refine hmuted.trans (h fun hbuffered => ?_)
      have hreleased : (t.released || rc == EAF_OK) = true := hheld hbuffered
      rw [hbeq, Bool.or_false] at hreleased
      exact hreleased
  | recv socket rc data =>
    cases socket with
    | control => exact h
    | http => exact h
  | _ => exact h

theorem steady_log {log : List Event} (hlaw : LawfulLog log)
    (hawake : Throughout (fun before e => Awake (course before) e) log) : Steady (course log) := by
  induction log using List.reverseRecOn with
  | nil => exact fun _ => rfl
  | append_singleton log e ih =>
    rw [course_snoc]
    exact steady_next (ih hlaw.shorter hawake.shorter) hlaw.last hawake.last

/-- A stream that plays, as far as the client knows, is not left paused. -/
def Unmuted (c : Client) : Prop :=
  c.streaming = true → c.waitStart = false → c.outputPaused = false →
    (c.bufferedOutput = true → c.outputReleased = true) → (course c.log).muted = false

theorem awake_of_never {log : List Event} (h : Event.unpaused true ∉ log) :
    Throughout (fun before e => Awake (course before) e) log := by
  intro before e after hsplit he
  subst he
  rw [hsplit] at h
  simp at h

/-- The output is not left paused in a run in which `strm u` ends no wait for the start while the
output is paused, but for outputs that are held. -/
theorem unmuted_while_awake {callbacks : Callbacks} {c : Client}
    (h : clientInit callbacks = .ok c) (env : Env) (calls : List Call)
    (hawake : Throughout (fun before e => Awake (course before) e) (afterCalls env c calls).log) :
    Unmuted (afterCalls env c calls) := by
  intro hstreaming _ hpaused hreleased
  have htracked := tracked_run h env calls
  have hf := htracked.follows hstreaming
  have hsteady := steady_log htracked.lawful hawake
  have hmuted := hsteady fun hbuffered => by
    rw [hf.released]
    exact hreleased (hf.buffered.symm.trans hbuffered)
  rw [hmuted, hf.paused]
  exact hpaused

theorem unmuted_pausedLate : ∃ c, clientInit legacyOutput = .ok c ∧
    (afterCalls pausedLate c (stepping 6)).streaming = true ∧
    Unmuted (afterCalls pausedLate c (stepping 6)) :=
  ⟨_, rfl, by decide +kernel,
    @unmuted_while_awake legacyOutput _ rfl pausedLate (stepping 6)
      (awake_of_never (by decide +kernel))⟩

/-- `strm u` behind `strm p` ends the wait for the start, and nobody resumes the output. -/
theorem pausedEarly_muted : ∃ c, clientInit legacyOutput = .ok c ∧
    ¬ Unmuted (afterCalls pausedEarly c (stepping 6)) := by
  refine ⟨_, rfl, fun h => ?_⟩
  have hmuted := h (by decide +kernel) (by decide +kernel) (by decide +kernel) (by decide +kernel)
  revert hmuted
  decide +kernel

end EmbeddedAudio.Lms
