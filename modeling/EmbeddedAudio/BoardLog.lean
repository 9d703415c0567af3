-- The event history of a board (log_buffer.c): many threads write lines into one ring behind a
-- flag that nobody waits for, and a reader that gets the flag copies the lines out.
import EmbeddedAudio.ClientMessages
import EmbeddedAudio.LastRing
import Mathlib.Data.List.TakeWhile

namespace EmbeddedAudio.BoardLog

open LastRing
open Sendspin (decimal digitsOf)

/-! ## A line -/

abbrev LOG_LINES : Nat := 24
abbrev LOG_WIDTH : Nat := 160

/-- The string in a cell of `lines`, which has its NUL there. -/
structure Line where
  text : List UInt8
  short : text.length < LOG_WIDTH
  string : ∀ b ∈ text, b ≠ 0

/-- What the first `snprintf` of `log_message` writes. -/
def linePrefix (ms : Nat) : List UInt8 := ascii "[" ++ decimal ms ++ ascii " ms] "

/-- The line that `log_message` makes of a message, whose own format is not modelled. It is cut to
the width, and a NUL in it ends it. -/
def formatLine (ms : Nat) (message : List UInt8) : Option Line :=
  if LOG_WIDTH ≤ (linePrefix ms).length then none
  else some {
    text := ((linePrefix ms ++ message).take (LOG_WIDTH - 1)).takeWhile fun b => b != 0
    short := by
      have hwhile := (List.takeWhile_prefix (l := (linePrefix ms ++ message).take (LOG_WIDTH - 1))
        fun b => b != 0).length_le
      have htake := List.length_take_le (LOG_WIDTH - 1) (linePrefix ms ++ message)
      have hwidth : LOG_WIDTH = 160 := rfl
      omega
    string := by
      intro b hb
      simpa using List.mem_takeWhile_imp hb }

/-! ## The ring and the flag -/

/-- `lines`, `next`, `count`, `lock` and `dropped`. There is no line in a cell that a `memcpy` has
begun to write. -/
structure Shared where
  lines : List (Option Line)
  next : Nat
  count : Nat
  lock : Bool
  dropped : UInt32

/-- What a `board_log_read` returned: `busy` when it did not get the flag. `history` is what the
ring should have kept at that time. -/
structure Read where
  capacity : Nat
  dropped : UInt32
  busy : Bool
  text : List UInt8
  history : List Line

/-- Where a thread is in `log_message` or `board_log_read`. -/
inductive Thread where
  | idle
  | tryWrite (line : Line)
  | drop
  | copy (line : Line)
  | copying (line : Line)
  | advance (line : Line)
  | grow (line : Line)
  | release
  | tryRead (capacity : Nat) (dropped : UInt32)
  | fill (capacity : Nat) (dropped : UInt32) (i : Nat) (text : List UInt8)
  | releaseRead (capacity : Nat) (dropped : UInt32) (text : List UInt8)
  | torn

/-- A call that an idle thread makes. -/
inductive Call where
  | log (ms : Nat) (message : List UInt8)
  | read (capacity : Nat)

/-- What the history of the system keeps of a step. -/
inductive Effect where
  | nothing
  | began
  | gaveUp
  | acquired
  | committed (line : Line)
  | released
  | refused (capacity : Nat) (dropped : UInt32) (text : List UInt8)
  | returned (capacity : Nat) (dropped : UInt32) (text : List UInt8)

/-- The `snprintf` of `board_log_read`, as far as it has room. -/
def header (capacity : Nat) (dropped : UInt32) : List UInt8 :=
  (ascii "Application diagnostics; dropped=" ++ decimal dropped.toNat ++ [0x0a]).take (capacity - 1)

/-- A step of a thread. The reader finds `torn` if it meets a cell that is being written. -/
def threadStep (shared : Shared) (call : Call) : Thread → Shared × Thread × Effect
  | .idle =>
    match call with
    | .log ms message =>
      match formatLine ms message with
      | none => (shared, .idle, .nothing)
      | some line => (shared, .tryWrite line, .began)
    | .read capacity =>
      if capacity = 0 then (shared, .idle, .nothing)
      else (shared, .tryRead capacity shared.dropped, .nothing)
  | .tryWrite line =>
    if shared.lock then (shared, .drop, .nothing)
    else ({ shared with lock := true }, .copy line, .acquired)
  | .drop => ({ shared with dropped := shared.dropped + 1 }, .idle, .gaveUp)
  | .copy line =>
    ({ shared with lines := shared.lines.set shared.next none }, .copying line, .nothing)
  | .copying line =>
    ({ shared with lines := shared.lines.set shared.next (some line) }, .advance line, .nothing)
  | .advance line => ({ shared with next := (shared.next + 1) % LOG_LINES }, .grow line, .nothing)
  | .grow line =>
    ({ shared with count := if shared.count < LOG_LINES then shared.count + 1 else shared.count },
      .release, .committed line)
  | .release => ({ shared with lock := false }, .idle, .released)
  | .tryRead capacity dropped =>
    if shared.lock then (shared, .idle, .refused capacity dropped (header capacity dropped))
    else ({ shared with lock := true }, .fill capacity dropped 0 (header capacity dropped),
      .acquired)
  | .fill capacity dropped i text =>
    if i < shared.count then
      match shared.lines[(shared.next + LOG_LINES - shared.count + i) % LOG_LINES]? with
      | some (some line) =>
        if capacity - text.length ≤ line.text.length + 1 then
          (shared, .releaseRead capacity dropped text, .nothing)
        else (shared, .fill capacity dropped (i + 1) (text ++ line.text ++ [0x0a]), .nothing)
      | _ => (shared, .torn, .nothing)
    else (shared, .releaseRead capacity dropped text, .nothing)
  | .releaseRead capacity dropped text =>
    ({ shared with lock := false }, .idle, .returned capacity dropped text)
  | .torn => (shared, .torn, .nothing)

/-! ## The threads together -/

/-- All threads, and what has happened: `holder` is the thread with the flag, `history` has the lines
that were written, `started` and `drops` count the messages that came to the flag and those that
went no further. -/
structure System where
  shared : Shared
  threads : List Thread
  holder : Option Nat
  history : List Line
  started : Nat
  drops : Nat
  reads : List Read

def Effect.note (t : Nat) (s : System) : Effect → System
  | .nothing => s
  | .began => { s with started := s.started + 1 }
  | .gaveUp => { s with drops := s.drops + 1 }
  | .acquired => { s with holder := some t }
  | .committed line => { s with history := s.history ++ [line] }
  | .released => { s with holder := none }
  | .refused capacity dropped text =>
    { s with reads := s.reads ++ [⟨capacity, dropped, true, text, s.history⟩] }
  | .returned capacity dropped text =>
    { s with holder := none, reads := s.reads ++ [⟨capacity, dropped, false, text, s.history⟩] }

/-- The thread `t` takes a step. When it is idle, it makes the call. -/
def systemStep (s : System) (t : Nat) (call : Call) : System :=
  match s.threads[t]? with
  | none => s
  | some thread =>
    let (shared, thread, effect) := threadStep s.shared call thread
    effect.note t { s with shared := shared, threads := s.threads.set t thread }

def systemRun (s : System) (schedule : List (Nat × Call)) : System :=
  schedule.foldl (fun s turn => systemStep s turn.1 turn.2) s

/-- The static state before the first message, with `n` threads. -/
def systemStart (n : Nat) : System where
  shared := {
    lines := List.replicate LOG_LINES (some ⟨[], by decide, fun _ h => absurd h List.not_mem_nil⟩)
    next := 0
    count := 0
    lock := false
    dropped := 0 }
  threads := List.replicate n .idle
  holder := none
  history := []
  started := 0
  drops := 0
  reads := []

/-! ## What a read should give -/

/-- The lines that the ring keeps. -/
def recent (history : List Line) : List Line := lastItems LOG_LINES history

/-- Whole lines, as long as there is room for the next one. -/
def fillLines (capacity : Nat) : List Line → List UInt8 → List UInt8
  | [], text => text
  | line :: lines, text =>
    if capacity - text.length ≤ line.text.length + 1 then text
    else fillLines capacity lines (text ++ line.text ++ [0x0a])

/-- The text of a read that got the flag. -/
def page (capacity : Nat) (dropped : UInt32) (history : List Line) : List UInt8 :=
  fillLines capacity (recent history) (header capacity dropped)

theorem length_decimal_le (n : Nat) : (decimal n).length ≤ 20 := by
  have hdigits : ∀ fuel n, (digitsOf fuel n).length ≤ fuel := by
    intro fuel
    induction fuel with
    | zero => exact fun _ => Nat.le_refl 0
    | succ fuel ih =>
      intro n
      unfold digitsOf
      dsimp only
      split
      · exact Nat.succ_le_succ (Nat.zero_le _)
      · exact Nat.succ_le_succ (ih _)
  rw [decimal, List.length_reverse]
  exact hdigits 20 n

/-- No time is too long for a line. -/
theorem formatLine_isSome (ms : Nat) (message : List UInt8) : (formatLine ms message).isSome := by
  have hdecimal := length_decimal_le ms
  have hlength : (linePrefix ms).length = 1 + (decimal ms).length + 5 := by
    rw [linePrefix, List.length_append, List.length_append]
    rfl
  have hwidth : LOG_WIDTH = 160 := rfl
  unfold formatLine
  rw [if_neg (by omega)]
  rfl

theorem length_header_le (capacity : Nat) (dropped : UInt32) :
    (header capacity dropped).length ≤ capacity - 1 := List.length_take_le _ _

theorem header_eq (capacity : Nat) (h : 55 ≤ capacity) (dropped : UInt32) :
    header capacity dropped =
        ascii "Application diagnostics; dropped=" ++ decimal dropped.toNat ++ [0x0a] ∧
      (header capacity dropped).length ≤ 54 := by
  have hdecimal := length_decimal_le dropped.toNat
  have hlength : (ascii "Application diagnostics; dropped=" ++ decimal dropped.toNat ++
      [0x0a]).length = 33 + (decimal dropped.toNat).length + 1 := by
    rw [List.length_append, List.length_append]
    rfl
  have hall : header capacity dropped = _ := List.take_of_length_le (by omega)
  refine ⟨hall, ?_⟩
  rw [hall]
  omega

theorem length_fillLines_le (capacity : Nat) (lines : List Line) :
    ∀ {text : List UInt8}, text.length ≤ capacity - 1 →
      (fillLines capacity lines text).length ≤ capacity - 1 := by
  induction lines with
  | nil => exact fun h => h
  | cons line lines ih =>
    intro text h
    unfold fillLines
    split
    · exact h
    · apply ih
      simp only [List.length_append, List.length_singleton]
      omega

/-- With room for lines of full width, none is left out. -/
theorem fillLines_all (capacity : Nat) (lines : List Line) :
    ∀ {text : List UInt8}, text.length + lines.length * LOG_WIDTH < capacity →
      fillLines capacity lines text = text ++ lines.flatMap fun line => line.text ++ [0x0a] := by
  induction lines with
  | nil => exact fun _ => (List.append_nil _).symm
  | cons line lines ih =>
    intro text h
    have hshort := line.short
    have hwidth : LOG_WIDTH = 160 := rfl
    rw [List.length_cons, Nat.succ_mul] at h
    unfold fillLines
    rw [if_neg (by omega), ih, List.flatMap_cons, List.append_assoc, List.append_assoc,
      List.append_assoc]
    simp only [List.length_append, List.length_singleton]
    omega

theorem length_recent_le (history : List Line) : (recent history).length ≤ LOG_LINES := by
  rw [recent, length_lastItems]
  omega

/-- The response of the diagnostics server has room for all that the ring keeps. -/
theorem page_all {capacity : Nat} (h : 4096 ≤ capacity) (dropped : UInt32) (history : List Line) :
    page capacity dropped history = ascii "Application diagnostics; dropped=" ++
      decimal dropped.toNat ++ [0x0a] ++ (recent history).flatMap fun line => line.text ++ [0x0a] := by
  obtain ⟨hheader, hlength⟩ := header_eq capacity (by omega) dropped
  have hlines := length_recent_le history
  have hwhole : LOG_LINES * LOG_WIDTH = 3840 := rfl
  rw [page, fillLines_all, hheader]
  have hproduct := Nat.mul_le_mul_right LOG_WIDTH hlines
  omega

end EmbeddedAudio.BoardLog
