-- The moves of a stream: what the client can do to it, each with the state that
-- it asks for, and that every call of the application is made of such moves.
import EmbeddedAudio.LmsStream
import Mathlib.Logic.Relation

namespace EmbeddedAudio.Lms

open Storage

/-! ## Moves -/

/-- A STAT packet that tells the server of an event. -/
def isStat (event : String) : Event → Bool
  | .queued opcode body => opcode == ascii "STAT" && body.take 4 == ascii event
  | _ => false

/-- The entries of the log that say nothing of the course of the stream. -/
def quiet : Event → Bool
  | .connect _ _ _ _ => true
  | .send _ _ _ => true
  | .recv .control _ _ => true
  | .recv .http rc data => rc != EAF_EOF && data == []
  | .closed _ => true
  | .command _ => true
  | .hello _ => true
  | .queued opcode body =>
    !(isStat "STMl" (.queued opcode body) || isStat "STMs" (.queued opcode body) ||
      isStat "STMd" (.queued opcode body))
  | .opened _ _ => false
  | .continued => false
  | .unpaused _ => false
  | .start _ _ => false
  | .startBuffered _ _ _ _ => false
  | .stop => false
  | .pcm _ _ => false
  | .eof => false
  | .pause _ rc => rc != EAF_OK
  | .volume _ _ _ => true
  | .release _ => false

/-- The call that starts an output, when it failed. -/
def refused : Event → Bool
  | .start _ rc => rc != EAF_OK
  | .startBuffered _ _ rc _ => rc != EAF_OK
  | _ => false

def Session.add (s : Session) (es : List Event) : Session := { s with log := s.log ++ es }

@[simp] theorem add_log (s : Session) (es : List Event) : (s.add es).log = s.log ++ es := rfl

theorem add_add (s : Session) (es fs : List Event) : (s.add es).add fs = s.add (es ++ fs) := by
  simp [Session.add]

/-- A stream with nothing to its name. -/
structure Fresh (s : Session) : Prop where
  streaming : s.streaming = false
  released : s.outputReleased = false
  paused : s.outputPaused = false
  inputEof : s.inputEof = false
  eofSent : s.eofSent = false
  prefill : s.prefillFrames = 0
  pcm : s.pcm = []
  pcmSent : s.pcmSent = 0
  bodyDone : s.bodyDone = false
  ready : s.readySent = false
  started : s.startedSent = false

/-- The output may not be given anything of a response yet. -/
def Gated (s : Session) : Prop :=
  s.headersDone = true ∧ (s.waitCont = true ∨ s.bufferedOutput = false ∧ s.waitStart = true)

/-- The output holds as much as it asked for, or all there is. -/
def Prefilled (s : Session) : Prop :=
  s.bufferLimits.readyFrames ≤ s.prefillFrames ∨ s.inputEof = true

/-- All of the response is with the output. -/
structure Drained (s : Session) : Prop where
  streaming : s.streaming = true
  httpOpen : s.httpOpen = true
  gate : ¬ Gated s
  bodyDone : s.bodyDone = true
  ingress : s.ingress = []
  pcm : s.pcmSent = s.pcm.length
  tail : s.tail = []

/-- The call that starts the output of a stream. -/
def Starts (s : Session) (e : Event) : Prop :=
  if s.bufferedOutput then ∃ request, e = .startBuffered s.format request EAF_OK s.bufferLimits
  else e = .start s.format EAF_OK

/-- What a stream is, as the server asked for it. -/
structure Matches (stream : Stream) (s : Session) : Prop where
  supported : streamSupported stream = true
  format : s.format = streamFormat stream
  width : s.width = digitOf stream.sampleSize + 1
  bigEndian : s.bigEndian = (stream.endianness == 0x30)

/-- The stream behind `strm s`. -/
def opened (stream : Stream) (s : Session) : Session :=
  { s with
    streaming := true
    header := []
    headersDone := false
    hasLength := false
    waitCont := 0x32 ≤ stream.autostart
    waitStart := stream.autostart == 0x30 || stream.autostart == 0x32
    tail := [] }

/-- The lines of a header behind the first. -/
def headerFields : Nat → List UInt8 → List (List UInt8)
  | 0, _ => []
  | fuel + 1, text =>
    if text = [] ∨ text.take 2 = [13, 10] then []
    else
      match splitLine text with
      | none => []
      | some (line, rest) => line :: headerFields fuel rest

/-- The value of a line, if it is one with the length of the content. -/
def lengthLine (line : List UInt8) : Option Nat :=
  if key line (ascii "content-length:") then contentLength (line.drop 15) else none

/-- The length of the body, if a header has a line that says it. -/
def declaredLength (header : List UInt8) : Option Nat :=
  match splitLine header with
  | none => none
  | some (_, rest) =>
    (headerFields rest.length rest).findSome? lengthLine

/-- The header, with what came before in `seen`, and what is behind it. -/
def splitHeader (seen : List UInt8) : List UInt8 → Option (List UInt8 × List UInt8)
  | [] => none
  | b :: rest =>
    if headerEnds (seen ++ [b]) then some (seen ++ [b], rest)
    else splitHeader (seen ++ [b]) rest

/-- The stream with a complete header. -/
def headed (header : List UInt8) (s : Session) : Session :=
  let hasLength := s.hasLength || (declaredLength header).isSome
  let remaining := (declaredLength header).getD s.remaining
  { s with
    header := header
    headersDone := true
    hasLength := hasLength
    remaining := remaining
    bodyDone := s.bodyDone || (hasLength && remaining == 0) }

/-- The stream with more of the body in the ring. -/
def filled (data : List UInt8) (s : Session) : Session :=
  { s with
    remaining := if s.hasLength then s.remaining - data.length else s.remaining
    bodyDone := if s.hasLength && data != [] then s.remaining - data.length == 0 else s.bodyDone
    ingress := s.ingress ++ data }

/-- The stream behind bytes of the response. -/
def arrived (data : List UInt8) (s : Session) : Session :=
  if s.headersDone then filled data s
  else
    match splitHeader s.header data with
    | none => { s with header := s.header ++ data }
    | some (header, rest) => filled rest (headed header s)

/-- What arrived is not more than what the header said. -/
def Fits (data : List UInt8) (s : Session) : Prop :=
  if s.headersDone then s.hasLength = true → data.length ≤ s.remaining
  else ∀ header rest, splitHeader s.header data = some (header, rest) →
    (headed header s).hasLength = true → rest.length ≤ (headed header s).remaining

/-- The stream behind a turn of the decoder. -/
def decoded (s : Session) : Session :=
  let r := decodeLoop s.width s.format.numChannels s.bigEndian s.ingress s.tail []
  { s with ingress := r.1, tail := r.2.1, pcm := r.2.2, pcmSent := 0 }

/-- The calls behind which the client gives up. -/
inductive Fault (s : Session) : List Event → Prop
  | none : Fault s []
  | release {rc : Rc} : s.streaming = true → s.bufferedOutput = true → s.waitCont = false →
      s.waitStart = false → s.outputPaused = false → s.outputReleased = false → Prefilled s →
      rc ≠ EAF_OK → Fault s [.release rc]
  | offer (wrote : Nat) : s.streaming = true → ¬ Gated s → s.pcmSent < s.pcm.length →
      Fault s [.pcm (s.pcm.drop s.pcmSent) wrote]
  | finish : Drained s → s.bufferedOutput = false → Fault s [.eof]
  | receive (data : List UInt8) : s.streaming = true → s.httpOpen = true →
      Fault s [.recv .http EAF_OK data]
  | early : s.streaming = true → Fault s [.recv .http EAF_EOF []]

inductive Move : Session → Session → Prop
  | quiet {s : Session} {e : Event} : quiet e = true → Move s (s.add [e])
  | idle {s d : Session} : s.streaming = false → d.streaming = false → d.log = s.log →
      d.ingress = s.ingress → Move s d
  | refused {s : Session} {e : Event} : s.streaming = false → Lms.refused e = true →
      Move s (s.add [e])
  | misstart {s : Session} (format : Format) (request : BufferRequest) (limits : BufferLimits) :
      s.streaming = false → Move s (s.add [.startBuffered format request EAF_OK limits, .stop])
  | start {s : Session} {e : Event} {stream : Stream} : Fresh s → s.httpOpen = true →
      Starts s e → Matches stream s →
      Move s ((opened stream s).add [e, .opened stream s.ingress])
  | stop {s d : Session} : s.streaming = true → Fresh d → d.log = s.log ++ [.stop] → Move s d
  | continued {s : Session} : s.streaming = true → s.waitCont = true →
      Move s ({ s with waitCont := false }.add [.continued])
  | unpause {s : Session} : s.streaming = true → s.waitCont = false → s.waitStart = true →
      s.readySent = true → Move s
        ({ s with waitStart := false, outputPaused := false }.add [.unpaused s.outputPaused])
  | resume {s : Session} : s.streaming = true → s.waitCont = false → s.waitStart = false →
      Move s ({ s with outputPaused := false }.add [.pause false EAF_OK])
  | pause {s : Session} : s.streaming = true →
      Move s ({ s with outputPaused := true }.add [.pause true EAF_OK])
  | ready {s : Session} {e : Event} : isStat "STMl" e = true → s.streaming = true →
      s.waitCont = false → s.waitStart = true → s.readySent = false →
      (s.bufferedOutput = true → Prefilled s) → Move s ({ s with readySent := true }.add [e])
  | release {s : Session} : s.streaming = true → s.bufferedOutput = true → s.waitCont = false →
      s.waitStart = false → s.outputPaused = false → s.outputReleased = false → Prefilled s →
      Move s ({ s with outputReleased := true }.add [.release EAF_OK])
  | done {s : Session} {e : Event} : isStat "STMd" e = true → s.streaming = true →
      s.bufferedOutput = true → s.inputEof = true → s.outputReleased = true → s.eofSent = false →
      Move s ({ s with eofSent := true }.add [e])
  | finish {s : Session} : Drained s → s.bufferedOutput = true →
      Move s ({ s with inputEof := true, httpOpen := false }.add [.eof, .closed .http])
  | finishAll {s : Session} {e : Event} : Drained s → s.bufferedOutput = false →
      isStat "STMd" e = true →
      Move s ({ s with inputEof := true, httpOpen := false }.add [.eof, .closed .http, e])
  | play {s : Session} {e : Event} : isStat "STMs" e = true → s.streaming = true →
      s.waitCont = false → s.waitStart = false → s.startedSent = false →
      Move s ({ s with startedSent := true }.add [e])
  | offer {s : Session} (wrote : Nat) : s.streaming = true → ¬ Gated s →
      s.pcmSent < s.pcm.length → wrote ≤ s.pcm.length - s.pcmSent →
      (held s = true → wrote ≤ s.bufferLimits.capacityFrames - s.prefillFrames) →
      Move s ({ s with
        pcmSent := s.pcmSent + wrote
        prefillFrames := if held s then s.prefillFrames + wrote else s.prefillFrames }.add
          [.pcm (s.pcm.drop s.pcmSent) wrote])
  | decode {s : Session} : s.streaming = true → s.pcmSent = s.pcm.length → Move s (decoded s)
  | receive {s : Session} {data : List UInt8} {es : List Event} : s.streaming = true →
      s.httpOpen = true → s.bodyDone = false → Fits data s → (∀ e ∈ es, Lms.quiet e = true) →
      Move s ((arrived data s).add (.recv .http EAF_OK data :: es))
  | exhaust {s : Session} : s.streaming = true → s.headersDone = true → s.bodyDone = false →
      (s.hasLength = true → s.remaining = 0) →
      Move s ({ s with bodyDone := true }.add [.recv .http EAF_EOF []])

/-- The client gives up and stops the stream. -/
structure Crash (s d : Session) (es fs : List Event) : Prop where
  fault : Fault s es
  quiet : ∀ e ∈ fs, Lms.quiet e = true
  fresh : Fresh d
  ingress : s.streaming = false → d.ingress = s.ingress
  log : d.log = s.log ++ (es ++ fs ++ if s.streaming then [.stop] else [])

abbrev Moves : Session → Session → Prop := Relation.ReflTransGen Move

/-- What a call does to the stream. -/
abbrev Turns : Session → Session → Prop :=
  Relation.ReflTransGen fun s d => Move s d ∨ ∃ es fs, Crash s d es fs

/-! ## What a function does -/

/-- A function that gave up: what is left of the stream is of no use. -/
def Fails (s d : Session) : Prop :=
  ∃ m es fs, Moves s m ∧ Fault m es ∧ (∀ e ∈ fs, quiet e = true) ∧ d.log = m.log ++ (es ++ fs) ∧
    d.streaming = m.streaming ∧ (m.streaming = false → d.ingress = m.ingress)

/-- A function makes moves, and it may give up. -/
structure Goes (s : Session) (r : Rc × Client) : Prop where
  ok : r.1 = EAF_OK → Moves s r.2.toSession
  fails : r.1 ≠ EAF_OK → Fails s r.2.toSession

theorem invalid_ne : EAF_INVALID ≠ EAF_OK := by decide
theorem unsupported_ne : EAF_UNSUPPORTED ≠ EAF_OK := by decide
theorem io_ne : EAF_IO ≠ EAF_OK := by decide

section Goes

variable {s m d : Session} {c : Client} {r : Rc × Client} {rc : Rc}

theorem Moves.of (h : Move s d) : Moves s d := Relation.ReflTransGen.single h

theorem Moves.andMove (h : Moves s m) (hmove : Move m d) : Moves s d :=
  Relation.ReflTransGen.tail h hmove

theorem Moves.turns (h : Moves s d) : Turns s d := by
  refine Relation.ReflTransGen.mono ?_ s d h
  intro a b hmove
  exact Or.inl hmove

theorem Fails.after (h : Moves s m) (hfails : Fails m d) : Fails s d := by
  obtain ⟨n, es, fs, hn, hrest⟩ := hfails
  exact ⟨n, es, fs, h.trans hn, hrest⟩

theorem Goes.after (h : Moves s m) (hr : Goes m r) : Goes s r where
  ok hok := h.trans (hr.ok hok)
  fails hrc := Fails.after h (hr.fails hrc)

theorem goes_ok (h : Moves s c.toSession) : Goes s (EAF_OK, c) where
  ok _ := h
  fails hrc := absurd rfl hrc

theorem goes_fails (hrc : rc ≠ EAF_OK) (h : Fails s c.toSession) : Goes s (rc, c) where
  ok hok := absurd hok hrc
  fails _ := h

theorem andThen_ok (c : Client) (next : Client → Rc × Client) :
    andThen (EAF_OK, c) next = next c := if_pos rfl

theorem goes_andThen {next : Client → Rc × Client} (hr : Goes s r)
    (hnext : r.1 = EAF_OK → Goes r.2.toSession (next r.2)) : Goes s (andThen r next) := by
  unfold andThen
  by_cases hok : r.1 = EAF_OK
  · rw [if_pos hok]
    exact Goes.after (hr.ok hok) (hnext hok)
  · rw [if_neg hok]
    exact hr

/-- Giving up without having touched the stream. -/
theorem fails_quiet {es : List Event} (hquiet : ∀ e ∈ es, quiet e = true)
    (hlog : d.log = s.log ++ es) (hstreaming : d.streaming = s.streaming)
    (hingress : s.streaming = false → d.ingress = s.ingress) : Fails s d :=
  ⟨s, [], es, .refl, .none, hquiet, hlog, hstreaming, hingress⟩

theorem fails_same (h : c.toSession = s) (hrc : rc ≠ EAF_OK) : Goes s (rc, c) := by
  subst h
  exact goes_fails hrc (fails_quiet (by simp) (List.append_nil _).symm rfl (fun _ => rfl))

theorem moves_quiet {es : List Event} (hquiet : ∀ e ∈ es, quiet e = true) :
    Moves s (s.add es) := by
  induction es generalizing s with
  | nil =>
    have hnone : s.add [] = s := by simp [Session.add]
    rw [hnone]
  | cons e es ih =>
    rw [← List.singleton_append, ← add_add]
    have he : Move s (s.add [e]) := .quiet (hquiet e List.mem_cons_self)
    exact (Moves.of he).trans (ih fun e' he' => hquiet e' (List.mem_cons_of_mem _ he'))

end Goes

/-! ## Packets to the server -/

section Functions

variable (env : Env) (c : Client)

theorem compactTx_session : (compactTx c).toSession = c.toSession := by
  unfold compactTx
  by_cases hsent : c.txSent ≠ 0
  · rw [if_pos hsent]
  · rw [if_neg hsent]

theorem recordError_session (rc : Rc) : (recordError rc c).toSession = c.toSession := by
  unfold recordError
  by_cases hfirst : rc ≠ EAF_OK ∧ c.diagnostics.firstError = EAF_OK
  · rw [if_pos hfirst]
  · rw [if_neg hfirst]

/-- A packet is queued, or there is no room for it. -/
theorem enqueue_cases (opcode body : List UInt8) :
    ((enqueue opcode body c).1 = EAF_OK ∧
      (enqueue opcode body c).2.toSession = c.toSession.add [.queued opcode body]) ∨
    ((enqueue opcode body c).1 = EAF_IO ∧ (enqueue opcode body c).2.toSession = c.toSession) := by
  have hsession := compactTx_session c
  unfold enqueue
  by_cases hroom : body.length > EAF_LMS_TX_BYTES - 8 ∨
      (compactTx c).tx.length > EAF_LMS_TX_BYTES - 8 - body.length
  · right
    simp only [hroom, if_true]
    exact ⟨trivial, hsession⟩
  · left
    simp only [hroom, if_false]
    refine ⟨trivial, ?_⟩
    rw [← hsession]
    rfl

/-- An event of a STAT packet comes first in its body. -/
theorem take_statBody (event : List UInt8) (timestamp jiffies : Nat) (hlength : event.length = 4) :
    (statBody event timestamp jiffies c).take 4 = event := by
  simp only [statBody, List.append_assoc]
  rw [← hlength, List.take_left]

/-- The server is told of an event, or there is no room for the packet. -/
theorem status_cases (event : List UInt8) (timestamp : Nat) (hlength : event.length = 4) :
    ((status env event timestamp c).1 = EAF_OK ∧ ∃ body, body.take 4 = event ∧
      (status env event timestamp c).2.toSession =
        c.toSession.add [.queued (ascii "STAT") body]) ∨
    ((status env event timestamp c).1 = EAF_IO ∧
      (status env event timestamp c).2.toSession = c.toSession) := by
  unfold status
  simp only [monotonicTime]
  rcases enqueue_cases { c with ticks := c.ticks + 1 } (ascii "STAT")
    (statBody event timestamp ((env.clock c.ticks).toNat / 1000) { c with ticks := c.ticks + 1 })
    with ⟨hrc, hsession⟩ | ⟨hrc, hsession⟩
  · left
    exact ⟨hrc, _, take_statBody _ _ _ _ hlength, hsession⟩
  · right
    exact ⟨hrc, hsession⟩

theorem isStat_queued {body : List UInt8} {event : List UInt8} (h : body.take 4 = event)
    (text : String) : isStat text (.queued (ascii "STAT") body) = (event == ascii text) := by
  simp [isStat, h]

/-- An event that says nothing of the course of the stream. -/
theorem status_goes (event : List UInt8) (timestamp : Nat) (hlength : event.length = 4)
    (hquiet : (event == ascii "STMl" || event == ascii "STMs" || event == ascii "STMd") = false) :
    Goes c.toSession (status env event timestamp c) := by
  rcases status_cases env c event timestamp hlength with ⟨hrc, body, hbody, hsession⟩ | ⟨hrc, hsession⟩
  · have hevent : quiet (.queued (ascii "STAT") body) =
        !(isStat "STMl" (.queued (ascii "STAT") body) ||
          isStat "STMs" (.queued (ascii "STAT") body) ||
          isStat "STMd" (.queued (ascii "STAT") body)) := rfl
    rw [isStat_queued hbody, isStat_queued hbody, isStat_queued hbody, hquiet] at hevent
    refine ⟨fun _ => ?_, fun hrc' => absurd hrc hrc'⟩
    rw [hsession]
    exact .of (.quiet hevent)
  · have hfailed : status env event timestamp c = ( EAF_IO, (status env event timestamp c).2) :=
      Prod.ext hrc rfl
    rw [hfailed]
    exact fails_same hsession (by decide)

end Functions

end EmbeddedAudio.Lms
