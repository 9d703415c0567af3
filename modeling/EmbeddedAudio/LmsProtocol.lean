-- The wire format of the LMS control connection (lms_protocol.c): packets with
-- a length of two bytes in front, the `strm` command and the HELO packet.
import EmbeddedAudio.Results
import EmbeddedAudio.Storage

namespace EmbeddedAudio.Lms

open Storage

def EAF_LMS_MAX_PACKET : Nat := 2048

/-! ## The parser -/

/-- `eaf_lms_parser_t`. The lists are the parts of `prefix` and of `packet` that are in use. -/
structure Parser where
  length : List UInt8
  packet : List UInt8
  expected : Nat
  failed : Bool
  deriving DecidableEq, Repr

/-- `eaf_lms_parser_init`. -/
def parserInit : Parser := ⟨[], [], 0, false⟩

/-- How a turn of the loop of `eaf_lms_feed` ends: the length is not complete, or it is not one of
a packet, or as many bytes as there are went into the packet. -/
inductive FeedTurn where
  | short (p : Parser) (rest : List UInt8)
  | invalid (p : Parser)
  | copied (p : Parser) (rest : List UInt8)
  deriving DecidableEq, Repr

/-- `memcpy` to the packet. -/
def feedPacket (p : Parser) (bytes : List UInt8) : FeedTurn :=
  let take := min (p.expected - p.packet.length) bytes.length
  .copied { p with packet := p.packet ++ bytes.take take } (bytes.drop take)

/-- One turn of the loop. -/
def feedTurn (p : Parser) (b : UInt8) (rest : List UInt8) : FeedTurn :=
  if p.length.length < 2 then
    let p := { p with length := p.length ++ [b] }
    if p.length.length < 2 then .short p rest
    else
      let p := { p with expected := readBE p.length }
      if p.expected < 4 ∨ p.expected > EAF_LMS_MAX_PACKET then .invalid { p with failed := true }
      else feedPacket p rest
  else feedPacket p (b :: rest)

section Feed

variable {σ : Type} (onPacket : List UInt8 → σ → Rc × σ)

/-- The loop of `eaf_lms_feed`. The callback works on a state of its own. -/
def feedLoop : Nat → Parser → σ → List UInt8 → Rc × Parser × σ
  | _, p, s, [] => (EAF_OK, p, s)
  | 0, p, s, _ :: _ => (EAF_OK, p, s)
  | fuel + 1, p, s, b :: rest =>
    match feedTurn p b rest with
    | .short p rest => feedLoop fuel p s rest
    | .invalid p => (EAF_INVALID, p, s)
    | .copied p rest =>
      if p.packet.length = p.expected then
        let (rc, s) := onPacket p.packet s
        let p := { p with length := [], packet := [], expected := 0 }
        if rc ≠ EAF_OK then (rc, { p with failed := true }, s) else feedLoop fuel p s rest
      else feedLoop fuel p s rest

/-- `eaf_lms_feed`. A turn uses up a byte, or it completes a packet. -/
def feed (p : Parser) (s : σ) (bytes : List UInt8) : Rc × Parser × σ :=
  if p.failed then (EAF_STATE, p, s) else feedLoop onPacket (2 * bytes.length) p s bytes

end Feed

/-! ## The rule of the parser -/

section Rule

variable {σ : Type} {onPacket : List UInt8 → σ → Rc × σ} {good : σ → Prop} {bad : σ → Prop}

/-- Packets that are taken lead from one good state to another, and the first that is not ends
the loop. -/
theorem loop_keeps (hgood : ∀ packet s, good s →
      if (onPacket packet s).1 = EAF_OK then good (onPacket packet s).2
      else bad (onPacket packet s).2)
    (hnone : ∀ s, good s → bad s) {fuel : Nat} {p : Parser} {s : σ} {bytes : List UInt8}
    (hs : good s) :
    if (feedLoop onPacket fuel p s bytes).1 = EAF_OK then
      good (feedLoop onPacket fuel p s bytes).2.2
    else bad (feedLoop onPacket fuel p s bytes).2.2 := by
  induction fuel generalizing p s bytes with
  | zero => cases bytes <;> exact hs
  | succ fuel ih =>
    cases bytes with
    | nil => exact hs
    | cons b rest =>
      unfold feedLoop
      rcases feedTurn p b rest with ⟨p', rest'⟩ | p' | ⟨p', rest'⟩
      · exact ih hs
      · exact hnone s hs
      · by_cases hfull : p'.packet.length = p'.expected
        · have hpacket := hgood p'.packet s hs
          simp only [hfull, if_true]
          by_cases hrc : (onPacket p'.packet s).1 = EAF_OK
          · simp only [hrc, ne_eq, not_true_eq_false, if_false]
            rw [if_pos hrc] at hpacket
            exact ih hpacket
          · simp only [hrc, ne_eq, not_false_eq_true, if_true, if_false]
            rw [if_neg hrc] at hpacket
            exact hpacket
        · simp only [hfull, if_false]
          exact ih hs

theorem feed_keeps (hgood : ∀ packet s, good s →
      if (onPacket packet s).1 = EAF_OK then good (onPacket packet s).2
      else bad (onPacket packet s).2)
    (hnone : ∀ s, good s → bad s) {p : Parser} {s : σ} {bytes : List UInt8} (hs : good s) :
    if (feed onPacket p s bytes).1 = EAF_OK then good (feed onPacket p s bytes).2.2
    else bad (feed onPacket p s bytes).2.2 := by
  unfold feed
  rcases p.failed with _ | _
  · exact loop_keeps hgood hnone hs
  · exact hnone s hs

end Rule

/-! ## Commands and the greeting -/

/-- `eaf_lms_stream_t`. -/
structure Stream where
  command : UInt8
  autostart : UInt8
  codec : UInt8
  sampleSize : UInt8
  sampleRate : UInt8
  channels : UInt8
  endianness : UInt8
  flags : UInt8
  thresholdKib : UInt8
  outputThresholdDs : UInt8
  replayGain : Nat
  serverPort : Nat
  serverIpv4 : Nat
  request : List UInt8
  deriving DecidableEq, Repr

/-- `eaf_lms_parse_stream`. -/
def parseStream (p : List UInt8) : Except Rc Stream :=
  if p.length < 28 ∨ p.take 4 ≠ ascii "strm" then .error EAF_INVALID
  else .ok {
    command := p.getD 4 0
    autostart := p.getD 5 0
    codec := p.getD 6 0
    sampleSize := p.getD 7 0
    sampleRate := p.getD 8 0
    channels := p.getD 9 0
    endianness := p.getD 10 0
    flags := p.getD 15 0
    thresholdKib := p.getD 11 0
    outputThresholdDs := p.getD 16 0
    replayGain := readBE (slice p 18 4)
    serverPort := readBE (slice p 22 2)
    serverIpv4 := readBE (slice p 24 4)
    request := p.drop 28 }

/-- `eaf_lms_helo`, for capabilities without a NUL in them. -/
def helo (capacity : Nat) (mac capabilities : List UInt8) : Except Rc (List UInt8) :=
  if capabilities.length ≥ EAF_LMS_MAX_PACKET ∨ capacity < 44 + capabilities.length then
    .error EAF_INVALID
  else .ok (ascii "HELO" ++ writeBE 4 (capabilities.length + 36) ++ [12, 0] ++ mac ++
    List.replicate 28 0 ++ capabilities)

end EmbeddedAudio.Lms
