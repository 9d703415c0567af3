-- The arithmetic of a clock exchange with the server (eaf_sendspin_time_filter_exchange):
-- four time stamps, three of which the server chooses, and six signed operations on
-- them. What the filter makes of the result is in floating point, and a parameter.
import EmbeddedAudio.ServerNumbers
import EmbeddedAudio.SignedRange

namespace EmbeddedAudio.Sendspin

open Json SignedRange

/-! ## The exchange -/

/-- `measurement` and `max_error`. There is none when an operation leaves the 64 bits. -/
def exchangeOf (m : ServerTime) (clientReceived : UInt64) : Option (Int × Int) := do
  let received := clientReceived.toInt64.toInt
  let outward ← checked 64 (m.serverReceived - m.clientTransmitted)
  let back ← checked 64 (m.serverTransmitted - received)
  let offsets ← checked 64 (outward + back)
  let elapsed ← checked 64 (received - m.clientTransmitted)
  let held ← checked 64 (m.serverTransmitted - m.serverReceived)
  let delay ← checked 64 (elapsed - held)
  return (offsets.tdiv 2, delay.tdiv 2)

/-- `eaf_sendspin_time_filter_exchange`. -/
def timeFilterExchange {φ : Type} (update : φ → Int → Int → UInt64 → φ) (f : φ) (m : ServerTime)
    (clientReceived : UInt64) : Option φ :=
  (exchangeOf m clientReceived).map fun r => update f r.1 r.2 clientReceived

/-! ## When it is exact -/

/-- The two formulas of eaf_sendspin.h, over integers without a bound. -/
def measurementOf (m : ServerTime) (received : Int) : Int :=
  ((m.serverReceived - m.clientTransmitted) + (m.serverTransmitted - received)).tdiv 2

def maxErrorOf (m : ServerTime) (received : Int) : Int :=
  ((received - m.clientTransmitted) - (m.serverTransmitted - m.serverReceived)).tdiv 2

/-- The stamps are not further apart than 64 bits can tell. -/
structure Near (m : ServerTime) (received : Int) : Prop where
  elapsed : received - m.clientTransmitted < 2 ^ 63
  held_low : -2 ^ 63 ≤ m.serverTransmitted - m.serverReceived
  held_high : m.serverTransmitted - m.serverReceived < 2 ^ 63
  ahead : m.serverReceived - m.clientTransmitted + (m.serverTransmitted - received).natAbs < 2 ^ 63
  behind : -2 ^ 63 ≤ m.serverReceived - m.clientTransmitted - (m.serverTransmitted - received).natAbs

/-- The stamps of a message are 64-bit numbers. -/
structure Stamped (m : ServerTime) : Prop where
  clientTransmitted : InRange 64 m.clientTransmitted
  serverReceived : InRange 64 m.serverReceived
  serverTransmitted : InRange 64 m.serverTransmitted

theorem clamp64_inRange (n : Int) : InRange 64 (clamp64 n) := by
  rw [inRange_64]
  simp only [clamp64, INT64_MIN, INT64_MAX]
  omega

theorem carried_inRange {w : JsonValue} {integer : Option Int} (h : Carries w integer)
    (htype : w.type = .number) : InRange 64 w.number := by
  cases integer with
  | none => exact absurd htype (h.other rfl)
  | some n =>
    rw [(h.number n rfl).2]
    exact clamp64_inRange n

theorem serverTime_stamped {json : Span} {m : ServerTime} (h : parseServerTime json = .ok m) :
    Stamped m := by
  unfold parseServerTime at h
  obtain ⟨payload, hpayload, h⟩ := bind_ok h
  obtain ⟨fields, h1, h⟩ := bind_ok h
  have hin := payloadOf_member hpayload
  have hclient := carries_payload "client_transmitted" 0 (by decide) hin
    (sought_at (by decide) rfl (by decide)) rfl h1
  have hreceived := carries_payload "server_received" 1 (by decide) hin
    (sought_at (by decide) rfl (by decide)) rfl h1
  have htransmitted := carries_payload "server_transmitted" 2 (by decide) hin
    (sought_at (by decide) rfl (by decide)) rfl h1
  simp only at h
  split at h
  next htypes =>
    cases h
    exact ⟨carried_inRange hclient htypes.1, carried_inRange hreceived htypes.2.1,
      carried_inRange htransmitted htypes.2.2⟩
  next => cases h

/-- The cast of a clock that is not too far. -/
theorem toInt_clock {clock : UInt64} (h : clock.toNat < 2 ^ 63) :
    clock.toInt64.toInt = clock.toNat := by
  have hbits : clock.toInt64.toInt = clock.toBitVec.toInt := rfl
  have hnat : clock.toBitVec.toNat = clock.toNat := rfl
  rw [hbits, BitVec.toInt_eq_toNat_cond, hnat, if_pos (by omega)]

/-- All six operations stay in their type exactly if the stamps are near. -/
theorem exchangeOf_near {m : ServerTime} (h : Stamped m) {clock : UInt64}
    (hclock : clock.toNat < 2 ^ 63) :
    exchangeOf m clock = some (measurementOf m clock.toNat, maxErrorOf m clock.toNat) ↔
      Near m clock.toNat := by
  have h1 := inRange_64.mp h.clientTransmitted
  have h2 := inRange_64.mp h.serverReceived
  have h3 := inRange_64.mp h.serverTransmitted
  unfold exchangeOf
  rw [toInt_clock hclock]
  simp only [Option.bind_eq_bind, checked_bind, inRange_64]
  constructor
  · rintro ⟨houtward, hback, hoffsets, helapsed, hheld, hdelay, -⟩
    constructor <;> omega
  · rintro ⟨helapsed, hlow, hhigh, hahead, hbehind⟩
    refine ⟨?_, ?_, ?_, ?_, ?_, ?_, rfl⟩ <;> omega

/-- Stamps of clocks that count microseconds are near: 2^61 of them are longer than 70000 years. -/
theorem near_of_small {m : ServerTime} {received : Int} (h0 : received.natAbs < 2 ^ 61)
    (h1 : m.clientTransmitted.natAbs < 2 ^ 61) (h2 : m.serverReceived.natAbs < 2 ^ 61)
    (h3 : m.serverTransmitted.natAbs < 2 ^ 61) : Near m received := by
  constructor <;> omega

/-- For each accepted message and each clock below 2^63, the filter gets exactly what the formulas
say if and only if the stamps are near. The parser lets the server choose any that are not. -/
theorem exchange_exact {φ : Type} (update : φ → Int → Int → UInt64 → φ) (f : φ) {json : Span}
    {m : ServerTime} {clock : UInt64} (hm : parseServerTime json = .ok m)
    (hclock : clock.toNat < 2 ^ 63) :
    (exchangeOf m clock = some (measurementOf m clock.toNat, maxErrorOf m clock.toNat) ∧
      timeFilterExchange update f m clock =
        some (update f (measurementOf m clock.toNat) (maxErrorOf m clock.toNat) clock)) ↔
      Near m clock.toNat := by
  rw [← exchangeOf_near (serverTime_stamped hm) hclock]
  refine ⟨And.left, fun h => ⟨h, ?_⟩⟩
  unfold timeFilterExchange
  rw [h]
  rfl

/-- A server that received a message late by all that 64 bits can hold. -/
def farTime : Span :=
  ⟨0, ascii "\x7b\"payload\":\x7b\"client_transmitted\":-1," ++
    ascii "\"server_received\":9223372036854775807,\"server_transmitted\":0\x7d\x7d"⟩

def farTimeParsed : ServerTime := ⟨-1, 9223372036854775807, 0⟩

theorem parse_farTime : parseServerTime farTime = .ok farTimeParsed := by decide +kernel

theorem exchange_exact_far :
    ((exchangeOf farTimeParsed 1000 =
        some (measurementOf farTimeParsed 1000, maxErrorOf farTimeParsed 1000) ∧
      timeFilterExchange (fun log measurement maxError _ => (measurement, maxError) :: log) []
        farTimeParsed 1000 = some [(measurementOf farTimeParsed 1000,
          maxErrorOf farTimeParsed 1000)]) ↔ Near farTimeParsed 1000) :=
  exchange_exact (fun log measurement maxError _ => (measurement, maxError) :: log) [] parse_farTime
    (by decide)

/-- There is no difference between the stamps of such a message in 64 bits. -/
theorem far_overflows :
    ¬∀ (json : Span) (m : ServerTime) (clock : UInt64), parseServerTime json = .ok m →
      clock.toNat < 2 ^ 63 →
      exchangeOf m clock = some (measurementOf m clock.toNat, maxErrorOf m clock.toNat) := by
  intro h
  exact absurd (h farTime farTimeParsed 1000 parse_farTime (by decide)) (by decide)

end EmbeddedAudio.Sendspin
