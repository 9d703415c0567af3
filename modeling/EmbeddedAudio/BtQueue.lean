-- What holds of the packet queue in every interleaving of the callback task
-- with the decode worker: packets come out as they were placed, in order, and
-- no slot is written while its packet is still to be read.
import EmbeddedAudio.BtIngress

namespace EmbeddedAudio.Bt

open Cursor

/-! ## The history -/

/-- The packet of an outcome, if it was placed. -/
def packetIn : Outcome → Option Packet
  | .lost _ => none
  | .placed packet => some packet

/-- The packets that were placed, in order. -/
def placedOf (history : List Outcome) : List Packet := history.filterMap packetIn

@[simp] theorem placedOf_nil : placedOf [] = [] := rfl

@[simp] theorem placedOf_append (xs ys : List Outcome) :
    placedOf (xs ++ ys) = placedOf xs ++ placedOf ys := List.filterMap_append

@[simp] theorem placedOf_lost (buf : AudioBuff) (xs : List Outcome) :
    placedOf (.lost buf :: xs) = placedOf xs := rfl

@[simp] theorem placedOf_placed (packet : Packet) (xs : List Outcome) :
    placedOf (.placed packet :: xs) = packet :: placedOf xs := rfl

/-! ## The invariant -/

/-- The slot of packet `j`, counted from the start of the run. -/
theorem slotOf_ofNat (j : Nat) : (slotOf (UInt32.ofNat j)).val = j % 8 := by
  have hdvd : 8 ∣ 2 ^ 32 := ⟨2 ^ 29, by norm_num⟩
  calc (slotOf (UInt32.ofNat j)).val = (UInt32.ofNat j % EAF_BT_QUEUE_PACKETS).toNat := rfl
    _ = j % 2 ^ 32 % 8 := by rw [UInt32.toNat_mod, UInt32.toNat_ofNat', queue_toNat]
    _ = j % 8 := Nat.mod_mod_of_dvd _ hdvd

/-- Packets less than a round apart have different slots. -/
theorem slotOf_ne {i j : Nat} (hlt : i < j) (hround : j < i + 8) :
    slotOf (UInt32.ofNat i) ≠ slotOf (UInt32.ofNat j) := by
  intro h
  have hval := congrArg Fin.val h
  rw [slotOf_ofNat, slotOf_ofNat] at hval
  exact mod_ne hlt hround hval

def producerHolds (w r : Nat) (s : A2dp) : Prop :=
  match s.producer with
  | .idle => True
  | .claiming _ => True
  | .filling write _ => write = UInt32.ofNat w ∧ w < r + 8
  | .publishing write packet =>
    write = UInt32.ofNat w ∧ w < r + 8 ∧ s.ingress.slots (slotOf write) = packet

def consumerHolds (w r : Nat) (s : A2dp) : Prop :=
  match s.consumer with
  | .idle => True
  | .copying read => read = UInt32.ofNat r ∧ r < w
  | .copied read out => read = UInt32.ofNat r ∧ (placedOf s.history)[r]? = some out

/-- After `w` packets were placed and `r` were popped. -/
structure Queue (w r : Nat) (s : A2dp) : Prop where
  write : s.ingress.writeCursor = UInt32.ofNat w
  read : s.ingress.readCursor = UInt32.ofNat r
  le : r ≤ w
  level : w ≤ r + 8
  placed : (placedOf s.history).length = w
  popped : s.popped = (placedOf s.history).take r
  slots : ∀ j, r ≤ j → j < w →
    (placedOf s.history)[j]? = some (s.ingress.slots (slotOf (UInt32.ofNat j)))
  producer : producerHolds w r s
  consumer : consumerHolds w r s

section Steps

variable {w r : Nat} {s : A2dp}

theorem queue_registered : Queue 0 0 registered where
  write := rfl
  read := rfl
  le := Nat.le_refl 0
  level := Nat.zero_le 8
  placed := rfl
  popped := rfl
  slots := by
    intro j _ hlt
    exact absurd hlt (Nat.not_lt_zero j)
  producer := trivial
  consumer := trivial

/-- The distance of the cursors is the number of packets in the queue. -/
theorem toNat_level (h : Queue w r s) :
    (s.ingress.writeCursor - s.ingress.readCursor).toNat = w - r := by
  have hlevel := h.level
  have hdistance := toNat_distance 0 h.le (by omega)
  rw [UInt32.zero_add, UInt32.zero_add] at hdistance
  rw [h.write, h.read]
  exact hdistance

theorem not_full (h : Queue w r s)
    (hroom : s.ingress.writeCursor - s.ingress.readCursor ≠ EAF_BT_QUEUE_PACKETS) : w < r + 8 := by
  have hlevel := h.level
  by_contra hfull
  apply hroom
  apply UInt32.toNat_inj.mp
  rw [toNat_level h, queue_toNat]
  omega

/-- What the callback task does to a state outside the slots and the cursors leaves the queue as
it is. -/
theorem queue_congr {t : A2dp} (h : Queue w r s) (hslots : t.ingress.slots = s.ingress.slots)
    (hwrite : t.ingress.writeCursor = s.ingress.writeCursor)
    (hread : t.ingress.readCursor = s.ingress.readCursor)
    (hplaced : placedOf t.history = placedOf s.history) (hpopped : t.popped = s.popped)
    (hconsumer : t.consumer = s.consumer) (hproducer : producerHolds w r t) : Queue w r t where
  write := hwrite.trans h.write
  read := hread.trans h.read
  le := h.le
  level := h.level
  placed := by rw [hplaced, h.placed]
  popped := by rw [hpopped, hplaced, h.popped]
  slots := by
    rw [hplaced, hslots]
    exact h.slots
  producer := hproducer
  consumer := by
    have hholds := h.consumer
    unfold consumerHolds at hholds ⊢
    rwa [hconsumer, hplaced]

theorem queue_lose (h : Queue w r s) : Queue w r (lose s) := by
  apply queue_congr h <;> simp [lose, producerHolds]

theorem queue_refuse (h : Queue w r s) : Queue w r (lose { s with ingress := refuse s.ingress }) := by
  apply queue_congr h <;> simp [lose, refuse, producerHolds]

theorem queue_sbcReceive (h : Queue w r s) (sequence : UInt16) (timestamp : UInt32)
    (payload : List UInt8) : Queue w r (sbcReceive s sequence timestamp payload) := by
  unfold sbcReceive
  by_cases hvalid : mediaValid payload = true
  · rw [if_pos hvalid]
    apply queue_congr h <;> simp [expectAfter, producerHolds]
  · rw [if_neg hvalid]
    exact queue_refuse h

theorem queue_audioDataCb (h : Queue w r s) (buf : AudioBuff) : Queue w r (audioDataCb s buf) := by
  unfold audioDataCb
  by_cases hstreaming : s.binding.streaming = true
  · rw [if_pos hstreaming]
    rcases staged buf with _ | payload
    · exact queue_lose (queue_congr h rfl rfl rfl rfl rfl rfl h.producer)
    · apply queue_sbcReceive
      exact queue_congr h rfl rfl rfl rfl rfl rfl h.producer
  · rw [if_neg hstreaming]
    exact h

theorem queue_onA2d (h : Queue w r s) (event : A2dEvent) : Queue w r (onA2d s event) :=
  queue_congr h rfl rfl rfl rfl rfl rfl h.producer

/-- A slot is filled that holds no packet to be popped. -/
theorem queue_fill (h : Queue w r s) {write : UInt32} {packet : Packet}
    (hp : s.producer = .filling write packet) : Queue w r (producerStep s) := by
  have hholds := h.producer
  unfold producerHolds at hholds
  rw [hp] at hholds
  obtain ⟨hwrite, hroom⟩ := hholds
  unfold producerStep
  rw [hp]
  refine { h with
    slots := ?_
    producer := ⟨hwrite, hroom, by simp⟩ }
  intro j hle hlt
  have hne : slotOf (UInt32.ofNat j) ≠ slotOf write := by
    rw [hwrite]
    exact slotOf_ne hlt (by omega)
  rw [h.slots j hle hlt]
  simp [Function.update_of_ne hne]

/-- The packet in the filled slot becomes the last one of the queue. -/
theorem queue_publish (h : Queue w r s) {write : UInt32} {packet : Packet}
    (hp : s.producer = .publishing write packet) : Queue (w + 1) r (producerStep s) := by
  have hholds := h.producer
  unfold producerHolds at hholds
  rw [hp] at hholds
  obtain ⟨hwrite, hroom, hslot⟩ := hholds
  have hle := h.le
  have hlength := h.placed
  have hplaced : placedOf (s.history ++ [.placed packet]) = placedOf s.history ++ [packet] := by
    simp
  unfold producerStep
  rw [hp]
  constructor
  · rw [hwrite, UInt32.ofNat_add]
    rfl
  · exact h.read
  · omega
  · omega
  · rw [hplaced, List.length_append, hlength]
    rfl
  · rw [hplaced, List.take_append_of_le_length (by omega)]
    exact h.popped
  · intro j hj hlt
    rw [hplaced]
    rcases Nat.lt_or_eq_of_le (Nat.le_of_lt_succ hlt) with hold | rfl
    · rw [List.getElem?_append_left (by omega)]
      exact h.slots j hj hold
    · rw [List.getElem?_append_right (by omega), hlength, Nat.sub_self, ← hwrite, hslot]
      rfl
  · trivial
  · have hconsumer := h.consumer
    unfold consumerHolds at hconsumer ⊢
    rw [hplaced]
    rcases hc : s.consumer with _ | read | ⟨read, out⟩ <;> rw [hc] at hconsumer
    · trivial
    · exact ⟨hconsumer.1, by omega⟩
    · exact ⟨hconsumer.1, List.getElem?_append_left
        (List.getElem?_eq_some_iff.mp hconsumer.2).1 ▸ hconsumer.2⟩

theorem queue_producerStep (h : Queue w r s) :
    ∃ w', w ≤ w' ∧ Queue w' r (producerStep s) := by
  rcases hp : s.producer with _ | packet | ⟨write, packet⟩ | ⟨write, packet⟩
  · refine ⟨w, Nat.le_refl w, ?_⟩
    unfold producerStep
    rw [hp]
    exact h
  · refine ⟨w, Nat.le_refl w, ?_⟩
    unfold producerStep
    rw [hp]
    by_cases hfull : s.ingress.writeCursor - s.ingress.readCursor = EAF_BT_QUEUE_PACKETS
    · simp only [hfull, if_true]
      exact queue_refuse h
    · simp only [hfull, if_false]
      exact queue_congr h rfl rfl rfl rfl rfl rfl ⟨h.write, not_full h hfull⟩
  · exact ⟨w, Nat.le_refl w, queue_fill h hp⟩
  · exact ⟨w + 1, Nat.le_succ w, queue_publish h hp⟩

/-- How far the decode worker is with a packet. -/
def phase : Consumer → Nat
  | .idle => 0
  | .copying _ => 1
  | .copied _ _ => 2

/-- The decode worker waits for a packet, or it gets on. -/
theorem queue_consumerStep (h : Queue w r s) : ∃ r', Queue w r' (consumerStep s) ∧
    (s.consumer = .idle ∧ r = w ∨
      3 * r' + phase (consumerStep s).consumer = 3 * r + phase s.consumer + 1) := by
  have hholds := h.consumer
  unfold consumerHolds at hholds
  unfold consumerStep
  rcases hc : s.consumer with _ | read | ⟨read, out⟩ <;> rw [hc] at hholds
  · refine ⟨r, ?_⟩
    by_cases hempty : s.ingress.readCursor = s.ingress.writeCursor
    · have heq : r = w := by
        have hdistance := toNat_level h
        rw [hempty, UInt32.sub_self] at hdistance
        have hzero : (0 : UInt32).toNat = 0 := rfl
        have hle := h.le
        omega
      simp only [hempty, if_true]
      exact ⟨h, .inl ⟨trivial, heq⟩⟩
    · have hlt : r < w := by
        apply Nat.lt_of_le_of_ne h.le
        rintro rfl
        exact hempty (h.read.trans h.write.symm)
      simp only [hempty, if_false]
      exact ⟨{ h with consumer := ⟨h.read, hlt⟩ }, .inr rfl⟩
  · obtain ⟨hread, hlt⟩ := hholds
    refine ⟨r, { h with consumer := ⟨hread, ?_⟩ }, .inr rfl⟩
    rw [hread]
    exact h.slots r (Nat.le_refl r) hlt
  · obtain ⟨hread, hout⟩ := hholds
    have hlt := (List.getElem?_eq_some_iff.mp hout).1
    have hplaced := h.placed
    have hlevel := h.level
    have hproducer := h.producer
    refine ⟨r + 1, ⟨h.write, ?_, by omega, by omega, h.placed, ?_, ?_, ?_, trivial⟩, .inr ?_⟩
    · rw [hread, UInt32.ofNat_add]
      rfl
    · rw [h.popped, List.take_add_one, hout]
      rfl
    · intro j hj hjw
      exact h.slots j (by omega) hjw
    · unfold producerHolds at hproducer ⊢
      rcases hp : s.producer with _ | packet | ⟨write, packet⟩ | ⟨write, packet⟩ <;>
        rw [hp] at hproducer
      · trivial
      · trivial
      · exact ⟨hproducer.1, by omega⟩
      · exact ⟨hproducer.1, by omega, hproducer.2.2⟩
    · simp only [phase]
      omega

/-- What the decode worker leaves as it is. -/
structure Beside (s t : A2dp) : Prop where
  producer : t.producer = s.producer
  binding : t.binding = s.binding
  history : t.history = s.history
  haveSequence : t.ingress.haveSequence = s.ingress.haveSequence
  expected : t.ingress.expectedSequence = s.ingress.expectedSequence
  discontinuity : t.ingress.discontinuity = s.ingress.discontinuity

theorem beside_consumerStep (s : A2dp) : Beside s (consumerStep s) := by
  unfold consumerStep
  rcases s.consumer with _ | read | ⟨read, out⟩
  · by_cases hempty : s.ingress.readCursor = s.ingress.writeCursor
    · simp only [hempty, if_true]
      exact ⟨rfl, rfl, rfl, rfl, rfl, rfl⟩
    · simp only [hempty, if_false]
      exact ⟨rfl, rfl, rfl, rfl, rfl, rfl⟩
  · exact ⟨rfl, rfl, rfl, rfl, rfl, rfl⟩
  · exact ⟨rfl, rfl, rfl, rfl, rfl, rfl⟩

theorem Beside.trans {s t u : A2dp} (h : Beside s t) (h' : Beside t u) : Beside s u where
  producer := h'.producer.trans h.producer
  binding := h'.binding.trans h.binding
  history := h'.history.trans h.history
  haveSequence := h'.haveSequence.trans h.haveSequence
  expected := h'.expected.trans h.expected
  discontinuity := h'.discontinuity.trans h.discontinuity

theorem phase_le (h : Queue w r s) : 3 * r + phase s.consumer ≤ 3 * w := by
  have hle := h.le
  have hplaced := h.placed
  have hholds := h.consumer
  unfold consumerHolds at hholds
  rcases hc : s.consumer with _ | read | ⟨read, out⟩ <;> rw [hc] at hholds <;> simp only [phase]
  · omega
  · have hlt := hholds.2
    omega
  · have hlt := (List.getElem?_eq_some_iff.mp hholds.2).1
    omega

/-- The decode worker can pop all that was placed. -/
theorem queue_drains (h : Queue w r s) : ∃ k, Queue w w (run s (List.replicate k .consumer)) ∧
    Beside s (run s (List.replicate k .consumer)) := by
  -- by induction on the steps that are left until it waits
  obtain ⟨n, hn⟩ : ∃ n, 3 * w < 3 * r + phase s.consumer + n := ⟨3 * w + 1, by omega⟩
  induction n generalizing s r with
  | zero =>
    have hle := phase_le h
    omega
  | succ n ih =>
    obtain ⟨r', hstep, ⟨_, rfl⟩ | hmore⟩ := queue_consumerStep h
    · exact ⟨0, h, rfl, rfl, rfl, rfl, rfl, rfl⟩
    · obtain ⟨k, hk, hbeside⟩ := ih hstep (by omega)
      exact ⟨k + 1, hk, (beside_consumerStep s).trans hbeside⟩

end Steps

theorem queue_step {w r : Nat} {s : A2dp} (h : Queue w r s) (action : Action) :
    ∃ w' r', Queue w' r' (step s action) := by
  cases action with
  | audioData buf =>
    unfold step
    by_cases hidle : s.producer = .idle
    · simp only [hidle, if_true]
      exact ⟨w, r, queue_audioDataCb h buf⟩
    · simp only [hidle, if_false]
      exact ⟨w, r, h⟩
  | a2d event =>
    unfold step
    by_cases hidle : s.producer = .idle
    · simp only [hidle, if_true]
      exact ⟨w, r, queue_onA2d h event⟩
    · simp only [hidle, if_false]
      exact ⟨w, r, h⟩
  | producer =>
    obtain ⟨w', _, hq⟩ := queue_producerStep h
    exact ⟨w', r, hq⟩
  | consumer =>
    obtain ⟨r', hq, _⟩ := queue_consumerStep h
    exact ⟨w, r', hq⟩

theorem queue_run {w r : Nat} {s : A2dp} (h : Queue w r s) (actions : List Action) :
    ∃ w' r', Queue w' r' (run s actions) := by
  induction actions generalizing w r s with
  | nil => exact ⟨w, r, h⟩
  | cons action actions ih =>
    obtain ⟨w', r', hstep⟩ := queue_step h action
    exact ih hstep

/-- Packets are popped as they were placed, and in that order. -/
theorem popped_placed (actions : List Action) :
    (run registered actions).popped <+: placedOf (run registered actions).history := by
  obtain ⟨w, r, h⟩ := queue_run queue_registered actions
  rw [h.popped]
  exact List.take_prefix _ _

end EmbeddedAudio.Bt
