-- What the decoder pops of the packets that a receiver was given, whoever the
-- receiver is: each accepted one, in order, with a mark that says whether
-- something is missing in front of it.
import EmbeddedAudio.BtQueue
import Mathlib.Data.List.Basic

namespace EmbeddedAudio.Bt

/-! ## The receiver -/

/-- The arguments of a call of `eaf_bt_sbc_receive`. No payload is a payload without bytes. -/
structure Delivery where
  sequence : UInt16
  timestamp : UInt32
  payload : List UInt8
  deriving DecidableEq, Repr

/-- What became of a call, by the code that it returned, and the marks that a binding made between
the calls. -/
inductive Receipt where
  | rejected (d : Delivery)
  | dropped (d : Delivery)
  | accepted (d : Delivery)
  | marked
  deriving DecidableEq, Repr

/-- Both tasks, the call that the receiver is at, and what became of the calls so far. -/
structure Line where
  tasks : A2dp
  call : Delivery
  receipts : List Receipt

/-- What happens next. A binding marks a discontinuity from the task that receives. -/
inductive Use where
  | receive (d : Delivery)
  | mark
  | producer
  | consumer
  deriving DecidableEq, Repr

/-- `eaf_bt_sbc_receive` is called. -/
def receive (l : Line) (d : Delivery) : Line where
  tasks := sbcReceive l.tasks d.sequence d.timestamp d.payload
  call := d
  receipts := l.receipts ++ if mediaValid d.payload then [] else [.rejected d]

/-- A binding sets `discontinuity`. -/
def mark (l : Line) : Line where
  tasks := { l.tasks with ingress := { l.tasks.ingress with discontinuity := true } }
  call := l.call
  receipts := l.receipts ++ [.marked]

/-- What the call returns when the receiver takes its next step, if it returns then. -/
def returned (l : Line) : List Receipt :=
  match l.tasks.producer with
  | .idle => []
  | .claiming _ =>
    if l.tasks.ingress.writeCursor - l.tasks.ingress.readCursor = EAF_BT_QUEUE_PACKETS then
      [.dropped l.call]
    else
      []
  | .filling _ _ => []
  | .publishing _ _ => [.accepted l.call]

def use (l : Line) : Use → Line
  | .receive d => if l.tasks.producer = .idle then receive l d else l
  | .mark => if l.tasks.producer = .idle then mark l else l
  | .producer =>
    { l with tasks := producerStep l.tasks, receipts := l.receipts ++ returned l }
  | .consumer => { l with tasks := consumerStep l.tasks }

/-- A queue behind `eaf_bt_ingress_init`. -/
def freshLine : Line := ⟨registered, ⟨0, 0, []⟩, []⟩

def useAll (l : Line) (uses : List Use) : Line := uses.foldl use l

/-! ## What is due -/

/-- The deliveries that were accepted, in order. -/
def acceptedOf (receipts : List Receipt) : List Delivery :=
  receipts.filterMap fun
    | .accepted d => some d
    | _ => none

@[simp] theorem acceptedOf_nil : acceptedOf [] = [] := rfl

@[simp] theorem acceptedOf_append (xs ys : List Receipt) :
    acceptedOf (xs ++ ys) = acceptedOf xs ++ acceptedOf ys := List.filterMap_append

@[simp] theorem acceptedOf_accepted (d : Delivery) : acceptedOf [.accepted d] = [d] := rfl

@[simp] theorem acceptedOf_rejected (d : Delivery) : acceptedOf [.rejected d] = [] := rfl

@[simp] theorem acceptedOf_dropped (d : Delivery) : acceptedOf [.dropped d] = [] := rfl

@[simp] theorem acceptedOf_marked : acceptedOf [.marked] = [] := rfl

/-- The deliveries that were well formed, in order. -/
def wellFormedOf (receipts : List Receipt) : List Delivery :=
  receipts.filterMap fun
    | .accepted d => some d
    | .dropped d => some d
    | .rejected _ => none
    | .marked => none

/-- The last well-formed delivery. -/
def lastReceived (receipts : List Receipt) : Option Delivery := (wellFormedOf receipts).getLast?

@[simp] theorem lastReceived_nil : lastReceived [] = none := rfl

@[simp] theorem lastReceived_accepted (receipts : List Receipt) (d : Delivery) :
    lastReceived (receipts ++ [.accepted d]) = some d := by
  simp [lastReceived, wellFormedOf]

@[simp] theorem lastReceived_dropped (receipts : List Receipt) (d : Delivery) :
    lastReceived (receipts ++ [.dropped d]) = some d := by
  simp [lastReceived, wellFormedOf]

@[simp] theorem lastReceived_rejected (receipts : List Receipt) (d : Delivery) :
    lastReceived (receipts ++ [.rejected d]) = lastReceived receipts := by
  simp [lastReceived, wellFormedOf]

@[simp] theorem lastReceived_marked (receipts : List Receipt) :
    lastReceived (receipts ++ [.marked]) = lastReceived receipts := by
  simp [lastReceived, wellFormedOf]

/-- The sequence number of a delivery is not the successor of the one before. -/
def Gap (before : List Receipt) (d : Delivery) : Prop :=
  ∃ last, lastReceived before = some last ∧ d.sequence ≠ last.sequence + 1

/-- Something was rejected, dropped or marked behind the last delivery that was accepted. -/
def Trouble (before : List Receipt) : Prop :=
  ∃ old receipt recent, before = old ++ receipt :: recent ∧ (∀ d, receipt ≠ .accepted d) ∧
    acceptedOf recent = []

theorem not_trouble_nil : ¬ Trouble [] := by
  rintro ⟨old, receipt, recent, h, -⟩
  cases old <;> cases h

theorem trouble_snoc (receipts : List Receipt) {receipt : Receipt}
    (h : ∀ d, receipt ≠ .accepted d) : Trouble (receipts ++ [receipt]) :=
  ⟨receipts, receipt, [], rfl, h, rfl⟩

theorem not_trouble_accepted (receipts : List Receipt) (d : Delivery) :
    ¬ Trouble (receipts ++ [.accepted d]) := by
  rintro ⟨old, receipt, recent, h, hne, hrecent⟩
  rcases List.eq_nil_or_concat' recent with rfl | ⟨recent, last, rfl⟩
  · have hlast := List.singleton_inj.mp (List.append_inj' h rfl).2
    exact hne d hlast.symm
  · rw [← List.cons_append, ← List.append_assoc] at h
    have hlast := List.singleton_inj.mp (List.append_inj' h rfl).2
    rw [← hlast] at hrecent
    simp at hrecent

/-- What a packet has of its delivery. -/
structure Carries (d : Delivery) (packet : Packet) : Prop where
  valid : mediaValid d.payload = true
  sequence : packet.sequence = d.sequence
  timestamp : packet.timestamp = d.timestamp
  frameCount : packet.frameCount = d.payload.headD 0 &&& 0x0f
  length : packet.length.toNat = d.payload.length - 1
  data : packet.data = d.payload.drop 1

/-- The packet that a delivery becomes behind the receipts. -/
structure Becomes (before : List Receipt) (d : Delivery) (packet : Packet) : Prop where
  carries : Carries d packet
  mark : packet.discontinuity = true ↔ Gap before d ∨ Trouble before

/-- The packet is what the accepted delivery in its place becomes. -/
def StandsFor (receipts : List Receipt) (i : Nat) (packet : Packet) : Prop :=
  ∃ before d after, receipts = before ++ .accepted d :: after ∧
    (acceptedOf before).length = i ∧ Becomes before d packet

theorem StandsFor.snoc {receipts : List Receipt} {i : Nat} {packet : Packet}
    (h : StandsFor receipts i packet) (more : List Receipt) :
    StandsFor (receipts ++ more) i packet := by
  obtain ⟨before, d, after, rfl, hi, hbecomes⟩ := h
  exact ⟨before, d, after ++ more, by simp, hi, hbecomes⟩

/-! ## The invariant -/

/-- The queue expects the successor of a delivery. -/
def Expects (q : Ingress) : Option Delivery → Prop
  | none => q.haveSequence = false
  | some d => q.haveSequence = true ∧ q.expectedSequence = d.sequence + 1

theorem gap_packetOf {q : Ingress} {receipts : List Receipt}
    (h : Expects q (lastReceived receipts)) (d : Delivery) :
    (packetOf q d.sequence d.timestamp d.payload).discontinuity = true ↔ Gap receipts d := by
  unfold Gap packetOf
  rcases hlast : lastReceived receipts with _ | last <;> rw [hlast] at h
  · have hhave : q.haveSequence = false := h
    simp [hhave]
  · obtain ⟨hhave, hexpected⟩ := h
    simp [hhave, hexpected]

theorem carries_packetOf (q : Ingress) {d : Delivery} (hvalid : mediaValid d.payload = true) :
    Carries d (packetOf q d.sequence d.timestamp d.payload) where
  valid := hvalid
  sequence := rfl
  timestamp := rfl
  frameCount := rfl
  length := by
    have hbytes : d.payload.length - 1 ≤ 1024 := by
      simp only [mediaValid, EAF_BT_PACKET_BYTES, Bool.and_eq_true, beq_iff_eq] at hvalid
      exact of_decide_eq_true hvalid.1.1.2
    show (UInt16.ofNat (d.payload.length - 1)).toNat = d.payload.length - 1
    rw [UInt16.toNat_ofNat']
    omega
  data := List.drop_one.symm

/-- What the receiver knows at each point of a call. -/
def receiverHolds (l : Line) : Prop :=
  match l.tasks.producer with
  | .idle => Expects l.tasks.ingress (lastReceived l.receipts) ∧
      (l.tasks.ingress.discontinuity = true ↔ Trouble l.receipts)
  | .claiming packet | .filling _ packet => Expects l.tasks.ingress (some l.call) ∧
      (l.tasks.ingress.discontinuity = true ↔ Trouble l.receipts) ∧ Carries l.call packet ∧
      (packet.discontinuity = true ↔ Gap l.receipts l.call)
  | .publishing _ packet => Expects l.tasks.ingress (some l.call) ∧
      l.tasks.ingress.discontinuity = false ∧ Becomes l.receipts l.call packet

structure Receives (l : Line) : Prop where
  queue : ∃ w r, Queue w r l.tasks
  count : (placedOf l.tasks.history).length = (acceptedOf l.receipts).length
  placed : ∀ i packet, (placedOf l.tasks.history)[i]? = some packet →
    StandsFor l.receipts i packet
  receiver : receiverHolds l

section Uses

variable {l : Line}

theorem receives_fresh : Receives freshLine where
  queue := ⟨0, 0, queue_registered⟩
  count := rfl
  placed := by
    intro i packet h
    cases h
  receiver := ⟨rfl, by simp [freshLine, registered, ingressInit, not_trouble_nil]⟩

theorem receives_receive (h : Receives l) (hidle : l.tasks.producer = .idle) (d : Delivery) :
    Receives (receive l d) := by
  obtain ⟨w, r, hqueue⟩ := h.queue
  have hqueue' := queue_sbcReceive hqueue d.sequence d.timestamp d.payload
  have hholds := h.receiver
  unfold receiverHolds at hholds
  rw [hidle] at hholds
  obtain ⟨hexpects, htrouble⟩ := hholds
  by_cases hvalid : mediaValid d.payload = true
  · have hline : receive l d = ⟨{ l.tasks with
        ingress := expectAfter l.tasks.ingress d.sequence
        producer := .claiming (packetOf l.tasks.ingress d.sequence d.timestamp d.payload) },
        d, l.receipts⟩ := by
      unfold receive sbcReceive
      rw [if_pos hvalid, if_pos hvalid, List.append_nil]
    rw [hline]
    refine ⟨⟨w, r, ?_⟩, h.count, h.placed, ⟨rfl, rfl⟩, htrouble, carries_packetOf _ hvalid,
      gap_packetOf hexpects d⟩
    unfold sbcReceive at hqueue'
    rwa [if_pos hvalid] at hqueue'
  · have hline : receive l d = ⟨lose { l.tasks with ingress := refuse l.tasks.ingress }, d,
        l.receipts ++ [.rejected d]⟩ := by
      unfold receive sbcReceive
      rw [if_neg hvalid, if_neg hvalid]
    rw [hline]
    refine ⟨⟨w, r, queue_refuse hqueue⟩, ?_, ?_, ?_⟩
    · simpa [lose] using h.count
    · intro i packet hpacket
      have hsame : (placedOf l.tasks.history)[i]? = some packet := by simpa [lose] using hpacket
      exact (h.placed i packet hsame).snoc _
    · have hafter : Trouble (l.receipts ++ [.rejected d]) := trouble_snoc _ (by simp)
      refine ⟨?_, ?_⟩
      · rw [lastReceived_rejected]
        exact hexpects
      · simp [lose, refuse, hafter]

theorem receives_mark (h : Receives l) (hidle : l.tasks.producer = .idle) : Receives (mark l) := by
  obtain ⟨w, r, hqueue⟩ := h.queue
  have hholds := h.receiver
  unfold receiverHolds at hholds
  rw [hidle] at hholds
  have hafter : Trouble (l.receipts ++ [.marked]) := trouble_snoc _ (by simp)
  refine ⟨⟨w, r, queue_congr hqueue rfl rfl rfl rfl rfl rfl hqueue.producer⟩, ?_, ?_, ?_⟩
  · simpa [mark] using h.count
  · intro i packet hpacket
    exact (h.placed i packet hpacket).snoc _
  · have hidle' : (mark l).tasks.producer = .idle := hidle
    unfold receiverHolds
    rw [hidle']
    refine ⟨?_, ?_⟩
    · have hlast : lastReceived (mark l).receipts = lastReceived l.receipts :=
        lastReceived_marked _
      rw [hlast]
      exact hholds.1
    · simp [mark, hafter]

/-- A full queue: the call returns without a packet. -/
theorem receives_drop (h : Receives l) {packet : Packet} (hp : l.tasks.producer = .claiming packet)
    (hfull : l.tasks.ingress.writeCursor - l.tasks.ingress.readCursor = EAF_BT_QUEUE_PACKETS) :
    Receives (use l .producer) := by
  obtain ⟨w, r, hqueue⟩ := h.queue
  have hholds := h.receiver
  unfold receiverHolds at hholds
  rw [hp] at hholds
  have hline : use l .producer = ⟨lose { l.tasks with ingress := refuse l.tasks.ingress }, l.call,
      l.receipts ++ [.dropped l.call]⟩ := by
    simp only [use, returned, producerStep, hp, hfull, if_true]
  rw [hline]
  refine ⟨⟨w, r, queue_refuse hqueue⟩, ?_, ?_, ?_⟩
  · simpa [lose] using h.count
  · intro i packet hpacket
    have hsame : (placedOf l.tasks.history)[i]? = some packet := by simpa [lose] using hpacket
    exact (h.placed i packet hsame).snoc _
  · have hafter : Trouble (l.receipts ++ [.dropped l.call]) := trouble_snoc _ (by simp)
    refine ⟨?_, ?_⟩
    · rw [lastReceived_dropped]
      exact hholds.1
    · simp [lose, refuse, hafter]

/-- There is a slot for the packet. -/
theorem receives_claim (h : Receives l) {packet : Packet}
    (hp : l.tasks.producer = .claiming packet)
    (hroom : l.tasks.ingress.writeCursor - l.tasks.ingress.readCursor ≠ EAF_BT_QUEUE_PACKETS) :
    Receives (use l .producer) := by
  obtain ⟨w, r, hqueue⟩ := h.queue
  have hholds := h.receiver
  unfold receiverHolds at hholds
  rw [hp] at hholds
  have hline : use l .producer = ⟨{ l.tasks with
      producer := .filling l.tasks.ingress.writeCursor packet }, l.call, l.receipts⟩ := by
    simp only [use, returned, producerStep, hp, hroom, if_false, List.append_nil]
  rw [hline]
  have hclaimed : l.tasks.ingress.writeCursor = UInt32.ofNat w ∧ w < r + 8 :=
    ⟨hqueue.write, not_full hqueue hroom⟩
  exact ⟨⟨w, r, queue_congr hqueue rfl rfl rfl rfl rfl rfl hclaimed⟩, h.count, h.placed, hholds⟩

/-- The packet gets its mark, which stands for all that was missing in front of it. -/
theorem receives_fill (h : Receives l) {write : UInt32} {packet : Packet}
    (hp : l.tasks.producer = .filling write packet) : Receives (use l .producer) := by
  obtain ⟨w, r, hqueue⟩ := h.queue
  have hqueue' := queue_fill hqueue hp
  have hholds := h.receiver
  unfold receiverHolds at hholds
  rw [hp] at hholds
  obtain ⟨hexpects, htrouble, hcarries, hgap⟩ := hholds
  have hline : use l .producer = ⟨producerStep l.tasks, l.call, l.receipts⟩ := by
    simp only [use, returned, hp, List.append_nil]
  rw [hline]
  have hstep : producerStep l.tasks = { l.tasks with
      ingress := { l.tasks.ingress with
        slots := Function.update l.tasks.ingress.slots (slotOf write) { packet with
          discontinuity := packet.discontinuity || l.tasks.ingress.discontinuity }
        discontinuity := false }
      producer := .publishing write { packet with
        discontinuity := packet.discontinuity || l.tasks.ingress.discontinuity } } := by
    simp only [producerStep, hp]
  rw [hstep] at hqueue' ⊢
  have hbecomes : Becomes l.receipts l.call { packet with
      discontinuity := packet.discontinuity || l.tasks.ingress.discontinuity } :=
    ⟨⟨hcarries.valid, hcarries.sequence, hcarries.timestamp, hcarries.frameCount, hcarries.length,
        hcarries.data⟩,
      by rw [Bool.or_eq_true, hgap, htrouble]⟩
  exact ⟨⟨w, r, hqueue'⟩, h.count, h.placed, hexpects, rfl, hbecomes⟩

/-- The call returns, and its packet is the last one. -/
theorem receives_publish (h : Receives l) {write : UInt32} {packet : Packet}
    (hp : l.tasks.producer = .publishing write packet) : Receives (use l .producer) := by
  obtain ⟨w, r, hqueue⟩ := h.queue
  have hqueue' := queue_publish hqueue hp
  have hholds := h.receiver
  unfold receiverHolds at hholds
  rw [hp] at hholds
  obtain ⟨hexpects, hclear, hbecomes⟩ := hholds
  have hline : use l .producer =
      ⟨producerStep l.tasks, l.call, l.receipts ++ [.accepted l.call]⟩ := by
    simp only [use, returned, hp]
  rw [hline]
  have hstep : producerStep l.tasks = { l.tasks with
      ingress := { l.tasks.ingress with writeCursor := write + 1 }
      producer := .idle
      history := l.tasks.history ++ [.placed packet] } := by
    simp only [producerStep, hp]
  rw [hstep] at hqueue' ⊢
  have hplaced : placedOf (l.tasks.history ++ [.placed packet]) =
      placedOf l.tasks.history ++ [packet] := by simp
  refine ⟨⟨w + 1, r, hqueue'⟩, ?_, ?_, ?_, ?_⟩
  · simp [h.count]
  · intro i out hout
    simp only [hplaced] at hout
    rcases Nat.lt_or_ge i (placedOf l.tasks.history).length with hold | hnew
    · rw [List.getElem?_append_left hold] at hout
      exact (h.placed i out hout).snoc _
    · rw [List.getElem?_append_right hnew, List.getElem?_singleton] at hout
      split at hout
      · cases hout
        exact ⟨l.receipts, l.call, [], rfl, by rw [← h.count]; omega, hbecomes⟩
      · cases hout
  · rw [lastReceived_accepted]
    exact hexpects
  · have hnone := not_trouble_accepted l.receipts l.call
    simp [hclear, hnone]

theorem receives_producer (h : Receives l) : Receives (use l .producer) := by
  rcases hp : l.tasks.producer with _ | packet | ⟨write, packet⟩ | ⟨write, packet⟩
  · have hline : use l .producer = l := by
      simp only [use, returned, producerStep, hp, List.append_nil]
    rw [hline]
    exact h
  · by_cases hfull : l.tasks.ingress.writeCursor - l.tasks.ingress.readCursor = EAF_BT_QUEUE_PACKETS
    · exact receives_drop h hp hfull
    · exact receives_claim h hp hfull
  · exact receives_fill h hp
  · exact receives_publish h hp

theorem receives_consumer (h : Receives l) : Receives (use l .consumer) := by
  obtain ⟨w, r, hqueue⟩ := h.queue
  obtain ⟨r', hqueue', -⟩ := queue_consumerStep hqueue
  have hbeside := beside_consumerStep l.tasks
  have hholds := h.receiver
  unfold use
  refine ⟨⟨w, r', hqueue'⟩, ?_, ?_, ?_⟩
  · rw [hbeside.history]
    exact h.count
  · rw [hbeside.history]
    exact h.placed
  · unfold receiverHolds at hholds ⊢
    have hexpects : ∀ d, Expects l.tasks.ingress d →
        Expects (consumerStep l.tasks).ingress d := by
      intro d hd
      rcases d with _ | d
      · exact hbeside.haveSequence.trans hd
      · exact ⟨hbeside.haveSequence.trans hd.1, hbeside.expected.trans hd.2⟩
    simp only [hbeside.producer, hbeside.discontinuity]
    rcases hp : l.tasks.producer with _ | packet | ⟨write, packet⟩ | ⟨write, packet⟩ <;>
      rw [hp] at hholds
    · exact ⟨hexpects _ hholds.1, hholds.2⟩
    · exact ⟨hexpects _ hholds.1, hholds.2⟩
    · exact ⟨hexpects _ hholds.1, hholds.2⟩
    · exact ⟨hexpects _ hholds.1, hholds.2⟩

theorem receives_use (h : Receives l) (u : Use) : Receives (use l u) := by
  cases u with
  | receive d =>
    unfold use
    by_cases hidle : l.tasks.producer = .idle
    · simp only [hidle, if_true]
      exact receives_receive h hidle d
    · simp only [hidle, if_false]
      exact h
  | mark =>
    unfold use
    by_cases hidle : l.tasks.producer = .idle
    · simp only [hidle, if_true]
      exact receives_mark h hidle
    · simp only [hidle, if_false]
      exact h
  | producer => exact receives_producer h
  | consumer => exact receives_consumer h

theorem receives_useAll (h : Receives l) (uses : List Use) : Receives (useAll l uses) := by
  induction uses generalizing l with
  | nil => exact h
  | cons u uses ih => exact ih (receives_use h u)

end Uses

/-! ## The queue -/

/-- What the consumer has of what the receiver was given. -/
structure InTurn (l : Line) : Prop where
  /-- Each popped packet is the one that the accepted delivery in its place becomes. -/
  popped : ∀ i out, l.tasks.popped[i]? = some out → StandsFor l.receipts i out
  /-- What a pop does not find was popped before. -/
  drained : l.tasks.ingress.readCursor = l.tasks.ingress.writeCursor →
    l.tasks.popped.length = (acceptedOf l.receipts).length
  /-- The slot that is filled holds no packet to be popped. -/
  unread : ∀ write packet, l.tasks.producer = .filling write packet → ∀ k : UInt32,
    k < l.tasks.ingress.writeCursor - l.tasks.ingress.readCursor →
    slotOf (l.tasks.ingress.readCursor + k) ≠ slotOf write

theorem Receives.inTurn {l : Line} (h : Receives l) : InTurn l := by
  obtain ⟨w, r, hqueue⟩ := h.queue
  have hcount := h.count
  have hplaced := hqueue.placed
  have hle := hqueue.le
  have hpopped : l.tasks.popped.length = r := by
    rw [hqueue.popped, List.length_take, hplaced]
    omega
  refine ⟨?_, ?_, ?_⟩
  · intro i out hout
    rw [hqueue.popped, List.getElem?_take] at hout
    split at hout
    · exact h.placed i out hout
    · cases hout
  · intro hempty
    have hlevel := toNat_level hqueue
    rw [hempty, UInt32.sub_self] at hlevel
    have hzero : (0 : UInt32).toNat = 0 := rfl
    omega
  · intro write packet hp k hk
    have hproducer := hqueue.producer
    unfold producerHolds at hproducer
    rw [hp] at hproducer
    obtain ⟨hwrite, hroom⟩ := hproducer
    have hklevel : k.toNat < w - r := by
      rw [← toNat_level hqueue]
      exact hk
    have hread : l.tasks.ingress.readCursor + k = UInt32.ofNat (r + k.toNat) := by
      rw [hqueue.read, UInt32.ofNat_add, UInt32.ofNat_toNat]
    rw [hwrite, hread]
    exact slotOf_ne (by omega) (by omega)

/-- Packets are popped as they were accepted, in order, and a mark says that a sequence number was
left out, or that something was rejected, dropped or marked. -/
theorem ingress_inTurn (uses : List Use) : InTurn (useAll freshLine uses) :=
  (receives_useAll receives_fresh uses).inTurn

end EmbeddedAudio.Bt
