-- When the decoder learns of a lost packet: the next packet that it pops is
-- marked, unless the callback kept the lost one from the queue without a word.
import EmbeddedAudio.BtQueue
import EmbeddedAudio.LogLaw

namespace EmbeddedAudio.Bt

open Log

/-! ## The property -/

/-- The packet that is placed next behind a lost one is popped with its mark. -/
def LossFlagged (s : A2dp) : Prop :=
  ∀ before between after buf packet,
    s.history = before ++ .lost buf :: (between ++ .placed packet :: after) →
    placedOf between = [] →
    ∀ out, s.popped[(placedOf before).length]? = some out → out.discontinuity = true

/-- What the callback has to do about a buffer that it does not pass on: nothing, if the next
packet is to be marked anyway. -/
def Announced (s : A2dp) : Action → Prop
  | .audioData buf =>
    s.producer = .idle → s.binding.streaming = true → staged buf = none →
      s.ingress.discontinuity = true
  | _ => True

/-- Each action of a run is announced in the state that it meets. -/
def RunAnnounced (s : A2dp) : List Action → Prop
  | [] => True
  | action :: actions => Announced s action ∧ RunAnnounced (step s action) actions

/-! ## What is owed -/

/-- Whether an outcome leaves the next packet to be marked. -/
def oweAfter (_ : Bool) : Outcome → Bool
  | .lost _ => true
  | .placed _ => false

/-- Whether a buffer was lost behind the last packet that was placed. -/
def owes (history : List Outcome) : Bool := history.foldl oweAfter false

@[simp] theorem owes_nil : owes [] = false := rfl

@[simp] theorem owes_lost (xs : List Outcome) (buf : AudioBuff) :
    owes (xs ++ [.lost buf]) = true := by
  simp [owes, oweAfter]

@[simp] theorem owes_placed (xs : List Outcome) (packet : Packet) :
    owes (xs ++ [.placed packet]) = false := by
  simp [owes, oweAfter]

theorem owes_between (before between : List Outcome) (buf : AudioBuff)
    (h : placedOf between = []) : owes (before ++ .lost buf :: between) = true := by
  induction between using List.reverseRecOn with
  | nil => exact owes_lost before buf
  | append_singleton between o ih =>
    cases o with
    | lost buf' =>
      rw [← List.cons_append, ← List.append_assoc]
      exact owes_lost _ buf'
    | placed packet => simp at h

/-- A packet in front of which a buffer was lost is marked. -/
def marksLoss (before : List Outcome) : Outcome → Prop
  | .lost _ => True
  | .placed packet => owes before = true → packet.discontinuity = true

/-- The mark that the next packet gets from what happened so far. -/
def markAhead (s : A2dp) : Bool :=
  match s.producer with
  | .publishing _ packet => packet.discontinuity
  | _ => s.ingress.discontinuity

/-- Losses are marked, or still will be. -/
structure Remembers (s : A2dp) : Prop where
  marked : Throughout marksLoss s.history
  ahead : owes s.history = true → markAhead s = true

section Steps

variable {s : A2dp}

theorem remembers_registered : Remembers registered where
  marked := throughout_nil
  ahead := by
    intro h
    cases h

/-- A loss after which the next packet is marked. -/
theorem remembers_lose (h : Remembers s) (hmark : s.ingress.discontinuity = true) :
    Remembers (lose s) where
  marked := throughout_snoc h.marked trivial
  ahead := by
    intro _
    exact hmark

theorem remembers_refuse (h : Remembers s) :
    Remembers (lose { s with ingress := refuse s.ingress }) where
  marked := throughout_snoc h.marked trivial
  ahead := by
    intro _
    rfl

theorem markAhead_idle (hidle : s.producer = .idle) : markAhead s = s.ingress.discontinuity := by
  unfold markAhead
  rw [hidle]

theorem remembers_sbcReceive (h : Remembers s) (hidle : s.producer = .idle) (sequence : UInt16)
    (timestamp : UInt32) (payload : List UInt8) :
    Remembers (sbcReceive s sequence timestamp payload) := by
  unfold sbcReceive
  by_cases hvalid : mediaValid payload = true
  · rw [if_pos hvalid]
    refine ⟨h.marked, ?_⟩
    intro howes
    rw [← h.ahead howes, markAhead_idle hidle]
    rfl
  · rw [if_neg hvalid]
    exact remembers_refuse h

theorem remembers_audioDataCb (h : Remembers s) (hidle : s.producer = .idle) (buf : AudioBuff)
    (hannounced : Announced s (.audioData buf)) : Remembers (audioDataCb s buf) := by
  unfold audioDataCb
  by_cases hstreaming : s.binding.streaming = true
  · rw [if_pos hstreaming]
    rcases hstaged : staged buf with _ | payload
    · apply remembers_lose
      · exact ⟨h.marked, h.ahead⟩
      · exact hannounced hidle hstreaming hstaged
    · apply remembers_sbcReceive
      · exact ⟨h.marked, h.ahead⟩
      · exact hidle
  · rw [if_neg hstreaming]
    exact h

theorem remembers_onA2d (h : Remembers s) (hidle : s.producer = .idle) (event : A2dEvent) :
    Remembers (onA2d s event) where
  marked := h.marked
  ahead := by
    intro howes
    have hmark := h.ahead howes
    rw [markAhead_idle hidle] at hmark
    have hidle' : (onA2d s event).producer = .idle := hidle
    rw [markAhead_idle hidle']
    simp [onA2d, hmark]

theorem remembers_producerStep (h : Remembers s) : Remembers (producerStep s) := by
  have hahead := h.ahead
  unfold markAhead at hahead
  unfold producerStep
  rcases hp : s.producer with _ | packet | ⟨write, packet⟩ | ⟨write, packet⟩ <;>
    rw [hp] at hahead
  · exact h
  · by_cases hfull : s.ingress.writeCursor - s.ingress.readCursor = EAF_BT_QUEUE_PACKETS
    · simp only [hfull, if_true]
      exact remembers_refuse h
    · simp only [hfull, if_false]
      exact ⟨h.marked, hahead⟩
  · refine ⟨h.marked, ?_⟩
    intro howes
    simp [markAhead, hahead howes]
  · refine ⟨throughout_snoc h.marked hahead, ?_⟩
    intro howes
    simp at howes

theorem remembers_consumerStep (h : Remembers s) : Remembers (consumerStep s) := by
  unfold consumerStep
  rcases s.consumer with _ | read | ⟨read, out⟩
  · by_cases hempty : s.ingress.readCursor = s.ingress.writeCursor
    · simp only [hempty, if_true]
      exact h
    · simp only [hempty, if_false]
      exact ⟨h.marked, h.ahead⟩
  · exact ⟨h.marked, h.ahead⟩
  · exact ⟨h.marked, h.ahead⟩

end Steps

theorem remembers_step {s : A2dp} (h : Remembers s) {action : Action}
    (hannounced : Announced s action) : Remembers (step s action) := by
  unfold step
  cases action with
  | audioData buf =>
    by_cases hidle : s.producer = .idle
    · simp only [hidle, if_true]
      exact remembers_audioDataCb h hidle buf hannounced
    · simp only [hidle, if_false]
      exact h
  | a2d event =>
    by_cases hidle : s.producer = .idle
    · simp only [hidle, if_true]
      exact remembers_onA2d h hidle event
    · simp only [hidle, if_false]
      exact h
  | producer => exact remembers_producerStep h
  | consumer => exact remembers_consumerStep h

theorem remembers_run {s : A2dp} (h : Remembers s) {actions : List Action}
    (hannounced : RunAnnounced s actions) : Remembers (run s actions) := by
  induction actions generalizing s with
  | nil => exact h
  | cons action actions ih => exact ih (remembers_step h hannounced.1) hannounced.2

/-- In a queue, the packets of a history that are marked are popped so. -/
theorem lossFlagged_of_marked {w r : Nat} {s : A2dp} (h : Queue w r s)
    (hmarked : Throughout marksLoss s.history) : LossFlagged s := by
  intro before between after buf packet hhistory hbetween out hout
  have hsplit : s.history = (before ++ .lost buf :: between) ++ .placed packet :: after := by
    rw [hhistory]
    simp
  have hpacket := hmarked _ (.placed packet) after hsplit (owes_between before between buf hbetween)
  have hplaced : placedOf s.history = placedOf before ++ packet :: placedOf after := by
    rw [hhistory]
    simp [hbetween]
  have hsome : (placedOf s.history)[(placedOf before).length]? = some out := by
    rw [h.popped] at hout
    have hlt := (List.getElem?_eq_some_iff.mp hout).1
    rw [← hout]
    exact (List.prefix_iff_getElem?.mp (List.take_prefix r _) _ hlt).trans
      (List.getElem?_eq_getElem hlt).symm
  rw [hplaced, List.getElem?_append_right (Nat.le_refl _), Nat.sub_self] at hsome
  cases hsome
  exact hpacket

/-! ## The numbers of the binding -/

/-- The binding numbers packets as the queue expects them, unless the next one is marked anyway. -/
def InStep (s : A2dp) : Prop :=
  s.ingress.haveSequence = true → s.binding.sequence = s.ingress.expectedSequence ∨
    s.producer = .idle ∧ s.ingress.discontinuity = true

theorem inStep_audioDataCb {s : A2dp} (h : InStep s) (buf : AudioBuff) :
    InStep (audioDataCb s buf) := by
  unfold audioDataCb
  by_cases hstreaming : s.binding.streaming = true
  · rw [if_pos hstreaming]
    rcases staged buf with _ | payload
    · intro hhave
      rcases h hhave with heq | ⟨_, hmark⟩
      · exact .inl heq
      · exact .inr ⟨rfl, hmark⟩
    · simp only [sbcReceive]
      by_cases hvalid : mediaValid payload = true
      · rw [if_pos hvalid]
        intro _
        exact .inl rfl
      · rw [if_neg hvalid]
        intro _
        exact .inr ⟨rfl, rfl⟩
  · rw [if_neg hstreaming]
    exact h

theorem inStep_producerStep {s : A2dp} (h : InStep s) : InStep (producerStep s) := by
  unfold producerStep
  rcases hp : s.producer with _ | packet | ⟨write, packet⟩ | ⟨write, packet⟩
  · exact h
  · by_cases hfull : s.ingress.writeCursor - s.ingress.readCursor = EAF_BT_QUEUE_PACKETS
    · simp only [hfull, if_true]
      intro _
      exact .inr ⟨rfl, rfl⟩
    · simp only [hfull, if_false]
      intro hhave
      rcases h hhave with heq | ⟨hidle, _⟩
      · exact .inl heq
      · rw [hp] at hidle
        cases hidle
  all_goals
    intro hhave
    rcases h hhave with heq | ⟨hidle, _⟩
    · exact .inl heq
    · rw [hp] at hidle
      cases hidle

theorem inStep_step {s : A2dp} (h : InStep s) (action : Action) : InStep (step s action) := by
  unfold step
  cases action with
  | audioData buf =>
    by_cases hidle : s.producer = .idle
    · simp only [hidle, if_true]
      exact inStep_audioDataCb h buf
    · simp only [hidle, if_false]
      exact h
  | a2d event =>
    by_cases hidle : s.producer = .idle
    · simp only [hidle, if_true]
      intro hhave
      rcases h hhave with heq | ⟨_, hmark⟩
      · refine .inl (Eq.trans ?_ heq)
        cases event <;> rfl
      · exact .inr ⟨hidle, by simp [onA2d, hmark]⟩
    · simp only [hidle, if_false]
      exact h
  | producer => exact inStep_producerStep h
  | consumer =>
    have hbeside := beside_consumerStep s
    simp only [InStep, hbeside.producer, hbeside.binding, hbeside.haveSequence, hbeside.expected,
      hbeside.discontinuity]
    exact h

theorem inStep_run {s : A2dp} (h : InStep s) (actions : List Action) : InStep (run s actions) := by
  induction actions generalizing s with
  | nil => exact h
  | cons action actions ih => exact ih (inStep_step h action)

/-! ## A loss that nobody hears of -/

/-- A buffer that the callback passes on: one frame, in one byte. -/
def soundBuff : AudioBuff := ⟨1, 0, some [0]⟩

/-- The callback with `soundBuff`, up to its end. -/
def soundActions : List Action := [.audioData soundBuff, .producer, .producer, .producer]

/-- On an empty queue without a mark ahead, the next packet is placed without one. -/
theorem placed_unmarked {w : Nat} {s : A2dp} (h : Queue w w s) (hinStep : InStep s)
    (hidle : s.producer = .idle) (hstreaming : s.binding.streaming = true)
    (hclear : s.ingress.discontinuity = false) :
    ∃ packet, packet.discontinuity = false ∧
      (run s soundActions).history = s.history ++ [.placed packet] := by
  have hgap : (s.ingress.haveSequence && s.binding.sequence != s.ingress.expectedSequence) =
      false := by
    rcases hhave : s.ingress.haveSequence with _ | _
    · rfl
    · rcases hinStep hhave with heq | ⟨_, hmark⟩
      · simp [heq]
      · rw [hclear] at hmark
        cases hmark
  have hroom : s.ingress.writeCursor - s.ingress.readCursor ≠ EAF_BT_QUEUE_PACKETS := by
    rw [h.write, h.read, UInt32.sub_self]
    decide
  have hvalid : mediaValid [1, 0] = true := rfl
  have hstaged : staged soundBuff = some [1, 0] := rfl
  refine ⟨packetOf s.ingress s.binding.sequence 0 [1, 0], hgap, ?_⟩
  have hclaim : step s (.audioData soundBuff) = { s with
      current := soundBuff
      binding := { s.binding with sequence := s.binding.sequence + 1 }
      ingress := expectAfter s.ingress s.binding.sequence
      producer := .claiming (packetOf s.ingress s.binding.sequence 0 [1, 0]) } := by
    simp only [step, hidle, if_true, audioDataCb, hstreaming, hstaged, sbcReceive, hvalid]
    rfl
  simp only [soundActions, run_cons, hclaim]
  simp [run, step, producerStep, expectAfter, hroom, hclear]

theorem runAnnounced_append {s : A2dp} {xs ys : List Action} (hxs : RunAnnounced s xs)
    (hys : RunAnnounced (run s xs) ys) : RunAnnounced s (xs ++ ys) := by
  induction xs generalizing s with
  | nil => exact hys
  | cons action xs ih => exact ⟨hxs.1, ih hxs.2 hys⟩

theorem runAnnounced_consumer (s : A2dp) (k : Nat) :
    RunAnnounced s (List.replicate k .consumer) := by
  induction k generalizing s with
  | zero => trivial
  | succ k ih => exact ⟨trivial, ih _⟩

theorem runAnnounced_sound (s : A2dp) : RunAnnounced s soundActions := by
  refine ⟨?_, trivial, trivial, trivial, trivial⟩
  intro _ _ hnone
  cases hnone

/-- After a buffer that was kept from the queue without a word, a packet can be popped without a
mark. -/
theorem unannounced_loss {w r : Nat} {s : A2dp} (h : Queue w r s) (hinStep : InStep s)
    {action : Action} (hnot : ¬ Announced s action) :
    ∃ more, RunAnnounced (step s action) more ∧ ¬ LossFlagged (run s (action :: more)) := by
  cases action with
  | a2d event => exact absurd trivial hnot
  | producer => exact absurd trivial hnot
  | consumer => exact absurd trivial hnot
  | audioData buf =>
    simp only [Announced, Classical.not_imp] at hnot
    obtain ⟨hidle, hstreaming, hstaged, hclear⟩ := hnot
    have hlost : step s (.audioData buf) = lose { s with current := buf } := by
      simp [step, hidle, audioDataCb, hstreaming, hstaged]
    have hlast : (step s (.audioData buf)).history = s.history ++ [.lost buf] := by
      rw [hlost]
      rfl
    -- the worker pops what is there, a sound buffer follows, and the worker pops it too
    obtain ⟨w', r', hq⟩ := queue_step h (.audioData buf)
    obtain ⟨k, hdrained, hbeside⟩ := queue_drains hq
    have hin := inStep_run (inStep_step hinStep (.audioData buf)) (List.replicate k .consumer)
    obtain ⟨packet, hunmarked, hhistory⟩ := placed_unmarked hdrained hin
      (hbeside.producer.trans (by rw [hlost]; rfl))
      (by rw [hbeside.binding, hlost]; exact hstreaming)
      (by
        rw [hbeside.discontinuity, hlost]
        exact Bool.eq_false_iff.mpr hclear)
    obtain ⟨w'', r'', hq'⟩ := queue_run hdrained soundActions
    obtain ⟨k', hdrained', hbeside'⟩ := queue_drains hq'
    refine ⟨List.replicate k .consumer ++ (soundActions ++ List.replicate k' .consumer), ?_, ?_⟩
    · apply runAnnounced_append (runAnnounced_consumer _ k)
      apply runAnnounced_append _ (runAnnounced_consumer _ k')
      exact runAnnounced_sound _
    · rw [run_cons, run_append, run_append]
      have hend := hbeside'.history.trans hhistory
      rw [hbeside.history, hlast] at hend
      intro hflagged
      have hall := hdrained'.popped
      rw [← hdrained'.placed, List.take_length, hend] at hall
      have hmark := hflagged s.history [] [] buf packet (by rw [hend]; simp) rfl packet
        (by rw [hall]; simp)
      rw [hunmarked] at hmark
      cases hmark

/-- In a run in which the callback keeps no buffer from the queue unless the next packet is to be
marked anyway, losses are marked; and where it does, they need not be. -/
theorem lossFlagged_announced (actions : List Action) :
    (RunAnnounced registered actions → LossFlagged (run registered actions)) ∧
      ∀ action, ¬ Announced (run registered actions) action →
        ∃ more, RunAnnounced (run registered (actions ++ [action])) more ∧
          ¬ LossFlagged (run registered (actions ++ action :: more)) := by
  obtain ⟨w, r, h⟩ := queue_run queue_registered actions
  constructor
  · intro hannounced
    exact lossFlagged_of_marked h (remembers_run remembers_registered hannounced).marked
  · intro action hnot
    have hinStep : InStep registered := fun hhave => by cases hhave
    obtain ⟨more, hmore, hunflagged⟩ := unannounced_loss h (inStep_run hinStep actions) hnot
    refine ⟨more, ?_, ?_⟩
    · rw [run_append]
      exact hmore
    · rw [run_append]
      exact hunflagged

/-- A packet of sixteen frames between two sound ones: the one behind it is not marked. -/
theorem sixteenFrames_unmarked :
    ¬ ∀ actions, LossFlagged (run registered actions) := by
  intro h
  have hflagged := h ((.a2d (.audioState true) :: soundActions) ++
    .audioData ⟨16, 0, some [0]⟩ :: soundActions ++ List.replicate 6 .consumer)
  have hmark := hflagged [.placed ⟨1, 1, 0, 1, true, [0]⟩] [] [] ⟨16, 0, some [0]⟩
    ⟨2, 1, 0, 1, false, [0]⟩ rfl rfl ⟨2, 1, 0, 1, false, [0]⟩ rfl
  cases hmark

end EmbeddedAudio.Bt
