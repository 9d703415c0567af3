-- The texts of the Bluetooth speaker on their way from a callback to the status. Each goes
-- through a slot that has one owner at a time, so a text arrives as the callback left it,
-- whatever the order in which the tasks make their steps.
import EmbeddedAudio.SpeakerTasks
import Mathlib.Data.List.Forall2

namespace EmbeddedAudio.Speaker

/-! ## A text, byte by byte -/

/-- The memory behind a text. A slot without a text to copy keeps its zeros. -/
def Attribute.byte (attr : Attribute) (i : Nat) : UInt8 :=
  match attr.text with
  | some text => text i
  | none => 0

/-- The text that a metadata response is for: its first bytes, without control characters, and
zeros behind them. -/
def wantedText (attr : Attribute) : Text :=
  .ofFn fun i => if i.val < attr.kept then cleanByte (attr.byte i) else 0

/-- A slot while bytes are copied into it. -/
def copiedText (attr : Attribute) (done : Nat) : Text :=
  .ofFn fun i => if i.val < done then attr.byte i else 0

/-- A slot while its bytes are made clean. -/
def cleanedText (attr : Attribute) (done : Nat) : Text :=
  .ofFn fun i => if i.val < done then cleanByte (attr.byte i)
    else if i.val < attr.kept then attr.byte i else 0

section Bytes

variable (attr : Attribute)

/-- There is room for the final zero. -/
theorem kept_lt : attr.kept < SPEAKER_TEXT_MAX := by
  have hmax : SPEAKER_TEXT_MAX = 128 := rfl
  unfold Attribute.kept
  generalize (if attr.length > 0 then attr.length.toNat else 0) = length
  dsimp only
  split <;> omega

theorem copiedText_zero : copiedText attr 0 = .replicate _ 0 := by
  apply Vector.ext
  intro i hi
  simp [copiedText]

theorem copiedText_succ (done : Nat) :
    (copiedText attr done).setIfInBounds done (attr.byte done) = copiedText attr (done + 1) := by
  apply Vector.ext
  intro i hi
  rw [Vector.getElem_setIfInBounds]
  by_cases heq : done = i
  · simp [copiedText, heq]
  · rw [if_neg heq]
    simp only [copiedText, Vector.getElem_ofFn]
    by_cases hlt : i < done
    · rw [if_pos hlt, if_pos (by omega)]
    · rw [if_neg hlt, if_neg (by omega)]

theorem copiedText_missing (h : attr.text = none) (done : Nat) :
    copiedText attr done = copiedText attr attr.kept := by
  apply Vector.ext
  intro i hi
  simp [copiedText, Attribute.byte, h]

theorem copiedText_closed :
    (copiedText attr attr.kept).setIfInBounds attr.kept 0 = cleanedText attr 0 := by
  apply Vector.ext
  intro i hi
  rw [Vector.getElem_setIfInBounds]
  simp only [copiedText, cleanedText, Vector.getElem_ofFn, Nat.not_lt_zero, if_false]
  split
  · rename_i heq
    rw [if_neg (by omega)]
  · rfl

theorem cleanedText_succ {done : Nat} (h : done < attr.kept) :
    (cleanedText attr done).setIfInBounds done
      (cleanByte ((cleanedText attr done)[done]?.getD 0)) = cleanedText attr (done + 1) := by
  have hroom := kept_lt attr
  have hread : (cleanedText attr done)[done]?.getD 0 = attr.byte done := by
    rw [Vector.getElem?_eq_getElem (by omega)]
    simp [cleanedText, h]
  rw [hread]
  apply Vector.ext
  intro i hi
  rw [Vector.getElem_setIfInBounds]
  simp only [cleanedText, Vector.getElem_ofFn]
  by_cases heq : done = i
  · subst heq
    rw [if_pos rfl, if_pos (by omega)]
  · rw [if_neg heq]
    by_cases hlt : i < done
    · rw [if_pos hlt, if_pos (by omega)]
    · rw [if_neg hlt, if_neg (show ¬i < done + 1 by omega)]

theorem cleanedText_done : cleanedText attr attr.kept = wantedText attr := by
  apply Vector.ext
  intro i hi
  simp only [cleanedText, wantedText, Vector.getElem_ofFn]
  split
  · rfl
  · rfl

end Bytes

/-! ## Who holds a slot -/

section Holding

variable {κ : Type} (lib : EventQueue κ)

def Callback.slot : Callback → Option (Fin SPEAKER_TEXT_SLOTS)
  | .copying slot _ _ | .cleaning slot _ _ | .postingText slot _ | .releasing slot => some slot
  | _ => none

def Item.slot : Item → Option (Fin SPEAKER_TEXT_SLOTS)
  | .text _ slot _ => some slot
  | .event _ => none

def Task.slot : Task → Option (Fin SPEAKER_TEXT_SLOTS)
  | .reading _ slot _ | .releasing slot => some slot
  | _ => none

/-- The slots of the callback, of the queue and of the owner task. -/
def holders (s : System κ) : List (Fin SPEAKER_TEXT_SLOTS) :=
  s.callback.slot.toList ++ ((lib.items s.queue).filterMap Item.slot ++ s.task.slot.toList)

/-! ## The texts under way -/

/-- A text under way: its attribute, and the slot that has its bytes. -/
abbrev Line := MdAttr × Fin SPEAKER_TEXT_SLOTS

def Item.line : Item → Option Line
  | .text id slot _ => some (id, slot)
  | .event _ => none

def Task.line : Task → Option Line
  | .reading id slot _ => some (id, slot)
  | _ => none

/-- The slots of the queue and of the owner task. -/
def read (s : System κ) : List (Fin SPEAKER_TEXT_SLOTS) :=
  (lib.items s.queue).filterMap Item.slot ++ s.task.slot.toList

/-- The texts that the owner task has still to take, the one that it reads first. -/
def linesOf (s : System κ) : List Line :=
  s.task.line.toList ++ (lib.items s.queue).filterMap Item.line

/-- A slot has the text of a metadata response. -/
def Carries (texts : Fin SPEAKER_TEXT_SLOTS → Text) (line : Line) (attr : Attribute) : Prop :=
  line.1 = attr.id ∧ texts line.2 = wantedText attr

/-- The owner task has taken a metadata response: it has left it, or has shown all of it. -/
def Delivered (taken : MdAttr × Option Text) (attr : Attribute) : Prop :=
  taken.1 = attr.id ∧ ∀ text, taken.2 = some text → text = wantedText attr

/-- How far a callback has come with its slot. -/
def Writes (texts : Fin SPEAKER_TEXT_SLOTS → Text) : Callback → Prop
  | .copying slot attr done => done ≤ attr.kept ∧ texts slot = copiedText attr done
  | .cleaning slot attr done => done ≤ attr.kept ∧ texts slot = cleanedText attr done
  | .postingText slot attr => texts slot = wantedText attr
  | _ => True

/-- How far the owner task has come with a text. -/
def Shows (texts : Fin SPEAKER_TEXT_SLOTS → Text) (status : Status) : Task → Prop
  | .reading id slot done => done ≤ SPEAKER_TEXT_MAX ∧
    ∃ text, textOf status id = some text ∧ ∀ i < done, text[i]? = (texts slot)[i]?
  | _ => True

/-- The invariant of the texts. -/
structure Carried lib (s : System κ) : Prop where
  owned : SlotPool.Owned s.used (holders lib s)
  writes : Writes s.texts s.callback
  shows : Shows s.texts s.owner.speaker.status s.task
  lines : ∃ gone waiting, s.posted = gone ++ waiting ∧ List.Forall₂ Delivered s.taken gone ∧
    List.Forall₂ (Carries s.texts) (linesOf lib s) waiting

end Holding

/-! ## A slot that is written -/

section Writing

variable {κ : Type} {lib : EventQueue κ} {s : System κ} {slot : Fin SPEAKER_TEXT_SLOTS}

theorem line_slot_mem {line : Line} (h : line ∈ linesOf lib s) : line.2 ∈ read lib s := by
  rcases List.mem_append.mp h with htask | hqueue
  · apply List.mem_append_right
    cases htask' : s.task with
    | reading id slot done =>
      rw [htask'] at htask
      obtain rfl := List.mem_singleton.mp htask
      exact List.mem_singleton_self slot
    | starting | waiting | releasing | ticking =>
      rw [htask'] at htask
      cases htask
  · apply List.mem_append_left
    obtain ⟨item, hitem, hline⟩ := List.mem_filterMap.mp hqueue
    refine List.mem_filterMap.mpr ⟨item, hitem, ?_⟩
    cases item with
    | event event => cases hline
    | text id slot length =>
      obtain rfl := Option.some.inj hline
      rfl

/-- A text under way does not feel a write to a slot that is not read. -/
theorem lines_update {waiting : List Attribute} (hnot : slot ∉ read lib s) (text : Text)
    (h : List.Forall₂ (Carries s.texts) (linesOf lib s) waiting) :
    List.Forall₂ (Carries (Function.update s.texts slot text)) (linesOf lib s) waiting := by
  have hother : ∀ line ∈ linesOf lib s, line.2 ≠ slot := by
    rintro line hline rfl
    exact hnot (line_slot_mem hline)
  generalize linesOf lib s = lines at h hother
  induction h with
  | nil => exact .nil
  | cons hcarries hrest ih =>
    obtain ⟨hfirst, hothers⟩ := List.forall_mem_cons.mp hother
    refine .cons ⟨hcarries.1, ?_⟩ (ih hothers)
    rw [Function.update_of_ne hfirst]
    exact hcarries.2

theorem shows_update {status : Status} (hnot : slot ∉ read lib s) (text : Text)
    (h : Shows s.texts status s.task) :
    Shows (Function.update s.texts slot text) status s.task := by
  cases htask : s.task with
  | reading id slot' done =>
    have hne : slot' ≠ slot := by
      rintro rfl
      apply hnot
      simp [read, htask, Task.slot]
    rw [htask] at h
    simp only [Shows, Function.update_of_ne hne]
    exact h
  | starting | waiting | releasing | ticking => trivial

theorem holders_of_slot (hslot : s.callback.slot = some slot) : holders lib s = slot :: read lib s := by
  simp [holders, read, hslot]

theorem holders_of_none (hslot : s.callback.slot = none) : holders lib s = read lib s := by
  simp [holders, read, hslot]

/-- The callback that holds a slot writes it. -/
theorem carried_write (h : Carried lib s) (hslot : s.callback.slot = some slot) (text : Text)
    {callback : Callback} (hkeeps : callback.slot = some slot)
    (hwrites : Writes (Function.update s.texts slot text) callback) :
    Carried lib { s with texts := Function.update s.texts slot text, callback := callback } := by
  have howned := h.owned
  rw [holders_of_slot hslot] at howned
  have hnot : slot ∉ read lib s := (List.nodup_cons.mp howned.nodup).1
  obtain ⟨gone, waiting, hposted, hgone, hwaiting⟩ := h.lines
  refine ⟨?_, hwrites, shows_update hnot text h.shows, gone, waiting, hposted, hgone,
    lines_update hnot text hwaiting⟩
  rw [holders_of_slot hkeeps]
  exact howned

/-- A step that leaves the slots, the queue and the owner task alone. -/
theorem carried_callback (h : Carried lib s) {callback : Callback}
    (hkeeps : callback.slot = s.callback.slot) (hwrites : Writes s.texts callback) :
    Carried lib { s with callback := callback } := by
  refine ⟨?_, hwrites, h.shows, h.lines⟩
  have howned := h.owned
  unfold holders at howned ⊢
  rw [hkeeps]
  exact howned

end Writing

/-! ## The steps of the callback -/

section CallbackSteps

variable {κ : Type} {lib : EventQueue κ} {s : System κ}

theorem carried_push (h : Carried lib s) {event : Event} {queue : κ}
    (hsend : lib.send (.event event) s.queue = some queue) :
    Carried lib { s with queue := queue } := by
  have hitems := lib.send_items hsend
  have hread : (lib.items queue).filterMap Item.slot = (lib.items s.queue).filterMap Item.slot := by
    simp [hitems, Item.slot]
  have hlines :
      (lib.items queue).filterMap Item.line = (lib.items s.queue).filterMap Item.line := by
    simp [hitems, Item.line]
  refine ⟨?_, h.writes, h.shows, ?_⟩
  · simp only [holders, hread]
    exact h.owned
  · simp only [linesOf, hlines]
    exact h.lines

theorem carried_post (h : Carried lib s) (event : Event) :
    Carried lib (post lib (.event event) s).1 := by
  rcases post_cases lib (.event event) s with ⟨queue, hsend, hpost⟩ | hpost
  · rw [hpost]
    exact carried_push h hsend
  · rw [hpost]
    exact ⟨h.owned, h.writes, h.shows, h.lines⟩

theorem carried_acquire (h : Carried lib s) (hidle : s.callback = .idle) (attr : Attribute)
    {slot : Fin SPEAKER_TEXT_SLOTS} (hfree : SlotPool.firstFree s.used = some slot) :
    Carried lib { s with
      used := SlotPool.take s.used slot
      texts := Function.update s.texts slot (.replicate _ 0)
      callback := .copying slot attr 0 } := by
  have hnone : s.callback.slot = none := by
    rw [hidle]
    rfl
  have howned := h.owned
  rw [holders_of_none hnone] at howned
  have hnot : slot ∉ read lib s := howned.not_mem hfree
  obtain ⟨gone, waiting, hposted, hgone, hwaiting⟩ := h.lines
  refine ⟨howned.take hfree, ⟨Nat.zero_le _, ?_⟩, shows_update hnot _ h.shows, gone, waiting,
    hposted, hgone, lines_update hnot _ hwaiting⟩
  dsimp only
  rw [Function.update_self, copiedText_zero]

theorem carried_startCallback (h : Carried lib s) (hidle : s.callback = .idle) (notice : Notice) :
    Carried lib (startCallback notice s) := by
  unfold startCallback
  split
  · exact ⟨h.owned, h.writes, h.shows, h.lines⟩
  · exact ⟨h.owned, h.writes, h.shows, h.lines⟩
  · rename_i attr
    unfold textAcquire
    cases hfree : SlotPool.firstFree s.used with
    | none => exact h
    | some slot => exact carried_acquire h hidle attr hfree
  · apply carried_callback h
    · rw [hidle]
      rfl
    · trivial

/-- The text goes to the queue, and its slot with it. -/
theorem carried_postText (h : Carried lib s) {slot : Fin SPEAKER_TEXT_SLOTS} {attr : Attribute}
    (hcallback : s.callback = .postingText slot attr) {queue : κ}
    (hsend : lib.send (.text attr.id slot attr.kept) s.queue = some queue) :
    Carried lib { s with queue := queue, callback := .idle, posted := s.posted ++ [attr] } := by
  have hitems := lib.send_items hsend
  have hslot : s.callback.slot = some slot := by
    rw [hcallback]
    rfl
  have htext : s.texts slot = wantedText attr := by
    have hwrites := h.writes
    rw [hcallback] at hwrites
    exact hwrites
  obtain ⟨gone, waiting, hposted, hgone, hwaiting⟩ := h.lines
  refine ⟨?_, trivial, h.shows, gone, waiting ++ [attr], ?_, hgone, ?_⟩
  · have howned := h.owned
    rw [holders_of_slot hslot] at howned
    apply howned.perm
    simp only [holders, read, hitems, List.filterMap_append, Callback.slot, Option.toList_none,
      List.nil_append, List.append_assoc]
    exact (List.perm_middle).symm
  · simp only [hposted, List.append_assoc]
  · simp only [linesOf, hitems, List.filterMap_append]
    rw [← List.append_assoc]
    exact List.rel_append hwaiting (.cons ⟨rfl, htext⟩ .nil)

/-- The callback gives its slot back. -/
theorem carried_release (h : Carried lib s) {slot : Fin SPEAKER_TEXT_SLOTS}
    (hcallback : s.callback = .releasing slot) :
    Carried lib { textRelease slot s with callback := .idle } := by
  have hslot : s.callback.slot = some slot := by
    rw [hcallback]
    rfl
  have howned := h.owned
  rw [holders_of_slot hslot] at howned
  exact ⟨howned.give, trivial, h.shows, h.lines⟩

/-- Each step of a callback keeps the invariant. -/
theorem carried_callbackStep (h : Carried lib s) : Carried lib (callbackStep lib s) := by
  have hwrites := h.writes
  unfold callbackStep
  split
  · exact h
  · rename_i hcallback
    exact carried_callback h (by rw [hcallback]; rfl) trivial
  · rename_i event events hcallback
    refine carried_callback (carried_post h event) ?_ trivial
    have hsame : (post lib (.event event) s).1.callback = s.callback := by
      rcases post_cases lib (.event event) s with ⟨queue, -, hpost⟩ | hpost
      · rw [hpost]
      · rw [hpost]
    rw [hsame, hcallback]
    rfl
  · rename_i slot attr done hcallback
    have hslot : s.callback.slot = some slot := by
      rw [hcallback]
      rfl
    rw [hcallback] at hwrites
    obtain ⟨hle, htext⟩ := hwrites
    have hclosed : done = attr.kept ∨ attr.text = none →
        (s.texts slot).setIfInBounds attr.kept 0 = cleanedText attr 0 := by
      intro hend
      rw [← copiedText_closed, htext]
      rcases hend with rfl | hmissing
      · rfl
      · rw [copiedText_missing attr hmissing]
    split
    · rename_i text htextOf
      split
      · rename_i hlt
        refine carried_write h hslot _ rfl ⟨hlt, ?_⟩
        rw [Function.update_self, htext, ← copiedText_succ]
        simp [Attribute.byte, htextOf]
      · refine carried_write h hslot _ rfl ⟨Nat.zero_le _, ?_⟩
        rw [Function.update_self]
        exact hclosed (.inl (by omega))
    · rename_i hmissing
      refine carried_write h hslot _ rfl ⟨Nat.zero_le _, ?_⟩
      rw [Function.update_self]
      exact hclosed (.inr hmissing)
  · rename_i slot attr done hcallback
    have hslot : s.callback.slot = some slot := by
      rw [hcallback]
      rfl
    rw [hcallback] at hwrites
    obtain ⟨hle, htext⟩ := hwrites
    split
    · rename_i hlt
      refine carried_write h hslot _ rfl ⟨hlt, ?_⟩
      rw [Function.update_self, htext]
      exact cleanedText_succ attr hlt
    · obtain rfl : done = attr.kept := by omega
      refine carried_callback h hslot.symm ?_
      exact htext.trans (cleanedText_done attr)
  · rename_i slot attr hcallback
    rcases post_cases lib (.text attr.id slot attr.kept) s with ⟨queue, hsend, hpost⟩ | hpost
    · simp only [hpost, if_true]
      exact carried_postText h hcallback hsend
    · simp only [hpost, Bool.false_eq_true, if_false]
      have hlost : Carried lib { s with overflow := true } := ⟨h.owned, h.writes, h.shows, h.lines⟩
      exact carried_callback hlost (by rw [hcallback]; rfl) trivial
  · rename_i slot hcallback
    exact carried_release h hcallback

end CallbackSteps

/-! ## The steps of the owner task -/

section TaskSteps

variable {κ : Type} {lib : EventQueue κ} {s : System κ}

/-- A step of the owner task outside the case of a text. -/
theorem carried_owner (h : Carried lib s) {owner : Owner} {task : Task} (hslot : s.task.slot = none)
    (hkeeps : task.slot = none) : Carried lib { s with owner := owner, task := task } := by
  have hline : ∀ {task : Task}, task.slot = none → task.line = none := by
    intro task
    cases task <;> simp [Task.slot, Task.line]
  refine ⟨?_, h.writes, ?_, ?_⟩
  · have howned := h.owned
    simp only [holders, hslot, hkeeps] at howned ⊢
    exact howned
  · cases task with
    | reading => cases hkeeps
    | starting | waiting | releasing | ticking => trivial
  · have hlines := h.lines
    simp only [linesOf, hline hslot, hline hkeeps] at hlines ⊢
    exact hlines

theorem carried_receiveEvent (h : Carried lib s) (hwaiting : s.task = .waiting) {event : Event}
    {queue : κ} (hqueue : lib.items s.queue = .event event :: lib.items queue) (owner : Owner) :
    Carried lib { s with owner := owner, queue := queue, task := .ticking } := by
  have howned := h.owned
  have hlines := h.lines
  simp only [holders, linesOf, hqueue, hwaiting, List.filterMap_cons, Item.slot, Item.line]
    at howned hlines
  exact ⟨howned, h.writes, trivial, hlines⟩

/-- The owner task takes a text from the queue to read it. -/
theorem carried_receiveText (h : Carried lib s) (hwaiting : s.task = .waiting) {id : MdAttr}
    {slot : Fin SPEAKER_TEXT_SLOTS} {length : Nat} {queue : κ}
    (hqueue : lib.items s.queue = .text id slot length :: lib.items queue)
    (hshown : (textOf s.owner.speaker.status id).isSome) :
    Carried lib { s with queue := queue, task := .reading id slot 0 } := by
  have howned := h.owned
  have hlines := h.lines
  simp only [holders, linesOf, hqueue, hwaiting, List.filterMap_cons, Item.slot, Item.line]
    at howned hlines
  refine ⟨?_, h.writes, ?_, hlines⟩
  · apply howned.perm
    simp only [holders, Task.slot, Option.toList_none, Option.toList_some, List.append_nil]
    exact (List.perm_append_singleton slot _).symm.append_left _
  · obtain ⟨text, htext⟩ := Option.isSome_iff_exists.mp hshown
    refine ⟨Nat.zero_le _, text, htext, ?_⟩
    intro i hi
    exact absurd hi (Nat.not_lt_zero i)

/-- The owner task takes a text from the queue and leaves it. -/
theorem carried_skipText (h : Carried lib s) (hwaiting : s.task = .waiting) {id : MdAttr}
    {slot : Fin SPEAKER_TEXT_SLOTS} {length : Nat} {queue : κ}
    (hqueue : lib.items s.queue = .text id slot length :: lib.items queue) :
    Carried lib { s with
      queue := queue
      task := .releasing slot
      taken := s.taken ++ [(id, none)] } := by
  have howned := h.owned
  obtain ⟨gone, waiting, hposted, hgone, hlines⟩ := h.lines
  simp only [holders, linesOf, hqueue, hwaiting, List.filterMap_cons, Item.slot, Item.line,
    Task.line, Option.toList_none, List.nil_append] at howned hlines
  refine ⟨?_, h.writes, trivial, ?_⟩
  · apply howned.perm
    simp only [holders, Task.slot, Option.toList_none, Option.toList_some, List.append_nil]
    exact (List.perm_append_singleton slot _).symm.append_left _
  · cases hlines with
    | cons hcarries hrest =>
      rename_i attr waiting
      refine ⟨gone ++ [attr], waiting, ?_, ?_, hrest⟩
      · simp [hposted]
      · refine List.rel_append hgone (.cons ⟨hcarries.1, ?_⟩ .nil)
        intro text htext
        cases htext

theorem carried_receive (h : Carried lib s) (hwaiting : s.task = .waiting) (a : Answers) :
    Carried lib (receive lib a s) := by
  unfold receive
  split
  · apply carried_owner h
    · rw [hwaiting]
      rfl
    · rfl
  · rename_i item queue hreceive
    have hqueue := lib.receive_items hreceive
    dsimp only
    split
    · rename_i event
      exact carried_receiveEvent h hwaiting hqueue _
    · split
      · rename_i hlinked
        exact carried_receiveText h hwaiting hqueue hlinked.2
      · exact carried_skipText h hwaiting hqueue

theorem textOf_setTextByte (status : Status) (id : MdAttr) (i : Nat) (b : UInt8) :
    textOf (setTextByte status id i b) id =
      (textOf status id).map fun text => text.setIfInBounds i b := by
  cases id <;> rfl

/-- A byte of a text is copied to the status. -/
theorem carried_copy (h : Carried lib s) {id : MdAttr} {slot : Fin SPEAKER_TEXT_SLOTS} {done : Nat}
    (htask : s.task = .reading id slot done) (hlt : done < SPEAKER_TEXT_MAX) :
    Carried lib { s with
      owner.speaker.status :=
        setTextByte s.owner.speaker.status id done ((s.texts slot)[done]?.getD 0)
      task := .reading id slot (done + 1) } := by
  have howned := h.owned
  have hlines := h.lines
  have hshows := h.shows
  simp only [holders, linesOf, htask] at howned hlines hshows
  obtain ⟨-, text, htext, hsame⟩ := hshows
  refine ⟨howned, h.writes, ⟨hlt, text.setIfInBounds done ((s.texts slot)[done]?.getD 0), ?_, ?_⟩,
    hlines⟩
  · rw [textOf_setTextByte, htext]
    rfl
  · intro i hi
    rw [Vector.getElem?_setIfInBounds]
    split
    · rename_i heq
      subst heq
      dsimp only
      rw [Vector.getElem?_eq_getElem hlt]
      rfl
    · exact hsame i (by omega)

/-- A text that is copied to its end is the text that was wanted. -/
theorem carried_shown (h : Carried lib s) {id : MdAttr} {slot : Fin SPEAKER_TEXT_SLOTS} {done : Nat}
    (htask : s.task = .reading id slot done) (hend : ¬done < SPEAKER_TEXT_MAX) :
    Carried lib { s with
      task := .releasing slot
      taken := s.taken ++ [(id, textOf s.owner.speaker.status id)] } := by
  have howned := h.owned
  have hshows := h.shows
  obtain ⟨gone, waiting, hposted, hgone, hlines⟩ := h.lines
  simp only [holders, linesOf, htask, Task.line, Option.toList_some, List.singleton_append]
    at howned hlines hshows
  obtain ⟨-, text, htext, hsame⟩ := hshows
  refine ⟨howned, h.writes, trivial, ?_⟩
  cases hlines with
  | cons hcarries hrest =>
    rename_i attr waiting
    refine ⟨gone ++ [attr], waiting, ?_, ?_, hrest⟩
    · simp [hposted]
    · refine List.rel_append hgone (.cons ⟨hcarries.1, ?_⟩ .nil)
      intro shown hshown
      have hwhole : text = s.texts slot := by
        apply Vector.ext
        intro i hi
        have hbyte := hsame i (by omega)
        rw [Vector.getElem?_eq_getElem hi, Vector.getElem?_eq_getElem hi] at hbyte
        exact Option.some.inj hbyte
      rw [← hcarries.2, ← hwhole]
      exact (Option.some.inj (htext.symm.trans hshown)).symm

theorem carried_taskStep (h : Carried lib s) : Carried lib (taskStep s) := by
  unfold taskStep
  split
  · rename_i id slot done htask
    split
    · rename_i hlt
      exact carried_copy h htask hlt
    · rename_i hend
      exact carried_shown h htask hend
  · rename_i slot htask
    have howned := h.owned
    have hlines := h.lines
    simp only [holders, linesOf, htask] at howned hlines
    refine ⟨?_, h.writes, trivial, hlines⟩
    have hfirst : SlotPool.Owned s.used (slot :: (s.callback.slot.toList ++
        ((lib.items s.queue).filterMap Item.slot ++ []))) := by
      apply howned.perm
      rw [← List.append_assoc, ← List.append_assoc, List.append_nil]
      exact List.perm_append_singleton slot _
    exact hfirst.give
  · exact h

end TaskSteps

/-! ## The law -/

section Law

variable {κ : Type} (lib : EventQueue κ)

theorem carried_systemStep (s : System κ) (action : Action) (h : Carried lib s) :
    Carried lib (systemStep lib s action) := by
  cases action with
  | notice notice =>
    simp only [systemStep]
    split
    · rename_i hidle
      exact carried_startCallback h hidle notice
    · exact h
  | callback => exact carried_callbackStep h
  | command command value =>
    simp only [systemStep, speakerCommand]
    split
    · exact h
    · cases hsend : lib.send (.event (.command command value)) s.queue with
      | some queue => exact carried_push h hsend
      | none => exact h
  | start list =>
    simp only [systemStep]
    split
    · rename_i hstarting
      apply carried_owner h
      · rw [hstarting]
        rfl
      · rfl
    · exact h
  | receive answers =>
    simp only [systemStep]
    split
    · rename_i hwaiting
      exact carried_receive h hwaiting answers
    · exact h
  | task => exact carried_taskStep h
  | tick answers =>
    simp only [systemStep]
    split
    · rename_i hticking
      have hquiet : Carried lib { s with overflow := false } :=
        ⟨h.owned, h.writes, h.shows, h.lines⟩
      apply carried_owner hquiet
      · change s.task.slot = none
        rw [hticking]
        rfl
      · rfl
    · exact h

theorem carried_run (stored : Option Peer) (opened getOk : Bool) (actions : List Action) :
    Carried lib (systemRun lib (systemStart lib stored opened getOk) actions) := by
  apply systemRun_law lib stored opened getOk _ (carried_systemStep lib)
  have hnone : lib.items (systemStart lib stored opened getOk).queue = [] := lib.created_items
  refine ⟨?_, trivial, trivial, [], [], rfl, .nil, ?_⟩
  · simp only [holders, hnone]
    exact SlotPool.owned_empty
  · simp only [linesOf, hnone]
    exact .nil

/-- In every run the owner task takes the texts that went into the queue, in their order and none
twice. What it shows of one is all that the peer has sent of it, made clean. A slot is in use as
long as it has an owner, and it has one at most. -/
theorem texts_delivered (stored : Option Peer) (opened getOk : Bool) (actions : List Action) :
    let s := systemRun lib (systemStart lib stored opened getOk) actions
    List.Forall₂ Delivered s.taken (s.posted.take s.taken.length) ∧
      s.posted.length = s.taken.length + (linesOf lib s).length ∧
      (holders lib s).Nodup ∧ ∀ slot : Fin SPEAKER_TEXT_SLOTS,
        (s.used.getLsbD slot.val = true ↔ slot ∈ holders lib s) := by
  intro s
  obtain ⟨howned, -, -, gone, waiting, hposted, hgone, hwaiting⟩ :=
    carried_run lib stored opened getOk actions
  refine ⟨?_, ?_, howned.nodup, howned.bits⟩
  · have htake : s.posted.take s.taken.length = gone := by
      rw [hgone.length_eq]
      rw [show s.posted = _ from hposted]
      exact List.take_left
    rw [htake]
    exact hgone
  · rw [hgone.length_eq, hwaiting.length_eq]
    rw [show s.posted = _ from hposted]
    exact List.length_append

end Law

end EmbeddedAudio.Speaker
