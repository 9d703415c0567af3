-- A pool of slots with a bit for each slot that is in use, and the list of those who hold
-- one. Nothing here is about audio.
import Mathlib.Data.List.Nodup
import Mathlib.Data.List.Perm.Basic

namespace EmbeddedAudio.SlotPool

variable {w : Nat} {used : BitVec w} {held : List (Fin w)} {slot : Fin w}

/-- The first slot whose bit is clear. -/
def firstFree (used : BitVec w) : Option (Fin w) :=
  (List.finRange w).find? fun slot => !used.getLsbD slot.val

/-- The slot's bit is set. -/
def take (used : BitVec w) (slot : Fin w) : BitVec w := used ||| BitVec.twoPow w slot.val

/-- The slot's bit is cleared. -/
def give (used : BitVec w) (slot : Fin w) : BitVec w := used &&& ~~~BitVec.twoPow w slot.val

theorem getLsbD_take (used : BitVec w) (slot other : Fin w) :
    (take used slot).getLsbD other.val = (used.getLsbD other.val || decide (other = slot)) := by
  have hlt := slot.isLt
  simp [take, Fin.ext_iff, eq_comm]

theorem getLsbD_give (used : BitVec w) (slot other : Fin w) :
    (give used slot).getLsbD other.val = (used.getLsbD other.val && decide (other ≠ slot)) := by
  have hlt := slot.isLt
  have hother := other.isLt
  simp [give, Fin.ext_iff, eq_comm]

/-- Each slot has one holder at most, and the bits tell which slots have one. -/
structure Owned (used : BitVec w) (held : List (Fin w)) : Prop where
  nodup : held.Nodup
  bits : ∀ slot : Fin w, used.getLsbD slot.val = true ↔ slot ∈ held

theorem owned_empty : Owned (0 : BitVec w) [] := by
  refine ⟨List.nodup_nil, ?_⟩
  intro slot
  simp

/-- A slot may go from one holder to another. -/
theorem Owned.perm {held' : List (Fin w)} (h : Owned used held) (hperm : held.Perm held') :
    Owned used held' := by
  refine ⟨hperm.nodup_iff.mp h.nodup, ?_⟩
  intro slot
  rw [h.bits]
  exact hperm.mem_iff

/-- A slot that is free has no holder. -/
theorem Owned.not_mem (h : Owned used held) (hfree : firstFree used = some slot) :
    slot ∉ held := by
  have hclear := List.find?_some hfree
  rw [← h.bits]
  simpa using hclear

theorem Owned.take (h : Owned used held) (hfree : firstFree used = some slot) :
    Owned (take used slot) (slot :: held) := by
  refine ⟨List.nodup_cons.mpr ⟨h.not_mem hfree, h.nodup⟩, ?_⟩
  intro other
  rw [getLsbD_take, Bool.or_eq_true, h.bits, decide_eq_true_iff, List.mem_cons]
  exact or_comm

theorem Owned.give (h : Owned used (slot :: held)) : Owned (give used slot) held := by
  obtain ⟨hnot, hnodup⟩ := List.nodup_cons.mp h.nodup
  refine ⟨hnodup, ?_⟩
  intro other
  rw [getLsbD_give, Bool.and_eq_true, h.bits, decide_eq_true_iff, List.mem_cons]
  constructor
  · rintro ⟨hsame | hmem, hne⟩
    · exact absurd hsame hne
    · exact hmem
  · intro hmem
    refine ⟨.inr hmem, ?_⟩
    rintro rfl
    exact hnot hmem

end EmbeddedAudio.SlotPool
