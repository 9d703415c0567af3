-- Laws of a log: what holds of each entry against the entries before it.
-- Nothing here is about audio.
import Mathlib.Data.List.Basic
import Mathlib.Data.List.Induction

namespace EmbeddedAudio.Log

variable {α : Type*} {law : List α → α → Prop} {log more : List α} {e : α}

/-- Each entry keeps the law against what stands before it. -/
def Throughout (law : List α → α → Prop) (log : List α) : Prop :=
  ∀ before e after, log = before ++ e :: after → law before e

theorem throughout_nil : Throughout law [] := by
  intro before e after h
  cases before <;> cases h

theorem throughout_snoc (h : Throughout law log) (he : law log e) :
    Throughout law (log ++ [e]) := by
  intro before e' after hsplit
  rcases List.eq_nil_or_concat' after with rfl | ⟨after, last, rfl⟩
  · obtain ⟨rfl, hlast⟩ := List.append_inj' hsplit rfl
    obtain rfl := List.singleton_inj.mp hlast
    exact he
  · rw [← List.cons_append, ← List.append_assoc] at hsplit
    exact h before e' after (List.append_inj' hsplit rfl).1

theorem Throughout.shorter (h : Throughout law (log ++ more)) : Throughout law log := by
  intro before e after hsplit
  apply h before e (after ++ more)
  rw [hsplit, List.append_assoc, List.cons_append]

theorem Throughout.last (h : Throughout law (log ++ [e])) : law log e :=
  h log e [] rfl

/-- Entries that come one after the other. -/
theorem throughout_append (h : Throughout law log)
    (hmore : Throughout (fun before e => law (log ++ before) e) more) :
    Throughout law (log ++ more) := by
  induction more using List.reverseRecOn with
  | nil =>
    rw [List.append_nil]
    exact h
  | append_singleton more e ih =>
    rw [← List.append_assoc]
    exact throughout_snoc (ih hmore.shorter) hmore.last

theorem Throughout.mono {law' : List α → α → Prop} (h : Throughout law log)
    (himp : ∀ before e, law before e → law' before e) : Throughout law' log := by
  intro before e after hsplit
  exact himp before e (h before e after hsplit)

end EmbeddedAudio.Log
