-- A program that is known only by the reads it makes. What is given to a read decides how it
-- goes on. Nothing here is about audio.
import Mathlib.Tactic.Common

namespace EmbeddedAudio.Reads

variable {α β σ : Type*}

/-- A program that ends with an `α` and reads some `β` on its way, as many as it asks for or
fewer. -/
inductive Program (β : Type*) (α : Type*) where
  | done (a : α)
  | read (length : Nat) (next : List β → Program β α)

/-- The run of a program on a reader. It has no result where a read has none. -/
def Program.run (reader : σ → Nat → Option (List β × σ)) : Program β α → σ → Option (α × σ)
  | .done a, s => some (a, s)
  | .read length next, s => (reader s length).bind fun r => (next r.1).run reader r.2

/-- All that a program can end with, whatever it is given, has the property. -/
def Program.All (P : α → Prop) : Program β α → Prop
  | .done a => P a
  | .read _ next => ∀ given, (next given).All P

theorem Program.all_true (p : Program β α) : p.All fun _ => True := by
  induction p with
  | done a => trivial
  | read length next ih => exact ih

/-- A reader that always answers, and keeps an invariant. -/
def Serves (reader : σ → Nat → Option (List β × σ)) (I : σ → Prop) : Prop :=
  ∀ s length, I s → ∃ given s', reader s length = some (given, s') ∧ I s'

/-- A run on such a reader ends, and keeps the invariant. -/
theorem Program.run_serves {reader : σ → Nat → Option (List β × σ)} {I : σ → Prop} {P : α → Prop}
    (hreader : Serves reader I) (p : Program β α) {s : σ} (hs : I s) (hp : p.All P) :
    ∃ a s', p.run reader s = some (a, s') ∧ I s' ∧ P a := by
  induction p generalizing s with
  | done a => exact ⟨a, s, rfl, hs, hp⟩
  | read length next ih =>
    obtain ⟨given, s', hread, hs'⟩ := hreader s length hs
    obtain ⟨a, s'', hrun, hs'', ha⟩ := ih given hs' (hp given)
    refine ⟨a, s'', ?_, hs'', ha⟩
    rw [Program.run, hread]
    exact hrun

end EmbeddedAudio.Reads
