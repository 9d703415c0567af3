-- Two runs that go in step: one of a program, and one of a program that says what the
-- first is for. They end alike, and the first ends in no way that the second does not know.

namespace EmbeddedAudio.Lockstep

variable {ε ε' α α' β β' γ : Type}

/-- Both give results that `R` relates, or both fail, the first with the error of the second. -/
inductive InStep (raise : ε' → ε) (R : α → β → Prop) : Except ε α → Except ε' β → Prop
  | ok {a : α} {b : β} : R a b → InStep raise R (.ok a) (.ok b)
  | error (e : ε') : InStep raise R (.error (raise e)) (.error e)

namespace InStep

variable {raise : ε' → ε} {R : α → β → Prop} {R' : α' → β' → Prop} {r : Except ε α}
  {r' : Except ε' β}

/-- What is done behind them may count on the result of the second. -/
theorem bind_eq {k : α → Except ε α'} {k' : β → Except ε' β'} (h : InStep raise R r r')
    (hk : ∀ a b, r' = .ok b → R a b → InStep raise R' (k a) (k' b)) :
    InStep raise R' (r >>= k) (r' >>= k') := by
  cases h with
  | ok hab => exact hk _ _ rfl hab
  | error e => exact .error e

theorem bind {k : α → Except ε α'} {k' : β → Except ε' β'} (h : InStep raise R r r')
    (hk : ∀ a b, R a b → InStep raise R' (k a) (k' b)) : InStep raise R' (r >>= k) (r' >>= k') :=
  h.bind_eq fun a b _ hab => hk a b hab

/-- The first goes on behind a result, and the second takes it as it is. -/
theorem bind_ok {b : β} {k : α → Except ε α'} {s : Except ε' β'} (h : InStep raise R r (.ok b))
    (hk : ∀ a, R a b → InStep raise R' (k a) s) : InStep raise R' (r >>= k) s := by
  cases h with
  | ok hab => exact hk _ hab

theorem map_eq {f : α → α'} {f' : β → β'} (h : InStep raise R r r')
    (hf : ∀ a b, r' = .ok b → R a b → R' (f a) (f' b)) :
    InStep raise R' (r.map f) (r'.map f') := by
  cases h with
  | ok hab => exact .ok (hf _ _ rfl hab)
  | error e => exact .error e

theorem map {f : α → α'} {f' : β → β'} (h : InStep raise R r r')
    (hf : ∀ a b, R a b → R' (f a) (f' b)) : InStep raise R' (r.map f) (r'.map f') :=
  h.map_eq fun a b _ hab => hf a b hab

theorem mono {S : α → β → Prop} (h : InStep raise R r r') (hS : ∀ a b, R a b → S a b) :
    InStep raise S r r' := by
  cases h with
  | ok hab => exact .ok (hS _ _ hab)
  | error e => exact .error e

/-- Both take the same branch. -/
theorem ite {p : Prop} [Decidable p] {q : Except ε α} {q' : Except ε' β}
    (h : p → InStep raise R r r') (h' : ¬p → InStep raise R q q') :
    InStep raise R (if p then r else q) (if p then r' else q') := by
  by_cases hp : p
  · rw [if_pos hp, if_pos hp]
    exact h hp
  · rw [if_neg hp, if_neg hp]
    exact h' hp

/-- A result of the first is one of the second. -/
theorem result {a : α} (h : InStep raise R (.ok a) r') : ∃ b, r' = .ok b ∧ R a b := by
  cases h with
  | ok hab => exact ⟨_, rfl, hab⟩

/-- A result of the second is one of the first. -/
theorem given {b : β} (h : InStep raise R r (.ok b)) : ∃ a, r = .ok a ∧ R a b := by
  cases h with
  | ok hab => exact ⟨_, rfl, hab⟩

/-- Where the second fails, the first does. -/
theorem failed {e : ε'} (h : InStep raise R r (.error e)) : r = .error (raise e) := by
  cases h with
  | error e => rfl

/-- The first fails in no way of its own. -/
theorem errors {e : ε} (h : InStep raise R r r') (hr : r = .error e) : ∃ e', e = raise e' := by
  cases h with
  | ok hab => cases hr
  | error e' => exact ⟨e', (Except.error.inj hr).symm⟩

end InStep

end EmbeddedAudio.Lockstep
