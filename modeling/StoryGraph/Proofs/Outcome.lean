/-!
# What a computation that may fail comes to

A computation of two steps succeeds if both do, and fails with the error of the first step that fails.
-/

namespace StoryGraph

variable {ε α β : Type} {x : Except ε α} {f : α → Except ε β}

theorem bind_eq_ok {b : β} : (x >>= f) = .ok b ↔ ∃ a, x = .ok a ∧ f a = .ok b := by
  cases x <;> simp [bind, Except.bind]

theorem bind_eq_error {e : ε} :
    (x >>= f) = .error e ↔ x = .error e ∨ ∃ a, x = .ok a ∧ f a = .error e := by
  cases x <;> simp [bind, Except.bind]

theorem map_eq_ok {g : α → β} {b : β} : x.map g = .ok b ↔ ∃ a, x = .ok a ∧ g a = b := by
  cases x <;> simp [Except.map]

theorem map_eq_error {g : α → β} {e : ε} : x.map g = .error e ↔ x = .error e := by
  cases x <;> simp [Except.map]

@[simp] theorem throw_eq_error (e : ε) : (throw e : Except ε α) = .error e := rfl

@[simp] theorem error_bind (e : ε) (f : α → Except ε β) : (Except.error e >>= f) = .error e := rfl

/-- What goes on behind a check has passed it. -/
theorem of_check {c : Prop} [Decidable c] {γ : Type} {e : ε} {g : γ → Except ε β} {y : Except ε β} {b : β}
    (h : (if c then throw e >>= g else y) = .ok b) : ¬ c ∧ y = .ok b := by
  split at h
  · cases h
  · exact ⟨‹_›, h⟩

/-- A computation that may fail and changes a state goes on only where it has not failed. -/
theorem run_bind {σ : Type} (x : ExceptT ε (StateM σ) α) (f : α → ExceptT ε (StateM σ) β) (s : σ) :
    (x >>= f).run.run s = match x.run.run s with
      | (.ok a, s') => (f a).run.run s'
      | (.error e, s') => (.error e, s') := by
  rw [ExceptT.run_bind, StateT.run_bind]
  rcases x.run.run s with ⟨_ | _, _⟩ <;> rfl

/-- Along with what it comes to, a computation leaves a state behind. -/
theorem exists_of_fst_eq {σ : Type} {result : α × σ} {a : α} (h : result.1 = a) : ∃ s, result = (a, s) :=
  ⟨result.2, Prod.ext h rfl⟩

end StoryGraph
