/-!
# Computations that may fail

How a sequence of two computations ends: with the answer of the second after an answer of the
first, or with the error of either. Later modules take a computation apart with these lemmas and
never unfold its `do` block.
-/

namespace Chronicle.Outcome

variable {ε α β : Type}

instance decidableEq [DecidableEq ε] [DecidableEq α] : DecidableEq (Except ε α)
  | .error d, .error e => decidable_of_iff (d = e) (by simp)
  | .ok a, .ok b => decidable_of_iff (a = b) (by simp)
  | .error _, .ok _ => isFalse (by simp)
  | .ok _, .error _ => isFalse (by simp)

@[simp] theorem pure_eq (a : α) : (pure a : Except ε α) = .ok a := rfl

@[simp] theorem ok_bind (a : α) (f : α → Except ε β) : (Except.ok a >>= f) = f a := rfl

@[simp] theorem error_bind (e : ε) (f : α → Except ε β) : (Except.error e >>= f) = .error e := rfl

/-- Two computations in a row answer when both do. -/
theorem bind_eq_ok {x : Except ε α} {f : α → Except ε β} {b : β} :
    (x >>= f) = .ok b ↔ ∃ a, x = .ok a ∧ f a = .ok b := by
  cases x with
  | error e => simp
  | ok a => simp

/-- Two computations in a row fail with the error of the one that fails. -/
theorem bind_eq_error {x : Except ε α} {f : α → Except ε β} {e : ε} :
    (x >>= f) = .error e ↔ x = .error e ∨ ∃ a, x = .ok a ∧ f a = .error e := by
  cases x with
  | error e' => simp
  | ok a => simp

/-! ## Properties of answers -/

/-- Whatever a computation answers has a property; nothing is said where it fails. -/
def Yields (P : α → Prop) (x : Except ε α) : Prop := ∀ a, x = .ok a → P a

variable {P : α → Prop} {Q : β → Prop}

instance Yields.decidable [DecidablePred P] : (x : Except ε α) → Decidable (Yields P x)
  | .ok a => decidable_of_iff (P a) (by simp [Yields])
  | .error _ => isTrue (by simp [Yields])

theorem Yields.ok {a : α} (h : P a) : Yields P (.ok a : Except ε α) := by
  intro b hb
  cases hb
  exact h

theorem Yields.error {e : ε} : Yields P (.error e : Except ε α) := by
  intro b hb
  cases hb

/-- What the first computation answers is all that the second one has to go on. -/
theorem Yields.bind {x : Except ε α} {f : α → Except ε β} (hx : Yields P x)
    (hf : ∀ a, P a → Yields Q (f a)) : Yields Q (x >>= f) := by
  intro b hb
  obtain ⟨a, ha, hb⟩ := bind_eq_ok.mp hb
  exact hf a (hx a ha) b hb

theorem Yields.mapError {ε' : Type} {x : Except ε α} (hx : Yields P x) (f : ε → ε') :
    Yields P (x.mapError f) := by
  intro a ha
  cases x with
  | error e => cases ha
  | ok b =>
    cases ha
    exact hx _ rfl

end Chronicle.Outcome
