import Mathlib.Init

/-!
# Fallible computations

Small vocabulary for code that can stop on a failed assertion: `check p e` is an assertion of `p`
reported as the fault `e`, and `bind_eq_ok` is the one inversion lemma the proofs peel `do` blocks
apart with. `FailsWith P` says which faults a computation can stop on, with one rule for each way to
build it.
-/

namespace Fallible

variable {ε α β : Type}

/-- An assertion: continue when `p` holds, stop with the fault `e` otherwise. -/
def check (p : Prop) [Decidable p] (e : ε) : Except ε Unit :=
  if p then .ok () else .error e

@[simp] theorem check_of_pos {p : Prop} [Decidable p] {e : ε} (h : p) : check p e = .ok () :=
  if_pos h

@[simp] theorem check_of_neg {p : Prop} [Decidable p] {e : ε} (h : ¬ p) :
    check p e = .error e :=
  if_neg h

@[simp] theorem check_eq_ok {p : Prop} [Decidable p] {e : ε} {u : Unit} :
    check p e = .ok u ↔ p := by
  by_cases h : p <;> simp [h]

@[simp] theorem ok_bind (a : α) (f : α → Except ε β) : (Except.ok a >>= f) = f a := rfl

@[simp] theorem error_bind (e : ε) (f : α → Except ε β) :
    ((Except.error e : Except ε α) >>= f) = .error e := rfl

@[simp] theorem bind_ok (x : Except ε α) : (x >>= Except.ok) = x := by
  cases x <;> rfl

@[simp] theorem pure_eq_ok (a : α) : (pure a : Except ε α) = .ok a := rfl

/-- Peel one `←` off a `do` block that succeeded. -/
theorem bind_eq_ok {x : Except ε α} {f : α → Except ε β} {b : β} :
    (x >>= f) = .ok b ↔ ∃ a, x = .ok a ∧ f a = .ok b := by
  cases x with
  | error e => simp
  | ok a => simp

/-- Renaming faults keeps successes. -/
theorem mapError_eq_ok {ε' : Type*} {x : Except ε α} {f : ε → ε'} {a : α} :
    x.mapError f = .ok a ↔ x = .ok a := by
  cases x with
  | error e => constructor <;> intro h <;> cases h
  | ok a' =>
      constructor <;>
      · intro h
        cases h
        rfl

/-- The fault of a computation, if it stopped. -/
def faultOf : Except ε α → Option ε
  | .ok _ => none
  | .error e => some e

theorem faultOf_eq_some {x : Except ε α} {e : ε} : faultOf x = some e ↔ x = .error e := by
  cases x with
  | ok a => simp [faultOf]
  | error e' => simp [faultOf]

/-- Every fault of the computation satisfies `P`. -/
def FailsWith (P : ε → Prop) (x : Except ε α) : Prop := ∀ e, x = .error e → P e

variable {P : ε → Prop}

theorem failsWith_pure (a : α) : FailsWith P (pure a) := fun _ h => by cases h

theorem failsWith_throw {e : ε} (he : P e) : FailsWith P (throw e : Except ε α) := by
  intro e' h
  cases h
  exact he

theorem failsWith_check {p : Prop} [Decidable p] {e : ε} (he : P e) : FailsWith P (check p e) := by
  intro e' h
  unfold check at h
  split at h
  · cases h
  · cases h
    exact he

theorem failsWith_check_of_neg {p : Prop} [Decidable p] {e : ε} (he : ¬ p → P e) :
    FailsWith P (check p e) := by
  by_cases h : p
  · exact fun e' he' => by simp [h] at he'
  · exact failsWith_check (he h)

theorem FailsWith.bind {x : Except ε α} {f : α → Except ε β} (hx : FailsWith P x)
    (hf : ∀ a, x = .ok a → FailsWith P (f a)) : FailsWith P (x >>= f) := by
  intro e h
  cases x with
  | error e' =>
      cases h
      exact hx e rfl
  | ok a => exact hf a rfl e h

/-- Renaming faults. -/
theorem FailsWith.mapError {ε' : Type} {x : Except ε' α} {f : ε' → ε}
    (h : FailsWith (fun e => P (f e)) x) : FailsWith P (x.mapError f) := by
  intro e he
  cases x with
  | ok a => cases he
  | error e' =>
      cases he
      exact h e' rfl

end Fallible
