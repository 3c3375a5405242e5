import MiniMuduo.Lib.StepSystem

/-!
# Refinement of a function by a step system

The abstract side is a function on abstract states, total and without faults. A step system refines it
through a relation when every enabled action succeeds and lands in the state the function says. What
one step gives, a whole run gives: a sequence of actions that are enabled where they are taken runs
to its end, and ends where the function ends.
-/

namespace StepSystem

variable {σ τ α ε : Type}

/-- The effect of a sequence of actions. -/
def run (M : StepSystem σ α ε) (s : σ) (as : List α) : Except ε σ := as.foldlM M.exec s

/-- Each action of the sequence is enabled in the state in which it is taken. -/
def Legal (M : StepSystem σ α ε) : σ → List α → Prop
  | _, [] => True
  | s, a :: as => M.enabled s a ∧ ∀ s', M.exec s a = .ok s' → M.Legal s' as

instance decidableLegal (M : StepSystem σ α ε) [∀ s a, Decidable (M.enabled s a)] :
    (s : σ) → (as : List α) → Decidable (M.Legal s as)
  | _, [] => inferInstanceAs (Decidable True)
  | s, a :: as =>
      match h : M.exec s a with
      | .ok s' =>
          have := decidableLegal M s' as
          decidable_of_iff (M.enabled s a ∧ M.Legal s' as) (by simp [Legal, h])
      | .error _ => decidable_of_iff (M.enabled s a) (by simp [Legal, h])

/-- `M` refines the function `f` on abstract states through `R`. -/
def Refines (M : StepSystem σ α ε) (R : σ → τ → Prop) (f : τ → α → τ) : Prop :=
  ∀ s t a, R s t → M.enabled s a → ∃ s', M.exec s a = .ok s' ∧ R s' (f t a)

theorem Refines.run {M : StepSystem σ α ε} {R : σ → τ → Prop} {f : τ → α → τ} (h : M.Refines R f)
    {s : σ} {t : τ} {as : List α} (hR : R s t) (hlegal : M.Legal s as) :
    ∃ s', M.run s as = .ok s' ∧ R s' (as.foldl f t) := by
  induction as generalizing s t with
  | nil => exact ⟨s, rfl, hR⟩
  | cons a as ih =>
      obtain ⟨hen, hrest⟩ := hlegal
      obtain ⟨s₁, hs₁, hR₁⟩ := h s t a hR hen
      obtain ⟨s', hs', hR'⟩ := ih hR₁ (hrest s₁ hs₁)
      refine ⟨s', ?_, hR'⟩
      unfold StepSystem.run at hs' ⊢
      rw [List.foldlM_cons, hs₁]
      exact hs'

end StepSystem
