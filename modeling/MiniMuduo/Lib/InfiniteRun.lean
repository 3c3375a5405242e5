import Mathlib.Order.WellFounded
import MiniMuduo.Lib.StepSystem

/-!
# What eventually happens

An `InfiniteRun` of a `StepSystem` takes a step or waits at every time, so a run that stops is one that
waits for ever. What is bound to happen in it needs a fairness assumption. `Recurs helpful goal` says
that helpful steps are taken again and again until the goal is reached; under `Fair helpful` they are
not put off for ever where they can be taken. If they lower a well-founded rank that nothing raises,
the goal is reached (`eventually`, `eventually_of_fair`).
-/

namespace StepSystem

variable {σ α ε : Type} (M : StepSystem σ α ε)

structure InfiniteRun where
  state : ℕ → σ
  action : ℕ → Option α
  init : M.init (state 0)
  step : ∀ n a, action n = some a → M.Step (state n) a (state (n + 1))
  wait : ∀ n, action n = none → state (n + 1) = state n

namespace InfiniteRun

variable {M} (run : M.InfiniteRun)

theorem reachable (n : ℕ) : M.Reachable (run.state n) := by
  induction n with
  | zero => exact .init run.init
  | succ n ih =>
      cases ha : run.action n with
      | none => rwa [run.wait n ha]
      | some a => exact ih.step trivial (run.step n a ha)

/-- Helpful steps are taken again and again, until the goal is reached. -/
def Recurs (helpful : α → Prop) (goal : σ → Prop) : Prop :=
  ∀ n, ∃ m, n ≤ m ∧ (goal (run.state m) ∨ ∃ a, run.action m = some a ∧ helpful a)

/-- Weak fairness: if helpful steps can be taken from some time on, one is taken. -/
def Fair (helpful : α → Prop) : Prop :=
  ∀ n, (∀ m, n ≤ m → ∃ a s', helpful a ∧ M.Step (run.state m) a s') →
    ∃ m, n ≤ m ∧ ∃ a, run.action m = some a ∧ helpful a

theorem Recurs.mono {run : M.InfiniteRun} {helpful : α → Prop} {goal goal' : σ → Prop}
    (h : run.Recurs helpful goal) (himp : ∀ s, goal s → goal' s) : run.Recurs helpful goal' := by
  intro n
  obtain ⟨m, hle, hm⟩ := h n
  exact ⟨m, hle, hm.imp_left (himp _)⟩

variable {run} {helpful : α → Prop} {G : σ → Prop} {β : Type} [Preorder β] {I : σ → Prop}
  {r : σ → β} {n : ℕ}

/-- What steps keep until the goal is reached, the run keeps. -/
theorem keeps_until
    (hkeep : ∀ m a, n ≤ m → run.action m = some a → I (run.state m) → ¬ G (run.state m) →
      I (run.state (m + 1)) ∨ G (run.state (m + 1)))
    (hI : I (run.state n)) (k : ℕ) (hno : ∀ m, n ≤ m → m ≤ n + k → ¬ G (run.state m)) :
    I (run.state (n + k)) := by
  induction k with
  | zero => exact hI
  | succ k ih =>
      have hk := ih fun m hle hlt => hno m hle (by omega)
      cases ha : run.action (n + k) with
      | none =>
          rw [← Nat.add_assoc, run.wait _ ha]
          exact hk
      | some a =>
          exact (hkeep _ a (by omega) ha hk (hno _ (by omega) (by omega))).resolve_right
            (hno _ (by omega) (by omega))

theorem keeps
    (hkeep : ∀ m a, n ≤ m → run.action m = some a → I (run.state m) → I (run.state (m + 1)))
    (hI : I (run.state n)) {m : ℕ} (hm : n ≤ m) : I (run.state m) := by
  obtain ⟨k, rfl⟩ := Nat.exists_eq_add_of_le hm
  exact keeps_until (G := fun _ => False) (fun m a hle ha hs _ => .inl (hkeep m a hle ha hs)) hI k
    fun _ _ _ => id

/-- A rank that nothing raises is not higher later on. -/
theorem rank_le
    (hkeep : ∀ m a, n ≤ m → run.action m = some a → I (run.state m) → ¬ G (run.state m) →
      I (run.state (m + 1)) ∧ r (run.state (m + 1)) ≤ r (run.state m) ∨ G (run.state (m + 1)))
    (hI : I (run.state n)) (k : ℕ) (hno : ∀ m, n ≤ m → m ≤ n + k → ¬ G (run.state m)) :
    I (run.state (n + k)) ∧ r (run.state (n + k)) ≤ r (run.state n) := by
  refine keeps_until (I := fun s => I s ∧ r s ≤ r (run.state n)) (fun m a hle ha hs hng => ?_)
    ⟨hI, le_refl _⟩ k hno
  exact (hkeep m a hle ha hs.1 hng).imp_left fun h => ⟨h.1, h.2.trans hs.2⟩

/-- **The progress rule.** Helpful steps lower a well-founded rank and nothing raises it, as long as
the goal is not reached. -/
theorem eventually [WellFoundedLT β] (hfair : run.Recurs helpful G)
    (hkeep : ∀ m a, n ≤ m → run.action m = some a → I (run.state m) → ¬ G (run.state m) →
      I (run.state (m + 1)) ∧ r (run.state (m + 1)) ≤ r (run.state m) ∨ G (run.state (m + 1)))
    (hlower : ∀ m a, n ≤ m → run.action m = some a → helpful a → I (run.state m) →
      ¬ G (run.state m) →
      r (run.state (m + 1)) < r (run.state m) ∨ G (run.state (m + 1)))
    (hI : I (run.state n)) : ∃ m, n ≤ m ∧ G (run.state m) := by
  induction hb : r (run.state n) using WellFoundedLT.induction generalizing n with
  | ind b ih =>
      subst hb
      obtain ⟨m, hle, hm⟩ := hfair n
      obtain ⟨k, rfl⟩ := Nat.exists_eq_add_of_le hle
      by_cases hno : ∀ m, n ≤ m → m ≤ n + k → ¬ G (run.state m)
      · obtain ⟨hIk, hrank⟩ := rank_le hkeep hI k hno
        have hng := hno (n + k) hle (le_refl _)
        obtain ⟨a, ha, hhelp⟩ := hm.resolve_left hng
        rcases hlower _ a hle ha hhelp hIk hng with hlt | hgoal
        · rcases hkeep _ a hle ha hIk hng with ⟨hI', -⟩ | hgoal
          · obtain ⟨m', hle', hgoal⟩ := ih _ (hlt.trans_le hrank)
              (fun m a hm => hkeep m a (by omega)) (fun m a hm => hlower m a (by omega)) hI' rfl
            exact ⟨m', by omega, hgoal⟩
          · exact ⟨n + k + 1, by omega, hgoal⟩
        · exact ⟨n + k + 1, by omega, hgoal⟩
      · simp only [not_forall, not_not] at hno
        obtain ⟨m, hle, -, hgoal⟩ := hno
        exact ⟨m, hle, hgoal⟩

/-- **The progress rule under weak fairness.** Until the goal is reached, helpful steps can be taken. -/
theorem eventually_of_fair [WellFoundedLT β] (hfair : run.Fair helpful)
    (hcan : ∀ m, n ≤ m → I (run.state m) → ¬ G (run.state m) →
      ∃ a s', helpful a ∧ M.Step (run.state m) a s')
    (hkeep : ∀ m a, n ≤ m → run.action m = some a → I (run.state m) → ¬ G (run.state m) →
      I (run.state (m + 1)) ∧ r (run.state (m + 1)) ≤ r (run.state m) ∨ G (run.state (m + 1)))
    (hlower : ∀ m a, n ≤ m → run.action m = some a → helpful a → I (run.state m) →
      ¬ G (run.state m) →
      r (run.state (m + 1)) < r (run.state m) ∨ G (run.state (m + 1)))
    (hI : I (run.state n)) : ∃ m, n ≤ m ∧ G (run.state m) := by
  by_contra hnone
  have hno : ∀ m, n ≤ m → ¬ G (run.state m) := fun m hle hgoal => hnone ⟨m, hle, hgoal⟩
  have hkept : ∀ m, n ≤ m → I (run.state m) := by
    intro m hle
    obtain ⟨k, rfl⟩ := Nat.exists_eq_add_of_le hle
    exact (rank_le hkeep hI k fun m hm _ => hno m hm).1
  refine hnone (eventually (fun m => ?_) hkeep hlower hI)
  obtain ⟨k, hk, hhelp⟩ := hfair (max n m) fun m' hm' =>
    hcan m' (by omega) (hkept m' (by omega)) (hno m' (by omega))
  exact ⟨k, by omega, .inr hhelp⟩

/-! ## The run of a component -/

/-- What a run comes to for a component, whose steps are some of the steps of the whole. -/
def project {σ' α' ε' : Type} {M' : StepSystem σ' α' ε'} (run : M.InfiniteRun) (f : σ → σ')
    (g : σ → α → Option α') (hinit : ∀ s, M.init s → M'.init (f s))
    (hstep : ∀ s a s' b, M.Reachable s → M.Step s a s' → g s a = some b → M'.Step (f s) b (f s'))
    (hstay : ∀ s a s', M.Step s a s' → g s a = none → f s' = f s) : M'.InfiniteRun where
  state n := f (run.state n)
  action n := (run.action n).bind (g (run.state n))
  init := hinit _ run.init
  step n b hb := by
    obtain ⟨a, ha, hab⟩ := Option.bind_eq_some_iff.mp hb
    exact hstep _ a _ b (run.reachable n) (run.step n a ha) hab
  wait n hn := by
    cases ha : run.action n with
    | none => rw [run.wait n ha]
    | some a => exact hstay _ a _ (run.step n a ha) (by rwa [ha] at hn)

/-! ## Runs that stop -/

variable [∀ s a, Decidable (M.enabled s a)]

theorem runFrom?_append {as bs : List α} {s : σ} :
    runFrom? M (fun _ _ => True) s (as ++ bs) =
      (runFrom? M (fun _ _ => True) s as).bind fun s' => runFrom? M (fun _ _ => True) s' bs := by
  induction as generalizing s with
  | nil => rfl
  | cons a as ih =>
      simp only [List.cons_append, runFrom?]
      split
      · cases M.exec s a with
        | ok s' => exact ih
        | error e => rfl
      · rfl

theorem step_of_runFrom?_singleton {a : α} {s s' : σ}
    (h : runFrom? M (fun _ _ => True) s [a] = some s') : M.Step s a s' := by
  simp only [runFrom?] at h
  split at h
  · next hen =>
      split at h
      · next t ht =>
          cases h
          exact ⟨hen.1, ht⟩
      · cases h
  · cases h

/-- The run that takes these steps and then waits for ever. -/
def ofActions (s : σ) (hs : M.init s) (as : List α)
    (h : (runFrom? M (fun _ _ => True) s as).isSome = true) : M.InfiniteRun where
  state n := (runFrom? M (fun _ _ => True) s (as.take n)).getD s
  action n := as[n]?
  init := hs
  step n a ha := by
    obtain ⟨hlt, rfl⟩ := List.getElem?_eq_some_iff.mp ha
    have hsplit : as.take (n + 1) ++ as.drop (n + 1) = as := List.take_append_drop _ _
    rw [← hsplit, runFrom?_append, List.take_succ_eq_append_getElem hlt, runFrom?_append] at h
    rw [List.take_succ_eq_append_getElem hlt, runFrom?_append]
    cases h₁ : runFrom? M (fun _ _ => True) s (as.take n) with
    | none => simp [h₁] at h
    | some s₁ =>
        rw [h₁, Option.bind_some] at h
        rw [Option.bind_some, Option.getD_some]
        cases h₂ : runFrom? M (fun _ _ => True) s₁ [as[n]] with
        | none => simp [h₂] at h
        | some s₂ => exact step_of_runFrom?_singleton h₂
  wait n hn := by
    have hle : as.length ≤ n := List.getElem?_eq_none_iff.mp hn
    rw [List.take_of_length_le hle, List.take_of_length_le (Nat.le_succ_of_le hle)]

/-- A run that stops where the test `p` passes passes it from then on. -/
theorem test_ofActions {s : σ} {hs : M.init s} {as : List α}
    {h : (runFrom? M (fun _ _ => True) s as).isSome = true} {p : σ → Bool}
    (hp : (runFrom? M (fun _ _ => True) s as).map p = some true) {n : ℕ} (hn : as.length ≤ n) :
    p ((ofActions s hs as h).state n) = true := by
  obtain ⟨s', hs', hps'⟩ := Option.map_eq_some_iff.mp hp
  show p ((runFrom? M (fun _ _ => True) s (as.take n)).getD s) = true
  rw [List.take_of_length_le hn, hs', Option.getD_some, hps']

/-- A run that stops where the goal is reached is fair. -/
theorem recurs_ofActions {s : σ} {hs : M.init s} {as : List α}
    {h : (runFrom? M (fun _ _ => True) s as).isSome = true} {p : σ → Bool}
    (hp : (runFrom? M (fun _ _ => True) s as).map p = some true)
    (hgoal : ∀ s, p s = true → G s) : (ofActions s hs as h).Recurs helpful G := fun n =>
  ⟨max n as.length, le_max_left _ _, .inl (hgoal _ (test_ofActions hp (le_max_right _ _)))⟩

/-- A run that stops where helpful steps cannot be taken is fair. -/
theorem fair_ofActions {s : σ} {hs : M.init s} {as : List α}
    {h : (runFrom? M (fun _ _ => True) s as).isSome = true} {p : σ → Bool}
    (hp : (runFrom? M (fun _ _ => True) s as).map p = some true)
    (hnone : ∀ s, p s = true → ∀ a s', helpful a → ¬ M.Step s a s') :
    (ofActions s hs as h).Fair helpful := by
  intro n hcan
  obtain ⟨a, s', hhelp, hstep⟩ := hcan (max n as.length) (le_max_left _ _)
  exact absurd hstep (hnone _ (test_ofActions hp (le_max_right _ _)) a s' hhelp)

end InfiniteRun

end StepSystem
