import Mathlib.Logic.Relation
import Mathlib.Data.List.Basic

/-!
# Guarded step systems

A `StepSystem` is a state machine whose actions have a guard (`enabled`) and an effect that may
stop on a fault (`exec`, valued in `Except`). Everything a development says about "every run" goes
through two notions:

* `ReachableVia ok` — the states reached from an initial one by fault-free steps that all satisfy
  `ok`, a condition on the state *before* the step and on the action. `Reachable` is the special
  case with no condition.
* `runFrom?` — the executable counterpart: replay a list of actions and answer the final state, or
  nothing when an action is not enabled, faults or breaks `ok`. `reachableVia_of_runFrom?` turns a
  replay into a reachability proof, which is how concrete runs are exhibited.
-/

/-- A state machine with guarded actions whose effect may stop on a fault. -/
structure StepSystem (σ α ε : Type) where
  init : σ → Prop
  enabled : σ → α → Prop
  exec : σ → α → Except ε σ

namespace StepSystem

variable {σ α ε : Type} (M : StepSystem σ α ε)

/-- One fault-free step. -/
def Step (s : σ) (a : α) (s' : σ) : Prop :=
  M.enabled s a ∧ M.exec s a = .ok s'

/-- The states reached by steps that all satisfy `ok` (of the state before the step). -/
inductive ReachableVia (ok : σ → α → Prop) : σ → Prop where
  | init {s : σ} : M.init s → ReachableVia ok s
  | step {s s' : σ} {a : α} :
      ReachableVia ok s → ok s a → M.Step s a s' → ReachableVia ok s'

/-- The states reached by any fault-free run. -/
abbrev Reachable : σ → Prop := M.ReachableVia fun _ _ => True

/-- The same machine, started in one state. -/
def startingAt (s : σ) : StepSystem σ α ε := { M with init := fun s' => s' = s }

variable {M} {ok : σ → α → Prop}

/-- **The invariant rule.** What holds initially and is kept by every admitted step holds of every
state reached; the step may use that the state before it was reached. -/
theorem ReachableVia.invariant {I : σ → Prop} (hinit : ∀ s, M.init s → I s)
    (hstep : ∀ s a s', M.ReachableVia ok s → I s → ok s a → M.Step s a s' → I s')
    {s : σ} (h : M.ReachableVia ok s) : I s := by
  induction h with
  | init h => exact hinit _ h
  | step hr hok hs ih => exact hstep _ _ _ hr ih hok hs

/-- Weakening the condition on steps keeps a state reachable. -/
theorem ReachableVia.mono {ok' : σ → α → Prop} (himp : ∀ s a, ok s a → ok' s a)
    {s : σ} (h : M.ReachableVia ok s) : M.ReachableVia ok' s := by
  induction h with
  | init h => exact .init h
  | step _ hok hs ih => exact .step ih (himp _ _ hok) hs

theorem ReachableVia.reachable {s : σ} (h : M.ReachableVia ok s) : M.Reachable s :=
  h.mono fun _ _ _ => trivial

/-! ## Replaying a run -/

variable (M) (ok)
variable [∀ s a, Decidable (M.enabled s a)] [∀ s a, Decidable (ok s a)]

/-- Replay a list of actions; nothing when one is not enabled, breaks `ok` or faults. -/
def runFrom? : σ → List α → Option σ
  | s, [] => some s
  | s, a :: as =>
      if M.enabled s a ∧ ok s a then
        match M.exec s a with
        | .ok s' => runFrom? s' as
        | .error _ => none
      else none

variable {M} {ok}

/-- A replay is a run: where it ends is reachable from where it started. -/
theorem reachableVia_of_runFrom? :
    ∀ {as : List α} {s s' : σ}, M.ReachableVia ok s →
      runFrom? M ok s as = some s' → M.ReachableVia ok s'
  | [], s, s', hs, h => by
    simp only [runFrom?, Option.some.injEq] at h
    exact h ▸ hs
  | a :: as, s, s', hs, h => by
    simp only [runFrom?] at h
    split at h
    · next hen =>
        split at h
        · next t ht =>
            exact reachableVia_of_runFrom? (.step hs hen.2 ⟨hen.1, ht⟩) h
        · cases h
    · cases h

variable (ok) in
/-- A replay whose last state passes the test `p` exhibits a reachable state with that property. -/
theorem exists_reachableVia_of_runFrom? (as : List α) {s : σ} {p : σ → Bool} (hs : M.init s)
    (h : (runFrom? M ok s as).map p = some true) :
    ∃ s', M.ReachableVia ok s' ∧ p s' = true := by
  cases hr : runFrom? M ok s as with
  | none => simp [hr] at h
  | some s' =>
      simp only [hr, Option.map_some, Option.some.injEq] at h
      exact ⟨s', reachableVia_of_runFrom? (.init hs) hr, h⟩

end StepSystem
