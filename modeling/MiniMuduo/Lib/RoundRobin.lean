import Mathlib.Data.Int.CardIntervalMod

/-!
# Dealing in turn

`RoundRobin xs ys` says that `ys` was dealt from `xs` in turn, from the first element on and from the
first again after the last. Then no element of `xs` is ahead of another by more than one
(`count_le_succ`).
-/

def RoundRobin {α : Type} (xs ys : List α) : Prop :=
  ∀ i y, ys[i]? = some y → xs[i % xs.length]? = some y

namespace RoundRobin

variable {α : Type} {xs ys : List α} {x y : α}

theorem nil (xs : List α) : RoundRobin xs [] := fun i y h => by simp at h

theorem concat (h : RoundRobin xs ys) (hy : xs[ys.length % xs.length]? = some y) :
    RoundRobin xs (ys ++ [y]) := by
  intro i z hz
  rcases Nat.lt_trichotomy i ys.length with hlt | rfl | hgt
  · rw [List.getElem?_append_left hlt] at hz
    exact h i z hz
  · rw [List.getElem?_concat_length, Option.some.injEq] at hz
    exact hz ▸ hy
  · rw [List.getElem?_eq_none (by simp; omega)] at hz
    cases hz

theorem of_concat (h : RoundRobin xs (ys ++ [y])) :
    RoundRobin xs ys ∧ xs[ys.length % xs.length]? = some y := by
  refine ⟨fun i z hz => h i z ?_, h ys.length y List.getElem?_concat_length⟩
  obtain ⟨hlt, -⟩ := List.getElem?_eq_some_iff.mp hz
  rwa [List.getElem?_append_left hlt]

variable [DecidableEq α]

/-- An element was dealt as often as its place came up. -/
theorem count_eq (h : RoundRobin xs ys) (hnodup : xs.Nodup) {j : ℕ} (hj : xs[j]? = some x) :
    ys.count x = ys.length.count (· ≡ j [MOD xs.length]) := by
  obtain ⟨hlt, -⟩ := List.getElem?_eq_some_iff.mp hj
  induction ys using List.reverseRecOn with
  | nil => simp
  | append_singleton ys y ih =>
      obtain ⟨hys, hy⟩ := h.of_concat
      have hplace : y = x ↔ ys.length ≡ j [MOD xs.length] := by
        rw [Nat.ModEq, Nat.mod_eq_of_lt hlt]
        constructor
        · rintro rfl
          exact (List.getElem?_inj (Nat.mod_lt _ (by omega)) hnodup).mp (hy.trans hj.symm)
        · intro heq
          rw [heq, hj, Option.some.injEq] at hy
          exact hy.symm
      rw [List.count_append, ih hys, List.length_append, List.length_singleton, Nat.count_succ,
        List.count_singleton]
      simp only [beq_iff_eq, hplace]

/-- No element is ahead of another by more than one. -/
theorem count_le_succ (h : RoundRobin xs ys) (hnodup : xs.Nodup) (hx : x ∈ xs) (hy : y ∈ xs) :
    ys.count x ≤ ys.count y + 1 := by
  obtain ⟨i, hi⟩ := List.mem_iff_getElem?.mp hx
  obtain ⟨j, hj⟩ := List.mem_iff_getElem?.mp hy
  have hpos : 0 < xs.length := List.length_pos_of_mem hx
  rw [h.count_eq hnodup hi, h.count_eq hnodup hj, Nat.count_modEq_card _ hpos,
    Nat.count_modEq_card _ hpos]
  split <;> split <;> omega

end RoundRobin
