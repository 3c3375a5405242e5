import Mathlib.Data.List.Basic
import Mathlib.Logic.Function.Basic

/-!
# Dense tables with back pointers

A table kept as a list without gaps: every key that is in it knows the position of its entry, and
every position belongs to one key. An entry is added at the end. It is taken out by moving the last
entry into its place, which is why the key of the last entry has to be told its new position.
-/

/-- `xs` holds an entry that `fits` for every key with a `slot`, and nothing else. -/
structure DenseTable {κ β : Type} (fits : κ → β → Prop) (slot : κ → Option ℕ) (xs : List β) : Prop where
  entry : ∀ k i, slot k = some i → ∃ x, xs[i]? = some x ∧ fits k x
  owner : ∀ i, i < xs.length → ∃ k, slot k = some i
  unique : ∀ k k' i, slot k = some i → slot k' = some i → k = k'

namespace DenseTable

variable {κ β : Type} [DecidableEq κ] {fits fits' : κ → β → Prop} {slot : κ → Option ℕ} {xs : List β}
  {k : κ} {i : ℕ}

omit [DecidableEq κ] in
theorem lt_length (h : DenseTable fits slot xs) (hk : slot k = some i) : i < xs.length := by
  obtain ⟨x, hx, -⟩ := h.entry k i hk
  exact (List.getElem?_eq_some_iff.mp hx).1

omit [DecidableEq κ] in
theorem nil : DenseTable fits (fun _ => none) [] :=
  ⟨fun _ _ h => (by cases h), fun _ h => absurd h (Nat.not_lt_zero _), fun _ _ _ h => (by cases h)⟩

omit [DecidableEq κ] in
/-- What an entry has to be may change, as long as the entries still are it. -/
theorem mono (h : DenseTable fits slot xs) (hfits : ∀ k i, slot k = some i → ∀ x, fits k x → fits' k x) :
    DenseTable fits' slot xs := by
  refine ⟨fun k i hk => ?_, h.owner, h.unique⟩
  obtain ⟨x, hx, hfit⟩ := h.entry k i hk
  exact ⟨x, hx, hfits k i hk x hfit⟩

omit [DecidableEq κ] in
/-- The entries may change, each into one that its key fits. -/
theorem map (h : DenseTable fits slot xs) {f : β → β} (hf : ∀ k x, fits k x → fits' k (f x)) :
    DenseTable fits' slot (xs.map f) := by
  refine ⟨fun k i hk => ?_, fun i hi => h.owner i (by rwa [List.length_map] at hi), h.unique⟩
  obtain ⟨x, hx, hfit⟩ := h.entry k i hk
  exact ⟨f x, by rw [List.getElem?_map, hx, Option.map_some], hf k x hfit⟩

theorem push (h : DenseTable fits slot xs) {x : β} (hk : slot k = none) (hx : fits k x) :
    DenseTable fits (Function.update slot k (some xs.length)) (xs ++ [x]) := by
  have hother : ∀ k' i, Function.update slot k (some xs.length) k' = some i →
      k' = k ∧ i = xs.length ∨ slot k' = some i := by
    intro k' i hi
    by_cases hne : k' = k
    · rw [hne, Function.update_self, Option.some.injEq] at hi
      exact .inl ⟨hne, hi.symm⟩
    · rw [Function.update_of_ne hne] at hi
      exact .inr hi
  refine ⟨fun k' i hi => ?_, fun i hi => ?_, fun k₁ k₂ i h₁ h₂ => ?_⟩
  · rcases hother k' i hi with ⟨rfl, rfl⟩ | hold
    · exact ⟨x, List.getElem?_concat_length, hx⟩
    · obtain ⟨y, hy, hfit⟩ := h.entry k' i hold
      exact ⟨y, by rwa [List.getElem?_append_left (h.lt_length hold)], hfit⟩
  · rw [List.length_append, List.length_singleton] at hi
    by_cases hlast : i = xs.length
    · exact ⟨k, by rw [Function.update_self, hlast]⟩
    · obtain ⟨k', hk'⟩ := h.owner i (by omega)
      refine ⟨k', ?_⟩
      rw [Function.update_of_ne]
      · exact hk'
      · rintro rfl
        rw [hk] at hk'
        cases hk'
  · rcases hother k₁ i h₁ with ⟨hk₁, hi₁⟩ | hold₁ <;> rcases hother k₂ i h₂ with ⟨hk₂, hi₂⟩ | hold₂
    · rw [hk₁, hk₂]
    · exact absurd hi₁ (Nat.ne_of_lt (h.lt_length hold₂))
    · exact absurd hi₂ (Nat.ne_of_lt (h.lt_length hold₁))
    · exact h.unique k₁ k₂ i hold₁ hold₂

omit [DecidableEq κ] in
theorem set (h : DenseTable fits slot xs) {y : β} (hk : slot k = some i) (hy : fits' k y)
    (hfits : ∀ k', k' ≠ k → ∀ x, fits k' x → fits' k' x) : DenseTable fits' slot (xs.set i y) := by
  refine ⟨fun k' j hj => ?_, fun j hj => h.owner j (by rwa [List.length_set] at hj), h.unique⟩
  by_cases hij : i = j
  · subst hij
    rw [h.unique k' k i hj hk]
    exact ⟨y, by rw [List.getElem?_set_self (h.lt_length hk)], hy⟩
  · obtain ⟨x, hx, hfit⟩ := h.entry k' j hj
    refine ⟨x, by rwa [List.getElem?_set_ne hij], hfits k' ?_ x hfit⟩
    rintro rfl
    rw [hk, Option.some.injEq] at hj
    exact hij hj

/-- The last entry is taken out. -/
theorem dropLast (h : DenseTable fits slot xs) (hk : slot k = some i) (hi : i = xs.length - 1) :
    DenseTable fits (Function.update slot k none) xs.dropLast := by
  have hother : ∀ k' j, Function.update slot k none k' = some j → slot k' = some j ∧ j ≠ i := by
    intro k' j hj
    by_cases hne : k' = k
    · rw [hne, Function.update_self] at hj
      cases hj
    · rw [Function.update_of_ne hne] at hj
      refine ⟨hj, ?_⟩
      rintro rfl
      exact hne (h.unique k' k j hj hk)
  refine ⟨fun k' j hj => ?_, fun j hj => ?_, fun k₁ k₂ j h₁ h₂ =>
    h.unique k₁ k₂ j (hother k₁ j h₁).1 (hother k₂ j h₂).1⟩
  · obtain ⟨hold, hne⟩ := hother k' j hj
    obtain ⟨x, hx, hfit⟩ := h.entry k' j hold
    have hlt := h.lt_length hold
    exact ⟨x, by rwa [List.getElem?_dropLast, if_pos (by omega)], hfit⟩
  · rw [List.length_dropLast] at hj
    obtain ⟨k', hk'⟩ := h.owner j (by omega)
    refine ⟨k', ?_⟩
    rw [Function.update_of_ne]
    · exact hk'
    · rintro rfl
      rw [hk, Option.some.injEq] at hk'
      omega

/-- An entry is taken out, and the last one moves into its place. -/
theorem swapRemove (h : DenseTable fits slot xs) {l : κ} {last : β} (hk : slot k = some i)
    (hl : slot l = some (xs.length - 1)) (hne : l ≠ k) (hlast : xs[xs.length - 1]? = some last) :
    DenseTable fits (Function.update (Function.update slot k none) l (some i))
      (xs.set i last).dropLast := by
  have hlt := h.lt_length hk
  have hi : i ≠ xs.length - 1 := fun heq => hne (h.unique l k _ hl (heq ▸ hk))
  have hself : Function.update (Function.update slot k none) l (some i) l = some i :=
    Function.update_self _ _ _
  have hother : ∀ k' j, Function.update (Function.update slot k none) l (some i) k' = some j →
      k' = l ∧ j = i ∨ slot k' = some j ∧ j ≠ i ∧ j ≠ xs.length - 1 := by
    intro k' j hj
    by_cases hkl : k' = l
    · rw [hkl, hself, Option.some.injEq] at hj
      exact .inl ⟨hkl, hj.symm⟩
    · rw [Function.update_of_ne hkl] at hj
      by_cases hkk : k' = k
      · rw [hkk, Function.update_self] at hj
        cases hj
      · rw [Function.update_of_ne hkk] at hj
        refine .inr ⟨hj, ?_, ?_⟩
        · rintro rfl
          exact hkk (h.unique k' k j hj hk)
        · rintro rfl
          exact hkl (h.unique k' l _ hj hl)
  have hlen : (xs.set i last).length - 1 = xs.length - 1 := by rw [List.length_set]
  refine ⟨fun k' j hj => ?_, fun j hj => ?_, fun k₁ k₂ j h₁ h₂ => ?_⟩
  · rcases hother k' j hj with ⟨rfl, rfl⟩ | ⟨hold, hji, hjl⟩
    · obtain ⟨x, hx, hfit⟩ := h.entry k' _ hl
      rw [hlast, Option.some.injEq] at hx
      subst hx
      refine ⟨last, ?_, hfit⟩
      rw [List.getElem?_dropLast, hlen, if_pos (by omega), List.getElem?_set_self hlt]
    · obtain ⟨x, hx, hfit⟩ := h.entry k' j hold
      have hjlt := h.lt_length hold
      refine ⟨x, ?_, hfit⟩
      rwa [List.getElem?_dropLast, hlen, if_pos (by omega), List.getElem?_set_ne (Ne.symm hji)]
  · rw [List.length_dropLast, hlen] at hj
    by_cases hji : j = i
    · exact ⟨l, by rw [hself, hji]⟩
    · obtain ⟨k', hk'⟩ := h.owner j (by omega)
      refine ⟨k', ?_⟩
      rw [Function.update_of_ne, Function.update_of_ne]
      · exact hk'
      · rintro rfl
        rw [hk, Option.some.injEq] at hk'
        exact hji hk'.symm
      · rintro rfl
        rw [hl, Option.some.injEq] at hk'
        omega
  · rcases hother k₁ j h₁ with ⟨hk₁, hj₁⟩ | ⟨hold₁, hj₁, -⟩ <;>
      rcases hother k₂ j h₂ with ⟨hk₂, hj₂⟩ | ⟨hold₂, hj₂, -⟩
    · rw [hk₁, hk₂]
    · exact absurd hj₁ hj₂
    · exact absurd hj₂ hj₁
    · exact h.unique k₁ k₂ j hold₁ hold₂

end DenseTable
