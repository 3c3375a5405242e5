import Mathlib.Data.List.Basic

/-!
# Orders of events in a log

A log grows at its end. That the events `a₁, …, aₙ` happened in this order is `[a₁, …, aₙ] <+ log`;
the lemmas say how such an order can come about when the log grows: it was there before, or its last
event is new.
-/

namespace History

variable {α : Type} {p l m : List α} {c d : α}

/-- An order whose last event is not among the new ones was there before. -/
theorem sublist_of_append (h : c ∉ m) (hs : (p ++ [c]).Sublist (l ++ m)) :
    (p ++ [c]).Sublist l := by
  obtain ⟨l₁, l₂, heq, h₁, h₂⟩ := List.sublist_append_iff.mp hs
  rcases List.eq_nil_or_concat l₂ with rfl | ⟨l₃, x, rfl⟩
  · rw [List.append_nil] at heq
    exact heq ▸ h₁
  · rw [List.concat_eq_append] at heq h₂
    rw [← List.append_assoc, List.append_singleton_inj] at heq
    have hx : x ∈ m := h₂.subset (by simp)
    exact absurd (heq.2 ▸ hx) h

/-- An order after one more event: it was there before, or the new event is its last. -/
theorem sublist_of_concat (hs : (p ++ [c]).Sublist (l ++ [d])) :
    (p ++ [c]).Sublist l ∨ c = d ∧ p.Sublist l := by
  by_cases heq : c = d
  · subst heq
    exact .inr ⟨rfl, (List.append_sublist_append_right [c]).mp hs⟩
  · exact .inl (sublist_of_append (by simpa using heq) hs)

/-- What follows an event that is not among the new ones: what followed it before, and the new
ones. -/
theorem eq_append_of_append {q : List α} (h : c ∉ m) (heq : l ++ m = p ++ c :: q) :
    ∃ q₀, l = p ++ c :: q₀ ∧ q = q₀ ++ m := by
  rcases List.append_eq_append_iff.mp heq with ⟨x, rfl, rfl⟩ | ⟨x, rfl, hx⟩
  · exact absurd (List.mem_append_right x List.mem_cons_self) h
  · cases x with
    | nil =>
        rw [List.nil_append] at hx
        exact absurd (hx ▸ List.mem_cons_self) h
    | cons d q₀ =>
        obtain ⟨rfl, rfl⟩ := List.cons.inj hx
        exact ⟨q₀, rfl, rfl⟩

end History
