import Mathlib.Data.Finset.Card
import Mathlib.Data.List.Nodup
import Mathlib.Order.Basic
import Mathlib.Order.Defs.LinearOrder

/-!
# Containers with ordered keys

Finite maps and sets kept in the order of their keys, the order in which code iterates over them.
The order is carried as a field, so a container out of order cannot be built.

* `OrdMap` — a map as the list of its entries.
* `OrdSet` — a set as the list of its elements. `below` and `atLeast` are the two sides of a
  `lower_bound`.
-/

/-- Putting an element between the smaller and the larger ones keeps a list ordered. -/
theorem List.Pairwise.splice {κ β : Type} [LinearOrder κ] (key : β → κ) {l : List β}
    (h : l.Pairwise fun a b => key a < key b) (x : β) :
    (l.filter (key · < key x) ++ x :: l.filter (key x < key ·)).Pairwise
      fun a b => key a < key b := by
  refine List.pairwise_append.mpr ⟨h.filter _, ?_, ?_⟩
  · refine List.pairwise_cons.mpr ⟨?_, h.filter _⟩
    intro b hb
    exact of_decide_eq_true (List.mem_filter.mp hb).2
  · intro a ha b hb
    have hax : key a < key x := of_decide_eq_true (List.mem_filter.mp ha).2
    rcases List.mem_cons.mp hb with rfl | hb
    · exact hax
    · exact hax.trans (of_decide_eq_true (List.mem_filter.mp hb).2)

/-- A map as the list of its entries, with strictly increasing keys. -/
structure OrdMap (κ ν : Type) [LinearOrder κ] where
  entries : List (κ × ν)
  sorted : entries.Pairwise fun a b => a.1 < b.1

namespace OrdMap

variable {κ ν : Type} [LinearOrder κ]

def empty : OrdMap κ ν := ⟨[], .nil⟩

/-- Bind `k` to `v`, replacing what it was bound to. -/
def insert (m : OrdMap κ ν) (k : κ) (v : ν) : OrdMap κ ν where
  entries := m.entries.filter (·.1 < k) ++ (k, v) :: m.entries.filter (k < ·.1)
  sorted := m.sorted.splice Prod.fst (k, v)

end OrdMap

/-- A set as the list of its elements, strictly increasing. -/
structure OrdSet (α : Type) [LinearOrder α] where
  toList : List α
  sorted : toList.Pairwise (· < ·)

namespace OrdSet

variable {α : Type} [LinearOrder α]

instance : Membership α (OrdSet α) := ⟨fun s a => a ∈ s.toList⟩

instance (a : α) (s : OrdSet α) : Decidable (a ∈ s) :=
  inferInstanceAs (Decidable (a ∈ s.toList))

def empty : OrdSet α := ⟨[], .nil⟩

def size (s : OrdSet α) : ℕ := s.toList.length

/-- The least element. -/
def begin? (s : OrdSet α) : Option α := s.toList.head?

def insert (s : OrdSet α) (a : α) : OrdSet α where
  toList := s.toList.filter (· < a) ++ a :: s.toList.filter (a < ·)
  sorted := s.sorted.splice id a

def erase (s : OrdSet α) (a : α) : OrdSet α where
  toList := s.toList.filter (· ≠ a)
  sorted := s.sorted.filter _

/-- The elements before `lower_bound(a)`. -/
def below (s : OrdSet α) (a : α) : List α := s.toList.filter (· < a)

/-- The elements from `lower_bound(a)` on. -/
def atLeast (s : OrdSet α) (a : α) : OrdSet α where
  toList := s.toList.filter (a ≤ ·)
  sorted := s.sorted.filter _

variable {s : OrdSet α} {a b : α}

theorem mem_toList : b ∈ s.toList ↔ b ∈ s := Iff.rfl

@[simp] theorem notMem_empty : ¬ b ∈ (empty : OrdSet α) := List.not_mem_nil

theorem nodup (s : OrdSet α) : s.toList.Nodup := s.sorted.imp ne_of_lt

@[simp] theorem mem_insert : b ∈ s.insert a ↔ b = a ∨ b ∈ s := by
  show b ∈ s.toList.filter (· < a) ++ a :: s.toList.filter (a < ·) ↔ _
  rw [List.mem_append, List.mem_cons, List.mem_filter, List.mem_filter, mem_toList]
  constructor
  · rintro (h | h | h)
    · exact .inr h.1
    · exact .inl h
    · exact .inr h.1
  · rintro (h | h)
    · exact .inr (.inl h)
    · rcases lt_trichotomy b a with hlt | heq | hgt
      · exact .inl ⟨h, decide_eq_true hlt⟩
      · exact .inr (.inl heq)
      · exact .inr (.inr ⟨h, decide_eq_true hgt⟩)

@[simp] theorem mem_erase : b ∈ s.erase a ↔ b ≠ a ∧ b ∈ s := by
  show b ∈ s.toList.filter (· ≠ a) ↔ _
  simp [mem_toList, and_comm]

theorem mem_below : b ∈ s.below a ↔ b ∈ s ∧ b < a := by
  simp [below, mem_toList]

theorem mem_atLeast : b ∈ s.atLeast a ↔ b ∈ s ∧ a ≤ b := by
  show b ∈ s.toList.filter (a ≤ ·) ↔ _
  simp [mem_toList]

/-- The elements below a bound and those from it on are all of them. -/
theorem below_append_atLeast : s.below a ++ (s.atLeast a).toList = s.toList := by
  have h := s.sorted
  show s.toList.filter (· < a) ++ s.toList.filter (a ≤ ·) = s.toList
  generalize s.toList = l at h
  induction l with
  | nil => rfl
  | cons x xs ih =>
      obtain ⟨hx, hxs⟩ := List.pairwise_cons.mp h
      by_cases hlt : x < a
      · simp only [List.filter_cons, hlt, decide_true, if_true, not_le.mpr hlt, decide_false,
          Bool.false_eq_true, if_false, List.cons_append, ih hxs]
      · have hnone : xs.filter (· < a) = [] := by
          rw [List.filter_eq_nil_iff]
          intro y hy
          simpa using (not_lt.mp hlt).trans (hx y hy).le
        have hall : xs.filter (a ≤ ·) = xs := by
          rw [List.filter_eq_self]
          intro y hy
          simpa using (not_lt.mp hlt).trans (hx y hy).le
        simp [hlt, not_lt.mp hlt, hnone, hall]

/-- A new element goes somewhere among the others. -/
theorem perm_insert (h : a ∉ s) : (s.insert a).toList.Perm (a :: s.toList) := by
  rw [List.perm_ext_iff_of_nodup (s.insert a).nodup (List.nodup_cons.mpr ⟨h, s.nodup⟩)]
  intro b
  rw [mem_toList, mem_insert, List.mem_cons, mem_toList]

theorem perm_erase (h : a ∈ s) : s.toList.Perm (a :: (s.erase a).toList) := by
  have ha : a ∉ s.erase a := by simp
  rw [List.perm_ext_iff_of_nodup s.nodup (List.nodup_cons.mpr ⟨ha, (s.erase a).nodup⟩)]
  intro b
  rw [List.mem_cons, mem_toList, mem_toList, mem_erase]
  by_cases hb : b = a
  · simp [hb, h]
  · simp [hb]

/-- What `begin` points to is the least element. -/
theorem begin?_eq_some (h : s.begin? = some a) : a ∈ s ∧ ∀ b ∈ s, a ≤ b := by
  obtain ⟨l, hl⟩ := List.head?_eq_some_iff.mp h
  have hs := s.sorted
  rw [hl] at hs
  refine ⟨by rw [← mem_toList, hl]; exact List.mem_cons_self, ?_⟩
  intro b hb
  rw [← mem_toList, hl] at hb
  rcases List.mem_cons.mp hb with rfl | hb
  · exact le_rfl
  · exact ((List.pairwise_cons.mp hs).1 b hb).le

theorem begin?_eq_none (h : s.begin? = none) : ∀ b, b ∉ s := by
  intro b hb
  rw [begin?, List.head?_eq_none_iff] at h
  rw [← mem_toList, h] at hb
  exact List.not_mem_nil hb

end OrdSet
