import Mathlib.Data.List.Basic
import Mathlib.Data.List.Infix

/-!
# Searching a sequence

Two searches over a list, in the shape byte-scanning code uses them:

* `splitFirst c l` cuts `l` at the first occurrence of one element, dropping that element;
* `search pat l` is the offset of the first occurrence of a subsequence.

What clients need of them is how they behave when the list is extended on the right: an occurrence
that was found stays the first one (`search_append`), which is why a scanner that waits for more
input never has to revise an answer.
-/

namespace Search

variable {α : Type} [DecidableEq α]

/-! ## The first occurrence of an element -/

/-- Cut a list at the first occurrence of `c`; the occurrence itself is dropped. -/
def splitFirst (c : α) : List α → Option (List α × List α)
  | [] => none
  | x :: xs =>
      if x = c then some ([], xs)
      else (splitFirst c xs).map fun p => (x :: p.1, p.2)

theorem splitFirst_eq_some {c : α} :
    ∀ {l a b : List α}, splitFirst c l = some (a, b) ↔ l = a ++ c :: b ∧ c ∉ a
  | [], a, b => by simp [splitFirst]
  | x :: xs, a, b => by
    by_cases hx : x = c
    · subst hx
      simp only [splitFirst, if_pos, Option.some.injEq, Prod.mk.injEq]
      constructor
      · rintro ⟨rfl, rfl⟩; simp
      · rintro ⟨h, hn⟩
        cases a with
        | nil => simpa using h
        | cons y ys =>
            simp only [List.cons_append, List.cons.injEq] at h
            exact absurd h.1 fun he => hn (by simp [he])
    · simp only [splitFirst, if_neg hx, Option.map_eq_some_iff]
      constructor
      · rintro ⟨⟨a', b'⟩, h, he⟩
        obtain ⟨hl, hn⟩ := splitFirst_eq_some.mp h
        simp only [Prod.mk.injEq] at he
        obtain ⟨rfl, rfl⟩ := he
        exact ⟨by simp [hl], by simp [hn, Ne.symm hx]⟩
      · rintro ⟨h, hn⟩
        cases a with
        | nil => simp [hx] at h
        | cons y ys =>
            simp only [List.cons_append, List.cons.injEq] at h
            obtain ⟨rfl, rfl⟩ := h
            exact ⟨(ys, b), splitFirst_eq_some.mpr ⟨rfl, fun hm => hn (by simp [hm])⟩, rfl⟩

theorem splitFirst_eq_none {c : α} {l : List α} : splitFirst c l = none ↔ c ∉ l := by
  constructor
  · intro h hm
    obtain ⟨a, b, hl, hn⟩ := List.eq_append_cons_of_mem hm
    rw [splitFirst_eq_some.mpr ⟨hl, hn⟩] at h
    cases h
  · intro hn
    cases hs : splitFirst c l with
    | none => rfl
    | some p => exact absurd (by simp [(splitFirst_eq_some.mp hs).1]) hn

/-- A part without the element is passed over. -/
theorem splitFirst_append_of_not_mem {c : α} {a : List α} (h : c ∉ a) (b : List α) :
    splitFirst c (a ++ b) = (splitFirst c b).map fun p => (a ++ p.1, p.2) := by
  cases hs : splitFirst c b with
  | none =>
      rw [splitFirst_eq_none] at hs
      rw [Option.map_none, splitFirst_eq_none, List.mem_append, not_or]
      exact ⟨h, hs⟩
  | some p =>
      obtain ⟨hb, hn⟩ := splitFirst_eq_some.mp hs
      rw [Option.map_some, splitFirst_eq_some, hb, List.append_assoc, List.mem_append, not_or]
      exact ⟨rfl, h, hn⟩

/-! ## The first occurrence of a subsequence -/

/-- The offset of the first occurrence of `pat`. -/
def search (pat : List α) : List α → Option ℕ
  | [] => if pat <+: [] then some 0 else none
  | x :: xs => if pat <+: x :: xs then some 0 else (search pat xs).map (· + 1)

theorem search_of_startsWith {pat l : List α} (h : pat <+: l) : search pat l = some 0 := by
  cases l <;> simp [search, h]

theorem search_cons_of_not_startsWith {pat : List α} {x : α} {xs : List α} (h : ¬ pat <+: x :: xs) :
    search pat (x :: xs) = (search pat xs).map (· + 1) := by
  simp [search, h]

/-- What `search` finds is an occurrence. -/
theorem prefix_drop_of_search {pat : List α} :
    ∀ {l : List α} {i : ℕ}, search pat l = some i → pat <+: l.drop i
  | [], i, h => by
    by_cases hp : pat <+: []
    · rw [search_of_startsWith hp] at h
      cases h
      simpa using hp
    · simp [search, hp] at h
  | x :: xs, i, h => by
    by_cases hp : pat <+: x :: xs
    · rw [search_of_startsWith hp] at h
      cases h
      exact hp
    · rw [search_cons_of_not_startsWith hp] at h
      obtain ⟨j, hj, rfl⟩ := Option.map_eq_some_iff.mp h
      simpa using prefix_drop_of_search hj

/-- The list around the occurrence `search` finds. -/
theorem eq_take_append_of_search {pat l : List α} {i : ℕ} (h : search pat l = some i) :
    l = l.take i ++ (pat ++ l.drop (i + pat.length)) := by
  obtain ⟨r, hr⟩ := prefix_drop_of_search h
  have hdrop : l.drop (i + pat.length) = r := by
    rw [← List.drop_drop, ← hr, List.drop_left]
  rw [hdrop, hr, List.take_append_drop]

theorem add_length_le_of_search {pat l : List α} {i : ℕ} (hi : i ≤ l.length)
    (h : search pat l = some i) : i + pat.length ≤ l.length := by
  have := (prefix_drop_of_search h).length_le
  rw [List.length_drop] at this
  omega

theorem search_le_length {pat : List α} :
    ∀ {l : List α} {i : ℕ}, search pat l = some i → i ≤ l.length
  | [], i, h => by
    by_cases hp : pat <+: [] <;> simp [search, hp] at h
    simp [← h]
  | x :: xs, i, h => by
    by_cases hp : pat <+: x :: xs
    · rw [search_of_startsWith hp] at h
      cases h
      simp
    · rw [search_cons_of_not_startsWith hp] at h
      obtain ⟨j, hj, rfl⟩ := Option.map_eq_some_iff.mp h
      simpa using search_le_length hj

/-- **An occurrence that was found is not revised**: extending the list on the right leaves the
first occurrence where it was. -/
theorem search_append {pat : List α} (r : List α) :
    ∀ {l : List α} {i : ℕ}, search pat l = some i → search pat (l ++ r) = some i
  | [], i, h => by
    by_cases hp : pat <+: []
    · rw [search_of_startsWith hp] at h
      cases h
      exact search_of_startsWith (hp.trans (List.nil_prefix))
    · simp [search, hp] at h
  | x :: xs, i, h => by
    by_cases hp : pat <+: x :: xs
    · rw [search_of_startsWith hp] at h
      cases h
      exact search_of_startsWith (hp.trans (List.prefix_append _ _))
    · rw [search_cons_of_not_startsWith hp] at h
      obtain ⟨j, hj, rfl⟩ := Option.map_eq_some_iff.mp h
      have hlen : pat.length ≤ xs.length := by
        have := add_length_le_of_search (search_le_length hj) hj
        omega
      -- an occurrence at the front of the longer list would already lie inside the shorter one
      have hp' : ¬ pat <+: x :: (xs ++ r) := fun hpre =>
        hp (List.prefix_of_prefix_length_le hpre (List.prefix_append (x :: xs) r)
          (by simp only [List.length_cons]; omega))
      rw [List.cons_append, search_cons_of_not_startsWith hp', search_append r hj]
      rfl

/-- A subsequence whose first element does not occur before it is found where it stands. -/
theorem search_append_of_not_mem {c : α} {pat : List α} (rest : List α) :
    ∀ {l : List α}, c ∉ l → search (c :: pat) (l ++ (c :: pat ++ rest)) = some l.length
  | [], _ => search_of_startsWith (List.prefix_append _ _)
  | x :: xs, h => by
    have hx : c ≠ x := fun he => h (by simp [he])
    have hxs : c ∉ xs := fun hm => h (by simp [hm])
    have hp : ¬ c :: pat <+: x :: (xs ++ (c :: pat ++ rest)) := fun hpre =>
      hx (List.cons_prefix_cons.mp hpre).1
    rw [List.cons_append, search_cons_of_not_startsWith hp, search_append_of_not_mem rest hxs]
    rfl

/-- A part without the first element of the subsequence is skipped. -/
theorem search_append_left_of_not_mem {c : α} {pat : List α} (r : List α) {l : List α}
    (h : c ∉ l) : search (c :: pat) (l ++ r) = (search (c :: pat) r).map (l.length + ·) := by
  induction l with
  | nil => simp
  | cons x xs ih =>
      rw [List.mem_cons, not_or] at h
      have hp : ¬ c :: pat <+: x :: (xs ++ r) := fun hpre => h.1 (List.cons_prefix_cons.mp hpre).1
      rw [List.cons_append, search_cons_of_not_startsWith hp, ih h.2, Option.map_map]
      congr 1
      funext i
      simp only [Function.comp_apply, List.length_cons]
      omega

/-- Before the occurrence `search` finds there is none. -/
theorem not_infix_take_of_search {pat : List α} (hne : pat ≠ []) {l : List α} {i : ℕ}
    (h : search pat l = some i) : ¬ pat <:+: l.take i := by
  induction l generalizing i with
  | nil =>
      rw [List.take_nil, List.infix_nil]
      exact hne
  | cons x xs ih =>
      by_cases hp : pat <+: x :: xs
      · rw [search_of_startsWith hp] at h
        cases h
        rw [List.take_zero, List.infix_nil]
        exact hne
      · rw [search_cons_of_not_startsWith hp] at h
        obtain ⟨j, hj, rfl⟩ := Option.map_eq_some_iff.mp h
        rw [List.take_succ_cons, List.infix_cons_iff]
        rintro (hpre | hinf)
        · exact hp (hpre.trans (List.prefix_cons_iff.mpr (.inr ⟨_, rfl, List.take_prefix _ _⟩)))
        · exact ih hj hinf

/-- Two different elements in a row, the first time they occur. -/
theorem search_pair_append {c d : α} (hcd : c ≠ d) (rest : List α) {l : List α}
    (h : ¬ [c, d] <:+: l) : search [c, d] (l ++ ([c, d] ++ rest)) = some l.length := by
  induction l with
  | nil => exact search_of_startsWith (List.prefix_append _ _)
  | cons x xs ih =>
      rw [List.infix_cons_iff, not_or] at h
      have hp : ¬ [c, d] <+: x :: (xs ++ ([c, d] ++ rest)) := by
        intro hpre
        obtain ⟨rfl, hd⟩ := List.cons_prefix_cons.mp hpre
        cases xs with
        | nil => exact hcd (List.cons_prefix_cons.mp hd).1.symm
        | cons y ys =>
            obtain ⟨rfl, -⟩ := List.cons_prefix_cons.mp hd
            exact h.1 ⟨ys, rfl⟩
      rw [List.cons_append, search_cons_of_not_startsWith hp, ih h.2]
      rfl

end Search
