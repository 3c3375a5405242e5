import Mathlib.Data.Finset.Lattice.Fold
import Mathlib.Data.List.Basic
import Mathlib.Order.Lattice.Nat

/-!
# Resumable machines

A machine that consumes a growing input in turns: a turn either finds the input incomplete and
waits, or moves to a new state with part of the input consumed, or halts with a result. The one
law asked of it is that a turn which did something is not changed by input that arrives later
(`next_append`, `halt_append`); it makes the machine indifferent to how its input is cut up.

* `drive_append`, `feed_eq_drive` — driving the machine on a concatenation is driving it on the
  pieces one after the other.
* `drain` restarts the machine after every accepted result and lists all results of an input, and
  `serve` is the slower consumer that takes at most one result per piece. `serve_eq_take` says
  exactly how far the slow consumer gets: the results come out in order, and their number is the
  smallest, over the cut points, of the results complete there plus the pieces still to come.
-/

/-- What one turn of a machine does. -/
inductive Turn (σ ρ α : Type) where
  | wait
  | next (s : σ) (rest : List α)
  | halt (x : ρ) (s : σ) (rest : List α)

/-- A machine whose turns are stable under input arriving later. -/
structure Resumable (σ ρ α : Type) where
  turn : σ → List α → Turn σ ρ α
  next_append : ∀ {s b s' r} (c : List α), turn s b = .next s' r → turn s (b ++ c) = .next s' (r ++ c)
  halt_append : ∀ {s b x s' r} (c : List α),
    turn s b = .halt x s' r → turn s (b ++ c) = .halt x s' (r ++ c)
  next_shorter : ∀ {s b s' r}, turn s b = .next s' r → r.length < b.length

namespace Resumable

variable {σ ρ α : Type} (M : Resumable σ ρ α)

/-- How a call ends: waiting for input, or done with a result. -/
inductive Outcome (σ ρ α : Type) where
  | pending (s : σ) (rest : List α)
  | done (x : ρ) (s : σ) (rest : List α)

/-- Take turns until the machine waits or halts, at most `fuel` of them. -/
def driveFuel : ℕ → σ → List α → Outcome σ ρ α
  | 0, s, b => .pending s b
  | fuel + 1, s, b =>
      match M.turn s b with
      | .wait => .pending s b
      | .next s' r => driveFuel fuel s' r
      | .halt x s' r => .done x s' r

/-- Take turns until the machine waits or halts. Every turn but the last consumes input, so the
length of the input bounds their number. -/
def drive (s : σ) (b : List α) : Outcome σ ρ α :=
  M.driveFuel (b.length + 1) s b

/-- Any two amounts of fuel above the length of the input agree. -/
theorem driveFuel_congr {m : ℕ} :
    ∀ {n : ℕ} {s : σ} {b : List α}, b.length < m → b.length < n →
      M.driveFuel m s b = M.driveFuel n s b := by
  induction m with
  | zero => intro n s b hm _; omega
  | succ m ih =>
      intro n s b hm hn
      cases n with
      | zero => omega
      | succ n =>
          simp only [driveFuel]
          cases ht : M.turn s b with
          | wait => rfl
          | halt x s' r => rfl
          | next s' r =>
              have hr := M.next_shorter ht
              exact ih (by omega) (by omega)

/-- `drive` one turn at a time. -/
theorem drive_eq (s : σ) (b : List α) :
    M.drive s b =
      match M.turn s b with
      | .wait => .pending s b
      | .next s' r => M.drive s' r
      | .halt x s' r => .done x s' r := by
  rw [drive, driveFuel]
  cases ht : M.turn s b with
  | wait => rfl
  | halt x s' r => rfl
  | next s' r =>
      have hr := M.next_shorter ht
      exact M.driveFuel_congr (by omega) (by omega)

theorem drive_of_wait {s : σ} {b : List α} (h : M.turn s b = .wait) :
    M.drive s b = .pending s b := by
  rw [drive_eq, h]

theorem drive_of_next {s s' : σ} {b r : List α} (h : M.turn s b = .next s' r) :
    M.drive s b = M.drive s' r := by
  rw [drive_eq, h]

theorem drive_of_halt {s s' : σ} {b r : List α} {x : ρ} (h : M.turn s b = .halt x s' r) :
    M.drive s b = .done x s' r := by
  rw [drive_eq, h]

/-- Induction along the turns of a call. -/
theorem drive_induction {P : σ → List α → Prop}
    (wait : ∀ s b, M.turn s b = .wait → P s b)
    (halt : ∀ s b x s' r, M.turn s b = .halt x s' r → P s b)
    (next : ∀ s b s' r, M.turn s b = .next s' r → P s' r → P s b) (s : σ) (b : List α) : P s b := by
  induction hn : b.length using Nat.strongRecOn generalizing s b with
  | _ n ih =>
      cases ht : M.turn s b with
      | wait => exact wait s b ht
      | halt x s' r => exact halt s b x s' r ht
      | next s' r => exact next s b s' r ht (ih _ (hn ▸ M.next_shorter ht) _ _ rfl)

/-! ## Input that arrives later -/

/-- Continue an outcome with input that arrived after the call. -/
def Outcome.resume : Outcome σ ρ α → List α → Outcome σ ρ α
  | .pending s r, c => M.drive s (r ++ c)
  | .done x s r, c => .done x s (r ++ c)

/-- **Driving a concatenation is driving the pieces.** -/
theorem drive_append (c : List α) (s : σ) (b : List α) :
    M.drive s (b ++ c) = (M.drive s b).resume M c := by
  refine M.drive_induction (P := fun s b => M.drive s (b ++ c) = (M.drive s b).resume M c)
    ?_ ?_ ?_ s b
  · intro s b ht
    rw [M.drive_of_wait ht]
    rfl
  · intro s b x s' r ht
    rw [M.drive_of_halt ht, M.drive_of_halt (M.halt_append c ht)]
    rfl
  · intro s b s' r ht ih
    rw [M.drive_of_next ht, M.drive_of_next (M.next_append c ht), ih]

theorem drive_append_of_pending {s s' : σ} {b r : List α} (h : M.drive s b = .pending s' r)
    (c : List α) : M.drive s (b ++ c) = M.drive s' (r ++ c) := by
  rw [drive_append, h]
  rfl

theorem drive_append_of_done {s s' : σ} {b r : List α} {x : ρ} (h : M.drive s b = .done x s' r)
    (c : List α) : M.drive s (b ++ c) = .done x s' (r ++ c) := by
  rw [drive_append, h]
  rfl

/-- Feed the pieces of an input one by one, stopping at the first result; what was not fed yet
counts as unread. -/
def feed (s : σ) (b : List α) : List (List α) → Outcome σ ρ α
  | [] => .pending s b
  | c :: cs =>
      match M.drive s (b ++ c) with
      | .pending s' r => feed s' r cs
      | .done x s' r => .done x s' (r ++ cs.flatten)

/-- A call leaves nothing to do until more input arrives. -/
theorem drive_of_drive_pending {s s' : σ} {b r : List α} (h : M.drive s b = .pending s' r) :
    M.drive s' r = .pending s' r := by
  have := M.drive_append_of_pending h []
  rw [List.append_nil, List.append_nil] at this
  rw [← this, h]

/-- **Feeding the pieces of an input ends as one call on the whole input does**, from any state in
which the machine is waiting. -/
theorem feed_eq_drive :
    ∀ (cs : List (List α)) {s : σ} {b : List α}, M.drive s b = .pending s b →
      M.feed s b cs = M.drive s (b ++ cs.flatten)
  | [], s, b, h => by simp [feed, h]
  | c :: cs, s, b, _ => by
    rw [feed, List.flatten_cons, ← List.append_assoc]
    cases hd : M.drive s (b ++ c) with
    | pending s' r =>
        simp only
        rw [feed_eq_drive cs (M.drive_of_drive_pending hd), M.drive_append_of_pending hd]
    | done x s' r => rw [M.drive_append_of_done hd]

/-! ## All results of an input

After a result the machine may be restarted: `restart x s` is the state to go on from, or nothing
when the result is not one to go on after. -/

section Restart

variable (restart : ρ → σ → Option σ)

/-- All results of an input, each with the state it was reached in; nothing when one of them is not
accepted by `restart`. -/
def drainFuel : ℕ → σ → List α → Option (List (ρ × σ))
  | 0, _, _ => some []
  | fuel + 1, s, b =>
      match M.drive s b with
      | .pending _ _ => some []
      | .done x s' r =>
          match restart x s' with
          | none => none
          | some s₀ => (drainFuel fuel s₀ r).map ((x, s') :: ·)

/-- All results of an input. An accepted result consumes input, so its length bounds them. -/
def drain (s : σ) (b : List α) : Option (List (ρ × σ)) :=
  M.drainFuel restart (b.length + 1) s b

/-- Accepted results consume input. -/
def Progresses : Prop :=
  ∀ {s b x s' r}, M.turn s b = .halt x s' r → (restart x s').isSome → r.length < b.length

variable {M restart}

theorem drive_done_length (hp : M.Progresses restart) {x : ρ} {s' : σ} {r : List α}
    (hx : (restart x s').isSome) (s : σ) (b : List α) :
    M.drive s b = .done x s' r → r.length < b.length := by
  refine M.drive_induction (P := fun s b => M.drive s b = .done x s' r → r.length < b.length)
    ?_ ?_ ?_ s b
  · intro s b ht h
    rw [M.drive_of_wait ht] at h
    cases h
  · intro s b y t q ht h
    rw [M.drive_of_halt ht] at h
    cases h
    exact hp ht hx
  · intro s b t q ht ih h
    rw [M.drive_of_next ht] at h
    exact (ih h).trans (M.next_shorter ht)

theorem drainFuel_congr (hp : M.Progresses restart) {m : ℕ} :
    ∀ {n : ℕ} {s : σ} {b : List α}, b.length < m → b.length < n →
      M.drainFuel restart m s b = M.drainFuel restart n s b := by
  induction m with
  | zero => intro n s b hm _; omega
  | succ m ih =>
      intro n s b hm hn
      cases n with
      | zero => omega
      | succ n =>
          simp only [drainFuel]
          cases hd : M.drive s b with
          | pending s' r => rfl
          | done x s' r =>
              cases hx : restart x s' with
              | none => simp only [hx]
              | some s₀ =>
                  have hr := drive_done_length hp (by simp [hx]) s b hd
                  simp only [hx]
                  rw [ih (n := n) (by omega) (by omega)]

theorem drain_of_pending {s s' : σ} {b r : List α} (h : M.drive s b = .pending s' r) :
    M.drain restart s b = some [] := by
  rw [drain, drainFuel, h]

theorem drain_of_refused {s s' : σ} {b r : List α} {x : ρ} (h : M.drive s b = .done x s' r)
    (hx : restart x s' = none) : M.drain restart s b = none := by
  rw [drain, drainFuel, h]
  simp [hx]

theorem drain_of_done (hp : M.Progresses restart) {s s' s₀ : σ} {b r : List α} {x : ρ}
    (h : M.drive s b = .done x s' r) (hx : restart x s' = some s₀) :
    M.drain restart s b = (M.drain restart s₀ r).map ((x, s') :: ·) := by
  have hr := drive_done_length hp (by simp [hx]) s b h
  rw [drain, drainFuel, h]
  simp only [hx]
  rw [drain, drainFuel_congr hp (n := r.length + 1) (by omega) (by omega)]

/-- Input that arrives while the machine waits is added to what it waits with. -/
theorem drain_append_of_pending (hp : M.Progresses restart) {s s' : σ} {b r : List α}
    (h : M.drive s b = .pending s' r) (c : List α) :
    M.drain restart s (b ++ c) = M.drain restart s' (r ++ c) := by
  have hd := M.drive_append_of_pending h c
  cases hd' : M.drive s' (r ++ c) with
  | pending t q => rw [drain_of_pending hd', drain_of_pending (hd.trans hd')]
  | done x t q =>
      cases hx : restart x t with
      | none => rw [drain_of_refused hd' hx, drain_of_refused (hd.trans hd') hx]
      | some s₀ => rw [drain_of_done hp hd' hx, drain_of_done hp (hd.trans hd') hx]

theorem drain_append_of_done (hp : M.Progresses restart) {s s' s₀ : σ} {b r : List α} {x : ρ}
    (h : M.drive s b = .done x s' r) (hx : restart x s' = some s₀) (c : List α) :
    M.drain restart s (b ++ c) = (M.drain restart s₀ (r ++ c)).map ((x, s') :: ·) :=
  drain_of_done hp (M.drive_append_of_done h c) hx

/-- The results of a part of the input come first among the results of the whole. -/
theorem drain_prefix (hp : M.Progresses restart) (c : List α) {all : List (ρ × σ)} :
    ∀ {b : List α} {s : σ}, M.drain restart s (b ++ c) = some all →
      ∃ first later, M.drain restart s b = some first ∧ all = first ++ later := by
  intro b s h
  -- an accepted result leaves less input than there was
  induction hn : b.length using Nat.strongRecOn generalizing b s all with
  | _ n ih =>
      cases hd : M.drive s b with
      | pending s' r => exact ⟨[], all, drain_of_pending hd, rfl⟩
      | done x s' r =>
          cases hx : restart x s' with
          | none =>
              rw [drain_of_refused (M.drive_append_of_done hd c) hx] at h
              cases h
          | some s₀ =>
              rw [drain_append_of_done hp hd hx] at h
              obtain ⟨rest, hrest, rfl⟩ := Option.map_eq_some_iff.mp h
              have hr := drive_done_length hp (by simp [hx]) s b hd
              obtain ⟨first, later, hf, rfl⟩ := ih r.length (hn ▸ hr) hrest rfl
              exact ⟨(x, s') :: first, later, by rw [drain_of_done hp hd hx, hf]; rfl, rfl⟩

/-! ## The first results -/

/-- From `s` the input gives these results first, each with the state it was reached in, and leaves the
machine in `s'` with `r` unread. -/
inductive Gives (M : Resumable σ ρ α) (restart : ρ → σ → Option σ) :
    σ → List α → List (ρ × σ) → σ → List α → Prop where
  | nil (s : σ) (b : List α) : Gives M restart s b [] s b
  | cons {s s₁ s₀ s' : σ} {b r₁ r : List α} {x : ρ} {out : List (ρ × σ)}
      (h : M.drive s b = .done x s₁ r₁) (hx : restart x s₁ = some s₀)
      (hrest : Gives M restart s₀ r₁ out s' r) : Gives M restart s b ((x, s₁) :: out) s' r

variable {s s' s₁ s₀ : σ} {b r r₁ : List α} {x : ρ} {out : List (ρ × σ)}

/-- More input leaves the first results as they are. -/
theorem Gives.append (h : M.Gives restart s b out s' r) (c : List α) :
    M.Gives restart s (b ++ c) out s' (r ++ c) := by
  induction h with
  | nil s b => exact .nil s (b ++ c)
  | cons h hx _ ih => exact .cons (M.drive_append_of_done h c) hx ih

/-- One more result. -/
theorem Gives.concat (h : M.Gives restart s b out s' r) (hd : M.drive s' r = .done x s₁ r₁)
    (hx : restart x s₁ = some s₀) : M.Gives restart s b (out ++ [(x, s₁)]) s₀ r₁ := by
  induction h with
  | nil s b => exact .cons hd hx (.nil _ _)
  | cons h hx' _ ih => exact .cons h hx' (ih hd)

/-! ## One result per piece -/

variable (M restart)

/-- A consumer that drives the machine once per piece of input and so takes at most one result for
each; the rest of the input waits for the next piece. -/
def serve (s : σ) (b : List α) : List (List α) → Option (List (ρ × σ) × σ × List α)
  | [] => some ([], s, b)
  | c :: cs =>
      match M.drive s (b ++ c) with
      | .pending s' r => serve s' r cs
      | .done x s' r =>
          match restart x s' with
          | none => none
          | some s₀ => (serve s₀ r cs).map fun p => ((x, s') :: p.1, p.2)

/-- The number of results of an input. -/
def count (s : σ) (b : List α) : ℕ :=
  ((M.drain restart s b).getD []).length

/-- How many results one-per-piece consumption takes from the pieces `cs`: over every cut point,
the results complete there plus one for every later piece, and the least of these. -/
def servable (s : σ) (cs : List (List α)) : ℕ :=
  (Finset.range (cs.length + 1)).inf' (by simp) fun j =>
    M.count restart s (cs.take j).flatten + (cs.length - j)

variable {M restart}

theorem servable_nil (s : σ) : M.servable restart s [] = M.count restart s [] := by
  simp [servable]

/-- One more piece allows one more result, and never more than the input holds. -/
theorem servable_append_singleton (s : σ) (cs : List (List α)) (c : List α) :
    M.servable restart s (cs ++ [c]) =
      min (M.count restart s (cs ++ [c]).flatten) (M.servable restart s cs + 1) := by
  have hlast : ((cs ++ [c]).take (cs ++ [c]).length).flatten = (cs ++ [c]).flatten := by
    rw [List.take_length]
  have hearlier : ∀ j ∈ Finset.range (cs.length + 1),
      M.count restart s ((cs ++ [c]).take j).flatten + ((cs ++ [c]).length - j) =
        M.count restart s (cs.take j).flatten + (cs.length - j) + 1 := by
    intro j hj
    have hj : j ≤ cs.length := by simpa [Nat.lt_succ_iff] using hj
    rw [List.take_append_of_le_length hj, List.length_append, List.length_singleton]
    omega
  apply le_antisymm
  · refine le_min ?_ ?_
    · refine (Finset.inf'_le _ (b := (cs ++ [c]).length) (by simp)).trans ?_
      rw [hlast]
      omega
    · obtain ⟨j, hj, he⟩ := Finset.exists_mem_eq_inf' (s := Finset.range (cs.length + 1)) (by simp)
        fun j => M.count restart s (cs.take j).flatten + (cs.length - j)
      rw [servable, servable, he, ← hearlier j hj]
      refine Finset.inf'_le (f := fun j => M.count restart s ((cs ++ [c]).take j).flatten +
        ((cs ++ [c]).length - j)) ?_
      simp only [Finset.mem_range, List.length_append, List.length_singleton] at hj ⊢
      omega
  · refine Finset.le_inf' _ _ fun j hj => ?_
    simp only [Finset.mem_range, List.length_append, List.length_singleton] at hj
    rcases Nat.lt_or_ge j (cs.length + 1) with hlt | hge
    · have hmem : j ∈ Finset.range (cs.length + 1) := Finset.mem_range.mpr hlt
      rw [hearlier j hmem]
      refine (min_le_right _ _).trans (Nat.succ_le_succ ?_)
      exact Finset.inf'_le (f := fun j => M.count restart s (cs.take j).flatten +
        (cs.length - j)) hmem
    · have hj' : j = (cs ++ [c]).length := by
        rw [List.length_append, List.length_singleton]
        omega
      subst hj'
      rw [hlast]
      exact (min_le_left _ _).trans (by omega)

theorem serve_append_singleton (c : List α) :
    ∀ (cs : List (List α)) (s : σ) (b : List α),
      M.serve restart s b (cs ++ [c]) =
        (M.serve restart s b cs).bind fun p =>
          (M.serve restart p.2.1 p.2.2 [c]).map fun q => (p.1 ++ q.1, q.2)
  | [], s, b => by simp [serve]
  | c' :: cs, s, b => by
    rw [List.cons_append, serve, serve]
    cases hd : M.drive s (b ++ c') with
    | pending s' r => exact serve_append_singleton c cs s' r
    | done x s' r =>
        cases hx : restart x s' with
        | none => simp [hx]
        | some s₀ =>
            simp only [hx]
            rw [serve_append_singleton c cs s₀ r]
            cases M.serve restart s₀ r cs with
            | none => rfl
            | some p =>
                simp only [Option.bind_some, Option.map_some, Option.map_map]
                rfl

/-- The slow consumer after the pieces `cs`: it has taken `servable` results, and what the machine
still has to give is what a fresh machine would give after those. -/
theorem exists_serve (hp : M.Progresses restart) {s : σ} (hs : M.drive s [] = .pending s [])
    (cs : List (List α)) (h : (M.drain restart s cs.flatten).isSome) :
    ∃ out s' r, M.serve restart s [] cs = some (out, s', r) ∧
      out.length = M.servable restart s cs ∧
      ∀ c, M.drain restart s (cs.flatten ++ c) = (M.drain restart s' (r ++ c)).map (out ++ ·) := by
  -- on the last piece: `servable` is a minimum over all cuts and grows by one piece at the end
  induction cs using List.reverseRecOn with
  | nil =>
      refine ⟨[], s, [], rfl, ?_, ?_⟩
      · rw [servable_nil, count, drain_of_pending hs]
        rfl
      · intro c
        simp
  | append_singleton cs c ih =>
      rw [List.flatten_append, List.flatten_singleton] at h
      obtain ⟨all, hall⟩ := Option.isSome_iff_exists.mp h
      obtain ⟨first, -, hfirst, -⟩ := drain_prefix hp c hall
      obtain ⟨out, s', r, hserve, hlen, hrest⟩ := ih (by simp [hfirst])
      have hcount : ∀ later, M.drain restart s' (r ++ c) = some later →
          M.count restart s (cs ++ [c]).flatten = out.length + later.length := by
        intro later hl
        rw [count, List.flatten_append, List.flatten_singleton, hrest, hl]
        simp
      rw [serve_append_singleton, hserve, servable_append_singleton]
      simp only [Option.bind_some, serve]
      cases hd : M.drive s' (r ++ c) with
      | pending t q =>
          refine ⟨out, t, q, by simp, ?_, ?_⟩
          · rw [hcount [] (drain_of_pending hd), ← hlen]
            simp
          · intro c'
            rw [List.flatten_append, List.flatten_singleton, List.append_assoc, hrest,
              ← List.append_assoc, drain_append_of_pending hp hd]
      | done x t q =>
          cases hx : restart x t with
          | none =>
              rw [hrest, drain_of_refused hd hx] at hall
              cases hall
          | some s₀ =>
              refine ⟨out ++ [(x, t)], s₀, q, by simp [hx], ?_, ?_⟩
              · obtain ⟨later, hl, -⟩ := Option.map_eq_some_iff.mp ((hrest c).symm.trans hall)
                have hl' := hl
                rw [drain_of_done hp hd hx] at hl'
                obtain ⟨later', -, rfl⟩ := Option.map_eq_some_iff.mp hl'
                rw [hcount _ hl, ← hlen]
                simp
              · intro c'
                rw [List.flatten_append, List.flatten_singleton, List.append_assoc, hrest,
                  ← List.append_assoc, drain_append_of_done hp hd hx]
                cases M.drain restart s₀ (q ++ c') <;> simp

/-- **How far one result per piece gets**: exactly the first `servable` results of the input. -/
theorem serve_eq_take (hp : M.Progresses restart) {s : σ} (hs : M.drive s [] = .pending s [])
    {cs : List (List α)} {all : List (ρ × σ)} (h : M.drain restart s cs.flatten = some all) :
    ∃ s' r, M.serve restart s [] cs = some (all.take (M.servable restart s cs), s', r) := by
  obtain ⟨out, s', r, hserve, hlen, hrest⟩ := exists_serve hp hs cs (by simp [h])
  have hall := hrest []
  rw [List.append_nil, List.append_nil, h] at hall
  obtain ⟨later, -, rfl⟩ := Option.map_eq_some_iff.mp hall.symm
  exact ⟨s', r, by rw [hserve, ← hlen, List.take_left]⟩

end Restart

end Resumable
