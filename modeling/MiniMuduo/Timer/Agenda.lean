import MiniMuduo.Timer.TimerQueue
import MiniMuduo.Lib.History
import Mathlib.Data.Set.Basic

/-!
# Timers without memory

What the timer queue is for, with no sets, pointers or heap in it. Every timer has one place: it is
not born yet, waits to be added, is queued for some time, belongs to the batch being run, or is dead.
`Agenda.Step` has the moves between these places, each with what it appends to the log.

The history invariants of the log are proved here, in three layers that build on each other:
`Lives` (places and the log agree), `Batches` (every batch ran what was due, in order) and `Cancels`
(what cancellations during a batch did to it).
-/

namespace MiniMuduo

/-- Where a timer is. -/
inductive Place where
  | unborn
  | adding (when : TimePoint)
  | queued (expiration : TimePoint)
  | expired
  | dead

/-- A queued timer that is due goes into the batch. -/
def Place.start (now : TimePoint) : Place → Place
  | .queued e => if e ≤ now then .expired else .queued e
  | p => p

structure Agenda where
  place : TimerId → Place
  interval : TimerId → ℚ
  /-- Cancelled during the batch being run. -/
  canceling : Set TimerId
  running : Option Batch
  batches : ℕ
  log : List TimerEvent

namespace Agenda

/-- The timers of a list that are due at `now`. -/
def due (now : TimePoint) (xs : List Scheduled) : List Scheduled :=
  xs.filter (·.expiration ≤ now)

/-- The list of all queued timers in the order of their expirations. -/
structure Lists (place : TimerId → Place) (xs : List Scheduled) : Prop where
  mem_iff : ∀ x, x ∈ xs ↔ place x.id = .queued x.expiration
  sorted : xs.Pairwise (·.expiration ≤ ·.expiration)
  nodup : (xs.map Scheduled.id).Nodup

/-- The timers of a batch that are put back at its end. -/
def Kept (s : Agenda) (id : TimerId) : Prop := 0 < s.interval id ∧ id ∉ s.canceling

/-- The expiration a timer of the batch with this `now` is put back with. -/
def nextExpiration (s : Agenda) (now : TimePoint) (id : TimerId) : TimePoint :=
  now + microseconds (toMicroseconds (s.interval id))

open Classical in
/-- At the end of a batch its timers are put back or dead. -/
noncomputable def finish (s : Agenda) (now : TimePoint) (id : TimerId) : Place :=
  match s.place id with
  | .expired => if s.Kept id then .queued (s.nextExpiration now id) else .dead
  | p => p

open Classical in
/-- The deletions at the end of a batch. -/
noncomputable def deletions (s : Agenda) (b : Batch) : List TimerEvent :=
  (b.called.filter fun x => ¬ s.Kept x.id).map (.deleted ·.id)

/-- The batch a cancellation falls into. -/
def during (s : Agenda) : Option ℕ := s.running.map fun _ => s.batches

open Classical in
/-- The moves, labelled with the timer they cancel. -/
inductive Step : Agenda → Option TimerId → Agenda → Prop where
  | create {s : Agenda} {id : TimerId} (when : TimePoint) (i : ℚ) : s.place id = .unborn →
      (∀ id', s.place id' ≠ .unborn → id'.seq ≠ id.seq) →
      Step s none { s with
        place := Function.update s.place id (.adding when)
        interval := Function.update s.interval id i
        log := s.log ++ [.created id when i] }
  | add {s : Agenda} {id : TimerId} {when : TimePoint} : s.place id = .adding when →
      Step s none { s with
        place := Function.update s.place id (.queued when)
        log := s.log ++ [.added id] }
  | cancelQueued {s : Agenda} {id : TimerId} {e : TimePoint} : s.place id = .queued e →
      Step s (some id) { s with
        place := Function.update s.place id .dead
        log := s.log ++ [.cancelled id s.during, .deleted id] }
  | cancelOther {s : Agenda} {id : TimerId} : (∀ e, s.place id ≠ .queued e) →
      Step s (some id) { s with
        canceling := if s.running.isSome then insert id s.canceling else s.canceling
        log := s.log ++ [.cancelled id s.during] }
  | start {s : Agenda} (now : TimePoint) {xs : List Scheduled} :
      s.running = none → Lists s.place xs →
      Step s none { s with
        place := fun id => (s.place id).start now
        canceling := ∅
        running := some ⟨now, [], due now xs⟩
        batches := s.batches + 1
        log := s.log ++ [.started (s.batches + 1) now xs] }
  | run {s : Agenda} {b : Batch} {x : Scheduled} {xs : List Scheduled} :
      s.running = some b → b.waiting = x :: xs →
      Step s none { s with
        running := some ⟨b.now, b.called ++ [x], xs⟩
        log := s.log ++ [.ran s.batches x] }
  | finish {s : Agenda} {b : Batch} {after : List Scheduled} :
      s.running = some b → b.waiting = [] → Lists (s.finish b.now) after →
      Step s none { s with
        place := s.finish b.now
        running := none
        log := s.log ++ (s.deletions b ++ [.finished s.batches after]) }

/-- Nothing has happened. -/
def Initial (s : Agenda) : Prop :=
  (∀ id, s.place id = .unborn) ∧ s.running = none ∧ s.batches = 0 ∧ s.log = []

/-- The agendas moves lead to when every cancellation satisfies `ok`. -/
inductive Reachable (ok : Agenda → TimerId → Prop) : Agenda → Prop where
  | initial {s : Agenda} : s.Initial → Reachable ok s
  | step {s s' : Agenda} {l : Option TimerId} :
      Reachable ok s → Step s l s' → (∀ id ∈ l, ok s id) → Reachable ok s'

/-! ## Places and the log -/

/-- The log knows where every timer has been. -/
structure Lives (s : Agenda) : Prop where
  created : ∀ id, s.place id ≠ .unborn ↔ ∃ w i, .created id w i ∈ s.log
  interval : ∀ {id w i}, .created id w i ∈ s.log → s.interval id = i
  seq_unique : ∀ {id id' w i w' i'}, .created id w i ∈ s.log → .created id' w' i' ∈ s.log →
    id.seq = id'.seq → id = id'
  deleted : ∀ id, .deleted id ∈ s.log ↔ s.place id = .dead
  deleted_once : ∀ id, s.log.count (.deleted id) ≤ 1
  added : ∀ id, .added id ∈ s.log → s.place id ≠ .unborn ∧ ∀ w, s.place id ≠ .adding w
  ran : ∀ b x, .ran b x ∈ s.log → s.place x.id ≠ .unborn
  ran_alive : ∀ b x, ¬ [TimerEvent.deleted x.id, .ran b x].Sublist s.log
  expired : ∀ id, s.place id = .expired ↔ ∃ b ∈ s.running, id ∈ b.expired.map Scheduled.id
  nodup : ∀ b ∈ s.running, (b.expired.map Scheduled.id).Nodup

theorem Lives.initial {s : Agenda} (h : s.Initial) : s.Lives := by
  obtain ⟨hplace, hrun, -, hlog⟩ := h
  constructor <;> simp [hplace, hrun, hlog]

theorem Lives.create {s : Agenda} {id : TimerId} (h : s.Lives) (when : TimePoint) (i : ℚ)
    (hp : s.place id = .unborn) (hseq : ∀ id', s.place id' ≠ .unborn → id'.seq ≠ id.seq) :
    Lives { s with
      place := Function.update s.place id (.adding when)
      interval := Function.update s.interval id i
      log := s.log ++ [.created id when i] } := by
  have hnew : ∀ w i, .created id w i ∉ s.log := fun w i hmem =>
    (h.created id).mpr ⟨w, i, hmem⟩ hp
  have hnotAdded : .added id ∉ s.log := fun hmem => (h.added id hmem).1 hp
  have hnotDead : .deleted id ∉ s.log := fun hmem => by simp [(h.deleted id).mp hmem] at hp
  have hnotExpired : ¬ ∃ b ∈ s.running, id ∈ b.expired.map Scheduled.id := fun hmem => by
    simp [(h.expired id).mpr hmem] at hp
  constructor
  case created =>
    intro id'
    by_cases heq : id' = id
    · subst heq
      simpa using ⟨when, i, .inr ⟨rfl, rfl⟩⟩
    · simpa [heq] using h.created id'
  case interval =>
    intro id' w' i' hmem
    by_cases heq : id' = id
    · subst heq
      simp_all
    · have hmem' : .created id' w' i' ∈ s.log := by simpa [heq] using hmem
      simpa [heq] using h.interval hmem'
  case seq_unique =>
    intro id₁ id₂ w₁ i₁ w₂ i₂ hmem₁ hmem₂ heq
    -- each of the two is an old timer or the new one, whose number no old timer has
    have hcases : ∀ {id' w' i'}, .created id' w' i' ∈ s.log ++ [.created id when i] →
        s.place id' ≠ .unborn ∧ .created id' w' i' ∈ s.log ∨ id' = id := by
      intro id' w' i' hmem
      rcases List.mem_append.mp hmem with hmem | hmem
      · exact .inl ⟨(h.created id').mpr ⟨w', i', hmem⟩, hmem⟩
      · exact .inr (by simpa using hmem : id' = id ∧ _).1
    rcases hcases hmem₁ with ⟨hb₁, hmem₁⟩ | rfl
    · rcases hcases hmem₂ with ⟨-, hmem₂⟩ | rfl
      · exact h.seq_unique hmem₁ hmem₂ heq
      · exact absurd heq (hseq id₁ hb₁)
    · rcases hcases hmem₂ with ⟨hb₂, -⟩ | rfl
      · exact absurd heq.symm (hseq id₂ hb₂)
      · rfl
  case deleted =>
    intro id'
    by_cases heq : id' = id <;> simp_all [h.deleted]
  case deleted_once =>
    intro id'
    simpa using h.deleted_once id'
  case added =>
    intro id' hmem
    by_cases heq : id' = id <;> simp_all [h.added]
  case ran =>
    intro b x hmem
    by_cases heq : x.id = id <;> simp_all [h.ran b x]
  case ran_alive =>
    intro b x hs
    exact h.ran_alive b x (History.sublist_of_append (p := [_]) (by simp) hs)
  case expired =>
    intro id'
    by_cases heq : id' = id
    · subst heq
      simpa using hnotExpired
    · simpa [heq] using h.expired id'
  case nodup =>
    exact h.nodup

/-- What a move that creates no timer may append to the log, and how that shows in the places. -/
structure Appends (s s' : Agenda) (evs : List TimerEvent) : Prop where
  log : s'.log = s.log ++ evs
  interval : s'.interval = s.interval
  created : ∀ id w i, .created id w i ∉ evs
  born : ∀ id, s'.place id ≠ .unborn ↔ s.place id ≠ .unborn
  dead : ∀ id, s'.place id = .dead ↔ s.place id = .dead ∨ .deleted id ∈ evs
  deleted : ∀ id, .deleted id ∈ evs → s.place id ≠ .dead
  deleted_once : ∀ id, evs.count (.deleted id) ≤ 1
  added : ∀ id, .added id ∈ evs → s.place id ≠ .unborn ∧ ∀ w, s'.place id ≠ .adding w
  notAdding : ∀ id, (∀ w, s.place id ≠ .adding w) → ∀ w, s'.place id ≠ .adding w
  ran : ∀ b x, .ran b x ∈ evs → s.place x.id = .expired ∧ s'.place x.id ≠ .dead

/-- Only the timers of a batch are left to say something about. -/
theorem Lives.append {s s' : Agenda} (h : s.Lives) (evs : List TimerEvent) (ha : s.Appends s' evs)
    (hexpired : ∀ id, s'.place id = .expired ↔ ∃ b ∈ s'.running, id ∈ b.expired.map Scheduled.id)
    (hnodup : ∀ b ∈ s'.running, (b.expired.map Scheduled.id).Nodup) : s'.Lives := by
  have hcreated : ∀ {id w i}, .created id w i ∈ s'.log ↔ .created id w i ∈ s.log := by
    intro id w i
    rw [ha.log, List.mem_append, or_iff_left (ha.created id w i)]
  have hdeleted : ∀ id, .deleted id ∈ s'.log ↔ s'.place id = .dead := by
    intro id
    rw [ha.log, List.mem_append, h.deleted, ha.dead]
  refine ⟨?created, ?interval, ?seq_unique, hdeleted, ?deleted_once, ?added, ?ran, ?ran_alive,
    hexpired, hnodup⟩
  case created =>
    intro id
    simp only [ha.born, h.created, hcreated]
  case interval =>
    intro id w i hmem
    rw [ha.interval]
    exact h.interval (hcreated.mp hmem)
  case seq_unique =>
    intro id id' w i w' i' hmem hmem'
    exact h.seq_unique (hcreated.mp hmem) (hcreated.mp hmem')
  case deleted_once =>
    intro id
    rw [ha.log, List.count_append]
    by_cases hnew : .deleted id ∈ evs
    · have hold : s.log.count (.deleted id) = 0 := List.count_eq_zero_of_not_mem fun hmem =>
        ha.deleted id hnew ((h.deleted id).mp hmem)
      rw [hold, Nat.zero_add]
      exact ha.deleted_once id
    · rw [List.count_eq_zero_of_not_mem hnew]
      exact h.deleted_once id
  case added =>
    intro id hmem
    rw [ha.log, List.mem_append] at hmem
    rw [ha.born]
    rcases hmem with hmem | hmem
    · exact ⟨(h.added id hmem).1, ha.notAdding id (h.added id hmem).2⟩
    · exact ha.added id hmem
  case ran =>
    intro b x hmem
    rw [ha.log, List.mem_append] at hmem
    rw [ha.born]
    rcases hmem with hmem | hmem
    · exact h.ran b x hmem
    · rw [(ha.ran b x hmem).1]
      exact Place.noConfusion
  case ran_alive =>
    intro b x hs
    by_cases hnew : .ran b x ∈ evs
    · exact (ha.ran b x hnew).2 ((hdeleted x.id).mp (hs.subset List.mem_cons_self))
    · rw [ha.log] at hs
      exact h.ran_alive b x (History.sublist_of_append (p := [_]) hnew hs)

/-- A property of places that moving one timer does not change for it holds of the same timers. -/
theorem update_place_iff {place : TimerId → Place} {id : TimerId} {p : Place} (P : Place → Prop)
    (h : P p ↔ P (place id)) (id' : TimerId) :
    P (Function.update place id p id') ↔ P (place id') := by
  by_cases heq : id' = id
  · subst heq
    rw [Function.update_self]
    exact h
  · rw [Function.update_of_ne heq]

theorem Lives.add {s : Agenda} {id : TimerId} {when : TimePoint} (h : s.Lives)
    (hp : s.place id = .adding when) :
    Lives { s with
      place := Function.update s.place id (.queued when)
      log := s.log ++ [.added id] } := by
  have hiff : ∀ (P : Place → Prop), (P (.queued when) ↔ P (.adding when)) → ∀ id',
      P (Function.update s.place id (.queued when) id') ↔ P (s.place id') := fun P hP id' =>
    update_place_iff P (by rwa [hp]) id'
  refine h.append [.added id] ⟨rfl, rfl, by simp, ?_, ?_, by simp, by simp, ?_, ?_, by simp⟩
    ?_ h.nodup
  · exact hiff (· ≠ .unborn) (by simp)
  · simpa using hiff (· = .dead) (by simp)
  · intro id' hmem
    rw [show id' = id by simpa using hmem]
    simp [hp]
  · intro id' hne w
    by_cases heq : id' = id
    · simp [heq]
    · simpa [heq] using hne w
  · intro id'
    exact (hiff (· = .expired) (by simp) id').trans (h.expired id')

theorem Lives.cancelQueued {s : Agenda} {id : TimerId} {e : TimePoint} (h : s.Lives)
    (hp : s.place id = .queued e) :
    Lives { s with
      place := Function.update s.place id .dead
      log := s.log ++ [.cancelled id s.during, .deleted id] } := by
  have hiff : ∀ (P : Place → Prop), (P .dead ↔ P (.queued e)) → ∀ id',
      P (Function.update s.place id .dead id') ↔ P (s.place id') := fun P hP id' =>
    update_place_iff P (by rwa [hp]) id'
  refine h.append [.cancelled id s.during, .deleted id]
    ⟨rfl, rfl, by simp, ?_, ?_, ?_, ?_, by simp, ?_, by simp⟩ ?_ h.nodup
  · exact hiff (· ≠ .unborn) (by simp)
  · intro id'
    by_cases heq : id' = id
    · simp [heq]
    · simp [heq]
  · intro id' hmem
    rw [show id' = id by simpa using hmem, hp]
    simp
  · intro id'
    have hnodup : [TimerEvent.cancelled id s.during, .deleted id].Nodup := by simp
    exact List.nodup_iff_count_le_one.mp hnodup _
  · intro id' hne w
    exact (hiff (· ≠ .adding w) (by simp) id').mpr (hne w)
  · intro id'
    exact (hiff (· = .expired) (by simp) id').trans (h.expired id')

theorem Lives.cancelOther {s : Agenda} (h : s.Lives) (id : TimerId) (canceling : Set TimerId) :
    Lives { s with canceling, log := s.log ++ [.cancelled id s.during] } :=
  h.append [.cancelled id s.during]
    ⟨rfl, rfl, by simp, fun _ => Iff.rfl, by simp, by simp, by simp, by simp, fun _ hne => hne, by simp⟩
    h.expired h.nodup

/-- What `Place.start` can and cannot do. -/
theorem Place.start_cases (now : TimePoint) (p : Place) :
    (∃ e, p = .queued e ∧ e ≤ now ∧ p.start now = .expired) ∨ p.start now = p := by
  cases p with
  | queued e =>
      by_cases hle : e ≤ now
      · exact .inl ⟨e, rfl, hle, by simp [Place.start, hle]⟩
      · exact .inr (by simp [Place.start, hle])
  | _ => exact .inr rfl

/-- A property that tells neither a queued timer nor one of the batch from the other places. -/
theorem start_iff {now : TimePoint} (P : Place → Prop) (h : ∀ e, P .expired ↔ P (.queued e))
    (p : Place) : P (p.start now) ↔ P p := by
  rcases Place.start_cases now p with ⟨e, rfl, -, hstart⟩ | hstart
  · rw [hstart]
    exact h e
  · rw [hstart]

theorem Lives.start {s : Agenda} {now : TimePoint} {xs : List Scheduled} (h : s.Lives)
    (hrun : s.running = none) (hxs : Lists s.place xs) :
    Lives { s with
      place := fun id => (s.place id).start now
      canceling := ∅
      running := some ⟨now, [], due now xs⟩
      batches := s.batches + 1
      log := s.log ++ [.started (s.batches + 1) now xs] } := by
  have hnone : ∀ id, s.place id ≠ .expired := fun id hp => by
    simpa [hrun] using (h.expired id).mp hp
  refine h.append [.started (s.batches + 1) now xs]
    ⟨rfl, rfl, by simp, ?_, ?_, by simp, by simp, by simp, ?_, by simp⟩ ?_ ?_
  · exact fun id => start_iff (· ≠ .unborn) (by simp) _
  · intro id
    simpa using start_iff (· = .dead) (by simp) (s.place id)
  · exact fun id hne w => (start_iff (· ≠ .adding w) (by simp) _).mpr (hne w)
  · intro id
    have hmem : (∃ b ∈ some (Batch.mk now [] (due now xs)), id ∈ b.expired.map Scheduled.id) ↔
        ∃ e, s.place id = .queued e ∧ e ≤ now := by
      simp only [Option.mem_some_iff, exists_eq_left', Batch.expired, List.nil_append, due,
        List.mem_map, List.mem_filter, decide_eq_true_eq]
      constructor
      · rintro ⟨x, ⟨hx, hle⟩, rfl⟩
        exact ⟨x.expiration, (hxs.mem_iff x).mp hx, hle⟩
      · rintro ⟨e, hp, hle⟩
        exact ⟨⟨e, id⟩, ⟨(hxs.mem_iff _).mpr hp, hle⟩, rfl⟩
    rw [hmem]
    rcases Place.start_cases now (s.place id) with ⟨e, hp, hle, hstart⟩ | hstart
    · simp only [hstart]
      simp [hp, hle]
    · simp only [hstart, hnone, false_iff, not_exists, not_and, not_le]
      intro e hp
      by_contra hle
      simp [hp, Place.start, not_lt.mp hle] at hstart
  · intro b hb
    cases hb
    exact (hxs.nodup).sublist (List.filter_sublist.map _)

/-- The timer whose turn it is belongs to the batch and was not called in it. -/
theorem Lives.next {s : Agenda} {b : Batch} {x : Scheduled} {xs : List Scheduled} (h : s.Lives)
    (hrun : s.running = some b) (hw : b.waiting = x :: xs) :
    s.place x.id = .expired ∧ x.id ∉ b.called.map Scheduled.id := by
  have hnodup := h.nodup b hrun
  rw [Batch.expired, hw, List.map_append, List.map_cons] at hnodup
  refine ⟨(h.expired x.id).mpr ⟨b, hrun, List.mem_map_of_mem (by simp [Batch.expired, hw])⟩, ?_⟩
  exact fun hmem => List.disjoint_of_nodup_append hnodup hmem List.mem_cons_self

theorem Lives.run {s : Agenda} {b : Batch} {x : Scheduled} {xs : List Scheduled} (h : s.Lives)
    (hrun : s.running = some b) (hw : b.waiting = x :: xs) :
    Lives { s with
      running := some ⟨b.now, b.called ++ [x], xs⟩
      log := s.log ++ [.ran s.batches x] } := by
  have hexp : (Batch.mk b.now (b.called ++ [x]) xs).expired = b.expired := by
    simp [Batch.expired, hw]
  obtain ⟨hplace, -⟩ := h.next hrun hw
  refine h.append [.ran s.batches x]
    ⟨rfl, rfl, by simp, fun _ => Iff.rfl, by simp, by simp, by simp, by simp, fun _ hne => hne, ?_⟩
    ?_ ?_
  · intro b' x' hmem
    rw [(show b' = s.batches ∧ x' = x by simpa using hmem).2, hplace]
    exact ⟨rfl, Place.noConfusion⟩
  · intro id
    have hold := h.expired id
    simp only [hrun, Option.mem_some_iff, exists_eq_left'] at hold ⊢
    rw [hexp]
    exact hold
  · intro b' hb'
    cases hb'
    rw [hexp]
    exact h.nodup b hrun

theorem finish_of_not_expired {s : Agenda} {now : TimePoint} {id : TimerId}
    (h : s.place id ≠ .expired) : s.finish now id = s.place id := by
  rw [Agenda.finish]
  split
  · contradiction
  · rfl

theorem finish_of_kept {s : Agenda} {now : TimePoint} {id : TimerId} (h : s.place id = .expired)
    (hk : s.Kept id) : s.finish now id = .queued (s.nextExpiration now id) := by
  simp [Agenda.finish, h, hk]

theorem finish_of_not_kept {s : Agenda} {now : TimePoint} {id : TimerId} (h : s.place id = .expired)
    (hk : ¬ s.Kept id) : s.finish now id = .dead := by
  simp [Agenda.finish, h, hk]

/-- What `finish` can and cannot do. -/
theorem finish_cases (s : Agenda) (now : TimePoint) (id : TimerId) :
    s.place id = .expired ∧ s.Kept id ∧ s.finish now id = .queued (s.nextExpiration now id) ∨
    s.place id = .expired ∧ ¬ s.Kept id ∧ s.finish now id = .dead ∨
    s.place id ≠ .expired ∧ s.finish now id = s.place id := by
  by_cases hp : s.place id = .expired
  · by_cases hk : s.Kept id
    · exact .inl ⟨hp, hk, finish_of_kept hp hk⟩
    · exact .inr (.inl ⟨hp, hk, finish_of_not_kept hp hk⟩)
  · exact .inr (.inr ⟨hp, finish_of_not_expired hp⟩)

theorem mem_deletions {s : Agenda} {b : Batch} {ev : TimerEvent} :
    ev ∈ s.deletions b ↔ ∃ x ∈ b.called, ¬ s.Kept x.id ∧ ev = .deleted x.id := by
  simp only [deletions, List.mem_map, List.mem_filter, decide_eq_true_eq, and_assoc]
  simp only [eq_comm (a := ev)]

/-- The events at the end of a batch. -/
theorem mem_finishEvents {s : Agenda} {b : Batch} {after : List Scheduled} {ev : TimerEvent}
    (h : ev ∈ s.deletions b ++ [.finished s.batches after]) :
    (∃ id, ev = .deleted id) ∨ ev = .finished s.batches after := by
  rcases List.mem_append.mp h with hmem | hmem
  · obtain ⟨x, -, -, rfl⟩ := mem_deletions.mp hmem
    exact .inl ⟨x.id, rfl⟩
  · exact .inr (List.mem_singleton.mp hmem)

/-- Any other event was there before. -/
theorem mem_log_of_finish {s : Agenda} {b : Batch} {after : List Scheduled} {ev : TimerEvent}
    (hd : ∀ id, ev ≠ .deleted id) (hf : ev ≠ .finished s.batches after)
    (h : ev ∈ s.log ++ (s.deletions b ++ [.finished s.batches after])) : ev ∈ s.log := by
  rcases List.mem_append.mp h with hmem | hmem
  · exact hmem
  · rcases mem_finishEvents hmem with ⟨id, rfl⟩ | rfl
    · exact absurd rfl (hd id)
    · exact absurd rfl hf

/-- The batch deletes each of its timers that is not kept once. -/
theorem Lives.deletions {s : Agenda} {b : Batch} (h : s.Lives) (hrun : s.running = some b)
    (hw : b.waiting = []) :
    (∀ id, .deleted id ∈ s.deletions b ↔ s.place id = .expired ∧ ¬ s.Kept id) ∧
      (s.deletions b).Nodup := by
  have hexp : b.expired = b.called := by simp [Batch.expired, hw]
  have hin : ∀ id, s.place id = .expired ↔ ∃ x ∈ b.called, x.id = id := by
    intro id
    simpa [hrun, hexp] using h.expired id
  refine ⟨?_, ?_⟩
  · intro id
    rw [mem_deletions, hin]
    constructor
    · rintro ⟨x, hx, hk, heq⟩
      cases heq
      exact ⟨⟨x, hx, rfl⟩, hk⟩
    · rintro ⟨⟨x, hx, rfl⟩, hk⟩
      exact ⟨x, hx, hk, rfl⟩
  · have hids := h.nodup b hrun
    rw [hexp] at hids
    have hall : (b.called.map fun x => TimerEvent.deleted x.id).Nodup := by
      have := hids.map (f := TimerEvent.deleted) fun a b hab => by simpa using hab
      rwa [List.map_map] at this
    exact hall.sublist (List.filter_sublist.map _)

theorem Lives.finish {s : Agenda} {b : Batch} (h : s.Lives) (hrun : s.running = some b)
    (hw : b.waiting = []) (after : List Scheduled) :
    Lives { s with
      place := s.finish b.now
      running := none
      log := s.log ++ (s.deletions b ++ [.finished s.batches after]) } := by
  obtain ⟨hdel, hnodup⟩ := h.deletions hrun hw
  have hnew : ∀ id, .deleted id ∈ s.deletions b ++ [.finished s.batches after] ↔
      s.place id = .expired ∧ ¬ s.Kept id := by
    intro id
    rw [List.mem_append, hdel, List.mem_singleton]
    simp
  refine h.append (s.deletions b ++ [.finished s.batches after])
    ⟨rfl, rfl, ?_, ?_, ?_, ?_, ?_, ?_, ?_, ?_⟩ ?_ (by simp)
  · intro id w i hmem
    rcases mem_finishEvents hmem with ⟨_, heq⟩ | heq <;> cases heq
  · intro id
    show s.finish b.now id ≠ _ ↔ _
    rcases s.finish_cases b.now id with ⟨hp, -, hfin⟩ | ⟨hp, -, hfin⟩ | ⟨-, hfin⟩
    · simp [hfin, hp]
    · simp [hfin, hp]
    · rw [hfin]
  · intro id
    show s.finish b.now id = _ ↔ _
    rw [hnew]
    rcases s.finish_cases b.now id with ⟨hp, hk, hfin⟩ | ⟨hp, hk, hfin⟩ | ⟨hp, hfin⟩
    · simp [hfin, hp, hk]
    · simp [hfin, hp, hk]
    · simp [hfin, hp]
  · intro id hmem
    simp [((hnew id).mp hmem).1]
  · intro id
    have hzero : [TimerEvent.finished s.batches after].count (.deleted id) = 0 :=
      List.count_eq_zero_of_not_mem (by simp)
    rw [List.count_append, hzero]
    exact List.nodup_iff_count_le_one.mp hnodup _
  · intro id hmem
    rcases mem_finishEvents hmem with ⟨_, heq⟩ | heq <;> cases heq
  · intro id hne w
    show s.finish b.now id ≠ _
    rcases s.finish_cases b.now id with ⟨-, -, hfin⟩ | ⟨-, -, hfin⟩ | ⟨-, hfin⟩
    · simp [hfin]
    · simp [hfin]
    · rw [hfin]
      exact hne w
  · intro b' x hmem
    rcases mem_finishEvents hmem with ⟨_, heq⟩ | heq <;> cases heq
  · intro id
    show s.finish b.now id = _ ↔ _
    rcases s.finish_cases b.now id with ⟨-, -, hfin⟩ | ⟨-, -, hfin⟩ | ⟨hp, hfin⟩
    · simp [hfin]
    · simp [hfin]
    · simp [hfin, hp]

theorem Lives.step {s s' : Agenda} {l : Option TimerId} (h : s.Lives) (hs : Step s l s') :
    s'.Lives := by
  cases hs with
  | create when i hp hseq => exact h.create when i hp hseq
  | add hp => exact h.add hp
  | cancelQueued hp => exact h.cancelQueued hp
  | cancelOther hp => exact h.cancelOther _ _
  | start now hrun hxs => exact h.start hrun hxs
  | run hrun hw => exact h.run hrun hw
  | finish hrun hw _ => exact h.finish hrun hw _

/-! ## Batches -/

/-- The timers batch `n` ran, in order. -/
def ranIn (n : ℕ) (log : List TimerEvent) : List Scheduled :=
  log.filterMap fun
    | .ran m x => if m = n then some x else none
    | _ => none

theorem mem_ranIn {n : ℕ} {log : List TimerEvent} {x : Scheduled} :
    x ∈ ranIn n log ↔ .ran n x ∈ log := by
  simp only [ranIn, List.mem_filterMap]
  constructor
  · rintro ⟨ev, hmem, hev⟩
    cases ev with
    | ran m y =>
        simp only [Option.ite_none_right_eq_some, Option.some.injEq] at hev
        obtain ⟨rfl, rfl⟩ := hev
        exact hmem
    | _ => cases hev
  · intro hmem
    exact ⟨_, hmem, by simp⟩

theorem ranIn_append (n : ℕ) (log evs : List TimerEvent) :
    ranIn n (log ++ evs) = ranIn n log ++ ranIn n evs := List.filterMap_append

theorem ranIn_eq_nil {n : ℕ} {l : List TimerEvent} (h : ∀ x, .ran n x ∉ l) :
    ranIn n l = [] := by
  rw [List.eq_nil_iff_forall_not_mem]
  intro x hx
  exact h x (mem_ranIn.mp hx)

/-- Every batch runs what was due when it started, in order. -/
structure Batches (s : Agenda) : Prop where
  started_le : ∀ {n now xs}, .started n now xs ∈ s.log → n ≤ s.batches
  started_unique : ∀ {n now now' xs xs'}, .started n now xs ∈ s.log → .started n now' xs' ∈ s.log →
    now = now' ∧ xs = xs'
  started_sorted : ∀ {n now xs}, .started n now xs ∈ s.log →
    xs.Pairwise (·.expiration ≤ ·.expiration) ∧ (xs.map Scheduled.id).Nodup
  running : ∀ r ∈ s.running, ∃ xs, .started s.batches r.now xs ∈ s.log ∧
    r.expired = due r.now xs ∧ ranIn s.batches s.log = r.called
  completed : ∀ {n now xs}, .started n now xs ∈ s.log → (n = s.batches → s.running = none) →
    ranIn n s.log = due now xs
  finished : ∀ {n xs}, .finished n xs ∈ s.log →
    n ≤ s.batches ∧ (n = s.batches → s.running = none)
  ran_due : ∀ {n x}, .ran n x ∈ s.log →
    ∃ now xs, .started n now xs ∈ s.log ∧ x.expiration ≤ now

theorem Batches.initial {s : Agenda} (h : s.Initial) : s.Batches := by
  obtain ⟨-, hrun, -, hlog⟩ := h
  constructor <;> simp [hrun, hlog]

theorem Batches.ran_le {s : Agenda} (h : s.Batches) {n : ℕ} {x : Scheduled}
    (hmem : .ran n x ∈ s.log) : n ≤ s.batches := by
  obtain ⟨now, xs, hst, -⟩ := h.ran_due hmem
  exact h.started_le hst

/-- Events that start no batch and run nothing. A batch can end with them. -/
theorem Batches.append {s s' : Agenda} (h : s.Batches) (evs : List TimerEvent)
    (hlog : s'.log = s.log ++ evs) (hbat : s'.batches = s.batches)
    (hstart : ∀ n now xs, .started n now xs ∉ evs) (hran : ∀ n x, .ran n x ∉ evs)
    (hfin : ∀ n xs, .finished n xs ∈ evs → n = s.batches ∧ s'.running = none)
    (hrun : s'.running = s.running ∨ s'.running = none ∧ ∀ b ∈ s.running, b.waiting = []) :
    s'.Batches := by
  have hstarted : ∀ {n now xs}, .started n now xs ∈ s'.log ↔ .started n now xs ∈ s.log := by
    intro n now xs
    rw [hlog, List.mem_append, or_iff_left (hstart n now xs)]
  have hranIn : ∀ n, ranIn n s'.log = ranIn n s.log := by
    intro n
    rw [hlog, ranIn_append, ranIn_eq_nil (hran n), List.append_nil]
  have hnone : s.running = none → s'.running = none := by
    rcases hrun with hrun | ⟨hrun, -⟩
    · exact fun hnone => hrun.trans hnone
    · exact fun _ => hrun
  constructor
  case started_le =>
    intro n now xs hmem
    rw [hbat]
    exact h.started_le (hstarted.mp hmem)
  case started_unique =>
    intro n now now' xs xs' hmem hmem'
    exact h.started_unique (hstarted.mp hmem) (hstarted.mp hmem')
  case started_sorted =>
    intro n now xs hmem
    exact h.started_sorted (hstarted.mp hmem)
  case running =>
    intro r hr
    rcases hrun with hrun | ⟨hrun, -⟩
    · obtain ⟨xs, hst, hexp, hcalled⟩ := h.running r (hrun ▸ hr)
      rw [hbat, hranIn]
      exact ⟨xs, hstarted.mpr hst, hexp, hcalled⟩
    · simp [hrun] at hr
  case completed =>
    intro n now xs hmem hdone
    rw [hranIn]
    have hmem' := hstarted.mp hmem
    cases hold : s.running with
    | none => exact h.completed hmem' fun _ => hold
    | some b =>
        by_cases heq : n = s.batches
        · -- the batch that ends now has called everything it took
          subst heq
          rcases hrun with hrun | ⟨-, hwait⟩
          · have := hdone hbat.symm
            rw [hrun, hold] at this
            cases this
          · obtain ⟨qd, hst, hexp, hcalled⟩ := h.running b hold
            obtain ⟨rfl, rfl⟩ := h.started_unique hst hmem'
            rw [hcalled, ← hexp, Batch.expired, hwait b hold, List.append_nil]
        · exact h.completed hmem' fun heq' => absurd heq' heq
  case finished =>
    intro n xs hmem
    rw [hlog, List.mem_append] at hmem
    rw [hbat]
    rcases hmem with hmem | hmem
    · exact ⟨(h.finished hmem).1, fun heq => hnone ((h.finished hmem).2 heq)⟩
    · obtain ⟨rfl, hrun⟩ := hfin n xs hmem
      exact ⟨le_rfl, fun _ => hrun⟩
  case ran_due =>
    intro n x hmem
    rw [hlog, List.mem_append, or_iff_left (hran n x)] at hmem
    obtain ⟨now, xs, hst, hle⟩ := h.ran_due hmem
    exact ⟨now, xs, hstarted.mpr hst, hle⟩

theorem Batches.start {s : Agenda} {now : TimePoint} {xs : List Scheduled} (h : s.Batches)
    (hrun : s.running = none) (hxs : Lists s.place xs) :
    Batches { s with
      place := fun id => (s.place id).start now
      canceling := ∅
      running := some ⟨now, [], due now xs⟩
      batches := s.batches + 1
      log := s.log ++ [.started (s.batches + 1) now xs] } := by
  have hstarted : ∀ {n now' xs'}, .started n now' xs' ∈ s.log ++ [.started (s.batches + 1) now xs] →
      .started n now' xs' ∈ s.log ∧ n ≤ s.batches ∨ n = s.batches + 1 ∧ now' = now ∧ xs' = xs := by
    intro n now' xs' hmem
    rcases List.mem_append.mp hmem with hmem | hmem
    · exact .inl ⟨hmem, h.started_le hmem⟩
    · exact .inr (by simpa using hmem)
  have hran : ∀ n, ranIn n (s.log ++ [.started (s.batches + 1) now xs]) = ranIn n s.log := by
    intro n
    rw [ranIn_append]
    exact List.append_nil _
  constructor
  case started_le =>
    intro n now' xs' hmem
    show n ≤ s.batches + 1
    rcases hstarted hmem with ⟨-, hle⟩ | ⟨rfl, -⟩ <;> omega
  case started_unique =>
    intro n now₁ now₂ xs₁ xs₂ hmem₁ hmem₂
    rcases hstarted hmem₁ with ⟨hmem₁, hle₁⟩ | ⟨hn₁, rfl, rfl⟩
    · rcases hstarted hmem₂ with ⟨hmem₂, -⟩ | ⟨hn₂, -⟩
      · exact h.started_unique hmem₁ hmem₂
      · omega
    · rcases hstarted hmem₂ with ⟨-, hle₂⟩ | ⟨-, rfl, rfl⟩
      · omega
      · exact ⟨rfl, rfl⟩
  case started_sorted =>
    intro n now' xs' hmem
    rcases hstarted hmem with ⟨hmem, -⟩ | ⟨-, -, rfl⟩
    · exact h.started_sorted hmem
    · exact ⟨hxs.sorted, hxs.nodup⟩
  case running =>
    intro r hr
    cases hr
    refine ⟨xs, by simp, rfl, ?_⟩
    show ranIn (s.batches + 1) _ = _
    rw [hran]
    -- what ran so far belongs to earlier batches
    refine ranIn_eq_nil fun x hmem => ?_
    have := h.ran_le hmem
    omega
  case completed =>
    intro n now' xs' hmem hdone
    rcases hstarted hmem with ⟨hmem, hle⟩ | ⟨hn, -⟩
    · rw [hran]
      exact h.completed hmem fun _ => hrun
    · simpa using hdone hn
  case finished =>
    intro n xs' hmem
    have hmem' : .finished n xs' ∈ s.log := by simpa using hmem
    have hle := (h.finished hmem').1
    exact ⟨hle.trans (Nat.le_succ _), fun heq => by simp only at heq; omega⟩
  case ran_due =>
    intro n x hmem
    obtain ⟨now', xs', hst, hle⟩ := h.ran_due (show .ran n x ∈ s.log by simpa using hmem)
    exact ⟨now', xs', List.mem_append_left _ hst, hle⟩

theorem Batches.run {s : Agenda} {b : Batch} {x : Scheduled} {xs : List Scheduled} (h : s.Batches)
    (hrun : s.running = some b) (hw : b.waiting = x :: xs) :
    Batches { s with
      running := some ⟨b.now, b.called ++ [x], xs⟩
      log := s.log ++ [.ran s.batches x] } := by
  obtain ⟨qd, hst, hexp, hcalled⟩ := h.running b hrun
  have hran : ranIn s.batches (s.log ++ [.ran s.batches x]) = b.called ++ [x] := by
    rw [ranIn_append, hcalled]
    simp [ranIn]
  have hother : ∀ n, n ≠ s.batches → ranIn n (s.log ++ [.ran s.batches x]) = ranIn n s.log := by
    intro n hne
    rw [ranIn_append, ranIn_eq_nil (l := [.ran s.batches x]) (by simp [hne]), List.append_nil]
  constructor
  case started_le =>
    intro n now' xs' hmem
    exact h.started_le (by simpa using hmem)
  case started_unique =>
    intro n now₁ now₂ xs₁ xs₂ hmem₁ hmem₂
    exact h.started_unique (by simpa using hmem₁) (by simpa using hmem₂)
  case started_sorted =>
    intro n now' xs' hmem
    exact h.started_sorted (by simpa using hmem)
  case running =>
    intro r hr
    cases hr
    refine ⟨qd, List.mem_append_left _ hst, ?_, hran⟩
    rw [← hexp]
    simp [Batch.expired, hw]
  case completed =>
    intro n now' xs' hmem hdone
    -- the batch of this callback is not complete, so this is about an earlier one
    have hne : n ≠ s.batches := fun heq => by simpa using hdone heq
    rw [hother n hne]
    exact h.completed (by simpa using hmem) fun heq => absurd heq hne
  case finished =>
    intro n xs' hmem
    obtain ⟨hle, hdone⟩ := h.finished (show .finished n xs' ∈ s.log by simpa using hmem)
    refine ⟨hle, fun heq => ?_⟩
    rw [hdone heq] at hrun
    cases hrun
  case ran_due =>
    intro n y hmem
    rcases List.mem_append.mp hmem with hmem | hmem
    · obtain ⟨now', xs', hst', hle⟩ := h.ran_due hmem
      exact ⟨now', xs', List.mem_append_left _ hst', hle⟩
    · simp only [List.mem_singleton, TimerEvent.ran.injEq] at hmem
      obtain ⟨rfl, rfl⟩ := hmem
      refine ⟨b.now, qd, List.mem_append_left _ hst, ?_⟩
      have hmem : y ∈ due b.now qd := by
        rw [← hexp]
        simp [Batch.expired, hw]
      simpa using (List.mem_filter.mp hmem).2

theorem Batches.step {s s' : Agenda} {l : Option TimerId} (h : s.Batches) (hs : Step s l s') :
    s'.Batches := by
  cases hs with
  | @create id when i _ _ =>
      exact h.append [.created id when i] rfl rfl (by simp) (by simp) (by simp) (.inl rfl)
  | @add id _ _ => exact h.append [.added id] rfl rfl (by simp) (by simp) (by simp) (.inl rfl)
  | @cancelQueued id _ _ =>
      exact h.append [.cancelled id s.during, .deleted id] rfl rfl (by simp) (by simp) (by simp)
        (.inl rfl)
  | @cancelOther id _ =>
      exact h.append [.cancelled id s.during] rfl rfl (by simp) (by simp) (by simp) (.inl rfl)
  | start now hrun hxs => exact h.start hrun hxs
  | run hrun hw => exact h.run hrun hw
  | @finish b after hrun hw _ =>
      refine h.append (s.deletions b ++ [.finished s.batches after]) rfl rfl ?_ ?_ ?_ (.inr ⟨rfl, ?_⟩)
      · intro n now xs hmem
        rcases mem_finishEvents hmem with ⟨_, heq⟩ | heq <;> cases heq
      · intro n x hmem
        rcases mem_finishEvents hmem with ⟨_, heq⟩ | heq <;> cases heq
      · intro n xs hmem
        rcases mem_finishEvents hmem with ⟨_, heq⟩ | heq <;> cases heq
        exact ⟨rfl, rfl⟩
      · intro b' hb'
        rw [hrun] at hb'
        cases hb'
        exact hw

/-! ## Cancellations and one-shot timers -/

/-- How often the callback of a timer was started. -/
def ranCount (id : TimerId) (log : List TimerEvent) : ℕ :=
  log.countP fun
    | .ran _ x => x.id = id
    | _ => false

theorem ranCount_append (id : TimerId) (log evs : List TimerEvent) :
    ranCount id (log ++ evs) = ranCount id log + ranCount id evs := List.countP_append

theorem ranCount_eq_zero {id : TimerId} {l : List TimerEvent}
    (h : ∀ n x, .ran n x ∈ l → x.id ≠ id) : ranCount id l = 0 := by
  rw [ranCount, List.countP_eq_zero]
  intro ev hmem
  cases ev with
  | ran n x => simpa using h n x hmem
  | _ => simp

/-- Why timers are dead, and what cancelling a timer of the running batch does. -/
structure Cancels (s : Agenda) : Prop where
  cancelled_le : ∀ {id n}, .cancelled id (some n) ∈ s.log → n ≤ s.batches
  of_canceling : s.running.isSome → ∀ id ∈ s.canceling, .cancelled id (some s.batches) ∈ s.log
  canceling : s.running.isSome → ∀ id, s.place id = .expired →
    .cancelled id (some s.batches) ∈ s.log → id ∈ s.canceling
  dead : ∀ id, s.place id = .dead → (∃ d, .cancelled id d ∈ s.log) ∨
    ¬ 0 < s.interval id ∧ ∃ n x, .ran n x ∈ s.log ∧ x.id = id
  once : ∀ {n x}, .ran n x ∈ s.log → ¬ 0 < s.interval x.id →
    s.place x.id = .dead ∨ ∃ r ∈ s.running, x.id ∈ r.called.map Scheduled.id
  once_count : ∀ id, ¬ 0 < s.interval id → ranCount id s.log ≤ 1
  requeued : ∀ {n after now xs x}, .finished n after ∈ s.log → .started n now xs ∈ s.log →
    .ran n x ∈ s.log → 0 < s.interval x.id → .cancelled x.id (some n) ∉ s.log →
    ⟨s.nextExpiration now x.id, x.id⟩ ∈ after
  stopped : ∀ {n x}, .ran n x ∈ s.log → .cancelled x.id (some n) ∈ s.log →
    s.place x.id = .dead ∨ n = s.batches ∧ s.running.isSome
  stopped_later : ∀ {n n' x x'}, .ran n x ∈ s.log → .cancelled x.id (some n) ∈ s.log →
    .ran n' x' ∈ s.log → x'.id = x.id → n' ≤ n

theorem Cancels.initial {s : Agenda} (h : s.Initial) : s.Cancels := by
  obtain ⟨hplace, hrun, -, hlog⟩ := h
  constructor <;> simp [hrun, hlog, hplace, ranCount]

/-- Moves of timers that are neither in the batch nor dead, before or after. -/
theorem Cancels.outside {s s' : Agenda} (h : s.Cancels) (ev : TimerEvent)
    (hlog : s'.log = s.log ++ [ev]) (hrun : s'.running = s.running) (hbat : s'.batches = s.batches)
    (hcanceling : s'.canceling = s.canceling)
    (hev : ∀ n x, ev ≠ .ran n x) (hev' : ∀ id d, ev ≠ .cancelled id d)
    (hfin : ∀ n xs, ev ≠ .finished n xs) (hst : ∀ n now xs, ev ≠ .started n now xs)
    (hexpired : ∀ id, s'.place id = .expired ↔ s.place id = .expired)
    (hdead : ∀ id, s'.place id = .dead ↔ s.place id = .dead)
    (hinterval : ∀ id, (s.place id = .dead ∨ ∃ n x, .ran n x ∈ s.log ∧ x.id = id) →
      s'.interval id = s.interval id) : s'.Cancels := by
  have hold : ∀ {e}, e ≠ ev → (e ∈ s'.log ↔ e ∈ s.log) := by
    intro e hne
    rw [hlog, List.mem_append, or_iff_left (by simpa using hne)]
  have hran : ∀ {n x}, .ran n x ∈ s'.log ↔ .ran n x ∈ s.log := hold (hev _ _).symm
  have hcancelled : ∀ {id d}, .cancelled id d ∈ s'.log ↔ .cancelled id d ∈ s.log :=
    hold (hev' _ _).symm
  have hinterval' : ∀ {n x}, .ran n x ∈ s.log → s'.interval x.id = s.interval x.id :=
    fun hmem => hinterval _ (.inr ⟨_, _, hmem, rfl⟩)
  constructor
  case cancelled_le =>
    intro id n hmem
    rw [hbat]
    exact h.cancelled_le (hcancelled.mp hmem)
  case of_canceling =>
    intro hsome id hc
    rw [hrun] at hsome
    rw [hcanceling] at hc
    rw [hcancelled, hbat]
    exact h.of_canceling hsome id hc
  case canceling =>
    intro hsome id hexp hmem
    rw [hrun] at hsome
    rw [hcancelled, hbat] at hmem
    rw [hcanceling]
    exact h.canceling hsome id ((hexpired id).mp hexp) hmem
  case dead =>
    intro id hd
    have hd := (hdead id).mp hd
    simp only [hran, hcancelled, hinterval id (.inl hd)]
    exact h.dead id hd
  case once =>
    intro n x hmem hshot
    have hmem := hran.mp hmem
    rw [hinterval' hmem] at hshot
    rw [hdead, hrun]
    exact h.once hmem hshot
  case once_count =>
    intro id hshot
    have hzero : ranCount id [ev] = 0 := ranCount_eq_zero fun n x hmem =>
      absurd (List.mem_singleton.mp hmem).symm (hev n x)
    rw [hlog, ranCount_append, hzero, Nat.add_zero]
    by_cases hnone : ranCount id s.log = 0
    · omega
    · -- a timer that ran has the interval it had
      have hsome : ∃ n x, .ran n x ∈ s.log ∧ x.id = id := by
        by_contra hnot
        exact hnone (ranCount_eq_zero fun n x hmem hx => hnot ⟨n, x, hmem, hx⟩)
      rw [hinterval id (.inr hsome)] at hshot
      exact h.once_count id hshot
  case requeued =>
    intro n after now xs x hf hs hmem hpos hc
    have hmem := hran.mp hmem
    simp only [nextExpiration, hinterval' hmem] at hpos ⊢
    exact h.requeued ((hold (hfin n after).symm).mp hf) ((hold (hst n now xs).symm).mp hs) hmem hpos
      (mt hcancelled.mpr hc)
  case stopped =>
    intro n x hmem hc
    rw [hdead, hbat, hrun]
    exact h.stopped (hran.mp hmem) (hcancelled.mp hc)
  case stopped_later =>
    intro n n' x x' hmem hc hmem'
    exact h.stopped_later (hran.mp hmem) (hcancelled.mp hc) (hran.mp hmem')

theorem Cancels.create {s : Agenda} {id : TimerId} (h : s.Cancels) (hl : s.Lives)
    (when : TimePoint) (i : ℚ) (hp : s.place id = .unborn) :
    Cancels { s with
      place := Function.update s.place id (.adding when)
      interval := Function.update s.interval id i
      log := s.log ++ [.created id when i] } := by
  refine h.outside (.created id when i) rfl rfl rfl rfl (by simp) (by simp) (by simp) (by simp)
    (update_place_iff (· = .expired) (by simp [hp])) (update_place_iff (· = .dead) (by simp [hp])) ?_
  intro id' hmem
  refine Function.update_of_ne ?_ _ _
  rintro rfl
  rcases hmem with hd | ⟨n, x, hmem, hx⟩
  · simp [hp] at hd
  · exact hl.ran n x hmem (hx ▸ hp)

theorem Cancels.add {s : Agenda} {id : TimerId} {when : TimePoint} (h : s.Cancels)
    (hp : s.place id = .adding when) :
    Cancels { s with
      place := Function.update s.place id (.queued when)
      log := s.log ++ [.added id] } :=
  h.outside (.added id) rfl rfl rfl rfl (by simp) (by simp) (by simp) (by simp)
    (update_place_iff (· = .expired) (by simp [hp])) (update_place_iff (· = .dead) (by simp [hp]))
    fun _ _ => rfl

/-- A cancellation now falls into the batch being run, if there is one. -/
theorem during_eq_some {s : Agenda} {n : ℕ} :
    s.during = some n ↔ s.running.isSome ∧ n = s.batches := by
  cases hrun : s.running with
  | none => simp [during, hrun]
  | some r => simp [during, hrun, eq_comm]

/-- What both ways of cancelling share: the new cancellation is of a timer whose place is as `cancel`
leaves it, and of no use unless that timer is in the batch. -/
theorem Cancels.cancel {s : Agenda} {id : TimerId} (h : s.Cancels) (hb : s.Batches)
    {place : TimerId → Place} {canceling : Set TimerId} (evs : List TimerEvent)
    (hother : ∀ id', id' ≠ id → place id' = s.place id')
    (hself : place id = s.place id ∨ (∃ e, s.place id = .queued e) ∧ place id = .dead)
    (hcan : ∀ id', id' ∈ canceling → id' = id ∨ id' ∈ s.canceling)
    (hkeep : ∀ id' ∈ s.canceling, id' ∈ canceling)
    (hmark : s.running.isSome → place id = .expired → id ∈ canceling)
    (hevs : ∀ ev ∈ evs, ev = .deleted id) :
    Cancels { s with
      place, canceling, log := s.log ++ (.cancelled id s.during :: evs) } := by
  have hold : ∀ ev, ev ≠ .cancelled id s.during → (∀ id', ev ≠ .deleted id') →
      ev ∈ s.log ++ (.cancelled id s.during :: evs) → ev ∈ s.log := by
    intro ev hc hd hmem
    rcases List.mem_append.mp hmem with hmem | hmem
    · exact hmem
    · rcases List.mem_cons.mp hmem with hmem | hmem
      · exact absurd hmem hc
      · exact absurd (hevs ev hmem) (hd id)
  have hcancelled : ∀ {id' d}, .cancelled id' d ∈ s.log ++ (.cancelled id s.during :: evs) →
      .cancelled id' d ∈ s.log ∨ id' = id ∧ d = s.during := by
    intro id' d hmem
    by_cases heq : TimerEvent.cancelled id' d = .cancelled id s.during
    · simp only [TimerEvent.cancelled.injEq] at heq
      exact .inr heq
    · exact .inl (hold _ heq (by simp) hmem)
  have hexpired : ∀ id', place id' = .expired → s.place id' = .expired := by
    intro id' hexp
    by_cases heq : id' = id
    · subst heq
      rcases hself with hself | ⟨-, hself⟩
      · rwa [hself] at hexp
      · rw [hself] at hexp
        cases hexp
    · rwa [hother id' heq] at hexp
  have hdead : ∀ id', s.place id' = .dead → place id' = .dead := by
    intro id' hd
    by_cases heq : id' = id
    · subst heq
      rcases hself with hself | ⟨-, hself⟩
      · rwa [hself]
      · exact hself
    · rwa [hother id' heq]
  constructor
  case cancelled_le =>
    intro id' n hmem
    rcases hcancelled hmem with hmem | ⟨-, hd⟩
    · exact h.cancelled_le hmem
    · exact (during_eq_some.mp hd.symm).2.le
  case of_canceling =>
    intro hrun id' hc
    rcases hcan id' hc with rfl | hc
    · have hd : s.during = some s.batches := during_eq_some.mpr ⟨hrun, rfl⟩
      rw [hd]
      exact List.mem_append_right _ List.mem_cons_self
    · exact List.mem_append_left _ (h.of_canceling hrun id' hc)
  case canceling =>
    intro hrun id' hexp hmem
    rcases hcancelled hmem with hmem | ⟨rfl, -⟩
    · exact hkeep id' (h.canceling hrun id' (hexpired id' hexp) hmem)
    · exact hmark hrun hexp
  case dead =>
    intro id' hd
    by_cases heq : id' = id
    · subst heq
      exact .inl ⟨s.during, by simp⟩
    · rcases h.dead id' (by rwa [← hother id' heq]) with ⟨d, hmem⟩ | ⟨hshot, n, x, hmem, hx⟩
      · exact .inl ⟨d, List.mem_append_left _ hmem⟩
      · exact .inr ⟨hshot, n, x, List.mem_append_left _ hmem, hx⟩
  case once =>
    intro n x hmem hshot
    rcases h.once (hold _ (by simp) (by simp) hmem) hshot with hd | hc
    · exact .inl (hdead _ hd)
    · exact .inr hc
  case once_count =>
    intro id' hshot
    show ranCount id' (s.log ++ _) ≤ 1
    rw [ranCount_append, ranCount_eq_zero (l := _ :: evs) ?_, Nat.add_zero]
    · exact h.once_count id' hshot
    · intro n x hmem
      rcases List.mem_cons.mp hmem with hmem | hmem
      · cases hmem
      · cases hevs _ hmem
  case requeued =>
    intro n after now xs x hfin hst hmem hpos hc
    exact h.requeued (hold _ (by simp) (by simp) hfin) (hold _ (by simp) (by simp) hst)
      (hold _ (by simp) (by simp) hmem) hpos fun hc' => hc (List.mem_append_left _ hc')
  case stopped =>
    intro n x hmem hc
    have hmem' := hold _ (by simp) (by simp) hmem
    rcases hcancelled hc with hc | ⟨-, hd⟩
    · rcases h.stopped hmem' hc with hd | hd
      · exact .inl (hdead _ hd)
      · exact .inr hd
    · obtain ⟨hrun, hn⟩ := during_eq_some.mp hd.symm
      exact .inr ⟨hn, hrun⟩
  case stopped_later =>
    intro n n' x x' hmem hc hmem' heq
    have hmem₁ := hold _ (by simp) (by simp) hmem
    have hmem₂ := hold _ (by simp) (by simp) hmem'
    rcases hcancelled hc with hc | ⟨-, hd⟩
    · exact h.stopped_later hmem₁ hc hmem₂ heq
    · -- cancelled in the current batch, and there is no later one yet
      rw [(during_eq_some.mp hd.symm).2]
      exact hb.ran_le hmem₂

theorem Cancels.start {s : Agenda} {now : TimePoint} {xs : List Scheduled} (h : s.Cancels)
    (hb : s.Batches) (hrun : s.running = none) :
    Cancels { s with
      place := fun id => (s.place id).start now
      canceling := ∅
      running := some ⟨now, [], due now xs⟩
      batches := s.batches + 1
      log := s.log ++ [.started (s.batches + 1) now xs] } := by
  have hdead : ∀ id, (s.place id).start now = .dead ↔ s.place id = .dead := fun id =>
    start_iff (· = .dead) (by simp) _
  constructor
  case cancelled_le =>
    intro id n hmem
    exact (h.cancelled_le (by simpa using hmem)).trans (Nat.le_succ _)
  case of_canceling =>
    simp
  case canceling =>
    intro _ id _ hmem
    -- nothing was cancelled in a batch that starts only now
    have hle : s.batches + 1 ≤ s.batches := h.cancelled_le (by simpa using hmem)
    omega
  case dead =>
    intro id hd
    rcases h.dead id ((hdead id).mp hd) with ⟨d, hmem⟩ | ⟨hshot, n, x, hmem, hx⟩
    · exact .inl ⟨d, List.mem_append_left _ hmem⟩
    · exact .inr ⟨hshot, n, x, List.mem_append_left _ hmem, hx⟩
  case once =>
    intro n x hmem hshot
    rcases h.once (by simpa using hmem) hshot with hd | ⟨r, hr, -⟩
    · exact .inl ((hdead _).mpr hd)
    · simp [hrun] at hr
  case once_count =>
    intro id hshot
    show ranCount id (s.log ++ _) ≤ 1
    rw [ranCount_append, ranCount_eq_zero (l := [.started (s.batches + 1) now xs]) (by simp),
      Nat.add_zero]
    exact h.once_count id hshot
  case requeued =>
    intro n after now' xs' x hfin hst hmem hpos hc
    rcases List.mem_append.mp hst with hst | hst
    · exact h.requeued (by simpa using hfin) hst (by simpa using hmem) hpos (by simpa using hc)
    · have hle := hb.ran_le (show .ran n x ∈ s.log by simpa using hmem)
      simp only [List.mem_singleton, TimerEvent.started.injEq] at hst
      omega
  case stopped =>
    intro n x hmem hc
    rcases h.stopped (by simpa using hmem) (by simpa using hc) with hd | ⟨-, hsome⟩
    · exact .inl ((hdead _).mpr hd)
    · simp [hrun] at hsome
  case stopped_later =>
    intro n n' x x' hmem hc hmem'
    exact h.stopped_later (by simpa using hmem) (by simpa using hc) (by simpa using hmem')

theorem Cancels.run {s : Agenda} {b : Batch} {x : Scheduled} {xs : List Scheduled} (h : s.Cancels)
    (hl : s.Lives) (hb : s.Batches) (hrun : s.running = some b) (hw : b.waiting = x :: xs) :
    Cancels { s with
      running := some ⟨b.now, b.called ++ [x], xs⟩
      log := s.log ++ [.ran s.batches x] } := by
  obtain ⟨hplace, hnotCalled⟩ := hl.next hrun hw
  have hran : ∀ {n y}, .ran n y ∈ s.log ++ [.ran s.batches x] →
      .ran n y ∈ s.log ∨ n = s.batches ∧ y = x := by
    intro n y hmem
    rcases List.mem_append.mp hmem with hmem | hmem
    · exact .inl hmem
    · exact .inr (by simpa using hmem)
  have hsome : s.running.isSome := by simp [hrun]
  constructor
  case cancelled_le =>
    intro id n hmem
    exact h.cancelled_le (by simpa using hmem)
  case of_canceling =>
    intro _ id hc
    exact List.mem_append_left _ (h.of_canceling hsome id hc)
  case canceling =>
    intro _ id hexp hmem
    exact h.canceling hsome id hexp (by simpa using hmem)
  case dead =>
    intro id hd
    rcases h.dead id hd with ⟨d, hmem⟩ | ⟨hshot, n, y, hmem, hy⟩
    · exact .inl ⟨d, List.mem_append_left _ hmem⟩
    · exact .inr ⟨hshot, n, y, List.mem_append_left _ hmem, hy⟩
  case once =>
    intro n y hmem hshot
    rcases hran hmem with hmem | ⟨-, rfl⟩
    · rcases h.once hmem hshot with hd | ⟨r, hr, hcalled⟩
      · exact .inl hd
      · rw [hrun] at hr
        cases hr
        exact .inr ⟨_, rfl, by rw [List.map_append]; exact List.mem_append_left _ hcalled⟩
    · exact .inr ⟨_, rfl, by simp⟩
  case once_count =>
    intro id hshot
    show ranCount id (s.log ++ _) ≤ 1
    rw [ranCount_append]
    by_cases heq : x.id = id
    · -- the first run of a one-shot timer: an earlier one would have left it dead or called
      have hzero : ranCount id s.log = 0 := by
        refine ranCount_eq_zero fun n y hmem hy => ?_
        rcases h.once hmem (by rwa [hy]) with hd | ⟨r, hr, hcalled⟩
        · rw [hy, ← heq, hplace] at hd
          cases hd
        · rw [hrun] at hr
          cases hr
          exact hnotCalled (by rwa [heq, ← hy])
      rw [hzero, Nat.zero_add]
      exact List.countP_le_length
    · rw [ranCount_eq_zero (l := [.ran s.batches x]) (by simpa using heq)]
      exact h.once_count id hshot
  case requeued =>
    intro n after now' xs' y hfin hst hmem hpos hc
    have hfin' : .finished n after ∈ s.log := by simpa using hfin
    -- the batch being run is not finished
    rcases hran hmem with hmem | ⟨rfl, -⟩
    · exact h.requeued hfin' (by simpa using hst) hmem hpos (by simpa using hc)
    · rw [(hb.finished hfin').2 rfl] at hrun
      cases hrun
  case stopped =>
    intro n y hmem hc
    rcases hran hmem with hmem | ⟨rfl, -⟩
    · rcases h.stopped hmem (by simpa using hc) with hd | ⟨hn, -⟩
      · exact .inl hd
      · exact .inr ⟨hn, rfl⟩
    · exact .inr ⟨rfl, rfl⟩
  case stopped_later =>
    intro n n' y y' hmem hc hmem' heq
    have hc' : .cancelled y.id (some n) ∈ s.log := by simpa using hc
    rcases hran hmem with hmem₁ | ⟨hn, -⟩
    · rcases hran hmem' with hmem₂ | ⟨hn', hy'⟩
      · exact h.stopped_later hmem₁ hc' hmem₂ heq
      · -- a timer cancelled in an earlier batch is dead and not about to run
        rcases h.stopped hmem₁ hc' with hd | ⟨hn, -⟩
        · rw [← heq, hy', hplace] at hd
          cases hd
        · omega
    · rcases hran hmem' with hmem₂ | ⟨hn', -⟩
      · exact hn ▸ hb.ran_le hmem₂
      · omega

theorem Cancels.finish {s : Agenda} {b : Batch} {after : List Scheduled} (h : s.Cancels)
    (hl : s.Lives) (hb : s.Batches) (hrun : s.running = some b) (hw : b.waiting = [])
    (hafter : Lists (s.finish b.now) after) :
    Cancels { s with
      place := s.finish b.now
      running := none
      log := s.log ++ (s.deletions b ++ [.finished s.batches after]) } := by
  obtain ⟨qd, hst, -, hcalled⟩ := hb.running b hrun
  have hsome : s.running.isSome := by simp [hrun]
  have hexp : ∀ id, s.place id = .expired ↔ id ∈ b.called.map Scheduled.id := by
    intro id
    simpa [hrun, Batch.expired, hw] using hl.expired id
  have hranCalled : ∀ {y}, .ran s.batches y ∈ s.log → s.place y.id = .expired := fun hmem =>
    (hexp _).mpr (List.mem_map_of_mem (hcalled ▸ mem_ranIn.mpr hmem))
  have hdead : ∀ {id}, s.place id = .dead → s.finish b.now id = .dead := by
    intro id hd
    rw [finish_of_not_expired (by simp [hd]), hd]
  constructor
  case cancelled_le =>
    intro id n hmem
    exact h.cancelled_le (mem_log_of_finish (by simp) (by simp) hmem)
  case of_canceling =>
    simp
  case canceling =>
    simp
  case dead =>
    intro id hd
    -- a timer of the batch that is not put back was cancelled or is one-shot
    by_cases hp : s.place id = .expired
    · by_cases hc : id ∈ s.canceling
      · exact .inl ⟨_, List.mem_append_left _ (h.of_canceling hsome id hc)⟩
      · have hshot : ¬ 0 < s.interval id := by
          intro hpos
          have hd' : s.finish b.now id = .dead := hd
          rw [finish_of_kept hp ⟨hpos, hc⟩] at hd'
          cases hd'
        obtain ⟨x, hx, rfl⟩ := List.mem_map.mp ((hexp id).mp hp)
        exact .inr ⟨hshot, s.batches, x,
          List.mem_append_left _ (mem_ranIn.mp (hcalled ▸ hx)), rfl⟩
    · have hd' : s.finish b.now id = .dead := hd
      rw [finish_of_not_expired hp] at hd'
      rcases h.dead id hd' with ⟨d, hmem⟩ | ⟨hshot, n, y, hmem, hy⟩
      · exact .inl ⟨d, List.mem_append_left _ hmem⟩
      · exact .inr ⟨hshot, n, y, List.mem_append_left _ hmem, hy⟩
  case once =>
    intro n y hmem hshot
    rcases h.once (mem_log_of_finish (by simp) (by simp) hmem) hshot with hd | ⟨r, hr, hc⟩
    · exact .inl (hdead hd)
    · rw [hrun] at hr
      cases hr
      exact .inl (finish_of_not_kept ((hexp _).mpr hc) fun hk => hshot hk.1)
  case once_count =>
    intro id hshot
    show ranCount id (s.log ++ _) ≤ 1
    rw [ranCount_append, ranCount_eq_zero (l := _ ++ [_]) fun n x hmem => ?_, Nat.add_zero]
    · exact h.once_count id hshot
    · rcases mem_finishEvents hmem with ⟨id, heq⟩ | heq <;> cases heq
  case requeued =>
    intro n after' now' xs' y hfin hst' hmem hpos hc
    have hst₁ := mem_log_of_finish (by simp) (by simp) hst'
    have hmem₁ := mem_log_of_finish (by simp) (by simp) hmem
    have hc₁ : .cancelled y.id (some n) ∉ s.log := fun hc' => hc (List.mem_append_left _ hc')
    by_cases heq : TimerEvent.finished n after' = .finished s.batches after
    · simp only [TimerEvent.finished.injEq] at heq
      obtain ⟨rfl, rfl⟩ := heq
      obtain ⟨rfl, -⟩ := hb.started_unique hst hst₁
      have hp := hranCalled hmem₁
      have hnot : y.id ∉ s.canceling := fun hc' => hc₁ (h.of_canceling hsome _ hc')
      exact (hafter.mem_iff _).mpr (finish_of_kept hp ⟨hpos, hnot⟩)
    · exact h.requeued (mem_log_of_finish (by simp) heq hfin) hst₁ hmem₁ hpos hc₁
  case stopped =>
    intro n y hmem hc
    have hmem₁ := mem_log_of_finish (by simp) (by simp) hmem
    have hc₁ := mem_log_of_finish (by simp) (by simp) hc
    rcases h.stopped hmem₁ hc₁ with hd | ⟨rfl, -⟩
    · exact .inl (hdead hd)
    · have hp := hranCalled hmem₁
      exact .inl (finish_of_not_kept hp fun hk => hk.2 (h.canceling hsome _ hp hc₁))
  case stopped_later =>
    intro n n' y y' hmem hc hmem'
    exact h.stopped_later (mem_log_of_finish (by simp) (by simp) hmem)
      (mem_log_of_finish (by simp) (by simp) hc) (mem_log_of_finish (by simp) (by simp) hmem')

theorem Cancels.step {s s' : Agenda} {l : Option TimerId} (h : s.Cancels) (hl : s.Lives) (hb : s.Batches)
    (hs : Step s l s') : s'.Cancels := by
  cases hs with
  | create when i hp _ => exact h.create hl when i hp
  | add hp => exact h.add hp
  | cancelQueued hp =>
      refine h.cancel hb [_] (fun id' hne => Function.update_of_ne hne _ _)
        (.inr ⟨⟨_, hp⟩, Function.update_self ..⟩) (fun id' hc => .inr hc) (fun id' hc => hc) ?_
        (by simp)
      intro _ hexp
      simp at hexp
  | cancelOther hp =>
      refine h.cancel hb [] (fun _ _ => rfl) (.inl rfl) ?_ ?_ ?_ (by simp)
      · intro id' hc
        split at hc
        · exact hc
        · exact .inr hc
      · intro id' hc
        split
        · exact .inr hc
        · exact hc
      · intro hrun _
        simp [hrun]
  | start now hrun hxs => exact h.start hb hrun
  | run hrun hw => exact h.run hl hb hrun hw
  | finish hrun hw hafter => exact h.finish hl hb hrun hw hafter

/-- The history invariants of an agenda. -/
theorem Reachable.history {ok : Agenda → TimerId → Prop} {s : Agenda} (h : s.Reachable ok) :
    s.Lives ∧ s.Batches ∧ s.Cancels := by
  induction h with
  | initial h => exact ⟨.initial h, .initial h, .initial h⟩
  | step _ hs _ ih => exact ⟨ih.1.step hs, ih.2.1.step hs, ih.2.2.step ih.1 ih.2.1 hs⟩

/-! ## Cancellations that come in time -/

/-- The timer is not on its way into the queue, and does not wait for its turn in the batch. -/
def InTime (s : Agenda) (id : TimerId) : Prop :=
  (∀ w, s.place id ≠ .adding w) ∧ ∀ b ∈ s.running, id ∉ b.waiting.map Scheduled.id

/-- A timer that was created and then cancelled is dead, or was already called in the batch being run
and will not be put back; and none ran after that. -/
structure Final (s : Agenda) : Prop where
  gone : ∀ {id w i d}, [TimerEvent.created id w i, .cancelled id d].Sublist s.log →
    s.place id = .dead ∨
      ∃ b ∈ s.running, id ∈ b.called.map Scheduled.id ∧ id ∈ s.canceling
  silent : ∀ {n x w i d},
    ¬ [TimerEvent.created x.id w i, .cancelled x.id d, .ran n x].Sublist s.log

theorem Final.initial {s : Agenda} (h : s.Initial) : s.Final := by
  constructor <;> simp [h.2.2.2]

/-- Moves that neither cancel nor run anything. -/
theorem Final.quiet {s s' : Agenda} (h : s.Final) {evs : List TimerEvent}
    (hlog : s'.log = s.log ++ evs) (hc : ∀ id d, .cancelled id d ∉ evs) (hr : ∀ n x, .ran n x ∉ evs)
    (hdead : ∀ id, s.place id = .dead → s'.place id = .dead)
    (hcalled : ∀ id, (∃ b ∈ s.running, id ∈ b.called.map Scheduled.id ∧ id ∈ s.canceling) →
      s'.place id = .dead ∨ ∃ b ∈ s'.running, id ∈ b.called.map Scheduled.id ∧ id ∈ s'.canceling) :
    s'.Final := by
  constructor
  · intro id w i d hs
    rw [hlog] at hs
    rcases h.gone (History.sublist_of_append (p := [_]) (hc id d) hs) with hd | hd
    · exact .inl (hdead id hd)
    · exact hcalled id hd
  · intro n x w i d hs
    rw [hlog] at hs
    exact h.silent (History.sublist_of_append (p := [_, _]) (hr n x) hs)

/-- Both ways of cancelling. -/
theorem Final.cancel {s : Agenda} {id : TimerId} (h : s.Final) {place : TimerId → Place}
    {canceling : Set TimerId} (evs : List TimerEvent)
    (hdead : ∀ id', s.place id' = .dead → place id' = .dead)
    (hkeep : ∀ id' ∈ s.canceling, id' ∈ canceling)
    (hgone : ∀ w i, .created id w i ∈ s.log →
      place id = .dead ∨ ∃ b ∈ s.running, id ∈ b.called.map Scheduled.id ∧ id ∈ canceling)
    (hevs : ∀ ev ∈ evs, ev = .deleted id) :
    Final { s with place, canceling, log := s.log ++ (.cancelled id s.during :: evs) } := by
  have hsplit : s.log ++ (.cancelled id s.during :: evs) =
      (s.log ++ [.cancelled id s.during]) ++ evs := by simp
  constructor
  · intro id' w i d hs
    rw [hsplit] at hs
    have hs := History.sublist_of_append (p := [_]) (fun hmem => by cases hevs _ hmem) hs
    rcases History.sublist_of_concat (p := [_]) hs with hs | ⟨heq, hs⟩
    · rcases h.gone hs with hd | ⟨b, hb, hcalled, hc⟩
      · exact .inl (hdead id' hd)
      · exact .inr ⟨b, hb, hcalled, hkeep id' hc⟩
    · simp only [TimerEvent.cancelled.injEq] at heq
      rw [heq.1] at hs ⊢
      exact hgone w i (List.singleton_sublist.mp hs)
  · intro n x w i d hs
    refine h.silent (History.sublist_of_append (p := [_, _]) (fun hmem => ?_) hs)
    rcases List.mem_cons.mp hmem with hmem | hmem
    · cases hmem
    · cases hevs _ hmem

theorem Final.step {s s' : Agenda} {l : Option TimerId} (h : s.Final) (hl : s.Lives)
    (hs : Step s l s') (hok : ∀ id ∈ l, s.InTime id) : s'.Final := by
  cases hs with
  | create when i hp _ =>
      refine h.quiet rfl (by simp) (by simp) (fun id' hd => ?_) fun id' hd => .inr hd
      exact (update_place_iff (· = .dead) (by simp [hp]) id').mpr hd
  | add hp =>
      refine h.quiet rfl (by simp) (by simp) (fun id' hd => ?_) fun id' hd => .inr hd
      exact (update_place_iff (· = .dead) (by simp [hp]) id').mpr hd
  | @cancelQueued id e hp =>
      refine h.cancel [_] (fun id' hd => ?_) (fun _ hc => hc)
        (fun _ _ _ => .inl (Function.update_self ..)) (by simp)
      by_cases heq : id' = id
      · rw [heq, Function.update_self]
      · rwa [Function.update_of_ne heq]
  | @cancelOther id hp =>
      refine h.cancel [] (fun id' hd => hd) (fun id' hc => ?_) (fun w i hmem => ?_) (by simp)
      · split
        · exact .inr hc
        · exact hc
      · -- a timer that exists, is not queued and not on its way in is dead or in the batch
        have hborn := (hl.created id).mpr ⟨w, i, hmem⟩
        obtain ⟨hadd, hwait⟩ := hok id rfl
        cases hplace : s.place id with
        | unborn => exact absurd hplace hborn
        | adding w => exact absurd hplace (hadd w)
        | queued e => exact absurd hplace (hp e)
        | dead => exact .inl rfl
        | expired =>
            obtain ⟨b, hb, hin⟩ := (hl.expired id).mp hplace
            rw [Batch.expired, List.map_append] at hin
            have hcalled := (List.mem_append.mp hin).resolve_right (hwait b hb)
            exact .inr ⟨b, hb, hcalled, by simp [Option.mem_def.mp hb]⟩
  | start now hrun hxs =>
      refine h.quiet rfl (by simp) (by simp) (fun id hd => ?_) fun id hd => ?_
      · simp [hd, Place.start]
      · simp [hrun] at hd
  | @run b x xs hrun hw =>
      obtain ⟨hplace, hnotCalled⟩ := hl.next hrun hw
      constructor
      · intro id w i d hs
        rcases h.gone (History.sublist_of_append (p := [_]) (by simp) hs) with
          hd | ⟨b', hb', hcalled, hc⟩
        · exact .inl hd
        · rw [hrun] at hb'
          cases hb'
          exact .inr ⟨_, rfl, by rw [List.map_append]; exact List.mem_append_left _ hcalled, hc⟩
      · intro n y w i d hs
        rcases History.sublist_of_concat (p := [_, _]) hs with hs | ⟨heq, hs⟩
        · exact h.silent hs
        · -- the timer that runs is alive and was not called before in this batch
          simp only [TimerEvent.ran.injEq] at heq
          rcases h.gone hs with hd | ⟨b', hb', hcalled, -⟩
          · rw [heq.2, hplace] at hd
            cases hd
          · rw [hrun] at hb'
            cases hb'
            exact hnotCalled (heq.2 ▸ hcalled)
  | @finish b after hrun hw hafter =>
      refine h.quiet rfl (fun id d hmem => ?_) (fun n x hmem => ?_) (fun id hd => ?_) fun id hd => ?_
      · rcases mem_finishEvents hmem with ⟨id, heq⟩ | heq <;> cases heq
      · rcases mem_finishEvents hmem with ⟨id, heq⟩ | heq <;> cases heq
      · show s.finish b.now id = _
        rw [finish_of_not_expired (by simp [hd]), hd]
      · obtain ⟨b', hb', hcalled, hc⟩ := hd
        have hp := (hl.expired id).mpr
          ⟨b', hb', by rw [Batch.expired, List.map_append]; exact List.mem_append_left _ hcalled⟩
        exact .inl (finish_of_not_kept hp fun hk => hk.2 hc)

theorem Reachable.final {s : Agenda} (h : s.Reachable InTime) : s.Final := by
  induction h with
  | initial h => exact .initial h
  | step hr hs hok ih => exact ih.step hr.history.1 hs hok

end Agenda

end MiniMuduo
