import MiniMuduo.Timer.Refinement

/-!
# What the timer queue does

What holds in every run of the timer code, read off the agenda it refines.

* `representation` — the two sets are views of the same live timers, no timer is deleted twice or
  used after it was deleted, and no assert fails.
* `schedule` — timers run when they are due, in order, and none is lost, as long as the times they are
  put back for are `time_point`s.
* `cancel_final` — a cancelled timer does not run any more, as long as it is not cancelled between
  `addTimer` and `addTimerInLoop`, or while it waits for its turn in the batch being run.
-/

namespace MiniMuduo

namespace TimerQueue

variable {q : TimerQueue}

instance (q : TimerQueue) (a : TimerAction) : Decidable (system.enabled q a) :=
  inferInstanceAs (Decidable (q.enabled a))

/-- Every state tracks an agenda, whatever is cancelled when. -/
theorem tracks_of_reachable (h : system.Reachable q) : ∃ s, Tracks (fun _ _ => True) q q.adds s :=
  exists_tracks _ (fun _ _ _ _ => trivial) h

/-! ## The representation -/

/-- `activeTimers_` and `timers_` over the set `live` of addresses. -/
structure Represents (q : TimerQueue) (live : Finset Addr) : Prop where
  alive : ∀ a ∈ live, ∃ t, q.heap a = some t
  active : ∀ id, id ∈ q.activeTimers ↔ id.timer ∈ live ∧ ∃ t, q.Holds id t
  timers : ∀ e, e ∈ q.timers ↔
    e.timer ∈ live ∧ ∃ t, q.heap e.timer = some t ∧ t.expiration = e.expiration
  batch : ∀ x ∈ q.batch, x.id.timer ∉ live ∧ ∃ t, q.Holds x.id t

theorem Wf.represents {adds : List TimerId} (h : q.Wf (q.batch.map Scheduled.id ++ adds)) :
    q.Represents (q.timers.toList.map Entry.timer).toFinset := by
  constructor
  · intro a ha
    obtain ⟨e, he, rfl⟩ := List.mem_map.mp (List.mem_toFinset.mp ha)
    obtain ⟨t, ht, -⟩ := h.timers e he
    exact ⟨t, ht⟩
  · intro id
    rw [List.mem_toFinset]
    constructor
    · intro hact
      obtain ⟨t, ht, hmem⟩ := h.active id hact
      exact ⟨List.mem_map.mpr ⟨_, hmem, rfl⟩, t, ht⟩
    · rintro ⟨hmem, t, ht⟩
      obtain ⟨e, he, heq⟩ := List.mem_map.mp hmem
      obtain ⟨t', ht', -, hact⟩ := h.timers e he
      have hid : (⟨e.timer, t'.sequence⟩ : TimerId) = id := Holds.id_eq ⟨ht', rfl⟩ ht heq
      exact hid ▸ hact
  · intro e
    rw [List.mem_toFinset]
    constructor
    · intro he
      obtain ⟨t, ht, hexp, -⟩ := h.timers e he
      exact ⟨List.mem_map_of_mem he, t, ht, hexp⟩
    · rintro ⟨hmem, t, ht, hexp⟩
      obtain ⟨e', he', heq⟩ := List.mem_map.mp hmem
      obtain ⟨t', ht', hexp', -⟩ := h.timers e' he'
      rw [heq, ht, Option.some.injEq] at ht'
      have heq' : e' = e := by
        cases e
        cases e'
        simp_all
      exact heq' ▸ he'
  · intro x hx
    have hhand : x.id ∈ q.batch.map Scheduled.id ++ adds :=
      List.mem_append_left _ (List.mem_map_of_mem hx)
    refine ⟨fun hmem => ?_, h.hand x.id hhand⟩
    obtain ⟨e, he, heq⟩ := List.mem_map.mp (List.mem_toFinset.mp hmem)
    exact h.timer_ne_of_hand he hhand heq

/-- Timers are deleted at most once and never run after that; no two of them have the same sequence
number. -/
structure DeletedOnce (log : List TimerEvent) : Prop where
  count : ∀ id, log.count (.deleted id) ≤ 1
  silent : ∀ n x, ¬ [TimerEvent.deleted x.id, .ran n x].Sublist log
  unique : ∀ id id' w i w' i', .created id w i ∈ log → .created id' w' i' ∈ log →
    id.seq = id'.seq → id = id'

/-- **The representation invariant**: in every state of every run, `activeTimers_` and `timers_` are
over the same live timers, which are not those of the batch being run; timers are deleted once; and
every step that can be taken succeeds, so no assert fails and no deleted timer is used. -/
theorem representation (h : system.Reachable q) :
    (∃ live, q.Represents live) ∧ DeletedOnce q.log ∧
      ∀ a, system.enabled q a → ∃ q', system.exec q a = .ok q' := by
  obtain ⟨s, hs⟩ := tracks_of_reachable h
  have hlives := hs.reachable.history.1
  rw [← hs.refines.log]
  refine ⟨⟨_, hs.inv.wf.represents⟩, ⟨hlives.deleted_once, hlives.ran_alive, ?_⟩, ?_⟩
  · intro id id' w i w' i'
    exact hlives.seq_unique
  · intro a hen
    obtain ⟨q', -, hq', -⟩ := hs.exec hen fun _ _ => trivial
    exact ⟨q', hq'⟩

/-- A run with a repeating timer that cancels itself in the batch it shares with a one-shot timer,
whose address is used again afterwards. -/
def selfCancelRun : List TimerAction :=
  [.addTimer 1 10 1 0, .addTimer 2 10 0 0, .startRead 20, .runNext, .cancel ⟨1, 1⟩, .runNext,
    .endRead 21, .createElsewhere 2 30 0, .queueAdd ⟨2, 3⟩, .functor 22, .cancel ⟨2, 2⟩]

theorem representation_selfCancelRun :
    ∃ q, system.Reachable q ∧ q.log.length = 14 ∧
      (∃ live, q.Represents live) ∧ DeletedOnce q.log ∧
      ∀ a, system.enabled q a → ∃ q', system.exec q a = .ok q' := by
  obtain ⟨q, hq, hlen⟩ := StepSystem.exists_reachableVia_of_runFrom? (M := system)
    (fun _ _ => True) selfCancelRun (s := new) (p := fun q => q.log.length = 14) rfl
    (by decide +kernel)
  exact ⟨q, hq, of_decide_eq_true hlen, representation hq⟩

/-! ## The schedule -/

/-- What the log says about when timers run. -/
structure OnSchedule (q : TimerQueue) : Prop where
  /-- A callback runs in a batch whose `now` has reached the expiration of its timer. -/
  due : ∀ {n x}, .ran n x ∈ q.log → ∃ now xs, .started n now xs ∈ q.log ∧ x.expiration ≤ now
  /-- A batch runs exactly the timers that were queued when it started and due, … -/
  complete : ∀ {n now xs after}, .started n now xs ∈ q.log → .finished n after ∈ q.log →
    Agenda.ranIn n q.log = xs.filter (·.expiration ≤ now)
  /-- … each once, in the order of their expirations. -/
  ordered : ∀ {n now xs}, .started n now xs ∈ q.log →
    xs.Pairwise (·.expiration ≤ ·.expiration) ∧ (xs.map Scheduled.id).Nodup
  one_shot : ∀ {id w i}, .created id w i ∈ q.log → ¬ 0 < i → Agenda.ranCount id q.log ≤ 1
  /-- A repeating timer that ran is queued again when the batch ends, for its interval after `now`, … -/
  requeued : ∀ {n now xs after x w i}, .started n now xs ∈ q.log → .finished n after ∈ q.log →
    .ran n x ∈ q.log → .created x.id w i ∈ q.log → 0 < i → .cancelled x.id (some n) ∉ q.log →
    ∃ e, ⟨e, x.id⟩ ∈ after ∧ e.toInt = now.toInt + 1000 * wholeMicroseconds i
  /-- … unless it was cancelled during the batch, and then it runs in no later one. -/
  stopped : ∀ {n n' x x'}, .ran n x ∈ q.log → .cancelled x.id (some n) ∈ q.log →
    .ran n' x' ∈ q.log → x'.id = x.id → n' ≤ n
  /-- A timer that was added, not cancelled and, if it is a one-shot timer, not run is queued, or in
  the batch being run if there is one. -/
  not_lost : ∀ {id w i}, .created id w i ∈ q.log → .added id ∈ q.log →
    (∀ d, .cancelled id d ∉ q.log) → (¬ 0 < i → ∀ n x, .ran n x ∈ q.log → x.id ≠ id) →
    (∃ x ∈ q.queued, x.id = id) ∨ ∃ b ∈ q.running, ∃ x ∈ b.expired, x.id = id

/-- The interval of a timer that was put back is so short that the time it was put back for is a
`time_point`. -/
def RestartsFit (q : TimerQueue) : Prop :=
  ∀ {n now xs after x w i}, .started n now xs ∈ q.log → .finished n after ∈ q.log →
    .ran n x ∈ q.log → .created x.id w i ∈ q.log → 0 < i → .cancelled x.id (some n) ∉ q.log →
    FitsInt64 (now.toInt + 1000 * wholeMicroseconds i)

theorem OnSchedule.restartsFit (h : q.OnSchedule) : q.RestartsFit := by
  intro n now xs after x w i hst hfin hran hcr hpos hc
  obtain ⟨e, -, he⟩ := h.requeued hst hfin hran hcr hpos hc
  exact he ▸ fitsInt64_toInt e

/-- **Timers fire as scheduled and none is lost**, in exactly the runs that put timers back for times
that are `time_point`s. -/
theorem schedule (h : system.Reachable q) : q.OnSchedule ↔ q.RestartsFit := by
  obtain ⟨s, hs⟩ := tracks_of_reachable h
  obtain ⟨hlives, hbatches, hcancels⟩ := hs.reachable.history
  have hlog := hs.refines.log
  refine ⟨OnSchedule.restartsFit, fun hfit => ?_⟩
  constructor
  · intro n x hran
    rw [← hlog] at hran ⊢
    exact hbatches.ran_due hran
  · intro n now xs after hst hfin
    rw [← hlog] at hst hfin ⊢
    exact hbatches.completed hst (hbatches.finished hfin).2
  · intro n now xs hst
    rw [← hlog] at hst
    exact hbatches.started_sorted hst
  · intro id w i hcr hshot
    rw [← hlog] at hcr ⊢
    exact hcancels.once_count id (by rwa [hlives.interval hcr])
  · intro n now xs after x w i hst hfin hran hcr hpos hc
    have hexact := toInt_add_toMicroseconds (hfit hst hfin hran hcr hpos hc)
    rw [← hlog] at hst hfin hran hcr hc
    have hint := hlives.interval hcr
    have hmem := hcancels.requeued hfin hst hran (by rwa [hint]) hc
    rw [Agenda.nextExpiration, hint] at hmem
    exact ⟨_, hmem, hexact⟩
  · intro n n' x x' hran hc hran'
    rw [← hlog] at hran hc hran'
    exact hcancels.stopped_later hran hc hran'
  · intro id w i hcr hadd hc hshot
    rw [← hlog] at hcr hadd hc hshot
    obtain ⟨hborn, hadding⟩ := hlives.added id hadd
    cases hplace : s.place id with
    | unborn => exact absurd hplace hborn
    | adding w' => exact absurd hplace (hadding w')
    | queued e =>
        obtain ⟨hact, t, ht, hexp⟩ := (hs.refines.queued id e).mp hplace
        exact .inl ⟨⟨e, id⟩, hs.inv.wf.mem_queued.mpr ⟨hact, t, ht, hexp⟩, rfl⟩
    | expired =>
        obtain ⟨b, hb, hin⟩ := (hlives.expired id).mp hplace
        obtain ⟨x, hx, heq⟩ := List.mem_map.mp hin
        exact .inr ⟨b, hs.refines.running ▸ hb, x, hx, heq⟩
    | dead =>
        -- only a cancelled timer or a one-shot timer that ran is dead
        rcases hcancels.dead id hplace with ⟨d, hmem⟩ | ⟨hint, n, x, hran, hx⟩
        · exact absurd hmem (hc d)
        · rw [hlives.interval hcr] at hint
          exact absurd hx (hshot hint n x hran)

/-- A repeating timer runs and is put back half a second later. -/
def repeatRun : List TimerAction := [.addTimer 1 10 (1 / 2) 5, .startRead 20, .runNext, .endRead 21]

theorem schedule_repeatRun :
    ∃ q, system.Reachable q ∧ .finished 1 [⟨500000020, 1, 1⟩] ∈ q.log ∧ q.OnSchedule := by
  obtain ⟨q, hq, htest⟩ := StepSystem.exists_reachableVia_of_runFrom? (M := system)
    (fun _ _ => True) repeatRun (s := new)
    (p := fun q => q.log = [.created ⟨1, 1⟩ 10 (1 / 2), .added ⟨1, 1⟩, .started 1 20 [⟨10, 1, 1⟩],
      .ran 1 ⟨10, 1, 1⟩, .finished 1 [⟨500000020, 1, 1⟩]]) rfl (by decide +kernel)
  have hlog := of_decide_eq_true htest
  refine ⟨q, hq, by simp [hlog], (schedule hq).mpr ?_⟩
  intro n now xs after x w i hst hfin hran hcr hpos hc
  simp only [hlog, List.mem_cons, TimerEvent.started.injEq, TimerEvent.created.injEq,
    List.not_mem_nil, reduceCtorEq, or_false, false_or] at hst hcr
  obtain ⟨-, rfl, -⟩ := hst
  obtain ⟨-, -, rfl⟩ := hcr
  decide +kernel

/-- `runEvery` with an interval of some 300 years, and the clock in 2023: both sums overflow, so the
timer is due at once and is put back for a time in the past. -/
def farRun : List TimerAction :=
  [.addTimer 1 (1700000000000000000 + microseconds (toMicroseconds 10000000000)) 10000000000
      1700000000000000000,
    .startRead 1700000000000100000, .runNext, .endRead 1700000000000100000]

theorem put_back_for_the_past : ∃ q, system.Reachable q ∧ ¬ q.OnSchedule := by
  obtain ⟨q, hq, htest⟩ := StepSystem.exists_reachableVia_of_runFrom? (M := system)
    (fun _ _ => True) farRun (s := new)
    (p := fun q => q.log = [.created ⟨1, 1⟩ (-6746744073709551616) 10000000000, .added ⟨1, 1⟩,
      .started 1 1700000000000100000 [⟨-6746744073709551616, 1, 1⟩],
      .ran 1 ⟨-6746744073709551616, 1, 1⟩,
      .finished 1 [⟨-6746744073709451616, 1, 1⟩]]) rfl (by decide +kernel)
  have hlog := of_decide_eq_true htest
  refine ⟨q, hq, fun h => ?_⟩
  have hst : .started 1 1700000000000100000 [⟨-6746744073709551616, 1, 1⟩] ∈ q.log := by
    simp [hlog]
  have hfin : .finished 1 [⟨-6746744073709451616, 1, 1⟩] ∈ q.log := by simp [hlog]
  have hran : .ran 1 ⟨-6746744073709551616, 1, 1⟩ ∈ q.log := by simp [hlog]
  have hcr : .created ⟨1, 1⟩ (-6746744073709551616) 10000000000 ∈ q.log := by simp [hlog]
  exact absurd (h.restartsFit hst hfin hran hcr (by decide) (by simp [hlog])) (by decide +kernel)

/-! ## Cancellation -/

/-- What the step cancels, if anything, is neither waiting to be added nor waiting for its turn in the
batch being run. -/
def CancelsInTime (q : TimerQueue) (a : TimerAction) : Prop :=
  ∀ id ∈ q.cancels? a, id ∉ q.adds ∧ ∀ b ∈ q.running, id ∉ b.waiting.map Scheduled.id

instance (q : TimerQueue) (a : TimerAction) : Decidable (q.CancelsInTime a) :=
  inferInstanceAs (Decidable (∀ id ∈ q.cancels? a, _))

/-- The callback of a timer was started after its cancellation was carried out. -/
def RanAfterCancel (q : TimerQueue) (id : TimerId) : Prop :=
  ∃ n e w i d, [TimerEvent.created id w i, .cancelled id d, .ran n ⟨e, id⟩].Sublist q.log

/-- **Cancellation is final** in every run that cancels in time: once `cancelInLoop` was executed for
the id an `addTimer` call made, the callback of that timer is not started any more. -/
theorem cancel_final (h : system.ReachableVia CancelsInTime q) (id : TimerId) :
    ¬ q.RanAfterCancel id := by
  obtain ⟨s, hs⟩ := exists_tracks Agenda.InTime (fun {q a s} hs hgood id hid => by
    obtain ⟨hadd, hwait⟩ := hgood id hid
    refine ⟨fun w hp => hadd ((hs.refines.adding id w).mp hp).1, ?_⟩
    rw [hs.refines.running]
    exact hwait) h
  rintro ⟨n, e, w, i, d, hsub⟩
  rw [← hs.refines.log] at hsub
  exact hs.reachable.final.silent (x := ⟨e, id⟩) hsub

theorem cancel_final_selfCancelRun :
    ∃ q, system.ReachableVia CancelsInTime q ∧ .cancelled ⟨1, 1⟩ (some 1) ∈ q.log ∧
      ¬ q.RanAfterCancel ⟨1, 1⟩ := by
  obtain ⟨q, hq, hc⟩ := StepSystem.exists_reachableVia_of_runFrom? (M := system)
    CancelsInTime selfCancelRun (s := new)
    (p := fun q => .cancelled ⟨1, 1⟩ (some 1) ∈ q.log) rfl (by decide +kernel)
  exact ⟨q, hq, of_decide_eq_true hc, cancel_final hq ⟨1, 1⟩⟩

/-- Two timers expire together and the callback of the first cancels the second: it runs all the
same. -/
theorem cancelled_while_waiting_runs :
    ∃ q, system.Reachable q ∧ q.RanAfterCancel ⟨2, 2⟩ := by
  obtain ⟨q, hq, hsub⟩ := StepSystem.exists_reachableVia_of_runFrom? (M := system)
    (fun _ _ => True)
    [.addTimer 1 10 0 0, .addTimer 2 10 0 0, .startRead 20, .runNext, .cancel ⟨2, 2⟩, .runNext]
    (s := new) (p := fun q => [TimerEvent.created ⟨2, 2⟩ 10 0, .cancelled ⟨2, 2⟩ (some 1),
      .ran 1 ⟨10, 2, 2⟩].isSublist q.log) rfl (by decide +kernel)
  exact ⟨q, hq, 1, 10, 10, 0, some 1, List.isSublist_iff_sublist.mp hsub⟩

end TimerQueue

end MiniMuduo
