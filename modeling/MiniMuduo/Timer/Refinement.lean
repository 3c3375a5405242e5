import MiniMuduo.Timer.Invariant
import MiniMuduo.Timer.Agenda

/-!
# `TimerQueue` refines `Agenda`

Every state of the timer code stands for an agenda (`Refines`): the place of a timer is read off the
sets, the batch and the functors it is in, and the log is the same. `Tracks` bundles this with the
representation invariant; each operation of the code has a lemma that it succeeds and is one move of
the agenda. Together they are `Tracks.exec`, that every enabled step succeeds and is matched, and
`exists_tracks`, that every state of every run tracks an agenda.
-/

namespace MiniMuduo

open Fallible

/-- The timer a functor is about to add. -/
def TimerFunctor.adds : TimerFunctor → Option TimerId
  | .addTimerInLoop id => some id
  | .cancelInLoop _ => none

namespace TimerQueue

variable {q q' : TimerQueue} {id id' : TimerId} {t t' : Timer} {s s' : Agenda}

/-! ## The agenda behind a state -/

/-- Timers that were created and not added yet. -/
def adds (q : TimerQueue) : List TimerId :=
  q.pendingFunctors.filterMap TimerFunctor.adds ++ q.creating

/-- The batch being run. -/
def batch (q : TimerQueue) : List Scheduled := (q.running.map Batch.expired).getD []

/-- The invariant of a state, given the timers that wait to be added. -/
structure Inv (q : TimerQueue) (adds : List TimerId) : Prop where
  wf : q.Wf (q.batch.map Scheduled.id ++ adds)
  calling : q.callingExpiredTimers = q.running.isSome
  expirations : ∀ x ∈ q.batch, ∃ t, q.Holds x.id t ∧ t.expiration = x.expiration

/-- The agenda a state stands for. -/
structure Refines (q : TimerQueue) (adds : List TimerId) (s : Agenda) : Prop where
  log : s.log = q.log
  running : s.running = q.running
  batches : s.batches = q.batches
  canceling : ∀ id, id ∈ s.canceling ↔ id ∈ q.cancelingTimers
  adding : ∀ id w, s.place id = .adding w ↔ id ∈ adds ∧ ∃ t, q.Holds id t ∧ t.expiration = w
  queued : ∀ id e,
    s.place id = .queued e ↔ id ∈ q.activeTimers ∧ ∃ t, q.Holds id t ∧ t.expiration = e
  fresh : ∀ id, s.place id ≠ .unborn → id.seq ≤ q.numCreated
  interval : ∀ id t, q.Holds id t →
    t.interval = s.interval id ∧ t.repeat_ = decide (0 < t.interval)

/-- The state satisfies its invariant and stands for an agenda that moves lead to. -/
structure Tracks (ok : Agenda → TimerId → Prop) (q : TimerQueue) (adds : List TimerId) (s : Agenda) :
    Prop where
  inv : q.Inv adds
  refines : q.Refines adds s
  reachable : s.Reachable ok

variable {adds : List TimerId} {ok : Agenda → TimerId → Prop}

theorem Holds.id_eq (h : q.Holds id t) (h' : q.Holds id' t') (heq : id.timer = id'.timer) :
    id = id' := by
  have htt : t = t' := Option.some.inj (h.1.symm.trans (heq ▸ h'.1))
  cases id
  cases id'
  simp_all [Holds]

theorem tracks_new : ∃ s, Tracks ok new new.adds s := by
  refine ⟨⟨fun _ => .unborn, fun _ => 0, ∅, none, 0, []⟩, ⟨?_, rfl, by simp [batch, new]⟩, ?_,
    .initial ⟨fun _ => rfl, rfl, rfl, rfl⟩⟩
  · constructor <;> simp [new, TimerQueue.adds, batch, OrdSet.empty, OrdSet.mem_toList.symm]
  · constructor <;> simp [new, TimerQueue.adds, Holds]

/-- The expired places of the agenda are the batch. -/
theorem Tracks.expired_iff (h : Tracks ok q adds s) (id : TimerId) :
    s.place id = .expired ↔ id ∈ q.batch.map Scheduled.id := by
  rw [h.reachable.history.1.expired, h.refines.running, batch]
  cases q.running <;> simp

theorem Tracks.during_eq (h : Tracks ok q adds s) :
    s.during = if q.callingExpiredTimers then some q.batches else none := by
  rw [Agenda.during, h.refines.running, h.refines.batches, h.inv.calling]
  cases q.running <;> simp

theorem Tracks.perm {adds' : List TimerId} (h : Tracks ok q adds s) (hp : adds.Perm adds') :
    Tracks ok q adds' s where
  inv := { h.inv with wf := h.inv.wf.perm (hp.append_left _) }
  refines := { h.refines with adding := by simpa [hp.mem_iff] using h.refines.adding }
  reachable := h.reachable

/-- The descriptor and the queues of functors play no part. -/
theorem Tracks.congr (h : Tracks ok q adds s) (q' : TimerQueue)
    (hq : q' = { q with
      timerfd := q'.timerfd, creating := q'.creating, pendingFunctors := q'.pendingFunctors }) :
    Tracks ok q' adds s := by
  have hwf : q'.Wf (q.batch.map Scheduled.id ++ adds) :=
    h.inv.wf.congr (by rw [hq]) (by rw [hq]) (by rw [hq]) (by rw [hq])
  rw [hq] at hwf ⊢
  exact ⟨⟨hwf, h.inv.calling, h.inv.expirations⟩, { h.refines with }, h.reachable⟩

/-! ## One lemma per operation -/

/-- The timers there are after `new Timer`. -/
theorem holds_newTimer_iff (q : TimerQueue) (id : TimerId) (t : Timer) {a : Addr}
    (ha : q.Allocatable a) (when : TimePoint) (i : ℚ) :
    (q.newTimer a when i).2.Holds id t ↔
      id = (q.newTimer a when i).1 ∧ t = .new when i (q.numCreated + 1) ∨ q.Holds id t := by
  have hnone : q.heap a = none := Option.isNone_iff_eq_none.mp ha.1
  by_cases heq : id.timer = a
  · have hnot : ¬ q.Holds id t := fun h => by simp [Holds, heq, hnone] at h
    have hheap : (q.newTimer a when i).2.heap id.timer = some (.new when i (q.numCreated + 1)) := by
      rw [heq]
      exact Function.update_self ..
    rw [or_iff_left hnot, Holds, hheap, Option.some.injEq]
    constructor
    · rintro ⟨rfl, hseq⟩
      refine ⟨?_, rfl⟩
      cases id
      simp_all [newTimer, Timer.new]
    · rintro ⟨rfl, rfl⟩
      exact ⟨rfl, rfl⟩
  · have hheap : (q.newTimer a when i).2.heap id.timer = q.heap id.timer :=
      Function.update_of_ne heq _ _
    have hne : id ≠ (q.newTimer a when i).1 := fun h => heq (congrArg TimerId.timer h)
    simp [Holds, hheap, hne]

/-- `new Timer` is the move `create`. -/
theorem Tracks.newTimer (h : Tracks ok q adds s) {a : Addr} (ha : q.Allocatable a)
    (when : TimePoint) (i : ℚ) :
    ∃ s', Tracks ok (q.newTimer a when i).2 ((q.newTimer a when i).1 :: adds) s' := by
  have hunborn : s.place (q.newTimer a when i).1 = .unborn := by
    by_contra hne
    have hle := h.refines.fresh _ hne
    simp only [TimerQueue.newTimer] at hle
    omega
  have hseq : ∀ id', s.place id' ≠ .unborn → id'.seq ≠ (q.newTimer a when i).1.seq := by
    intro id' hne
    have hle := h.refines.fresh id' hne
    simp only [TimerQueue.newTimer]
    omega
  have hholds : ∀ {id t}, _ := fun {id t} => q.holds_newTimer_iff id t ha when i
  -- no timer has the new number yet, whatever was at this address before
  have hnew : ¬ ∃ t, q.Holds (q.newTimer a when i).1 t := by
    rintro ⟨t, ht⟩
    have := (h.inv.wf.bound ht.1).2.2
    rw [ht.2] at this
    simp only [TimerQueue.newTimer] at this
    omega
  have hnotAct : (q.newTimer a when i).1 ∉ q.activeTimers := fun hmem => by
    obtain ⟨t, ht, -⟩ := h.inv.wf.active _ hmem
    exact hnew ⟨t, ht⟩
  have hother : ∀ {id'} {P : Timer → Prop}, id' ≠ (q.newTimer a when i).1 →
      ((∃ t, q.Holds id' t ∧ P t) ↔ ∃ t, (q.newTimer a when i).2.Holds id' t ∧ P t) := by
    intro id' P hne
    refine exists_congr fun t => and_congr_left fun _ => ?_
    exact ⟨fun ht => hholds.mpr (.inr ht), fun ht =>
      (hholds.mp ht).resolve_left fun hid => hne hid.1⟩
  refine ⟨_, ⟨?_, h.inv.calling, ?_⟩, ?_, h.reachable.step (.create when i hunborn hseq) (by simp)⟩
  · exact (h.inv.wf.newTimer ha when i).perm List.perm_middle.symm
  · intro x hx
    obtain ⟨t, ht, hexp⟩ := h.inv.expirations x hx
    exact ⟨t, hholds.mpr (.inr ht), hexp⟩
  · refine ⟨?log, h.refines.running, h.refines.batches, h.refines.canceling, ?adding, ?queued,
      ?fresh, ?interval⟩
    case log =>
      show s.log ++ _ = _
      rw [h.refines.log]
      rfl
    case adding =>
      intro id' w
      by_cases heq : id' = (q.newTimer a when i).1
      · subst heq
        simp only [Function.update_self, Place.adding.injEq, List.mem_cons, true_or, true_and]
        constructor
        · rintro rfl
          exact ⟨_, hholds.mpr (.inl ⟨rfl, rfl⟩), rfl⟩
        · rintro ⟨t, ht, rfl⟩
          rcases hholds.mp ht with ⟨-, rfl⟩ | ht
          · rfl
          · exact absurd ⟨t, ht⟩ hnew
      · simp only [Function.update_of_ne heq, List.mem_cons, heq, false_or, h.refines.adding,
          hother heq]
    case queued =>
      intro id' e
      by_cases heq : id' = (q.newTimer a when i).1
      · subst heq
        simp only [Function.update_self, reduceCtorEq, false_iff, not_and]
        exact fun hmem => absurd hmem hnotAct
      · simp only [Function.update_of_ne heq, h.refines.queued, hother heq]
        rfl
    case fresh =>
      intro id' hplace
      show id'.seq ≤ q.numCreated + 1
      by_cases heq : id' = (q.newTimer a when i).1
      · rw [heq]
        exact le_rfl
      · have := h.refines.fresh id' (by simpa [Function.update_of_ne heq] using hplace)
        omega
    case interval =>
      intro id' t ht
      rcases hholds.mp ht with ⟨rfl, rfl⟩ | ht
      · exact ⟨by simp [Timer.new], rfl⟩
      · have hne : id' ≠ (q.newTimer a when i).1 := fun heq => hnew ⟨t, heq ▸ ht⟩
        simpa [Function.update_of_ne hne] using h.refines.interval id' t ht

/-- `addTimerInLoop` is the move `add`. -/
theorem Tracks.addTimerInLoop (h : Tracks ok q (id :: adds) s) (clock : TimePoint) :
    ∃ q' s', q.addTimerInLoop clock id = .ok q' ∧ Tracks ok q' adds s' ∧
      q'.pendingFunctors = q.pendingFunctors ∧ q'.creating = q.creating := by
  have hwf := h.inv.wf.perm List.perm_middle
  obtain ⟨t, ht⟩ := hwf.hand id List.mem_cons_self
  obtain ⟨fd, hadd⟩ := hwf.addTimerInLoop ht clock
  have hplace : s.place id = .adding t.expiration :=
    (h.refines.adding id _).mpr ⟨List.mem_cons_self, t, ht, rfl⟩
  have hnotin : id ∉ adds := by
    have := (List.nodup_cons.mp hwf.hand_nodup).1
    intro hmem
    exact this (List.mem_map_of_mem (List.mem_append_right _ hmem))
  refine ⟨_, _, hadd, ⟨⟨?_, h.inv.calling, h.inv.expirations⟩, ?_,
    h.reachable.step (.add hplace) (by simp)⟩, rfl, rfl⟩
  · exact (hwf.put ht).congr rfl rfl rfl rfl
  · refine ⟨?log, h.refines.running, h.refines.batches, h.refines.canceling, ?adding, ?queued, ?fresh,
      h.refines.interval⟩
    case log =>
      show s.log ++ _ = _
      rw [h.refines.log]
    case adding =>
      intro id' w
      by_cases heq : id' = id
      · subst heq
        simp [hnotin]
      · simp only [Function.update_of_ne heq, h.refines.adding, List.mem_cons, heq, false_or]
        rfl
    case queued =>
      intro id' e
      by_cases heq : id' = id
      · subst heq
        simp only [Function.update_self, Place.queued.injEq]
        constructor
        · rintro rfl
          exact ⟨Finset.mem_insert_self .., t, ht, rfl⟩
        · rintro ⟨-, t', ht', rfl⟩
          rw [ht.unique ht']
      · have hact : id' ∈ Insert.insert id q.activeTimers ↔ id' ∈ q.activeTimers := by simp [heq]
        simp only [Function.update_of_ne heq, h.refines.queued, TimerQueue.put, hact]
        rfl
    case fresh =>
      intro id' hne
      by_cases heq : id' = id
      · rw [heq, ← ht.2]
        exact (hwf.bound ht.1).2.2
      · exact h.refines.fresh id' (by simpa [Function.update_of_ne heq] using hne)

/-- `cancelInLoop` is one of the two moves for it. -/
theorem Tracks.cancelInLoop (h : Tracks ok q adds s) (hok : ok s id) :
    ∃ q' s', q.cancelInLoop id = .ok q' ∧ Tracks ok q' adds s' ∧
      q'.pendingFunctors = q.pendingFunctors ∧ q'.creating = q.creating := by
  by_cases hact : id ∈ q.activeTimers
  · obtain ⟨t, ht, hmem⟩ := h.inv.wf.active id hact
    have hwf : (q.logCancel id).Wf (q.batch.map Scheduled.id ++ adds) :=
      h.inv.wf.congr rfl rfl rfl rfl
    have hplace : s.place id = .queued t.expiration :=
      (h.refines.queued id _).mpr ⟨hact, t, ht, rfl⟩
    have hholds : ∀ {id' t'}, ((q.logCancel id).discard id t).Holds id' t' ↔
        id' ≠ id ∧ q.Holds id' t' := by
      intro id' t'
      by_cases heq : id'.timer = id.timer
      · have hnone : ((q.logCancel id).discard id t).heap id'.timer = none := by
          rw [heq]
          exact Function.update_self ..
        simp only [Holds, hnone, reduceCtorEq, false_and, false_iff, not_and]
        intro hne hheap hseq
        exact hne (Holds.id_eq ⟨hheap, hseq⟩ ht heq)
      · have hne : id' ≠ id := fun h => heq (congrArg TimerId.timer h)
        have hheap : ((q.logCancel id).discard id t).heap id'.timer = q.heap id'.timer :=
          Function.update_of_ne heq _ _
        simp [Holds, hheap, hne]
    have hhand : ∀ id' ∈ q.batch.map Scheduled.id ++ adds, id' ≠ id := by
      rintro id' hid' rfl
      exact h.inv.wf.notMem_active hid' hact
    refine ⟨_, _, h.inv.wf.cancelInLoop_active hact ht, ⟨⟨hwf.discard hact ht, h.inv.calling, ?_⟩,
      ?_, h.reachable.step (.cancelQueued hplace) (by simpa using hok)⟩, rfl, rfl⟩
    · intro x hx
      obtain ⟨t', ht', hexp⟩ := h.inv.expirations x hx
      exact ⟨t', hholds.mpr ⟨hhand _ (List.mem_append_left _ (List.mem_map_of_mem hx)), ht'⟩, hexp⟩
    · refine ⟨?log, h.refines.running, h.refines.batches, h.refines.canceling, ?adding, ?queued,
        ?fresh, ?interval⟩
      case log =>
        show s.log ++ _ = _
        rw [h.refines.log, h.during_eq]
        simp [discard, logCancel]
      case adding =>
        intro id' w
        by_cases heq : id' = id
        · subst heq
          simp only [Function.update_self, reduceCtorEq, false_iff, not_and]
          exact fun hmem => absurd rfl (hhand _ (List.mem_append_right _ hmem))
        · simp only [Function.update_of_ne heq, h.refines.adding, hholds, ne_eq, heq,
            not_false_eq_true, true_and]
      case queued =>
        intro id' e
        by_cases heq : id' = id
        · subst heq
          simp [discard]
        · have hact' : id' ∈ ((q.logCancel id).discard id t).activeTimers ↔
              id' ∈ q.activeTimers := by simp [discard, logCancel, heq]
          simp only [Function.update_of_ne heq, h.refines.queued, hholds, ne_eq, heq,
            not_false_eq_true, true_and, hact']
      case fresh =>
        intro id' hne
        by_cases heq : id' = id
        · rw [heq]
          exact h.refines.fresh id (by simp [hplace])
        · exact h.refines.fresh id' (by simpa [Function.update_of_ne heq] using hne)
      case interval =>
        intro id' t' ht'
        exact h.refines.interval id' t' (hholds.mp ht').2
  · have hplace : ∀ e, s.place id ≠ .queued e := fun e hp =>
      hact ((h.refines.queued id e).mp hp).1
    refine ⟨_, _, h.inv.wf.cancelInLoop_of_notMem hact,
      ⟨⟨h.inv.wf.congr rfl rfl rfl rfl, h.inv.calling, h.inv.expirations⟩, ?_,
        h.reachable.step (.cancelOther hplace) (by simpa using hok)⟩, rfl, rfl⟩
    refine ⟨?_, h.refines.running, h.refines.batches, ?_, h.refines.adding, h.refines.queued,
      h.refines.fresh, h.refines.interval⟩
    · show s.log ++ _ = _
      rw [h.refines.log, h.during_eq]
      rfl
    · intro id'
      have hrun : s.running.isSome = q.callingExpiredTimers := by
        rw [h.refines.running, h.inv.calling]
      simp only [hrun]
      split <;> simp [h.refines.canceling]

theorem Wf.mem_queued {hand : List TimerId} (h : q.Wf hand) {x : Scheduled} :
    x ∈ q.queued ↔ x.id ∈ q.activeTimers ∧ ∃ t, q.Holds x.id t ∧ t.expiration = x.expiration := by
  simp only [TimerQueue.queued, List.mem_map, OrdSet.mem_toList]
  constructor
  · rintro ⟨e, he, rfl⟩
    obtain ⟨t, ht, hexp, hact⟩ := h.holds_identify he
    exact ⟨hact, t, ht, hexp⟩
  · rintro ⟨hact, t, ht, hexp⟩
    obtain ⟨t', ht', hmem⟩ := h.active _ hact
    rw [← ht.unique ht', hexp] at hmem
    refine ⟨_, hmem, ?_⟩
    simp [identify, ht.1, ht.2]

/-- `timers_` lists the queued timers in order. -/
theorem Wf.lists_queued {hand : List TimerId} {place : TimerId → Place} (h : q.Wf hand)
    (hq : ∀ id e,
      place id = .queued e ↔ id ∈ q.activeTimers ∧ ∃ t, q.Holds id t ∧ t.expiration = e) :
    Agenda.Lists place q.queued where
  mem_iff := fun x => by rw [h.mem_queued, hq]
  sorted := by
    refine List.Pairwise.map _ ?_ q.timers.sorted
    intro e e' hlt
    rcases Entry.lt_iff.mp hlt with hlt | ⟨heq, -⟩
    · exact hlt.le
    · exact heq.le
  nodup := by
    have hnodup : ((q.queued.map Scheduled.id).map TimerId.timer).Nodup := by
      have := h.nodup.of_append_left
      simpa [TimerQueue.queued, identify, Function.comp_def] using this
    exact hnodup.of_map _

/-- `getExpired` takes what is due. -/
theorem Wf.expiredAt_eq {hand : List TimerId} (h : q.Wf hand) (now : TimePoint) :
    q.expiredAt now = Agenda.due now q.queued := by
  rw [expiredAt, OrdSet.below, Agenda.due, TimerQueue.queued, List.filter_map]
  refine congrArg _ (List.filter_congr fun e he => ?_)
  exact decide_eq_decide.mpr (h.lt_sentry he)

theorem batch_of_none (h : q.running = none) : q.batch = [] := by simp [batch, h]

theorem batch_of_some {b : Batch} (h : q.running = some b) : q.batch = b.expired := by
  simp [batch, h]

theorem Place.start_eq_queued {now e : TimePoint} {p : Place} :
    p.start now = .queued e ↔ p = .queued e ∧ now < e := by
  rcases Agenda.Place.start_cases now p with ⟨e', rfl, hle, hstart⟩ | hstart
  · rw [hstart]
    simp only [reduceCtorEq, Place.queued.injEq, false_iff, not_and, not_lt]
    rintro rfl
    exact hle
  · rw [hstart]
    refine ⟨fun hp => ⟨hp, ?_⟩, fun hp => hp.1⟩
    subst hp
    by_contra hle
    simp [Place.start, not_lt.mp hle] at hstart

/-- The queue when `handleRead` is about to run the first callback. -/
def started (q : TimerQueue) (now : TimePoint) : TimerQueue :=
  { q.expire now with
    timerfd := q.readTimerfd.timerfd
    callingExpiredTimers := true
    cancelingTimers := ∅
    running := some ⟨now, [], q.expiredAt now⟩
    batches := q.batches + 1
    log := q.log ++ [.started (q.batches + 1) now q.queued] }

theorem Wf.startRead {hand : List TimerId} (h : q.Wf hand) (now : TimePoint) :
    q.startRead now = .ok (q.started now) := by
  have hwf : Wf { q.readTimerfd with
      batches := q.batches + 1
      log := q.log ++ [.started (q.batches + 1) now q.queued] } hand := h.congr rfl rfl rfl rfl
  simp only [TimerQueue.startRead, hwf.getExpired now, ok_bind, pure_eq_ok]
  rfl

/-- `handleRead` up to the first callback is the move `start`. -/
theorem Tracks.startRead (h : Tracks ok q adds s) (hnone : q.running = none) (now : TimePoint) :
    ∃ q' s', q.startRead now = .ok q' ∧ Tracks ok q' adds s' ∧
      q'.pendingFunctors = q.pendingFunctors ∧ q'.creating = q.creating := by
  have hwf : q.Wf adds := by simpa [batch_of_none hnone] using h.inv.wf
  have hlists : Agenda.Lists s.place q.queued := hwf.lists_queued h.refines.queued
  have hexpired : ∀ id, id ∈ (q.expiredAt now).map Scheduled.id ↔
      ∃ e, s.place id = .queued e ∧ e ≤ now := by
    intro id
    rw [hwf.expiredAt_eq]
    simp only [Agenda.due, List.mem_map, List.mem_filter, decide_eq_true_eq]
    constructor
    · rintro ⟨x, ⟨hx, hle⟩, rfl⟩
      exact ⟨x.expiration, (hlists.mem_iff x).mp hx, hle⟩
    · rintro ⟨e, hp, hle⟩
      exact ⟨⟨e, id⟩, ⟨(hlists.mem_iff _).mpr hp, hle⟩, rfl⟩
  refine ⟨_, _, hwf.startRead now, ⟨⟨?_, rfl, ?_⟩, ?_,
    h.reachable.step (.start now (h.refines.running.trans hnone) hlists) (by simp)⟩,
    rfl, rfl⟩
  · exact (hwf.expire now).congr rfl rfl rfl rfl
  · intro x hx
    have hx' : x ∈ q.expiredAt now := hx
    rw [hwf.expiredAt_eq] at hx'
    exact (hwf.mem_queued.mp (List.mem_filter.mp hx').1).2
  · refine ⟨?log, ?running, ?batches, ?canceling, ?adding, ?queued, ?fresh, h.refines.interval⟩
    case log =>
      show s.log ++ _ = _
      rw [h.refines.log, h.refines.batches]
      rfl
    case running =>
      show some _ = some _
      rw [← hwf.expiredAt_eq]
    case batches =>
      show s.batches + 1 = _
      rw [h.refines.batches]
      rfl
    case canceling =>
      simp [started]
    case adding =>
      intro id w
      have hstart : (s.place id).start now = .adding w ↔ s.place id = .adding w := by
        rcases Agenda.Place.start_cases now (s.place id) with ⟨e, hp, -, hstart⟩ | hstart
        · rw [hstart, hp]
          simp
        · rw [hstart]
      rw [hstart, h.refines.adding]
      rfl
    case queued =>
      intro id e
      have hact : id ∈ (q.expire now).activeTimers ↔
          id ∈ q.activeTimers ∧ id ∉ (q.expiredAt now).map Scheduled.id := by
        rw [TimerQueue.expire, Finset.mem_sdiff, List.mem_toFinset]
      show (s.place id).start now = .queued e ↔ id ∈ (q.expire now).activeTimers ∧
        ∃ t, q.Holds id t ∧ t.expiration = e
      rw [Place.start_eq_queued, hact, hexpired, h.refines.queued]
      constructor
      · rintro ⟨⟨hmem, t, ht, rfl⟩, hlt⟩
        refine ⟨⟨hmem, ?_⟩, t, ht, rfl⟩
        rintro ⟨e', hp, hle⟩
        obtain ⟨-, t', ht', rfl⟩ := (h.refines.queued id e').mp hp
        rw [ht.unique ht'] at hlt
        exact absurd hle (not_le.mpr hlt)
      · rintro ⟨⟨hmem, hnot⟩, t, ht, rfl⟩
        refine ⟨⟨hmem, t, ht, rfl⟩, ?_⟩
        by_contra hle
        exact hnot ⟨_, (h.refines.queued id _).mpr ⟨hmem, t, ht, rfl⟩, not_lt.mp hle⟩
    case fresh =>
      intro id hne
      refine h.refines.fresh id fun hp => hne ?_
      simp [hp, Place.start]

/-- Running a callback is the move `run`. -/
theorem Tracks.runNext (h : Tracks ok q adds s) {b : Batch} (hrun : q.running = some b)
    (hw : b.waiting ≠ []) :
    ∃ q' s', q.runNext b = .ok q' ∧ Tracks ok q' adds s' ∧
      q'.pendingFunctors = q.pendingFunctors ∧ q'.creating = q.creating := by
  obtain ⟨x, xs, hxs⟩ := List.exists_cons_of_ne_nil hw
  have hx : x ∈ q.batch := by simp [batch_of_some hrun, Batch.expired, hxs]
  obtain ⟨t, ht, hexp⟩ := h.inv.expirations x hx
  have hbatch : (some (Batch.mk b.now (b.called ++ [x]) xs)).map Batch.expired =
      q.running.map Batch.expired := by
    simp [hrun, Batch.expired, hxs]
  refine ⟨{ q with
      running := some ⟨b.now, b.called ++ [x], xs⟩
      log := q.log ++ [.ran q.batches x] }, _, ?_, ⟨⟨?_, ?_, ?_⟩, ?_,
    h.reachable.step (.run (h.refines.running.trans hrun) hxs) (by simp)⟩, rfl, rfl⟩
  · simp only [TimerQueue.runNext, hxs, derefId_of_holds ht, ok_bind, pure_eq_ok, hexp]
  · have hwf := h.inv.wf
    rw [batch, ← hbatch] at hwf
    exact hwf.congr rfl rfl rfl rfl
  · show q.callingExpiredTimers = _
    rw [h.inv.calling, hrun]
    rfl
  · intro y hy
    refine h.inv.expirations y ?_
    rw [batch, ← hbatch]
    exact hy
  · refine { h.refines with log := ?_, running := rfl }
    show s.log ++ _ = _
    rw [h.refines.log, h.refines.batches]

/-- Which timers of the batch are put back. -/
theorem Tracks.keeps_iff (h : Tracks ok q adds s) {x : Scheduled} (hx : x ∈ q.batch) :
    q.keeps x ↔ s.Kept x.id := by
  obtain ⟨t, ht, -⟩ := h.inv.expirations x hx
  obtain ⟨hint, hrep⟩ := h.refines.interval _ _ ht
  simp only [keeps, ht.1, Option.map_some, Option.getD_some, hrep, hint, Bool.and_eq_true,
    decide_eq_true_eq, Agenda.Kept, h.refines.canceling]

/-- The places at the end of a batch, and the queue it leaves. -/
theorem Tracks.queued_settled (h : Tracks ok q adds s) {now : TimePoint}
    (hset : Settled { q with callingExpiredTimers := false } now q.batch q') (id : TimerId)
    (e : TimePoint) :
    s.finish now id = .queued e ↔ id ∈ q'.activeTimers ∧ ∃ t, q'.Holds id t ∧ t.expiration = e := by
  by_cases hp : s.place id = .expired
  · obtain ⟨x, hx, rfl⟩ := List.mem_map.mp ((h.expired_iff id).mp hp)
    obtain ⟨t, ht, -⟩ := h.inv.expirations x hx
    obtain ⟨hint, hrep⟩ := h.refines.interval _ _ ht
    by_cases hk : s.Kept x.id
    · have hheap := hset.kept x hx ((h.keeps_iff hx).mpr hk) t ht
      have hrep' : t.repeat_ = true := by rw [hrep, hint]; exact decide_eq_true hk.1
      have hholds : q'.Holds x.id (t.restart now) :=
        ⟨hheap, (t.restart_sequence now).trans ht.2⟩
      have hexp : (t.restart now).expiration = s.nextExpiration now x.id := by
        simp [Timer.restart, hrep', Agenda.nextExpiration, hint]
      rw [Agenda.finish_of_kept hp hk, Place.queued.injEq]
      constructor
      · rintro rfl
        exact ⟨(hset.active _).mpr (.inr ⟨x, hx, (h.keeps_iff hx).mpr hk, rfl⟩), _, hholds, hexp⟩
      · rintro ⟨-, t', ht', rfl⟩
        rw [← hexp, hholds.unique ht']
    · have hheap := hset.dropped x hx fun hk' => hk ((h.keeps_iff hx).mp hk')
      rw [Agenda.finish_of_not_kept hp hk]
      simp [Holds, hheap]
  · have hnot : ∀ x ∈ q.batch, x.id ≠ id := fun x hx heq =>
      hp ((h.expired_iff id).mpr (heq ▸ List.mem_map_of_mem hx))
    have hact : id ∈ q'.activeTimers ↔ id ∈ q.activeTimers := by
      rw [hset.active, or_iff_left]
      rintro ⟨x, hx, -, heq⟩
      exact hnot x hx heq
    rw [Agenda.finish_of_not_expired hp, h.refines.queued, hact]
    refine and_congr_right fun hmem => ?_
    obtain ⟨t, ht, hentry⟩ := h.inv.wf.active id hmem
    have hheap : q'.heap id.timer = q.heap id.timer := hset.other _ fun hin => by
      obtain ⟨x, hx, heq⟩ := List.mem_map.mp hin
      exact h.inv.wf.timer_ne_of_hand hentry
        (List.mem_append_left _ (List.mem_map_of_mem hx)) heq.symm
    simp only [Holds, hheap]

/-- `handleRead` after the last callback is the move `finish`. -/
theorem Tracks.endRead (h : Tracks ok q adds s) {b : Batch} (hrun : q.running = some b)
    (hw : b.waiting = []) (clock : TimePoint) :
    ∃ q' s', q.endRead clock b = .ok q' ∧ Tracks ok q' adds s' ∧
      q'.pendingFunctors = q.pendingFunctors ∧ q'.creating = q.creating := by
  have hbatch := batch_of_some hrun
  have hcalled : b.expired = b.called := by simp [Batch.expired, hw]
  have hwf : Wf { q with callingExpiredTimers := false } (q.batch.map Scheduled.id ++ adds) :=
    h.inv.wf.congr rfl rfl rfl rfl
  obtain ⟨q₁, hreset, hset, hwf₁⟩ := hwf.reset clock b.now
  have hqueued := h.queued_settled hset
  have hlists : Agenda.Lists (s.finish b.now) q₁.queued := hwf₁.lists_queued hqueued
  have hdel : (q.batch.filter (!q.keeps ·)).map (fun x => TimerEvent.deleted x.id) =
      s.deletions b := by
    rw [Agenda.deletions, ← hcalled, ← hbatch]
    refine congrArg _ (List.filter_congr fun x hx => ?_)
    have := h.keeps_iff hx
    by_cases hk : s.Kept x.id <;> simp_all
  -- addresses of timers that wait to be added are not touched
  have hother : ∀ {id'}, id' ∈ adds → q₁.heap id'.timer = q.heap id'.timer := by
    intro id' hid'
    refine hset.other _ fun hin => ?_
    obtain ⟨x, hx, heq⟩ := List.mem_map.mp hin
    have := h.inv.wf.hand_nodup
    rw [List.map_append] at this
    exact List.disjoint_of_nodup_append this
      (List.mem_map_of_mem (List.mem_map_of_mem hx)) (heq ▸ List.mem_map_of_mem hid')
  have hrunning : q₁.pendingFunctors = q.pendingFunctors ∧ q₁.creating = q.creating ∧
      q₁.batches = q.batches ∧ q₁.cancelingTimers = q.cancelingTimers ∧
      q₁.numCreated = q.numCreated ∧ q₁.callingExpiredTimers = false := by
    rw [hset.frame]
    exact ⟨rfl, rfl, rfl, rfl, rfl, rfl⟩
  obtain ⟨hfs, hcr, hbat, hcan, hnum, hcalling⟩ := hrunning
  refine ⟨{ q₁ with
      timerfd := q₁.rearmed clock
      running := none
      log := q₁.log ++ [.finished q₁.batches q₁.queued] }, _, ?_,
    ⟨⟨hwf₁.congr rfl rfl rfl rfl, hcalling, by simp [batch]⟩, ?_,
      h.reachable.step (.finish (h.refines.running.trans hrun) hw hlists) (by simp)⟩, hfs, hcr⟩
  · rw [hbatch] at hreset
    simp only [TimerQueue.endRead, hreset, ok_bind, pure_eq_ok]
    rfl
  · refine ⟨?log, rfl, ?batches, ?canceling, ?adding, hqueued, ?fresh, ?interval⟩
    case log =>
      show s.log ++ (s.deletions b ++ [.finished s.batches q₁.queued]) =
        q₁.log ++ [.finished q₁.batches q₁.queued]
      rw [hset.log, hbat, h.refines.log, h.refines.batches, ← hdel, List.append_assoc]
      rfl
    case batches =>
      exact h.refines.batches.trans hbat.symm
    case canceling =>
      simpa [hcan] using h.refines.canceling
    case adding =>
      intro id w
      have hfin : s.finish b.now id = .adding w ↔ s.place id = .adding w := by
        by_cases hp : s.place id = .expired
        · by_cases hk : s.Kept id <;>
            simp [Agenda.finish_of_kept, Agenda.finish_of_not_kept, hp, hk]
        · rw [Agenda.finish_of_not_expired hp]
      show s.finish b.now id = .adding w ↔ id ∈ adds ∧ ∃ t, q₁.Holds id t ∧ t.expiration = w
      rw [hfin, h.refines.adding]
      refine and_congr_right fun hmem => ?_
      simp only [Holds, hother hmem]
    case fresh =>
      intro id hne
      show id.seq ≤ q₁.numCreated
      rw [hnum]
      refine h.refines.fresh id fun hp => hne ?_
      show s.finish b.now id = _
      rw [Agenda.finish_of_not_expired (by simp [hp]), hp]
    case interval =>
      intro id t ht
      have ht₁ : q₁.Holds id t := ht
      -- a timer of the batch that is still there was restarted, which keeps its interval
      by_cases hin : id.timer ∈ q.batch.map (·.id.timer)
      · obtain ⟨x, hx, heq⟩ := List.mem_map.mp hin
        obtain ⟨t₀, ht₀, -⟩ := h.inv.expirations x hx
        by_cases hk : q.keeps x
        · have hheap := hset.kept x hx hk t₀ ht₀
          rw [heq, ht₁.1, Option.some.injEq] at hheap
          subst hheap
          have hid : x.id = id := Holds.id_eq ht₀
            (show q.Holds id t₀ from ⟨heq ▸ ht₀.1, (t₀.restart_sequence b.now) ▸ ht₁.2⟩) heq
          simpa using hid ▸ h.refines.interval x.id t₀ ht₀
        · have hheap := hset.dropped x hx hk
          rw [heq, ht₁.1] at hheap
          cases hheap
      · have hheap : q₁.heap id.timer = q.heap id.timer := hset.other _ hin
        exact h.refines.interval id t ⟨hheap ▸ ht₁.1, ht₁.2⟩

/-! ## Runs -/

theorem adds_congr (hfs : q'.pendingFunctors = q.pendingFunctors) (hcr : q'.creating = q.creating) :
    q'.adds = q.adds := by
  rw [TimerQueue.adds, TimerQueue.adds, hfs, hcr]

/-- The timer a step is about to cancel. -/
def cancels? (q : TimerQueue) : TimerAction → Option TimerId
  | .cancel id => some id
  | .functor _ =>
      match q.pendingFunctors with
      | .cancelInLoop id :: _ => some id
      | _ => none
  | _ => none

/-- **Every enabled step succeeds**, and what it leads to tracks an agenda again. -/
theorem Tracks.exec (h : Tracks ok q q.adds s) {a : TimerAction} (hen : q.enabled a)
    (hok : ∀ id ∈ q.cancels? a, ok s id) :
    ∃ q' s', q.exec a = .ok q' ∧ Tracks ok q' q'.adds s' := by
  cases a with
  | addTimer a when i clock =>
      obtain ⟨s₁, h₁⟩ := h.newTimer hen.1 when i
      obtain ⟨q', s', hq', h', hfs, hcr⟩ := h₁.addTimerInLoop clock
      exact ⟨q', s', hq', adds_congr hfs hcr ▸ h'⟩
  | cancel id =>
      obtain ⟨q', s', hq', h', hfs, hcr⟩ := h.cancelInLoop (hok id rfl)
      exact ⟨q', s', hq', adds_congr hfs hcr ▸ h'⟩
  | createElsewhere a when i =>
      obtain ⟨s₁, h₁⟩ := h.newTimer hen when i
      refine ⟨_, s₁, rfl, (h₁.congr _ rfl).perm ?_⟩
      exact List.perm_middle.symm
  | queueAdd id =>
      refine ⟨_, s, rfl, (h.congr _ rfl).perm ?_⟩
      show (_ ++ q.creating).Perm ((q.pendingFunctors ++ [_]).filterMap _ ++ q.creating.erase id)
      rw [List.filterMap_append, List.append_assoc]
      exact (List.perm_cons_erase hen).append_left _
  | queueCancel id =>
      refine ⟨_, s, rfl, (h.congr _ rfl).perm (.of_eq ?_)⟩
      show _ = (q.pendingFunctors ++ [_]).filterMap _ ++ q.creating
      rw [List.filterMap_append]
      simp [TimerQueue.adds, TimerFunctor.adds]
  | functor clock =>
      obtain ⟨f, fs, hfs⟩ := List.exists_cons_of_ne_nil hen.2
      simp only [TimerQueue.exec, hfs]
      cases f with
      | addTimerInLoop id =>
          have hadds : q.adds = id :: adds { q with pendingFunctors := fs } := by
            simp [TimerQueue.adds, hfs, TimerFunctor.adds]
          rw [hadds] at h
          obtain ⟨q', s', hq', h', hfs', hcr⟩ :=
            (h.congr { q with pendingFunctors := fs } rfl).addTimerInLoop clock
          exact ⟨q', s', hq', adds_congr hfs' hcr ▸ h'⟩
      | cancelInLoop id =>
          have hadds : q.adds = adds { q with pendingFunctors := fs } := by
            rw [TimerQueue.adds, hfs]
            rfl
          rw [hadds] at h
          obtain ⟨q', s', hq', h', hfs', hcr⟩ :=
            (h.congr { q with pendingFunctors := fs } rfl).cancelInLoop
              (hok id (by rw [cancels?, hfs]; rfl))
          exact ⟨q', s', hq', adds_congr hfs' hcr ▸ h'⟩
  | startRead now =>
      obtain ⟨q', s', hq', h', hfs, hcr⟩ := h.startRead (Option.isNone_iff_eq_none.mp hen) now
      exact ⟨q', s', hq', adds_congr hfs hcr ▸ h'⟩
  | runNext =>
      obtain ⟨b, hb, hw⟩ := hen
      obtain ⟨q', s', hq', h', hfs, hcr⟩ := h.runNext hb hw
      refine ⟨q', s', ?_, adds_congr hfs hcr ▸ h'⟩
      simp only [TimerQueue.exec, Option.mem_def.mp hb, hq']
  | endRead clock =>
      obtain ⟨b, hb, hw⟩ := hen
      obtain ⟨q', s', hq', h', hfs, hcr⟩ := h.endRead hb hw clock
      refine ⟨q', s', ?_, adds_congr hfs hcr ▸ h'⟩
      simp only [TimerQueue.exec, Option.mem_def.mp hb, hq']
  | fire => exact ⟨_, s, rfl, h.congr _ rfl⟩
  | poll => exact ⟨_, s, rfl, h.congr _ rfl⟩

/-- Every state a run reaches tracks an agenda; where the steps of the run cancel only what `good`
allows, the agenda is one where cancellations are `ok`. -/
theorem exists_tracks (ok : Agenda → TimerId → Prop) {good : TimerQueue → TimerAction → Prop}
    (hgood : ∀ {q a s}, Tracks ok q q.adds s → good q a → ∀ id ∈ q.cancels? a, ok s id)
    (h : system.ReachableVia good q) : ∃ s, Tracks ok q q.adds s := by
  refine StepSystem.ReachableVia.invariant (I := fun q => ∃ s, Tracks ok q q.adds s) ?_ ?_ h
  · rintro q rfl
    exact tracks_new
  · rintro q a q' - ⟨s, hs⟩ hg ⟨hen, hexec⟩
    obtain ⟨q₁, s', hq₁, hs'⟩ := hs.exec hen (hgood hs hg)
    have heq : q₁ = q' := Except.ok.inj (hq₁.symm.trans hexec)
    exact ⟨s', heq ▸ hs'⟩

end TimerQueue

end MiniMuduo
