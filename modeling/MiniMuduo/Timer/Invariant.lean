import MiniMuduo.Timer.TimerQueue
import Mathlib.Data.Finset.SDiff
import Mathlib.Data.Finset.Image
import Mathlib.Data.List.Perm.Basic

/-!
# The representation invariant of `TimerQueue`

`timers_` and `activeTimers_` are two views of the same timers, those that are queued. The other
timers that exist are *in hand*: in the batch being run, in a functor, or in a call of `addTimer`
that has not queued its functor yet. `Wf q hand` says that the two sets agree with each other and
with the heap, and that the queued timers and those in hand are all the timers there are, each once.

Every operation moves timers between these places; its lemma here says what state it ends in and
that no assert fails on the way.
-/

namespace MiniMuduo

open Fallible

namespace TimerQueue

variable {q q' : TimerQueue} {hand : List TimerId} {id : TimerId} {t : Timer}

/-- The timer `id` was made for exists and is `t`. -/
def Holds (q : TimerQueue) (id : TimerId) (t : Timer) : Prop :=
  q.heap id.timer = some t ∧ t.sequence = id.seq

/-- The sets agree with each other and with the heap, given the timers in hand. -/
structure Wf (q : TimerQueue) (hand : List TimerId) : Prop where
  bound : ∀ {a t}, q.heap a = some t → 0 < a ∧ a < uintptrMax ∧ t.sequence ≤ q.numCreated
  nodup : (q.timers.toList.map Entry.timer ++ hand.map TimerId.timer).Nodup
  owned : ∀ {a t}, q.heap a = some t →
    a ∈ q.timers.toList.map Entry.timer ++ hand.map TimerId.timer
  timers : ∀ e ∈ q.timers, ∃ t, q.heap e.timer = some t ∧ t.expiration = e.expiration ∧
    ⟨e.timer, t.sequence⟩ ∈ q.activeTimers
  active : ∀ id ∈ q.activeTimers, ∃ t, q.Holds id t ∧ ⟨t.expiration, id.timer⟩ ∈ q.timers
  hand : ∀ id ∈ hand, ∃ t, q.Holds id t

theorem Holds.unique {t' : Timer} (h : q.Holds id t) (h' : q.Holds id t') : t = t' :=
  Option.some.inj (h.1.symm.trans h'.1)

theorem derefId_of_holds (h : q.Holds id t) : q.derefId id = .ok t := by
  simp [derefId, deref, h.1, h.2]

theorem delete_of_holds (h : q.Holds id t) :
    q.delete id = .ok
      { q with heap := Function.update q.heap id.timer none, log := q.log ++ [.deleted id] } := by
  simp [delete, derefId_of_holds h]

/-! ## Consequences -/

/-- One more timer in hand is one more timer there is. -/
theorem perm_cons_hand (q : TimerQueue) (id : TimerId) (hand : List TimerId) :
    (q.timers.toList.map Entry.timer ++ (id :: hand).map TimerId.timer).Perm
      (id.timer :: (q.timers.toList.map Entry.timer ++ hand.map TimerId.timer)) := by
  rw [List.map_cons]
  exact List.perm_middle

theorem Wf.perm {hand' : List TimerId} (h : q.Wf hand) (hp : hand.Perm hand') : q.Wf hand' where
  bound := h.bound
  nodup := (((hp.map _).append_left _).nodup_iff).mp h.nodup
  owned := fun ha => (((hp.map _).append_left _).mem_iff).mp (h.owned ha)
  timers := h.timers
  active := h.active
  hand := fun id hid => h.hand id (hp.mem_iff.mpr hid)

/-- Only the two sets, the heap and the counter matter. -/
theorem Wf.congr (h : q.Wf hand) (htimers : q'.timers = q.timers)
    (hactive : q'.activeTimers = q.activeTimers) (hheap : q'.heap = q.heap)
    (hnum : q'.numCreated = q.numCreated) : q'.Wf hand where
  bound := by rw [hheap, hnum]; exact h.bound
  nodup := by rw [htimers]; exact h.nodup
  owned := by rw [htimers, hheap]; exact h.owned
  timers := by rw [htimers, hheap, hactive]; exact h.timers
  active := by
    simp only [Holds, hactive, hheap, htimers]
    exact h.active
  hand := by
    simp only [Holds, hheap]
    exact h.hand

theorem Wf.timer_ne_of_hand (h : q.Wf hand) {e : Entry} (he : e ∈ q.timers) (hid : id ∈ hand) :
    e.timer ≠ id.timer := fun heq =>
  List.disjoint_of_nodup_append h.nodup (List.mem_map_of_mem he)
    (heq ▸ List.mem_map_of_mem hid)

/-- A timer that exists after one was deleted is another one, and existed before. -/
theorem live_of_deleted {heap : Addr → Option Timer} {a b : Addr}
    (h : Function.update heap b none a = some t) : a ≠ b ∧ heap a = some t := by
  by_cases heq : a = b
  · rw [heq, Function.update_self] at h
    cases h
  · rw [Function.update_of_ne heq] at h
    exact ⟨heq, h⟩

/-- The two sets agree with any heap that differs at the address of a timer in hand only. -/
theorem Wf.sets_of_other (h : q.Wf hand) (hid : id ∈ hand) {heap : Addr → Option Timer}
    (hother : ∀ {a}, a ≠ id.timer → heap a = q.heap a) :
    (∀ e ∈ q.timers, ∃ t, heap e.timer = some t ∧ t.expiration = e.expiration ∧
      ⟨e.timer, t.sequence⟩ ∈ q.activeTimers) ∧
    ∀ id ∈ q.activeTimers, ∃ t, (heap id.timer = some t ∧ t.sequence = id.seq) ∧
      ⟨t.expiration, id.timer⟩ ∈ q.timers := by
  constructor
  · intro e he
    obtain ⟨t', ht', hexp, hact⟩ := h.timers e he
    exact ⟨t', (hother (h.timer_ne_of_hand he hid)).trans ht', hexp, hact⟩
  · intro id' hid'
    obtain ⟨t', ht', hmem⟩ := h.active id' hid'
    exact ⟨t', ⟨(hother (h.timer_ne_of_hand hmem hid)).trans ht'.1, ht'.2⟩, hmem⟩

/-- A timer in hand is not queued. -/
theorem Wf.notMem_active (h : q.Wf hand) (hid : id ∈ hand) : id ∉ q.activeTimers := by
  intro hact
  obtain ⟨t, -, hmem⟩ := h.active id hact
  exact h.timer_ne_of_hand hmem hid rfl

/-- The queued timer at an address is the only entry for it. -/
theorem Wf.entry_eq (h : q.Wf hand) {e e' : Entry} (he : e ∈ q.timers) (he' : e' ∈ q.timers)
    (heq : e.timer = e'.timer) : e = e' := by
  obtain ⟨t, ht, hexp, -⟩ := h.timers e he
  obtain ⟨t', ht', hexp', -⟩ := h.timers e' he'
  rw [heq, ht', Option.some.injEq] at ht
  cases e
  cases e'
  simp_all

theorem Wf.sizesAgree (h : q.Wf hand) : q.SizesAgree := by
  have hnodup : (q.timers.toList.map Entry.timer).Nodup := h.nodup.of_append_left
  have himage : q.activeTimers.image TimerId.timer = (q.timers.toList.map Entry.timer).toFinset := by
    ext a
    simp only [Finset.mem_image, List.mem_toFinset, List.mem_map, OrdSet.mem_toList]
    constructor
    · rintro ⟨id, hid, rfl⟩
      obtain ⟨t, -, hmem⟩ := h.active id hid
      exact ⟨_, hmem, rfl⟩
    · rintro ⟨e, he, rfl⟩
      obtain ⟨t, -, -, hmem⟩ := h.timers e he
      exact ⟨_, hmem, rfl⟩
  have hinj : Set.InjOn TimerId.timer q.activeTimers := by
    intro id hid id' hid' heq
    obtain ⟨t, ht, -⟩ := h.active id hid
    obtain ⟨t', ht', -⟩ := h.active id' hid'
    have htt : t = t' := Option.some.inj (ht.1.symm.trans (heq ▸ ht'.1))
    cases id
    cases id'
    simp_all [Holds]
  rw [SizesAgree, ← Finset.card_image_of_injOn hinj, himage, List.toFinset_card_of_nodup hnodup,
    List.length_map]
  rfl

/-! ## Putting a timer into the queue and taking it out -/

/-- The queue with the timer `id` in both sets. -/
def put (q : TimerQueue) (id : TimerId) (t : Timer) : TimerQueue :=
  { q with
    timers := q.timers.insert ⟨t.expiration, id.timer⟩
    activeTimers := Insert.insert id q.activeTimers }

theorem Wf.put (h : q.Wf (id :: hand)) (ht : q.Holds id t) : (q.put id t).Wf hand := by
  have hfresh : (⟨t.expiration, id.timer⟩ : Entry) ∉ q.timers := fun hmem =>
    h.timer_ne_of_hand hmem List.mem_cons_self rfl
  have hperm : ((q.put id t).timers.toList.map Entry.timer ++ hand.map TimerId.timer).Perm
      (q.timers.toList.map Entry.timer ++ (id :: hand).map TimerId.timer) :=
    (((OrdSet.perm_insert hfresh).map Entry.timer).append_right _).trans
      (q.perm_cons_hand id hand).symm
  refine ⟨h.bound, hperm.nodup_iff.mpr h.nodup, fun ha => hperm.mem_iff.mpr (h.owned ha),
    ?timers, ?active, fun id' hid' => h.hand id' (List.mem_cons_of_mem _ hid')⟩
  case timers =>
    intro e he
    rcases OrdSet.mem_insert.mp he with rfl | he
    · refine ⟨t, ht.1, rfl, Finset.mem_insert.mpr (.inl ?_)⟩
      simp [ht.2]
    · obtain ⟨t', ht', hexp, hmem⟩ := h.timers e he
      exact ⟨t', ht', hexp, Finset.mem_insert_of_mem hmem⟩
  case active =>
    intro id' hid'
    rcases Finset.mem_insert.mp hid' with rfl | hid'
    · exact ⟨t, ht, OrdSet.mem_insert.mpr (.inl rfl)⟩
    · obtain ⟨t', ht', hmem⟩ := h.active id' hid'
      exact ⟨t', ht', OrdSet.mem_insert.mpr (.inr hmem)⟩

/-- `insert` puts a timer in hand into the queue. -/
theorem Wf.insert (h : q.Wf (id :: hand)) (ht : q.Holds id t) :
    ∃ earliestChanged, q.insert id = .ok (earliestChanged, q.put id t) := by
  have hfresh : (⟨t.expiration, id.timer⟩ : Entry) ∉ q.timers := fun hmem =>
    h.timer_ne_of_hand hmem List.mem_cons_self rfl
  have hid : (⟨id.timer, t.sequence⟩ : TimerId) = id := by rw [ht.2]
  have hsize := (h.put ht).sizesAgree
  refine ⟨q.timers.begin?.all fun e => decide (t.expiration < e.expiration), ?_⟩
  simp only [TimerQueue.put] at hsize ⊢
  simp only [TimerQueue.insert, h.sizesAgree, derefId_of_holds ht, hfresh, hid,
    h.notMem_active List.mem_cons_self, check_of_pos, ok_bind, not_false_eq_true, hsize]
  cases q.timers.begin? <;> rfl

/-- `addTimerInLoop` puts a timer in hand into the queue; only the `timerfd` depends on the clock. -/
theorem Wf.addTimerInLoop (h : q.Wf (id :: hand)) (ht : q.Holds id t) (clock : TimePoint) :
    ∃ fd, q.addTimerInLoop clock id =
      .ok { q.put id t with log := q.log ++ [.added id], timerfd := fd } := by
  obtain ⟨earliestChanged, hins⟩ := h.insert ht
  have hderef : ∀ log, derefId { q.put id t with log } id = .ok t := fun _ => derefId_of_holds ht
  cases earliestChanged with
  | false => exact ⟨q.timerfd, by rw [TimerQueue.addTimerInLoop, hins]; rfl⟩
  | true =>
      refine ⟨(q.resetTimerfd clock t.expiration).timerfd, ?_⟩
      simp only [TimerQueue.addTimerInLoop, hins, ok_bind, if_true, hderef]
      rfl

/-- The queue after the timer `id` was cancelled and deleted. -/
def discard (q : TimerQueue) (id : TimerId) (t : Timer) : TimerQueue :=
  { q with
    timers := q.timers.erase ⟨t.expiration, id.timer⟩
    activeTimers := q.activeTimers.erase id
    heap := Function.update q.heap id.timer none
    log := q.log ++ [.deleted id] }

theorem Wf.discard (h : q.Wf hand) (hid : id ∈ q.activeTimers) (ht : q.Holds id t) :
    (q.discard id t).Wf hand := by
  have hmem : (⟨t.expiration, id.timer⟩ : Entry) ∈ q.timers := by
    obtain ⟨t', ht', hmem⟩ := h.active id hid
    rwa [ht.unique ht']
  have hperm : (q.timers.toList.map Entry.timer ++ hand.map TimerId.timer).Perm
      (id.timer :: ((q.discard id t).timers.toList.map Entry.timer ++ hand.map TimerId.timer)) :=
    ((OrdSet.perm_erase hmem).map Entry.timer).append_right _
  have hnodup := List.nodup_cons.mp (hperm.nodup_iff.mp h.nodup)
  have hne : ∀ e ∈ (q.discard id t).timers, e.timer ≠ id.timer := fun e he heq =>
    hnodup.1 (List.mem_append_left _ (List.mem_map.mpr ⟨e, he, heq⟩))
  have hheap : ∀ {a}, a ≠ id.timer → (q.discard id t).heap a = q.heap a := fun hne =>
    Function.update_of_ne hne _ _
  have hlive : ∀ {a t'}, (q.discard id t).heap a = some t' → a ≠ id.timer ∧ q.heap a = some t' :=
    fun ha => live_of_deleted ha
  refine ⟨fun ha => h.bound (hlive ha).2, hnodup.2, fun ha => ?owned, ?timers, ?active, ?hand⟩
  case owned =>
    rcases List.mem_cons.mp (hperm.mem_iff.mp (h.owned (hlive ha).2)) with heq | hmem
    · exact absurd heq (hlive ha).1
    · exact hmem
  case timers =>
    intro e he
    obtain ⟨t', ht', hexp, hact⟩ := h.timers e (OrdSet.mem_erase.mp he).2
    refine ⟨t', by rw [hheap (hne e he)]; exact ht', hexp, Finset.mem_erase.mpr ⟨?_, hact⟩⟩
    intro heq
    exact hne e he (congrArg TimerId.timer heq)
  case active =>
    intro id' hid'
    obtain ⟨hne', hact⟩ := Finset.mem_erase.mp hid'
    obtain ⟨t', ht', hmem'⟩ := h.active id' hact
    have htimer : id'.timer ≠ id.timer := by
      intro heq
      have := Option.some.inj ((heq ▸ ht'.1).symm.trans ht.1)
      apply hne'
      cases id
      cases id'
      simp_all [Holds]
    refine ⟨t', ⟨by rw [hheap htimer]; exact ht'.1, ht'.2⟩, OrdSet.mem_erase.mpr ⟨?_, hmem'⟩⟩
    intro heq
    exact htimer (congrArg Entry.timer heq)
  case hand =>
    intro id' hid'
    obtain ⟨t', ht'⟩ := h.hand id' hid'
    refine ⟨t', ⟨?_, ht'.2⟩⟩
    rw [hheap fun heq => h.timer_ne_of_hand hmem hid' heq.symm]
    exact ht'.1

/-- The queue with a cancellation logged. -/
def logCancel (q : TimerQueue) (id : TimerId) : TimerQueue :=
  { q with
    log := q.log ++ [.cancelled id (if q.callingExpiredTimers then some q.batches else none)] }

/-- `cancelInLoop` of a queued timer deletes it. -/
theorem Wf.cancelInLoop_active (h : q.Wf hand) (hid : id ∈ q.activeTimers) (ht : q.Holds id t) :
    q.cancelInLoop id = .ok ((q.logCancel id).discard id t) := by
  have hmem : (⟨t.expiration, id.timer⟩ : Entry) ∈ q.timers := by
    obtain ⟨t', ht', hmem⟩ := h.active id hid
    rwa [ht.unique ht']
  have hwf : (q.logCancel id).Wf hand := h.congr rfl rfl rfl rfl
  have hsize := (hwf.discard hid ht).sizesAgree
  have hsize' : SizesAgree (q.logCancel id) := hwf.sizesAgree
  have hdelete := delete_of_holds
    (q := { q.logCancel id with timers := q.timers.erase ⟨t.expiration, id.timer⟩ }) ht
  have hderef : derefId (q.logCancel id) id = .ok t := derefId_of_holds ht
  rw [TimerQueue.cancelInLoop]
  simp only [logCancel, TimerQueue.discard] at hsize hsize' hderef hdelete ⊢
  simp only [hsize', hid, if_true, hderef, hmem, check_of_pos, ok_bind, hdelete, pure_eq_ok, hsize]

/-- `cancelInLoop` of anything else remembers it for the batch being run, if there is one. -/
theorem Wf.cancelInLoop_of_notMem (h : q.Wf hand) (hid : id ∉ q.activeTimers) :
    q.cancelInLoop id = .ok { q.logCancel id with
      cancelingTimers := if q.callingExpiredTimers then Insert.insert id q.cancelingTimers
        else q.cancelingTimers } := by
  have hsize : SizesAgree (q.logCancel id) := h.sizesAgree
  have hsize' : SizesAgree { q.logCancel id with
      cancelingTimers := Insert.insert id q.cancelingTimers } := h.sizesAgree
  rw [TimerQueue.cancelInLoop]
  simp only [logCancel] at hsize hsize' ⊢
  simp only [hsize, check_of_pos, ok_bind, hid, if_false]
  cases hcall : q.callingExpiredTimers with
  | true =>
      simp only [hcall, if_true] at hsize hsize' ⊢
      simp only [pure_eq_ok, ok_bind, hsize', check_of_pos]
  | false =>
      simp only [hcall, Bool.false_eq_true, if_false] at hsize ⊢
      simp only [pure_eq_ok, ok_bind, hsize, check_of_pos]

/-! ## A new timer -/

theorem holds_newTimer (q : TimerQueue) (a : Addr) (when : TimePoint) (interval : ℚ) :
    (q.newTimer a when interval).2.Holds (q.newTimer a when interval).1
      (.new when interval (q.numCreated + 1)) :=
  ⟨Function.update_self .., rfl⟩

theorem Wf.newTimer (h : q.Wf hand) {a : Addr} (ha : q.Allocatable a) (when : TimePoint)
    (interval : ℚ) :
    (q.newTimer a when interval).2.Wf ((q.newTimer a when interval).1 :: hand) := by
  obtain ⟨hnone, hpos, hmax⟩ := ha
  have hne : ∀ {b t}, q.heap b = some t → b ≠ a := by
    rintro b t hb rfl
    simp [hb] at hnone
  have hheap : ∀ {b t}, q.heap b = some t → (q.newTimer a when interval).2.heap b = some t :=
    fun hb => (Function.update_of_ne (hne hb) _ _).trans hb
  have hperm := q.perm_cons_hand ⟨a, q.numCreated + 1⟩ hand
  have hfresh : a ∉ q.timers.toList.map Entry.timer ++ hand.map TimerId.timer := by
    intro hmem
    rcases List.mem_append.mp hmem with hmem | hmem
    · obtain ⟨e, he, heq⟩ := List.mem_map.mp hmem
      obtain ⟨t, ht, -⟩ := h.timers e he
      exact hne ht heq
    · obtain ⟨id, hid, heq⟩ := List.mem_map.mp hmem
      obtain ⟨t, ht⟩ := h.hand id hid
      exact hne ht.1 heq
  have hlive : ∀ {b t}, (q.newTimer a when interval).2.heap b = some t →
      b = a ∧ t.sequence = q.numCreated + 1 ∨ q.heap b = some t := by
    intro b t hb
    by_cases heq : b = a
    · subst heq
      rw [show (q.newTimer b when interval).2.heap b = _ from Function.update_self ..] at hb
      cases hb
      exact .inl ⟨rfl, rfl⟩
    · rw [show (q.newTimer a when interval).2.heap b = _ from Function.update_of_ne heq ..] at hb
      exact .inr hb
  refine ⟨?bound, hperm.nodup_iff.mpr (List.nodup_cons.mpr ⟨hfresh, h.nodup⟩), ?owned, ?timers, ?active,
    ?hand⟩
  case bound =>
    intro b t hb
    show 0 < b ∧ b < uintptrMax ∧ t.sequence ≤ q.numCreated + 1
    rcases hlive hb with ⟨rfl, hseq⟩ | hb
    · exact ⟨hpos, hmax, hseq.le⟩
    · have := h.bound hb
      exact ⟨this.1, this.2.1, by omega⟩
  case owned =>
    intro b t hb
    refine hperm.mem_iff.mpr ?_
    rcases hlive hb with ⟨rfl, -⟩ | hb
    · exact List.mem_cons_self
    · exact List.mem_cons_of_mem _ (h.owned hb)
  case timers =>
    intro e he
    obtain ⟨t, ht, hexp, hact⟩ := h.timers e he
    exact ⟨t, hheap ht, hexp, hact⟩
  case active =>
    intro id hid
    obtain ⟨t, ht, hmem⟩ := h.active id hid
    exact ⟨t, ⟨hheap ht.1, ht.2⟩, hmem⟩
  case hand =>
    intro id hid
    rcases List.mem_cons.mp hid with rfl | hid
    · exact ⟨_, q.holds_newTimer a when interval⟩
    · obtain ⟨t, ht⟩ := h.hand id hid
      exact ⟨t, ⟨hheap ht.1, ht.2⟩⟩

/-! ## Taking the expired timers out -/

/-- The sentry of `getExpired`. -/
def sentry (now : TimePoint) : Entry := ⟨now, uintptrMax⟩

/-- The timers `getExpired` answers. -/
def expiredAt (q : TimerQueue) (now : TimePoint) : List Scheduled :=
  (q.timers.below (sentry now)).map q.identify

/-- The queue after `getExpired`. -/
def expire (q : TimerQueue) (now : TimePoint) : TimerQueue :=
  { q with
    timers := q.timers.atLeast (sentry now)
    activeTimers := q.activeTimers \ ((q.expiredAt now).map Scheduled.id).toFinset }

/-- No timer is at the address of the sentry, so it separates by expiration alone. -/
theorem Wf.lt_sentry (h : q.Wf hand) {e : Entry} (he : e ∈ q.timers) {now : TimePoint} :
    e < sentry now ↔ e.expiration ≤ now := by
  obtain ⟨t, ht, -⟩ := h.timers e he
  rw [Entry.lt_iff]
  constructor
  · rintro (hlt | ⟨heq, -⟩)
    · exact hlt.le
    · exact heq.le
  · intro hle
    rcases hle.lt_or_eq with hlt | heq
    · exact .inl hlt
    · exact .inr ⟨heq, (h.bound ht).2.1⟩

/-- A queued timer is identified by its own sequence number. -/
theorem Wf.holds_identify (h : q.Wf hand) {e : Entry} (he : e ∈ q.timers) :
    ∃ t, q.Holds (q.identify e).id t ∧ t.expiration = e.expiration ∧
      (q.identify e).id ∈ q.activeTimers := by
  obtain ⟨t, ht, hexp, hact⟩ := h.timers e he
  have hid : (q.identify e).id = ⟨e.timer, t.sequence⟩ := by simp [identify, ht]
  rw [hid]
  exact ⟨t, ⟨ht, rfl⟩, hexp, hact⟩

theorem Wf.expire (h : q.Wf hand) (now : TimePoint) :
    (q.expire now).Wf ((q.expiredAt now).map Scheduled.id ++ hand) := by
  have hperm : ((q.expire now).timers.toList.map Entry.timer ++
      ((q.expiredAt now).map Scheduled.id ++ hand).map TimerId.timer).Perm
      (q.timers.toList.map Entry.timer ++ hand.map TimerId.timer) := by
    have hmap : ((q.expiredAt now).map Scheduled.id).map TimerId.timer =
        (q.timers.below (sentry now)).map Entry.timer := by
      simp [expiredAt, identify, Function.comp_def]
    rw [List.map_append, hmap, ← List.append_assoc]
    refine List.Perm.append_right _ (List.perm_append_comm.trans (.of_eq ?_))
    rw [← List.map_append]
    exact congrArg _ OrdSet.below_append_atLeast
  have hexpired : ∀ {id}, id ∈ (q.expiredAt now).map Scheduled.id →
      ∃ e ∈ q.timers, e < sentry now ∧ (q.identify e).id = id := by
    intro id hid
    simp only [expiredAt, List.map_map, List.mem_map, OrdSet.mem_below] at hid
    obtain ⟨e, ⟨he, hlt⟩, rfl⟩ := hid
    exact ⟨e, he, hlt, rfl⟩
  refine ⟨h.bound, hperm.nodup_iff.mpr h.nodup, fun ha => hperm.mem_iff.mpr (h.owned ha),
    ?timers, ?active, ?hand⟩
  case timers =>
    intro e he
    obtain ⟨hmem, hle⟩ := OrdSet.mem_atLeast.mp he
    obtain ⟨t, ht, hexp, hact⟩ := h.timers e hmem
    refine ⟨t, ht, hexp, Finset.mem_sdiff.mpr ⟨hact, ?_⟩⟩
    intro hin
    obtain ⟨e', he', hlt, hid⟩ := hexpired (List.mem_toFinset.mp hin)
    have heq : e' = e := h.entry_eq he' hmem (congrArg TimerId.timer hid)
    exact absurd (heq ▸ hlt) (not_lt.mpr hle)
  case active =>
    intro id hid
    obtain ⟨hact, hnot⟩ := Finset.mem_sdiff.mp hid
    obtain ⟨t, ht, hmem⟩ := h.active id hact
    refine ⟨t, ht, OrdSet.mem_atLeast.mpr ⟨hmem, not_lt.mp fun hlt => hnot ?_⟩⟩
    simp only [expiredAt, List.map_map, List.mem_toFinset, List.mem_map, OrdSet.mem_below]
    refine ⟨_, ⟨hmem, hlt⟩, ?_⟩
    simp [identify, ht.1, ht.2]
  case hand =>
    intro id hid
    rcases List.mem_append.mp hid with hid | hid
    · obtain ⟨e, he, -, rfl⟩ := hexpired hid
      obtain ⟨t, ht, -⟩ := h.holds_identify he
      exact ⟨t, ht⟩
    · exact h.hand id hid

/-- The loop of `getExpired` over entries that are all active, each at its own address. -/
theorem deactivate_eq :
    ∀ (es : List Entry) (q : TimerQueue), (es.map Entry.timer).Nodup →
      (∀ e ∈ es, ∃ t, q.heap e.timer = some t ∧ (q.identify e).id ∈ q.activeTimers) →
      q.deactivate es = .ok (es.map q.identify, { q with
        activeTimers := q.activeTimers \ ((es.map q.identify).map Scheduled.id).toFinset })
  | [], q, _, _ => by simp [deactivate]
  | e :: es, q, hnodup, hall => by
    obtain ⟨t, ht, hact⟩ := hall e List.mem_cons_self
    obtain ⟨hnot, hnodup'⟩ := List.nodup_cons.mp hnodup
    have hid : q.identify e = ⟨e.expiration, e.timer, t.sequence⟩ := by simp [identify, ht]
    have hrest := deactivate_eq es
      { q with activeTimers := q.activeTimers.erase ⟨e.timer, t.sequence⟩ } hnodup' fun e' he' => by
        obtain ⟨t', ht', hact'⟩ := hall e' (List.mem_cons_of_mem _ he')
        refine ⟨t', ht', Finset.mem_erase.mpr ⟨fun heq => hnot ?_, hact'⟩⟩
        have htimer : e'.timer = e.timer := congrArg TimerId.timer heq
        exact htimer ▸ List.mem_map_of_mem he'
    rw [hid] at hact
    have hderef : q.deref e.timer = .ok t := by simp [deref, ht]
    simp only [deactivate, hderef, ok_bind, check_of_pos hact, hrest, pure_eq_ok, List.map_cons, hid,
      List.toFinset_cons]
    refine congrArg Except.ok (Prod.ext_iff.mpr ⟨rfl, ?_⟩)
    show TimerQueue.mk _ _ _ _ _ _ _ _ _ _ _ _ = TimerQueue.mk _ _ _ _ _ _ _ _ _ _ _ _
    congr 1
    ext id
    simp only [Finset.mem_sdiff, Finset.mem_erase, Finset.mem_insert, not_or]
    constructor
    · rintro ⟨⟨h₁, h₂⟩, h₃⟩
      exact ⟨h₂, h₁, h₃⟩
    · rintro ⟨h₂, h₁, h₃⟩
      exact ⟨⟨h₁, h₂⟩, h₃⟩

/-- `getExpired` takes exactly the expired timers out of both sets. -/
theorem Wf.getExpired (h : q.Wf hand) (now : TimePoint) :
    q.getExpired now = .ok (q.expiredAt now, q.expire now) := by
  have hbegin : ∀ e ∈ (q.timers.atLeast (sentry now)).begin?, now < e.expiration := by
    intro e he
    obtain ⟨hmem, hle⟩ := OrdSet.mem_atLeast.mp (OrdSet.begin?_eq_some he).1
    by_contra hnot
    exact absurd ((h.lt_sentry hmem).mpr (not_lt.mp hnot)) (not_lt.mpr hle)
  have hnodup : ((q.timers.below (sentry now)).map Entry.timer).Nodup := by
    have := h.nodup.of_append_left
    rw [← OrdSet.below_append_atLeast (a := sentry now), List.map_append] at this
    exact this.of_append_left
  have hloop : deactivate { q with timers := q.timers.atLeast (sentry now) }
      (q.timers.below (sentry now)) = .ok (q.expiredAt now, q.expire now) :=
    deactivate_eq _ _ hnodup fun e he => by
      obtain ⟨t, ht, -, hact⟩ := h.holds_identify (OrdSet.mem_below.mp he).1
      exact ⟨t, ht.1, hact⟩
  simp only [sentry] at hbegin hloop
  simp only [TimerQueue.getExpired, h.sizesAgree, check_of_pos hbegin, hloop, check_of_pos, ok_bind,
    (h.expire now).sizesAgree, pure_eq_ok]

/-! ## Putting the repeating timers back -/

/-- Whether `reset` puts a timer of the batch back. -/
def keeps (q : TimerQueue) (x : Scheduled) : Bool :=
  ((q.heap x.id.timer).map Timer.repeat_).getD false && decide (x.id ∉ q.cancelingTimers)

/-- What `reset` does with the timers `xs` of a batch: those kept are restarted and queued, the
others deleted. -/
structure Settled (q : TimerQueue) (now : TimePoint) (xs : List Scheduled) (q' : TimerQueue) :
    Prop where
  frame : q' = { q with
    timers := q'.timers, activeTimers := q'.activeTimers, heap := q'.heap, log := q'.log }
  log : q'.log = q.log ++ (xs.filter (!q.keeps ·)).map (.deleted ·.id)
  other : ∀ a, a ∉ xs.map (·.id.timer) → q'.heap a = q.heap a
  kept : ∀ x ∈ xs, q.keeps x → ∀ t, q.Holds x.id t → q'.heap x.id.timer = some (t.restart now)
  dropped : ∀ x ∈ xs, ¬ q.keeps x → q'.heap x.id.timer = none
  active : ∀ id, id ∈ q'.activeTimers ↔ id ∈ q.activeTimers ∨ ∃ x ∈ xs, q.keeps x ∧ x.id = id

/-- Restarting a timer in hand does not touch the sets. -/
theorem Wf.restart (h : q.Wf (id :: hand)) (ht : q.Holds id t) (now : TimePoint) :
    Wf { q with heap := Function.update q.heap id.timer (some (t.restart now)) } (id :: hand) := by
  have hother : ∀ {a}, a ≠ id.timer →
      Function.update q.heap id.timer (some (t.restart now)) a = q.heap a := fun hne =>
    Function.update_of_ne hne _ _
  have hlive : ∀ {a t'}, Function.update q.heap id.timer (some (t.restart now)) a = some t' →
      ∃ t₀, q.heap a = some t₀ ∧ t'.sequence = t₀.sequence := by
    intro a t' ha
    by_cases heq : a = id.timer
    · subst heq
      rw [Function.update_self] at ha
      cases ha
      exact ⟨t, ht.1, t.restart_sequence now⟩
    · exact ⟨t', by rwa [hother heq] at ha, rfl⟩
  obtain ⟨htimers, hactive⟩ := h.sets_of_other List.mem_cons_self hother
  refine ⟨?bound, h.nodup, ?owned, htimers, hactive, ?hand⟩
  case bound =>
    intro a t' ha
    obtain ⟨t₀, h₀, hseq⟩ := hlive ha
    rw [hseq]
    exact h.bound h₀
  case owned =>
    intro a t' ha
    obtain ⟨t₀, h₀, -⟩ := hlive ha
    exact h.owned h₀
  case hand =>
    intro id' hid'
    obtain ⟨t', ht'⟩ := h.hand id' hid'
    by_cases heq : id'.timer = id.timer
    · have htt : t = t' := Option.some.inj (ht.1.symm.trans (heq ▸ ht'.1))
      subst htt
      refine ⟨t.restart now, ?_, (t.restart_sequence now).trans ht'.2⟩
      show Function.update _ _ _ id'.timer = _
      rw [heq, Function.update_self]
    · exact ⟨t', (hother heq).trans ht'.1, ht'.2⟩

/-- Deleting a timer in hand. -/
theorem Wf.delete (h : q.Wf (id :: hand)) :
    Wf { q with heap := Function.update q.heap id.timer none, log := q.log ++ [.deleted id] }
      hand := by
  have hperm := q.perm_cons_hand id hand
  have hnodup := List.nodup_cons.mp (hperm.nodup_iff.mp h.nodup)
  have hother : ∀ {a}, a ≠ id.timer → Function.update q.heap id.timer none a = q.heap a :=
    fun hne => Function.update_of_ne hne _ _
  obtain ⟨htimers, hactive⟩ := h.sets_of_other List.mem_cons_self hother
  refine ⟨fun ha => h.bound (live_of_deleted ha).2, hnodup.2, fun ha => ?owned, htimers, hactive,
    ?hand⟩
  case owned =>
    obtain ⟨hne, hold⟩ := live_of_deleted ha
    rcases List.mem_cons.mp (hperm.mem_iff.mp (h.owned hold)) with heq | hmem
    · exact absurd heq hne
    · exact hmem
  case hand =>
    intro id' hid'
    obtain ⟨t', ht'⟩ := h.hand id' (List.mem_cons_of_mem _ hid')
    refine ⟨t', (hother fun heq => hnodup.1 ?_).trans ht'.1, ht'.2⟩
    exact heq ▸ List.mem_append_right _ (List.mem_map_of_mem hid')

/-- Timers in hand are at different addresses. -/
theorem Wf.hand_nodup (h : q.Wf hand) : (hand.map TimerId.timer).Nodup := h.nodup.of_append_right

/-- The first turn of the loop of `reset`, and what it leaves to the others. -/
theorem Settled.cons {q₁ : TimerQueue} {now : TimePoint} {x : Scheduled} {xs : List Scheduled}
    (h : q₁.Settled now xs q') (hnot : x.id.timer ∉ xs.map (·.id.timer))
    (hframe : q₁ = { q with
      timers := q₁.timers, activeTimers := q₁.activeTimers, heap := q₁.heap, log := q₁.log })
    (hother : ∀ a, a ≠ x.id.timer → q₁.heap a = q.heap a)
    (hlog : q₁.log = q.log ++ ([x].filter (!q.keeps ·)).map (.deleted ·.id))
    (hkept : q.keeps x → ∀ t, q.Holds x.id t → q₁.heap x.id.timer = some (t.restart now))
    (hdropped : ¬ q.keeps x → q₁.heap x.id.timer = none)
    (hactive : ∀ id, id ∈ q₁.activeTimers ↔ id ∈ q.activeTimers ∨ q.keeps x ∧ x.id = id) :
    q.Settled now (x :: xs) q' := by
  have hne : ∀ y ∈ xs, y.id.timer ≠ x.id.timer := fun y hy heq =>
    hnot (List.mem_map.mpr ⟨y, hy, heq⟩)
  have hcancel : q₁.cancelingTimers = q.cancelingTimers := by rw [hframe]
  have hkeeps : ∀ y ∈ xs, q₁.keeps y = q.keeps y := by
    intro y hy
    rw [keeps, keeps, hother _ (hne y hy), hcancel]
  have hholds : ∀ y ∈ xs, ∀ t, q.Holds y.id t → q₁.Holds y.id t := fun y hy t ht =>
    ⟨(hother _ (hne y hy)).trans ht.1, ht.2⟩
  have hfilter : xs.filter (!q₁.keeps ·) = xs.filter (!q.keeps ·) :=
    List.filter_congr fun y hy => by rw [hkeeps y hy]
  refine ⟨?frame, ?log, ?other, ?kept, ?dropped, ?active⟩
  case frame =>
    rw [h.frame, hframe]
  case log =>
    rw [h.log, hlog, hfilter, List.append_assoc, ← List.map_append, ← List.filter_append]
    rfl
  case other =>
    intro a ha
    rw [List.map_cons, List.mem_cons, not_or] at ha
    rw [h.other a ha.2, hother a ha.1]
  case kept =>
    intro y hy hk t ht
    rcases List.mem_cons.mp hy with rfl | hy
    · rw [h.other _ hnot, hkept hk t ht]
    · exact h.kept y hy (by rwa [hkeeps y hy]) t (hholds y hy t ht)
  case dropped =>
    intro y hy hk
    rcases List.mem_cons.mp hy with rfl | hy
    · rw [h.other _ hnot, hdropped hk]
    · exact h.dropped y hy (by rwa [hkeeps y hy])
  case active =>
    intro id
    have hex : (∃ y ∈ xs, q₁.keeps y ∧ y.id = id) ↔ ∃ y ∈ xs, q.keeps y ∧ y.id = id := by
      constructor <;> rintro ⟨y, hy, hk, rfl⟩
      · exact ⟨y, hy, by rwa [← hkeeps y hy], rfl⟩
      · exact ⟨y, hy, by rwa [hkeeps y hy], rfl⟩
    rw [h.active, hactive, hex, or_assoc]
    simp

/-- The loop of `reset` settles the batch. -/
theorem Wf.restartOrDelete (now : TimePoint) :
    ∀ (xs : List Scheduled) {q : TimerQueue} {hand : List TimerId},
      q.Wf (xs.map Scheduled.id ++ hand) →
      ∃ q', q.restartOrDelete now xs = .ok q' ∧ q.Settled now xs q' ∧ q'.Wf hand
  | [], q, hand, h => ⟨q, rfl, ⟨rfl, by simp, fun _ _ => rfl, by simp, by simp, by simp⟩, h⟩
  | x :: xs, q, hand, h => by
    rw [List.map_cons, List.cons_append] at h
    obtain ⟨t, ht⟩ := h.hand x.id List.mem_cons_self
    have hnot : x.id.timer ∉ xs.map (·.id.timer) := by
      have := (List.nodup_cons.mp h.hand_nodup).1
      rw [List.map_append, List.mem_append, not_or, List.map_map] at this
      exact this.1
    have hkeeps : q.keeps x = (t.repeat_ && decide (x.id ∉ q.cancelingTimers)) := by
      simp [keeps, ht.1]
    by_cases hk : q.keeps x
    · have hcond : t.repeat_ ∧ x.id ∉ q.cancelingTimers := by simpa [hkeeps] using hk
      have hwf₁ := h.restart ht now
      have ht₁ : Holds { q with heap := Function.update q.heap x.id.timer (some (t.restart now)) }
          x.id (t.restart now) := ⟨Function.update_self .., (t.restart_sequence now).trans ht.2⟩
      obtain ⟨earliestChanged, hins⟩ := hwf₁.insert ht₁
      obtain ⟨q', hq', hset, hwf'⟩ := Wf.restartOrDelete now xs (hwf₁.put ht₁)
      refine ⟨q', ?_, ?_, hwf'⟩
      · simp only [TimerQueue.restartOrDelete, derefId_of_holds ht, ok_bind, if_pos hcond, hins, hq']
      · refine hset.cons hnot rfl ?_ ?_ ?_ ?_ ?_
        · exact fun a hne => Function.update_of_ne hne _ _
        · simp [hk, TimerQueue.put]
        · intro _ t' ht'
          rw [← ht.unique ht']
          exact Function.update_self ..
        · exact fun hnk => absurd hk hnk
        · intro id
          simp only [TimerQueue.put, Finset.mem_insert, hk, true_and]
          rw [or_comm, eq_comm]
    · have hcond : ¬ (t.repeat_ ∧ x.id ∉ q.cancelingTimers) := by simpa [hkeeps] using hk
      obtain ⟨q', hq', hset, hwf'⟩ := Wf.restartOrDelete now xs h.delete
      refine ⟨q', ?_, ?_, hwf'⟩
      · simp only [TimerQueue.restartOrDelete, derefId_of_holds ht, ok_bind, if_neg hcond,
          delete_of_holds ht, hq']
      · refine hset.cons hnot rfl ?_ ?_ ?_ ?_ ?_
        · exact fun a hne => Function.update_of_ne hne _ _
        · simp [hk]
        · exact fun hk' => absurd hk' hk
        · exact fun _ => Function.update_self ..
        · simp [hk]

/-- The expiration of the first timer, or the epoch. -/
def firstExpiration (q : TimerQueue) : TimePoint :=
  match q.timers.begin? with
  | none => 0
  | some e => e.expiration

/-- The `timerfd` when `reset` is done. -/
def rearmed (q : TimerQueue) (clock : TimePoint) : Timerfd :=
  if q.firstExpiration ≠ 0 then (q.resetTimerfd clock q.firstExpiration).timerfd else q.timerfd

theorem Wf.nextExpire (h : q.Wf hand) : q.nextExpire = .ok q.firstExpiration := by
  unfold TimerQueue.nextExpire firstExpiration
  cases hb : q.timers.begin? with
  | none => rfl
  | some e =>
      obtain ⟨t, ht, hexp, -⟩ := h.timers e (OrdSet.begin?_eq_some hb).1
      simp [deref, ht, hexp]

/-- `reset` settles the batch and arms for the first timer. -/
theorem Wf.reset {xs : List Scheduled} (h : q.Wf (xs.map Scheduled.id ++ hand))
    (clock now : TimePoint) :
    ∃ q', q.reset clock xs now = .ok { q' with timerfd := q'.rearmed clock } ∧
      q.Settled now xs q' ∧ q'.Wf hand := by
  obtain ⟨q', hq', hset, hwf'⟩ := Wf.restartOrDelete now xs h
  refine ⟨q', ?_, hset, hwf'⟩
  simp only [TimerQueue.reset, hq', ok_bind, hwf'.nextExpire, rearmed]
  split <;> rfl

end TimerQueue

end MiniMuduo
