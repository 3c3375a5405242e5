import MiniMuduo.Timer.Schedule

/-!
# The `timerfd` is armed for the earliest timer

Arming happens in two places only: `addTimerInLoop` arms for a timer that became the first one, and
`handleRead` arms for the first timer when it ends, unless that timer expires at the epoch.
Cancelling never arms, and arming discards an expiration that was not read yet.

`Armed` is what holds in every state: each queued timer is covered by the descriptor, or it expires
after the `now` of the `handleRead` being run, which will arm for it. The epoch is no gap: `now` is
after the epoch, so a timer at the epoch that is still queued at the end of `handleRead` was added by
a callback and is covered.

Both need times that do not overflow (`TimesFit`): a timer that is put back must not end up at the
epoch, and the time to the expiration the descriptor is armed for must be an `int64_t` of nanoseconds.
-/

namespace MiniMuduo

open Fallible

/-- What `get_now()` answers in a step. -/
def TimerAction.reads : TimerAction → Option TimePoint
  | .addTimer _ _ _ clock => some clock
  | .functor clock => some clock
  | .startRead now => some now
  | .endRead clock => some clock
  | _ => none

/-- The descriptor will make the loop look at a timer that expires at `e` in time: it can be read,
the loop has found that already, or it is armed for no later. -/
def Timerfd.Covers (fd : Timerfd) (e : TimePoint) : Prop :=
  fd.readable ∨ fd.scheduled ∨ ∃ armed ∈ fd.armed, armed ≤ e

/-- A valid and non-zero time to arm for `when` with at the clock reading `now`. -/
structure Timespec.Arms (ts : Timespec) (when now : TimePoint) : Prop where
  sec : 0 ≤ ts.tv_sec
  nsec : 0 ≤ ts.tv_nsec ∧ ts.tv_nsec < 1000000000
  nonzero : ts ≠ ⟨0, 0⟩
  total : ts.tv_sec.toInt * 1000000000 + ts.tv_nsec.toInt =
    max 100 ((when.toInt - now.toInt).tdiv 1000) * 1000

theorem Timerfd.Covers.mono {fd : Timerfd} {e e' : TimePoint} (h : fd.Covers e) (hle : e ≤ e') :
    fd.Covers e' := by
  rcases h with h | h | ⟨armed, ha, hl⟩
  · exact .inl h
  · exact .inr (.inl h)
  · exact .inr (.inr ⟨armed, ha, hl.trans hle⟩)

/-- An entry that is not after another one expires no later. -/
theorem Entry.expiration_le {x y : Entry} (h : x ≤ y) : x.expiration ≤ y.expiration := by
  rcases Entry.le_iff.mp h with hlt | ⟨heq, -⟩
  · exact hlt.le
  · exact heq.le

namespace TimerQueue

variable {q q' : TimerQueue} {id : TimerId} {clock now : TimePoint}

/-- The seconds and the nanoseconds of so many microseconds, at least 100. -/
theorem arms_of_microseconds {n : Int64} (hn : 100 ≤ n.toInt) :
    0 ≤ n / microSecondsPerSecond ∧
    (0 ≤ n % microSecondsPerSecond * 1000 ∧ n % microSecondsPerSecond * 1000 < 1000000000) ∧
    (⟨n / microSecondsPerSecond, n % microSecondsPerSecond * 1000⟩ : Timespec) ≠ ⟨0, 0⟩ ∧
    (n / microSecondsPerSecond).toInt * 1000000000 +
      (n % microSecondsPerSecond * 1000).toInt = n.toInt * 1000 := by
  have hlarge := n.toInt_lt
  -- on numbers that are not negative the truncating division is the ordinary one
  have hsec : (n / microSecondsPerSecond).toInt = n.toInt / 1000000 := by
    rw [Int64.toInt_div_of_ne_right _ _ (by decide), toInt_microSecondsPerSecond]
    exact Int.tdiv_eq_ediv_of_nonneg (by omega)
  have hrest : (n % microSecondsPerSecond).toInt = n.toInt % 1000000 := by
    rw [Int64.toInt_mod, toInt_microSecondsPerSecond]
    exact Int.tmod_eq_emod_of_nonneg (by omega)
  have hthousand : Int64.toInt 1000 = 1000 := rfl
  have hnsec : (n % microSecondsPerSecond * 1000).toInt = n.toInt % 1000000 * 1000 := by
    rw [Int64.toInt_mul, hrest, hthousand]
    exact bmod_eq_self_iff.mpr (by rw [fitsInt64_iff]; omega)
  have hzero : Int64.toInt 0 = 0 := rfl
  have hbillion : Int64.toInt 1000000000 = 1000000000 := rfl
  refine ⟨?_, ⟨?_, ?_⟩, ?_, ?_⟩
  · rw [Int64.le_iff_toInt_le]
    omega
  · rw [Int64.le_iff_toInt_le]
    omega
  · rw [Int64.lt_iff_toInt_lt]
    omega
  · intro heq
    obtain ⟨hsec0, hnsec0⟩ := Timespec.mk.inj heq
    rw [← Int64.toInt_inj] at hsec0 hnsec0
    omega
  · omega

theorem howMuchTimeFromNow_arms {when : TimePoint} (h : FitsInt64 (when.toInt - now.toInt)) :
    (howMuchTimeFromNow when now).Arms when now := by
  have hdiff : ((when - now) / 1000).toInt = (when.toInt - now.toInt).tdiv 1000 := by
    rw [Int64.toInt_div_of_ne_right _ _ (by decide), Int64.toInt_sub_eq_iff.mpr h]
    rfl
  obtain ⟨n, hn⟩ : ∃ n : Int64,
      (if (when - now) / 1000 < 100 then 100 else (when - now) / 1000) = n := ⟨_, rfl⟩
  have hmax : n.toInt = max 100 ((when.toInt - now.toInt).tdiv 1000) := by
    have hhundred : Int64.toInt 100 = 100 := rfl
    rw [← hn, ← hdiff]
    split
    · next hlt =>
        rw [Int64.lt_iff_toInt_lt] at hlt
        omega
    · next hge =>
        rw [Int64.not_lt, Int64.le_iff_toInt_le] at hge
        omega
  have hts : howMuchTimeFromNow when now =
      ⟨n / microSecondsPerSecond, n % microSecondsPerSecond * 1000⟩ := by rw [← hn]; rfl
  obtain ⟨hsec, hnsec, hne, htotal⟩ := arms_of_microseconds (n := n) (by omega)
  rw [hts]
  exact ⟨hsec, hnsec, hne, by rw [htotal, hmax]⟩

/-! ## Times that do not overflow -/

/-- The timers of the batch that `reset` puts back. -/
def restarts (q : TimerQueue) (b : Batch) : List Timer :=
  (b.expired.filter q.keeps).filterMap fun x => q.heap x.id.timer

/-- The expirations in `timers_` when `handleRead` ends. -/
def expirationsAfter (q : TimerQueue) (b : Batch) : List TimePoint :=
  q.timers.toList.map Entry.expiration ++ (q.restarts b).map fun t => (t.restart b.now).expiration

/-- The expiration a step arms the descriptor for, if it arms it: that of a new timer which is earlier
than all others, or the earliest when `handleRead` ends. -/
def armsFor (q : TimerQueue) : TimerAction → Option TimePoint
  | .addTimer _ when _ _ => if ∀ y ∈ q.timers.toList, when < y.expiration then some when else none
  | .functor _ =>
      match q.pendingFunctors with
      | .addTimerInLoop id :: _ =>
          ((q.heap id.timer).map Timer.expiration).filter fun when =>
            ∀ y ∈ q.timers.toList, when < y.expiration
      | _ => none
  | .endRead _ => (q.running.bind fun b => (q.expirationsAfter b).min?).filter (· ≠ 0)
  | _ => none

/-- Clock readings are after the epoch. -/
def AfterEpoch (_ : TimerQueue) (a : TimerAction) : Prop := ∀ now ∈ a.reads, 0 < now

/-- `now + interval` does not overflow for the timers `reset` puts back. -/
def RestartsInRange (q : TimerQueue) : TimerAction → Prop
  | .endRead _ => ∀ b ∈ q.running, ∀ t ∈ q.restarts b,
      FitsInt64 (b.now.toInt + 1000 * wholeMicroseconds t.interval)
  | _ => True

/-- `when - get_now()` does not overflow in `howMuchTimeFromNow`. -/
def ArmsInRange (q : TimerQueue) (a : TimerAction) : Prop :=
  ∀ when ∈ q.armsFor a, ∀ now ∈ a.reads, FitsInt64 (when.toInt - now.toInt)

/-- The clock readings of the step are after the epoch, and its sums and differences of times do not
overflow. -/
def TimesFit (q : TimerQueue) (a : TimerAction) : Prop :=
  q.AfterEpoch a ∧ q.RestartsInRange a ∧ q.ArmsInRange a

-- by looking at the one element there may be, not at all `time_point`s
instance (q : TimerQueue) (a : TimerAction) : Decidable (q.AfterEpoch a) :=
  Option.decidableForallMem a.reads

instance (q : TimerQueue) : DecidablePred q.RestartsInRange
  | .endRead _ => inferInstanceAs (Decidable (∀ b ∈ q.running, ∀ t ∈ q.restarts b, FitsInt64 _))
  | .addTimer _ _ _ _ | .createElsewhere _ _ _ | .queueAdd _ | .cancel _ | .queueCancel _
  | .functor _ | .fire | .poll | .startRead _ | .runNext => inferInstanceAs (Decidable True)

instance (q : TimerQueue) (a : TimerAction) : Decidable (q.ArmsInRange a) :=
  have : DecidablePred fun when : TimePoint => ∀ now ∈ a.reads, FitsInt64 (when.toInt - now.toInt) :=
    fun _ => Option.decidableForallMem a.reads
  Option.decidableForallMem (q.armsFor a)

instance (q : TimerQueue) (a : TimerAction) : Decidable (q.TimesFit a) :=
  inferInstanceAs (Decidable (_ ∧ _ ∧ _))

/-! ## What the operations do to the queue and the descriptor -/

theorem holds_of_derefId {t : Timer} (h : q.derefId id = .ok t) : q.Holds id t := by
  unfold derefId deref at h
  cases hheap : q.heap id.timer with
  | none => simp [hheap] at h
  | some t' =>
      simp only [hheap, ok_bind, bind_eq_ok, check_eq_ok, pure_eq_ok, Except.ok.injEq,
        exists_const] at h
      obtain ⟨hseq, rfl⟩ := h
      exact ⟨hheap, hseq⟩

/-- `insert` adds one entry and answers whether it became the first one. -/
theorem insert_inv {c : Bool} (h : q.insert id = .ok (c, q')) :
    ∃ t, q.derefId id = .ok t ∧ q'.timers = q.timers.insert ⟨t.expiration, id.timer⟩ ∧
      q'.heap = q.heap ∧ q'.timerfd = q.timerfd ∧ q'.running = q.running ∧
      c = match q.timers.begin? with
        | none => true
        | some e => decide (t.expiration < e.expiration) := by
  unfold TimerQueue.insert at h
  simp only [bind_eq_ok, check_eq_ok, pure_eq_ok, exists_const] at h
  obtain ⟨-, t, ht, -, -, -, h⟩ := h
  cases h
  exact ⟨t, ht, rfl, rfl, rfl, rfl, rfl⟩

/-- `addTimerInLoop` arms for the new timer, or there was one that expires no later. -/
theorem addTimerInLoop_inv (h : q.addTimerInLoop clock id = .ok q') :
    ∃ t, q.derefId id = .ok t ∧ q'.timers = q.timers.insert ⟨t.expiration, id.timer⟩ ∧
      q'.running = q.running ∧
      ((∀ y ∈ q.timers, t.expiration < y.expiration) ∧
          q'.timerfd = (q.resetTimerfd clock t.expiration).timerfd ∨
        (∃ y ∈ q.timers, y.expiration ≤ t.expiration) ∧ q'.timerfd = q.timerfd) := by
  unfold TimerQueue.addTimerInLoop at h
  obtain ⟨⟨c, q₁⟩, hins, h⟩ := bind_eq_ok.mp h
  obtain ⟨t, ht, htimers, hheap, hfd, hrun, hc⟩ := insert_inv hins
  have hderef : ∀ log, derefId { q₁ with log } id = .ok t := by
    intro log
    rw [← ht]
    simp only [derefId, deref, hheap]
  refine ⟨t, ht, ?_⟩
  cases c with
  | true =>
      simp only [if_true, hderef, ok_bind, pure_eq_ok, Except.ok.injEq] at h
      subst h
      refine ⟨htimers, hrun, .inl ⟨?_, ?_⟩⟩
      · intro y hy
        cases hb : q.timers.begin? with
        | none => exact absurd hy (OrdSet.begin?_eq_none hb y)
        | some e =>
            have hlt : t.expiration < e.expiration := by simpa [hb] using hc
            exact hlt.trans_le (Entry.expiration_le ((OrdSet.begin?_eq_some hb).2 y hy))
      · simp only [resetTimerfd, hfd]
  | false =>
      simp only [Bool.false_eq_true, if_false, pure_eq_ok, Except.ok.injEq] at h
      subst h
      refine ⟨htimers, hrun, .inr ⟨?_, hfd⟩⟩
      cases hb : q.timers.begin? with
      | none => simp [hb] at hc
      | some e => exact ⟨e, (OrdSet.begin?_eq_some hb).1, by simpa [hb] using hc⟩

/-- `cancelInLoop` at most takes an entry out. -/
theorem Wf.cancelInLoop_inv {hand : List TimerId} (hwf : q.Wf hand)
    (h : q.cancelInLoop id = .ok q') :
    (∀ x ∈ q'.timers, x ∈ q.timers) ∧ q'.timerfd = q.timerfd ∧ q'.running = q.running := by
  by_cases hid : id ∈ q.activeTimers
  · obtain ⟨t, ht, -⟩ := hwf.active id hid
    rw [hwf.cancelInLoop_active hid ht, Except.ok.injEq] at h
    subst h
    exact ⟨fun x hx => (OrdSet.mem_erase.mp hx).2, rfl, rfl⟩
  · rw [hwf.cancelInLoop_of_notMem hid, Except.ok.injEq] at h
    subst h
    exact ⟨fun _ hx => hx, rfl, rfl⟩

/-- After `getExpired` only timers of the future are queued. -/
theorem Wf.startRead_inv {hand : List TimerId} (hwf : q.Wf hand) (h : q.startRead now = .ok q') :
    (∀ x ∈ q'.timers, now < x.expiration) ∧ (∃ b, q'.running = some b ∧ b.now = now) ∧
      q'.timerfd.settimes = q.timerfd.settimes := by
  rw [hwf.startRead now, Except.ok.injEq] at h
  subst h
  refine ⟨?_, ⟨_, rfl, rfl⟩, rfl⟩
  intro x hx
  obtain ⟨hmem, hle⟩ := OrdSet.mem_atLeast.mp hx
  by_contra hnot
  exact absurd ((hwf.lt_sentry hmem).mpr (not_lt.mp hnot)) (not_lt.mpr hle)

/-- A timer that is put back expires no earlier than `now`. -/
theorem le_restart {t : Timer} (hrep : t.repeat_) (hpos : 0 < t.interval)
    (h : FitsInt64 (now.toInt + 1000 * wholeMicroseconds t.interval)) :
    now ≤ (t.restart now).expiration := by
  have hwhole := wholeMicroseconds_nonneg hpos.le
  rw [Timer.restart, if_pos hrep, Int64.le_iff_toInt_le, toInt_add_toMicroseconds h]
  omega

theorem mem_restarts {b : Batch} {t : Timer} :
    t ∈ q.restarts b ↔ ∃ y ∈ b.expired, q.keeps y ∧ q.heap y.id.timer = some t := by
  simp [restarts, and_assoc]

section Settled

variable {ok : Agenda → TimerId → Prop} {adds hand : List TimerId} {s : Agenda} {b : Batch}

/-- What is put back is a repeating timer. -/
theorem Tracks.repeats_of_mem (h : Tracks ok q adds s) (hb : q.running = some b) {t : Timer}
    (ht : t ∈ q.restarts b) : t.repeat_ ∧ 0 < t.interval := by
  have hbatch : q.batch = b.expired := batch_of_some hb
  obtain ⟨y, hy, hkeep, hheap⟩ := mem_restarts.mp ht
  obtain ⟨t', ht', -⟩ := h.inv.expirations y (hbatch ▸ hy)
  obtain rfl : t' = t := Option.some.inj (ht'.1.symm.trans hheap)
  obtain ⟨-, hrep⟩ := h.refines.interval _ _ ht'
  have hrepeat : t'.repeat_ = true := by
    rw [keeps, hheap, Option.map_some, Option.getD_some, Bool.and_eq_true] at hkeep
    exact hkeep.1
  exact ⟨hrepeat, of_decide_eq_true (hrep ▸ hrepeat)⟩

/-- The end of a batch does not touch the timers that were queued. -/
theorem Tracks.heap_settled (h : Tracks ok q adds s)
    (hset : Settled { q with callingExpiredTimers := false } now q.batch q') {x : Entry}
    (hx : x ∈ q.timers) : q'.heap x.timer = q.heap x.timer := by
  refine hset.other _ fun hin => ?_
  obtain ⟨y, hy, heq⟩ := List.mem_map.mp hin
  exact h.inv.wf.timer_ne_of_hand hx (List.mem_append_left _ (List.mem_map_of_mem hy)) heq.symm

/-- `handleRead` ends with the timers that were queued and those it puts back, … -/
theorem Tracks.mem_settled (h : Tracks ok q adds s) (hb : q.running = some b)
    (hset : Settled { q with callingExpiredTimers := false } b.now q.batch q') (hwf : q'.Wf hand)
    {x : Entry} (hx : x ∈ q'.timers) :
    x ∈ q.timers ∨ ∃ t ∈ q.restarts b, (t.restart b.now).expiration = x.expiration := by
  have hbatch : q.batch = b.expired := batch_of_some hb
  obtain ⟨t, ht, hexp, hact⟩ := hwf.timers x hx
  rcases (hset.active _).mp hact with hold | ⟨y, hy, hkeep, hid⟩
  · obtain ⟨t', ht', hentry⟩ := h.inv.wf.active _ hold
    have hheap := h.heap_settled hset hentry
    rw [ht, ht'.1, Option.some.injEq] at hheap
    rw [← hheap, hexp] at hentry
    exact .inl hentry
  · obtain ⟨t', ht', -⟩ := h.inv.expirations y hy
    have hheap := hset.kept y hy hkeep t' ht'
    rw [hid, ht, Option.some.injEq] at hheap
    exact .inr ⟨t', mem_restarts.mpr ⟨y, hbatch ▸ hy, hkeep, ht'.1⟩, hheap ▸ hexp⟩

/-- … all of them. -/
theorem Tracks.settled_of_mem (h : Tracks ok q adds s) (hb : q.running = some b)
    (hset : Settled { q with callingExpiredTimers := false } b.now q.batch q') (hwf : q'.Wf hand)
    {e : TimePoint} (he : e ∈ q.expirationsAfter b) : ∃ x ∈ q'.timers, x.expiration = e := by
  have hbatch : q.batch = b.expired := batch_of_some hb
  rw [expirationsAfter, List.mem_append, List.mem_map, List.mem_map] at he
  rcases he with ⟨x, hx, rfl⟩ | ⟨t, ht, rfl⟩
  · obtain ⟨t, ht, hexp, hact⟩ := h.inv.wf.timers x hx
    obtain ⟨t', ht', hentry⟩ := hwf.active _ ((hset.active _).mpr (.inl hact))
    have hheap := h.heap_settled hset hx
    rw [ht'.1, ht, Option.some.injEq] at hheap
    exact ⟨_, hentry, hheap ▸ hexp⟩
  · obtain ⟨y, hy, hkeep, ht⟩ := mem_restarts.mp ht
    rw [← hbatch] at hy
    obtain ⟨t₀, ht₀, -⟩ := h.inv.expirations y hy
    obtain rfl : t₀ = t := Option.some.inj (ht₀.1.symm.trans ht)
    obtain ⟨t', ht', hentry⟩ := hwf.active y.id ((hset.active _).mpr (.inr ⟨y, hy, hkeep, rfl⟩))
    have hheap := hset.kept y hy hkeep t₀ ht₀
    rw [ht'.1, Option.some.injEq] at hheap
    exact ⟨_, hentry, by rw [hheap]⟩

/-- The first timer `handleRead` ends with is the one `armsFor` reads off the state before. -/
theorem Tracks.firstExpiration_mem (h : Tracks ok q adds s) (hb : q.running = some b)
    (hset : Settled { q with callingExpiredTimers := false } b.now q.batch q') (hwf : q'.Wf hand)
    (hne : q'.firstExpiration ≠ 0) (clock : TimePoint) :
    q'.firstExpiration ∈ q.armsFor (.endRead clock) := by
  cases hbegin : q'.timers.begin? with
  | none => exact absurd (by rw [firstExpiration, hbegin]) hne
  | some e =>
      obtain ⟨he, hmin⟩ := OrdSet.begin?_eq_some hbegin
      have hfirst : q'.firstExpiration = e.expiration := by rw [firstExpiration, hbegin]
      have hmem : e.expiration ∈ q.expirationsAfter b := by
        rw [expirationsAfter, List.mem_append, List.mem_map, List.mem_map]
        rcases h.mem_settled hb hset hwf he with hold | ⟨t, ht, heq⟩
        · exact .inl ⟨e, hold, rfl⟩
        · exact .inr ⟨t, ht, heq⟩
      have hmin? : (q.expirationsAfter b).min? = some e.expiration := by
        refine List.min?_eq_some_iff.mpr ⟨hmem, fun e' he' => ?_⟩
        obtain ⟨x, hx, rfl⟩ := h.settled_of_mem hb hset hwf he'
        exact Entry.expiration_le (hmin x hx)
      rw [hfirst] at hne ⊢
      simp [armsFor, hb, hmin?, hne]

end Settled

/-- What a step can do to the queue, the descriptor and the running `handleRead`. -/
inductive Effect (q : TimerQueue) (a : TimerAction) (q' : TimerQueue) : Prop where
  | keep : (∀ x ∈ q'.timers, x ∈ q.timers) → q'.timerfd = q.timerfd →
      q'.running.map Batch.now = q.running.map Batch.now → Effect q a q'
  | arm (x : Entry) (c : TimePoint) : a.reads = some c → x.expiration ∈ q.armsFor a →
      q'.timers = q.timers.insert x → (∀ y ∈ q.timers, x.expiration < y.expiration) →
      q'.timerfd = (q.resetTimerfd c x.expiration).timerfd →
      q'.running.map Batch.now = q.running.map Batch.now → Effect q a q'
  | add (x y : Entry) : q'.timers = q.timers.insert x → y ∈ q.timers → y.expiration ≤ x.expiration →
      q'.timerfd = q.timerfd → q'.running.map Batch.now = q.running.map Batch.now → Effect q a q'
  | start (now : TimePoint) : a.reads = some now → (∀ x ∈ q'.timers, now < x.expiration) →
      q'.timerfd.settimes = q.timerfd.settimes → q'.running.map Batch.now = some now →
      Effect q a q'
  | finish (now c : TimePoint) : a.reads = some c → q.running.map Batch.now = some now →
      (q'.firstExpiration ≠ 0 → q'.firstExpiration ∈ q.armsFor a) →
      (∀ x ∈ q'.timers, x ∈ q.timers ∨ now ≤ x.expiration) →
      q'.timerfd = { q' with timerfd := q.timerfd }.rearmed c → q'.running = none → Effect q a q'
  | ready : q'.timers = q.timers → q'.timerfd.readable ∨ q'.timerfd.scheduled →
      q'.timerfd.settimes = q.timerfd.settimes → q'.running = q.running → Effect q a q'

/-- `addTimerInLoop`, after steps that touch neither the queue nor the descriptor. -/
theorem effect_addTimerInLoop {a : TimerAction} (q₁ : TimerQueue) (htimers : q₁.timers = q.timers)
    (hfd : q₁.timerfd = q.timerfd) (hrun : q₁.running = q.running) (hreads : a.reads = some clock)
    (harms : ∀ t, q₁.derefId id = .ok t → (∀ y ∈ q.timers, t.expiration < y.expiration) →
      t.expiration ∈ q.armsFor a)
    (h : q₁.addTimerInLoop clock id = .ok q') : q.Effect a q' := by
  obtain ⟨t, ht, htimers', hrun', hcase⟩ := addTimerInLoop_inv h
  rw [htimers] at htimers' hcase
  rw [hrun] at hrun'
  simp only [resetTimerfd, hfd] at hcase
  rcases hcase with ⟨hfirst, hfd'⟩ | ⟨⟨y, hy, hle⟩, hfd'⟩
  · exact .arm _ clock hreads (harms t ht hfirst) htimers' hfirst hfd' (congrArg _ hrun')
  · exact .add _ y htimers' hy hle hfd' (congrArg _ hrun')

/-- Every step that puts timers back in range has one of the effects. -/
theorem effect_exec {ok : Agenda → TimerId → Prop} {s : Agenda} (h : Tracks ok q q.adds s)
    {a : TimerAction} (hrange : q.RestartsInRange a) (hen : q.enabled a)
    (hexec : q.exec a = .ok q') : q.Effect a q' := by
  have hwf := h.inv.wf
  cases a with
  | addTimer a when i clock =>
      refine effect_addTimerInLoop (q.newTimer a when i).2 rfl rfl rfl rfl (fun t ht hfirst => ?_) hexec
      have hwhen : t.expiration = when := by
        rw [(holds_of_derefId ht).unique (holds_newTimer q a when i)]
        rfl
      rw [hwhen] at hfirst ⊢
      exact Option.mem_def.mpr (if_pos hfirst)
  | cancel id =>
      obtain ⟨hsub, hfd, hrun⟩ := hwf.cancelInLoop_inv hexec
      exact .keep hsub hfd (congrArg _ hrun)
  | createElsewhere a when i =>
      cases hexec
      exact .keep (fun _ hx => hx) rfl rfl
  | queueAdd id =>
      cases hexec
      exact .keep (fun _ hx => hx) rfl rfl
  | queueCancel id =>
      cases hexec
      exact .keep (fun _ hx => hx) rfl rfl
  | functor clock =>
      obtain ⟨f, fs, hfs⟩ := List.exists_cons_of_ne_nil hen.2
      simp only [TimerQueue.exec, hfs] at hexec
      cases f with
      | addTimerInLoop id =>
          refine effect_addTimerInLoop { q with pendingFunctors := fs } rfl rfl rfl rfl
            (fun t ht hfirst => ?_) hexec
          have hheap : q.heap id.timer = some t := (holds_of_derefId ht).1
          simpa [armsFor, hfs, hheap, OrdSet.mem_toList] using hfirst
      | cancelInLoop id =>
          have hwf' : Wf { q with pendingFunctors := fs } (q.batch.map Scheduled.id ++ q.adds) :=
            hwf.congr rfl rfl rfl rfl
          obtain ⟨hsub, hfd, hrun⟩ := hwf'.cancelInLoop_inv hexec
          exact .keep hsub hfd (congrArg _ hrun)
  | startRead now =>
      obtain ⟨hlate, ⟨b, hb, hnow⟩, hset⟩ := hwf.startRead_inv hexec
      exact .start now rfl hlate hset (by rw [hb, Option.map_some, hnow])
  | runNext =>
      obtain ⟨b, hb, hw⟩ := hen
      obtain ⟨x, xs, hxs⟩ := List.exists_cons_of_ne_nil hw
      simp only [TimerQueue.exec, Option.mem_def.mp hb, TimerQueue.runNext, hxs] at hexec
      obtain ⟨t, -, hexec⟩ := bind_eq_ok.mp hexec
      cases hexec
      exact .keep (fun _ hx => hx) rfl (by rw [Option.mem_def.mp hb]; rfl)
  | endRead clock =>
      obtain ⟨b, hb, hw⟩ := hen
      have hbatch : q.batch = b.expired := batch_of_some hb
      have hwf' : Wf { q with callingExpiredTimers := false } (q.batch.map Scheduled.id ++ q.adds) :=
        hwf.congr rfl rfl rfl rfl
      obtain ⟨q₁, hreset, hset, hwf₁⟩ := hwf'.reset clock b.now
      -- the loop over the batch does not arm; only what follows it does
      have hfd : q₁.timerfd = q.timerfd := by rw [hset.frame]
      rw [hbatch] at hreset
      have hread : q.endRead clock b = .ok q' := by
        simpa only [TimerQueue.exec, Option.mem_def.mp hb] using hexec
      simp only [TimerQueue.endRead, hreset, ok_bind] at hread
      cases hread
      refine .finish b.now clock rfl (congrArg _ hb)
        (fun hne => h.firstExpiration_mem hb hset hwf₁ hne clock) (fun x hx => ?_) ?_ rfl
      · rcases h.mem_settled hb hset hwf₁ hx with hold | ⟨t, ht, heq⟩
        · exact .inl hold
        · obtain ⟨hrep, hpos⟩ := h.repeats_of_mem hb ht
          exact .inr (heq ▸ le_restart hrep hpos (hrange b hb t ht))
      · simp only [rearmed, resetTimerfd, hfd]
        rfl
  | fire =>
      cases hexec
      exact .ready rfl (.inl rfl) rfl rfl
  | poll =>
      cases hexec
      exact .ready rfl (.inr rfl) rfl rfl

/-! ## The invariant -/

/-- Every queued timer is covered, or expires after the `now` of the running `handleRead`, which
will arm for it. -/
structure Armed (q : TimerQueue) : Prop where
  after : ∀ now ∈ q.running.map Batch.now, 0 < now
  covered : ∀ x ∈ q.timers, q.timerfd.Covers x.expiration ∨
    ∃ now ∈ q.running.map Batch.now, now < x.expiration

theorem firstExpiration_le {x : Entry} (hx : x ∈ q.timers) :
    ∃ first ∈ q.timers, q.firstExpiration = first.expiration ∧
      first.expiration ≤ x.expiration := by
  unfold firstExpiration
  cases hb : q.timers.begin? with
  | none => exact absurd hx (OrdSet.begin?_eq_none hb x)
  | some e =>
      obtain ⟨he, hmin⟩ := OrdSet.begin?_eq_some hb
      exact ⟨e, he, rfl, Entry.expiration_le (hmin x hx)⟩

theorem Armed.effect {a : TimerAction} (h : q.Armed) (hclock : q.AfterEpoch a)
    (he : q.Effect a q') : q'.Armed := by
  cases he with
  | keep hsub hfd hrun =>
      refine ⟨hrun ▸ h.after, fun x hx => ?_⟩
      rw [hfd, hrun]
      exact h.covered x (hsub x hx)
  | arm x c hc harms htimers hfirst hfd hrun =>
      refine ⟨hrun ▸ h.after, fun y hy => .inl (.inr (.inr ⟨x.expiration, ?_, ?_⟩))⟩
      · rw [hfd]
        rfl
      · rw [htimers] at hy
        rcases OrdSet.mem_insert.mp hy with rfl | hy
        · exact le_rfl
        · exact (hfirst y hy).le
  | add x y htimers hy hle hfd hrun =>
      refine ⟨hrun ▸ h.after, fun z hz => ?_⟩
      rw [hfd, hrun]
      rw [htimers] at hz
      rcases OrdSet.mem_insert.mp hz with rfl | hz
      · -- the new timer is as safe as the one before it
        rcases h.covered y hy with hcov | ⟨now, hnow, hlt⟩
        · exact .inl (hcov.mono hle)
        · exact .inr ⟨now, hnow, hlt.trans_le hle⟩
      · exact h.covered z hz
  | start now hc hlate hset hrun =>
      refine ⟨?_, fun x hx => .inr ⟨now, hrun, hlate x hx⟩⟩
      rw [hrun, ← hc]
      exact hclock
  | finish now c hc hnow harms hsub hfd hrun =>
      have hpos : 0 < now := h.after now hnow
      refine ⟨by simp [hrun], fun x hx => .inl ?_⟩
      obtain ⟨first, hfirst, heq, hle⟩ := firstExpiration_le hx
      have heq' : firstExpiration { q' with timerfd := q.timerfd } = first.expiration := heq
      rw [hfd, rearmed, heq']
      split
      · exact .inr (.inr ⟨first.expiration, rfl, hle⟩)
      · next hzero =>
          -- the first timer is at the epoch, so it is not one that was put back
          have hzero : first.expiration = 0 := not_not.mp hzero
          rcases hsub first hfirst with hold | hlate
          · rcases h.covered first hold with hcov | ⟨now', hnow', hlt⟩
            · exact hcov.mono hle
            · rw [hzero] at hlt
              exact absurd (h.after now' hnow') (not_lt.mpr hlt.le)
          · rw [hzero] at hlate
            exact absurd hpos (not_lt.mpr hlate)
  | ready htimers hready hset hrun =>
      refine ⟨hrun ▸ h.after, fun x _ => .inl ?_⟩
      rcases hready with hready | hready
      · exact .inl hready
      · exact .inr (.inl hready)

/-! ## Runs -/

/-- Each new setting of the descriptor is made with the clock reading of the step, for the expiration
`armsFor` says. -/
theorem Effect.settimes {a : TimerAction} (he : q.Effect a q') :
    ∃ new, q'.timerfd.settimes = q.timerfd.settimes ++ new ∧
      ∀ x ∈ new, ∃ now ∈ a.reads, x.1 ∈ q.armsFor a ∧ x.2 = howMuchTimeFromNow x.1 now := by
  cases he with
  | keep _ hfd _ => exact ⟨[], by simp [hfd], by simp⟩
  | arm x c hc harms _ _ hfd _ =>
      rw [hfd]
      exact ⟨_, rfl, by simp only [List.mem_singleton, forall_eq]; exact ⟨c, hc, harms, rfl⟩⟩
  | add _ _ _ _ _ hfd _ => exact ⟨[], by simp [hfd], by simp⟩
  | start _ _ _ hset _ => exact ⟨[], by simp [hset], by simp⟩
  | finish _ c hc _ harms _ hfd _ =>
      rw [hfd, rearmed]
      split
      · next hne =>
          exact ⟨_, rfl, by
            simp only [List.mem_singleton, forall_eq]; exact ⟨c, hc, harms hne, rfl⟩⟩
      · exact ⟨[], by simp, by simp⟩
  | ready _ _ hset _ => exact ⟨[], by simp [hset], by simp⟩

/-- A step that can be taken in a reachable state has one of the effects. -/
theorem effect_of_reachable {a : TimerAction} (h : system.Reachable q) (ha : q.RestartsInRange a)
    (hs : system.Step q a q') : q.Effect a q' := by
  obtain ⟨s, ht⟩ := tracks_of_reachable h
  exact effect_exec ht ha hs.1 hs.2

/-- A step whose times fit arms with times that are right. -/
theorem arms_of_step {a : TimerAction} (h : system.Reachable q) (ha : q.TimesFit a)
    (hs : system.Step q a q') :
    ∃ new, q'.timerfd.settimes = q.timerfd.settimes ++ new ∧
      ∀ x ∈ new, ∃ now ∈ a.reads, x.2.Arms x.1 now := by
  obtain ⟨new, hnew, harms⟩ := (effect_of_reachable h ha.2.1 hs).settimes
  refine ⟨new, hnew, fun x hx => ?_⟩
  obtain ⟨now, hnow, hfor, heq⟩ := harms x hx
  exact ⟨now, hnow, heq ▸ howMuchTimeFromNow_arms (ha.2.2 x.1 hfor now hnow)⟩

theorem armed_of_reachable (h : system.ReachableVia TimesFit q) : q.Armed := by
  refine h.invariant (I := Armed) ?_ ?_
  · rintro q rfl
    exact ⟨by simp [new], fun x hx => absurd hx OrdSet.notMem_empty⟩
  · intro q a q' hr hq ha hs
    exact hq.effect ha.1 (effect_of_reachable hr.reachable ha.2.1 hs)

theorem settimes_of_reachable (h : system.ReachableVia TimesFit q) :
    ∀ x ∈ q.timerfd.settimes, ∃ now, 0 < now ∧ x.2.Arms x.1 now := by
  refine h.invariant (I := fun q => ∀ x ∈ q.timerfd.settimes, ∃ now, 0 < now ∧ x.2.Arms x.1 now)
    ?_ ?_
  · rintro q rfl
    simp [new]
  · intro q a q' hr hq ha hs x hx
    obtain ⟨new, hnew, harms⟩ := arms_of_step hr.reachable ha hs
    rw [hnew, List.mem_append] at hx
    rcases hx with hx | hx
    · exact hq x hx
    · obtain ⟨now, hnow, hx⟩ := harms x hx
      exact ⟨now, ha.1 now hnow, hx⟩

/-- **The `timerfd` is armed for the earliest timer** outside `handleRead`, in every run whose clock
readings are after the epoch and whose times do not overflow, and no arming disarms it. -/
theorem armed_for_earliest (h : system.ReachableVia TimesFit q) :
    (q.running = none → q.timers.toList ≠ [] →
      q.timerfd.readable ∨ q.timerfd.scheduled ∨
        ∃ e, q.timerfd.armed = some e ∧ ∀ x ∈ q.timers, e ≤ x.expiration) ∧
    (∀ x ∈ q.timerfd.settimes, ∃ now, 0 < now ∧ x.2.Arms x.1 now) ∧
    ∀ a q', q.TimesFit a → system.Step q a q' →
      ∃ new, q'.timerfd.settimes = q.timerfd.settimes ++ new ∧
        ∀ x ∈ new, ∃ now ∈ a.reads, x.2.Arms x.1 now := by
  refine ⟨?_, settimes_of_reachable h, fun a q' ha hs => arms_of_step h.reachable ha hs⟩
  intro hrun hne
  obtain ⟨x, hx⟩ := List.exists_mem_of_ne_nil _ hne
  obtain ⟨first, hfirst, heq, -⟩ := firstExpiration_le hx
  rcases (armed_of_reachable h).covered first hfirst with (hcov | hcov | ⟨e, he, hle⟩) | hlate
  · exact .inl hcov
  · exact .inr (.inl hcov)
  · refine .inr (.inr ⟨e, he, fun y hy => ?_⟩)
    obtain ⟨_, -, heq', hmin⟩ := firstExpiration_le hy
    exact hle.trans (heq ▸ heq' ▸ hmin)
  · obtain ⟨now, hnow, -⟩ := hlate
    simp [hrun] at hnow

/-- A callback adds a timer at the epoch, so `reset` does not arm for it, nor for the repeating timer it
puts back. -/
def epochRun : List TimerAction :=
  [.addTimer 1 10 (1 / 2) 5, .fire, .poll, .startRead 20, .runNext, .addTimer 2 0 0 21, .endRead 22]

theorem armed_for_earliest_epochRun :
    ∃ q, system.ReachableVia TimesFit q ∧ q.running = none ∧
      q.timers.toList = [⟨0, 2⟩, ⟨500000020, 1⟩] ∧
      (q.timerfd.readable ∨ q.timerfd.scheduled ∨
        ∃ e, q.timerfd.armed = some e ∧ ∀ x ∈ q.timers, e ≤ x.expiration) ∧
      ∀ x ∈ q.timerfd.settimes, ∃ now, 0 < now ∧ x.2.Arms x.1 now := by
  obtain ⟨q, hq, htest⟩ := StepSystem.exists_reachableVia_of_runFrom? (M := system)
    TimesFit epochRun (s := new)
    (p := fun q => q.running.isNone ∧ q.timers.toList = [⟨0, 2⟩, ⟨500000020, 1⟩]) rfl
    (by decide +kernel)
  obtain ⟨hrun, htimers⟩ := of_decide_eq_true htest
  have hnone : q.running = none := Option.isNone_iff_eq_none.mp hrun
  obtain ⟨harmed, hset, -⟩ := armed_for_earliest hq
  exact ⟨q, hq, hnone, htimers, harmed hnone (by simp [htimers]), hset⟩

/-- `runAt(time_point::min(), cb)`: the time to that expiration overflows, and the descriptor is armed
for more than 200 years. -/
theorem arms_far_for_the_past :
    ∃ q, system.ReachableVia AfterEpoch q ∧
      ∃ x ∈ q.timerfd.settimes, ∀ now, 0 < now → ¬ x.2.Arms x.1 now := by
  obtain ⟨q, hq, htest⟩ := StepSystem.exists_reachableVia_of_runFrom? (M := system) AfterEpoch
    [.addTimer 1 Int64.minValue 0 1700000000000000000] (s := new)
    (p := fun q => q.timerfd.settimes = [(Int64.minValue, ⟨7523372036, 854775000⟩)]) rfl
    (by decide +kernel)
  have hset := of_decide_eq_true htest
  refine ⟨q, hq, _, by rw [hset]; exact List.mem_singleton_self _, fun now hnow harms => ?_⟩
  have hpos : 0 < now.toInt := Int64.lt_iff_toInt_lt.mp hnow
  have hearly : (Int64.minValue.toInt - now.toInt).tdiv 1000 ≤ 0 := by
    rw [← Int.neg_neg (Int64.minValue.toInt - now.toInt), Int.neg_tdiv, Int.neg_nonpos_iff]
    refine Int.tdiv_nonneg ?_ (by decide)
    rw [Int64.toInt_minValue]
    omega
  have htotal : (7523372036854775000 : ℤ) =
    max 100 ((Int64.minValue.toInt - now.toInt).tdiv 1000) * 1000 := harms.total
  omega

end TimerQueue

end MiniMuduo
