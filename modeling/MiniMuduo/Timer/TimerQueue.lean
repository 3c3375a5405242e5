import MiniMuduo.TimeUtil
import MiniMuduo.Lib.Ordered
import MiniMuduo.Lib.Fallible
import MiniMuduo.Lib.StepSystem
import Mathlib.Algebra.Group.Int.Defs
import Mathlib.Algebra.Group.Nat.Defs
import Mathlib.Data.Prod.Lex
import Mathlib.Data.Finset.Basic
import Mathlib.Data.List.Basic

/-!
# `TimerQueue`

The timers of one `EventLoop`, with the memory, the descriptor and the functor queue they work in.

* Timers are objects on a heap, named by their address. A freed address may be handed out again, so
  a pointer that outlives one step of the code is kept together with the `sequence` of the timer it
  was made for (`TimerId`, which is what the source itself does for its users). Following such a
  pointer when that timer is gone is the fault `useAfterFree`, also when the address is in use again.
* Every `assert` of the source is a fault.
* `handleRead` runs user callbacks, which add and cancel timers, so it is not one step: `startRead`,
  one `runNext` per expired timer and `endRead` are, and the steps of the callbacks go in between.
* `system` has every order of these steps, of calls from the loop thread, of calls from other threads
  and of the functors those leave behind.

Callbacks themselves are not modelled: that one is started is an event of the log. Times are
`int64_t` and wrap around (`TimeUtil`); sequence numbers do not.
-/

namespace MiniMuduo

open Fallible

/-- Addresses of `Timer` objects; `nullptr` is `0`. -/
abbrev Addr := ℕ

/-- `UINTPTR_MAX`, the address in the sentry of `getExpired`. -/
def uintptrMax : Addr := 2 ^ 64 - 1

structure Timer where
  expiration : TimePoint
  interval : ℚ
  repeat_ : Bool
  sequence : ℤ

namespace Timer

/-- `Timer::Timer(cb, when, interval)`, given the new value of `s_numCreated_`. -/
def new (when : TimePoint) (interval : ℚ) (sequence : ℤ) : Timer where
  expiration := when
  interval := interval
  repeat_ := decide (0 < interval)
  sequence := sequence

def restart (t : Timer) (now : TimePoint) : Timer :=
  if t.repeat_ then { t with expiration := now + microseconds (toMicroseconds t.interval) }
  else { t with expiration := 0 }

@[simp] theorem restart_sequence (t : Timer) (now : TimePoint) :
    (t.restart now).sequence = t.sequence := by
  rw [restart]
  split <;> rfl

@[simp] theorem restart_interval (t : Timer) (now : TimePoint) :
    (t.restart now).interval = t.interval := by
  rw [restart]
  split <;> rfl

@[simp] theorem restart_repeat_ (t : Timer) (now : TimePoint) :
    (t.restart now).repeat_ = t.repeat_ := by
  rw [restart]
  split <;> rfl

end Timer

/-- A `TimerId`, and as a pair also an `ActiveTimer`: an address and the sequence number of the timer
it was made for. -/
structure TimerId where
  timer : Addr
  seq : ℤ
  deriving DecidableEq, Repr

/-- `Entry`: a time and an address, ordered as pairs are. -/
structure Entry where
  expiration : TimePoint
  timer : Addr
  deriving DecidableEq, Repr

namespace Entry

def toPair (e : Entry) : TimePoint ×ₗ Addr := toLex (e.expiration, e.timer)

theorem toPair_injective : Function.Injective toPair := by
  rintro ⟨e, a⟩ ⟨e', a'⟩ h
  have h' : (e, a) = (e', a') := h
  cases h'
  rfl

instance : LinearOrder Entry := LinearOrder.lift' toPair toPair_injective

theorem lt_iff {x y : Entry} :
    x < y ↔ x.expiration < y.expiration ∨ x.expiration = y.expiration ∧ x.timer < y.timer :=
  Prod.Lex.toLex_lt_toLex

theorem le_iff {x y : Entry} :
    x ≤ y ↔ x.expiration < y.expiration ∨ x.expiration = y.expiration ∧ x.timer ≤ y.timer :=
  Prod.Lex.toLex_le_toLex

end Entry

/-- An entry together with the identity of its timer. -/
structure Scheduled where
  expiration : TimePoint
  id : TimerId
  deriving DecidableEq, Repr

/-- A `timespec`. -/
structure Timespec where
  tv_sec : Int64
  tv_nsec : Int64
  deriving DecidableEq, Repr

/-- The `timerfd` as the kernel has it: the expiration it is armed for, whether it can be read, and
whether the loop has found that in the current dispatch; with everything it was ever armed with. -/
structure Timerfd where
  armed : Option TimePoint
  readable : Bool
  scheduled : Bool
  settimes : List (TimePoint × Timespec)

/-- The functors `addTimer` and `cancel` leave for the loop thread. -/
inductive TimerFunctor where
  | addTimerInLoop (id : TimerId)
  | cancelInLoop (id : TimerId)
  deriving DecidableEq

/-- What happened, in order. Calls of `handleRead` are numbered; `during` is the one a cancellation
fell into. -/
inductive TimerEvent where
  | created (id : TimerId) (when : TimePoint) (interval : ℚ)
  | added (id : TimerId)
  | cancelled (id : TimerId) (during : Option ℕ)
  | deleted (id : TimerId)
  | started (batch : ℕ) (now : TimePoint) (queued : List Scheduled)
  | ran (batch : ℕ) (x : Scheduled)
  | finished (batch : ℕ) (queued : List Scheduled)
  deriving DecidableEq

/-- A running `handleRead`: its `now`, and `expired` split into the timers whose callback was started
and those still to come. -/
structure Batch where
  now : TimePoint
  called : List Scheduled
  waiting : List Scheduled

def Batch.expired (b : Batch) : List Scheduled := b.called ++ b.waiting

structure TimerQueue where
  timers : OrdSet Entry
  callingExpiredTimers : Bool
  activeTimers : Finset TimerId
  cancelingTimers : Finset TimerId
  /-- The `Timer` objects. -/
  heap : Addr → Option Timer
  /-- `Timer::s_numCreated_`. -/
  numCreated : ℤ
  timerfd : Timerfd
  /-- Timers another thread has created in `addTimer` and not queued a functor for yet. -/
  creating : List TimerId
  pendingFunctors : List TimerFunctor
  running : Option Batch
  /-- How many `handleRead` calls there were. -/
  batches : ℕ
  log : List TimerEvent

/-- What stops the timer code: an assert, or the use of a deleted timer. -/
inductive TimerFault where
  | insert
  | cancelInLoop
  | getExpired
  | useAfterFree
  deriving DecidableEq, Repr

namespace TimerQueue

/-! ## Memory -/

/-- Follow an address. -/
def deref (q : TimerQueue) (a : Addr) : Except TimerFault Timer :=
  match q.heap a with
  | some t => .ok t
  | none => .error .useAfterFree

/-- Follow a pointer that was made for one particular timer. -/
def derefId (q : TimerQueue) (id : TimerId) : Except TimerFault Timer := do
  let t ← q.deref id.timer
  check (t.sequence = id.seq) .useAfterFree
  return t

/-- `delete`. -/
def delete (q : TimerQueue) (id : TimerId) : Except TimerFault TimerQueue := do
  let _ ← q.derefId id
  return { q with heap := Function.update q.heap id.timer none, log := q.log ++ [.deleted id] }

/-- An entry with the sequence number of the timer at its address. -/
def identify (q : TimerQueue) (e : Entry) : Scheduled :=
  ⟨e.expiration, e.timer, ((q.heap e.timer).map Timer.sequence).getD 0⟩

/-- `timers_`, with the identities of the timers. -/
def queued (q : TimerQueue) : List Scheduled := q.timers.toList.map q.identify

/-! ## The descriptor -/

/-- `howMuchTimeFromNow(when)` at the clock reading `now`; the cast to microseconds truncates. -/
def howMuchTimeFromNow (when now : TimePoint) : Timespec :=
  let microseconds := (when - now) / 1000
  let microseconds := if microseconds < 100 then 100 else microseconds
  { tv_sec := microseconds / microSecondsPerSecond
    tv_nsec := microseconds % microSecondsPerSecond * 1000 }

/-- `resetTimerfd`; setting the timer also discards an expiration not read yet. -/
def resetTimerfd (q : TimerQueue) (clock expiration : TimePoint) : TimerQueue :=
  { q with
    timerfd := { q.timerfd with
      armed := some expiration
      readable := false
      settimes := q.timerfd.settimes ++ [(expiration, howMuchTimeFromNow expiration clock)] } }

/-- `readTimerfd`. -/
def readTimerfd (q : TimerQueue) : TimerQueue :=
  { q with timerfd := { q.timerfd with readable := false, scheduled := false } }

/-! ## The methods -/

/-- `timers_.size() == activeTimers_.size()`. -/
def SizesAgree (q : TimerQueue) : Prop := q.timers.size = q.activeTimers.card

instance (q : TimerQueue) : Decidable q.SizesAgree := inferInstanceAs (Decidable (_ = _))

/-- `insert`, answering `earliestChanged`. -/
def insert (q : TimerQueue) (id : TimerId) : Except TimerFault (Bool × TimerQueue) := do
  check q.SizesAgree .insert
  let t ← q.derefId id
  let when := t.expiration
  let earliestChanged := match q.timers.begin? with
    | none => true
    | some e => decide (when < e.expiration)
  check (⟨when, id.timer⟩ ∉ q.timers) .insert
  let q := { q with timers := q.timers.insert ⟨when, id.timer⟩ }
  check (⟨id.timer, t.sequence⟩ ∉ q.activeTimers) .insert
  let q := { q with activeTimers := Insert.insert ⟨id.timer, t.sequence⟩ q.activeTimers }
  check q.SizesAgree .insert
  return (earliestChanged, q)

def addTimerInLoop (q : TimerQueue) (clock : TimePoint) (id : TimerId) :
    Except TimerFault TimerQueue := do
  let (earliestChanged, q) ← q.insert id
  let q : TimerQueue := { q with log := q.log ++ [.added id] }
  if earliestChanged then
    let t ← q.derefId id
    return q.resetTimerfd clock t.expiration
  else return q

def cancelInLoop (q : TimerQueue) (id : TimerId) : Except TimerFault TimerQueue := do
  let during := if q.callingExpiredTimers then some q.batches else none
  let q : TimerQueue := { q with log := q.log ++ [.cancelled id during] }
  check q.SizesAgree .cancelInLoop
  let q ←
    if id ∈ q.activeTimers then do
      let t ← q.derefId id
      check (⟨t.expiration, id.timer⟩ ∈ q.timers) .cancelInLoop
      let q := { q with timers := q.timers.erase ⟨t.expiration, id.timer⟩ }
      let q ← q.delete id
      pure { q with activeTimers := q.activeTimers.erase id }
    else if q.callingExpiredTimers then
      pure { q with cancelingTimers := Insert.insert id q.cancelingTimers }
    else pure q
  check q.SizesAgree .cancelInLoop
  return q

/-- The loop of `getExpired` that takes the expired timers out of `activeTimers_`. -/
def deactivate (q : TimerQueue) : List Entry → Except TimerFault (List Scheduled × TimerQueue)
  | [] => return ([], q)
  | e :: es => do
      let t ← q.deref e.timer
      check (⟨e.timer, t.sequence⟩ ∈ q.activeTimers) .getExpired
      let (xs, q) ← deactivate { q with activeTimers := q.activeTimers.erase ⟨e.timer, t.sequence⟩ } es
      return (⟨e.expiration, e.timer, t.sequence⟩ :: xs, q)

def getExpired (q : TimerQueue) (now : TimePoint) :
    Except TimerFault (List Scheduled × TimerQueue) := do
  check q.SizesAgree .getExpired
  let sentry : Entry := ⟨now, uintptrMax⟩
  let expired := q.timers.below sentry
  let rest := q.timers.atLeast sentry
  check (∀ e ∈ rest.begin?, now < e.expiration) .getExpired
  let (expired, q) ← deactivate { q with timers := rest } expired
  check q.SizesAgree .getExpired
  return (expired, q)

/-- The loop of `reset`. -/
def restartOrDelete (q : TimerQueue) (now : TimePoint) :
    List Scheduled → Except TimerFault TimerQueue
  | [] => return q
  | x :: xs => do
      let t ← q.derefId x.id
      if t.repeat_ ∧ x.id ∉ q.cancelingTimers then
        let q := { q with heap := Function.update q.heap x.id.timer (some (t.restart now)) }
        let (_, q) ← q.insert x.id
        restartOrDelete q now xs
      else
        let q ← q.delete x.id
        restartOrDelete q now xs

/-- `nextExpire` in `reset`: the expiration of the first timer, or `time_point{}`. -/
def nextExpire (q : TimerQueue) : Except TimerFault TimePoint :=
  match q.timers.begin? with
  | none => return 0
  | some e => do
      let t ← q.deref e.timer
      return t.expiration

def reset (q : TimerQueue) (clock : TimePoint) (expired : List Scheduled) (now : TimePoint) :
    Except TimerFault TimerQueue := do
  let q ← q.restartOrDelete now expired
  let nextExpire ← q.nextExpire
  if nextExpire ≠ 0 then return q.resetTimerfd clock nextExpire
  else return q

/-- `handleRead` up to the first callback. -/
def startRead (q : TimerQueue) (now : TimePoint) : Except TimerFault TimerQueue := do
  let q : TimerQueue := { q.readTimerfd with
    batches := q.batches + 1, log := q.log ++ [.started (q.batches + 1) now q.queued] }
  let (expired, q) ← q.getExpired now
  return { q with
    callingExpiredTimers := true, cancelingTimers := ∅, running := some ⟨now, [], expired⟩ }

/-- The next `entry.second->run()`. -/
def runNext (q : TimerQueue) (b : Batch) : Except TimerFault TimerQueue :=
  match b.waiting with
  | [] => return q
  | x :: xs => do
      let t ← q.derefId x.id
      return { q with
        running := some ⟨b.now, b.called ++ [x], xs⟩
        log := q.log ++ [.ran q.batches ⟨t.expiration, x.id⟩] }

/-- `handleRead` from the last callback on. -/
def endRead (q : TimerQueue) (clock : TimePoint) (b : Batch) : Except TimerFault TimerQueue := do
  let q := { q with callingExpiredTimers := false }
  let q ← q.reset clock b.expired b.now
  return { q with running := none, log := q.log ++ [.finished q.batches q.queued] }

/-- `new Timer(cb, when, interval)` at the address the allocator gave. -/
def newTimer (q : TimerQueue) (a : Addr) (when : TimePoint) (interval : ℚ) : TimerId × TimerQueue :=
  let sequence := q.numCreated + 1
  (⟨a, sequence⟩,
    { q with
      numCreated := sequence
      heap := Function.update q.heap a (some (.new when interval sequence))
      log := q.log ++ [.created ⟨a, sequence⟩ when interval] })

def runFunctor (q : TimerQueue) (clock : TimePoint) : TimerFunctor → Except TimerFault TimerQueue
  | .addTimerInLoop id => q.addTimerInLoop clock id
  | .cancelInLoop id => q.cancelInLoop id

end TimerQueue

/-! ## Runs -/

/-- The steps of a loop with timers. `clock` is what `get_now()` answers in `howMuchTimeFromNow`. -/
inductive TimerAction where
  /-- Timer code called in the loop thread, by a callback, a functor or another handler. -/
  | addTimer (a : Addr) (when : TimePoint) (interval : ℚ) (clock : TimePoint)
  | cancel (id : TimerId)
  /-- The two halves of `addTimer` in another thread, and `cancel` there. -/
  | createElsewhere (a : Addr) (when : TimePoint) (interval : ℚ)
  | queueAdd (id : TimerId)
  | queueCancel (id : TimerId)
  /-- The next functor of `doPendingFunctors`. -/
  | functor (clock : TimePoint)
  | startRead (now : TimePoint)
  | runNext
  | endRead (clock : TimePoint)
  /-- The descriptor becomes readable, and `poll` reports it. -/
  | fire
  | poll

namespace TimerQueue

/-- The queue of a new `EventLoop`. -/
def new : TimerQueue where
  timers := .empty
  callingExpiredTimers := false
  activeTimers := ∅
  cancelingTimers := ∅
  heap := fun _ => none
  numCreated := 0
  timerfd := ⟨none, false, false, []⟩
  creating := []
  pendingFunctors := []
  running := none
  batches := 0
  log := []

/-- Addresses `new` may answer. -/
def Allocatable (q : TimerQueue) (a : Addr) : Prop :=
  (q.heap a).isNone ∧ 0 < a ∧ a < uintptrMax

/-- User code runs in the loop thread: outside `handleRead`, or in a callback of it. -/
def InUserCode (q : TimerQueue) : Prop :=
  ∀ b ∈ q.running, b.called ≠ []

instance (q : TimerQueue) (a : Addr) : Decidable (q.Allocatable a) :=
  inferInstanceAs (Decidable (_ ∧ _ ∧ _))

instance (q : TimerQueue) : Decidable q.InUserCode :=
  inferInstanceAs (Decidable (∀ b ∈ q.running, b.called ≠ []))

def enabled (q : TimerQueue) : TimerAction → Prop
  | .addTimer a _ _ _ => q.Allocatable a ∧ q.InUserCode
  | .cancel _ => q.InUserCode
  | .createElsewhere a _ _ => q.Allocatable a
  | .queueAdd id => id ∈ q.creating
  | .queueCancel _ => True
  | .functor _ => q.running.isNone ∧ q.pendingFunctors ≠ []
  | .startRead _ => q.running.isNone
  | .runNext => ∃ b ∈ q.running, b.waiting ≠ []
  | .endRead _ => ∃ b ∈ q.running, b.waiting = []
  | .fire => q.timerfd.armed.isSome
  | .poll => q.timerfd.readable

instance (q : TimerQueue) (a : TimerAction) : Decidable (q.enabled a) := by
  cases a <;> unfold enabled <;> infer_instance

def exec (q : TimerQueue) : TimerAction → Except TimerFault TimerQueue
  | .addTimer a when interval clock =>
      let (id, q) := q.newTimer a when interval
      q.addTimerInLoop clock id
  | .cancel id => q.cancelInLoop id
  | .createElsewhere a when interval =>
      let (id, q) := q.newTimer a when interval
      .ok { q with creating := id :: q.creating }
  | .queueAdd id =>
      .ok { q with
        creating := q.creating.erase id
        pendingFunctors := q.pendingFunctors ++ [.addTimerInLoop id] }
  | .queueCancel id => .ok { q with pendingFunctors := q.pendingFunctors ++ [.cancelInLoop id] }
  | .functor clock =>
      match q.pendingFunctors with
      | [] => .ok q
      | f :: fs => { q with pendingFunctors := fs }.runFunctor clock f
  | .startRead now => q.startRead now
  | .runNext =>
      match q.running with
      | none => .ok q
      | some b => q.runNext b
  | .endRead clock =>
      match q.running with
      | none => .ok q
      | some b => q.endRead clock b
  | .fire => .ok { q with timerfd := { q.timerfd with armed := none, readable := true } }
  | .poll => .ok { q with timerfd := { q.timerfd with scheduled := true } }

/-- All runs of one loop's timers. -/
def system : StepSystem TimerQueue TimerAction TimerFault where
  init := fun q => q = new
  enabled := enabled
  exec := exec

end TimerQueue

end MiniMuduo
