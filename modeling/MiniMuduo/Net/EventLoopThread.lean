import MiniMuduo.Net.LoopProgress

/-!
# `EventLoopThread`

Its owner calls `startLoop` and, in the end, the destructor; `threadFunc` runs in the thread that
`startLoop` starts. The two meet at `mutex_` and `cond_`, and from then on at the `EventLoop`, which
other threads know too as soon as `startLoop` has returned it.

The steps are again those between which another thread may come in. `cond_.wait` gives the mutex up and
takes it again when it is notified, or for no reason.
-/

namespace MiniMuduo

open Fallible

/-- Where the owner of the `EventLoopThread` is. -/
inductive OwnerPc where
  /-- Neither in `startLoop` nor in the destructor. -/
  | outside
  /-- Before it has `mutex_`, for the first time or in `cond_.wait`. -/
  | locking
  /-- Before the test of `loop_ != nullptr`. -/
  | testing
  /-- Blocked in `cond_.wait`. -/
  | waiting
  /-- Before `return loop_`. -/
  | returning
  /-- In the destructor: before `quit_ = true`, before the rest of `quit`, in `join` and after it. -/
  | quitting
  | waking
  | joining
  | joined
  deriving DecidableEq

def OwnerPc.InStartLoop (pc : OwnerPc) : Prop :=
  pc = .locking ∨ pc = .testing ∨ pc = .waiting ∨ pc = .returning

/-- The steps that `startLoop` has left, at most, until it is blocked or returns. -/
def OwnerPc.toReturn : OwnerPc → ℕ
  | .locking => 3
  | .testing => 2
  | .waiting | .returning => 1
  | _ => 0

/-- Where `threadFunc` is. -/
inductive FuncPc where
  | notStarted
  /-- Before `EventLoop loop`. -/
  | constructing
  | locking
  /-- Before `loop_ = &loop`. -/
  | storing
  | unlocking
  /-- Before `cond_.notify_one()`. -/
  | notifying
  | looping
  /-- The `EventLoop` is destroyed. -/
  | finished
  deriving DecidableEq

/-- `loop_` was stored. -/
def FuncPc.Stored (pc : FuncPc) : Prop :=
  pc = .unlocking ∨ pc = .notifying ∨ pc = .looping ∨ pc = .finished

/-- The steps up to the notification. -/
def FuncPc.toLoop : FuncPc → ℕ
  | .constructing => 5
  | .locking => 4
  | .storing => 3
  | .unlocking => 2
  | .notifying => 1
  | _ => 0

/-- Who has `mutex_`. -/
inductive MutexOwner where
  | startLoop
  | threadFunc
  deriving DecidableEq

inductive ThreadFault where
  /-- `assert(!thread_.started())`. -/
  | started
  /-- `loop_->quit()` where `loop_` is `nullptr`. -/
  | null
  /-- A call of an `EventLoop` that was destroyed. -/
  | dangling
  /-- `assert(!looping_)` of `~EventLoop`. -/
  | looping
  | loop (e : LoopFault)
  deriving DecidableEq

structure EventLoopThread (θ F : Type) where
  /-- Whether `loop_` points to the loop of `threadFunc`. -/
  loop : Bool
  exiting : Bool
  /-- `started_` of `thread_`. -/
  started : Bool
  mutex : Option MutexOwner
  /-- The thread of the owner. -/
  owner : θ
  pc : OwnerPc
  func : FuncPc
  /-- The `EventLoop` of `threadFunc`; as it will be constructed, before that. -/
  eventLoop : SharedLoop θ F
  /-- What `startLoop` has returned: whether it is not `nullptr`. -/
  returned : Option Bool

inductive ThreadAction (θ F : Type) where
  | startLoop
  | lock
  | testLoop
  /-- A wakeup for no reason. -/
  | spuriousWakeup
  | returnLoop
  | destroy
  | quit
  | wakeup
  | join
  | construct
  | lockFunc
  | storeLoop
  | unlock
  | notifyOne
  | finish
  /-- A step of the loop, or of a call that it gets from those it was returned to. -/
  | loop (a : LoopAction θ F)

namespace EventLoopThread

variable {θ F : Type} [DecidableEq θ]

def new (owner thread : θ) : EventLoopThread θ F where
  loop := false
  exiting := false
  started := false
  mutex := none
  owner := owner
  pc := .outside
  func := .notStarted
  eventLoop := .new thread
  returned := none

/-- `quit_ = true` in the destructor. -/
def quit (s : EventLoopThread θ F) : Except ThreadFault (EventLoopThread θ F) := do
  check (s.loop = true) .null
  check (s.func ≠ .finished) .dangling
  let eventLoop ← (s.eventLoop.exec (.quit s.owner)).mapError .loop
  return { s with eventLoop := eventLoop, pc := .waking }

/-- The rest of `quit`. -/
def wakeup (s : EventLoopThread θ F) : Except ThreadFault (EventLoopThread θ F) := do
  check (s.func ≠ .finished) .dangling
  let eventLoop ← (s.eventLoop.exec (.endCall s.owner)).mapError .loop
  return { s with eventLoop := eventLoop, pc := .joining }

/-- `cond_.notify_one()`. -/
def notifyOne (s : EventLoopThread θ F) : EventLoopThread θ F :=
  { s with
    pc := if s.pc = .waiting then .locking else s.pc
    func := .looping }

/-- The test of the predicate by `cond_.wait`, up to where it gives the mutex up. -/
def testLoop (s : EventLoopThread θ F) : EventLoopThread θ F :=
  { s with mutex := none, pc := if s.loop then .returning else .waiting }

/-- A step of the loop by its thread, or a call of it. -/
def stepLoop (s : EventLoopThread θ F) (a : LoopAction θ F) :
    Except ThreadFault (EventLoopThread θ F) := do
  check (s.func ≠ .finished) .dangling
  let eventLoop ← (s.eventLoop.exec a).mapError .loop
  return { s with eventLoop := eventLoop }

/-- The owner is in none of its calls. -/
def Free (s : EventLoopThread θ F) : Prop := s.pc = .outside ∧ s.eventLoop.calls s.owner = none

/-- The thread can call the loop: `startLoop` has returned it, or the call comes from a handler or a
functor of the loop itself. -/
def Knows (s : EventLoopThread θ F) (t : θ) : Prop :=
  if s.eventLoop.isInLoopThread t then s.func = .looping
  else s.returned = some true ∧ (t = s.owner → s.pc = .outside)

/-- Steps of the loop's own thread have no caller. -/
def Admits (s : EventLoopThread θ F) : Option θ → Prop
  | none => s.func = .looping
  | some t => s.Knows t

def enabled (s : EventLoopThread θ F) : ThreadAction θ F → Prop
  | .startLoop | .destroy => s.Free
  | .lock => s.pc = .locking ∧ s.mutex = none
  | .testLoop => s.pc = .testing
  | .spuriousWakeup => s.pc = .waiting
  | .returnLoop => s.pc = .returning
  | .quit => s.pc = .quitting
  | .wakeup => s.pc = .waking
  | .join => s.pc = .joining ∧ s.func = .finished
  | .construct => s.func = .constructing
  | .lockFunc => s.func = .locking ∧ s.mutex = none
  | .storeLoop => s.func = .storing
  | .unlock => s.func = .unlocking
  | .notifyOne => s.func = .notifying
  | .finish => s.func = .looping ∧ s.eventLoop.pc = .returned
  | .loop a => s.eventLoop.enabled a ∧ s.Admits a.caller

def exec (s : EventLoopThread θ F) : ThreadAction θ F → Except ThreadFault (EventLoopThread θ F)
  | .startLoop => do
      check (s.started = false) .started
      return { s with started := true, func := .constructing, pc := .locking }
  | .lock => return { s with mutex := some .startLoop, pc := .testing }
  | .testLoop => return s.testLoop
  | .spuriousWakeup => return { s with pc := .locking }
  | .returnLoop => return { s with returned := some s.loop, pc := .outside }
  | .destroy => return { s with exiting := true, pc := .quitting }
  | .quit => s.quit
  | .wakeup => s.wakeup
  | .join => return { s with pc := .joined }
  | .construct => return { s with func := .locking }
  | .lockFunc => return { s with mutex := some .threadFunc, func := .storing }
  | .storeLoop => return { s with loop := true, func := .unlocking }
  | .unlock => return { s with mutex := none, func := .notifying }
  | .notifyOne => return s.notifyOne
  | .finish => do
      check (s.eventLoop.looping = false) .looping
      return { s with func := .finished }
  | .loop a => s.stepLoop a

/-- All runs of an `EventLoopThread` from its construction on. -/
def system : StepSystem (EventLoopThread θ F) (ThreadAction θ F) ThreadFault where
  init := fun s => ∃ owner thread, owner ≠ thread ∧ s = new owner thread
  enabled := enabled
  exec := exec

instance (s : EventLoopThread θ F) : Decidable s.Free := inferInstanceAs (Decidable (_ ∧ _))

instance (s : EventLoopThread θ F) (t : θ) : Decidable (s.Knows t) := by
  unfold Knows
  infer_instance

instance (s : EventLoopThread θ F) : (caller : Option θ) → Decidable (s.Admits caller)
  | none => inferInstanceAs (Decidable (_ = _))
  | some t => inferInstanceAs (Decidable (s.Knows t))

instance (s : EventLoopThread θ F) (a : ThreadAction θ F) : Decidable (s.enabled a) := by
  cases a <;> unfold enabled <;> infer_instance

instance (s : EventLoopThread θ F) (a : ThreadAction θ F) : Decidable (system.enabled s a) :=
  inferInstanceAs (Decidable (s.enabled a))

variable {s s' : EventLoopThread θ F} {a : ThreadAction θ F}

/-- What a step can do. -/
inductive Moves (s : EventLoopThread θ F) : ThreadAction θ F → EventLoopThread θ F → Prop where
  | startLoop : s.Free → s.started = false →
      Moves s .startLoop { s with started := true, func := .constructing, pc := .locking }
  | lock : s.pc = .locking → s.mutex = none →
      Moves s .lock { s with mutex := some .startLoop, pc := .testing }
  | finds : s.pc = .testing → s.loop = true →
      Moves s .testLoop { s with mutex := none, pc := .returning }
  | waits : s.pc = .testing → s.loop = false →
      Moves s .testLoop { s with mutex := none, pc := .waiting }
  | spuriousWakeup : s.pc = .waiting → Moves s .spuriousWakeup { s with pc := .locking }
  | returnLoop : s.pc = .returning →
      Moves s .returnLoop { s with returned := some s.loop, pc := .outside }
  | destroy : s.Free → Moves s .destroy { s with exiting := true, pc := .quitting }
  | quit {l : SharedLoop θ F} : s.pc = .quitting → s.loop = true → s.func ≠ .finished →
      s.eventLoop.exec (.quit s.owner) = .ok l → Moves s .quit { s with eventLoop := l, pc := .waking }
  | wakeup {l : SharedLoop θ F} : s.pc = .waking → s.func ≠ .finished →
      s.eventLoop.exec (.endCall s.owner) = .ok l →
      Moves s .wakeup { s with eventLoop := l, pc := .joining }
  | join : s.pc = .joining → s.func = .finished → Moves s .join { s with pc := .joined }
  | construct : s.func = .constructing → Moves s .construct { s with func := .locking }
  | lockFunc : s.func = .locking → s.mutex = none →
      Moves s .lockFunc { s with mutex := some .threadFunc, func := .storing }
  | storeLoop : s.func = .storing → Moves s .storeLoop { s with loop := true, func := .unlocking }
  | unlock : s.func = .unlocking → Moves s .unlock { s with mutex := none, func := .notifying }
  | notifies : s.func = .notifying → s.pc = .waiting →
      Moves s .notifyOne { s with pc := .locking, func := .looping }
  | notifiesNone : s.func = .notifying → s.pc ≠ .waiting →
      Moves s .notifyOne { s with func := .looping }
  | finish : s.func = .looping → s.eventLoop.pc = .returned →
      Moves s .finish { s with func := .finished }
  | loop {b : LoopAction θ F} {l : SharedLoop θ F} : s.Admits b.caller → s.func ≠ .finished →
      SharedLoop.system.Step s.eventLoop b l → Moves s (.loop b) { s with eventLoop := l }

theorem moves_of_step (h : system.Step s a s') : s.Moves a s' := by
  obtain ⟨hen, hex⟩ := h
  cases a with
  | startLoop =>
      obtain ⟨_, hstarted, hex⟩ := bind_eq_ok.mp hex
      cases hex
      exact .startLoop hen (check_eq_ok.mp hstarted)
  | lock =>
      cases hex
      exact .lock hen.1 hen.2
  | testLoop =>
      cases hex
      cases hloop : s.loop with
      | true =>
          have heq : s.testLoop = { s with mutex := none, pc := .returning } := by
            rw [testLoop, hloop, if_pos rfl]
          exact heq ▸ .finds hen hloop
      | false =>
          have heq : s.testLoop = { s with mutex := none, pc := .waiting } := by
            rw [testLoop, hloop, if_neg Bool.false_ne_true]
          exact heq ▸ .waits hen hloop
  | spuriousWakeup =>
      cases hex
      exact .spuriousWakeup hen
  | returnLoop =>
      cases hex
      exact .returnLoop hen
  | destroy =>
      cases hex
      exact .destroy hen
  | quit =>
      obtain ⟨_, hloop, hex⟩ := bind_eq_ok.mp hex
      obtain ⟨_, hfunc, hex⟩ := bind_eq_ok.mp hex
      obtain ⟨l, hl, hex⟩ := bind_eq_ok.mp hex
      cases hex
      exact .quit hen (check_eq_ok.mp hloop) (check_eq_ok.mp hfunc) (mapError_eq_ok.mp hl)
  | wakeup =>
      obtain ⟨_, hfunc, hex⟩ := bind_eq_ok.mp hex
      obtain ⟨l, hl, hex⟩ := bind_eq_ok.mp hex
      cases hex
      exact .wakeup hen (check_eq_ok.mp hfunc) (mapError_eq_ok.mp hl)
  | join =>
      cases hex
      exact .join hen.1 hen.2
  | construct =>
      cases hex
      exact .construct hen
  | lockFunc =>
      cases hex
      exact .lockFunc hen.1 hen.2
  | storeLoop =>
      cases hex
      exact .storeLoop hen
  | unlock =>
      cases hex
      exact .unlock hen
  | notifyOne =>
      cases hex
      by_cases hpc : s.pc = .waiting
      · have heq : s.notifyOne = { s with pc := .locking, func := .looping } := by
          rw [notifyOne, if_pos hpc]
        exact heq ▸ .notifies hen hpc
      · have heq : s.notifyOne = { s with func := .looping } := by
          rw [notifyOne, if_neg hpc]
        exact heq ▸ .notifiesNone hen hpc
  | finish =>
      obtain ⟨_, -, hex⟩ := bind_eq_ok.mp hex
      cases hex
      exact .finish hen.1 hen.2
  | loop b =>
      obtain ⟨_, hfunc, hex⟩ := bind_eq_ok.mp hex
      obtain ⟨l, hl, hex⟩ := bind_eq_ok.mp hex
      cases hex
      exact .loop hen.2 (check_eq_ok.mp hfunc) ⟨hen.1, mapError_eq_ok.mp hl⟩

/-! ## The handshake -/

/-- How `startLoop` and `threadFunc` stand to each other. No notification is lost: while `startLoop` is
blocked, the one of `threadFunc` is still to come. -/
structure Handshake (s : EventLoopThread θ F) : Prop where
  mutex : s.mutex = some .startLoop ↔ s.pc = .testing
  mutexFunc : s.mutex = some .threadFunc ↔ s.func = .storing ∨ s.func = .unlocking
  stored : s.loop = true ↔ s.func.Stored
  started : s.started = true ↔ s.func ≠ .notStarted
  inStartLoop : s.pc.InStartLoop → s.started = true
  waits : s.pc = .waiting → s.func ≠ .looping ∧ s.func ≠ .finished
  returning : s.pc = .returning → s.loop = true
  returned : ∀ b, s.returned = some b → b = true ∧ s.loop = true
  completed : s.started = true → s.pc.InStartLoop ∨ s.returned = some true
  joined : s.pc = .joined → s.func = .finished

theorem Moves.keepsMutex (h : s.Moves a s') (hs : s.Handshake) :
    (s'.mutex = some .startLoop ↔ s'.pc = .testing) ∧
      (s'.mutex = some .threadFunc ↔ s'.func = .storing ∨ s'.func = .unlocking) := by
  have hmutex := hs.mutex
  have hfunc := hs.mutexFunc
  have hstarted := hs.started
  clear hs
  cases h <;> simp_all [Free]

theorem Moves.keepsStored (h : s.Moves a s') (hs : s.Handshake) :
    (s'.loop = true ↔ s'.func.Stored) ∧ (s'.started = true ↔ s'.func ≠ .notStarted) := by
  have hstored := hs.stored
  have hstarted := hs.started
  clear hs
  cases h <;> simp_all [FuncPc.Stored]

theorem Moves.keepsWaits (h : s.Moves a s') (hs : s.Handshake) :
    (s'.pc = .waiting → s'.func ≠ .looping ∧ s'.func ≠ .finished) ∧
      (s'.pc = .joined → s'.func = .finished) := by
  have hstored := hs.stored
  have hwaits := hs.waits
  have hjoined := hs.joined
  clear hs
  cases h <;> simp_all [FuncPc.Stored, Free]

theorem Moves.keepsReturned (h : s.Moves a s') (hs : s.Handshake) :
    (s'.pc = .returning → s'.loop = true) ∧ (∀ b, s'.returned = some b → b = true ∧ s'.loop = true) := by
  have hreturning := hs.returning
  have hreturned := hs.returned
  clear hs
  cases h <;> simp_all [Free]

theorem Moves.keepsCompleted (h : s.Moves a s') (hs : s.Handshake) :
    (s'.pc.InStartLoop → s'.started = true) ∧
      (s'.started = true → s'.pc.InStartLoop ∨ s'.returned = some true) := by
  have hin := hs.inStartLoop
  have hreturning := hs.returning
  have hcompleted := hs.completed
  clear hs
  cases h <;> simp_all [OwnerPc.InStartLoop, Free]

theorem Moves.keepsHandshake (h : s.Moves a s') (hs : s.Handshake) : s'.Handshake where
  mutex := (h.keepsMutex hs).1
  mutexFunc := (h.keepsMutex hs).2
  stored := (h.keepsStored hs).1
  started := (h.keepsStored hs).2
  inStartLoop := (h.keepsCompleted hs).1
  waits := (h.keepsWaits hs).1
  returning := (h.keepsReturned hs).1
  returned := (h.keepsReturned hs).2
  completed := (h.keepsCompleted hs).2
  joined := (h.keepsWaits hs).2

theorem handshake_of_reachable (h : (system (θ := θ) (F := F)).Reachable s) : s.Handshake := by
  refine h.invariant ?_ fun s a s' _ hs _ hstep => (moves_of_step hstep).keepsHandshake hs
  rintro s ⟨owner, thread, -, rfl⟩
  constructor <;> simp [new, FuncPc.Stored, OwnerPc.InStartLoop]

/-! ## The loop as a component -/

/-- What the owner and `threadFunc` have to do with the loop. -/
structure Component (s : EventLoopThread θ F) : Prop where
  threads : s.owner ≠ s.eventLoop.threadId
  before : s.func ≠ .looping → s.func ≠ .finished → s.eventLoop.pc = .outside
  finished : s.func = .finished → s.eventLoop.pc = .returned
  idle : s.pc ≠ .outside → s.pc ≠ .waking → s.eventLoop.calls s.owner = none
  waking : s.pc = .waking → s.eventLoop.calls s.owner = some .quit

/-- The step of the loop that a step is. -/
def loopAction (s : EventLoopThread θ F) : ThreadAction θ F → Option (LoopAction θ F)
  | .quit => some (.quit s.owner)
  | .wakeup => some (.endCall s.owner)
  | .loop a => some a
  | _ => none

theorem Component.step {b : LoopAction θ F} (hs : s.Component) (h : s.Moves a s')
    (hb : s.loopAction a = some b) : SharedLoop.system.Step s.eventLoop b s'.eventLoop := by
  cases h with
  | quit hpc _ _ hl =>
      cases hb
      refine ⟨⟨hs.idle (by simp [hpc]) (by simp [hpc]), fun ht => absurd ht hs.threads⟩, hl⟩
  | wakeup hpc _ hl =>
      cases hb
      refine ⟨?_, hl⟩
      show (s.eventLoop.calls s.owner).isSome = true
      rw [hs.waking hpc]
      rfl
  | loop _ _ hstep =>
      cases hb
      exact hstep
  | _ => cases hb

theorem Moves.eventLoop_eq (h : s.Moves a s') (ha : s.loopAction a = none) :
    s'.eventLoop = s.eventLoop := by
  cases h with
  | quit | wakeup | loop => cases ha
  | _ => rfl

theorem Moves.keepsComponent (h : s.Moves a s') (hh : s.Handshake) (hs : s.Component) :
    s'.Component := by
  cases h with
  | quit hpc _ hfunc hl =>
      cases hl
      exact ⟨hs.threads, hs.before, fun hfin => absurd hfin hfunc, fun _ hne => absurd rfl hne,
        fun _ => Function.update_self _ _ _⟩
  | wakeup hpc hfunc hl =>
      cases hl
      obtain ⟨n, heq, -⟩ := SharedLoop.endCall_eq (s := s.eventLoop) (t := s.owner)
        (by rw [hs.waking hpc]; rfl)
      rw [heq]
      exact ⟨hs.threads, hs.before, fun hfin => absurd hfin hfunc,
        fun _ _ => Function.update_self _ _ _, by simp⟩
  | @loop b l hadm hfunc hstep =>
      have hmove := SharedLoop.moves_exec hstep.1 hstep.2
      -- the owner calls the loop only where it is in none of its own calls
      have howner : s.pc ≠ .outside → l.calls s.owner = s.eventLoop.calls s.owner := by
        intro hpc
        refine hmove.calls_of_ne fun hcaller => ?_
        rw [hcaller] at hadm
        have hknows : s.Knows s.owner := hadm
        unfold Knows at hknows
        rw [if_neg (show ¬ s.eventLoop.isInLoopThread s.owner from hs.threads)] at hknows
        exact hpc (hknows.2 rfl)
      refine ⟨hmove.threadId_eq.symm ▸ hs.threads, fun hloop hfin => ?_,
        fun hfin => absurd hfin hfunc, fun hpc hwaking => ?_, fun hpc => ?_⟩
      · cases hcaller : b.caller with
        | none =>
            rw [hcaller] at hadm
            exact absurd hadm hloop
        | some t =>
            rw [(hmove.call_keeps (by rw [LoopAction.own, hcaller]; rfl)).1]
            exact hs.before hloop hfin
      · rw [howner hpc]
        exact hs.idle hpc hwaking
      · rw [howner (by simp [show s.pc = .waking from hpc])]
        exact hs.waking hpc
  | startLoop hfree hstarted =>
      have hfunc : s.func = .notStarted := by
        by_contra hne
        exact absurd (hh.started.mpr hne) (by simp [hstarted])
      exact ⟨hs.threads, fun _ _ => hs.before (by simp [hfunc]) (by simp [hfunc]), nofun,
        fun _ _ => hfree.2, nofun⟩
  | _ =>
      obtain ⟨hthreads, hbefore, hfinished, hidle, hwaking⟩ := hs
      constructor <;> simp_all [Free]

theorem component_of_reachable (h : (system (θ := θ) (F := F)).Reachable s) : s.Component := by
  refine h.invariant ?_ fun s a s' hr hs _ hstep =>
    (moves_of_step hstep).keepsComponent (handshake_of_reachable hr) hs
  rintro s ⟨owner, thread, hne, rfl⟩
  constructor <;> simp [new, SharedLoop.new, hne]

/-- The loop of an `EventLoopThread` is a loop. -/
theorem eventLoop_reachable (h : (system (θ := θ) (F := F)).Reachable s) :
    SharedLoop.system.Reachable s.eventLoop := by
  refine h.invariant (I := fun s => SharedLoop.system.Reachable s.eventLoop) ?_
    fun s a s' hr hs _ hstep => ?_
  · rintro s ⟨owner, thread, -, rfl⟩
    exact .init ⟨thread, rfl⟩
  · have hmove := moves_of_step hstep
    cases ha : s.loopAction a with
    | none =>
        rw [hmove.eventLoop_eq ha]
        exact hs
    | some b => exact hs.step trivial ((component_of_reachable hr).step hmove ha)

/-- What a run comes to for the loop. -/
def loopRun (run : (system (θ := θ) (F := F)).InfiniteRun) :
    (SharedLoop.system (θ := θ) (F := F)).InfiniteRun :=
  run.project eventLoop loopAction
    (by
      rintro s ⟨owner, thread, -, rfl⟩
      exact ⟨thread, rfl⟩)
    (fun _ _ _ _ hr hstep hb => (component_of_reachable hr).step (moves_of_step hstep) hb)
    fun _ _ _ hstep ha => (moves_of_step hstep).eventLoop_eq ha

/-! ## `startLoop` returns -/

/-- The steps of `startLoop`, and those of `threadFunc` up to its notification. -/
def starting : ThreadAction θ F → Bool
  | .lock | .testLoop | .returnLoop => true
  | .construct | .lockFunc | .storeLoop | .unlock | .notifyOne => true
  | _ => false

/-- The steps that are left, at most, if no wakeup is spurious. -/
def toStart (s : EventLoopThread θ F) : ℕ := 4 * s.func.toLoop + s.pc.toReturn

theorem starting_possible (hs : s.Handshake) (hpc : s.pc.InStartLoop) :
    ∃ a s', starting a = true ∧ system.Step s a s' := by
  have hfree : s.pc ≠ .testing → s.func ≠ .storing → s.func ≠ .unlocking → s.mutex = none := by
    intro htest hstore hunlock
    cases hm : s.mutex with
    | none => rfl
    | some m =>
        cases m with
        | startLoop => exact absurd (hs.mutex.mp hm) htest
        | threadFunc => exact absurd (hs.mutexFunc.mp hm) (not_or.mpr ⟨hstore, hunlock⟩)
  by_cases hstore : s.func = .storing
  · exact ⟨.storeLoop, _, rfl, hstore, rfl⟩
  by_cases hunlock : s.func = .unlocking
  · exact ⟨.unlock, _, rfl, hunlock, rfl⟩
  rcases hpc with hpc | hpc | hpc | hpc
  · exact ⟨.lock, _, rfl, ⟨hpc, hfree (by simp [hpc]) hstore hunlock⟩, rfl⟩
  · exact ⟨.testLoop, _, rfl, hpc, rfl⟩
  · -- `threadFunc` has yet to notify
    obtain ⟨hloop, hfin⟩ := hs.waits hpc
    have hfunc := hs.started.mp (hs.inStartLoop (.inr (.inr (.inl hpc))))
    cases hf : s.func with
    | notStarted | looping | finished | storing | unlocking => contradiction
    | constructing => exact ⟨.construct, _, rfl, hf, rfl⟩
    | locking => exact ⟨.lockFunc, _, rfl, ⟨hf, hfree (by simp [hpc]) hstore hunlock⟩, rfl⟩
    | notifying => exact ⟨.notifyOne, _, rfl, hf, rfl⟩
  · exact ⟨.returnLoop, _, rfl, hpc, rfl⟩

theorem Moves.keepsStarting (h : s.Moves a s') (hs : s.Handshake) (hpc : s.pc.InStartLoop) :
    s'.pc.InStartLoop ∧ (a ≠ .spuriousWakeup → s'.toStart ≤ s.toStart ∧
      (starting a = true → s'.toStart < s.toStart)) ∨ s'.returned = some true := by
  have hreturning := hs.returning
  cases h <;> simp_all [toStart, starting, OwnerPc.InStartLoop, OwnerPc.toReturn, FuncPc.toLoop, Free]

/-- **`startLoop` returns the loop**, in every run in which the steps of `startLoop` and `threadFunc`
are not put off for ever and `cond_` is not for ever woken up for no reason. -/
theorem startLoop_returns (run : (system (θ := θ) (F := F)).InfiniteRun)
    (hfair : run.Fair fun a => starting a = true)
    (hspurious : ∃ N, ∀ m, N ≤ m → run.action m ≠ some .spuriousWakeup) {n : ℕ}
    (hpc : (run.state n).pc.InStartLoop) :
    ∃ m, n ≤ m ∧ (run.state m).returned = some true := by
  have hstep : ∀ m a, run.action m = some a → (run.state m).pc.InStartLoop →
      (run.state (m + 1)).pc.InStartLoop ∧ (a ≠ .spuriousWakeup →
        (run.state (m + 1)).toStart ≤ (run.state m).toStart ∧
          (starting a = true → (run.state (m + 1)).toStart < (run.state m).toStart)) ∨
        (run.state (m + 1)).returned = some true := fun m a ha hin =>
    (moves_of_step (run.step m a ha)).keepsStarting (handshake_of_reachable (run.reachable m)) hin
  by_contra hnone
  have hno : ∀ m, n ≤ m → ¬ (run.state m).returned = some true := fun m hle h => hnone ⟨m, hle, h⟩
  obtain ⟨N, hN⟩ := hspurious
  have hlate := StepSystem.InfiniteRun.keeps_until (I := fun s => s.pc.InStartLoop)
    (G := fun s => s.returned = some true) (fun m a _ ha hin _ =>
      (hstep m a ha hin).imp_left fun h => h.1) hpc N fun m hle _ => hno m hle
  obtain ⟨m, hle, hret⟩ := StepSystem.InfiniteRun.eventually_of_fair (r := toStart)
    (I := fun s => s.pc.InStartLoop) (G := fun s => s.returned = some true) hfair
    (fun m _ hin _ => starting_possible (handshake_of_reachable (run.reachable m)) hin)
    (fun m a hle ha hin _ => (hstep m a ha hin).imp_left fun h =>
      ⟨h.1, (h.2 fun heq => hN m (by omega) (heq ▸ ha)).1⟩)
    (fun m a hle ha hhelp hin _ => (hstep m a ha hin).imp_left fun h =>
      (h.2 fun heq => hN m (by omega) (heq ▸ ha)).2 hhelp) hlate
  exact hno m (by omega) hret

/-- The notification comes while `startLoop` is blocked. -/
def startRun : List (ThreadAction Bool ℕ) :=
  [.startLoop, .lock, .testLoop, .construct, .spuriousWakeup, .lock, .testLoop, .lockFunc, .storeLoop,
    .unlock, .notifyOne, .lock, .testLoop, .returnLoop]

/-- A thread that is started, and nothing else. -/
def start : (system (θ := Bool) (F := ℕ)).InfiniteRun :=
  .ofActions (new false true) ⟨false, true, by decide, rfl⟩ startRun (by decide +kernel)

theorem startLoop_returns_start : ∃ m, 1 ≤ m ∧ (start.state m).returned = some true := by
  refine startLoop_returns start ?_ ⟨startRun.length, fun m hm => ?_⟩ ?_
  · refine StepSystem.InfiniteRun.fair_ofActions
      (p := fun s => decide (s.pc = .outside ∧ s.func = .looping)) (by decide +kernel) ?_
    intro s hp a s' ha hstep
    obtain ⟨hpc, hfunc⟩ := of_decide_eq_true hp
    cases moves_of_step hstep <;> simp_all [starting]
  · show startRun[m]? ≠ some .spuriousWakeup
    rw [List.getElem?_eq_none_iff.mpr hm]
    simp
  · exact .inl (by decide +kernel)

/-! ## The destructor -/

/-- The owner is in the destructor, past `quit_ = true`. -/
def Quitted (s : EventLoopThread θ F) : Prop := s.pc = .waking ∨ s.pc = .joining ∨ s.pc = .joined

theorem Moves.keepsQuitted (h : s.Moves a s') (hs : s.Handshake) (hq : s.Quitted) : s'.Quitted := by
  have hwaits := hs.mutex
  cases h <;> simp_all [Quitted, Free]

theorem Moves.keepsEnd (h : s.Moves a s') (hpc : s.pc = .joining ∨ s.pc = .joined) :
    s'.pc = .joining ∨ s'.pc = .joined := by
  cases h <;> simp_all [Free]

/-- A step of the destructor or of `threadFunc` is none of the loop, and the other way round. -/
theorem Moves.keepsLost (h : s.Moves a s') (hs : s.Component) (hq : s.Quitted)
    (halone : ∀ t, a ≠ .loop (.quit t)) (hlost : s.eventLoop.Lost) : s'.eventLoop.Lost := by
  cases ha : s.loopAction a with
  | none =>
      rw [h.eventLoop_eq ha]
      exact hlost
  | some b =>
      have hstep := hs.step h ha
      refine (SharedLoop.moves_exec hstep.1 hstep.2).keepsLost (fun t hb => ?_) hlost
      subst hb
      cases h with
      | quit hpc => rcases hq with heq | heq | heq <;> rw [hpc] at heq <;> cases heq
      | wakeup => cases ha
      | loop => exact halone t (congrArg ThreadAction.loop (Option.some.inj ha))
      | _ => cases ha

theorem Moves.returned_kept (h : s.Moves a s') (hs : s.Component)
    (hpc : s.eventLoop.pc = .returned) : s'.eventLoop.pc = .returned := by
  cases ha : s.loopAction a with
  | none => rw [h.eventLoop_eq ha, hpc]
  | some b =>
      have hstep := hs.step h ha
      exact (SharedLoop.moves_exec hstep.1 hstep.2).returned_kept hpc

/-- Steps that end `threadFunc` and the destructor, once `loop()` has returned. -/
def ending : ThreadAction θ F → Bool
  | .finish | .join => true
  | _ => false

theorem ending_possible (hr : (system (θ := θ) (F := F)).Reachable s) (hpc : s.pc = .joining)
    (hreturned : s.eventLoop.pc = .returned) : ∃ a s', ending a = true ∧ system.Step s a s' := by
  by_cases hfin : s.func = .finished
  · exact ⟨.join, _, rfl, ⟨hpc, hfin⟩, rfl⟩
  · have hloop : s.func = .looping := by
      by_contra hloop
      have hout := (component_of_reachable hr).before hloop hfin
      rw [hreturned] at hout
      cases hout
    have hlooping : s.eventLoop.looping = false := by
      refine Bool.eq_false_iff.mpr fun hl => ?_
      exact ((SharedLoop.looping_of_reachable (eventLoop_reachable hr)).mp hl).2 hreturned
    exact ⟨.finish, { s with func := .finished }, rfl, ⟨hloop, hreturned⟩,
      bind_eq_ok.mpr ⟨(), check_eq_ok.mpr hlooping, rfl⟩⟩

/-- The steps that are left until `join` can return. -/
def toFinish (s : EventLoopThread θ F) : ℕ := if s.func = .finished then 0 else 1

theorem Moves.keepsJoining (h : s.Moves a s') (hs : s.Component) (hpc : s.pc = .joining)
    (hreturned : s.eventLoop.pc = .returned) :
    (s'.pc = .joining ∧ s'.eventLoop.pc = .returned) ∧ s'.toFinish ≤ s.toFinish ∧
      (ending a = true → s'.toFinish < s.toFinish) ∨ s'.pc = .joined := by
  have hkept := h.returned_kept hs hreturned
  have hbefore := hs.before
  cases h <;> simp_all [toFinish, ending, Free]

/-- The loop returns if it is asked to in time. -/
theorem returns_of_quit {run : (system (θ := θ) (F := F)).InfiniteRun}
    (hloop : run.Recurs (fun a => ∃ b, a = .loop b ∧ b.own = true) fun s => s.eventLoop.pc = .returned)
    {n : ℕ} (hquit : (run.state n).eventLoop.quit = true)
    (hin : (run.state n).eventLoop.pc ≠ .outside ∧ (run.state n).eventLoop.pc ≠ .entered) :
    ∃ m, n ≤ m ∧ (run.state m).eventLoop.pc = .returned := by
  have hq : ((loopRun run).state n).Quitting := .of_pc hquit hin
  refine hq.returns fun n => ?_
  obtain ⟨m, hle, hm⟩ := hloop n
  refine ⟨m, hle, hm.imp_right ?_⟩
  rintro ⟨_, ha, b, rfl, hown⟩
  exact ⟨b, Option.bind_eq_some_iff.mpr ⟨_, ha, rfl⟩, hown⟩

/-- The loop that was asked too early does not return. -/
theorem not_returned_of_lost {run : (system (θ := θ) (F := F)).InfiniteRun}
    (halone : ∀ m t, run.action m ≠ some (.loop (.quit t))) {n m : ℕ}
    (hq : (run.state n).Quitted) (hlost : (run.state n).eventLoop.Lost) (hm : n ≤ m) :
    (run.state m).eventLoop.pc ≠ .returned := by
  have hkept := StepSystem.InfiniteRun.keeps (M := system (θ := θ) (F := F))
    (I := fun s => s.Quitted ∧ s.eventLoop.Lost)
    (fun m a _ ha hs => ?_) ⟨hq, hlost⟩ hm
  · intro hpc
    rcases hkept.2 with h | h | h
    · rw [hpc] at h
      cases h
    · rw [hpc] at h
      cases h
    · exact h.2 hpc
  · have hmove := moves_of_step (run.step m a ha)
    have hr := run.reachable m
    exact ⟨hmove.keepsQuitted (handshake_of_reachable hr) hs.1,
      hmove.keepsLost (component_of_reachable hr) hs.1 (fun t heq => halone m t (heq ▸ ha)) hs.2⟩

/-- Once the loop has returned, `join` does. -/
theorem joined_of_returned {run : (system (θ := θ) (F := F)).InfiniteRun}
    (hend : run.Fair fun a => ending a = true) {n : ℕ} (hpc : (run.state n).pc = .joining)
    (hreturned : (run.state n).eventLoop.pc = .returned) :
    ∃ m, n ≤ m ∧ (run.state m).pc = .joined := by
  have hstep := fun m a ha (h : (run.state m).pc = .joining ∧ _) =>
    (moves_of_step (run.step m a ha)).keepsJoining (component_of_reachable (run.reachable m)) h.1 h.2
  exact StepSystem.InfiniteRun.eventually_of_fair (r := toFinish)
    (I := fun s => s.pc = .joining ∧ s.eventLoop.pc = .returned) (G := fun s => s.pc = .joined) hend
    (fun m _ h _ => ending_possible (run.reachable m) h.1 h.2)
    (fun m a _ ha h _ => (hstep m a ha h).imp_left fun h => ⟨h.1, h.2.1⟩)
    (fun m a _ ha hhelp h _ => (hstep m a ha h).imp_left fun h => h.2.2 hhelp) ⟨hpc, hreturned⟩

theorem Moves.of_quit (h : s.Moves .quit s') :
    s'.Quitted ∧ s'.eventLoop.quit = true ∧ s'.eventLoop.pc = s.eventLoop.pc := by
  cases h with
  | quit _ _ _ hl =>
      cases hl
      exact ⟨.inl rfl, rfl, rfl⟩

/-- **When the destructor returns.** Where nobody else asks the loop to quit and its thread goes on, the
`join` of a destructor returns if and only if `loop()` had cleared `quit_` when the destructor set it;
`startLoop` does not wait for that. -/
theorem join_returns_iff (run : (system (θ := θ) (F := F)).InfiniteRun)
    (hloop : run.Recurs (fun a => ∃ b, a = .loop b ∧ b.own = true) fun s => s.eventLoop.pc = .returned)
    (hend : run.Fair fun a => ending a = true)
    (halone : ∀ m t, run.action m ≠ some (.loop (.quit t))) {n k : ℕ}
    (hquit : run.action n = some .quit) (hk : n < k) (hjoin : (run.state k).pc = .joining) :
    (∃ m, n < m ∧ (run.state m).pc = .joined) ↔
      (run.state n).eventLoop.pc ≠ .outside ∧ (run.state n).eventLoop.pc ≠ .entered := by
  obtain ⟨hq, hset, hsame⟩ := (moves_of_step (run.step n _ hquit)).of_quit
  constructor
  · rintro ⟨m, hm, hjoined⟩
    have hr := run.reachable m
    have hreturned := (component_of_reachable hr).finished ((handshake_of_reachable hr).joined hjoined)
    by_contra hearly
    refine not_returned_of_lost halone hq ?_ hm hreturned
    rw [not_and_or, not_not, not_not, ← hsame] at hearly
    exact hearly.imp_right .inl
  · intro hin
    obtain ⟨m, hm, hreturned⟩ := returns_of_quit hloop hset (by rwa [hsame])
    -- by then the destructor may have got to `join`, or past it
    have hin : (run.state (max k m)).pc = .joining ∨ (run.state (max k m)).pc = .joined :=
      StepSystem.InfiniteRun.keeps (M := system (θ := θ) (F := F)) (n := k)
        (I := fun s => s.pc = .joining ∨ s.pc = .joined)
        (fun i a _ ha hpc => (moves_of_step (run.step i a ha)).keepsEnd hpc) (.inl hjoin)
        (le_max_left _ _)
    have hlate : (run.state (max k m)).eventLoop.pc = .returned :=
      StepSystem.InfiniteRun.keeps (M := system (θ := θ) (F := F)) (n := m)
        (I := fun s => s.eventLoop.pc = .returned)
        (fun i a _ ha hpc => (moves_of_step (run.step i a ha)).returned_kept
          (component_of_reachable (run.reachable i)) hpc) hreturned (le_max_right _ _)
    rcases hin with hpc | hpc
    · obtain ⟨m', hm', hjoined⟩ := joined_of_returned hend hpc hlate
      exact ⟨m', by omega, hjoined⟩
    · exact ⟨max k m, by omega, hpc⟩

/-- The owner starts the thread and, when the loop is polling, destroys it. -/
def destroyRun : List (ThreadAction Bool ℕ) :=
  startRun ++ [.loop .loop, .loop .clearQuit, .loop .testQuit, .destroy, .quit, .wakeup,
    .loop (.poll [.wakeup]), .loop .nextChannel, .loop .nextChannel, .loop .swap, .loop .nextFunctor,
    .loop .testQuit, .finish, .join]

def destroyed : (system (θ := Bool) (F := ℕ)).InfiniteRun :=
  .ofActions (new false true) ⟨false, true, by decide, rfl⟩ destroyRun (by decide +kernel)

theorem join_returns_iff_destroyed :
    (∃ m, 18 < m ∧ (destroyed.state m).pc = .joined) ↔
      (destroyed.state 18).eventLoop.pc ≠ .outside ∧ (destroyed.state 18).eventLoop.pc ≠ .entered := by
  have hstop : (StepSystem.runFrom? system (fun _ _ => True) (new false true) destroyRun).map
      (fun s => decide (s.pc = .joined ∧ s.func = .finished ∧ s.eventLoop.pc = .returned)) =
        some true := by
    decide +kernel
  refine join_returns_iff destroyed (k := 20) ?_ ?_ (fun m t ht => ?_) rfl (by decide)
    (by decide +kernel)
  · exact StepSystem.InfiniteRun.recurs_ofActions hstop fun s hp => (of_decide_eq_true hp).2.2
  · refine StepSystem.InfiniteRun.fair_ofActions hstop fun s hp a s' ha hstep => ?_
    obtain ⟨hpc, hfunc, -⟩ := of_decide_eq_true hp
    cases moves_of_step hstep <;> simp_all [ending]
  · have hmem : .loop (.quit t) ∈ destroyRun := List.mem_of_getElem? ht
    simp [destroyRun, startRun] at hmem

/-! ## What can go wrong -/

/-- A second `startLoop`, a destructor where `startLoop` was never called, or a call of the loop after it
was asked to quit and `threadFunc` has ended. -/
def Faulty (s : EventLoopThread θ F) (a : ThreadAction θ F) (e : ThreadFault) : Prop :=
  e = .started ∧ a = .startLoop ∧ s.returned = some true ∨
  e = .null ∧ a = .quit ∧ s.started = false ∨
  e = .dangling ∧ s.func = .finished ∧ s.eventLoop.quitIssued = true ∧
    (a = .quit ∨ a = .wakeup ∨ ∃ b t, a = .loop b ∧ b.caller = some t)

theorem dangling_of_reachable (hr : (system (θ := θ) (F := F)).Reachable s)
    (ha : a = .quit ∨ a = .wakeup ∨ ∃ b t, a = .loop b ∧ b.caller = some t) :
    FailsWith (s.Faulty a) (check (s.func ≠ .finished) .dangling) := by
  refine failsWith_check_of_neg fun hfin => .inr (.inr ⟨rfl, not_not.mp hfin, ?_, ha⟩)
  have hpc := (component_of_reachable hr).finished (not_not.mp hfin)
  exact (SharedLoop.quitIssued_of_reachable (eventLoop_reachable hr)).2 hpc

theorem failsWith_exec (hr : (system (θ := θ) (F := F)).Reachable s) {b : LoopAction θ F}
    (hen : s.eventLoop.enabled b) : FailsWith (s.Faulty a) ((s.eventLoop.exec b).mapError .loop) :=
  FailsWith.mapError fun e he =>
    absurd he (SharedLoop.exec_ne_error (eventLoop_reachable hr) hen e)

/-- **The faults of an `EventLoopThread`.** Nothing goes wrong while it starts, and the assertions of the
loop hold. -/
theorem fault_of_reachable {e : ThreadFault} (hr : (system (θ := θ) (F := F)).Reachable s)
    (hen : s.enabled a) (hex : s.exec a = .error e) : s.Faulty a e := by
  have hh := handshake_of_reachable hr
  have hc := component_of_reachable hr
  have hfails : FailsWith (s.Faulty a) (s.exec a) := by
    cases a with
    | startLoop =>
        refine (failsWith_check_of_neg fun hstarted => .inl ⟨rfl, rfl, ?_⟩).bind fun _ _ =>
          failsWith_pure _
        rcases hh.completed (Bool.not_eq_false _ ▸ hstarted) with hin | hret
        · rcases hin with h | h | h | h <;> rw [hen.1] at h <;> cases h
        · exact hret
    | quit =>
        have hpc : s.pc = .quitting := hen
        have hcan : s.eventLoop.enabled (.quit s.owner) :=
          ⟨hc.idle (by simp [hpc]) (by simp [hpc]), fun ht => absurd ht hc.threads⟩
        refine (failsWith_check_of_neg fun hnull => .inr (.inl ⟨rfl, rfl, ?_⟩)).bind fun _ _ =>
          (dangling_of_reachable hr (.inl rfl)).bind fun _ _ =>
            (failsWith_exec hr hcan).bind fun _ _ => failsWith_pure _
        refine Bool.eq_false_iff.mpr fun hstarted => ?_
        rcases hh.completed hstarted with hin | hret
        · rcases hin with h | h | h | h <;> rw [hpc] at h <;> cases h
        · exact hnull (hh.returned _ hret).2
    | wakeup =>
        have hcan : s.eventLoop.enabled (.endCall s.owner) := by
          show (s.eventLoop.calls s.owner).isSome = true
          rw [hc.waking hen]
          rfl
        exact (dangling_of_reachable hr (.inr (.inl rfl))).bind fun _ _ =>
          (failsWith_exec hr hcan).bind fun _ _ => failsWith_pure _
    | finish =>
        refine (failsWith_check_of_neg fun hlooping => absurd ?_ hlooping).bind fun _ _ =>
          failsWith_pure _
        refine Bool.eq_false_iff.mpr fun hl => ?_
        exact ((SharedLoop.looping_of_reachable (eventLoop_reachable hr)).mp hl).2 hen.2
    | loop b =>
        cases hcaller : b.caller with
        | none =>
            have hadm := hen.2
            rw [hcaller] at hadm
            have hfunc : s.func = .looping := hadm
            refine (failsWith_check_of_neg fun hfin => ?_).bind fun _ _ =>
              (failsWith_exec hr hen.1).bind fun _ _ => failsWith_pure _
            rw [not_not.mp hfin] at hfunc
            cases hfunc
        | some t =>
            exact (dangling_of_reachable hr (.inr (.inr ⟨b, t, rfl, hcaller⟩))).bind fun _ _ =>
              (failsWith_exec hr hen.1).bind fun _ _ => failsWith_pure _
    | _ => exact failsWith_pure _
  exact hfails e hex

/-- The destructor sets `quit_`, the loop returns, and `loop_->quit()` goes on to wake it up. -/
def danglingRun : List (ThreadAction Bool ℕ) :=
  startRun ++ [.loop .loop, .loop .clearQuit, .destroy, .quit, .loop .testQuit, .finish]

theorem fault_of_reachable_danglingRun :
    ∃ s : EventLoopThread Bool ℕ, s.exec .wakeup = .error .dangling ∧ s.func = .finished ∧
      s.eventLoop.quitIssued = true := by
  obtain ⟨s, hs, htest⟩ := StepSystem.exists_reachableVia_of_runFrom? (M := system)
    (fun _ _ => True) danglingRun (s := new false true)
    (p := fun s => decide (s.enabled .wakeup ∧ faultOf (s.exec .wakeup) = some .dangling))
    ⟨false, true, by decide, rfl⟩ (by decide +kernel)
  obtain ⟨hen, hfault⟩ := of_decide_eq_true htest
  have hex := faultOf_eq_some.mp hfault
  rcases fault_of_reachable hs hen hex with ⟨h, -⟩ | ⟨h, -⟩ | ⟨-, hfin, hquit, -⟩
  · cases h
  · cases h
  · exact ⟨s, hex, hfin, hquit⟩

end EventLoopThread

end MiniMuduo
