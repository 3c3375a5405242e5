import MiniMuduo.Lib.Fallible
import MiniMuduo.Lib.StepSystem
import Mathlib.Algebra.Group.Nat.Defs
import Mathlib.Logic.Function.Basic

/-!
# `EventLoop` between its threads

The part of an `EventLoop` that more than one thread works on: the functors it is asked to call, the
request to quit, and the eventfd that wakes it up. Threads and functors are of any type.

The steps are those between which another thread may come in: the locked `push_back` and the locked
`swap`, a store to or a test of `quit_`, a write to and a read of the eventfd, `poll`. So
`queueInLoop` and `quit` are two steps each, the second being the one that may call `wakeup`, and a
thread in between has a `LoopCall`.

Event handlers and functors are not modelled, only the calls they make; `cb()` in `runInLoop` is a
step that leaves the rest of `cb` to the steps that follow.
-/

namespace MiniMuduo

open Fallible

/-- Where the loop thread is. -/
inductive LoopPc where
  /-- Before `loop()`. -/
  | outside
  /-- In `loop()`, before `quit_ = false`. -/
  | entered
  /-- At `while (!quit_)`. -/
  | testing
  /-- Blocked in `poll`. -/
  | polling
  /-- Before the next active channel, and in the handler of one. -/
  | dispatching
  | handling
  /-- In `doPendingFunctors`: before the `swap`, before the next functor, and in one. -/
  | swapping
  | running
  | calling
  | returned
  deriving DecidableEq

/-- Where code that is not part of the loop runs in the loop thread. -/
def LoopPc.InUserCode (pc : LoopPc) : Prop := pc = .outside ∨ pc = .handling ∨ pc = .calling

instance (pc : LoopPc) : Decidable pc.InUserCode := inferInstanceAs (Decidable (_ ∨ _))

/-- The calls that are not finished after their first step. -/
inductive LoopCall where
  | queueInLoop
  | quit
  deriving DecidableEq

/-- What `poll` can report: the eventfd, or anything else. -/
inductive ActiveChannel where
  | wakeup
  | other
  deriving DecidableEq

inductive LoopFault where
  /-- `assert(!looping_)`. -/
  | looping
  deriving DecidableEq

structure SharedLoop (θ F : Type) where
  looping : Bool
  quit : Bool
  callingPendingFunctors : Bool
  threadId : θ
  /-- The counter of the eventfd. -/
  wakeupFd : ℕ
  /-- `activeChannels_`, from the one whose turn it is. -/
  activeChannels : List ActiveChannel
  pendingFunctors : List F
  /-- `functors` of `doPendingFunctors`, from the one whose turn it is. -/
  functors : List F
  pc : LoopPc
  calls : θ → Option LoopCall
  /-- What was ever queued, and what was called. -/
  queued : List F
  called : List F
  /-- Whether `quit()` has stored to `quit_`. -/
  quitIssued : Bool

inductive LoopAction (θ F : Type) where
  | queueInLoop (t : θ) (cb : F)
  | runInLoop (t : θ) (cb : F)
  | quit (t : θ)
  /-- The second step of `queueInLoop` or `quit`. -/
  | endCall (t : θ)
  | loop
  /-- `quit_ = false`. -/
  | clearQuit
  | testQuit
  | poll (active : List ActiveChannel)
  | nextChannel
  | endHandler
  | swap
  | nextFunctor
  | endFunctor

namespace SharedLoop

variable {θ F : Type} [DecidableEq θ]

/-- `EventLoop::EventLoop()` in the thread `t`. -/
def new (t : θ) : SharedLoop θ F where
  looping := false
  quit := false
  callingPendingFunctors := false
  threadId := t
  wakeupFd := 0
  activeChannels := []
  pendingFunctors := []
  functors := []
  pc := .outside
  calls := fun _ => none
  queued := []
  called := []
  quitIssued := false

def isInLoopThread (s : SharedLoop θ F) (t : θ) : Prop := t = s.threadId

instance (s : SharedLoop θ F) (t : θ) : Decidable (s.isInLoopThread t) :=
  inferInstanceAs (Decidable (_ = _))

/-- `wakeup`: the write of `1` fails when the counter is at its maximum. -/
def wakeup (s : SharedLoop θ F) : SharedLoop θ F :=
  if s.wakeupFd + 1 < 2 ^ 64 - 1 then { s with wakeupFd := s.wakeupFd + 1 } else s

/-- `handleRead`: a read answers the whole counter. -/
def handleRead (s : SharedLoop θ F) : SharedLoop θ F := { s with wakeupFd := 0 }

/-- The locked block of `queueInLoop`. -/
def queueInLoop (s : SharedLoop θ F) (t : θ) (cb : F) : SharedLoop θ F :=
  { s with
    pendingFunctors := s.pendingFunctors ++ [cb]
    calls := Function.update s.calls t (some .queueInLoop)
    queued := s.queued ++ [cb] }

def runInLoop (s : SharedLoop θ F) (t : θ) (cb : F) : SharedLoop θ F :=
  if s.isInLoopThread t then s else s.queueInLoop t cb

/-- The rest of `queueInLoop` and of `quit`. -/
def endCall (s : SharedLoop θ F) (t : θ) : SharedLoop θ F :=
  let s' := { s with calls := Function.update s.calls t none }
  match s.calls t with
  | none => s
  | some .queueInLoop =>
      if ¬ s.isInLoopThread t ∨ s.callingPendingFunctors then s'.wakeup else s'
  | some .quit => if ¬ s.isInLoopThread t then s'.wakeup else s'

/-- The turn of the next active channel, or `doPendingFunctors` up to its lock. -/
def nextChannel (s : SharedLoop θ F) : SharedLoop θ F :=
  match s.activeChannels with
  | [] => { s with callingPendingFunctors := true, pc := .swapping }
  | .wakeup :: cs => { s with activeChannels := cs }.handleRead
  | .other :: cs => { s with activeChannels := cs, pc := .handling }

/-- The locked block of `doPendingFunctors`. -/
def swap (s : SharedLoop θ F) : SharedLoop θ F :=
  { s with
    functors := s.pendingFunctors
    pendingFunctors := []
    pc := .running }

/-- The turn of the next functor, or the end of `doPendingFunctors`. -/
def nextFunctor (s : SharedLoop θ F) : SharedLoop θ F :=
  match s.functors with
  | [] => { s with callingPendingFunctors := false, pc := .testing }
  | f :: fs => { s with functors := fs, pc := .calling, called := s.called ++ [f] }

/-! ## Runs -/

/-- The thread can call the loop: it is not in a call already, and the loop thread is in user code. -/
def CanCall (s : SharedLoop θ F) (t : θ) : Prop :=
  s.calls t = none ∧ (s.isInLoopThread t → s.pc.InUserCode)

instance (s : SharedLoop θ F) (t : θ) : Decidable (s.CanCall t) :=
  inferInstanceAs (Decidable (_ ∧ _))

/-- The loop thread is at `pc` and not in a call. -/
def At (s : SharedLoop θ F) (pc : LoopPc) : Prop := s.pc = pc ∧ s.calls s.threadId = none

instance (s : SharedLoop θ F) (pc : LoopPc) : Decidable (s.At pc) :=
  inferInstanceAs (Decidable (_ ∧ _))

/-- `poll` reports the eventfd only when it can be read. It may also report less than there is. -/
def enabled (s : SharedLoop θ F) : LoopAction θ F → Prop
  | .queueInLoop t _ | .runInLoop t _ | .quit t => s.CanCall t
  | .endCall t => (s.calls t).isSome
  | .loop => s.At .outside
  | .clearQuit => s.At .entered
  | .testQuit => s.At .testing
  | .poll active => s.At .polling ∧ (.wakeup ∈ active → 0 < s.wakeupFd)
  | .nextChannel => s.At .dispatching
  | .endHandler => s.At .handling
  | .swap => s.At .swapping
  | .nextFunctor => s.At .running
  | .endFunctor => s.At .calling

instance (s : SharedLoop θ F) (a : LoopAction θ F) : Decidable (s.enabled a) := by
  cases a <;> unfold enabled <;> infer_instance

def exec (s : SharedLoop θ F) : LoopAction θ F → Except LoopFault (SharedLoop θ F)
  | .queueInLoop t cb => return s.queueInLoop t cb
  | .runInLoop t cb => return s.runInLoop t cb
  | .quit t => return { s with
      quit := true, calls := Function.update s.calls t (some .quit), quitIssued := true }
  | .endCall t => return s.endCall t
  | .loop => do
      check (s.looping = false) .looping
      return { s with looping := true, pc := .entered }
  | .clearQuit => return { s with quit := false, pc := .testing }
  | .testQuit =>
      if s.quit then return { s with looping := false, pc := .returned }
      else return { s with activeChannels := [], pc := .polling }
  | .poll active => return { s with activeChannels := active, pc := .dispatching }
  | .nextChannel => return s.nextChannel
  | .endHandler => return { s with pc := .dispatching }
  | .swap => return s.swap
  | .nextFunctor => return s.nextFunctor
  | .endFunctor => return { s with pc := .running }

/-- All runs of a loop from its construction on. -/
def system : StepSystem (SharedLoop θ F) (LoopAction θ F) LoopFault where
  init := fun s => ∃ t, s = new t
  enabled := enabled
  exec := exec

/-- `loop()` was just called, with nothing to call yet. Other threads may be anywhere, `quit_` and
the eventfd may have any value. -/
structure JustEntered (s : SharedLoop θ F) : Prop where
  looping : s.looping = true
  calling : s.callingPendingFunctors = false
  pending : s.pendingFunctors = []
  functors : s.functors = []
  pc : s.At .entered
  history : s.queued = [] ∧ s.called = []

/-- All runs of `loop()`. -/
def loopSystem : StepSystem (SharedLoop θ F) (LoopAction θ F) LoopFault where
  init := JustEntered
  enabled := enabled
  exec := exec

instance (s : SharedLoop θ F) (a : LoopAction θ F) : Decidable (system.enabled s a) :=
  inferInstanceAs (Decidable (s.enabled a))

instance (s : SharedLoop θ F) (a : LoopAction θ F) : Decidable (loopSystem.enabled s a) :=
  inferInstanceAs (Decidable (s.enabled a))

end SharedLoop

end MiniMuduo
