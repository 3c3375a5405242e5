import Mathlib.Data.Prod.Lex
import Mathlib.Order.Lattice.Nat
import MiniMuduo.Lib.InfiniteRun
import MiniMuduo.Net.Wakeup

/-!
# What a loop gets done

The thread of a loop goes around: `testing`, `polling`, the active channels, the `swap`, the batch. If
it never stops for good (handlers and functors return, and `poll` does, at the latest after its
timeout), then

* a functor that was queued is called (`functor_called`), unless the loop returns before;
* a loop that finds `quit_` set returns (`loop_returns`).

Other threads may queue and ask at any time, and as often as they like; what they queue during a batch
is not in it, so it does not hold the loop up. Both follow from one description of a step of the loop's
own thread (`Moves.own`): it goes on with what it is at, or to the next place.
-/

namespace MiniMuduo

/-- Where the loop is on its way around. -/
inductive LoopStage where
  | outside
  | entered
  | testing
  | polling
  | dispatching
  | swapping
  | running
  | returned
  deriving DecidableEq

def LoopPc.stage : LoopPc → LoopStage
  | .outside => .outside
  | .entered => .entered
  | .testing => .testing
  | .polling => .polling
  | .dispatching | .handling => .dispatching
  | .swapping => .swapping
  | .running | .calling => .running
  | .returned => .returned

/-- The way around. From `testing` it can also lead out. -/
def LoopStage.next : LoopStage → LoopStage
  | .outside => .entered
  | .entered => .testing
  | .testing => .polling
  | .polling => .dispatching
  | .dispatching => .swapping
  | .swapping => .running
  | .running => .testing
  | .returned => .returned

/-- The places on the way to the next test of `quit_`. -/
def LoopStage.toTest : LoopStage → ℕ
  | .testing => 0
  | .running => 1
  | .swapping => 2
  | .dispatching => 3
  | .polling => 4
  | .outside | .entered | .returned => 5

/-- The places on the way to the next batch. -/
def LoopStage.toBatch : LoopStage → ℕ
  | .swapping => 1
  | .dispatching => 2
  | .polling => 3
  | .testing => 4
  | .running => 5
  | .entered => 6
  | .outside => 7
  | .returned => 8

/-- The thread that takes a step, if it is a call. -/
def LoopAction.caller {θ F : Type} : LoopAction θ F → Option θ
  | .queueInLoop t _ | .runInLoop t _ | .quit t | .endCall t => some t
  | _ => none

/-- Steps of the loop's own thread, calls apart. -/
def LoopAction.own {θ F : Type} (a : LoopAction θ F) : Bool := a.caller.isNone

namespace SharedLoop

variable {θ F : Type} [DecidableEq θ] {s s' : SharedLoop θ F} {a : LoopAction θ F}

/-- What is left to do at the place where the loop is. -/
def left (s : SharedLoop θ F) : ℕ :=
  match s.pc with
  | .dispatching => 2 * s.activeChannels.length
  | .handling => 2 * s.activeChannels.length + 1
  | .running => 2 * s.functors.length
  | .calling => 2 * s.functors.length + 1
  | _ => 0

/-- What a step of the loop's own thread comes to. -/
inductive GoesOn (s s' : SharedLoop θ F) : Prop where
  /-- Less is left to do at the same place. -/
  | on (hstage : s'.pc.stage = s.pc.stage) (hleft : s'.left < s.left)
      (hbatch : s'.called ++ s'.functors = s.called ++ s.functors)
  /-- The batch is taken. -/
  | taken (hstage : s.pc.stage = .swapping) (heq : s' = s.swap)
  /-- The next place. -/
  | next (hstage : s.pc.stage ≠ .returned ∧ s.pc.stage ≠ .swapping)
      (hnext : s'.pc.stage = s.pc.stage.next) (hquit : s.pc.stage = .testing → s.quit = false)
      (hbatch : s'.called = s.called ∧ s'.functors = s.functors)
      (hdone : s.pc.stage = .running → s.functors = [])
  | leaves (h : s'.pc = .returned)

omit [DecidableEq θ] in
theorem GoesOn.of_pc {pc pc' : LoopPc} (hpc : s.pc = pc) (hpc' : s'.pc = pc')
    (hnext : pc'.stage = pc.stage.next) (hne : pc.stage ≠ .returned ∧ pc.stage ≠ .swapping)
    (hbatch : s'.called = s.called ∧ s'.functors = s.functors)
    (hquit : pc = .testing → s.quit = false) (hdone : pc = .running ∨ pc = .calling → s.functors = []) :
    s.GoesOn s' := by
  subst hpc hpc'
  refine .next hne hnext (fun h => hquit ?_) hbatch fun h => hdone ?_
  · revert h
    cases s.pc <;> simp [LoopPc.stage]
  · revert h
    cases s.pc <;> simp [LoopPc.stage]

/-- **A step of the loop's own thread.** -/
theorem goesOn (hen : s.enabled a) (hex : s.exec a = .ok s') (ha : a.own = true) : s.GoesOn s' := by
  cases a with
  | queueInLoop | runInLoop | quit | endCall => cases ha
  | loop =>
      obtain ⟨-, -, hex⟩ := Fallible.bind_eq_ok.mp hex
      cases hex
      exact .of_pc (hen.1) rfl rfl (by decide) ⟨rfl, rfl⟩ (by simp) (by simp)
  | clearQuit =>
      cases hex
      exact .of_pc (hen.1) rfl rfl (by decide) ⟨rfl, rfl⟩ (by simp) (by simp)
  | testQuit =>
      simp only [exec] at hex
      split at hex
      · cases hex
        exact .leaves rfl
      · next hquit =>
          cases hex
          exact .of_pc (hen.1) rfl rfl (by decide) ⟨rfl, rfl⟩
            (fun _ => Bool.eq_false_iff.mpr hquit) (by simp)
  | poll active =>
      cases hex
      exact .of_pc hen.1.1 rfl rfl (by decide) ⟨rfl, rfl⟩ (by simp) (by simp)
  | nextChannel =>
      cases hex
      have hpc : s.pc = .dispatching := hen.1
      cases hactive : s.activeChannels with
      | nil =>
          have heq : s.nextChannel = { s with callingPendingFunctors := true, pc := .swapping } := by
            simp only [SharedLoop.nextChannel, hactive]
          rw [heq]
          exact .of_pc hpc rfl rfl (by decide) ⟨rfl, rfl⟩ (by simp) (by simp)
      | cons c cs =>
          have hleft : s.left = 2 * (cs.length + 1) := by simp [left, hpc, hactive]
          cases c with
          | wakeup =>
              have heq : s.nextChannel = { s with activeChannels := cs }.handleRead := by
                simp only [SharedLoop.nextChannel, hactive]
              rw [heq]
              refine .on rfl ?_ rfl
              rw [hleft]
              simp [left, handleRead, hpc]
          | other =>
              have heq : s.nextChannel = { s with activeChannels := cs, pc := .handling } := by
                simp only [SharedLoop.nextChannel, hactive]
              rw [heq]
              refine .on (by rw [hpc]; rfl) ?_ rfl
              rw [hleft]
              simp only [left]
              omega
  | endHandler =>
      cases hex
      have hpc : s.pc = .handling := hen.1
      exact .on (by rw [hpc]; rfl) (by simp [left, hpc]) rfl
  | swap =>
      cases hex
      exact .taken (by rw [hen.1]; rfl) rfl
  | nextFunctor =>
      cases hex
      have hpc : s.pc = .running := hen.1
      cases hfunctors : s.functors with
      | nil =>
          have heq : s.nextFunctor = { s with callingPendingFunctors := false, pc := .testing } := by
            simp only [SharedLoop.nextFunctor, hfunctors]
          rw [heq]
          exact .of_pc hpc rfl rfl (by decide) ⟨rfl, rfl⟩ (by simp) fun _ => hfunctors
      | cons f fs =>
          have heq : s.nextFunctor =
              { s with functors := fs, pc := .calling, called := s.called ++ [f] } := by
            simp only [SharedLoop.nextFunctor, hfunctors]
          rw [heq]
          refine .on (by rw [hpc]; rfl) ?_ ?_
          · simp only [left, hpc, hfunctors, List.length_cons]
            omega
          · rw [hfunctors, List.append_assoc]
            rfl
  | endFunctor =>
      cases hex
      have hpc : s.pc = .calling := hen.1
      exact .on (by rw [hpc]; rfl) (by simp [left, hpc]) rfl

/-- A call changes neither the place of the loop nor what is left to do there. -/
theorem Moves.call_keeps (h : s.Moves a s') (ha : a.own = false) :
    s'.pc = s.pc ∧ s'.left = s.left ∧ s'.called = s.called ∧ s'.functors = s.functors ∧
      (s.quit = true → s'.quit = true) := by
  cases h with
  | call => exact ⟨rfl, rfl, rfl, rfl, id⟩
  | queue => exact ⟨rfl, rfl, rfl, rfl, id⟩
  | quit => exact ⟨rfl, rfl, rfl, rfl, fun _ => rfl⟩
  | endCall => exact ⟨rfl, rfl, rfl, rfl, id⟩
  | _ => cases ha

theorem Moves.threadId_eq (h : s.Moves a s') : s'.threadId = s.threadId := by
  cases h <;> rfl

/-- A step leaves alone the calls of those who do not take it. -/
theorem Moves.calls_of_ne {t : θ} (h : s.Moves a s') (ht : a.caller ≠ some t) :
    s'.calls t = s.calls t := by
  cases h with
  | queue _ ha =>
      obtain rfl | ⟨rfl, -⟩ := ha <;>
        exact Function.update_of_ne (fun heq => ht (congrArg some heq.symm)) _ _
  | quit => exact Function.update_of_ne (fun heq => ht (congrArg some heq.symm)) _ _
  | endCall => exact Function.update_of_ne (fun heq => ht (congrArg some heq.symm)) _ _
  | _ => rfl

theorem Moves.returned_kept (h : s.Moves a s') (hpc : s.pc = .returned) : s'.pc = .returned := by
  cases h <;> simp_all [At, SharedLoop.queueInLoop]

/-- What `loop()` was asked before it cleared `quit_` is lost: it does not return. -/
def Lost (s : SharedLoop θ F) : Prop :=
  s.pc = .outside ∨ s.pc = .entered ∨ s.quit = false ∧ s.pc ≠ .returned

theorem Moves.keepsLost (h : s.Moves a s') (hne : ∀ t, a ≠ .quit t) (hs : s.Lost) : s'.Lost := by
  rcases hs with hpc | hpc | hs
  · cases h <;> simp_all [Lost, At, SharedLoop.queueInLoop]
  · cases h <;> simp_all [Lost, At, SharedLoop.queueInLoop]
  · exact .inr (.inr (h.not_returned hne hs))

theorem looping_of_reachable (h : (system (θ := θ) (F := F)).Reachable s) :
    s.looping = true ↔ s.pc ≠ .outside ∧ s.pc ≠ .returned := by
  refine h.invariant (I := fun s => s.looping = true ↔ s.pc ≠ .outside ∧ s.pc ≠ .returned) ?_
    fun s a s' _ hs _ hstep => ?_
  · rintro s ⟨t, rfl⟩
    simp [new]
  · cases moves_exec hstep.1 hstep.2 <;> simp_all [At, SharedLoop.queueInLoop, SharedLoop.swap]

theorem Moves.quit_kept (h : s.Moves a s') (hpc : s.pc ≠ .entered) (hquit : s.quit = true) :
    s'.quit = true := by
  cases h with
  | clearQuit hat => exact absurd hat.1 hpc
  | quit => rfl
  | _ => exact hquit

/-- `loop()` returns only when somebody has asked it to. -/
theorem quitIssued_of_reachable (h : (system (θ := θ) (F := F)).Reachable s) :
    (s.quit = true → s.quitIssued = true) ∧ (s.pc = .returned → s.quitIssued = true) := by
  refine h.invariant (I := fun s => (s.quit = true → s.quitIssued = true) ∧
    (s.pc = .returned → s.quitIssued = true)) ?_ fun s a s' _ hs _ hstep => ?_
  · rintro s ⟨t, rfl⟩
    simp [new]
  · cases moves_exec hstep.1 hstep.2 <;> simp_all [At, SharedLoop.queueInLoop, SharedLoop.swap]

/-- `assert(!looping_)` of `loop()` never fails, and nothing else can. -/
theorem exec_ne_error (h : (system (θ := θ) (F := F)).Reachable s) (hen : s.enabled a)
    (e : LoopFault) : s.exec a ≠ .error e := by
  cases a with
  | loop =>
      intro hex
      have hlooping : s.looping = false := by
        refine Bool.eq_false_iff.mpr fun hl => ?_
        exact ((looping_of_reachable h).mp hl).1 hen.1
      rw [SharedLoop.exec, Fallible.check_of_pos hlooping] at hex
      cases hex
  | testQuit =>
      simp only [SharedLoop.exec]
      split <;> simp
  | _ => simp [SharedLoop.exec]

/-! ## It returns when it is asked to -/

/-- `loop()` has found or will find that it is asked to quit. -/
structure Quitting (s : SharedLoop θ F) : Prop where
  quit : s.quit = true
  inside : s.pc.stage ≠ .outside ∧ s.pc.stage ≠ .entered

def toReturn (s : SharedLoop θ F) : ℕ ×ₗ ℕ := toLex (s.pc.stage.toTest, s.left)

theorem Quitting.step (h : s.Quitting) (hstep : system.Step s a s') :
    s'.Quitting ∧ s'.toReturn ≤ s.toReturn ∧ (a.own = true → s'.toReturn < s.toReturn) ∨
      s'.pc = .returned := by
  obtain ⟨hen, hex⟩ := hstep
  have hmove := moves_exec hen hex
  have hquit := hmove.quit_kept (fun hpc => h.inside.2 (by rw [hpc]; rfl)) h.quit
  cases ha : a.own with
  | false =>
      obtain ⟨hpc, hleft, -⟩ := hmove.call_keeps ha
      refine .inl ⟨⟨hquit, hpc ▸ h.inside⟩, le_of_eq ?_, by simp⟩
      rw [toReturn, toReturn, hpc, hleft]
  | true =>
      have hlower : ∀ {st}, st = s'.pc.stage → st ≠ .outside ∧ st ≠ .entered →
          s'.toReturn < s.toReturn → s'.Quitting ∧ s'.toReturn ≤ s.toReturn ∧
            (true = true → s'.toReturn < s.toReturn) ∨ s'.pc = .returned :=
        fun hst hin hlt => .inl ⟨⟨hquit, hst ▸ hin⟩, hlt.le, fun _ => hlt⟩
      rcases goesOn hen hex ha with ⟨hstage, hleft, -⟩ | ⟨hstage, rfl⟩ |
        ⟨⟨hne, hswap⟩, hnext, htest, -, -⟩ | hret
      · refine hlower hstage.symm h.inside (Prod.Lex.toLex_lt_toLex.mpr (.inr ⟨?_, hleft⟩))
        rw [hstage]
      · have hrun : s.swap.pc.stage = .running := rfl
        refine hlower hrun.symm (by decide) (Prod.Lex.toLex_lt_toLex.mpr (.inl ?_))
        show s.swap.pc.stage.toTest < s.pc.stage.toTest
        rw [hrun, hstage]
        exact Nat.lt_succ_self _
      · have htesting : s.pc.stage ≠ .testing := by
          intro heq
          rw [h.quit] at htest
          exact absurd (htest heq) (by decide)
        refine hlower hnext.symm ?_ (Prod.Lex.toLex_lt_toLex.mpr (.inl ?_))
        · have hin := h.inside
          revert hin
          cases s.pc.stage <;> simp [LoopStage.next]
        · show s'.pc.stage.toTest < s.pc.stage.toTest
          have hin := h.inside
          rw [hnext]
          revert hne hswap htesting hin
          cases s.pc.stage <;> simp [LoopStage.next, LoopStage.toTest]
      · exact .inr hret

omit [DecidableEq θ] in
theorem Quitting.of_pc (hquit : s.quit = true) (hin : s.pc ≠ .outside ∧ s.pc ≠ .entered) :
    s.Quitting := by
  refine ⟨hquit, ?_⟩
  revert hin
  cases s.pc <;> simp [LoopPc.stage]

theorem Quitting.returns {run : (system (θ := θ) (F := F)).InfiniteRun} {n : ℕ}
    (h : (run.state n).Quitting)
    (hfair : run.Recurs (fun a => a.own = true) fun s => s.pc = .returned) :
    ∃ m, n ≤ m ∧ (run.state m).pc = .returned :=
  StepSystem.InfiniteRun.eventually (I := Quitting) (r := toReturn) hfair
    (fun m a _ ha hs _ => (hs.step (run.step m a ha)).imp_left fun h => ⟨h.1, h.2.1⟩)
    (fun m a _ ha hown hs _ => (hs.step (run.step m a ha)).imp_left fun h => h.2.2 hown) h

/-- **A loop that is asked to quit returns**, in every run in which its thread goes on, whatever other
threads queue meanwhile, provided that `loop()` had cleared `quit_` before it was set. -/
theorem loop_returns (run : (system (θ := θ) (F := F)).InfiniteRun)
    (hfair : run.Recurs (fun a => a.own = true) fun s => s.pc = .returned) {n : ℕ}
    (hquit : (run.state n).quit = true)
    (hin : (run.state n).pc ≠ .outside ∧ (run.state n).pc ≠ .entered) :
    ∃ m, n ≤ m ∧ (run.state m).pc = .returned :=
  (Quitting.of_pc hquit hin).returns hfair

/-- Something is queued while the loop polls, and then another thread asks it to quit. -/
def busyRun : List (LoopAction Bool ℕ) :=
  [.loop, .clearQuit, .testQuit, .queueInLoop true 7, .endCall true, .poll [.wakeup], .nextChannel,
    .nextChannel, .swap, .nextFunctor, .quit true, .endFunctor, .nextFunctor, .endCall true, .testQuit]

/-- The loop takes these steps and stops. -/
def busy : (system (θ := Bool) (F := ℕ)).InfiniteRun :=
  .ofActions (new false) ⟨false, rfl⟩ busyRun (by decide +kernel)

theorem busy_recurs :
    busy.Recurs (fun a => a.own = true) fun s => s.pc = .returned :=
  StepSystem.InfiniteRun.recurs_ofActions (p := fun s => decide (s.pc = .returned))
    (by decide +kernel) fun _ => of_decide_eq_true

theorem loop_returns_busy : ∃ m, 11 ≤ m ∧ (busy.state m).pc = .returned :=
  loop_returns busy busy_recurs (by decide +kernel) (by decide +kernel)

/-! ## It calls what was queued -/

/-- What is ahead of the functor at position `i` of what was ever queued: nothing but the rest of its
batch, or the way to the `swap`. -/
def ahead (i : ℕ) (s : SharedLoop θ F) : ℕ ×ₗ ℕ :=
  toLex (if i < s.called.length + s.functors.length then 0 else s.pc.stage.toBatch, s.left)

theorem queue_of_reachable (h : (system (θ := θ) (F := F)).Reachable s) : s.Queue := by
  refine h.invariant (I := Queue) ?_ fun s a s' _ hs _ hstep =>
    (moves_exec hstep.1 hstep.2).keepsQueue hs
  rintro s ⟨t, rfl⟩
  exact ⟨rfl, fun _ _ => rfl⟩

theorem ahead_step {i : ℕ} (hq : s.Queue) (hi : i < s.queued.length) (hwaits : s.called.length ≤ i)
    (hstep : system.Step s a s') :
    s'.ahead i ≤ s.ahead i ∧ (a.own = true → s'.ahead i < s.ahead i) ∨ s'.pc = .returned := by
  obtain ⟨hen, hex⟩ := hstep
  have hmove := moves_exec hen hex
  -- a functor of the batch is called before the loop goes anywhere else
  have hbatch : i < s.called.length + s.functors.length → s.pc.stage = .running ∧ s.functors ≠ [] := by
    intro hlt
    have hne : s.functors ≠ [] := by
      intro hnil
      rw [hnil] at hlt
      simp at hlt
      omega
    refine ⟨?_, hne⟩
    by_contra hstage
    refine hne (hq.functors ?_ ?_) <;> intro hpc <;> exact hstage (by rw [hpc]; rfl)
  cases ha : a.own with
  | false =>
      obtain ⟨hpc, hleft, hcalled, hfunctors, -⟩ := hmove.call_keeps ha
      refine .inl ⟨le_of_eq ?_, by simp⟩
      rw [ahead, ahead, hpc, hleft, hcalled, hfunctors]
  | true =>
      have hlower : s'.ahead i < s.ahead i →
          s'.ahead i ≤ s.ahead i ∧ (true = true → s'.ahead i < s.ahead i) ∨ s'.pc = .returned :=
        fun hlt => .inl ⟨hlt.le, fun _ => hlt⟩
      rcases goesOn hen hex ha with ⟨hstage, hleft, hsame⟩ | ⟨hstage, rfl⟩ |
        ⟨⟨hne, hswap⟩, hnext, -, ⟨hcalled, hfunctors⟩, hdone⟩ | hret
      · refine hlower (Prod.Lex.toLex_lt_toLex.mpr (.inr ⟨?_, hleft⟩))
        have hlen := congrArg List.length hsame
        rw [List.length_append, List.length_append] at hlen
        show (if i < s'.called.length + s'.functors.length then 0 else s'.pc.stage.toBatch) =
          (if i < s.called.length + s.functors.length then 0 else s.pc.stage.toBatch)
        rw [hlen, hstage]
      · -- now it is in the batch
        refine hlower (Prod.Lex.toLex_lt_toLex.mpr (.inl ?_))
        have hnot : ¬ i < s.called.length + s.functors.length := by
          intro hlt
          rw [(hbatch hlt).1] at hstage
          cases hstage
        have hnil : s.functors = [] := by
          refine hq.functors ?_ ?_ <;> intro hpc <;> rw [hpc] at hstage <;> cases hstage
        have htaken : i < s.swap.called.length + s.swap.functors.length := by
          have happend := congrArg List.length hq.append
          rw [hnil, List.append_nil, List.length_append] at happend
          show i < s.called.length + s.pendingFunctors.length
          omega
        show (if i < s.swap.called.length + s.swap.functors.length then 0 else _) <
          (if i < s.called.length + s.functors.length then 0 else s.pc.stage.toBatch)
        rw [if_pos htaken, if_neg hnot, hstage]
        decide
      · refine hlower (Prod.Lex.toLex_lt_toLex.mpr (.inl ?_))
        have hnot : ¬ i < s.called.length + s.functors.length := fun hlt =>
          (hbatch hlt).2 (hdone (hbatch hlt).1)
        show (if i < s'.called.length + s'.functors.length then 0 else s'.pc.stage.toBatch) <
          (if i < s.called.length + s.functors.length then 0 else s.pc.stage.toBatch)
        rw [hcalled, hfunctors, if_neg hnot, if_neg hnot, hnext]
        revert hne hswap
        cases s.pc.stage <;> simp [LoopStage.next, LoopStage.toBatch]
      · exact .inr hret

/-- What was queued stays at its place. -/
theorem Moves.queued_grows (h : s.Moves a s') : s.queued <+: s'.queued := by
  by_cases hswap : a = .swap
  · subst hswap
    cases h with
    | swap => exact List.prefix_refl _
    | queue _ ha => simp at ha
  · obtain ⟨new, hqueued, -⟩ := (h.sameBatch hswap).queued
    exact hqueued ▸ List.prefix_append _ _

/-- **Every functor that was queued is called**, the `i`-th one as the `i`-th, in every run in which
the thread of the loop goes on, unless the loop returns. -/
theorem functor_called (run : (system (θ := θ) (F := F)).InfiniteRun)
    (hfair : run.Recurs (fun a => a.own = true) fun s => s.pc = .returned) {n i : ℕ} {cb : F}
    (hcb : (run.state n).queued[i]? = some cb) :
    ∃ m, n ≤ m ∧ ((run.state m).called[i]? = some cb ∨ (run.state m).pc = .returned) := by
  have hstep : ∀ (s : SharedLoop θ F) a s', system.Reachable s → s.queued[i]? = some cb →
      ¬ (s.called[i]? = some cb ∨ s.pc = .returned) → system.Step s a s' →
      s'.queued[i]? = some cb ∧ s'.ahead i ≤ s.ahead i ∧
        (a.own = true → s'.ahead i < s.ahead i) ∨ s'.pc = .returned := by
    intro s a s' hr hs hno hst
    have hq := queue_of_reachable hr
    obtain ⟨hlt, -⟩ := List.getElem?_eq_some_iff.mp hs
    have hwaits : s.called.length ≤ i := by
      by_contra hcalled
      refine hno (.inl ?_)
      rw [← hq.append, List.append_assoc, List.getElem?_append_left (by omega)] at hs
      exact hs
    have hkept : s'.queued[i]? = some cb := by
      obtain ⟨new, hnew⟩ := (moves_exec hst.1 hst.2).queued_grows
      rw [← hnew, List.getElem?_append_left hlt]
      exact hs
    exact (ahead_step hq hlt hwaits hst).imp_left fun h => ⟨hkept, h⟩
  have hfair' : run.Recurs (fun a => a.own = true) fun s =>
      s.called[i]? = some cb ∨ s.pc = .returned := hfair.mono fun _ => .inr
  refine StepSystem.InfiniteRun.eventually (I := fun s => s.queued[i]? = some cb) (r := ahead i)
    hfair' (fun m a _ ha hs hno => ?_) (fun m a _ ha hown hs hno => ?_) hcb
  · exact (hstep _ a _ (run.reachable m) hs hno (run.step m a ha)).imp (fun h => ⟨h.1, h.2.1⟩) .inr
  · exact (hstep _ a _ (run.reachable m) hs hno (run.step m a ha)).imp (fun h => h.2.2 hown) .inr

theorem functor_called_busy :
    ∃ m, 4 ≤ m ∧ ((busy.state m).called[0]? = some 7 ∨ (busy.state m).pc = .returned) :=
  functor_called busy busy_recurs (by decide +kernel)

end SharedLoop

end MiniMuduo
