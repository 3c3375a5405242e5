import MiniMuduo.Net.SharedLoop
import Mathlib.Data.List.Basic

/-!
# No functor is lost and no wakeup is missed

`Queue` says that what was queued was called, is in the current batch or is pending. `Awake` says
when the eventfd must be readable, or about to be: at every place from which the loop reaches `poll`
before it takes the next batch, as long as there is something to take, and in `poll` when it is
asked to quit.

The places before `loop()` are among these, so one invariant serves the runs of `loop()` and the
runs from the construction of the loop on. In the latter it is not always true: the thread of the
loop queues without a wakeup before it enters `loop()`, and `loop()` forgets that it was asked to
quit. `Timely` excludes these two steps.
-/

namespace MiniMuduo

open Fallible

/-- From here the loop reaches `poll` before it takes the next batch. -/
def LoopPc.PollsFirst : LoopPc → Bool
  | .dispatching | .handling | .swapping | .returned => false
  | _ => true

namespace SharedLoop

variable {θ F : Type} {s s' : SharedLoop θ F}

/-! ## The invariants -/

/-- The batch is the same, and what was queued in between is pending. -/
structure SameBatch (s s' : SharedLoop θ F) : Prop where
  batch : s'.called ++ s'.functors = s.called ++ s.functors
  queued : ∃ new, s'.queued = s.queued ++ new ∧ s'.pendingFunctors = s.pendingFunctors ++ new

/-- What was queued was called, is in the batch or is pending, in this order. -/
structure Queue (s : SharedLoop θ F) : Prop where
  append : s.called ++ s.functors ++ s.pendingFunctors = s.queued
  functors : s.pc ≠ .running → s.pc ≠ .calling → s.functors = []

/-- The eventfd can be read, or another thread is about to write to it. -/
def Signalled (s : SharedLoop θ F) : Prop :=
  0 < s.wakeupFd ∨ ∃ t, t ≠ s.threadId ∧ s.calls t ≠ none

/-- The loop is not asleep while there is something to do. -/
structure Awake (s : SharedLoop θ F) : Prop where
  caller : s.calls s.threadId ≠ none → s.pc.InUserCode
  calling : s.callingPendingFunctors = true ↔
    s.pc = .swapping ∨ s.pc = .running ∨ s.pc = .calling
  functors : s.pc.PollsFirst → s.pendingFunctors ≠ [] →
    s.Signalled ∨ s.pc = .calling ∧ s.calls s.threadId = some .queueInLoop
  quit : s.pc = .polling → s.quit = true → s.Signalled

theorem SameBatch.refl (s : SharedLoop θ F) : s.SameBatch s :=
  ⟨rfl, [], (List.append_nil _).symm, (List.append_nil _).symm⟩

theorem SameBatch.trans {s'' : SharedLoop θ F} (h : s.SameBatch s') (h' : s'.SameBatch s'') :
    s.SameBatch s'' := by
  obtain ⟨new, hqueued, hpending⟩ := h.queued
  obtain ⟨new', hqueued', hpending'⟩ := h'.queued
  refine ⟨h'.batch.trans h.batch, new ++ new', ?_, ?_⟩
  · rw [hqueued', hqueued, List.append_assoc]
  · rw [hpending', hpending, List.append_assoc]

/-- Steps that touch none of the lists. -/
theorem SameBatch.of_eq (hcalled : s'.called = s.called) (hfunctors : s'.functors = s.functors)
    (hqueued : s'.queued = s.queued) (hpending : s'.pendingFunctors = s.pendingFunctors) :
    s.SameBatch s' := by
  refine ⟨by rw [hcalled, hfunctors], [], ?_, ?_⟩
  · rw [hqueued, List.append_nil]
  · rw [hpending, List.append_nil]

theorem Queue.sameBatch (h : s.Queue) (hsame : s.SameBatch s')
    (hpc : s'.pc ≠ .running → s'.pc ≠ .calling → s'.functors = []) : s'.Queue := by
  obtain ⟨new, hqueued, hpending⟩ := hsame.queued
  refine ⟨?_, hpc⟩
  rw [hsame.batch, hpending, hqueued, ← List.append_assoc, h.append]

/-- `swap` takes everything that is pending. -/
theorem Queue.swap (h : s.Queue) (hpc : s.pc = .swapping) : s.swap.Queue := by
  have hnil : s.functors = [] := h.functors (by simp [hpc]) (by simp [hpc])
  refine ⟨?_, fun hne => absurd rfl hne⟩
  have happend := h.append
  rw [hnil, List.append_nil] at happend
  show s.called ++ s.pendingFunctors ++ [] = s.queued
  rw [List.append_nil, happend]

/-- The steps of the loop itself. It neither ends nor begins a call, and where it goes on to `poll`
it keeps what is pending and what was signalled. -/
theorem Awake.move (h : s.Awake) (hnone : s.calls s.threadId = none) (hcalls : s'.calls = s.calls)
    (hid : s'.threadId = s.threadId)
    (hcalling : s'.callingPendingFunctors = true ↔
      s'.pc = .swapping ∨ s'.pc = .running ∨ s'.pc = .calling)
    (hkeep : s'.pc.PollsFirst → s'.pendingFunctors ≠ [] →
      s.pc.PollsFirst ∧ s'.wakeupFd = s.wakeupFd ∧ s'.pendingFunctors = s.pendingFunctors)
    (hquit : s'.pc = .polling → s'.quit = false) : s'.Awake := by
  refine ⟨?_, hcalling, ?_, ?_⟩
  · rw [hcalls, hid, hnone]
    exact fun hne => absurd rfl hne
  · intro hpc hne
    obtain ⟨hpc₀, hfd, hpending⟩ := hkeep hpc hne
    rw [hpending] at hne
    left
    rcases h.functors hpc₀ hne with hsig | ⟨-, hcall⟩
    · unfold Signalled
      rw [hfd, hcalls, hid]
      exact hsig
    · rw [hnone] at hcall
      cases hcall
  · intro hpc htrue
    rw [hquit hpc] at htrue
    cases htrue

theorem wakeup_eq (s : SharedLoop θ F) :
    ∃ n, s.wakeup = { s with wakeupFd := n } ∧ 0 < n ∧ s.wakeupFd ≤ n := by
  unfold wakeup
  split
  · exact ⟨s.wakeupFd + 1, rfl, Nat.succ_pos _, Nat.le_succ _⟩
  · exact ⟨s.wakeupFd, rfl, by omega, Nat.le_refl _⟩

/-! ## Calls -/

variable [DecidableEq θ] {t : θ} {cb : F}

/-- The second step of a call ends it. It writes to the eventfd in another thread, and in the loop
thread when a functor queued something. -/
theorem endCall_eq (h : (s.calls t).isSome) :
    ∃ n, s.endCall t =
        { s with calls := Function.update s.calls t none, wakeupFd := n } ∧
      s.wakeupFd ≤ n ∧
      (¬ s.isInLoopThread t ∨ s.calls t = some .queueInLoop ∧ s.callingPendingFunctors →
        0 < n) := by
  obtain ⟨n, hn, hpos, hle⟩ := wakeup_eq { s with calls := Function.update s.calls t none }
  unfold endCall
  cases hcall : s.calls t with
  | none => simp [hcall] at h
  | some call =>
      cases call with
      | queueInLoop =>
          simp only
          split
          · exact ⟨n, hn, hle, fun _ => hpos⟩
          · next hnot =>
              refine ⟨s.wakeupFd, rfl, Nat.le_refl _, ?_⟩
              rintro (hother | ⟨-, hcalling⟩)
              · exact absurd (.inl hother) hnot
              · exact absurd (.inr hcalling) hnot
      | quit =>
          simp only
          split
          · exact ⟨n, hn, hle, fun _ => hpos⟩
          · next hnot =>
              refine ⟨s.wakeupFd, rfl, Nat.le_refl _, ?_⟩
              rintro (hother | ⟨hqueue, -⟩)
              · exact absurd hother hnot
              · cases hqueue

/-- The loop thread is in a call only where it can call. -/
theorem Awake.caller_update (h : s.Awake) {call : Option LoopCall}
    (huser : s.isInLoopThread t → call ≠ none → s.pc.InUserCode)
    (hne : Function.update s.calls t call s.threadId ≠ none) : s.pc.InUserCode := by
  by_cases ht : s.isInLoopThread t
  · apply huser ht
    rwa [← show t = s.threadId from ht, Function.update_self] at hne
  · apply h.caller
    rwa [Function.update_of_ne (Ne.symm ht)] at hne

omit [DecidableEq θ] in
theorem CanCall.not_polling (h : s.CanCall t) (hpc : s.pc = .polling) : t ≠ s.threadId := by
  intro ht
  have huser := h.2 ht
  simp [LoopPc.InUserCode, hpc] at huser

theorem Awake.queueInLoop (h : s.Awake) (hcan : s.CanCall t)
    (hin : s.isInLoopThread t → s.pc ≠ .outside) (cb : F) : (s.queueInLoop t cb).Awake := by
  have hother : t ≠ s.threadId → (s.queueInLoop t cb).Signalled := fun ht =>
    .inr ⟨t, ht, by simp [SharedLoop.queueInLoop]⟩
  refine ⟨h.caller_update fun ht _ => hcan.2 ht, h.calling, ?_,
    fun hpc _ => hother (hcan.not_polling hpc)⟩
  intro hpc _
  by_cases ht : s.isInLoopThread t
  · -- a handler leaves it to the batch that follows, a functor wakes the loop up itself
    rcases hcan.2 ht with hout | hpc' | hpc'
    · exact absurd hout (hin ht)
    · have hpc : s.pc.PollsFirst := hpc
      simp [hpc', LoopPc.PollsFirst] at hpc
    · refine .inr ⟨hpc', ?_⟩
      show Function.update s.calls t _ s.threadId = _
      rw [show t = s.threadId from ht, Function.update_self]
  · exact .inl (hother ht)

theorem Awake.quitCall (h : s.Awake) (hcan : s.CanCall t) :
    Awake { s with
      quit := true, calls := Function.update s.calls t (some .quit), quitIssued := true } := by
  have hother : t ≠ s.threadId → Signalled { s with
      quit := true, calls := Function.update s.calls t (some .quit), quitIssued := true } := fun ht =>
    .inr ⟨t, ht, by simp⟩
  refine ⟨h.caller_update fun ht _ => hcan.2 ht, h.calling, ?_,
    fun hpc _ => hother (hcan.not_polling hpc)⟩
  intro hpc hne
  left
  by_cases ht : s.isInLoopThread t
  · rcases h.functors hpc hne with (hfd | ⟨t', ht', hcall⟩) | ⟨-, hcall⟩
    · exact .inl hfd
    · have hne' : t' ≠ t := fun heq => ht' (heq.trans ht)
      exact .inr ⟨t', ht', by simpa [Function.update_of_ne hne'] using hcall⟩
    · rw [← show t = s.threadId from ht, hcan.1] at hcall
      cases hcall
  · exact hother ht

/-- Once another thread has written, the eventfd can be read; until then it is still about to. -/
theorem Signalled.endCall {n : ℕ} (h : s.Signalled) (hle : s.wakeupFd ≤ n)
    (hpos : ¬ s.isInLoopThread t → 0 < n) :
    Signalled { s with calls := Function.update s.calls t none, wakeupFd := n } := by
  rcases h with hfd | ⟨t', ht', hcall⟩
  · exact .inl (Nat.lt_of_lt_of_le hfd hle)
  · by_cases heq : t' = t
    · subst heq
      exact .inl (hpos ht')
    · exact .inr ⟨t', ht', by simpa [Function.update_of_ne heq] using hcall⟩

theorem Awake.endCall {n : ℕ} (h : s.Awake) (hle : s.wakeupFd ≤ n)
    (hpos : ¬ s.isInLoopThread t ∨ s.calls t = some .queueInLoop ∧ s.callingPendingFunctors →
      0 < n) :
    Awake { s with calls := Function.update s.calls t none, wakeupFd := n } := by
  have hother : ¬ s.isInLoopThread t → 0 < n := fun ht => hpos (.inl ht)
  refine ⟨h.caller_update fun _ hne => absurd rfl hne, h.calling, ?_,
    fun hpc hquit => (h.quit hpc hquit).endCall hle hother⟩
  intro hpc hne
  left
  rcases h.functors hpc hne with hsig | ⟨hpc', hqueue⟩
  · exact hsig.endCall hle hother
  · by_cases ht : s.isInLoopThread t
    · -- the functor that queued something writes now
      refine .inl (hpos (.inr ⟨?_, h.calling.mpr (.inr (.inr hpc'))⟩))
      rw [show t = s.threadId from ht]
      exact hqueue
    · exact .inl (hother ht)

/-! ## Steps -/

/-- What a step can do. -/
inductive Moves (s : SharedLoop θ F) : LoopAction θ F → SharedLoop θ F → Prop where
  | call {t : θ} {cb : F} : s.isInLoopThread t → Moves s (.runInLoop t cb) s
  | queue {t : θ} {cb : F} {a : LoopAction θ F} : s.CanCall t →
      a = .queueInLoop t cb ∨ a = .runInLoop t cb ∧ ¬ s.isInLoopThread t →
      Moves s a (s.queueInLoop t cb)
  | quit {t : θ} : s.CanCall t →
      Moves s (.quit t) { s with
        quit := true, calls := Function.update s.calls t (some .quit), quitIssued := true }
  | endCall {t : θ} {n : ℕ} : s.wakeupFd ≤ n →
      (¬ s.isInLoopThread t ∨ s.calls t = some .queueInLoop ∧ s.callingPendingFunctors → 0 < n) →
      Moves s (.endCall t) { s with calls := Function.update s.calls t none, wakeupFd := n }
  | enter : s.At .outside → Moves s .loop { s with looping := true, pc := .entered }
  | clearQuit : s.At .entered → Moves s .clearQuit { s with quit := false, pc := .testing }
  | leave : s.At .testing → s.quit = true →
      Moves s .testQuit { s with looping := false, pc := .returned }
  | sleep : s.At .testing → s.quit = false →
      Moves s .testQuit { s with activeChannels := [], pc := .polling }
  | wake {active : List ActiveChannel} : s.At .polling →
      Moves s (.poll active) { s with activeChannels := active, pc := .dispatching }
  | read {cs : List ActiveChannel} : s.At .dispatching →
      Moves s .nextChannel { s with activeChannels := cs, wakeupFd := 0 }
  | handle {cs : List ActiveChannel} : s.At .dispatching →
      Moves s .nextChannel { s with activeChannels := cs, pc := .handling }
  | endDispatch : s.At .dispatching →
      Moves s .nextChannel { s with callingPendingFunctors := true, pc := .swapping }
  | endHandler : s.At .handling → Moves s .endHandler { s with pc := .dispatching }
  | swap : s.At .swapping → Moves s .swap s.swap
  | functor {f : F} {fs : List F} : s.At .running → s.functors = f :: fs →
      Moves s .nextFunctor { s with functors := fs, pc := .calling, called := s.called ++ [f] }
  | endBatch : s.At .running → s.functors = [] →
      Moves s .nextFunctor { s with callingPendingFunctors := false, pc := .testing }
  | endFunctor : s.At .calling → Moves s .endFunctor { s with pc := .running }

theorem moves_exec {a : LoopAction θ F} (hen : s.enabled a) (hexec : s.exec a = .ok s') :
    s.Moves a s' := by
  cases a with
  | queueInLoop t cb =>
      cases hexec
      exact .queue hen (.inl rfl)
  | runInLoop t cb =>
      cases hexec
      unfold SharedLoop.runInLoop
      split
      · next ht => exact .call ht
      · next ht => exact .queue hen (.inr ⟨rfl, ht⟩)
  | quit t =>
      cases hexec
      exact .quit hen
  | endCall t =>
      cases hexec
      obtain ⟨n, heq, hle, hpos⟩ := endCall_eq hen
      rw [heq]
      exact .endCall hle hpos
  | loop =>
      obtain ⟨_, -, hexec⟩ := bind_eq_ok.mp hexec
      cases hexec
      exact .enter hen
  | clearQuit =>
      cases hexec
      exact .clearQuit hen
  | testQuit =>
      simp only [SharedLoop.exec] at hexec
      split at hexec
      · next hquit =>
          cases hexec
          exact .leave hen hquit
      · next hquit =>
          cases hexec
          exact .sleep hen (Bool.eq_false_iff.mpr hquit)
  | poll active =>
      cases hexec
      exact .wake hen.1
  | nextChannel =>
      cases hexec
      unfold SharedLoop.nextChannel handleRead
      split
      · exact .endDispatch hen
      · exact .read hen
      · exact .handle hen
  | endHandler =>
      cases hexec
      exact .endHandler hen
  | swap =>
      cases hexec
      exact .swap hen
  | nextFunctor =>
      cases hexec
      unfold SharedLoop.nextFunctor
      split
      · next hnil => exact .endBatch hen hnil
      · next hcons => exact .functor hen hcons
  | endFunctor =>
      cases hexec
      exact .endFunctor hen

variable {a : LoopAction θ F}

/-- **A step other than `swap` leaves the batch alone.** -/
theorem Moves.sameBatch (h : s.Moves a s') (hne : a ≠ .swap) : s.SameBatch s' := by
  cases h with
  | call => exact .refl s
  | queue => exact ⟨rfl, [_], rfl, rfl⟩
  | swap => exact absurd rfl hne
  | @functor f fs _ hcons =>
      refine ⟨?_, [], (List.append_nil _).symm, (List.append_nil _).symm⟩
      show s.called ++ [f] ++ fs = s.called ++ s.functors
      rw [hcons, List.append_assoc]
      rfl
  | _ => exact .of_eq rfl rfl rfl rfl

theorem Moves.keepsQueue (h : s.Moves a s') (hq : s.Queue) : s'.Queue := by
  -- the loop thread is not in the loop over `functors` before most of its steps
  have hat : ∀ {pc}, s.At pc → pc ≠ .running → pc ≠ .calling → s.functors = [] := by
    rintro pc ⟨rfl, -⟩ hr hc
    exact hq.functors hr hc
  by_cases hswap : a = .swap
  · subst hswap
    cases h with
    | swap hpc => exact hq.swap hpc.1
    | queue _ ha => simp at ha
  · refine hq.sameBatch (h.sameBatch hswap) ?_
    cases h with
    | call | queue | quit | endCall | read => exact hq.functors
    | enter hpc | clearQuit hpc | leave hpc | sleep hpc | wake hpc | handle hpc | endDispatch hpc
    | endHandler hpc => exact fun _ _ => hat hpc (by decide) (by decide)
    | swap => exact absurd rfl hswap
    | functor => exact fun _ hne => absurd rfl hne
    | endBatch _ hnil => exact fun _ _ => hnil
    | endFunctor => exact fun hne => absurd rfl hne

/-- **A step keeps the loop awake**, unless the loop thread queues before it enters `loop()`. -/
theorem Moves.keepsAwake (h : s.Moves a s') (hs : s.Awake)
    (hin : ∀ t cb, a = .queueInLoop t cb → s.isInLoopThread t → s.pc ≠ .outside) : s'.Awake := by
  have hflag : ∀ {pc}, s.At pc → (s.callingPendingFunctors = true ↔
      pc = .swapping ∨ pc = .running ∨ pc = .calling) := by
    rintro pc ⟨rfl, -⟩
    exact hs.calling
  -- nothing is taken and nothing is read on the way to `poll`
  have hon : ∀ {pc} {s' : SharedLoop θ F}, s.At pc → pc.PollsFirst = true →
      s'.wakeupFd = s.wakeupFd → s'.pendingFunctors = s.pendingFunctors →
      s'.pc.PollsFirst → s'.pendingFunctors ≠ [] →
      s.pc.PollsFirst ∧ s'.wakeupFd = s.wakeupFd ∧ s'.pendingFunctors = s.pendingFunctors := by
    rintro pc s' ⟨rfl, -⟩ hfirst hfd hpending - -
    exact ⟨hfirst, hfd, hpending⟩
  cases h with
  | call => exact hs
  | @queue t cb _ hcan ha =>
      refine hs.queueInLoop hcan ?_ cb
      rcases ha with ha | ⟨-, ht⟩
      · exact hin t cb ha
      · exact fun ht' => absurd ht' ht
  | quit hcan => exact hs.quitCall hcan
  | endCall hle hpos => exact hs.endCall hle hpos
  | enter hpc | clearQuit hpc | endFunctor hpc =>
      exact hs.move hpc.2 rfl rfl (by simpa using hflag hpc) (hon hpc rfl rfl rfl) (by simp)
  | sleep hpc hquit =>
      exact hs.move hpc.2 rfl rfl (by simpa using hflag hpc) (hon hpc rfl rfl rfl) fun _ => hquit
  | leave hpc | wake hpc | handle hpc | endHandler hpc =>
      exact hs.move hpc.2 rfl rfl (by simpa using hflag hpc) (by simp [LoopPc.PollsFirst]) (by simp)
  | endDispatch hpc =>
      exact hs.move hpc.2 rfl rfl (by simp) (by simp [LoopPc.PollsFirst]) (by simp)
  | read hpc =>
      -- the batch is taken before the next `poll`
      refine hs.move hpc.2 rfl rfl hs.calling ?_ ?_
      · simp [hpc.1, LoopPc.PollsFirst]
      · simp [hpc.1]
  | swap hpc =>
      refine hs.move hpc.2 rfl rfl ?_ (fun _ hne => absurd rfl hne) ?_
      · simpa [SharedLoop.swap] using hflag hpc
      · simp [SharedLoop.swap]
  | functor hpc =>
      exact hs.move hpc.2 rfl rfl (by simpa using hflag hpc) (hon hpc rfl rfl rfl) (by simp)
  | endBatch hpc =>
      exact hs.move hpc.2 rfl rfl (by simp) (hon hpc rfl rfl rfl) (by simp)

/-! ## Runs of `loop()` -/

omit [DecidableEq θ] in
theorem JustEntered.queue (h : s.JustEntered) : s.Queue := by
  refine ⟨?_, fun _ _ => h.functors⟩
  rw [h.functors, h.pending, h.history.1, h.history.2]
  rfl

omit [DecidableEq θ] in
theorem JustEntered.awake (h : s.JustEntered) : s.Awake := by
  refine ⟨fun hne => absurd h.pc.2 hne, ?_, fun _ hne => absurd h.pending hne, ?_⟩
  · rw [h.calling, h.pc.1]
    simp
  · intro hpc
    rw [h.pc.1] at hpc
    cases hpc

/-- Nothing leads out of `loop()` to before it. -/
theorem Moves.not_outside (h : s.Moves a s') (hpc : s.pc ≠ .outside) : s'.pc ≠ .outside := by
  cases h with
  | call | queue | quit | endCall | read => exact hpc
  | _ => simp [SharedLoop.swap]

theorem invariants_of_reachable (h : loopSystem.Reachable s) :
    s.Queue ∧ s.Awake ∧ s.pc ≠ .outside := by
  refine h.invariant (I := fun s : SharedLoop θ F => s.Queue ∧ s.Awake ∧ s.pc ≠ .outside) ?_ ?_
  · intro s hs
    exact ⟨hs.queue, hs.awake, by simp [hs.pc.1]⟩
  · rintro s a s' - ⟨hqueue, hawake, hpc⟩ - ⟨hen, hexec⟩
    have hmove := moves_exec hen hexec
    exact ⟨hmove.keepsQueue hqueue, hmove.keepsAwake hawake fun _ _ _ _ => hpc,
      hmove.not_outside hpc⟩

/-- What is queued while a batch is called is not in it. -/
theorem sameBatch_of_reachable
    (h : (loopSystem.startingAt s).ReachableVia (fun _ a => a ≠ .swap) s') : s.SameBatch s' := by
  refine h.invariant (I := s.SameBatch) ?_ ?_
  · rintro s' rfl
    exact .refl s'
  · rintro s₁ a s₂ - hsame hne ⟨hen, hexec⟩
    exact hsame.trans ((moves_exec hen hexec).sameBatch hne)

omit [DecidableEq θ] in
/-- The invariant at the place that matters. -/
theorem Awake.signalled (h : s.Awake) (hpc : s.pc = .polling)
    (hdo : s.pendingFunctors ≠ [] ∨ s.quit = true) : s.Signalled := by
  rcases hdo with hne | hquit
  · rcases h.functors (by rw [hpc]; rfl) hne with hsig | ⟨hcalling, -⟩
    · exact hsig
    · rw [hpc] at hcalling
      cases hcalling
  · exact h.quit hpc hquit

/-- **Nothing is lost, duplicated or left asleep** in a run of `loop()`, whatever the threads do:
the functors are called in the order they were queued in, what is queued while a batch is called is
not in that batch, and the loop does not sleep in `poll` while it has something to call or is asked
to quit. -/
theorem loop_awake (h : loopSystem.Reachable s) :
    s.called ++ s.functors ++ s.pendingFunctors = s.queued ∧
    (∀ s', (loopSystem.startingAt s).ReachableVia (fun _ a => a ≠ .swap) s' → s.SameBatch s') ∧
    (s.pc = .polling → s.pendingFunctors ≠ [] ∨ s.quit = true → s.Signalled) := by
  obtain ⟨hqueue, hawake, -⟩ := invariants_of_reachable h
  exact ⟨hqueue.append, fun s' => sameBatch_of_reachable, hawake.signalled⟩

/-- A loop of the thread `false`, right after it called `loop()`. -/
def justEntered : SharedLoop Bool ℕ := { new false with looping := true, pc := .entered }

/-- A handler queues `1`, which queues `2` when it is called. -/
def requeueRun : List (LoopAction Bool ℕ) :=
  [.clearQuit, .testQuit, .poll [.other], .nextChannel, .queueInLoop false 1, .endCall false,
    .endHandler, .nextChannel, .swap, .nextFunctor, .queueInLoop false 2, .endCall false,
    .endFunctor, .nextFunctor, .testQuit]

theorem loop_awake_requeueRun :
    ∃ s : SharedLoop Bool ℕ, loopSystem.Reachable s ∧ s.called = [1] ∧ s.pendingFunctors = [2] ∧
      s.pc = .polling ∧ s.called ++ s.functors ++ s.pendingFunctors = s.queued ∧ s.Signalled := by
  have hinit : loopSystem.init justEntered :=
    ⟨rfl, rfl, rfl, rfl, ⟨rfl, rfl⟩, rfl, rfl⟩
  obtain ⟨s, hs, htest⟩ := StepSystem.exists_reachableVia_of_runFrom? (fun _ _ => True) requeueRun
    (p := fun s => s.called = [1] ∧ s.pendingFunctors = [2] ∧ s.pc = .polling) hinit
    (by decide +kernel)
  obtain ⟨hcalled, hpending, hpc⟩ := of_decide_eq_true htest
  obtain ⟨happend, -, hawake⟩ := loop_awake hs
  exact ⟨s, hs, hcalled, hpending, hpc, happend, hawake hpc (.inl (by simp [hpending]))⟩

/-! ## Runs from the construction of the loop on -/

/-- The steps that lose nothing: the loop thread queues nothing before it enters `loop()`, and
`quit()` does not store to `quit_` before `loop()` does. -/
def Timely (s : SharedLoop θ F) : LoopAction θ F → Prop
  | .queueInLoop t _ => s.isInLoopThread t → s.pc ≠ .outside
  | .quit _ => s.pc ≠ .outside ∧ s.pc ≠ .entered
  | _ => True

instance (s : SharedLoop θ F) : ∀ a, Decidable (s.Timely a)
  | .queueInLoop _ _ => inferInstanceAs (Decidable (_ → _))
  | .quit _ => inferInstanceAs (Decidable (_ ∧ _))
  | .runInLoop _ _ | .endCall _ | .loop | .clearQuit | .testQuit | .poll _ | .nextChannel
  | .endHandler | .swap | .nextFunctor | .endFunctor => inferInstanceAs (Decidable True)

/-- A request to quit stays. -/
structure Asked (s : SharedLoop θ F) : Prop where
  early : s.pc = .outside ∨ s.pc = .entered → s.quitIssued = false
  quit : s.quitIssued = true → s.quit = true

theorem Moves.keepsAsked (h : s.Moves a s') (hs : s.Asked) (hok : s.Timely a) : s'.Asked := by
  cases h with
  | call | queue | endCall | read => exact ⟨hs.early, hs.quit⟩
  | quit => exact ⟨fun hpc => absurd hpc (not_or.mpr hok), fun _ => rfl⟩
  | enter hpc => exact ⟨fun _ => hs.early (.inl hpc.1), hs.quit⟩
  | clearQuit hpc =>
      have hnone : s.quitIssued = false := hs.early (.inr hpc.1)
      exact ⟨by simp, by simp [hnone]⟩
  | _ => exact ⟨by simp [SharedLoop.swap], hs.quit⟩

omit [DecidableEq θ] in
theorem awake_new (t : θ) : (new t : SharedLoop θ F).Awake := by
  refine ⟨fun hne => absurd rfl hne, ?_, fun _ hne => absurd rfl hne, ?_⟩
  · simp [new]
  · simp [new]

/-- **Requests made before `loop()` starts are kept** in runs of timely steps. -/
theorem requests_kept (h : system.ReachableVia Timely s) :
    (s.pc = .polling → s.pendingFunctors ≠ [] ∨ s.quitIssued = true → s.Signalled) ∧
    (s.quitIssued = true → s.quit = true) := by
  have hinv : s.Awake ∧ s.Asked := by
    refine h.invariant (I := fun s : SharedLoop θ F => s.Awake ∧ s.Asked) ?_ ?_
    · rintro s ⟨t, rfl⟩
      exact ⟨awake_new t, fun _ => rfl, fun hissued => absurd hissued (by simp [new])⟩
    · rintro s a s' - ⟨hawake, hasked⟩ hok ⟨hen, hexec⟩
      have hmove := moves_exec hen hexec
      refine ⟨hmove.keepsAwake hawake ?_, hmove.keepsAsked hasked hok⟩
      rintro t cb rfl
      exact hok
  obtain ⟨hawake, hasked⟩ := hinv
  refine ⟨fun hpc hdo => hawake.signalled hpc (hdo.imp_right hasked.quit), hasked.quit⟩

/-- Another thread queues before `loop()` is called, and asks to quit when the loop is in `poll`. -/
def timelyRun : List (LoopAction Bool ℕ) :=
  [.queueInLoop true 1, .loop, .clearQuit, .testQuit, .endCall true, .quit true]

theorem requests_kept_timelyRun :
    ∃ s : SharedLoop Bool ℕ, system.ReachableVia Timely s ∧ s.pc = .polling ∧
      s.pendingFunctors = [1] ∧ s.quitIssued = true ∧ s.Signalled ∧ s.quit = true := by
  have hinit : system.init (new false : SharedLoop Bool ℕ) := ⟨false, rfl⟩
  obtain ⟨s, hs, htest⟩ := StepSystem.exists_reachableVia_of_runFrom? Timely timelyRun
    (p := fun s => s.pc = .polling ∧ s.pendingFunctors = [1] ∧ s.quitIssued = true) hinit
    (by decide +kernel)
  obtain ⟨hpc, hpending, hissued⟩ := of_decide_eq_true htest
  obtain ⟨hsignalled, hquit⟩ := requests_kept hs
  exact ⟨s, hs, hpc, hpending, hissued, hsignalled hpc (.inr hissued), hquit hissued⟩

/-- A loop that is not asked to quit does not return. -/
theorem Moves.not_returned (h : s.Moves a s') (hne : ∀ t, a ≠ .quit t)
    (hs : s.quit = false ∧ s.pc ≠ .returned) : s'.quit = false ∧ s'.pc ≠ .returned := by
  cases h with
  | call | queue | endCall | read => exact hs
  | quit => exact absurd rfl (hne _)
  | leave _ hquit => simp [hs.1] at hquit
  | clearQuit => exact ⟨rfl, by simp⟩
  | _ => exact ⟨hs.1, by simp [SharedLoop.swap]⟩

theorem not_returned_of_reachable (hs : s.quit = false ∧ s.pc ≠ .returned)
    (h : (system.startingAt s).ReachableVia (fun _ a => ∀ t, a ≠ .quit t) s') :
    s'.pc ≠ .returned := by
  refine (h.invariant (I := fun s' => s'.quit = false ∧ s'.pc ≠ .returned) ?_ ?_).2
  · rintro s' rfl
    exact hs
  · rintro s₁ a s₂ - h₁ hne ⟨hen, hexec⟩
    exact (moves_exec hen hexec).not_returned hne h₁

/-- `quit()` returns before the loop thread enters `loop()`. -/
def earlyQuitRun : List (LoopAction Bool ℕ) :=
  [.quit true, .endCall true, .loop, .clearQuit, .testQuit, .poll [.wakeup], .nextChannel,
    .nextChannel, .swap, .nextFunctor, .testQuit]

/-- The loop thread queues before it enters `loop()`. -/
def earlyQueueRun : List (LoopAction Bool ℕ) :=
  [.queueInLoop false 1, .endCall false, .loop, .clearQuit, .testQuit]

instance (s : SharedLoop Bool ℕ) : Decidable s.Signalled :=
  inferInstanceAs (Decidable (_ ∨ _))

theorem requests_lost :
    (∃ s : SharedLoop Bool ℕ, system.Reachable s ∧ s.pc = .polling ∧ s.quitIssued = true ∧
      ¬ s.Signalled ∧
      ∀ s', (system.startingAt s).ReachableVia (fun _ a => ∀ t, a ≠ .quit t) s' →
        s'.pc ≠ .returned) ∧
    ∃ s : SharedLoop Bool ℕ, system.Reachable s ∧ s.pc = .polling ∧ s.pendingFunctors ≠ [] ∧
      ¬ s.Signalled := by
  have hinit : system.init (new false : SharedLoop Bool ℕ) := ⟨false, rfl⟩
  refine ⟨?_, ?_⟩
  · obtain ⟨s, hs, htest⟩ := StepSystem.exists_reachableVia_of_runFrom? (fun _ _ => True)
      earlyQuitRun (p := fun s => s.pc = .polling ∧ s.quitIssued = true ∧ ¬ s.Signalled ∧
        s.quit = false) hinit (by decide +kernel)
    obtain ⟨hpc, hissued, hsignalled, hquit⟩ := of_decide_eq_true htest
    exact ⟨s, hs, hpc, hissued, hsignalled, fun s' =>
      not_returned_of_reachable ⟨hquit, by simp [hpc]⟩⟩
  · obtain ⟨s, hs, htest⟩ := StepSystem.exists_reachableVia_of_runFrom? (fun _ _ => True)
      earlyQueueRun (p := fun s => s.pc = .polling ∧ s.pendingFunctors ≠ [] ∧ ¬ s.Signalled) hinit
      (by decide +kernel)
    obtain ⟨hpc, hpending, hsignalled⟩ := of_decide_eq_true htest
    exact ⟨s, hs, hpc, hpending, hsignalled⟩

end SharedLoop

end MiniMuduo
