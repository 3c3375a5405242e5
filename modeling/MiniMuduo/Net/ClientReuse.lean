import MiniMuduo.Net.TcpClient

/-!
# Calling `connect` again

`startInLoop` is called by `start`, by `restart` and by the retry timers, and asserts that the
connector is in `kDisconnected`. `waiting` counts the calls that are still to come; while at most one
waits, and only in `kDisconnected` (`Single`), the assert holds.

* `reuse` — a client that calls `connect` only in `kDisconnected` when nothing waits never fails the
  assert. Nothing else brings it there: `closedConnectionRun` calls `connect` after the connection was
  closed.
-/

namespace MiniMuduo

open Fallible

def ConnectorTask.isRetryTimer : ConnectorTask → Bool
  | .retryTimer _ => true
  | _ => false

namespace ConnectorSession

variable {s s' b : ConnectorSession} {k : Answers} {n : Sock} {a : ConnectorAction}
  {e : ConnectorFault} {t : ConnectorTask} {ts : List ConnectorTask} {channel : ConnectorChannel}

/-! ## Calls of `startInLoop` that wait -/

/-- The retry timers, expired or not, and the functors that will call `startInLoop`. -/
def waiting (s : ConnectorSession) : ℕ :=
  s.timers.length + s.todo.countP ConnectorTask.isRetryTimer + s.functors.count .startInLoop

/-- At most one call waits, and it will find `kDisconnected`. -/
structure Single (s : ConnectorSession) : Prop where
  atMostOne : s.waiting ≤ 1
  disconnected : 0 < s.waiting → s.connector.state = .kDisconnected

theorem single_of_zero (h : s.waiting = 0) : s.Single :=
  ⟨by omega, fun hpos => by omega⟩

theorem Single.eq_zero (h : s.Single) (hstate : s.connector.state ≠ .kDisconnected) :
    s.waiting = 0 := by
  by_contra hne
  exact hstate (h.disconnected (Nat.pos_of_ne_zero hne))

/-- A step that adds no call and keeps `state_`. -/
theorem Single.congr (h : s.Single) (hwaiting : s'.waiting ≤ s.waiting)
    (hstate : s'.connector.state = s.connector.state) : s'.Single :=
  ⟨hwaiting.trans h.atMostOne, fun hpos => hstate ▸ h.disconnected (hpos.trans_le hwaiting)⟩

theorem waiting_pop_retryTimer {timer : RetryTimer} (htodo : s.todo = .retryTimer timer :: ts) :
    s.waiting = (s.pop ts k).waiting + 1 := by
  have hcount : s.todo.countP ConnectorTask.isRetryTimer =
      ts.countP ConnectorTask.isRetryTimer + 1 := by
    rw [htodo, List.countP_cons]
    rfl
  have hfunctors : (s.pop ts k).functors = s.functors := by
    unfold functors
    rw [htodo]
    rfl
  unfold waiting
  rw [hcount, hfunctors, ← Nat.add_assoc]
  exact Nat.add_right_comm ..

theorem waiting_pop_startInLoop (htodo : s.todo = .functor .startInLoop :: ts) :
    s.waiting = (s.pop ts k).waiting + 1 := by
  simp [waiting, functors, pop, htodo, ConnectorTask.isRetryTimer, ConnectorTask.functor?]
  omega

theorem functors_pop_sublist (htodo : s.todo = t :: ts) :
    (s.pop ts k).functors.Sublist s.functors := by
  unfold functors
  rw [htodo]
  exact ((List.sublist_cons_self t ts).filterMap _).append_right _

theorem waiting_pop_le (htodo : s.todo = t :: ts) : (s.pop ts k).waiting ≤ s.waiting := by
  have htimers : ts.countP ConnectorTask.isRetryTimer ≤ s.todo.countP ConnectorTask.isRetryTimer := by
    rw [htodo]
    exact (List.sublist_cons_self t ts).countP_le
  have hfunctors : (s.pop ts k).functors.count .startInLoop ≤ s.functors.count .startInLoop :=
    (functors_pop_sublist htodo).count_le _
  unfold waiting
  exact Nat.add_le_add (Nat.add_le_add_left htimers _) hfunctors

theorem waiting_retry_le (s : ConnectorSession) (n : Sock) (k : Answers) :
    (s.retry n k).waiting ≤ s.waiting + 1 := by
  unfold retry waiting functors
  dsimp only
  split
  · simp [runAfter, note, setState]
    omega
  · exact Nat.le_succ _

theorem single_retry (h : s.waiting = 0) (n : Sock) (k : Answers) : (s.retry n k).Single :=
  ⟨(waiting_retry_le s n k).trans (by omega), fun _ => retry_state⟩

theorem Tries.single (h : s.Tries k s') (hzero : s.waiting = 0) : s'.Single := by
  cases h with
  | idle _ | connecting _ _ | close _ => exact single_of_zero hzero
  | retry _ => exact single_retry (s := s.socket) hzero s.nextSock k

theorem waiting_removed (s : ConnectorSession) (channel : ConnectorChannel) :
    (s.removed channel).waiting = s.waiting := by
  simp [waiting, functors, removed, queueInLoop, setChannel]

theorem Finishes.single (h : s.Finishes channel k s') (hzero : s.waiting = 0) : s'.Single := by
  have hremoved : (s.removed channel).waiting = 0 := (waiting_removed s channel).trans hzero
  cases h with
  | idle => exact single_of_zero hzero
  | retry => exact single_retry hremoved _ k
  | newConnection _ | close _ => exact single_of_zero hremoved

theorem waiting_takeFunctors (htodo : s.todo = []) :
    waiting { s with
      phase := .callingPendingFunctors
      todo := s.pendingFunctors.map .functor
      pendingFunctors := [] } = s.waiting := by
  have hnone :
      (s.pendingFunctors.map ConnectorTask.functor).countP ConnectorTask.isRetryTimer = 0 := by
    refine List.countP_eq_zero.mpr fun t ht => ?_
    obtain ⟨f, -, rfl⟩ := List.mem_map.mp ht
    simp [ConnectorTask.isRetryTimer]
  simp only [waiting, functors_takeFunctors htodo, hnone, htodo, List.countP_nil]

theorem waiting_poll {reports : List (ClientChannel × PollEvents)} (htodo : s.todo = []) :
    waiting { s with phase := .dispatching, todo := reports.map fun r => r.1.toTask r.2 } =
      s.waiting := by
  have hnone : (reports.map fun r => r.1.toTask r.2).countP ConnectorTask.isRetryTimer = 0 := by
    refine List.countP_eq_zero.mpr fun t ht => ?_
    obtain ⟨⟨c, revents⟩, -, rfl⟩ := List.mem_map.mp ht
    cases c <;> simp [ClientChannel.toTask, ConnectorTask.isRetryTimer]
  simp only [waiting, functors_poll htodo, hnone, htodo, List.countP_nil]

/-- Expired timers go from the queue to the tasks. -/
theorem waiting_handleTimerfd (s : ConnectorSession) (k : Answers) :
    (s.handleTimerfd k).waiting = s.waiting := by
  have hbatch : ∀ timers : List RetryTimer,
      (timers.map ConnectorTask.retryTimer).countP ConnectorTask.isRetryTimer = timers.length := by
    intro timers
    rw [List.countP_eq_length.mpr fun t ht => ?_, List.length_map]
    obtain ⟨timer, -, rfl⟩ := List.mem_map.mp ht
    rfl
  have hsplit : (s.timers.filter fun t => k.now < t.expiration).length +
      (s.timers.filter fun t => t.expiration ≤ k.now).length = s.timers.length := by
    rw [List.length_eq_length_filter_add (l := s.timers) fun t => decide (k.now < t.expiration)]
    simp only [← decide_not, Nat.not_lt]
  unfold waiting
  rw [functors_handleTimerfd]
  simp only [handleTimerfd, List.countP_append, hbatch]
  omega

theorem waiting_cancelInLoop_le (s : ConnectorSession) (timerId : Option ℕ) :
    (s.cancelInLoop timerId).waiting ≤ s.waiting := by
  have hfewer := List.length_filter_le (fun t => decide (timerId ≠ some t.sequence)) s.timers
  exact Nat.add_le_add_right (Nat.add_le_add_right hfewer _) _

theorem waiting_stop_le (s : ConnectorSession) (inLoop : Bool) :
    (s.stop inLoop).waiting ≤ s.waiting := by
  unfold stop
  cases inLoop with
  | true => exact waiting_cancelInLoop_le ((s.note .stop).setConnect false) _
  | false => simp [waiting, functors, queueInLoop, note, setConnect]

theorem stop_state (s : ConnectorSession) (inLoop : Bool) :
    (s.stop inLoop).connector.state = s.connector.state := by
  cases inLoop <;> rfl

/-- `start` is called only in `kDisconnected`, when no other call waits. -/
def StartsIdle (s : ConnectorSession) (a : ConnectorAction) : Prop :=
  ∀ inLoop k, a = .start inLoop k → s.connector.state = .kDisconnected ∧ s.waiting = 0

theorem Single.starts (h : s.Single) (hsound : s.Sound) (hidle : s.StartsIdle a)
    (hstarts : s.Starts k a b) : b.waiting = 0 ∧ b.connector.state = .kDisconnected := by
  have hone := h.atMostOne
  cases hstarts with
  | retryTimer htodo =>
      have hwaiting := waiting_pop_retryTimer (k := k) htodo
      exact ⟨by omega, h.disconnected (by omega)⟩
  | functor htodo =>
      have hwaiting := waiting_pop_startInLoop (k := k) htodo
      exact ⟨by omega, h.disconnected (by omega)⟩
  | start =>
      obtain ⟨hstate, hzero⟩ := hidle true k rfl
      exact ⟨hzero, hstate⟩
  | restart hended =>
      refine ⟨h.eq_zero fun hstate => ?_, rfl⟩
      have hquiet := (hsound.connection (by simp [hstate])).2
      rw [hended] at hquiet
      cases hquiet

theorem Single.move (h : s.Single) (hidle : s.StartsIdle a) (hmove : s.Move a s') : s'.Single := by
  cases hmove with
  | poll _ htodo _ _ => exact h.congr (waiting_poll htodo).le rfl
  | event htodo hstate _ hfinishes =>
      have hzero := h.eq_zero (by simp [hstate])
      exact hfinishes.single (Nat.le_zero.mp (hzero ▸ waiting_pop_le htodo))
  | timerfd htodo =>
      exact h.congr ((waiting_handleTimerfd _ _).le.trans (waiting_pop_le htodo)) rfl
  | connection htodo _ => exact h.congr (waiting_pop_le htodo) rfl
  | @removeConnection k n ts htodo _ _ => exact h.congr (waiting_pop_le (k := k) htodo) rfl
  | @resetChannel k ts htodo => exact h.congr (waiting_pop_le (k := k) htodo) rfl
  | cancelInLoop htodo =>
      exact h.congr ((waiting_cancelInLoop_le _ _).trans (waiting_pop_le htodo)) rfl
  | takeFunctors _ htodo => exact h.congr (waiting_takeFunctors htodo).le rfl
  | endIteration _ _ => exact h.congr (Nat.le_refl _) rfl
  | @start k =>
      obtain ⟨hstate, hzero⟩ := hidle _ _ rfl
      refine ⟨?_, fun _ => hstate⟩
      have hone : ((s.starting k).queueInLoop .startInLoop).waiting = s.waiting + 1 := by
        simp [waiting, functors, queueInLoop, starting, note, setConnect, Nat.add_assoc]
      rw [hone, hzero]
  | stop => exact h.congr (waiting_stop_le s _) (stop_state s _)

theorem Single.next (h : s.Single) (hsound : s.Sound) (hidle : s.StartsIdle a)
    (hstep : system.Step s a s') : s'.Single := by
  rcases hsound.step hstep with ⟨k, b, hstarts, -, htries⟩ | hmove
  · exact htries.single (h.starts hsound hidle hstarts).1
  · exact h.move hidle hmove

/-- The assert of `startInLoop` holds. -/
theorem Single.exec_ne_startInLoop (h : s.Single) (hsound : s.Sound) (hen : s.enabled a)
    (hidle : s.StartsIdle a) : s.exec a ≠ .error .startInLoop := by
  intro herror
  obtain ⟨k, b, hstarts, ⟨-, hstate⟩ | ⟨heq, -⟩⟩ := (hsound.exec_error hen).mp herror
  · exact hstate (h.starts hsound hidle hstarts).2
  · cases heq

theorem single_new : new.Single := single_of_zero rfl

end ConnectorSession

/-! ## Calling `connect` again -/

namespace TcpClient

variable {c c' : TcpClient} {a : ClientAction} {k : Answers} {e : ConnectorFault}
  {ok : TcpClient → ClientAction → Prop}

theorem drive_error {b : ConnectorAction} : c.drive b = .error e ↔ c.session.exec b = .error e := by
  unfold drive
  cases hexec : c.session.exec b with
  | error e' => simp
  | ok s => simp

/-- A client fails where its connector does. -/
theorem exec_error (h : c.exec a = .error e) :
    (∃ b ∈ a.toConnector, c.session.exec b = .error e) ∨
      ∃ k s, a = .task k ∧ c.Closing k ∧ c.session.exec (.task k) = .ok s ∧
        s.exec (.restart k) = .error e := by
  cases a with
  | poll reports | takeFunctors | endIteration => exact .inl ⟨_, rfl, drive_error.mp h⟩
  | connect inLoop k =>
      exact .inl ⟨_, rfl, (drive_error (c := { c with connect := true })).mp h⟩
  | stop inLoop =>
      exact .inl ⟨_, rfl, (drive_error (c := { c with connect := false })).mp h⟩
  | disconnect | enableRetry => cases h
  | task k =>
      simp only [exec] at h
      cases hdrive : c.drive (.task k) with
      | error e' =>
          rw [hdrive, error_bind] at h
          cases h
          exact .inl ⟨_, rfl, drive_error.mp hdrive⟩
      | ok c₁ =>
          rw [hdrive, ok_bind] at h
          split at h
          · next hre =>
              exact .inr ⟨k, c₁.session, rfl, hre.1, (drive_ok hdrive).1, drive_error.mp h⟩
          · cases h

/-- `connect` is called only in `kDisconnected`, when no retry timer is still to run. -/
def ConnectsIdle (c : TcpClient) : ClientAction → Prop
  | .connect _ _ => c.session.connector.state = .kDisconnected ∧ c.session.waiting = 0
  | _ => True

instance (c : TcpClient) (a : ClientAction) : Decidable (c.ConnectsIdle a) := by
  cases a <;> unfold ConnectsIdle <;> infer_instance

theorem ConnectsIdle.startsIdle {b : ConnectorAction} (h : c.ConnectsIdle a)
    (ha : a.toConnector = some b) : c.session.StartsIdle b := by
  rintro inLoop k rfl
  obtain rfl := ClientAction.eq_connect ha
  exact h

theorem startsIdle_restart (s : ConnectorSession) (k : Answers) : s.StartsIdle (.restart k) := by
  intro inLoop k' h
  cases h

theorem startsIdle_task (s : ConnectorSession) (k : Answers) : s.StartsIdle (.task k) := by
  intro inLoop k' h
  cases h

theorem single_step (h : c.session.Single) (hsound : c.session.Sound) (hidle : c.ConnectsIdle a)
    (hstep : system.Step c a c') : c'.session.Single := by
  cases (step_cases hstep).1 with
  | aside _ hsession => exact hsession ▸ h
  | one ha hstep => exact h.next hsound (hidle.startsIdle ha) hstep
  | reconnect _ _ _ _ hstep hrestart =>
      exact (h.next hsound (startsIdle_task _ _) hstep).next (hsound.next hstep)
        (startsIdle_restart _ _) hrestart

theorem single_of_reachable (h : system.ReachableVia ConnectsIdle c) : c.session.Single := by
  refine h.invariant (I := fun c => c.session.Single)
    (fun c hc => hc ▸ ConnectorSession.single_new) fun c a c' hreach hsingle hidle hstep => ?_
  exact single_step hsingle (sound_of_reachable hreach) hidle hstep

/-- **Connecting again.** While every `connect` is called in `kDisconnected` with no retry timer still
to run, the assert of `startInLoop` holds; called in another state, `connect` fails it. -/
theorem reuse (h : system.ReachableVia ConnectsIdle c) :
    (∀ a, c.enabled a → c.ConnectsIdle a → c.exec a ≠ .error .startInLoop) ∧
    ∀ k, c.session.connector.state ≠ .kDisconnected →
      c.exec (.connect true k) = .error .startInLoop := by
  have hsound := sound_of_reachable h
  have hsingle := single_of_reachable h
  refine ⟨fun a hen hidle herror => ?_, fun k hstate => ?_⟩
  · rcases exec_error herror with ⟨b, hb, herror⟩ | ⟨k, s, rfl, hclosing, htask, herror⟩
    · exact hsingle.exec_ne_startInLoop hsound (hen b hb) (hidle.startsIdle hb) herror
    · have hstep : ConnectorSession.system.Step c.session (.task k) s := ⟨hen _ rfl, htask⟩
      exact (hsingle.next hsound (startsIdle_task _ k) hstep).exec_ne_startInLoop
        (hsound.next hstep) (restart_enabled hclosing htask) (startsIdle_restart s k) herror
  · exact drive_error.mpr (ConnectorSession.startInLoop_error.mpr (.inl ⟨rfl, hstate⟩))

/-- The answers the runs below need. -/
def answers (now : ℕ) (connect : ConnectErrno) (closes : Bool) : Answers :=
  ⟨now, connect, 0, false, closes⟩

/-- The first attempt is given up at once; `connect` is called again. -/
def secondAttemptRun : List ClientAction :=
  [.connect true (answers 0 .EACCES false), .connect true (answers 10 .EINPROGRESS false)]

theorem reuse_secondAttemptRun :
    ∃ c, system.ReachableVia ConnectsIdle c ∧
      c.session.history = [.start, .socket 0, .close 0, .start, .socket 1] ∧
      c.exec (.poll [(.connector, {.POLLOUT})]) ≠ .error .startInLoop ∧
      c.exec (.connect true (answers 20 .none false)) = .error .startInLoop := by
  obtain ⟨c, hc, hp⟩ := StepSystem.exists_reachableVia_of_runFrom? ConnectsIdle
    secondAttemptRun (M := system) (p := fun c => decide (
      c.session.history = [.start, .socket 0, .close 0, .start, .socket 1] ∧
      c.session.connector.state = .kConnecting ∧
      c.enabled (.poll [(.connector, {.POLLOUT})]))) rfl (by decide +kernel)
  obtain ⟨hhistory, hstate, hen⟩ := of_decide_eq_true hp
  obtain ⟨hnever, hfails⟩ := reuse hc
  exact ⟨c, hc, hhistory, hnever _ hen trivial, hfails _ (by simp [hstate])⟩

/-- `connect` and `stop` are called in the thread of the loop. -/
def CallsInLoop (_ : TcpClient) : ClientAction → Prop
  | .connect inLoop _ | .stop inLoop => inLoop = true
  | _ => True

instance (c : TcpClient) (a : ClientAction) : Decidable (c.CallsInLoop a) := by
  cases a <;> unfold CallsInLoop <;> infer_instance

/-- A connection is made, and closed by the peer. -/
def closedConnectionRun : List ClientAction :=
  [.connect true (answers 0 .EINPROGRESS false),
   .poll [(.connector, {.POLLOUT})], .task (answers 10 .none false),
   .takeFunctors, .task (answers 10 .none false), .endIteration,
   .poll [(.connection 0, {.POLLIN})], .task (answers 20 .none true), .takeFunctors, .endIteration]

/-- `connect` after that finds the connector in `kConnected`, where `handleWrite` left it. -/
theorem closedConnectionRun_fails :
    ∃ c, system.ReachableVia CallsInLoop c ∧ c.session.connection = none ∧
      ∃ a, c.enabled a ∧ c.CallsInLoop a ∧ c.exec a = .error .startInLoop := by
  obtain ⟨c, hc, hp⟩ := StepSystem.exists_reachableVia_of_runFrom? CallsInLoop
    closedConnectionRun (M := system) (p := fun c => decide (c.session.connection = none ∧
      c.enabled (.connect true (answers 30 .EINPROGRESS false)) ∧
      faultOf (c.exec (.connect true (answers 30 .EINPROGRESS false))) = some .startInLoop))
    rfl (by decide +kernel)
  obtain ⟨hclosed, hen, hfault⟩ := of_decide_eq_true hp
  exact ⟨c, hc, hclosed, _, hen, rfl, faultOf_eq_some.mp hfault⟩

end TcpClient

end MiniMuduo
