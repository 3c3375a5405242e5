import MiniMuduo.Net.ClientReuse

/-!
# Reconnecting

A client that calls `connect` once starts again by itself, from the retry timers and from the close
callback of its connection. `connecting` asserts that `channel_` was reset, which the handlers of the
connector's channel leave to a functor at the end of the iteration (`Phased`).

* `reconnecting_asserts` — no assert fails, except when a retry timer runs before `channel_` was
  reset, in the iteration that scheduled it: `hurriedRun`.
-/

namespace MiniMuduo

open Fallible

namespace ConnectorSession

variable {s s' b : ConnectorSession} {k : Answers} {n : Sock} {a : ConnectorAction}
  {e : ConnectorFault} {t : ConnectorTask} {ts : List ConnectorTask} {channel : ConnectorChannel}

/-! ## Where the loop is -/

/-- Where in an iteration the channel can wait for `resetChannel`: it is taken out of the poller while
the loop dispatches, and reset before the loop polls again. -/
structure Phased (s : ConnectorSession) : Prop where
  polling : s.phase = .polling → s.todo = [] ∧ .resetChannel ∉ s.pendingFunctors
  calling : s.phase = .callingPendingFunctors →
    s.todo.countP ConnectorTask.isEvent = 0 ∧ .resetChannel ∉ s.pendingFunctors
  connection : (∃ n, .connection n ∈ s.todo) →
    s.todo.countP ConnectorTask.isEvent = 0 ∧ ¬ s.Awaits
  ended : s.ended = true → ¬ s.Awaits

/-- The step leaves the queues of the loop alone. -/
structure SameLoop (s s' : ConnectorSession) : Prop where
  todo : s'.todo = s.todo
  phase : s'.phase = s.phase

theorem sameLoop_retry (s : ConnectorSession) (n : Sock) (k : Answers) :
    s.SameLoop (s.retry n k) := by
  unfold ConnectorSession.retry
  dsimp only
  split <;> exact ⟨rfl, rfl⟩

theorem retry_rest (s : ConnectorSession) (n : Sock) (k : Answers) :
    (s.retry n k).pendingFunctors = s.pendingFunctors ∧ (s.retry n k).ended = s.ended ∧
      (s.retry n k).connector.channel = s.connector.channel := by
  unfold ConnectorSession.retry
  dsimp only
  split <;> exact ⟨rfl, rfl, rfl⟩

theorem awaits_congr (h : s'.connector.channel = s.connector.channel) : s'.Awaits ↔ s.Awaits := by
  unfold Awaits attempt
  rw [h]

theorem Tries.sameLoop (h : s.Tries k s') : s.SameLoop s' := by
  cases h with
  | idle _ | connecting _ _ | close _ => exact ⟨rfl, rfl⟩
  | retry _ =>
      have hsame := sameLoop_retry s.socket s.nextSock k
      exact ⟨hsame.todo, hsame.phase⟩

theorem Tries.rest (h : s.Tries k s') :
    s'.pendingFunctors = s.pendingFunctors ∧ s'.ended = s.ended ∧ (s'.Awaits → s.Awaits) := by
  cases h with
  | idle _ | close _ => exact ⟨rfl, rfl, id⟩
  | connecting _ _ => exact ⟨rfl, rfl, fun hawaits => by cases hawaits.2⟩
  | retry _ =>
      obtain ⟨hpending, hended, hchannel⟩ := retry_rest s.socket s.nextSock k
      exact ⟨hpending, hended, (awaits_congr hchannel).mp⟩

theorem Finishes.sameLoop (h : s.Finishes channel k s') : s.SameLoop s' := by
  cases h with
  | idle | newConnection _ | close _ => exact ⟨rfl, rfl⟩
  | retry =>
      have hsame := sameLoop_retry (s.removed channel) channel.sockfd k
      exact ⟨hsame.todo, hsame.phase⟩

theorem Finishes.ended (h : s.Finishes channel k s') (hended : s.ended = false) :
    s'.ended = false := by
  cases h with
  | idle | close _ => exact hended
  | newConnection _ => rfl
  | retry => exact (retry_rest (s.removed channel) channel.sockfd k).2.1.trans hended

/-- A step that takes tasks away, adds none of the connector's channel or of connections, and queues
no `resetChannel`. -/
theorem Phased.congr (h : s.Phased) (hphase : s'.phase = s.phase)
    (hpolling : s.phase = .polling → s'.todo = [])
    (htodo : ∀ t ∈ s'.todo, t ∈ s.todo ∨ t.isRetryTimer = true)
    (hpending : .resetChannel ∈ s'.pendingFunctors → .resetChannel ∈ s.pendingFunctors)
    (hended : s'.ended = true → s.ended = true) (hawaits : s'.Awaits → s.Awaits) : s'.Phased := by
  have hevents : s.todo.countP ConnectorTask.isEvent = 0 →
      s'.todo.countP ConnectorTask.isEvent = 0 := by
    intro hzero
    refine List.countP_eq_zero.mpr fun t ht hevent => ?_
    rcases htodo t ht with hmem | hretry
    · exact List.countP_eq_zero.mp hzero t hmem hevent
    · cases t <;> simp [ConnectorTask.isEvent, ConnectorTask.isRetryTimer] at hevent hretry
  constructor
  case polling =>
    intro hp
    have hp' := hphase ▸ hp
    exact ⟨hpolling hp', fun hmem => (h.polling hp').2 (hpending hmem)⟩
  case calling =>
    intro hp
    obtain ⟨hzero, hnone⟩ := h.calling (hphase ▸ hp)
    exact ⟨hevents hzero, fun hmem => hnone (hpending hmem)⟩
  case connection =>
    rintro ⟨n, hn⟩
    have hmem : .connection n ∈ s.todo :=
      (htodo _ hn).resolve_right (by simp [ConnectorTask.isRetryTimer])
    obtain ⟨hzero, hnot⟩ := h.connection ⟨n, hmem⟩
    exact ⟨hevents hzero, fun hw => hnot (hawaits hw)⟩
  case ended => exact fun hw hawaits' => h.ended (hended hw) (hawaits hawaits')

theorem Phased.ne_polling (h : s.Phased) (htodo : s.todo = t :: ts) : s.phase ≠ .polling := by
  intro hphase
  rw [(h.polling hphase).1] at htodo
  cases htodo

theorem Phased.pop (h : s.Phased) (htodo : s.todo = t :: ts) : (s.pop ts k).Phased := by
  refine h.congr rfl (fun hphase => absurd hphase (h.ne_polling htodo)) (fun t' ht' => .inl ?_) id id
    id
  rw [htodo]
  exact List.mem_cons_of_mem t ht'

theorem Phased.starts (h : s.Phased) (hstarts : s.Starts k a b) : b.Phased := by
  cases hstarts with
  | retryTimer htodo | functor htodo => exact h.pop htodo
  | start => exact h.congr rfl (fun hphase => (h.polling hphase).1) (fun t ht => .inl ht) id id id
  | restart _ =>
      exact h.congr rfl (fun hphase => (h.polling hphase).1) (fun t ht => .inl ht) id
        (fun hended => by cases hended) id

theorem Phased.tries (h : s.Phased) (htries : s.Tries k s') : s'.Phased := by
  have hsame := htries.sameLoop
  obtain ⟨hpending, hended, hawaits⟩ := htries.rest
  exact h.congr hsame.phase (fun hphase => hsame.todo.trans (h.polling hphase).1)
    (fun t ht => .inl (hsame.todo ▸ ht)) (fun hmem => hpending ▸ hmem) (fun hw => hended ▸ hw)
    hawaits

theorem countP_isEvent_cons {revents : PollEvents} (htodo : s.todo = .event revents :: ts) :
    s.todo.countP ConnectorTask.isEvent ≠ 0 := by
  intro hzero
  have hmem : .event revents ∈ s.todo := by
    rw [htodo]
    exact List.mem_cons_self
  exact List.countP_eq_zero.mp hzero _ hmem rfl

theorem Phased.dispatching_of_event (h : s.Phased) {revents : PollEvents}
    (htodo : s.todo = .event revents :: ts) : s.phase = .dispatching := by
  cases hphase : s.phase with
  | dispatching => rfl
  | polling => exact absurd hphase (h.ne_polling htodo)
  | callingPendingFunctors => exact absurd (h.calling hphase).1 (countP_isEvent_cons htodo)

theorem Phased.event (h : s.Phased) (hsound : s.Sound) {revents : PollEvents}
    (htodo : s.todo = .event revents :: ts) (hfinishes : (s.pop ts k).Finishes channel k s') :
    s'.Phased := by
  have hsame := hfinishes.sameLoop
  have hphase : s'.phase = .dispatching := hsame.phase.trans (h.dispatching_of_event htodo)
  have hstate := (hsound.connecting_of_event htodo).1
  have hended : s'.ended = false := hfinishes.ended (hsound.connection (by simp [hstate])).2
  constructor
  case polling => simp [hphase]
  case calling => simp [hphase]
  case connection =>
    -- connections are reported in `kConnected`, where the connector's channel is not
    rintro ⟨n, hn⟩
    have hmem : .connection n ∈ s.todo := by
      rw [htodo]
      rw [hsame.todo] at hn
      exact List.mem_cons_of_mem _ hn
    exact absurd (h.connection ⟨n, hmem⟩).1 (countP_isEvent_cons htodo)
  case ended => simp [hended]

/-- A channel that waits for `resetChannel` has it in the queue. -/
theorem Sound.not_awaits (h : s.Sound) (hnone : .resetChannel ∉ s.functors) : ¬ s.Awaits := by
  intro hawaits
  have hresets := h.resets
  unfold Resets at hresets
  rw [if_pos hawaits, List.count_eq_zero.mpr hnone] at hresets
  cases hresets

theorem Sound.attempt_eq_none (h : s.Sound) (hstate : s.connector.state ≠ .kConnecting) :
    s.attempt = none := by
  by_contra hne
  exact hstate (h.attempt.mp hne)

theorem Phased.poll (h : s.Phased) (hsound : s.Sound)
    {reports : List (ClientChannel × PollEvents)} (hphase : s.phase = .polling) (htodo : s.todo = [])
    (hwatched : ∀ r ∈ reports, s.Watched r.1) :
    Phased { s with phase := .dispatching, todo := reports.map fun r => r.1.toTask r.2 } := by
  have hnot : ¬ s.Awaits := by
    refine hsound.not_awaits ?_
    unfold functors
    rw [htodo]
    simpa using (h.polling hphase).2
  constructor
  case polling => simp
  case calling => simp
  case connection =>
    rintro ⟨n, hn⟩
    refine ⟨?_, hnot⟩
    obtain ⟨⟨c, revents⟩, hr, heq⟩ := List.mem_map.mp hn
    obtain rfl : c = .connection n := by cases c <;> simp_all [ClientChannel.toTask]
    have hconnection : s.connection = some n := by
      have hestablished : n ∈ s.established := hwatched _ hr
      rwa [hsound.established, Option.mem_toList] at hestablished
    have hattempt := hsound.attempt_eq_none
      (by simp [hsound.kConnected_of_connection hconnection])
    rw [countP_isEvent_reports]
    refine List.count_eq_zero.mpr fun hmem => ?_
    obtain ⟨r, hr, hfst⟩ := List.mem_map.mp hmem
    have hw := hwatched r hr
    rw [hfst] at hw
    exact watched_connector.mp hw hattempt
  case ended => exact fun _ => hnot

theorem Phased.move (h : s.Phased) (hsound : s.Sound) (hmove : s.Move a s') : s'.Phased := by
  cases hmove with
  | poll hphase htodo _ hwatched => exact h.poll hsound hphase htodo hwatched
  | event htodo _ _ hfinishes => exact h.event hsound htodo hfinishes
  | @timerfd k ts htodo =>
      refine (h.pop (k := k) htodo).congr rfl (fun hphase => absurd hphase (h.ne_polling htodo))
        (fun t ht => ?_) id id id
      rcases List.mem_append.mp ht with ht | ht
      · obtain ⟨timer, -, rfl⟩ := List.mem_map.mp ht
        exact .inr rfl
      · exact .inl ht
  | connection htodo _ => exact h.pop htodo
  | @removeConnection k n ts htodo _ _ =>
      have hmem : .connection n ∈ s.todo := by
        rw [htodo]
        exact List.mem_cons_self
      have hpop := h.pop (k := k) htodo
      exact ⟨hpop.polling, hpop.calling, hpop.connection, fun _ => (h.connection ⟨n, hmem⟩).2⟩
  | @resetChannel k ts htodo =>
      have hpop := h.pop (k := k) htodo
      exact hpop.congr rfl (fun hphase => (hpop.polling hphase).1) (fun t ht => .inl ht) id id
        (fun hawaits => absurd rfl hawaits.1)
  | @cancelInLoop k _ ts htodo =>
      have hpop := h.pop (k := k) htodo
      exact hpop.congr rfl (fun hphase => (hpop.polling hphase).1) (fun t ht => .inl ht) id id id
  | takeFunctors _ _ =>
      constructor
      case polling => simp
      case calling =>
        refine fun _ => ⟨List.countP_eq_zero.mpr fun t ht => ?_, by simp⟩
        obtain ⟨f, -, rfl⟩ := List.mem_map.mp ht
        simp [ConnectorTask.isEvent]
      case connection => simp
      case ended => exact h.ended
  | endIteration hphase htodo =>
      constructor
      case polling => exact fun _ => ⟨htodo, (h.calling hphase).2⟩
      case calling => simp
      case connection => simp [htodo]
      case ended => exact h.ended
  | start =>
      refine h.congr rfl (fun hphase => (h.polling hphase).1) (fun t ht => .inl ht)
        (fun hmem => ?_) id id
      simpa [queueInLoop, starting, note, setConnect] using hmem
  | @stop inLoop =>
      cases inLoop with
      | true =>
          exact h.congr rfl (fun hphase => (h.polling hphase).1) (fun t ht => .inl ht) id id id
      | false =>
          refine h.congr rfl (fun hphase => (h.polling hphase).1) (fun t ht => .inl ht)
            (fun hmem => ?_) id id
          simpa [stop, queueInLoop, note, setConnect] using hmem

theorem Phased.next (h : s.Phased) (hsound : s.Sound) (hstep : system.Step s a s') : s'.Phased := by
  rcases hsound.step hstep with ⟨k, b, hstarts, -, htries⟩ | hmove
  · exact (h.starts hstarts).tries htries
  · exact h.move hsound hmove

theorem phased_new : new.Phased := by
  constructor
  case polling => exact fun _ => ⟨rfl, by simp [new]⟩
  case calling => simp [new]
  case connection => simp [new]
  case ended => simp [new]

/-! ## A connector that is started once -/

/-- `start` is called once. -/
def OneStart (s : ConnectorSession) (a : ConnectorAction) : Prop :=
  ∀ inLoop k, a = .start inLoop k → .start ∉ s.history

/-- What a connector that is started once relies on: before `start` nothing has happened, and nothing
happens before the queued `startInLoop` runs. -/
structure Once (s : ConnectorSession) : Prop where
  single : s.Single
  fresh : .start ∉ s.history →
    s.connector.state = .kDisconnected ∧ s.waiting = 0 ∧ s.connector.channel = none
  queued : .startInLoop ∈ s.functors → s.connector.channel = none

theorem Once.startsIdle (h : s.Once) (hone : s.OneStart a) : s.StartsIdle a := by
  intro inLoop k ha
  obtain ⟨hstate, hzero, -⟩ := h.fresh (hone inLoop k ha)
  exact ⟨hstate, hzero⟩

theorem startInLoop_not_mem (h : s.waiting = 0) : .startInLoop ∉ s.functors := by
  unfold waiting at h
  exact List.count_eq_zero.mp (by omega)

/-- Nothing calls `startInLoop` before `start`. -/
theorem Once.start_mem (h : s.Once) (hsound : s.Sound) (hstarts : s.Starts k a b) :
    .start ∈ b.history := by
  cases hstarts with
  | start => simp [starting, note, setConnect]
  | retryTimer htodo =>
      by_contra hfresh
      have hzero := (h.fresh hfresh).2.1
      rw [waiting_pop_retryTimer (k := k) htodo] at hzero
      cases hzero
  | functor htodo =>
      by_contra hfresh
      have hzero := (h.fresh hfresh).2.1
      rw [waiting_pop_startInLoop (k := k) htodo] at hzero
      cases hzero
  | restart hended =>
      by_contra hfresh
      have hquiet := (hsound.connection (by simp [(h.fresh hfresh).1])).2
      rw [hended] at hquiet
      cases hquiet

theorem Grows.mem_history (h : s.Grows s') {e : ConnectorEvent} (he : e ∈ s.history) :
    e ∈ s'.history := by
  obtain ⟨-, new, hnew, -⟩ := h
  rw [hnew]
  exact List.mem_append_left new he

theorem Once.tries (h : s.Once) (hsound : s.Sound) (hone : s.OneStart a) (hstarts : s.Starts k a b)
    (htries : b.Tries k s') : s'.Once := by
  have hzero := (h.single.starts hsound (h.startsIdle hone) hstarts).1
  have hstart : .start ∈ s'.history := htries.grows.mem_history (h.start_mem hsound hstarts)
  have hfunctors : s'.functors = b.functors := by
    unfold functors
    rw [htries.sameLoop.todo, htries.rest.1]
  constructor
  case single => exact htries.single hzero
  case fresh => exact fun hfresh => absurd hstart hfresh
  case queued => exact fun hmem => absurd (hfunctors ▸ hmem) (startInLoop_not_mem hzero)

theorem Finishes.functors (h : s.Finishes channel k s') (hmem : .startInLoop ∈ s'.functors) :
    .startInLoop ∈ s.functors := by
  have hremoved : .startInLoop ∈ (s.removed channel).functors → .startInLoop ∈ s.functors := by
    simp [ConnectorSession.functors, removed, queueInLoop, setChannel]
  cases h with
  | idle => exact hmem
  | newConnection _ | close _ => exact hremoved hmem
  | retry =>
      refine hremoved ?_
      have hsame := sameLoop_retry (s.removed channel) channel.sockfd k
      unfold ConnectorSession.functors at hmem ⊢
      rwa [hsame.todo, (retry_rest _ _ _).1] at hmem

/-- A step that neither starts anything nor touches the channel of an attempt. -/
theorem Once.congr (h : s.Once) (hsingle : s'.Single) (hwaiting : s'.waiting ≤ s.waiting)
    (hstate : s'.connector.state = s.connector.state)
    (hchannel : s.connector.channel = none → s'.connector.channel = none)
    (hhistory : .start ∈ s.history → .start ∈ s'.history)
    (hfunctors : .startInLoop ∈ s'.functors → .startInLoop ∈ s.functors) : s'.Once := by
  refine ⟨hsingle, fun hfresh => ?_, fun hmem => hchannel (h.queued (hfunctors hmem))⟩
  obtain ⟨hdisconnected, hzero, hnone⟩ := h.fresh fun hmem => hfresh (hhistory hmem)
  exact ⟨hstate.trans hdisconnected, by omega, hchannel hnone⟩

theorem Once.move (h : s.Once) (hone : s.OneStart a) (hmove : s.Move a s') : s'.Once := by
  have hsingle := h.single.move (h.startsIdle hone) hmove
  cases hmove with
  | poll _ htodo _ _ =>
      exact h.congr hsingle (waiting_poll htodo).le rfl id id fun hmem => functors_poll htodo ▸ hmem
  | event htodo hstate _ hfinishes =>
      have hzero := h.single.eq_zero (by simp [hstate])
      constructor
      case single => exact hsingle
      case fresh =>
        intro hfresh
        have hbefore := (h.fresh fun hmem => hfresh (hfinishes.grows.mem_history hmem)).1
        rw [hstate] at hbefore
        cases hbefore
      case queued =>
        intro hmem
        have hbefore := (functors_pop_sublist htodo).subset (hfinishes.functors hmem)
        exact absurd hbefore (startInLoop_not_mem hzero)
  | @timerfd k ts htodo =>
      refine h.congr hsingle ((waiting_handleTimerfd _ _).le.trans (waiting_pop_le htodo)) rfl id id ?_
      rw [functors_handleTimerfd]
      exact fun hmem => (functors_pop_sublist htodo).subset hmem
  | connection htodo _ =>
      exact h.congr hsingle (waiting_pop_le htodo) rfl id id
        fun hmem => (functors_pop_sublist htodo).subset hmem
  | @removeConnection k n ts htodo _ _ =>
      exact h.congr hsingle (waiting_pop_le (k := k) htodo) rfl id id
        fun hmem => (functors_pop_sublist (k := k) htodo).subset hmem
  | @resetChannel k ts htodo =>
      exact h.congr hsingle (waiting_pop_le (k := k) htodo) rfl (fun _ => rfl) id
        fun hmem => (functors_pop_sublist (k := k) htodo).subset hmem
  | @cancelInLoop k timerId ts htodo =>
      exact h.congr hsingle ((waiting_cancelInLoop_le _ _).trans (waiting_pop_le htodo)) rfl id id
        fun hmem => (functors_pop_sublist (k := k) htodo).subset hmem
  | takeFunctors _ htodo =>
      exact h.congr hsingle (waiting_takeFunctors htodo).le rfl id id
        fun hmem => functors_takeFunctors htodo ▸ hmem
  | endIteration _ _ => exact h.congr hsingle (Nat.le_refl _) rfl id id id
  | @start k =>
      obtain ⟨-, -, hnone⟩ := h.fresh (hone false k rfl)
      refine ⟨hsingle, fun hfresh => absurd ?_ hfresh, fun _ => hnone⟩
      simp [queueInLoop, starting, note, setConnect]
  | @stop inLoop =>
      refine h.congr hsingle (waiting_stop_le s _) (stop_state s _) ?_ ?_ ?_
      · cases inLoop <;> exact id
      · cases inLoop <;> exact fun hmem => List.mem_append_left _ hmem
      · cases inLoop with
        | true => exact id
        | false => simp [stop, functors, queueInLoop, note, setConnect]

theorem Once.next (h : s.Once) (hsound : s.Sound) (hone : s.OneStart a)
    (hstep : system.Step s a s') : s'.Once := by
  rcases hsound.step hstep with ⟨k, b, hstarts, -, htries⟩ | hmove
  · exact h.tries hsound hone hstarts htries
  · exact h.move hone hmove

theorem once_new : new.Once := ⟨single_new, fun _ => ⟨rfl, rfl, rfl⟩, fun _ => rfl⟩

/-- No retry timer goes on to wait for a socket while `channel_` waits for `resetChannel`. -/
def RetriesApart (s : ConnectorSession) : ConnectorAction → Prop
  | .task k =>
      match s.todo with
      | .retryTimer _ :: _ => ¬ s.Overlaps k
      | _ => True
  | _ => True

theorem retriesApart_of_retryTimer {timer : RetryTimer} (htodo : s.todo = .retryTimer timer :: ts) :
    s.RetriesApart (.task k) ↔ ¬ s.Overlaps k := by
  unfold RetriesApart
  rw [htodo]

theorem overlaps_of_not_apart (h : ¬ s.RetriesApart a) :
    ∃ k timer ts, a = .task k ∧ s.todo = .retryTimer timer :: ts ∧ s.Overlaps k := by
  unfold RetriesApart at h
  split at h
  · next k =>
      split at h
      · next timer ts htodo => exact ⟨k, timer, ts, rfl, htodo, not_not.mp h⟩
      · exact absurd trivial h
  · exact absurd trivial h

theorem Sound.channel_eq_none (h : s.Sound) (hstate : s.connector.state ≠ .kConnecting)
    (hnot : ¬ s.Awaits) : s.connector.channel = none := by
  by_contra hne
  exact hnot ⟨hne, h.attempt_eq_none hstate⟩

/-- **The asserts of a connector that is started once.** A step fails one exactly when a retry timer
runs before the channel of the last attempt was reset. -/
theorem Once.exec_error_iff (h : s.Once) (hsound : s.Sound) (hphased : s.Phased)
    (hone : s.OneStart a) (hen : s.enabled a) :
    (∃ e, s.exec a = .error e) ↔ ¬ s.RetriesApart a := by
  constructor
  · rintro ⟨e, herror⟩
    obtain ⟨k, b, hstarts, hassert⟩ := (hsound.exec_error hen).mp herror
    have hstate := (h.single.starts hsound (h.startsIdle hone) hstarts).2
    obtain ⟨-, -, hoverlaps⟩ := hassert.resolve_left fun hne => hne.2 hstate
    have hchannel := hoverlaps.2.2
    cases hstarts with
    | retryTimer htodo =>
        rw [retriesApart_of_retryTimer htodo]
        exact not_not.mpr hoverlaps
    | functor htodo =>
        refine absurd (h.queued ?_) hchannel
        simp [functors, htodo, ConnectorTask.functor?]
    | start => exact absurd (h.fresh (hone true k rfl)).2.2 hchannel
    | restart hended =>
        have hconnected : s.connector.state ≠ .kConnecting := by
          intro hconnecting
          have hquiet := (hsound.connection (by simp [hconnecting])).2
          rw [hended] at hquiet
          cases hquiet
        exact absurd (hsound.channel_eq_none hconnected (hphased.ended hended)) hchannel
  · intro hnot
    obtain ⟨k, timer, ts, rfl, htodo, hoverlaps⟩ := overlaps_of_not_apart hnot
    have hstarts : s.Starts k (.task k) (s.pop ts k) := .retryTimer htodo
    have hstate := (h.single.starts hsound (h.startsIdle hone) hstarts).2
    exact ⟨.connecting, (hsound.exec_error hen).mpr
      ⟨k, s.pop ts k, hstarts, .inr ⟨rfl, hstate, hoverlaps⟩⟩⟩

end ConnectorSession

namespace TcpClient

variable {c c' : TcpClient} {a : ClientAction} {k : Answers} {e : ConnectorFault}

/-- `connect` is called once. -/
def SingleConnect (c : TcpClient) : ClientAction → Prop
  | .connect _ _ => .start ∉ c.session.history
  | _ => True

instance (c : TcpClient) : ∀ a, Decidable (c.SingleConnect a)
  | .connect _ _ => inferInstanceAs (Decidable (_ ∉ _))
  | .poll _ | .task _ | .takeFunctors | .endIteration | .disconnect | .stop _ | .enableRetry =>
      inferInstanceAs (Decidable True)

/-- No retry timer runs, with a `::connect` that is not refused, before `channel_` was reset. -/
def RetriesApart (c : TcpClient) : ClientAction → Prop
  | .task k => c.session.RetriesApart (.task k)
  | _ => True

theorem SingleConnect.oneStart {b : ConnectorAction} (h : c.SingleConnect a)
    (ha : a.toConnector = some b) : c.session.OneStart b := by
  rintro inLoop k rfl
  obtain rfl := ClientAction.eq_connect ha
  exact h

theorem oneStart_task (s : ConnectorSession) (k : Answers) : s.OneStart (.task k) := by
  intro inLoop k' h
  cases h

theorem oneStart_restart (s : ConnectorSession) (k : Answers) : s.OneStart (.restart k) := by
  intro inLoop k' h
  cases h

/-- What holds of the connector of a client that calls `connect` once. -/
structure Steady (c : TcpClient) : Prop where
  once : c.session.Once
  phased : c.session.Phased

theorem steady_of_reachable (h : system.ReachableVia SingleConnect c) : c.Steady := by
  refine h.invariant
    (fun c hc => hc ▸ ⟨ConnectorSession.once_new, ConnectorSession.phased_new⟩)
    fun c a c' hreach hsteady hsingle hstep => ?_
  have hsound := sound_of_reachable hreach
  cases (step_cases hstep).1 with
  | aside _ hsession =>
      constructor
      case once => exact hsession ▸ hsteady.once
      case phased => exact hsession ▸ hsteady.phased
  | one ha hstep =>
      exact ⟨hsteady.once.next hsound (hsingle.oneStart ha) hstep, hsteady.phased.next hsound hstep⟩
  | reconnect _ _ _ _ hstep hrestart =>
      have honce := hsteady.once.next hsound (oneStart_task _ _) hstep
      have hphased := hsteady.phased.next hsound hstep
      have hsound' := hsound.next hstep
      exact ⟨honce.next hsound' (oneStart_restart _ _) hrestart, hphased.next hsound' hrestart⟩

/-- **The asserts of a client that reconnects by itself.** In every run with one `connect`, a step
fails an assert exactly when it runs a retry timer, with a `::connect` that is not refused, before
`channel_` was reset. -/
theorem reconnecting_asserts (h : system.ReachableVia SingleConnect c) (hen : c.enabled a)
    (hsingle : c.SingleConnect a) : (∃ e, c.exec a = .error e) ↔ ¬ c.RetriesApart a := by
  have hsound := sound_of_reachable h
  obtain ⟨honce, hphased⟩ := steady_of_reachable h
  constructor
  · rintro ⟨e, herror⟩
    rcases exec_error herror with ⟨b, hb, herror⟩ | ⟨k, s, rfl, hclosing, htask, herror⟩
    · have hnot := (honce.exec_error_iff hsound hphased (hsingle.oneStart hb) (hen b hb)).mp
        ⟨e, herror⟩
      cases a with
      | task k =>
          cases hb
          exact hnot
      | poll | takeFunctors | endIteration | connect | stop =>
          cases hb
          exact absurd trivial hnot
      | disconnect | enableRetry => cases hb
    · -- the restart of a closed connection does not fail
      have hstep : ConnectorSession.system.Step c.session (.task k) s := ⟨hen _ rfl, htask⟩
      have hnot := ((honce.next hsound (oneStart_task _ k) hstep).exec_error_iff (hsound.next hstep)
        (hphased.next hsound hstep) (oneStart_restart s k) (restart_enabled hclosing htask)).mp
        ⟨e, herror⟩
      exact absurd trivial hnot
  · intro hnot
    cases a with
    | task k =>
        obtain ⟨e, herror⟩ := (honce.exec_error_iff hsound hphased (oneStart_task _ k)
          (hen _ rfl)).mpr hnot
        refine ⟨e, ?_⟩
        simp only [exec]
        rw [drive_error.mpr herror, error_bind]
    | poll | takeFunctors | endIteration | connect | stop | disconnect | enableRetry =>
        exact absurd trivial hnot

/-- The connection is refused late, so the timer of the retry is due in a later iteration. -/
def retriedRun : List ClientAction :=
  [.enableRetry, .connect true (answers 0 .EINPROGRESS false),
   .poll [(.connector, {.POLLERR})], .task (answers 10 .none false),
   .takeFunctors, .task (answers 10 .none false), .endIteration,
   .poll [(.timerfd, {.POLLIN})], .task (answers 500010 .none false)]

theorem reconnecting_asserts_retriedRun :
    ∃ c, system.ReachableVia SingleConnect c ∧ c.enabled (.task (answers 500010 .EINPROGRESS false)) ∧
      ((∃ e, c.exec (.task (answers 500010 .EINPROGRESS false)) = .error e) ↔
        ¬ c.RetriesApart (.task (answers 500010 .EINPROGRESS false))) := by
  obtain ⟨c, hc, hp⟩ := StepSystem.exists_reachableVia_of_runFrom? SingleConnect
    retriedRun (M := system)
    (p := fun c => decide (c.enabled (.task (answers 500010 .EINPROGRESS false)))) rfl
    (by decide +kernel)
  have hen := of_decide_eq_true hp
  exact ⟨c, hc, hen, reconnecting_asserts hc hen trivial⟩

/-- Connector and timerfd are reported together; handling the error takes until the new timer is
due. -/
def hurriedRun : List ClientAction :=
  [.enableRetry, .connect true (answers 0 .EINPROGRESS false),
   .poll [(.connector, {.POLLERR}), (.timerfd, {.POLLIN})],
   .task (answers 10 .none false), .task (answers 500010 .none false)]

theorem hurriedRun_fails :
    ∃ c, system.ReachableVia SingleConnect c ∧ c.retry = true ∧
      ∃ a, c.enabled a ∧ c.SingleConnect a ∧ c.exec a = .error .connecting := by
  obtain ⟨c, hc, hp⟩ := StepSystem.exists_reachableVia_of_runFrom? SingleConnect
    hurriedRun (M := system) (p := fun c => decide (c.retry = true ∧
      c.enabled (.task (answers 500020 .EINPROGRESS false)) ∧
      faultOf (c.exec (.task (answers 500020 .EINPROGRESS false))) = some .connecting))
    rfl (by decide +kernel)
  obtain ⟨hretry, hen, hfault⟩ := of_decide_eq_true hp
  exact ⟨c, hc, hretry, _, hen, trivial, faultOf_eq_some.mp hfault⟩

end TcpClient

end MiniMuduo
