import MiniMuduo.Net.Connector

/-!
# The sockets of a connector

`Tries` and `Finishes` say what `startInLoop` and the callbacks of the connector's channel do; the
rest goes by these cases. Outside a handler the connector is `Sound`: it has a socket of its own
exactly while it is in `kConnecting`, and every other socket it opened was closed or handed over, once.
Inside a handler it is `Holding` the socket the handler works on.

* `sockets_disposed_once` — every socket is closed once or handed over once, never both.
* `exec_error` — the only asserts that can fail are the ones of `startInLoop` and `connecting`.
-/

namespace MiniMuduo

open Fallible

namespace ConnectorSession

variable {s s' : ConnectorSession} {k : Answers} {n m : Sock} {a : ConnectorAction}
  {e : ConnectorFault} {revents : PollEvents} {t : ConnectorTask} {ts : List ConnectorTask}
  {channel : ConnectorChannel} {now : ℕ}

/-! ## What the handlers do -/

/-- `connecting`, when its assert holds. -/
def attempting (s : ConnectorSession) (sockfd : Sock) : ConnectorSession :=
  (s.setState .kConnecting).setChannel (some ⟨sockfd, true⟩)

/-- What `startInLoop` does when its asserts hold. -/
inductive Tries (s : ConnectorSession) (k : Answers) : ConnectorSession → Prop where
  | idle (hconnect : s.connector.connect = false) : Tries s k s
  | connecting (hconnect : s.connector.connect = true) (hchannel : s.connector.channel = none) :
      Tries s k (s.socket.attempting s.nextSock)
  | retry (hconnect : s.connector.connect = true) : Tries s k (s.socket.retry s.nextSock k)
  | close (hconnect : s.connector.connect = true) : Tries s k (s.socket.note (.close s.nextSock))

/-- `removeAndResetChannel`, when there is a channel. -/
def removed (s : ConnectorSession) (channel : ConnectorChannel) : ConnectorSession :=
  (s.setChannel (some { channel with registered := false })).queueInLoop .resetChannel

/-- What the callbacks of the connector's channel do in `kConnecting`. -/
inductive Finishes (s : ConnectorSession) (channel : ConnectorChannel) (k : Answers) :
    ConnectorSession → Prop where
  | idle : Finishes s channel k s
  | retry : Finishes s channel k ((s.removed channel).retry channel.sockfd k)
  | newConnection (hconnect : s.connector.connect = true) :
      Finishes s channel k
        (((s.removed channel).setState .kConnected).newConnectionCallback channel.sockfd)
  | close (hconnect : s.connector.connect = false) :
      Finishes s channel k
        (((s.removed channel).setState .kConnected).note (.close channel.sockfd))

theorem connecting_ok (h : s.connecting n = .ok s') :
    s.connector.channel = none ∧ s' = s.attempting n := by
  unfold connecting at h
  obtain ⟨_, hchannel, h⟩ := bind_eq_ok.mp h
  cases h
  exact ⟨check_eq_ok.mp hchannel, rfl⟩

theorem startInLoop_ok (h : s.startInLoop k = .ok s') :
    s.connector.state = .kDisconnected ∧ s.Tries k s' := by
  unfold startInLoop at h
  obtain ⟨_, hstate, h⟩ := bind_eq_ok.mp h
  refine ⟨check_eq_ok.mp hstate, ?_⟩
  split at h
  · next hconnect =>
      unfold connect at h
      dsimp only at h
      split at h
      · obtain ⟨hchannel, rfl⟩ := connecting_ok h
        exact .connecting hconnect hchannel
      · cases h
        exact .retry hconnect
      · cases h
        exact .close hconnect
  · next hconnect =>
      cases h
      exact .idle (by simpa using hconnect)

/-- The connector goes on to wait for a socket while `channel_` is still set. -/
def Overlaps (s : ConnectorSession) (k : Answers) : Prop :=
  s.connector.connect = true ∧ k.connect.toCase = .connecting ∧ s.connector.channel ≠ none

theorem startInLoop_error :
    s.startInLoop k = .error e ↔
      e = .startInLoop ∧ s.connector.state ≠ .kDisconnected ∨
        e = .connecting ∧ s.connector.state = .kDisconnected ∧ s.Overlaps k := by
  unfold startInLoop Overlaps
  by_cases hstate : s.connector.state = .kDisconnected
  · rw [check_of_pos hstate, ok_bind]
    cases hconnect : s.connector.connect with
    | false => simp [hstate]
    | true =>
        unfold connect connecting
        cases hcase : k.connect.toCase with
        | connecting =>
            by_cases hchannel : s.connector.channel = none
            · simp [hchannel, socket, note, setState, hstate]
            · simp [hchannel, socket, note, setState, hstate, eq_comm]
        | retry => simp [hstate]
        | close => simp [hstate]
  · rw [check_of_neg hstate, error_bind]
    simp only [Except.error.injEq, ne_eq, hstate, not_false_eq_true, and_true, false_and, and_false,
      or_false]
    exact eq_comm

theorem removeAndResetChannel_of_some (h : s.connector.channel = some channel) :
    s.removeAndResetChannel = .ok (channel.sockfd, s.removed channel) := by
  unfold removeAndResetChannel
  rw [h]
  rfl

theorem handleEvent_eq (s : ConnectorSession) (revents : PollEvents) (k : Answers) :
    s.handleEvent revents k =
      (if (revents ∩ {.POLLERR, .POLLNVAL}).Nonempty then s.handleError k else .ok s) >>=
        fun s => if .POLLOUT ∈ revents then s.handleWrite k else .ok s := by
  unfold handleEvent Channel.handleEvent
  split <;> split <;> split <;> split <;>
    simp [List.foldlM_cons, callback]

@[simp] theorem retry_state : (s.retry n k).connector.state = .kDisconnected := by
  unfold retry
  dsimp only
  split <;> rfl

/-- In `kConnecting` the callbacks do not fail, whatever was reported. -/
theorem handleEvent_finishes (revents : PollEvents) (k : Answers)
    (hstate : s.connector.state = .kConnecting) (hchannel : s.connector.channel = some channel) :
    ∃ s', s.handleEvent revents k = .ok s' ∧ s.Finishes channel k s' := by
  have hremoved := removeAndResetChannel_of_some hchannel
  rw [handleEvent_eq]
  split
  · -- the error callback closes the socket, so that the write callback finds `kDisconnected`
    refine ⟨(s.removed channel).retry channel.sockfd k, ?_, .retry⟩
    unfold handleError handleWrite
    simp [hstate, hremoved]
  · rw [ok_bind]
    split
    · unfold handleWrite
      rw [if_pos hstate, hremoved, ok_bind]
      dsimp only
      split
      · exact ⟨_, rfl, .retry⟩
      · split
        · exact ⟨_, rfl, .retry⟩
        · split
          · next hconnect => exact ⟨_, rfl, .newConnection hconnect⟩
          · next hconnect => exact ⟨_, rfl, .close (Bool.eq_false_iff.mpr hconnect)⟩
    · exact ⟨s, rfl, .idle⟩

/-! ## Whose socket it is -/

/-- How often a socket was closed or handed over. -/
def disposals (s : ConnectorSession) (n : Sock) : ℕ :=
  s.history.count (.close n) + s.history.count (.newConnectionCallback n)

/-- Every socket that was opened, except the one in `held`, was closed or handed over, once. -/
structure Accounted (s : ConnectorSession) (held : Option Sock) : Prop where
  sockets : ∀ n, .socket n ∈ s.history ↔ n < s.nextSock
  bound : ∀ n ∈ held, n < s.nextSock
  disposals : ∀ n, s.disposals n = if n < s.nextSock ∧ held ≠ some n then 1 else 0

/-- The socket of the channel, while the channel is in the poller. -/
def attempt (s : ConnectorSession) : Option Sock :=
  match s.connector.channel with
  | some ⟨sockfd, true⟩ => some sockfd
  | _ => none

/-- The channel is out of the poller and waits for `resetChannel`. -/
def Awaits (s : ConnectorSession) : Prop := s.connector.channel ≠ none ∧ s.attempt = none

instance (s : ConnectorSession) : Decidable s.Awaits := inferInstanceAs (Decidable (_ ∧ _))

end ConnectorSession

def ConnectorTask.functor? : ConnectorTask → Option ConnectorFunctor
  | .functor f => some f
  | _ => none

def ConnectorTask.isEvent : ConnectorTask → Bool
  | .event _ => true
  | _ => false

namespace ConnectorSession

variable {s s' : ConnectorSession} {k : Answers} {n m : Sock} {a : ConnectorAction}
  {e : ConnectorFault} {revents : PollEvents} {t : ConnectorTask} {ts : List ConnectorTask}
  {channel : ConnectorChannel} {now : ℕ}

/-- The functors that wait, in the order in which they will run. -/
def functors (s : ConnectorSession) : List ConnectorFunctor :=
  s.todo.filterMap ConnectorTask.functor? ++ s.pendingFunctors

/-- `resetChannel` waits exactly for a channel that was taken out of the poller. -/
def Resets (s : ConnectorSession) : Prop :=
  s.functors.count .resetChannel = if s.Awaits then 1 else 0

/-- What holds outside a handler. -/
structure Sound (s : ConnectorSession) : Prop where
  accounted : s.Accounted s.attempt
  attempt : s.attempt ≠ none ↔ s.connector.state = .kConnecting
  resets : s.Resets
  events : s.todo.countP ConnectorTask.isEvent ≤ if s.connector.state = .kConnecting then 1 else 0
  established : s.established = s.connection.toList
  connection : s.connector.state ≠ .kConnected → s.connection = none ∧ s.ended = false
  ended : s.ended = true → s.connection = none

/-- What holds while a handler has the socket `n` in its hands. -/
structure Holding (s : ConnectorSession) (n : Sock) : Prop where
  accounted : s.Accounted (some n)
  attempt : s.attempt = none
  resets : s.Resets
  events : s.todo.countP ConnectorTask.isEvent = 0
  established : s.established = []
  connection : s.connection = none
  ended : s.ended = false

theorem Accounted.socket (h : s.Accounted none) : s.socket.Accounted (some s.nextSock) where
  sockets := by
    intro n
    have hn := h.sockets n
    simp only [ConnectorSession.socket, note, List.mem_append, hn, List.mem_singleton,
      ConnectorEvent.socket.injEq]
    exact Nat.lt_succ_iff_lt_or_eq.symm
  bound := by
    intro n hn
    cases hn
    exact Nat.lt_succ_self _
  disposals := by
    intro n
    have hn := h.disposals n
    simp only [ConnectorSession.disposals, ConnectorSession.socket, note, List.count_append,
      ne_eq, reduceCtorEq, not_false_eq_true, and_true, Option.some.injEq] at hn ⊢
    simp only [List.count_singleton, beq_iff_eq, reduceCtorEq, if_false]
    grind

theorem Accounted.close (h : s.Accounted (some n)) : (s.note (.close n)).Accounted none where
  sockets := by
    intro m
    simpa [note] using h.sockets m
  bound := by
    intro m hm
    cases hm
  disposals := by
    intro m
    have hm := h.disposals m
    have hn := h.bound n rfl
    simp only [ConnectorSession.disposals, note, List.count_append, List.count_singleton] at hm ⊢
    grind

theorem Accounted.newConnectionCallback (h : s.Accounted (some n)) :
    (s.newConnectionCallback n).Accounted none where
  sockets := by
    intro m
    simpa [ConnectorSession.newConnectionCallback, note] using h.sockets m
  bound := by
    intro m hm
    cases hm
  disposals := by
    intro m
    have hm := h.disposals m
    have hn := h.bound n rfl
    simp only [ConnectorSession.disposals, ConnectorSession.newConnectionCallback, note,
      List.count_append, List.count_singleton] at hm ⊢
    grind

/-! ## The handlers keep the connector sound -/

/-- `Holding` does not depend on `state_`. -/
theorem Holding.setState (h : s.Holding n) (state : ConnectorState) :
    (s.setState state).Holding n :=
  ⟨⟨h.accounted.sockets, h.accounted.bound, h.accounted.disposals⟩, h.attempt, h.resets, h.events,
    h.established, h.connection, h.ended⟩

theorem Holding.close (h : s.Holding n) (hstate : s.connector.state ≠ .kConnecting) :
    (s.note (.close n)).Sound where
  accounted := by
    have hattempt : (s.note (.close n)).attempt = none := h.attempt
    rw [hattempt]
    exact h.accounted.close
  attempt := ⟨fun hsome => absurd h.attempt hsome, fun hconn => absurd hconn hstate⟩
  resets := h.resets
  events := by
    have hevents : (s.note (.close n)).todo.countP ConnectorTask.isEvent = 0 := h.events
    rw [hevents]
    exact Nat.zero_le _
  established := by
    show s.established = s.connection.toList
    rw [h.established, h.connection]
    rfl
  connection := fun _ => ⟨h.connection, h.ended⟩
  ended := fun _ => h.connection

/-- The members that `Sound` looks at, apart from history and queues. -/
def view (s : ConnectorSession) :=
  (s.connector.state, s.connector.channel, s.nextSock, s.connection, s.established, s.ended)

/-- A step that leaves sockets, channel and connection alone. -/
theorem Sound.congr (h : s.Sound) (hview : s'.view = s.view)
    (hhistory : ∀ n, s'.history.count (.socket n) = s.history.count (.socket n) ∧
      s'.disposals n = s.disposals n)
    (hevents : s'.todo.countP ConnectorTask.isEvent ≤
      if s.connector.state = .kConnecting then 1 else 0)
    (hresets : s'.functors.count .resetChannel = s.functors.count .resetChannel) : s'.Sound := by
  simp only [view, Prod.mk.injEq] at hview
  obtain ⟨hstate, hchannel, hsock, hconnection, hestablished, hended⟩ := hview
  have hattempt : s'.attempt = s.attempt := by rw [ConnectorSession.attempt, hchannel]; rfl
  have hawaits : s'.Awaits ↔ s.Awaits := by rw [Awaits, hchannel, hattempt]; rfl
  constructor
  case accounted =>
    rw [hattempt]
    refine ⟨fun n => ?_, fun n hn => hsock ▸ h.accounted.bound n hn, fun n => ?_⟩
    · rw [hsock, ← h.accounted.sockets n, ← List.count_pos_iff, (hhistory n).1, List.count_pos_iff]
    · rw [hsock, (hhistory n).2]
      exact h.accounted.disposals n
  case attempt => rw [hattempt, hstate]; exact h.attempt
  case resets =>
    have hbefore := h.resets
    unfold Resets at hbefore ⊢
    rw [hresets, hbefore]
    simp only [hawaits]
  case events => rw [hstate]; exact hevents
  case established => rw [hestablished, hconnection]; exact h.established
  case connection => rw [hstate, hconnection, hended]; exact h.connection
  case ended => rw [hended, hconnection]; exact h.ended

theorem Holding.retry (h : s.Holding n) : (s.retry n k).Sound := by
  have hclosed : ((s.note (.close n)).setState .kDisconnected).Sound :=
    (h.setState .kDisconnected).close (by simp [ConnectorSession.setState])
  unfold ConnectorSession.retry
  dsimp only
  split
  · refine hclosed.congr rfl (fun m => ?_) hclosed.events rfl
    simp [runAfter, note, ConnectorSession.setState, disposals, List.count_cons]
  · exact hclosed

theorem Holding.newConnectionCallback (h : s.Holding n) (hstate : s.connector.state = .kConnected) :
    (s.newConnectionCallback n).Sound := by
  have hattempt : (s.newConnectionCallback n).attempt = none := h.attempt
  have hevents : (s.newConnectionCallback n).todo.countP ConnectorTask.isEvent = 0 := h.events
  constructor
  case accounted => rw [hattempt]; exact h.accounted.newConnectionCallback
  case attempt =>
    rw [hattempt]
    exact ⟨fun hne => absurd rfl hne, fun hconn => by cases hstate.symm.trans hconn⟩
  case resets => exact h.resets
  case events => rw [hevents]; exact Nat.zero_le _
  case established => simp [ConnectorSession.newConnectionCallback, note, h.established]
  case connection => exact fun hne => absurd hstate hne
  case ended => simp [ConnectorSession.newConnectionCallback]

theorem Holding.attempting (h : s.Holding n) (hchannel : s.connector.channel = none) :
    (s.attempting n).Sound := by
  have hattempt : (s.attempting n).attempt = some n := rfl
  have hevents : (s.attempting n).todo.countP ConnectorTask.isEvent = 0 := h.events
  constructor
  case accounted =>
    rw [hattempt]
    exact ⟨h.accounted.sockets, h.accounted.bound, h.accounted.disposals⟩
  case attempt =>
    rw [hattempt]
    exact ⟨fun _ => rfl, fun _ => by simp⟩
  case resets =>
    have hresets := h.resets
    unfold Resets at hresets ⊢
    rw [if_neg fun hawaits => by cases hawaits.2]
    rwa [if_neg fun hawaits => hawaits.1 hchannel] at hresets
  case events => rw [hevents]; exact Nat.zero_le _
  case established =>
    show s.established = s.connection.toList
    rw [h.established, h.connection]
    rfl
  case connection => exact fun _ => ⟨h.connection, h.ended⟩
  case ended => exact fun _ => h.connection

/-- `connect` opens a socket. -/
theorem Sound.socket (h : s.Sound) (hstate : s.connector.state = .kDisconnected) :
    s.socket.Holding s.nextSock := by
  have hattempt : s.attempt = none := by
    by_contra hne
    have hconnecting := h.attempt.mp hne
    rw [hstate] at hconnecting
    cases hconnecting
  have hquiet := h.connection (by simp [hstate])
  have hevents := h.events
  rw [if_neg (by simp [hstate])] at hevents
  constructor
  case accounted => exact (hattempt ▸ h.accounted).socket
  case attempt => exact hattempt
  case resets => exact h.resets
  case events => exact Nat.le_zero.mp hevents
  case established =>
    show s.established = []
    rw [h.established, hquiet.1]
    rfl
  case connection => exact hquiet.1
  case ended => exact hquiet.2

/-- A handler takes the channel out of the poller. -/
theorem Sound.removed (h : s.Sound) (hstate : s.connector.state = .kConnecting)
    (hchannel : s.connector.channel = some channel)
    (hevents : s.todo.countP ConnectorTask.isEvent = 0) :
    (s.removed channel).Holding channel.sockfd := by
  have hquiet := h.connection (by simp [hstate])
  have hattempt : s.attempt = some channel.sockfd := by
    have hsome := h.attempt.mpr hstate
    unfold ConnectorSession.attempt at hsome ⊢
    rw [hchannel] at hsome ⊢
    obtain ⟨sockfd, registered⟩ := channel
    cases registered with
    | true => rfl
    | false => exact absurd rfl hsome
  have haccounted := h.accounted
  rw [hattempt] at haccounted
  constructor
  case accounted => exact ⟨haccounted.sockets, haccounted.bound, haccounted.disposals⟩
  case attempt => rfl
  case resets =>
    have hresets := h.resets
    unfold Resets at hresets ⊢
    rw [if_neg fun hawaits => by cases hattempt.symm.trans hawaits.2] at hresets
    rw [if_pos ⟨by simp [ConnectorSession.removed, setChannel, queueInLoop], rfl⟩]
    unfold functors at hresets ⊢
    simp only [ConnectorSession.removed, queueInLoop, setChannel, ← List.append_assoc,
      List.count_append, List.count_cons_self, List.count_nil] at hresets ⊢
    omega
  case events => exact hevents
  case established =>
    show s.established = []
    rw [h.established, hquiet.1]
    rfl
  case connection => exact hquiet.1
  case ended => exact hquiet.2

theorem Sound.tries (h : s.Sound) (hstate : s.connector.state = .kDisconnected)
    (htries : s.Tries k s') : s'.Sound := by
  have hholding := h.socket hstate
  cases htries with
  | idle _ => exact h
  | connecting _ hchannel => exact hholding.attempting hchannel
  | retry _ => exact hholding.retry
  | close _ => exact hholding.close (by simp [ConnectorSession.socket, note, hstate])

theorem Sound.finishes (h : s.Sound) (hstate : s.connector.state = .kConnecting)
    (hchannel : s.connector.channel = some channel)
    (hevents : s.todo.countP ConnectorTask.isEvent = 0) (hfinishes : s.Finishes channel k s') :
    s'.Sound := by
  have hholding := h.removed hstate hchannel hevents
  cases hfinishes with
  | idle => exact h
  | retry => exact hholding.retry
  | newConnection _ => exact (hholding.setState .kConnected).newConnectionCallback rfl
  | close _ => exact (hholding.setState .kConnected).close (by simp [ConnectorSession.setState])

/-! ## What a step can do -/

/-- The next task is taken. -/
def pop (s : ConnectorSession) (ts : List ConnectorTask) (k : Answers) : ConnectorSession :=
  { s with todo := ts, clock := k.now }

/-- `start` before it runs or queues `startInLoop`. -/
def starting (s : ConnectorSession) (k : Answers) : ConnectorSession :=
  (note { s with clock := k.now } .start).setConnect true

/-- `restart` before it runs `startInLoop`. -/
def restarting (s : ConnectorSession) (k : Answers) : ConnectorSession :=
  let s := setState { s with clock := k.now, ended := false } .kDisconnected
  { s with
    connector := { s.connector with retryDelayMs := Connector.kInitRetryDelayMs, connect := true } }

/-- The step runs `startInLoop`, in the state given last. -/
inductive Starts (s : ConnectorSession) (k : Answers) :
    ConnectorAction → ConnectorSession → Prop where
  | retryTimer {timer : RetryTimer} {ts : List ConnectorTask}
      (htodo : s.todo = .retryTimer timer :: ts) : Starts s k (.task k) (s.pop ts k)
  | functor {ts : List ConnectorTask} (htodo : s.todo = .functor .startInLoop :: ts) :
      Starts s k (.task k) (s.pop ts k)
  | start : Starts s k (.start true k) (s.starting k)
  | restart (hended : s.ended = true) : Starts s k (.restart k) (s.restarting k)

/-- The other steps. -/
inductive Move (s : ConnectorSession) : ConnectorAction → ConnectorSession → Prop where
  | poll {reports : List (ClientChannel × PollEvents)} (hphase : s.phase = .polling)
      (htodo : s.todo = []) (hnodup : (reports.map Prod.fst).Nodup)
      (hwatched : ∀ r ∈ reports, s.Watched r.1) :
      Move s (.poll reports)
        { s with phase := .dispatching, todo := reports.map fun r => r.1.toTask r.2 }
  | event {k : Answers} {revents : PollEvents} {ts : List ConnectorTask} {channel : ConnectorChannel}
      {s' : ConnectorSession} (htodo : s.todo = .event revents :: ts)
      (hstate : s.connector.state = .kConnecting) (hchannel : s.connector.channel = some channel)
      (hfinishes : (s.pop ts k).Finishes channel k s') : Move s (.task k) s'
  | timerfd {k : Answers} {ts : List ConnectorTask} (htodo : s.todo = .timerfd :: ts) :
      Move s (.task k) ((s.pop ts k).handleTimerfd k)
  | connection {k : Answers} {n : Sock} {ts : List ConnectorTask}
      (htodo : s.todo = .connection n :: ts) (hcloses : k.closes = false) :
      Move s (.task k) (s.pop ts k)
  | removeConnection {k : Answers} {n : Sock} {ts : List ConnectorTask}
      (htodo : s.todo = .connection n :: ts) (hcloses : k.closes = true)
      (hconnection : s.connection = some n) :
      Move s (.task k) { s.pop ts k with
        connection := none, established := s.established.erase n, ended := true }
  | resetChannel {k : Answers} {ts : List ConnectorTask}
      (htodo : s.todo = .functor .resetChannel :: ts) : Move s (.task k) (s.pop ts k).resetChannel
  | cancelInLoop {k : Answers} {timerId : Option ℕ} {ts : List ConnectorTask}
      (htodo : s.todo = .functor (.cancelInLoop timerId) :: ts) :
      Move s (.task k) ((s.pop ts k).cancelInLoop timerId)
  | takeFunctors (hphase : s.phase = .dispatching) (htodo : s.todo = []) :
      Move s .takeFunctors { s with
        phase := .callingPendingFunctors
        todo := s.pendingFunctors.map .functor
        pendingFunctors := [] }
  | endIteration (hphase : s.phase = .callingPendingFunctors) (htodo : s.todo = []) :
      Move s .endIteration { s with phase := .polling }
  | start {k : Answers} : Move s (.start false k) ((s.starting k).queueInLoop .startInLoop)
  | stop {inLoop : Bool} : Move s (.stop inLoop) (s.stop inLoop)

/-- Only a connector in `kConnecting` has an event to handle. -/
theorem Sound.connecting_of_event (h : s.Sound) (htodo : s.todo = .event revents :: ts) :
    s.connector.state = .kConnecting ∧ ts.countP ConnectorTask.isEvent = 0 := by
  have hevents := h.events
  have hone : (ConnectorTask.event revents).isEvent = true := rfl
  rw [htodo, List.countP_cons, if_pos hone] at hevents
  split at hevents
  · next hstate => exact ⟨hstate, by omega⟩
  · omega

theorem Sound.channel_of_connecting (h : s.Sound) (hstate : s.connector.state = .kConnecting) :
    ∃ channel, s.connector.channel = some channel := by
  cases hchannel : s.connector.channel with
  | some channel => exact ⟨channel, rfl⟩
  | none =>
      refine absurd ?_ (h.attempt.mpr hstate)
      rw [ConnectorSession.attempt, hchannel]

/-- A step runs `startInLoop`, or it does not fail. -/
theorem Sound.exec_cases (h : s.Sound) (hen : s.enabled a) :
    (∃ k b, s.Starts k a b ∧ s.exec a = b.startInLoop k) ∨ ∃ s', s.exec a = .ok s' ∧ s.Move a s' := by
  cases a with
  | poll reports => exact .inr ⟨_, rfl, .poll hen.1 hen.2.1 hen.2.2.1 hen.2.2.2⟩
  | takeFunctors => exact .inr ⟨_, rfl, .takeFunctors hen.1 hen.2⟩
  | endIteration => exact .inr ⟨_, rfl, .endIteration hen.1 hen.2⟩
  | stop inLoop => exact .inr ⟨_, rfl, .stop⟩
  | restart k => exact .inl ⟨k, _, .restart hen, rfl⟩
  | start inLoop k =>
      cases inLoop with
      | true => exact .inl ⟨k, _, .start, rfl⟩
      | false => exact .inr ⟨_, rfl, .start⟩
  | task k =>
      cases htodo : s.todo with
      | nil => exact absurd htodo hen.1
      | cons t ts =>
          have hexec : s.exec (.task k) = (s.pop ts k).runTask t k := by
            unfold exec
            rw [htodo]
            rfl
          rw [hexec]
          cases t with
          | event revents =>
              obtain ⟨hstate, -⟩ := h.connecting_of_event htodo
              obtain ⟨channel, hchannel⟩ := h.channel_of_connecting hstate
              obtain ⟨s', hs', hfinishes⟩ :=
                handleEvent_finishes (s := s.pop ts k) revents k hstate hchannel
              exact .inr ⟨s', hs', .event htodo hstate hchannel hfinishes⟩
          | timerfd => exact .inr ⟨_, rfl, .timerfd htodo⟩
          | retryTimer timer => exact .inl ⟨k, _, .retryTimer htodo, rfl⟩
          | connection n =>
              cases hcloses : k.closes with
              | false =>
                  refine .inr ⟨s.pop ts k, ?_, .connection htodo hcloses⟩
                  simp [runTask, hcloses]
              | true =>
                  have hmem : n ∈ s.established := by
                    have honce := hen.2
                    unfold ClosesOnce at honce
                    rw [htodo] at honce
                    exact honce hcloses
                  have hconnection : s.connection = some n := by
                    rwa [h.established, Option.mem_toList] at hmem
                  refine .inr ⟨_, ?_, .removeConnection htodo hcloses hconnection⟩
                  simp [runTask, hcloses, removeConnection, pop, hconnection]
          | functor f =>
              cases f with
              | startInLoop => exact .inl ⟨k, _, .functor htodo, rfl⟩
              | resetChannel => exact .inr ⟨_, rfl, .resetChannel htodo⟩
              | cancelInLoop timerId => exact .inr ⟨_, rfl, .cancelInLoop htodo⟩

/-! ## Every step keeps the connector sound -/

theorem functors_poll {reports : List (ClientChannel × PollEvents)} (htodo : s.todo = []) :
    functors { s with phase := .dispatching, todo := reports.map fun r => r.1.toTask r.2 } =
      s.functors := by
  have hnone : (reports.map fun r => r.1.toTask r.2).filterMap ConnectorTask.functor? = [] := by
    rw [List.filterMap_map]
    refine List.filterMap_eq_nil_iff.mpr fun r _ => ?_
    obtain ⟨c, revents⟩ := r
    cases c <;> rfl
  simp only [functors, htodo, hnone, List.filterMap_nil]

theorem functors_handleTimerfd (s : ConnectorSession) (k : Answers) :
    (s.handleTimerfd k).functors = s.functors := by
  have hnone : ((s.timers.filter fun t => t.expiration ≤ k.now).map
      ConnectorTask.retryTimer).filterMap ConnectorTask.functor? = [] := by
    rw [List.filterMap_map]
    exact List.filterMap_eq_nil_iff.mpr fun _ _ => rfl
  simp only [functors, handleTimerfd, List.filterMap_append, hnone, List.nil_append]

theorem functors_takeFunctors (htodo : s.todo = []) :
    functors { s with
      phase := .callingPendingFunctors
      todo := s.pendingFunctors.map .functor
      pendingFunctors := [] } = s.functors := by
  have hsome : ConnectorTask.functor? ∘ ConnectorTask.functor = some := rfl
  simp only [functors, htodo, List.filterMap_map, hsome, List.filterMap_some, List.filterMap_nil,
    List.append_nil, List.nil_append]

theorem Sound.pop (h : s.Sound) (htodo : s.todo = t :: ts) (ht : t ≠ .functor .resetChannel) :
    (s.pop ts k).Sound := by
  refine h.congr rfl (fun n => ⟨rfl, rfl⟩) (Nat.le_trans ?_ h.events) ?_
  · rw [htodo]
    exact (List.sublist_cons_self t ts).countP_le
  · unfold functors
    rw [htodo]
    cases t with
    | functor f =>
        have hf : f ≠ .resetChannel := fun heq => ht (heq ▸ rfl)
        simp [ConnectorSession.pop, ConnectorTask.functor?, hf]
    | event revents | timerfd | retryTimer timer | connection n => rfl

/-- The number of reports of the connector's channel. -/
theorem countP_isEvent_reports (reports : List (ClientChannel × PollEvents)) :
    (reports.map fun r => r.1.toTask r.2).countP ConnectorTask.isEvent =
      (reports.map Prod.fst).count .connector := by
  induction reports with
  | nil => rfl
  | cons r reports ih =>
      obtain ⟨c, revents⟩ := r
      simp only [List.map_cons, List.countP_cons, List.count_cons, ih]
      cases c <;> rfl

theorem watched_connector : s.Watched .connector ↔ s.attempt ≠ none := by
  unfold Watched ConnectorSession.attempt
  cases hchannel : s.connector.channel with
  | none => simp
  | some channel =>
      obtain ⟨sockfd, registered⟩ := channel
      cases registered <;> simp

theorem Sound.poll (h : s.Sound) {reports : List (ClientChannel × PollEvents)} (htodo : s.todo = [])
    (hnodup : (reports.map Prod.fst).Nodup) (hwatched : ∀ r ∈ reports, s.Watched r.1) :
    Sound { s with phase := .dispatching, todo := reports.map fun r => r.1.toTask r.2 } := by
  refine h.congr rfl (fun n => ⟨rfl, rfl⟩) ?_ ?_
  · rw [countP_isEvent_reports]
    split
    · exact List.nodup_iff_count_le_one.mp hnodup _
    · next hstate =>
        refine Nat.le_of_eq (List.count_eq_zero.mpr fun hmem => hstate ?_)
        obtain ⟨r, hr, hfst⟩ := List.mem_map.mp hmem
        have hwatched := hwatched r hr
        rw [hfst] at hwatched
        exact h.attempt.mp (watched_connector.mp hwatched)
  · rw [functors_poll htodo]

theorem Sound.handleTimerfd (h : s.Sound) (k : Answers) : (s.handleTimerfd k).Sound := by
  refine h.congr rfl (fun n => ⟨rfl, rfl⟩) ?_ ?_
  · refine Nat.le_trans (Nat.le_of_eq ?_) h.events
    simp only [ConnectorSession.handleTimerfd, List.countP_append]
    rw [List.countP_eq_zero.mpr, Nat.zero_add]
    intro t ht
    obtain ⟨timer, -, rfl⟩ := List.mem_map.mp ht
    simp [ConnectorTask.isEvent]
  · rw [functors_handleTimerfd]

theorem Sound.kConnected_of_connection (h : s.Sound) (hconnection : s.connection = some n) :
    s.connector.state = .kConnected := by
  by_contra hne
  rw [(h.connection hne).1] at hconnection
  cases hconnection

theorem Sound.removeConnection (h : s.Sound) (hconnection : s.connection = some n) :
    Sound { s with connection := none, established := s.established.erase n, ended := true } := by
  have hstate := h.kConnected_of_connection hconnection
  constructor
  case accounted => exact ⟨h.accounted.sockets, h.accounted.bound, h.accounted.disposals⟩
  case attempt => exact h.attempt
  case resets => exact h.resets
  case events => exact h.events
  case established => simp [h.established, hconnection]
  case connection => exact fun hne => absurd hstate hne
  case ended => exact fun _ => rfl

theorem Sound.resetChannel (h : s.Sound) (htodo : s.todo = .functor .resetChannel :: ts) :
    (s.pop ts k).resetChannel.Sound := by
  -- `resetChannel` waits, so the channel is out of the poller
  have hresets := h.resets
  have hcount : s.functors.count .resetChannel =
      (s.pop ts k).functors.count .resetChannel + 1 := by
    simp [functors, ConnectorSession.pop, htodo, ConnectorTask.functor?]
  unfold Resets at hresets
  rw [hcount] at hresets
  have hawaits : s.Awaits := by
    by_contra hnot
    rw [if_neg hnot] at hresets
    omega
  rw [if_pos hawaits] at hresets
  have hattempt := hawaits.2
  have hafter : (s.pop ts k).resetChannel.attempt = none := rfl
  constructor
  case accounted =>
    rw [hafter, ← hattempt]
    exact ⟨h.accounted.sockets, h.accounted.bound, h.accounted.disposals⟩
  case attempt =>
    have hstate := h.attempt
    rw [hattempt] at hstate
    rw [hafter]
    exact hstate
  case resets =>
    unfold Resets
    rw [if_neg fun hawaits => hawaits.1 rfl]
    exact Nat.succ_injective hresets
  case events =>
    refine Nat.le_trans ?_ h.events
    rw [htodo]
    exact (List.sublist_cons_self _ ts).countP_le
  case established => exact h.established
  case connection => exact h.connection
  case ended => exact h.ended

theorem Sound.starting (h : s.Sound) (k : Answers) : (s.starting k).Sound := by
  refine h.congr rfl (fun n => ?_) h.events rfl
  simp [ConnectorSession.starting, note, setConnect, disposals]

theorem Sound.queueInLoop (h : s.Sound) {f : ConnectorFunctor} (hf : f ≠ .resetChannel) :
    (s.queueInLoop f).Sound := by
  refine h.congr rfl (fun _ => ⟨rfl, rfl⟩) h.events ?_
  simp [functors, ConnectorSession.queueInLoop, hf]

theorem Sound.cancelInLoop (h : s.Sound) (timerId : Option ℕ) : (s.cancelInLoop timerId).Sound :=
  h.congr rfl (fun _ => ⟨rfl, rfl⟩) h.events rfl

theorem Sound.stop (h : s.Sound) (inLoop : Bool) : (s.stop inLoop).Sound := by
  have hflag : ((s.note .stop).setConnect false).Sound := by
    refine h.congr rfl (fun n => ?_) h.events rfl
    simp [note, setConnect, disposals]
  unfold ConnectorSession.stop
  cases inLoop with
  | true => exact hflag.cancelInLoop _
  | false => exact hflag.queueInLoop (by simp)

theorem Sound.restarting (h : s.Sound) (hended : s.ended = true) (k : Answers) :
    (s.restarting k).Sound := by
  have hconnection := h.ended hended
  have hstate : s.connector.state = .kConnected := by
    by_contra hne
    rw [(h.connection hne).2] at hended
    cases hended
  have hattempt : s.attempt = none := by
    by_contra hne
    cases hstate.symm.trans (h.attempt.mp hne)
  have hevents := h.events
  rw [if_neg (by simp [hstate])] at hevents
  constructor
  case accounted => exact ⟨h.accounted.sockets, h.accounted.bound, h.accounted.disposals⟩
  case attempt =>
    have hafter : (s.restarting k).attempt = s.attempt := rfl
    rw [hafter, hattempt]
    simp [ConnectorSession.restarting, setState]
  case resets => exact h.resets
  case events => exact hevents.trans (Nat.zero_le _)
  case established => exact h.established
  case connection => exact fun _ => ⟨hconnection, rfl⟩
  case ended => exact fun _ => hconnection

theorem Sound.starts (h : s.Sound) {b : ConnectorSession} (hstarts : s.Starts k a b) : b.Sound := by
  cases hstarts with
  | retryTimer htodo => exact h.pop htodo (by simp)
  | functor htodo => exact h.pop htodo (by simp)
  | start => exact h.starting k
  | restart hended => exact h.restarting hended k

theorem Sound.move (h : s.Sound) (hmove : s.Move a s') : s'.Sound := by
  cases hmove with
  | poll _ htodo hnodup hwatched => exact h.poll htodo hnodup hwatched
  | event htodo hstate hchannel hfinishes =>
      exact (h.pop htodo (by simp)).finishes hstate hchannel (h.connecting_of_event htodo).2 hfinishes
  | timerfd htodo => exact (h.pop htodo (by simp)).handleTimerfd _
  | connection htodo _ => exact h.pop htodo (by simp)
  | removeConnection htodo _ hconnection => exact (h.pop htodo (by simp)).removeConnection hconnection
  | resetChannel htodo => exact h.resetChannel htodo
  | cancelInLoop htodo => exact (h.pop htodo (by simp)).cancelInLoop _
  | takeFunctors _ htodo =>
      refine h.congr rfl (fun n => ⟨rfl, rfl⟩) (Nat.le_trans (Nat.le_of_eq ?_) (Nat.zero_le _)) ?_
      · refine List.countP_eq_zero.mpr fun t ht => ?_
        obtain ⟨f, -, rfl⟩ := List.mem_map.mp ht
        simp [ConnectorTask.isEvent]
      · rw [functors_takeFunctors htodo]
  | endIteration _ _ => exact h.congr rfl (fun n => ⟨rfl, rfl⟩) h.events rfl
  | start => exact (h.starting _).queueInLoop (by simp)
  | stop => exact h.stop _

theorem sound_new : new.Sound := by
  constructor
  case accounted => exact ⟨by simp [new], fun n hn => (by cases hn), fun n => rfl⟩
  case attempt => decide
  case resets => rfl
  case events => decide
  case established => rfl
  case connection => exact fun _ => ⟨rfl, rfl⟩
  case ended => exact fun _ => rfl

/-- What a fault-free step does. -/
theorem Sound.step (h : s.Sound) (hstep : system.Step s a s') :
    (∃ k b, s.Starts k a b ∧ b.connector.state = .kDisconnected ∧ b.Tries k s') ∨ s.Move a s' := by
  obtain ⟨hen, hexec⟩ := hstep
  rcases h.exec_cases hen with ⟨k, b, hstarts, heq⟩ | ⟨t, heq, hmove⟩
  · obtain ⟨hstate, htries⟩ := startInLoop_ok (heq.symm.trans hexec)
    exact .inl ⟨k, b, hstarts, hstate, htries⟩
  · cases heq.symm.trans hexec
    exact .inr hmove

theorem Sound.next (h : s.Sound) (hstep : system.Step s a s') : s'.Sound := by
  rcases h.step hstep with ⟨k, b, hstarts, hstate, htries⟩ | hmove
  · exact (h.starts hstarts).tries hstate htries
  · exact h.move hmove

theorem Sound.restart (h : s.Sound) (hstep : system.Step s (.restart k) s') :
    s.ended = true ∧ (s.restarting k).Tries k s' := by
  rcases h.step hstep with ⟨k', b, hstarts, -, htries⟩ | hmove
  · cases hstarts with
    | restart hended => exact ⟨hended, htries⟩
  · cases hmove

theorem sound_of_reachable (h : system.Reachable s) : s.Sound :=
  h.invariant (fun _ hs => hs ▸ sound_new) fun _ _ _ _ hsound _ hstep => hsound.next hstep

theorem Starts.exec_eq {b : ConnectorSession} (h : s.Starts k a b) : s.exec a = b.startInLoop k := by
  cases h with
  | retryTimer htodo | functor htodo =>
      unfold exec
      rw [htodo]
      rfl
  | start | restart _ => rfl

/-- **Only two asserts can fail**: the one of `startInLoop`, and the one of `connecting` on the way
from there. -/
theorem Sound.exec_error (h : s.Sound) (hen : s.enabled a) :
    s.exec a = .error e ↔ ∃ k b, s.Starts k a b ∧
      (e = .startInLoop ∧ b.connector.state ≠ .kDisconnected ∨
        e = .connecting ∧ b.connector.state = .kDisconnected ∧ b.Overlaps k) := by
  constructor
  · intro hexec
    rcases h.exec_cases hen with ⟨k, b, hstarts, heq⟩ | ⟨t, heq, -⟩
    · exact ⟨k, b, hstarts, startInLoop_error.mp (heq.symm.trans hexec)⟩
    · cases heq.symm.trans hexec
  · rintro ⟨k, b, hstarts, herror⟩
    rw [hstarts.exec_eq]
    exact startInLoop_error.mpr herror

/-! ## Every socket is disposed of once -/

/-- Opened, and neither closed nor handed over. -/
def Undisposed (s : ConnectorSession) (n : Sock) : Prop :=
  .socket n ∈ s.history ∧ .close n ∉ s.history ∧ .newConnectionCallback n ∉ s.history

theorem Sound.undisposed_iff (h : s.Sound) : s.Undisposed n ↔ s.attempt = some n := by
  have hn := h.accounted.disposals n
  unfold Undisposed
  rw [h.accounted.sockets n, ← List.count_eq_zero, ← List.count_eq_zero, ← Nat.add_eq_zero_iff]
  rw [disposals] at hn
  constructor
  · rintro ⟨hlt, hzero⟩
    by_contra hne
    rw [hzero, if_pos ⟨hlt, hne⟩] at hn
    cases hn
  · intro heq
    rw [if_neg fun hand => hand.2 heq] at hn
    exact ⟨h.accounted.bound n heq, hn⟩

/-- **Every socket a connector opens is disposed of once.** It is closed once or handed over once, and
not both, unless it is the one the connector is waiting for in `kConnecting`; and what was not opened
is neither closed nor handed over. -/
theorem sockets_disposed_once (h : system.Reachable s) :
    (∀ n, .socket n ∈ s.history → s.Undisposed n ∨
      s.history.count (.close n) = 1 ∧ s.history.count (.newConnectionCallback n) = 0 ∨
      s.history.count (.close n) = 0 ∧ s.history.count (.newConnectionCallback n) = 1) ∧
    (∀ n, .socket n ∉ s.history → .close n ∉ s.history ∧ .newConnectionCallback n ∉ s.history) ∧
    (∀ n m, s.Undisposed n → s.Undisposed m → n = m) ∧
    ((∃ n, s.Undisposed n) ↔ s.connector.state = .kConnecting) := by
  have hsound := sound_of_reachable h
  refine ⟨fun n hopened => ?_, fun n hopened => ?_, fun n m hn hm => ?_, ?_⟩
  · by_cases hheld : s.attempt = some n
    · exact .inl (hsound.undisposed_iff.mpr hheld)
    · have hone := hsound.accounted.disposals n
      rw [if_pos ⟨(hsound.accounted.sockets n).mp hopened, hheld⟩, disposals] at hone
      refine .inr ?_
      omega
  · have hzero := hsound.accounted.disposals n
    rw [hsound.accounted.sockets n] at hopened
    rw [if_neg fun hand => hopened hand.1, disposals] at hzero
    rw [← List.count_eq_zero, ← List.count_eq_zero]
    omega
  · have heq := hsound.undisposed_iff.mp hn
    rw [hsound.undisposed_iff.mp hm, Option.some.injEq] at heq
    exact heq.symm
  · rw [← hsound.attempt, Option.ne_none_iff_exists']
    simp only [hsound.undisposed_iff]

/-- The first attempt ends with an error, reported together with writability; the retry timer starts
the second one, whose socket is handed over; the connection is closed and the owner restarts. -/
def restartedRun : List ConnectorAction :=
  let answers (now : ℕ) (connect : ConnectErrno) (soError : ℕ) (closes : Bool) : Answers :=
    ⟨now, connect, soError, false, closes⟩
  [.start true (answers 0 .EINPROGRESS 0 false),
   .poll [(.connector, {.POLLERR, .POLLOUT})], .task (answers 10 .none 111 false),
   .takeFunctors, .task (answers 10 .none 0 false), .endIteration,
   .poll [(.timerfd, {.POLLIN})], .task (answers 500010 .none 0 false),
   .task (answers 500010 .none 0 false), .takeFunctors, .endIteration,
   .poll [(.connector, {.POLLOUT})], .task (answers 500020 .none 0 false),
   .takeFunctors, .task (answers 500020 .none 0 false), .endIteration,
   .poll [(.connection 1, {.POLLIN})], .task (answers 600000 .none 0 true),
   .restart (answers 600000 .EINPROGRESS 0 false)]

theorem sockets_disposed_once_restartedRun :
    ∃ s, system.Reachable s ∧
      s.history = [.start, .socket 0, .close 0, .runAfter, .socket 1, .newConnectionCallback 1,
        .socket 2] ∧
      (∀ n, .socket n ∈ s.history → s.Undisposed n ∨
        s.history.count (.close n) = 1 ∧ s.history.count (.newConnectionCallback n) = 0 ∨
        s.history.count (.close n) = 0 ∧ s.history.count (.newConnectionCallback n) = 1) ∧
      (∃ n, s.Undisposed n) := by
  obtain ⟨s, hs, hp⟩ := StepSystem.exists_reachableVia_of_runFrom? (fun _ _ => True)
    restartedRun (M := system) (p := fun s => decide (s.history =
      [.start, .socket 0, .close 0, .runAfter, .socket 1, .newConnectionCallback 1, .socket 2] ∧
      s.connector.state = .kConnecting)) rfl (by decide +kernel)
  obtain ⟨hhistory, hstate⟩ := of_decide_eq_true hp
  obtain ⟨honce, -, -, hundisposed⟩ := sockets_disposed_once hs
  exact ⟨s, hs, hhistory, honce, hundisposed.mpr hstate⟩

end ConnectorSession

end MiniMuduo
