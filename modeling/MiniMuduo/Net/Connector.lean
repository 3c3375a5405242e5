import MiniMuduo.Net.Session

/-!
# `Connector`

A `Connector` opens the socket of a client: `connect`, then a channel that waits until the socket is
writable, then `newConnectionCallback_`; on an error the socket is closed and a timer runs
`startInLoop` again. A `ConnectorSession` is a connector together with the part of its surroundings it
depends on: the retry timers in the timer queue of its loop, the functors in the queue of the loop,
what the thread of the loop still has to do, the connections it handed over, and a history.
`ConnectorSession.system` has every order of

* the iterations of the loop: `poll` reports any of the connector's channel, the timerfd and the
  handed-over connections in any order; the callbacks; `doPendingFunctors`;
* `start` and `stop`, in the thread of the loop or in another one, each as one step;
* `restart`, once after the connection handed over last was closed.

Kernel and clock answer anything (`Answers`); times are numbers of microseconds that do not overflow.
Other channels and timers of the loop matter through the calls their callbacks make, and these are
steps of their own. Sockets are named by the order in which the connector opened them, so that a number
is never used twice.
-/

namespace MiniMuduo

open Fallible

/-- A socket, named by the order of creation. -/
abbrev Sock := ℕ

inductive ConnectorState where
  | kDisconnected
  | kConnecting
  | kConnected
  deriving DecidableEq, Repr

/-- `errno` after `::connect`. -/
inductive ConnectErrno where
  | none
  | EINPROGRESS
  | EINTR
  | EISCONN
  | EAGAIN
  | EADDRINUSE
  | EADDRNOTAVAIL
  | ECONNREFUSED
  | ENETUNREACH
  | EACCES
  | EPERM
  | EAFNOSUPPORT
  | EALREADY
  | EBADF
  | EFAULT
  | ENOTSOCK
  | other (n : ℕ)
  deriving DecidableEq, Repr

/-- The groups of the `switch` in `Connector::connect`. -/
inductive ConnectCase where
  | connecting
  | retry
  | close
  deriving DecidableEq, Repr

def ConnectErrno.toCase : ConnectErrno → ConnectCase
  | .none | .EINPROGRESS | .EINTR | .EISCONN => .connecting
  | .EAGAIN | .EADDRINUSE | .EADDRNOTAVAIL | .ECONNREFUSED | .ENETUNREACH => .retry
  | .EACCES | .EPERM | .EAFNOSUPPORT | .EALREADY | .EBADF | .EFAULT | .ENOTSOCK => .close
  | .other _ => .close

/-- What kernel and clock answer during a step. -/
structure Answers where
  /-- `get_now()`, in microseconds. -/
  now : ℕ
  connect : ConnectErrno
  /-- `SO_ERROR`. -/
  soError : ℕ
  isSelfConnect : Bool
  /-- The handler of a handed-over connection gets to its `closeCallback_`. -/
  closes : Bool
  deriving DecidableEq

inductive ConnectorFault where
  /-- `assert(state_ == kDisconnected)` in `startInLoop`. -/
  | startInLoop
  /-- `assert(!channel_)` in `connecting`. -/
  | connecting
  /-- `assert(state_ == kConnecting)` in `handleError`. -/
  | handleError
  /-- `assert(state_ == kDisconnected)` in `handleWrite`. -/
  | handleWrite
  /-- `removeAndResetChannel` without a channel. -/
  | nullChannel
  /-- `assert(connection_ == conn)` in `TcpClient::removeConnection`. -/
  | removeConnection
  deriving DecidableEq, Repr

/-- The channel of a connection attempt. -/
structure ConnectorChannel where
  sockfd : Sock
  /-- In the poller: from `enableWriting` to `removeChannel`. -/
  registered : Bool
  deriving DecidableEq

structure Connector where
  connect : Bool
  state : ConnectorState
  channel : Option ConnectorChannel
  retryDelayMs : ℕ
  /-- The sequence number of the timer. -/
  timerId : Option ℕ
  deriving DecidableEq

namespace Connector

def kMaxRetryDelayMs : ℕ := 30 * 1000
def kInitRetryDelayMs : ℕ := 500

def new : Connector := ⟨false, .kDisconnected, none, kInitRetryDelayMs, none⟩

end Connector

/-- A timer that runs `startInLoop`. -/
structure RetryTimer where
  sequence : ℕ
  expiration : ℕ
  deriving DecidableEq

inductive ConnectorFunctor where
  | startInLoop
  | resetChannel
  | cancelInLoop (timerId : Option ℕ)
  deriving DecidableEq

/-- What the thread of the loop still has to do. -/
inductive ConnectorTask where
  /-- `handleEvent` of the connector's channel. -/
  | event (revents : PollEvents)
  /-- `TimerQueue::handleRead`. -/
  | timerfd
  /-- An expired timer. -/
  | retryTimer (t : RetryTimer)
  /-- `handleEvent` of the channel of a handed-over connection. -/
  | connection (n : Sock)
  | functor (f : ConnectorFunctor)
  deriving DecidableEq

/-- What is seen of a connector. -/
inductive ConnectorEvent where
  | start
  | stop
  /-- `connect` opens a socket. -/
  | socket (n : Sock)
  | close (n : Sock)
  | newConnectionCallback (n : Sock)
  /-- `retry` schedules a timer. -/
  | runAfter
  deriving DecidableEq

/-- The channels `poll` can report here. -/
inductive ClientChannel where
  | connector
  | timerfd
  | connection (n : Sock)
  deriving DecidableEq

def ClientChannel.toTask (revents : PollEvents) : ClientChannel → ConnectorTask
  | .connector => .event revents
  | .timerfd => .timerfd
  | .connection n => .connection n

structure ConnectorSession where
  connector : Connector
  /-- The retry timers in the timer queue. -/
  timers : List RetryTimer
  nextSequence : ℕ
  nextSock : Sock
  pendingFunctors : List ConnectorFunctor
  phase : LoopPhase
  todo : List ConnectorTask
  /-- `connection_` of the owner. -/
  connection : Option Sock
  /-- The connections handed over whose `closeCallback_` was not called yet. -/
  established : List Sock
  /-- The connection handed over last was closed, and `restart` was not called since. -/
  ended : Bool
  /-- The last reading of the clock. -/
  clock : ℕ
  history : List ConnectorEvent

namespace ConnectorSession

def new : ConnectorSession where
  connector := .new
  timers := []
  nextSequence := 1
  nextSock := 0
  pendingFunctors := []
  phase := .polling
  todo := []
  connection := none
  established := []
  ended := false
  clock := 0
  history := []

def note (s : ConnectorSession) (e : ConnectorEvent) : ConnectorSession :=
  { s with history := s.history ++ [e] }

def queueInLoop (s : ConnectorSession) (f : ConnectorFunctor) : ConnectorSession :=
  { s with pendingFunctors := s.pendingFunctors ++ [f] }

def setState (s : ConnectorSession) (state : ConnectorState) : ConnectorSession :=
  { s with connector := { s.connector with state := state } }

def setChannel (s : ConnectorSession) (channel : Option ConnectorChannel) : ConnectorSession :=
  { s with connector := { s.connector with channel := channel } }

def setConnect (s : ConnectorSession) (connect : Bool) : ConnectorSession :=
  { s with connector := { s.connector with connect := connect } }

/-! ## The member functions of `Connector` -/

/-- `createNonblockingOrDie`. -/
def socket (s : ConnectorSession) : ConnectorSession :=
  { s.note (.socket s.nextSock) with nextSock := s.nextSock + 1 }

/-- `timerId_ = loop_->runAfter(…)` in `retry`. -/
def runAfter (s : ConnectorSession) (now : ℕ) : ConnectorSession :=
  { s.note .runAfter with
    timers := s.timers ++ [⟨s.nextSequence, now + s.connector.retryDelayMs * 1000⟩]
    nextSequence := s.nextSequence + 1
    connector := { s.connector with timerId := some s.nextSequence } }

def retry (s : ConnectorSession) (sockfd : Sock) (k : Answers) : ConnectorSession :=
  let s := (s.note (.close sockfd)).setState .kDisconnected
  if s.connector.connect then
    let s := s.runAfter k.now
    { s with connector := { s.connector with
        retryDelayMs := min (s.connector.retryDelayMs * 2) Connector.kMaxRetryDelayMs } }
  else s

def connecting (s : ConnectorSession) (sockfd : Sock) : Except ConnectorFault ConnectorSession := do
  let s := s.setState .kConnecting
  check (s.connector.channel = none) .connecting
  return s.setChannel (some ⟨sockfd, true⟩)

def connect (s : ConnectorSession) (k : Answers) : Except ConnectorFault ConnectorSession :=
  let sockfd := s.nextSock
  let s := s.socket
  match k.connect.toCase with
  | .connecting => s.connecting sockfd
  | .retry => return s.retry sockfd k
  | .close => return s.note (.close sockfd)

def startInLoop (s : ConnectorSession) (k : Answers) : Except ConnectorFault ConnectorSession := do
  check (s.connector.state = .kDisconnected) .startInLoop
  if s.connector.connect then s.connect k else return s

def restart (s : ConnectorSession) (k : Answers) : Except ConnectorFault ConnectorSession :=
  let s := s.setState .kDisconnected
  let s := { s with
    connector := { s.connector with retryDelayMs := Connector.kInitRetryDelayMs, connect := true } }
  s.startInLoop k

def resetChannel (s : ConnectorSession) : ConnectorSession := s.setChannel none

/-- `removeAndResetChannel`, with the descriptor it answers. -/
def removeAndResetChannel (s : ConnectorSession) :
    Except ConnectorFault (Sock × ConnectorSession) :=
  match s.connector.channel with
  | none => throw .nullChannel
  | some channel =>
      let s := s.setChannel (some { channel with registered := false })
      return (channel.sockfd, s.queueInLoop .resetChannel)

/-- `newConnectionCallback_`: the owner makes a connection of the descriptor and remembers it. -/
def newConnectionCallback (s : ConnectorSession) (sockfd : Sock) : ConnectorSession :=
  { s.note (.newConnectionCallback sockfd) with
    connection := some sockfd
    established := s.established ++ [sockfd]
    ended := false }

def handleWrite (s : ConnectorSession) (k : Answers) : Except ConnectorFault ConnectorSession :=
  if s.connector.state = .kConnecting then do
    let (sockfd, s) ← s.removeAndResetChannel
    if k.soError ≠ 0 then return s.retry sockfd k
    else if k.isSelfConnect then return s.retry sockfd k
    else
      let s := s.setState .kConnected
      if s.connector.connect then return s.newConnectionCallback sockfd
      else return s.note (.close sockfd)
  else do
    check (s.connector.state = .kDisconnected) .handleWrite
    return s

def handleError (s : ConnectorSession) (k : Answers) : Except ConnectorFault ConnectorSession := do
  check (s.connector.state = .kConnecting) .handleError
  let (sockfd, s) ← s.removeAndResetChannel
  return s.retry sockfd k

/-- `Channel::handleEvent` of the connector's channel, which has no close and no read callback. -/
def callback (s : ConnectorSession) (k : Answers) :
    ChannelCallback → Except ConnectorFault ConnectorSession
  | .error => s.handleError k
  | .write => s.handleWrite k
  | .close | .read => return s

def handleEvent (s : ConnectorSession) (revents : PollEvents) (k : Answers) :
    Except ConnectorFault ConnectorSession :=
  (Channel.handleEvent revents).foldlM (fun s cb => s.callback k cb) s

/-- `TimerQueue::cancelInLoop`. A timer that already expired is not in the queue any more and runs. -/
def cancelInLoop (s : ConnectorSession) (timerId : Option ℕ) : ConnectorSession :=
  { s with timers := s.timers.filter fun t => timerId ≠ some t.sequence }

/-- `TimerQueue::handleRead`. All retry timers have the same callback, so that their order among
equals does not matter. -/
def handleTimerfd (s : ConnectorSession) (k : Answers) : ConnectorSession :=
  { s with
    timers := s.timers.filter fun t => k.now < t.expiration
    todo := (s.timers.filter fun t => t.expiration ≤ k.now).map .retryTimer ++ s.todo }

/-- The `closeCallback_` of a handed-over connection: the owner forgets it. -/
def removeConnection (s : ConnectorSession) (n : Sock) : Except ConnectorFault ConnectorSession := do
  check (s.connection = some n) .removeConnection
  return { s with connection := none, established := s.established.erase n, ended := true }

def start (s : ConnectorSession) (inLoop : Bool) (k : Answers) :
    Except ConnectorFault ConnectorSession :=
  let s := (s.note .start).setConnect true
  if inLoop then s.startInLoop k else return s.queueInLoop .startInLoop

def stop (s : ConnectorSession) (inLoop : Bool) : ConnectorSession :=
  let s := (s.note .stop).setConnect false
  if inLoop then s.cancelInLoop s.connector.timerId
  else s.queueInLoop (.cancelInLoop s.connector.timerId)

def runFunctor (s : ConnectorSession) (f : ConnectorFunctor) (k : Answers) :
    Except ConnectorFault ConnectorSession :=
  match f with
  | .startInLoop => s.startInLoop k
  | .resetChannel => return s.resetChannel
  | .cancelInLoop timerId => return s.cancelInLoop timerId

def runTask (s : ConnectorSession) (t : ConnectorTask) (k : Answers) :
    Except ConnectorFault ConnectorSession :=
  match t with
  | .event revents => s.handleEvent revents k
  | .timerfd => return s.handleTimerfd k
  | .retryTimer _ => s.startInLoop k
  | .connection n => if k.closes then s.removeConnection n else return s
  | .functor f => s.runFunctor f k

end ConnectorSession

/-! ## Runs -/

inductive ConnectorAction where
  /-- `poll` returns with these channels in this order. -/
  | poll (reports : List (ClientChannel × PollEvents))
  | task (k : Answers)
  | takeFunctors
  | endIteration
  | start (inLoop : Bool) (k : Answers)
  | stop (inLoop : Bool)
  | restart (k : Answers)

namespace ConnectorSession

/-- The channel is in the poller. -/
def Watched (s : ConnectorSession) : ClientChannel → Prop
  | .connector => ∃ channel ∈ s.connector.channel, channel.registered = true
  | .timerfd => True
  | .connection n => n ∈ s.established

instance (s : ConnectorSession) (c : ClientChannel) : Decidable (s.Watched c) := by
  cases c <;> unfold Watched <;> infer_instance

/-- A connection calls its `closeCallback_` once. -/
def ClosesOnce (s : ConnectorSession) (k : Answers) : Prop :=
  match s.todo with
  | .connection n :: _ => k.closes = true → n ∈ s.established
  | _ => True

instance (s : ConnectorSession) (k : Answers) : Decidable (s.ClosesOnce k) := by
  unfold ClosesOnce
  split <;> infer_instance

def enabled (s : ConnectorSession) : ConnectorAction → Prop
  | .poll reports => s.phase = .polling ∧ s.todo = [] ∧
      (reports.map Prod.fst).Nodup ∧ ∀ r ∈ reports, s.Watched r.1
  | .task k => s.todo ≠ [] ∧ s.ClosesOnce k
  | .takeFunctors => s.phase = .dispatching ∧ s.todo = []
  | .endIteration => s.phase = .callingPendingFunctors ∧ s.todo = []
  | .start _ _ => True
  | .stop _ => True
  | .restart _ => s.ended = true

instance (s : ConnectorSession) (a : ConnectorAction) : Decidable (s.enabled a) := by
  cases a <;> unfold enabled <;> infer_instance

def exec (s : ConnectorSession) : ConnectorAction → Except ConnectorFault ConnectorSession
  | .poll reports =>
      return { s with
        phase := .dispatching
        todo := reports.map fun r => r.1.toTask r.2 }
  | .task k =>
      match s.todo with
      | [] => return s
      | t :: ts => runTask { s with todo := ts, clock := k.now } t k
  | .takeFunctors =>
      return { s with
        phase := .callingPendingFunctors
        todo := s.pendingFunctors.map .functor
        pendingFunctors := [] }
  | .endIteration => return { s with phase := .polling }
  | .start inLoop k => start { s with clock := k.now } inLoop k
  | .stop inLoop => return s.stop inLoop
  | .restart k => restart { s with clock := k.now, ended := false } k

def system : StepSystem ConnectorSession ConnectorAction ConnectorFault where
  init s := s = new
  enabled := enabled
  exec := exec

instance (s : ConnectorSession) (a : ConnectorAction) : Decidable (system.enabled s a) :=
  inferInstanceAs (Decidable (s.enabled a))

end ConnectorSession

end MiniMuduo
