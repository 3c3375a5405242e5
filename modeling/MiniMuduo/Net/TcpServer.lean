import MiniMuduo.Net.Session

/-!
# `TcpServer` and its loops

A server has a base loop, in which it accepts and keeps its books, and a pool of io loops over which
it deals the connections. Every loop runs `EventLoop::loop` in a thread of its own; the threads meet in
the functor queues. `TcpServer.system` has every order of

* accepts, the iterations of all loops (`poll`, the callbacks of `handleEvent`, `doPendingFunctors`);
* `send` and `shutdown` calls of the user on any connection in any thread;
* the end of a connection's life, once no `shared_ptr` of the library and none of the user is left:
  the object goes away, and its descriptor is closed and can be handed out again.

What a loop thread does for one connection goes through the same `Call`s as in `Session`.

Objects are named by the number in their name, which is taken not to wrap around: `nextConnId` is a
natural number where `nextConnId_` is an `int`. A raw `this` in a functor outlives the object it points
to when the user lets go of it early; running such a functor is the fault `useAfterFree`.
-/

namespace MiniMuduo

open Fallible

/-- What is queued in a loop. -/
inductive LoopFunctor where
  | conn (c : ConnId) (f : ConnFunctor)
  | removeConnectionInLoop (c : ConnId)
  deriving DecidableEq

/-- What the thread of a loop still has to do. -/
inductive LoopTask where
  | conn (c : ConnId) (t : ConnTask)
  | removeConnectionInLoop (c : ConnId)
  deriving DecidableEq

def LoopFunctor.toTask : LoopFunctor → LoopTask
  | .conn c f => .conn c (.functor f)
  | .removeConnectionInLoop c => .removeConnectionInLoop c

structure EventLoop where
  poller : EPoller ConnId
  pendingFunctors : List LoopFunctor
  phase : LoopPhase
  todo : List LoopTask

namespace EventLoop

def new : EventLoop := ⟨⟨fun _ => none, fun _ => none⟩, [], .polling, []⟩

def queueInLoop (e : EventLoop) (f : LoopFunctor) : EventLoop :=
  { e with pendingFunctors := e.pendingFunctors ++ [f] }

/-- The tasks of the channels `epoll_wait` reported, with the lookup asserts of
`fillActiveChannels`. -/
def fillActiveChannels (p : EPoller ConnId) :
    List (Fd × PollEvents) → Except NetFault (List LoopTask)
  | [] => return []
  | (fd, revents) :: rs =>
      match p.interest fd with
      | none => fillActiveChannels p rs
      | some (_, c) => do
          check (p.channels fd = some c) .channelAbsent
          let ts ← fillActiveChannels p rs
          return (Session.eventTasks revents).map (.conn c) ++ ts

end EventLoop

structure TcpServer where
  name : String
  /-- `loops_.size()` of the thread pool, whose loops are `1, …, ioLoops`. -/
  ioLoops : ℕ
  /-- `next_` of the thread pool. -/
  next : ℕ
  nextConnId : ℕ
  /-- Whether the callback is set. -/
  writeCompleteCallback : Bool
  connections : String → Option ConnId
  /-- The connection objects that exist. -/
  conns : ConnId → Option TcpConnection
  loops : LoopId → EventLoop
  /-- What was seen of each connection. -/
  history : ConnId → List ConnEvent
  /-- The `ioLoop` of each call of `newConnection`. -/
  dealt : List LoopId

namespace TcpServer

def new (name : String) (ioLoops : ℕ) (writeCompleteCallback : Bool) : TcpServer where
  name := name
  ioLoops := ioLoops
  next := 0
  nextConnId := 1
  writeCompleteCallback := writeCompleteCallback
  connections := fun _ => none
  conns := fun _ => none
  loops := fun _ => .new
  history := fun _ => []
  dealt := []

def setLoop (s : TcpServer) (l : LoopId) (e : EventLoop) : TcpServer :=
  { s with loops := Function.update s.loops l e }

def queueInLoop (s : TcpServer) (l : LoopId) (f : LoopFunctor) : TcpServer :=
  s.setLoop l ((s.loops l).queueInLoop f)

/-- `connName` in `newConnection`. -/
def connName (s : TcpServer) (id : ConnId) : String := s.name ++ "#" ++ toString id

/-- `EventLoopThreadPool::getNextLoop`. -/
def getNextLoop (s : TcpServer) : LoopId × TcpServer :=
  if s.ioLoops = 0 then (0, s)
  else (s.next + 1, { s with next := if s.next + 1 ≥ s.ioLoops then 0 else s.next + 1 })

/-- `removeConnectionInLoop`. `erase` answers whether the name was in the map. -/
def removeConnectionInLoop (s : TcpServer) (c : ConnId) : Except NetFault TcpServer :=
  match s.conns c with
  | none => throw .useAfterFree
  | some conn => do
      check ((s.connections conn.name).isSome) .removeConnectionInLoop
      let s := { s with connections := Function.update s.connections conn.name none }
      return s.queueInLoop conn.loop (.conn c .connectDestroyed)

/-- `removeConnection`, called in the thread of the loop `l`. -/
def removeConnection (s : TcpServer) (l : LoopId) (c : ConnId) : Except NetFault TcpServer :=
  if l = 0 then s.removeConnectionInLoop c
  else return s.queueInLoop 0 (.removeConnectionInLoop c)

/-- What a call of a connection did, carried over. -/
def commit (s : TcpServer) (c : ConnId) (k : Call) : TcpServer :=
  let e := s.loops k.conn.loop
  { s with
    conns := Function.update s.conns c (some k.conn)
    loops := Function.update s.loops k.conn.loop
      { e with
        poller := k.poller
        pendingFunctors := e.pendingFunctors ++ k.queued.map (.conn c)
        todo := k.rest.map (.conn c) ++ e.todo }
    history := Function.update s.history c (s.history c ++ k.notes) }

/-- A member function of the connection `c` is called. Its close callback is `removeConnection`. -/
def perform (s : TcpServer) (c : ConnId) (f : Call → Except NetFault Call) :
    Except NetFault TcpServer :=
  match s.conns c with
  | none => throw .useAfterFree
  | some conn => do
      let k ← f ⟨conn, (s.loops conn.loop).poller, [], [], []⟩
      let s := s.commit c k
      if .closeCallback ∈ k.notes then s.removeConnection k.conn.loop c else return s

/-- `newConnection`, in the thread of the base loop. -/
def newConnection (s : TcpServer) (sockfd : Fd) (highWaterMark : ℕ) : Except NetFault TcpServer :=
  let id := s.nextConnId
  let connName := s.connName id
  let (ioLoop, s) := s.getNextLoop
  let conn := TcpConnection.new id ioLoop connName sockfd highWaterMark s.writeCompleteCallback
  let s := { s with
    nextConnId := id + 1
    connections := Function.update s.connections connName (some id)
    conns := Function.update s.conns id (some conn)
    dealt := s.dealt ++ [ioLoop] }
  if ioLoop = 0 then s.perform id Call.connectEstablished
  else return s.queueInLoop ioLoop (.conn id .connectEstablished)

end TcpServer

/-! ## Runs -/

inductive ServerAction where
  /-- The acceptor reads the listening socket. -/
  | accept (sockfd : Fd) (highWaterMark : ℕ)
  /-- `poll` returns in the loop `l`, with these descriptors in this order. -/
  | poll (l : LoopId) (reports : List (Fd × PollEvents))
  | task (l : LoopId) (r : Buffer.ReadResult) (w : WriteResult)
  | takeFunctors (l : LoopId)
  | endIteration (l : LoopId)
  | send (t : ThreadId) (c : ConnId) (message : Bytes) (w : WriteResult)
  | sendBuffer (t : ThreadId) (c : ConnId) (data : Bytes) (w : WriteResult)
  | shutdown (t : ThreadId) (c : ConnId)
  | retrieveInput (c : ConnId) (len : ℕ)
  | setCallbacks (c : ConnId) (writeComplete highWaterMark : Bool)
  /-- The last `shared_ptr` to a connection goes. -/
  | release (c : ConnId)

namespace TcpServer

/-- The library holds no `shared_ptr` to the connection. -/
def Unreferenced (s : TcpServer) (c : ConnId) (conn : TcpConnection) : Prop :=
  s.connections conn.name ≠ some c ∧
  (∀ l ∈ [0, conn.loop],
    .removeConnectionInLoop c ∉ (s.loops l).pendingFunctors ∧
    .removeConnectionInLoop c ∉ (s.loops l).todo ∧
    (∀ f ∈ [ConnFunctor.connectEstablished, .connectDestroyed],
      .conn c f ∉ (s.loops l).pendingFunctors ∧ .conn c (.functor f) ∉ (s.loops l).todo) ∧
    .conn c .removeChannel ∉ (s.loops l).todo)

instance (s : TcpServer) (c : ConnId) (conn : TcpConnection) : Decidable (s.Unreferenced c conn) :=
  inferInstanceAs (Decidable (_ ∧ _))

def enabled (s : TcpServer) : ServerAction → Prop
  | .accept sockfd _ => (s.loops 0).phase = .dispatching ∧
      ∀ c < s.nextConnId, ∀ conn ∈ s.conns c, conn.channel.fd ≠ sockfd
  | .poll l reports => (s.loops l).phase = .polling ∧ (s.loops l).todo = [] ∧
      (reports.map Prod.fst).Nodup ∧
      ∀ x ∈ reports, ∃ e ∈ (s.loops l).poller.interest x.1, Session.Reportable e.1 x.2
  | .task l _ _ => (s.loops l).todo ≠ []
  | .takeFunctors l => (s.loops l).phase = .dispatching ∧ (s.loops l).todo = []
  | .endIteration l => (s.loops l).phase = .callingPendingFunctors ∧ (s.loops l).todo = []
  | .send _ c _ _ | .sendBuffer _ c _ _ | .shutdown _ c | .retrieveInput c _
  | .setCallbacks c _ _ => (s.conns c).isSome
  | .release c => ∃ conn ∈ s.conns c, s.Unreferenced c conn

instance (s : TcpServer) (a : ServerAction) : Decidable (s.enabled a) := by
  cases a <;> unfold enabled <;> infer_instance

/-- The next task of a loop. -/
def runTask (s : TcpServer) (r : Buffer.ReadResult) (w : WriteResult) :
    LoopTask → Except NetFault TcpServer
  | .conn c t => s.perform c fun k => k.runTask t r w
  | .removeConnectionInLoop c => s.removeConnectionInLoop c

/-- The user takes bytes out of the input buffer of a connection, or sets its callbacks. -/
def retrieveInput (s : TcpServer) (c : ConnId) (len : ℕ) : Except NetFault TcpServer :=
  match s.conns c with
  | none => throw .useAfterFree
  | some conn =>
      match conn.inputBuffer.retrieve len with
      | .ok b => return { s with
          conns := Function.update s.conns c (some { conn with inputBuffer := b }) }
      | .error _ => throw .buffer

def setCallbacks (s : TcpServer) (c : ConnId) (writeComplete highWaterMark : Bool) :
    Except NetFault TcpServer :=
  match s.conns c with
  | none => throw .useAfterFree
  | some conn => return { s with conns := Function.update s.conns c (some { conn with
      writeCompleteCallback := writeComplete, highWaterMarkCallback := highWaterMark }) }

/-- The destructor of a connection closes its descriptor, which takes it out of the interest set. -/
def release (s : TcpServer) (c : ConnId) : Except NetFault TcpServer :=
  match s.conns c with
  | none => throw .useAfterFree
  | some conn =>
      let e := s.loops conn.loop
      return { s with
        conns := Function.update s.conns c none
        loops := Function.update s.loops conn.loop { e with
          poller := { e.poller with
            interest := Function.update e.poller.interest conn.channel.fd none } } }

def exec (s : TcpServer) : ServerAction → Except NetFault TcpServer
  | .accept sockfd highWaterMark => s.newConnection sockfd highWaterMark
  | .poll l reports => do
      let ts ← EventLoop.fillActiveChannels (s.loops l).poller reports
      return s.setLoop l { s.loops l with phase := .dispatching, todo := ts }
  | .task l r w =>
      match (s.loops l).todo with
      | [] => return s
      | t :: ts => (s.setLoop l { s.loops l with todo := ts }).runTask r w t
  | .takeFunctors l =>
      return s.setLoop l { s.loops l with
        phase := .callingPendingFunctors
        todo := (s.loops l).pendingFunctors.map LoopFunctor.toTask
        pendingFunctors := [] }
  | .endIteration l => return s.setLoop l { s.loops l with phase := .polling }
  | .send t c message w => s.perform c fun k => k.send t message w
  | .sendBuffer t c data w => s.perform c fun k => k.sendBuffer t data w
  | .shutdown t c => s.perform c fun k => return k.shutdown t
  | .retrieveInput c len => s.retrieveInput c len
  | .setCallbacks c writeComplete highWaterMark => s.setCallbacks c writeComplete highWaterMark
  | .release c => s.release c

/-- All runs of a server with any name, any number of io loops and any callbacks. -/
def system : StepSystem TcpServer ServerAction NetFault where
  init := fun s => ∃ name ioLoops writeComplete, s = new name ioLoops writeComplete
  enabled := enabled
  exec := exec

instance (s : TcpServer) (a : ServerAction) : Decidable (system.enabled s a) :=
  inferInstanceAs (Decidable (s.enabled a))

end TcpServer

end MiniMuduo
