import MiniMuduo.Net.Connector
import MiniMuduo.Net.ServerRuns

/-!
# The owners in a loop

An `OwnerLoop` is one loop with any number of `TcpServer` and `TcpClient` objects without threads of
their own. Owners come up, listen, accept, connect and are destroyed in the thread of the loop, in any
order with the iterations of the loop. The user keeps no `TcpConnectionPtr`, so that the calls on a
connection are made from callbacks, in this thread.

* The connections of all owners stand in one `TcpServer`, the `table`: `connections_` of a server and
  `connection_` of a client are the entries of which they are the owner.
* `channels_` of the poller has the channels of the connections, in the table, and those of the
  acceptors and the connectors; the timerfd and the wakeup channel live as long as the loop.
* Of a connector its state and its channel matter. When it tries to connect, and how this ends, is
  open: every order its timers and flags allow is a run here.
-/

namespace MiniMuduo

open Fallible

/-- A `TcpServer` or a `TcpClient`, by the order of construction. -/
abbrev OwnerId := ℕ

/-- `channel_` of a connector. -/
structure AttemptChannel where
  fd : Fd
  /-- In the poller: from `enableWriting` to `removeChannel`. -/
  registered : Bool
  deriving DecidableEq

inductive Owner where
  /-- A server, by the socket of its acceptor and whether this one listens. -/
  | server (listenFd : Fd) (listenning : Bool)
  /-- A client, by the state and the channel of its connector. -/
  | client (state : ConnectorState) (channel : Option AttemptChannel)
  deriving DecidableEq

namespace Owner

/-- The descriptor under which the acceptor or the connector is in the poller. -/
def key? : Owner → Option Fd
  | .server fd true | .client _ (some ⟨fd, true⟩) => some fd
  | _ => none

/-- The open descriptor of the acceptor or the connector. A connector that took its channel out of
the poller has closed the socket or handed it over. -/
def fd? : Owner → Option Fd
  | .server fd _ | .client _ (some ⟨fd, true⟩) => some fd
  | _ => none

end Owner

inductive OwnerFault where
  | net (e : NetFault)
  | connector (e : ConnectorFault)
  /-- `assert(!channel_)` in `~Connector`. -/
  | connectorChannel
  deriving DecidableEq, Repr

/-- How an attempt to connect ends in `handleWrite` or `handleError`. -/
inductive AttemptEnd where
  /-- `retry`, which closes the socket. -/
  | retry
  /-- The socket is connected and not wanted any more. -/
  | close
  | newConnection (highWaterMark : ℕ)
  deriving DecidableEq

inductive OwnerAction where
  | newServer (listenFd : Fd)
  | newClient
  /-- `TcpServer::start`. -/
  | start (o : OwnerId)
  /-- The acceptor reads the listening socket. -/
  | accept (o : OwnerId) (sockfd : Fd) (highWaterMark : ℕ)
  /-- `startInLoop`, up to `connecting`. -/
  | connect (o : OwnerId) (sockfd : Fd)
  /-- `restart`, at the end of `removeConnection`. -/
  | restart (o : OwnerId) (sockfd : Fd)
  /-- The channel of the connector is reported. -/
  | attempted (o : OwnerId) (e : AttemptEnd)
  | resetChannel (o : OwnerId)
  /-- The loop goes on, or a callback of the user calls a connection. -/
  | loop (a : ServerAction)
  | destroy (o : OwnerId)

structure OwnerLoop where
  table : TcpServer
  /-- The owner that made a connection. -/
  owner : ConnId → Option OwnerId
  owners : OwnerId → Option Owner
  nextOwner : ℕ
  /-- The channels of acceptors and connectors in `channels_`. -/
  channels : Fd → Option OwnerId

namespace OwnerLoop

def new (name : String) (writeCompleteCallback : Bool) : OwnerLoop where
  table := .new name 0 writeCompleteCallback
  owner := fun _ => none
  owners := fun _ => none
  nextOwner := 0
  channels := fun _ => none

/-- `channels_.find(fd)`. -/
def find (s : OwnerLoop) (fd : Fd) : Option (ConnId ⊕ OwnerId) :=
  match (s.table.loops 0).poller.channels fd with
  | some c => some (.inl c)
  | none => (s.channels fd).map .inr

/-- The connection is in `connections_` or is `connection_` of the owner. -/
def Holds (s : OwnerLoop) (o : OwnerId) (c : ConnId) : Prop :=
  s.owner c = some o ∧ s.table.connections (s.table.connName c) = some c

instance (s : OwnerLoop) (o : OwnerId) (c : ConnId) : Decidable (s.Holds o c) :=
  inferInstanceAs (Decidable (_ ∧ _))

/-- The owner has no connection. -/
def Idle (s : OwnerLoop) (o : OwnerId) : Prop := ∀ c < s.table.nextConnId, ¬ s.Holds o c

instance (s : OwnerLoop) (o : OwnerId) : Decidable (s.Idle o) :=
  inferInstanceAs (Decidable (∀ c < s.table.nextConnId, ¬ s.Holds o c))

def setOwner (s : OwnerLoop) (o : OwnerId) (x : Option Owner) : OwnerLoop :=
  { s with owners := Function.update s.owners o x }

/-- The first `updateChannel` of the channel of an acceptor or a connector. -/
def addChannel (s : OwnerLoop) (o : OwnerId) (fd : Fd) : Except OwnerFault OwnerLoop := do
  check (s.find fd = none) (.net .channelPresent)
  return { s with channels := Function.update s.channels fd (some o) }

/-- `removeChannel`. -/
def removeChannel (s : OwnerLoop) (o : OwnerId) (fd : Fd) : Except OwnerFault OwnerLoop := do
  check (s.channels fd = some o) (.net .channelAbsent)
  return { s with channels := Function.update s.channels fd none }

/-- The owner lets go of its connections. -/
def drop (s : OwnerLoop) (o : OwnerId) : OwnerLoop :=
  { s with table := { s.table with
      connections := fun n => (s.table.connections n).filter fun c => s.owner c ≠ some o } }

/-- `newConnection` of the owner; `connectEstablished` also finds the channels that are not in the
table. -/
def newConnection (s : OwnerLoop) (o : OwnerId) (sockfd : Fd) (highWaterMark : ℕ) :
    Except OwnerFault OwnerLoop := do
  check (s.channels sockfd = none) (.net .channelPresent)
  let table ← (s.table.newConnection sockfd highWaterMark).mapError .net
  return { s with
    table := table
    owner := Function.update s.owner s.table.nextConnId (some o) }

/-- `startInLoop`, `connect` and `connecting`. -/
def startInLoop (s : OwnerLoop) (o : OwnerId) (sockfd : Fd) (state : ConnectorState)
    (channel : Option AttemptChannel) : Except OwnerFault OwnerLoop := do
  check (state = .kDisconnected) (.connector .startInLoop)
  check (channel = none) (.connector .connecting)
  let s ← s.addChannel o sockfd
  return s.setOwner o (some (.client .kConnecting (some ⟨sockfd, true⟩)))

/-- `handleWrite` and `handleError` in `kConnecting`. -/
def attempted (s : OwnerLoop) (o : OwnerId) (fd : Fd) (e : AttemptEnd) :
    Except OwnerFault OwnerLoop := do
  -- `removeAndResetChannel`; `channel_` is reset by a functor
  let s ← s.removeChannel o fd
  match e with
  | .retry => return s.setOwner o (some (.client .kDisconnected (some ⟨fd, false⟩)))
  | .close => return s.setOwner o (some (.client .kConnected (some ⟨fd, false⟩)))
  | .newConnection highWaterMark =>
      -- `connection_ = conn` takes the place of what was there
      ((s.setOwner o (some (.client .kConnected (some ⟨fd, false⟩)))).drop o).newConnection o fd
        highWaterMark

/-- No open descriptor has this number. -/
def Unused (s : OwnerLoop) (fd : Fd) : Prop :=
  (∀ c < s.table.nextConnId, ∀ conn ∈ s.table.conns c, conn.channel.fd ≠ fd) ∧
    ∀ o < s.nextOwner, ∀ x ∈ s.owners o, x.fd? ≠ some fd

instance (s : OwnerLoop) (fd : Fd) : Decidable (s.Unused fd) :=
  inferInstanceAs (Decidable (_ ∧ _))

def enabled (s : OwnerLoop) : OwnerAction → Prop
  | .newServer listenFd => s.Unused listenFd
  | .newClient => True
  | .start o =>
      match s.owners o with
      | some (.server _ false) => True
      | _ => False
  | .accept o sockfd _ =>
      match s.owners o with
      | some (.server _ true) => (s.table.loops 0).phase = .dispatching ∧ s.Unused sockfd
      | _ => False
  | .connect o sockfd =>
      match s.owners o with
      | some (.client _ _) => s.Unused sockfd
      | _ => False
  | .restart o sockfd =>
      match s.owners o with
      | some (.client _ _) => s.Unused sockfd ∧ s.Idle o
      | _ => False
  | .attempted o _ =>
      match s.owners o with
      | some (.client .kConnecting (some ⟨_, true⟩)) => (s.table.loops 0).phase = .dispatching
      | _ => False
  | .resetChannel o =>
      match s.owners o with
      | some (.client _ (some ⟨_, false⟩)) => True
      | _ => False
  | .loop (.accept _ _) => False
  | .loop a => s.table.enabled a ∧ s.table.CallsInLoop a
  | .destroy o => (s.owners o).isSome

instance (s : OwnerLoop) (a : OwnerAction) : Decidable (s.enabled a) := by
  unfold enabled
  split <;> first | infer_instance | (split <;> infer_instance)

def exec (s : OwnerLoop) : OwnerAction → Except OwnerFault OwnerLoop
  | .newServer listenFd =>
      return { s.setOwner s.nextOwner (some (.server listenFd false)) with
        nextOwner := s.nextOwner + 1 }
  | .newClient =>
      return { s.setOwner s.nextOwner (some (.client .kDisconnected none)) with
        nextOwner := s.nextOwner + 1 }
  | .start o =>
      match s.owners o with
      | some (.server fd _) => do
          let s ← s.addChannel o fd
          return s.setOwner o (some (.server fd true))
      | _ => return s
  | .accept o sockfd highWaterMark => s.newConnection o sockfd highWaterMark
  | .connect o sockfd =>
      match s.owners o with
      | some (.client state channel) => s.startInLoop o sockfd state channel
      | _ => return s
  | .restart o sockfd =>
      match s.owners o with
      | some (.client _ channel) => s.startInLoop o sockfd .kDisconnected channel
      | _ => return s
  | .attempted o e =>
      match s.owners o with
      | some (.client _ (some ch)) => s.attempted o ch.fd e
      | _ => return s
  | .resetChannel o =>
      match s.owners o with
      | some (.client state _) => return s.setOwner o (some (.client state none))
      | _ => return s
  | .loop a => do
      let table ← (s.table.exec a).mapError .net
      return { s with table := table }
  | .destroy o =>
      match s.owners o with
      -- `~TcpServer` is the default, and `~Acceptor` closes its socket and nothing else
      | some (.server _ _) => return (s.drop o).setOwner o none
      -- `~TcpClient` gives `connection_` another close callback, and then the last pointer to it goes
      | some (.client _ channel) => do
          check (channel = none) .connectorChannel
          return (s.drop o).setOwner o none
      | none => return s

def system : StepSystem OwnerLoop OwnerAction OwnerFault where
  init s := ∃ name writeComplete, s = new name writeComplete
  enabled := enabled
  exec := exec

instance (s : OwnerLoop) (a : OwnerAction) : Decidable (system.enabled s a) :=
  inferInstanceAs (Decidable (s.enabled a))

end OwnerLoop

end MiniMuduo
