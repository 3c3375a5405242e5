import MiniMuduo.Buffer
import MiniMuduo.Net.EPoller

/-!
# `TcpConnection`

The member functions of a connection, as they run in the thread of its loop or in another thread.

* A member function reaches its own object, the poller and the functor queue of its loop, the socket
  and the callbacks its owner set. `Call` holds these for the time of one call: the object and the
  poller as they are, and what the call did to the rest as lists (`queued` functors, `notes`).
* `ConnEvent` is what can be told from outside: system calls with their results, user callbacks, and
  the `send` and `shutdown` calls that found the connection up. The owner acts on `closeCallback`.
* What a system call answers is an argument. `WriteResult.accepted n` stands for every answer of
  `::write` that is no error: `n` bytes, or the whole request when it is shorter.
* User callbacks are the last thing a member function does, except in `connectDestroyed`, which is
  therefore cut in two: the call ends at the callback and leaves `removeChannel` as its `rest`.

The members that set up a connection, and its addresses and context, are left out. `highWaterMark_`
is never set in the source, so nothing is assumed about it.
-/

namespace MiniMuduo

open Fallible

/-- Event loops; `0` is the loop of the server. -/
abbrev LoopId := ℕ

/-- Connections, by the address of the object. -/
abbrev ConnId := ℕ

/-- Threads: the one of a loop, or another. -/
inductive ThreadId where
  | loop (l : LoopId)
  | other (n : ℕ)
  deriving DecidableEq, Repr

inductive StateE where
  | kConnecting
  | kConnected
  | kDisconnecting
  | kDisconnected
  deriving DecidableEq, Repr

inductive Errno where
  | EWOULDBLOCK
  | EPIPE
  | ECONNRESET
  | other
  deriving DecidableEq, Repr

inductive WriteResult where
  | accepted (n : ℕ)
  | failed (errno : Errno)
  deriving DecidableEq, Repr

/-- What is queued with `queueInLoop` for a connection. The sender of a message is kept for the
record. -/
inductive ConnFunctor where
  | connectEstablished
  | connectDestroyed
  | sendInLoop (sender : ThreadId) (message : Bytes)
  | shutdownInLoop
  | writeCompleteCallback
  | highWaterMarkCallback (len : ℕ)
  deriving DecidableEq, Repr

/-- What the thread of the loop still has to do for a connection: the callbacks of a `handleEvent`
call, functors, and the rest of a `connectDestroyed`. -/
inductive ConnTask where
  | event (revents : PollEvents) (cb : ChannelCallback)
  | functor (f : ConnFunctor)
  | removeChannel
  deriving DecidableEq

inductive ConnEvent where
  /-- A `send` that found the connection up. -/
  | send (sender : ThreadId) (message : Bytes)
  /-- A `shutdown` that found the connection up. -/
  | shutdown (caller : ThreadId)
  /-- `sendInLoop(const std::string &)` was executed. -/
  | sendInLoop (sender : ThreadId) (message : Bytes)
  /-- `sendInLoop(const void *, size_t)` was executed; `direct` is the result of its own `::write`, if
  it made one. -/
  | sendBufferInLoop (sender : ThreadId) (message : Bytes) (direct : Option WriteResult)
  /-- `::write` was called. -/
  | write (data : Bytes) (result : WriteResult)
  /-- `SHUT_WR` was issued, with these bytes in the output buffer. -/
  | shutdownWrite (unsent : Bytes)
  | connectionCallback (state : StateE)
  | messageCallback (readable : Bytes)
  | closeCallback
  | writeCompleteCallback
  | highWaterMarkCallback (len : ℕ)
  deriving DecidableEq

structure TcpConnection where
  /-- `this`. -/
  self : ConnId
  loop : LoopId
  name : String
  state : StateE
  channel : Channel
  /-- Whether the callback is set. -/
  writeCompleteCallback : Bool
  highWaterMarkCallback : Bool
  highWaterMark : ℕ
  inputBuffer : WfBuffer
  outputBuffer : WfBuffer

namespace TcpConnection

/-- The constructor, with the callbacks the owner sets right after it. -/
def new (self : ConnId) (loop : LoopId) (name : String) (sockfd : Fd) (highWaterMark : ℕ)
    (writeCompleteCallback : Bool) : TcpConnection where
  self := self
  loop := loop
  name := name
  state := .kConnecting
  channel := .new sockfd
  writeCompleteCallback := writeCompleteCallback
  highWaterMarkCallback := false
  highWaterMark := highWaterMark
  inputBuffer := .new
  outputBuffer := .new

/-- The bytes of `outputBuffer_`. -/
def unsent (c : TcpConnection) : Bytes := c.outputBuffer.readable

def isInLoopThread (c : TcpConnection) (t : ThreadId) : Prop := t = .loop c.loop

instance (c : TcpConnection) (t : ThreadId) : Decidable (c.isInLoopThread t) :=
  inferInstanceAs (Decidable (t = .loop c.loop))

end TcpConnection

namespace WriteResult

/-- What `::write(fd, data, data.size())` returns; nothing for `-1`. -/
def nwrote? (data : Bytes) : WriteResult → Option ℕ
  | .accepted n => some (min n data.length)
  | .failed _ => none

/-- The bytes the kernel takes. -/
def taken (data : Bytes) : WriteResult → Bytes
  | .accepted n => data.take n
  | .failed _ => []

/-- `errno == EPIPE || errno == ECONNRESET`. -/
def isFault : WriteResult → Bool
  | .failed .EPIPE | .failed .ECONNRESET => true
  | _ => false

end WriteResult

/-- A member function of a connection at work. -/
structure Call where
  conn : TcpConnection
  poller : EPoller ConnId
  queued : List ConnFunctor
  notes : List ConnEvent
  rest : List ConnTask

namespace Call

def queueInLoop (k : Call) (f : ConnFunctor) : Call := { k with queued := k.queued ++ [f] }

def note (k : Call) (e : ConnEvent) : Call := { k with notes := k.notes ++ [e] }

def setState (k : Call) (s : StateE) : Call := { k with conn := { k.conn with state := s } }

/-- `events_ = …; update();` in a member of `channel_`. -/
def setEvents (k : Call) (events : PollEvents) : Except NetFault Call := do
  let (ch, p) ← k.poller.updateChannel k.conn.self { k.conn.channel with events := events }
  return { k with conn := { k.conn with channel := ch }, poller := p }

def enableReading (k : Call) : Except NetFault Call :=
  k.setEvents (k.conn.channel.events ∪ Channel.kReadEvent)

def enableWriting (k : Call) : Except NetFault Call :=
  k.setEvents (k.conn.channel.events ∪ Channel.kWriteEvent)

def disableWriting (k : Call) : Except NetFault Call :=
  k.setEvents (k.conn.channel.events \ Channel.kWriteEvent)

def disableAll (k : Call) : Except NetFault Call :=
  k.setEvents Channel.kNoneEvent

def setOutput (k : Call) (b : WfBuffer) : Call :=
  { k with conn := { k.conn with outputBuffer := b } }

/-- `outputBuffer_.append(...); if (!channel_->isWriting()) channel_->enableWriting();` -/
def appendOutput (k : Call) (data : Bytes) : Except NetFault Call :=
  let k := k.setOutput (k.conn.outputBuffer.append data)
  if k.conn.channel.isWriting then return k else k.enableWriting

/-- `outputBuffer_.retrieve(n)`. -/
def retrieveOutput (k : Call) (n : ℕ) : Except NetFault Call :=
  match k.conn.outputBuffer.retrieve n with
  | .ok b => return k.setOutput b
  | .error _ => throw .buffer

/-! ## Up and down -/

def connectEstablished (k : Call) : Except NetFault Call := do
  check (k.conn.state = .kConnecting) .connectEstablished
  let k ← (k.setState .kConnected).enableReading
  return k.note (.connectionCallback k.conn.state)

/-- `connectDestroyed` up to the user callback. -/
def connectDestroyed (k : Call) : Except NetFault Call := do
  check (k.conn.state = .kConnected ∨ k.conn.state = .kDisconnecting) .connectDestroyed
  let k ← (k.setState .kDisconnected).disableAll
  return { k.note (.connectionCallback k.conn.state) with rest := [.removeChannel] }

/-- `loop_->removeChannel(channel_.get())`, the rest of `connectDestroyed`. -/
def removeChannel (k : Call) : Except NetFault Call := do
  let (ch, p) ← k.poller.removeChannel k.conn.self k.conn.channel
  return { k with conn := { k.conn with channel := ch }, poller := p }

def handleClose (k : Call) : Except NetFault Call := do
  check (k.conn.state = .kConnected ∨ k.conn.state = .kDisconnecting) .handleClose
  let k ← k.disableAll
  return k.note .closeCallback

/-! ## Output -/

def shutdownInLoop (k : Call) : Call :=
  if k.conn.channel.isWriting then k else k.note (.shutdownWrite k.conn.unsent)

/-- `writeCompleteCallback_`, when set, is queued. -/
def queueWriteComplete (k : Call) : Call :=
  if k.conn.writeCompleteCallback then k.queueInLoop .writeCompleteCallback else k

/-- `sendInLoop(const std::string &message)`. -/
def sendInLoop (k : Call) (sender : ThreadId) (message : Bytes) (w : WriteResult) :
    Except NetFault Call := do
  let k := k.note (.sendInLoop sender message)
  let (nwrote, k) :=
    if ¬ k.conn.channel.isWriting ∧ k.conn.unsent.length = 0 then
      let k := k.note (.write message w)
      match w.nwrote? message with
      | some nwrote => if nwrote < message.length then (nwrote, k) else (nwrote, k.queueWriteComplete)
      | none => (0, k)
    else (0, k)
  if nwrote < message.length then k.appendOutput (message.drop nwrote) else return k

/-- `highWaterMarkCallback_`, when set, is queued as the output buffer grows over the mark. -/
def queueHighWaterMark (k : Call) (remaining : ℕ) : Call :=
  let oldLen := k.conn.unsent.length
  if oldLen + remaining ≥ k.conn.highWaterMark ∧ oldLen < k.conn.highWaterMark ∧
      k.conn.highWaterMarkCallback then
    k.queueInLoop (.highWaterMarkCallback (oldLen + remaining))
  else k

/-- `sendInLoop(const void *data, size_t len)`. -/
def sendBufferInLoop (k : Call) (sender : ThreadId) (data : Bytes) (w : WriteResult) :
    Except NetFault Call := do
  if k.conn.state = .kDisconnected then return k
  let direct : Option WriteResult :=
    if ¬ k.conn.channel.isWriting ∧ k.conn.unsent.length = 0 then some w else none
  let k := k.note (.sendBufferInLoop sender data direct)
  let (nwrote, remaining, faultError, k) :=
    match direct with
    | some w =>
        let k := k.note (.write data w)
        match w.nwrote? data with
        | some nwrote =>
            let remaining := data.length - nwrote
            if remaining = 0 then (nwrote, remaining, false, k.queueWriteComplete)
            else (nwrote, remaining, false, k)
        | none => (0, data.length, w.isFault, k)
    | none => (0, data.length, false, k)
  if faultError = false ∧ 0 < remaining then
    (k.queueHighWaterMark remaining).appendOutput (data.drop nwrote)
  else return k

/-- `send(const std::string &message)`, called in the thread `t`. -/
def send (k : Call) (t : ThreadId) (message : Bytes) (w : WriteResult) : Except NetFault Call :=
  if k.conn.state = .kConnected then
    let k := k.note (.send t message)
    if k.conn.isInLoopThread t then k.sendInLoop t message w
    else return k.queueInLoop (.sendInLoop t message)
  else return k

/-- `send(Buffer *buf)` for a buffer with these readable bytes, which does nothing in another
thread. -/
def sendBuffer (k : Call) (t : ThreadId) (data : Bytes) (w : WriteResult) : Except NetFault Call :=
  if k.conn.state = .kConnected ∧ k.conn.isInLoopThread t then
    (k.note (.send t data)).sendBufferInLoop t data w
  else return k

def shutdown (k : Call) (t : ThreadId) : Call :=
  if k.conn.state = .kConnected then
    let k := (k.setState .kDisconnecting).note (.shutdown t)
    if k.conn.isInLoopThread t then k.shutdownInLoop else k.queueInLoop .shutdownInLoop
  else k

/-! ## Events -/

def handleRead (k : Call) : Buffer.ReadResult → Except NetFault Call
  | .error => return k
  | .data [] => k.handleClose
  | .data bytes =>
      let k := { k with conn := { k.conn with inputBuffer := k.conn.inputBuffer.readFd bytes } }
      return k.note (.messageCallback k.conn.inputBuffer.readable)

/-- `handleWrite` when nothing is left in the output buffer. -/
def finishWrite (k : Call) : Except NetFault Call := do
  let k ← k.disableWriting
  let k := k.queueWriteComplete
  if k.conn.state = .kDisconnecting then return k.shutdownInLoop else return k

def handleWrite (k : Call) (w : WriteResult) : Except NetFault Call :=
  if k.conn.channel.isWriting then
    let data := k.conn.unsent
    let k := k.note (.write data w)
    match w.nwrote? data with
    | some n =>
        if 0 < n then do
          let k ← k.retrieveOutput n
          if k.conn.unsent.length = 0 then k.finishWrite else return k
        else return k
    | none => return k
  else return k

/-- One callback of `channel_`. `handleError` reads `SO_ERROR` for the log and does nothing else. -/
def handle (k : Call) (cb : ChannelCallback) (r : Buffer.ReadResult) (w : WriteResult) :
    Except NetFault Call :=
  match cb with
  | .close => k.handleClose
  | .error => return k
  | .read => k.handleRead r
  | .write => k.handleWrite w

def runFunctor (k : Call) (f : ConnFunctor) (w : WriteResult) : Except NetFault Call :=
  match f with
  | .connectEstablished => k.connectEstablished
  | .connectDestroyed => k.connectDestroyed
  | .sendInLoop sender message => k.sendInLoop sender message w
  | .shutdownInLoop => return k.shutdownInLoop
  | .writeCompleteCallback => return k.note .writeCompleteCallback
  | .highWaterMarkCallback len => return k.note (.highWaterMarkCallback len)

def runTask (k : Call) (t : ConnTask) (r : Buffer.ReadResult) (w : WriteResult) :
    Except NetFault Call :=
  match t with
  | .event _ cb => k.handle cb r w
  | .functor f => k.runFunctor f w
  | .removeChannel => k.removeChannel

end Call

end MiniMuduo
