import MiniMuduo.Lib.StepSystem
import MiniMuduo.Net.Calls

/-!
# One connection and what happens to it

A `Session` is one `TcpConnection` together with the part of its surroundings it depends on: the
poller of its loop, its functors in the queue of the loop, what the thread of the loop still has to
do for it, its owner's books, and the history of what was seen of it. `Session.system` has every
order of

* the iterations of the loop: `poll`, the callbacks of `handleEvent`, `doPendingFunctors`;
* `send` and `shutdown` calls, in the thread of the loop (from any callback, so at any time) or in
  another one, each state check with its action as one step;
* the owner's part: every `closeCallback` asks for a `removeConnectionInLoop`, which the loop of the
  owner runs some time later and which queues `connectDestroyed`;
* changes of the poller at other descriptors.

The kernel reports any subset of the events it watches, `POLLERR` and `POLLHUP`. A session is part of
every run of a server (`MiniMuduo.Net.ServerSessions`), so what is shown here holds there.
-/

namespace MiniMuduo

open Fallible

/-- Where the thread of a loop is in `EventLoop::loop`. -/
inductive LoopPhase where
  | polling
  | dispatching
  | callingPendingFunctors
  deriving DecidableEq, Repr

@[ext] structure Session where
  conn : TcpConnection
  poller : EPoller ConnId
  pendingFunctors : List ConnFunctor
  phase : LoopPhase
  todo : List ConnTask
  /-- The owner still has the connection in its map. -/
  listed : Bool
  /-- The `removeConnectionInLoop` calls that were asked for and have not run. -/
  removing : ℕ
  history : List ConnEvent

inductive SessionAction where
  /-- `poll` returns, with these `revents_` for the connection or without it. -/
  | poll (revents : Option PollEvents)
  /-- The thread of the loop does the next thing it has to do for the connection. -/
  | task (r : Buffer.ReadResult) (w : WriteResult)
  /-- `doPendingFunctors` takes the queued functors. -/
  | takeFunctors
  | endIteration
  | send (t : ThreadId) (message : Bytes) (w : WriteResult)
  | sendBuffer (t : ThreadId) (data : Bytes) (w : WriteResult)
  | shutdown (t : ThreadId)
  /-- The user takes bytes out of the input buffer, or sets callbacks. -/
  | retrieveInput (len : ℕ)
  | setCallbacks (writeComplete highWaterMark : Bool)
  /-- The owner runs `removeConnectionInLoop`. -/
  | removeConnection
  /-- Other channels of the loop come, change and go. -/
  | others (p : EPoller ConnId)

def ConnTask.functor? : ConnTask → Option ConnFunctor
  | .functor f => some f
  | _ => none

namespace Session

/-- The functors that wait, in the order in which they will run. -/
def functors (s : Session) : List ConnFunctor :=
  s.todo.filterMap ConnTask.functor? ++ s.pendingFunctors

def call (s : Session) : Call := ⟨s.conn, s.poller, [], [], []⟩

/-- What a call did, carried over. Each `closeCallback` asks the owner for a removal. -/
def commit (s : Session) (k : Call) : Session :=
  { s with
    conn := k.conn
    poller := k.poller
    pendingFunctors := s.pendingFunctors ++ k.queued
    todo := k.rest ++ s.todo
    removing := s.removing + k.notes.count .closeCallback
    history := s.history ++ k.notes }

def pop (s : Session) (ts : List ConnTask) : Session := { s with todo := ts }

/-- A new connection: its owner has it in the map, and `connectEstablished` is run at once by the
thread of the loop or waits in the queue. -/
def opened (conn : TcpConnection) (p : EPoller ConnId) (phase : LoopPhase) (atOnce : Bool) :
    Session where
  conn := conn
  poller := p
  pendingFunctors := if atOnce then [] else [.connectEstablished]
  phase := phase
  todo := if atOnce then [.functor .connectEstablished] else []
  listed := true
  removing := 0
  history := []

def init (s : Session) : Prop :=
  ∃ self loop name sockfd highWaterMark writeComplete p phase atOnce,
    p.channels sockfd ≠ some self ∧ p.interest sockfd = none ∧
    s = opened (.new self loop name sockfd highWaterMark writeComplete) p phase atOnce

/-- What the kernel can report for a descriptor watched for `events`. -/
def Reportable (events revents : PollEvents) : Prop := revents ⊆ events ∪ {.POLLERR, .POLLHUP}

instance (events revents : PollEvents) : Decidable (Reportable events revents) :=
  inferInstanceAs (Decidable (revents ⊆ events ∪ {.POLLERR, .POLLHUP}))

def enabled (s : Session) : SessionAction → Prop
  | .poll none => s.phase = .polling ∧ s.todo = []
  | .poll (some revents) => s.phase = .polling ∧ s.todo = [] ∧
      ∃ e ∈ s.poller.interest s.conn.channel.fd, e.2 = s.conn.self ∧ Reportable e.1 revents
  | .task _ _ => s.todo ≠ []
  | .takeFunctors => s.phase = .dispatching ∧ s.todo = []
  | .endIteration => s.phase = .callingPendingFunctors ∧ s.todo = []
  | .removeConnection => 0 < s.removing
  | .others p => s.poller.SameAt p s.conn.channel.fd
  | _ => True

instance (s : Session) (a : SessionAction) : Decidable (s.enabled a) := by
  cases a with
  | poll revents => cases revents <;> unfold enabled <;> infer_instance
  | _ => unfold enabled; infer_instance

/-- The tasks of a `handleEvent` call. -/
def eventTasks (revents : PollEvents) : List ConnTask :=
  (Channel.handleEvent revents).map (.event revents)

def exec (s : Session) : SessionAction → Except NetFault Session
  | .poll none => return { s with phase := .dispatching }
  | .poll (some revents) => return { s with phase := .dispatching, todo := eventTasks revents }
  | .task r w =>
      match s.todo with
      | [] => return s
      | t :: ts => do
          let k ← s.call.runTask t r w
          return (s.pop ts).commit k
  | .takeFunctors =>
      return { s with
        phase := .callingPendingFunctors
        todo := s.pendingFunctors.map .functor
        pendingFunctors := [] }
  | .endIteration => return { s with phase := .polling }
  | .send t message w => do
      let k ← s.call.send t message w
      return s.commit k
  | .sendBuffer t data w => do
      let k ← s.call.sendBuffer t data w
      return s.commit k
  | .shutdown t => return s.commit (s.call.shutdown t)
  | .retrieveInput len =>
      match s.conn.inputBuffer.retrieve len with
      | .ok b => return { s with conn := { s.conn with inputBuffer := b } }
      | .error _ => throw .buffer
  | .setCallbacks writeComplete highWaterMark =>
      return { s with conn := { s.conn with
        writeCompleteCallback := writeComplete, highWaterMarkCallback := highWaterMark } }
  | .removeConnection => do
      check (s.listed = true) .removeConnectionInLoop
      return { s with
        listed := false
        removing := s.removing - 1
        pendingFunctors := s.pendingFunctors ++ [.connectDestroyed] }
  | .others p => return { s with poller := p }

def system : StepSystem Session SessionAction NetFault where
  init := init
  enabled := enabled
  exec := exec

instance (s : Session) (a : SessionAction) : Decidable (system.enabled s a) :=
  inferInstanceAs (Decidable (s.enabled a))

/-! ## Sends that leave bytes behind -/

end Session

/-- `sendInLoop` has nothing to put into the output buffer. -/
def TcpConnection.WritesAll (c : TcpConnection) (message : Bytes) (w : WriteResult) : Prop :=
  message = [] ∨ ¬ c.channel.isWriting ∧ c.unsent = [] ∧ w.taken message = message

instance (c : TcpConnection) (message : Bytes) (w : WriteResult) :
    Decidable (c.WritesAll message w) :=
  inferInstanceAs (Decidable (_ ∨ _))

namespace Session

/-- The step executes a `sendInLoop` that puts bytes into the output buffer. -/
def LeavesUnsent (s : Session) : SessionAction → Prop
  | .task _ w =>
      match s.todo with
      | .functor (.sendInLoop _ message) :: _ => ¬ s.conn.WritesAll message w
      | _ => False
  | .send t message w =>
      s.conn.state = .kConnected ∧ s.conn.isInLoopThread t ∧ ¬ s.conn.WritesAll message w
  | .sendBuffer t data w =>
      s.conn.state = .kConnected ∧ s.conn.isInLoopThread t ∧ ¬ s.conn.WritesAll data w ∧
        ¬ (s.call.Direct ∧ w.isFault = true)
  | _ => False

instance (s : Session) (a : SessionAction) : Decidable (s.LeavesUnsent a) := by
  cases a with
  | task r w =>
      unfold LeavesUnsent
      dsimp only
      split <;> infer_instance
  | _ => unfold LeavesUnsent; infer_instance

/-! ## What a step can do

Every step is one of the moves below. The invariants of the life of a connection go by these cases
and never look into a member function again. -/

/-- A task that ends neither in a callback nor in a step of the connection's life. -/
def Calm : ConnTask → Prop
  | .event _ cb => cb ≠ .close
  | .functor f => f.isQuiet = true
  | .removeChannel => False

/-- The interest is left alone by a step that leaves nothing unsent and finds nothing to drain. -/
def Undisturbed (s : Session) (a : SessionAction) (k : Call) : Prop :=
  ¬ s.LeavesUnsent a → ¬ s.conn.channel.isWriting →
    k.conn.channel = s.conn.channel ∧ k.poller = s.poller

inductive Move (s : Session) (a : SessionAction) : Session → Prop where
  | up {ts : List ConnTask} {k : Call} (htodo : s.todo = .functor .connectEstablished :: ts)
      (hk : s.call.connectEstablished = .ok k) : Move s a ((s.pop ts).commit k)
  | down {ts : List ConnTask} {k : Call} (htodo : s.todo = .functor .connectDestroyed :: ts)
      (hk : s.call.connectDestroyed = .ok k) : Move s a ((s.pop ts).commit k)
  | removeChannel {ts : List ConnTask} {k : Call} (htodo : s.todo = .removeChannel :: ts)
      (hk : s.call.removeChannel = .ok k) : Move s a ((s.pop ts).commit k)
  | close {revents : PollEvents} {cb : ChannelCallback} {ts : List ConnTask} {k : Call}
      (htodo : s.todo = .event revents cb :: ts)
      (hcb : cb = .close ∨ cb = .read ∧ ∃ w, a = .task (.data []) w)
      (hk : s.call.handleClose = .ok k) : Move s a ((s.pop ts).commit k)
  | message {revents : PollEvents} {ts : List ConnTask} {b : WfBuffer}
      (htodo : s.todo = .event revents .read :: ts) :
      Move s a { s.pop ts with
        conn := { s.conn with inputBuffer := b }
        history := s.history ++ [.messageCallback b.readable] }
  /-- A task that sends, drains or half-closes, or one that does nothing. -/
  | task {t : ConnTask} {ts : List ConnTask} {k : Call} (htodo : s.todo = t :: ts) (ht : Calm t)
      (hk : s.call.Quiet k) (hreg : s.Undisturbed a k) : Move s a ((s.pop ts).commit k)
  /-- A call of the user, which does something only while the connection is up. -/
  | user {k : Call} (hup : s.conn.state ≠ .kConnected → k = s.call) (hk : s.call.Quiet k)
      (hreg : s.Undisturbed a k) : Move s a (s.commit k)
  | settings {b : WfBuffer} {writeComplete highWaterMark : Bool} :
      Move s a { s with conn := { s.conn with
        inputBuffer := b
        writeCompleteCallback := writeComplete
        highWaterMarkCallback := highWaterMark } }
  | poll {revents : PollEvents} {events : PollEvents} (htodo : s.todo = [])
      (hinterest : s.poller.interest s.conn.channel.fd = some (events, s.conn.self))
      (hreport : Reportable events revents) :
      Move s a { s with phase := .dispatching, todo := eventTasks revents }
  | phase {phase : LoopPhase} : Move s a { s with phase := phase }
  | takeFunctors (htodo : s.todo = []) :
      Move s a { s with
        phase := .callingPendingFunctors
        todo := s.pendingFunctors.map .functor
        pendingFunctors := [] }
  | removeConnection (hlisted : s.listed = true) (hpos : 0 < s.removing) :
      Move s a { s with
        listed := false
        removing := s.removing - 1
        pendingFunctors := s.pendingFunctors ++ [.connectDestroyed] }
  | others {p : EPoller ConnId} (hsame : s.poller.SameAt p s.conn.channel.fd) :
      Move s a { s with poller := p }

end Session

namespace Call

variable {k k' : Call}

theorem drop_taken_of_writesAll {message : Bytes} {w : WriteResult}
    (h : k.conn.WritesAll message w) : message.drop (k.taken message w).length = [] := by
  rcases h with rfl | ⟨hw, hun, htaken⟩
  · exact List.drop_nil
  · have hd : k.Direct := ⟨hw, by rw [hun]; rfl⟩
    rw [taken, if_pos hd, htaken, List.drop_length]

theorem buffer_nil (k : Call) : k.buffer [] = .ok k := rfl

/-- A `sendInLoop` that writes everything leaves the interest alone. -/
theorem sendInLoop_of_writesAll {t : ThreadId} {message : Bytes} {w : WriteResult}
    (hw : k.conn.WritesAll message w) (h : k.sendInLoop t message w = .ok k') :
    k'.conn.channel = k.conn.channel ∧ k'.poller = k.poller := by
  rw [sendInLoop_eq, drop_taken_of_writesAll hw, buffer_nil] at h
  cases h
  exact ⟨rfl, rfl⟩

theorem sendBufferInLoop_of_writesAll {t : ThreadId} {data : Bytes} {w : WriteResult}
    (hstate : k.conn.state ≠ .kDisconnected)
    (hw : k.conn.WritesAll data w ∨ k.Direct ∧ w.isFault = true)
    (h : k.sendBufferInLoop t data w = .ok k') :
    k'.conn.channel = k.conn.channel ∧ k'.poller = k.poller := by
  have hleft : k.leftOfBuffer data w = [] := by
    unfold leftOfBuffer
    split
    · rfl
    · next hf => exact drop_taken_of_writesAll (hw.resolve_right hf)
  rw [sendBufferInLoop_eq k t data w hstate, hleft, buffer_nil] at h
  cases h
  exact ⟨rfl, rfl⟩

end Call

namespace Session

variable {s s' : Session} {a : SessionAction}

/-- What the thread of the loop does next for the connection. -/
theorem exec_task {t : ConnTask} {ts : List ConnTask} (htodo : s.todo = t :: ts)
    (r : Buffer.ReadResult) (w : WriteResult) :
    s.exec (.task r w) = (s.call.runTask t r w >>= fun k => .ok ((s.pop ts).commit k)) := by
  simp only [exec, htodo]
  rfl

theorem exec_task_eq_ok {r : Buffer.ReadResult} {w : WriteResult} (hen : s.todo ≠ [])
    (hex : s.exec (.task r w) = .ok s') :
    ∃ t ts k, s.todo = t :: ts ∧ s.call.runTask t r w = .ok k ∧ s' = (s.pop ts).commit k := by
  obtain ⟨t, ts, htodo⟩ := List.exists_cons_of_ne_nil hen
  rw [exec_task htodo] at hex
  obtain ⟨k, hk, hex⟩ := bind_eq_ok.mp hex
  exact ⟨t, ts, k, htodo, hk, (Except.ok.inj hex).symm⟩

theorem exec_retrieveInput_eq_ok {len : ℕ} :
    s.exec (.retrieveInput len) = .ok s' ↔
      ∃ b, s.conn.inputBuffer.retrieve len = .ok b ∧
        s' = { s with conn := { s.conn with inputBuffer := b } } := by
  simp only [exec]
  cases s.conn.inputBuffer.retrieve len with
  | error e => simp
  | ok b => simp [eq_comm]

theorem undisturbed_send {t : ThreadId} {message : Bytes} {w : WriteResult} {k : Call}
    (h : s.call.send t message w = .ok k) : s.Undisturbed (.send t message w) k := by
  intro hleaves _
  unfold Call.send at h
  simp only [Call.note_eq, Call.queueInLoop_eq, Call.emit_emit] at h
  split at h
  · next hstate =>
      split at h
      · next hloop =>
          refine Call.sendInLoop_of_writesAll ?_ h
          by_contra hw
          exact hleaves ⟨hstate, hloop, hw⟩
      · cases h
        exact ⟨rfl, rfl⟩
  · cases h
    exact ⟨rfl, rfl⟩

theorem undisturbed_sendBuffer {t : ThreadId} {data : Bytes} {w : WriteResult} {k : Call}
    (h : s.call.sendBuffer t data w = .ok k) : s.Undisturbed (.sendBuffer t data w) k := by
  intro hleaves _
  unfold Call.sendBuffer at h
  rw [Call.note_eq] at h
  split at h
  · next hcond =>
      refine Call.sendBufferInLoop_of_writesAll ?_ ?_ h
      · intro hdown
        have hup : s.conn.state = .kConnected := hcond.1
        rw [Call.emit_conn] at hdown
        exact absurd (hup.symm.trans hdown) (by decide)
      · by_contra hw
        rw [not_or] at hw
        exact hleaves ⟨hcond.1, hcond.2, hw.1, hw.2⟩
  · cases h
    exact ⟨rfl, rfl⟩

theorem undisturbed_emit {es : List ConnEvent} {fs : List ConnFunctor} :
    s.Undisturbed a (s.call.emit es fs) := fun _ _ => ⟨rfl, rfl⟩

theorem undisturbed_shutdown {t : ThreadId} : s.Undisturbed a (s.call.shutdown t) := by
  intro _ _
  unfold Call.shutdown
  simp only [Call.shutdownInLoop_eq, Call.note_eq, Call.queueInLoop_eq]
  split
  · split <;> exact ⟨rfl, rfl⟩
  · exact ⟨rfl, rfl⟩

theorem move_task {r : Buffer.ReadResult} {w : WriteResult} {t : ConnTask} {ts : List ConnTask}
    {k : Call} (htodo : s.todo = t :: ts) (h : s.call.runTask t r w = .ok k) :
    Move s (.task r w) ((s.pop ts).commit k) := by
  cases t with
  | removeChannel => exact .removeChannel htodo h
  | event revents cb =>
      cases cb with
      | close => exact .close htodo (.inl rfl) h
      | error =>
          cases h
          exact .task htodo (by simp [Calm]) (.refl _) fun _ _ => ⟨rfl, rfl⟩
      | write =>
          refine .task htodo (by simp [Calm]) (Call.handleWrite_quiet h) fun _ hw => ?_
          -- a channel that is not watched for `POLLOUT` has nothing to drain
          have hidle : s.call.handleWrite w = .ok k := h
          rw [Call.handleWrite_of_not_isWriting hw] at hidle
          cases hidle
          exact ⟨rfl, rfl⟩
      | read =>
          cases r with
          | error =>
              cases h
              exact .task htodo (by simp [Calm]) (.refl _) fun _ _ => ⟨rfl, rfl⟩
          | data bytes =>
              cases bytes with
              | nil => exact .close htodo (.inr ⟨rfl, w, rfl⟩) h
              | cons b bs =>
                  cases h
                  have hmove := Move.message (a := .task (.data (b :: bs)) w) htodo
                    (b := s.conn.inputBuffer.readFd (b :: bs))
                  simpa [commit, pop, Call.note, call] using hmove
  | functor f =>
      cases f with
      | connectEstablished => exact .up htodo h
      | connectDestroyed => exact .down htodo h
      | sendInLoop sender message =>
          -- a message that is written at once does not touch the channel
          refine .task htodo rfl (Call.sendInLoop_quiet h) fun hleaves _ => ?_
          refine Call.sendInLoop_of_writesAll ?_ h
          by_contra hw
          unfold LeavesUnsent at hleaves
          rw [htodo] at hleaves
          exact hleaves hw
      | shutdownInLoop =>
          cases h
          refine .task htodo rfl (Call.shutdownInLoop_quiet _) ?_
          rw [Call.shutdownInLoop_eq]
          exact undisturbed_emit
      | writeCompleteCallback =>
          cases h
          rw [Call.note_eq]
          exact .task htodo rfl (Call.quiet_emit (by simp [ConnEvent.isQuiet]) (by simp))
            undisturbed_emit
      | highWaterMarkCallback len =>
          cases h
          rw [Call.note_eq]
          exact .task htodo rfl (Call.quiet_emit (by simp [ConnEvent.isQuiet]) (by simp))
            undisturbed_emit

/-- **Every step is a move.** -/
theorem move_of_step (h : system.Step s a s') : Move s a s' := by
  obtain ⟨hen, hex⟩ := h
  cases a with
  | poll revents =>
      cases revents with
      | none =>
          cases hex
          exact .phase
      | some revents =>
          cases hex
          obtain ⟨-, htodo, ⟨events, ptr⟩, hmem, rfl, hreport⟩ := hen
          exact .poll htodo hmem hreport
  | task r w =>
      obtain ⟨t, ts, k, htodo, hk, rfl⟩ := exec_task_eq_ok hen hex
      exact move_task htodo hk
  | takeFunctors =>
      cases hex
      exact .takeFunctors hen.2
  | endIteration =>
      cases hex
      exact .phase
  | send t message w =>
      obtain ⟨k, hk, hex⟩ := bind_eq_ok.mp hex
      cases hex
      refine .user (fun hup => ?_) (Call.send_quiet hk) (undisturbed_send hk)
      rw [Call.send_of_ne hup] at hk
      exact (Except.ok.inj hk).symm
  | sendBuffer t data w =>
      obtain ⟨k, hk, hex⟩ := bind_eq_ok.mp hex
      cases hex
      refine .user (fun hup => ?_) (Call.sendBuffer_quiet hk) (undisturbed_sendBuffer hk)
      rw [Call.sendBuffer_of_ne hup] at hk
      exact (Except.ok.inj hk).symm
  | shutdown t =>
      cases hex
      exact .user (fun hup => Call.shutdown_of_ne hup) (Call.shutdown_quiet _ t) undisturbed_shutdown
  | retrieveInput len =>
      obtain ⟨b, -, rfl⟩ := exec_retrieveInput_eq_ok.mp hex
      exact .settings
  | setCallbacks writeComplete highWaterMark =>
      cases hex
      exact .settings
  | removeConnection =>
      obtain ⟨u, hlisted, hex⟩ := bind_eq_ok.mp hex
      cases hex
      exact .removeConnection (check_eq_ok.mp hlisted) hen
  | others p =>
      cases hex
      exact .others hen

end Session

end MiniMuduo
