import MiniMuduo.Net.ServerSessions

/-!
# What holds in every run of a server

The results about sessions, carried over to all connections of all servers by `tracked_of_reachable`:

* the user sees every connection come up, receive messages and go down, in this order
  (`callback_protocol`);
* a connection is closed once, and the asserts of its removal hold, as long as no step closes it a
  second time or has it watched again after it was closed (`closed_once`). `closedTwice` is a run in
  which a `send` of the user between `handleClose` and `connectDestroyed` does the latter.
-/

namespace MiniMuduo

open Fallible

namespace TcpServer

variable {s s' : TcpServer} {c c₀ : ConnId} {conn conn₀ : TcpConnection} {l : LoopId} {k : Call}
  {a : ServerAction}

/-! ## User callbacks -/

theorem liberal_true : Session.Liberal fun _ _ => True :=
  ⟨fun _ _ _ => trivial, fun _ _ _ _ _ => trivial⟩

theorem meets_true (s : TcpServer) (a : ServerAction) : s.Meets (fun _ _ => True) a := by
  unfold Meets
  split
  · split
    · exact fun _ _ => trivial
    · trivial
  · exact fun _ _ => trivial
  · exact fun _ _ => trivial
  · trivial

/-- **User callback protocol.** What the user sees of a connection, whether it still exists or not, is
one `connectionCallback` in `kConnected`, then messages, then one `connectionCallback` in
`kDisconnected`, or the beginning of this. -/
theorem callback_protocol (h : system.Reachable s) (c : ConnId) :
    CallbackProtocol (userCallbacks (s.history c)) := by
  have htracked := tracked_of_reachable liberal_true (h.mono fun s a _ => meets_true s a)
  have hsession : ∀ x, Session.system.Reachable x → CallbackProtocol (userCallbacks x.history) :=
    fun x hx => (Session.orderly_of_reachable hx).callbacks.seen.protocol
  cases hc : s.conns c with
  | some conn => exact hsession _ (htracked.live c conn hc)
  | none =>
      rcases htracked.past c hc with hnil | ⟨x, hx, hhistory⟩
      · rw [hnil]
        exact ⟨[], List.nil_prefix⟩
      · rw [← hhistory]
        exact hsession x hx

/-- A connection in the second loop: it comes up, receives a byte, is closed by the peer, and is
destroyed and released after the base loop has removed it. -/
def servedRun : List ServerAction :=
  [.poll 0 [], .accept 5 0,
   .poll 1 [], .takeFunctors 1, .task 1 .error (.accepted 0), .endIteration 1,
   .poll 1 [(5, {.POLLIN})], .task 1 (.data [104]) (.accepted 0), .takeFunctors 1, .endIteration 1,
   .poll 1 [(5, {.POLLIN})], .task 1 (.data []) (.accepted 0),
   .takeFunctors 0, .task 0 .error (.accepted 0),
   .takeFunctors 1, .task 1 .error (.accepted 0), .task 1 .error (.accepted 0), .release 1]

theorem callback_protocol_servedRun :
    ∃ s, system.Reachable s ∧
      userCallbacks (s.history 1) = [.connectionCallback .kConnected, .messageCallback [104],
        .connectionCallback .kDisconnected] ∧
      CallbackProtocol (userCallbacks (s.history 1)) := by
  obtain ⟨s, hs, hp⟩ := StepSystem.exists_reachableVia_of_runFrom? (fun _ _ => True)
    servedRun (M := system) (p := fun s => decide (userCallbacks (s.history 1) =
      [.connectionCallback .kConnected, .messageCallback [104], .connectionCallback .kDisconnected]))
    (s := new "echo" 1 false) ⟨_, _, _, rfl⟩ (by decide +kernel)
  exact ⟨s, hs, of_decide_eq_true hp, callback_protocol hs 1⟩

/-! ## Closing -/

theorem liberal_closesCleanly : Session.Liberal Session.ClosesCleanly := by
  constructor
  · intro x a ha
    unfold Session.ClosesCleanly
    cases a with
    | task r w | send t message w | sendBuffer t data w => cases ha
    | poll revents | takeFunctors | endIteration | shutdown t | retrieveInput len
    | setCallbacks writeComplete highWaterMark | removeConnection | others p =>
        exact ⟨fun _ => id, id⟩
  · intro x r w ts htodo
    unfold Session.ClosesCleanly Session.LeavesUnsent Session.ReadsEndAfterHangup
    simp only [htodo]
    refine ⟨fun _ => id, ?_⟩
    split <;> exact id

/-- A removal that was asked for finds the connection in the map, when it is closed once. -/
theorem listed_of_removing {x : Session} (hx : Session.system.ReachableVia Session.ClosesCleanly x)
    (hpos : 0 < x.removing) : x.listed = true := by
  have haccounts := (Session.orderly_of_reachable hx.reachable).accounts
  have honce := (Session.closedOnce_of_reachable hx).once
  have hcloses := haccounts.closes
  have hgone : x.gone = 0 := by omega
  by_contra hlisted
  have hnot := haccounts.listed
  rw [if_neg hlisted, hgone] at hnot
  cases hnot

/-- A `connectDestroyed` that is about to run finds the connection up. -/
theorem up_of_connectDestroyed {x : Session} (hx : Session.system.Reachable x) {ts : List ConnTask}
    (htodo : x.todo = .functor .connectDestroyed :: ts) :
    x.conn.state = .kConnected ∨ x.conn.state = .kDisconnecting := by
  have horderly := Session.orderly_of_reachable hx
  have hconnecting : x.conn.state ≠ .kConnecting :=
    horderly.waiting.ne_connecting htodo (by simp)
  have hdown : x.conn.state ≠ .kDisconnected := by
    intro hstate
    have hgone : 2 ≤ x.gone := by
      unfold Session.gone
      rw [Session.functors_of_functor htodo, List.count_cons_self, if_pos hstate]
      omega
    have hlisted := horderly.accounts.listed
    split at hlisted <;> omega
  cases hstate : x.conn.state with
  | kConnecting => exact absurd hstate hconnecting
  | kConnected => exact .inl rfl
  | kDisconnecting => exact .inr rfl
  | kDisconnected => exact absurd hstate hdown

theorem removeConnectionInLoop_fails
    (h : ∀ conn, s.conns c = some conn → s.connections conn.name = some c) :
    FailsWith (¬ ·.ofRemoval) (s.removeConnectionInLoop c) := by
  unfold removeConnectionInLoop
  split
  · exact failsWith_throw id
  · next conn hc =>
      rw [check_of_pos (by rw [h conn hc]; rfl)]
      exact failsWith_pure _

theorem perform_fails {f : Call → Except NetFault Call}
    (hf : ∀ conn, s.conns c = some conn → FailsWith (¬ ·.ofRemoval) (f (s.session c conn).call))
    (hclose : ∀ conn k, s.conns c = some conn → f (s.session c conn).call = .ok k →
      .closeCallback ∈ k.notes → s.connections k.conn.name = some c) :
    FailsWith (¬ ·.ofRemoval) (s.perform c f) := by
  unfold perform
  split
  · exact failsWith_throw id
  · next conn hc =>
      refine (hf conn hc).bind fun k hk => ?_
      dsimp only
      split
      · next hmem =>
          unfold removeConnection
          split
          · refine removeConnectionInLoop_fails fun conn' hconn' => ?_
            rw [commit_conns_self, Option.some.injEq] at hconn'
            rw [← hconn']
            exact hclose conn k hc hk hmem
          · exact failsWith_pure _
      · exact failsWith_pure _

/-- A call that closes nothing. -/
theorem perform_fails_quiet {f : Call → Except NetFault Call}
    (hf : ∀ k, FailsWith (¬ ·.ofRemoval) (f k)) (hquiet : ∀ k k', f k = .ok k' → k.Quiet k') :
    FailsWith (¬ ·.ofRemoval) (s.perform c f) :=
  perform_fails (fun _ _ => hf _) fun conn k _ hk hmem =>
    absurd hmem (Session.quiet_notes (s := s.session c conn) (hquiet _ k hk))

theorem fillActiveChannels_fails (p : EPoller ConnId) (reports : List (Fd × PollEvents)) :
    FailsWith (¬ ·.ofRemoval) (EventLoop.fillActiveChannels p reports) := by
  induction reports with
  | nil => exact failsWith_pure _
  | cons x rs ih =>
      obtain ⟨fd, revents⟩ := x
      unfold EventLoop.fillActiveChannels
      split
      · exact ih
      · exact (failsWith_check id).bind fun _ _ => ih.bind fun _ _ => failsWith_pure _

theorem connTask_fails (h : s.Tracked Session.ClosesCleanly) {r : Buffer.ReadResult}
    {w : WriteResult} {t : ConnTask} {ts : List LoopTask}
    (htodo : (s.loops l).todo = .conn c t :: ts)
    (hmeets : s.Meets Session.ClosesCleanly (.task l r w)) :
    FailsWith (¬ ·.ofRemoval) ((s.popTask l ts).perform c fun k => k.runTask t r w) := by
  have hallowed := (h.sound.popTask htodo).2
  refine perform_fails (fun conn hc => ?_) fun conn k hc hk hmem => ?_
  · have hc' : s.conns c = some conn := hc
    obtain rfl : conn.loop = l := hallowed.2 _ (ident_of_conns hc')
    obtain ⟨htasks, hsession⟩ := session_popTask conn htodo
    rw [hsession]
    refine Call.runTask_fails _ t r w fun ht => ?_
    rw [ht] at htasks
    have hup := up_of_connectDestroyed (h.live c conn hc').reachable htasks
    exact hup
  · have hc' : s.conns c = some conn := hc
    obtain rfl : conn.loop = l := hallowed.2 _ (ident_of_conns hc')
    have hrun : (s.session c conn).call.runTask t r w = .ok k := by
      rw [(session_popTask conn htodo).2] at hk
      exact hk
    have hperforms := h.performs_task hc' htodo hmeets hrun
    have hlisted := listed_of_removing hperforms.own (Nat.lt_of_lt_of_le
      (List.count_pos_iff.mpr hmem) (Nat.le_add_left _ _))
    have hentry : s.connections conn.name = some c := of_decide_eq_true hlisted
    rw [show k.conn.name = conn.name from hperforms.kept.name]
    exact hentry

/-- In a run that closes cleanly, no step fails an assert of the removal. -/
theorem exec_fails (h : s.Tracked Session.ClosesCleanly) (hmeets : s.Meets Session.ClosesCleanly a) :
    FailsWith (¬ ·.ofRemoval) (s.exec a) := by
  cases a with
  | accept sockfd highWaterMark =>
      unfold exec newConnection
      dsimp only
      split
      · refine perform_fails (fun conn hc => ?_) fun conn k hc hk hmem => ?_
        · exact Call.runTask_fails _ (.functor .connectEstablished) .error (.accepted 0) (by simp)
        · obtain ⟨-, p, -, rfl⟩ := Call.connectEstablished_ok hk
          simp [Session.call, Call.watch, Call.setState] at hmem
      · exact failsWith_pure _
  | poll l reports => exact (fillActiveChannels_fails _ _).bind fun _ _ => failsWith_pure _
  | task l r w =>
      unfold exec
      dsimp only
      split
      · exact failsWith_pure _
      · next t ts htodo =>
          cases t with
          | conn c t => exact connTask_fails h htodo hmeets
          | removeConnectionInLoop c =>
              refine removeConnectionInLoop_fails fun conn hc => ?_
              obtain rfl : l = 0 := (h.sound.popTask htodo).2.2
              exact of_decide_eq_true (listed_of_removing (h.live c conn hc) (removing_pos htodo))
  | takeFunctors l | endIteration l => exact failsWith_pure _
  | send t c message w =>
      exact perform_fails_quiet (fun k => k.send_fails t message w) fun k k' => Call.send_quiet
  | sendBuffer t c data w =>
      exact perform_fails_quiet (fun k => k.sendBuffer_fails t data w) fun k k' =>
        Call.sendBuffer_quiet
  | shutdown t c =>
      show FailsWith _ (s.perform c fun k => return k.shutdown t)
      refine perform_fails_quiet (fun k => failsWith_pure _) fun k k' hk => ?_
      cases hk
      exact Call.shutdown_quiet k t
  | retrieveInput c len =>
      unfold exec retrieveInput
      dsimp only
      split
      · exact failsWith_throw id
      · split
        · exact failsWith_pure _
        · exact failsWith_throw id
  | setCallbacks c writeComplete highWaterMark =>
      unfold exec setCallbacks
      dsimp only
      split
      · exact failsWith_throw id
      · exact failsWith_pure _
  | release c =>
      unfold exec release
      dsimp only
      split
      · exact failsWith_throw id
      · exact failsWith_pure _

/-- **A connection is closed once**, and the asserts of its removal hold, in every run without a step
that closes a connection again after a hangup or leaves bytes unsent on a closed one. -/
theorem closed_once (h : system.ReachableVia (Meets Session.ClosesCleanly) s) :
    (∀ c, (s.history c).count .closeCallback ≤ 1) ∧
      ∀ a, system.enabled s a → s.Meets Session.ClosesCleanly a →
        system.exec s a ≠ .error .removeConnectionInLoop ∧
        system.exec s a ≠ .error .connectDestroyed := by
  have htracked := tracked_of_reachable liberal_closesCleanly h
  refine ⟨fun c => ?_, fun a _ hmeets => ⟨fun herror => ?_, fun herror => ?_⟩⟩
  · cases hc : s.conns c with
    | some conn => exact (Session.closedOnce_of_reachable (htracked.live c conn hc)).once
    | none =>
        rcases htracked.past c hc with hnil | ⟨x, hx, hhistory⟩
        · rw [hnil]
          exact Nat.zero_le 1
        · rw [← hhistory]
          exact (Session.closedOnce_of_reachable hx).once
  · exact exec_fails htracked hmeets _ herror trivial
  · exact exec_fails htracked hmeets _ herror trivial

theorem closed_once_servedRun :
    ∃ s, system.ReachableVia (Meets Session.ClosesCleanly) s ∧
      (s.history 1).count .closeCallback = 1 ∧
      ((∀ c, (s.history c).count .closeCallback ≤ 1) ∧
        ∀ a, system.enabled s a → s.Meets Session.ClosesCleanly a →
          system.exec s a ≠ .error .removeConnectionInLoop ∧
          system.exec s a ≠ .error .connectDestroyed) := by
  obtain ⟨s, hs, hp⟩ := StepSystem.exists_reachableVia_of_runFrom? (Meets Session.ClosesCleanly)
    servedRun (M := system) (p := fun s => decide ((s.history 1).count .closeCallback = 1))
    (s := new "echo" 1 false) ⟨_, _, _, rfl⟩ (by decide +kernel)
  exact ⟨s, hs, of_decide_eq_true hp, closed_once hs⟩

/-- The calls of the user are made in the thread of the connection's loop. -/
def CallsInLoop (s : TcpServer) : ServerAction → Prop
  | .send t c _ _ | .sendBuffer t c _ _ | .shutdown t c =>
      ∀ conn ∈ s.conns c, conn.isInLoopThread t
  | _ => True

instance (s : TcpServer) : ∀ a, Decidable (s.CallsInLoop a)
  | .send t c _ _ | .sendBuffer t c _ _ | .shutdown t c =>
      inferInstanceAs (Decidable (∀ conn ∈ s.conns c, conn.isInLoopThread t))
  | .accept _ _ | .poll _ _ | .task _ _ _ | .takeFunctors _ | .endIteration _ | .retrieveInput _ _
  | .setCallbacks _ _ _ | .release _ => inferInstanceAs (Decidable True)

/-- The peer closes a connection. Before the base loop gets to the removal, a callback of the user
sends a byte that the socket does not take, so the channel is watched again; the hangup is reported
and closes the connection a second time. -/
def closedTwice : List ServerAction :=
  [.poll 0 [], .accept 5 0,
   .poll 1 [], .takeFunctors 1, .task 1 .error (.accepted 0), .endIteration 1,
   .poll 1 [(5, {.POLLIN})], .task 1 (.data []) (.accepted 0),
   .send (.loop 1) 1 [120] (.failed .EWOULDBLOCK), .takeFunctors 1, .endIteration 1,
   .poll 1 [(5, {.POLLHUP})], .task 1 .error (.accepted 0),
   .takeFunctors 0, .task 0 .error (.accepted 0)]

theorem closedTwice_fails :
    ∃ s, system.ReachableVia CallsInLoop s ∧ (s.history 1).count .closeCallback = 2 ∧
      ∃ a, system.enabled s a ∧ s.CallsInLoop a ∧
        system.exec s a = .error .removeConnectionInLoop := by
  obtain ⟨s, hs, hp⟩ := StepSystem.exists_reachableVia_of_runFrom? CallsInLoop
    closedTwice (M := system) (p := fun s => decide ((s.history 1).count .closeCallback = 2 ∧
      system.enabled s (.task 0 .error (.accepted 0)) ∧
      faultOf (system.exec s (.task 0 .error (.accepted 0))) = some .removeConnectionInLoop))
    (s := new "echo" 1 false) ⟨_, _, _, rfl⟩ (by decide +kernel)
  obtain ⟨hcount, hen, hfault⟩ := of_decide_eq_true hp
  exact ⟨s, hs, hcount, .task 0 .error (.accepted 0), hen, trivial, faultOf_eq_some.mp hfault⟩

end TcpServer

end MiniMuduo
