import MiniMuduo.Net.OutputStream
import MiniMuduo.Net.ServerRuns

/-!
# Who keeps a connection alive

A `TcpConnection` lives as long as a `shared_ptr` to it: in `connections_` of its owner, and in the
functors that wait to remove and destroy it. Where messages are sent in the thread of the loop only,
none of them waits (`Session.Unqueued`), so nothing has the channel watched again after
`connectDestroyed`. Hence

* `Tracked.index_of_unreferenced` — the last reference goes when the channel is out of the poller;
* `keyed_of_reachable` — every channel in a poller is one of a connection that still exists.

The second is by `Tracked.step_cases`: a step makes a connection, lets go of one, or `Continues` with
those there are.
-/

namespace MiniMuduo

open Fallible

/-! ## Messages that do not wait -/

namespace Call

variable {k k' : Call}

/-- The call queues no message. -/
structure Unqueued (k : Call) : Prop where
  queued : ∀ t, queuedBy t k.queued = []
  rest : k.rest.filterMap ConnTask.functor? = []

/-- A quiet call that queues the functors `fs`. -/
theorem Unqueued.quiet (h : k.Unqueued) (hquiet : k.Quiet k') {fs : List ConnFunctor}
    (hqueued : k'.queued = k.queued ++ fs) (hfs : ∀ t, queuedBy t fs = []) : k'.Unqueued := by
  refine ⟨fun t => ?_, hquiet.rest ▸ h.rest⟩
  rw [hqueued, queuedBy_append, h.queued t, hfs t]
  rfl

theorem unqueued_emit {es : List ConnEvent} {fs : List ConnFunctor} (h : k.Unqueued)
    (hfs : ∀ t, queuedBy t fs = []) : (k.emit es fs).Unqueued := by
  refine ⟨fun t => ?_, h.rest⟩
  rw [emit_queued, queuedBy_append, h.queued t, hfs t]
  rfl

theorem sendInLoop_unqueued {t : ThreadId} {message : Bytes} {w : WriteResult} (h : k.Unqueued)
    (hk : k.sendInLoop t message w = .ok k') : k'.Unqueued :=
  h.quiet (sendInLoop_quiet hk) (sendInLoop_record hk).2 (mute_completed k message w)

theorem sendBufferInLoop_unqueued {t : ThreadId} {data : Bytes} {w : WriteResult} (h : k.Unqueued)
    (hstate : k.conn.state ≠ .kDisconnected) (hk : k.sendBufferInLoop t data w = .ok k') :
    k'.Unqueued :=
  h.quiet (sendBufferInLoop_quiet hk) (sendBufferInLoop_record hstate hk).2 (mute_signals k data w)

theorem handleWrite_unqueued {w : WriteResult} (h : k.Unqueued) (hk : k.handleWrite w = .ok k') :
    k'.Unqueued := by
  have hquiet := handleWrite_quiet hk
  by_cases hw : k.conn.channel.isWriting
  · obtain ⟨b, -, ⟨rfl, -⟩ | ⟨-, p, -, rfl⟩⟩ := handleWrite_ok hw hk
    · exact h.quiet hquiet rfl fun _ => rfl
    · exact h.quiet hquiet (List.append_assoc _ _ _) (mute_completions _)
  · rw [handleWrite_of_not_isWriting hw] at hk
    cases hk
    exact h

theorem runTask_unqueued {t : ConnTask} {r : Buffer.ReadResult} {w : WriteResult} (h : k.Unqueued)
    (hk : k.runTask t r w = .ok k') : k'.Unqueued := by
  have hclose : k.handleClose = .ok k' → k'.Unqueued := by
    intro hk
    obtain ⟨-, p, -, rfl⟩ := handleClose_ok hk
    exact unqueued_emit (k := k.watch Channel.kNoneEvent p) ⟨h.queued, h.rest⟩ fun _ => rfl
  cases t with
  | removeChannel =>
      obtain ⟨ch, p, -, rfl⟩ := removeChannel_ok hk
      exact ⟨h.queued, h.rest⟩
  | event revents cb =>
      cases cb with
      | close => exact hclose hk
      | write => exact handleWrite_unqueued h hk
      | error =>
          cases hk
          exact h
      | read =>
          cases r with
          | error =>
              cases hk
              exact h
          | data bytes =>
              cases bytes with
              | nil => exact hclose hk
              | cons b bs =>
                  cases hk
                  exact ⟨h.queued, h.rest⟩
  | functor f =>
      cases f with
      | connectEstablished =>
          obtain ⟨-, p, -, rfl⟩ := connectEstablished_ok hk
          exact unqueued_emit (k := (k.setState .kConnected).watch _ p) ⟨h.queued, h.rest⟩
            fun _ => rfl
      | connectDestroyed =>
          obtain ⟨-, p, -, rfl⟩ := connectDestroyed_ok hk
          refine ⟨fun t => ?_, rfl⟩
          rw [emit_queued, queuedBy_append]
          exact (List.append_nil _).trans (h.queued t)
      | sendInLoop sender message => exact sendInLoop_unqueued h hk
      | shutdownInLoop =>
          cases hk
          rw [shutdownInLoop_eq]
          exact unqueued_emit h fun _ => rfl
      | writeCompleteCallback | highWaterMarkCallback len =>
          cases hk
          exact ⟨h.queued, h.rest⟩

theorem shutdown_unqueued (h : k.Unqueued) (t : ThreadId) : (k.shutdown t).Unqueued := by
  have hdown : (k.setState .kDisconnecting).Unqueued := ⟨h.queued, h.rest⟩
  unfold shutdown
  simp only [note_eq, queueInLoop_eq, shutdownInLoop_eq, emit_emit]
  split
  · split
    · exact unqueued_emit hdown fun _ => rfl
    · exact unqueued_emit hdown fun _ => rfl
  · exact h

theorem send_unqueued {t : ThreadId} {message : Bytes} {w : WriteResult} (h : k.Unqueued)
    (hloop : k.conn.isInLoopThread t) (hk : k.send t message w = .ok k') : k'.Unqueued := by
  unfold send at hk
  rw [note_eq] at hk
  split at hk
  · dsimp only at hk
    rw [if_pos (show (k.emit _ _).conn.isInLoopThread t from hloop)] at hk
    exact sendInLoop_unqueued (unqueued_emit h fun _ => rfl) hk
  · cases hk
    exact h

theorem sendBuffer_unqueued {t : ThreadId} {data : Bytes} {w : WriteResult} (h : k.Unqueued)
    (hk : k.sendBuffer t data w = .ok k') : k'.Unqueued := by
  unfold sendBuffer at hk
  rw [note_eq] at hk
  split at hk
  · next hup =>
      refine sendBufferInLoop_unqueued (unqueued_emit h fun _ => rfl) ?_ hk
      rw [emit_conn, hup.1]
      decide
  · cases hk
    exact h

end Call

namespace Session

variable {s s' : Session} {a : SessionAction} {t : ConnTask} {ts : List ConnTask} {k : Call}

/-- Messages are sent in the thread of the loop. -/
def SendsInLoop (s : Session) : SessionAction → Prop
  | .send t _ _ | .sendBuffer t _ _ => s.conn.isInLoopThread t
  | _ => True

theorem liberal_sendsInLoop : Liberal SendsInLoop := by
  constructor
  · intro x a ha
    cases a with
    | send | sendBuffer | task => cases ha
    | poll | takeFunctors | endIteration | shutdown | retrieveInput | setCallbacks
    | removeConnection | others => exact trivial
  · exact fun _ _ _ _ _ => trivial

def Unqueued (s : Session) : Prop := ∀ t, queuedBy t s.functors = []

theorem Unqueued.commit (h : s.Unqueued) (hk : k.Unqueued) : (s.commit k).Unqueued := by
  intro t
  rw [functors_commit hk.rest, queuedBy_append, h t, hk.queued t]
  rfl

theorem Unqueued.pop (h : s.Unqueued) (htodo : s.todo = t :: ts) : (s.pop ts).Unqueued := by
  intro t'
  have hall := h t'
  cases hf : t.functor? with
  | none => rwa [functors_of_not_functor htodo hf] at hall
  | some f =>
      have htask : t = .functor f := by cases t <;> simp_all [ConnTask.functor?]
      rw [functors_of_functor (htask ▸ htodo)] at hall
      exact List.filterMap_eq_nil_iff.mpr fun g hg =>
        List.filterMap_eq_nil_iff.mp hall g (List.mem_cons_of_mem f hg)

theorem unqueued_call (s : Session) : s.call.Unqueued := ⟨fun _ => rfl, rfl⟩

theorem Unqueued.step (h : s.Unqueued) (hok : s.SendsInLoop a) (hstep : system.Step s a s') :
    s'.Unqueued := by
  obtain ⟨hen, hex⟩ := hstep
  cases a with
  | poll revents =>
      cases revents with
      | none =>
          cases hex
          exact h
      | some revents =>
          cases hex
          intro t
          have hall := h t
          unfold functors at hall ⊢
          rw [hen.2.1] at hall
          rw [functors_eventTasks]
          exact hall
  | task r w =>
      obtain ⟨t, ts, k, htodo, hk, rfl⟩ := exec_task_eq_ok hen hex
      exact (h.pop htodo).commit (Call.runTask_unqueued s.unqueued_call hk)
  | takeFunctors =>
      cases hex
      intro t
      have hall := h t
      unfold functors at hall ⊢
      rw [hen.2] at hall
      rw [functors_map_functor, List.append_nil]
      exact hall
  | send t message w =>
      obtain ⟨k, hk, hex⟩ := bind_eq_ok.mp hex
      cases hex
      exact h.commit (Call.send_unqueued s.unqueued_call hok hk)
  | sendBuffer t data w =>
      obtain ⟨k, hk, hex⟩ := bind_eq_ok.mp hex
      cases hex
      exact h.commit (Call.sendBuffer_unqueued s.unqueued_call hk)
  | shutdown t =>
      cases hex
      exact h.commit (Call.shutdown_unqueued s.unqueued_call t)
  | retrieveInput len =>
      obtain ⟨b, -, rfl⟩ := exec_retrieveInput_eq_ok.mp hex
      exact h
  | removeConnection =>
      obtain ⟨-, -, hex⟩ := bind_eq_ok.mp hex
      cases hex
      intro t
      have hall := h t
      unfold functors at hall ⊢
      rw [← List.append_assoc, queuedBy_append, hall]
      rfl
  | setCallbacks writeComplete highWaterMark | endIteration | others p =>
      cases hex
      exact h

theorem Unqueued.init (h : init s) : s.Unqueued := by
  obtain ⟨self, loop, name, sockfd, hwm, wc, p, phase, atOnce, -, -, rfl⟩ := h
  intro t
  cases atOnce <;> rfl

theorem unqueued_of_reachable (h : system.ReachableVia SendsInLoop s) : s.Unqueued :=
  h.invariant (fun _ hs => .init hs) fun _ _ _ _ hs hok hstep => hs.step hok hstep

/-- A connection that is down is not sent to: `send` finds it down, and no message waits. -/
theorem Unqueued.sendsNoneLeft (h : s.Unqueued) : s.SendsNoneLeft a := by
  intro hdown hleaves
  have hup : s.conn.state ≠ .kConnected := by simp [hdown]
  cases a with
  | task r w =>
      unfold LeavesUnsent at hleaves
      dsimp only at hleaves
      split at hleaves
      · next sender message ts htodo =>
          have hqueued := h sender
          rw [functors_of_functor htodo] at hqueued
          simp [queuedBy, ConnFunctor.queuedBy] at hqueued
      · exact hleaves
  | send t message w => exact hup hleaves.1
  | sendBuffer t data w => exact hup hleaves.1
  | _ => exact hleaves

theorem reachable_sendsNoneLeft (h : system.ReachableVia SendsInLoop s) :
    system.ReachableVia SendsNoneLeft s := by
  refine h.invariant (I := system.ReachableVia SendsNoneLeft) (fun s hs => .init hs)
    fun s a s' hr hreach _ hstep => ?_
  exact hreach.step (unqueued_of_reachable hr).sendsNoneLeft hstep

/-- Once its owner has let go of a connection and `connectDestroyed` has run, its channel is out of
the poller. -/
theorem index_of_unlisted (h : system.ReachableVia SendsInLoop s) (hlisted : s.listed = false)
    (hfunctors : .connectDestroyed ∉ s.functors) (htodo : .removeChannel ∉ s.todo) :
    s.conn.channel.index = .kNew := by
  have hgone := (orderly_of_reachable h.reachable).accounts.listed
  have hstate : s.conn.state = .kDisconnected := by
    by_contra hne
    rw [hlisted, gone, List.count_eq_zero.mpr hfunctors, if_neg hne] at hgone
    simp at hgone
  exact ((staysOut_of_reachable (reachable_sendsNoneLeft h)).down hstate).index htodo

end Session

/-! ## The channels of a server -/

namespace TcpServer

variable {s s' : TcpServer} {c : ConnId} {conn : TcpConnection} {l : LoopId} {k : Call}
  {a : ServerAction}

theorem mem_functorsOf {e : EventLoop} {f : ConnFunctor} :
    f ∈ e.functorsOf c ↔ .conn c f ∈ e.pendingFunctors := by
  unfold EventLoop.functorsOf
  rw [List.mem_filterMap]
  constructor
  · rintro ⟨g, hg, hof⟩
    cases g with
    | conn c' f' =>
        simp only [LoopFunctor.of, Option.ite_none_right_eq_some, Option.some.injEq] at hof
        rwa [← hof.1, ← hof.2]
    | removeConnectionInLoop c' => cases hof
  · exact fun hf => ⟨_, hf, if_pos rfl⟩

theorem mem_tasksOf {e : EventLoop} {t : ConnTask} : t ∈ e.tasksOf c ↔ .conn c t ∈ e.todo := by
  unfold EventLoop.tasksOf
  rw [List.mem_filterMap]
  constructor
  · rintro ⟨t', ht', hof⟩
    cases t' with
    | conn c' t' =>
        simp only [LoopTask.of, Option.ite_none_right_eq_some, Option.some.injEq] at hof
        rwa [← hof.1, ← hof.2]
    | removeConnectionInLoop c' => cases hof
  · exact fun ht => ⟨_, ht, if_pos rfl⟩

/-- The last reference to a connection goes when its channel is out of the poller. -/
theorem Tracked.index_of_unreferenced (h : s.Tracked Session.SendsInLoop)
    (hc : s.conns c = some conn) (hun : s.Unreferenced c conn) : conn.channel.index = .kNew := by
  obtain ⟨hlisted, hloops⟩ := hun
  obtain ⟨-, -, hfunctors, hremove⟩ := hloops conn.loop (by simp)
  obtain ⟨hpending, htodo⟩ := hfunctors .connectDestroyed (by simp)
  refine Session.index_of_unlisted (h.live c conn hc) (decide_eq_false hlisted) ?_ ?_
  · intro hmem
    rcases List.mem_append.mp hmem with hmem | hmem
    · obtain ⟨t, ht, hf⟩ := List.mem_filterMap.mp hmem
      have htask : t = .functor .connectDestroyed := by cases t <;> simp_all [ConnTask.functor?]
      exact htodo (mem_tasksOf.mp (htask ▸ ht))
    · exact hpending (mem_functorsOf.mp hmem)
  · exact fun hmem => hremove (mem_tasksOf.mp hmem)

/-- The connections are the same, at most some of them unlisted, and a channel that a poller did not
know before is one of theirs. -/
structure Continues (s s' : TcpServer) : Prop where
  name : s'.name = s.name
  ioLoops : s'.ioLoops = s.ioLoops
  nextConnId : s'.nextConnId = s.nextConnId
  ident : s'.ident = s.ident
  connections : ∀ n c, s'.connections n = some c → s.connections n = some c
  channels : ∀ l fd c, (s'.loops l).poller.channels fd = some c →
    (s.loops l).poller.channels fd = some c ∨ ∃ i, s.ident c = some i ∧ i.loop = l ∧ i.fd = fd

theorem Continues.trans {s'' : TcpServer} (h : s.Continues s') (h' : s'.Continues s'') :
    s.Continues s'' where
  name := h'.name.trans h.name
  ioLoops := h'.ioLoops.trans h.ioLoops
  nextConnId := h'.nextConnId.trans h.nextConnId
  ident := h'.ident.trans h.ident
  connections := fun n c hc => h.connections n c (h'.connections n c hc)
  channels := by
    intro l fd c hch
    rcases h'.channels l fd c hch with hch | hident
    · exact h.channels l fd c hch
    · exact .inr (h.ident ▸ hident)

theorem continues_setLoop {e : EventLoop} (hp : e.poller = (s.loops l).poller) :
    s.Continues (s.setLoop l e) := by
  refine ⟨rfl, rfl, rfl, rfl, fun _ _ => id, fun l' fd c hch => .inl ?_⟩
  rw [setLoop_loops] at hch
  split at hch
  · next hl => rwa [hp, ← hl] at hch
  · exact hch

theorem continues_removeConnectionInLoop (hr : s.removeConnectionInLoop c = .ok s') :
    s.Continues s' := by
  obtain ⟨conn, -, -, rfl⟩ := removeConnectionInLoop_ok hr
  have hunlist : s.Continues { s with
      connections := Function.update s.connections conn.name none } := by
    refine ⟨rfl, rfl, rfl, rfl, fun n c hc => ?_, fun _ _ _ => .inl⟩
    have hc' : Function.update s.connections conn.name none n = some c := hc
    by_cases hn : n = conn.name
    · rw [hn, Function.update_self] at hc'
      cases hc'
    · rwa [Function.update_of_ne hn] at hc'
  exact hunlist.trans (continues_setLoop rfl)

theorem continues_removeConnection (hr : s.removeConnection l c = .ok s') : s.Continues s' := by
  unfold removeConnection at hr
  split at hr
  · exact continues_removeConnectionInLoop hr
  · cases hr
    exact continues_setLoop rfl

theorem Sound.continues_commit (hs : s.Sound) (hc : s.conns c = some conn)
    (hkept : Call.Kept ⟨conn, (s.loops conn.loop).poller, [], [], []⟩ k) :
    s.Continues (s.commit c k) := by
  refine ⟨rfl, rfl, rfl, ident_update hc hkept.ident, fun _ _ => id, fun l fd c' hch => ?_⟩
  by_cases hl : l = k.conn.loop
  · rw [hl, commit_loops_self] at hch
    have hloop : k.conn.loop = conn.loop := hkept.loop
    rw [hl, hloop]
    by_cases hfd : fd = conn.channel.fd
    · subst hfd
      rcases hkept.elsewhere.channels c' hch with hold | rfl
      · exact .inl hold
      · have hself : conn.self = c := (hs.ident c _ (ident_of_conns hc)).1
        exact .inr ⟨conn.ident, hself ▸ ident_of_conns hc, rfl, rfl⟩
    · exact .inl ((hkept.elsewhere.same fd hfd).1.symm.trans hch)
  · rw [commit_loops_of_ne hl] at hch
    exact .inl hch

theorem Sound.continues_perform {f : Call → Except NetFault Call} (hs : s.Sound)
    (hf : ∀ conn k, s.conns c = some conn →
      f ⟨conn, (s.loops conn.loop).poller, [], [], []⟩ = .ok k →
      Call.Kept ⟨conn, (s.loops conn.loop).poller, [], [], []⟩ k)
    (hex : s.perform c f = .ok s') : s.Continues s' := by
  obtain ⟨conn, k, hc, hk, hcases⟩ := perform_ok hex
  have hcommit := hs.continues_commit hc (hf conn k hc hk)
  rcases hcases with ⟨-, rfl⟩ | ⟨-, hr⟩
  · exact hcommit
  · exact hcommit.trans (continues_removeConnection hr)

theorem continues_setConn {conn' : TcpConnection} (hc : s.conns c = some conn)
    (hident : conn'.ident = conn.ident) :
    s.Continues { s with conns := Function.update s.conns c (some conn') } :=
  ⟨rfl, rfl, rfl, ident_update (k := ⟨conn', (s.loops 0).poller, [], [], []⟩) hc hident,
    fun _ _ => id, fun _ _ _ => .inl⟩

/-- The thread of a loop does the next thing it has to do. -/
theorem Tracked.continues_task {ok : Session → SessionAction → Prop} {r : Buffer.ReadResult}
    {w : WriteResult} (h : s.Tracked ok) (hex : s.exec (.task l r w) = .ok s') : s.Continues s' := by
  cases htodo : (s.loops l).todo with
  | nil =>
      rw [exec_task_of_nil htodo] at hex
      cases hex
      exact ⟨rfl, rfl, rfl, rfl, fun _ _ => id, fun _ _ _ => .inl⟩
  | cons t ts =>
      rw [exec_task htodo] at hex
      have hpop : s.Continues (s.popTask l ts) := continues_setLoop rfl
      have hsound : (s.popTask l ts).Sound := (h.sound.popTask htodo).1
      cases t with
      | conn c t =>
          have hperform : (s.popTask l ts).perform c (fun k => k.runTask t r w) = .ok s' := hex
          refine hpop.trans (hsound.continues_perform (fun conn k hc hk => ?_) hperform)
          refine (Call.runTask_kept ?_ rfl hk).1
          show ((s.popTask l ts).loops conn.loop).poller.Agrees conn.self conn.channel
          rw [popTask_poller]
          exact h.agrees hc
      | removeConnectionInLoop c => exact hpop.trans (continues_removeConnectionInLoop hex)

/-- A step makes a connection, lets go of one, or goes on with those there are. -/
theorem Tracked.step_cases {ok : Session → SessionAction → Prop} (h : s.Tracked ok)
    (hstep : system.Step s a s') :
    (∃ sockfd highWaterMark, a = .accept sockfd highWaterMark) ∨
    (∃ c conn, a = .release c ∧ s.conns c = some conn ∧ s.Unreferenced c conn ∧
      s' = s.forget c conn) ∨
    s.Continues s' := by
  obtain ⟨hen, hex⟩ := hstep
  have hquiet : ∀ c (f : Call → Except NetFault Call), (∀ k k', f k = .ok k' → k.Quiet k') →
      s.perform c f = .ok s' → s.Continues s' := fun c f hf =>
    h.sound.continues_perform fun conn k _ hk => (hf _ k hk).toKept
  cases a with
  | accept sockfd highWaterMark => exact .inl ⟨_, _, rfl⟩
  | release c =>
      obtain ⟨conn, hc, hun⟩ := hen
      obtain ⟨conn', hc', rfl⟩ := release_ok hex
      obtain rfl : conn = conn' := Option.some.inj (hc.symm.trans hc')
      exact .inr (.inl ⟨c, conn, rfl, hc, hun, rfl⟩)
  | poll l reports =>
      obtain ⟨ts, -, hex⟩ := bind_eq_ok.mp hex
      cases hex
      exact .inr (.inr (continues_setLoop rfl))
  | task l r w => exact .inr (.inr (h.continues_task hex))
  | takeFunctors l | endIteration l =>
      cases hex
      exact .inr (.inr (continues_setLoop rfl))
  | send t c message w => exact .inr (.inr (hquiet c _ (fun k k' => Call.send_quiet) hex))
  | sendBuffer t c data w =>
      exact .inr (.inr (hquiet c _ (fun k k' => Call.sendBuffer_quiet) hex))
  | shutdown t c =>
      refine .inr (.inr (hquiet c (fun k => return k.shutdown t) (fun k k' hk => ?_) hex))
      cases hk
      exact Call.shutdown_quiet k t
  | retrieveInput c len =>
      change s.retrieveInput c len = .ok s' at hex
      unfold TcpServer.retrieveInput at hex
      split at hex
      · cases hex
      · next conn hc =>
          split at hex
          · cases hex
            exact .inr (.inr (continues_setConn hc rfl))
          · cases hex
  | setCallbacks c writeComplete highWaterMark =>
      change s.setCallbacks c writeComplete highWaterMark = .ok s' at hex
      unfold TcpServer.setCallbacks at hex
      split at hex
      · cases hex
      · next conn hc =>
          cases hex
          exact .inr (.inr (continues_setConn hc rfl))

/-- A connection is entered, and the server goes on from there. -/
theorem Sound.newConnection_continues {sockfd : Fd} {highWaterMark : ℕ} (hs : s.Sound)
    (hfd : ∀ c i, s.ident c = some i → i.fd ≠ sockfd)
    (hex : s.newConnection sockfd highWaterMark = .ok s') :
    ∃ ioLoop next, (s.ioLoops = 0 → ioLoop = 0) ∧
      (s.enroll next (s.nextConn ioLoop sockfd highWaterMark)).Continues s' := by
  obtain ⟨ioLoop, next, hbase, hcases⟩ := newConnection_ok hex
  refine ⟨ioLoop, next, hbase, ?_⟩
  rcases hcases with ⟨-, hperform⟩ | ⟨-, rfl⟩
  · refine (hs.enroll rfl rfl hfd).continues_perform (fun conn k _ hk => ?_) hperform
    exact Call.connectEstablished_kept hk
  · exact continues_setLoop rfl

/-- Every channel in a poller is one of a connection that exists, under its descriptor. -/
def Keyed (s : TcpServer) : Prop :=
  ∀ l fd c, (s.loops l).poller.channels fd = some c →
    ∃ i, s.ident c = some i ∧ i.loop = l ∧ i.fd = fd

theorem Keyed.continues (h : s.Keyed) (hnext : s.Continues s') : s'.Keyed := by
  intro l fd c hch
  rw [hnext.ident]
  exact (hnext.channels l fd c hch).elim (h l fd c) id

theorem Keyed.enroll {next : ℕ} (h : s.Keyed) (hs : s.Sound) : (s.enroll next conn).Keyed := by
  intro l fd c hch
  obtain ⟨i, hi, hrest⟩ := h l fd c hch
  exact ⟨i, (ident_enroll_of_ne (hs.ident c i hi).2.2.ne).trans hi, hrest⟩

/-- A connection is forgotten when its channel is out of the poller. -/
theorem Keyed.forget (h : s.Keyed) (hc : s.conns c = some conn)
    (hout : (s.loops conn.loop).poller.channels conn.channel.fd ≠ some c) :
    (s.forget c conn).Keyed := by
  intro l fd c' hch
  have hold : (s.loops l).poller.channels fd = some c' := by
    rw [TcpServer.forget, setLoop_loops] at hch
    split at hch
    · next hl => exact hl ▸ hch
    · exact hch
  obtain ⟨i, hi, hloop, hfd⟩ := h l fd c' hold
  refine ⟨i, ident_forget.mpr ⟨hi, ?_⟩, hloop, hfd⟩
  rintro rfl
  rw [ident_of_conns hc, Option.some.injEq] at hi
  subst hi
  subst hloop
  subst hfd
  exact hout hold

theorem Keyed.step (h : s.Keyed) (ht : s.Tracked Session.SendsInLoop) (hstep : system.Step s a s') :
    s'.Keyed := by
  rcases ht.step_cases hstep with ⟨sockfd, hwm, rfl⟩ | ⟨c, conn, -, hc, hun, rfl⟩ | hnext
  · obtain ⟨ioLoop, next, -, hnext⟩ :=
      ht.sound.newConnection_continues (ht.sound.unused hstep.1.2) hstep.2
    exact (h.enroll ht.sound).continues hnext
  · have hself : conn.self = c := (ht.sound.ident c _ (ident_of_conns hc)).1
    exact h.forget hc (hself ▸ ((ht.agrees hc).absent (ht.index_of_unreferenced hc hun)).1)
  · exact h.continues hnext

theorem keyed_of_reachable (h : system.ReachableVia (Meets Session.SendsInLoop) s) : s.Keyed := by
  refine h.invariant (fun s hs => ?_) fun s a s' hr hs _ hstep =>
    hs.step (tracked_of_reachable Session.liberal_sendsInLoop hr) hstep
  obtain ⟨name, ioLoops, writeComplete, rfl⟩ := hs
  intro l fd c hch
  cases hch

/-- Calls made in the thread of a connection's loop include the sends. -/
theorem CallsInLoop.meets (h : s.CallsInLoop a) : s.Meets Session.SendsInLoop a := by
  unfold Meets
  split
  · split
    · exact fun _ _ => trivial
    · trivial
  · exact h
  · exact h
  · trivial

end TcpServer

end MiniMuduo
