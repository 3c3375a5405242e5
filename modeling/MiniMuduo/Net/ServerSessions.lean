import MiniMuduo.Net.Closing
import MiniMuduo.Net.ServerBooks

/-!
# The sessions of a server

A connection of a server and its surroundings are a `Session`: `TcpServer.session` reads it off the
loops and the books of the server. Every run of a server is, for each of its connections, a run of
`Session.system` (`tracked_of_reachable`); the steps of other connections only change the poller
elsewhere. So the invariants of sessions hold for every connection of every server.

The proof needs that the server keeps its connections apart (`Sound`): their names, descriptors,
tasks and entries in the pollers are their own, and everything about a connection happens in its own
loop, which is also why `assertInLoopThread` never fails.
-/

namespace MiniMuduo

open Fallible

/-! ## Reading off a session -/

def LoopFunctor.of (c : ConnId) : LoopFunctor → Option ConnFunctor
  | .conn c' f => if c' = c then some f else none
  | .removeConnectionInLoop _ => none

def LoopTask.of (c : ConnId) : LoopTask → Option ConnTask
  | .conn c' t => if c' = c then some t else none
  | .removeConnectionInLoop _ => none

namespace EventLoop

def functorsOf (e : EventLoop) (c : ConnId) : List ConnFunctor :=
  e.pendingFunctors.filterMap (LoopFunctor.of c)

def tasksOf (e : EventLoop) (c : ConnId) : List ConnTask := e.todo.filterMap (LoopTask.of c)

/-- The `removeConnectionInLoop` calls for `c` that wait in this loop. -/
def removals (e : EventLoop) (c : ConnId) : ℕ :=
  e.pendingFunctors.count (.removeConnectionInLoop c) + e.todo.count (.removeConnectionInLoop c)

end EventLoop

namespace TcpServer

variable {s s' : TcpServer} {c c₀ : ConnId} {conn conn₀ : TcpConnection} {l : LoopId} {k : Call}
  {fs : List ConnFunctor} {ts : List ConnTask}

/-- The session of the connection object `conn` at `c`. -/
def session (s : TcpServer) (c : ConnId) (conn : TcpConnection) : Session where
  conn := conn
  poller := (s.loops conn.loop).poller
  pendingFunctors := (s.loops conn.loop).functorsOf c
  phase := (s.loops conn.loop).phase
  todo := (s.loops conn.loop).tasksOf c
  listed := decide (s.connections conn.name = some c)
  removing := (s.loops 0).removals c
  history := s.history c

/-! ### Lists of functors and tasks -/

theorem functors_map_conn (fs : List ConnFunctor) :
    (fs.map (LoopFunctor.conn c)).filterMap (LoopFunctor.of c) = fs := by
  rw [List.filterMap_map]
  refine (List.filterMap_congr fun f _ => ?_).trans List.filterMap_some
  simp [LoopFunctor.of]

theorem functors_map_conn_of_ne (h : c ≠ c₀) (fs : List ConnFunctor) :
    (fs.map (LoopFunctor.conn c₀)).filterMap (LoopFunctor.of c) = [] := by
  rw [List.filterMap_map]
  refine List.filterMap_eq_nil_iff.mpr fun f _ => ?_
  simp [LoopFunctor.of, h.symm]

theorem tasks_map_conn (ts : List ConnTask) :
    (ts.map (LoopTask.conn c)).filterMap (LoopTask.of c) = ts := by
  rw [List.filterMap_map]
  refine (List.filterMap_congr fun t _ => ?_).trans List.filterMap_some
  simp [LoopTask.of]

theorem tasks_map_conn_of_ne (h : c ≠ c₀) (ts : List ConnTask) :
    (ts.map (LoopTask.conn c₀)).filterMap (LoopTask.of c) = [] := by
  rw [List.filterMap_map]
  refine List.filterMap_eq_nil_iff.mpr fun t _ => ?_
  simp [LoopTask.of, h.symm]

theorem tasks_toTask (fs : List LoopFunctor) :
    (fs.map LoopFunctor.toTask).filterMap (LoopTask.of c) =
      (fs.filterMap (LoopFunctor.of c)).map .functor := by
  rw [List.filterMap_map, List.map_filterMap]
  refine List.filterMap_congr fun f _ => ?_
  cases f with
  | conn c' f =>
      by_cases h : c' = c <;> simp [LoopFunctor.toTask, LoopTask.of, LoopFunctor.of, h]
  | removeConnectionInLoop c' => rfl

theorem count_toTask (fs : List LoopFunctor) :
    (fs.map LoopFunctor.toTask).count (.removeConnectionInLoop c) =
      fs.count (.removeConnectionInLoop c) := by
  induction fs with
  | nil => rfl
  | cons f fs ih =>
      rw [List.map_cons, List.count_cons, List.count_cons, ih]
      cases f with
      | conn c' f => rfl
      | removeConnectionInLoop c' => by_cases h : c' = c <;> simp [LoopFunctor.toTask, h]

/-- Tasks and functors of connections are no removals. -/
theorem removals_conn (e : EventLoop) (c c₀ : ConnId) (fs : List ConnFunctor) (ts : List ConnTask)
    (p : EPoller ConnId) : EventLoop.removals { e with
      poller := p
      pendingFunctors := e.pendingFunctors ++ fs.map (.conn c₀)
      todo := ts.map (.conn c₀) ++ e.todo } c = e.removals c := by
  have hf : (fs.map (LoopFunctor.conn c₀)).count (.removeConnectionInLoop c) = 0 :=
    List.count_eq_zero_of_not_mem (by simp)
  have ht : (ts.map (LoopTask.conn c₀)).count (.removeConnectionInLoop c) = 0 :=
    List.count_eq_zero_of_not_mem (by simp)
  simp only [EventLoop.removals, List.count_append, hf, ht]
  omega

/-! ### Calls -/

@[simp] theorem removals_commit (s : TcpServer) (c₀ c : ConnId) (k : Call) (l : LoopId) :
    ((s.commit c₀ k).loops l).removals c = (s.loops l).removals c := by
  by_cases h : l = k.conn.loop
  · rw [h, commit_loops_self]
    exact removals_conn _ _ _ _ _ _
  · rw [commit_loops_of_ne h]

/-- A call is a call of the session, as far as the owner's removals are not concerned. -/
theorem session_commit (hloop : k.conn.loop = conn.loop) (hname : k.conn.name = conn.name) :
    (s.commit c k).session c k.conn =
      { (s.session c conn).commit k with removing := (s.session c conn).removing } := by
  have hf : (k.queued.map (LoopFunctor.conn c)).filterMap (LoopFunctor.of c) = k.queued :=
    functors_map_conn k.queued
  have ht : (k.rest.map (LoopTask.conn c)).filterMap (LoopTask.of c) = k.rest :=
    tasks_map_conn k.rest
  unfold session
  rw [commit_loops_self, removals_commit]
  simp only [EventLoop.functorsOf, EventLoop.tasksOf, List.filterMap_append, hf, ht, hloop]
  refine Session.ext rfl rfl rfl rfl rfl ?_ rfl ?_
  · show decide (s.connections k.conn.name = some c) = decide (s.connections conn.name = some c)
    rw [hname]
  · exact Function.update_self _ _ _

/-- For another connection it is a change of the poller elsewhere. -/
theorem session_commit_of_ne (h : c ≠ c₀) :
    (s.commit c₀ k).session c conn =
      { s.session c conn with
        poller := if conn.loop = k.conn.loop then k.poller else (s.loops conn.loop).poller } := by
  have hhistory : (s.commit c₀ k).history c = s.history c := Function.update_of_ne h _ _
  unfold session
  rw [removals_commit, hhistory]
  by_cases hl : conn.loop = k.conn.loop
  · rw [if_pos hl, hl, commit_loops_self]
    simp only [EventLoop.functorsOf, EventLoop.tasksOf, List.filterMap_append,
      functors_map_conn_of_ne h, tasks_map_conn_of_ne h, List.append_nil, List.nil_append]
    rfl
  · rw [if_neg hl, commit_loops_of_ne hl]
    rfl

/-! ### Changes of one loop -/

theorem removals_setLoop {e : EventLoop} (hr : e.removals c = (s.loops l).removals c) :
    ((s.setLoop l e).loops 0).removals c = (s.loops 0).removals c := by
  rw [setLoop_loops]
  split
  · next h0 => rw [hr, h0]
  · rfl

/-- Its own loop changes. -/
theorem session_setLoop {e : EventLoop}
    (hr : e.removals c = (s.loops conn.loop).removals c) :
    (s.setLoop conn.loop e).session c conn =
      { s.session c conn with
        poller := e.poller
        pendingFunctors := e.functorsOf c
        phase := e.phase
        todo := e.tasksOf c } := by
  have hself := setLoop_loops_self s conn.loop e
  unfold session
  rw [hself, removals_setLoop hr]
  rfl

/-- Another loop changes, and the removals of the connection are none of it. -/
theorem session_setLoop_of_ne {e : EventLoop} (h : conn.loop ≠ l)
    (hr : e.removals c = (s.loops l).removals c) :
    (s.setLoop l e).session c conn = s.session c conn := by
  have hsame : (s.setLoop l e).loops conn.loop = s.loops conn.loop := by
    rw [setLoop_loops, if_neg h]
  unfold session
  rw [hsame, removals_setLoop hr]
  rfl

/-- A change of a loop that does not concern `c`. -/
theorem session_setLoop_same {e : EventLoop} (hp : e.poller = (s.loops l).poller)
    (hph : e.phase = (s.loops l).phase) (hf : e.functorsOf c = (s.loops l).functorsOf c)
    (ht : e.tasksOf c = (s.loops l).tasksOf c) (hr : e.removals c = (s.loops l).removals c) :
    (s.setLoop l e).session c conn = s.session c conn := by
  by_cases hl : conn.loop = l
  · subst hl
    rw [session_setLoop hr, hp, hf, hph, ht]
    rfl
  · exact session_setLoop_of_ne hl hr

/-- A functor of another connection is queued. -/
theorem session_queue_of_ne (h : c ≠ c₀) (f : ConnFunctor) :
    (s.queueInLoop l (.conn c₀ f)).session c conn = s.session c conn := by
  refine session_setLoop_same rfl rfl ?_ rfl ?_
  · simp only [EventLoop.functorsOf, EventLoop.queueInLoop, List.filterMap_append]
    simp [LoopFunctor.of, h.symm]
  · simp only [EventLoop.removals, EventLoop.queueInLoop, List.count_append]
    simp

/-- A functor of the connection is queued in its loop. -/
theorem session_queue (f : ConnFunctor) :
    (s.queueInLoop conn.loop (.conn c f)).session c conn =
      { s.session c conn with
        pendingFunctors := (s.session c conn).pendingFunctors ++ [f] } := by
  have hf : ((s.loops conn.loop).queueInLoop (.conn c f)).functorsOf c =
      (s.loops conn.loop).functorsOf c ++ [f] := by
    simp [EventLoop.functorsOf, EventLoop.queueInLoop, LoopFunctor.of]
  have hr : ((s.loops conn.loop).queueInLoop (.conn c f)).removals c =
      (s.loops conn.loop).removals c := by
    simp [EventLoop.removals, EventLoop.queueInLoop, List.count_append]
  unfold queueInLoop
  rw [session_setLoop hr, hf]
  rfl

/-- A removal is asked for. -/
theorem session_queue_removal (c₀ : ConnId) :
    (s.queueInLoop 0 (.removeConnectionInLoop c₀)).session c conn =
      { s.session c conn with
        removing := (s.session c conn).removing + if c₀ = c then 1 else 0 } := by
  have hsame : ∀ l, ((s.queueInLoop 0 (.removeConnectionInLoop c₀)).loops l).poller =
        (s.loops l).poller ∧
      ((s.queueInLoop 0 (.removeConnectionInLoop c₀)).loops l).functorsOf c =
        (s.loops l).functorsOf c ∧
      ((s.queueInLoop 0 (.removeConnectionInLoop c₀)).loops l).phase = (s.loops l).phase ∧
      ((s.queueInLoop 0 (.removeConnectionInLoop c₀)).loops l).tasksOf c =
        (s.loops l).tasksOf c := by
    intro l
    unfold queueInLoop
    rw [setLoop_loops]
    split
    · next h0 =>
        subst h0
        refine ⟨rfl, ?_, rfl, rfl⟩
        simp [EventLoop.functorsOf, EventLoop.queueInLoop, LoopFunctor.of]
    · exact ⟨rfl, rfl, rfl, rfl⟩
  obtain ⟨hp, hf, hph, ht⟩ := hsame conn.loop
  refine Session.ext rfl hp hf hph ht rfl ?_ rfl
  show ((s.queueInLoop 0 (.removeConnectionInLoop c₀)).loops 0).removals c = _
  rw [queueInLoop, setLoop_loops_self]
  simp only [EventLoop.removals, EventLoop.queueInLoop, List.count_append, session]
  by_cases h : c₀ = c
  · rw [h, if_pos rfl, List.count_singleton_self]
    omega
  · have hnot : LoopFunctor.removeConnectionInLoop c ∉ [LoopFunctor.removeConnectionInLoop c₀] := by
      simpa using fun heq => h heq.symm
    rw [if_neg h, List.count_eq_zero_of_not_mem hnot]
    omega

/-! ### Tasks -/

/-- The thread of the loop `l` takes its next task. -/
def popTask (s : TcpServer) (l : LoopId) (ts : List LoopTask) : TcpServer :=
  s.setLoop l { s.loops l with todo := ts }

/-- What the thread of a loop does next. -/
theorem exec_task {t : LoopTask} {ts : List LoopTask} (htodo : (s.loops l).todo = t :: ts)
    (r : Buffer.ReadResult) (w : WriteResult) :
    s.exec (.task l r w) = (s.popTask l ts).runTask r w t := by
  simp only [exec, htodo]
  rfl

theorem exec_task_of_nil (htodo : (s.loops l).todo = []) (r : Buffer.ReadResult)
    (w : WriteResult) : s.exec (.task l r w) = .ok s := by
  simp only [exec, htodo]
  rfl

theorem session_popTask_of_ne {t : ConnTask} {ts : List LoopTask}
    (htodo : (s.loops l).todo = .conn c₀ t :: ts) (h : c ≠ c₀) :
    (s.popTask l ts).session c conn = s.session c conn := by
  refine session_setLoop_same rfl rfl rfl ?_ ?_
  · simp only [EventLoop.tasksOf, htodo]
    rw [List.filterMap_cons_none (by simp [LoopTask.of, h.symm])]
  · simp only [EventLoop.removals, htodo]
    rw [List.count_cons_of_ne (by simp)]

theorem session_popTask (conn : TcpConnection) {t : ConnTask} {ts : List LoopTask}
    (htodo : (s.loops conn.loop).todo = .conn c t :: ts) :
    (s.session c conn).todo = t :: ts.filterMap (LoopTask.of c) ∧
      (s.popTask conn.loop ts).session c conn =
        (s.session c conn).pop (ts.filterMap (LoopTask.of c)) := by
  constructor
  · show (s.loops conn.loop).todo.filterMap (LoopTask.of c) = _
    rw [htodo, List.filterMap_cons_some (show LoopTask.of c (.conn c t) = some t from if_pos rfl)]
  · have hr : ({ s.loops conn.loop with todo := ts } : EventLoop).removals c =
        (s.loops conn.loop).removals c := by
      simp only [EventLoop.removals, htodo]
      rw [List.count_cons_of_ne (by simp)]
    unfold popTask
    rw [session_setLoop hr]
    rfl

/-- The base loop takes a removal. -/
theorem session_popTask_removal (c : ConnId) (conn : TcpConnection) {ts : List LoopTask}
    (htodo : (s.loops 0).todo = .removeConnectionInLoop c₀ :: ts) :
    (s.popTask 0 ts).session c conn =
      { s.session c conn with
        removing := (s.session c conn).removing - if c₀ = c then 1 else 0 } := by
  have hloop : ∀ l, ((s.popTask 0 ts).loops l).poller = (s.loops l).poller ∧
      ((s.popTask 0 ts).loops l).functorsOf c = (s.loops l).functorsOf c ∧
      ((s.popTask 0 ts).loops l).phase = (s.loops l).phase ∧
      ((s.popTask 0 ts).loops l).tasksOf c = (s.loops l).tasksOf c := by
    intro l
    unfold popTask
    rw [setLoop_loops]
    split
    · next h0 =>
        subst h0
        refine ⟨rfl, rfl, rfl, ?_⟩
        simp only [EventLoop.tasksOf, htodo]
        rw [List.filterMap_cons_none (by rfl)]
    · exact ⟨rfl, rfl, rfl, rfl⟩
  obtain ⟨hp, hf, hph, ht⟩ := hloop conn.loop
  refine Session.ext rfl hp hf hph ht rfl ?_ rfl
  show ((s.popTask 0 ts).loops 0).removals c = (s.loops 0).removals c - _
  rw [popTask, setLoop_loops_self]
  simp only [EventLoop.removals, htodo]
  by_cases h : c₀ = c
  · rw [h, List.count_cons_self, if_pos rfl]
    omega
  · rw [List.count_cons_of_ne (by simpa using h), if_neg h]
    omega

/-- A removal that waits is one of the session. -/
theorem removing_pos {ts : List LoopTask}
    (htodo : (s.loops 0).todo = .removeConnectionInLoop c :: ts) :
    0 < (s.session c conn).removing := by
  show 0 < (s.loops 0).removals c
  unfold EventLoop.removals
  rw [htodo, List.count_cons_self]
  omega

/-! ### The owner -/

/-- Where the name of `c₀` is struck out of the map, the entries of the others stay. -/
theorem session_unlist_of_ne (hs : s.Sound) (hc₀ : s.conns c₀ = some conn₀)
    (hc : s.conns c = some conn) (h : c ≠ c₀) :
    ({ s with connections := Function.update s.connections conn₀.name none } :
      TcpServer).session c conn = s.session c conn := by
  have hname : conn.name ≠ conn₀.name := by
    intro heq
    have hn := (hs.ident c _ (ident_of_conns hc)).2.1
    have hn₀ := (hs.ident c₀ _ (ident_of_conns hc₀)).2.1
    exact h (connName_injective s (hn.symm.trans (heq.trans hn₀)))
  refine Session.ext rfl rfl rfl rfl rfl ?_ rfl rfl
  show decide (Function.update s.connections conn₀.name none conn.name = some c) =
    decide (s.connections conn.name = some c)
  rw [Function.update_of_ne hname]

theorem session_removeConnectionInLoop_of_ne (hs : s.Sound) (hc : s.conns c = some conn)
    (h : c ≠ c₀) (hr : s.removeConnectionInLoop c₀ = .ok s') :
    s'.session c conn = s.session c conn := by
  obtain ⟨conn₀, hc₀, -, rfl⟩ := removeConnectionInLoop_ok hr
  rw [session_queue_of_ne h, session_unlist_of_ne hs hc₀ hc h]

theorem session_removeConnectionInLoop (hs : s.Sound) (hc : s.conns c = some conn)
    (hr : s.removeConnectionInLoop c = .ok s') :
    (s.session c conn).listed = true ∧ s'.session c conn =
      { s.session c conn with
        listed := false
        pendingFunctors := (s.session c conn).pendingFunctors ++ [.connectDestroyed] } := by
  obtain ⟨conn', hc', hsome, rfl⟩ := removeConnectionInLoop_ok hr
  rw [hc, Option.some.injEq] at hc'
  subst hc'
  constructor
  · exact decide_eq_true (hs.listed hc hsome)
  · rw [session_queue]
    refine Session.ext rfl rfl rfl rfl rfl ?_ rfl rfl
    refine decide_eq_false fun heq => ?_
    have heq' : Function.update s.connections conn.name none conn.name = some c := heq
    rw [Function.update_self] at heq'
    cases heq'

theorem removeConnection_frame (hr : s.removeConnection l c = .ok s') :
    s'.conns = s.conns ∧ s'.history = s.history := by
  unfold removeConnection at hr
  split at hr
  · obtain ⟨conn, -, -, rfl⟩ := removeConnectionInLoop_ok hr
    exact ⟨rfl, rfl⟩
  · cases hr
    exact ⟨rfl, rfl⟩

/-! ## Every connection runs through a session -/

end TcpServer

/-- What a thread does for a connection by itself; the rest is the environment. -/
def SessionAction.isCall : SessionAction → Bool
  | .task _ _ | .send _ _ _ | .sendBuffer _ _ _ => true
  | _ => false

/-- A condition on the steps of a session that restricts neither the environment nor the start. -/
structure Session.Liberal (ok : Session → SessionAction → Prop) : Prop where
  free : ∀ x a, a.isCall = false → ok x a
  up : ∀ x r w ts, x.todo = .functor .connectEstablished :: ts → ok x (.task r w)

namespace TcpServer

variable {s s' : TcpServer} {c c₀ : ConnId} {conn conn₀ : TcpConnection} {l : LoopId} {k : Call}
  {ok : Session → SessionAction → Prop} {a : ServerAction}

/-- The step meets the condition `ok` for the connection it is about. -/
def Meets (ok : Session → SessionAction → Prop) (s : TcpServer) : ServerAction → Prop
  | .task l r w =>
      match (s.loops l).todo with
      | .conn c _ :: _ => ∀ conn ∈ s.conns c, ok (s.session c conn) (.task r w)
      | _ => True
  | .send t c message w => ∀ conn ∈ s.conns c, ok (s.session c conn) (.send t message w)
  | .sendBuffer t c data w => ∀ conn ∈ s.conns c, ok (s.session c conn) (.sendBuffer t data w)
  | _ => True

instance [∀ x a, Decidable (ok x a)] (s : TcpServer) : ∀ a, Decidable (s.Meets ok a)
  | .task l r w =>
      match h : (s.loops l).todo with
      | .conn c _ :: _ =>
          decidable_of_iff (∀ conn ∈ s.conns c, ok (s.session c conn) (.task r w))
            (by rw [Meets, h])
      | [] | .removeConnectionInLoop _ :: _ => .isTrue (by simp [Meets, h])
  | .send t c message w =>
      inferInstanceAs (Decidable (∀ conn ∈ s.conns c, ok (s.session c conn) (.send t message w)))
  | .sendBuffer t c data w =>
      inferInstanceAs (Decidable (∀ conn ∈ s.conns c, ok (s.session c conn) (.sendBuffer t data w)))
  | .accept _ _ | .poll _ _ | .takeFunctors _ | .endIteration _ | .shutdown _ _
  | .retrieveInput _ _ | .setCallbacks _ _ _ | .release _ => inferInstanceAs (Decidable True)

/-- The server is sound, and what is known of each of its connections is a run of a session that
meets `ok`. -/
structure Tracked (ok : Session → SessionAction → Prop) (s : TcpServer) : Prop where
  sound : s.Sound
  live : ∀ c conn, s.conns c = some conn → Session.system.ReachableVia ok (s.session c conn)
  past : ∀ c, s.conns c = none →
    s.history c = [] ∨ ∃ x, Session.system.ReachableVia ok x ∧ x.history = s.history c

theorem Tracked.agrees (h : s.Tracked ok) (hc : s.conns c = some conn) :
    (s.loops conn.loop).poller.Agrees conn.self conn.channel :=
  (Session.orderly_of_reachable (h.live c conn hc).reachable).registered

/-- Connections that are gone stay as they were. -/
theorem Tracked.next (h : s.Tracked ok) (hsound : s'.Sound)
    (hlive : ∀ c conn, s'.conns c = some conn → Session.system.ReachableVia ok (s'.session c conn))
    (hhistory : ∀ c, s'.conns c = none → s'.history c = s.history c) : s'.Tracked ok := by
  refine ⟨hsound, hlive, fun c hc => ?_⟩
  rw [hhistory c hc]
  cases hold : s.conns c with
  | none => exact h.past c hold
  | some conn => exact .inr ⟨_, h.live c conn hold, rfl⟩

theorem reachable_others (hok : Session.Liberal ok) {x : Session} {p : EPoller ConnId}
    (h : Session.system.ReachableVia ok x) (hsame : x.poller.SameAt p x.conn.channel.fd) :
    Session.system.ReachableVia ok { x with poller := p } :=
  .step h (hok.free x (.others p) rfl) ⟨hsame, rfl⟩

/-! ### Calls -/

theorem perform_ok {f : Call → Except NetFault Call} (h : s.perform c f = .ok s') :
    ∃ conn k, s.conns c = some conn ∧ f ⟨conn, (s.loops conn.loop).poller, [], [], []⟩ = .ok k ∧
      ((.closeCallback ∉ k.notes ∧ s' = s.commit c k) ∨
        (.closeCallback ∈ k.notes ∧ (s.commit c k).removeConnection k.conn.loop c = .ok s')) := by
  unfold perform at h
  split at h
  · cases h
  · next conn hc =>
      obtain ⟨k, hk, h⟩ := bind_eq_ok.mp h
      refine ⟨conn, k, hc, hk, ?_⟩
      dsimp only at h
      split at h
      · next hmem => exact .inr ⟨hmem, h⟩
      · next hmem =>
          cases h
          exact .inl ⟨hmem, rfl⟩

/-- The other connections see at most another poller. -/
theorem reachable_commit_of_ne (hok : Session.Liberal ok) (hs : s.Sound)
    (hc₀ : s.conns c₀ = some conn₀)
    (hkept : Call.Kept ⟨conn₀, (s.loops conn₀.loop).poller, [], [], []⟩ k)
    (hc : s.conns c = some conn) (hne : c ≠ c₀)
    (h : Session.system.ReachableVia ok (s.session c conn)) :
    Session.system.ReachableVia ok ((s.commit c₀ k).session c conn) := by
  rw [session_commit_of_ne hne]
  refine reachable_others hok h ?_
  split
  · next hl =>
      have hfd : conn.channel.fd ≠ conn₀.channel.fd := fun heq =>
        hne (hs.fds c c₀ _ _ (ident_of_conns hc) (ident_of_conns hc₀) heq)
      have hloop : conn.loop = conn₀.loop := hl.trans hkept.loop
      show (s.loops conn.loop).poller.SameAt _ _
      rw [hloop]
      exact hkept.elsewhere.same _ hfd
  · exact .refl _ _

/-- What a call of the connection `c₀` is, when it is a call of its session. -/
structure Performs (ok : Session → SessionAction → Prop) (s : TcpServer) (c₀ : ConnId)
    (conn₀ : TcpConnection) (k : Call) : Prop where
  sound : s.Sound
  conn : s.conns c₀ = some conn₀
  kept : Call.Kept ⟨conn₀, (s.loops conn₀.loop).poller, [], [], []⟩ k
  agrees : k.poller.Agrees k.conn.self k.conn.channel
  once : k.notes.count .closeCallback ≤ 1
  others : ∀ c conn, s.conns c = some conn → c ≠ c₀ →
    Session.system.ReachableVia ok (s.session c conn)
  own : Session.system.ReachableVia ok ((s.session c₀ conn₀).commit k)

theorem commit_conns_self (s : TcpServer) (c₀ : ConnId) (k : Call) :
    (s.commit c₀ k).conns c₀ = some k.conn := Function.update_self _ _ _

theorem commit_conns_of_ne (h : c ≠ c₀) : (s.commit c₀ k).conns c = s.conns c :=
  Function.update_of_ne h _ _

theorem Performs.sound_commit (h : s.Performs ok c₀ conn₀ k) : (s.commit c₀ k).Sound :=
  h.sound.commit h.conn h.kept h.agrees

theorem Performs.live_of_ne (hok : Session.Liberal ok) (h : s.Performs ok c₀ conn₀ k)
    (hc : (s.commit c₀ k).conns c = some conn) (hne : c ≠ c₀) :
    Session.system.ReachableVia ok ((s.commit c₀ k).session c conn) := by
  rw [commit_conns_of_ne hne] at hc
  exact reachable_commit_of_ne hok h.sound h.conn h.kept hc hne (h.others c conn hc hne)

/-- A call without close callback. -/
theorem Performs.live_quiet (hok : Session.Liberal ok) (h : s.Performs ok c₀ conn₀ k)
    (hnotes : .closeCallback ∉ k.notes) (hc : (s.commit c₀ k).conns c = some conn) :
    Session.system.ReachableVia ok ((s.commit c₀ k).session c conn) := by
  by_cases hne : c = c₀
  · subst hne
    rw [commit_conns_self, Option.some.injEq] at hc
    rw [← hc, session_commit h.kept.loop h.kept.name]
    have hremoving : ((s.session c conn₀).commit k).removing = (s.session c conn₀).removing := by
      show _ + k.notes.count .closeCallback = _
      rw [List.count_eq_zero_of_not_mem hnotes, Nat.add_zero]
    rw [← hremoving]
    exact h.own
  · exact h.live_of_ne hok hc hne

/-- A call that closed the connection, and the `removeConnection` that follows at once. -/
theorem Performs.live_close (hok : Session.Liberal ok) (h : s.Performs ok c₀ conn₀ k)
    (hnotes : .closeCallback ∈ k.notes)
    (hr : (s.commit c₀ k).removeConnection k.conn.loop c₀ = .ok s') (hc : s'.conns c = some conn) :
    Session.system.ReachableVia ok (s'.session c conn) := by
  have hcount : k.notes.count .closeCallback = 1 :=
    le_antisymm h.once (List.count_pos_iff.mpr hnotes)
  rw [(removeConnection_frame hr).1] at hc
  by_cases hne : c = c₀
  · subst hne
    rw [commit_conns_self, Option.some.injEq] at hc
    subst hc
    have hown := h.own
    have hsession := session_commit (s := s) (c := c) h.kept.loop h.kept.name
    unfold removeConnection at hr
    split at hr
    · -- the owner is in this thread and goes on
      obtain ⟨hlisted, heq⟩ :=
        session_removeConnectionInLoop h.sound_commit (commit_conns_self s c k) hr
      rw [heq, hsession]
      rw [hsession] at hlisted
      have hpos : 0 < ((s.session c conn₀).commit k).removing := by
        show 0 < _ + k.notes.count .closeCallback
        omega
      have hstep : Session.system.Step ((s.session c conn₀).commit k) .removeConnection
          { (s.session c conn₀).commit k with
            listed := false
            removing := ((s.session c conn₀).commit k).removing - 1
            pendingFunctors := ((s.session c conn₀).commit k).pendingFunctors ++
              [.connectDestroyed] } := by
        refine ⟨hpos, ?_⟩
        show (check (((s.session c conn₀).commit k).listed = true) _ >>= _) = _
        rw [check_of_pos hlisted]
        rfl
      have hremoving : ((s.session c conn₀).commit k).removing - 1 = (s.session c conn₀).removing := by
        show _ + k.notes.count .closeCallback - 1 = _
        rw [hcount, Nat.add_sub_cancel]
      have hnext := hown.step (hok.free _ .removeConnection rfl) hstep
      rw [hremoving] at hnext
      exact hnext
    · -- the removal is queued in the base loop; for the session it is still to come
      cases hr
      rw [session_queue_removal, hsession, if_pos rfl]
      have hremoving : ((s.session c conn₀).commit k).removing =
          (s.session c conn₀).removing + 1 := by
        show _ + k.notes.count .closeCallback = _
        rw [hcount]
      rw [← hremoving]
      exact hown
  · have hlive := h.live_of_ne hok hc hne
    unfold removeConnection at hr
    split at hr
    · rwa [session_removeConnectionInLoop_of_ne h.sound_commit hc hne hr]
    · cases hr
      rwa [session_queue_removal, if_neg (Ne.symm hne)]

/-- **A call keeps the sessions.** -/
theorem Performs.result (hok : Session.Liberal ok) (h : s.Performs ok c₀ conn₀ k)
    {f : Call → Except NetFault Call} (hf : f ⟨conn₀, (s.loops conn₀.loop).poller, [], [], []⟩ = .ok k)
    (hperform : s.perform c₀ f = .ok s') :
    s'.Sound ∧
      (∀ c conn, s'.conns c = some conn → Session.system.ReachableVia ok (s'.session c conn)) ∧
      ∀ c, s'.conns c = none → s'.history c = s.history c := by
  obtain ⟨conn, k', hconn, hk, hcases⟩ := perform_ok hperform
  rw [h.conn, Option.some.injEq] at hconn
  subst hconn
  rw [hf, Except.ok.injEq] at hk
  subst hk
  have hhistory : ∀ c, (s.commit c₀ k).conns c = none → (s.commit c₀ k).history c = s.history c := by
    intro c hc
    have hne : c ≠ c₀ := by
      rintro rfl
      rw [commit_conns_self] at hc
      cases hc
    exact Function.update_of_ne hne _ _
  rcases hcases with ⟨hnotes, rfl⟩ | ⟨hnotes, hr⟩
  · exact ⟨h.sound_commit, fun c conn hc => h.live_quiet hok hnotes hc, hhistory⟩
  · obtain ⟨hconns, hhist⟩ := removeConnection_frame hr
    refine ⟨h.sound_commit.removeConnection (commit_conns_self s c₀ k) hr,
      fun c conn hc => h.live_close hok hnotes hr hc, ?_⟩
    rw [hconns, hhist]
    exact hhistory

/-! ### Polling -/

/-- The tasks of one connection in an iteration: those of its report, if it has one. -/
theorem tasks_fillActiveChannels {p : EPoller ConnId} {fd : Fd}
    (hfd : ∀ fd' events, p.interest fd' = some (events, c) → fd' = fd)
    {reports : List (Fd × PollEvents)} (hnodup : (reports.map Prod.fst).Nodup)
    {ts : List LoopTask} (h : EventLoop.fillActiveChannels p reports = .ok ts) :
    ts.filterMap (LoopTask.of c) = [] ∨ ∃ revents events, (fd, revents) ∈ reports ∧
      p.interest fd = some (events, c) ∧ ts.filterMap (LoopTask.of c) = Session.eventTasks revents := by
  induction reports generalizing ts with
  | nil =>
      cases h
      exact .inl rfl
  | cons x rs ih =>
      obtain ⟨fd', revents⟩ := x
      rw [List.map_cons, List.nodup_cons] at hnodup
      unfold EventLoop.fillActiveChannels at h
      split at h
      · rcases ih hnodup.2 h with hnil | ⟨revents', events, hmem, hrest⟩
        · exact .inl hnil
        · exact .inr ⟨revents', events, List.mem_cons_of_mem _ hmem, hrest⟩
      · next events c' hint =>
          obtain ⟨u, -, h⟩ := bind_eq_ok.mp h
          obtain ⟨ts', hts, h⟩ := bind_eq_ok.mp h
          cases h
          have hrest := ih hnodup.2 hts
          by_cases hc : c' = c
          · subst hc
            have heq := hfd fd' events hint
            subst heq
            -- the descriptor is not reported twice
            have hnil : ts'.filterMap (LoopTask.of c') = [] := by
              rcases hrest with hnil | ⟨revents', _, hmem, -⟩
              · exact hnil
              · exact absurd (List.mem_map.mpr ⟨_, hmem, rfl⟩) hnodup.1
            refine .inr ⟨revents, events, List.mem_cons_self, hint, ?_⟩
            rw [List.filterMap_append, tasks_map_conn, hnil, List.append_nil]
          · rw [List.filterMap_append, tasks_map_conn_of_ne (Ne.symm hc), List.nil_append]
            rcases hrest with hnil | ⟨revents', events', hmem, hrest⟩
            · exact .inl hnil
            · exact .inr ⟨revents', events', List.mem_cons_of_mem _ hmem, hrest⟩

theorem removals_fillActiveChannels {p : EPoller ConnId} {reports : List (Fd × PollEvents)}
    {ts : List LoopTask} (h : EventLoop.fillActiveChannels p reports = .ok ts) (c : ConnId) :
    ts.count (.removeConnectionInLoop c) = 0 := by
  refine List.count_eq_zero_of_not_mem fun hmem => ?_
  obtain ⟨fd, events, c', t, -, heq⟩ := mem_fillActiveChannels h _ hmem
  cases heq

theorem session_todo_nil (htodo : (s.loops conn.loop).todo = []) : (s.session c conn).todo = [] := by
  show (s.loops conn.loop).todo.filterMap _ = []
  rw [htodo]
  rfl

theorem Tracked.poll (hok : Session.Liberal ok) (h : s.Tracked ok)
    {reports : List (Fd × PollEvents)} (hstep : system.Step s (.poll l reports) s') :
    s'.Tracked ok := by
  obtain ⟨⟨hphase, htodo, hnodup, hreport⟩, hex⟩ := hstep
  obtain ⟨ts, hts, hex⟩ := bind_eq_ok.mp hex
  cases hex
  refine h.next (h.sound.poll hts) (fun c conn hc => ?_) fun c _ => rfl
  have hc' : s.conns c = some conn := hc
  have hlive := h.live c conn hc'
  have hr : ({ s.loops l with phase := .dispatching, todo := ts } : EventLoop).removals c =
      (s.loops l).removals c := by
    unfold EventLoop.removals
    rw [htodo, removals_fillActiveChannels hts]
    rfl
  by_cases hl : conn.loop = l
  · subst hl
    rw [session_setLoop hr]
    have htasks := session_todo_nil (c := c) htodo
    have hident := ident_of_conns hc'
    have hfd : ∀ fd' events, (s.loops conn.loop).poller.interest fd' = some (events, c) →
        fd' = conn.channel.fd := by
      intro fd' events hint
      obtain ⟨i, hi, -, rfl⟩ := (h.sound.loops conn.loop).interest fd' events c hint
      rw [hident, Option.some.injEq] at hi
      rw [← hi]
      rfl
    rcases tasks_fillActiveChannels hfd hnodup hts with hnil | ⟨revents, events, hmem, hint, heq⟩
    · -- not reported
      have hnext := hlive.step (hok.free _ (.poll none) rfl) ⟨⟨hphase, htasks⟩, rfl⟩
      rw [← htasks] at hnil
      rw [show EventLoop.tasksOf { s.loops conn.loop with phase := .dispatching, todo := ts } c = _
        from hnil]
      exact hnext
    · rw [show EventLoop.tasksOf { s.loops conn.loop with phase := .dispatching, todo := ts } c = _
        from heq]
      refine hlive.step (hok.free _ (.poll (some revents)) rfl) ⟨⟨hphase, htasks, ?_⟩, rfl⟩
      obtain ⟨e, he, hrep⟩ := hreport _ hmem
      have he' : (s.loops conn.loop).poller.interest conn.channel.fd = some e := he
      rw [hint, Option.some.injEq] at he'
      subst he'
      refine ⟨(events, c), hint, ?_, hrep⟩
      exact (h.sound.ident c _ hident).1.symm
  · rw [session_setLoop_of_ne hl hr]
    exact hlive

theorem Tracked.takeFunctors (hok : Session.Liberal ok) (h : s.Tracked ok)
    (hstep : system.Step s (.takeFunctors l) s') : s'.Tracked ok := by
  obtain ⟨⟨hphase, htodo⟩, hex⟩ := hstep
  cases hex
  refine h.next h.sound.takeFunctors (fun c conn hc => ?_) fun c _ => rfl
  have hlive := h.live c conn hc
  have hr : ({ s.loops l with
      phase := .callingPendingFunctors
      todo := (s.loops l).pendingFunctors.map LoopFunctor.toTask
      pendingFunctors := [] } : EventLoop).removals c = (s.loops l).removals c := by
    unfold EventLoop.removals
    rw [htodo]
    simp only [count_toTask, List.count_nil]
    omega
  by_cases hl : conn.loop = l
  · subst hl
    rw [session_setLoop hr]
    have htasks := session_todo_nil (c := c) htodo
    have hnext := hlive.step (hok.free _ .takeFunctors rfl) ⟨⟨hphase, htasks⟩, rfl⟩
    have hmap : EventLoop.tasksOf { s.loops conn.loop with
        phase := .callingPendingFunctors
        todo := (s.loops conn.loop).pendingFunctors.map LoopFunctor.toTask
        pendingFunctors := [] } c = ((s.loops conn.loop).functorsOf c).map .functor :=
      tasks_toTask _
    rw [hmap]
    exact hnext
  · rw [session_setLoop_of_ne hl hr]
    exact hlive

theorem Tracked.endIteration (hok : Session.Liberal ok) (h : s.Tracked ok)
    (hstep : system.Step s (.endIteration l) s') : s'.Tracked ok := by
  obtain ⟨⟨hphase, htodo⟩, hex⟩ := hstep
  cases hex
  refine h.next (h.sound.setLoop_work rfl fun t => .inl) (fun c conn hc => ?_) fun c _ => rfl
  have hlive := h.live c conn hc
  have hr : ({ s.loops l with phase := .polling } : EventLoop).removals c =
      (s.loops l).removals c := rfl
  by_cases hl : conn.loop = l
  · subst hl
    rw [session_setLoop hr]
    have htasks := session_todo_nil (c := c) htodo
    exact hlive.step (hok.free _ .endIteration rfl) ⟨⟨hphase, htasks⟩, rfl⟩
  · rw [session_setLoop_of_ne hl hr]
    exact hlive

/-! ### Tasks -/

theorem popTask_poller (s : TcpServer) (l l' : LoopId) (ts : List LoopTask) :
    ((s.popTask l ts).loops l').poller = (s.loops l').poller := by
  rw [popTask, setLoop_loops]
  split
  · next hl => rw [hl]
  · rfl

/-- A task of a connection is a task of its session. -/
theorem Tracked.performs_task (h : s.Tracked ok) {r : Buffer.ReadResult} {w : WriteResult}
    {t : ConnTask} {ts : List LoopTask} (hc₀ : s.conns c₀ = some conn₀)
    (htodo : (s.loops conn₀.loop).todo = .conn c₀ t :: ts)
    (hmeets : s.Meets ok (.task conn₀.loop r w))
    (hrun : (s.session c₀ conn₀).call.runTask t r w = .ok k) :
    (s.popTask conn₀.loop ts).Performs ok c₀ conn₀ k := by
  obtain ⟨hpop, -⟩ := h.sound.popTask htodo
  obtain ⟨htasks, hsession⟩ := session_popTask conn₀ htodo
  obtain ⟨hkept, honce⟩ := Call.runTask_kept (h.agrees hc₀) rfl hrun
  refine ⟨hpop, hc₀, ?_, hkept.agrees (h.agrees hc₀), honce, fun c conn hc hne => ?_, ?_⟩
  · rw [popTask_poller]
    exact hkept
  · rw [session_popTask_of_ne htodo hne]
    exact h.live c conn hc
  · rw [hsession]
    unfold Meets at hmeets
    simp only [htodo] at hmeets
    refine (h.live c₀ conn₀ hc₀).step (hmeets conn₀ hc₀) ⟨?_, ?_⟩
    · show (s.session c₀ conn₀).todo ≠ []
      rw [htasks]
      exact List.cons_ne_nil _ _
    · refine (Session.exec_task htasks r w).trans ?_
      rw [hrun]
      rfl

theorem Tracked.connTask (hok : Session.Liberal ok) (h : s.Tracked ok) {r : Buffer.ReadResult}
    {w : WriteResult} {t : ConnTask} {ts : List LoopTask}
    (htodo : (s.loops l).todo = .conn c₀ t :: ts) (hmeets : s.Meets ok (.task l r w))
    (hex : (s.popTask l ts).perform c₀ (fun k => k.runTask t r w) = .ok s') : s'.Tracked ok := by
  obtain ⟨conn₀, k, hc₀, hk, -⟩ := perform_ok hex
  have hc₀' : s.conns c₀ = some conn₀ := hc₀
  have hloop : conn₀.loop = l := (h.sound.popTask htodo).2.2 _ (ident_of_conns hc₀')
  subst hloop
  have hrun : (s.session c₀ conn₀).call.runTask t r w = .ok k := by
    rw [popTask_poller] at hk
    exact hk
  obtain ⟨hsound, hlive, hhistory⟩ := (h.performs_task hc₀' htodo hmeets hrun).result hok hk hex
  exact h.next hsound hlive hhistory

theorem Tracked.removalTask (hok : Session.Liberal ok) (h : s.Tracked ok) {ts : List LoopTask}
    (htodo : (s.loops l).todo = .removeConnectionInLoop c₀ :: ts)
    (hex : (s.popTask l ts).removeConnectionInLoop c₀ = .ok s') : s'.Tracked ok := by
  obtain ⟨hpop, hallowed⟩ := h.sound.popTask htodo
  obtain rfl : l = 0 := hallowed.2
  have hframe : s'.conns = s.conns ∧ s'.history = s.history := by
    obtain ⟨conn, -, -, rfl⟩ := removeConnectionInLoop_ok hex
    exact ⟨rfl, rfl⟩
  refine h.next (hpop.removeConnectionInLoop hex) (fun c conn hc => ?_) fun c _ => by rw [hframe.2]
  rw [hframe.1] at hc
  have hlive := h.live c conn hc
  have hsession := session_popTask_removal c conn htodo
  by_cases hne : c = c₀
  · subst hne
    obtain ⟨hlisted, heq⟩ := session_removeConnectionInLoop hpop hc hex
    rw [if_pos rfl] at hsession
    change ((s.popTask 0 ts).session c conn).listed = true at hlisted
    change s'.session c conn = { (s.popTask 0 ts).session c conn with
      listed := false
      pendingFunctors := ((s.popTask 0 ts).session c conn).pendingFunctors ++ [.connectDestroyed] }
      at heq
    rw [heq, hsession]
    rw [hsession] at hlisted
    refine hlive.step (hok.free _ .removeConnection rfl) ⟨removing_pos htodo, ?_⟩
    show (check ((s.session c conn).listed = true) _ >>= _) = _
    rw [check_of_pos hlisted]
    rfl
  · rw [if_neg (Ne.symm hne)] at hsession
    rw [session_removeConnectionInLoop_of_ne hpop hc hne hex]
    change Session.system.ReachableVia ok ((s.popTask 0 ts).session c conn)
    rw [hsession]
    exact hlive

/-- The thread of a loop does the next thing it has to do. -/
theorem Tracked.task (hok : Session.Liberal ok) (h : s.Tracked ok) {r : Buffer.ReadResult}
    {w : WriteResult} (hmeets : s.Meets ok (.task l r w))
    (hstep : system.Step s (.task l r w) s') : s'.Tracked ok := by
  obtain ⟨hen, hex⟩ := hstep
  obtain ⟨t, ts, htodo⟩ := List.exists_cons_of_ne_nil hen
  have hrun : (s.popTask l ts).runTask r w t = .ok s' := (exec_task htodo r w).symm.trans hex
  cases t with
  | conn c₀ t => exact h.connTask hok htodo hmeets hrun
  | removeConnectionInLoop c₀ => exact h.removalTask hok htodo hrun

/-! ### The user -/

/-- A call of the user that is quiet. -/
theorem Tracked.userCall (hok : Session.Liberal ok) (h : s.Tracked ok) {a : SessionAction}
    {f : Call → Except NetFault Call} (hex : s.perform c₀ f = .ok s')
    (hquiet : ∀ k k', f k = .ok k' → k.Quiet k')
    (hstep : ∀ conn₀ k, s.conns c₀ = some conn₀ → f (s.session c₀ conn₀).call = .ok k →
      ok (s.session c₀ conn₀) a ∧
        Session.system.Step (s.session c₀ conn₀) a ((s.session c₀ conn₀).commit k)) :
    s'.Tracked ok := by
  obtain ⟨conn₀, k, hc₀, hk, -⟩ := perform_ok hex
  have hq : (s.session c₀ conn₀).call.Quiet k := hquiet _ k hk
  have honce : k.notes.count .closeCallback = 0 :=
    List.count_eq_zero_of_not_mem (Session.quiet_notes hq)
  obtain ⟨hmeets, hnext⟩ := hstep conn₀ k hc₀ hk
  have hperforms : s.Performs ok c₀ conn₀ k :=
    ⟨h.sound, hc₀, hq.toKept, hq.toKept.agrees (h.agrees hc₀), by omega,
      fun c conn hc _ => h.live c conn hc, (h.live c₀ conn₀ hc₀).step hmeets hnext⟩
  obtain ⟨hsound, hlive, hhistory⟩ := hperforms.result hok hk hex
  exact h.next hsound hlive hhistory

/-- The user sets something in a connection object. -/
theorem Tracked.setConn (h : s.Tracked ok) {conn' : TcpConnection} (hc₀ : s.conns c₀ = some conn₀)
    (hident : conn'.ident = conn₀.ident)
    (hstep : Session.system.ReachableVia ok { s.session c₀ conn₀ with conn := conn' }) :
    ({ s with conns := Function.update s.conns c₀ (some conn') } : TcpServer).Tracked ok := by
  refine h.next (h.sound.setConn hc₀ hident) (fun c conn hc => ?_) fun c _ => rfl
  have hc' : Function.update s.conns c₀ (some conn') c = some conn := hc
  by_cases hne : c = c₀
  · subst hne
    rw [Function.update_self, Option.some.injEq] at hc'
    subst hc'
    have hloop : conn'.loop = conn₀.loop := congrArg ConnIdent.loop hident
    have hname : conn'.name = conn₀.name := congrArg ConnIdent.name hident
    unfold session
    rw [hloop, hname]
    exact hstep
  · rw [Function.update_of_ne hne] at hc'
    exact h.live c conn hc'

/-! ### Connections come and go -/

/-- Nothing waits for a connection that does not exist yet. -/
theorem Sound.nothing (hs : s.Sound) (l : LoopId) :
    (s.loops l).functorsOf s.nextConnId = [] ∧ (s.loops l).tasksOf s.nextConnId = [] ∧
      (s.loops l).removals s.nextConnId = 0 := by
  have hwork := (hs.loops l).work
  have hconn : ∀ t, .conn s.nextConnId t ∉ (s.loops l).work := fun t ht =>
    absurd (hwork _ ht).1 (lt_irrefl _)
  have hremoval : .removeConnectionInLoop s.nextConnId ∉ (s.loops l).work := fun ht =>
    absurd (hwork _ ht).1 (lt_irrefl _)
  unfold EventLoop.work at hconn hremoval
  refine ⟨List.filterMap_eq_nil_iff.mpr fun f hf => ?_, List.filterMap_eq_nil_iff.mpr fun t ht => ?_,
    ?_⟩
  · cases f with
    | conn c f =>
        refine if_neg fun hc => hconn (.functor f) (List.mem_append_right _ ?_)
        exact List.mem_map.mpr ⟨_, hf, by rw [← hc]; rfl⟩
    | removeConnectionInLoop c => rfl
  · cases t with
    | conn c t =>
        refine if_neg fun hc => hconn t (List.mem_append_left _ ?_)
        rwa [← hc]
    | removeConnectionInLoop c => rfl
  · rw [List.mem_append, not_or] at hremoval
    unfold EventLoop.removals
    rw [List.count_eq_zero_of_not_mem hremoval.1, List.count_eq_zero_of_not_mem]
    exact fun hf => hremoval.2 (List.mem_map.mpr ⟨_, hf, rfl⟩)

theorem session_enroll {next : ℕ} (hs : s.Sound) :
    (s.enroll next conn).session s.nextConnId conn =
      (Session.opened conn (s.loops conn.loop).poller (s.loops conn.loop).phase true).pop [] := by
  obtain ⟨hf, ht, -⟩ := hs.nothing conn.loop
  refine Session.ext rfl rfl hf rfl ht ?_ (hs.nothing 0).2.2 (hs.history _ le_rfl)
  exact decide_eq_true (Function.update_self _ _ _)

theorem session_enroll_of_ne {next : ℕ} {conn' : TcpConnection} (hs : s.Sound)
    (hc : s.conns c = some conn) (hname : conn'.name = s.connName s.nextConnId) :
    (s.enroll next conn').session c conn = s.session c conn := by
  obtain ⟨-, hn, hlt⟩ := hs.ident c _ (ident_of_conns hc)
  have hne : conn.name ≠ conn'.name := by
    intro heq
    exact hlt.ne (connName_injective s (hn.symm.trans (heq.trans hname)))
  refine Session.ext rfl rfl rfl rfl rfl ?_ rfl rfl
  show decide (Function.update s.connections conn'.name (some s.nextConnId) conn.name = some c) =
    decide (s.connections conn.name = some c)
  rw [Function.update_of_ne hne]

/-- The poller has not heard of a connection that is made. -/
theorem Sound.init_opened (hs : s.Sound) (ioLoop : LoopId) {sockfd : Fd} (highWaterMark : ℕ)
    (hfd : ∀ c i, s.ident c = some i → i.fd ≠ sockfd) (atOnce : Bool) :
    Session.init (.opened (s.nextConn ioLoop sockfd highWaterMark) (s.loops ioLoop).poller
      (s.loops ioLoop).phase atOnce) := by
  refine ⟨s.nextConnId, ioLoop, s.connName s.nextConnId, sockfd, highWaterMark,
    s.writeCompleteCallback, _, _, atOnce, fun hch => ?_, ?_, rfl⟩
  · exact absurd ((hs.loops ioLoop).channels _ _ hch) (lt_irrefl _)
  · cases hint : (s.loops ioLoop).poller.interest sockfd with
    | none => rfl
    | some x =>
        obtain ⟨i, hi, -, hifd⟩ := (hs.loops ioLoop).interest sockfd x.1 x.2 hint
        exact absurd hifd (hfd _ i hi)

theorem Tracked.accept (hok : Session.Liberal ok) (h : s.Tracked ok) {sockfd : Fd}
    {highWaterMark : ℕ} (hstep : system.Step s (.accept sockfd highWaterMark) s') :
    s'.Tracked ok := by
  obtain ⟨⟨-, hfree⟩, hex⟩ := hstep
  obtain ⟨ioLoop, next, -, hcases⟩ := newConnection_ok hex
  have hfd := h.sound.unused hfree
  have hinit := h.sound.init_opened ioLoop highWaterMark hfd
  have hsound : (s.enroll next (s.nextConn ioLoop sockfd highWaterMark)).Sound :=
    h.sound.enroll rfl rfl hfd
  have hloop : (s.nextConn ioLoop sockfd highWaterMark).loop = ioLoop := rfl
  have hname : (s.nextConn ioLoop sockfd highWaterMark).name = s.connName s.nextConnId := rfl
  -- from here on only these facts about the new connection matter
  generalize s.nextConn ioLoop sockfd highWaterMark = conn₀ at *
  subst hloop
  have hin : (s.enroll next conn₀).conns s.nextConnId = some conn₀ := Function.update_self _ _ _
  have hothers : ∀ c conn, (s.enroll next conn₀).conns c = some conn → c ≠ s.nextConnId →
      Session.system.ReachableVia ok ((s.enroll next conn₀).session c conn) := by
    intro c conn hc hne
    have hc' : s.conns c = some conn := by
      rwa [show (s.enroll next conn₀).conns c = s.conns c from Function.update_of_ne hne _ _] at hc
    rw [session_enroll_of_ne h.sound hc' hname]
    exact h.live c conn hc'
  rcases hcases with ⟨-, hperform⟩ | ⟨-, rfl⟩
  · -- the base loop is the loop of the connection and calls `connectEstablished` itself
    obtain ⟨conn₁, k, hc₁, hk, -⟩ := perform_ok hperform
    rw [hin, Option.some.injEq] at hc₁
    subst hc₁
    have hkept := Call.connectEstablished_kept hk
    have hup : Session.system.Step
        (.opened conn₀ (s.loops conn₀.loop).poller (s.loops conn₀.loop).phase true)
        (.task .error (.accepted 0)) (((Session.opened conn₀ (s.loops conn₀.loop).poller
          (s.loops conn₀.loop).phase true).pop []).commit k) := by
      refine ⟨List.cons_ne_nil _ _, ?_⟩
      have hrun : (Session.opened conn₀ (s.loops conn₀.loop).poller (s.loops conn₀.loop).phase
          true).call.runTask (.functor .connectEstablished) .error (.accepted 0) = .ok k := hk
      show (_ >>= _) = _
      rw [hrun]
      rfl
    have hperforms : (s.enroll next conn₀).Performs ok s.nextConnId conn₀ k := by
      refine ⟨hsound, hin, hkept, hkept.agrees (Session.Registered.init (hinit true)), ?_, hothers, ?_⟩
      · obtain ⟨-, p, -, rfl⟩ := Call.connectEstablished_ok hk
        exact Nat.zero_le 1
      · rw [session_enroll h.sound]
        exact .step (.init (hinit true)) (hok.up _ _ _ [] rfl) hup
    obtain ⟨hs', hlive, hhistory⟩ := hperforms.result hok hk hperform
    exact h.next hs' hlive hhistory
  · -- `connectEstablished` waits in the loop of the connection
    refine h.next (hsound.queueInLoop ?_) (fun c conn hc => ?_) fun c _ => rfl
    · exact hsound.allowed_conn hin (.functor .connectEstablished)
    · have hc' : (s.enroll next conn₀).conns c = some conn := hc
      by_cases hne : c = s.nextConnId
      · subst hne
        rw [hin, Option.some.injEq] at hc'
        subst hc'
        rw [session_queue, session_enroll h.sound]
        exact .init (hinit false)
      · rw [session_queue_of_ne hne]
        exact hothers c conn hc' hne

theorem session_forget :
    (s.forget c₀ conn₀).session c conn =
      { s.session c conn with
        poller := if conn.loop = conn₀.loop then
            { (s.loops conn₀.loop).poller with
              interest := Function.update (s.loops conn₀.loop).poller.interest conn₀.channel.fd none }
          else (s.loops conn.loop).poller } := by
  by_cases hl : conn.loop = conn₀.loop
  · rw [if_pos hl]
    unfold forget
    rw [← hl]
    exact session_setLoop (s := { s with conns := Function.update s.conns c₀ none }) rfl
  · rw [if_neg hl]
    exact session_setLoop_of_ne (s := { s with conns := Function.update s.conns c₀ none }) hl rfl

theorem Tracked.release (hok : Session.Liberal ok) (h : s.Tracked ok)
    (hex : s.release c₀ = .ok s') : s'.Tracked ok := by
  obtain ⟨conn₀, hc₀, rfl⟩ := release_ok hex
  refine h.next (h.sound.forget hc₀) (fun c conn hc => ?_) fun c _ => rfl
  have hc' : Function.update s.conns c₀ none c = some conn := hc
  have hne : c ≠ c₀ := by
    rintro rfl
    rw [Function.update_self] at hc'
    cases hc'
  rw [Function.update_of_ne hne] at hc'
  rw [session_forget]
  refine reachable_others hok (h.live c conn hc') ?_
  split
  · next hl =>
      -- closing a descriptor takes it out of the interest set, and descriptors are distinct
      have hfd : conn.channel.fd ≠ conn₀.channel.fd := fun heq =>
        hne (h.sound.fds c c₀ _ _ (ident_of_conns hc') (ident_of_conns hc₀) heq)
      show (s.loops conn.loop).poller.SameAt _ conn.channel.fd
      rw [hl]
      exact ⟨rfl, Function.update_of_ne hfd _ _⟩
  · exact .refl _ _

/-! ### Runs -/

theorem tracked_new (name : String) (ioLoops : ℕ) (writeCompleteCallback : Bool) :
    (new name ioLoops writeCompleteCallback).Tracked ok :=
  ⟨sound_new name ioLoops writeCompleteCallback, fun _ _ hc => (by cases hc), fun _ _ => .inl rfl⟩

theorem Tracked.step (hok : Session.Liberal ok) (h : s.Tracked ok) (hmeets : s.Meets ok a)
    (hstep : system.Step s a s') : s'.Tracked ok := by
  cases a with
  | accept sockfd highWaterMark => exact h.accept hok hstep
  | poll l reports => exact h.poll hok hstep
  | task l r w => exact h.task hok hmeets hstep
  | takeFunctors l => exact h.takeFunctors hok hstep
  | endIteration l => exact h.endIteration hok hstep
  | send t c message w =>
      have hex : s.perform c (fun k => k.send t message w) = .ok s' := hstep.2
      refine h.userCall (a := .send t message w) hok hex (fun k k' => Call.send_quiet)
        fun conn k hc hk => ⟨hmeets conn hc, trivial, ?_⟩
      show (_ >>= _) = _
      rw [hk]
      rfl
  | sendBuffer t c data w =>
      have hex : s.perform c (fun k => k.sendBuffer t data w) = .ok s' := hstep.2
      refine h.userCall (a := .sendBuffer t data w) hok hex (fun k k' => Call.sendBuffer_quiet)
        fun conn k hc hk => ⟨hmeets conn hc, trivial, ?_⟩
      show (_ >>= _) = _
      rw [hk]
      rfl
  | shutdown t c =>
      have hex : s.perform c (fun k => return k.shutdown t) = .ok s' := hstep.2
      refine h.userCall (a := .shutdown t) hok hex (fun k k' hk => ?_)
        fun conn k hc hk => ⟨hok.free _ _ rfl, trivial, ?_⟩
      · cases hk
        exact Call.shutdown_quiet k t
      · cases hk
        rfl
  | retrieveInput c len =>
      have hex : s.retrieveInput c len = .ok s' := hstep.2
      unfold retrieveInput at hex
      split at hex
      · cases hex
      · next conn hc =>
          split at hex
          · next b hb =>
              cases hex
              refine h.setConn hc rfl ((h.live c conn hc).step
                (hok.free _ (.retrieveInput len) rfl) ⟨trivial, ?_⟩)
              exact Session.exec_retrieveInput_eq_ok.mpr ⟨b, hb, rfl⟩
          · cases hex
  | setCallbacks c writeComplete highWaterMark =>
      have hex : s.setCallbacks c writeComplete highWaterMark = .ok s' := hstep.2
      unfold setCallbacks at hex
      split at hex
      · cases hex
      · next conn hc =>
          cases hex
          exact h.setConn hc rfl ((h.live c conn hc).step
            (hok.free _ (.setCallbacks writeComplete highWaterMark) rfl) ⟨trivial, rfl⟩)
  | release c => exact h.release hok hstep.2

/-- **Every run of a server is a run of a session for each of its connections.** -/
theorem tracked_of_reachable (hok : Session.Liberal ok) (h : system.ReachableVia (Meets ok) s) :
    s.Tracked ok := by
  refine StepSystem.ReachableVia.invariant (fun s hs => ?_) (fun s a s' _ hs hmeets hstep => ?_) h
  · obtain ⟨name, ioLoops, writeComplete, rfl⟩ := hs
    exact tracked_new name ioLoops writeComplete
  · exact hs.step hok hmeets hstep

end TcpServer

end MiniMuduo
