import MiniMuduo.Net.HalfClose
import MiniMuduo.Net.Lifetimes

/-!
# What `SHUT_WR` ends

Where messages are sent in the thread of the loop only, none of them is on its way when `shutdown`
finds the connection up. Until `handleClose`, a connection whose `SHUT_WR` was issued has nothing in
its output buffer and will not have (`end_of_stream`): the kernel has taken every message that was
sent, in order, unless `send(Buffer *)` gave one up because its `::write` failed with `EPIPE` or
`ECONNRESET`.
-/

namespace MiniMuduo

open Fallible

/-- `send(Buffer *)` dropped the message. -/
def ConnEvent.givesUp : ConnEvent → Bool
  | .sendBufferInLoop _ _ (some w) => w.isFault
  | _ => false

/-- What was executed is what was sent, unless a message was given up. -/
def ExecutesSent (es : List ConnEvent) : Prop :=
  (∀ e ∈ es, e.givesUp = false) → executedBytes es = (sentMessages es).flatten

theorem ExecutesSent.append {es es' : List ConnEvent} (h : ExecutesSent es)
    (h' : ExecutesSent es') : ExecutesSent (es ++ es') := by
  intro hkept
  rw [executedBytes_append, sentMessages_append, List.flatten_append,
    h fun e he => hkept e (List.mem_append_left _ he),
    h' fun e he => hkept e (List.mem_append_right _ he)]

theorem executesSent_of_mute {es : List ConnEvent} (h : ∀ e ∈ es, e.isMute = true) :
    ExecutesSent es := by
  obtain ⟨hsent, -, -, hexe⟩ := messages_of_mute h
  intro _
  rw [hexe, hsent]
  rfl

namespace Call

variable {k k' : Call}

theorem sentMessages_writes (k : Call) (data : Bytes) (w : WriteResult) :
    sentMessages (k.writes data w) = [] := by
  unfold writes
  split <;> rfl

/-- A call of those who use the connection in the thread of its loop, on the output side: what it
executes was sent, and a half-close, done or queued, is the end of the output. -/
structure Tidy (k k' : Call) : Prop where
  notes : ∃ es, k'.notes = k.notes ++ es ∧ ExecutesSent es ∧
    ∀ unsent, .shutdownWrite unsent ∈ es → k'.conn.state ≠ .kConnected ∧ k'.conn.unsent = []
  queued : ∃ fs, k'.queued = k.queued ++ fs ∧
    (.shutdownInLoop ∈ fs → k'.conn.state ≠ .kConnected)
  down : k.conn.state ≠ .kConnected → k'.conn.state ≠ .kConnected
  drained : k.conn.state ≠ .kConnected → k.conn.unsent = [] → k'.conn.unsent = []

/-- Mute events and other functors. -/
theorem tidy_emit {es : List ConnEvent} {fs : List ConnFunctor}
    (hmute : ∀ e ∈ es, e.isMute = true) (hno : ∀ unsent, .shutdownWrite unsent ∉ es)
    (hfs : .shutdownInLoop ∉ fs) : Tidy k (k.emit es fs) where
  notes := ⟨es, rfl, executesSent_of_mute hmute, fun unsent hmem => absurd hmem (hno unsent)⟩
  queued := ⟨fs, rfl, fun hmem => absurd hmem hfs⟩
  down := id
  drained := fun _ h => h

theorem Tidy.refl (k : Call) : Tidy k k := by
  have h := @tidy_emit k [] [] (by simp) (by simp) (by simp)
  rwa [emit_nil] at h

theorem not_mem_completions (k : Call) : .shutdownInLoop ∉ k.completions := by
  unfold completions
  split <;> simp

theorem not_mem_completed (k : Call) (data : Bytes) (w : WriteResult) :
    .shutdownInLoop ∉ k.completed data w := by
  unfold completed
  split
  · exact not_mem_completions k
  · exact List.not_mem_nil

theorem not_mem_signals (k : Call) (data : Bytes) (w : WriteResult) :
    .shutdownInLoop ∉ k.signals data w := by
  unfold signals overflows
  split
  · exact not_mem_completed k data w
  · split <;> simp

theorem tidy_handleWrite {w : WriteResult} (hw : k.conn.channel.isWriting ↔ k.conn.unsent ≠ [])
    (h : k.handleWrite w = .ok k') : Tidy k k' := by
  by_cases hwriting : k.conn.channel.isWriting
  · have hmute : ExecutesSent [.write k.conn.unsent w] := fun _ => rfl
    obtain ⟨b, -, ⟨rfl, -⟩ | ⟨hnil, p, -, rfl⟩⟩ := handleWrite_ok hwriting h
    · exact ⟨⟨_, rfl, hmute, by simp⟩, ⟨[], rfl, by simp⟩, id,
        fun _ hempty => absurd hempty (hw.mp hwriting)⟩
    · -- drained: a half-close that waited finds nothing left
      have hunsent : ((((k.emit [.write k.conn.unsent w] []).setOutput b).drained p)).conn.unsent =
          [] := hnil
      refine ⟨⟨_, List.append_assoc _ _ _, hmute.append ?_, fun unsent hmem => ⟨?_, hunsent⟩⟩,
        ⟨_, List.append_assoc _ _ _, fun hmem => absurd hmem ?_⟩, id, fun _ _ => hunsent⟩
      · refine executesSent_of_mute fun e he => ?_
        split at he <;> simp at he
        rw [he]
        rfl
      · rcases List.mem_append.mp hmem with hmem | hmem
        · simp at hmem
        · split at hmem
          · next hstate => exact fun hup => absurd (hstate.symm.trans hup) (by decide)
          · cases hmem
      · exact not_mem_completions _
  · rw [handleWrite_of_not_isWriting hwriting] at h
    cases h
    exact .refl k

theorem tidy_shutdownInLoop (hw : k.conn.channel.isWriting ↔ k.conn.unsent ≠ [])
    (hstate : k.conn.state ≠ .kConnected) : Tidy k k.shutdownInLoop := by
  rw [shutdownInLoop_eq]
  refine ⟨⟨_, rfl, ?_, fun unsent hmem => ⟨hstate, ?_⟩⟩, ⟨[], rfl, by simp⟩, id, fun _ h => h⟩
  · unfold halfClose
    split
    · exact fun _ => rfl
    · exact fun _ => rfl
  · -- it is issued only where nothing is watched for
    unfold halfClose at hmem
    split at hmem
    · cases hmem
    · next hidle =>
        by_contra hne
        exact hidle (hw.mpr hne)

theorem Tidy.of_setState (state : StateE) (es : List ConnEvent) (hstate : state ≠ .kConnected)
    (hmute : ∀ e ∈ es, e.isMute = true) (hno : ∀ unsent, .shutdownWrite unsent ∉ es)
    (h : Tidy ((k.setState state).emit es []) k') : Tidy k k' := by
  obtain ⟨⟨es', hes', hexe, hend⟩, ⟨fs, hfs, hq⟩, hdown, hover⟩ := h
  refine ⟨⟨es ++ es', hes'.trans (List.append_assoc _ _ _),
    (executesSent_of_mute hmute).append hexe, fun unsent hmem => ?_⟩, ⟨fs, ?_, hq⟩,
    fun _ => hdown hstate, fun _ hempty => hover hstate hempty⟩
  · exact (List.mem_append.mp hmem).elim (fun hin => absurd hin (hno unsent)) (hend unsent)
  · rw [hfs]
    show k.queued ++ [] ++ fs = k.queued ++ fs
    rw [List.append_nil]

theorem tidy_shutdown (hw : k.conn.channel.isWriting ↔ k.conn.unsent ≠ []) (t : ThreadId) :
    Tidy k (k.shutdown t) := by
  unfold shutdown
  simp only [note_eq, queueInLoop_eq]
  split
  · refine Tidy.of_setState .kDisconnecting [.shutdown t] (by decide)
      (by simp [ConnEvent.isMute]) (by simp) ?_
    split
    · exact tidy_shutdownInLoop hw (by simp [setState])
    · exact ⟨⟨[], rfl, fun _ => rfl, by simp⟩, ⟨_, rfl, fun _ => by simp [setState]⟩, id,
        fun _ h => h⟩
  · exact .refl k

theorem buffer_state {left : Bytes} (h : k.buffer left = .ok k') :
    k'.conn.state = k.conn.state := by
  unfold buffer at h
  split at h
  · cases h
    rfl
  · rcases appendOutput_ok h with ⟨-, rfl⟩ | ⟨-, p, -, rfl⟩ <;> rfl

/-- A message sent and executed while the connection is up. -/
theorem tidy_executes (es : List ConnEvent) {fs : List ConnFunctor}
    (hup : k.conn.state = .kConnected) (hnotes : k'.notes = k.notes ++ es)
    (hqueued : k'.queued = k.queued ++ fs) (hexe : ExecutesSent es)
    (hno : ∀ unsent, .shutdownWrite unsent ∉ es) (hfs : .shutdownInLoop ∉ fs) : Tidy k k' where
  notes := ⟨es, hnotes, hexe, fun unsent hmem => absurd hmem (hno unsent)⟩
  queued := ⟨fs, hqueued, fun hmem => absurd hmem hfs⟩
  down := fun hne => absurd hup hne
  drained := fun hne => absurd hup hne

theorem tidy_send {t : ThreadId} {message : Bytes} {w : WriteResult}
    (ht : k.conn.isInLoopThread t) (h : k.send t message w = .ok k') : Tidy k k' := by
  by_cases hup : k.conn.state = .kConnected
  · unfold send at h
    rw [if_pos hup, note_eq] at h
    dsimp only at h
    rw [if_pos (show (k.emit _ _).conn.isInLoopThread t from ht)] at h
    obtain ⟨hnotes, hqueued⟩ := sendInLoop_record h
    refine tidy_executes (.send t message :: .sendInLoop t message :: k.writes message w) hup ?_
      (hqueued.trans (by rw [emit_queued, List.append_nil])) ?_ ?_
      (not_mem_completed _ message w)
    · exact hnotes.trans (List.append_assoc _ _ _)
    · intro _
      show [] ++ (message ++ executedBytes (k.writes message w)) =
        (message :: sentMessages (k.writes message w)).flatten
      rw [executedBytes_writes, sentMessages_writes]
      simp
    · intro unsent hmem
      simp only [List.mem_cons, reduceCtorEq, false_or] at hmem
      exact not_shutdownWrite_writes k message w unsent hmem
  · rw [send_of_ne hup] at h
    cases h
    exact .refl k

theorem tidy_sendBuffer {t : ThreadId} {data : Bytes} {w : WriteResult}
    (h : k.sendBuffer t data w = .ok k') : Tidy k k' := by
  by_cases hup : k.conn.state = .kConnected
  · unfold sendBuffer at h
    rw [note_eq] at h
    split at h
    · obtain ⟨hnotes, hqueued⟩ := sendBufferInLoop_record
        (by rw [emit_conn, hup]; exact StateE.noConfusion) h
      refine tidy_executes (.send t data ::
        .sendBufferInLoop t data (if k.Direct then some w else none) :: k.writes data w) hup ?_
        (hqueued.trans (by rw [emit_queued, List.append_nil])) ?_ ?_ (not_mem_signals _ data w)
      · exact hnotes.trans (List.append_assoc _ _ _)
      · intro hkept
        have hwhole : ConnEvent.executed
            (.sendBufferInLoop t data (if k.Direct then some w else none)) = data := by
          have hgive := hkept (.sendBufferInLoop t data (if k.Direct then some w else none))
            (by simp)
          refine if_neg fun hfault => ?_
          rcases hfault with heq | heq <;> rw [heq] at hgive <;> cases hgive
        show [] ++ (ConnEvent.executed _ ++ executedBytes (k.writes data w)) =
          (data :: sentMessages (k.writes data w)).flatten
        rw [hwhole, executedBytes_writes, sentMessages_writes]
        simp
      · intro unsent hmem
        simp only [List.mem_cons, reduceCtorEq, false_or] at hmem
        exact not_shutdownWrite_writes k data w unsent hmem
    · cases h
      exact .refl k
  · rw [sendBuffer_of_ne hup] at h
    cases h
    exact .refl k

end Call

namespace Session

variable {s s' : Session} {a : SessionAction} {t : ConnTask} {ts : List ConnTask} {k : Call}

/-- The output side of a connection whose users call it in the thread of its loop. -/
structure InLoopOutput (s : Session) : Prop where
  executes : ExecutesSent s.history
  waiting : .shutdownInLoop ∈ s.functors → s.conn.state ≠ .kConnected
  ended : ∀ unsent, .shutdownWrite unsent ∈ s.history →
    s.conn.state ≠ .kConnected ∧ s.conn.unsent = []

theorem InLoopOutput.init (h : init s) : s.InLoopOutput := by
  obtain ⟨self, loop, name, sockfd, hwm, wc, p, phase, atOnce, -, -, rfl⟩ := h
  refine ⟨fun _ => rfl, fun hmem => ?_, by simp [opened]⟩
  cases atOnce <;> simp [opened, Session.functors, ConnTask.functor?] at hmem

theorem InLoopOutput.pop (h : s.InLoopOutput) (htodo : s.todo = t :: ts) :
    (s.pop ts).InLoopOutput := by
  refine ⟨h.executes, fun hmem => h.waiting ?_, h.ended⟩
  cases t with
  | functor f =>
      rw [functors_of_functor htodo]
      exact List.mem_cons_of_mem _ hmem
  | event _ _ | removeChannel => rwa [functors_of_not_functor htodo rfl]

theorem InLoopOutput.commit (h : s.InLoopOutput) (hk : Call.Tidy s.call k)
    (hrest : k.rest.filterMap ConnTask.functor? = []) : (s.commit k).InLoopOutput := by
  obtain ⟨⟨es, hes, hexe, hend⟩, ⟨fs, hfs, hq⟩, hdown, hover⟩ := hk
  have hnotes : k.notes = es := hes
  have hqueued : k.queued = fs := hfs
  refine ⟨?_, fun hmem => ?_, fun unsent hmem => ?_⟩
  · rw [commit_history, hnotes]
    exact h.executes.append hexe
  · rw [functors_commit hrest, hqueued] at hmem
    exact (List.mem_append.mp hmem).elim (fun hin => hdown (h.waiting hin)) hq
  · rw [commit_history, hnotes] at hmem
    rcases List.mem_append.mp hmem with hmem | hmem
    · obtain ⟨hstate, hempty⟩ := h.ended unsent hmem
      exact ⟨hdown hstate, hover hstate hempty⟩
    · exact hend unsent hmem

/-- Steps that note nothing and leave the output side alone. -/
theorem InLoopOutput.of_same (h : s.InLoopOutput) (hhist : s'.history = s.history)
    (hf : .shutdownInLoop ∈ s'.functors → .shutdownInLoop ∈ s.functors)
    (hstate : s'.conn.state = s.conn.state) (hunsent : s'.conn.unsent = s.conn.unsent) :
    s'.InLoopOutput := by
  refine ⟨by rw [hhist]; exact h.executes, fun hmem => ?_, fun unsent hmem => ?_⟩
  · rw [hstate]
    exact h.waiting (hf hmem)
  · rw [hstate, hunsent]
    exact h.ended unsent (hhist ▸ hmem)

theorem InLoopOutput.runTask (h : s.InLoopOutput) (hun : s.Unqueued) (ho : s.Orderly)
    (hwatch : s.Watching) (hs : s.Streams) (hopen : ¬ s.Closed) {r : Buffer.ReadResult}
    {w : WriteResult} (htodo : s.todo = t :: ts) (hk : s.call.runTask t r w = .ok k)
    (hopen' : ¬ ((s.pop ts).commit k).Closed) : ((s.pop ts).commit k).InLoopOutput := by
  have hpop := h.pop htodo
  have hw : s.call.conn.channel.isWriting ↔ s.call.conn.unsent ≠ [] := hs.flow.writing
  -- a task that calls `handleClose` ends the part of the run this is about
  have hclose : s.call.handleClose ≠ .ok k := by
    intro hk
    obtain ⟨-, p, -, rfl⟩ := Call.handleClose_ok hk
    exact hopen' (List.mem_append_right _ List.mem_cons_self)
  have hmute : ∀ {es : List ConnEvent}, (∀ e ∈ es, e.isMute = true) →
      (∀ unsent, .shutdownWrite unsent ∉ es) →
      ((s.pop ts).commit (s.call.emit es [])).InLoopOutput :=
    fun hes hno => hpop.commit (Call.tidy_emit hes hno List.not_mem_nil) rfl
  cases t with
  | event revents cb =>
      cases cb with
      | close => exact absurd hk hclose
      | error =>
          cases hk
          exact hpop.commit (.refl _) rfl
      | write => exact hpop.commit (Call.tidy_handleWrite hw hk) (quiet_rest (Call.handleWrite_quiet hk))
      | read =>
          cases r with
          | error =>
              cases hk
              exact hpop.commit (.refl _) rfl
          | data bytes =>
              cases bytes with
              | nil => exact absurd hk hclose
              | cons b bs =>
                  cases hk
                  rw [Call.note_eq]
                  exact hpop.commit ⟨⟨_, rfl, executesSent_of_mute (by simp [ConnEvent.isMute]),
                    by simp⟩, ⟨[], rfl, by simp⟩, id, fun _ hempty => hempty⟩ rfl
  | functor f =>
      cases f with
      | connectEstablished =>
          -- nothing has happened before
          obtain ⟨hstate, p, -, rfl⟩ := Call.connectEstablished_ok hk
          have hawaits := ho.waiting.1 hstate
          obtain ⟨-, rfl, hpend⟩ := hawaits.eq_of_todo htodo
          refine ⟨?_, fun hmem => ?_, fun unsent hmem => ?_⟩
          · rw [commit_history, pop_history, hawaits.history]
            exact executesSent_of_mute (by simp [ConnEvent.isMute, call, Call.watch, Call.setState])
          · rw [functors_commit rfl] at hmem
            simp [Session.functors, Session.pop, hpend, call, Call.watch, Call.setState] at hmem
          · rw [commit_history, pop_history, hawaits.history] at hmem
            simp [call, Call.watch, Call.setState] at hmem
      | connectDestroyed =>
          -- it was queued for a `closeCallback`
          refine absurd (ho.accounts.closed ?_) hopen
          unfold gone
          rw [functors_of_functor htodo, List.count_cons_self]
          omega
      | sendInLoop sender message =>
          have hqueued := hun sender
          rw [functors_of_functor htodo] at hqueued
          simp [queuedBy, ConnFunctor.queuedBy] at hqueued
      | shutdownInLoop =>
          cases hk
          refine hpop.commit (Call.tidy_shutdownInLoop hw (h.waiting ?_))
            (quiet_rest (Call.shutdownInLoop_quiet _))
          rw [functors_of_functor htodo]
          exact List.mem_cons_self
      | writeCompleteCallback | highWaterMarkCallback len =>
          cases hk
          rw [Call.note_eq]
          exact hmute (by simp [ConnEvent.isMute]) (by simp)
  | removeChannel =>
      -- the channel is watched for reading, which `removeChannel` refuses
      obtain ⟨ch, p, hrem, rfl⟩ := Call.removeChannel_ok hk
      obtain ⟨hnone, -, -⟩ := ho.registered.removeChannel hrem
      obtain ⟨-, hread⟩ := hwatch (ho.waiting.ne_connecting htodo (by simp)) hopen
      rw [hnone] at hread
      exact absurd hread (by decide)

theorem InLoopOutput.step (h : s.InLoopOutput) (hr : system.ReachableVia SendsInLoop s)
    (hok : s.SendsInLoop a) (hstep : system.Step s a s') (hopen' : ¬ s'.Closed) :
    s'.InLoopOutput := by
  have hopen : ¬ s.Closed := fun hc => hopen' (hc.move (move_of_step hstep))
  have ho := orderly_of_reachable hr.reachable
  have hs := streams_of_reachable hr.reachable hopen
  obtain ⟨hen, hex⟩ := hstep
  cases a with
  | poll revents =>
      cases revents with
      | none =>
          cases hex
          exact h.of_same rfl id rfl rfl
      | some revents =>
          cases hex
          refine h.of_same rfl (fun hmem => ?_) rfl rfl
          unfold Session.functors at hmem ⊢
          rw [functors_eventTasks] at hmem
          exact List.mem_append_right _ hmem
  | task r w =>
      obtain ⟨t, ts, k, htodo, hk, rfl⟩ := exec_task_eq_ok hen hex
      exact h.runTask (unqueued_of_reachable hr) ho (watching_of_reachable hr.reachable) hs hopen
        htodo hk hopen'
  | takeFunctors =>
      cases hex
      refine h.of_same rfl (fun hmem => ?_) rfl rfl
      unfold Session.functors at hmem ⊢
      rw [functors_map_functor, List.append_nil] at hmem
      exact List.mem_append_right _ hmem
  | send t message w =>
      obtain ⟨k, hk, hex⟩ := bind_eq_ok.mp hex
      cases hex
      exact h.commit (Call.tidy_send hok hk) (quiet_rest (Call.send_quiet hk))
  | sendBuffer t data w =>
      obtain ⟨k, hk, hex⟩ := bind_eq_ok.mp hex
      cases hex
      exact h.commit (Call.tidy_sendBuffer hk) (quiet_rest (Call.sendBuffer_quiet hk))
  | shutdown t =>
      cases hex
      exact h.commit (Call.tidy_shutdown hs.flow.writing t) (quiet_rest (Call.shutdown_quiet _ t))
  | retrieveInput len =>
      obtain ⟨b, -, rfl⟩ := exec_retrieveInput_eq_ok.mp hex
      exact h.of_same rfl id rfl rfl
  | removeConnection =>
      -- only a connection that was closed is removed
      exact absurd (ho.accounts.closed (Nat.add_pos_left hen _)) hopen
  | setCallbacks _ _ | endIteration | others _ =>
      cases hex
      exact h.of_same rfl id rfl rfl

/-! ## Messages that are given up -/

end Session

/-- A note of the loop's own work: neither a call of the user nor a message for him. -/
def ConnEvent.isOwn : ConnEvent → Bool
  | .send _ _ | .shutdown _ | .sendBufferInLoop _ _ _ | .messageCallback _ => false
  | _ => true

theorem ConnEvent.givesUp_of_isOwn {e : ConnEvent} (h : e.isOwn = true) : e.givesUp = false := by
  cases e <;> first | rfl | cases h

namespace Call

variable {k k' : Call}

/-- The call notes its own work only. -/
def OwnWork (k k' : Call) : Prop :=
  ∃ es, k'.notes = k.notes ++ es ∧ ∀ e ∈ es, e.isOwn = true

/-- The call gives no message up. -/
def GivesNoneUp (k k' : Call) : Prop :=
  ∃ es, k'.notes = k.notes ++ es ∧ ∀ e ∈ es, e.givesUp = false

theorem OwnWork.refl (k : Call) : OwnWork k k := ⟨[], (List.append_nil _).symm, by simp⟩

theorem OwnWork.givesNoneUp (h : OwnWork k k') : GivesNoneUp k k' :=
  h.imp fun _ hes => ⟨hes.1, fun e he => ConnEvent.givesUp_of_isOwn (hes.2 e he)⟩

theorem sendInLoop_ownWork {t : ThreadId} {message : Bytes} {w : WriteResult}
    (h : k.sendInLoop t message w = .ok k') : OwnWork k k' := by
  refine ⟨_, (sendInLoop_record h).1, fun e he => ?_⟩
  rcases List.mem_cons.mp he with rfl | he
  · rfl
  · unfold writes at he
    split at he
    · rw [List.mem_singleton.mp he]
      rfl
    · cases he

theorem shutdownInLoop_ownWork (k : Call) : OwnWork k k.shutdownInLoop := by
  rw [shutdownInLoop_eq]
  refine ⟨_, rfl, ?_⟩
  unfold halfClose
  split <;> simp [ConnEvent.isOwn]

theorem handleClose_ownWork (h : k.handleClose = .ok k') : OwnWork k k' := by
  obtain ⟨-, p, -, rfl⟩ := handleClose_ok h
  exact ⟨_, rfl, by simp [ConnEvent.isOwn]⟩

theorem handleWrite_ownWork {w : WriteResult} (h : k.handleWrite w = .ok k') : OwnWork k k' := by
  by_cases hw : k.conn.channel.isWriting
  · obtain ⟨b, -, ⟨rfl, -⟩ | ⟨-, p, -, rfl⟩⟩ := handleWrite_ok hw h
    · exact ⟨_, rfl, by simp [ConnEvent.isOwn]⟩
    · refine ⟨_, List.append_assoc _ _ _, fun e he => ?_⟩
      rcases List.mem_append.mp he with he | he
      · rw [List.mem_singleton.mp he]
        rfl
      · split at he
        · rw [List.mem_singleton.mp he]
          rfl
        · cases he
  · rw [handleWrite_of_not_isWriting hw] at h
    cases h
    exact .refl k

/-- A task reads a message, or it does the loop's own work. -/
theorem runTask_notes {t : ConnTask} {r : Buffer.ReadResult} {w : WriteResult}
    (h : k.runTask t r w = .ok k') :
    (∃ revents b bs, t = .event revents .read ∧ r = .data (b :: bs)) ∨ OwnWork k k' := by
  cases t with
  | removeChannel =>
      obtain ⟨ch, p, -, rfl⟩ := removeChannel_ok h
      exact .inr (.refl _)
  | event revents cb =>
      cases cb with
      | close => exact .inr (handleClose_ownWork h)
      | write => exact .inr (handleWrite_ownWork h)
      | error =>
          cases h
          exact .inr (.refl k)
      | read =>
          cases r with
          | error =>
              cases h
              exact .inr (.refl k)
          | data bytes =>
              cases bytes with
              | nil => exact .inr (handleClose_ownWork h)
              | cons b bs => exact .inl ⟨revents, b, bs, rfl, rfl⟩
  | functor f =>
      right
      cases f with
      | connectEstablished =>
          obtain ⟨-, p, -, rfl⟩ := connectEstablished_ok h
          exact ⟨_, rfl, by simp [ConnEvent.isOwn]⟩
      | connectDestroyed =>
          obtain ⟨-, p, -, rfl⟩ := connectDestroyed_ok h
          exact ⟨_, rfl, by simp [ConnEvent.isOwn]⟩
      | sendInLoop sender message => exact sendInLoop_ownWork h
      | shutdownInLoop =>
          cases h
          exact shutdownInLoop_ownWork k
      | writeCompleteCallback | highWaterMarkCallback len =>
          cases h
          exact ⟨_, rfl, by simp [ConnEvent.isOwn]⟩

theorem runTask_givesNoneUp {t : ConnTask} {r : Buffer.ReadResult} {w : WriteResult}
    (h : k.runTask t r w = .ok k') : GivesNoneUp k k' := by
  rcases runTask_notes h with ⟨revents, b, bs, rfl, rfl⟩ | hown
  · cases h
    exact ⟨_, rfl, by simp [ConnEvent.givesUp]⟩
  · exact hown.givesNoneUp

theorem GivesNoneUp.of_emit {es : List ConnEvent} {fs : List ConnFunctor}
    (hes : ∀ e ∈ es, e.givesUp = false) (h : GivesNoneUp (k.emit es fs) k') : GivesNoneUp k k' := by
  obtain ⟨es', hes', hq⟩ := h
  refine ⟨es ++ es', hes'.trans (List.append_assoc _ _ _), fun e he => ?_⟩
  exact (List.mem_append.mp he).elim (hes e) (hq e)

theorem send_givesNoneUp {t : ThreadId} {message : Bytes} {w : WriteResult}
    (h : k.send t message w = .ok k') : GivesNoneUp k k' := by
  unfold send at h
  simp only [note_eq, queueInLoop_eq, emit_emit] at h
  split at h
  · split at h
    · exact .of_emit (by simp [ConnEvent.givesUp]) (sendInLoop_ownWork h).givesNoneUp
    · cases h
      exact ⟨_, rfl, by simp [ConnEvent.givesUp]⟩
  · cases h
    exact (OwnWork.refl k).givesNoneUp

theorem shutdown_givesNoneUp (k : Call) (t : ThreadId) : GivesNoneUp k (k.shutdown t) := by
  unfold shutdown
  simp only [note_eq, queueInLoop_eq, emit_emit]
  split
  · split
    · exact @GivesNoneUp.of_emit (k.setState .kDisconnecting) _ _ [] (by simp [ConnEvent.givesUp])
        (shutdownInLoop_ownWork _).givesNoneUp
    · exact ⟨_, rfl, by simp [ConnEvent.givesUp]⟩
  · exact (OwnWork.refl k).givesNoneUp

/-- A message is given up by a `send` that finds the connection up, right before the `::write` that
fails. -/
theorem sendBuffer_givesUp {t : ThreadId} {data : Bytes} {w : WriteResult}
    (h : k.sendBuffer t data w = .ok k') :
    GivesNoneUp k k' ∨ k.conn.state = .kConnected ∧ w.isFault = true ∧
      k'.notes = k.notes ++ [.send t data, .sendBufferInLoop t data (some w), .write data w] := by
  by_cases hup : k.conn.state = .kConnected
  · unfold sendBuffer at h
    rw [note_eq] at h
    split at h
    · obtain ⟨hnotes, -⟩ := sendBufferInLoop_record
        (by rw [emit_conn, hup]; exact StateE.noConfusion) h
      rw [emit_notes, List.append_assoc] at hnotes
      by_cases hd : (k.emit [.send t data] []).Direct
      · rw [if_pos hd, writes, if_pos hd] at hnotes
        cases hfault : w.isFault with
        | true => exact .inr ⟨hup, rfl, hnotes⟩
        | false => exact .inl ⟨_, hnotes, by simp [ConnEvent.givesUp, hfault]⟩
      · rw [if_neg hd, writes, if_neg hd] at hnotes
        exact .inl ⟨_, hnotes, by simp [ConnEvent.givesUp]⟩
    · cases h
      exact .inl (OwnWork.refl k).givesNoneUp
  · rw [sendBuffer_of_ne hup] at h
    cases h
    exact .inl (OwnWork.refl k).givesNoneUp

end Call

namespace Session

variable {s s' : Session} {a : SessionAction}

/-- A step that gives a message up is a `send(Buffer *)` on a connection that is up. -/
theorem givesUp_step {es : List ConnEvent} (h : system.Step s a s')
    (hist : s'.history = s.history ++ es) :
    (∀ e ∈ es, e.givesUp = false) ∨ s.conn.state = .kConnected ∧ ∃ t data w, w.isFault = true ∧
      es = [.send t data, .sendBufferInLoop t data (some w), .write data w] := by
  obtain ⟨hen, hex⟩ := h
  have hsilent : s'.history = s.history → ∀ e ∈ es, e.givesUp = false := by
    intro heq
    rw [heq, List.self_eq_append_right] at hist
    simp [hist]
  have hnone : ∀ {k : Call}, Call.GivesNoneUp s.call k → s'.history = s.history ++ k.notes →
      ∀ e ∈ es, e.givesUp = false := by
    rintro k ⟨es', hes', hno⟩ heq
    rw [heq, List.append_cancel_left_eq] at hist
    rw [← hist, show k.notes = es' from hes']
    exact hno
  cases a with
  | poll revents => cases revents <;> cases hex <;> exact .inl (hsilent rfl)
  | task r w =>
      obtain ⟨t, ts, k, -, hk, rfl⟩ := exec_task_eq_ok hen hex
      exact .inl (hnone (Call.runTask_givesNoneUp hk) rfl)
  | send t message w =>
      obtain ⟨k, hk, hex⟩ := bind_eq_ok.mp hex
      cases hex
      exact .inl (hnone (Call.send_givesNoneUp hk) rfl)
  | sendBuffer t data w =>
      obtain ⟨k, hk, hex⟩ := bind_eq_ok.mp hex
      cases hex
      rcases Call.sendBuffer_givesUp hk with hno | ⟨hup, hfault, hnotes⟩
      · exact .inl (hnone hno rfl)
      · refine .inr ⟨hup, t, data, w, hfault, ?_⟩
        exact (List.append_cancel_left (hist.symm.trans (congrArg (s.history ++ ·) hnotes)))
  | shutdown t =>
      cases hex
      exact .inl (hnone (Call.shutdown_givesNoneUp _ t) rfl)
  | retrieveInput len =>
      obtain ⟨b, -, rfl⟩ := exec_retrieveInput_eq_ok.mp hex
      exact .inl (hsilent rfl)
  | removeConnection =>
      obtain ⟨u, -, hex⟩ := bind_eq_ok.mp hex
      cases hex
      exact .inl (hsilent rfl)
  | takeFunctors | setCallbacks _ _ | endIteration | others _ =>
      cases hex
      exact .inl (hsilent rfl)

/-! ## Whole runs -/

theorem inLoopOutput_of_reachable (h : system.ReachableVia SendsInLoop s) (hopen : ¬ s.Closed) :
    s.InLoopOutput := by
  induction h with
  | init hinit => exact .init hinit
  | @step s s' a hr hok hstep ih =>
      have hs : ¬ s.Closed := fun hc => hopen (hc.move (move_of_step hstep))
      exact (ih hs).step hr hok hstep hopen

end Session

end MiniMuduo
