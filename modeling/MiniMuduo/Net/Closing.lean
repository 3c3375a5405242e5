import MiniMuduo.Net.Lifecycle

/-!
# After `handleClose`

`handleClose` takes the channel out of the kernel's interest set but leaves `state_` alone, and
`connectDestroyed` comes later, through the loop of the owner. Two things can happen in between, and
one of them even after `connectDestroyed`:

* a `sendInLoop` that leaves bytes unsent has the channel watched again (`LeavesUnsent`);
* the read callback of the `handleEvent` call that closed the connection for `POLLHUP` reads the end
  of the stream and closes it again (`ReadsEndAfterHangup`).

Without them a connection is closed once (`closedOnce_of_reachable`), and without the first a
destroyed connection stays out of the poller (`not_inPoller_of_destroyed`).
-/

namespace MiniMuduo

namespace Session

variable {s s' : Session} {a : SessionAction} {ts : List ConnTask} {t : ConnTask} {k : Call}

/-- `handleClose` has run. -/
def Closed (s : Session) : Prop := .closeCallback ∈ s.history

instance (s : Session) : Decidable s.Closed :=
  inferInstanceAs (Decidable (_ ∈ _))

theorem closed_commit_iff (hnot : .closeCallback ∉ k.notes) :
    ((s.pop ts).commit k).Closed ↔ s.Closed := by
  unfold Closed
  rw [commit_history, List.mem_append]
  exact or_iff_left hnot

/-- What was closed stays closed. -/
theorem Closed.move (h : s.Closed) (hm : Move s a s') : s'.Closed := by
  cases hm with
  | up _ _ | down _ _ | removeChannel _ _ | close _ _ _ | message _ | task _ _ _ _ | user _ _ _ =>
      exact List.mem_append_left _ h
  | settings | poll _ _ _ | phase | takeFunctors _ | removeConnection _ _ | others _ => exact h

/-- A removal that was asked for, and a `connectDestroyed` that waits or has run, answer a
`closeCallback`. -/
theorem Accounts.closed (h : s.Accounts) (hpos : 0 < s.removing + s.gone) : s.Closed :=
  List.count_pos_iff.mp (by rw [h.closes]; exact hpos)

/-! ## Until then it is watched for reading -/

/-- A connection that is up and has not been closed is watched for reading. -/
def Watching (s : Session) : Prop :=
  s.conn.state ≠ .kConnecting → ¬ s.Closed →
    s.conn.channel.index = .kAdded ∧ Channel.kReadEvent ⊆ s.conn.channel.events

theorem sdiff_ne_empty {events : PollEvents} (h : Channel.kReadEvent ⊆ events) :
    events \ Channel.kWriteEvent ≠ ∅ := by
  intro hempty
  have hsub := h.trans (Finset.sdiff_eq_empty_iff_subset.mp hempty)
  exact absurd hsub (by decide)

theorem subset_of_sdiff_eq {events events' : PollEvents} (h : Channel.kReadEvent ⊆ events)
    (heq : events' \ Channel.kWriteEvent = events \ Channel.kWriteEvent) :
    Channel.kReadEvent ⊆ events' := by
  intro f hf
  have hmem : f ∈ events \ Channel.kWriteEvent := by
    refine Finset.mem_sdiff.mpr ⟨h hf, ?_⟩
    revert hf
    cases f <;> decide
  rw [← heq] at hmem
  exact (Finset.mem_sdiff.mp hmem).1

theorem Watching.quiet (h : s.Watching) (hk : s.call.Quiet k)
    (hne : k.conn.state ≠ .kConnecting → s.conn.state ≠ .kConnecting) :
    ((s.pop ts).commit k).Watching := by
  intro hstate hopen
  rw [closed_commit_iff (quiet_notes hk)] at hopen
  obtain ⟨hindex, hread⟩ := h (hne hstate) hopen
  exact ⟨hk.index hindex (sdiff_ne_empty hread), subset_of_sdiff_eq hread hk.interest⟩

theorem Watching.init (h : init s) : s.Watching := by
  obtain ⟨self, loop, name, sockfd, hwm, wc, p, phase, atOnce, hc, hi, rfl⟩ := h
  exact fun hstate => absurd rfl hstate

theorem Watching.move (h : s.Watching) (ho : s.Orderly) (hm : Move s a s') : s'.Watching := by
  cases hm with
  | up htodo hk =>
      obtain ⟨hstate, p, hp, rfl⟩ := Call.connectEstablished_ok hk
      have hindex : s.conn.channel.index = .kNew := (ho.waiting.1 hstate).index
      intro _ _
      refine ⟨?_, Finset.subset_union_right⟩
      show EPoller.indexAfter s.conn.channel.index _ = _
      rw [hindex]
      rfl
  | down htodo hk =>
      -- a `connectDestroyed` that was queued is the answer to a `closeCallback`
      intro _ hopen
      refine absurd (List.mem_append_left _ (ho.accounts.closed ?_)) hopen
      unfold gone
      rw [functors_of_functor htodo, List.count_cons_self]
      omega
  | removeChannel htodo hk =>
      obtain ⟨ch, p, hrem, rfl⟩ := Call.removeChannel_ok hk
      obtain ⟨hnone, -, -⟩ := ho.registered.removeChannel hrem
      intro hstate hopen
      obtain ⟨-, hread⟩ := h hstate fun hc => hopen (List.mem_append_left _ hc)
      rw [hnone] at hread
      exact absurd hread (by decide)
  | close htodo hcb hk =>
      obtain ⟨-, p, hp, rfl⟩ := Call.handleClose_ok hk
      exact fun _ hopen => absurd (List.mem_append_right _ List.mem_cons_self) hopen
  | message htodo => exact fun hstate hopen => h hstate fun hc => hopen (List.mem_append_left _ hc)
  | task htodo ht hk hreg =>
      refine h.quiet hk fun _ => ho.waiting.ne_connecting htodo fun heq => ?_
      exact ht.functor.1 (by rw [heq]; rfl)
  | user hup hk hreg =>
      refine (show ((s.pop s.todo).commit _).Watching from h.quiet hk fun hne hcon => ?_)
      rw [hup (by rw [hcon]; exact StateE.noConfusion)] at hne
      exact hne hcon
  | settings | poll _ _ _ | phase | takeFunctors _ | removeConnection _ _ | others _ => exact h

theorem watching_of_reachable (h : system.Reachable s) : s.Watching := by
  refine StepSystem.ReachableVia.invariant (fun s hs => .init hs) (fun s a s' hr hs _ hstep => ?_) h
  exact hs.move (orderly_of_reachable hr) (move_of_step hstep)

/-! ## Closed once -/

/-- The step reads the end of the stream in a `handleEvent` call made with `POLLHUP` and without
`POLLIN`. -/
def ReadsEndAfterHangup (s : Session) : SessionAction → Prop
  | .task (.data []) _ =>
      match s.todo with
      | .event revents .read :: _ => .POLLHUP ∈ revents ∧ .POLLIN ∉ revents
      | _ => False
  | _ => False

instance (s : Session) : ∀ a, Decidable (s.ReadsEndAfterHangup a)
  | .task (.data []) _ =>
      match h : s.todo with
      | .event revents .read :: _ =>
          decidable_of_iff (.POLLHUP ∈ revents ∧ .POLLIN ∉ revents) (by rw [ReadsEndAfterHangup, h])
      | [] | .event _ .close :: _ | .event _ .error :: _ | .event _ .write :: _ | .functor _ :: _
      | .removeChannel :: _ => .isFalse (by simp [ReadsEndAfterHangup, h])
  | .task (.data (_ :: _)) _ | .task .error _ | .poll _ | .takeFunctors | .endIteration
  | .send _ _ _ | .sendBuffer _ _ _ | .shutdown _ | .retrieveInput _ | .setCallbacks _ _
  | .removeConnection | .others _ => inferInstanceAs (Decidable False)

/-- The step neither has a closed connection watched again nor closes it a second time. -/
def ClosesCleanly (s : Session) (a : SessionAction) : Prop :=
  (s.Closed → ¬ s.LeavesUnsent a) ∧ ¬ s.ReadsEndAfterHangup a

instance (s : Session) (a : SessionAction) : Decidable (s.ClosesCleanly a) :=
  inferInstanceAs (Decidable (_ ∧ _))

/-- A closed connection is interested in nothing, not watched except in the middle of
`connectDestroyed`, and has no callback ahead that would close it, other than a read after
`POLLHUP`. -/
structure Shut (s : Session) : Prop where
  events : s.conn.channel.events = Channel.kNoneEvent
  index : s.conn.channel.index = .kAdded → ∃ ts, s.todo = .removeChannel :: ts
  tasks : ∀ revents cb, .event revents cb ∈ s.todo →
    cb ≠ .close ∧ (cb = .read → .POLLHUP ∈ revents ∧ .POLLIN ∉ revents)

structure ClosedOnce (s : Session) : Prop where
  once : s.history.count .closeCallback ≤ 1
  shut : s.Closed → s.Shut

/-- The callbacks after the one that closed the connection. -/
theorem tasks_after_close (ht : s.InTurn) {revents : PollEvents} {cb : ChannelCallback}
    (htodo : s.todo = .event revents cb :: ts) (hcb : cb = .close ∨ cb = .read) :
    ∀ revents' cb', .event revents' cb' ∈ ts →
      cb' ≠ .close ∧ (cb' = .read → .POLLHUP ∈ revents' ∧ .POLLIN ∉ revents') := by
  rcases ht with ⟨r, hsuf⟩ | hno
  · rw [htodo] at hsuf
    -- `ts` is what follows `cb` in the order of the callbacks
    obtain ⟨l, hl, hmap⟩ : ∃ l, (cb :: l) <:+ Channel.handleEvent r ∧
        ts = l.map (.event r) ∧ revents = r := by
      obtain ⟨pre, hpre⟩ := hsuf
      obtain ⟨l₁, l₂, hsplit, -, hl₂⟩ := List.map_eq_append_iff.mp hpre.symm
      obtain ⟨cb₁, l, rfl, hcb₁, hts⟩ := List.map_eq_cons_iff.mp hl₂
      cases hcb₁
      exact ⟨l, ⟨l₁, hsplit.symm⟩, hts.symm, rfl⟩
    obtain ⟨rfl, rfl⟩ := hmap
    have horder := hl.sublist.trans (Channel.handleEvent_sublist revents)
    intro revents' cb' hmem
    obtain ⟨cb₂, hmem₂, heq⟩ := List.mem_map.mp hmem
    cases heq
    rcases hcb with rfl | rfl
    · have hsub : l.Sublist [.error, .read, .write] := List.cons_sublist_cons.mp horder
      have hin := hsub.subset hmem₂
      refine ⟨fun hclose => by rw [hclose] at hin; simp at hin, fun _ => ?_⟩
      exact Channel.hangup_of_close_mem (hl.subset List.mem_cons_self)
    · have hsub : l.Sublist [ChannelCallback.write] := by
        have h₁ := (List.sublist_cons_iff.mp horder).resolve_right (by simp)
        have h₂ := (List.sublist_cons_iff.mp h₁).resolve_right (by simp)
        exact List.cons_sublist_cons.mp h₂
      have hin := List.mem_singleton.mp (hsub.subset hmem₂)
      rw [hin]
      exact ⟨ChannelCallback.noConfusion, fun h => by cases h⟩
  · intro revents' cb' hmem
    exact absurd (by rw [htodo]; exact List.mem_cons_self) (hno revents cb)

theorem Shut.tail (h : s.Shut) (htodo : s.todo = t :: ts) : ∀ revents cb, .event revents cb ∈ ts →
    cb ≠ .close ∧ (cb = .read → .POLLHUP ∈ revents ∧ .POLLIN ∉ revents) := by
  intro revents cb hmem
  exact h.tasks revents cb (by rw [htodo]; exact List.mem_cons_of_mem _ hmem)

/-- Where the head of `todo` is another task, a shut connection is not watched. -/
theorem Shut.index_ne (h : s.Shut) (htodo : s.todo = t :: ts) (ht : t ≠ .removeChannel) :
    s.conn.channel.index ≠ .kAdded := by
  intro hindex
  obtain ⟨ts', hts⟩ := h.index hindex
  rw [htodo, List.cons.injEq] at hts
  exact ht hts.1

/-- A shut connection stays so when a task other than `removeChannel` is popped. -/
theorem Shut.pop (h : s.Shut) (htodo : s.todo = t :: ts) (ht : t ≠ .removeChannel) :
    (s.pop ts).Shut :=
  ⟨h.events, fun hindex => absurd hindex (h.index_ne htodo ht), h.tail htodo⟩

theorem not_isWriting_of_none (h : s.conn.channel.events = Channel.kNoneEvent) :
    ¬ s.conn.channel.isWriting := by
  rw [Channel.isWriting_iff, h]
  exact Finset.notMem_empty _

theorem ClosedOnce.init (h : init s) : s.ClosedOnce := by
  obtain ⟨self, loop, name, sockfd, hwm, wc, p, phase, atOnce, hc, hi, rfl⟩ := h
  exact ⟨Nat.zero_le _, fun hclosed => absurd hclosed List.not_mem_nil⟩

/-- Quiet calls close nothing; they are harmless if they leave the channel of a closed connection. -/
theorem ClosedOnce.quiet (h : s.ClosedOnce) (hk : s.call.Quiet k)
    (hch : s.Closed → k.conn.channel = s.conn.channel) (hshut : s.Closed → (s.pop ts).Shut) :
    ((s.pop ts).commit k).ClosedOnce := by
  have hnotes := quiet_notes hk
  refine ⟨?_, fun hclosed => ?_⟩
  · rw [commit_history, List.count_append, List.count_eq_zero_of_not_mem hnotes]
    exact h.once
  · rw [closed_commit_iff hnotes] at hclosed
    obtain ⟨hevents, hindex, htasks⟩ := hshut hclosed
    refine ⟨?_, ?_, ?_⟩
    · rw [commit_conn, hch hclosed]
      exact hevents
    · rw [commit_conn, hch hclosed, commit_todo, hk.rest]
      exact hindex
    · rw [commit_todo, hk.rest]
      exact htasks

theorem ClosedOnce.move (h : s.ClosedOnce) (ho : s.Orderly) (hw : s.Watching)
    (hok : s.ClosesCleanly a) (hm : Move s a s') : s'.ClosedOnce := by
  cases hm with
  | up htodo hk =>
      obtain ⟨hstate, p, hp, rfl⟩ := Call.connectEstablished_ok hk
      have hempty := (ho.waiting.1 hstate).history
      refine ⟨?_, fun hclosed => ?_⟩
      · rw [commit_history, pop_history, hempty]
        exact Nat.zero_le _
      · unfold Closed at hclosed
        rw [commit_history, pop_history, hempty] at hclosed
        simp [Call.watch, Call.setState, call] at hclosed
  | down htodo hk =>
      obtain ⟨hstate, p, hp, rfl⟩ := Call.connectDestroyed_ok hk
      have hno := ho.inTurn.no_events htodo (by simp)
      refine ⟨?_, fun _ => ⟨rfl, fun _ => ⟨_, rfl⟩, fun revents cb hmem => ?_⟩⟩
      · rw [commit_history, List.count_append]
        exact h.once
      · rcases List.mem_cons.mp hmem with heq | hmem
        · cases heq
        · exact absurd hmem (hno revents cb)
  | removeChannel htodo hk =>
      obtain ⟨ch, p, hrem, rfl⟩ := Call.removeChannel_ok hk
      obtain ⟨hnone, rfl, -⟩ := ho.registered.removeChannel hrem
      refine ⟨?_, fun hclosed => ?_⟩
      · rw [commit_history, List.count_append]
        exact h.once
      · have hshut := h.shut ((closed_commit_iff List.not_mem_nil).mp hclosed)
        exact ⟨hnone, fun hindex => ChannelIndex.noConfusion hindex, hshut.tail htodo⟩
  | @close revents cb ts k htodo hcb hk =>
      obtain ⟨hstate, p, hp, rfl⟩ := Call.handleClose_ok hk
      have hup : s.conn.state ≠ .kConnecting := ho.waiting.ne_connecting htodo (by simp)
      -- this is the first time: a closed connection has no such callback ahead of it
      have hopen : ¬ s.Closed := by
        intro hclosed
        obtain ⟨hne, hread⟩ := (h.shut hclosed).tasks revents cb
          (by rw [htodo]; exact List.mem_cons_self)
        rcases hcb with rfl | ⟨rfl, w, rfl⟩
        · exact hne rfl
        · refine hok.2 ?_
          unfold ReadsEndAfterHangup
          rw [htodo]
          exact hread rfl
      obtain ⟨hindex, -⟩ := hw hup hopen
      refine ⟨?_, fun _ => ⟨rfl, fun hadded => ?_, ?_⟩⟩
      · rw [commit_history, List.count_append, pop_history, List.count_eq_zero_of_not_mem hopen]
        exact Nat.le_refl 1
      · -- a channel that was watched is deleted
        have hdeleted : EPoller.indexAfter s.conn.channel.index Channel.kNoneEvent = .kAdded := hadded
        rw [hindex] at hdeleted
        cases hdeleted
      · exact tasks_after_close ho.inTurn htodo (hcb.imp id And.left)
  | message htodo =>
      refine ⟨?_, fun hclosed => ?_⟩
      · rw [List.count_append]
        exact h.once
      · have hshut := h.shut ((List.mem_append.mp hclosed).resolve_right (by simp))
        obtain ⟨hevents, hindex, htasks⟩ := hshut.pop htodo (by simp)
        exact ⟨hevents, hindex, htasks⟩
  | @task t ts k htodo ht hk hreg =>
      have hne : t ≠ .removeChannel := by
        rintro rfl
        exact ht
      refine h.quiet hk (fun hclosed => ?_) fun hclosed => (h.shut hclosed).pop htodo hne
      exact (hreg (hok.1 hclosed) (not_isWriting_of_none (h.shut hclosed).events)).1
  | @user k hup hk hreg =>
      refine (show ((s.pop s.todo).commit k).ClosedOnce from h.quiet hk (fun hclosed => ?_) h.shut)
      exact (hreg (hok.1 hclosed) (not_isWriting_of_none (h.shut hclosed).events)).1
  | poll htodo hi hrep =>
      refine ⟨h.once, fun hclosed => ?_⟩
      -- a closed connection is not watched
      have hindex := (ho.registered.of_interest hi).1
      obtain ⟨ts, hts⟩ := (h.shut hclosed).index hindex
      rw [htodo] at hts
      cases hts
  | takeFunctors htodo =>
      refine ⟨h.once, fun hclosed => ?_⟩
      have hshut := h.shut hclosed
      refine ⟨hshut.events, fun hindex => ?_, fun revents cb hmem => ?_⟩
      · obtain ⟨ts, hts⟩ := hshut.index hindex
        rw [htodo] at hts
        cases hts
      · obtain ⟨f, -, heq⟩ := List.mem_map.mp hmem
        cases heq
  | settings | phase | removeConnection _ _ | others _ =>
      exact ⟨h.once, fun hclosed =>
        ⟨(h.shut hclosed).events, (h.shut hclosed).index, (h.shut hclosed).tasks⟩⟩

/-- In a run that closes cleanly, the connection is closed once. -/
theorem closedOnce_of_reachable (h : system.ReachableVia ClosesCleanly s) : s.ClosedOnce := by
  refine StepSystem.ReachableVia.invariant (fun s hs => .init hs)
    (fun s a s' hr hs hok hstep => ?_) h
  exact hs.move (orderly_of_reachable hr.reachable) (watching_of_reachable hr.reachable) hok
    (move_of_step hstep)

/-! ## Out of the poller -/

/-- The channel is in `channels_` or in the interest set of the kernel. -/
def InPoller (s : Session) : Prop :=
  s.poller.channels s.conn.channel.fd = some s.conn.self ∨
    ∃ e ∈ s.poller.interest s.conn.channel.fd, e.2 = s.conn.self

/-- `connectDestroyed` has run, to its end. -/
def Destroyed (s : Session) : Prop :=
  s.conn.state = .kDisconnected ∧ .removeChannel ∉ s.todo

instance (s : Session) : Decidable s.InPoller :=
  inferInstanceAs (Decidable (_ ∨ _))

instance (s : Session) : Decidable s.Destroyed :=
  inferInstanceAs (Decidable (_ ∧ _))

/-- The step does not leave bytes of a connection that is down unsent. -/
def SendsNoneLeft (s : Session) (a : SessionAction) : Prop :=
  s.conn.state = .kDisconnected → ¬ s.LeavesUnsent a

instance (s : Session) (a : SessionAction) : Decidable (s.SendsNoneLeft a) :=
  inferInstanceAs (Decidable (_ → _))

/-- A connection that is down has an empty interest and no place in the poller, or is about to leave
it. -/
structure Down (s : Session) : Prop where
  events : s.conn.channel.events = Channel.kNoneEvent
  index : .removeChannel ∉ s.todo → s.conn.channel.index = .kNew
  head : .removeChannel ∈ s.todo → ∃ ts, s.todo = .removeChannel :: ts ∧ .removeChannel ∉ ts

structure StaysOut (s : Session) : Prop where
  down : s.conn.state = .kDisconnected → s.Down
  others : s.conn.state ≠ .kDisconnected → .removeChannel ∉ s.todo

theorem StaysOut.of_not_down (hstate : s'.conn.state ≠ .kDisconnected)
    (hno : .removeChannel ∉ s'.todo) : s'.StaysOut :=
  ⟨fun h => absurd h hstate, fun _ => hno⟩

/-- Before a task other than `removeChannel` there is none in `todo`. -/
theorem StaysOut.not_mem (h : s.StaysOut) (htodo : s.todo = t :: ts) (ht : t ≠ .removeChannel) :
    .removeChannel ∉ s.todo := by
  by_cases hstate : s.conn.state = .kDisconnected
  · intro hmem
    obtain ⟨ts', hts, -⟩ := (h.down hstate).head hmem
    rw [htodo, List.cons.injEq] at hts
    exact ht hts.1
  · exact h.others hstate

theorem StaysOut.not_mem_tail (h : s.StaysOut) (htodo : s.todo = t :: ts)
    (ht : t ≠ .removeChannel) : .removeChannel ∉ ts := by
  have hno := h.not_mem htodo ht
  rw [htodo] at hno
  exact fun hmem => hno (List.mem_cons_of_mem _ hmem)

/-- What happens to a connection that is down without touching its channel. -/
theorem StaysOut.of_same_channel (h : s.StaysOut) (hstate : s'.conn.state = s.conn.state)
    (hch : s.conn.state = .kDisconnected → s'.conn.channel = s.conn.channel)
    (hno : .removeChannel ∉ s.todo) (hno' : .removeChannel ∉ s'.todo) : s'.StaysOut := by
  refine ⟨fun hdown => ?_, fun _ => hno'⟩
  rw [hstate] at hdown
  have hd := h.down hdown
  refine ⟨by rw [hch hdown]; exact hd.events, fun _ => ?_, fun hmem => absurd hmem hno'⟩
  rw [hch hdown]
  exact hd.index hno

theorem not_mem_eventTasks (revents : PollEvents) : .removeChannel ∉ eventTasks revents := by
  intro hmem
  obtain ⟨cb, -, heq⟩ := List.mem_map.mp hmem
  cases heq

theorem StaysOut.init (h : init s) : s.StaysOut := by
  obtain ⟨self, loop, name, sockfd, hwm, wc, p, phase, atOnce, hc, hi, rfl⟩ := h
  refine .of_not_down StateE.noConfusion ?_
  cases atOnce <;> simp [opened]

theorem StaysOut.move (h : s.StaysOut) (ho : s.Orderly) (hok : s.SendsNoneLeft a)
    (hm : Move s a s') : s'.StaysOut := by
  cases hm with
  | up htodo hk =>
      obtain ⟨hstate, p, hp, rfl⟩ := Call.connectEstablished_ok hk
      exact .of_not_down StateE.noConfusion (h.not_mem_tail htodo (by simp))
  | down htodo hk =>
      obtain ⟨hstate, p, hp, rfl⟩ := Call.connectDestroyed_ok hk
      have hno := h.not_mem_tail htodo (by simp)
      refine ⟨fun _ => ⟨rfl, fun hmem => absurd List.mem_cons_self hmem, fun _ => ⟨_, rfl, hno⟩⟩,
        fun hne => absurd rfl hne⟩
  | removeChannel htodo hk =>
      obtain ⟨ch, p, hrem, rfl⟩ := Call.removeChannel_ok hk
      obtain ⟨hnone, rfl, -⟩ := ho.registered.removeChannel hrem
      have hmem : .removeChannel ∈ s.todo := by
        rw [htodo]
        exact List.mem_cons_self
      -- only `connectDestroyed` leaves a `removeChannel` to do
      have hdown : s.conn.state = .kDisconnected := by
        by_contra hne
        exact h.others hne hmem
      obtain ⟨ts', hts, hno⟩ := (h.down hdown).head hmem
      rw [htodo, List.cons.injEq] at hts
      obtain ⟨-, rfl⟩ := hts
      exact ⟨fun _ => ⟨hnone, fun _ => rfl, fun hin => absurd hin hno⟩, fun _ => hno⟩
  | close htodo hcb hk =>
      obtain ⟨hstate, p, hp, rfl⟩ := Call.handleClose_ok hk
      refine .of_not_down ?_ (h.not_mem_tail htodo (by simp))
      have hst : s.conn.state = .kConnected ∨ s.conn.state = .kDisconnecting := hstate
      show s.conn.state ≠ .kDisconnected
      rcases hst with hst | hst <;> rw [hst] <;> decide
  | message htodo =>
      exact h.of_same_channel rfl (fun _ => rfl) (h.not_mem htodo (by simp))
        (h.not_mem_tail htodo (by simp))
  | @task t ts k htodo ht hk hreg =>
      have hne : t ≠ .removeChannel := by
        rintro rfl
        exact ht
      have hno' : .removeChannel ∉ ((s.pop ts).commit k).todo := by
        rw [commit_todo, hk.rest]
        exact h.not_mem_tail htodo hne
      by_cases hdown : s.conn.state = .kDisconnected
      · refine h.of_same_channel ?_ (fun _ => ?_) (h.not_mem htodo hne) hno'
        · exact ((quiet_down_iff hk).mpr hdown).trans hdown.symm
        · exact (hreg (hok hdown) (not_isWriting_of_none (h.down hdown).events)).1
      · exact .of_not_down (fun hst => hdown ((quiet_down_iff hk).mp hst)) hno'
  | user hup hk hreg =>
      by_cases hdown : s.conn.state = .kDisconnected
      · -- the call found the connection not up and did nothing
        have hk' := hup (by rw [hdown]; exact StateE.noConfusion)
        subst hk'
        have hd := h.down hdown
        exact ⟨fun _ => ⟨hd.events, hd.index, hd.head⟩, fun hne => absurd hdown hne⟩
      · refine .of_not_down (fun hst => hdown ((quiet_down_iff hk).mp hst)) ?_
        rw [commit_todo, hk.rest]
        exact h.others hdown
  | poll htodo hi hrep =>
      exact h.of_same_channel rfl (fun _ => rfl) (by simp [htodo]) (not_mem_eventTasks _)
  | takeFunctors htodo =>
      exact h.of_same_channel rfl (fun _ => rfl) (by simp [htodo]) (by simp)
  | settings | phase | removeConnection _ _ | others _ =>
      exact ⟨fun hdown => ⟨(h.down hdown).events, (h.down hdown).index, (h.down hdown).head⟩,
        h.others⟩

theorem staysOut_of_reachable (h : system.ReachableVia SendsNoneLeft s) : s.StaysOut := by
  refine StepSystem.ReachableVia.invariant (fun s hs => .init hs)
    (fun s a s' hr hs hok hstep => ?_) h
  exact hs.move (orderly_of_reachable hr.reachable) hok (move_of_step hstep)

theorem not_inPoller_of_staysOut (h : system.ReachableVia SendsNoneLeft s) (hd : s.Destroyed) :
    s.conn.channel.events = Channel.kNoneEvent ∧ ¬ s.InPoller := by
  have hdown := (staysOut_of_reachable h).down hd.1
  obtain ⟨hch, hint⟩ :=
    (orderly_of_reachable h.reachable).registered.absent (hdown.index hd.2)
  refine ⟨hdown.events, ?_⟩
  rintro (hin | ⟨e, he, -⟩)
  · exact hch hin
  · rw [hint] at he
    cases he

/-- A destroyed connection stays destroyed. -/
theorem Destroyed.move (h : s.Destroyed) (hm : Move s a s') : s'.Destroyed := by
  obtain ⟨hdown, hno⟩ := h
  have htail : ∀ {t ts}, s.todo = t :: ts → .removeChannel ∉ ts := by
    intro t ts htodo hmem
    rw [htodo] at hno
    exact hno (List.mem_cons_of_mem _ hmem)
  cases hm with
  | up htodo hk =>
      have hstate : s.conn.state = .kConnecting := (Call.connectEstablished_ok hk).1
      rw [hdown] at hstate
      cases hstate
  | down htodo hk =>
      have hstate : s.conn.state = .kConnected ∨ s.conn.state = .kDisconnecting :=
        (Call.connectDestroyed_ok hk).1
      rw [hdown] at hstate
      rcases hstate with hstate | hstate <;> cases hstate
  | removeChannel htodo hk => exact absurd (by rw [htodo]; exact List.mem_cons_self) hno
  | close htodo hcb hk =>
      have hstate : s.conn.state = .kConnected ∨ s.conn.state = .kDisconnecting :=
        (Call.handleClose_ok hk).1
      rw [hdown] at hstate
      rcases hstate with hstate | hstate <;> cases hstate
  | message htodo => exact ⟨hdown, htail htodo⟩
  | task htodo ht hk hreg =>
      refine ⟨(quiet_down_iff hk).mpr hdown, ?_⟩
      rw [commit_todo, hk.rest]
      exact htail htodo
  | user hup hk hreg =>
      refine ⟨(quiet_down_iff hk).mpr hdown, ?_⟩
      rw [commit_todo, hk.rest]
      exact hno
  | poll htodo hi hrep => exact ⟨hdown, not_mem_eventTasks _⟩
  | takeFunctors htodo => exact ⟨hdown, by simp⟩
  | settings | phase | removeConnection _ _ | others _ => exact ⟨hdown, hno⟩

/-- A channel that is watched is in the poller, whatever is in the output buffer. -/
theorem inPoller_of_watches {k : Call} {events : PollEvents} {p : EPoller ConnId}
    (h : k.Watches events p) (hindex : (k.channelAfter events).index = .kAdded) (b : WfBuffer)
    (s : Session) : (s.commit ((k.setOutput b).watch events p)).InPoller :=
  .inl (h.agrees.channels_eq hindex)

/-- A `sendInLoop` that leaves bytes unsent has a channel watched that was not. -/
theorem inPoller_of_leavesUnsent (hdown : s.conn.state = .kDisconnected)
    (hnone : s.conn.channel.events = Channel.kNoneEvent) (hl : s.LeavesUnsent a)
    (hstep : system.Step s a s') : s'.InPoller := by
  -- the connection is not up, so this is a functor
  obtain ⟨r, w, sender, message, ts, rfl, htodo, hw⟩ : ∃ r w sender message ts,
      a = .task r w ∧ s.todo = .functor (.sendInLoop sender message) :: ts ∧
      ¬ s.conn.WritesAll message w := by
    cases a with
    | task r w =>
        unfold LeavesUnsent at hl
        dsimp only at hl
        split at hl
        · next sender message ts htodo => exact ⟨r, w, sender, message, ts, rfl, htodo, hl⟩
        · cases hl
    | send t message w => exact absurd (hdown.symm.trans hl.1) (by decide)
    | sendBuffer t data w => exact absurd (hdown.symm.trans hl.1) (by decide)
    | _ => cases hl
  have hex : s.exec (.task r w) = .ok s' := hstep.2
  rw [exec_task htodo] at hex
  obtain ⟨k, hk, hex⟩ := Fallible.bind_eq_ok.mp hex
  cases hex
  have hsend : s.call.sendInLoop sender message w = .ok k := hk
  have hleft : message.drop (s.call.taken message w).length ≠ [] := by
    intro hnil
    refine hw ?_
    by_cases hd : s.call.Direct
    · have hle : message.length ≤ (w.taken message).length := by
        rw [Call.taken, if_pos hd] at hnil
        exact List.drop_eq_nil_iff.mp hnil
      have htake : w.taken message = message := by
        cases w with
        | accepted n =>
            rw [WriteResult.taken] at hle ⊢
            rw [List.length_take] at hle
            exact List.take_of_length_le (by omega)
        | failed e =>
            have hempty : message = [] := List.eq_nil_of_length_eq_zero (Nat.le_zero.mp hle)
            rw [hempty]
            rfl
      exact .inr ⟨hd.1, List.eq_nil_of_length_eq_zero hd.2, htake⟩
    · rw [Call.taken, if_neg hd] at hnil
      exact .inl hnil
  rw [Call.sendInLoop_eq, Call.buffer, if_neg hleft] at hsend
  rcases Call.appendOutput_ok hsend with ⟨hwriting, -⟩ | ⟨-, p, hp, rfl⟩
  · exact absurd hwriting (not_isWriting_of_none hnone)
  · have hindex : EPoller.indexAfter s.conn.channel.index
        (s.conn.channel.events ∪ Channel.kWriteEvent) = .kAdded := by
      refine if_neg fun hcond => absurd hcond.2 ?_
      rw [hnone]
      decide
    exact inPoller_of_watches hp hindex _ _

/-- **A destroyed connection stays out of the poller** as long as no `sendInLoop` leaves bytes of a
connection that is down unsent, and the first one that does puts it back. -/
theorem not_inPoller_of_destroyed (h : system.ReachableVia SendsNoneLeft s) (hd : s.Destroyed) :
    ¬ s.InPoller ∧
      ∀ a s', system.Step s a s' → s'.Destroyed ∧ (s'.InPoller ↔ s.LeavesUnsent a) := by
  obtain ⟨hnone, hout⟩ := not_inPoller_of_staysOut h hd
  refine ⟨hout, fun a s' hstep => ?_⟩
  have hd' := hd.move (move_of_step hstep)
  refine ⟨hd', fun hin => ?_, fun hl => inPoller_of_leavesUnsent hd.1 hnone hl hstep⟩
  by_contra hl
  exact (not_inPoller_of_staysOut (.step h (fun _ => hl) hstep) hd').2 hin

/-- The owner's loop has queued `connectDestroyed` for a connection the peer closed when another
thread, which finds it up, sends. -/
def lateSend (w : WriteResult) : List SessionAction :=
  [.task .error w, .takeFunctors, .endIteration, .poll (some {.POLLIN}), .task (.data []) w,
    .removeConnection, .send (.other 0) [120] w, .takeFunctors, .task .error w, .task .error w,
    .task .error w]

/-- A loop with nothing in its poller. -/
def firstSession : Session :=
  opened (.new 1 0 "server#1" 5 0 false) ⟨fun _ => none, fun _ => none⟩ .dispatching true

theorem init_firstSession : system.init firstSession :=
  ⟨1, 0, "server#1", 5, 0, false, _, .dispatching, true, by simp, rfl, rfl⟩

theorem not_inPoller_lateSend : ∃ s, system.ReachableVia SendsNoneLeft s ∧ s.Destroyed ∧
    ¬ s.InPoller := by
  obtain ⟨s, hs, hd⟩ := StepSystem.exists_reachableVia_of_runFrom? SendsNoneLeft
    (lateSend (.accepted 1)) (M := system) (p := fun s => decide s.Destroyed) init_firstSession
    (by decide +kernel)
  exact ⟨s, hs, of_decide_eq_true hd, (not_inPoller_of_destroyed hs (of_decide_eq_true hd)).1⟩

/-- The message of the other thread cannot be written: its functor, run after `connectDestroyed`,
registers the channel again. -/
theorem inPoller_after_lateSend : ∃ s, system.Reachable s ∧ s.Destroyed ∧ s.InPoller := by
  obtain ⟨s, hs, hd⟩ := StepSystem.exists_reachableVia_of_runFrom? (fun _ _ => True)
    (lateSend (.failed .EPIPE)) (M := system)
    (p := fun s => decide (s.Destroyed ∧ s.InPoller)) init_firstSession (by decide +kernel)
  exact ⟨s, hs, of_decide_eq_true hd⟩

end Session

end MiniMuduo
