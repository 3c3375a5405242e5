import MiniMuduo.Net.Session

/-!
# The life of a connection

A connection comes up once and goes down at most once. The invariants of this module follow it along
the moves of its session:

* `Registered`: the books of the poller agree with the channel;
* `InTurn`: the callbacks of a `handleEvent` call are not mixed with functors;
* `Waiting` and `Accounts`: where the two functors of its life are, and that every `closeCallback` is
  a removal asked for, a `connectDestroyed` queued, or one that has run;
* `Callbacks`: the user sees it go up, then messages, then go down.

The last part is about the two things that can go wrong after `handleClose`, which leaves `state_` as
it is: a send can have the channel watched again, and a second `handleClose` can run.
-/

namespace MiniMuduo

namespace Session

variable {s s' : Session} {a : SessionAction} {ts : List ConnTask} {t : ConnTask} {k : Call}

/-! ## Bookkeeping -/

@[simp] theorem commit_conn (s : Session) (k : Call) : (s.commit k).conn = k.conn := rfl
@[simp] theorem commit_todo (s : Session) (k : Call) : (s.commit k).todo = k.rest ++ s.todo := rfl

@[simp] theorem commit_history (s : Session) (k : Call) :
    (s.commit k).history = s.history ++ k.notes := rfl

@[simp] theorem commit_removing (s : Session) (k : Call) :
    (s.commit k).removing = s.removing + k.notes.count .closeCallback := rfl

@[simp] theorem pop_history (s : Session) (ts : List ConnTask) : (s.pop ts).history = s.history := rfl

@[simp] theorem pop_removing (s : Session) (ts : List ConnTask) :
    (s.pop ts).removing = s.removing := rfl

/-- A call that leaves nothing to be run by `functors` adds to their end. -/
theorem functors_commit (hrest : k.rest.filterMap ConnTask.functor? = []) :
    (s.commit k).functors = s.functors ++ k.queued := by
  unfold functors
  rw [commit_todo, List.filterMap_append, hrest, List.nil_append]
  exact (List.append_assoc _ _ _).symm

theorem functors_of_functor {f : ConnFunctor} (h : s.todo = .functor f :: ts) :
    s.functors = f :: (s.pop ts).functors := by
  unfold functors
  rw [h]
  rfl

theorem functors_of_not_functor (h : s.todo = t :: ts) (ht : t.functor? = none) :
    s.functors = (s.pop ts).functors := by
  unfold functors
  rw [h, List.filterMap_cons_none ht]
  rfl

theorem functors_eventTasks (revents : PollEvents) :
    (eventTasks revents).filterMap ConnTask.functor? = [] := by
  unfold eventTasks
  rw [List.filterMap_map]
  exact List.filterMap_eq_nil_iff.mpr fun _ _ => rfl

theorem functors_map_functor (fs : List ConnFunctor) :
    (fs.map ConnTask.functor).filterMap ConnTask.functor? = fs := by
  rw [List.filterMap_map]
  exact List.filterMap_some

/-- Quiet calls queue neither end of a connection's life. -/
theorem quiet_functors (hk : s.call.Quiet k) :
    .connectEstablished ∉ k.queued ∧ .connectDestroyed ∉ k.queued := by
  obtain ⟨fs, hfs, hq⟩ := hk.queued
  have heq : k.queued = fs := hfs
  rw [heq]
  exact ⟨fun h => absurd (hq _ h) (by decide), fun h => absurd (hq _ h) (by decide)⟩

theorem quiet_rest (hk : s.call.Quiet k) : k.rest.filterMap ConnTask.functor? = [] := by
  rw [hk.rest]
  rfl

/-- A calm task is none of the functors of a connection's life. -/
theorem Calm.functor (ht : Calm t) : t.functor? ≠ some .connectEstablished ∧
    t.functor? ≠ some .connectDestroyed := by
  cases t with
  | functor f => cases f <;> simp_all [Calm, ConnTask.functor?, ConnFunctor.isQuiet]
  | event revents cb => simp [ConnTask.functor?]
  | removeChannel => cases ht

/-- The functors after a calm task: those that were there, less the one that ran, and quiet ones. -/
theorem mem_functors_of_task {f : ConnFunctor} (htodo : s.todo = t :: ts) (hk : s.call.Quiet k)
    (hf : f.isQuiet = false) (hmem : f ∈ ((s.pop ts).commit k).functors) : f ∈ s.functors := by
  rw [functors_commit (quiet_rest hk)] at hmem
  rcases List.mem_append.mp hmem with hmem | hmem
  · cases htask : t.functor? with
    | none => rwa [functors_of_not_functor htodo htask]
    | some f' =>
        cases t with
        | functor g =>
            rw [functors_of_functor htodo]
            exact List.mem_cons_of_mem _ hmem
        | event _ _ | removeChannel => cases htask
  · obtain ⟨fs, hfs, hq⟩ := hk.queued
    have heq : k.queued = fs := hfs
    rw [heq] at hmem
    exact absurd (hq f hmem) (by simp [hf])

/-! ## The books of the poller -/

def Registered (s : Session) : Prop := s.poller.Agrees s.conn.self s.conn.channel

theorem Registered.init (h : init s) : s.Registered := by
  obtain ⟨self, loop, name, sockfd, hwm, wc, p, phase, atOnce, hc, hi, rfl⟩ := h
  exact ⟨hc, hi⟩

theorem Registered.move (h : s.Registered) (hm : Move s a s') : s'.Registered := by
  have hcall : s.call.poller.Agrees s.call.conn.self s.call.conn.channel := h
  cases hm with
  | up htodo hk => exact (Call.connectEstablished_kept hk).agrees hcall
  | down htodo hk => exact (Call.connectDestroyed_kept hk).agrees hcall
  | removeChannel htodo hk => exact (Call.removeChannel_kept hcall hk).agrees hcall
  | close htodo hcb hk => exact (Call.handleClose_kept hk).agrees hcall
  | task htodo ht hk hreg => exact hk.agrees hcall
  | user hup hk hreg => exact hk.agrees hcall
  | others hsame => exact hsame.agrees h
  | message _ | settings | poll _ _ _ | phase | takeFunctors _ | removeConnection _ _ => exact h

/-! ## Events and functors do not mix -/

/-- What is to be done are callbacks of one `handleEvent` call, or no such callbacks at all. -/
def InTurn (s : Session) : Prop :=
  (∃ revents, s.todo <:+ eventTasks revents) ∨ ∀ revents cb, .event revents cb ∉ s.todo

theorem InTurn.tail (h : s.InTurn) (htodo : s.todo = t :: ts) :
    (∃ revents, ts <:+ eventTasks revents) ∨ ∀ revents cb, .event revents cb ∉ ts := by
  rcases h with ⟨revents, hsuf⟩ | hno
  · rw [htodo] at hsuf
    exact .inl ⟨revents, (List.suffix_cons t ts).trans hsuf⟩
  · refine .inr fun revents cb hmem => hno revents cb ?_
    rw [htodo]
    exact List.mem_cons_of_mem _ hmem

/-- After a task that is no callback there are no callbacks. -/
theorem InTurn.no_events (h : s.InTurn) (htodo : s.todo = t :: ts)
    (ht : ∀ revents cb, t ≠ .event revents cb) : ∀ revents cb, .event revents cb ∉ ts := by
  rcases h with ⟨revents, hsuf⟩ | hno
  · have hmem : t ∈ eventTasks revents := hsuf.subset (by rw [htodo]; exact List.mem_cons_self)
    obtain ⟨cb, -, rfl⟩ := List.mem_map.mp hmem
    exact absurd rfl (ht revents cb)
  · intro revents cb hmem
    exact hno revents cb (by rw [htodo]; exact List.mem_cons_of_mem _ hmem)

theorem InTurn.init (h : init s) : s.InTurn := by
  obtain ⟨self, loop, name, sockfd, hwm, wc, p, phase, atOnce, hc, hi, rfl⟩ := h
  refine .inr fun revents cb hmem => ?_
  cases atOnce <;> simp [opened] at hmem

theorem InTurn.move (h : s.InTurn) (hm : Move s a s') : s'.InTurn := by
  cases hm with
  | up htodo hk =>
      obtain ⟨-, p, hp, rfl⟩ := Call.connectEstablished_ok hk
      exact h.tail htodo
  | down htodo hk =>
      obtain ⟨-, p, hp, rfl⟩ := Call.connectDestroyed_ok hk
      have hno := h.no_events htodo (by simp)
      refine .inr fun revents cb hmem => ?_
      rcases List.mem_cons.mp hmem with heq | hmem
      · cases heq
      · exact hno revents cb hmem
  | removeChannel htodo hk =>
      obtain ⟨ch, p, -, rfl⟩ := Call.removeChannel_ok hk
      exact h.tail htodo
  | close htodo hcb hk =>
      obtain ⟨-, p, hp, rfl⟩ := Call.handleClose_ok hk
      exact h.tail htodo
  | message htodo => exact h.tail htodo
  | task htodo ht hk hreg =>
      unfold InTurn
      rw [commit_todo, hk.rest]
      exact h.tail htodo
  | user hup hk hreg =>
      unfold InTurn
      rw [commit_todo, hk.rest]
      exact h
  | poll htodo hi hr => exact .inl ⟨_, List.suffix_refl _⟩
  | takeFunctors htodo =>
      refine .inr fun revents cb hmem => ?_
      obtain ⟨f, -, heq⟩ := List.mem_map.mp hmem
      cases heq
  | settings | phase | removeConnection _ _ | others _ => exact h

/-! ## Accounts -/

/-- The `connectDestroyed` calls that wait or have run. -/
def gone (s : Session) : ℕ :=
  s.functors.count .connectDestroyed + if s.conn.state = .kDisconnected then 1 else 0

structure Accounts (s : Session) : Prop where
  closes : s.history.count .closeCallback = s.removing + s.gone
  listed : s.gone = if s.listed then 0 else 1

theorem gone_pop_commit (htodo : s.todo = t :: ts)
    (hrest : k.rest.filterMap ConnTask.functor? = []) (hq : .connectDestroyed ∉ k.queued)
    (ht : t.functor? ≠ some .connectDestroyed)
    (hstate : k.conn.state = .kDisconnected ↔ s.conn.state = .kDisconnected) :
    ((s.pop ts).commit k).gone = s.gone := by
  unfold gone
  rw [functors_commit hrest, List.count_append, List.count_eq_zero_of_not_mem hq, commit_conn]
  have hcount : (s.pop ts).functors.count .connectDestroyed =
      s.functors.count .connectDestroyed := by
    cases t with
    | functor f =>
        rw [functors_of_functor htodo, List.count_cons_of_ne]
        intro heq
        exact ht (by rw [heq]; rfl)
    | event _ _ | removeChannel => rw [functors_of_not_functor htodo rfl]
  simp only [hcount, hstate, Nat.add_zero]

theorem quiet_down_iff (hk : s.call.Quiet k) :
    k.conn.state = .kDisconnected ↔ s.conn.state = .kDisconnected := by
  have hcall : s.call.conn = s.conn := rfl
  have hstate := hk.state
  rw [hcall] at hstate
  rcases hstate with heq | ⟨hup, hdown⟩
  · rw [heq]
  · simp [hup, hdown]

theorem quiet_notes (hk : s.call.Quiet k) : .closeCallback ∉ k.notes := by
  obtain ⟨es, hes, hq⟩ := hk.notes
  have heq : k.notes = es := hes
  rw [heq]
  exact fun h => absurd (hq _ h) (by decide)

/-- Moves that change neither side of the accounts keep them. -/
theorem Accounts.of_same (h : s.Accounts) (hgone : s'.gone = s.gone) (hlisted : s'.listed = s.listed)
    (hcloses : s'.history.count .closeCallback + s.removing =
      s.history.count .closeCallback + s'.removing) : s'.Accounts := by
  have hc := h.closes
  exact ⟨by omega, by rw [hgone, hlisted]; exact h.listed⟩

/-- A call keeps the accounts unless it brings a `connectDestroyed` in or out: every `closeCallback`
is entered on both sides. -/
theorem Accounts.commit (h : s.Accounts) (hgone : ((s.pop ts).commit k).gone = s.gone) :
    ((s.pop ts).commit k).Accounts := by
  refine h.of_same hgone rfl ?_
  rw [commit_history, commit_removing, List.count_append, pop_history, pop_removing]
  omega

theorem Accounts.init (h : init s) : s.Accounts := by
  obtain ⟨self, loop, name, sockfd, hwm, wc, p, phase, atOnce, hc, hi, rfl⟩ := h
  have hgone : (opened (.new self loop name sockfd hwm wc) p phase atOnce).gone = 0 := by
    cases atOnce <;> rfl
  exact ⟨by rw [hgone]; rfl, hgone⟩

theorem Accounts.move (h : s.Accounts) (hm : Move s a s') : s'.Accounts := by
  cases hm with
  | up htodo hk =>
      obtain ⟨hstate, p, hp, rfl⟩ := Call.connectEstablished_ok hk
      have hcon : s.conn.state = .kConnecting := hstate
      refine h.commit (gone_pop_commit htodo rfl List.not_mem_nil (by simp [ConnTask.functor?]) ?_)
      rw [hcon]
      exact iff_of_false StateE.noConfusion StateE.noConfusion
  | down htodo hk =>
      obtain ⟨hstate, p, hp, rfl⟩ := Call.connectDestroyed_ok hk
      have hne : s.conn.state ≠ .kDisconnected := by
        have hst : s.conn.state = .kConnected ∨ s.conn.state = .kDisconnecting := hstate
        rcases hst with hst | hst <;> rw [hst] <;> decide
      -- the functor that ran is counted by the state from now on
      refine h.commit ?_
      unfold gone
      rw [functors_commit (by rfl), functors_of_functor htodo, List.count_append,
        List.count_cons_self, if_neg hne]
      rfl
  | removeChannel htodo hk =>
      obtain ⟨ch, p, -, rfl⟩ := Call.removeChannel_ok hk
      exact h.commit
        (gone_pop_commit htodo rfl List.not_mem_nil (by simp [ConnTask.functor?]) Iff.rfl)
  | close htodo hcb hk =>
      obtain ⟨hstate, p, hp, rfl⟩ := Call.handleClose_ok hk
      exact h.commit
        (gone_pop_commit htodo rfl List.not_mem_nil (by simp [ConnTask.functor?]) Iff.rfl)
  | message htodo =>
      refine h.of_same ?_ rfl (by simp)
      unfold gone
      rw [functors_of_not_functor htodo rfl]
      rfl
  | task htodo ht hk hreg =>
      exact h.commit (gone_pop_commit htodo (quiet_rest hk) (quiet_functors hk).2 ht.functor.2
        (quiet_down_iff hk))
  | user hup hk hreg =>
      refine (show ((s.pop s.todo).commit _).Accounts from h.commit ?_)
      unfold gone
      rw [functors_commit (quiet_rest hk), List.count_append,
        List.count_eq_zero_of_not_mem (quiet_functors hk).2, commit_conn]
      simp only [quiet_down_iff hk, Nat.add_zero]
      rfl
  | poll htodo hi hr =>
      refine h.of_same ?_ rfl rfl
      unfold gone functors
      rw [functors_eventTasks, htodo]
      rfl
  | takeFunctors htodo =>
      refine h.of_same ?_ rfl rfl
      unfold gone functors
      rw [functors_map_functor, htodo, List.append_nil]
      rfl
  | removeConnection hlisted hpos =>
      have hgone := h.listed
      rw [hlisted] at hgone
      have hcloses := h.closes
      have hgone' : Session.gone { s with
          listed := false
          removing := s.removing - 1
          pendingFunctors := s.pendingFunctors ++ [.connectDestroyed] } = s.gone + 1 := by
        unfold gone functors
        simp only [← List.append_assoc, List.count_append, List.count_singleton_self]
        omega
      refine ⟨?_, ?_⟩
      · rw [hgone']
        show s.history.count .closeCallback = s.removing - 1 + (s.gone + 1)
        omega
      · rw [hgone', hgone]
        rfl
  | settings | phase | others _ => exact ⟨h.closes, h.listed⟩

/-! ## Before the connection is up -/

/-- A connection that is not up: `connectEstablished` is ahead of it and nothing is behind it. -/
structure Awaits (s : Session) : Prop where
  functors : s.todo = [] ∧ s.pendingFunctors = [.connectEstablished] ∨
    s.todo = [.functor .connectEstablished] ∧ s.pendingFunctors = []
  history : s.history = []
  index : s.conn.channel.index = .kNew
  events : s.conn.channel.events = Channel.kNoneEvent
  unsent : s.conn.unsent = []

def Waiting (s : Session) : Prop :=
  (s.conn.state = .kConnecting → s.Awaits) ∧
    (s.conn.state ≠ .kConnecting → .connectEstablished ∉ s.functors)

/-- The only task of a connection that is not up is `connectEstablished`. -/
theorem Awaits.eq_of_todo (h : s.Awaits) (htodo : s.todo = t :: ts) :
    t = .functor .connectEstablished ∧ ts = [] ∧ s.pendingFunctors = [] := by
  rcases h.functors with ⟨hnil, -⟩ | ⟨hone, hpend⟩
  · rw [hnil] at htodo
    cases htodo
  · rw [hone, List.cons.injEq] at htodo
    exact ⟨htodo.1.symm, htodo.2.symm, hpend⟩

theorem Waiting.ne_connecting (h : s.Waiting) (htodo : s.todo = t :: ts)
    (ht : t ≠ .functor .connectEstablished) : s.conn.state ≠ .kConnecting :=
  fun hstate => ht ((h.1 hstate).eq_of_todo htodo).1

theorem Awaits.removing_eq_zero (h : s.Awaits) (ha : s.Accounts) : s.removing = 0 := by
  have hc := ha.closes
  rw [h.history, List.count_nil] at hc
  omega

theorem Waiting.init (h : init s) : s.Waiting := by
  obtain ⟨self, loop, name, sockfd, hwm, wc, p, phase, atOnce, hc, hi, rfl⟩ := h
  refine ⟨fun _ => ⟨?_, rfl, rfl, rfl, WfBuffer.readable_new⟩, fun hne => absurd rfl hne⟩
  cases atOnce with
  | false => exact .inl ⟨rfl, rfl⟩
  | true => exact .inr ⟨rfl, rfl⟩

theorem quiet_ne_connecting (hk : s.call.Quiet k) (hne : s.conn.state ≠ .kConnecting) :
    k.conn.state ≠ .kConnecting := by
  rcases hk.state with heq | ⟨-, hdown⟩
  · rw [heq]
    exact hne
  · rw [hdown]
    exact StateE.noConfusion

/-- A step of a connection that is up keeps it so and queues no `connectEstablished`. -/
theorem Waiting.of_up (hstate : s'.conn.state ≠ .kConnecting)
    (hno : .connectEstablished ∉ s'.functors) : s'.Waiting :=
  ⟨fun h => absurd h hstate, fun _ => hno⟩

theorem Waiting.move (h : s.Waiting) (hr : s.Registered) (ha : s.Accounts) (hm : Move s a s') :
    s'.Waiting := by
  cases hm with
  | up htodo hk =>
      obtain ⟨hstate, p, hp, rfl⟩ := Call.connectEstablished_ok hk
      obtain ⟨-, rfl, hpend⟩ := (h.1 hstate).eq_of_todo htodo
      refine .of_up (by simp [Call.watch, Call.setState]) ?_
      rw [functors_commit (by rfl)]
      simp [Session.functors, Session.pop, hpend, Call.watch, Call.setState, call]
  | down htodo hk =>
      obtain ⟨hstate, p, hp, rfl⟩ := Call.connectDestroyed_ok hk
      have hne := h.ne_connecting htodo (by simp)
      refine .of_up (by simp [Call.watch, Call.setState]) ?_
      have hno := h.2 hne
      rw [functors_of_functor htodo] at hno
      rw [functors_commit (by rfl)]
      rw [List.mem_append]
      exact fun hmem => hmem.elim (fun hin => hno (List.mem_cons_of_mem _ hin)) List.not_mem_nil
  | removeChannel htodo hk =>
      obtain ⟨ch, p, -, rfl⟩ := Call.removeChannel_ok hk
      have hne := h.ne_connecting htodo (by simp)
      refine .of_up hne ?_
      rw [functors_commit (by rfl), ← functors_of_not_functor htodo rfl]
      simpa [call] using h.2 hne
  | close htodo hcb hk =>
      obtain ⟨-, p, hp, rfl⟩ := Call.handleClose_ok hk
      have hne := h.ne_connecting htodo (by simp)
      refine .of_up hne ?_
      rw [functors_commit (by rfl), ← functors_of_not_functor htodo rfl]
      simpa [call, Call.watch] using h.2 hne
  | message htodo =>
      have hne := h.ne_connecting htodo (by simp)
      have hno := h.2 hne
      rw [functors_of_not_functor htodo rfl] at hno
      exact .of_up hne hno
  | task htodo ht hk hreg =>
      have hne := h.ne_connecting htodo fun heq => ht.functor.1 (by rw [heq]; rfl)
      exact .of_up (quiet_ne_connecting hk hne) fun hmem =>
        h.2 hne (mem_functors_of_task htodo hk rfl hmem)
  | user hup hk hreg =>
      by_cases hne : s.conn.state = .kConnecting
      · -- the call found the connection not up and did nothing
        have hk' := hup (by rw [hne]; exact StateE.noConfusion)
        have hw := h.1 hne
        subst hk'
        refine ⟨fun _ => ⟨?_, ?_, hw.index, hw.events, hw.unsent⟩, fun hne' => absurd hne hne'⟩
        · simpa [commit, call] using hw.functors
        · simpa [call] using hw.history
      · refine .of_up (quiet_ne_connecting hk hne) ?_
        rw [functors_commit (quiet_rest hk), List.mem_append]
        exact fun hmem => hmem.elim (h.2 hne) (quiet_functors hk).1
  | poll htodo hi hrep =>
      -- the kernel knows no channel that was never enabled
      have hne : s.conn.state ≠ .kConnecting := by
        intro hstate
        have hindex := (hr.of_interest hi).1
        rw [(h.1 hstate).index] at hindex
        cases hindex
      refine .of_up hne ?_
      have hno := h.2 hne
      unfold Session.functors at hno ⊢
      rw [htodo] at hno
      rw [functors_eventTasks]
      exact hno
  | takeFunctors htodo =>
      have hsame : ∀ phase, Session.functors { s with
          phase := phase
          todo := s.pendingFunctors.map .functor
          pendingFunctors := [] } = s.functors := by
        intro phase
        unfold Session.functors
        rw [functors_map_functor, htodo, List.append_nil]
        rfl
      refine ⟨fun hstate => ?_, fun hne => by rw [hsame]; exact h.2 hne⟩
      have hw := h.1 hstate
      refine ⟨?_, hw.history, hw.index, hw.events, hw.unsent⟩
      rcases hw.functors with ⟨-, hpend⟩ | ⟨hone, -⟩
      · rw [hpend]
        exact .inr ⟨rfl, rfl⟩
      · rw [htodo] at hone
        cases hone
  | removeConnection hlisted hpos =>
      -- `removeConnection` answers a `closeCallback`, and there was none
      have hne : s.conn.state ≠ .kConnecting := by
        intro hstate
        have := (h.1 hstate).removing_eq_zero ha
        omega
      refine .of_up hne ?_
      have hno := h.2 hne
      unfold Session.functors at hno ⊢
      simpa using hno
  | settings | phase | others _ =>
      refine ⟨fun hstate => ?_, h.2⟩
      have hw := h.1 hstate
      exact ⟨hw.functors, hw.history, hw.index, hw.events, hw.unsent⟩

end Session

/-! ## What the user sees -/

def ConnEvent.isUserCallback : ConnEvent → Bool
  | .connectionCallback _ | .messageCallback _ => true
  | _ => false

/-- The connection and message callbacks of a history, in order. -/
def userCallbacks (history : List ConnEvent) : List ConnEvent :=
  history.filter ConnEvent.isUserCallback

@[simp] theorem userCallbacks_append (h h' : List ConnEvent) :
    userCallbacks (h ++ h') = userCallbacks h ++ userCallbacks h' :=
  List.filter_append _ _

theorem userCallbacks_of_quiet {es : List ConnEvent} (h : ∀ e ∈ es, e.isQuiet) :
    userCallbacks es = [] := by
  refine List.filter_eq_nil_iff.mpr fun e he => ?_
  have hq := h e he
  cases e <;> simp_all [ConnEvent.isQuiet, ConnEvent.isUserCallback]

/-- The callbacks of a connection that is up and has received these messages. -/
def upAnd (ms : List Bytes) : List ConnEvent :=
  .connectionCallback .kConnected :: ms.map .messageCallback

/-- The callbacks of a connection in a given state. -/
inductive Seen : StateE → List ConnEvent → Prop where
  | connecting : Seen .kConnecting []
  | connected (ms : List Bytes) : Seen .kConnected (upAnd ms)
  | disconnecting (ms : List Bytes) : Seen .kDisconnecting (upAnd ms)
  | disconnected (ms : List Bytes) :
      Seen .kDisconnected (upAnd ms ++ [.connectionCallback .kDisconnected])

theorem upAnd_concat (ms : List Bytes) (m : Bytes) :
    upAnd ms ++ [.messageCallback m] = upAnd (ms ++ [m]) := by
  simp [upAnd]

theorem Seen.message {state : StateE} {l : List ConnEvent} (h : Seen state l) (m : Bytes)
    (hup : state = .kConnected ∨ state = .kDisconnecting) :
    Seen state (l ++ [.messageCallback m]) := by
  cases h with
  | connecting | disconnected ms => rcases hup with hup | hup <;> cases hup
  | connected ms =>
      rw [upAnd_concat]
      exact .connected _
  | disconnecting ms =>
      rw [upAnd_concat]
      exact .disconnecting _

theorem Seen.disconnecting_of_connected {l : List ConnEvent} (h : Seen .kConnected l) :
    Seen .kDisconnecting l := by
  cases h with
  | connected ms => exact .disconnecting ms

theorem Seen.down {state : StateE} {l : List ConnEvent} (h : Seen state l)
    (hup : state = .kConnected ∨ state = .kDisconnecting) :
    Seen .kDisconnected (l ++ [.connectionCallback .kDisconnected]) := by
  cases h with
  | connecting | disconnected ms => rcases hup with hup | hup <;> cases hup
  | connected ms | disconnecting ms => exact .disconnected ms

/-- **The callback protocol**: up, messages, down, or the beginning of this. -/
def CallbackProtocol (l : List ConnEvent) : Prop :=
  ∃ ms : List Bytes, l <+: .connectionCallback .kConnected ::
    (ms.map .messageCallback ++ [.connectionCallback .kDisconnected])

theorem Seen.protocol {state : StateE} {l : List ConnEvent} (h : Seen state l) :
    CallbackProtocol l := by
  cases h with
  | connecting => exact ⟨[], List.nil_prefix⟩
  | connected ms | disconnecting ms => exact ⟨ms, List.prefix_append _ _⟩
  | disconnected ms => exact ⟨ms, List.prefix_refl _⟩

namespace Session

variable {s s' : Session} {a : SessionAction} {ts : List ConnTask} {k : Call}

/-- The callbacks so far are those of the state, and a connection that is down reads no more. -/
structure Callbacks (s : Session) : Prop where
  seen : Seen s.conn.state (userCallbacks s.history)
  deaf : s.conn.state = .kDisconnected →
    s.conn.channel.events \ Channel.kWriteEvent = ∅ ∧ ∀ revents, .event revents .read ∉ s.todo

/-- Quiet calls are not seen, and do not make a connection that is down listen. -/
theorem Callbacks.quiet (h : s.Callbacks) (hk : s.call.Quiet k)
    (hts : ∀ revents, .event revents .read ∈ ts → .event revents .read ∈ s.todo) :
    ((s.pop ts).commit k).Callbacks := by
  obtain ⟨es, hes, hq⟩ := hk.notes
  have hnotes : k.notes = es := hes
  have hseen : Seen s.conn.state (userCallbacks (s.history ++ k.notes)) := by
    rw [userCallbacks_append, hnotes, userCallbacks_of_quiet hq, List.append_nil]
    exact h.seen
  refine ⟨?_, fun hdown => ?_⟩
  · rcases hk.state with heq | ⟨hup, hdown⟩
    · rw [commit_conn, heq]
      exact hseen
    · -- `shutdown` while up
      have hcon : s.conn.state = .kConnected := hup
      rw [hcon] at hseen
      rw [commit_conn, hdown, commit_history, pop_history]
      exact hseen.disconnecting_of_connected
  · have hdeaf := h.deaf ((quiet_down_iff hk).mp hdown)
    refine ⟨hk.interest.trans hdeaf.1, fun revents hmem => hdeaf.2 revents (hts revents ?_)⟩
    rw [commit_todo, hk.rest] at hmem
    exact hmem

theorem Callbacks.init (h : init s) : s.Callbacks := by
  obtain ⟨self, loop, name, sockfd, hwm, wc, p, phase, atOnce, hc, hi, rfl⟩ := h
  exact ⟨.connecting, fun hdown => by cases hdown⟩

theorem Callbacks.move (h : s.Callbacks) (hw : s.Waiting) (hr : s.Registered) (ht : s.InTurn)
    (hm : Move s a s') : s'.Callbacks := by
  cases hm with
  | up htodo hk =>
      obtain ⟨hstate, p, hp, rfl⟩ := Call.connectEstablished_ok hk
      have hempty := (hw.1 hstate).history
      refine ⟨?_, fun hdown => by cases hdown⟩
      rw [commit_history, pop_history, hempty]
      exact .connected []
  | down htodo hk =>
      obtain ⟨hstate, p, hp, rfl⟩ := Call.connectDestroyed_ok hk
      have hno := ht.no_events htodo (by simp)
      refine ⟨?_, fun _ => ⟨rfl, fun revents hmem => ?_⟩⟩
      · rw [commit_history, userCallbacks_append]
        exact h.seen.down hstate
      · rcases List.mem_cons.mp hmem with heq | hmem
        · cases heq
        · exact hno revents .read hmem
  | removeChannel htodo hk =>
      obtain ⟨ch, p, hrem, rfl⟩ := Call.removeChannel_ok hk
      obtain ⟨-, rfl, -⟩ := hr.removeChannel hrem
      refine ⟨?_, fun hdown => ⟨(h.deaf hdown).1, fun revents hmem => (h.deaf hdown).2 revents ?_⟩⟩
      · rw [commit_history, userCallbacks_append]
        exact (List.append_nil (userCallbacks s.history)).symm ▸ h.seen
      · rw [htodo]
        exact List.mem_cons_of_mem _ hmem
  | close htodo hcb hk =>
      obtain ⟨hstate, p, hp, rfl⟩ := Call.handleClose_ok hk
      refine ⟨?_, fun hdown => ?_⟩
      · rw [commit_history, userCallbacks_append]
        exact (List.append_nil (userCallbacks s.history)).symm ▸ h.seen
      · -- `handleClose` asserts that the connection is up, and leaves `state_` as it is
        have hst : s.conn.state = .kDisconnected := hdown
        have hst' : s.conn.state = .kConnected ∨ s.conn.state = .kDisconnecting := hstate
        rw [hst] at hst'
        rcases hst' with hst' | hst' <;> cases hst'
  | @message revents ts b htodo =>
      have hread : .event revents .read ∈ s.todo := by
        rw [htodo]
        exact List.mem_cons_self
      have hup : s.conn.state = .kConnected ∨ s.conn.state = .kDisconnecting := by
        cases hstate : s.conn.state with
        | kConnecting => exact absurd hstate (hw.ne_connecting htodo (by simp))
        | kConnected => exact .inl rfl
        | kDisconnecting => exact .inr rfl
        | kDisconnected => exact absurd hread ((h.deaf hstate).2 revents)
      refine ⟨?_, fun hdown => ?_⟩
      · have hseen := h.seen.message b.readable hup
        rw [userCallbacks_append]
        exact hseen
      · have hst : s.conn.state = .kDisconnected := hdown
        rw [hst] at hup
        rcases hup with hup | hup <;> cases hup
  | task htodo hcalm hk hreg =>
      refine h.quiet hk fun revents hmem => ?_
      rw [htodo]
      exact List.mem_cons_of_mem _ hmem
  | user hup hk hreg =>
      exact (show ((s.pop s.todo).commit _).Callbacks from h.quiet hk fun _ hmem => hmem)
  | @poll revents events htodo hi hrep =>
      refine ⟨h.seen, fun hdown => ⟨(h.deaf hdown).1, fun revents' hmem => ?_⟩⟩
      -- the kernel watches for the events of the channel, of which only `POLLOUT` is left
      obtain ⟨-, rfl, -⟩ := hr.of_interest hi
      obtain ⟨cb, hcb, heq⟩ := List.mem_map.mp hmem
      cases heq
      obtain ⟨f, hf, hbit⟩ := Channel.exists_of_read_mem hcb
      have hin := hrep hf
      have hsub := Finset.sdiff_eq_empty_iff_subset.mp (h.deaf hdown).1
      rcases Finset.mem_union.mp hin with hin | hin
      · have hout := hsub hin
        rw [Channel.kWriteEvent, Finset.mem_singleton] at hout
        subst hout
        simp at hbit
      · simp only [Finset.mem_insert, Finset.mem_singleton] at hin
        rcases hin with rfl | rfl <;> simp at hbit
  | takeFunctors htodo =>
      refine ⟨h.seen, fun hdown => ⟨(h.deaf hdown).1, fun revents hmem => ?_⟩⟩
      obtain ⟨f, -, heq⟩ := List.mem_map.mp hmem
      cases heq
  | settings | phase | removeConnection _ _ | others _ => exact ⟨h.seen, h.deaf⟩

/-! ## All of it -/

/-- What holds in every state of every session. -/
structure Orderly (s : Session) : Prop where
  registered : s.Registered
  inTurn : s.InTurn
  accounts : s.Accounts
  waiting : s.Waiting
  callbacks : s.Callbacks

theorem orderly_of_reachable (h : system.Reachable s) : s.Orderly := by
  refine StepSystem.ReachableVia.invariant (fun s hs => ?_) (fun s a s' _ hs _ hstep => ?_) h
  · exact ⟨.init hs, .init hs, .init hs, .init hs, .init hs⟩
  · have hm := move_of_step hstep
    exact ⟨hs.registered.move hm, hs.inTurn.move hm, hs.accounts.move hm,
      hs.waiting.move hs.registered hs.accounts hm,
      hs.callbacks.move hs.waiting hs.registered hs.inTurn hm⟩

end Session

end MiniMuduo
