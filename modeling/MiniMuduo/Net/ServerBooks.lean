import MiniMuduo.Net.TcpServer

/-!
# The books of a server

A server keeps its connections apart (`Sound`): their names and descriptors differ, a loop watches
and works for the connections it was given and no others, and removals wait in the base loop only.
This is why `assertInLoopThread` never fails, and why a step of one connection is none of another.
-/

namespace MiniMuduo

open Fallible

/-- What no call changes in a connection. -/
structure ConnIdent where
  self : ConnId
  loop : LoopId
  name : String
  fd : Fd

def TcpConnection.ident (c : TcpConnection) : ConnIdent := ⟨c.self, c.loop, c.name, c.channel.fd⟩

theorem Call.Kept.ident {k k' : Call} (h : k.Kept k') : k'.conn.ident = k.conn.ident := by
  unfold TcpConnection.ident
  rw [h.self, h.loop, h.name, h.fd]

/-- Everything the thread of a loop will do, when no more comes. -/
def EventLoop.work (e : EventLoop) : List LoopTask :=
  e.todo ++ e.pendingFunctors.map LoopFunctor.toTask

namespace TcpServer

variable {s s' : TcpServer} {c c₀ : ConnId} {conn : TcpConnection} {l : LoopId} {k : Call}
  {e : EventLoop}

@[simp] theorem commit_loops_self (s : TcpServer) (c : ConnId) (k : Call) :
    (s.commit c k).loops k.conn.loop =
      { s.loops k.conn.loop with
        poller := k.poller
        pendingFunctors := (s.loops k.conn.loop).pendingFunctors ++ k.queued.map (.conn c)
        todo := k.rest.map (.conn c) ++ (s.loops k.conn.loop).todo } :=
  Function.update_self _ _ _

theorem commit_loops_of_ne (h : l ≠ k.conn.loop) : (s.commit c k).loops l = s.loops l :=
  Function.update_of_ne h _ _

theorem setLoop_loops (s : TcpServer) (l l' : LoopId) (e : EventLoop) :
    (s.setLoop l e).loops l' = if l' = l then e else s.loops l' :=
  Function.update_apply _ _ _ _

@[simp] theorem setLoop_loops_self (s : TcpServer) (l : LoopId) (e : EventLoop) :
    (s.setLoop l e).loops l = e :=
  Function.update_self _ _ _

theorem connName_injective (s : TcpServer) : Function.Injective s.connName := by
  intro m n h
  have hrepr : Nat.repr m = Nat.repr n := by
    unfold connName at h
    exact (String.append_right_inj _).mp h
  have hdigits := congrArg (fun t => Nat.ofDigitChars 10 t.toList 0) hrepr
  simpa using hdigits

theorem connName_congr (h : s'.name = s.name) : s'.connName = s.connName := by
  unfold connName
  rw [h]

def ident (s : TcpServer) (c : ConnId) : Option ConnIdent := (s.conns c).map TcpConnection.ident

theorem ident_of_conns (h : s.conns c = some conn) : s.ident c = some conn.ident := by
  unfold ident
  rw [h]
  rfl

/-- The tasks a loop may have. -/
def Allowed (s : TcpServer) (l : LoopId) : LoopTask → Prop
  | .conn c _ => c < s.nextConnId ∧ ∀ i, s.ident c = some i → i.loop = l
  | .removeConnectionInLoop c => c < s.nextConnId ∧ l = 0

/-- `e` can be the loop `l` of the server. -/
structure Hosts (s : TcpServer) (l : LoopId) (e : EventLoop) : Prop where
  interest : ∀ fd events c, e.poller.interest fd = some (events, c) →
    ∃ i, s.ident c = some i ∧ i.loop = l ∧ i.fd = fd
  channels : ∀ fd c, e.poller.channels fd = some c → c < s.nextConnId
  work : ∀ t ∈ e.work, s.Allowed l t

structure Sound (s : TcpServer) : Prop where
  ident : ∀ c i, s.ident c = some i → i.self = c ∧ i.name = s.connName c ∧ c < s.nextConnId
  fds : ∀ c c' i i', s.ident c = some i → s.ident c' = some i' → i.fd = i'.fd → c = c'
  connections : ∀ n c, s.connections n = some c → n = s.connName c
  history : ∀ c, s.nextConnId ≤ c → s.history c = []
  loops : ∀ l, s.Hosts l (s.loops l)

theorem sound_new (name : String) (ioLoops : ℕ) (writeCompleteCallback : Bool) :
    (new name ioLoops writeCompleteCallback).Sound where
  ident := fun c i h => by cases h
  fds := fun c c' i i' h => by cases h
  connections := fun n c h => by cases h
  history := fun _ _ => rfl
  loops := fun l => ⟨fun _ _ _ h => (by cases h), fun _ _ h => (by cases h), fun _ h => (by cases h)⟩

/-! ## What a change has to keep -/

theorem Hosts.congr (h : s.Hosts l e) (hident : s'.ident = s.ident)
    (hnext : s'.nextConnId = s.nextConnId) : s'.Hosts l e := by
  obtain ⟨hi, hc, hw⟩ := h
  refine ⟨?_, ?_, ?_⟩
  · rwa [hident]
  · rwa [hnext]
  · intro t ht
    have ha := hw t ht
    unfold Allowed at ha ⊢
    cases t with
    | conn c t => rwa [hident, hnext]
    | removeConnectionInLoop c => rwa [hnext]

/-- A step that makes no connection and takes none away. -/
theorem Sound.of_same (h : s.Sound) (hname : s'.name = s.name) (hident : s'.ident = s.ident)
    (hnext : s'.nextConnId = s.nextConnId)
    (hconn : ∀ n c, s'.connections n = some c → s.connections n = some c)
    (hhist : ∀ c, s.nextConnId ≤ c → s'.history c = [])
    (hloops : ∀ l, s.Hosts l (s'.loops l)) : s'.Sound := by
  have hcn := connName_congr hname
  refine ⟨?ident, ?fds, ?connections, ?history, fun l => (hloops l).congr hident hnext⟩
  case ident =>
    rw [hident, hcn, hnext]
    exact h.ident
  case fds =>
    rw [hident]
    exact h.fds
  case connections =>
    rw [hcn]
    exact fun n c hc => h.connections n c (hconn n c hc)
  case history =>
    rw [hnext]
    exact hhist

theorem Sound.setLoop (h : s.Sound) (he : s.Hosts l e) : (s.setLoop l e).Sound := by
  refine h.of_same rfl rfl rfl (fun _ _ => id) h.history fun l' => ?_
  rw [setLoop_loops]
  split
  · next hl => exact hl ▸ he
  · exact h.loops l'

/-- A loop that only works differently: the poller is the same, and the work was allowed. -/
theorem Sound.setLoop_work (h : s.Sound) (hp : e.poller = (s.loops l).poller)
    (hwork : ∀ t ∈ e.work, t ∈ (s.loops l).work ∨ s.Allowed l t) : (s.setLoop l e).Sound := by
  obtain ⟨hi, hc, hw⟩ := h.loops l
  refine h.setLoop ⟨by rwa [hp], by rwa [hp], fun t ht => ?_⟩
  exact (hwork t ht).elim (hw t) id

theorem Sound.allowed_conn (h : s.Sound) (hc : s.conns c = some conn) (t : ConnTask) :
    s.Allowed conn.loop (.conn c t) := by
  have hident := ident_of_conns hc
  refine ⟨(h.ident c _ hident).2.2, fun i hi => ?_⟩
  rw [hident, Option.some.injEq] at hi
  rw [← hi]
  rfl

theorem Sound.allowed_removal (h : s.Sound) (hc : s.conns c = some conn) :
    s.Allowed 0 (.removeConnectionInLoop c) :=
  ⟨(h.ident c _ (ident_of_conns hc)).2.2, rfl⟩

theorem Sound.queueInLoop (h : s.Sound) {f : LoopFunctor} (hf : s.Allowed l f.toTask) :
    (s.queueInLoop l f).Sound := by
  refine h.setLoop_work rfl fun t ht => ?_
  unfold EventLoop.work EventLoop.queueInLoop at ht
  rw [List.map_append, ← List.append_assoc, List.mem_append] at ht
  rcases ht with ht | ht
  · exact .inl ht
  · rw [List.map_singleton, List.mem_singleton] at ht
    exact .inr (ht ▸ hf)

/-! ## Calls -/

theorem ident_update (hc : s.conns c = some conn) (hident : k.conn.ident = conn.ident) :
    (fun c' => (Function.update s.conns c (some k.conn) c').map TcpConnection.ident) = s.ident := by
  funext c'
  by_cases h : c' = c
  · subst h
    rw [Function.update_self, ident_of_conns hc, ← hident]
    rfl
  · rw [Function.update_of_ne h]
    rfl

theorem Sound.hosts_commit (h : s.Sound) (hc : s.conns c = some conn)
    (hkept : Call.Kept ⟨conn, (s.loops conn.loop).poller, [], [], []⟩ k)
    (hagrees : k.poller.Agrees k.conn.self k.conn.channel) :
    s.Hosts conn.loop { s.loops conn.loop with
      poller := k.poller
      pendingFunctors := (s.loops conn.loop).pendingFunctors ++ k.queued.map (.conn c)
      todo := k.rest.map (.conn c) ++ (s.loops conn.loop).todo } := by
  obtain ⟨hi, hch, hw⟩ := h.loops conn.loop
  have hident := ident_of_conns hc
  have hself : k.conn.self = c := hkept.self.trans (h.ident c _ hident).1
  have hfd : k.conn.channel.fd = conn.channel.fd := hkept.fd
  refine ⟨fun fd events c' hint => ?_, fun fd c' hchan => ?_, fun t ht => ?_⟩
  · by_cases heq : fd = conn.channel.fd
    · -- at its own descriptor the kernel knows this connection or none
      rw [heq, ← hfd] at hint
      obtain ⟨-, -, rfl⟩ := hagrees.of_interest hint
      rw [hself]
      exact ⟨_, hident, rfl, heq.symm⟩
    · exact hi fd events c' (by rw [← (hkept.elsewhere.same fd heq).2]; exact hint)
  · by_cases heq : fd = conn.channel.fd
    · rw [heq] at hchan
      rcases hkept.elsewhere.channels c' hchan with hold | rfl
      · exact hch _ _ hold
      · rw [show conn.self = c from (h.ident c _ hident).1]
        exact (h.ident c _ hident).2.2
    · exact hch fd c' (by rw [← (hkept.elsewhere.same fd heq).1]; exact hchan)
  · simp only [EventLoop.work, List.map_append, List.map_map, List.mem_append, List.mem_map,
      Function.comp] at ht
    rcases ht with (⟨t, -, rfl⟩ | ht) | ht | ⟨f, -, rfl⟩
    · exact h.allowed_conn hc _
    · exact hw t (List.mem_append_left _ ht)
    · exact hw t (List.mem_append_right _ (List.mem_map.mpr ht))
    · exact h.allowed_conn hc _

theorem Sound.commit (h : s.Sound) (hc : s.conns c = some conn)
    (hkept : Call.Kept ⟨conn, (s.loops conn.loop).poller, [], [], []⟩ k)
    (hagrees : k.poller.Agrees k.conn.self k.conn.channel) : (s.commit c k).Sound := by
  have hloop : k.conn.loop = conn.loop := hkept.loop
  refine h.of_same rfl (ident_update hc hkept.ident) rfl (fun _ _ => id) (fun c' hc' => ?_)
    fun l => ?_
  · have hlt := (h.ident c _ (ident_of_conns hc)).2.2
    have hne : c' ≠ c := (hlt.trans_le hc').ne'
    rw [show (s.commit c k).history c' = s.history c' from Function.update_of_ne hne _ _]
    exact h.history c' hc'
  · by_cases hl : l = k.conn.loop
    · rw [hl, commit_loops_self, hloop]
      exact h.hosts_commit hc hkept hagrees
    · rw [commit_loops_of_ne hl]
      exact h.loops l

/-- The user sets something in a connection object. -/
theorem Sound.setConn (h : s.Sound) {conn' : TcpConnection} (hc : s.conns c = some conn)
    (hident : conn'.ident = conn.ident) :
    ({ s with conns := Function.update s.conns c (some conn') } : TcpServer).Sound :=
  h.of_same rfl (ident_update (k := ⟨conn', (s.loops 0).poller, [], [], []⟩) hc hident) rfl
    (fun _ _ => id) h.history h.loops

/-! ## Removals -/

theorem removeConnectionInLoop_ok (h : s.removeConnectionInLoop c = .ok s') :
    ∃ conn, s.conns c = some conn ∧ (s.connections conn.name).isSome ∧
      s' = ({ s with connections := Function.update s.connections conn.name none } :
        TcpServer).queueInLoop conn.loop (.conn c .connectDestroyed) := by
  unfold removeConnectionInLoop at h
  split at h
  · cases h
  · next conn hc =>
      obtain ⟨u, hsome, h⟩ := bind_eq_ok.mp h
      cases h
      exact ⟨conn, hc, check_eq_ok.mp hsome, rfl⟩

theorem Sound.unlist (h : s.Sound) (n : String) :
    ({ s with connections := Function.update s.connections n none } : TcpServer).Sound := by
  refine h.of_same rfl rfl rfl (fun n' c hc => ?_) h.history h.loops
  have hc' : Function.update s.connections n none n' = some c := hc
  by_cases hn : n' = n
  · rw [hn, Function.update_self] at hc'
    cases hc'
  · rwa [Function.update_of_ne hn] at hc'

theorem Sound.removeConnectionInLoop (h : s.Sound) (hr : s.removeConnectionInLoop c = .ok s') :
    s'.Sound := by
  obtain ⟨conn, hc, -, rfl⟩ := removeConnectionInLoop_ok hr
  exact (h.unlist conn.name).queueInLoop ((h.unlist conn.name).allowed_conn hc _)

theorem Sound.removeConnection (h : s.Sound) (hc : s.conns c = some conn)
    (hr : s.removeConnection l c = .ok s') : s'.Sound := by
  unfold TcpServer.removeConnection at hr
  split at hr
  · exact h.removeConnectionInLoop hr
  · cases hr
    exact h.queueInLoop (h.allowed_removal hc)

/-- The entry of a connection in the map is its own. -/
theorem Sound.listed (h : s.Sound) (hc : s.conns c = some conn)
    (hsome : (s.connections conn.name).isSome) : s.connections conn.name = some c := by
  obtain ⟨c', hc'⟩ := Option.isSome_iff_exists.mp hsome
  have hname : conn.name = s.connName c := (h.ident c _ (ident_of_conns hc)).2.1
  have heq := h.connections _ _ hc'
  rw [hname] at heq
  rw [hc', connName_injective s heq]

/-! ## Iterations of a loop -/

/-- The tasks of an iteration are of connections that are watched. -/
theorem mem_fillActiveChannels {p : EPoller ConnId} {reports : List (Fd × PollEvents)}
    {ts : List LoopTask} (h : EventLoop.fillActiveChannels p reports = .ok ts) :
    ∀ t ∈ ts, ∃ fd events c t', p.interest fd = some (events, c) ∧ t = .conn c t' := by
  induction reports generalizing ts with
  | nil =>
      cases h
      exact fun t ht => absurd ht List.not_mem_nil
  | cons x rs ih =>
      obtain ⟨fd, revents⟩ := x
      unfold EventLoop.fillActiveChannels at h
      split at h
      · exact ih h
      · next events c hint =>
          obtain ⟨u, -, h⟩ := bind_eq_ok.mp h
          obtain ⟨ts', hts, h⟩ := bind_eq_ok.mp h
          cases h
          intro t ht
          rcases List.mem_append.mp ht with ht | ht
          · obtain ⟨t', -, rfl⟩ := List.mem_map.mp ht
            exact ⟨fd, events, c, t', hint, rfl⟩
          · exact ih hts t ht

theorem Sound.poll (h : s.Sound) {reports : List (Fd × PollEvents)} {ts : List LoopTask}
    (hts : EventLoop.fillActiveChannels (s.loops l).poller reports = .ok ts) :
    (s.setLoop l { s.loops l with phase := .dispatching, todo := ts }).Sound := by
  refine h.setLoop_work rfl fun t ht => ?_
  rcases List.mem_append.mp ht with ht | ht
  · obtain ⟨fd, events, c, t', hint, rfl⟩ := mem_fillActiveChannels hts t ht
    obtain ⟨i, hi, hloop, -⟩ := (h.loops l).interest fd events c hint
    refine .inr ⟨(h.ident c i hi).2.2, fun i' hi' => ?_⟩
    rw [hi, Option.some.injEq] at hi'
    rwa [← hi']
  · exact .inl (List.mem_append_right _ ht)

theorem Sound.takeFunctors (h : s.Sound) :
    (s.setLoop l { s.loops l with
      phase := .callingPendingFunctors
      todo := (s.loops l).pendingFunctors.map LoopFunctor.toTask
      pendingFunctors := [] }).Sound := by
  refine h.setLoop_work rfl fun t ht => .inl (List.mem_append_right _ ?_)
  unfold EventLoop.work at ht
  rwa [List.map_nil, List.append_nil] at ht

theorem Sound.popTask (h : s.Sound) {t : LoopTask} {ts : List LoopTask}
    (htodo : (s.loops l).todo = t :: ts) :
    (s.setLoop l { s.loops l with todo := ts }).Sound ∧ s.Allowed l t := by
  constructor
  · refine h.setLoop_work rfl fun t' ht => .inl ?_
    unfold EventLoop.work
    rw [htodo]
    exact List.mem_cons_of_mem _ ht
  · refine (h.loops l).work t (List.mem_append_left _ ?_)
    rw [htodo]
    exact List.mem_cons_self

/-! ## Connections come and go -/

/-- The connection `conn` is made and entered into the map. -/
def enroll (s : TcpServer) (next : ℕ) (conn : TcpConnection) : TcpServer :=
  { s with
    next := next
    nextConnId := s.nextConnId + 1
    connections := Function.update s.connections conn.name (some s.nextConnId)
    conns := Function.update s.conns s.nextConnId (some conn)
    dealt := s.dealt ++ [conn.loop] }

/-- The connection of a new name, loop and descriptor. -/
def nextConn (s : TcpServer) (ioLoop : LoopId) (sockfd : Fd) (highWaterMark : ℕ) : TcpConnection :=
  .new s.nextConnId ioLoop (s.connName s.nextConnId) sockfd highWaterMark s.writeCompleteCallback

theorem newConnection_ok {sockfd : Fd} {highWaterMark : ℕ}
    (h : s.newConnection sockfd highWaterMark = .ok s') :
    ∃ ioLoop next, (s.ioLoops = 0 → ioLoop = 0) ∧
      let conn := s.nextConn ioLoop sockfd highWaterMark
      (ioLoop = 0 ∧
        (s.enroll next conn).perform s.nextConnId Call.connectEstablished = .ok s') ∨
      (ioLoop ≠ 0 ∧
        s' = (s.enroll next conn).queueInLoop ioLoop (.conn s.nextConnId .connectEstablished)) := by
  by_cases hpool : s.ioLoops = 0
  · have hget : s.getNextLoop = (0, s) := if_pos hpool
    unfold newConnection at h
    simp only [hget] at h
    exact ⟨0, s.next, fun _ => rfl, .inl ⟨rfl, h⟩⟩
  · have hget : s.getNextLoop = (s.next + 1,
        { s with next := if s.next + 1 ≥ s.ioLoops then 0 else s.next + 1 }) := if_neg hpool
    unfold newConnection at h
    simp only [hget, if_neg (Nat.succ_ne_zero s.next)] at h
    cases h
    exact ⟨s.next + 1, _, fun h0 => absurd h0 hpool, .inr ⟨Nat.succ_ne_zero _, rfl⟩⟩

/-- The descriptors of the connections there are, as `enabled` lists them. -/
theorem Sound.unused (hs : s.Sound) {fd : Fd}
    (h : ∀ c < s.nextConnId, ∀ conn ∈ s.conns c, conn.channel.fd ≠ fd) :
    ∀ c i, s.ident c = some i → i.fd ≠ fd := by
  intro c i hi
  obtain ⟨conn, hc, rfl⟩ := Option.map_eq_some_iff.mp hi
  exact h c (hs.ident c _ hi).2.2 conn hc

theorem ident_enroll_of_ne {next : ℕ} (h : c ≠ s.nextConnId) :
    (s.enroll next conn).ident c = s.ident c := by
  simp [ident, enroll, Function.update_of_ne h]

theorem ident_enroll_self {next : ℕ} : (s.enroll next conn).ident s.nextConnId = some conn.ident := by
  simp [ident, enroll]

theorem Sound.enroll (h : s.Sound) {next : ℕ} (hself : conn.self = s.nextConnId)
    (hname : conn.name = s.connName s.nextConnId)
    (hfd : ∀ c i, s.ident c = some i → i.fd ≠ conn.channel.fd) : (s.enroll next conn).Sound := by
  have hold : ∀ c, c < s.nextConnId → (s.enroll next conn).ident c = s.ident c :=
    fun c hlt => ident_enroll_of_ne hlt.ne
  have hcases : ∀ c i, (s.enroll next conn).ident c = some i →
      c = s.nextConnId ∧ i = conn.ident ∨ s.ident c = some i := by
    intro c i hi
    by_cases hc : c = s.nextConnId
    · rw [hc, ident_enroll_self, Option.some.injEq] at hi
      exact .inl ⟨hc, hi.symm⟩
    · rw [ident_enroll_of_ne hc] at hi
      exact .inr hi
  refine ⟨fun c i hi => ?ident, fun c c' i i' hi hi' hfds => ?fds, fun n c hc => ?connections,
    fun c hc => ?history,
    fun l => ⟨fun fd events c hint => ?interest, fun fd c hch => ?channels, fun t ht => ?work⟩⟩
  case ident =>
    rcases hcases c i hi with ⟨rfl, rfl⟩ | hi
    · exact ⟨hself, hname, Nat.lt_succ_self _⟩
    · obtain ⟨hs, hn, hlt⟩ := h.ident c i hi
      exact ⟨hs, hn, hlt.trans (Nat.lt_succ_self _)⟩
  case fds =>
    rcases hcases c i hi with ⟨rfl, rfl⟩ | hi <;> rcases hcases c' i' hi' with ⟨rfl, rfl⟩ | hi'
    · rfl
    · exact absurd hfds.symm (hfd c' i' hi')
    · exact absurd hfds (hfd c i hi)
    · exact h.fds c c' i i' hi hi' hfds
  case connections =>
    have hc' : Function.update s.connections conn.name (some s.nextConnId) n = some c := hc
    by_cases hn : n = conn.name
    · rw [hn, Function.update_self, Option.some.injEq] at hc'
      rw [hn, hname, hc']
      rfl
    · rw [Function.update_of_ne hn] at hc'
      exact h.connections n c hc'
  case history =>
    exact h.history c ((Nat.le_succ _).trans hc)
  case interest =>
    obtain ⟨i, hi, hrest⟩ := (h.loops l).interest fd events c hint
    exact ⟨i, (hold c (h.ident c i hi).2.2).trans hi, hrest⟩
  case channels =>
    exact ((h.loops l).channels fd c hch).trans (Nat.lt_succ_self _)
  case work =>
    have ha := (h.loops l).work t ht
    cases t with
    | conn c t =>
        refine ⟨ha.1.trans (Nat.lt_succ_self _), fun i hi => ha.2 i ?_⟩
        rwa [hold c ha.1] at hi
    | removeConnectionInLoop c => exact ⟨ha.1.trans (Nat.lt_succ_self _), ha.2⟩

/-- The connection `conn` at `c` is gone, and its descriptor with it. -/
def forget (s : TcpServer) (c : ConnId) (conn : TcpConnection) : TcpServer :=
  let e := s.loops conn.loop
  ({ s with conns := Function.update s.conns c none } : TcpServer).setLoop conn.loop { e with
    poller := { e.poller with
      interest := Function.update e.poller.interest conn.channel.fd none } }

theorem release_ok (h : s.release c = .ok s') :
    ∃ conn, s.conns c = some conn ∧ s' = s.forget c conn := by
  unfold release at h
  split at h
  · cases h
  · next conn hc =>
      cases h
      exact ⟨conn, hc, rfl⟩

/-- Every other connection is still there, and `c` is not. -/
theorem ident_forget {i : ConnIdent} {c' : ConnId} :
    (s.forget c conn).ident c' = some i ↔ s.ident c' = some i ∧ c' ≠ c := by
  unfold ident forget setLoop
  by_cases hc : c' = c
  · simp [hc]
  · simp [hc]

theorem Sound.forget (h : s.Sound) (hc : s.conns c = some conn) : (s.forget c conn).Sound := by
  have hident := ident_of_conns hc
  have hwork : ∀ l, ∀ t ∈ (s.loops l).work, (s.forget c conn).Allowed l t := by
    intro l t ht
    have ha := (h.loops l).work t ht
    cases t with
    | conn c' t => exact ⟨ha.1, fun i hi => ha.2 i (ident_forget.mp hi).1⟩
    | removeConnectionInLoop c' => exact ha
  refine ⟨fun c' i hi => h.ident c' i (ident_forget.mp hi).1,
    fun c₁ c₂ i i' hi hi' => h.fds c₁ c₂ i i' (ident_forget.mp hi).1 (ident_forget.mp hi').1,
    h.connections, h.history, fun l => ?_⟩
  rw [TcpServer.forget, setLoop_loops]
  split
  · next hl =>
      subst hl
      refine ⟨fun fd events c' hint => ?_, (h.loops conn.loop).channels, hwork conn.loop⟩
      have hint' : Function.update (s.loops conn.loop).poller.interest conn.channel.fd none fd =
          some (events, c') := hint
      have hfd : fd ≠ conn.channel.fd := by
        rintro rfl
        rw [Function.update_self] at hint'
        cases hint'
      rw [Function.update_of_ne hfd] at hint'
      obtain ⟨i, hi, hloop, hifd⟩ := (h.loops conn.loop).interest fd events c' hint'
      refine ⟨i, ident_forget.mpr ⟨hi, ?_⟩, hloop, hifd⟩
      rintro rfl
      rw [hident, Option.some.injEq] at hi
      exact hfd (by rw [← hifd, ← hi]; rfl)
  · next hl =>
      refine ⟨fun fd events c' hint => ?_, (h.loops l).channels, hwork l⟩
      obtain ⟨i, hi, hloop, hifd⟩ := (h.loops l).interest fd events c' hint
      refine ⟨i, ident_forget.mpr ⟨hi, ?_⟩, hloop, hifd⟩
      rintro rfl
      rw [hident, Option.some.injEq] at hi
      exact hl (by rw [← hloop, ← hi]; rfl)

end TcpServer

end MiniMuduo
