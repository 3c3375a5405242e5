import MiniMuduo.Lib.RoundRobin
import MiniMuduo.Net.ServerRuns

/-!
# `EventLoopThreadPool`

`getNextLoop` answers the loops of the pool in turn (`handed_of_reachable`), whatever else is called in
between; before `start`, and in a pool without threads, it answers the base loop. A server therefore
gives its connections to its loops evenly (`TcpServer.dealt_evenly`), however many of them have gone.
-/

namespace MiniMuduo

open Fallible

inductive PoolFault where
  /-- `assert(!started_)`. -/
  | started
  /-- `loops_[next_]` is out of range. -/
  | outOfRange
  deriving DecidableEq

structure EventLoopThreadPool (L : Type) where
  baseLoop : L
  started : Bool
  numThreads : ℤ
  next : ℕ
  loops : List L

inductive PoolAction (L : Type) where
  | setThreadNum (numThreads : ℤ)
  /-- `start`, with what `startLoop` answers in each of its threads. -/
  | start (ls : List L)
  | getNextLoop

namespace EventLoopThreadPool

variable {L : Type}

def new (baseLoop : L) : EventLoopThreadPool L where
  baseLoop := baseLoop
  started := false
  numThreads := 0
  next := 0
  loops := []

def setThreadNum (p : EventLoopThreadPool L) (numThreads : ℤ) : EventLoopThreadPool L :=
  { p with numThreads := numThreads }

def start (p : EventLoopThreadPool L) (ls : List L) : Except PoolFault (EventLoopThreadPool L) := do
  check (p.started = false) .started
  return { p with started := true, loops := p.loops ++ ls }

def getNextLoop (p : EventLoopThreadPool L) : Except PoolFault (L × EventLoopThreadPool L) :=
  if p.loops.isEmpty then return (p.baseLoop, p)
  else match p.loops[p.next]? with
    | none => throw .outOfRange
    | some loop =>
        return (loop, { p with next := if p.next + 1 ≥ p.loops.length then 0 else p.next + 1 })

end EventLoopThreadPool

/-- A pool and what it has answered out of `loops_`. -/
structure PoolRun (L : Type) where
  pool : EventLoopThreadPool L
  handed : List L

namespace PoolRun

variable {L : Type} {s s' : PoolRun L} {a : PoolAction L}

/-- Every thread has a loop of its own, and none has the base loop. -/
def enabled (s : PoolRun L) : PoolAction L → Prop
  | .start ls => ls.length = s.pool.numThreads.toNat ∧ ls.Nodup ∧ s.pool.baseLoop ∉ ls
  | _ => True

def exec (s : PoolRun L) : PoolAction L → Except PoolFault (PoolRun L)
  | .setThreadNum n => return { s with pool := s.pool.setThreadNum n }
  | .start ls => do
      let p ← s.pool.start ls
      return { s with pool := p }
  | .getNextLoop => do
      let (loop, p) ← s.pool.getNextLoop
      return { pool := p, handed := if s.pool.loops.isEmpty then s.handed else s.handed ++ [loop] }

def system : StepSystem (PoolRun L) (PoolAction L) PoolFault where
  init := fun s => ∃ baseLoop, s = ⟨.new baseLoop, []⟩
  enabled := enabled
  exec := exec

/-- The cursor is where the loops that were handed out say. -/
structure Dealing (s : PoolRun L) : Prop where
  waits : s.pool.started = false → s.pool.loops = []
  nodup : s.pool.loops.Nodup
  empty : s.pool.loops = [] → s.handed = []
  cursor : s.pool.next = s.handed.length % s.pool.loops.length
  turns : RoundRobin s.pool.loops s.handed

end PoolRun

/-- The cursor after one more turn. -/
theorem cursor_succ {n k : ℕ} (hn : 0 < n) :
    (if k % n + 1 ≥ n then 0 else k % n + 1) = (k + 1) % n := by
  have hlt := Nat.mod_lt k hn
  rw [← Nat.mod_add_mod k n 1]
  split
  · rw [show k % n + 1 = n by omega, Nat.mod_self]
  · exact (Nat.mod_eq_of_lt (by omega)).symm

namespace PoolRun

variable {L : Type} {s s' : PoolRun L} {a : PoolAction L}

/-- `loops_[next_]` is in range. -/
theorem Dealing.getNextLoop (h : s.Dealing) (hne : s.pool.loops ≠ []) :
    ∃ loop, s.pool.loops[s.handed.length % s.pool.loops.length]? = some loop ∧
      s.pool.getNextLoop = .ok (loop, { s.pool with
        next := (s.handed.length + 1) % s.pool.loops.length }) := by
  have hpos := List.length_pos_iff.mpr hne
  have hlt := Nat.mod_lt s.handed.length hpos
  refine ⟨s.pool.loops[s.handed.length % s.pool.loops.length], List.getElem?_eq_getElem hlt, ?_⟩
  have hsome : s.pool.loops[s.pool.next]? =
      some s.pool.loops[s.handed.length % s.pool.loops.length] := by
    rw [h.cursor]
    exact List.getElem?_eq_getElem hlt
  have hempty : s.pool.loops.isEmpty = false := by
    rwa [List.isEmpty_eq_false_iff]
  rw [EventLoopThreadPool.getNextLoop, hempty]
  simp only [Bool.false_eq_true, if_false, hsome, pure_eq_ok]
  rw [h.cursor, cursor_succ hpos]

theorem Dealing.step (h : s.Dealing) (hstep : system.Step s a s') : s'.Dealing := by
  obtain ⟨hen, hex⟩ := hstep
  cases a with
  | setThreadNum n =>
      cases hex
      exact ⟨h.waits, h.nodup, h.empty, h.cursor, h.turns⟩
  | start ls =>
      obtain ⟨p, hp, hex⟩ := bind_eq_ok.mp hex
      obtain ⟨_, hstarted, hp⟩ := bind_eq_ok.mp hp
      cases hp
      cases hex
      have hnone := h.waits (check_eq_ok.mp hstarted)
      have hhanded := h.empty hnone
      have hcursor := h.cursor
      rw [hhanded] at hcursor
      refine ⟨nofun, ?_, fun _ => hhanded, ?_, ?_⟩
      · show (s.pool.loops ++ ls).Nodup
        rw [hnone]
        exact hen.2.1
      · show s.pool.next = s.handed.length % _
        rw [hcursor, hhanded]
        simp
      · show RoundRobin _ s.handed
        rw [hhanded]
        exact .nil _
  | getNextLoop =>
      obtain ⟨⟨loop, p⟩, hp, hex⟩ := bind_eq_ok.mp hex
      cases hex
      by_cases hne : s.pool.loops = []
      · have hbase : s.pool.getNextLoop = .ok (s.pool.baseLoop, s.pool) := by
          rw [EventLoopThreadPool.getNextLoop, hne]
          rfl
        rw [hbase] at hp
        cases hp
        have hsame : (if s.pool.loops.isEmpty then s.handed else s.handed ++ [s.pool.baseLoop]) =
            s.handed := by rw [hne]; rfl
        rw [hsame]
        exact h
      · obtain ⟨loop', hloop, hget⟩ := h.getNextLoop hne
        rw [hget] at hp
        cases hp
        have hmore : (if s.pool.loops.isEmpty then s.handed else s.handed ++ [loop]) =
            s.handed ++ [loop] := if_neg (by simpa using hne)
        rw [hmore]
        refine ⟨h.waits, h.nodup, fun hnil => absurd hnil hne, ?_, h.turns.concat hloop⟩
        show _ = (s.handed ++ [loop]).length % _
        rw [List.length_append, List.length_singleton]

/-- **The loops of a pool are handed out in turn**, `loops_[next_]` is never out of range, and no loop
is ahead of another by more than one. -/
theorem handed_of_reachable [DecidableEq L] (h : (system (L := L)).Reachable s) :
    RoundRobin s.pool.loops s.handed ∧
      (∀ l ∈ s.pool.loops, ∀ l' ∈ s.pool.loops, s.handed.count l ≤ s.handed.count l' + 1) ∧
      s.exec .getNextLoop ≠ .error .outOfRange := by
  have hs : s.Dealing := by
    refine h.invariant ?_ fun s a s' _ hs _ hstep => hs.step hstep
    rintro s ⟨baseLoop, rfl⟩
    exact ⟨fun _ => rfl, List.nodup_nil, fun _ => rfl, rfl, .nil _⟩
  refine ⟨hs.turns, fun l hl l' hl' => hs.turns.count_le_succ hs.nodup hl hl', fun hex => ?_⟩
  by_cases hne : s.pool.loops = []
  · have hbase : s.pool.getNextLoop = .ok (s.pool.baseLoop, s.pool) := by
      rw [EventLoopThreadPool.getNextLoop, hne]
      rfl
    rw [exec, hbase] at hex
    cases hex
  · obtain ⟨loop, -, hget⟩ := hs.getNextLoop hne
    rw [exec, hget] at hex
    cases hex

/-- The pool of three is asked before it is started, and four times after that. -/
def poolRun : List (PoolAction ℕ) :=
  [.getNextLoop, .setThreadNum 3, .start [1, 2, 3], .getNextLoop, .getNextLoop, .setThreadNum 5,
    .getNextLoop, .getNextLoop]

instance (s : PoolRun ℕ) (a : PoolAction ℕ) : Decidable (system.enabled s a) := by
  cases a <;> unfold system enabled <;> infer_instance

theorem handed_of_reachable_poolRun : ∃ s : PoolRun ℕ, s.handed = [1, 2, 3, 1] ∧
    s.handed.count 1 ≤ s.handed.count 2 + 1 := by
  obtain ⟨s, hs, htest⟩ := StepSystem.exists_reachableVia_of_runFrom? (M := system)
    (fun _ _ => True) poolRun (s := ⟨.new 0, []⟩)
    (p := fun s => decide (s.handed = [1, 2, 3, 1] ∧ 1 ∈ s.pool.loops ∧ 2 ∈ s.pool.loops))
    ⟨0, rfl⟩ (by decide +kernel)
  obtain ⟨hhanded, h1, h2⟩ := of_decide_eq_true htest
  exact ⟨s, hhanded, (handed_of_reachable hs).2.1 1 h1 2 h2⟩

end PoolRun

/-! ## The connections of a server -/

namespace TcpServer

variable {s s' s'' : TcpServer} {c : ConnId} {a : ServerAction}

/-- `loops_` of the pool. -/
def poolLoops (s : TcpServer) : List LoopId := (List.range s.ioLoops).map (· + 1)

/-- The pool of a server that was started. -/
def threadPool (s : TcpServer) : EventLoopThreadPool LoopId where
  baseLoop := 0
  started := true
  numThreads := s.ioLoops
  next := s.next
  loops := s.poolLoops

/-- No connection is made, and none changes its loop. -/
structure Undealt (s s' : TcpServer) : Prop where
  ioLoops : s'.ioLoops = s.ioLoops
  next : s'.next = s.next
  nextConnId : s'.nextConnId = s.nextConnId
  dealt : s'.dealt = s.dealt
  ident : ∀ c i, s'.ident c = some i → s.ident c = some i

theorem Undealt.trans (h : s.Undealt s') (h' : s'.Undealt s'') : s.Undealt s'' :=
  ⟨h'.ioLoops.trans h.ioLoops, h'.next.trans h.next, h'.nextConnId.trans h.nextConnId,
    h'.dealt.trans h.dealt, fun c i hi => h.ident c i (h'.ident c i hi)⟩

theorem setLoop_undealt (s : TcpServer) (l : LoopId) (e : EventLoop) : s.Undealt (s.setLoop l e) :=
  ⟨rfl, rfl, rfl, rfl, fun _ _ => id⟩

theorem removeConnectionInLoop_undealt (h : s.removeConnectionInLoop c = .ok s') : s.Undealt s' := by
  obtain ⟨conn, -, -, rfl⟩ := removeConnectionInLoop_ok h
  exact ⟨rfl, rfl, rfl, rfl, fun _ _ => id⟩

theorem perform_undealt {f : Call → Except NetFault Call} (h : s.perform c f = .ok s')
    (hkept : ∀ conn k, s.conns c = some conn → f ⟨conn, (s.loops conn.loop).poller, [], [], []⟩ = .ok k →
      k.conn.ident = conn.ident) : s.Undealt s' := by
  obtain ⟨conn, k, hc, hk, hcases⟩ := perform_ok h
  have hident : (s.commit c k).ident = s.ident := ident_update hc (hkept conn k hc hk)
  have hcommit : s.Undealt (s.commit c k) := ⟨rfl, rfl, rfl, rfl, fun c i hi => by rwa [hident] at hi⟩
  rcases hcases with ⟨-, rfl⟩ | ⟨-, hremove⟩
  · exact hcommit
  · refine hcommit.trans ?_
    unfold removeConnection at hremove
    split at hremove
    · exact removeConnectionInLoop_undealt hremove
    · cases hremove
      exact setLoop_undealt _ _ _

theorem setConn_undealt {conn conn' : TcpConnection} (hc : s.conns c = some conn)
    (hident : conn'.ident = conn.ident) :
    s.Undealt { s with conns := Function.update s.conns c (some conn') } := by
  have heq := ident_update (k := ⟨conn', (s.loops 0).poller, [], [], []⟩) hc hident
  exact ⟨rfl, rfl, rfl, rfl, fun c i hi => heq ▸ hi⟩

/-- Only `accept` deals a connection. -/
theorem undealt_of_step (hs : s.Tracked fun _ _ => True) (h : system.Step s a s')
    (ha : ∀ sockfd hwm, a ≠ .accept sockfd hwm) : s.Undealt s' := by
  obtain ⟨hen, hex⟩ := h
  cases a with
  | accept sockfd hwm => exact absurd rfl (ha sockfd hwm)
  | poll l reports =>
      obtain ⟨ts, -, hex⟩ := bind_eq_ok.mp hex
      cases hex
      exact setLoop_undealt _ _ _
  | takeFunctors l | endIteration l =>
      cases hex
      exact setLoop_undealt _ _ _
  | task l r w =>
      obtain ⟨t, ts, htodo⟩ := List.exists_cons_of_ne_nil hen
      have hrun : (s.popTask l ts).runTask r w t = .ok s' := (exec_task htodo r w).symm.trans hex
      refine (setLoop_undealt s l { s.loops l with todo := ts }).trans ?_
      cases t with
      | conn c t =>
          have hperform : (s.popTask l ts).perform c (fun k => k.runTask t r w) = .ok s' := hrun
          refine perform_undealt hperform fun conn k hc hk => ?_
          have hagrees := hs.agrees hc
          rw [← popTask_poller s l conn.loop ts] at hagrees
          exact (Call.runTask_kept hagrees rfl hk).1.ident
      | removeConnectionInLoop c => exact removeConnectionInLoop_undealt hrun
  | send t c message w =>
      have hperform : s.perform c (fun k => k.send t message w) = .ok s' := hex
      exact perform_undealt hperform fun _ _ _ hk => (Call.send_quiet hk).toKept.ident
  | sendBuffer t c data w =>
      have hperform : s.perform c (fun k => k.sendBuffer t data w) = .ok s' := hex
      exact perform_undealt hperform fun _ _ _ hk => (Call.sendBuffer_quiet hk).toKept.ident
  | shutdown t c =>
      have hperform : s.perform c (fun k => return k.shutdown t) = .ok s' := hex
      refine perform_undealt hperform fun conn k _ hk => ?_
      cases hk
      exact (Call.shutdown_quiet _ t).toKept.ident
  | retrieveInput c len =>
      replace hex : s.retrieveInput c len = .ok s' := hex
      unfold retrieveInput at hex
      split at hex
      · cases hex
      · next conn hc =>
          split at hex
          · cases hex
            exact setConn_undealt hc rfl
          · cases hex
  | setCallbacks c writeComplete highWaterMark =>
      replace hex : s.setCallbacks c writeComplete highWaterMark = .ok s' := hex
      unfold setCallbacks at hex
      split at hex
      · cases hex
      · next conn hc =>
          cases hex
          exact setConn_undealt hc rfl
  | release c =>
      obtain ⟨conn, -, rfl⟩ := release_ok hex
      exact ⟨rfl, rfl, rfl, rfl, fun c i hi => (ident_forget.mp hi).1⟩

/-- A connection is made in the next loop. -/
theorem undealt_of_newConnection {sockfd : Fd} {highWaterMark : ℕ}
    (h : s.newConnection sockfd highWaterMark = .ok s') :
    (s.enroll s.getNextLoop.2.next (s.nextConn s.getNextLoop.1 sockfd highWaterMark)).Undealt s' := by
  by_cases hpool : s.ioLoops = 0
  · have hget : s.getNextLoop = (0, s) := if_pos hpool
    unfold newConnection at h
    simp only [hget] at h
    rw [hget]
    exact perform_undealt h fun _ _ _ hk => (Call.connectEstablished_kept hk).ident
  · have hget : s.getNextLoop = (s.next + 1,
        { s with next := if s.next + 1 ≥ s.ioLoops then 0 else s.next + 1 }) := if_neg hpool
    unfold newConnection at h
    simp only [hget, if_neg (Nat.succ_ne_zero s.next)] at h
    cases h
    rw [hget]
    exact setLoop_undealt _ _ _

/-- The loops are dealt in turn, a connection for each, and the cursor of the pool is at the next. -/
structure Deals (s : TcpServer) : Prop where
  length : s.dealt.length + 1 = s.nextConnId
  cursor : 0 < s.ioLoops → s.next = s.dealt.length % s.ioLoops
  turns : 0 < s.ioLoops → RoundRobin s.poolLoops s.dealt
  base : s.ioLoops = 0 → ∀ l ∈ s.dealt, l = 0
  loops : ∀ c i, s.ident c = some i → 0 < c ∧ s.dealt[c - 1]? = some i.loop

theorem Undealt.deals (h : s.Undealt s') (hs : s.Deals) : s'.Deals := by
  obtain ⟨hio, hnext, hid, hdealt, hident⟩ := h
  have hpool : s'.poolLoops = s.poolLoops := by rw [poolLoops, poolLoops, hio]
  refine ⟨?_, ?_, ?_, ?_, fun c i hi => ?_⟩
  · rw [hdealt, hid]
    exact hs.length
  · rw [hio, hnext, hdealt]
    exact hs.cursor
  · rw [hio, hpool, hdealt]
    exact hs.turns
  · rw [hio, hdealt]
    exact hs.base
  · rw [hdealt]
    exact hs.loops c i (hident c i hi)

theorem length_poolLoops (s : TcpServer) : s.poolLoops.length = s.ioLoops := by simp [poolLoops]

theorem getElem?_poolLoops {i : ℕ} (h : i < s.ioLoops) : s.poolLoops[i]? = some (i + 1) := by
  simp [poolLoops, h]

theorem Deals.enroll (h : s.Deals) (sockfd : Fd) (highWaterMark : ℕ) :
    (s.enroll s.getNextLoop.2.next (s.nextConn s.getNextLoop.1 sockfd highWaterMark)).Deals := by
  have hlength := h.length
  have hdealt : (s.enroll s.getNextLoop.2.next
      (s.nextConn s.getNextLoop.1 sockfd highWaterMark)).dealt = s.dealt ++ [s.getNextLoop.1] := rfl
  refine ⟨?_, fun hio => ?_, fun hio => ?_, fun hio => ?_, fun c i hi => ?_⟩
  · rw [hdealt, List.length_append, List.length_singleton]
    show s.dealt.length + 1 + 1 = s.nextConnId + 1
    rw [hlength]
  · replace hio : 0 < s.ioLoops := hio
    rw [hdealt, List.length_append, List.length_singleton]
    show s.getNextLoop.2.next = (s.dealt.length + 1) % s.ioLoops
    rw [getNextLoop, if_neg hio.ne']
    show (if s.next + 1 ≥ s.ioLoops then 0 else s.next + 1) = _
    rw [h.cursor hio, cursor_succ hio]
  · replace hio : 0 < s.ioLoops := hio
    rw [hdealt]
    show RoundRobin s.poolLoops _
    apply (h.turns hio).concat
    rw [length_poolLoops, getElem?_poolLoops (Nat.mod_lt _ hio), getNextLoop, if_neg hio.ne',
      h.cursor hio]
  · replace hio : s.ioLoops = 0 := hio
    rw [hdealt, getNextLoop, if_pos hio]
    intro l hl
    rcases List.mem_append.mp hl with hl | hl
    · exact h.base hio l hl
    · exact List.mem_singleton.mp hl
  · rw [hdealt]
    by_cases hc : c = s.nextConnId
    · subst hc
      rw [ident_enroll_self, Option.some.injEq] at hi
      subst hi
      refine ⟨hlength ▸ Nat.succ_pos _, ?_⟩
      rw [← hlength, Nat.add_sub_cancel, List.getElem?_concat_length]
      rfl
    · rw [ident_enroll_of_ne hc] at hi
      obtain ⟨hpos, hat⟩ := h.loops c i hi
      obtain ⟨hlt, -⟩ := List.getElem?_eq_some_iff.mp hat
      exact ⟨hpos, by rw [List.getElem?_append_left hlt]; exact hat⟩

theorem deals_of_reachable (h : system.Reachable s) : s.Deals := by
  refine h.invariant ?_ fun s a s' hr hs _ hstep => ?_
  · rintro s ⟨name, ioLoops, writeComplete, rfl⟩
    exact ⟨rfl, fun _ => (Nat.zero_mod _).symm, fun _ => .nil _, fun _ l hl => absurd hl List.not_mem_nil,
      fun c i hi => by cases hi⟩
  · have htracked := tracked_of_reachable liberal_true (hr.mono fun s a _ => meets_true s a)
    by_cases ha : ∃ sockfd hwm, a = .accept sockfd hwm
    · obtain ⟨sockfd, hwm, rfl⟩ := ha
      exact (undealt_of_newConnection hstep.2).deals (hs.enroll sockfd hwm)
    · exact (undealt_of_step htracked hstep fun sockfd hwm heq => ha ⟨sockfd, hwm, heq⟩).deals hs

/-- What the server takes for `getNextLoop` is the one of its pool. -/
theorem getNextLoop_threadPool (h : system.Reachable s) :
    s.threadPool.getNextLoop = .ok (s.getNextLoop.1, s.getNextLoop.2.threadPool) := by
  have hs := deals_of_reachable h
  by_cases hpool : s.ioLoops = 0
  · have hnil : s.threadPool.loops.isEmpty = true := by
      simp [threadPool, poolLoops, hpool]
    rw [EventLoopThreadPool.getNextLoop, hnil, getNextLoop, if_pos hpool]
    rfl
  · have hio : 0 < s.ioLoops := by omega
    have hlt : s.next < s.ioLoops := by
      rw [hs.cursor hio]
      exact Nat.mod_lt _ hio
    have hempty : s.threadPool.loops.isEmpty = false := by
      simp [threadPool, poolLoops, hpool]
    have hat : s.threadPool.loops[s.threadPool.next]? = some (s.next + 1) := getElem?_poolLoops hlt
    have hlen : s.threadPool.loops.length = s.ioLoops := length_poolLoops s
    rw [EventLoopThreadPool.getNextLoop, hempty]
    simp only [Bool.false_eq_true, if_false, hat, pure_eq_ok, hlen, getNextLoop, if_neg hpool]
    rfl

/-- **The connections of a server are dealt evenly**: one loop was chosen for each connection there ever
was, its own, in turn; so no loop was given more than one connection more than another, whatever became
of them. A server without io loops gives them all to the base loop. -/
theorem dealt_evenly (h : system.Reachable s) :
    s.dealt.length + 1 = s.nextConnId ∧
      (∀ c conn, s.conns c = some conn → s.dealt[c - 1]? = some conn.loop) ∧
      (0 < s.ioLoops → RoundRobin s.poolLoops s.dealt ∧
        ∀ l ∈ s.poolLoops, ∀ l' ∈ s.poolLoops, s.dealt.count l ≤ s.dealt.count l' + 1) ∧
      (s.ioLoops = 0 → ∀ l ∈ s.dealt, l = 0) := by
  have hs := deals_of_reachable h
  have hnodup : s.poolLoops.Nodup := List.nodup_range.map fun a b hab => Nat.succ_injective hab
  refine ⟨hs.length, fun c conn hc => (hs.loops c _ (ident_of_conns hc)).2, fun hio => ?_, hs.base⟩
  exact ⟨hs.turns hio, fun l hl l' hl' => (hs.turns hio).count_le_succ hnodup hl hl'⟩

/-- Three connections over two loops. -/
def dealtRun : List ServerAction :=
  [.poll 0 [], .accept 5 0, .accept 6 0, .accept 7 0]

theorem dealt_evenly_dealtRun : ∃ s : TcpServer, s.dealt = [1, 2, 1] ∧
    s.dealt.count 1 ≤ s.dealt.count 2 + 1 := by
  obtain ⟨s, hs, htest⟩ := StepSystem.exists_reachableVia_of_runFrom? (M := system)
    (fun _ _ => True) dealtRun (s := new "server" 2 false)
    (p := fun s => decide (s.dealt = [1, 2, 1] ∧ 0 < s.ioLoops ∧ 1 ∈ s.poolLoops ∧ 2 ∈ s.poolLoops))
    ⟨"server", 2, false, rfl⟩ (by decide +kernel)
  obtain ⟨hdealt, hio, h1, h2⟩ := of_decide_eq_true htest
  exact ⟨s, hdealt, ((dealt_evenly hs).2.2.1 hio).2 1 h1 2 h2⟩

end TcpServer

end MiniMuduo
