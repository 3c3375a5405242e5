import MiniMuduo.Net.Pipe

/-!
# A side that answers

The program of a server that calls its connection in the callbacks only. A step of its loop either hands
it what was read or is work of the connection's own (`Session.step_byLoop`). All its sends are in the
thread of the loop, so until it is closed what the peer has received is a prefix of what it sent
(`Pipe.delivered_prefix_sent`), whether something was reset or not.
-/

namespace MiniMuduo

open Fallible

namespace Session

variable {s s' : Session} {a : SessionAction}

/-- The step notes the loop's own work. -/
structure WorksAlone (s : Session) (a : SessionAction) (s' : Session) : Prop where
  received : s.received a = []
  notes : ∃ es, s'.history = s.history ++ es ∧ ∀ e ∈ es, e.isOwn = true
  input : s'.conn.inputBuffer.readable = s.conn.inputBuffer.readable
  state : s'.conn.state = s.conn.state ∨
    s.conn.state = .kConnecting ∧ s'.conn.state = .kConnected

/-- The step hands what it reads to the user. -/
structure HandsOver (s : Session) (a : SessionAction) (s' : Session) : Prop where
  notes : s'.history = s.history ++ [.messageCallback s'.conn.inputBuffer.readable]
  input : s'.conn.inputBuffer.readable = s.conn.inputBuffer.readable ++ s.received a
  state : s'.conn.state = s.conn.state
  up : s.conn.state ≠ .kConnecting

theorem handleWrite_state {k k' : Call} {w : WriteResult} (h : k.handleWrite w = .ok k') :
    k'.conn.state = k.conn.state := by
  by_cases hw : k.conn.channel.isWriting
  · obtain ⟨b, -, ⟨rfl, -⟩ | ⟨-, p, -, rfl⟩⟩ := Call.handleWrite_ok hw h <;> rfl
  · rw [Call.handleWrite_of_not_isWriting hw] at h
    cases h
    rfl

/-- The state of a connection that stays open changes in a task when it comes up. -/
theorem runTask_state {t : ConnTask} {ts : List ConnTask} {r : Buffer.ReadResult} {w : WriteResult}
    {k : Call} (hgone : s.functors.count .connectDestroyed = 0) (htodo : s.todo = t :: ts)
    (hk : s.call.runTask t r w = .ok k) :
    k.conn.state = s.conn.state ∨ s.conn.state = .kConnecting ∧ k.conn.state = .kConnected := by
  have hclose : s.call.handleClose = .ok k → k.conn.state = s.conn.state := by
    intro hk
    obtain ⟨-, p, -, rfl⟩ := Call.handleClose_ok hk
    rfl
  cases t with
  | removeChannel =>
      obtain ⟨ch, p, -, rfl⟩ := Call.removeChannel_ok hk
      exact .inl rfl
  | event revents cb =>
      left
      cases cb with
      | close => exact hclose hk
      | write => exact handleWrite_state hk
      | error =>
          cases hk
          rfl
      | read =>
          cases r with
          | error =>
              cases hk
              rfl
          | data bytes =>
              cases bytes with
              | nil => exact hclose hk
              | cons b bs =>
                  cases hk
                  rfl
  | functor f =>
      cases f with
      | connectEstablished =>
          obtain ⟨hstate, p, -, rfl⟩ := Call.connectEstablished_ok hk
          exact .inr ⟨hstate, rfl⟩
      | connectDestroyed =>
          rw [functors_of_functor htodo, List.count_cons_self] at hgone
          omega
      | sendInLoop sender message =>
          have h : s.call.sendInLoop sender message w = .ok k := hk
          rw [Call.sendInLoop_eq] at h
          exact .inl (Call.buffer_state h)
      | shutdownInLoop =>
          cases hk
          rw [Call.shutdownInLoop_eq]
          exact .inl rfl
      | writeCompleteCallback | highWaterMarkCallback len =>
          cases hk
          exact .inl rfl

/-- A step of the loop or the owner, until `handleClose`. -/
theorem step_byLoop (hr : system.Reachable s) (hstep : system.Step s a s')
    (ha : a.byLoop = true) (hopen : ¬ s'.Closed) : s.WorksAlone a s' ∨ s.HandsOver a s' := by
  have ho := orderly_of_reachable hr
  have hgone : s.removing + s.gone = 0 := by
    by_contra hne
    exact hopen ((ho.accounts.closed (Nat.pos_of_ne_zero hne)).move (move_of_step hstep))
  obtain ⟨hen, hex⟩ := hstep
  have hsilent : s.received a = [] → s'.history = s.history → s'.conn = s.conn →
      s.WorksAlone a s' := by
    intro hnone hhist hconn
    exact ⟨hnone, ⟨[], by rw [hhist, List.append_nil], by simp⟩, by rw [hconn], .inl (by rw [hconn])⟩
  cases a with
  | poll revents => cases revents <;> cases hex <;> exact .inl (hsilent rfl rfl rfl)
  | task r w =>
      obtain ⟨t, ts, k, htodo, hk, rfl⟩ := exec_task_eq_ok hen hex
      have hstate : k.conn.state = s.conn.state ∨
          s.conn.state = .kConnecting ∧ k.conn.state = .kConnected := by
        refine runTask_state ?_ htodo hk
        unfold gone at hgone
        omega
      have hinput := input_task htodo hk
      rcases Call.runTask_notes hk with ⟨revents, b, bs, rfl, rfl⟩ | hown
      · cases hk
        exact .inr ⟨rfl, hinput, rfl, ho.waiting.ne_connecting htodo (by simp)⟩
      · have hnone : s.received (.task r w) = [] := by
          by_contra hne
          obtain ⟨revents, b, bs, rfl, rfl⟩ := read_of_received_ne_nil htodo hne
          obtain ⟨es, hes, hall⟩ := hown
          cases hk
          obtain rfl : [.messageCallback _] = es := hes
          exact absurd (hall _ List.mem_cons_self) (by simp [ConnEvent.isOwn])
        refine .inl ⟨hnone, hown.imp fun es hes => ⟨?_, hes.2⟩, ?_, hstate⟩
        · exact congrArg (s.history ++ ·) hes.1
        · rw [hnone, List.append_nil] at hinput
          exact hinput
  | removeConnection =>
      have hpos : 0 < s.removing := hen
      omega
  | takeFunctors | endIteration | others p =>
      cases hex
      exact .inl (hsilent rfl rfl rfl)
  | send | sendBuffer | shutdown | retrieveInput | setCallbacks => cases ha

end Session

/-- What was sent, in one piece. -/
def sentBytes (h : List ConnEvent) : Bytes := (sentMessages h).flatten

theorem sentBytes_append (h h' : List ConnEvent) :
    sentBytes (h ++ h') = sentBytes h ++ sentBytes h' := by
  rw [sentBytes, sentMessages_append, List.flatten_append]
  rfl

theorem sentBytes_of_isOwn {es : List ConnEvent} (h : ∀ e ∈ es, e.isOwn = true) :
    sentBytes es = [] := by
  have hnone : sentMessages es = [] := by
    refine List.filterMap_eq_nil_iff.mpr fun e he => ?_
    have hown := h e he
    cases e <;> first | rfl | cases hown
  rw [sentBytes, hnone]
  rfl

namespace Call

variable {k k' : Call} {t : ThreadId}

/-- A message sent in the thread of the loop while the connection is up. -/
theorem sentBytes_send {message : Bytes} {w : WriteResult} (hup : k.conn.state = .kConnected)
    (ht : k.conn.isInLoopThread t) (h : k.send t message w = .ok k') :
    ∃ es, k'.notes = k.notes ++ es ∧ sentBytes es = message ∧ ∀ e ∈ es, e.givesUp = false := by
  unfold send at h
  rw [if_pos hup, note_eq] at h
  dsimp only at h
  rw [if_pos (show (k.emit _ _).conn.isInLoopThread t from ht)] at h
  refine ⟨_, (sendInLoop_record h).1.trans (List.append_assoc _ _ _), ?_, ?_⟩
  · show (message :: sentMessages (k.writes message w)).flatten = message
    rw [sentMessages_writes]
    simp
  · intro e he
    rcases List.mem_cons.mp he with rfl | he
    · rfl
    · rcases List.mem_cons.mp he with rfl | he
      · rfl
      · unfold writes at he
        split at he
        · rw [List.mem_singleton.mp he]
          rfl
        · cases he

theorem sentBytes_sendBuffer {data : Bytes} {w : WriteResult} (hup : k.conn.state = .kConnected)
    (ht : k.conn.isInLoopThread t) (h : k.sendBuffer t data w = .ok k') :
    ∃ es, k'.notes = k.notes ++ es ∧ sentBytes es = data := by
  unfold sendBuffer at h
  rw [if_pos ⟨hup, ht⟩, note_eq] at h
  have hne : (k.emit [ConnEvent.send t data] []).conn.state ≠ .kDisconnected := by
    rw [emit_conn, hup]
    decide
  refine ⟨_, (sendBufferInLoop_record hne h).1.trans (List.append_assoc _ _ _), ?_⟩
  show (data :: sentMessages (k.writes data w)).flatten = data
  rw [sentMessages_writes]
  simp

theorem sentBytes_shutdown (k : Call) (t : ThreadId) :
    ∃ es, (k.shutdown t).notes = k.notes ++ es ∧ sentBytes es = [] := by
  unfold shutdown
  simp only [note_eq, queueInLoop_eq, shutdownInLoop_eq, emit_emit]
  split
  · split
    · refine ⟨_, rfl, ?_⟩
      unfold halfClose
      split <;> rfl
    · exact ⟨_, rfl, rfl⟩
  · exact ⟨[], (List.append_nil _).symm, rfl⟩

end Call

/-! ## Programs of different kinds -/

def Driven.map {π π' : Type} (get : π' → π) (d : Driven π') : Driven π :=
  ⟨d.session, get d.program, d.retrieved⟩

namespace Program

variable {π ι ε π' ι' ε' : Type} {P : Program π ι ε} {put : π → π'} {get : π' → π} {input : ι' → ι}
  {fault : ε → ε'} {d d' : Driven π'} {a : SessionAction} {i : ι'}

/-- The program with its states, inputs and faults among others, as where it faces a program of another
kind. -/
def embed (P : Program π ι ε) (put : π → π') (get : π' → π) (input : ι' → ι) (fault : ε → ε') :
    Program π' ι' ε' where
  start := put P.start
  setup := P.setup
  allows := P.allows
  react st s i e := do
    let (program, calls) ← (P.react (get st) s (input i) e).mapError fault
    return (put program, calls)
  ofNet e := fault (P.ofNet e)

instance (P : Program π ι ε) (put : π → π') (get : π' → π) (input : ι' → ι) (fault : ε → ε')
    [h : DecidablePred P.allows] : DecidablePred (P.embed put get input fault).allows := h

theorem perform_map (get : π' → π) {calls : List UserCall} (h : d.perform calls = .ok d') :
    (d.map get).perform calls = .ok (d'.map get) := by
  induction calls generalizing d with
  | nil =>
      cases h
      rfl
  | cons c calls ih =>
      rw [Driven.perform, List.foldlM_cons] at h ⊢
      obtain ⟨d₁, hd₁, h⟩ := bind_eq_ok.mp h
      obtain ⟨s₁, hs₁, hd₁⟩ := bind_eq_ok.mp hd₁
      cases hd₁
      exact bind_eq_ok.mpr ⟨_, bind_eq_ok.mpr ⟨s₁, hs₁, rfl⟩, ih h⟩

theorem answer_embed {e : ConnEvent} (hget : ∀ p, get (put p) = p)
    (h : (P.embed put get input fault).answer i d e = .ok d') :
    P.answer (input i) (d.map get) e = .ok (d'.map get) := by
  obtain ⟨⟨program, calls⟩, hreact, h⟩ := bind_eq_ok.mp h
  obtain ⟨⟨own, calls'⟩, hown, hreact⟩ := bind_eq_ok.mp hreact
  cases hreact
  refine bind_eq_ok.mpr ⟨_, mapError_eq_ok.mp hown, mapError_eq_ok.mpr ?_⟩
  have hperform := perform_map get (mapError_eq_ok.mp h)
  rw [Driven.map, hget] at hperform
  exact hperform

/-- A step of an embedded program is one of the program. -/
theorem step_embed (hget : ∀ p, get (put p) = p)
    (h : (P.embed put get input fault).system.Step d (a, i) d') :
    P.system.Step (d.map get) (a, input i) (d'.map get) := by
  obtain ⟨⟨hen, hallows⟩, hex⟩ := h
  refine ⟨⟨hen, hallows⟩, ?_⟩
  obtain ⟨d₁, hd₁, hanswers⟩ := bind_eq_ok.mp hex
  obtain ⟨s, hs, hd₁⟩ := bind_eq_ok.mp (mapError_eq_ok.mp hd₁)
  cases hd₁
  refine bind_eq_ok.mpr ⟨_, mapError_eq_ok.mpr (bind_eq_ok.mpr ⟨s, hs, rfl⟩), ?_⟩
  clear hex hs
  -- the answers, one by one
  have hall : ∀ (notes : List ConnEvent) (d₀ : Driven π'),
      notes.foldlM ((P.embed put get input fault).answer i) d₀ = .ok d' →
      notes.foldlM (P.answer (input i)) (d₀.map get) = .ok (d'.map get) := by
    intro notes
    induction notes with
    | nil =>
        intro d₀ h
        cases h
        rfl
    | cons e notes ih =>
        intro d₀ h
        rw [List.foldlM_cons] at h ⊢
        obtain ⟨d₁, hd₁, h⟩ := bind_eq_ok.mp h
        exact bind_eq_ok.mpr ⟨_, answer_embed hget hd₁, ih d₁ h⟩
  exact hall _ _ hanswers

end Program

/-! ## What a peer receives -/

namespace Pipe

variable {π ι ε : Type} {P : Side → Program π ι ε} {p : Pipe π} {side : Side}

/-- A program that only answers sends in the thread of the loop. -/
theorem sendsInLoop_of_byLoop (hallows : ∀ a, (P side).allows a → a.byLoop = true)
    (h : (system P).Reachable p) :
    (system P).ReachableVia (Only side Session.SendsInLoop) p := by
  refine h.invariant (I := (system P).ReachableVia (Only side Session.SendsInLoop))
    (fun p hinit => .init hinit) fun p act p' _ hp _ hstep => hp.step ?_ hstep
  cases act with
  | closeSocket _ | reset _ _ => trivial
  | step side' a =>
      rintro rfl
      have hby : a.1.byLoop = true := hallows _ hstep.1.1.2
      obtain ⟨a, i⟩ := a
      cases a with
      | send | sendBuffer => cases hby
      | _ => trivial

theorem inFlight_carry_of_broken {w : Wire UInt8} (hb : w.broken = true) (es : List ConnEvent) :
    (carry w es).inFlight = w.inFlight := by
  induction es generalizing w with
  | nil => rfl
  | cons e es ih =>
      rw [show carry w (e :: es) = carry (e.carry w) es from rfl]
      cases e with
      | write data result =>
          exact (ih (w := w.push (result.taken data)) hb).trans (if_pos hb)
      | shutdownWrite unsent => exact ih (w := w.finish) hb
      | _ => exact ih hb

/-- What has arrived and what is under way is a first part of what was sent. -/
def CarriesSent (x : Session × Wire UInt8) : Prop :=
  x.2.delivered ++ x.2.inFlight <+: sentBytes x.1.history

/-- Until something is lost, the kernel has what was sent up to what waits in the output buffer. -/
theorem carriesSent_of_whole {x : Session × Wire UInt8}
    (hr : Session.system.ReachableVia Session.SendsInLoop x.1)
    (hsent : x.2.sent = acceptedBytes x.1.history) (hsound : Sound x) (hopen : ¬ x.1.Closed)
    (hwhole : x.2.broken = false) : CarriesSent x := by
  have hflow := (Session.streams_of_reachable hr.reachable hopen).flow.conserved
  rw [(Session.inLoopOutput_of_reachable hr hopen).executes (hsound.kept hwhole)] at hflow
  exact ⟨_, by rw [x.2.whole hwhole, hsent, hflow]; rfl⟩

theorem kept_carriesSent :
    Kept Session.SendsInLoop fun x => x.2.sent = acceptedBytes x.1.history ∧
      (¬ x.1.Closed → Sound x ∧ CarriesSent x) where
  init s hs := by
    refine ⟨kept_accepted.init s hs, fun hopen => ⟨kept_sound.init s hs hopen, ?_⟩⟩
    exact List.nil_prefix
  calls := kept_sound.calls
  step a x y hr hx ha hl := by
    have hsent := kept_accepted.step a x y hr.reachable hx.1 trivial hl
    refine ⟨hsent, fun hopen => ?_⟩
    have hopen' : ¬ x.1.Closed := fun hc => hopen (hc.move (Session.move_of_step hl.step))
    have hsound := kept_sound.step a x y hr (fun ho => (hx.2 ho).1) ha hl hopen
    refine ⟨hsound, ?_⟩
    cases hb : y.2.broken with
    | false => exact carriesSent_of_whole (hr.step ha hl.step) hsent hsound hopen hb
    | true =>
        obtain ⟨es, hist, -, hw⟩ := hl.notes
        rw [hw, broken_carry] at hb
        unfold CarriesSent
        rw [hw, delivered_carry, inFlight_carry_of_broken hb, hist, sentBytes_append]
        exact (hx.2 hopen').2.trans (List.prefix_append _ _)
  pop s w n hx := by
    refine ⟨hx.1, fun hopen => ⟨kept_sound.pop s w n (fun ho => (hx.2 ho).1) hopen, ?_⟩⟩
    have heq : (w.pop n).delivered ++ (w.pop n).inFlight = w.delivered ++ w.inFlight := by
      show w.delivered ++ w.inFlight.take n ++ w.inFlight.drop n = _
      rw [List.append_assoc, List.take_append_drop]
    show (w.pop n).delivered ++ (w.pop n).inFlight <+: sentBytes s.history
    rw [heq]
    exact (hx.2 hopen).2
  finish s w hr hrel hx :=
    ⟨hx.1, fun hopen => ⟨kept_sound.finish s w hr hrel (fun ho => (hx.2 ho).1) hopen,
      (hx.2 hopen).2⟩⟩
  lose s w n hx := by
    refine ⟨hx.1, fun hopen => ⟨kept_sound.lose s w n (fun ho => (hx.2 ho).1) hopen, ?_⟩⟩
    exact ((List.prefix_append_right_inj _).mpr (List.take_prefix n _)).trans (hx.2 hopen).2

/-- **What a peer has received is a prefix of what was sent**, until the sender is closed. -/
theorem delivered_prefix_sent (h : (system P).ReachableVia (Only side Session.SendsInLoop) p)
    (hopen : ¬ (p.session side).Closed) :
    (p.wire side).delivered <+: sentBytes (p.session side).history :=
  (List.prefix_append _ _).trans ((kept_carriesSent.invariant h).2.2 hopen).2

/-- Who has read to the end of what was not reset has received everything that was sent. -/
theorem delivered_eq_sent (h : (system P).ReachableVia (Only side Session.SendsInLoop) p)
    (hopen : ¬ (p.session side).Closed) (hwhole : (p.wire side).broken = false)
    (hended : p.ended side.peer = true) :
    (p.wire side).delivered = sentBytes (p.session side).history := by
  obtain ⟨hs, hsound⟩ := kept_sound.invariant h
  obtain ⟨hall, hempty⟩ := accepted_of_ended h hopen hwhole hended
  have hflow := (Session.streams_of_reachable hs.reachable hopen).flow.conserved
  rw [hempty, List.append_nil,
    (Session.inLoopOutput_of_reachable hs hopen).executes ((hsound hopen).kept hwhole)] at hflow
  rw [hall, hflow]
  rfl

/-! ## What has arrived -/

/-- **The invariant rule for a side and what has arrived there**, until it is closed. -/
theorem arrived_invariant (side : Side) {I : Bytes → Driven π → Prop}
    (hinit : ∀ d, (P side).system.init d → I [] d)
    (hstep : ∀ arrived d a i d', Session.system.Reachable d.session →
      (P side).system.Step d (a, i) d' → ¬ d'.session.Closed →
      d'.session.conn.inputBuffer.readable <:+ arrived ++ d.session.received a →
      I arrived d → I (arrived ++ d.session.received a) d')
    (h : (system P).Reachable p) (hopen : ¬ (p.session side).Closed) :
    I (p.wire side.peer).delivered (p.user side) := by
  induction h with
  | @init p hinit' =>
      rw [hinit'.2.1]
      exact hinit _ (hinit'.1 side)
  | @step p p' act hr _ hst ih =>
      have hbefore := ih fun hc => hopen (closed_of_step side hst hc)
      have harrived := inputArrived_of_reachable (hr.step trivial hst) side
      rcases step_cases hst with ⟨side', a, i, d, rfl, hd, hread, -, huser, hwire, hpeer, -⟩ |
        ⟨huser, -, ⟨side', -, hwire⟩ | ⟨side', n, hwire⟩⟩
      · by_cases heq : side = side'
        · subst heq
          have hside : p'.user side = d := by rw [huser, if_pos rfl]
          have hdelivered : (p'.wire side.peer).delivered =
              (p.wire side.peer).delivered ++ (p.session side).received a := by
            rw [hpeer]
            exact delivered_of_readable hread
          rw [session, hside] at hopen
          rw [InputArrived, session, hside, hdelivered] at harrived
          rw [hside, hdelivered]
          exact hstep _ _ a i d (accepted_of_reachable hr side).1 hd hopen
            (harrived ▸ List.suffix_append _ _) hbefore
        · obtain rfl := Side.eq_peer_of_ne (Ne.symm heq)
          rw [huser, if_neg heq, hwire, delivered_carry]
          exact hbefore
      · rw [huser, hwire, Function.update_apply]
        split
        · next heq =>
            rw [Wire.delivered_finish, ← heq]
            exact hbefore
        · exact hbefore
      · rw [huser, hwire, Function.update_apply]
        split
        · next heq =>
            rw [Wire.delivered_lose, ← heq]
            exact hbefore
        · exact hbefore

end Pipe

end MiniMuduo
