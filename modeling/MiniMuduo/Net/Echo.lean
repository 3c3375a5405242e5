import MiniMuduo.Net.Answering

/-!
# An echo server and its client

The server of `tests/test9.cpp` and of the benchmark answers every message with its bytes:

    conn->send(buf->retrieveAsString());

At the far end of a `Pipe` it faces any client. Until its connection is closed, what it has executed is
what has arrived (`echoes_of_reachable`), so a byte of the client is in exactly one place on its way
there and back, and what comes back is a prefix of what the client sent (`echo_conserved`).
-/

namespace MiniMuduo

open Fallible

/-- The echo server, which is told what its `::write`s answer. -/
def echo {π ι : Type} (start : π) (result : ι → WriteResult) : Program π ι NetFault where
  start := start
  setup _ := True
  allows a := a.byLoop = true
  react st _ i
    | .messageCallback readable =>
        return (st, [.retrieveInput readable.length, .send readable (result i)])
    | _ => return (st, [])
  ofNet := id

instance {π ι : Type} (start : π) (result : ι → WriteResult) :
    DecidablePred (echo start result).allows :=
  fun a => inferInstanceAs (Decidable (a.byLoop = true))

/-! ## The connection of the server -/

/-- The connection of an echo server between callbacks. -/
structure Session.EchoIdle (s : Session) : Prop where
  input : s.conn.inputBuffer.readable = []
  state : s.conn.state = .kConnecting ∨ s.conn.state = .kConnected
  kept : ∀ e ∈ s.history, e.givesUp = false

namespace Program

variable {π ι : Type} {start : π} {result : ι → WriteResult} {d d' : Driven π} {a : SessionAction}
  {i : ι}

theorem echo_answers_none {notes : List ConnEvent} (h : ∀ e ∈ notes, e.isOwn = true) :
    notes.foldlM ((echo start result).answer i) d = .ok d := by
  induction notes with
  | nil => rfl
  | cons e notes ih =>
      have hnone : (echo start result).answer i d e = .ok d := by
        have he := h e List.mem_cons_self
        cases e <;> first | rfl | cases he
      rw [List.foldlM_cons, hnone]
      exact ih fun e he => h e (List.mem_cons_of_mem _ he)

/-- A message is taken out of the input buffer and sent. -/
theorem echo_answers_message {readable : Bytes}
    (h : [.messageCallback readable].foldlM ((echo start result).answer i) d = .ok d') :
    ∃ b, d.session.conn.inputBuffer.retrieve readable.length = .ok b ∧
      { d.session with conn := { d.session.conn with inputBuffer := b } }.exec
        (.send (.loop d.session.conn.loop) readable (result i)) = .ok d'.session := by
  rw [List.foldlM_cons] at h
  obtain ⟨d₁, hd₁, h⟩ := bind_eq_ok.mp h
  cases h
  obtain ⟨calls, hreact, hperform, -⟩ := answer_eq_ok hd₁
  obtain rfl := (Prod.mk.inj (Except.ok.inj hreact)).2
  rw [Session.perform, List.foldlM_cons] at hperform
  obtain ⟨s₁, hs₁, hperform⟩ := bind_eq_ok.mp hperform
  obtain ⟨b, hb, rfl⟩ := Session.exec_retrieveInput_eq_ok.mp hs₁
  rw [List.foldlM_cons] at hperform
  obtain ⟨s₂, hs₂, hperform⟩ := bind_eq_ok.mp hperform
  cases hperform
  exact ⟨b, hb, hs₂⟩

/-- A send in the thread of the loop on a connection that is up. -/
theorem send_up {s s' : Session} {message : Bytes} {w : WriteResult}
    (hup : s.conn.state = .kConnected)
    (h : s.exec (.send (.loop s.conn.loop) message w) = .ok s') :
    s'.conn.state = .kConnected ∧ s'.conn.inputBuffer = s.conn.inputBuffer ∧
      ∃ es, s'.history = s.history ++ es ∧ sentBytes es = message ∧
        ∀ e ∈ es, e.givesUp = false := by
  obtain ⟨k, hk, h⟩ := bind_eq_ok.mp h
  cases h
  have hinput : k.conn.inputBuffer = s.conn.inputBuffer := Call.sameInput_send hk
  obtain ⟨es, hnotes, hsends⟩ := Call.sentBytes_send (k := s.call) hup rfl hk
  have hstate : k.conn.state = s.conn.state := by
    unfold Call.send at hk
    rw [if_pos (show s.call.conn.state = .kConnected from hup), Call.note_eq] at hk
    dsimp only at hk
    rw [if_pos (show (s.call.emit _ _).conn.isInLoopThread (.loop s.conn.loop) from rfl),
      Call.sendInLoop_eq] at hk
    exact Call.buffer_state hk
  exact ⟨hstate.trans hup, hinput, es, congrArg (s.history ++ ·) hnotes, hsends⟩

/-- **A step of the echo server** sends what it reads, and is idle again. -/
theorem echo_step (hidle : d.session.EchoIdle) (hr : Session.system.Reachable d.session)
    (hstep : (echo start result).system.Step d (a, i) d') (hopen : ¬ d'.session.Closed) :
    d'.session.EchoIdle ∧
      sentBytes d'.session.history = sentBytes d.session.history ++ d.session.received a := by
  obtain ⟨hallows, s, hs, hanswers⟩ := step_eq_ok hstep
  have hopen' : ¬ s.Closed := fun hc => hopen
    (answers_keep (Q := Session.Closed) (d := ⟨s, d.program, _⟩)
      (fun _ _ _ hst hc => hc.move (Session.move_of_step hst)) hc hanswers)
  rcases Session.step_byLoop hr hs hallows hopen' with halone | hover
  · obtain ⟨hnone, ⟨es, hist, hown⟩, hinput, hstate⟩ := halone
    rw [hist, List.drop_left, echo_answers_none hown] at hanswers
    cases hanswers
    rw [hist, sentBytes_append, sentBytes_of_isOwn hown, hnone]
    refine ⟨⟨hinput.trans hidle.input, ?_, fun e he => ?_⟩, rfl⟩
    · rcases hstate with heq | ⟨-, hup⟩
      · rw [heq]
        exact hidle.state
      · exact .inr hup
    · rw [hist] at he
      exact (List.mem_append.mp he).elim (hidle.kept e)
        fun hin => ConnEvent.givesUp_of_isOwn (hown e hin)
  · obtain ⟨hist, hinput, hstate, hne⟩ := hover
    rw [hist, List.drop_left] at hanswers
    obtain ⟨b, hb, hsend⟩ := echo_answers_message hanswers
    have hup : s.conn.state = .kConnected := hstate.trans (hidle.state.resolve_left hne)
    obtain ⟨hup', hinput', es, hist', hsent, hkept⟩ := send_up (s := { s with conn :=
      { s.conn with inputBuffer := b } }) hup hsend
    have hbytes : s.conn.inputBuffer.readable = d.session.received a := by
      rw [hinput, hidle.input, List.nil_append]
    have hhist : d'.session.history =
        d.session.history ++ [.messageCallback s.conn.inputBuffer.readable] ++ es :=
      hist'.trans (congrArg (· ++ es) hist)
    refine ⟨⟨?_, .inr hup', fun e he => ?_⟩, ?_⟩
    · rw [hinput', (WfBuffer.readable_of_retrieve hb).2, List.drop_length]
    · rw [hhist] at he
      rcases List.mem_append.mp he with he | he
      · rcases List.mem_append.mp he with he | he
        · exact hidle.kept e he
        · rw [List.mem_singleton.mp he]
          rfl
      · exact hkept e he
    · have hmute : sentBytes [.messageCallback s.conn.inputBuffer.readable] = [] := rfl
      rw [hhist, sentBytes_append, sentBytes_append, hmute, List.append_nil, hsent, hbytes]

end Program

/-! ## The server and a client -/

/-- Any client at the near side, the echo server at the far side. -/
def echoed {π ι : Type} (client : Program π ι NetFault) (result : ι → WriteResult) :
    Side → Program π ι NetFault
  | .near => client
  | .far => echo client.start result

instance decidableEchoed {π ι : Type} (client : Program π ι NetFault) (result : ι → WriteResult)
    [h : DecidablePred client.allows] : ∀ side, DecidablePred (echoed client result side).allows
  | .near => h
  | .far => inferInstanceAs (DecidablePred (echo client.start result).allows)

namespace Pipe

variable {π ι : Type} {client : Program π ι NetFault} {result : ι → WriteResult} {p p' : Pipe π}
  {act : PipeAction ι}

/-- The server sends in the thread of its loop. -/
theorem echo_sendsInLoop (h : (system (echoed client result)).Reachable p) :
    (system (echoed client result)).ReachableVia (Only .far Session.SendsInLoop) p :=
  sendsInLoop_of_byLoop (fun _ hby => hby) h

/-- What has arrived at the server is sent. -/
structure Echoes (arrived : Bytes) (s : Session) : Prop where
  idle : s.EchoIdle
  sent : sentBytes s.history = arrived

theorem echoes_of_reachable (h : (system (echoed client result)).Reachable p)
    (hopen : ¬ (p.session .far).Closed) :
    Echoes (p.wire .near).delivered (p.session .far) := by
  refine arrived_invariant .far (I := fun arrived d => Echoes arrived d.session)
    (fun d hinit => ?_) (fun arrived d a i d' hr hd hopen _ hd₀ => ?_) h hopen
  · obtain ⟨self, loop, name, sockfd, hwm, wc, q, phase, atOnce, -, -, hs⟩ := hinit.1
    rw [hs]
    exact ⟨⟨WfBuffer.readable_new, .inl rfl, by simp [Session.opened]⟩, rfl⟩
  · obtain ⟨hidle, hsent⟩ := Program.echo_step hd₀.idle hr hd hopen
    exact ⟨hidle, by rw [hsent, hd₀.sent]⟩

/-- What the server has executed is what has arrived. -/
theorem echo_executed (h : (system (echoed client result)).Reachable p)
    (hopen : ¬ (p.session .far).Closed) :
    executedBytes (p.session .far).history = (p.wire .near).delivered := by
  have hechoes := echoes_of_reachable h hopen
  have hreach := (kept_sound.invariant (echo_sendsInLoop h)).1
  rw [← hechoes.sent]
  exact (Session.inLoopOutput_of_reachable hreach hopen).executes hechoes.idle.kept

/-- **Echo.** Against any client, until the server's connection is closed: what the client has received
is a prefix of what it executed; and unless something was reset, every byte it executed has come back,
is on its way back, waits in the server's output buffer, is on its way there, or waits in the
client's. -/
theorem echo_conserved (h : (system (echoed client result)).Reachable p)
    (hfar : .closeCallback ∉ (p.session .far).history) :
    (p.wire .far).delivered <+: executedBytes (p.session .near).history ∧
      ((p.wire .near).broken = false → (p.wire .far).broken = false →
        (p.wire .far).delivered ++ (p.wire .far).inFlight ++
          (p.session .far).conn.outputBuffer.readable ++ (p.wire .near).inFlight ++
          (p.session .near).conn.outputBuffer.readable =
            executedBytes (p.session .near).history) := by
  have hechoed := echo_executed h hfar
  refine ⟨?_, fun hthere hback => ?_⟩
  · refine ((delivered_prefix_executed h .far).trans ?_).trans (delivered_prefix_executed h .near)
    rw [hechoed]
  · have hfirst : (p.wire .far).delivered ++ (p.wire .far).inFlight ++
        (p.session .far).conn.outputBuffer.readable = (p.wire .near).delivered :=
      (accounted h hback).trans hechoed
    rw [hfirst]
    exact accounted h hthere

/-- The client sends three bytes. The server reads two of them and sends them back, and the client
reads one. -/
def echoRun : List (PipeAction Unit) :=
  [.step .near (.task .error (.accepted 0), ()), .step .near (.takeFunctors, ()),
    .step .near (.endIteration, ()), .step .far (.task .error (.accepted 0), ()),
    .step .far (.takeFunctors, ()), .step .far (.endIteration, ()),
    .step .near (.send (.loop 0) [1, 2, 3] (.accepted 3), ()),
    .step .far (.poll (some {.POLLIN}), ()),
    .step .far (.task (.data [1, 2]) (.accepted 0), ()),
    .step .near (.poll (some {.POLLIN}), ()),
    .step .near (.task (.data [1]) (.accepted 0), ())]

theorem echo_conserved_echoRun : ∃ p : Pipe Unit, (p.wire .far).delivered = [1] ∧
    (p.wire .far).delivered ++ (p.wire .far).inFlight ++
      (p.session .far).conn.outputBuffer.readable ++ (p.wire .near).inFlight ++
      (p.session .near).conn.outputBuffer.readable =
        executedBytes (p.session .near).history := by
  obtain ⟨p, hp, hd⟩ := StepSystem.exists_reachableVia_of_runFrom? (fun _ _ => True) echoRun
    (M := system (echoed anyUser fun _ => .accepted 2))
    (p := fun p => decide ((p.wire .far).delivered = [1] ∧
      .closeCallback ∉ (p.session .far).history ∧ (p.wire .near).broken = false ∧
      (p.wire .far).broken = false))
    (init_firstPipe fun side => by cases side <;> trivial) (by decide +kernel)
  obtain ⟨hone, hfar, hthere, hback⟩ := of_decide_eq_true hd
  exact ⟨p, hone, (echo_conserved hp hfar).2 hthere hback⟩

end Pipe

end MiniMuduo
