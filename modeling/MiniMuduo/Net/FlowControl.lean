import MiniMuduo.Net.OutputStream
import MiniMuduo.Net.Program

/-!
# Flow control with `writeCompleteCallback_`

A program that sends a message when the connection comes up and again in every
`writeCompleteCallback_` keeps at most one message in the output buffer. The notification is queued
in two places, where a message was written at once and where `handleWrite` drains the buffer, and is
delivered later; a message is sent only when it is. So the notification and unwritten bytes take
turns (`flow_control`).
-/

namespace MiniMuduo

namespace Call

variable {k k' : Call}

/-- Buffering changes neither the state nor the callbacks. -/
theorem buffer_keeps {left : Bytes} (h : k.buffer left = .ok k') :
    k'.conn.state = k.conn.state ∧
      k'.conn.writeCompleteCallback = k.conn.writeCompleteCallback := by
  unfold buffer at h
  split at h
  · cases h
    exact ⟨rfl, rfl⟩
  · rcases appendOutput_ok h with ⟨-, rfl⟩ | ⟨-, p, -, rfl⟩ <;> exact ⟨rfl, rfl⟩

/-- A `sendInLoop` that finds nothing buffered either writes the message and queues the notification,
or buffers the end of the message and queues nothing. -/
theorem sendInLoop_direct {t : ThreadId} {message : Bytes} {w : WriteResult} (hd : k.Direct)
    (hne : message ≠ []) (hcb : k.conn.writeCompleteCallback = true)
    (h : k.sendInLoop t message w = .ok k') :
    (k'.conn.state = k.conn.state ∧ k'.conn.writeCompleteCallback = true) ∧
      (k'.queued = k.queued ++ [.writeCompleteCallback] ∧ k'.conn.unsent = [] ∨
        k'.queued = k.queued ∧ k'.conn.unsent ≠ [] ∧ k'.conn.unsent <:+ message) := by
  rw [sendInLoop_eq] at h
  obtain ⟨hstate, hcb'⟩ := buffer_keeps h
  obtain ⟨-, hqueued, hunsent, -, -⟩ := buffer_ok h
  rw [emit_conn, List.eq_nil_of_length_eq_zero hd.2, List.nil_append] at hunsent
  refine ⟨⟨hstate, hcb'.trans hcb⟩, ?_⟩
  rw [hqueued, hunsent, emit_queued]
  unfold completed taken completions
  rw [if_pos hd, hcb, if_pos rfl]
  cases hn : w.nwrote? message with
  | none =>
      right
      rw [taken_of_nwrote_none hn]
      simp only [reduceCtorEq, and_false, if_false, List.append_nil]
      exact ⟨trivial, hne, List.suffix_refl _⟩
  | some n =>
      obtain ⟨hlen, hle⟩ := length_taken_of_nwrote hn
      rw [hlen]
      by_cases hall : n = message.length
      · left
        rw [if_pos ⟨hd, by rw [hall]⟩, hall, List.drop_length]
        exact ⟨rfl, rfl⟩
      · right
        have hlt : n < message.length := by omega
        rw [if_neg (by simp [hall]), List.append_nil]
        exact ⟨rfl, drop_ne_nil_of_lt hlt, List.drop_suffix _ _⟩

end Call

/-- Calls of the user. -/
def SessionAction.IsUserCall : SessionAction → Prop
  | .send _ _ _ | .sendBuffer _ _ _ | .shutdown _ | .setCallbacks _ _ => True
  | _ => False

instance : DecidablePred SessionAction.IsUserCall
  | .send _ _ _ | .sendBuffer _ _ _ | .shutdown _ | .setCallbacks _ _ =>
      inferInstanceAs (Decidable True)
  | .poll _ | .task _ _ | .takeFunctors | .endIteration | .retrieveInput _ | .removeConnection
  | .others _ => inferInstanceAs (Decidable False)

/-- The program that sends `message` when the connection comes up and in every
`writeCompleteCallback_`. It may take bytes out of the input buffer and calls nothing else. -/
def pacer (message : Bytes) : Program Unit WriteResult NetFault where
  start := ()
  setup s := s.conn.writeCompleteCallback = true
  allows a := ¬ a.IsUserCall
  react _ _ w
    | .connectionCallback .kConnected | .writeCompleteCallback => return ((), [.send message w])
    | _ => return ((), [])
  ofNet := id

namespace Session

variable {s s' : Session} {ts : List ConnTask} {t : ConnTask} {k : Call} {message : Bytes}

/-- The `writeCompleteCallback_` notifications that are pending. -/
def notifications (s : Session) : ℕ := s.functors.count .writeCompleteCallback

/-- The connection is up, and a notification and unwritten bytes take turns. -/
def TakesTurns (message : Bytes) (s : Session) : Prop :=
  s.notifications = 1 ∧ s.conn.unsent = [] ∨
    s.notifications = 0 ∧ s.conn.unsent ≠ [] ∧ s.conn.unsent <:+ message

/-- What stays as the program leaves it. -/
structure Untouched (s : Session) : Prop where
  callback : s.conn.writeCompleteCallback = true
  functors : ∀ f ∈ s.functors, f = .connectEstablished ∨ f = .writeCompleteCallback

/-- Between callbacks. -/
structure Paced (message : Bytes) (s : Session) : Prop extends Untouched s where
  state : s.conn.state = .kConnecting ∨ s.conn.state = .kConnected ∧ TakesTurns message s

/-- In the callbacks that send. -/
structure Due (s : Session) : Prop extends Untouched s where
  state : s.conn.state = .kConnected
  notifications : s.notifications = 0
  unsent : s.conn.unsent = []

/-- Steps that leave the functors and the output side alone. -/
theorem Paced.of_same (h : Paced message s) (hf : s'.functors = s.functors)
    (hcb : s'.conn.writeCompleteCallback = s.conn.writeCompleteCallback)
    (hstate : s'.conn.state = s.conn.state) (hunsent : s'.conn.unsent = s.conn.unsent) :
    Paced message s' := by
  refine ⟨⟨hcb.trans h.callback, ?_⟩, ?_⟩
  · rw [hf]
    exact h.functors
  · unfold TakesTurns notifications
    rw [hstate, hunsent, hf]
    exact h.state

theorem Untouched.commit (h : s.Untouched) (hcb : k.conn.writeCompleteCallback = true)
    (hrest : k.rest = []) (hq : k.queued = [.writeCompleteCallback] ∨ k.queued = []) :
    (s.commit k).Untouched := by
  refine ⟨hcb, fun f hf => ?_⟩
  rw [functors_commit (by rw [hrest]; rfl)] at hf
  rcases List.mem_append.mp hf with hf | hf
  · exact h.functors f hf
  · rcases hq with hq | hq <;> rw [hq] at hf
    · exact .inr (List.mem_singleton.mp hf)
    · cases hf

theorem notifications_commit (hrest : k.rest = []) :
    (s.commit k).notifications = s.notifications + k.queued.count .writeCompleteCallback := by
  unfold notifications
  rw [functors_commit (by rw [hrest]; rfl), List.count_append]

/-- A task that is no functor is not waited for. -/
theorem Untouched.pop (h : s.Untouched) (htodo : s.todo = t :: ts) : (s.pop ts).Untouched := by
  refine ⟨h.callback, fun f hf => h.functors f ?_⟩
  cases t with
  | functor g =>
      rw [functors_of_functor htodo]
      exact List.mem_cons_of_mem _ hf
  | event _ _ | removeChannel => rwa [functors_of_not_functor htodo rfl]

/-- The program sends when nothing is buffered and no notification is pending. -/
theorem Due.send (h : s.Due) (hne : message ≠ []) (hw : ¬ s.conn.channel.isWriting)
    {w : WriteResult} (hs : s.exec (.send (.loop s.conn.loop) message w) = .ok s') :
    Paced message s' := by
  obtain ⟨k, hk, hs⟩ := Fallible.bind_eq_ok.mp hs
  cases hs
  have hrest := (Call.send_quiet hk).rest
  have hup : s.call.conn.state = .kConnected := h.state
  have hloop : s.call.conn.isInLoopThread (.loop s.conn.loop) := rfl
  have hdirect : (s.call.note (.send (.loop s.conn.loop) message)).Direct := by
    refine ⟨hw, ?_⟩
    show s.conn.unsent.length = 0
    rw [h.unsent]
    rfl
  simp only [Call.send, if_pos hup] at hk
  rw [if_pos (show (s.call.note _).conn.isInLoopThread _ from hloop)] at hk
  obtain ⟨⟨hstate, hcb⟩, hturn⟩ := Call.sendInLoop_direct hdirect hne h.callback hk
  have hstate' : k.conn.state = .kConnected := hstate.trans h.state
  rcases hturn with ⟨hq, hunsent⟩ | ⟨hq, hunsent, hsuf⟩
  · have hq' : k.queued = [.writeCompleteCallback] := hq
    refine ⟨h.commit hcb hrest (.inl hq'), .inr ⟨hstate', .inl ⟨?_, hunsent⟩⟩⟩
    rw [notifications_commit hrest, h.notifications, hq']
    rfl
  · have hq' : k.queued = [] := hq
    refine ⟨h.commit hcb hrest (.inr hq'), .inr ⟨hstate', .inr ⟨?_, hunsent, hsuf⟩⟩⟩
    rw [notifications_commit hrest, h.notifications, hq']
    rfl

/-- A writable event: the bytes that are left stay, or the notification takes their place. -/
theorem Paced.handleWrite (h : Paced message s) (hup : s.conn.state ≠ .kConnecting)
    (hw : s.conn.channel.isWriting ↔ s.conn.unsent ≠ []) {w : WriteResult}
    (hk : s.call.handleWrite w = .ok k) : Paced message (s.commit k) := by
  by_cases hwriting : s.conn.channel.isWriting
  · have hne := hw.mp hwriting
    have hrest := (Call.handleWrite_quiet hk).rest
    obtain ⟨hst, hturn⟩ := h.state.resolve_left hup
    obtain ⟨hzero, hsuf⟩ : s.notifications = 0 ∧ s.conn.unsent <:+ message := by
      rcases hturn with ⟨-, hnil⟩ | ⟨hzero, -, hsuf⟩
      · exact absurd hnil hne
      · exact ⟨hzero, hsuf⟩
    obtain ⟨b, hb, hcase⟩ := Call.handleWrite_ok hwriting hk
    rcases hcase with ⟨rfl, hleft⟩ | ⟨hdrained, p, hp, rfl⟩
    · refine ⟨h.commit h.callback rfl (.inr rfl), .inr ⟨hst, .inr ⟨?_, ?_, ?_⟩⟩⟩
      · rw [notifications_commit rfl, hzero]
        rfl
      · rcases hleft with ⟨-, rfl⟩ | hleft
        · exact hne
        · exact hleft
      · show b.readable <:+ message
        rw [hb]
        exact (List.drop_suffix _ _).trans hsuf
    · have hq : ((s.call.emit [.write s.conn.unsent w] []).setOutput b).completions =
          [.writeCompleteCallback] := if_pos h.callback
      refine ⟨h.commit h.callback rfl (.inl hq), .inr ⟨hst, .inl ⟨?_, hdrained⟩⟩⟩
      have hq' : (((s.call.emit [.write s.call.conn.unsent w] []).setOutput b).drained p).queued =
          [.writeCompleteCallback] := hq
      rw [notifications_commit rfl, hzero, hq']
      rfl
  · rw [Call.handleWrite_of_not_isWriting hwriting] at hk
    cases hk
    exact h.of_same (functors_commit rfl |>.trans (List.append_nil _)) rfl rfl rfl

end Session

/-! ## Whole runs -/

namespace Program

open Session

variable {message out : Bytes} {d d' : Driven Unit} {a : SessionAction} {w : WriteResult}

/-- The program answers nothing but the two callbacks in which it sends. -/
theorem pacer_answers_none {notes : List ConnEvent}
    (h : ∀ e ∈ notes, e ≠ .connectionCallback .kConnected ∧ e ≠ .writeCompleteCallback) :
    notes.foldlM ((pacer message).answer w) d = .ok d := by
  induction notes with
  | nil => rfl
  | cons e notes ih =>
      have hnone : (pacer message).answer w d e = .ok d := by
        have he := h e List.mem_cons_self
        cases e with
        | connectionCallback state => cases state <;> first | exact absurd rfl he.1 | rfl
        | writeCompleteCallback => exact absurd rfl he.2
        | _ => rfl
      rw [List.foldlM_cons, hnone]
      exact ih fun e he => h e (List.mem_cons_of_mem _ he)

/-- It answers these by sending. -/
theorem pacer_answers_send {e : ConnEvent}
    (he : e = .connectionCallback .kConnected ∨ e = .writeCompleteCallback)
    (h : [e].foldlM ((pacer message).answer w) d = .ok d') :
    d.session.exec (.send (.loop d.session.conn.loop) message w) = .ok d'.session := by
  rw [List.foldlM_cons] at h
  obtain ⟨d₁, hd₁, h⟩ := Fallible.bind_eq_ok.mp h
  cases h
  obtain ⟨calls, hreact, hperform, -⟩ := answer_eq_ok hd₁
  have hcalls : calls = [.send message w] := by
    rcases he with rfl | rfl <;> cases hreact <;> rfl
  rw [hcalls, Session.perform, List.foldlM_cons] at hperform
  obtain ⟨s₁, hs₁, hperform⟩ := Fallible.bind_eq_ok.mp hperform
  cases hperform
  exact hs₁

/-- A step whose notes the program does not answer. -/
theorem pacer_step_quiet {s : Session} {notes : List ConnEvent}
    (hhist : s.history = d.session.history ++ notes)
    (h : ∀ e ∈ notes, e ≠ .connectionCallback .kConnected ∧ e ≠ .writeCompleteCallback)
    (hanswers : (s.history.drop d.session.history.length).foldlM ((pacer message).answer w)
      ⟨s, d.program, out⟩ = .ok d') : d'.session = s := by
  rw [hhist, List.drop_left, pacer_answers_none h] at hanswers
  cases hanswers
  rfl

/-- A step whose note the program answers by sending. -/
theorem pacer_step_send {s : Session} {e : ConnEvent} (hne : message ≠ [])
    (hhist : s.history = d.session.history ++ [e])
    (he : e = .connectionCallback .kConnected ∨ e = .writeCompleteCallback)
    (hanswers : (s.history.drop d.session.history.length).foldlM ((pacer message).answer w)
      ⟨s, d.program, out⟩ = .ok d') (hdue : s.Due)
    (hw : s.conn.channel.isWriting ↔ s.conn.unsent ≠ []) : Paced message d'.session := by
  rw [hhist, List.drop_left] at hanswers
  have hsend := pacer_answers_send (d := ⟨s, d.program, _⟩) he hanswers
  exact hdue.send hne (fun hwriting => hw.mp hwriting hdue.unsent) hsend

/-- `handleWrite` makes no callback. -/
theorem notes_handleWrite {k k' : Call} {w : WriteResult} (hk : k.handleWrite w = .ok k')
    (hnotes : k.notes = []) :
    ∀ e ∈ k'.notes, e ≠ .connectionCallback .kConnected ∧ e ≠ .writeCompleteCallback := by
  by_cases hw : k.conn.channel.isWriting
  · obtain ⟨b, -, ⟨rfl, -⟩ | ⟨-, p, -, rfl⟩⟩ := Call.handleWrite_ok hw hk
    · intro e he
      have he' : e ∈ k.notes ++ [.write k.conn.unsent w] := he
      rw [hnotes, List.nil_append, List.mem_singleton] at he'
      rw [he']
      exact ⟨ConnEvent.noConfusion, ConnEvent.noConfusion⟩
    · intro e he
      have he' : e ∈ k.notes ++ [.write k.conn.unsent w] ++
        (if k.conn.state = .kDisconnecting then [.shutdownWrite b.readable] else []) := he
      rw [hnotes, List.nil_append] at he'
      split at he' <;> simp at he'
      · rcases he' with rfl | rfl <;> simp
      · simp [he']
  · rw [Call.handleWrite_of_not_isWriting hw] at hk
    cases hk
    rw [hnotes]
    simp

/-- Until `handleClose` a session is watched for `POLLOUT` as long as there is something to write. -/
theorem isWriting_iff {s : Session} (h : Session.system.Reachable s) (hopen : ¬ s.Closed) :
    s.conn.channel.isWriting ↔ s.conn.unsent ≠ [] :=
  (streams_of_reachable h hopen).flow.writing

/-- A task of the loop and the program's answer. -/
theorem paced_task {s : Session} {r : Buffer.ReadResult} {w' : WriteResult} {t : ConnTask}
    {ts : List ConnTask} {k : Call} (hne : message ≠ []) (h : Paced message d.session)
    (hr : Session.system.Reachable d.session) (hd : ¬ d.session.Closed)
    (htodo : d.session.todo = t :: ts) (hk : d.session.call.runTask t r w' = .ok k)
    (hs : s = (d.session.pop ts).commit k) (hr' : Session.system.Reachable s) (hopen : ¬ s.Closed)
    (hanswers : (s.history.drop d.session.history.length).foldlM ((pacer message).answer w)
      ⟨s, d.program, out⟩ = .ok d') : Paced message d'.session := by
  have ho := orderly_of_reachable hr
  have hw' := isWriting_iff hr' hopen
  have hclose : d.session.call.handleClose ≠ .ok k := by
    intro hk
    obtain ⟨-, p, hp, rfl⟩ := Call.handleClose_ok hk
    rw [hs] at hopen
    exact hopen (List.mem_append_right _ List.mem_cons_self)
  have hhist : s.history = d.session.history ++ k.notes := by rw [hs]; rfl
  have hnothing : ∀ s₀ : Session, (s₀.commit d.session.call).functors = s₀.functors :=
    fun s₀ => (functors_commit rfl).trans (List.append_nil _)
  cases t with
  | event revents cb =>
      have hup : d.session.conn.state ≠ .kConnecting := ho.waiting.ne_connecting htodo (by simp)
      have hpop : Paced message (d.session.pop ts) :=
        h.of_same (functors_of_not_functor htodo rfl).symm rfl rfl rfl
      cases cb with
      | close => exact absurd hk hclose
      | error =>
          cases hk
          rw [pacer_step_quiet hhist (by simp [Session.call]) hanswers, hs]
          exact hpop.of_same (hnothing _) rfl rfl rfl
      | write =>
          rw [pacer_step_quiet hhist (notes_handleWrite hk rfl) hanswers, hs]
          have hw := isWriting_iff hr hd
          exact hpop.handleWrite hup hw hk
      | read =>
          cases r with
          | error =>
              cases hk
              rw [pacer_step_quiet hhist (by simp [Session.call]) hanswers, hs]
              exact hpop.of_same (hnothing _) rfl rfl rfl
          | data bytes =>
              cases bytes with
              | nil => exact absurd hk hclose
              | cons b bs =>
                  cases hk
                  rw [pacer_step_quiet hhist (by simp [Session.call, Call.note]) hanswers, hs]
                  exact hpop.of_same (hnothing _) rfl rfl rfl
  | removeChannel =>
      -- the channel is watched for reading, which `removeChannel` refuses
      obtain ⟨ch, p, hrem, rfl⟩ := Call.removeChannel_ok hk
      obtain ⟨hnone, -, -⟩ := ho.registered.removeChannel hrem
      obtain ⟨-, hread⟩ := watching_of_reachable hr (ho.waiting.ne_connecting htodo (by simp)) hd
      rw [hnone] at hread
      exact absurd hread (by decide)
  | functor f =>
      have hpop : (d.session.pop ts).Untouched := h.pop htodo
      have hmem : f ∈ d.session.functors := by
        rw [functors_of_functor htodo]
        exact List.mem_cons_self
      rcases h.functors f hmem with rfl | rfl
      · -- the connection comes up, with nothing else waiting
        obtain ⟨hstate, p, hp, rfl⟩ := Call.connectEstablished_ok hk
        have hawaits := ho.waiting.1 hstate
        obtain ⟨-, rfl, hpending⟩ := hawaits.eq_of_todo htodo
        have hnone : (d.session.pop []).functors = [] := hpending
        refine pacer_step_send hne hhist (.inl rfl) hanswers ?_ hw'
        rw [hs]
        refine ⟨hpop.commit h.callback rfl (.inr rfl), rfl, ?_, hawaits.unsent⟩
        rw [notifications_commit rfl, notifications, hnone]
        rfl
      · cases hk
        have hup : d.session.conn.state ≠ .kConnecting := ho.waiting.ne_connecting htodo (by simp)
        obtain ⟨hst, hturn⟩ := h.state.resolve_left hup
        have hcount : d.session.notifications = (d.session.pop ts).notifications + 1 := by
          unfold notifications
          rw [functors_of_functor htodo, List.count_cons_self]
        -- the notification that is delivered was the one
        obtain ⟨hone, hunsent⟩ : d.session.notifications = 1 ∧ d.session.conn.unsent = [] := by
          rcases hturn with hone | ⟨hzero, -⟩
          · exact hone
          · omega
        refine pacer_step_send hne hhist (.inr rfl) hanswers ?_ hw'
        rw [hs]
        refine ⟨hpop.commit h.callback rfl (.inr rfl), hst, ?_, hunsent⟩
        rw [notifications_commit rfl]
        show (d.session.pop ts).notifications + 0 = 0
        omega

/-- One step of the program, until `handleClose`. -/
theorem paced_step (hne : message ≠ []) (h : Paced message d.session)
    (hr : Session.system.Reachable d.session) (hstep : (pacer message).system.Step d (a, w) d')
    (hopen : ¬ d'.session.Closed) : Paced message d'.session := by
  obtain ⟨hallows, s, hs, hanswers⟩ := step_eq_ok hstep
  have hr' : Session.system.Reachable s := .step hr trivial hs
  have hopen' : ¬ s.Closed := fun hc => hopen
    (answers_keep (Q := Session.Closed) (d := ⟨s, d.program, _⟩)
      (fun _ _ _ hst hc => hc.move (move_of_step hst)) hc hanswers)
  have hd : ¬ d.session.Closed := fun hc => hopen' (hc.move (move_of_step hs))
  obtain ⟨hen, hex⟩ := hs
  -- the steps that note nothing
  have hsilent : s.history = d.session.history → d'.session = s := by
    intro hhist
    exact pacer_step_quiet (by rw [hhist, List.append_nil]) (by simp) hanswers
  cases a with
  | poll revents =>
      cases revents with
      | none =>
          cases hex
          rw [hsilent rfl]
          exact h.of_same rfl rfl rfl rfl
      | some revents =>
          cases hex
          rw [hsilent rfl]
          refine h.of_same ?_ rfl rfl rfl
          unfold Session.functors
          rw [functors_eventTasks, hen.2.1]
          rfl
  | task r w' =>
      obtain ⟨t, ts, k, htodo, hk, rfl⟩ := Session.exec_task_eq_ok hen hex
      exact paced_task hne h hr hd htodo hk rfl hr' hopen' hanswers
  | takeFunctors =>
      cases hex
      rw [hsilent rfl]
      refine h.of_same ?_ rfl rfl rfl
      unfold Session.functors
      rw [functors_map_functor, hen.2, List.append_nil]
      rfl
  | retrieveInput len =>
      obtain ⟨b, -, rfl⟩ := Session.exec_retrieveInput_eq_ok.mp hex
      rw [hsilent rfl]
      exact h.of_same rfl rfl rfl rfl
  | removeConnection =>
      -- only a connection that was closed is removed
      exact absurd ((orderly_of_reachable hr).accounts.closed (Nat.add_pos_left hen _)) hd
  | send _ _ _ | sendBuffer _ _ _ | shutdown _ | setCallbacks _ _ => exact absurd trivial hallows
  | endIteration | others p =>
      cases hex
      rw [hsilent rfl]
      exact h.of_same rfl rfl rfl rfl

theorem paced_of_reachable (hne : message ≠ []) (h : (pacer message).system.Reachable d)
    (hopen : ¬ d.session.Closed) : Paced message d.session := by
  induction h with
  | init hinit =>
      obtain ⟨⟨self, loop, name, sockfd, hwm, wc, p, phase, atOnce, -, -, hs⟩, hcb, -⟩ := hinit
      refine ⟨⟨hcb, fun f hf => ?_⟩, ?_⟩
      · rw [hs] at hf
        left
        cases atOnce <;> simpa [opened, Session.functors, ConnTask.functor?] using hf
      · rw [hs]
        exact .inl rfl
  | @step d d' a hr _ hstep ih =>
      have hd : ¬ d.session.Closed := fun hc => hopen (closed_step hstep hc)
      exact paced_step hne (ih hd) (session_reachable hr) hstep hopen

/-- **Flow control**: from the UP callback to `handleClose`, either one notification is pending and
nothing is unwritten, or none is and something is; so at most one message is buffered, and no
notification is queued while bytes are unwritten. -/
theorem flow_control (message : Bytes) (hne : message ≠ []) {d : Driven Unit}
    (h : (pacer message).system.Reachable d)
    (hup : .connectionCallback .kConnected ∈ d.session.history)
    (hopen : .closeCallback ∉ d.session.history) :
    (d.session.notifications = 1 ∧ d.session.conn.unsent = [] ∨
        d.session.notifications = 0 ∧ d.session.conn.unsent ≠ []) ∧
      ¬ ((d.session.notifications = 1 ∧ d.session.conn.unsent = []) ∧
        d.session.notifications = 0 ∧ d.session.conn.unsent ≠ []) ∧
      d.session.conn.unsent.length ≤ message.length ∧
      (.writeCompleteCallback ∈ d.session.functors → d.session.conn.unsent = []) := by
  have hpaced := paced_of_reachable hne h hopen
  have ho := orderly_of_reachable (session_reachable h)
  have hstate : d.session.conn.state ≠ .kConnecting := by
    intro hst
    rw [(ho.waiting.1 hst).history] at hup
    cases hup
  obtain ⟨-, hturn⟩ := hpaced.state.resolve_left hstate
  rcases hturn with ⟨hone, hnil⟩ | ⟨hzero, hne', hsuf⟩
  · refine ⟨.inl ⟨hone, hnil⟩, fun hboth => hboth.2.2 hnil, ?_, fun _ => hnil⟩
    rw [hnil]
    exact Nat.zero_le _
  · refine ⟨.inr ⟨hzero, hne'⟩, fun hboth => hne' hboth.1.2, hsuf.length_le, fun hmem => ?_⟩
    have hpos : 0 < d.session.notifications := List.count_pos_iff.mpr hmem
    omega

/-- A connection whose owner set `writeCompleteCallback_`. -/
def pacedSession : Session :=
  opened (.new 1 0 "server#1" 5 0 true) ⟨fun _ => none, fun _ => none⟩ .dispatching true

theorem init_pacedSession (message : Bytes) :
    (pacer message).system.init ⟨pacedSession, (), []⟩ :=
  ⟨⟨1, 0, "server#1", 5, 0, true, _, .dispatching, true, by simp, rfl, rfl⟩, rfl, rfl, rfl⟩

instance (message : Bytes) : DecidablePred (pacer message).allows :=
  inferInstanceAs (DecidablePred fun a => ¬ SessionAction.IsUserCall a)

/-- The message is written in part, drained, and sent again in the callback. -/
def pacedRun : List (SessionAction × WriteResult) :=
  [(.task .error (.accepted 0), .accepted 2), (.takeFunctors, .accepted 0),
    (.endIteration, .accepted 0), (.poll (some {.POLLOUT}), .accepted 0),
    (.task .error (.accepted 1), .accepted 0), (.takeFunctors, .accepted 0),
    (.task .error (.accepted 0), .failed .EWOULDBLOCK)]

theorem flow_control_pacedRun : ∃ d, (pacer [1, 2, 3]).system.Reachable d ∧
    (.connectionCallback .kConnected ∈ d.session.history ∧
      .closeCallback ∉ d.session.history ∧ d.session.conn.unsent = [1, 2, 3]) ∧
    d.session.conn.unsent.length ≤ 3 := by
  obtain ⟨d, hd, hseen⟩ := StepSystem.exists_reachableVia_of_runFrom? (fun _ _ => True)
    pacedRun (M := (pacer [1, 2, 3]).system)
    (p := fun d => decide (.connectionCallback .kConnected ∈ d.session.history ∧
      .closeCallback ∉ d.session.history ∧ d.session.conn.unsent = [1, 2, 3]))
    (init_pacedSession [1, 2, 3]) (by decide +kernel)
  have hseen := of_decide_eq_true hseen
  exact ⟨d, hd, hseen, (flow_control [1, 2, 3] (by decide) hd hseen.1 hseen.2.1).2.2.1⟩

end Program

end MiniMuduo
