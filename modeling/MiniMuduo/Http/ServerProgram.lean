import MiniMuduo.Http.RequestLine
import MiniMuduo.Http.Termination
import MiniMuduo.Net.Program

/-!
# `HttpServer` as a program

The server on one connection, with the connection. Each read is handed to `onMessage`, and what that
does becomes calls on the connection: `send` and `shutdown` for a refused line, `send(Buffer *)` and
possibly `shutdown` for a request that was handled (`MessageEnd`).

For the server a connection that was not closed has two states, and `deliver` says what becomes of the
server's actions in them: a response is accepted in `kConnected` only, and `shutdown` leaves that
state. `server_move` is the one lemma about the steps of the program: a step hands no bytes to the
server and changes nothing for it, or it is a read, after which the actions of `onMessage` have been
delivered.
-/

namespace MiniMuduo

open Fallible Search

namespace HttpContext

variable {ctx s : HttpContext} {b r line : Bytes}

/-! ## What a call makes of the unread bytes -/

/-- The unread bytes complete the request. -/
def completes (ctx : HttpContext) (unread : Bytes) : Bool :=
  match parser.drive ctx.untimed unread with
  | .done (.ok true) _ _ => true
  | _ => false

/-- A request line is expected, and the next line is none. -/
def AtRefusedLine (ctx : HttpContext) (unread : Bytes) : Prop :=
  ctx.state = .ExpectRequestLine ∧ ∃ line rest, cutLine unread = some (line, rest) ∧
    ∀ m target v, ¬ IsRequestLine line m target v

/-- A line that is answered false is no request line, whatever the request was before. -/
theorem not_isRequestLine_of_false (h : ctx.processRequestLine line = .ok (false, s)) :
    ∀ m target v, ¬ IsRequestLine line m target v := by
  rintro m target v ⟨hm, hspace, hv, rfl⟩
  have hs₁ : splitFirst SP (requestLine m target v) = some (HttpRequest.methodString m, _) :=
    splitFirst_eq_some.mpr ⟨rfl, SP_not_mem_methodString m⟩
  have hs₂ : splitFirst SP (target ++ SP :: versionText v) = some (target, versionText v) :=
    splitFirst_eq_some.mpr ⟨rfl, hspace⟩
  simp only [processRequestLine, hs₁, hs₂, HttpRequest.setMethod, methodOf_methodString hm,
    versionOf_versionText hv, bind_eq_ok, pure_eq_ok, Except.ok.injEq] at h
  obtain ⟨p, ⟨-, -, rfl⟩, h⟩ := h
  simp [hm] at h

/-- A refused line is refused again, or trips the assert in `setMethod`. -/
theorem AtRefusedLine.drive (h : ctx.AtRefusedLine b) :
    ∃ x s r, parser.drive ctx.untimed b = .done x s r ∧ x ≠ .ok true := by
  obtain ⟨hst, line, rest, hcut, hno⟩ := h
  have hst' : ctx.untimed.state = .ExpectRequestLine := hst
  have hturn : parser.turn ctx.untimed b = _ := parseTurn_of_cutLine (.inl hst') hcut
  rcases ctx.untimed.processRequestLine_cases line with hp | ⟨ok, ctx', hp, -⟩
  · simp only [onLine, hst', hp, if_true] at hturn
    exact ⟨_, _, _, parser.drive_of_halt hturn, by simp⟩
  · cases ok with
    | true =>
        obtain ⟨m, target, v, hline⟩ := isRequestLine_of_processRequestLine hp
        exact absurd hline (hno m target v)
    | false =>
        simp only [onLine, hst', hp, if_true] at hturn
        exact ⟨_, _, _, parser.drive_of_halt hturn, by simp⟩

/-- Nothing completes a request behind a refused line. -/
theorem AtRefusedLine.not_completes (h : ctx.AtRefusedLine b) : ctx.completes b = false := by
  obtain ⟨x, s, r, hd, hx⟩ := h.drive
  unfold completes
  rw [hd]
  cases x with
  | error e => rfl
  | ok ok =>
      cases ok with
      | true => exact absurd rfl hx
      | false => rfl

/-- More bytes do not change the line. -/
theorem AtRefusedLine.append (h : ctx.AtRefusedLine b) (c : Bytes) :
    ctx.AtRefusedLine (b ++ c) := by
  obtain ⟨hst, line, rest, hcut, hno⟩ := h
  exact ⟨hst, line, rest ++ c, cutLine_append c hcut, hno⟩

/-- A call takes bytes from the front. -/
theorem drive_suffix (ctx : HttpContext) (b : Bytes) :
    match parser.drive ctx b with
    | .pending _ r => r <:+ b
    | .done _ _ r => r <:+ b := by
  refine parser.drive_induction (P := fun ctx b => match parser.drive ctx b with
    | .pending _ r => r <:+ b
    | .done _ _ r => r <:+ b) ?wait ?halt ?next ctx b
  case wait =>
    intro ctx b ht
    rw [parser.drive_of_wait ht]
  case halt =>
    intro ctx b x ctx' r ht
    rw [parser.drive_of_halt ht]
    rcases parseTurn_eq_halt ht with ⟨line, hcut, -⟩ | ⟨rfl, -⟩
    · exact suffix_of_cutLine hcut
    · exact List.suffix_refl _
  case next =>
    intro ctx b ctx' r ht ih
    rw [parser.drive_of_next ht]
    obtain ⟨-, line, hcut, -⟩ := parseTurn_eq_next.mp ht
    have hrest := suffix_of_cutLine hcut
    cases hd : parser.drive ctx' r with
    | pending c r' =>
        rw [hd] at ih
        exact ih.trans hrest
    | done x c r' =>
        rw [hd] at ih
        exact ih.trans hrest

end HttpContext

namespace HttpServer

open HttpContext

variable {σ : Type} (cb : HttpCallback σ)

/-- What `onRequest` does with a request and the response that the callback gave. -/
def exchange (e : HttpRequest × HttpResponse) : List HttpAction :=
  .httpCallback e.1 :: .sendBuffer e.2.text :: if e.2.closeConnection then [.shutdown] else []

/-- What `onMessage` does with a refused request line. -/
def refusal : List HttpAction := [.send badRequest, .shutdown]

theorem onRequest_eq (st : σ) (req : HttpRequest) :
    onRequest cb st req =
      ((cb st req (.new (closes req))).1, exchange (req, (cb st req (.new (closes req))).2)) := by
  simp only [onRequest, exchange, HttpResponse.readable_appendToBuffer, WfBuffer.readable_new,
    List.nil_append]

@[simp] theorem handled_exchange (e : HttpRequest × HttpResponse) : handled (exchange e) = [e.1] := by
  unfold exchange
  split <;> rfl

/-- How `onMessage` can end. -/
inductive MessageEnd (st : σ) (ctx : HttpContext) (unread : Bytes) (st' : σ) (ctx' : HttpContext)
    (left : Bytes) : List HttpAction → Prop where
  /-- A request was handled. -/
  | handled {req : HttpRequest} {response : HttpResponse} (h : ctx.completes unread = true)
      (hcb : cb st req (.new (closes req)) = (st', response)) :
      MessageEnd st ctx unread st' ctx' left (exchange (req, response))
  /-- The request is not complete. -/
  | waits (h : ctx.completes unread = false) (hline : ¬ ctx.AtRefusedLine unread) (hst : st' = st) :
      MessageEnd st ctx unread st' ctx' left []
  /-- A line was refused, and is still there. -/
  | refused (h : ctx.completes unread = false) (hline : ctx'.AtRefusedLine left) (hst : st' = st) :
      MessageEnd st ctx unread st' ctx' left refusal

theorem onMessage_end {st st' : σ} {ctx ctx' : HttpContext} {buf buf' : Buffer} {t : TimePoint}
    {actions : List HttpAction} (he : ctx.ExpectsLine) (hwf : buf.Wf)
    (h : onMessage cb st ctx buf t = .ok (st', ctx', buf', actions)) :
    ctx'.ExpectsLine ∧ buf'.readable <:+ buf.readable ∧ buf'.Wf ∧
      MessageEnd cb st ctx buf.readable st' ctx' buf'.readable actions := by
  obtain ⟨he', hwf'⟩ := onMessage_expectsLine cb he hwf h
  have heu : ctx.untimed.ExpectsLine := he
  have hends := drive_invariant (P := ExpectsLine) (Q := EndsAtLine) (fun _ h => h)
    (fun _ line h => h.onLine line) heu buf.readable
  have hagree := ctx.parseRequest_agrees hwf t
  have hsuf := drive_suffix ctx.untimed buf.readable
  cases hd : parser.drive ctx.untimed buf.readable with
  | pending s r =>
      rw [hd] at hends hagree hsuf
      obtain ⟨ctx₁, buf₁, hres, rfl, -, rfl⟩ := hagree
      have hgot : ctx₁.gotAll = false := by
        have hline : ctx₁.ExpectsLine := hends
        rcases hline with hst | hst <;> simp [gotAll, hst]
      simp only [onMessage, hres, ok_bind, hgot] at h
      cases h
      refine ⟨he', hsuf, hwf', .waits (by rw [completes, hd]) (fun hline => ?_) rfl⟩
      obtain ⟨x, s, r, hd', -⟩ := hline.drive
      rw [hd] at hd'
      cases hd'
  | done x s r =>
      rw [hd] at hends hagree hsuf
      rcases hends with ⟨rfl, hst⟩ | ⟨rfl, hline⟩ | rfl
      · obtain ⟨ctx₁, buf₁, hres, rfl, -, rfl⟩ := hagree
        rw [untimed_state] at hst
        have hgot : ctx₁.gotAll = true := by simp [gotAll, hst]
        simp only [onMessage, hres, ok_bind, hgot, if_true, List.nil_append, onRequest_eq] at h
        cases h
        exact ⟨he', hsuf, hwf', .handled (by rw [completes, hd]) rfl⟩
      · obtain ⟨ctx₁, buf₁, hres, rfl, -, rfl⟩ := hagree
        obtain ⟨hr, hst, line, rest, hcut, hp⟩ := heu.refused hd
        have hst₁ : ctx₁.state = .ExpectRequestLine := by
          rcases ctx.untimed.processRequestLine_cases line with hp' | ⟨ok, s, hp', hst'⟩
          · rw [hp] at hp'
            cases hp'
          · rw [hp] at hp'
            cases hp'
            exact hst'.trans hst
        have hgot : ctx₁.gotAll = false := by simp [gotAll, hst₁]
        simp only [onMessage, hres, ok_bind, hgot] at h
        cases h
        refine ⟨he', hsuf, hwf', .refused (by rw [completes, hd]) ⟨hst₁, line, rest, ?_, ?_⟩ rfl⟩
        · rw [hr]
          exact hcut
        · exact not_isRequestLine_of_false hp
      · have hres : ctx.parseRequest buf t = .error .setMethod := hagree
        simp [onMessage, hres] at h

/-! ## The server as a program -/

/-- The server's side of a connection: the context, the state of `httpCallback_` and what
`onMessage` has done so far. -/
structure Conversation (σ : Type) where
  ctx : HttpContext
  st : σ
  actions : List HttpAction

/-- What the server cannot know: the time of a read and the results of the writes. -/
structure HttpInput where
  receiveTime : TimePoint
  sent : WriteResult
  sentBuffer : WriteResult

/-- The call an action makes on the connection. -/
def callOf (i : HttpInput) : HttpAction → Option UserCall
  | .httpCallback _ => none
  | .send message => some (.send message i.sent)
  | .sendBuffer bytes => some (.sendBuffer bytes i.sentBuffer)
  | .shutdown => some .shutdown

/-- The steps of the loop itself. -/
def isLoopStep : SessionAction → Bool
  | .poll _ | .task _ _ | .takeFunctors | .endIteration | .removeConnection | .others _ => true
  | _ => false

/-- `onConnection` and `onMessage` as the callbacks of a connection. Nothing but the server uses it. -/
def program (cb : HttpCallback σ) (st : σ) :
    Program (Conversation σ) HttpInput (NetFault ⊕ HttpFault) where
  start := ⟨.new, st, []⟩
  setup _ := True
  allows a := isLoopStep a = true
  react c s i
    | .connectionCallback .kConnected => return ({ c with ctx := .new }, [])
    | .messageCallback _ => do
        let input := s.conn.inputBuffer
        let (st, ctx, buf, actions) ←
          (onMessage cb c.st c.ctx input.val i.receiveTime).mapError .inr
        return (⟨ctx, st, c.actions ++ actions⟩,
          .retrieveInput (input.readable.length - buf.readable.length) ::
            actions.filterMap (callOf i))
    | _ => return (c, [])
  ofNet := .inl

/-- The responses `send(Buffer *)` accepted. -/
def acceptedResponses (history : List ConnEvent) : List Bytes :=
  history.filterMap fun
    | .sendBufferInLoop _ data _ => some data
    | _ => none

@[simp] theorem acceptedResponses_append (h h' : List ConnEvent) :
    acceptedResponses (h ++ h') = acceptedResponses h ++ acceptedResponses h' :=
  List.filterMap_append

/-- The step hands these bytes to `onMessage`. -/
def reads (d : Driven (Conversation σ)) : SessionAction → Option Bytes
  | .task (.data (b :: bs)) _ =>
      match d.session.todo with
      | .event _ .read :: _ => some (b :: bs)
      | _ => none
  | _ => none

end HttpServer

/-! ## What the connection does meanwhile -/

/-- Notes that are neither a response nor a callback of the server. -/
def ConnEvent.isAside : ConnEvent → Bool
  | .connectionCallback _ | .messageCallback _ | .sendBufferInLoop _ _ _ => false
  | _ => true

theorem acceptedResponses_of_aside {es : List ConnEvent} (h : ∀ e ∈ es, e.isAside) :
    HttpServer.acceptedResponses es = [] := by
  refine List.filterMap_eq_nil_iff.mpr fun e he => ?_
  have haside := h e he
  cases e <;> simp_all [ConnEvent.isAside]

namespace Call

open HttpServer

variable {k k' k'' : Call}

/-- The call leaves the state and the input alone, and makes no callback of the server. -/
structure Aside (k k' : Call) : Prop where
  state : k'.conn.state = k.conn.state
  input : k'.conn.inputBuffer = k.conn.inputBuffer
  notes : ∃ es, k'.notes = k.notes ++ es ∧ ∀ e ∈ es, e.isAside

theorem Aside.refl (k : Call) : Aside k k := ⟨rfl, rfl, [], by simp, by simp⟩

theorem Aside.trans (h : Aside k k') (h' : Aside k' k'') : Aside k k'' := by
  obtain ⟨es, hes, ha⟩ := h.notes
  obtain ⟨es', hes', ha'⟩ := h'.notes
  refine ⟨h'.state.trans h.state, h'.input.trans h.input, es ++ es', ?_, ?_⟩
  · rw [hes', hes, List.append_assoc]
  · intro e he
    rcases List.mem_append.mp he with he | he
    · exact ha e he
    · exact ha' e he

theorem aside_emit {es : List ConnEvent} {fs : List ConnFunctor} (h : ∀ e ∈ es, e.isAside) :
    Aside k (k.emit es fs) := ⟨rfl, rfl, es, rfl, h⟩

theorem aside_watch {events : PollEvents} {p : EPoller ConnId} : Aside k (k.watch events p) :=
  ⟨rfl, rfl, [], by simp [watch], by simp⟩

theorem aside_setOutput {b : WfBuffer} : Aside k (k.setOutput b) :=
  ⟨rfl, rfl, [], by simp [setOutput], by simp⟩

theorem aside_halfClose : Aside k k.shutdownInLoop := by
  rw [shutdownInLoop_eq]
  refine aside_emit ?_
  unfold halfClose
  split <;> simp [ConnEvent.isAside]

theorem buffer_aside {left : Bytes} (h : k.buffer left = .ok k') : Aside k k' := by
  unfold buffer at h
  split at h
  · cases h
    exact .refl _
  · rcases appendOutput_ok h with ⟨-, rfl⟩ | ⟨-, p, -, rfl⟩
    · exact aside_setOutput
    · exact aside_setOutput.trans aside_watch

theorem isAside_writes (k : Call) (data : Bytes) (w : WriteResult) :
    ∀ e ∈ k.writes data w, e.isAside := by
  unfold writes
  split <;> simp [ConnEvent.isAside]

theorem sendInLoop_aside {t : ThreadId} {message : Bytes} {w : WriteResult}
    (h : k.sendInLoop t message w = .ok k') : Aside k k' := by
  rw [sendInLoop_eq] at h
  refine (aside_emit ?_).trans (buffer_aside h)
  simp only [List.mem_cons, forall_eq_or_imp]
  exact ⟨rfl, isAside_writes k message w⟩

theorem handleWrite_aside {w : WriteResult} (h : k.handleWrite w = .ok k') : Aside k k' := by
  by_cases hw : k.conn.channel.isWriting
  · have hemit : Aside k (k.emit [.write k.conn.unsent w] []) :=
      aside_emit (by simp [ConnEvent.isAside])
    obtain ⟨b, -, ⟨rfl, -⟩ | ⟨-, p, -, rfl⟩⟩ := handleWrite_ok hw h
    · exact hemit.trans aside_setOutput
    · refine (hemit.trans aside_setOutput).trans (aside_watch.trans (aside_emit ?_))
      split <;> simp [ConnEvent.isAside]
  · rw [handleWrite_of_not_isWriting hw] at h
    cases h
    exact .refl _

theorem handleClose_aside (h : k.handleClose = .ok k') : Aside k k' := by
  obtain ⟨-, p, -, rfl⟩ := handleClose_ok h
  exact aside_watch.trans (aside_emit (by simp [ConnEvent.isAside]))

/-- Every task but the two ends of the connection's life and a read that brings bytes. -/
theorem runTask_aside {t : ConnTask} {r : Buffer.ReadResult} {w : WriteResult}
    (hup : t ≠ .functor .connectEstablished) (hdown : t ≠ .functor .connectDestroyed)
    (hread : ∀ revents b bs, t = .event revents .read → r ≠ .data (b :: bs))
    (h : k.runTask t r w = .ok k') : Aside k k' := by
  cases t with
  | removeChannel =>
      obtain ⟨ch, p, -, rfl⟩ := removeChannel_ok h
      exact ⟨rfl, rfl, [], by simp, by simp⟩
  | event revents cb =>
      cases cb with
      | close => exact handleClose_aside h
      | error =>
          cases h
          exact .refl _
      | write => exact handleWrite_aside h
      | read =>
          cases r with
          | error =>
              cases h
              exact .refl _
          | data bytes =>
              cases bytes with
              | nil => exact handleClose_aside h
              | cons b bs => exact absurd rfl (hread revents b bs rfl)
  | functor f =>
      cases f with
      | connectEstablished => exact absurd rfl hup
      | connectDestroyed => exact absurd rfl hdown
      | sendInLoop sender message => exact sendInLoop_aside h
      | shutdownInLoop =>
          cases h
          exact aside_halfClose
      | writeCompleteCallback | highWaterMarkCallback _ =>
          cases h
          rw [note_eq]
          exact aside_emit (by simp [ConnEvent.isAside])

theorem send_aside {t : ThreadId} {message : Bytes} {w : WriteResult}
    (h : k.send t message w = .ok k') : Aside k k' := by
  unfold send at h
  have hnote : Aside k (k.note (.send t message)) := by
    rw [note_eq]
    exact aside_emit (by simp [ConnEvent.isAside])
  split at h
  · simp only at h
    split at h
    · exact hnote.trans (sendInLoop_aside h)
    · cases h
      rw [queueInLoop_eq]
      exact hnote.trans (aside_emit (by simp))
  · cases h
    exact .refl _

/-- `shutdown` leaves `kConnected`, and nothing else. -/
theorem shutdown_spec (k : Call) (t : ThreadId) :
    (k.shutdown t).conn.state =
        (if k.conn.state = .kConnected then .kDisconnecting else k.conn.state) ∧
      (k.shutdown t).conn.inputBuffer = k.conn.inputBuffer ∧
      ∃ es, (k.shutdown t).notes = k.notes ++ es ∧ ∀ e ∈ es, e.isAside := by
  unfold shutdown
  split
  · have hnote : Aside (k.setState .kDisconnecting)
        ((k.setState .kDisconnecting).note (.shutdown t)) := by
      rw [note_eq]
      exact aside_emit (by simp [ConnEvent.isAside])
    simp only
    split
    · have h := hnote.trans aside_halfClose
      exact ⟨h.state, h.input, h.notes⟩
    · have hqueue : Aside ((k.setState .kDisconnecting).note (.shutdown t))
          (((k.setState .kDisconnecting).note (.shutdown t)).queueInLoop .shutdownInLoop) := by
        rw [queueInLoop_eq]
        exact aside_emit (by simp)
      have h := hnote.trans hqueue
      exact ⟨h.state, h.input, h.notes⟩
  · exact ⟨rfl, rfl, [], by simp, by simp⟩

/-- `send(Buffer *)` accepts a response in `kConnected`. -/
theorem sendBuffer_spec {t : ThreadId} {data : Bytes} {w : WriteResult}
    (hloop : k.conn.isInLoopThread t) (h : k.sendBuffer t data w = .ok k') :
    k'.conn.state = k.conn.state ∧ k'.conn.inputBuffer = k.conn.inputBuffer ∧
      ∃ es, k'.notes = k.notes ++ es ∧
        acceptedResponses es = if k.conn.state = .kConnected then [data] else [] := by
  unfold sendBuffer at h
  by_cases hup : k.conn.state = .kConnected
  · rw [if_pos ⟨hup, hloop⟩] at h
    have hstate : (k.note (.send t data)).conn.state ≠ .kDisconnected := by
      show k.conn.state ≠ _
      rw [hup]
      decide
    rw [sendBufferInLoop_eq _ _ _ _ hstate, note_eq, emit_emit] at h
    have hrest := buffer_aside h
    obtain ⟨es, hes, haside⟩ := hrest.notes
    refine ⟨hrest.state, hrest.input, _, by rw [hes, emit_notes, List.append_assoc], ?_⟩
    rw [if_pos hup, acceptedResponses_append, acceptedResponses_of_aside haside, List.append_nil,
      acceptedResponses_append]
    exact congrArg (data :: ·) (acceptedResponses_of_aside (isAside_writes _ data w))
  · rw [if_neg (fun hc => hup hc.1)] at h
    cases h
    exact ⟨rfl, rfl, [], by simp, by rw [if_neg hup]; rfl⟩

end Call

namespace HttpServer

open HttpContext

/-! ## Delivering the actions -/

/-- What becomes of the server's actions: the state of the connection after them, and the responses it
accepts. -/
def deliver : StateE → List HttpAction → StateE × List Bytes
  | state, [] => (state, [])
  | state, .sendBuffer bytes :: actions =>
      let (state', accepted) := deliver state actions
      (state', if state = .kConnected then bytes :: accepted else accepted)
  | state, .shutdown :: actions =>
      deliver (if state = .kConnected then .kDisconnecting else state) actions
  | state, .httpCallback _ :: actions | state, .send _ :: actions => deliver state actions

theorem deliver_append (state : StateE) (l m : List HttpAction) :
    deliver state (l ++ m) =
      ((deliver (deliver state l).1 m).1,
        (deliver state l).2 ++ (deliver (deliver state l).1 m).2) := by
  induction l generalizing state with
  | nil => rfl
  | cons a l ih =>
      cases a with
      | sendBuffer bytes =>
          rw [List.cons_append, deliver, ih state, deliver]
          by_cases hup : state = .kConnected <;> simp [hup]
      | shutdown =>
          rw [List.cons_append, deliver, deliver]
          exact ih _
      | httpCallback req =>
          rw [List.cons_append, deliver, deliver]
          exact ih state
      | send message =>
          rw [List.cons_append, deliver, deliver]
          exact ih state

/-- What the server sees of a connection that changed from `s` to `s'` while `actions` were
delivered. -/
structure Delivers (actions : List HttpAction) (s s' : Session) : Prop where
  state : s'.conn.state = (deliver s.conn.state actions).1
  accepted : acceptedResponses s'.history =
    acceptedResponses s.history ++ (deliver s.conn.state actions).2
  input : s'.conn.inputBuffer = s.conn.inputBuffer
  closed : s'.Closed ↔ s.Closed

theorem Delivers.nil (s : Session) : Delivers [] s s :=
  ⟨rfl, by simp [deliver], rfl, Iff.rfl⟩

theorem Delivers.append {l m : List HttpAction} {s s' s'' : Session} (h : Delivers l s s')
    (h' : Delivers m s' s'') : Delivers (l ++ m) s s'' := by
  have hstate := h'.state
  have hacc := h'.accepted
  rw [h.state] at hstate hacc
  refine ⟨?_, ?_, h'.input.trans h.input, h'.closed.trans h.closed⟩
  · rw [hstate, deliver_append]
  · rw [hacc, h.accepted, deliver_append, List.append_assoc]

/-- A call with these notes. -/
theorem Delivers.commit {action : HttpAction} {s : Session} {k : Call} {es : List ConnEvent}
    (hquiet : s.call.Quiet k) (hstate : k.conn.state = (deliver s.conn.state [action]).1)
    (hinput : k.conn.inputBuffer = s.conn.inputBuffer) (hnotes : k.notes = es)
    (hes : acceptedResponses es = (deliver s.conn.state [action]).2) :
    Delivers [action] s (s.commit k) := by
  refine ⟨hstate, ?_, hinput, ?_⟩
  · rw [Session.commit_history, acceptedResponses_append, hnotes, hes]
  · show ((s.pop s.todo).commit k).Closed ↔ s.Closed
    exact Session.closed_commit_iff (Session.quiet_notes hquiet)

theorem exec_delivers {i : HttpInput} {action : HttpAction} {c : UserCall} {s s' : Session}
    (hc : callOf i action = some c) (h : s.exec (c.action s.conn.loop) = .ok s') :
    Delivers [action] s s' := by
  cases action with
  | httpCallback req => cases hc
  | send message =>
      cases hc
      obtain ⟨k, hk, h⟩ := bind_eq_ok.mp h
      cases h
      have haside := Call.send_aside hk
      obtain ⟨es, hes, ha⟩ := haside.notes
      exact .commit (Call.send_quiet hk) haside.state haside.input hes
        (acceptedResponses_of_aside ha)
  | sendBuffer bytes =>
      cases hc
      obtain ⟨k, hk, h⟩ := bind_eq_ok.mp h
      cases h
      have hloop : s.call.conn.isInLoopThread (.loop s.conn.loop) := rfl
      obtain ⟨hstate, hinput, es, hes, hacc⟩ := Call.sendBuffer_spec hloop hk
      exact .commit (Call.sendBuffer_quiet hk) hstate hinput hes hacc
  | shutdown =>
      cases hc
      obtain rfl : s.commit (s.call.shutdown (.loop s.conn.loop)) = s' := Except.ok.inj h
      obtain ⟨hstate, hinput, es, hes, ha⟩ := s.call.shutdown_spec (.loop s.conn.loop)
      exact .commit (Call.shutdown_quiet _ _) hstate hinput hes (acceptedResponses_of_aside ha)

/-- The calls of the server deliver its actions. -/
theorem perform_delivers {i : HttpInput} {actions : List HttpAction} {s s' : Session}
    (h : s.perform (actions.filterMap (callOf i)) = .ok s') : Delivers actions s s' := by
  induction actions generalizing s with
  | nil =>
      cases h
      exact .nil _
  | cons a actions ih =>
      cases hc : callOf i a with
      | none =>
          rw [List.filterMap_cons_none hc] at h
          cases a with
          | httpCallback req =>
              have hrest := ih h
              exact ⟨hrest.state, hrest.accepted, hrest.input, hrest.closed⟩
          | _ => cases hc
      | some c =>
          rw [List.filterMap_cons_some hc, Session.perform, List.foldlM_cons] at h
          obtain ⟨s₁, hs₁, h⟩ := bind_eq_ok.mp h
          exact (exec_delivers hc hs₁).append (ih h)

/-! ## The steps of the program -/

variable {σ : Type} {cb : HttpCallback σ} {st₀ : σ} {d d' : Driven (Conversation σ)}
  {a : SessionAction} {i : HttpInput} {out : Bytes}

/-- A step of the program, as far as the server is concerned. -/
inductive ServerMove (cb : HttpCallback σ) (d : Driven (Conversation σ)) (a : SessionAction)
    (i : HttpInput) (d' : Driven (Conversation σ)) : Prop where
  /-- Nothing is handed to the server. -/
  | none (hreads : reads d a = .none) (hprogram : d'.program = d.program)
      (hacc : acceptedResponses d'.session.history = acceptedResponses d.session.history)
      (hinput : d'.session.conn.inputBuffer = d.session.conn.inputBuffer)
      (hclosed : d.session.Closed → d'.session.Closed)
      (hstate : ¬ d'.session.Closed → d'.session.conn.state = d.session.conn.state)
  /-- The connection comes up. -/
  | up (hreads : reads d a = .none) (hprogram : d'.program = { d.program with ctx := .new })
      (hacc : acceptedResponses d'.session.history = acceptedResponses d.session.history)
      (hstate : d.session.conn.state = .kConnecting)
      (hstate' : d'.session.conn.state = .kConnected)
  /-- A read: `onMessage` runs, and its actions are delivered. -/
  | read {bytes : Bytes} {buf : Buffer} {actions : List HttpAction}
      (hreads : reads d a = some bytes)
      (hmsg : onMessage cb d.program.st d.program.ctx (d.session.conn.inputBuffer.readFd bytes).val
        i.receiveTime = .ok (d'.program.st, d'.program.ctx, buf, actions))
      (hactions : d'.program.actions = d.program.actions ++ actions)
      (hstate : d'.session.conn.state = (deliver d.session.conn.state actions).1)
      (hacc : acceptedResponses d'.session.history =
        acceptedResponses d.session.history ++ (deliver d.session.conn.state actions).2)
      (hinput : d'.session.conn.inputBuffer.readable =
        (d.session.conn.inputBuffer.readFd bytes).readable.drop
          ((d.session.conn.inputBuffer.readFd bytes).readable.length - buf.readable.length))
      (hclosed : d'.session.Closed ↔ d.session.Closed)

/-- The server answers two callbacks only. -/
theorem answers_of_aside {notes : List ConnEvent} (h : ∀ e ∈ notes, e.isAside) :
    notes.foldlM ((program cb st₀).answer i) d = .ok d := by
  induction notes with
  | nil => rfl
  | cons e notes ih =>
      have hnone : (program cb st₀).answer i d e = .ok d := by
        have he := h e List.mem_cons_self
        cases e with
        | connectionCallback state => cases he
        | messageCallback readable => cases he
        | _ => rfl
      rw [List.foldlM_cons, hnone]
      exact ih fun e he => h e (List.mem_cons_of_mem _ he)

theorem readable_readFd (b : WfBuffer) (bytes : Bytes) :
    (b.readFd bytes).readable = b.readable ++ bytes :=
  WfBuffer.readable_readFd b bytes

/-- A step without notes for the server. -/
theorem ServerMove.of_aside {s : Session} {es : List ConnEvent} (hreads : reads d a = .none)
    (hhist : s.history = d.session.history ++ es) (hes : ∀ e ∈ es, e.isAside)
    (hinput : s.conn.inputBuffer = d.session.conn.inputBuffer)
    (hstate : ¬ s.Closed → s.conn.state = d.session.conn.state)
    (hanswers : (s.history.drop d.session.history.length).foldlM ((program cb st₀).answer i)
      ⟨s, d.program, out⟩ = .ok d') : ServerMove cb d a i d' := by
  rw [hhist, List.drop_left, answers_of_aside hes] at hanswers
  cases hanswers
  refine .none hreads rfl ?_ hinput ?_ hstate
  · rw [hhist, acceptedResponses_append, acceptedResponses_of_aside hes, List.append_nil]
  · intro hclosed
    unfold Session.Closed
    rw [hhist]
    exact List.mem_append_left _ hclosed

/-- A read and the answer of the server. -/
theorem ServerMove.of_read {s : Session} {bytes : Bytes} (hreads : reads d a = some bytes)
    (hstate : s.conn.state = d.session.conn.state)
    (hinput : s.conn.inputBuffer = d.session.conn.inputBuffer.readFd bytes)
    (hhist : s.history = d.session.history ++ [.messageCallback s.conn.inputBuffer.readable])
    (hanswers : (s.history.drop d.session.history.length).foldlM ((program cb st₀).answer i)
      ⟨s, d.program, out⟩ = .ok d') : ServerMove cb d a i d' := by
  rw [hhist, List.drop_left, List.foldlM_cons] at hanswers
  obtain ⟨d₁, hd₁, h⟩ := bind_eq_ok.mp hanswers
  cases h
  obtain ⟨calls, hreact, hperform, -⟩ := Program.answer_eq_ok hd₁
  obtain ⟨⟨st, ctx, buf, actions⟩, hmsg, hreact⟩ := bind_eq_ok.mp hreact
  simp only [pure_eq_ok, Except.ok.injEq, Prod.mk.injEq, hinput] at hreact hmsg
  obtain ⟨hprogram, rfl⟩ := hreact
  rw [mapError_eq_ok] at hmsg
  -- first what was parsed is taken from the buffer, then the actions are delivered
  rw [Session.perform, List.foldlM_cons] at hperform
  obtain ⟨s₁, hs₁, hperform⟩ := bind_eq_ok.mp hperform
  obtain ⟨b, hb, rfl⟩ := Session.exec_retrieveInput_eq_ok.mp hs₁
  have hdel := perform_delivers hperform
  have hclosed : s.Closed ↔ d.session.Closed := by
    unfold Session.Closed
    rw [hhist, List.mem_append]
    simp
  have hacc : acceptedResponses s.history = acceptedResponses d.session.history := by
    rw [hhist, acceptedResponses_append]
    exact List.append_nil _
  have hstate' := hdel.state
  have hacc' := hdel.accepted
  simp only [hstate, hacc] at hstate' hacc'
  have hmsg' : onMessage cb d.program.st d.program.ctx
      (d.session.conn.inputBuffer.readFd bytes).val i.receiveTime =
        .ok (d'.program.st, d'.program.ctx, buf, actions) := by
    rw [← hprogram]
    exact hmsg
  refine .read hreads hmsg' (by rw [← hprogram]) hstate' hacc' ?_ (hdel.closed.trans hclosed)
  rw [hinput] at hb
  rw [hdel.input]
  exact (WfBuffer.readable_of_retrieve hb).2

/-- A task of the loop, and the server's answer to what it noted. -/
theorem server_move_task {t : ConnTask} {ts : List ConnTask} {r : Buffer.ReadResult}
    {w : WriteResult} {k : Call} (hr : Session.system.Reachable d.session)
    (htodo : d.session.todo = t :: ts) (hk : d.session.call.runTask t r w = .ok k)
    (hanswers : (((d.session.pop ts).commit k).history.drop d.session.history.length).foldlM
      ((program cb st₀).answer i) ⟨(d.session.pop ts).commit k, d.program, out⟩ = .ok d') :
    ServerMove cb d (.task r w) i d' := by
  have ho := Session.orderly_of_reachable hr
  have hhist : ((d.session.pop ts).commit k).history = d.session.history ++ k.notes := rfl
  by_cases hread : ∃ revents b bs, t = .event revents .read ∧ r = .data (b :: bs)
  · obtain ⟨revents, b, bs, rfl, rfl⟩ := hread
    have hreads : reads d (.task (.data (b :: bs)) w) = some (b :: bs) := by simp [reads, htodo]
    cases hk
    refine .of_read hreads ?_ ?_ ?_ hanswers <;> rfl
  · have hreads : reads d (.task r w) = .none := by
      unfold reads
      split
      · next b bs _ heq =>
          cases heq
          split
          · next revents _ htodo' =>
              rw [htodo] at htodo'
              exact absurd ⟨revents, b, bs, (List.cons.inj htodo').1, rfl⟩ hread
          · rfl
      · rfl
    by_cases hup : t = .functor .connectEstablished
    · subst hup
      obtain ⟨hstate, p, -, rfl⟩ := Call.connectEstablished_ok hk
      rw [hhist, List.drop_left] at hanswers
      cases hanswers
      refine .up hreads rfl ?_ hstate rfl
      rw [hhist, acceptedResponses_append]
      exact List.append_nil _
    · by_cases hdown : t = .functor .connectDestroyed
      · -- only a connection that was closed is destroyed
        subst hdown
        have hclosed : d.session.Closed := by
          refine ho.accounts.closed ?_
          unfold Session.gone
          rw [Session.functors_of_functor htodo, List.count_cons_self]
          omega
        obtain ⟨-, p, -, rfl⟩ := Call.connectDestroyed_ok hk
        rw [hhist, List.drop_left] at hanswers
        cases hanswers
        refine .none hreads rfl ?_ rfl (fun hc => List.mem_append_left _ hc)
          fun hopen => absurd (List.mem_append_left _ hclosed) hopen
        rw [hhist, acceptedResponses_append]
        exact List.append_nil _
      · have haside := Call.runTask_aside hup hdown
          (fun revents b bs ht hdata => hread ⟨revents, b, bs, ht, hdata⟩) hk
        obtain ⟨es, hes, ha⟩ := haside.notes
        have hhist' : ((d.session.pop ts).commit k).history = d.session.history ++ es :=
          congrArg (d.session.history ++ ·) hes
        exact .of_aside hreads hhist' ha haside.input (fun _ => haside.state) hanswers

/-- **What a step is for the server.** -/
theorem server_move (hr : Session.system.Reachable d.session)
    (h : (program cb st₀).system.Step d (a, i) d') : ServerMove cb d a i d' := by
  obtain ⟨hallows, s, ⟨hen, hex⟩, hanswers⟩ := Program.step_eq_ok h
  have hsilent : reads d a = .none → s.history = d.session.history →
      s.conn = d.session.conn → ServerMove cb d a i d' := by
    intro hreads hhist hconn
    have hhist' : s.history = d.session.history ++ [] := by rw [hhist, List.append_nil]
    refine .of_aside hreads hhist' (by simp) ?_ ?_ hanswers
    · rw [hconn]
    · exact fun _ => by rw [hconn]
  cases a with
  | poll revents =>
      cases revents <;> cases hex <;> exact hsilent rfl rfl rfl
  | task r w =>
      obtain ⟨t, ts, k, htodo, hk, rfl⟩ := Session.exec_task_eq_ok hen hex
      exact server_move_task hr htodo hk hanswers
  | takeFunctors | endIteration =>
      cases hex
      exact hsilent rfl rfl rfl
  | others p =>
      cases hex
      exact hsilent rfl rfl rfl
  | removeConnection =>
      obtain ⟨u, -, hex⟩ := bind_eq_ok.mp hex
      cases hex
      exact hsilent rfl rfl rfl
  | send _ _ _ | sendBuffer _ _ _ | shutdown _ | retrieveInput _ | setCallbacks _ _ => cases hallows

end HttpServer

end MiniMuduo
