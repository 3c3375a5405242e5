import MiniMuduo.Http.Responses
import MiniMuduo.Http.ResponseText
import MiniMuduo.Net.Answering

/-!
# A client and an `HttpServer`

Any client at the near side of a `Pipe`, the server at the far side. However the kernels cut the two
streams, the server goes through the requests of what has arrived, in order (`Serving`), until a line is
refused (`Refusing`). What it sends is the responses that the user's callback gives to them, up to the
first one that closes the connection, and after a refused line the 400 (`said_onRequests`,
`said_refusals`). So what the client receives is a prefix of that, and all of it when it reads to the
end (`http_served`).
-/

namespace MiniMuduo

open Fallible

namespace HttpServer

open HttpContext HttpResponse

variable {σ : Type} {cb : HttpCallback σ} {st st' st₀ : σ}

/-! ## What `onMessage` does, told by the parser -/

/-- What one call of `onMessage` does. -/
inductive MessageRun (cb : HttpCallback σ) (st : σ) (ctx : HttpContext) (unread : Bytes) (st' : σ)
    (ctx' : HttpContext) (left : Bytes) : List HttpAction → Prop where
  | waits (hd : parser.drive ctx.untimed unread = .pending ctx'.untimed left) (hst : st' = st) :
      MessageRun cb st ctx unread st' ctx' left []
  | handles {req : HttpRequest} {s : HttpContext} {actions : List HttpAction}
      (hd : parser.drive ctx.untimed unread = .done (.ok true) s left)
      (hreq : s.request = req.untimed) (hctx : ctx'.untimed = s.reset)
      (hrun : onRequest cb st req = (st', actions)) : MessageRun cb st ctx unread st' ctx' left actions
  | refuses {s : HttpContext} {r : Bytes} (hd : parser.drive ctx.untimed unread = .done (.ok false) s r)
      (hline : ctx'.AtRefusedLine left) :
      MessageRun cb st ctx unread st' ctx' left [.send badRequest, .shutdown]

theorem onMessage_run {ctx ctx' : HttpContext} {buf buf' : Buffer} {t : TimePoint}
    {actions : List HttpAction} (he : ctx.ExpectsLine) (hwf : buf.Wf)
    (h : onMessage cb st ctx buf t = .ok (st', ctx', buf', actions)) :
    MessageRun cb st ctx buf.readable st' ctx' buf'.readable actions := by
  have hends := drive_invariant (P := ExpectsLine) (Q := EndsAtLine) (fun _ h => h)
    (fun _ line h => h.onLine line) (show ctx.untimed.ExpectsLine from he) buf.readable
  have hagree := ctx.parseRequest_agrees hwf t
  obtain ⟨-, -, -, hend⟩ := onMessage_end cb he hwf h
  cases hd : parser.drive ctx.untimed buf.readable with
  | pending s r =>
      rw [hd] at hends hagree
      obtain ⟨ctx₁, buf₁, hres, rfl, -, rfl⟩ := hagree
      have hgot : ctx₁.gotAll = false := by
        have hline : ctx₁.ExpectsLine := hends
        rcases hline with hst | hst <;> simp [gotAll, hst]
      simp only [onMessage, hres, ok_bind, hgot] at h
      cases h
      exact .waits hd rfl
  | done x s r =>
      rw [hd] at hends hagree
      rcases hends with ⟨rfl, hst⟩ | ⟨rfl, -⟩ | rfl
      · obtain ⟨ctx₁, buf₁, hres, rfl, -, rfl⟩ := hagree
        rw [untimed_state] at hst
        have hgot : ctx₁.gotAll = true := by simp [gotAll, hst]
        simp only [onMessage, hres, ok_bind, hgot, if_true, List.nil_append] at h
        cases h
        exact .handles hd rfl rfl rfl
      · have hno : ctx.completes buf.readable = false := by rw [completes, hd]
        cases hend with
        | handled hcompletes _ =>
            rw [hno] at hcompletes
            cases hcompletes
        | waits _ hline _ =>
            obtain ⟨ctx₁, buf₁, hres, rfl, -, rfl⟩ := hagree
            simp only [onMessage, hres, ok_bind] at h
            split at h <;> cases h
        | refused _ hline _ => exact .refuses hd hline
      · have hres : ctx.parseRequest buf t = .error .setMethod := hagree
        simp [onMessage, hres] at h

/-! ## What the server says -/

/-- The bytes that a connection accepts of the server's actions. -/
def said : StateE → List HttpAction → Bytes
  | _, [] => []
  | state, .httpCallback _ :: actions => said state actions
  | state, .send bytes :: actions | state, .sendBuffer bytes :: actions =>
      (if state = .kConnected then bytes else []) ++ said state actions
  | state, .shutdown :: actions =>
      said (if state = .kConnected then .kDisconnecting else state) actions

theorem said_append (state : StateE) (l m : List HttpAction) :
    said state (l ++ m) = said state l ++ said (deliver state l).1 m := by
  induction l generalizing state with
  | nil => rfl
  | cons a l ih =>
      cases a with
      | httpCallback req => exact ih state
      | send bytes | sendBuffer bytes =>
          rw [List.cons_append, said, said, ih state, List.append_assoc]
          rfl
      | shutdown => exact ih _

theorem said_of_ne {state : StateE} (h : state ≠ .kConnected) (actions : List HttpAction) :
    said state actions = [] := by
  induction actions with
  | nil => rfl
  | cons a actions ih => cases a <;> simp [said, h, ih]

/-- `onRequest` for one request after the other. -/
def onRequests (cb : HttpCallback σ) : σ → List HttpRequest → σ × List HttpAction
  | st, [] => (st, [])
  | st, req :: reqs =>
      let (st₁, actions) := onRequest cb st req
      let (st₂, later) := onRequests cb st₁ reqs
      (st₂, actions ++ later)

theorem onRequests_concat (st : σ) (reqs : List HttpRequest) (req : HttpRequest) :
    onRequests cb st (reqs ++ [req]) =
      ((onRequest cb (onRequests cb st reqs).1 req).1,
        (onRequests cb st reqs).2 ++ (onRequest cb (onRequests cb st reqs).1 req).2) := by
  induction reqs generalizing st with
  | nil => simp [onRequests]
  | cons r reqs ih => simp [onRequests, ih]

/-- The responses to these requests, up to the first one that closes the connection. -/
def replies (cb : HttpCallback σ) : σ → List HttpRequest → List HttpResponse
  | _, [] => []
  | st, req :: reqs =>
      let (st, response) := cb st req (.new (closes req))
      response :: if response.closeConnection then [] else replies cb st reqs

/-- A callback that closes the connection silences the server. -/
theorem said_onRequests (st : σ) (reqs : List HttpRequest) :
    said .kConnected (onRequests cb st reqs).2 = (replies cb st reqs).flatMap text := by
  induction reqs generalizing st with
  | nil => rfl
  | cons req reqs ih =>
      simp only [onRequests, onRequest_eq, said_append, replies, List.flatMap_cons]
      cases hclose : (cb st req (.new (closes req))).2.closeConnection with
      | true => simp [exchange, hclose, said, deliver, said_of_ne]
      | false => simp [exchange, hclose, said, deliver, ih]

/-- A connection that is still up has sent no closing response. -/
theorem keepAlive_of_deliver {reqs : List HttpRequest}
    (h : (deliver .kConnected (onRequests cb st reqs).2).1 = .kConnected) :
    ∀ response ∈ replies cb st reqs, response.closeConnection = false := by
  induction reqs generalizing st with
  | nil => exact fun _ hmem => absurd hmem List.not_mem_nil
  | cons req reqs ih =>
      simp only [onRequests, onRequest_eq, deliver_append] at h
      cases hclose : (cb st req (.new (closes req))).2.closeConnection with
      | true =>
          have hdown : (deliver .kConnected
              (exchange (req, (cb st req (.new (closes req))).2))).1 ≠ .kConnected := by
            rw [deliver_of_mem (by simp [exchange, hclose])]
            decide
          rw [deliver_of_ne hdown] at h
          exact absurd h hdown
      | false =>
          have hup : (deliver .kConnected
              (exchange (req, (cb st req (.new (closes req))).2))).1 = .kConnected :=
            deliver_of_not_mem (by simp [exchange, hclose])
          rw [hup] at h
          simp only [replies, hclose, Bool.false_eq_true, if_false, List.mem_cons,
            forall_eq_or_imp, true_and]
          exact ih h

/-- The 400 is said once, if at all. -/
theorem said_refusals (state : StateE) (n : ℕ) :
    said state (List.replicate (n + 1) [HttpAction.send badRequest, .shutdown]).flatten =
      if state = .kConnected then badRequest else [] := by
  rw [List.replicate_succ, List.flatten_cons, said_append]
  by_cases hup : state = .kConnected
  · subst hup
    have hdown : (deliver .kConnected [HttpAction.send badRequest, .shutdown]).1 ≠ .kConnected := by
      rw [deliver_of_mem (by simp)]
      decide
    rw [said_of_ne hdown]
    simp [said]
  · rw [said_of_ne hup, if_neg hup, List.nil_append, said_of_ne]
    rw [deliver_of_ne hup]
    exact hup

/-! ## What the connection sends for it -/

theorem exec_sends {i : HttpInput} {action : HttpAction} {c : UserCall} {s s' : Session}
    (hc : callOf i action = some c) (h : s.exec (c.action s.conn.loop) = .ok s') :
    sentBytes s'.history = sentBytes s.history ++ said s.conn.state [action] := by
  have hsends : ∀ {k : Call} {bytes : Bytes}, s' = s.commit k →
      (∃ es, k.notes = s.call.notes ++ es ∧ sentBytes es = bytes) →
      sentBytes s'.history = sentBytes s.history ++ bytes := by
    rintro k bytes rfl ⟨es, hes, rfl⟩
    rw [Session.commit_history, hes, sentBytes_append]
    rfl
  have hmute : s' = s.commit s.call → sentBytes s'.history = sentBytes s.history ++ [] :=
    fun heq => hsends heq ⟨[], rfl, rfl⟩
  cases action with
  | httpCallback req => cases hc
  | send message =>
      cases hc
      obtain ⟨k, hk, h⟩ := bind_eq_ok.mp h
      cases h
      by_cases hup : s.conn.state = .kConnected
      · obtain ⟨es, hes, hsent, -⟩ := Call.sentBytes_send (k := s.call) hup rfl hk
        simpa [said, hup] using hsends rfl ⟨es, hes, hsent⟩
      · rw [Call.send_of_ne (k := s.call) hup] at hk
        cases hk
        simpa [said, hup] using hmute rfl
  | sendBuffer bytes =>
      cases hc
      obtain ⟨k, hk, h⟩ := bind_eq_ok.mp h
      cases h
      by_cases hup : s.conn.state = .kConnected
      · simpa [said, hup] using hsends rfl (Call.sentBytes_sendBuffer (k := s.call) hup rfl hk)
      · rw [Call.sendBuffer_of_ne (k := s.call) hup] at hk
        cases hk
        simpa [said, hup] using hmute rfl
  | shutdown =>
      cases hc
      exact hsends (Except.ok.inj h).symm (Call.sentBytes_shutdown s.call _)

theorem perform_sends {i : HttpInput} {actions : List HttpAction} {s s' : Session}
    (h : s.perform (actions.filterMap (callOf i)) = .ok s') :
    sentBytes s'.history = sentBytes s.history ++ said s.conn.state actions := by
  induction actions generalizing s with
  | nil =>
      cases h
      exact (List.append_nil _).symm
  | cons a actions ih =>
      cases hc : callOf i a with
      | none =>
          rw [List.filterMap_cons_none hc] at h
          cases a with
          | httpCallback req => exact ih h
          | _ => cases hc
      | some c =>
          rw [List.filterMap_cons_some hc, Session.perform, List.foldlM_cons] at h
          obtain ⟨s₁, hs₁, h⟩ := bind_eq_ok.mp h
          rw [ih h, exec_sends hc hs₁, (exec_delivers hc hs₁).state, List.append_assoc,
            ← said_append]
          rfl

variable {d d' : Driven (Conversation σ)} {a : SessionAction} {i : HttpInput}

/-- Notes of the connection's own work are answered by no call. -/
theorem answers_of_isOwn {notes : List ConnEvent} (h : ∀ e ∈ notes, e.isOwn = true)
    (hanswers : notes.foldlM ((program cb st₀).answer i) d = .ok d') :
    d'.session = d.session ∧ d'.program.actions = d.program.actions := by
  induction notes generalizing d with
  | nil =>
      cases hanswers
      exact ⟨rfl, rfl⟩
  | cons e notes ih =>
      rw [List.foldlM_cons] at hanswers
      obtain ⟨d₁, hd₁, hanswers⟩ := bind_eq_ok.mp hanswers
      obtain ⟨hsession, hactions⟩ := ih (fun e he => h e (List.mem_cons_of_mem _ he)) hanswers
      have hone : d₁.session = d.session ∧ d₁.program.actions = d.program.actions := by
        have he := h e List.mem_cons_self
        cases e with
        | messageCallback readable => cases he
        | connectionCallback state => cases state <;> cases hd₁ <;> exact ⟨rfl, rfl⟩
        | _ =>
            cases hd₁
            exact ⟨rfl, rfl⟩
      exact ⟨hsession.trans hone.1, hactions.trans hone.2⟩

/-- What a step sends is what the connection accepts of the new actions. -/
theorem step_sends (hr : Session.system.Reachable d.session)
    (hstep : (program cb st₀).system.Step d (a, i) d') (hopen : ¬ d'.session.Closed) :
    ∃ more, d'.program.actions = d.program.actions ++ more ∧
      sentBytes d'.session.history =
        sentBytes d.session.history ++ said d.session.conn.state more := by
  obtain ⟨hallows, s, hs, hanswers⟩ := Program.step_eq_ok hstep
  have hby : a.byLoop = true := by
    have hloop : isLoopStep a = true := hallows
    cases a <;> first | rfl | cases hloop
  have hopen' : ¬ s.Closed := fun hc => hopen
    (Program.answers_keep (Q := Session.Closed) (d := ⟨s, d.program, _⟩)
      (fun _ _ _ hst hc => hc.move (Session.move_of_step hst)) hc hanswers)
  rcases Session.step_byLoop hr hs hby hopen' with halone | hover
  · obtain ⟨es, hist, hown⟩ := halone.notes
    rw [hist, List.drop_left] at hanswers
    obtain ⟨hsession, hactions⟩ := answers_of_isOwn hown hanswers
    refine ⟨[], by rw [hactions, List.append_nil], ?_⟩
    rw [hsession, hist, sentBytes_append, sentBytes_of_isOwn hown]
    rfl
  · rw [hover.notes, List.drop_left, List.foldlM_cons] at hanswers
    obtain ⟨d₁, hd₁, hanswers⟩ := bind_eq_ok.mp hanswers
    cases hanswers
    obtain ⟨calls, hreact, hperform, -⟩ := Program.answer_eq_ok hd₁
    obtain ⟨⟨st, ctx, buf, actions⟩, -, hreact⟩ := bind_eq_ok.mp hreact
    simp only [pure_eq_ok, Except.ok.injEq, Prod.mk.injEq] at hreact
    obtain ⟨hprogram, rfl⟩ := hreact
    rw [Session.perform, List.foldlM_cons] at hperform
    obtain ⟨s₁, hs₁, hperform⟩ := bind_eq_ok.mp hperform
    obtain ⟨b, -, rfl⟩ := Session.exec_retrieveInput_eq_ok.mp hs₁
    refine ⟨actions, by rw [← hprogram], ?_⟩
    rw [perform_sends hperform]
    show sentBytes s.history ++ said s.conn.state actions = _
    rw [hover.notes, sentBytes_append, hover.state]
    show sentBytes d.session.history ++ [] ++ _ = _
    rw [List.append_nil]

/-! ## The requests of what has arrived -/

/-- The stream starts with these requests; the context is then `ctx` and `rest` is unread. -/
def StartsWith (stream : Bytes) (reqs : List HttpRequest) (ctx : HttpContext) (rest : Bytes) : Prop :=
  ∃ out, parser.Gives restart .new stream out ctx rest ∧
    out.map (fun p => p.2.request) = reqs.map HttpRequest.untimed

/-- The next line, if it is complete, is refused. -/
def RefusedNext (ctx : HttpContext) (rest : Bytes) : Prop :=
  ∃ s r, parser.drive ctx rest = .done (.ok false) s r

theorem StartsWith.append {stream rest : Bytes} {reqs : List HttpRequest} {ctx : HttpContext}
    (h : StartsWith stream reqs ctx rest) (more : Bytes) :
    StartsWith (stream ++ more) reqs ctx (rest ++ more) :=
  h.imp fun _ hout => ⟨hout.1.append more, hout.2⟩

theorem RefusedNext.append {ctx : HttpContext} {rest : Bytes} (h : RefusedNext ctx rest)
    (more : Bytes) : RefusedNext ctx (rest ++ more) := by
  obtain ⟨s, r, hd⟩ := h
  exact ⟨s, r ++ more, parser.drive_append_of_done hd more⟩

theorem StartsWith.concat {stream rest left : Bytes} {reqs : List HttpRequest} {req : HttpRequest}
    {ctx s : HttpContext} (h : StartsWith stream reqs ctx rest)
    (hd : parser.drive ctx rest = .done (.ok true) s left) (hreq : s.request = req.untimed) :
    StartsWith stream (reqs ++ [req]) s.reset left := by
  obtain ⟨out, hgives, hout⟩ := h
  refine ⟨out ++ [(.ok true, s)], hgives.concat hd rfl, ?_⟩
  rw [List.map_append, List.map_append, hout]
  exact congrArg (reqs.map HttpRequest.untimed ++ [·]) hreq

/-- All requests so far were handled, and the parser goes on where it is. -/
structure Serving (cb : HttpCallback σ) (st₀ : σ) (d : Driven (Conversation σ))
    (reqs : List HttpRequest) (ctx : HttpContext) (rest : Bytes) : Prop where
  run : onRequests cb st₀ reqs = (d.program.st, d.program.actions)
  resumes : ∀ more, parser.drive ctx (rest ++ more) =
    parser.drive d.program.ctx.untimed (d.session.conn.inputBuffer.readable ++ more)

/-- The line after these requests was refused `n + 1` times. -/
structure Refusing (cb : HttpCallback σ) (st₀ : σ) (d : Driven (Conversation σ))
    (reqs : List HttpRequest) (ctx : HttpContext) (rest : Bytes) (n : ℕ) : Prop where
  refused : RefusedNext ctx rest
  run : d.program.actions = (onRequests cb st₀ reqs).2 ++
    (List.replicate (n + 1) [HttpAction.send badRequest, .shutdown]).flatten
  line : d.program.ctx.AtRefusedLine d.session.conn.inputBuffer.readable

/-- What the server has made of what has arrived. -/
def Answers (cb : HttpCallback σ) (st₀ : σ) (arrived : Bytes) (d : Driven (Conversation σ)) : Prop :=
  ∃ reqs ctx rest, StartsWith arrived reqs ctx rest ∧
    (Serving cb st₀ d reqs ctx rest ∨ ∃ n, Refusing cb st₀ d reqs ctx rest n)

/-- The server and its connection, after what has arrived. -/
structure Serves (cb : HttpCallback σ) (st₀ : σ) (arrived : Bytes) (d : Driven (Conversation σ)) :
    Prop where
  inStep : InStep d
  fresh : d.session.conn.state = .kConnecting → arrived = [] ∧ d.program.st = st₀
  sent : sentBytes d.session.history = said .kConnected d.program.actions
  answers : Answers cb st₀ arrived d

/-- A server that has done nothing yet. -/
theorem answers_new (cb : HttpCallback σ) (hst : d.program.st = st₀) (hactions : d.program.actions = [])
    (hctx : d.program.ctx = .new) (hinput : d.session.conn.inputBuffer.readable = []) :
    Answers cb st₀ [] d := by
  refine ⟨[], .new, [], ⟨[], .nil _ _, rfl⟩, .inl ⟨?_, fun more => ?_⟩⟩
  · rw [hst, hactions]
    rfl
  · rw [hctx, hinput]
    rfl

/-- **A read.** -/
theorem Answers.read {arrived bytes left : Bytes} {more : List HttpAction}
    (h : Answers cb st₀ arrived d)
    (hrun : MessageRun cb d.program.st d.program.ctx (d.session.conn.inputBuffer.readable ++ bytes)
      d'.program.st d'.program.ctx left more)
    (hactions : d'.program.actions = d.program.actions ++ more)
    (hinput : d'.session.conn.inputBuffer.readable = left) :
    Answers cb st₀ (arrived ++ bytes) d' := by
  obtain ⟨reqs, ctx, rest, hstarts, hserving | ⟨n, hrefusing⟩⟩ := h
  · have hstarts' := hstarts.append bytes
    have hresumes := hserving.resumes bytes
    cases hrun with
    | waits hd hst =>
        rw [hd] at hresumes
        refine ⟨reqs, ctx, rest ++ bytes, hstarts', .inl ⟨?_, fun later => ?_⟩⟩
        · rw [hst, hactions, List.append_nil, hserving.run]
        · rw [parser.drive_append_of_pending hresumes, hinput]
    | @handles req s _ hd hreq hctx hrun =>
        rw [hd] at hresumes
        refine ⟨reqs ++ [req], s.reset, left, hstarts'.concat hresumes hreq, .inl ⟨?_, fun later => ?_⟩⟩
        · rw [onRequests_concat, hserving.run, hrun, hactions]
        · rw [hctx, hinput]
    | refuses hd hline =>
        rw [hd] at hresumes
        refine ⟨reqs, ctx, rest ++ bytes, hstarts', .inr ⟨0, ⟨_, _, hresumes⟩, ?_, ?_⟩⟩
        · rw [hactions, hserving.run]
          rfl
        · rw [hinput]
          exact hline
  · -- the refused line is still the next one
    obtain ⟨x, s, r, hagain, hx⟩ := (hrefusing.line.append bytes).drive
    cases hrun with
    | waits hd _ =>
        rw [hd] at hagain
        cases hagain
    | handles hd _ _ _ =>
        rw [hd] at hagain
        cases hagain
        exact absurd rfl hx
    | refuses _ hline =>
        refine ⟨reqs, ctx, rest ++ bytes, hstarts.append bytes,
          .inr ⟨n + 1, hrefusing.refused.append bytes, ?_, ?_⟩⟩
        · rw [hactions, hrefusing.run, List.append_assoc, List.replicate_succ' (n := n + 1),
            List.flatten_concat]
        · rw [hinput]
          exact hline

theorem Answers.of_same {arrived : Bytes} (h : Answers cb st₀ arrived d)
    (hprogram : d'.program = d.program)
    (hinput : d'.session.conn.inputBuffer = d.session.conn.inputBuffer) :
    Answers cb st₀ arrived d' := by
  obtain ⟨reqs, ctx, rest, hstarts, hserving | ⟨n, hrefusing⟩⟩ := h
  · exact ⟨reqs, ctx, rest, hstarts, .inl ⟨hprogram ▸ hserving.run,
      fun more => by rw [hserving.resumes, hprogram, hinput]⟩⟩
  · exact ⟨reqs, ctx, rest, hstarts, .inr ⟨n, hrefusing.refused, hprogram ▸ hrefusing.run,
      by rw [hprogram, hinput]; exact hrefusing.line⟩⟩

theorem Serves.init (h : (program cb st₀).system.init d) : Serves cb st₀ [] d := by
  have hinStep := inStep_of_reachable (fun d a (hok : ReadsInTime d a) => hok) (.init h)
  obtain ⟨⟨self, loop, name, sockfd, hwm, wc, p, phase, atOnce, -, -, hs⟩, -, hp, -⟩ := h
  have hactions : d.program.actions = [] := by
    rw [hp]
    rfl
  have hst : d.program.st = st₀ := by
    rw [hp]
    rfl
  refine ⟨hinStep, fun _ => ⟨rfl, hst⟩, ?_, answers_new cb hst hactions ?_ ?_⟩
  · rw [hactions, hs]
    rfl
  · rw [hp]
    rfl
  · rw [hs]
    exact WfBuffer.readable_new

/-- What is handed to the server is what arrives. -/
theorem received_eq (d : Driven (Conversation σ)) (a : SessionAction) :
    d.session.received a = (reads d a).getD [] := by
  cases a with
  | task r w =>
      cases r with
      | error => rfl
      | data bytes =>
          cases bytes with
          | nil =>
              unfold Session.received Session.reads
              dsimp only
              split <;> rfl
          | cons b bs => rfl
  | _ => rfl

theorem deliver_ne_connecting {state : StateE} (h : state ≠ .kConnecting) (actions : List HttpAction) :
    (deliver state actions).1 ≠ .kConnecting := by
  induction actions generalizing state with
  | nil => exact h
  | cons a actions ih =>
      cases a with
      | shutdown =>
          refine ih ?_
          split
          · decide
          · exact h
      | httpCallback req | send message => exact ih h
      | sendBuffer bytes => exact ih h

/-- **A step of the server.** -/
theorem Serves.step {arrived : Bytes} (h : Serves cb st₀ arrived d)
    (hr : Session.system.Reachable d.session) (hstep : (program cb st₀).system.Step d (a, i) d')
    (hopen : ¬ d'.session.Closed)
    (hinput' : d'.session.conn.inputBuffer.readable <:+ arrived ++ d.session.received a) :
    Serves cb st₀ (arrived ++ d.session.received a) d' := by
  have hopen' : ¬ d.session.Closed := fun hc => hopen (Program.closed_step hstep hc)
  have htime : ReadsInTime d (a, i) := fun hc => absurd hc hopen'
  have hr' : Session.system.Reachable d'.session :=
    Program.step_keeps (Q := Session.system.Reachable) (fun _ _ _ hs hr => .step hr trivial hs)
      hstep hr
  have hmove := server_move hr hstep
  have hinStep := h.inStep.step hr hr' htime hmove
  have hsent : (d.session.conn.state = .kConnecting → d'.program.actions = d.program.actions) →
      sentBytes d'.session.history = said .kConnected d'.program.actions := by
    intro hidle
    obtain ⟨more, hmore, hsends⟩ := step_sends hr hstep hopen
    rw [hsends, hmore, said_append, h.sent]
    by_cases hcon : d.session.conn.state = .kConnecting
    · obtain rfl : more = [] := by simpa [hmore] using hidle hcon
      rfl
    · rw [h.inStep.state hopen' hcon]
  cases hmove with
  | none hreads hprogram _ hinput _ hstate =>
      rw [received_eq, hreads, Option.getD_none, List.append_nil]
      refine ⟨hinStep, fun hcon => ?_, hsent fun _ => by rw [hprogram],
        h.answers.of_same hprogram hinput⟩
      rw [hprogram]
      exact h.fresh (hstate hopen ▸ hcon)
  | up hreads hprogram _ hstate hstate' =>
      rw [received_eq, hreads, Option.getD_none, List.append_nil] at hinput' ⊢
      obtain ⟨rfl, hst⟩ := h.fresh hstate
      refine ⟨hinStep, fun hcon => ?_, hsent fun _ => by rw [hprogram], answers_new cb ?_ ?_ ?_ ?_⟩
      · rw [hstate'] at hcon
        cases hcon
      · rw [hprogram, hst]
      · rw [hprogram]
        exact h.inStep.idle hstate
      · rw [hprogram]
      · exact List.suffix_nil.mp hinput'
  | @read bytes buf more hreads hmsg hactions hstate _ hinput _ =>
      rw [received_eq, hreads, Option.getD_some]
      obtain ⟨-, hsuf, -, -⟩ := onMessage_end cb h.inStep.ctx (WfBuffer.wf _) hmsg
      have hrun : MessageRun cb d.program.st d.program.ctx
          (d.session.conn.inputBuffer.readable ++ bytes) d'.program.st d'.program.ctx buf.readable
          more := by
        rw [← readable_readFd]
        exact onMessage_run h.inStep.ctx (WfBuffer.wf _) hmsg
      have hne := ne_connecting_of_reads hr hreads
      refine ⟨hinStep, fun hcon => absurd (hstate.symm.trans hcon) (deliver_ne_connecting hne more),
        hsent fun hcon => absurd hcon hne,
        h.answers.read hrun hactions (input_after_read hsuf hinput)⟩

@[simp] theorem handled_onRequests (st : σ) (reqs : List HttpRequest) :
    handled (onRequests cb st reqs).2 = reqs := by
  induction reqs generalizing st with
  | nil => rfl
  | cons req reqs ih => simp [onRequests, ih]

theorem handled_refusals (n : ℕ) :
    handled (List.replicate n [HttpAction.send badRequest, .shutdown]).flatten = [] := by
  induction n with
  | zero => rfl
  | succ n ih =>
      rw [List.replicate_succ, List.flatten_cons, handled_append, ih]
      rfl

/-- What the server owes for these requests: the responses to them, which the 400 follows only if the
next line is refused and no response closes the connection. -/
def Owes (cb : HttpCallback σ) (st : σ) (reqs : List HttpRequest) (ctx : HttpContext) (rest : Bytes)
    (owed : Bytes) : Prop :=
  owed = (replies cb st reqs).flatMap text ∨
    RefusedNext ctx rest ∧ (∀ response ∈ replies cb st reqs, response.closeConnection = false) ∧
      owed = (replies cb st reqs).flatMap text ++ badRequest

/-- **What the server sends** for what has arrived. -/
theorem Serves.owes {arrived : Bytes} (h : Serves cb st₀ arrived d) :
    ∃ ctx rest, StartsWith arrived (handled d.program.actions) ctx rest ∧
      Owes cb st₀ (handled d.program.actions) ctx rest (sentBytes d.session.history) := by
  obtain ⟨reqs, ctx, rest, hstarts, hserving | ⟨n, hrefusing⟩⟩ := h.answers
  · have hactions : d.program.actions = (onRequests cb st₀ reqs).2 := by rw [hserving.run]
    refine ⟨ctx, rest, ?_, .inl ?_⟩
    · rw [hactions, handled_onRequests]
      exact hstarts
    · rw [h.sent, hactions, handled_onRequests, said_onRequests]
  · have hhandled : handled d.program.actions = reqs := by
      rw [hrefusing.run, handled_append, handled_onRequests, handled_refusals, List.append_nil]
    rw [hhandled, h.sent, hrefusing.run, said_append, said_refusals, said_onRequests]
    refine ⟨ctx, rest, hstarts, ?_⟩
    split
    · next hup => exact .inr ⟨hrefusing.refused, keepAlive_of_deliver hup, rfl⟩
    · exact .inl (List.append_nil _)

end HttpServer

/-! ## The server and a client -/

namespace Pipe

open HttpServer HttpResponse

variable {π ι ε σ : Type} {client : Program π ι ε} {cb : HttpCallback σ} {st : σ}
  {p : Pipe (π × Conversation σ)}

/-- Any client at the near side, the server at the far side. -/
def served (client : Program π ι ε) (cb : HttpCallback σ) (st : σ) :
    Side → Program (π × Conversation σ) (ι × HttpInput) (ε ⊕ (NetFault ⊕ HttpFault))
  | .near => client.embed (·, (program cb st).start) Prod.fst Prod.fst .inl
  | .far => (program cb st).embed (client.start, ·) Prod.snd Prod.snd .inr

instance decidableServed (client : Program π ι ε) (cb : HttpCallback σ) (st : σ)
    [h : DecidablePred client.allows] : ∀ side, DecidablePred (served client cb st side).allows
  | .near => h
  | .far => inferInstanceAs (DecidablePred (program cb st).allows)

theorem serves_of_reachable (h : (system (served client cb st)).Reachable p)
    (hopen : ¬ (p.session .far).Closed) :
    Serves cb st (p.wire .near).delivered ((p.user .far).map Prod.snd) := by
  refine arrived_invariant .far (I := fun arrived d => Serves cb st arrived (d.map Prod.snd))
    (fun d hinit => ?_) (fun arrived d a i d' hr hstep hopen hinput hd => ?_) h hopen
  · refine .init ⟨hinit.1, hinit.2.1, ?_, hinit.2.2.2⟩
    show d.program.2 = (program cb st).start
    rw [hinit.2.2.1]
    rfl
  · exact hd.step hr (Program.step_embed (fun _ => rfl) hstep) hopen hinput

/-- **A client and an `HttpServer`.** Until the server's connection is closed, the requests that it has
handed to the callback are the first ones of what the client's kernel has accepted, and the client has
received a prefix of what the server owes for them; all of it, when it has read to the end of a stream
that was not reset. -/
theorem http_served (h : (system (served client cb st)).Reachable p)
    (hfar : .closeCallback ∉ (p.session .far).history) :
    ∃ ctx rest owed,
      StartsWith (acceptedBytes (p.session .near).history)
        (handled (p.user .far).program.2.actions) ctx rest ∧
      Owes cb st (handled (p.user .far).program.2.actions) ctx rest owed ∧
      (p.wire .far).delivered <+: owed ∧
      ((p.wire .far).broken = false → p.ended .near = true → (p.wire .far).delivered = owed) := by
  have hby : ∀ a, (served client cb st .far).allows a → a.byLoop = true := by
    intro a ha
    have hloop : isLoopStep a = true := ha
    cases a <;> first | rfl | cases hloop
  have hinLoop := sendsInLoop_of_byLoop hby h
  obtain ⟨ctx, rest, hstarts, howes⟩ := (serves_of_reachable h hfar).owes
  obtain ⟨later, hlater⟩ := delivered_prefix_accepted h .near
  refine ⟨ctx, rest ++ later, _, hlater ▸ hstarts.append later,
    howes.imp_right fun hr => ⟨hr.1.append later, hr.2⟩, delivered_prefix_sent hinLoop hfar,
    fun hwhole hended => delivered_eq_sent hinLoop hfar hwhole hended⟩

/-- The client sends a request in two pieces, and reads the response, after which the server has
half-closed, to the end. -/
def servedRun : List (PipeAction (Unit × HttpInput)) :=
  [(.near, .task .error (.accepted 0)), (.near, .takeFunctors), (.near, .endIteration),
    (.far, .task .error (.accepted 0)), (.far, .takeFunctors), (.far, .endIteration),
    (.near, .send (.loop 0) closingGet (.accepted 5)),
    (.far, .poll (some {.POLLIN})), (.far, .task (.data (closingGet.take 5)) (.accepted 0)),
    (.far, .takeFunctors), (.far, .endIteration),
    (.near, .poll (some {.POLLOUT})), (.near, .task .error (.accepted 100)),
    (.far, .poll (some {.POLLIN})), (.far, .task (.data (closingGet.drop 5)) (.accepted 0)),
    (.near, .takeFunctors), (.near, .endIteration), (.near, .poll (some {.POLLIN})),
    (.near, .task (.data (HttpResponse.new true).text) (.accepted 0)),
    (.near, .takeFunctors), (.near, .endIteration), (.near, .poll (some {.POLLIN})),
    (.near, .task (.data []) (.accepted 0))].map fun p => .step p.1 (p.2, (), plainInput)

def firstServed : Pipe (Unit × Conversation Unit) where
  user _ := ⟨Session.firstSession, ((), (program leaveResponse ()).start), []⟩
  wire _ := .new
  ended _ := false

theorem init_firstServed : (system (served anyUser leaveResponse ())).init firstServed := by
  refine ⟨fun side => ?_, fun _ => rfl, fun _ => rfl⟩
  cases side <;> exact ⟨Session.init_firstSession, trivial, rfl, rfl⟩

theorem http_served_servedRun : ∃ p : Pipe (Unit × Conversation Unit), ∃ ctx rest owed,
    StartsWith closingGet (handled (p.user .far).program.2.actions) ctx rest ∧
      (handled (p.user .far).program.2.actions).length = 1 ∧
      Owes leaveResponse () (handled (p.user .far).program.2.actions) ctx rest owed ∧
      (p.wire .far).delivered = owed := by
  obtain ⟨p, hp, hd⟩ := StepSystem.exists_reachableVia_of_runFrom? (fun _ _ => True) servedRun
    (M := system (served anyUser leaveResponse ()))
    (p := fun p => decide (acceptedBytes (p.session .near).history = closingGet ∧
      (handled (p.user .far).program.2.actions).length = 1 ∧
      .closeCallback ∉ (p.session .far).history ∧ (p.wire .far).broken = false ∧
      p.ended .near = true)) init_firstServed (by decide +kernel)
  obtain ⟨hacc, hone, hfar, hwhole, hended⟩ := of_decide_eq_true hd
  obtain ⟨ctx, rest, owed, hstarts, howes, -, hall⟩ := http_served hp hfar
  exact ⟨p, ctx, rest, owed, hacc ▸ hstarts, hone, howes, hall hwhole hended⟩

end Pipe

end MiniMuduo
