import MiniMuduo.Http.ServerProgram

/-!
# Every handled request and its response

`onMessage` does not look at the state of the connection. After a response that closes it the next
request is handled all the same, and its response is dropped, because `send` finds the connection in
`kDisconnecting`. `responses_accepted` says that this is the only way to lose a response. After a 400
no request is handled any more: the refused line stays at the front of the buffer.
-/

namespace MiniMuduo

open Fallible

namespace HttpServer

open HttpContext

variable {σ : Type} {cb : HttpCallback σ} {st : σ} {d d' : Driven (Conversation σ)}
  {a : SessionAction} {i : HttpInput} {actions : List HttpAction}

/-- The callback for one request after the other: its last state, and the requests with its responses. -/
def answers (cb : HttpCallback σ) : σ → List HttpRequest → σ × List (HttpRequest × HttpResponse)
  | st, [] => (st, [])
  | st, req :: reqs =>
      let (st₁, response) := cb st req (.new (closes req))
      let (st₂, later) := answers cb st₁ reqs
      (st₂, (req, response) :: later)

/-- Every invocation was followed at once by the response the callback gave, and those are what the
connection accepted, in this order; the lines refused came after them; and there is no invocation after
a `shutdown`, that is after a response that closes the connection or a 400. -/
structure Answered (cb : HttpCallback σ) (st : σ) (d : Driven (Conversation σ)) : Prop where
  calls : ∃ n, d.program.actions = (answers cb st (handled d.program.actions)).2.flatMap exchange ++
    (List.replicate n refusal).flatten
  accepted : acceptedResponses d.session.history =
    (answers cb st (handled d.program.actions)).2.map (·.2.text)
  none_after : ∀ before after, d.program.actions = before ++ .shutdown :: after → handled after = []

/-- There is no read after `handleClose`. -/
def ReadsInTime (d : Driven (Conversation σ)) (a : SessionAction × HttpInput) : Prop :=
  d.session.Closed → reads d a.1 = none

theorem ReadsInTime.open_of_reads {d : Driven (Conversation σ)} {a : SessionAction × HttpInput}
    {bytes : Bytes} (h : ReadsInTime d a) (hreads : reads d a.1 = some bytes) :
    ¬ d.session.Closed := by
  intro hclosed
  rw [h hclosed] at hreads
  cases hreads

/-- A response closed the connection. -/
def ClosedByResponse (actions : List HttpAction) : Prop :=
  ∃ before bytes after, actions = before ++ .sendBuffer bytes :: .shutdown :: after

/-- The read completes a request although an earlier response closed the connection. -/
def HandlesAfterClosing (d : Driven (Conversation σ)) (a : SessionAction × HttpInput) : Prop :=
  ClosedByResponse d.program.actions ∧ ∃ bytes ∈ reads d a.1,
    d.program.ctx.completes (d.session.conn.inputBuffer.readable ++ bytes) = true

/-! ## The two states of the connection -/

theorem deliver_of_ne {state : StateE} (h : state ≠ .kConnected) (actions : List HttpAction) :
    deliver state actions = (state, []) := by
  induction actions with
  | nil => rfl
  | cons a actions ih => cases a <;> simp [deliver, h, ih]

theorem deliver_of_not_mem (h : .shutdown ∉ actions) :
    (deliver .kConnected actions).1 = .kConnected := by
  induction actions with
  | nil => rfl
  | cons a actions ih =>
      have hrest : .shutdown ∉ actions := fun hmem => h (List.mem_cons_of_mem _ hmem)
      cases a with
      | shutdown => exact absurd List.mem_cons_self h
      | httpCallback req | send message | sendBuffer bytes => exact ih hrest

theorem deliver_of_mem (h : .shutdown ∈ actions) :
    (deliver .kConnected actions).1 = .kDisconnecting := by
  induction actions with
  | nil => cases h
  | cons a actions ih =>
      cases a with
      | shutdown => rw [deliver, if_pos rfl, deliver_of_ne (by decide)]
      | httpCallback req | send message | sendBuffer bytes =>
          exact ih ((List.mem_cons.mp h).resolve_left (by simp))

theorem not_mem_exchange {e : HttpRequest × HttpResponse} : .send badRequest ∉ exchange e := by
  unfold exchange
  split <;> simp

/-- A connected connection accepts the response. -/
theorem deliver_exchange (e : HttpRequest × HttpResponse) :
    (deliver .kConnected (exchange e)).2 = [e.2.text] := by
  unfold exchange
  split <;> rfl

theorem length_deliver_exchange_le (state : StateE) (e : HttpRequest × HttpResponse) :
    (deliver state (exchange e)).2.length ≤ (handled (exchange e)).length := by
  rw [handled_exchange]
  by_cases hup : state = .kConnected
  · rw [hup, deliver_exchange]
    exact Nat.le_refl _
  · simp [deliver_of_ne hup]

/-! ## What every run keeps -/

/-- The server and the connection agree on what was accepted, and on the state. -/
structure InStep (d : Driven (Conversation σ)) : Prop where
  ctx : d.program.ctx.ExpectsLine
  idle : d.session.conn.state = .kConnecting → d.program.actions = []
  accepted : acceptedResponses d.session.history = (deliver .kConnected d.program.actions).2
  state : ¬ d.session.Closed → d.session.conn.state ≠ .kConnecting →
    d.session.conn.state = (deliver .kConnected d.program.actions).1
  cause : .shutdown ∈ d.program.actions →
    ClosedByResponse d.program.actions ∨ .send badRequest ∈ d.program.actions
  refused : .send badRequest ∈ d.program.actions → ¬ d.session.Closed →
    d.program.ctx.AtRefusedLine d.session.conn.inputBuffer.readable
  bound : (deliver .kConnected d.program.actions).2.length ≤ (handled d.program.actions).length

theorem ClosedByResponse.append (h : ClosedByResponse actions) (more : List HttpAction) :
    ClosedByResponse (actions ++ more) := by
  obtain ⟨before, bytes, after, rfl⟩ := h
  exact ⟨before, bytes, after ++ more, by simp⟩

/-- Where a read is handed to the server. -/
theorem ne_connecting_of_reads {bytes : Bytes} (hr : Session.system.Reachable d.session)
    (h : reads d a = some bytes) : d.session.conn.state ≠ .kConnecting := by
  unfold reads at h
  split at h
  · split at h
    · next htodo =>
        exact (Session.orderly_of_reachable hr).waiting.ne_connecting htodo (by simp)
    · cases h
  · cases h

/-- The input after a read is what `onMessage` left. -/
theorem input_after_read {bytes : Bytes} {buf : Buffer} {input : WfBuffer}
    (hsuf : buf.readable <:+ (d.session.conn.inputBuffer.readFd bytes).readable)
    (hinput : input.readable = (d.session.conn.inputBuffer.readFd bytes).readable.drop
      ((d.session.conn.inputBuffer.readFd bytes).readable.length - buf.readable.length)) :
    input.readable = buf.readable := by
  obtain ⟨taken, htaken⟩ := hsuf
  rw [hinput, ← htaken, List.length_append, Nat.add_sub_cancel, List.drop_left]

/-- Nothing is handled after a 400. -/
theorem InStep.not_completes {bytes : Bytes} (h : InStep d) (hopen : ¬ d.session.Closed)
    (hbad : .send badRequest ∈ d.program.actions) :
    d.program.ctx.completes (d.session.conn.inputBuffer.readable ++ bytes) = false :=
  ((h.refused hbad hopen).append bytes).not_completes

/-- What a read adds. -/
theorem InStep.read {bytes : Bytes} {buf : Buffer} {more : List HttpAction} (h : InStep d)
    (hopen : ¬ d.session.Closed) (hne : d.session.conn.state ≠ .kConnecting)
    (hend : MessageEnd cb d.program.st d.program.ctx (d.session.conn.inputBuffer.readable ++ bytes)
      d'.program.st d'.program.ctx buf.readable more)
    (hctx : d'.program.ctx.ExpectsLine)
    (hactions : d'.program.actions = d.program.actions ++ more)
    (hstate : d'.session.conn.state = (deliver d.session.conn.state more).1)
    (hacc : acceptedResponses d'.session.history =
      acceptedResponses d.session.history ++ (deliver d.session.conn.state more).2)
    (hinput : d'.session.conn.inputBuffer.readable = buf.readable) : InStep d' := by
  rw [h.state hopen hne] at hstate hacc
  have hdel := deliver_append .kConnected d.program.actions more
  rw [← hactions] at hdel
  have hstate' : d'.session.conn.state = (deliver .kConnected d'.program.actions).1 := by
    rw [hstate, hdel]
  have hne' : d'.session.conn.state ≠ .kConnecting := by
    rw [hstate']
    by_cases hmem : .shutdown ∈ d'.program.actions
    · rw [deliver_of_mem hmem]
      decide
    · rw [deliver_of_not_mem hmem]
      decide
  refine ⟨hctx, fun hcon => absurd hcon hne', ?accepted, fun _ _ => hstate', ?cause, ?refused,
    ?bound⟩
  case accepted => rw [hacc, h.accepted, hdel]
  case cause =>
    intro hmem
    rw [hactions] at hmem ⊢
    rcases List.mem_append.mp hmem with hmem | hmem
    · rcases h.cause hmem with hby | hbad
      · exact .inl (hby.append more)
      · exact .inr (List.mem_append_left _ hbad)
    · cases hend with
      | waits _ _ _ => cases hmem
      | refused _ _ _ => exact .inr (by simp [refusal])
      | @handled req response _ _ =>
          left
          cases hclose : response.closeConnection with
          | false => simp [exchange, hclose] at hmem
          | true =>
              exact ⟨d.program.actions ++ [.httpCallback req], response.text, [],
                by simp [exchange, hclose]⟩
  case refused =>
    intro hbad _
    rw [hinput]
    rw [hactions] at hbad
    cases hend with
    | refused _ hline _ => exact hline
    | waits _ hline _ =>
        rw [List.append_nil] at hbad
        exact absurd ((h.refused hbad hopen).append bytes) hline
    | handled hcompletes _ =>
        have hold : .send badRequest ∈ d.program.actions := by
          rcases List.mem_append.mp hbad with hold | hnew
          · exact hold
          · exact absurd hnew not_mem_exchange
        rw [h.not_completes hopen hold] at hcompletes
        cases hcompletes
  case bound =>
    rw [hdel, hactions, handled_append, List.length_append, List.length_append]
    have hold := h.bound
    have hnew : (deliver (deliver .kConnected d.program.actions).1 more).2.length ≤
        (handled more).length := by
      cases hend with
      | waits _ _ _ => exact Nat.le_refl _
      | refused _ _ _ => simp [deliver, refusal]
      | handled _ _ => exact length_deliver_exchange_le _ _
    omega

theorem InStep.step (h : InStep d) (hr : Session.system.Reachable d.session)
    (hr' : Session.system.Reachable d'.session) (htime : ReadsInTime d (a, i))
    (hm : ServerMove cb d a i d') : InStep d' := by
  cases hm with
  | none hreads hprogram hacc hinput hclosed hstate =>
      refine ⟨?ctx, ?idle, ?accepted, ?state, ?cause, ?refused, ?bound⟩
      case ctx => exact hprogram ▸ h.ctx
      case idle =>
        intro hcon
        have hopen : ¬ d'.session.Closed := by
          unfold Session.Closed
          rw [((Session.orderly_of_reachable hr').waiting.1 hcon).history]
          exact List.not_mem_nil
        rw [hprogram]
        exact h.idle (hstate hopen ▸ hcon)
      case accepted => rw [hacc, hprogram, h.accepted]
      case state =>
        intro hopen hcon
        rw [hstate hopen] at hcon ⊢
        rw [hprogram]
        exact h.state (fun hc => hopen (hclosed hc)) hcon
      case cause => exact hprogram ▸ h.cause
      case refused =>
        intro hbad hopen
        rw [hprogram] at hbad ⊢
        rw [hinput]
        exact h.refused hbad fun hc => hopen (hclosed hc)
      case bound => exact hprogram ▸ h.bound
  | up hreads hprogram hacc hstate hstate' =>
      have hnil : d'.program.actions = [] := by
        rw [hprogram]
        exact h.idle hstate
      refine ⟨?ctx, ?idle, ?accepted, ?state, ?cause, ?refused, ?bound⟩
      case ctx =>
        rw [hprogram]
        exact .inl rfl
      case idle => exact fun _ => hnil
      case accepted => rw [hacc, hnil, h.accepted, h.idle hstate]
      case state =>
        rw [hnil]
        exact fun _ _ => hstate'
      case cause => simp [hnil]
      case refused => simp [hnil]
      case bound => simp [hnil, deliver]
  | @read bytes buf more hreads hmsg hactions hstate hacc hinput hclosed =>
      have hopen := htime.open_of_reads hreads
      obtain ⟨hctx, hsuf, -, hend⟩ := onMessage_end cb h.ctx (WfBuffer.wf _) hmsg
      have hend' : MessageEnd cb d.program.st d.program.ctx
          (d.session.conn.inputBuffer.readable ++ bytes) d'.program.st d'.program.ctx buf.readable
          more := by
        rw [← readable_readFd]
        exact hend
      exact h.read hopen (ne_connecting_of_reads hr hreads) hend' hctx hactions hstate hacc
        (input_after_read hsuf hinput)

theorem inStep_of_reachable {ok : Driven (Conversation σ) → SessionAction × HttpInput → Prop}
    (hok : ∀ d a, ok d a → ReadsInTime d a) (h : (program cb st).system.ReachableVia ok d) :
    InStep d := by
  refine StepSystem.ReachableVia.invariant (fun d hinit => ?_) (fun d a d' hr hd ha hstep => ?_) h
  · obtain ⟨⟨self, loop, name, sockfd, hwm, wc, p, phase, atOnce, -, -, hs⟩, -, hp, -⟩ := hinit
    have hhist : d.session.history = [] := by
      rw [hs]
      rfl
    have hnil : d.program.actions = [] := by
      rw [hp]
      rfl
    refine ⟨?ctx, fun _ => hnil, ?accepted, ?state, ?cause, ?refused, ?bound⟩
    case ctx =>
      rw [hp]
      exact .inl rfl
    case accepted =>
      rw [hhist, hnil]
      rfl
    case state =>
      intro _ hne
      refine absurd ?_ hne
      rw [hs]
      rfl
    case cause => simp [hnil]
    case refused => simp [hnil]
    case bound => simp [hnil, deliver]
  · have hsession := Program.session_reachable hr
    exact hd.step hsession (Program.session_reachable (.step hr ha hstep)) (hok d a ha)
      (server_move hsession hstep)

/-! ## The responses -/

theorem answers_concat (st : σ) (reqs : List HttpRequest) (req : HttpRequest) {st' : σ}
    {response : HttpResponse}
    (h : cb (answers cb st reqs).1 req (.new (closes req)) = (st', response)) :
    answers cb st (reqs ++ [req]) = (st', (answers cb st reqs).2 ++ [(req, response)]) := by
  induction reqs generalizing st with
  | nil =>
      simp only [answers] at h
      simp [answers, h]
  | cons r reqs ih =>
      simp only [answers] at h
      simp only [List.cons_append, answers, ih _ h]

theorem length_answers (st : σ) (reqs : List HttpRequest) :
    (answers cb st reqs).2.length = reqs.length := by
  induction reqs generalizing st with
  | nil => rfl
  | cons req reqs ih => simp [answers, ih]

theorem Answered.of_same (h : Answered cb st d) (hactions : d'.program.actions = d.program.actions)
    (hacc : acceptedResponses d'.session.history = acceptedResponses d.session.history) :
    Answered cb st d' := by
  refine ⟨?_, ?_, ?_⟩
  · rw [hactions]
    exact h.calls
  · rw [hactions, hacc]
    exact h.accepted
  · rw [hactions]
    exact h.none_after

/-- No invocation comes after a `shutdown`. -/
def NoneAfter (actions : List HttpAction) : Prop :=
  ∀ before after, actions = before ++ .shutdown :: after → handled after = []

theorem NoneAfter.append {more : List HttpAction} (h : NoneAfter actions) (hmore : NoneAfter more)
    (hnone : .shutdown ∈ actions → handled more = []) : NoneAfter (actions ++ more) := by
  intro before after heq
  rcases List.append_eq_append_iff.mp heq with ⟨mid, rfl, hmid⟩ | ⟨mid, hmid, htail⟩
  · exact hmore mid after hmid
  · cases mid with
    | nil => exact hmore [] after htail.symm
    | cons x mid =>
        obtain ⟨rfl, hafter⟩ := List.cons.inj htail
        have hold := h before mid hmid
        have hnew := hnone (hmid ▸ by simp)
        rw [hafter]
        exact (handled_append mid more).trans (by rw [hold, hnew, List.append_nil])

theorem noneAfter_exchange (e : HttpRequest × HttpResponse) : NoneAfter (exchange e) := by
  intro before after heq
  unfold exchange at heq
  split at heq <;> rcases before with _ | ⟨x, _ | ⟨y, _ | ⟨z, before⟩⟩⟩ <;> simp at heq
  rw [heq.2.2]
  rfl

theorem noneAfter_refusal : NoneAfter refusal := by
  intro before after heq
  unfold refusal at heq
  rcases before with _ | ⟨x, _ | ⟨y, before⟩⟩ <;> simp at heq
  rw [heq.2]
  rfl

/-- What the connection accepts of the actions of one `onMessage` call. -/
theorem Answered.read {unread left : Bytes} {more : List HttpAction} (h : Answered cb st d)
    (hst : d.program.st = (answers cb st (handled d.program.actions)).1)
    (hend : MessageEnd cb d.program.st d.program.ctx unread d'.program.st d'.program.ctx left more)
    (hup : d.program.ctx.completes unread = true →
      d.session.conn.state = .kConnected ∧ .shutdown ∉ d.program.actions)
    (hactions : d'.program.actions = d.program.actions ++ more)
    (hacc : acceptedResponses d'.session.history =
      acceptedResponses d.session.history ++ (deliver d.session.conn.state more).2) :
    Answered cb st d' ∧ d'.program.st = (answers cb st (handled d'.program.actions)).1 := by
  obtain ⟨n, hcalls⟩ := h.calls
  cases hend with
  | waits _ _ hst' =>
      rw [List.append_nil] at hactions
      rw [hst', hst, hactions]
      exact ⟨h.of_same hactions (hacc.trans (List.append_nil _)), rfl⟩
  | refused _ _ hst' =>
      have hhandled : handled d'.program.actions = handled d.program.actions := by
        rw [hactions, handled_append]
        exact List.append_nil _
      refine ⟨⟨⟨n + 1, ?_⟩, ?_, ?_⟩, ?_⟩
      · rw [hhandled, List.replicate_succ', List.flatten_concat, ← List.append_assoc, ← hcalls,
          hactions]
      · rw [hhandled, hacc, h.accepted]
        simp [deliver, refusal]
      · rw [hactions]
        exact NoneAfter.append h.none_after noneAfter_refusal fun _ => rfl
      · rw [hhandled, hst', hst]
  | @handled req response hcompletes hcb =>
      obtain ⟨hconn, hno⟩ := hup hcompletes
      have hzero : n = 0 := by
        by_contra hne
        obtain ⟨m, rfl⟩ := Nat.exists_eq_succ_of_ne_zero hne
        exact hno (by rw [hcalls, List.replicate_succ]; simp [refusal])
      subst hzero
      rw [hst] at hcb
      have hanswers := answers_concat st _ req hcb
      have hhandled : handled d'.program.actions = handled d.program.actions ++ [req] := by
        rw [hactions, handled_append, handled_exchange]
      refine ⟨⟨⟨0, ?_⟩, ?_, ?_⟩, ?_⟩
      · rw [hhandled, hanswers, List.flatMap_append, List.flatMap_singleton]
        simpa [hactions] using hcalls
      · rw [hhandled, hanswers, hacc, h.accepted, hconn, deliver_exchange, List.map_append]
        rfl
      · rw [hactions]
        exact NoneAfter.append h.none_after (noneAfter_exchange _) fun hmem => absurd hmem hno
      · rw [hhandled, hanswers]

/-- A step that loses no response. -/
theorem Answered.step (h : Answered cb st d)
    (hst : d.program.st = (answers cb st (handled d.program.actions)).1) (hin : InStep d)
    (hr : Session.system.Reachable d.session) (htime : ReadsInTime d (a, i))
    (hok : ¬ HandlesAfterClosing d (a, i)) (hm : ServerMove cb d a i d') :
    Answered cb st d' ∧ d'.program.st = (answers cb st (handled d'.program.actions)).1 := by
  cases hm with
  | none hreads hprogram hacc hinput hclosed hstate =>
      exact ⟨h.of_same (by rw [hprogram]) hacc, by rw [hprogram, hst]⟩
  | up hreads hprogram hacc hstate hstate' =>
      exact ⟨h.of_same (by rw [hprogram]) hacc, by rw [hprogram, hst]⟩
  | @read bytes buf more hreads hmsg hactions hstate hacc hinput hclosed =>
      have hopen := htime.open_of_reads hreads
      obtain ⟨-, -, -, hend⟩ := onMessage_end cb hin.ctx (WfBuffer.wf _) hmsg
      refine h.read hst hend (fun hcompletes => ?_) hactions hacc
      have hunread : d.program.ctx.completes
          (d.session.conn.inputBuffer.readable ++ bytes) = true := by
        rw [← readable_readFd]
        exact hcompletes
      have hno : .shutdown ∉ d.program.actions := by
        intro hmem
        rcases hin.cause hmem with hby | hbad
        · exact hok ⟨hby, bytes, hreads, hunread⟩
        · rw [hin.not_completes hopen hbad] at hunread
          cases hunread
      refine ⟨?_, hno⟩
      rw [hin.state hopen (ne_connecting_of_reads hr hreads), deliver_of_not_mem hno]

/-- As many responses were accepted as requests were handled. -/
theorem Answered.length (h : Answered cb st d) :
    (acceptedResponses d.session.history).length = (handled d.program.actions).length := by
  rw [h.accepted, List.length_map, length_answers]

/-- A request handled after a closing response loses its own. -/
theorem not_answered_of_handlesAfterClosing (hin : InStep d)
    (hr : Session.system.Reachable d.session) (htime : ReadsInTime d (a, i))
    (hbad : HandlesAfterClosing d (a, i)) (hm : ServerMove cb d a i d') : ¬ Answered cb st d' := by
  obtain ⟨⟨before, response, after, hclosed⟩, bytes, hbytes, hcompletes⟩ := hbad
  have hmem : .shutdown ∈ d.program.actions := by
    rw [hclosed]
    simp
  cases hm with
  | none hreads _ _ _ _ _ =>
      rw [hreads] at hbytes
      cases hbytes
  | up hreads _ _ _ _ =>
      rw [hreads] at hbytes
      cases hbytes
  | @read bytes' buf more hreads hmsg hactions hstate hacc hinput hclosed' =>
      rw [hreads] at hbytes
      cases hbytes
      have hopen := htime.open_of_reads hreads
      obtain ⟨-, -, -, hend⟩ := onMessage_end cb hin.ctx (WfBuffer.wf _) hmsg
      have hcompletes' : d.program.ctx.completes
          (d.session.conn.inputBuffer.readFd bytes).val.readable = true := by
        have hread := readable_readFd d.session.conn.inputBuffer bytes
        unfold WfBuffer.readable at hread
        rw [hread]
        exact hcompletes
      have hone : (handled more).length = 1 := by
        cases hend with
        | waits hno _ _ =>
            rw [hno] at hcompletes'
            cases hcompletes'
        | refused hno _ _ =>
            rw [hno] at hcompletes'
            cases hcompletes'
        | handled _ _ => rw [handled_exchange, List.length_singleton]
      -- the connection is in `kDisconnecting` and accepts nothing
      have hstate : d.session.conn.state ≠ .kConnected := by
        rw [hin.state hopen (ne_connecting_of_reads hr hreads), deliver_of_mem hmem]
        decide
      intro hanswered
      have hcount := hanswered.length
      rw [hacc, deliver_of_ne hstate, List.append_nil, hin.accepted, hactions, handled_append,
        List.length_append, hone] at hcount
      have hbound := hin.bound
      omega

/-- **When every handled request gets its response**: as long as no read completes a request after a
response that closed the connection, the responses the callback gave to the handled requests are those
the connection accepted, one for each, and no request is handled after a closing response or a 400; and
a read that does complete one loses a response. -/
theorem responses_accepted (cb : HttpCallback σ) (st : σ) :
    (∀ d, (program cb st).system.ReachableVia
        (fun d a => ReadsInTime d a ∧ ¬ HandlesAfterClosing d a) d → Answered cb st d) ∧
      ∀ d a d', (program cb st).system.ReachableVia ReadsInTime d → ReadsInTime d a →
        HandlesAfterClosing d a → (program cb st).system.Step d a d' → ¬ Answered cb st d' := by
  refine ⟨fun d h => ?_, fun d a d' hr htime hbad hstep => ?_⟩
  · refine (StepSystem.ReachableVia.invariant (I := fun d => Answered cb st d ∧
      d.program.st = (answers cb st (handled d.program.actions)).1) (fun d hinit => ?_)
      (fun d a d' hr hd hok hstep => ?_) h).1
    · obtain ⟨⟨self, loop, name, sockfd, hwm, wc, p, phase, atOnce, -, -, hs⟩, -, hp, -⟩ := hinit
      refine ⟨⟨⟨0, ?_⟩, ?_, fun before after heq => ?_⟩, ?_⟩
      · rw [hp]
        rfl
      · rw [hp, hs]
        rfl
      · rw [hp] at heq
        simp [program] at heq
      · rw [hp]
        rfl
    · have hsession := Program.session_reachable hr
      exact hd.1.step hd.2 (inStep_of_reachable (fun _ _ hok => hok.1) hr) hsession hok.1 hok.2
        (server_move hsession hstep)
  · have hsession := Program.session_reachable hr
    exact not_answered_of_handlesAfterClosing (inStep_of_reachable (fun _ _ hok => hok) hr) hsession
      htime hbad (server_move hsession hstep)

/-! ## Two runs -/

instance (cb : HttpCallback σ) (st : σ) : DecidablePred (program cb st).allows :=
  inferInstanceAs (DecidablePred fun a => isLoopStep a = true)

instance (d : Driven (Conversation σ)) (a : SessionAction × HttpInput) :
    Decidable (ReadsInTime d a) :=
  inferInstanceAs (Decidable (_ → _))

def firstConversation : Driven (Conversation Unit) :=
  ⟨Session.firstSession, ⟨.new, (), []⟩, []⟩

theorem init_firstConversation :
    (program leaveResponse ()).system.init firstConversation :=
  ⟨Session.init_firstSession, trivial, rfl, rfl⟩

/-- All writes take everything. -/
def plainInput : HttpInput := ⟨0, .accepted 100, .accepted 100⟩

/-- The connection comes up, and each of these is read in an iteration of its own. -/
def readRun (reads : List Bytes) : List (SessionAction × HttpInput) :=
  (.task .error (.accepted 0), plainInput) :: reads.flatMap fun bytes =>
    [(.takeFunctors, plainInput), (.endIteration, plainInput), (.poll (some {.POLLIN}), plainInput),
      (.task (.data bytes) (.accepted 0), plainInput)]

/-- `"GET / HTTP/1.0\r\n\r\n"`. -/
def closingGet : Bytes :=
  ascii ['G', 'E', 'T', ' ', '/', ' ', 'H', 'T', 'T', 'P', '/', '1', '.', '0'] ++ (kCRLF ++ kCRLF)

theorem responses_accepted_plainGet : ∃ d : Driven (Conversation Unit),
    (handled d.program.actions).length = 1 ∧ Answered leaveResponse () d := by
  obtain ⟨d, hd, hlen⟩ := StepSystem.exists_reachableVia_of_runFrom?
    (fun d a => ReadsInTime d a ∧ (reads d a.1 = none ∨ d.program.actions.length = 0))
    (readRun [plainGet]) (M := (program leaveResponse ()).system)
    (p := fun d => decide ((handled d.program.actions).length = 1)) init_firstConversation
    (by decide +kernel)
  have hd' : (program leaveResponse ()).system.ReachableVia
      (fun d a => ReadsInTime d a ∧ ¬ HandlesAfterClosing d a) d := by
    refine hd.mono fun d a hok => ⟨hok.1, ?_⟩
    rintro ⟨⟨before, response, after, hclosed⟩, bytes, hbytes, -⟩
    rcases hok.2 with hnone | hnil
    · rw [hnone] at hbytes
      cases hbytes
    · rw [hclosed] at hnil
      simp at hnil
  exact ⟨d, of_decide_eq_true hlen, (responses_accepted leaveResponse ()).1 d hd'⟩

/-- The response to a request over HTTP/1.0 closes the connection. A second one is handled, and its
response is lost. -/
theorem second_closingGet_not_answered : ∃ d : Driven (Conversation Unit),
    (program leaveResponse ()).system.ReachableVia ReadsInTime d ∧
      (handled d.program.actions).length = 2 ∧
      (acceptedResponses d.session.history).length = 1 ∧ ¬ Answered leaveResponse () d := by
  obtain ⟨d, hd, hlen⟩ := StepSystem.exists_reachableVia_of_runFrom? ReadsInTime
    (readRun [closingGet, closingGet]) (M := (program leaveResponse ()).system)
    (p := fun d => decide ((handled d.program.actions).length = 2 ∧
      (acceptedResponses d.session.history).length = 1)) init_firstConversation (by decide +kernel)
  obtain ⟨htwo, hone⟩ := of_decide_eq_true hlen
  refine ⟨d, hd, htwo, hone, fun hanswered => ?_⟩
  have hlength := hanswered.length
  omega

end HttpServer

end MiniMuduo
