import MiniMuduo.Http.Rejection
import Mathlib.Logic.Relation

/-!
# `parseRequest` returns

The `while` loop of `parseRequest` has no exit in the states `ExpectBody` and `GotAll`. No call of a
connection ever starts there: a call leaves one of the two line-reading states unless it completes a
request, and then `onMessage` resets the context at once. From a line-reading state every iteration
but the last takes a whole line with its CRLF from the buffer, so the loop ends.
-/

namespace MiniMuduo

open Fallible Search

namespace HttpContext

variable {ctx : HttpContext} {t : TimePoint}

/-! ## One iteration -/

/-- The body of the loop: `hasMore` and `ok` after it, the context and the buffer. It is entered
with `ok` still true. -/
def loopBody (t : TimePoint) (ctx : HttpContext) (buf : Buffer) :
    Except HttpFault (Bool × Bool × HttpContext × Buffer) :=
  match ctx.state with
  | .ExpectRequestLine =>
      match buf.findCRLF with
      | none => return (false, true, ctx, buf)
      | some crlf => do
          let (ok, ctx) ← ctx.processRequestLine (buf.slice buf.peek crlf)
          if ok then
            let buf ← (buf.retrieveUntil (crlf + 2)).mapError .buffer
            return (true, true, ⟨.ExpectHeaders, ctx.request.setReceiveTime t⟩, buf)
          else return (false, false, ctx, buf)
  | .ExpectHeaders =>
      match buf.findCRLF with
      | none => return (false, true, ctx, buf)
      | some crlf =>
          match splitFirst colonByte (buf.slice buf.peek crlf) with
          | some (field, rest) => do
              let buf ← (buf.retrieveUntil (crlf + 2)).mapError .buffer
              return (true, true, { ctx with request := ctx.request.addHeader field rest }, buf)
          | none => do
              let buf ← (buf.retrieveUntil (crlf + 2)).mapError .buffer
              return (false, true, { ctx with state := .GotAll }, buf)
  | .ExpectBody | .GotAll => return (true, true, ctx, buf)

/-- The loop is its body, again as long as `hasMore` is set. -/
theorem parseLoop_succ (t : TimePoint) (fuel : ℕ) (ctx : HttpContext) (buf : Buffer) :
    parseLoop t (fuel + 1) ctx buf = do
      let (hasMore, ok, ctx, buf) ← loopBody t ctx buf
      if hasMore then parseLoop t fuel ctx buf else return (ok, ctx, buf) := by
  rw [parseLoop, loopBody]
  cases hst : ctx.state with
  | ExpectRequestLine =>
      simp only
      cases buf.findCRLF with
      | none => rfl
      | some crlf =>
          simp only
          cases ctx.processRequestLine (buf.slice buf.peek crlf) with
          | error e => rfl
          | ok p =>
              obtain ⟨ok, ctx'⟩ := p
              cases ok with
              | false => rfl
              | true =>
                  simp only [ok_bind, if_true]
                  cases buf.retrieveUntil (crlf + 2) <;> rfl
  | ExpectHeaders =>
      simp only
      cases buf.findCRLF with
      | none => rfl
      | some crlf =>
          simp only
          cases splitFirst colonByte (buf.slice buf.peek crlf) with
          | none =>
              simp only
              cases buf.retrieveUntil (crlf + 2) <;> rfl
          | some p =>
              simp only
              cases buf.retrieveUntil (crlf + 2) <;> rfl
  | ExpectBody => rfl
  | GotAll => rfl

/-- The body runs and `hasMore` stays set: another iteration follows. -/
def Continues (t : TimePoint) (p q : HttpContext × Buffer) : Prop :=
  ∃ ok, loopBody t p.1 p.2 = .ok (true, ok, q.1, q.2)

/-- What a line-reading context and a well-formed buffer give: an iteration that is followed by
another one read a whole line. -/
theorem Continues.spec {p q : HttpContext × Buffer} (h : Continues t p q)
    (he : p.1.ExpectsLine) (hwf : p.2.Wf) :
    q.1.ExpectsLine ∧ q.2.Wf ∧ q.2.readableBytes + 2 ≤ p.2.readableBytes := by
  obtain ⟨ctx, buf⟩ := p
  obtain ⟨ctx', buf'⟩ := q
  obtain ⟨ok, h⟩ := h
  simp only [loopBody] at h he hwf ⊢
  cases hcut : cutLine buf.readable with
  | none =>
      have hnone := findCRLF_eq_none hcut
      rcases he with hst | hst <;> simp [hst, hnone] at h
  | some line =>
      obtain ⟨line, rest⟩ := line
      obtain ⟨crlf, buf₁, hcrlf, hslice, hretr, hwf₁, hread₁⟩ := findCRLF_eq_some hwf hcut
      have hlen : buf₁.readableBytes + 2 ≤ buf.readableBytes := by
        rw [← hwf₁.length_readable, ← hwf.length_readable, hread₁, (cutLine_eq_some hcut).1]
        simp only [List.length_append, kCRLF, List.length_cons, List.length_nil]
        omega
      rcases he with hst | hst
      · simp only [hst, hcrlf, hslice, hretr] at h
        obtain ⟨⟨accepted, ctx₁⟩, -, h⟩ := bind_eq_ok.mp h
        cases accepted with
        | false => simp at h
        | true =>
            cases h
            exact ⟨.inr rfl, hwf₁, hlen⟩
      · simp only [hst, hcrlf, hslice, hretr] at h
        cases hs : splitFirst colonByte line with
        | none =>
            rw [hs] at h
            simp [Except.mapError] at h
        | some q =>
            rw [hs] at h
            cases h
            exact ⟨.inr rfl, hwf₁, hlen⟩

/-- What holds where an iteration starts, given that it holds where the call starts. -/
theorem continues_invariant {p q : HttpContext × Buffer}
    (h : Relation.ReflTransGen (Continues t) p q) (he : p.1.ExpectsLine) (hwf : p.2.Wf) :
    q.1.ExpectsLine ∧ q.2.Wf := by
  induction h with
  | refl => exact ⟨he, hwf⟩
  | tail _ hlast ih =>
      obtain ⟨he', hwf', -⟩ := hlast.spec ih.1 ih.2
      exact ⟨he', hwf'⟩

/-- More fuel than there are unread bytes changes nothing. -/
theorem parseLoop_fuel (t : TimePoint) {fuel fuel' : ℕ} {buf : Buffer} (he : ctx.ExpectsLine)
    (hwf : buf.Wf) (h : buf.readableBytes < fuel) (h' : buf.readableBytes < fuel') :
    parseLoop t fuel ctx buf = parseLoop t fuel' ctx buf := by
  induction fuel generalizing fuel' ctx buf with
  | zero => omega
  | succ fuel ih =>
      cases fuel' with
      | zero => omega
      | succ fuel' =>
          rw [parseLoop_succ, parseLoop_succ]
          cases hbody : loopBody t ctx buf with
          | error e => rfl
          | ok p =>
              obtain ⟨hasMore, ok, ctx', buf'⟩ := p
              cases hasMore with
              | false => rfl
              | true =>
                  have hcont : Continues t (ctx, buf) (ctx', buf') := ⟨ok, hbody⟩
                  obtain ⟨he', hwf', hlt⟩ := hcont.spec he hwf
                  simp only at he' hwf' hlt
                  simp only [ok_bind, if_true]
                  apply ih he' hwf' <;> omega

/-! ## Where a call starts and ends -/

/-- How a call that starts at a line can end. The only fault is the assert in `setMethod`. -/
def EndsAtLine (x : Except HttpFault Bool) (ctx : HttpContext) : Prop :=
  x = .ok true ∧ ctx.state = .GotAll ∨ x = .ok false ∧ ctx.ExpectsLine ∨ x = .error .setMethod

theorem ExpectsLine.onLine (he : ctx.ExpectsLine) (line : Bytes) :
    match ctx.onLine line with
    | .next ctx' => ctx'.ExpectsLine
    | .stop x ctx' => EndsAtLine x ctx'
    | .refuse x ctx' => EndsAtLine x ctx' := by
  rw [HttpContext.onLine]
  rcases he with hst | hst
  · simp only [hst, if_true]
    rcases ctx.processRequestLine_cases line with hp | ⟨ok, ctx', hp, hst'⟩
    · rw [hp]
      exact .inr (.inr rfl)
    · rw [hp]
      cases ok with
      | true => exact .inr rfl
      | false => exact .inr (.inl ⟨rfl, .inl (hst'.trans hst)⟩)
  · simp only [hst]
    cases splitFirst colonByte line with
    | none => exact .inl ⟨rfl, rfl⟩
    | some p => exact .inr rfl

/-- A call that starts at a line returns, unless the assert in `setMethod` fails; it leaves a context
that expects a line again or a complete request. -/
theorem ExpectsLine.parseRequest (he : ctx.ExpectsLine) {buf : Buffer} (hwf : buf.Wf)
    (t : TimePoint) :
    ctx.parseRequest buf t = .error .setMethod ∨
      ∃ ok ctx' buf', ctx.parseRequest buf t = .ok (ok, ctx', buf') ∧ buf'.Wf ∧
        (ctx'.ExpectsLine ∨ ctx'.gotAll = true) := by
  have he' : ctx.untimed.ExpectsLine := he
  have hends := drive_invariant (P := ExpectsLine) (Q := EndsAtLine) (fun _ h => h)
    (fun _ line h => h.onLine line) he' buf.readable
  have hagree := ctx.parseRequest_agrees hwf t
  cases hd : parser.drive ctx.untimed buf.readable with
  | pending s r =>
      rw [hd] at hends hagree
      obtain ⟨ctx', buf', hres, rfl, hwf', -⟩ := hagree
      exact .inr ⟨true, ctx', buf', hres, hwf', .inl hends⟩
  | done x s r =>
      rw [hd] at hends hagree
      rcases hends with ⟨rfl, hst⟩ | ⟨rfl, hline⟩ | rfl
      · obtain ⟨ctx', buf', hres, rfl, hwf', -⟩ := hagree
        refine .inr ⟨true, ctx', buf', hres, hwf', .inr ?_⟩
        rw [untimed_state] at hst
        simp [gotAll, hst]
      · obtain ⟨ctx', buf', hres, rfl, hwf', -⟩ := hagree
        exact .inr ⟨false, ctx', buf', hres, hwf', .inl hline⟩
      · exact .inl hagree

end HttpContext

namespace HttpServer

open HttpContext

variable {σ : Type} (cb : HttpCallback σ)

/-- `onMessage` resets a complete request, so the next call starts at a line again. -/
theorem onMessage_expectsLine {st st' : σ} {ctx ctx' : HttpContext} {buf buf' : Buffer}
    {t : TimePoint} {actions : List HttpAction} (he : ctx.ExpectsLine) (hwf : buf.Wf)
    (h : onMessage cb st ctx buf t = .ok (st', ctx', buf', actions)) :
    ctx'.ExpectsLine ∧ buf'.Wf := by
  rcases he.parseRequest hwf t with hres | ⟨ok, ctx₁, buf₁, hres, hwf₁, hend⟩
  · simp [onMessage, hres] at h
  · simp only [onMessage, hres, ok_bind] at h
    cases hgot : ctx₁.gotAll with
    | true =>
        simp only [hgot, if_true] at h
        cases h
        exact ⟨.inl rfl, hwf₁⟩
    | false =>
        simp only [hgot] at h
        cases h
        refine ⟨hend.resolve_right ?_, hwf₁⟩
        simp [hgot]

theorem onReads_expectsLine {reads : List (Bytes × TimePoint)} :
    ∀ {st st' : σ} {ctx ctx' : HttpContext} {buf buf' : Buffer} {actions : List HttpAction},
      ctx.ExpectsLine → buf.Wf →
      onReads cb st ctx buf reads = .ok (st', ctx', buf', actions) →
      ctx'.ExpectsLine ∧ buf'.Wf := by
  induction reads with
  | nil =>
      intro st st' ctx ctx' buf buf' actions he hwf h
      cases h
      exact ⟨he, hwf⟩
  | cons read reads ih =>
      intro st st' ctx ctx' buf buf' actions he hwf h
      obtain ⟨buf₁, hbuf₁, hwf₁, -⟩ := hwf.readFd read.1
      simp only [onReads, hbuf₁, Except.mapError, ok_bind, bind_eq_ok] at h
      obtain ⟨⟨st₂, ctx₂, buf₂, acts₂⟩, hmsg, ⟨st₃, ctx₃, buf₃, acts₃⟩, hrest, h⟩ := h
      cases h
      obtain ⟨he₂, hwf₂⟩ := onMessage_expectsLine cb he hwf₁ hmsg
      exact ih he₂ hwf₂ hrest

/-- **`parseRequest` always returns**: whatever the reads before it, the call for the next read starts
in a line-reading state, as does each of its iterations; an iteration that is followed by another one
took at least two bytes from the buffer; so the loop ends, with an answer or at the assert in
`setMethod`, and how much more fuel it is given does not matter. -/
theorem parseRequest_returns (st : σ) (before : List (Bytes × TimePoint)) (bytes : Bytes)
    (t : TimePoint) {st' : σ} {ctx : HttpContext} {buf : Buffer} {actions : List HttpAction}
    (h : onReads cb st .new .new before = .ok (st', ctx, buf, actions)) :
    ∃ input, buf.readFd (.data bytes) = .ok input ∧ ctx.ExpectsLine ∧
      (∀ p, Relation.ReflTransGen (Continues t) (ctx, input) p → p.1.ExpectsLine) ∧
      (∀ p q, Relation.ReflTransGen (Continues t) (ctx, input) p → Continues t p q →
        q.2.readableBytes + 2 ≤ p.2.readableBytes) ∧
      (∀ fuel, input.readableBytes < fuel →
        parseLoop t fuel ctx input = ctx.parseRequest input t) ∧
      (ctx.parseRequest input t = .error .setMethod ∨
        ∃ result, ctx.parseRequest input t = .ok result) := by
  obtain ⟨he, hwf⟩ := onReads_expectsLine cb (.inl rfl) Buffer.wf_new h
  obtain ⟨input, hinput, hwf', -⟩ := hwf.readFd bytes
  refine ⟨input, hinput, he, ?entries, ?progress, ?fuel, ?ends⟩
  case entries =>
    intro p hp
    exact (continues_invariant hp he hwf').1
  case progress =>
    intro p q hp hq
    obtain ⟨hep, hwfp⟩ := continues_invariant hp he hwf'
    exact (hq.spec hep hwfp).2.2
  case fuel =>
    intro fuel hfuel
    exact parseLoop_fuel t he hwf' hfuel (by omega)
  case ends =>
    rcases he.parseRequest hwf' t with hres | ⟨ok, ctx', buf', hres, -⟩
    · exact .inl hres
    · exact .inr ⟨_, hres⟩

/-- The second half of a request that came in two reads. -/
theorem parseRequest_returns_split_get :
    ∃ st ctx buf actions input,
      onReads leaveResponse () .new .new [(plainGet.take 5, 0)] = .ok (st, ctx, buf, actions) ∧
      buf.readFd (.data (plainGet.drop 5)) = .ok input ∧ ctx.ExpectsLine ∧
      (ctx.parseRequest input 1 = .error .setMethod ∨
        ∃ result, ctx.parseRequest input 1 = .ok result) := by
  obtain ⟨⟨st, ctx, buf, actions⟩, hreads⟩ : ∃ p,
      onReads leaveResponse () .new .new [(plainGet.take 5, 0)] = .ok p := by
    have hfault : faultOf (onReads leaveResponse () .new .new [(plainGet.take 5, 0)]) = none := by
      decide +kernel
    cases hreads : onReads leaveResponse () .new .new [(plainGet.take 5, 0)] with
    | error e =>
        rw [hreads] at hfault
        cases hfault
    | ok p => exact ⟨p, rfl⟩
  obtain ⟨input, hinput, he, -, -, -, hends⟩ :=
    parseRequest_returns leaveResponse () [(plainGet.take 5, 0)] (plainGet.drop 5) 1 hreads
  exact ⟨st, ctx, buf, actions, input, hreads, hinput, he, hends⟩

end HttpServer

end MiniMuduo
