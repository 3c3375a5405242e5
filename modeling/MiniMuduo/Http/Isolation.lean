import MiniMuduo.Http.Segmentation

/-!
# What `reset` leaves behind

`HttpContext::reset` swaps the request with a fresh one, and `HttpRequest::swap` exchanges all fields
but the query. So a reset context is a fresh one with the query of the requests before, and the next
request shows it unless its own line has a query: `reset_isolated_iff`.
-/

namespace MiniMuduo

open Fallible Search

namespace HttpContext

variable {ctx : HttpContext} {line : Bytes}

/-- The context with another query in its request. -/
def withQuery (ctx : HttpContext) (q : Bytes) : HttpContext :=
  { ctx with request := ctx.request.setQuery q }

theorem reset_eq (ctx : HttpContext) : ctx.reset = new.withQuery ctx.request.query := rfl

theorem withQuery_eq_self {q : Bytes} : ctx.withQuery q = ctx ↔ q = ctx.request.query :=
  ⟨fun h => congrArg (·.request.query) h, fun h => by rw [h]; rfl⟩

/-- The results of `parseRequest`, with another query in the request. -/
def resultWithQuery (q : Bytes) (res : Except HttpFault (Bool × HttpContext × Buffer)) :
    Except HttpFault (Bool × HttpContext × Buffer) :=
  res.map fun p => (p.1, p.2.1.withQuery q, p.2.2)

/-! ## Request lines and the query -/

/-- A line with a method, a second space and a question mark before it: `setQuery` is called. -/
def SetsQuery (line : Bytes) : Prop :=
  match splitFirst SP line with
  | none => False
  | some (method, afterMethod) => HttpRequest.methodOf method ≠ .Invalid ∧
      match splitFirst SP afterMethod with
      | none => False
      | some (target, _) => question ∈ target

instance (line : Bytes) : Decidable (SetsQuery line) :=
  match h : splitFirst SP line with
  | none => .isFalse (by simp [SetsQuery, h])
  | some (method, afterMethod) =>
      match h' : splitFirst SP afterMethod with
      | none => .isFalse (by simp [SetsQuery, h, h'])
      | some (target, _) =>
          decidable_of_iff (HttpRequest.methodOf method ≠ .Invalid ∧ question ∈ target)
            (by simp [SetsQuery, h, h'])

/-- What a request line does to the query: it sets one that is not empty, or it passes the old one
on. -/
theorem processRequestLine_withQuery (ctx : HttpContext) (q line : Bytes) :
    (SetsQuery line → (ctx.withQuery q).processRequestLine line = ctx.processRequestLine line) ∧
    (¬ SetsQuery line → (ctx.withQuery q).processRequestLine line =
      (ctx.processRequestLine line).map fun p => (p.1, p.2.withQuery q)) := by
  unfold SetsQuery processRequestLine
  cases splitFirst SP line with
  | none => exact ⟨fun h => absurd h id, fun _ => rfl⟩
  | some p =>
      obtain ⟨method, afterMethod⟩ := p
      simp only [HttpRequest.setMethod]
      have hm' : (ctx.withQuery q).request.method = ctx.request.method := rfl
      rw [hm']
      by_cases hm : ctx.request.method = .Invalid
      · simp only [hm, check_of_pos, ok_bind, pure_eq_ok]
        by_cases hmethod : HttpRequest.methodOf method = .Invalid
        · simp only [hmethod]
          exact ⟨fun h => absurd rfl h.1, fun _ => rfl⟩
        · simp only [hmethod, ne_eq, not_false_eq_true, decide_true, if_true, true_and]
          cases splitFirst SP afterMethod with
          | none => exact ⟨fun h => absurd h id, fun _ => rfl⟩
          | some p' =>
              obtain ⟨target, versionText⟩ := p'
              simp only [setTarget]
              cases hs : splitFirst question target with
              | none =>
                  rw [splitFirst_eq_none] at hs
                  refine ⟨fun h => absurd h hs, fun _ => ?_⟩
                  cases versionOf versionText <;> rfl
              | some _ =>
                  refine ⟨fun _ => ?_, fun h => absurd ?_ h⟩
                  · cases versionOf versionText <;> rfl
                  · by_contra hmem
                    rw [splitFirst_eq_none.mpr hmem] at hs
                    cases hs
      · simp only [check_of_neg hm, error_bind]
        exact ⟨fun _ => trivial, fun _ => rfl⟩

/-- A query is never taken back. -/
theorem query_of_processRequestLine {ok : Bool} {ctx' : HttpContext}
    (h : ctx.processRequestLine line = .ok (ok, ctx')) (hq : ctx.request.query ≠ []) :
    ctx'.request.query ≠ [] := by
  unfold processRequestLine at h
  cases hs : splitFirst SP line with
  | none =>
      simp only [hs, pure_eq_ok, Except.ok.injEq, Prod.mk.injEq] at h
      rw [← h.2]
      exact hq
  | some p =>
      simp only [hs] at h
      obtain ⟨⟨succeed, request⟩, hset, h⟩ := bind_eq_ok.mp h
      obtain ⟨-, -, hset⟩ := bind_eq_ok.mp hset
      cases hset
      have htarget : ∀ target, (setTarget { ctx.request with method := HttpRequest.methodOf p.1 }
          target).query ≠ [] := by
        intro target
        unfold setTarget
        split
        · exact List.cons_ne_nil _ _
        · exact hq
      split at h
      · split at h
        · cases h
          exact hq
        · split at h <;> cases h
          · exact htarget _
          · exact htarget _
      · cases h
        exact hq

theorem query_of_parseLoop {t : TimePoint} {ok : Bool} {ctx' : HttpContext} {buf' : Buffer} :
    ∀ (fuel : ℕ) (ctx : HttpContext) (buf : Buffer),
      parseLoop t fuel ctx buf = .ok (ok, ctx', buf') → ctx.request.query ≠ [] →
      ctx'.request.query ≠ []
  | 0, _, _, h, _ => by cases h
  | fuel + 1, ctx, buf, h, hq => by
    unfold parseLoop at h
    split at h
    · -- a request line
      split at h
      · cases h
        exact hq
      · obtain ⟨⟨ok₁, ctx₁⟩, hline, h⟩ := bind_eq_ok.mp h
        have hq₁ := query_of_processRequestLine hline hq
        dsimp only at h
        split at h
        · obtain ⟨buf₁, -, h⟩ := bind_eq_ok.mp h
          exact query_of_parseLoop fuel _ buf₁ h hq₁
        · cases h
          exact hq₁
    · -- a header, or the end of the request
      split at h
      · cases h
        exact hq
      · split at h
        · obtain ⟨buf₁, -, h⟩ := bind_eq_ok.mp h
          exact query_of_parseLoop fuel _ buf₁ h hq
        · obtain ⟨buf₁, -, h⟩ := bind_eq_ok.mp h
          cases h
          exact hq
    · exact query_of_parseLoop fuel ctx buf h hq
    · exact query_of_parseLoop fuel ctx buf h hq

/-! ## Two contexts that differ in the query -/

/-- The line that a call would take for a request line. -/
def requestLine? (ctx : HttpContext) (buf : Buffer) : Option Bytes :=
  if ctx.state = .ExpectRequestLine then buf.findCRLF.map (buf.slice buf.peek) else none

/-- Without a query in the request line the old one goes through. -/
theorem parseLoop_withQuery (t : TimePoint) (q : Bytes) :
    ∀ (fuel : ℕ) (ctx : HttpContext) (buf : Buffer),
      (∀ line ∈ ctx.requestLine? buf, ¬ SetsQuery line) →
      parseLoop t fuel (ctx.withQuery q) buf = resultWithQuery q (parseLoop t fuel ctx buf)
  | 0, _, _, _ => rfl
  | fuel + 1, ctx, buf, h => by
    -- behind the request line no line is taken for one
    have hnext : ∀ (ctx₁ : HttpContext) (buf₁ : Buffer), ctx₁.state = .ExpectHeaders →
        parseLoop t fuel (ctx₁.withQuery q) buf₁ = resultWithQuery q (parseLoop t fuel ctx₁ buf₁) := by
      intro ctx₁ buf₁ hst
      apply parseLoop_withQuery t q fuel ctx₁ buf₁
      intro line hline
      simp [requestLine?, hst] at hline
    have hst : (ctx.withQuery q).state = ctx.state := rfl
    unfold parseLoop
    rw [hst]
    cases hstate : ctx.state with
    | ExpectRequestLine =>
        dsimp only
        cases hcrlf : buf.findCRLF with
        | none => rfl
        | some crlf =>
            have hline : ¬ SetsQuery (buf.slice buf.peek crlf) :=
              h _ (by simp [requestLine?, hstate, hcrlf])
            dsimp only
            rw [(processRequestLine_withQuery ctx q _).2 hline]
            cases ctx.processRequestLine (buf.slice buf.peek crlf) with
            | error e => rfl
            | ok p =>
                obtain ⟨ok, ctx₁⟩ := p
                cases ok with
                | false => rfl
                | true =>
                    show (_ >>= _) = _
                    cases hbuf : buf.retrieveUntil (crlf + 2) with
                    | error e => rfl
                    | ok buf₁ => exact hnext ⟨.ExpectHeaders, ctx₁.request.setReceiveTime t⟩ buf₁ rfl
    | ExpectHeaders =>
        dsimp only
        cases hcrlf : buf.findCRLF with
        | none => rfl
        | some crlf =>
            dsimp only
            cases hs : splitFirst colonByte (buf.slice buf.peek crlf) with
            | none =>
                dsimp only
                cases hbuf : buf.retrieveUntil (crlf + 2) <;> rfl
            | some p =>
                dsimp only
                cases hbuf : buf.retrieveUntil (crlf + 2) with
                | error e => rfl
                | ok buf₁ => exact hnext ⟨.ExpectHeaders, ctx.request.addHeader p.1 p.2⟩ buf₁ rfl
    -- `parseRequest` does nothing in these states and goes round until the fuel is gone
    | ExpectBody => exact parseLoop_withQuery t q fuel ctx buf (by simp [requestLine?, hstate])
    | GotAll => exact parseLoop_withQuery t q fuel ctx buf (by simp [requestLine?, hstate])

/-- A query in the request line replaces the old one. -/
theorem parseLoop_withQuery_of_sets (t : TimePoint) (q : Bytes) (fuel : ℕ) {buf : Buffer}
    (h : ∃ line ∈ ctx.requestLine? buf, SetsQuery line) :
    parseLoop t fuel (ctx.withQuery q) buf = parseLoop t fuel ctx buf := by
  obtain ⟨line, hline, hsets⟩ := h
  unfold requestLine? at hline
  split at hline
  · next hstate =>
      obtain ⟨crlf, hcrlf, rfl⟩ := Option.map_eq_some_iff.mp hline
      cases fuel with
      | zero => rfl
      | succ fuel =>
          have hst : (ctx.withQuery q).state = .ExpectRequestLine := hstate
          unfold parseLoop
          simp only [hst, hstate, hcrlf, (processRequestLine_withQuery ctx q _).1 hsets]
  · cases hline

/-! ## Requests before and after a reset -/

/-- The contexts of a connection, with the requests that were handed out and reset so far: any calls
of `parseRequest` that returned, and a reset after each complete request. -/
inductive Delivered : List HttpRequest → HttpContext → Prop where
  | new : Delivered [] .new
  | parse {reqs : List HttpRequest} {ctx ctx' : HttpContext} {buf buf' : Buffer} {t : TimePoint}
      {ok : Bool} : Delivered reqs ctx → ctx.parseRequest buf t = .ok (ok, ctx', buf') →
      Delivered reqs ctx'
  | reset {reqs : List HttpRequest} {ctx : HttpContext} : Delivered reqs ctx → ctx.gotAll = true →
      Delivered (reqs ++ [ctx.request]) ctx.reset

/-- The query of an earlier request is still there. -/
theorem Delivered.query_ne_nil {reqs : List HttpRequest} (h : Delivered reqs ctx) {req : HttpRequest}
    (hreq : req ∈ reqs) (hq : req.query ≠ []) : ctx.request.query ≠ [] := by
  induction h with
  | new => cases hreq
  | parse _ hparse ih => exact query_of_parseLoop _ _ _ hparse (ih hreq)
  | reset _ _ ih =>
      rcases List.mem_append.mp hreq with hold | hlast
      · exact ih hold
      · rw [List.mem_singleton.mp hlast] at hq
        exact hq

theorem requestLine?_new (buf : WfBuffer) :
    new.requestLine? buf.val = (cutLine buf.readable).map Prod.fst := by
  have hstate : new.state = .ExpectRequestLine := rfl
  unfold requestLine?
  rw [if_pos hstate]
  cases hcut : cutLine buf.readable with
  | none =>
      rw [findCRLF_eq_none hcut]
      rfl
  | some p =>
      obtain ⟨crlf, -, hcrlf, hslice, -⟩ := findCRLF_eq_some buf.wf hcut
      rw [hcrlf, Option.map_some, hslice]
      rfl

/-- Parsing with a fresh context returns. -/
theorem exists_parseRequest_new (buf : WfBuffer) (t : TimePoint) :
    ∃ res, new.parseRequest buf.val t = .ok res := by
  have hagree := new.parseRequest_agrees buf.wf t
  have hready : new.untimed.Ready := ready_new
  have hends := hready.drive buf.val.readable
  cases hd : parser.drive new.untimed buf.val.readable with
  | pending s r =>
      rw [hd] at hagree
      obtain ⟨ctx', buf', hres, -⟩ := hagree
      exact ⟨_, hres⟩
  | done x s r =>
      rw [hd] at hagree hends
      cases x with
      | error e => exact absurd hends id
      | ok ok =>
          obtain ⟨ctx', buf', hres, -⟩ := hagree
          exact ⟨_, hres⟩

/-- A leftover query shows exactly when there is one and the request line has none. -/
theorem parseRequest_withQuery_iff (q : Bytes) (buf : WfBuffer) (t : TimePoint) :
    (new.withQuery q).parseRequest buf.val t = new.parseRequest buf.val t ↔
      q = [] ∨ ∃ line rest, cutLine buf.readable = some (line, rest) ∧ SetsQuery line := by
  by_cases hsets : ∃ line rest, cutLine buf.readable = some (line, rest) ∧ SetsQuery line
  · refine ⟨fun _ => .inr hsets, fun _ => ?_⟩
    obtain ⟨line, rest, hcut, hline⟩ := hsets
    apply parseLoop_withQuery_of_sets
    refine ⟨line, ?_, hline⟩
    rw [requestLine?_new, hcut]
    rfl
  · have hkeep : ∀ q', (new.withQuery q').parseRequest buf.val t =
        resultWithQuery q' (new.parseRequest buf.val t) := by
      intro q'
      apply parseLoop_withQuery
      intro line hline hq
      rw [requestLine?_new] at hline
      obtain ⟨⟨_, rest⟩, hcut, rfl⟩ := Option.map_eq_some_iff.mp hline
      exact hsets ⟨_, rest, hcut, hq⟩
    obtain ⟨⟨ok, ctx', buf'⟩, hres⟩ := exists_parseRequest_new buf t
    -- a fresh context parses these bytes without setting a query
    have hempty : ctx'.request.query = [] := by
      have hself := hkeep []
      rw [show new.withQuery [] = new from rfl, hres] at hself
      have hctx : ctx' = ctx'.withQuery [] := by
        simpa [resultWithQuery, Except.map] using hself
      exact congrArg (·.request.query) hctx
    rw [hkeep, hres, or_iff_left hsets, ← hempty, ← withQuery_eq_self]
    simp [resultWithQuery, Except.map]

/-- **What a request can show of the requests before it**: parsing with a reset context gives what a
fresh one gives exactly when no earlier request had a query, or the bytes begin with a request line
that sets one. -/
theorem reset_isolated_iff {reqs : List HttpRequest} (h : Delivered reqs ctx)
    (hgot : ctx.gotAll = true) (buf : WfBuffer) (t : TimePoint) :
    ctx.reset.parseRequest buf.val t = new.parseRequest buf.val t ↔
      (∀ req ∈ reqs ++ [ctx.request], req.query = []) ∨
        ∃ line rest, cutLine buf.readable = some (line, rest) ∧ SetsQuery line := by
  have hquery : ctx.request.query = [] ↔ ∀ req ∈ reqs ++ [ctx.request], req.query = [] := by
    refine ⟨fun hq req hreq => ?_, fun hall => hall _ (by simp)⟩
    by_contra hne
    exact (h.reset hgot).query_ne_nil hreq hne hq
  rw [reset_eq, parseRequest_withQuery_iff, hquery]

/-- `"GET /a?x HTTP/1.1\r\n\r\n"`. -/
def queryGet : Bytes :=
  ascii ['G', 'E', 'T', ' ', '/', 'a', '?', 'x', ' ', 'H', 'T', 'T', 'P', '/', '1', '.', '1'] ++
    (kCRLF ++ kCRLF)

/-- A call that parses a whole request with a fresh context. -/
theorem delivered_of_bytes (bytes : Bytes) (p : HttpContext → Bool)
    (h : ((new.parseRequest (WfBuffer.new.append bytes).val 0).toOption.any fun res =>
      res.2.1.gotAll && p res.2.1) = true) :
    ∃ ctx, Delivered [] ctx ∧ ctx.gotAll = true ∧ p ctx = true := by
  cases hres : new.parseRequest (WfBuffer.new.append bytes).val 0 with
  | error e =>
      rw [hres] at h
      cases h
  | ok res =>
      rw [hres] at h
      obtain ⟨hgot, hp⟩ := (Bool.and_eq_true _ _).mp h
      exact ⟨res.2.1, .parse .new hres, hgot, hp⟩

theorem reset_isolated_iff_queryGet :
    ∃ ctx, Delivered [] ctx ∧ ctx.gotAll = true ∧ ctx.request.query ≠ [] ∧
      ctx.reset.parseRequest (WfBuffer.new.append queryGet).val 1 =
        new.parseRequest (WfBuffer.new.append queryGet).val 1 := by
  obtain ⟨ctx, h, hgot, hq⟩ := delivered_of_bytes queryGet (·.request.query ≠ []) (by decide +kernel)
  refine ⟨ctx, h, hgot, of_decide_eq_true hq, ?_⟩
  refine (reset_isolated_iff h hgot _ 1).mpr (.inr ⟨queryGet.take 17, queryGet.drop 19, ?_, ?_⟩)
  · rw [WfBuffer.readable_append, WfBuffer.readable_new]
    decide
  · decide

/-- A request without a query after one with a query: it is handed out with the query of the first. -/
theorem reset_leaks_query :
    ∃ ctx, Delivered [] ctx ∧ ctx.gotAll = true ∧
      ctx.reset.parseRequest (WfBuffer.new.append HttpServer.plainGet).val 1 ≠
        new.parseRequest (WfBuffer.new.append HttpServer.plainGet).val 1 := by
  obtain ⟨ctx, h, hgot, hleak⟩ := delivered_of_bytes queryGet
    (fun ctx => (ctx.reset.parseRequest (WfBuffer.new.append HttpServer.plainGet).val 1).toOption.map
        (·.2.1.request.query) ≠
      (new.parseRequest (WfBuffer.new.append HttpServer.plainGet).val 1).toOption.map
        (·.2.1.request.query)) (by decide +kernel)
  refine ⟨ctx, h, hgot, fun heq => ?_⟩
  rw [heq] at hleak
  exact of_decide_eq_true hleak rfl

end HttpContext

end MiniMuduo
