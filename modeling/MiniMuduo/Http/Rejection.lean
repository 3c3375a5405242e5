import MiniMuduo.Http.Segmentation

/-!
# Rejected request lines

A request line that is refused stays in the buffer, and the connection goes on reading. When the line
was refused after its method had been set, the request keeps that method, and the next read comes to
the same line again: the assert in `setMethod` fails.

`assert_holds_iff` says that this is the only way: the assert holds at every call exactly when no read
follows one that refuses a line after its method.
-/

namespace MiniMuduo

open Fallible Search HttpContext

namespace HttpContext

variable {ctx : HttpContext} {b line : Bytes}

/-- A line whose first word is a method, but which has no second space, or no known version behind
it. -/
def BadAfterMethod (line : Bytes) : Prop :=
  match splitFirst SP line with
  | none => False
  | some (method, afterMethod) => HttpRequest.methodOf method ≠ .Invalid ∧
      match splitFirst SP afterMethod with
      | none => True
      | some (_, versionText) => versionOf versionText = none

/-- The call that finds these bytes unread comes to such a line where it expects a request line. -/
def ComesToBadLine (ctx : HttpContext) (unread : Bytes) : Prop :=
  ctx.state = .ExpectRequestLine ∧ ∃ line rest, cutLine unread = some (line, rest) ∧ BadAfterMethod line

/-- A request line is expected, and the next one finds a method in the request. -/
def Stuck (ctx : HttpContext) (unread : Bytes) : Prop :=
  ctx.state = .ExpectRequestLine ∧ ctx.request.method ≠ .Invalid ∧
    ∃ line rest, cutLine unread = some (line, rest) ∧ (splitFirst SP line).isSome

/-- A line that is bad after its method is refused, and the method stays. -/
theorem processRequestLine_of_bad (hm : ctx.request.method = .Invalid) (hbad : BadAfterMethod line) :
    ∃ ctx', ctx.processRequestLine line = .ok (false, ctx') ∧ ctx'.state = ctx.state ∧
      ctx'.request.method ≠ .Invalid := by
  unfold BadAfterMethod at hbad
  unfold processRequestLine
  cases hs : splitFirst SP line with
  | none => simp [hs] at hbad
  | some p =>
      obtain ⟨method, afterMethod⟩ := p
      simp only [hs] at hbad
      obtain ⟨hmethod, hrest⟩ := hbad
      simp only [HttpRequest.setMethod, hm, check_of_pos, ok_bind, pure_eq_ok, hmethod, ne_eq,
        not_false_eq_true, decide_true, if_true]
      cases hs' : splitFirst SP afterMethod with
      | none => exact ⟨_, rfl, rfl, hmethod⟩
      | some q =>
          simp only [hs'] at hrest
          simp only [hrest]
          refine ⟨_, rfl, rfl, ?_⟩
          unfold setTarget
          split <;> exact hmethod

/-- A line that is refused for anything else sets no method. -/
theorem processRequestLine_of_not_bad (hm : ctx.request.method = .Invalid)
    (hbad : ¬ BadAfterMethod line) {ctx' : HttpContext}
    (h : ctx.processRequestLine line = .ok (false, ctx')) : ctx'.request.method = .Invalid := by
  unfold BadAfterMethod at hbad
  unfold processRequestLine at h
  cases hs : splitFirst SP line with
  | none =>
      simp only [hs, pure_eq_ok, Except.ok.injEq, Prod.mk.injEq, true_and] at h
      rw [← h]
      exact hm
  | some p =>
      obtain ⟨method, afterMethod⟩ := p
      simp only [hs, HttpRequest.setMethod, hm, check_of_pos, ok_bind, pure_eq_ok] at hbad h
      by_cases hmethod : HttpRequest.methodOf method = .Invalid
      · simp only [hmethod] at h
        cases h
        rfl
      · simp only [hmethod, ne_eq, not_false_eq_true, decide_true, if_true, true_and] at hbad h
        cases hs' : splitFirst SP afterMethod with
        | none => simp [hs'] at hbad
        | some q =>
            simp only [hs'] at hbad h
            cases hv : versionOf q.2 with
            | none => exact absurd hv hbad
            | some v => simp [hv] at h

/-- A method that is there already trips the assert. -/
theorem processRequestLine_of_method (hm : ctx.request.method ≠ .Invalid)
    (hs : (splitFirst SP line).isSome) : ctx.processRequestLine line = .error .setMethod := by
  obtain ⟨⟨method, afterMethod⟩, hs⟩ := Option.isSome_iff_exists.mp hs
  unfold processRequestLine HttpRequest.setMethod
  simp [hs, hm]

/-- The assert, or an answer in the same state. -/
theorem processRequestLine_cases (ctx : HttpContext) (line : Bytes) :
    ctx.processRequestLine line = .error .setMethod ∨
      ∃ ok ctx', ctx.processRequestLine line = .ok (ok, ctx') ∧ ctx'.state = ctx.state := by
  by_cases hm : ctx.request.method = .Invalid
  · exact .inr (processRequestLine_of_invalid hm line)
  · cases hs : splitFirst SP line with
    | none =>
        refine .inr ⟨false, ctx, ?_, rfl⟩
        rw [processRequestLine, hs]
        rfl
    | some p =>
        refine .inl (processRequestLine_of_method hm ?_)
        rw [hs]
        rfl

/-- Where headers are expected, a line is a header or the end of the request. -/
theorem onLine_of_headers (hst : ctx.state = .ExpectHeaders) (line : Bytes) :
    (∃ ctx', ctx.onLine line = .next ctx' ∧ ctx'.state = .ExpectHeaders) ∨
      ∃ ctx', ctx.onLine line = .stop (.ok true) ctx' := by
  unfold onLine
  simp only [hst]
  cases splitFirst colonByte line with
  | none => exact .inr ⟨_, rfl⟩
  | some p => exact .inl ⟨_, rfl, rfl⟩

/-- Where headers are expected, no line is refused. -/
theorem drive_ne_refused (hst : ctx.state = .ExpectHeaders) (s : HttpContext) (r : Bytes) :
    parser.drive ctx b ≠ .done (.ok false) s r := by
  intro hd
  have hkeep := drive_invariant (P := fun ctx => ctx.state = .ExpectHeaders)
    (Q := fun x _ => x = .ok true) (fun ctx hst => .inr hst) (fun ctx line hst => ?_) hst b
  · rw [hd] at hkeep
    cases hkeep
  · rcases onLine_of_headers hst line with ⟨ctx', hl, hst'⟩ | ⟨ctx', hl⟩
    · rw [hl]
      exact hst'
    · rw [hl]

/-- A call that refuses a line refuses the first one, where it expects a request line. -/
theorem ExpectsLine.refused (he : ctx.ExpectsLine) {s : HttpContext} {r : Bytes}
    (hd : parser.drive ctx b = .done (.ok false) s r) :
    r = b ∧ ctx.state = .ExpectRequestLine ∧
      ∃ line rest, cutLine b = some (line, rest) ∧ ctx.processRequestLine line = .ok (false, s) := by
  rcases he with hst | hst
  · cases hcut : cutLine b with
    | none =>
        rw [parser.drive_of_wait (parseTurn_of_none (.inl hst) hcut)] at hd
        cases hd
    | some p =>
        obtain ⟨line, rest⟩ := p
        have hturn : parser.turn ctx b = _ := parseTurn_of_cutLine (.inl hst) hcut
        rcases ctx.processRequestLine_cases line with hp | ⟨ok, ctx', hp, -⟩
        · simp only [HttpContext.onLine, hst, hp, if_true] at hturn
          rw [parser.drive_of_halt hturn] at hd
          cases hd
        · simp only [HttpContext.onLine, hst, hp, if_true] at hturn
          cases ok with
          | true =>
              rw [parser.drive_of_next hturn] at hd
              exact absurd hd (drive_ne_refused rfl s r)
          | false =>
              rw [parser.drive_of_halt hturn] at hd
              cases hd
              exact ⟨rfl, hst, line, rest, rfl, hp⟩
  · exact absurd hd (drive_ne_refused hst s r)

theorem Ready.refused (h : ctx.Ready) {s : HttpContext} {r : Bytes}
    (hd : parser.drive ctx b = .done (.ok false) s r) :
    r = b ∧ ctx.state = .ExpectRequestLine ∧ ctx.request.method = .Invalid ∧
      ∃ line rest, cutLine b = some (line, rest) ∧ ctx.processRequestLine line = .ok (false, s) := by
  obtain ⟨hr, hst, hline⟩ := h.expectsLine.refused hd
  refine ⟨hr, hst, ?_, hline⟩
  rcases h with hst' | ⟨-, hm⟩
  · rw [hst] at hst'
    cases hst'
  · exact hm

/-- A bad line is refused. -/
theorem Ready.drive_of_bad (h : ctx.Ready) (hbad : ctx.ComesToBadLine b) :
    ∃ s, parser.drive ctx b = .done (.ok false) s b ∧ s.Stuck b := by
  obtain ⟨hst, line, rest, hcut, hline⟩ := hbad
  have hm : ctx.request.method = .Invalid := by
    rcases h with hst' | ⟨-, hm⟩
    · rw [hst] at hst'
      cases hst'
    · exact hm
  obtain ⟨ctx', hp, hst', hm'⟩ := processRequestLine_of_bad hm hline
  have hturn : parser.turn ctx b = _ := parseTurn_of_cutLine (.inl hst) hcut
  simp only [HttpContext.onLine, hst, hp, if_true] at hturn
  refine ⟨ctx', parser.drive_of_halt hturn, hst'.trans hst, hm', line, rest, hcut, ?_⟩
  unfold BadAfterMethod at hline
  cases hs : splitFirst SP line with
  | none => simp [hs] at hline
  | some _ => rfl

/-- A stuck context trips the assert, whatever else arrives. -/
theorem Stuck.drive (h : ctx.Stuck b) (c : Bytes) :
    ∃ s r, parser.drive ctx (b ++ c) = .done (.error .setMethod) s r := by
  obtain ⟨hst, hm, line, rest, hcut, hs⟩ := h
  have hturn : parser.turn ctx (b ++ c) = _ :=
    parseTurn_of_cutLine (.inl hst) (cutLine_append c hcut)
  simp only [HttpContext.onLine, hst, processRequestLine_of_method hm hs, if_true] at hturn
  exact ⟨_, _, parser.drive_of_halt hturn⟩

end HttpContext

namespace HttpServer

variable {σ : Type} (cb : HttpCallback σ)

/-- A read that refuses a line answers 400 and leaves the line where it is. -/
theorem onMessage_of_refused (st : σ) {ctx s : HttpContext} {buf : Buffer} {r : Bytes}
    (hready : ctx.untimed.Ready) (hwf : buf.Wf) (t : TimePoint)
    (hd : parser.drive ctx.untimed buf.readable = .done (.ok false) s r) :
    ∃ ctx' buf', onMessage cb st ctx buf t = .ok (st, ctx', buf', [.send badRequest, .shutdown]) ∧
      ctx'.untimed = s ∧ buf'.Wf ∧ buf'.readable = r := by
  have hagree := ctx.parseRequest_agrees hwf t
  have hends := hready.drive buf.readable
  rw [hd] at hagree hends
  obtain ⟨ctx', buf', hres, rfl, hwf', rfl⟩ := hagree
  have hst : ctx'.state = .ExpectRequestLine := hends
  have hgot : ctx'.gotAll = false := by simp [gotAll, hst]
  exact ⟨ctx', buf', by simp [onMessage, hres, hgot], rfl, hwf', rfl⟩

/-- A read that comes to no bad line leaves the context ready for the next one. -/
theorem onMessage_ready (st : σ) {ctx : HttpContext} {buf : Buffer} (hready : ctx.untimed.Ready)
    (hwf : buf.Wf) (t : TimePoint) (hbad : ¬ ctx.ComesToBadLine buf.readable) :
    ∃ st' ctx' buf' actions, onMessage cb st ctx buf t = .ok (st', ctx', buf', actions) ∧
      ctx'.untimed.Ready ∧ buf'.Wf := by
  cases hd : parser.drive ctx.untimed buf.readable with
  | pending s r =>
      obtain ⟨ctx', buf', hmsg, rfl, hready', hwf', -⟩ := onMessage_of_pending cb st hready hwf t hd
      exact ⟨st, ctx', buf', [], hmsg, hready', hwf'⟩
  | done x s r =>
      have hends := hready.drive buf.readable
      rw [hd] at hends
      cases x with
      | error e => exact absurd hends id
      | ok ok =>
          cases ok with
          | true =>
              obtain ⟨st', ctx', buf', actions, hmsg, -, hreset, hwf', -⟩ :=
                onMessage_of_done cb st hready hwf t hd
              exact ⟨st', ctx', buf', actions, hmsg, hreset ▸ ready_reset s, hwf'⟩
          | false =>
              obtain ⟨-, hst, hm, line, rest, hcut, hp⟩ := hready.refused hd
              obtain ⟨ctx', buf', hmsg, rfl, hwf', -⟩ := onMessage_of_refused cb st hready hwf t hd
              refine ⟨st, ctx', buf', _, hmsg, .inr ⟨hends, ?_⟩, hwf'⟩
              exact processRequestLine_of_not_bad hm
                (fun hline => hbad ⟨hst, line, rest, hcut, hline⟩) hp

/-! ## Whole connections -/

/-- The reads after the first one go on from where it ended. -/
theorem onReads_cons_of_ok {st : σ} {ctx : HttpContext} {buf : Buffer} {read : Bytes × TimePoint}
    {reads : List (Bytes × TimePoint)} {buf₁ : Buffer} {st₂ : σ} {ctx₂ : HttpContext} {buf₂ : Buffer}
    {actions : List HttpAction} (hread : buf.readFd (.data read.1) = .ok buf₁)
    (hmsg : onMessage cb st ctx buf₁ read.2 = .ok (st₂, ctx₂, buf₂, actions)) :
    onReads cb st ctx buf (read :: reads) =
      (onReads cb st₂ ctx₂ buf₂ reads).map fun p => (p.1, p.2.1, p.2.2.1, actions ++ p.2.2.2) := by
  simp only [onReads, hread, Except.mapError, ok_bind, hmsg]
  cases onReads cb st₂ ctx₂ buf₂ reads with
  | error e => rfl
  | ok p => rfl

/-- A read on a stuck connection. -/
theorem onReads_of_stuck (st : σ) {ctx : HttpContext} {buf : Buffer} (hwf : buf.Wf)
    (hstuck : ctx.untimed.Stuck buf.readable) (read : Bytes × TimePoint)
    (reads : List (Bytes × TimePoint)) :
    onReads cb st ctx buf (read :: reads) = .error .setMethod := by
  obtain ⟨buf₁, hbuf₁, hwf₁, hread₁⟩ := hwf.readFd read.1
  obtain ⟨s, r, hd⟩ := hstuck.drive read.1
  have hagree := ctx.parseRequest_agrees hwf₁ read.2
  rw [hread₁, hd] at hagree
  have hparse : ctx.parseRequest buf₁ read.2 = .error .setMethod := hagree
  simp only [onReads, hbuf₁, Except.mapError, ok_bind, onMessage, hparse, error_bind]

/-- No read is followed by another one if it comes to a bad line. -/
def NoneFollowsBadLine (st : σ) (ctx : HttpContext) (buf : Buffer)
    (reads : List (Bytes × TimePoint)) : Prop :=
  ∀ before read after, reads = before ++ read :: after → after ≠ [] →
    ∀ st' ctx' buf' actions, onReads cb st ctx buf before = .ok (st', ctx', buf', actions) →
      ¬ ctx'.ComesToBadLine (buf'.readable ++ read.1)

theorem assert_holds_iff_from :
    ∀ (reads : List (Bytes × TimePoint)) (st : σ) (ctx : HttpContext) (buf : Buffer),
      ctx.untimed.Ready → buf.Wf →
      (onReads cb st ctx buf reads ≠ .error .setMethod ↔ NoneFollowsBadLine cb st ctx buf reads)
  | [], st, ctx, buf, _, _ => by
    refine ⟨fun _ before read after heq => ?_, fun _ h => by cases h⟩
    exact absurd heq.symm (List.append_ne_nil_of_right_ne_nil _ (List.cons_ne_nil _ _))
  | read :: reads, st, ctx, buf, hready, hwf => by
    obtain ⟨buf₁, hbuf₁, hwf₁, hread₁⟩ := hwf.readFd read.1
    by_cases hbad : ctx.ComesToBadLine (buf.readable ++ read.1)
    · obtain ⟨s, hd, hstuck⟩ := Ready.drive_of_bad hready hbad
      rw [← hread₁] at hd hstuck
      obtain ⟨ctx', buf', hmsg, rfl, hwf', hr⟩ := onMessage_of_refused cb st hready hwf₁ read.2 hd
      rw [← hr] at hstuck
      cases reads with
      | nil =>
          -- the bad line came last
          refine ⟨fun _ before r after heq hne => ?_, fun _ h => ?_⟩
          · cases before with
            | nil =>
                cases heq
                exact absurd rfl hne
            | cons b before =>
                have hnil := (List.cons.inj heq).2
                exact absurd hnil.symm
                  (List.append_ne_nil_of_right_ne_nil _ (List.cons_ne_nil _ _))
          · rw [onReads_cons_of_ok cb hbuf₁ hmsg] at h
            cases h
      | cons read₂ reads =>
          -- the next read comes to the same line, with the method already set
          refine ⟨fun h => absurd ?_ h, fun h => ?_⟩
          · rw [onReads_cons_of_ok cb hbuf₁ hmsg, onReads_of_stuck cb st hwf' hstuck]
            rfl
          · exact absurd hbad (h [] read _ rfl (List.cons_ne_nil _ _) st ctx buf [] rfl)
    · rw [← hread₁] at hbad
      obtain ⟨st', ctx', buf', actions, hmsg, hready', hwf'⟩ :=
        onMessage_ready cb st hready hwf₁ read.2 hbad
      have hsame : onReads cb st ctx buf (read :: reads) ≠ .error .setMethod ↔
          onReads cb st' ctx' buf' reads ≠ .error .setMethod := by
        rw [onReads_cons_of_ok cb hbuf₁ hmsg]
        cases onReads cb st' ctx' buf' reads <;> simp [Except.map]
      rw [hsame, assert_holds_iff_from reads st' ctx' buf' hready' hwf']
      refine ⟨fun h before r after heq hne st₂ ctx₂ buf₂ actions₂ hok => ?_,
        fun h before r after heq hne st₂ ctx₂ buf₂ actions₂ hok => ?_⟩
      · cases before with
        | nil =>
            cases heq
            cases hok
            rwa [← hread₁]
        | cons b before =>
            obtain ⟨rfl, hreads⟩ := List.cons.inj heq
            rw [onReads_cons_of_ok cb hbuf₁ hmsg] at hok
            cases hrest : onReads cb st' ctx' buf' before with
            | error e =>
                rw [hrest] at hok
                cases hok
            | ok p =>
                rw [hrest] at hok
                cases hok
                exact h before r after hreads hne _ _ _ _ hrest
      · refine h (read :: before) r after (by rw [heq]; rfl) hne st₂ ctx₂ buf₂
          (actions ++ actions₂) ?_
        rw [onReads_cons_of_ok cb hbuf₁ hmsg, hok]
        rfl

/-- **When a bad request line trips the assert**: the assert in `setMethod` holds at every call exactly
when no read is followed by another one although it came to a line that is bad after its method. -/
theorem assert_holds_iff (st : σ) (reads : List (Bytes × TimePoint)) :
    onReads cb st .new .new reads ≠ .error .setMethod ↔ NoneFollowsBadLine cb st .new .new reads :=
  assert_holds_iff_from cb reads st .new .new ready_new Buffer.wf_new

/-- `"GET / HTTP/2.0\r\n"`. -/
def wrongVersion : Bytes :=
  ascii ['G', 'E', 'T', ' ', '/', ' ', 'H', 'T', 'T', 'P', '/', '2', '.', '0'] ++ kCRLF

/-- One more byte after a request line with a wrong version. -/
theorem assert_fails_after_wrongVersion :
    onReads leaveResponse () .new .new [(wrongVersion, 0), ([LF], 1)] = .error .setMethod :=
  faultOf_eq_some.mp (by decide +kernel)

end HttpServer

end MiniMuduo
