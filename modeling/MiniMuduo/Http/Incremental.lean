import MiniMuduo.Http.HttpContext

/-!
# Incremental parsing

`parseRequest` is called after every read and keeps what it has of an unfinished request in the
context and the buffer. `parseChunks` is that use of it: append a chunk, call `parseRequest`, stop
at the first call that refuses a line or completes the request. The result does not depend on where
the chunks were cut (`parseChunks_eq_parseRequest`): both sides are runs of `parser`, for which this
is `Resumable.feed_eq_drive`.
-/

namespace MiniMuduo

open Fallible Search

namespace HttpContext

variable {ctx : HttpContext} {b line rest : Bytes}

/-! ## Calls that cannot fail -/

/-- The contexts between two calls for one request: the headers are being read, or the request line
is and no method has been set yet. -/
def Ready (ctx : HttpContext) : Prop :=
  ctx.state = .ExpectHeaders ∨
    ctx.state = .ExpectRequestLine ∧ ctx.request.method = .Invalid

theorem ready_new : new.Ready := .inr ⟨rfl, rfl⟩

theorem Ready.expectsLine (h : ctx.Ready) : ctx.ExpectsLine := by
  rcases h with h | ⟨h, -⟩
  · exact .inr h
  · exact .inl h

theorem processRequestLine_of_invalid (h : ctx.request.method = .Invalid) (line : Bytes) :
    ∃ ok ctx', ctx.processRequestLine line = .ok (ok, ctx') ∧ ctx'.state = ctx.state := by
  rw [processRequestLine]
  cases splitFirst SP line with
  | none => exact ⟨false, ctx, rfl, rfl⟩
  | some p =>
      obtain ⟨method, afterMethod⟩ := p
      simp only [HttpRequest.setMethod, h, check_of_pos, ok_bind, pure_eq_ok]
      by_cases hm : HttpRequest.methodOf method = .Invalid
      · exact ⟨false, { ctx with request := { ctx.request with method := .Invalid } },
          by simp [hm], rfl⟩
      · simp only [hm, ne_eq, not_false_eq_true, decide_true, if_true]
        cases splitFirst SP afterMethod with
        | none => exact ⟨_, _, rfl, rfl⟩
        | some q =>
            simp only
            cases versionOf q.2 with
            | none => exact ⟨_, _, rfl, rfl⟩
            | some v => exact ⟨_, _, rfl, rfl⟩

/-- How a call on a ready context can end. -/
def EndsWell : Resumable.Outcome HttpContext (Except HttpFault Bool) UInt8 → Prop
  | .pending ctx _ => ctx.Ready
  | .done (.ok ok) ctx _ => ctx.state = if ok then .GotAll else .ExpectRequestLine
  | .done (.error _) _ _ => False

/-- A line that lets a ready context go on leaves it ready. -/
theorem Ready.onLine (h : ctx.Ready) (line : Bytes) :
    match ctx.onLine line with
    | .next ctx' => ctx'.Ready
    | .stop x ctx' => x = .ok true ∧ ctx'.state = .GotAll
    | .refuse x ctx' => x = .ok false ∧ ctx'.state = .ExpectRequestLine := by
  rw [HttpContext.onLine]
  rcases h with hst | ⟨hst, hm⟩
  · simp only [hst]
    cases splitFirst colonByte line with
    | none => exact ⟨rfl, rfl⟩
    | some p => exact .inl rfl
  · obtain ⟨ok, ctx', hp, hst'⟩ := processRequestLine_of_invalid hm line
    simp only [hst, hp, if_true]
    cases ok with
    | true => exact .inl rfl
    | false => exact ⟨rfl, hst'.trans hst⟩

/-- What every line keeps, a call keeps: `P` of the context it goes on with, `Q` of its answer and
the context it leaves. -/
theorem drive_invariant {P : HttpContext → Prop} {Q : Except HttpFault Bool → HttpContext → Prop}
    (hP : ∀ ctx, P ctx → ctx.ExpectsLine)
    (hline : ∀ ctx line, P ctx → match HttpContext.onLine ctx line with
      | .next ctx' => P ctx'
      | .stop x ctx' => Q x ctx'
      | .refuse x ctx' => Q x ctx') (h : P ctx) (b : Bytes) :
    match parser.drive ctx b with
    | .pending ctx' _ => P ctx'
    | .done x ctx' _ => Q x ctx' := by
  revert h
  refine parser.drive_induction (P := fun ctx b => P ctx → match parser.drive ctx b with
    | .pending ctx' _ => P ctx'
    | .done x ctx' _ => Q x ctx') ?_ ?_ ?_ ctx b
  · intro ctx b ht h
    rw [parser.drive_of_wait ht]
    exact h
  · intro ctx b x ctx' r ht h
    rw [parser.drive_of_halt ht]
    change parseTurn ctx b = _ at ht
    cases hcut : cutLine b with
    | none => simp [parseTurn_of_none (hP ctx h) hcut] at ht
    | some p =>
        obtain ⟨line, rest⟩ := p
        rw [parseTurn_of_cutLine (hP ctx h) hcut] at ht
        have hkeep := hline ctx line h
        cases hl : HttpContext.onLine ctx line with
        | next ctx₁ => simp [hl] at ht
        | stop y ctx₁ =>
            simp only [hl, Turn.halt.injEq] at ht hkeep
            obtain ⟨rfl, rfl, rfl⟩ := ht
            exact hkeep
        | refuse y ctx₁ =>
            simp only [hl, Turn.halt.injEq] at ht hkeep
            obtain ⟨rfl, rfl, rfl⟩ := ht
            exact hkeep
  · intro ctx b ctx' r ht ih h
    rw [parser.drive_of_next ht]
    obtain ⟨-, line, -, hl⟩ := parseTurn_eq_next.mp ht
    have hkeep := hline ctx line h
    rw [hl] at hkeep
    exact ih hkeep

theorem Ready.drive (h : ctx.Ready) (b : Bytes) : EndsWell (parser.drive ctx b) := by
  have hkeep := drive_invariant (P := Ready)
    (Q := fun x ctx => x = .ok true ∧ ctx.state = .GotAll ∨
      x = .ok false ∧ ctx.state = .ExpectRequestLine)
    (fun ctx h => h.expectsLine) (fun ctx line h => ?_) h b
  · cases hd : parser.drive ctx b with
    | pending ctx' r =>
        rw [hd] at hkeep
        exact hkeep
    | done x ctx' r =>
        rw [hd] at hkeep
        rcases hkeep with ⟨rfl, hst⟩ | ⟨rfl, hst⟩ <;> exact hst
  · have hline := h.onLine line
    cases hl : HttpContext.onLine ctx line with
    | next ctx' =>
        rw [hl] at hline
        exact hline
    | stop x ctx' =>
        rw [hl] at hline
        exact .inl hline
    | refuse x ctx' =>
        rw [hl] at hline
        exact .inr hline

/-! ## Chunk by chunk -/

/-- Append the chunks one by one, calling `parseRequest` after each with the time of its read, and
stop at the first call that returns false or reaches `GotAll`. The last component is what of the
chunks was not appended any more. Without a chunk nothing is called and the answer is the initial
`ok` of `parseRequest`. -/
def parseChunks (ctx : HttpContext) (buf : Buffer) :
    List (Bytes × TimePoint) → Except HttpFault (Bool × HttpContext × Buffer × Bytes)
  | [] => return (true, ctx, buf, [])
  | (chunk, receiveTime) :: chunks => do
      let buf ← (buf.append chunk).mapError .buffer
      let (ok, ctx, buf) ← ctx.parseRequest buf receiveTime
      if ok && !ctx.gotAll then parseChunks ctx buf chunks
      else return (ok, ctx, buf, (chunks.map Prod.fst).flatten)

/-- How a result of `parseChunks` matches an outcome of the machine. -/
def ChunksAgree (res : Except HttpFault (Bool × HttpContext × Buffer × Bytes)) :
    Resumable.Outcome HttpContext (Except HttpFault Bool) UInt8 → Prop
  | .pending ctx r =>
      ∃ ctx' buf' later, res = .ok (true, ctx', buf', later) ∧ ctx'.untimed = ctx ∧
        buf'.readable ++ later = r
  | .done (.ok ok) ctx r =>
      ∃ ctx' buf' later, res = .ok (ok, ctx', buf', later) ∧ ctx'.untimed = ctx ∧
        buf'.readable ++ later = r
  | .done (.error e) _ _ => res = .error e

theorem parseChunks_agree :
    ∀ (chunks : List (Bytes × TimePoint)) (ctx : HttpContext) (buf : Buffer),
      ctx.untimed.Ready → buf.Wf →
      ChunksAgree (parseChunks ctx buf chunks)
        (parser.feed ctx.untimed buf.readable (chunks.map Prod.fst))
  | [], ctx, buf, _, _ => ⟨ctx, buf, [], rfl, rfl, by simp⟩
  | (chunk, t) :: chunks, ctx, buf, hready, hwf => by
    obtain ⟨buf₁, hbuf₁, hwf₁, hread₁⟩ := hwf.append chunk
    have hagree := ctx.parseRequest_agrees hwf₁ t
    have hends := hready.drive (buf.readable ++ chunk)
    rw [hread₁] at hagree
    simp only [parseChunks, hbuf₁, Except.mapError, List.map_cons, Resumable.feed, ok_bind]
    cases hd : parser.drive ctx.untimed (buf.readable ++ chunk) with
    | pending c r =>
        rw [hd] at hagree hends
        obtain ⟨ctx', buf', hres, rfl, hwf', rfl⟩ := hagree
        have hgot : ctx'.gotAll = false := by
          have hready' : ctx'.untimed.Ready := hends
          have hst := hready'.expectsLine
          simp only [ExpectsLine, untimed_state] at hst
          rcases hst with h | h <;> simp [gotAll, h]
        simp only [hres, ok_bind, hgot]
        exact parseChunks_agree chunks ctx' buf' hends hwf'
    | done x c r =>
        rw [hd] at hagree hends
        cases x with
        | error e => exact absurd hends id
        | ok ok =>
            obtain ⟨ctx', buf', hres, rfl, hwf', rfl⟩ := hagree
            have hstop : (ok && !ctx'.gotAll) = false := by
              have hst : ctx'.state = _ := hends
              cases ok <;> simp [gotAll, hst]
            simp only [hres, ok_bind, hstop]
            exact ⟨ctx', buf', _, rfl, rfl, rfl⟩

/-- The chunks of a fresh context, against one run of the machine over all their bytes. -/
theorem parseChunks_new_agree (chunks : List (Bytes × TimePoint)) :
    ChunksAgree (parseChunks .new .new chunks) (parser.drive new (chunks.map Prod.fst).flatten) := by
  have hmany := parseChunks_agree chunks .new .new ready_new Buffer.wf_new
  have hidle : parser.drive new.untimed [] = .pending new.untimed [] := drive_nil (.inl rfl)
  rw [Buffer.readable_new, parser.feed_eq_drive _ hidle, List.nil_append] at hmany
  exact hmany

/-- **Incremental parsing equals one-shot parsing**, wherever the chunks are cut and whatever the
times of the reads: same answer, same state, same request, same bytes left. -/
theorem parseChunks_eq_parseRequest (chunks : List (Bytes × TimePoint)) (t : TimePoint) :
    ∃ ok ctx buf later whole ctx₁ buf₁,
      parseChunks .new .new chunks = .ok (ok, ctx, buf, later) ∧
      Buffer.new.append (chunks.map Prod.fst).flatten = .ok whole ∧
      HttpContext.new.parseRequest whole t = .ok (ok, ctx₁, buf₁) ∧
      ctx.state = ctx₁.state ∧ ctx.request.untimed = ctx₁.request.untimed ∧
      buf.readable ++ later = buf₁.readable := by
  obtain ⟨whole, hwhole, hwf, hread⟩ :=
    Buffer.wf_new.append (chunks.map Prod.fst).flatten
  have hone := HttpContext.new.parseRequest_agrees hwf t
  have hmany := parseChunks_new_agree chunks
  have hends := ready_new.drive whole.readable
  rw [Buffer.readable_new, List.nil_append] at hread
  rw [show new.untimed = new from rfl, hread] at hone
  rw [hread] at hends
  cases hd : parser.drive new (chunks.map Prod.fst).flatten with
  | pending c r =>
      rw [hd] at hone hmany
      obtain ⟨ctx₁, buf₁, hres₁, hc₁, -, hr₁⟩ := hone
      obtain ⟨ctx₂, buf₂, later, hres₂, hc₂, hr₂⟩ := hmany
      rw [← hc₁] at hc₂
      exact ⟨true, ctx₂, buf₂, later, whole, ctx₁, buf₁, hres₂, hwhole, hres₁,
        congrArg (·.state) hc₂, congrArg (·.request) hc₂, hr₂.trans hr₁.symm⟩
  | done x c r =>
      rw [hd] at hone hmany hends
      cases x with
      | error e => exact absurd hends id
      | ok ok =>
          obtain ⟨ctx₁, buf₁, hres₁, hc₁, -, hr₁⟩ := hone
          obtain ⟨ctx₂, buf₂, later, hres₂, hc₂, hr₂⟩ := hmany
          rw [← hc₁] at hc₂
          exact ⟨ok, ctx₂, buf₂, later, whole, ctx₁, buf₁, hres₂, hwhole, hres₁,
            congrArg (·.state) hc₂, congrArg (·.request) hc₂, hr₂.trans hr₁.symm⟩

end HttpContext

end MiniMuduo
