import MiniMuduo.Http.HttpServer

/-!
# Requests and TCP segmentation

`onMessage` calls `parseRequest` once per read and hands out the request if one is complete; what is
left in the input buffer waits for the next read. So a connection is a consumer of `parser` that
takes at most one request per read (`onReads_serves`), and how many of the requests of a stream are
handed to `httpCallback_` depends on where the stream was cut.

* `servedRequests_eq_take` — the requests handed out are the first `parser.servable` of the stream.
* `sameRequests_iff` — two cuttings of a stream hand out the same requests exactly when that number
  is the same for both.
-/

namespace MiniMuduo

open Fallible HttpContext

namespace HttpServer

variable {σ : Type} (cb : HttpCallback σ)

/-! ## The requests of a stream -/

/-- What `onMessage` goes on with: the reset context after a complete request, nothing after a
refused line. -/
def restart : Except HttpFault Bool → HttpContext → Option HttpContext
  | .ok true, ctx => some ctx.reset
  | _, _ => none

/-- All complete requests of a stream, in order; nothing if one of its request lines is refused. -/
def requests (stream : Bytes) : Option (List HttpRequest) :=
  (parser.drain restart .new stream).map (·.map fun p => p.2.request)

/-- No request line of the stream is refused. -/
def NoLineRejected (stream : Bytes) : Prop := (requests stream).isSome

instance (stream : Bytes) : Decidable (NoLineRejected stream) :=
  inferInstanceAs (Decidable ((requests stream).isSome = true))

/-- The reads a stream was cut into, none of them empty. -/
structure IsCutting (stream : Bytes) (reads : List (Bytes × TimePoint)) : Prop where
  flatten : (reads.map Prod.fst).flatten = stream
  nonempty : ∀ read ∈ reads, read.1 ≠ []

/-- The requests handed to `httpCallback_` by the reads of a fresh connection, `receiveTime`
aside. -/
def servedRequests (st : σ) (reads : List (Bytes × TimePoint)) :
    Except HttpFault (List HttpRequest) :=
  (onReads cb st .new .new reads).map fun p => (handled p.2.2.2).map HttpRequest.untimed

/-- Both cuttings are processed without a fault and hand out the same requests. -/
def SameRequests (st : σ) (reads₁ reads₂ : List (Bytes × TimePoint)) : Prop :=
  ∃ reqs, servedRequests cb st reads₁ = .ok reqs ∧ servedRequests cb st reads₂ = .ok reqs

/-! ## The connection as a consumer of the parser -/

/-- A complete request consumed at least its last line. -/
theorem progresses : parser.Progresses restart := by
  intro ctx b x ctx' r ht hx
  rcases parseTurn_eq_halt ht with ⟨line, hcut, -⟩ | ⟨-, ⟨line, hl⟩ | rfl⟩
  · exact length_of_cutLine hcut
  · -- a line that is refused completes no request
    rw [onLine] at hl
    split at hl
    · split at hl <;> cases hl <;> simp [restart] at hx
    · split at hl <;> cases hl
  · simp [restart] at hx

theorem restart_eq_some {x : Except HttpFault Bool} {ctx s₀ : HttpContext}
    (h : restart x ctx = some s₀) : x = .ok true ∧ s₀ = ctx.reset := by
  cases x with
  | error e => cases h
  | ok ok =>
      cases ok with
      | false => cases h
      | true =>
          cases h
          exact ⟨rfl, rfl⟩

/-- The query of the last request stays, the rest of a reset context is fresh. -/
theorem ready_reset (ctx : HttpContext) : ctx.reset.Ready := .inr ⟨rfl, rfl⟩

/-- A read that leaves the request unfinished. -/
theorem onMessage_of_pending (st : σ) {ctx s : HttpContext} {buf : Buffer} {r : Bytes}
    (hready : ctx.untimed.Ready) (hwf : buf.Wf) (t : TimePoint)
    (hd : parser.drive ctx.untimed buf.readable = .pending s r) :
    ∃ ctx' buf', onMessage cb st ctx buf t = .ok (st, ctx', buf', []) ∧
      ctx'.untimed = s ∧ s.Ready ∧ buf'.Wf ∧ buf'.readable = r := by
  have hagree := ctx.parseRequest_agrees hwf t
  have hends := hready.drive buf.readable
  rw [hd] at hagree hends
  obtain ⟨ctx', buf', hres, rfl, hwf', rfl⟩ := hagree
  have hgot : ctx'.gotAll = false := by
    have hready' : ctx'.untimed.Ready := hends
    have hst := hready'.expectsLine
    simp only [ExpectsLine, untimed_state] at hst
    rcases hst with h | h <;> simp [gotAll, h]
  exact ⟨ctx', buf', by simp [onMessage, hres, hgot], rfl, hends, hwf', rfl⟩

/-- A read that completes a request: it is handed out and the context is reset. -/
theorem onMessage_of_done (st : σ) {ctx s : HttpContext} {buf : Buffer} {r : Bytes}
    (hready : ctx.untimed.Ready) (hwf : buf.Wf) (t : TimePoint)
    (hd : parser.drive ctx.untimed buf.readable = .done (.ok true) s r) :
    ∃ st' ctx' buf' actions, onMessage cb st ctx buf t = .ok (st', ctx', buf', actions) ∧
      (handled actions).map HttpRequest.untimed = [s.request] ∧ ctx'.untimed = s.reset ∧
      buf'.Wf ∧ buf'.readable = r := by
  have hagree := ctx.parseRequest_agrees hwf t
  have hends := hready.drive buf.readable
  rw [hd] at hagree hends
  obtain ⟨ctx', buf', hres, rfl, hwf', rfl⟩ := hagree
  have hst : ctx'.state = .GotAll := hends
  have hgot : ctx'.gotAll = true := by simp [gotAll, hst]
  refine ⟨(onRequest cb st ctx'.request).1, ctx'.reset, buf', (onRequest cb st ctx'.request).2,
    ?_, ?_, rfl, hwf', rfl⟩
  · simp [onMessage, hres, hgot]
  · rw [handled_onRequest]
    rfl

/-- **The reads of a connection take at most one request each**: `onReads` hands out what
`parser.serve` does. -/
theorem onReads_serves :
    ∀ (reads : List (Bytes × TimePoint)) (st : σ) (ctx : HttpContext) (buf : Buffer)
      {out : List (Except HttpFault Bool × HttpContext)} {s : HttpContext} {r : Bytes},
      ctx.untimed.Ready → buf.Wf →
      parser.serve restart ctx.untimed buf.readable (reads.map Prod.fst) = some (out, s, r) →
      ∃ p, onReads cb st ctx buf reads = .ok p ∧
        (handled p.2.2.2).map HttpRequest.untimed = out.map fun q => q.2.request
  | [], st, ctx, buf, out, s, r, _, _, h => by
    cases h
    exact ⟨(st, ctx, buf, []), rfl, rfl⟩
  | (bytes, t) :: reads, st, ctx, buf, out, s, r, hready, hwf, h => by
    obtain ⟨buf₁, hbuf₁, hwf₁, hread₁⟩ := hwf.readFd bytes
    simp only [onReads, hbuf₁, Except.mapError, ok_bind]
    rw [List.map_cons, Resumable.serve, ← hread₁] at h
    cases hd : parser.drive ctx.untimed buf₁.readable with
    | pending s₁ r₁ =>
        rw [hd] at h
        obtain ⟨ctx', buf', hmsg, rfl, hready', hwf', rfl⟩ :=
          onMessage_of_pending cb st hready hwf₁ t hd
        obtain ⟨p, hp, hout⟩ := onReads_serves reads st ctx' buf' hready' hwf' h
        exact ⟨(p.1, p.2.1, p.2.2.1, p.2.2.2), by simp [hmsg, hp], hout⟩
    | done x s₁ r₁ =>
        rw [hd] at h
        cases hx : restart x s₁ with
        | none => simp [hx] at h
        | some s₀ =>
            obtain ⟨rfl, rfl⟩ := restart_eq_some hx
            obtain ⟨st', ctx', buf', actions, hmsg, hacts, hreset, hwf', rfl⟩ :=
              onMessage_of_done cb st hready hwf₁ t hd
            simp only [hx, Option.map_eq_some_iff, Prod.mk.injEq] at h
            obtain ⟨⟨out', s', r'⟩, hserve, rfl, rfl, rfl⟩ := h
            rw [← hreset] at hserve
            obtain ⟨p, hp, hout⟩ := onReads_serves reads st' ctx' buf'
              (hreset ▸ ready_reset s₁) hwf' hserve
            refine ⟨(p.1, p.2.1, p.2.2.1, actions ++ p.2.2.2), by simp [hmsg, hp], ?_⟩
            simp [hacts, hout]

/-! ## How many requests a cutting hands out -/

/-- The number of requests that the reads hand out: over every boundary between reads, the requests
complete there plus one for every read after it, and the least of these. -/
def servable (reads : List (Bytes × TimePoint)) : ℕ :=
  parser.servable restart .new (reads.map Prod.fst)

/-- The requests complete at the end of the stream bound what any cutting hands out. -/
theorem servable_le {stream : Bytes} {reads : List (Bytes × TimePoint)} {reqs : List HttpRequest}
    (hcut : IsCutting stream reads) (h : requests stream = some reqs) :
    servable reads ≤ reqs.length := by
  obtain ⟨all, hall, rfl⟩ := Option.map_eq_some_iff.mp h
  refine (Finset.inf'_le _ (b := (reads.map Prod.fst).length) (by simp)).trans ?_
  rw [List.take_length, hcut.flatten, Resumable.count, hall]
  simp

/-- **What a cutting hands out**: the first `servable` requests of the stream. -/
theorem servedRequests_eq_take {stream : Bytes} {reads : List (Bytes × TimePoint)}
    {reqs : List HttpRequest} (hcut : IsCutting stream reads) (h : requests stream = some reqs)
    (st : σ) : servedRequests cb st reads = .ok (reqs.take (servable reads)) := by
  obtain ⟨all, hall, rfl⟩ := Option.map_eq_some_iff.mp h
  rw [← hcut.flatten] at hall
  obtain ⟨s, r, hserve⟩ := Resumable.serve_eq_take progresses (drive_nil (.inl rfl)) hall
  obtain ⟨p, hp, hout⟩ := onReads_serves cb reads st .new .new ready_new Buffer.wf_new
    (by rw [Buffer.readable_new]; exact hserve)
  rw [servedRequests, hp, Except.map, hout, servable, List.map_take]

theorem take_eq_take_iff_of_le {α : Type} {l : List α} {m n : ℕ} (hm : m ≤ l.length)
    (hn : n ≤ l.length) : l.take m = l.take n ↔ m = n := by
  rw [List.take_eq_take_iff, min_eq_left hm, min_eq_left hn]

/-- **When segmentation does not show**: two cuttings of a stream hand out the same requests exactly
when the least, over the read boundaries, of the requests complete there plus the reads after it is
the same for both. -/
theorem sameRequests_iff {stream : Bytes} (h : NoLineRejected stream)
    {reads₁ reads₂ : List (Bytes × TimePoint)} (h₁ : IsCutting stream reads₁)
    (h₂ : IsCutting stream reads₂) (st : σ) :
    SameRequests cb st reads₁ reads₂ ↔ servable reads₁ = servable reads₂ := by
  obtain ⟨reqs, hreqs⟩ := Option.isSome_iff_exists.mp h
  rw [← take_eq_take_iff_of_le (servable_le h₁ hreqs) (servable_le h₂ hreqs), SameRequests,
    servedRequests_eq_take cb h₁ hreqs st, servedRequests_eq_take cb h₂ hreqs st]
  constructor
  · rintro ⟨reqs', he₁, he₂⟩
    exact Except.ok.inj (he₁.trans he₂.symm)
  · intro he
    exact ⟨_, rfl, congrArg _ he.symm⟩

/-- `"GET / HTTP/1.1\r\n\r\n"`. -/
def plainGet : Bytes :=
  ascii ['G', 'E', 'T', ' ', '/', ' ', 'H', 'T', 'T', 'P', '/', '1', '.', '1'] ++ (kCRLF ++ kCRLF)

/-- A callback that leaves the response as it is. -/
def leaveResponse : HttpCallback Unit := fun st _ response => (st, response)

/-- A request in one read or in two. -/
theorem sameRequests_iff_split_get :
    NoLineRejected plainGet ∧ IsCutting plainGet [(plainGet, 0)] ∧
      IsCutting plainGet [(plainGet.take 5, 0), (plainGet.drop 5, 1)] ∧
      (SameRequests leaveResponse () [(plainGet, 0)]
          [(plainGet.take 5, 0), (plainGet.drop 5, 1)] ↔
        servable [(plainGet, 0)] = servable [(plainGet.take 5, 0), (plainGet.drop 5, 1)]) :=
  have h : NoLineRejected plainGet := by decide +kernel
  have h₁ : IsCutting plainGet [(plainGet, 0)] := ⟨by decide, by decide⟩
  have h₂ : IsCutting plainGet [(plainGet.take 5, 0), (plainGet.drop 5, 1)] :=
    ⟨by decide, by decide⟩
  ⟨h, h₁, h₂, sameRequests_iff leaveResponse h h₁ h₂ ()⟩

/-- Two requests in one read: only the first is handed out. In two reads both are. -/
theorem pipelined_gets_not_sameRequests :
    NoLineRejected (plainGet ++ plainGet) ∧
      IsCutting (plainGet ++ plainGet) [(plainGet ++ plainGet, 0)] ∧
      IsCutting (plainGet ++ plainGet) [(plainGet, 0), (plainGet, 0)] ∧
      ¬ SameRequests leaveResponse () [(plainGet ++ plainGet, 0)]
        [(plainGet, 0), (plainGet, 0)] := by
  have h : NoLineRejected (plainGet ++ plainGet) := by decide +kernel
  have h₁ : IsCutting (plainGet ++ plainGet) [(plainGet ++ plainGet, 0)] :=
    ⟨by decide, by decide⟩
  have h₂ : IsCutting (plainGet ++ plainGet) [(plainGet, 0), (plainGet, 0)] :=
    ⟨by decide, by decide⟩
  obtain ⟨reqs, hreqs⟩ := Option.isSome_iff_exists.mp h
  refine ⟨h, h₁, h₂, ?_⟩
  rintro ⟨reqs', he₁, he₂⟩
  rw [servedRequests_eq_take _ h₁ hreqs] at he₁
  rw [servedRequests_eq_take _ h₂ hreqs] at he₂
  have hserved := (take_eq_take_iff_of_le (servable_le h₁ hreqs) (servable_le h₂ hreqs)).mp
    (Except.ok.inj (he₁.trans he₂.symm))
  revert hserved
  decide +kernel

end HttpServer

end MiniMuduo
