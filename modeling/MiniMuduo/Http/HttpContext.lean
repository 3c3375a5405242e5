import MiniMuduo.Http.HttpRequest
import MiniMuduo.Lib.Resumable

/-!
# `HttpContext`

The incremental request parser of `HttpContext.cpp`, in two layers.

* `processRequestLine` and `parseRequest` follow the source: a `while` loop over the lines of a
  `Buffer`. The loop has no exit in the states `ExpectBody` and `GotAll`, so it is modelled with
  fuel, and running out of it is the fault `spins`; one unit per unread byte, and one more, is
  enough for every call that returns.
* `parser` is the same loop as a machine over a byte queue: what one line does, without the buffer
  and without the clock. `parseRequest_agrees` connects the two, and everything that is proved about
  parsing is proved about `parser`.
-/

namespace MiniMuduo

open Fallible Search

/-- `' '`. -/
def SP : UInt8 := 32

namespace HttpContext

inductive HttpRequestParseState where
  | ExpectRequestLine
  | ExpectHeaders
  | ExpectBody
  | GotAll
  deriving DecidableEq, Repr

end HttpContext

structure HttpContext where
  state : HttpContext.HttpRequestParseState
  request : HttpRequest
  deriving DecidableEq

namespace HttpContext

/-- `HttpContext::HttpContext()`. -/
def new : HttpContext := ⟨.ExpectRequestLine, .new⟩

def gotAll (ctx : HttpContext) : Bool := ctx.state = .GotAll

def reset (ctx : HttpContext) : HttpContext :=
  ⟨.ExpectRequestLine, (ctx.request.swap .new).1⟩

/-- `"HTTP/1."`. -/
def httpOneDot : Bytes := ascii ['H', 'T', 'T', 'P', '/', '1', '.']

/-- `'?'`. -/
def question : UInt8 := UInt8.ofNat '?'.toNat

/-- The part of `processRequestLine` after the second space: path and query are set whatever comes
after them. -/
def setTarget (req : HttpRequest) (target : Bytes) : HttpRequest :=
  match splitFirst question target with
  | some (path, query) => (req.setPath path).setQuery (question :: query)
  | none => req.setPath target

/-- The version the last byte of the request line selects. -/
def versionOf (text : Bytes) : Option HttpRequest.Version :=
  if text.length = 8 ∧ text.take 7 = httpOneDot then
    if text.drop 7 = ascii ['1'] then some .Http11
    else if text.drop 7 = ascii ['0'] then some .Http10
    else none
  else none

/-- `processRequestLine` on the line `[begin, end)`. A line that is refused may have changed
`request` by then. -/
def processRequestLine (ctx : HttpContext) (line : Bytes) :
    Except HttpFault (Bool × HttpContext) :=
  match splitFirst SP line with
  | none => return (false, ctx)
  | some (method, afterMethod) => do
      let (succeed, request) ← ctx.request.setMethod method
      if succeed then
        match splitFirst SP afterMethod with
        | none => return (false, { ctx with request })
        | some (target, versionText) =>
            let request := setTarget request target
            match versionOf versionText with
            | some v => return (true, { ctx with request := request.setVersion v })
            | none => return (false, { ctx with request })
      else return (false, { ctx with request })

/-- `';'`, the byte the source looks for under the name `colon`. -/
def colonByte : UInt8 := UInt8.ofNat ';'.toNat

/-- The `while` loop of `parseRequest`. -/
def parseLoop (t : TimePoint) :
    ℕ → HttpContext → Buffer → Except HttpFault (Bool × HttpContext × Buffer)
  | 0, _, _ => .error .spins
  | fuel + 1, ctx, buf =>
      match ctx.state with
      | .ExpectRequestLine =>
          match buf.findCRLF with
          | none => return (true, ctx, buf)
          | some crlf => do
              let (ok, ctx) ← ctx.processRequestLine (buf.slice buf.peek crlf)
              if ok then
                let buf ← (buf.retrieveUntil (crlf + 2)).mapError .buffer
                parseLoop t fuel ⟨.ExpectHeaders, ctx.request.setReceiveTime t⟩ buf
              else return (false, ctx, buf)
      | .ExpectHeaders =>
          match buf.findCRLF with
          | none => return (true, ctx, buf)
          | some crlf =>
              match splitFirst colonByte (buf.slice buf.peek crlf) with
              | some (field, rest) => do
                  let buf ← (buf.retrieveUntil (crlf + 2)).mapError .buffer
                  parseLoop t fuel { ctx with request := ctx.request.addHeader field rest } buf
              | none => do
                  let buf ← (buf.retrieveUntil (crlf + 2)).mapError .buffer
                  return (true, { ctx with state := .GotAll }, buf)
      | .ExpectBody | .GotAll => parseLoop t fuel ctx buf

def parseRequest (ctx : HttpContext) (buf : Buffer) (receiveTime : TimePoint) :
    Except HttpFault (Bool × HttpContext × Buffer) :=
  parseLoop receiveTime (buf.readableBytes + 1) ctx buf

/-! ## The parser over a byte queue -/

/-- Cut off the first line and its CRLF. -/
def cutLine (b : Bytes) : Option (Bytes × Bytes) :=
  (search kCRLF b).map fun i => (b.take i, b.drop (i + 2))

theorem cutLine_eq_some {b line rest : Bytes} (h : cutLine b = some (line, rest)) :
    b = line ++ (kCRLF ++ rest) ∧ search kCRLF b = some line.length := by
  obtain ⟨i, hi, he⟩ := Option.map_eq_some_iff.mp h
  simp only [Prod.mk.injEq] at he
  obtain ⟨rfl, rfl⟩ := he
  refine ⟨eq_take_append_of_search hi, ?_⟩
  rw [List.length_take, min_eq_left (search_le_length hi), hi]

theorem cutLine_append {b line rest : Bytes} (c : Bytes) (h : cutLine b = some (line, rest)) :
    cutLine (b ++ c) = some (line, rest ++ c) := by
  obtain ⟨hb, hs⟩ := cutLine_eq_some h
  have hs' := search_append c hs
  have happ : b ++ c = line ++ (kCRLF ++ (rest ++ c)) := by simp [hb]
  rw [cutLine, hs', Option.map_some, happ, List.take_left, List.drop_append]
  simp [kCRLF]

theorem length_of_cutLine {b line rest : Bytes} (h : cutLine b = some (line, rest)) :
    rest.length < b.length := by
  rw [(cutLine_eq_some h).1]
  simp only [List.length_append, kCRLF, List.length_cons]
  omega

theorem suffix_of_cutLine {b line rest : Bytes} (h : cutLine b = some (line, rest)) : rest <:+ b := by
  rw [(cutLine_eq_some h).1, ← List.append_assoc]
  exact List.suffix_append _ _

/-- What a complete line makes the loop do: go on with the next line, return after consuming it, or
return leaving it unread. -/
inductive Verdict where
  | next (ctx : HttpContext)
  | stop (x : Except HttpFault Bool) (ctx : HttpContext)
  | refuse (x : Except HttpFault Bool) (ctx : HttpContext)

/-- What a line does to a context that expects one. -/
def onLine (ctx : HttpContext) (line : Bytes) : Verdict :=
  if ctx.state = .ExpectRequestLine then
    match ctx.processRequestLine line with
    | .error e => .refuse (.error e) ctx
    | .ok (true, ctx') => .next { ctx' with state := .ExpectHeaders }
    | .ok (false, ctx') => .refuse (.ok false) ctx'
  else
    match splitFirst colonByte line with
    | some (field, rest) => .next { ctx with request := ctx.request.addHeader field rest }
    | none => .stop (.ok true) { ctx with state := .GotAll }

/-- The states in which the loop looks for a line. -/
def ExpectsLine (ctx : HttpContext) : Prop :=
  ctx.state = .ExpectRequestLine ∨ ctx.state = .ExpectHeaders

instance (ctx : HttpContext) : Decidable ctx.ExpectsLine :=
  inferInstanceAs (Decidable (_ ∨ _))

/-- One iteration of the loop, on the unread bytes. -/
def parseTurn (ctx : HttpContext) (b : Bytes) : Turn HttpContext (Except HttpFault Bool) UInt8 :=
  if ctx.ExpectsLine then
    match cutLine b with
    | none => .wait
    | some (line, rest) =>
        match ctx.onLine line with
        | .next ctx' => .next ctx' rest
        | .stop x ctx' => .halt x ctx' rest
        | .refuse x ctx' => .halt x ctx' b
  else .halt (.error .spins) ctx b

variable {ctx : HttpContext} {b line rest : Bytes}

theorem parseTurn_of_none (he : ctx.ExpectsLine) (h : cutLine b = none) :
    parseTurn ctx b = .wait := by
  simp [parseTurn, he, h]

theorem parseTurn_of_cutLine (he : ctx.ExpectsLine) (h : cutLine b = some (line, rest)) :
    parseTurn ctx b =
      match ctx.onLine line with
      | .next ctx' => .next ctx' rest
      | .stop x ctx' => .halt x ctx' rest
      | .refuse x ctx' => .halt x ctx' b := by
  simp [parseTurn, he, h]

theorem parseTurn_of_not_expectsLine (he : ¬ ctx.ExpectsLine) :
    parseTurn ctx b = .halt (.error .spins) ctx b := by
  simp [parseTurn, he]

/-- A turn that goes on consumed a line. -/
theorem parseTurn_eq_next {ctx' : HttpContext} {r : Bytes} :
    parseTurn ctx b = .next ctx' r ↔
      ctx.ExpectsLine ∧ ∃ line, cutLine b = some (line, r) ∧ ctx.onLine line = .next ctx' := by
  by_cases he : ctx.ExpectsLine
  · cases hcut : cutLine b with
    | none => simp [parseTurn_of_none he hcut]
    | some p =>
        obtain ⟨line, rest⟩ := p
        rw [parseTurn_of_cutLine he hcut]
        cases hl : ctx.onLine line <;> simp [he, hl, and_comm]
  · simp [parseTurn_of_not_expectsLine he, he]

/-- A turn that ends the parse consumed a line, or nothing. -/
theorem parseTurn_eq_halt {x : Except HttpFault Bool} {ctx' : HttpContext} {r : Bytes}
    (h : parseTurn ctx b = .halt x ctx' r) :
    (∃ line, cutLine b = some (line, r) ∧ ctx.onLine line = .stop x ctx') ∨
      r = b ∧ ((∃ line, ctx.onLine line = .refuse x ctx') ∨ x = .error .spins) := by
  by_cases he : ctx.ExpectsLine
  · cases hcut : cutLine b with
    | none => simp [parseTurn_of_none he hcut] at h
    | some p =>
        obtain ⟨line, rest⟩ := p
        rw [parseTurn_of_cutLine he hcut] at h
        cases hl : ctx.onLine line with
        | next ctx₁ => simp [hl] at h
        | stop y ctx₁ =>
            simp only [hl, Turn.halt.injEq] at h
            obtain ⟨rfl, rfl, rfl⟩ := h
            exact .inl ⟨line, rfl, hl⟩
        | refuse y ctx₁ =>
            simp only [hl, Turn.halt.injEq] at h
            obtain ⟨rfl, rfl, rfl⟩ := h
            exact .inr ⟨rfl, .inl ⟨line, hl⟩⟩
  · rw [parseTurn_of_not_expectsLine he] at h
    cases h
    exact .inr ⟨rfl, .inr rfl⟩

/-- `parseRequest` as a resumable machine: a line that was complete stays the same line when more
bytes arrive. -/
def parser : Resumable HttpContext (Except HttpFault Bool) UInt8 where
  turn := parseTurn
  next_append := by
    intro ctx b ctx' r c h
    obtain ⟨he, line, hcut, hl⟩ := parseTurn_eq_next.mp h
    exact parseTurn_eq_next.mpr ⟨he, line, cutLine_append c hcut, hl⟩
  halt_append := by
    intro ctx b x ctx' r c h
    by_cases he : ctx.ExpectsLine
    · cases hcut : cutLine b with
      | none => simp [parseTurn_of_none he hcut] at h
      | some p =>
          obtain ⟨line, rest⟩ := p
          rw [parseTurn_of_cutLine he hcut] at h
          rw [parseTurn_of_cutLine he (cutLine_append c hcut)]
          cases hl : ctx.onLine line <;> simp_all
    · rw [parseTurn_of_not_expectsLine he] at h ⊢
      simp_all
  next_shorter := by
    intro ctx b ctx' r h
    obtain ⟨-, line, hcut, -⟩ := parseTurn_eq_next.mp h
    exact length_of_cutLine hcut

/-- Without input a context that expects a line waits. -/
theorem drive_nil (he : ctx.ExpectsLine) : parser.drive ctx [] = .pending ctx [] :=
  parser.drive_of_wait (b := []) (parseTurn_of_none he rfl)

theorem drive_of_line_next {ctx' : HttpContext} (he : ctx.ExpectsLine)
    (hcut : cutLine b = some (line, rest)) (hl : ctx.onLine line = .next ctx') :
    parser.drive ctx b = parser.drive ctx' rest := by
  have hturn : parser.turn ctx b = _ := parseTurn_of_cutLine he hcut
  rw [hl] at hturn
  exact parser.drive_of_next hturn

theorem drive_of_line_stop {ctx' : HttpContext} {x : Except HttpFault Bool} (he : ctx.ExpectsLine)
    (hcut : cutLine b = some (line, rest)) (hl : ctx.onLine line = .stop x ctx') :
    parser.drive ctx b = .done x ctx' rest := by
  have hturn : parser.turn ctx b = _ := parseTurn_of_cutLine he hcut
  rw [hl] at hturn
  exact parser.drive_of_halt hturn

/-! ## The loop over the buffer is the machine over the bytes -/

/-- The context with the `receiveTime` of its request forgotten. -/
def untimed (ctx : HttpContext) : HttpContext := { ctx with request := ctx.request.untimed }

@[simp] theorem untimed_state (ctx : HttpContext) : ctx.untimed.state = ctx.state := rfl

/-- The clock plays no part in `processRequestLine`. -/
theorem processRequestLine_untimed (ctx : HttpContext) (line : Bytes) :
    ctx.untimed.processRequestLine line =
      (ctx.processRequestLine line).map fun p => (p.1, p.2.untimed) := by
  rw [processRequestLine, processRequestLine]
  cases splitFirst SP line with
  | none => rfl
  | some p =>
      obtain ⟨method, afterMethod⟩ := p
      simp only [HttpRequest.setMethod]
      by_cases hm : ctx.request.method = .Invalid
      · have hm' : ctx.untimed.request.method = .Invalid := hm
        simp only [hm, hm', check_of_pos, ok_bind, pure_eq_ok]
        by_cases hmeth : HttpRequest.methodOf method = .Invalid
        · simp only [hmeth]
          rfl
        · simp only [hmeth, decide_true, ne_eq, not_false_eq_true, if_true]
          cases splitFirst SP afterMethod with
          | none => rfl
          | some q =>
              obtain ⟨target, versionText⟩ := q
              simp only [setTarget]
              cases splitFirst question target <;>
                cases versionOf versionText <;> rfl
      · have hm' : ¬ ctx.untimed.request.method = .Invalid := hm
        simp only [hm, hm', check_of_neg, not_false_eq_true, error_bind]
        rfl

def Verdict.untimed : Verdict → Verdict
  | .next ctx => .next ctx.untimed
  | .stop x ctx => .stop x ctx.untimed
  | .refuse x ctx => .refuse x ctx.untimed

theorem onLine_untimed (ctx : HttpContext) (line : Bytes) :
    ctx.untimed.onLine line = (ctx.onLine line).untimed := by
  rw [onLine, onLine, untimed_state]
  split
  · rw [processRequestLine_untimed]
    cases ctx.processRequestLine line with
    | error e => rfl
    | ok p =>
        obtain ⟨ok, ctx'⟩ := p
        cases ok <;> rfl
  · cases splitFirst colonByte line <;> rfl

theorem findCRLF_eq_none {buf : Buffer} (h : cutLine buf.readable = none) :
    buf.findCRLF = none := by
  rw [Buffer.findCRLF, Option.map_eq_none_iff]
  exact Option.map_eq_none_iff.mp h

/-- What the loop gets from the buffer for a complete line: the line and the bytes after it. -/
theorem findCRLF_eq_some {buf : Buffer} (hwf : buf.Wf)
    (h : cutLine buf.readable = some (line, rest)) :
    ∃ crlf buf', buf.findCRLF = some crlf ∧ buf.slice buf.peek crlf = line ∧
      buf.retrieveUntil (crlf + 2) = .ok buf' ∧ buf'.Wf ∧ buf'.readable = rest := by
  obtain ⟨hb, hs⟩ := cutLine_eq_some h
  have hlen : line.length + 2 ≤ buf.readable.length := by
    rw [hb]
    simp [kCRLF]
  obtain ⟨buf', hbuf', hwf', hread⟩ := hwf.retrieveUntil hlen
  refine ⟨buf.peek + line.length, buf', ?_, ?_, hbuf', hwf', ?_⟩
  · rw [Buffer.findCRLF, hs]
    rfl
  · rw [hwf.slice_peek (by omega), hb, List.take_left]
  · rw [hread, hb, List.drop_append]
    simp [kCRLF]

/-- How a result of `parseRequest` matches an outcome of `parser`. -/
def Agrees (res : Except HttpFault (Bool × HttpContext × Buffer)) :
    Resumable.Outcome HttpContext (Except HttpFault Bool) UInt8 → Prop
  | .pending ctx r =>
      ∃ ctx' buf', res = .ok (true, ctx', buf') ∧ ctx'.untimed = ctx ∧ buf'.Wf ∧ buf'.readable = r
  | .done (.ok ok) ctx r =>
      ∃ ctx' buf', res = .ok (ok, ctx', buf') ∧ ctx'.untimed = ctx ∧ buf'.Wf ∧ buf'.readable = r
  | .done (.error e) _ _ => res = .error e

/-- Outside the two line-reading states the loop has no exit. -/
theorem parseLoop_of_not_expectsLine (t : TimePoint) (he : ¬ ctx.ExpectsLine) (buf : Buffer) :
    ∀ fuel, parseLoop t fuel ctx buf = .error .spins
  | 0 => rfl
  | fuel + 1 => by
    simp only [ExpectsLine, not_or] at he
    rw [parseLoop]
    cases hst : ctx.state with
    | ExpectRequestLine => exact absurd hst he.1
    | ExpectHeaders => exact absurd hst he.2
    | ExpectBody =>
        simp only
        exact parseLoop_of_not_expectsLine t (by simp [ExpectsLine, he]) buf fuel
    | GotAll =>
        simp only
        exact parseLoop_of_not_expectsLine t (by simp [ExpectsLine, he]) buf fuel

theorem parseLoop_of_none (t : TimePoint) (fuel : ℕ) {buf : Buffer} (he : ctx.ExpectsLine)
    (h : cutLine buf.readable = none) :
    parseLoop t (fuel + 1) ctx buf = .ok (true, ctx, buf) := by
  rw [parseLoop]
  rcases he with hst | hst <;> simp [hst, findCRLF_eq_none h]

/-- One iteration of the loop on a complete line. -/
theorem parseLoop_of_cutLine (t : TimePoint) (fuel : ℕ) {buf : Buffer} (hwf : buf.Wf)
    (he : ctx.ExpectsLine) (h : cutLine buf.readable = some (line, rest)) :
    ∃ buf', buf'.Wf ∧ buf'.readable = rest ∧
      match ctx.onLine line with
      | .next ctx' => ∃ ctx₁, ctx₁.untimed = ctx'.untimed ∧
          parseLoop t (fuel + 1) ctx buf = parseLoop t fuel ctx₁ buf'
      | .stop (.ok ok) ctx' => parseLoop t (fuel + 1) ctx buf = .ok (ok, ctx', buf')
      | .refuse (.ok ok) ctx' => parseLoop t (fuel + 1) ctx buf = .ok (ok, ctx', buf)
      | .stop (.error e) _ | .refuse (.error e) _ => parseLoop t (fuel + 1) ctx buf = .error e := by
  obtain ⟨crlf, buf', hcrlf, hslice, hretr, hwf', hread⟩ := findCRLF_eq_some hwf h
  refine ⟨buf', hwf', hread, ?_⟩
  rw [parseLoop, onLine]
  rcases he with hst | hst
  · simp only [hst, hcrlf, hslice, if_true]
    cases hp : ctx.processRequestLine line with
    | error e => rfl
    | ok p =>
        obtain ⟨ok, ctx'⟩ := p
        cases ok with
        | false => rfl
        | true =>
            simp only [hretr]
            exact ⟨⟨.ExpectHeaders, ctx'.request.setReceiveTime t⟩, rfl, rfl⟩
  · simp only [hst, hcrlf, hslice]
    cases hs : splitFirst colonByte line with
    | none =>
        simp only [hretr]
        rfl
    | some q =>
        obtain ⟨field, value⟩ := q
        simp only [hretr]
        exact ⟨_, rfl, rfl⟩

/-- The loop of `parseRequest`, given fuel for every unread byte, ends as the machine does. -/
theorem parseLoop_agrees (t : TimePoint) :
    ∀ (fuel : ℕ) (ctx : HttpContext) (buf : Buffer), buf.Wf → buf.readable.length < fuel →
      Agrees (parseLoop t fuel ctx buf) (parser.drive ctx.untimed buf.readable)
  | 0, ctx, buf, _, hfuel => by omega
  | fuel + 1, ctx, buf, hwf, hfuel => by
    by_cases he : ctx.ExpectsLine
    · have he' : ctx.untimed.ExpectsLine := he
      cases hcut : cutLine buf.readable with
      | none =>
          rw [parser.drive_of_wait (parseTurn_of_none he' hcut), parseLoop_of_none t fuel he hcut]
          exact ⟨ctx, buf, rfl, rfl, hwf, rfl⟩
      | some p =>
          obtain ⟨line, rest⟩ := p
          have hlen := length_of_cutLine hcut
          have hturn : parser.turn ctx.untimed buf.readable = _ := parseTurn_of_cutLine he' hcut
          rw [onLine_untimed] at hturn
          obtain ⟨buf', hwf', hread, hloop⟩ := parseLoop_of_cutLine t fuel hwf he hcut
          cases hl : ctx.onLine line with
          | next ctx' =>
              rw [hl] at hloop hturn
              obtain ⟨ctx₁, hctx₁, hloop⟩ := hloop
              rw [hloop, parser.drive_of_next hturn, ← hctx₁, ← hread]
              exact parseLoop_agrees t fuel ctx₁ buf' hwf' (by rw [hread]; omega)
          | stop x ctx' =>
              rw [hl] at hloop hturn
              rw [parser.drive_of_halt hturn]
              cases x with
              | error e => exact hloop
              | ok ok => exact ⟨ctx', buf', hloop, rfl, hwf', hread⟩
          | refuse x ctx' =>
              rw [hl] at hloop hturn
              rw [parser.drive_of_halt hturn]
              cases x with
              | error e => exact hloop
              | ok ok => exact ⟨ctx', buf, hloop, rfl, hwf, rfl⟩
    · rw [parser.drive_of_halt (parseTurn_of_not_expectsLine (show ¬ ctx.untimed.ExpectsLine from he)),
        parseLoop_of_not_expectsLine t he]
      rfl

/-- **`parseRequest` is the machine**: on a well-formed buffer it ends exactly as `parser` does on
the readable bytes. -/
theorem parseRequest_agrees (ctx : HttpContext) {buf : Buffer} (hwf : buf.Wf) (t : TimePoint) :
    Agrees (ctx.parseRequest buf t) (parser.drive ctx.untimed buf.readable) :=
  parseLoop_agrees t _ ctx buf hwf (by rw [hwf.length_readable]; omega)

end HttpContext

end MiniMuduo
