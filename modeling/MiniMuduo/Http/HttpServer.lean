import MiniMuduo.Http.Incremental
import MiniMuduo.Http.HttpResponse

/-!
# `HttpServer`

What `HttpServer` does with the reads of one connection. `onMessage` is modelled as a function of
the connection's `HttpContext` and input buffer that also lists, in order, what it did to the
outside: the `httpCallback_` invocations and the calls on the connection.

The user's `httpCallback_` may keep state of its own, so it is a function `σ → … → σ × …`.
-/

namespace MiniMuduo

open Fallible

/-- What `onMessage` does besides parsing. -/
inductive HttpAction where
  | httpCallback (req : HttpRequest)
  | send (message : Bytes)
  | sendBuffer (bytes : Bytes)
  | shutdown

/-- A user callback with a state of its own: it fills in the response to a request. -/
abbrev HttpCallback (σ : Type) := σ → HttpRequest → HttpResponse → σ × HttpResponse

namespace HttpServer

variable {σ : Type} (cb : HttpCallback σ)

/-- The answer to a refused request line, `"HTTP/1.1 400 Bad Request\r\n\r\n"`. -/
def badRequest : Bytes :=
  ascii ['H', 'T', 'T', 'P', '/', '1', '.', '1', ' ', '4', '0', '0', ' ', 'B', 'a', 'd', ' ', 'R',
    'e', 'q', 'u', 'e', 's', 't'] ++ (kCRLF ++ kCRLF)

/-- Whether the response to `req` is to close the connection, before the callback decides. -/
def closes (req : HttpRequest) : Bool :=
  let connection := req.getHeader (ascii ['C', 'o', 'n', 'n', 'e', 'c', 't', 'i', 'o', 'n'])
  connection = ascii ['c', 'l', 'o', 's', 'e'] ||
    (req.version = .Http10 && connection ≠ ascii ['K', 'e', 'e', 'p', '-', 'A', 'l', 'i', 'v', 'e'])

def onRequest (st : σ) (req : HttpRequest) : σ × List HttpAction :=
  let (st, response) := cb st req (.new (closes req))
  let buf := response.appendToBuffer .new
  (st, .httpCallback req :: .sendBuffer buf.readable ::
    if response.closeConnection then [.shutdown] else [])

def onMessage (st : σ) (ctx : HttpContext) (buf : Buffer) (receiveTime : TimePoint) :
    Except HttpFault (σ × HttpContext × Buffer × List HttpAction) := do
  let (ok, ctx, buf) ← ctx.parseRequest buf receiveTime
  let refused := if ok then [] else [.send badRequest, .shutdown]
  if ctx.gotAll then
    let (st, answered) := onRequest cb st ctx.request
    return (st, ctx.reset, buf, refused ++ answered)
  else return (st, ctx, buf, refused)

/-- The reads of one connection: each is added to the input buffer by `readFd` and handed to
`onMessage`. -/
def onReads (st : σ) (ctx : HttpContext) (buf : Buffer) :
    List (Bytes × TimePoint) → Except HttpFault (σ × HttpContext × Buffer × List HttpAction)
  | [] => return (st, ctx, buf, [])
  | (bytes, receiveTime) :: reads => do
      let buf ← (buf.readFd (.data bytes)).mapError .buffer
      let (st, ctx, buf, actions) ← onMessage cb st ctx buf receiveTime
      let (st, ctx, buf, later) ← onReads st ctx buf reads
      return (st, ctx, buf, actions ++ later)

/-- The requests handed to `httpCallback_`, in order. -/
def handled (actions : List HttpAction) : List HttpRequest :=
  actions.filterMap fun
    | .httpCallback req => some req
    | _ => none

@[simp] theorem handled_append (a b : List HttpAction) : handled (a ++ b) = handled a ++ handled b :=
  List.filterMap_append

@[simp] theorem handled_onRequest (st : σ) (req : HttpRequest) :
    handled (onRequest cb st req).2 = [req] := by
  simp only [onRequest, handled]
  split <;> rfl

end HttpServer

end MiniMuduo
