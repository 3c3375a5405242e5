import MiniMuduo.Buffer
import MiniMuduo.TimeUtil
import Mathlib.Data.Finmap
import Mathlib.Data.List.DropRight

/-!
# `HttpRequest`

The request a connection is parsing. `headers` is the `std::map` of the source; nothing iterates
over it, so a finite map without an order is enough.
-/

namespace MiniMuduo

open Fallible

/-- What can stop the HTTP code: the assert in `HttpRequest::setMethod`, an assert of the `Buffer`
it parses from, or a `while` loop that never leaves its state. -/
inductive HttpFault where
  | setMethod
  | buffer (f : Buffer.Fault)
  | spins
  deriving DecidableEq, Repr

namespace HttpRequest

inductive Method where
  | Invalid
  | Get
  | Post
  | Head
  | Put
  | Delete
  deriving DecidableEq, Repr

inductive Version where
  | Unknown
  | Http10
  | Http11
  deriving DecidableEq, Repr

end HttpRequest

structure HttpRequest where
  method : HttpRequest.Method
  version : HttpRequest.Version
  path : Bytes
  query : Bytes
  receiveTime : TimePoint
  headers : Finmap fun _ : Bytes => Bytes
  deriving DecidableEq

namespace HttpRequest

/-- `HttpRequest::HttpRequest()`. -/
def new : HttpRequest where
  method := .Invalid
  version := .Unknown
  path := []
  query := []
  receiveTime := 0
  headers := ∅

/-- The text `HttpRequest::methodString` answers. -/
def methodString : Method → Bytes
  | .Get => ascii ['G', 'E', 'T']
  | .Post => ascii ['P', 'O', 'S', 'T']
  | .Head => ascii ['H', 'E', 'A', 'D']
  | .Put => ascii ['P', 'U', 'T']
  | .Delete => ascii ['D', 'E', 'L', 'E', 'T', 'E']
  | .Invalid => ascii ['U', 'N', 'K', 'N', 'O', 'W', 'N']

/-- The chain of comparisons in `setMethod`. -/
def methodOf (m : Bytes) : Method :=
  if m = ascii ['G', 'E', 'T'] then .Get
  else if m = ascii ['P', 'O', 'S', 'T'] then .Post
  else if m = ascii ['H', 'E', 'A', 'D'] then .Head
  else if m = ascii ['P', 'U', 'T'] then .Put
  else if m = ascii ['D', 'E', 'L', 'E', 'T', 'E'] then .Delete
  else .Invalid

def setMethod (req : HttpRequest) (m : Bytes) : Except HttpFault (Bool × HttpRequest) := do
  check (req.method = .Invalid) .setMethod
  return (decide (methodOf m ≠ .Invalid), { req with method := methodOf m })

def setVersion (req : HttpRequest) (v : Version) : HttpRequest := { req with version := v }
def setPath (req : HttpRequest) (path : Bytes) : HttpRequest := { req with path }
def setQuery (req : HttpRequest) (query : Bytes) : HttpRequest := { req with query }
def setReceiveTime (req : HttpRequest) (t : TimePoint) : HttpRequest := { req with receiveTime := t }

/-- `isspace` of the C locale. -/
def isspace (b : UInt8) : Bool := b = 32 || (9 ≤ b && b ≤ 13)

/-- `addHeader(start, colon, end)`: `field` is `[start, colon)` and `rest` is `[colon + 1, end)`,
whose white space is trimmed on both sides. -/
def addHeader (req : HttpRequest) (field rest : Bytes) : HttpRequest :=
  { req with headers := req.headers.insert field ((rest.dropWhile isspace).rdropWhile isspace) }

def getHeader (req : HttpRequest) (field : Bytes) : Bytes := (req.headers.lookup field).getD []

/-- `swap`. The query is not among the fields it exchanges. -/
def swap (this that : HttpRequest) : HttpRequest × HttpRequest :=
  ({ this with
      method := that.method, version := that.version, path := that.path
      receiveTime := that.receiveTime, headers := that.headers },
   { that with
      method := this.method, version := this.version, path := this.path
      receiveTime := this.receiveTime, headers := this.headers })

/-- The request with its `receiveTime` forgotten. -/
def untimed (req : HttpRequest) : HttpRequest := { req with receiveTime := 0 }

end HttpRequest

end MiniMuduo
