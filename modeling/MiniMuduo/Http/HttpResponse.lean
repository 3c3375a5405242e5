import MiniMuduo.Buffer
import MiniMuduo.Lib.Ordered
import Mathlib.Data.List.Lex

/-!
# `HttpResponse`

A response and its serialisation. The headers are written in the order of the `std::map`, so here
the order of the keys is part of the model. Numbers go through a `char buf[32]` and `snprintf`,
which keeps at most 31 characters.
-/

namespace MiniMuduo

inductive HttpStatusCode where
  | kUnknown
  | k200Ok
  | k301MovedPermanently
  | k400BadRequest
  | k404NotFound
  deriving DecidableEq, Repr

def HttpStatusCode.toNat : HttpStatusCode → ℕ
  | .kUnknown => 0
  | .k200Ok => 200
  | .k301MovedPermanently => 301
  | .k400BadRequest => 400
  | .k404NotFound => 404

structure HttpResponse where
  headers : OrdMap Bytes Bytes
  statusCode : HttpStatusCode
  statusMessage : Bytes
  closeConnection : Bool
  body : Bytes

namespace HttpResponse

/-- `HttpResponse::HttpResponse(bool close)`. -/
def new (close : Bool) : HttpResponse where
  headers := .empty
  statusCode := .kUnknown
  statusMessage := []
  closeConnection := close
  body := []

def addHeader (resp : HttpResponse) (key value : Bytes) : HttpResponse :=
  { resp with headers := resp.headers.insert key value }

/-- The decimal text of a number, as `%d` and `%zd` print it. -/
def decimal (n : ℕ) : Bytes := ascii (Nat.toDigits 10 n)

/-- What `snprintf` leaves in a `char buf[32]`. -/
def snprintf32 (text : Bytes) : Bytes := text.take 31

/-- `"HTTP/1.1 %d"`. -/
def statusLine (resp : HttpResponse) : Bytes :=
  snprintf32 (ascii ['H', 'T', 'T', 'P', '/', '1', '.', '1', ' '] ++ decimal resp.statusCode.toNat)

/-- `"Content-Length: %zd\r\n"`. -/
def contentLength (resp : HttpResponse) : Bytes :=
  snprintf32 (ascii ['C', 'o', 'n', 't', 'e', 'n', 't', '-', 'L', 'e', 'n', 'g', 't', 'h', ':', ' '] ++
    (decimal resp.body.length ++ kCRLF))

/-- `"Connection: close\r\n"`. -/
def connectionClose : Bytes :=
  ascii ['C', 'o', 'n', 'n', 'e', 'c', 't', 'i', 'o', 'n', ':', ' ', 'c', 'l', 'o', 's', 'e'] ++ kCRLF

/-- `"Connection: Keep-Alive\r\n"`. -/
def connectionKeepAlive : Bytes :=
  ascii ['C', 'o', 'n', 'n', 'e', 'c', 't', 'i', 'o', 'n', ':', ' ', 'K', 'e', 'e', 'p', '-',
    'A', 'l', 'i', 'v', 'e'] ++ kCRLF

def appendHeader (output : WfBuffer) (h : Bytes × Bytes) : WfBuffer :=
  (((output.append h.1).append (ascii [':', ' '])).append h.2).append kCRLF

def appendToBuffer (resp : HttpResponse) (output : WfBuffer) : WfBuffer :=
  let output := output.append resp.statusLine
  let output := output.append resp.statusMessage
  let output := output.append kCRLF
  let output :=
    if resp.closeConnection then output.append connectionClose
    else (output.append resp.contentLength).append connectionKeepAlive
  let output := resp.headers.entries.foldl appendHeader output
  let output := output.append kCRLF
  output.append resp.body

/-! ## The text of a response -/

def generatedFields (resp : HttpResponse) : Bytes :=
  if resp.closeConnection then connectionClose else resp.contentLength ++ connectionKeepAlive

def headerLine (h : Bytes × Bytes) : Bytes := h.1 ++ (ascii [':', ' '] ++ (h.2 ++ kCRLF))

/-- The bytes `appendToBuffer` adds. -/
def text (resp : HttpResponse) : Bytes :=
  resp.statusLine ++ (resp.statusMessage ++ (kCRLF ++ (resp.generatedFields ++
    (resp.headers.entries.flatMap headerLine ++ (kCRLF ++ resp.body)))))

theorem readable_foldl_appendHeader :
    ∀ (hs : List (Bytes × Bytes)) (out : WfBuffer),
      (hs.foldl appendHeader out).readable = out.readable ++ hs.flatMap headerLine
  | [], out => by simp
  | h :: hs, out => by
    rw [List.foldl_cons, readable_foldl_appendHeader hs]
    simp [appendHeader, headerLine]

/-- `appendToBuffer` adds `text` at the end of the buffer. -/
theorem readable_appendToBuffer (resp : HttpResponse) (output : WfBuffer) :
    (resp.appendToBuffer output).readable = output.readable ++ resp.text := by
  cases hc : resp.closeConnection <;>
    simp [appendToBuffer, text, generatedFields, readable_foldl_appendHeader, hc]

end HttpResponse

end MiniMuduo
