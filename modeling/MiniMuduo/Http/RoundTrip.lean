import MiniMuduo.Http.Incremental
import Mathlib.Data.Finset.Max

/-!
# Writing a request and reading it back

`writeRequest` is a request as RFC text: the request line, one `field: value` line per header, an
empty line, and whatever follows on the connection. `ReadsBack` says that `parseRequest` undoes it.

It does so exactly when there are no headers. The parser looks for `';'` where the name of its
variable, and the example request in the comment above it, have a colon. A header line without a
semicolon is then taken for the end of the headers and the lines after it are left in the buffer; a
line with one is cut in the wrong place, so that no field of maximal length is ever recorded.
-/

namespace MiniMuduo

open Fallible Search HttpRequest

namespace HttpContext

/-! ## The text of a request -/

def versionText : Version → Bytes
  | .Http10 => httpOneDot ++ ascii ['0']
  | .Http11 => httpOneDot ++ ascii ['1']
  | .Unknown => []

def requestLine (m : Method) (target : Bytes) (v : Version) : Bytes :=
  methodString m ++ SP :: (target ++ SP :: versionText v)

/-- `':'`. -/
def colon : UInt8 := UInt8.ofNat ':'.toNat

def headerLine (h : Bytes × Bytes) : Bytes := h.1 ++ colon :: SP :: h.2

def headerText : List (Bytes × Bytes) → Bytes
  | [] => []
  | h :: hs => headerLine h ++ (kCRLF ++ headerText hs)

def writeRequest (m : Method) (target : Bytes) (v : Version) (headers : List (Bytes × Bytes))
    (rest : Bytes) : Bytes :=
  requestLine m target v ++ (kCRLF ++ (headerText headers ++ (kCRLF ++ rest)))

/-- The value listed last for a field. -/
def lastValue (headers : List (Bytes × Bytes)) (field : Bytes) : Option Bytes :=
  (headers.reverse.find? fun h => h.1 = field).map Prod.snd

/-- A non-empty field without `':'`, CR or LF, and a value without CR or LF and without white space
at either end. -/
structure HeaderOk (h : Bytes × Bytes) : Prop where
  field_ne_nil : h.1 ≠ []
  field_bytes : ∀ b ∈ h.1, b ≠ colon ∧ b ≠ CR ∧ b ≠ LF
  value_bytes : ∀ b ∈ h.2, b ≠ CR ∧ b ≠ LF
  value_head : ∀ b ∈ h.2.head?, isspace b = false
  value_last : ∀ b ∈ h.2.getLast?, isspace b = false

/-- The requests the round trip is about. -/
structure RequestOk (m : Method) (target : Bytes) (v : Version)
    (headers : List (Bytes × Bytes)) : Prop where
  method : m ≠ .Invalid
  target : ∀ b ∈ target, b ≠ SP ∧ b ≠ CR ∧ b ≠ LF
  version : v ≠ .Unknown
  headers : ∀ h ∈ headers, HeaderOk h

/-- `parseRequest`, on a fresh context and a buffer that holds the text of the request and `rest`,
gives back the request and leaves `rest`. -/
def ReadsBack (m : Method) (target : Bytes) (v : Version) (headers : List (Bytes × Bytes))
    (rest : Bytes) : Prop :=
  ∀ (buf : Buffer) (receiveTime : TimePoint), buf.Wf →
    buf.readable = writeRequest m target v headers rest →
    ∃ ctx buf', HttpContext.new.parseRequest buf receiveTime = .ok (true, ctx, buf') ∧
      ctx.state = .GotAll ∧ ctx.request.method = m ∧ ctx.request.version = v ∧
      ctx.request.path = target.takeWhile (· ≠ question) ∧
      ctx.request.query = target.dropWhile (· ≠ question) ∧
      (∀ field, ctx.request.headers.lookup field = lastValue headers field) ∧
      buf'.readable = rest

/-! ## The request line -/

theorem methodOf_methodString {m : Method} (h : m ≠ .Invalid) : methodOf (methodString m) = m := by
  cases m <;> first | exact absurd rfl h | decide

theorem SP_not_mem_methodString (m : Method) : SP ∉ methodString m := by
  cases m <;> decide

theorem CR_not_mem_methodString (m : Method) : CR ∉ methodString m := by
  cases m <;> decide

theorem versionOf_versionText {v : Version} (h : v ≠ .Unknown) :
    versionOf (versionText v) = some v := by
  cases v <;> first | exact absurd rfl h | decide

theorem CR_not_mem_versionText (v : Version) : CR ∉ versionText v := by
  cases v <;> decide

/-- `std::find` for the question mark, against `takeWhile` and `dropWhile`. -/
theorem setTarget_eq (req : HttpRequest) (target : Bytes) (hq : req.query = []) :
    setTarget req target =
      { req with path := target.takeWhile (· ≠ question), query := target.dropWhile (· ≠ question) } := by
  rw [setTarget]
  cases hs : splitFirst question target with
  | none =>
      have hmem := splitFirst_eq_none.mp hs
      have hall : ∀ b ∈ target, (decide (b ≠ question)) = true := by
        intro b hb
        simp only [ne_eq, decide_eq_true_eq]
        exact fun he => hmem (he ▸ hb)
      simp only [List.takeWhile_eq_self_iff.mpr hall, List.dropWhile_eq_nil_iff.mpr hall, setPath]
      rw [← hq]
  | some p =>
      obtain ⟨path, query⟩ := p
      obtain ⟨rfl, hmem⟩ := splitFirst_eq_some.mp hs
      have hall : ∀ b ∈ path, (decide (b ≠ question)) = true := by
        intro b hb
        simp only [ne_eq, decide_eq_true_eq]
        exact fun he => hmem (he ▸ hb)
      simp only [setPath, setQuery]
      rw [List.takeWhile_append_of_pos hall, List.dropWhile_append_of_pos hall]
      simp

/-- The request a well-formed request line leaves in a fresh context. -/
def lineRequest (m : Method) (target : Bytes) (v : Version) : HttpRequest :=
  { HttpRequest.new with
    method := m
    version := v
    path := target.takeWhile (· ≠ question)
    query := target.dropWhile (· ≠ question) }

theorem processRequestLine_requestLine {ctx : HttpContext} {m : Method} {target : Bytes}
    {v : Version} (hfresh : ctx.request = .new) (hm : m ≠ .Invalid) (ht : SP ∉ target)
    (hv : v ≠ .Unknown) :
    ctx.processRequestLine (requestLine m target v) =
      .ok (true, { ctx with request := lineRequest m target v }) := by
  have hs₁ : splitFirst SP (requestLine m target v) = some (methodString m, _) :=
    splitFirst_eq_some.mpr ⟨rfl, SP_not_mem_methodString m⟩
  have hs₂ : splitFirst SP (target ++ SP :: versionText v) = some (target, versionText v) :=
    splitFirst_eq_some.mpr ⟨rfl, ht⟩
  have htarget := setTarget_eq { HttpRequest.new with method := m } target rfl
  simp only [processRequestLine, hs₁, hs₂, hfresh, HttpRequest.setMethod,
    methodOf_methodString hm, versionOf_versionText hv]
  simp only [HttpRequest.new, check_of_pos, ok_bind, pure_eq_ok, hm, ne_eq,
    not_false_eq_true, decide_true, if_true] at htarget ⊢
  rw [htarget]
  rfl

theorem cutLine_of_not_mem {line : Bytes} (h : CR ∉ line) (rest : Bytes) :
    cutLine (line ++ (kCRLF ++ rest)) = some (line, rest) := by
  rw [cutLine, kCRLF, search_append_of_not_mem rest h, Option.map_some, List.take_left,
    List.drop_append]
  simp

theorem CR_not_mem_requestLine {m : Method} {target : Bytes} {v : Version} (ht : CR ∉ target) :
    CR ∉ requestLine m target v := by
  have hsp : CR ≠ SP := by decide
  simp [requestLine, CR_not_mem_methodString, ht, CR_not_mem_versionText, hsp]

/-- The context after the request line. -/
def headerContext (m : Method) (target : Bytes) (v : Version) : HttpContext :=
  ⟨.ExpectHeaders, lineRequest m target v⟩

theorem drive_requestLine {m : Method} {target : Bytes} {v : Version}
    {headers : List (Bytes × Bytes)} (h : RequestOk m target v headers) (rest : Bytes) :
    parser.drive new (requestLine m target v ++ (kCRLF ++ rest)) =
      parser.drive (headerContext m target v) rest := by
  have hsp : SP ∉ target := fun hb => (h.target _ hb).1 rfl
  have hcr : CR ∉ target := fun hb => (h.target _ hb).2.1 rfl
  refine drive_of_line_next (.inl rfl) (cutLine_of_not_mem (CR_not_mem_requestLine hcr) rest) ?_
  have hline : new.processRequestLine (requestLine m target v) = _ :=
    processRequestLine_requestLine rfl h.method hsp h.version
  simp only [onLine, hline]
  rfl

/-! ## The header lines -/

theorem CR_not_mem_headerLine {h : Bytes × Bytes} (hok : HeaderOk h) : CR ∉ headerLine h := by
  have hc : CR ≠ colon := by decide
  have hsp : CR ≠ SP := by decide
  have hf : CR ∉ h.1 := fun hb => (hok.field_bytes _ hb).2.1 rfl
  have hv : CR ∉ h.2 := fun hb => (hok.value_bytes _ hb).1 rfl
  simp [headerLine, hc, hsp, hf, hv]

/-- Where a semicolon cuts a header line: before the end of the field, or after the colon. -/
theorem splitFirst_headerLine {h : Bytes × Bytes} {key rest : Bytes}
    (hs : splitFirst colonByte (headerLine h) = some (key, rest)) :
    key.length < h.1.length ∨ colon ∈ key := by
  obtain ⟨heq, -⟩ := splitFirst_eq_some.mp hs
  have hne : colon ≠ colonByte := by decide
  rcases List.append_eq_append_iff.mp heq with ⟨a, ha, hb⟩ | ⟨a, ha, hb⟩
  · right
    cases a with
    | nil => exact absurd (List.cons.inj hb).1 hne
    | cons x xs =>
        obtain ⟨rfl, -⟩ := List.cons.inj hb
        rw [ha]
        simp
  · left
    cases a with
    | nil => exact absurd (List.cons.inj hb).1.symm hne
    | cons x xs =>
        rw [ha]
        simp

/-- How parsing the header lines ends, in the two ways it can: at a line without a semicolon,
leaving more than `rest` in the buffer, or at the empty line, with keys that are cut too short or
contain a colon. -/
theorem drive_headerText (rest : Bytes) (hs : List (Bytes × Bytes)) (ctx : HttpContext)
    (hst : ctx.state = .ExpectHeaders) (hok : ∀ h ∈ hs, HeaderOk h) :
    ∃ ctx' r, parser.drive ctx (headerText hs ++ (kCRLF ++ rest)) = .done (.ok true) ctx' r ∧
      (rest.length < r.length ∨
        r = rest ∧ ∀ key ∈ ctx'.request.headers, key ∈ ctx.request.headers ∨
          ∃ h ∈ hs, key.length < h.1.length ∨ colon ∈ key) := by
  induction hs generalizing ctx with
  | nil =>
      refine ⟨{ ctx with state := .GotAll }, rest, ?_, .inr ⟨rfl, fun key hk => .inl hk⟩⟩
      refine drive_of_line_stop (.inr hst) (cutLine_of_not_mem List.not_mem_nil rest) ?_
      simp [onLine, hst, splitFirst]
  | cons h hs ih =>
      have hcr := CR_not_mem_headerLine (hok h List.mem_cons_self)
      have hcut := cutLine_of_not_mem hcr (headerText hs ++ (kCRLF ++ rest))
      have happ : headerText (h :: hs) ++ (kCRLF ++ rest) =
          headerLine h ++ (kCRLF ++ (headerText hs ++ (kCRLF ++ rest))) := by
        simp [headerText]
      rw [happ]
      cases hsp : splitFirst colonByte (headerLine h) with
      | none =>
          refine ⟨{ ctx with state := .GotAll }, _, drive_of_line_stop (.inr hst) hcut ?_, .inl ?_⟩
          · simp [onLine, hst, hsp]
          · simp only [List.length_append, kCRLF, List.length_cons]
            omega
      | some p =>
          obtain ⟨key, value⟩ := p
          have hnext : ctx.onLine (headerLine h) =
              .next { ctx with request := ctx.request.addHeader key value } := by
            simp [onLine, hst, hsp]
          rw [drive_of_line_next (.inr hst) hcut hnext]
          obtain ⟨ctx', r, hd, hend⟩ := ih { ctx with request := ctx.request.addHeader key value }
            hst fun h' hh' => hok h' (List.mem_cons_of_mem _ hh')
          refine ⟨ctx', r, hd, hend.imp_right fun hrest => ⟨hrest.1, fun k hk => ?_⟩⟩
          rcases hrest.2 k hk with hk' | ⟨h', hh', hcase⟩
          · rw [HttpRequest.addHeader, Finmap.mem_insert] at hk'
            rcases hk' with rfl | hk'
            · exact .inr ⟨h, List.mem_cons_self, splitFirst_headerLine hsp⟩
            · exact .inl hk'
          · exact .inr ⟨h', List.mem_cons_of_mem _ hh', hcase⟩

theorem lastValue_isSome {headers : List (Bytes × Bytes)} {h : Bytes × Bytes} (hmem : h ∈ headers) :
    (lastValue headers h.1).isSome := by
  rw [lastValue, Option.isSome_map, List.find?_isSome]
  exact ⟨h, by simpa using hmem, by simp⟩

/-! ## The round trip -/

/-- The end of `parseRequest` on the text of a request. -/
theorem parseRequest_writeRequest {m : Method} {target : Bytes} {v : Version}
    {headers : List (Bytes × Bytes)} {rest : Bytes} (h : RequestOk m target v headers)
    {buf : Buffer} (hwf : buf.Wf) (hbuf : buf.readable = writeRequest m target v headers rest)
    (t : TimePoint) {ctx : HttpContext} {r : Bytes}
    (hd : parser.drive (headerContext m target v) (headerText headers ++ (kCRLF ++ rest)) =
      .done (.ok true) ctx r) :
    ∃ ctx' buf', new.parseRequest buf t = .ok (true, ctx', buf') ∧ ctx'.untimed = ctx ∧
      buf'.readable = r := by
  have hagree := new.parseRequest_agrees hwf t
  have hdrive := drive_requestLine h (headerText headers ++ (kCRLF ++ rest))
  rw [hbuf, show new.untimed = new from rfl, writeRequest, hdrive, hd] at hagree
  obtain ⟨ctx', buf', hres, hctx, -, hr⟩ := hagree
  exact ⟨ctx', buf', hres, hctx, hr⟩

theorem readsBack_of_no_headers {m : Method} {target : Bytes} {v : Version}
    (h : RequestOk m target v []) (rest : Bytes) : ReadsBack m target v [] rest := by
  intro buf t hwf hbuf
  have hd : parser.drive (headerContext m target v) (headerText [] ++ (kCRLF ++ rest)) =
      .done (.ok true) { headerContext m target v with state := .GotAll } rest := by
    refine drive_of_line_stop (.inr rfl) (cutLine_of_not_mem List.not_mem_nil rest) ?_
    simp [onLine, headerContext, splitFirst]
  obtain ⟨ctx', buf', hres, hctx, hr⟩ := parseRequest_writeRequest h hwf hbuf t hd
  have hreq : ctx'.request.untimed = lineRequest m target v := congrArg (·.request) hctx
  refine ⟨ctx', buf', hres, congrArg (·.state) hctx, ?_, ?_, ?_, ?_, ?_, hr⟩
  · exact congrArg HttpRequest.method hreq
  · exact congrArg HttpRequest.version hreq
  · exact congrArg HttpRequest.path hreq
  · exact congrArg HttpRequest.query hreq
  · intro field
    have hh : ctx'.request.headers = ∅ := congrArg HttpRequest.headers hreq
    rw [hh, lastValue]
    simp

theorem not_readsBack_of_headers {m : Method} {target : Bytes} {v : Version}
    {headers : List (Bytes × Bytes)} (h : RequestOk m target v headers) (hne : headers ≠ [])
    (rest : Bytes) : ¬ ReadsBack m target v headers rest := by
  intro hback
  obtain ⟨buf, -, hwf, hread⟩ := Buffer.wf_new.append (writeRequest m target v headers rest)
  rw [Buffer.readable_new, List.nil_append] at hread
  obtain ⟨ctx, r, hd, hend⟩ := drive_headerText rest headers (headerContext m target v) rfl h.headers
  obtain ⟨ctx₁, buf₁, hres₁, hctx₁, hr₁⟩ := parseRequest_writeRequest h hwf hread 0 hd
  obtain ⟨ctx₂, buf₂, hres₂, -, -, -, -, -, hheaders, hr₂⟩ := hback buf 0 hwf hread
  rw [hres₁, Except.ok.injEq, Prod.mk.injEq, Prod.mk.injEq] at hres₂
  obtain ⟨-, rfl, rfl⟩ := hres₂
  rcases hend with hlong | ⟨-, hkeys⟩
  · rw [← hr₁, hr₂] at hlong
    omega
  · -- a field of maximal length would have to be a key, and no key is that long
    obtain ⟨longest, hmem, hmax⟩ := headers.toFinset.exists_max_image (fun h => h.1.length)
      (List.toFinset_nonempty_iff _ |>.mpr hne)
    simp only [List.mem_toFinset] at hmem hmax
    have hkey : longest.1 ∈ ctx₁.request.headers := by
      rw [← Finmap.lookup_isSome, hheaders]
      exact lastValue_isSome hmem
    have hhead : ctx₁.request.headers = ctx.request.headers := hctx₁ ▸ rfl
    rw [hhead] at hkey
    rcases hkeys _ hkey with hnone | ⟨h', hh', hshort | hcolon⟩
    · exact Finmap.notMem_empty hnone
    · have := hmax h' hh'
      omega
    · exact ((h.headers longest hmem).field_bytes _ hcolon).1 rfl

/-- **When parsing undoes writing**: exactly for requests without headers. -/
theorem readsBack_iff {m : Method} {target : Bytes} {v : Version} {headers : List (Bytes × Bytes)}
    (h : RequestOk m target v headers) (rest : Bytes) :
    ReadsBack m target v headers rest ↔ headers = [] := by
  constructor
  · intro hback
    by_contra hne
    exact not_readsBack_of_headers h hne rest hback
  · rintro rfl
    exact readsBack_of_no_headers h rest

theorem readsBack_iff_plain_get :
    RequestOk .Get (ascii ['/', '?', 'a']) .Http11 [] ∧
      (ReadsBack .Get (ascii ['/', '?', 'a']) .Http11 [] (ascii ['x']) ↔
        ([] : List (Bytes × Bytes)) = []) :=
  have h : RequestOk .Get (ascii ['/', '?', 'a']) .Http11 [] :=
    ⟨by decide, by decide +kernel, by decide, by simp⟩
  ⟨h, readsBack_iff h (ascii ['x'])⟩

/-- `GET / HTTP/1.1` with the one header `Host: a`: the header line is taken for the end of the
headers, so the header is lost and the empty line stays in the buffer. -/
theorem host_header_not_read_back :
    RequestOk .Get (ascii ['/']) .Http11 [(ascii ['H', 'o', 's', 't'], ascii ['a'])] ∧
      ¬ ReadsBack .Get (ascii ['/']) .Http11 [(ascii ['H', 'o', 's', 't'], ascii ['a'])] [] := by
  have h : RequestOk .Get (ascii ['/']) .Http11
      [(ascii ['H', 'o', 's', 't'], ascii ['a'])] := by
    refine ⟨by decide, by decide +kernel, by decide, ?_⟩
    simp only [List.mem_singleton, forall_eq]
    exact ⟨by decide +kernel, by decide +kernel, by decide +kernel, by decide +kernel,
      by decide +kernel⟩
  exact ⟨h, not_readsBack_of_headers h (by simp) []⟩

end HttpContext

end MiniMuduo
