import MiniMuduo.Http.RequestLine

/-!
# Where a request ends

A request is a request line, header lines and an empty line. `parseRequest` does not look for the
empty line: it takes the first line without a separator for the end of the headers. That is the empty
line unless a header line has no `';'`, which is the byte the source compares with under the name
`colon`. Such a line is swallowed, and the lines after it stay in the buffer, where the next call
reads them as a request line.

`endsAtEmptyLine_iff` says that nothing else goes wrong: for every stream and every cutting of it, the
request ends at its empty line exactly when no such line stands among its headers.
-/

namespace MiniMuduo

open Fallible Search HttpRequest

namespace HttpContext

variable {ctx s : HttpContext} {b r line rest : Bytes} {lines : List Bytes}

/-! ## Lines -/

/-- No CRLF inside. -/
def IsLine (line : Bytes) : Prop := ¬ kCRLF <:+: line

instance (line : Bytes) : Decidable (IsLine line) := inferInstanceAs (Decidable (¬ _))

/-- Each line with its CRLF. -/
def lineText (lines : List Bytes) : Bytes := lines.flatMap fun line => line ++ kCRLF

theorem cutLine_of_isLine (h : IsLine line) (rest : Bytes) :
    cutLine (line ++ (kCRLF ++ rest)) = some (line, rest) := by
  have hs : search kCRLF (line ++ (kCRLF ++ rest)) = some line.length :=
    search_pair_append (by decide) rest h
  rw [cutLine, hs, Option.map_some, List.take_left, List.drop_append]
  simp [kCRLF]

theorem isLine_of_cutLine (h : cutLine b = some (line, rest)) : IsLine line := by
  obtain ⟨i, hi, he⟩ := Option.map_eq_some_iff.mp h
  cases he
  exact not_infix_take_of_search (by decide) hi

theorem lineText_cons (line : Bytes) (lines : List Bytes) (rest : Bytes) :
    lineText (line :: lines) ++ rest = line ++ (kCRLF ++ (lineText lines ++ rest)) := by
  simp [lineText]

/-- The lines up to the first one without a separator are the only ones. -/
theorem firstBare_unique {lines₁ lines₂ : List Bytes} {bare₁ bare₂ rest₁ rest₂ : Bytes}
    (h₁ : ∀ l ∈ lines₁, IsLine l ∧ colonByte ∈ l) (h₂ : ∀ l ∈ lines₂, IsLine l ∧ colonByte ∈ l)
    (hb₁ : IsLine bare₁ ∧ colonByte ∉ bare₁) (hb₂ : IsLine bare₂ ∧ colonByte ∉ bare₂)
    (h : lineText lines₁ ++ (bare₁ ++ (kCRLF ++ rest₁)) =
      lineText lines₂ ++ (bare₂ ++ (kCRLF ++ rest₂))) : bare₁ = bare₂ := by
  induction lines₁ generalizing lines₂ with
  | nil =>
      have hcut₁ := cutLine_of_isLine hb₁.1 rest₁
      rw [lineText, List.flatMap_nil, List.nil_append] at h
      cases lines₂ with
      | nil =>
          rw [lineText, List.flatMap_nil, List.nil_append] at h
          rw [h, cutLine_of_isLine hb₂.1] at hcut₁
          cases hcut₁
          rfl
      | cons l lines₂ =>
          rw [lineText_cons] at h
          rw [h, cutLine_of_isLine (h₂ l (by simp)).1] at hcut₁
          cases hcut₁
          exact absurd (h₂ _ (by simp)).2 hb₁.2
  | cons l₁ lines₁ ih =>
      have hcut₁ := cutLine_of_isLine (h₁ l₁ (by simp)).1
        (lineText lines₁ ++ (bare₁ ++ (kCRLF ++ rest₁)))
      rw [lineText_cons] at h
      rw [h] at hcut₁
      cases lines₂ with
      | nil =>
          rw [lineText, List.flatMap_nil, List.nil_append, cutLine_of_isLine hb₂.1] at hcut₁
          cases hcut₁
          exact absurd (h₁ _ (by simp)).2 hb₂.2
      | cons l₂ lines₂ =>
          rw [lineText_cons, cutLine_of_isLine (h₂ l₂ (by simp)).1, Option.some.injEq,
            Prod.mk.injEq] at hcut₁
          exact ih (fun l hl => h₁ l (by simp [hl])) (fun l hl => h₂ l (by simp [hl])) hcut₁.2.symm

/-! ## What a call reads -/

/-- The request with the header of one more line, if the line has a separator. -/
def addLine (req : HttpRequest) (line : Bytes) : Option HttpRequest :=
  (splitFirst colonByte line).map fun p => req.addHeader p.1 p.2

theorem addLine_isSome (req : HttpRequest) : (addLine req line).isSome ↔ colonByte ∈ line := by
  rw [addLine, Option.isSome_map, ← Option.ne_none_iff_isSome, ne_eq, splitFirst_eq_none, not_not]

theorem onLine_of_addLine {req : HttpRequest} (hst : ctx.state = .ExpectHeaders)
    (h : addLine ctx.request line = some req) :
    ctx.onLine line = .next ⟨.ExpectHeaders, req⟩ := by
  obtain ⟨p, hp, rfl⟩ := Option.map_eq_some_iff.mp h
  simp [onLine, hst, hp]

theorem onLine_of_bare (hst : ctx.state = .ExpectHeaders) (h : colonByte ∉ line) :
    ctx.onLine line = .stop (.ok true) ⟨.GotAll, ctx.request⟩ := by
  simp [onLine, hst, splitFirst_eq_none.mpr h]

/-- The lines with a separator are recorded one by one; the first line without one ends the
request. -/
theorem drive_lines {req : HttpRequest} {bare : Bytes} (hlines : ∀ l ∈ lines, IsLine l)
    (hst : ctx.state = .ExpectHeaders) (hreq : lines.foldlM addLine ctx.request = some req)
    (hbare : IsLine bare ∧ colonByte ∉ bare) (rest : Bytes) :
    parser.drive ctx (lineText lines ++ (bare ++ (kCRLF ++ rest))) =
      .done (.ok true) ⟨.GotAll, req⟩ rest := by
  induction lines generalizing ctx with
  | nil =>
      cases hreq
      exact drive_of_line_stop (.inr hst) (cutLine_of_isLine hbare.1 rest)
        (onLine_of_bare hst hbare.2)
  | cons l lines ih =>
      rw [List.foldlM_cons] at hreq
      obtain ⟨req₁, hreq₁, hreq⟩ := Option.bind_eq_some_iff.mp hreq
      rw [lineText_cons, drive_of_line_next (.inr hst)
        (cutLine_of_isLine (hlines l (by simp)) _) (onLine_of_addLine hst hreq₁)]
      exact ih (fun l hl => hlines l (by simp [hl])) rfl hreq

/-- A call that ends among the headers read lines that it recorded and one without a separator. -/
theorem lines_of_drive {x : Except HttpFault Bool} (hst : ctx.state = .ExpectHeaders)
    (h : parser.drive ctx b = .done x s r) :
    ∃ lines bare, (∀ l ∈ lines, IsLine l) ∧ lines.foldlM addLine ctx.request = some s.request ∧
      (IsLine bare ∧ colonByte ∉ bare) ∧ b = lineText lines ++ (bare ++ (kCRLF ++ r)) := by
  revert hst h
  refine parser.drive_induction (P := fun ctx b => ctx.state = .ExpectHeaders →
    parser.drive ctx b = .done x s r → ∃ lines bare, (∀ l ∈ lines, IsLine l) ∧
      lines.foldlM addLine ctx.request = some s.request ∧
      (IsLine bare ∧ colonByte ∉ bare) ∧ b = lineText lines ++ (bare ++ (kCRLF ++ r)))
    ?wait ?halt ?next ctx b
  case wait =>
    intro ctx b ht _ h
    rw [parser.drive_of_wait ht] at h
    cases h
  case halt =>
    intro ctx b y ctx' r' ht hst h
    rw [parser.drive_of_halt ht] at h
    cases h
    change parseTurn ctx b = _ at ht
    cases hcut : cutLine b with
    | none => simp [parseTurn_of_none (.inr hst) hcut] at ht
    | some p =>
        obtain ⟨line, rest⟩ := p
        rw [parseTurn_of_cutLine (.inr hst) hcut] at ht
        cases hl : addLine ctx.request line with
        | some req =>
            rw [onLine_of_addLine hst hl] at ht
            cases ht
        | none =>
            have hbare : colonByte ∉ line := by
              rw [← addLine_isSome ctx.request, hl]
              simp
            rw [onLine_of_bare hst hbare] at ht
            cases ht
            exact ⟨[], line, by simp, rfl, ⟨isLine_of_cutLine hcut, hbare⟩, (cutLine_eq_some hcut).1⟩
  case next =>
    intro ctx b ctx' r' ht ih hst h
    rw [parser.drive_of_next ht] at h
    obtain ⟨-, line, hcut, hl⟩ := parseTurn_eq_next.mp ht
    cases hadd : addLine ctx.request line with
    | none =>
        have hbare : colonByte ∉ line := by
          rw [← addLine_isSome ctx.request, hadd]
          simp
        rw [onLine_of_bare hst hbare] at hl
        cases hl
    | some req =>
        rw [onLine_of_addLine hst hadd] at hl
        cases hl
        obtain ⟨lines, bare, hlines, hreq, hbare, rfl⟩ := ih rfl h
        refine ⟨line :: lines, bare, ?_, ?_, hbare, ?_⟩
        · simp only [List.mem_cons, forall_eq_or_imp]
          exact ⟨isLine_of_cutLine hcut, hlines⟩
        · rw [List.foldlM_cons, hadd]
          exact hreq
        · rw [lineText_cons]
          exact (cutLine_eq_some hcut).1

theorem mem_of_foldlM_addLine {req req' : HttpRequest}
    (h : lines.foldlM addLine req = some req') : ∀ l ∈ lines, colonByte ∈ l := by
  induction lines generalizing req with
  | nil => simp
  | cons l lines ih =>
      rw [List.foldlM_cons] at h
      obtain ⟨req₁, hreq₁, h⟩ := Option.bind_eq_some_iff.mp h
      simp only [List.mem_cons, forall_eq_or_imp]
      refine ⟨?_, ih h⟩
      rw [← addLine_isSome req, hreq₁]
      rfl

theorem exists_foldlM_addLine (h : ∀ l ∈ lines, colonByte ∈ l) (req : HttpRequest) :
    ∃ req', lines.foldlM addLine req = some req' := by
  induction lines generalizing req with
  | nil => exact ⟨req, rfl⟩
  | cons l lines ih =>
      obtain ⟨req₁, hreq₁⟩ := Option.isSome_iff_exists.mp
        ((addLine_isSome req).mpr (h l (by simp)))
      obtain ⟨req', hreq'⟩ := ih (fun l hl => h l (by simp [hl])) req₁
      refine ⟨req', ?_⟩
      rw [List.foldlM_cons, hreq₁]
      exact hreq'

/-! ## What is recorded of a header line -/

/-- A header line with its field, which ends at the separator, and its value, without the white space
around it. -/
structure HeaderLine where
  line : Bytes
  field : Bytes
  value : Bytes
  sep_notMem : colonByte ∉ field
  line_eq : ∃ before after, line = field ++ colonByte :: (before ++ (value ++ after)) ∧
    (∀ b ∈ before, isspace b) ∧ ∀ b ∈ after, isspace b
  first : ∀ b ∈ value.head?, ¬ isspace b
  last : ∀ b ∈ value.getLast?, ¬ isspace b

namespace HeaderLine

def entry (h : HeaderLine) : Bytes × Bytes := (h.field, h.value)

theorem sep_mem (h : HeaderLine) : colonByte ∈ h.line := by
  obtain ⟨before, after, heq, -, -⟩ := h.line_eq
  simp [heq]

/-- What `addHeader` makes of a line with a separator. -/
def ofSplit {field rest : Bytes} (h : splitFirst colonByte line = some (field, rest)) :
    HeaderLine where
  line := line
  field := field
  value := (rest.dropWhile isspace).rdropWhile isspace
  sep_notMem := (splitFirst_eq_some.mp h).2
  line_eq := by
    refine ⟨rest.takeWhile isspace, (rest.dropWhile isspace).rtakeWhile isspace, ?_,
      fun b hb => List.mem_takeWhile_imp hb, fun b hb => List.mem_rtakeWhile_imp hb⟩
    rw [List.rdropWhile_append_rtakeWhile, List.takeWhile_append_dropWhile]
    exact (splitFirst_eq_some.mp h).1
  first b hb := by
    -- the first byte of the value is the first one after the white space
    obtain ⟨tail, htail⟩ := List.rdropWhile_prefix isspace (rest.dropWhile isspace)
    have hfirst : (rest.dropWhile isspace).head? = some b := by
      rw [← htail, List.head?_append, Option.mem_def.mp hb, Option.some_or]
    have hnot := List.head?_dropWhile_not isspace rest
    rw [hfirst] at hnot
    simpa using hnot
  last b hb := by
    obtain ⟨hne, rfl⟩ := List.mem_getLast?_eq_getLast hb
    exact List.rdropWhile_last_not isspace _ hne

end HeaderLine

/-- `headers_` after these lines: for each field the value of the last line with it, or what was there
before. -/
theorem recorded_of_foldlM_addLine {req req' : HttpRequest}
    (h : lines.foldlM addLine req = some req') :
    ∃ hs : List HeaderLine, lines = hs.map HeaderLine.line ∧
      req' = { req with headers := req'.headers } ∧
      ∀ field, req'.headers.lookup field =
        ((hs.map HeaderLine.entry).reverse.lookup field).or (req.headers.lookup field) := by
  induction lines generalizing req with
  | nil =>
      cases h
      exact ⟨[], rfl, rfl, fun field => rfl⟩
  | cons l lines ih =>
      rw [List.foldlM_cons] at h
      obtain ⟨req₁, hreq₁, h⟩ := Option.bind_eq_some_iff.mp h
      obtain ⟨⟨f, rest⟩, hsplit, rfl⟩ := Option.map_eq_some_iff.mp hreq₁
      obtain ⟨hs, rfl, hsame, hlookup⟩ := ih h
      refine ⟨.ofSplit hsplit :: hs, rfl, hsame, fun field => ?_⟩
      rw [hlookup, List.map_cons, List.reverse_cons, List.lookup_append, Option.or_assoc]
      congr 1
      by_cases hf : field = f
      · subst hf
        simp [addHeader, HeaderLine.entry, HeaderLine.ofSplit]
      · have hne : (field == f) = false := by simpa using hf
        simp [addHeader, HeaderLine.entry, HeaderLine.ofSplit, Finmap.lookup_insert_of_ne _ hf,
          hne]

/-! ## A whole request -/

/-- A request line, header lines and an empty line; and `headers_` has the fields of these header
lines and no others, each with the value of the last line that has it. -/
def Framed (consumed : Bytes) (req : HttpRequest) : Prop :=
  ∃ line m target v, ∃ hs : List HeaderLine, IsRequestLine line m target v ∧ IsLine line ∧
    (∀ h ∈ hs, h.line ≠ [] ∧ IsLine h.line) ∧
    req.untimed = { lineRequest m target v with headers := req.headers } ∧
    (∀ field, req.headers.lookup field = (hs.map HeaderLine.entry).reverse.lookup field) ∧
    consumed = line ++ (kCRLF ++ (lineText (hs.map HeaderLine.line) ++ kCRLF))

/-- If the chunks complete a request, what was consumed for it is framed, and what comes after is
left. -/
def EndsAtEmptyLine (chunks : List (Bytes × TimePoint)) : Prop :=
  ∃ ok ctx buf later, parseChunks .new .new chunks = .ok (ok, ctx, buf, later) ∧
    (ctx.state = .GotAll → ∃ consumed,
      (chunks.map Prod.fst).flatten = consumed ++ (buf.readable ++ later) ∧
      Framed consumed ctx.request)

/-- The stream is an accepted request line, lines with a separator, and a line that has none but is
not empty. -/
def SwallowsHeader (stream : Bytes) : Prop :=
  ∃ line m target v lines bare rest, IsRequestLine line m target v ∧ IsLine line ∧
    (∀ l ∈ lines, IsLine l ∧ colonByte ∈ l) ∧ (IsLine bare ∧ colonByte ∉ bare) ∧ bare ≠ [] ∧
    stream = line ++ (kCRLF ++ (lineText lines ++ (bare ++ (kCRLF ++ rest))))

/-- After an accepted request line the headers are read. -/
theorem drive_new_requestLine {m : Method} {target : Bytes} {v : Version}
    (h : IsRequestLine line m target v) (hcut : cutLine b = some (line, rest)) :
    parser.drive new b = parser.drive (headerContext m target v) rest := by
  refine drive_of_line_next (.inl rfl) hcut ?_
  have hp : new.processRequestLine line = _ := h.processRequestLine rfl
  simp only [onLine, hp]
  rfl

/-- A call that completes a request got past its request line. -/
theorem requestLine_of_drive_new (h : parser.drive new b = .done (.ok true) s r) :
    ∃ line m target v rest, IsRequestLine line m target v ∧ cutLine b = some (line, rest) ∧
      parser.drive (headerContext m target v) rest = .done (.ok true) s r := by
  have he : new.ExpectsLine := .inl rfl
  have hfresh : new.request.method = .Invalid := rfl
  cases hcut : cutLine b with
  | none =>
      rw [parser.drive_of_wait (parseTurn_of_none he hcut)] at h
      cases h
  | some p =>
      obtain ⟨line, rest⟩ := p
      obtain ⟨ok, ctx', hp, -⟩ := processRequestLine_of_invalid hfresh line
      cases ok with
      | false =>
          have hturn : parser.turn new b = _ := parseTurn_of_cutLine he hcut
          rw [onLine, hp] at hturn
          rw [parser.drive_of_halt hturn] at h
          cases h
      | true =>
          obtain ⟨m, target, v, hline⟩ := isRequestLine_of_processRequestLine hp
          rw [drive_new_requestLine hline hcut] at h
          exact ⟨line, m, target, v, rest, hline, rfl, h⟩

/-- What a call that completes a request has read. -/
theorem lines_of_drive_new (h : parser.drive new b = .done (.ok true) s r) :
    ∃ line m target v lines bare, IsRequestLine line m target v ∧ IsLine line ∧
      (∀ l ∈ lines, IsLine l ∧ colonByte ∈ l) ∧ (IsLine bare ∧ colonByte ∉ bare) ∧
      lines.foldlM addLine (lineRequest m target v) = some s.request ∧
      b = line ++ (kCRLF ++ (lineText lines ++ (bare ++ (kCRLF ++ r)))) := by
  obtain ⟨line, m, target, v, rest, hline, hcut, hd⟩ := requestLine_of_drive_new h
  obtain ⟨lines, bare, hlines, hreq, hbare, rfl⟩ := lines_of_drive rfl hd
  have hsep := mem_of_foldlM_addLine hreq
  exact ⟨line, m, target, v, lines, bare, hline, isLine_of_cutLine hcut,
    fun l hl => ⟨hlines l hl, hsep l hl⟩, hbare, hreq, (cutLine_eq_some hcut).1⟩

/-- How the chunks can end: in `GotAll` exactly where the machine completes the request. -/
theorem parseChunks_new_cases (chunks : List (Bytes × TimePoint)) :
    ∃ ok ctx buf later, parseChunks .new .new chunks = .ok (ok, ctx, buf, later) ∧
      (ctx.state = .GotAll → parser.drive new (chunks.map Prod.fst).flatten =
        .done (.ok true) ctx.untimed (buf.readable ++ later)) ∧
      (∀ s r, parser.drive new (chunks.map Prod.fst).flatten = .done (.ok true) s r →
        ctx.state = .GotAll) := by
  have hagree := parseChunks_new_agree chunks
  have hends := ready_new.drive (chunks.map Prod.fst).flatten
  cases hd : parser.drive new (chunks.map Prod.fst).flatten with
  | pending c r =>
      rw [hd] at hagree hends
      obtain ⟨ctx, buf, later, hres, rfl, -⟩ := hagree
      refine ⟨true, ctx, buf, later, hres, ?_, by simp⟩
      have hready : ctx.untimed.Ready := hends
      have hst := hready.expectsLine
      simp only [ExpectsLine, untimed_state] at hst
      rcases hst with hst | hst <;> simp [hst]
  | done x c r =>
      rw [hd] at hagree hends
      cases x with
      | error e => exact absurd hends id
      | ok ok =>
          obtain ⟨ctx, buf, later, hres, rfl, rfl⟩ := hagree
          refine ⟨ok, ctx, buf, later, hres, ?_⟩
          have hst : ctx.state = _ := hends
          cases ok <;> simp [hst]

/-- Without such a line the first line without a separator is the empty one. -/
theorem endsAtEmptyLine_of_not_swallows {chunks : List (Bytes × TimePoint)}
    (h : ¬ SwallowsHeader (chunks.map Prod.fst).flatten) : EndsAtEmptyLine chunks := by
  obtain ⟨ok, ctx, buf, later, hres, hgot, -⟩ := parseChunks_new_cases chunks
  refine ⟨ok, ctx, buf, later, hres, fun hst => ?_⟩
  obtain ⟨line, m, target, v, lines, bare, hline, hisline, hlines, hbare, hreq, hstream⟩ :=
    lines_of_drive_new (hgot hst)
  have hempty : bare = [] := by
    by_contra hne
    exact h ⟨line, m, target, v, lines, bare, _, hline, hisline, hlines, hbare, hne, hstream⟩
  subst hempty
  obtain ⟨hs, rfl, hsame, hlookup⟩ := recorded_of_foldlM_addLine hreq
  refine ⟨_, ?_, line, m, target, v, hs, hline, hisline, ?_, hsame, ?_, rfl⟩
  · rw [hstream]
    simp
  · intro h hh
    have hmem := hlines h.line (List.mem_map_of_mem hh)
    exact ⟨List.ne_nil_of_mem hmem.2, hmem.1⟩
  · intro field
    have hnone : (lineRequest m target v).headers.lookup field = none := Finmap.lookup_empty field
    exact (hlookup field).trans (by rw [hnone, Option.or_none])

/-- A line without a separator ends the request although it is not empty. -/
theorem not_endsAtEmptyLine_of_swallows {chunks : List (Bytes × TimePoint)}
    (h : SwallowsHeader (chunks.map Prod.fst).flatten) : ¬ EndsAtEmptyLine chunks := by
  rintro ⟨ok, ctx, buf, later, hres, hframed⟩
  obtain ⟨ok', ctx', buf', later', hres', -, hgot⟩ := parseChunks_new_cases chunks
  rw [hres] at hres'
  cases hres'
  obtain ⟨line, m, target, v, lines, bare, rest, hline, hisline, hlines, hbare, hne, hstream⟩ := h
  have hcut := cutLine_of_isLine hisline (lineText lines ++ (bare ++ (kCRLF ++ rest)))
  obtain ⟨req, hreq⟩ := exists_foldlM_addLine (fun l hl => (hlines l hl).2) (lineRequest m target v)
  have hdrive : parser.drive new (chunks.map Prod.fst).flatten =
      .done (.ok true) ⟨.GotAll, req⟩ rest := by
    rw [hstream, drive_new_requestLine hline hcut]
    exact drive_lines (fun l hl => (hlines l hl).1) rfl hreq hbare rest
  obtain ⟨consumed, hsplit, line', m', target', v', hs, hline', hisline', hlines', -, -, rfl⟩ :=
    hframed (hgot _ _ hdrive)
  -- the same stream, read as a framed request: its first bare line is the empty one
  have hsplit' : (chunks.map Prod.fst).flatten = line' ++ (kCRLF ++
      (lineText (hs.map HeaderLine.line) ++ ([] ++ (kCRLF ++ (buf.readable ++ later))))) := by
    rw [hsplit]
    simp
  have hcut' := cutLine_of_isLine hisline'
    (lineText (hs.map HeaderLine.line) ++ ([] ++ (kCRLF ++ (buf.readable ++ later))))
  rw [← hsplit', hstream, hcut, Option.some.injEq, Prod.mk.injEq] at hcut'
  have hlines'' : ∀ l ∈ hs.map HeaderLine.line, IsLine l ∧ colonByte ∈ l := by
    intro l hl
    obtain ⟨h, hh, rfl⟩ := List.mem_map.mp hl
    exact ⟨(hlines' h hh).2, h.sep_mem⟩
  exact hne (firstBare_unique hlines hlines'' hbare (by decide) hcut'.2)

/-- **Where a request ends**: at its empty line exactly when no header line before it lacks the
separator. -/
theorem endsAtEmptyLine_iff (chunks : List (Bytes × TimePoint)) :
    EndsAtEmptyLine chunks ↔ ¬ SwallowsHeader (chunks.map Prod.fst).flatten := by
  constructor
  · intro h hswallow
    exact not_endsAtEmptyLine_of_swallows hswallow h
  · exact endsAtEmptyLine_of_not_swallows

/-- `"GET / HTTP/1.1\r\nHost: x\r\n\r\n"`. -/
def hostGet : Bytes :=
  requestLine .Get (ascii ['/']) .Http11 ++
    (kCRLF ++ (ascii ['H', 'o', 's', 't', ':', ' ', 'x'] ++ (kCRLF ++ kCRLF)))

/-- The `Host` line is swallowed as the end of the request, and the empty line stays. -/
theorem hostGet_not_endsAtEmptyLine : ¬ EndsAtEmptyLine [(hostGet, 0)] := by
  apply not_endsAtEmptyLine_of_swallows
  refine ⟨requestLine .Get (ascii ['/']) .Http11, .Get, ascii ['/'], .Http11, [],
    ascii ['H', 'o', 's', 't', ':', ' ', 'x'], kCRLF, ⟨?_, ?_, ?_, rfl⟩, ?_⟩ <;> decide

end HttpContext

end MiniMuduo
