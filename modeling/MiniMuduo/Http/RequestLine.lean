import MiniMuduo.Http.RoundTrip

/-!
# The grammar of a request line

`processRequestLine` finds its way through a line with three searches, a length check and a
comparison of seven bytes. What it accepts is `M SP T SP V`: a known method, a target without a
space, and one of the two versions. `IsRequestLine` says so without a search, and
`processRequestLine_grammar` that the two agree on every line and that a line that is accepted can be
written down again from the request.
-/

namespace MiniMuduo

open Fallible Search HttpRequest

namespace HttpContext

variable {ctx : HttpContext} {line target : Bytes} {m : Method} {v : Version}

/-- The line is the method `m`, the target and the version `v`, with one space between them. -/
structure IsRequestLine (line : Bytes) (m : Method) (target : Bytes) (v : Version) : Prop where
  method : m ≠ .Invalid
  space : SP ∉ target
  version : v ≠ .Unknown
  eq : line = requestLine m target v

/-- The comparisons of `setMethod` accept nothing but the names of the methods. -/
theorem methodString_methodOf {text : Bytes} (h : methodOf text ≠ .Invalid) :
    methodString (methodOf text) = text := by
  unfold methodOf at h ⊢
  split_ifs at h ⊢ with h₁ h₂ h₃ h₄ h₅
  · exact h₁.symm
  · exact h₂.symm
  · exact h₃.symm
  · exact h₄.symm
  · exact h₅.symm
  · exact absurd rfl h

/-- Eight bytes that start with `HTTP/1.` and end with a digit that is known are a version. -/
theorem eq_versionText {text : Bytes} (h : versionOf text = some v) :
    text = versionText v ∧ v ≠ .Unknown := by
  unfold versionOf at h
  split_ifs at h with hone h₁ h₀
  · cases h
    refine ⟨?_, by decide⟩
    rw [← List.take_append_drop 7 text, hone.2, h₁]
    rfl
  · cases h
    refine ⟨?_, by decide⟩
    rw [← List.take_append_drop 7 text, hone.2, h₀]
    rfl

/-- **Soundness**: a line that is accepted has the shape of a request line. -/
theorem isRequestLine_of_processRequestLine {ctx' : HttpContext}
    (h : ctx.processRequestLine line = .ok (true, ctx')) :
    ∃ m target v, IsRequestLine line m target v := by
  unfold processRequestLine at h
  cases hs : splitFirst SP line with
  | none => simp [hs] at h
  | some p =>
      obtain ⟨method, afterMethod⟩ := p
      simp only [hs, HttpRequest.setMethod, bind_eq_ok, pure_eq_ok, Except.ok.injEq] at h
      obtain ⟨_, ⟨-, -, rfl⟩, h⟩ := h
      by_cases hm : methodOf method = .Invalid
      · simp [hm] at h
      · simp only [hm, ne_eq, not_false_eq_true, decide_true, if_true] at h
        cases hs' : splitFirst SP afterMethod with
        | none => simp [hs'] at h
        | some q =>
            obtain ⟨target, text⟩ := q
            simp only [hs'] at h
            cases hv : versionOf text with
            | none => simp [hv] at h
            | some v =>
                obtain ⟨rfl, hmem⟩ := splitFirst_eq_some.mp hs
                obtain ⟨rfl, hmem'⟩ := splitFirst_eq_some.mp hs'
                obtain ⟨rfl, hv'⟩ := eq_versionText hv
                refine ⟨methodOf method, target, v, hm, hmem', hv', ?_⟩
                rw [requestLine, methodString_methodOf hm]

/-- **Completeness**: a line of that shape is accepted, and its parts are in the request. -/
theorem IsRequestLine.processRequestLine (h : IsRequestLine line m target v)
    (hfresh : ctx.request = .new) :
    ctx.processRequestLine line = .ok (true, { ctx with request := lineRequest m target v }) := by
  rw [h.eq]
  exact processRequestLine_requestLine hfresh h.method h.space h.version

/-- Path and query are the target, cut before its first question mark. -/
theorem path_append_query (m : Method) (target : Bytes) (v : Version) :
    (lineRequest m target v).path ++ (lineRequest m target v).query = target :=
  List.takeWhile_append_dropWhile

/-- **`processRequestLine` accepts exactly its grammar and loses nothing**: on a fresh request it
returns true for the lines `M SP T SP V` and no others; the request then holds the method, the
version, the target before its first `'?'` and the target from there on, and its parts make up the
line again. -/
theorem processRequestLine_grammar (line : Bytes) (ctx : HttpContext)
    (hfresh : ctx.request = .new) :
    ∃ succeed ctx', ctx.processRequestLine line = .ok (succeed, ctx') ∧
      (succeed = true ↔ ∃ m target v, IsRequestLine line m target v) ∧
      ∀ m target v, IsRequestLine line m target v →
        ctx'.request.method = m ∧ ctx'.request.version = v ∧
        ctx'.request.path = target.takeWhile (· ≠ question) ∧
        ctx'.request.query = target.dropWhile (· ≠ question) ∧
        methodString ctx'.request.method ++ SP :: (ctx'.request.path ++ (ctx'.request.query ++
          SP :: versionText ctx'.request.version)) = line := by
  have hinvalid : ctx.request.method = .Invalid := by rw [hfresh]; rfl
  obtain ⟨succeed, ctx', hp, -⟩ := processRequestLine_of_invalid hinvalid line
  refine ⟨succeed, ctx', hp, ⟨?sound, ?complete⟩, ?parts⟩
  case sound =>
    rintro rfl
    exact isRequestLine_of_processRequestLine hp
  case complete =>
    rintro ⟨m, target, v, hline⟩
    have hacc := hline.processRequestLine hfresh
    rw [hp] at hacc
    cases hacc
    rfl
  case parts =>
    intro m target v hline
    have hacc := hline.processRequestLine hfresh
    rw [hp] at hacc
    cases hacc
    refine ⟨rfl, rfl, rfl, rfl, ?_⟩
    rw [← List.append_assoc (lineRequest m target v).path, path_append_query]
    exact hline.eq.symm

/-- `GET /a?b HTTP/1.0`. -/
theorem processRequestLine_grammar_get :
    HttpContext.new.request = .new ∧
      ∃ succeed ctx',
        new.processRequestLine (requestLine .Get (ascii ['/', 'a', '?', 'b']) .Http10) =
          .ok (succeed, ctx') ∧
        succeed = true ∧ ctx'.request.path = ascii ['/', 'a'] ∧
        ctx'.request.query = ascii ['?', 'b'] := by
  obtain ⟨succeed, ctx', hp, hacc, hparts⟩ := processRequestLine_grammar
    (requestLine .Get (ascii ['/', 'a', '?', 'b']) .Http10) new rfl
  have hline : IsRequestLine (requestLine .Get (ascii ['/', 'a', '?', 'b']) .Http10) .Get
      (ascii ['/', 'a', '?', 'b']) .Http10 := ⟨by decide, by decide, by decide, rfl⟩
  obtain ⟨-, -, hpath, hquery, -⟩ := hparts _ _ _ hline
  exact ⟨rfl, succeed, ctx', hp, hacc.mpr ⟨_, _, _, hline⟩, hpath, hquery⟩

end HttpContext

end MiniMuduo
