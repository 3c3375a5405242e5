import MiniMuduo.Http.Message

/-!
# Reading a response back

`message` is what a response stands for, `ReadsBack` says that a client that follows the grammar gets
it from the bytes `appendToBuffer` added. No response is read back: the code writes no SP between the
status code and the status message, and with one it would be (`parse_spaced`).

A client that looks only for the end of the head and for the content length is not disturbed by that:
responses that keep the connection alive delimit themselves, whatever their bodies contain
(`readBodies_appendToBuffer`).
-/

namespace MiniMuduo

open Search Message

namespace HttpResponse

variable {resp : HttpResponse}

/-! ## What a response stands for -/

/-- `"Connection"`. -/
def connectionKey : Bytes := ascii ['C', 'o', 'n', 'n', 'e', 'c', 't', 'i', 'o', 'n']

/-- `"Content-Length"`. -/
def contentLengthKey : Bytes :=
  ascii ['C', 'o', 'n', 't', 'e', 'n', 't', '-', 'L', 'e', 'n', 'g', 't', 'h']

/-- The fields that `appendToBuffer` writes by itself. -/
def generated (resp : HttpResponse) : List (Bytes × Bytes) :=
  if resp.closeConnection then [(connectionKey, ascii ['c', 'l', 'o', 's', 'e'])]
  else [(contentLengthKey, decimal resp.body.length),
    (connectionKey, ascii ['K', 'e', 'e', 'p', '-', 'A', 'l', 'i', 'v', 'e'])]

def message (resp : HttpResponse) : Message where
  code := resp.statusCode.toNat
  reason := resp.statusMessage
  fields := resp.generated ++ resp.headers.entries
  body := resp.body

/-- No CR and no LF in the status message, the keys and the values. -/
structure LineSafe (resp : HttpResponse) : Prop where
  statusMessage : ∀ b ∈ resp.statusMessage, b ≠ CR ∧ b ≠ LF
  keys : ∀ h ∈ resp.headers.entries, ∀ b ∈ h.1, b ≠ CR ∧ b ≠ LF
  values : ∀ h ∈ resp.headers.entries, ∀ b ∈ h.2, b ≠ CR ∧ b ≠ LF

/-- Moreover the keys contain no `':'` and are not those of the generated fields. -/
structure Readable (resp : HttpResponse) : Prop extends LineSafe resp where
  colons : ∀ h ∈ resp.headers.entries, colon ∉ h.1
  reserved : ∀ h ∈ resp.headers.entries, h.1 ≠ connectionKey ∧ h.1 ≠ contentLengthKey

theorem LineSafe.cr_notMem (h : resp.LineSafe) :
    CR ∉ resp.statusMessage ∧ ∀ f ∈ resp.headers.entries, CR ∉ f.1 ∧ CR ∉ f.2 :=
  ⟨fun hm => (h.statusMessage CR hm).1 rfl, fun f hf =>
    ⟨fun hm => (h.keys f hf CR hm).1 rfl, fun hm => (h.values f hf CR hm).1 rfl⟩⟩

/-! ## The text in lines -/

/-- The buffer of `snprintf` is large enough for the status line. -/
theorem statusLine_eq (resp : HttpResponse) :
    resp.statusLine = version ++ decimal resp.statusCode.toNat := by
  unfold statusLine
  cases resp.statusCode <;> rfl

/-- And for the content length of a body that is not larger than anything. -/
theorem contentLength_eq (h : resp.body.length < 10 ^ 13) :
    resp.contentLength = fieldText (contentLengthKey, decimal resp.body.length) ++ kCRLF := by
  have hlen := length_decimal_le (by decide) h
  have htext : ascii ['C', 'o', 'n', 't', 'e', 'n', 't', '-', 'L', 'e', 'n', 'g', 't', 'h', ':', ' '] =
      contentLengthKey ++ [colon, SP] := rfl
  rw [contentLength, snprintf32, List.take_of_length_le]
  · rw [htext, fieldText]
    simp
  · have hkey : (ascii ['C', 'o', 'n', 't', 'e', 'n', 't', '-', 'L', 'e', 'n', 'g', 't', 'h', ':',
        ' ']).length = 16 := rfl
    rw [List.length_append, List.length_append, hkey]
    show 16 + ((decimal resp.body.length).length + 2) ≤ 31
    omega

theorem headerLine_eq (h : Bytes × Bytes) : headerLine h = fieldText h ++ kCRLF := by
  have htext : ascii [':', ' '] = [colon, SP] := rfl
  rw [headerLine, fieldText, htext]
  simp

theorem joinLines_append (line : Bytes) (lines : List Bytes) (rest : Bytes) :
    joinLines line lines ++ (blankLine ++ rest) =
      line ++ (kCRLF ++ (lines.flatMap (· ++ kCRLF) ++ (kCRLF ++ rest))) := by
  induction lines generalizing line with
  | nil => simp [joinLines, blankLine]
  | cons next lines ih =>
      rw [joinLines, List.append_assoc, List.append_assoc, ih]
      simp

theorem generatedFields_eq (h : resp.closeConnection = false → resp.body.length < 10 ^ 13) :
    resp.generatedFields = (resp.generated.map fieldText).flatMap (· ++ kCRLF) := by
  cases hc : resp.closeConnection with
  | true =>
      rw [generatedFields, generated, if_pos hc, if_pos hc]
      rfl
  | false =>
      have hconn : connectionKeepAlive = fieldText (connectionKey,
          ascii ['K', 'e', 'e', 'p', '-', 'A', 'l', 'i', 'v', 'e']) ++ kCRLF := rfl
      rw [generatedFields, generated, if_neg (by simp [hc]), if_neg (by simp [hc]),
        contentLength_eq (h hc), hconn]
      simp

/-- The text after the status line and the status message. -/
def textAfterStatus (resp : HttpResponse) : Bytes :=
  resp.generatedFields ++ (resp.headers.entries.flatMap headerLine ++ (kCRLF ++ resp.body))

theorem text_eq_status (resp : HttpResponse) :
    resp.text = resp.statusLine ++ resp.statusMessage ++ (kCRLF ++ resp.textAfterStatus) := by
  simp [text, textAfterStatus]

/-- The text is a head of one line for each field, and the body. -/
theorem joinLines_text (h : resp.closeConnection = false → resp.body.length < 10 ^ 13)
    (status : Bytes) :
    status ++ (kCRLF ++ resp.textAfterStatus) =
      joinLines status (resp.message.fields.map fieldText) ++ (blankLine ++ resp.body) := by
  have hheaders : resp.headers.entries.flatMap headerLine =
      (resp.headers.entries.map fieldText).flatMap (· ++ kCRLF) := by
    rw [List.flatMap_map]
    exact List.flatMap_congr fun f _ => headerLine_eq f
  rw [joinLines_append, message, List.map_append, List.flatMap_append, ← generatedFields_eq h,
    ← hheaders, textAfterStatus]
  simp

theorem generated_printable (resp : HttpResponse) :
    ∀ f ∈ resp.generated, colon ∉ f.1 ∧ CR ∉ f.1 ∧ CR ∉ f.2 := by
  intro f hf
  rw [generated] at hf
  split at hf
  · rw [List.mem_singleton] at hf
    subst hf
    decide
  · have hkey : colon ∉ contentLengthKey ∧ CR ∉ contentLengthKey := by decide
    rcases List.mem_cons.mp hf with rfl | hf
    · exact ⟨hkey.1, hkey.2, notMem_decimal (by decide)⟩
    · rw [List.mem_singleton] at hf
      subst hf
      decide

theorem LineSafe.cr_notMem_fields (h : resp.LineSafe) :
    ∀ f ∈ resp.message.fields, CR ∉ f.1 ∧ CR ∉ f.2 := by
  intro f hf
  rcases List.mem_append.mp hf with hgen | hentry
  · exact (resp.generated_printable f hgen).2
  · exact h.cr_notMem.2 f hentry

theorem Readable.printable (h : resp.Readable) : resp.message.Printable where
  reason := h.cr_notMem.1
  fields f hf := by
    refine ⟨?_, h.cr_notMem_fields f hf⟩
    rcases List.mem_append.mp hf with hgen | hentry
    · exact (resp.generated_printable f hgen).1
    · exact h.colons f hentry

/-! ## Reading back -/

/-- Decoding the bytes that `appendToBuffer` adds gives the response. -/
def ReadsBack (resp : HttpResponse) (output : WfBuffer) : Prop :=
  Message.parse ((resp.appendToBuffer output).readable.drop output.readable.length) =
    some resp.message

theorem readsBack_iff_text (resp : HttpResponse) (output : WfBuffer) :
    resp.ReadsBack output ↔ Message.parse resp.text = some resp.message := by
  rw [ReadsBack, readable_appendToBuffer, List.drop_left]

theorem cr_notMem_status (h : CR ∉ resp.statusMessage) :
    CR ∉ resp.statusLine ++ resp.statusMessage := by
  have hversion : CR ∉ version := by decide
  have hcode : CR ∉ decimal resp.statusCode.toNat := notMem_decimal (by decide)
  rw [statusLine_eq, List.mem_append, List.mem_append]
  tauto

/-- What the grammar takes for the reason phrase is behind an SP inside the status message. -/
theorem length_reason_lt {m : Message} (h : CR ∉ resp.statusMessage)
    (hparse : Message.parse resp.text = some m) : m.reason.length < resp.statusMessage.length := by
  obtain ⟨lines, body, status, hcut, hhead, hstatus⟩ := status_of_parse hparse
  rw [text_eq_status] at hcut
  rw [head_of_cutHead (cr_notMem_status h) hcut, Option.some.injEq] at hhead
  subst hhead
  obtain ⟨digits, hsplit⟩ := split_of_parseStatus hstatus
  -- the code has no SP in it, so the first one is in the message
  have hcode : SP ∉ decimal resp.statusCode.toNat := notMem_decimal (by decide)
  rw [statusLine_eq, List.append_assoc, List.drop_left, splitFirst_append_of_not_mem hcode] at hsplit
  obtain ⟨⟨before, reason⟩, hmessage, he⟩ := Option.map_eq_some_iff.mp hsplit
  have hreason : reason = m.reason := congrArg Prod.snd he
  rw [← hreason, (splitFirst_eq_some.mp hmessage).1, List.length_append, List.length_cons]
  omega

/-- **No response is read back**: there is no SP between the status code and the reason phrase. -/
theorem not_readsBack (h : CR ∉ resp.statusMessage) (output : WfBuffer) :
    ¬ resp.ReadsBack output := by
  intro hreads
  rw [readsBack_iff_text] at hreads
  exact absurd (length_reason_lt h hreads) (Nat.lt_irrefl _)

/-- With the SP it would be. -/
theorem parse_spaced (h : resp.Readable)
    (hbody : resp.closeConnection = false → resp.body.length < 10 ^ 13) :
    Message.parse (resp.statusLine ++ (SP :: (resp.statusMessage ++ (kCRLF ++ resp.textAfterStatus)))) =
      some resp.message := by
  have hprint : resp.statusLine ++ (SP :: (resp.statusMessage ++ (kCRLF ++ resp.textAfterStatus))) =
      resp.message.print := by
    have hjoin := joinLines_text hbody resp.message.statusText
    rw [print]
    refine Eq.trans ?_ hjoin
    rw [statusText, statusLine_eq]
    simp [message]
  rw [hprint]
  exact parse_print h.printable

/-- The response of the example in the source. -/
def okResponse : HttpResponse where
  headers := .empty
  statusCode := .k200Ok
  statusMessage := ascii ['O', 'K']
  closeConnection := false
  body := ascii ['h', 'i']

theorem not_readsBack_okResponse : ¬ okResponse.ReadsBack .new :=
  not_readsBack (by decide) .new

theorem not_all_readsBack : ¬ ∀ (resp : HttpResponse) (output : WfBuffer),
    resp.Readable → resp.ReadsBack output := by
  intro hall
  have hreadable : okResponse.Readable := by
    refine ⟨⟨by decide +kernel, ?_, ?_⟩, ?_, ?_⟩ <;>
    · intro h hh
      cases hh
  have hread := (readsBack_iff_text _ _).mp (hall okResponse .new hreadable)
  have hnone : Message.parse okResponse.text = none := by decide +kernel
  rw [hnone] at hread
  cases hread

/-! ## Responses in a row -/

/-- `"Content-Length: "`. -/
def contentLengthPrefix : Bytes := contentLengthKey ++ [colon, SP]

/-- The number in the first line that gives a content length. -/
def contentLengthOf (lines : List Bytes) : Option ℕ := do
  let line ← lines.find? fun line => contentLengthPrefix <+: line
  number (line.drop contentLengthPrefix.length)

/-- Read a head, and as many bytes after it as it says. -/
def readBody (stream : Bytes) : Option (Bytes × Bytes) := do
  let (lines, rest) ← cutHead stream
  let len ← contentLengthOf lines
  if len ≤ rest.length then some (rest.take len, rest.drop len) else none

theorem length_of_cutHead {bytes rest : Bytes} {lines : List Bytes}
    (h : cutHead bytes = some (lines, rest)) : rest.length < bytes.length := by
  obtain ⟨i, hi, he⟩ := Option.map_eq_some_iff.mp h
  cases he
  have hlen := add_length_le_of_search (search_le_length hi) hi
  have hblank : blankLine.length = 4 := rfl
  rw [List.length_drop]
  omega

theorem length_of_readBody {stream body rest : Bytes} (h : readBody stream = some (body, rest)) :
    rest.length < stream.length := by
  obtain ⟨⟨lines, after⟩, hcut, h⟩ := Option.bind_eq_some_iff.mp h
  obtain ⟨len, -, h⟩ := Option.bind_eq_some_iff.mp h
  have hlt := length_of_cutHead hcut
  split at h
  · cases h
    rw [List.length_drop]
    omega
  · cases h

/-- Read bodies until the stream is used up. -/
def readBodies (stream : Bytes) : Option (List Bytes) :=
  if stream = [] then some []
  else
    match h : readBody stream with
    | none => none
    | some (body, rest) =>
        have := length_of_readBody h
        (readBodies rest).map (body :: ·)
termination_by stream.length

/-- A response that keeps the connection alive and fits the buffer of `snprintf`. -/
structure KeepsAlive (resp : HttpResponse) : Prop extends LineSafe resp where
  keepAlive : resp.closeConnection = false
  body : resp.body.length < 10 ^ 13

theorem KeepsAlive.fields_eq (h : resp.KeepsAlive) :
    ∃ fields, resp.message.fields = (contentLengthKey, decimal resp.body.length) :: fields := by
  rw [message, generated, if_neg (by simp [h.keepAlive])]
  exact ⟨_, rfl⟩

/-- The generated content length is the first one in the head. -/
theorem KeepsAlive.contentLengthOf_head (h : resp.KeepsAlive) :
    contentLengthOf ((resp.statusLine ++ resp.statusMessage) ::
      resp.message.fields.map fieldText) = some resp.body.length := by
  have hstatus : ¬ contentLengthPrefix <+: resp.statusLine ++ resp.statusMessage := by
    rw [statusLine_eq, List.append_assoc]
    intro hpre
    have hfirst := (List.cons_prefix_cons.mp hpre).1
    exact absurd hfirst (by decide)
  obtain ⟨fields, hfields⟩ := h.fields_eq
  have hline : fieldText (contentLengthKey, decimal resp.body.length) =
      contentLengthPrefix ++ decimal resp.body.length := by
    rw [fieldText, contentLengthPrefix]
    simp
  rw [contentLengthOf, List.find?_cons_of_neg (by simpa using hstatus), hfields, List.map_cons, hline,
    List.find?_cons_of_pos (by simp)]
  show number ((contentLengthPrefix ++ decimal resp.body.length).drop contentLengthPrefix.length) = _
  rw [List.drop_left, number_decimal]

/-- A response is read off the front of the stream, whatever follows it. -/
theorem KeepsAlive.readBody_text (h : resp.KeepsAlive) (rest : Bytes) :
    readBody (resp.text ++ rest) = some (resp.body, rest) := by
  have hstatus : CR ∉ resp.statusLine ++ resp.statusMessage := cr_notMem_status h.cr_notMem.1
  have hlines : ∀ l ∈ resp.message.fields.map fieldText, l ≠ [] ∧ CR ∉ l := by
    intro l hl
    obtain ⟨f, hf, rfl⟩ := List.mem_map.mp hl
    exact fieldText_ok (h.cr_notMem_fields f hf).1 (h.cr_notMem_fields f hf).2
  have hcut := cutHead_joinLines hstatus hlines (resp.body ++ rest)
  rw [← List.append_assoc blankLine, ← List.append_assoc, ← joinLines_text (fun _ => h.body),
    ← text_eq_status] at hcut
  rw [readBody, hcut]
  show (contentLengthOf _ >>= _) = _
  rw [h.contentLengthOf_head]
  simp

theorem KeepsAlive.readBodies_text (h : resp.KeepsAlive) (rest : Bytes) :
    readBodies (resp.text ++ rest) = (readBodies rest).map (resp.body :: ·) := by
  have hbody := h.readBody_text rest
  have hne : resp.text ++ rest ≠ [] := by
    intro hnil
    rw [hnil] at hbody
    cases hbody
  rw [readBodies, if_neg hne]
  split
  · next hnone =>
      rw [hbody] at hnone
      cases hnone
  · next body after hsome =>
      rw [hbody] at hsome
      cases hsome
      rfl

theorem readable_foldl_appendToBuffer (resps : List HttpResponse) (output : WfBuffer) :
    (resps.foldl (fun output resp => resp.appendToBuffer output) output).readable =
      output.readable ++ resps.flatMap text := by
  induction resps generalizing output with
  | nil => simp
  | cons resp resps ih =>
      rw [List.foldl_cons, ih, readable_appendToBuffer, List.append_assoc, List.flatMap_cons]

/-- **Responses that keep the connection alive delimit themselves.** A client that trusts the first
empty line and the first content length before it reads exactly the bodies. -/
theorem readBodies_appendToBuffer {resps : List HttpResponse} (h : ∀ resp ∈ resps, resp.KeepsAlive) :
    readBodies (resps.foldl (fun output resp => resp.appendToBuffer output) WfBuffer.new).readable =
      some (resps.map body) := by
  rw [readable_foldl_appendToBuffer, WfBuffer.readable_new, List.nil_append]
  induction resps with
  | nil =>
      rw [List.flatMap_nil, readBodies, if_pos rfl]
      rfl
  | cons resp resps ih =>
      have hrest := ih fun r hr => h r (List.mem_cons_of_mem _ hr)
      rw [List.flatMap_cons, (h resp List.mem_cons_self).readBodies_text, hrest]
      rfl

/-- A body that looks like a response, and user-chosen headers that look like generated ones. -/
def trickyResponse : HttpResponse where
  headers := OrdMap.empty.insert contentLengthKey (ascii ['7'])
  statusCode := .k404NotFound
  statusMessage := ascii [' ', 'N', 'o']
  closeConnection := false
  body := okResponse.text

theorem readBodies_appendToBuffer_tricky :
    readBodies ([trickyResponse, okResponse, trickyResponse].foldl
      (fun output resp => resp.appendToBuffer output) WfBuffer.new).readable =
      some [okResponse.text, ascii ['h', 'i'], okResponse.text] := by
  have hok : okResponse.KeepsAlive :=
    ⟨⟨by decide +kernel, by decide, by decide⟩, rfl, by decide⟩
  have htricky : trickyResponse.KeepsAlive :=
    ⟨⟨by decide +kernel, by decide +kernel, by decide +kernel⟩, rfl, by decide +kernel⟩
  apply readBodies_appendToBuffer
  simp [hok, htricky]

end HttpResponse

end MiniMuduo
