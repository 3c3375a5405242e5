import MiniMuduo.Http.HttpResponse
import Mathlib.Algebra.Group.Nat.Defs

/-!
# HTTP/1.1 messages as text

What a client does with the bytes it receives, written from the grammar and not from the code:

    'HTTP/1.1' SP decimal SP reason CRLF  (key ':' SP value CRLF)*  CRLF  body

The head ends at the first CRLF CRLF. `Message.parse` reads a message whose body is all that follows,
`Message.print` writes one, and `parse_print` says that reading undoes writing.
-/

namespace MiniMuduo

open Search

/-! ## Lines -/

/-- The lines of a text, which CRLFs separate. -/
def splitLines : Bytes → List Bytes
  | [] => [[]]
  | [c] => [[c]]
  | c :: d :: bs =>
      if c = CR ∧ d = LF then [] :: splitLines bs
      else (splitLines (d :: bs)).modifyHead (c :: ·)

/-- The text of a line and the lines after it. -/
def joinLines : Bytes → List Bytes → Bytes
  | line, [] => line
  | line, next :: lines => line ++ (kCRLF ++ joinLines next lines)

theorem splitLines_of_not_mem {line : Bytes} (h : CR ∉ line) : splitLines line = [line] := by
  induction line with
  | nil => rfl
  | cons c bs ih =>
      rw [List.mem_cons, not_or] at h
      cases bs with
      | nil => rfl
      | cons d bs => rw [splitLines, if_neg (fun hc => h.1 hc.1.symm), ih h.2]; rfl

theorem splitLines_append {line : Bytes} (h : CR ∉ line) (rest : Bytes) :
    splitLines (line ++ (kCRLF ++ rest)) = line :: splitLines rest := by
  induction line with
  | nil => rfl
  | cons c bs ih =>
      rw [List.mem_cons, not_or] at h
      have hc : ¬ c = CR := fun hc => h.1 hc.symm
      cases bs with
      | nil =>
          show splitLines (c :: CR :: LF :: rest) = [c] :: splitLines rest
          rw [splitLines, if_neg (fun hcd => hc hcd.1)]
          rfl
      | cons d bs =>
          rw [List.cons_append, List.cons_append, splitLines, if_neg (fun hcd => hc hcd.1),
            ← List.cons_append, ih h.2]
          rfl

theorem splitLines_joinLines {line : Bytes} {lines : List Bytes} (hline : CR ∉ line)
    (hlines : ∀ l ∈ lines, CR ∉ l) : splitLines (joinLines line lines) = line :: lines := by
  induction lines generalizing line with
  | nil => exact splitLines_of_not_mem hline
  | cons next lines ih =>
      rw [joinLines, splitLines_append hline, ih (hlines next List.mem_cons_self)]
      exact fun l hl => hlines l (List.mem_cons_of_mem _ hl)

/-! ## The head of a message -/

/-- The empty line that ends the head, with the CRLF before it. -/
def blankLine : Bytes := kCRLF ++ kCRLF

/-- The lines before the first empty line, and what follows it. -/
def cutHead (bytes : Bytes) : Option (List Bytes × Bytes) :=
  (search blankLine bytes).map fun i => (splitLines (bytes.take i), bytes.drop (i + 4))

/-- After a CRLF that is not followed by another one the search goes on behind it. -/
theorem search_blankLine_crlf (rest : Bytes) :
    search blankLine (kCRLF ++ rest) =
      if kCRLF <+: rest then some 0 else (search blankLine rest).map (2 + ·) := by
  by_cases hpre : kCRLF <+: rest
  · rw [if_pos hpre]
    exact search_of_startsWith ((List.prefix_append_right_inj kCRLF).mpr hpre)
  · have hcr : ¬ blankLine <+: CR :: LF :: rest := by
      intro h
      exact hpre ((List.prefix_append_right_inj kCRLF).mp h)
    have hlf : ¬ blankLine <+: LF :: rest := by
      intro h
      have hcrlf : CR = LF := (List.cons_prefix_cons.mp h).1
      exact absurd hcrlf (by decide)
    show search blankLine (CR :: LF :: rest) = _
    rw [if_neg hpre, search_cons_of_not_startsWith hcr, search_cons_of_not_startsWith hlf,
      Option.map_map]
    congr 1
    funext i
    simp only [Function.comp_apply]
    omega

/-- The search for the empty line passes over a line without CR. -/
theorem search_blankLine_append {line : Bytes} (hline : CR ∉ line) (rest : Bytes) :
    search blankLine (line ++ (kCRLF ++ rest)) =
      (if kCRLF <+: rest then some 0 else (search blankLine rest).map (2 + ·)).map
        (line.length + ·) := by
  rw [← search_blankLine_crlf]
  exact search_append_left_of_not_mem (kCRLF ++ rest) hline

/-- A text that does not start with CR does not start with CRLF. -/
theorem not_crlf_prefix_joinLines {line : Bytes} {lines : List Bytes} (hne : line ≠ [])
    (hline : CR ∉ line) (rest : Bytes) : ¬ kCRLF <+: joinLines line lines ++ rest := by
  cases line with
  | nil => exact absurd rfl hne
  | cons c bs =>
      have hc : c ≠ CR := fun hc => hline (hc ▸ List.mem_cons_self)
      intro hpre
      cases lines with
      | nil => exact hc (List.cons_prefix_cons.mp hpre).1.symm
      | cons next lines => exact hc (List.cons_prefix_cons.mp hpre).1.symm

theorem search_blankLine_joinLines {line : Bytes} {lines : List Bytes} (hline : CR ∉ line)
    (hlines : ∀ l ∈ lines, l ≠ [] ∧ CR ∉ l) (rest : Bytes) :
    search blankLine (joinLines line lines ++ (blankLine ++ rest)) =
      some (joinLines line lines).length := by
  induction lines generalizing line with
  | nil =>
      have hskip : search blankLine (line ++ (blankLine ++ rest)) =
          (search blankLine (blankLine ++ rest)).map (line.length + ·) :=
        search_append_left_of_not_mem (blankLine ++ rest) hline
      rw [joinLines, hskip, search_of_startsWith (List.prefix_append _ _)]
      rfl
  | cons next lines ih =>
      obtain ⟨hne, hnext⟩ := hlines next List.mem_cons_self
      have hrest := ih hnext fun l hl => hlines l (List.mem_cons_of_mem _ hl)
      rw [joinLines, List.append_assoc, List.append_assoc, search_blankLine_append hline,
        if_neg (not_crlf_prefix_joinLines hne hnext _), hrest]
      simp only [Option.map_some, List.length_append, Option.some.injEq]
      rfl

/-- A head is cut off where it ends, whatever follows it. -/
theorem cutHead_joinLines {line : Bytes} {lines : List Bytes} (hline : CR ∉ line)
    (hlines : ∀ l ∈ lines, l ≠ [] ∧ CR ∉ l) (rest : Bytes) :
    cutHead (joinLines line lines ++ (blankLine ++ rest)) = some (line :: lines, rest) := by
  rw [cutHead, search_blankLine_joinLines hline hlines, Option.map_some, List.take_left,
    splitLines_joinLines hline fun l hl => (hlines l hl).2, ← List.append_assoc, List.drop_left']
  rw [List.length_append]
  rfl

/-- The first line of a head. -/
theorem head_of_cutHead {line rest body : Bytes} {lines : List Bytes} (hline : CR ∉ line)
    (h : cutHead (line ++ (kCRLF ++ rest)) = some (lines, body)) : lines.head? = some line := by
  obtain ⟨i, hi, he⟩ := Option.map_eq_some_iff.mp h
  cases he
  rw [search_blankLine_append hline] at hi
  obtain ⟨j, hj, rfl⟩ := Option.map_eq_some_iff.mp hi
  rw [List.take_length_add_append]
  by_cases hpre : kCRLF <+: rest
  · rw [if_pos hpre] at hj
    cases hj
    rw [List.take_zero, List.append_nil, splitLines_of_not_mem hline]
    rfl
  · rw [if_neg hpre] at hj
    obtain ⟨k, -, rfl⟩ := Option.map_eq_some_iff.mp hj
    have htake : (kCRLF ++ rest).take (kCRLF.length + k) = kCRLF ++ rest.take k :=
      List.take_length_add_append k
    change (splitLines (line ++ (kCRLF ++ rest).take (kCRLF.length + k))).head? = _
    rw [htake, splitLines_append hline]
    rfl

/-! ## Numbers -/

def isDigit (c : UInt8) : Bool := 48 ≤ c ∧ c ≤ 57

/-- The number a decimal text stands for. -/
def number (digits : Bytes) : Option ℕ :=
  if digits ≠ [] ∧ digits.all isDigit then
    some (digits.foldl (fun n c => 10 * n + (c.toNat - 48)) 0)
  else none

/-- The bytes of a decimal digit. -/
theorem toNat_of_isDigit {c : Char} (h : c.isDigit = true) :
    48 ≤ c.toNat ∧ c.toNat ≤ 57 ∧ (UInt8.ofNat c.toNat).toNat = c.toNat := by
  simp only [Char.isDigit, Bool.and_eq_true, decide_eq_true_eq, ge_iff_le,
    UInt32.le_iff_toNat_le] at h
  have hlow : 48 ≤ c.toNat := h.1
  have hhigh : c.toNat ≤ 57 := h.2
  refine ⟨hlow, hhigh, ?_⟩
  rw [UInt8.toNat_ofNat']
  omega

theorem isDigit_of_mem_ascii {cs : List Char} (h : ∀ c ∈ cs, c.isDigit = true) {b : UInt8}
    (hb : b ∈ ascii cs) : isDigit b = true := by
  obtain ⟨c, hc, rfl⟩ := List.mem_map.mp hb
  obtain ⟨hlow, hhigh, hnat⟩ := toNat_of_isDigit (h c hc)
  rw [isDigit, decide_eq_true_eq, UInt8.le_iff_toNat_le, UInt8.le_iff_toNat_le, hnat]
  exact ⟨hlow, hhigh⟩

/-- Reading digits as bytes is reading them as characters. -/
theorem foldl_ascii {cs : List Char} (h : ∀ c ∈ cs, c.isDigit = true) (n : ℕ) :
    (ascii cs).foldl (fun n c => 10 * n + (c.toNat - 48)) n = Nat.ofDigitChars 10 cs n := by
  induction cs generalizing n with
  | nil => rfl
  | cons c cs ih =>
      have hnat := (toNat_of_isDigit (h c List.mem_cons_self)).2.2
      have hrest := fun d hd => h d (List.mem_cons_of_mem _ hd)
      rw [Nat.ofDigitChars_cons, ← ih hrest]
      show (ascii cs).foldl _ (10 * n + ((UInt8.ofNat c.toNat).toNat - 48)) = _
      rw [hnat]
      rfl

namespace HttpResponse

theorem isDigit_of_mem_toDigits {n : ℕ} (c : Char) (h : c ∈ Nat.toDigits 10 n) :
    c.isDigit = true :=
  Nat.isDigit_of_mem_toDigits (by decide) (by decide) h

theorem isDigit_of_mem_decimal {n : ℕ} {b : UInt8} (h : b ∈ decimal n) : isDigit b = true :=
  isDigit_of_mem_ascii isDigit_of_mem_toDigits h

theorem notMem_decimal {n : ℕ} {b : UInt8} (h : isDigit b = false) : b ∉ decimal n := by
  intro hmem
  rw [isDigit_of_mem_decimal hmem] at h
  cases h

theorem decimal_ne_nil (n : ℕ) : decimal n ≠ [] := by
  intro h
  have hlen : (decimal n).length = (Nat.toDigits 10 n).length := List.length_map _
  rw [h] at hlen
  exact absurd hlen (Nat.length_toDigits_pos).ne

/-- A number that was written is read back. -/
theorem number_decimal (n : ℕ) : number (decimal n) = some n := by
  have hall : (decimal n).all isDigit = true :=
    List.all_eq_true.mpr fun b hb => isDigit_of_mem_decimal hb
  rw [number, if_pos ⟨decimal_ne_nil n, hall⟩, decimal, foldl_ascii isDigit_of_mem_toDigits,
    Nat.ofDigitChars_ten_toDigits]

theorem length_decimal_le {n k : ℕ} (hk : 0 < k) (h : n < 10 ^ k) : (decimal n).length ≤ k :=
  (List.length_map _).trans_le ((Nat.length_toDigits_le_iff (by decide) hk).mpr h)

end HttpResponse

/-! ## Messages -/

structure Message where
  code : ℕ
  reason : Bytes
  fields : List (Bytes × Bytes)
  body : Bytes
  deriving DecidableEq, Repr

namespace Message

def SP : UInt8 := 32
def colon : UInt8 := 58

/-- `"HTTP/1.1 "`. -/
def version : Bytes := ascii ['H', 'T', 'T', 'P', '/', '1', '.', '1', ' ']

/-- The status code and the reason phrase of a status line. -/
def parseStatus (line : Bytes) : Option (ℕ × Bytes) :=
  if version <+: line then do
    let (digits, reason) ← splitFirst SP (line.drop version.length)
    let code ← number digits
    return (code, reason)
  else none

/-- The key and the value of a header line. -/
def parseField (line : Bytes) : Option (Bytes × Bytes) :=
  match splitFirst colon line with
  | some (key, c :: value) => if c = SP then some (key, value) else none
  | _ => none

/-- Read a message, the whole rest of the text being its body. -/
def parse (bytes : Bytes) : Option Message := do
  let (lines, body) ← cutHead bytes
  let status ← lines.head?
  let (code, reason) ← parseStatus status
  let fields ← lines.tail.mapM parseField
  return ⟨code, reason, fields, body⟩

theorem split_of_parseStatus {line reason : Bytes} {code : ℕ}
    (h : parseStatus line = some (code, reason)) :
    ∃ digits, splitFirst SP (line.drop version.length) = some (digits, reason) := by
  unfold parseStatus at h
  split at h
  · obtain ⟨⟨digits, reason'⟩, hsplit, h⟩ := Option.bind_eq_some_iff.mp h
    obtain ⟨code', -, h⟩ := Option.bind_eq_some_iff.mp h
    cases h
    exact ⟨digits, hsplit⟩
  · cases h

theorem status_of_parse {bytes : Bytes} {m : Message} (h : parse bytes = some m) :
    ∃ lines body status, cutHead bytes = some (lines, body) ∧ lines.head? = some status ∧
      parseStatus status = some (m.code, m.reason) := by
  obtain ⟨⟨lines, body⟩, hcut, h⟩ := Option.bind_eq_some_iff.mp h
  obtain ⟨status, hhead, h⟩ := Option.bind_eq_some_iff.mp h
  obtain ⟨⟨code, reason⟩, hstatus, h⟩ := Option.bind_eq_some_iff.mp h
  obtain ⟨fields, -, h⟩ := Option.bind_eq_some_iff.mp h
  cases h
  exact ⟨lines, body, status, hcut, hhead, hstatus⟩

def statusText (m : Message) : Bytes := version ++ (HttpResponse.decimal m.code ++ SP :: m.reason)

def fieldText (h : Bytes × Bytes) : Bytes := h.1 ++ colon :: SP :: h.2

/-- Write a message. -/
def print (m : Message) : Bytes :=
  joinLines m.statusText (m.fields.map fieldText) ++ (blankLine ++ m.body)

/-- A message without CR in its head and without `':'` in its keys. -/
structure Printable (m : Message) : Prop where
  reason : CR ∉ m.reason
  fields : ∀ h ∈ m.fields, colon ∉ h.1 ∧ CR ∉ h.1 ∧ CR ∉ h.2

theorem parseStatus_statusText (m : Message) : parseStatus m.statusText = some (m.code, m.reason) := by
  have hsplit : splitFirst SP (HttpResponse.decimal m.code ++ SP :: m.reason) =
      some (HttpResponse.decimal m.code, m.reason) :=
    splitFirst_eq_some.mpr ⟨rfl, HttpResponse.notMem_decimal (by decide)⟩
  rw [parseStatus, statusText, if_pos (List.prefix_append _ _), List.drop_left, hsplit]
  simp [HttpResponse.number_decimal]

theorem parseField_fieldText {h : Bytes × Bytes} (hkey : colon ∉ h.1) :
    parseField (fieldText h) = some h := by
  have hsplit : splitFirst colon (fieldText h) = some (h.1, SP :: h.2) :=
    splitFirst_eq_some.mpr ⟨rfl, hkey⟩
  rw [parseField, hsplit]
  rfl

theorem cr_notMem_statusText {m : Message} (h : CR ∉ m.reason) : CR ∉ m.statusText := by
  have hversion : CR ∉ version := by decide
  have hcode : CR ∉ HttpResponse.decimal m.code := HttpResponse.notMem_decimal (by decide)
  have hsp : CR ≠ SP := by decide
  simp [statusText, hversion, hcode, hsp, h]

theorem fieldText_ok {h : Bytes × Bytes} (hkey : CR ∉ h.1) (hvalue : CR ∉ h.2) :
    fieldText h ≠ [] ∧ CR ∉ fieldText h := by
  have hcolon : CR ≠ colon := by decide
  have hsp : CR ≠ SP := by decide
  refine ⟨by simp [fieldText], ?_⟩
  simp [fieldText, hkey, hvalue, hcolon, hsp]

theorem mapM_parseField {fields : List (Bytes × Bytes)} (h : ∀ f ∈ fields, colon ∉ f.1) :
    (fields.map fieldText).mapM parseField = some fields := by
  induction fields with
  | nil => rfl
  | cons f fields ih =>
      rw [List.map_cons, List.mapM_cons, parseField_fieldText (h f List.mem_cons_self),
        ih fun g hg => h g (List.mem_cons_of_mem _ hg)]
      rfl

/-- **Reading undoes writing.** -/
theorem parse_print {m : Message} (h : m.Printable) : parse m.print = some m := by
  have hlines : ∀ l ∈ m.fields.map fieldText, l ≠ [] ∧ CR ∉ l := by
    intro l hl
    obtain ⟨f, hf, rfl⟩ := List.mem_map.mp hl
    exact fieldText_ok (h.fields f hf).2.1 (h.fields f hf).2.2
  have hfields := mapM_parseField fun f hf => (h.fields f hf).1
  rw [parse, print, cutHead_joinLines (cr_notMem_statusText h.reason) hlines]
  simp [parseStatus_statusText, hfields]

end Message

end MiniMuduo
