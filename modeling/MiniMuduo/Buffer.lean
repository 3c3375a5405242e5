import MiniMuduo.Lib.Fallible
import MiniMuduo.Lib.Search
import Mathlib.Order.Defs.LinearOrder

/-!
# `Buffer`

The byte buffer of `Buffer.hpp`/`Buffer.cpp`: a vector with two indices,

    0 ≤ readerIndex ≤ writerIndex ≤ buffer.size()

whose readable bytes are those between the indices. Pointers into the vector are modelled by their
offsets, `size_t` by `ℕ` (the 64-bit arithmetic of `ensureWriteableBytes` is a matter of its own),
and every `assert` by a fault of the function that contains it.

Two layers. `Buffer` is the representation as the code has it, with fallible operations. `WfBuffer`
carries the index invariant as a field; on it `append` cannot fail, and an operation is determined
by what it does to `readable`, which is all that the connection and the HTTP parser look at.
-/

namespace MiniMuduo

open Fallible

abbrev Bytes := List UInt8

/-- Bytes compare as unsigned numbers, as the characters of a `std::string` do. -/
instance byteOrder : LinearOrder UInt8 where
  le_refl := UInt8.le_refl
  le_trans _ _ _ := UInt8.le_trans
  le_antisymm _ _ := UInt8.le_antisymm
  le_total := UInt8.le_total
  lt_iff_le_not_ge _ _ := by
    rw [UInt8.not_le]
    exact ⟨fun h => ⟨UInt8.le_of_lt h, h⟩, And.right⟩
  toDecidableLE := inferInstance

/-- The bytes of an ASCII text. -/
def ascii (cs : List Char) : Bytes := cs.map fun c => UInt8.ofNat c.toNat

def CR : UInt8 := 13
def LF : UInt8 := 10

/-- `Buffer::kCRLF`. -/
def kCRLF : Bytes := [CR, LF]

def kCheapPrepend : ℕ := 8
def kInitialSize : ℕ := 1024

/-! ## The vector -/

/-- `vector::resize`: cut off the end, or extend it with zeros. -/
def resize (l : Bytes) (n : ℕ) : Bytes := l.take n ++ List.replicate (n - l.length) 0

/-- `std::copy` of `data` to the offset `pos`. -/
def overwrite (l : Bytes) (pos : ℕ) (data : Bytes) : Bytes :=
  l.take pos ++ (data ++ l.drop (pos + data.length))

@[simp] theorem length_resize (l : Bytes) (n : ℕ) : (resize l n).length = n := by
  simp only [resize, List.length_append, List.length_take, List.length_replicate]
  omega

theorem take_resize {l : Bytes} {n k : ℕ} (hk : k ≤ n) (hl : k ≤ l.length) :
    (resize l n).take k = l.take k := by
  rw [resize, List.take_append_of_le_length (by rw [List.length_take]; omega), List.take_take,
    min_eq_left hk]

theorem length_overwrite {l : Bytes} {pos : ℕ} {data : Bytes} (h : pos + data.length ≤ l.length) :
    (overwrite l pos data).length = l.length := by
  simp only [overwrite, List.length_append, List.length_take, List.length_drop]
  omega

theorem take_overwrite {l : Bytes} {pos : ℕ} {data : Bytes} (h : pos ≤ l.length) :
    (overwrite l pos data).take (pos + data.length) = l.take pos ++ data := by
  rw [overwrite, ← List.append_assoc, List.take_left']
  rw [List.length_append, List.length_take, min_eq_left h]

/-! ## The representation -/

structure Buffer where
  buffer : Bytes
  readerIndex : ℕ
  writerIndex : ℕ
  deriving DecidableEq, Repr

namespace Buffer

/-- The asserts of `Buffer`, by the function they stand in. -/
inductive Fault where
  | ensureWriteableBytes
  | makeSpacePrependable
  | makeSpaceReadable
  | retrieve
  | retrieveUntil
  | prepend
  deriving DecidableEq, Repr

/-- `Buffer::Buffer()`. -/
def new : Buffer where
  buffer := List.replicate (kCheapPrepend + kInitialSize) 0
  readerIndex := kCheapPrepend
  writerIndex := kCheapPrepend

def readableBytes (b : Buffer) : ℕ := b.writerIndex - b.readerIndex
def writeableBytes (b : Buffer) : ℕ := b.buffer.length - b.writerIndex
def prependableBytes (b : Buffer) : ℕ := b.readerIndex

def peek (b : Buffer) : ℕ := b.readerIndex
def beginWrite (b : Buffer) : ℕ := b.writerIndex

/-- The bytes from the offset `start` up to, not including, the offset `stop`. -/
def slice (b : Buffer) (start stop : ℕ) : Bytes := (b.buffer.take stop).drop start

/-- The readable bytes, `[peek(), beginWrite())`. -/
def readable (b : Buffer) : Bytes := b.slice b.peek b.beginWrite

def hasWritten (b : Buffer) (len : ℕ) : Buffer := { b with writerIndex := b.writerIndex + len }

def makeSpace (b : Buffer) (len : ℕ) : Except Fault Buffer := do
  if b.writeableBytes + b.prependableBytes < len + kCheapPrepend then
    return { b with buffer := resize b.buffer (b.writerIndex + len) }
  else
    -- move readable data to the front
    check (kCheapPrepend < b.readerIndex) .makeSpacePrependable
    let readable := b.readableBytes
    let moved : Buffer :=
      { buffer := overwrite b.buffer kCheapPrepend b.readable
        readerIndex := kCheapPrepend
        writerIndex := kCheapPrepend + readable }
    check (readable = moved.readableBytes) .makeSpaceReadable
    return moved

def ensureWriteableBytes (b : Buffer) (len : ℕ) : Except Fault Buffer := do
  let b' ← if b.writeableBytes < len then b.makeSpace len else pure b
  check (len ≤ b'.writeableBytes) .ensureWriteableBytes
  return b'

def append (b : Buffer) (data : Bytes) : Except Fault Buffer := do
  let b' ← b.ensureWriteableBytes data.length
  return { b' with buffer := overwrite b'.buffer b'.beginWrite data }.hasWritten data.length

/-- The offset of the first CRLF among the readable bytes, or `nullptr`. -/
def findCRLF (b : Buffer) : Option ℕ :=
  (Search.search kCRLF b.readable).map (b.peek + ·)

def retrieve (b : Buffer) (len : ℕ) : Except Fault Buffer := do
  check (len ≤ b.readableBytes) .retrieve
  return { b with readerIndex := b.readerIndex + len }

def retrieveUntil (b : Buffer) (stop : ℕ) : Except Fault Buffer := do
  check (b.peek ≤ stop) .retrieveUntil
  check (stop ≤ b.beginWrite) .retrieveUntil
  b.retrieve (stop - b.peek)

def retrieveAll (b : Buffer) : Buffer :=
  { b with readerIndex := kCheapPrepend, writerIndex := kCheapPrepend }

def retrieveAsString (b : Buffer) : Bytes × Buffer := (b.readable, b.retrieveAll)

def prepend (b : Buffer) (data : Bytes) : Except Fault Buffer := do
  check (data.length ≤ b.prependableBytes) .prepend
  let reader := b.readerIndex - data.length
  return { b with buffer := overwrite b.buffer reader data, readerIndex := reader }

/-- `Buffer::shrink`. The indices are left as they were. -/
def shrink (b : Buffer) (reserve : ℕ) : Buffer :=
  { b with
    buffer := overwrite (List.replicate (kCheapPrepend + b.readableBytes + reserve) 0)
      kCheapPrepend b.readable }

/-- What `readv` answered: an `errno`, or the bytes it filled the two iovecs with in order. -/
inductive ReadResult where
  | error
  | data (bytes : Bytes)
  deriving DecidableEq, Repr

/-- `sizeof(extrabuf)` in `Buffer::readFd`. -/
def extrabufSize : ℕ := 65536

/-- What `readv` can answer for this buffer: at most the two iovecs full. -/
def ReadResult.Fits (b : Buffer) : ReadResult → Prop
  | .error => True
  | .data bytes => bytes.length ≤ b.writeableBytes + extrabufSize

def readFd (b : Buffer) : ReadResult → Except Fault Buffer
  | .error => return b
  | .data bytes =>
      let writeble := b.writeableBytes
      if bytes.length ≤ writeble then
        return { b with buffer := overwrite b.buffer b.writerIndex bytes }.hasWritten bytes.length
      else
        append { b with
            buffer := overwrite b.buffer b.writerIndex (bytes.take writeble)
            writerIndex := b.buffer.length } (bytes.drop writeble)

/-! ## The index invariant -/

/-- `readerIndex ≤ writerIndex ≤ buffer.size()`. -/
structure Wf (b : Buffer) : Prop where
  reader_le : b.readerIndex ≤ b.writerIndex
  writer_le : b.writerIndex ≤ b.buffer.length

variable {b : Buffer}

theorem wf_new : new.Wf := ⟨by simp [new], by simp [new]⟩

@[simp] theorem readable_new : new.readable = [] := by
  simp [readable, slice, new, peek, beginWrite]

theorem Wf.length_readable (h : b.Wf) : b.readable.length = b.readableBytes := by
  have := h.writer_le
  simp [readable, slice, readableBytes, peek, beginWrite, this]

theorem readable_congr {buf : Bytes} (h : buf.take b.writerIndex = b.buffer.take b.writerIndex) :
    readable { b with buffer := buf } = b.readable := by
  simp only [readable, slice, peek, beginWrite, h]

/-- What is readable after the writer index moved over freshly written bytes. -/
theorem Wf.readable_written (h : b.Wf) {buf data : Bytes} {n : ℕ}
    (hbuf : buf.take (b.writerIndex + n) = b.buffer.take b.writerIndex ++ data) :
    readable { b with buffer := buf, writerIndex := b.writerIndex + n } = b.readable ++ data := by
  have hr := h.reader_le
  have hw := h.writer_le
  simp only [readable, slice, peek, beginWrite]
  rw [hbuf, List.drop_append_of_le_length (by rw [List.length_take]; omega)]

/-! ## What the operations do to the readable bytes -/

/-- `makeSpace`, called when there is too little room: either way of making room keeps the content,
and the assert on `readerIndex` holds because the slack that makes sliding worthwhile has to come
from in front of it. -/
theorem Wf.makeSpace (h : b.Wf) {len : ℕ} (hlen : b.writeableBytes < len) :
    ∃ b', b.makeSpace len = .ok b' ∧ b'.Wf ∧ b'.readable = b.readable ∧
      len ≤ b'.writeableBytes := by
  have hr := h.reader_le
  have hw := h.writer_le
  have hread := h.length_readable
  simp only [writeableBytes] at hlen
  simp only [readableBytes] at hread
  by_cases hgrow : b.writeableBytes + b.prependableBytes < len + kCheapPrepend
  · refine ⟨{ b with buffer := resize b.buffer (b.writerIndex + len) }, ?_, ?_, ?_, ?_⟩
    · simp [Buffer.makeSpace, hgrow]
    · exact ⟨hr, by simp⟩
    · exact readable_congr (take_resize (by omega) hw)
    · simp [writeableBytes]
  · have hslack : len + kCheapPrepend ≤ b.buffer.length - b.writerIndex + b.readerIndex := by
      simpa [writeableBytes, prependableBytes] using hgrow
    have hfront : kCheapPrepend < b.readerIndex := by omega
    have hfits : kCheapPrepend + b.readable.length ≤ b.buffer.length := by omega
    have hlength := length_overwrite hfits
    refine ⟨{ buffer := overwrite b.buffer kCheapPrepend b.readable
              readerIndex := kCheapPrepend
              writerIndex := kCheapPrepend + b.readableBytes }, ?_, ?_, ?_, ?_⟩
    · simp [Buffer.makeSpace, hgrow, hfront, readableBytes]
    · refine ⟨by simp, ?_⟩
      simp only [readableBytes, hlength]
      omega
    · show ((overwrite b.buffer kCheapPrepend b.readable).take
        (kCheapPrepend + b.readableBytes)).drop kCheapPrepend = b.readable
      rw [← h.length_readable, take_overwrite (by omega), List.drop_left']
      rw [List.length_take]
      omega
    · simp only [writeableBytes, readableBytes, hlength]
      omega

theorem Wf.ensureWriteableBytes (h : b.Wf) (len : ℕ) :
    ∃ b', b.ensureWriteableBytes len = .ok b' ∧ b'.Wf ∧ b'.readable = b.readable ∧
      len ≤ b'.writeableBytes := by
  by_cases hlen : b.writeableBytes < len
  · obtain ⟨b', hb', hwf, hread, hroom⟩ := h.makeSpace hlen
    refine ⟨b', ?_, hwf, hread, hroom⟩
    simp [Buffer.ensureWriteableBytes, hlen, hb', hroom]
  · have hroom : len ≤ b.writeableBytes := by omega
    refine ⟨b, ?_, h, rfl, hroom⟩
    simp [Buffer.ensureWriteableBytes, hlen, hroom]

/-- `append` adds at the end. -/
theorem Wf.append (h : b.Wf) (data : Bytes) :
    ∃ b', b.append data = .ok b' ∧ b'.Wf ∧ b'.readable = b.readable ++ data := by
  obtain ⟨b₁, hb₁, hwf, hread, hroom⟩ := h.ensureWriteableBytes data.length
  have hr := hwf.reader_le
  have hw := hwf.writer_le
  simp only [writeableBytes] at hroom
  have hlength : (overwrite b₁.buffer b₁.writerIndex data).length = b₁.buffer.length :=
    length_overwrite (by omega)
  refine ⟨{ b₁ with buffer := overwrite b₁.buffer b₁.writerIndex data
                    writerIndex := b₁.writerIndex + data.length }, ?_, ?_, ?_⟩
  · simp [Buffer.append, hb₁, hasWritten, beginWrite]
  · refine ⟨?_, ?_⟩
    · show b₁.readerIndex ≤ b₁.writerIndex + data.length
      omega
    · show b₁.writerIndex + data.length ≤ (overwrite b₁.buffer b₁.writerIndex data).length
      omega
  · rw [hwf.readable_written (take_overwrite hw), hread]

/-- `readFd` adds exactly the bytes read, wherever they were split between the vector and
`extrabuf`. -/
theorem Wf.readFd (h : b.Wf) (bytes : Bytes) :
    ∃ b', b.readFd (.data bytes) = .ok b' ∧ b'.Wf ∧ b'.readable = b.readable ++ bytes := by
  have hr := h.reader_le
  have hw := h.writer_le
  by_cases hfits : bytes.length ≤ b.writeableBytes
  · have hroom : b.writerIndex + bytes.length ≤ b.buffer.length := by
      simp only [writeableBytes] at hfits
      omega
    refine ⟨{ b with buffer := overwrite b.buffer b.writerIndex bytes
                     writerIndex := b.writerIndex + bytes.length }, ?_, ?_, ?_⟩
    · simp [Buffer.readFd, hfits, hasWritten]
    · refine ⟨?_, ?_⟩
      · show b.readerIndex ≤ b.writerIndex + bytes.length
        omega
      · show b.writerIndex + bytes.length ≤ (overwrite b.buffer b.writerIndex bytes).length
        rw [length_overwrite hroom]
        exact hroom
    · exact h.readable_written (take_overwrite hw)
  · have hlen : (bytes.take b.writeableBytes).length = b.writeableBytes := by
      rw [List.length_take]
      omega
    have hend : b.buffer.length = b.writerIndex + (bytes.take b.writeableBytes).length := by
      rw [hlen, writeableBytes]
      omega
    have hlength : (overwrite b.buffer b.writerIndex (bytes.take b.writeableBytes)).length =
        b.buffer.length := length_overwrite hend.ge
    -- the vector is full; the rest goes through `extrabuf`
    have hfull : Wf { b with
        buffer := overwrite b.buffer b.writerIndex (bytes.take b.writeableBytes)
        writerIndex := b.buffer.length } :=
      ⟨hr.trans hw, hlength.ge⟩
    obtain ⟨b', hb', hwf', hread⟩ := hfull.append (bytes.drop b.writeableBytes)
    refine ⟨b', ?_, hwf', ?_⟩
    · simp only [Buffer.readFd, hfits, if_false]
      exact hb'
    · rw [hread]
      simp only [hend]
      rw [h.readable_written (take_overwrite hw), List.append_assoc, List.take_append_drop]

/-- `retrieve` drops from the front. -/
theorem Wf.retrieve (h : b.Wf) {len : ℕ} (hlen : len ≤ b.readable.length) :
    ∃ b', b.retrieve len = .ok b' ∧ b'.Wf ∧ b'.readable = b.readable.drop len := by
  rw [h.length_readable] at hlen
  have hr := h.reader_le
  have hlen' : len ≤ b.writerIndex - b.readerIndex := hlen
  refine ⟨{ b with readerIndex := b.readerIndex + len }, ?_, ?_, ?_⟩
  · simp [Buffer.retrieve, hlen]
  · refine ⟨?_, h.writer_le⟩
    show b.readerIndex + len ≤ b.writerIndex
    omega
  · simp only [readable, slice, peek, beginWrite, List.drop_drop]

/-- `retrieveUntil` at an offset inside the readable bytes. -/
theorem Wf.retrieveUntil (h : b.Wf) {len : ℕ} (hlen : len ≤ b.readable.length) :
    ∃ b', b.retrieveUntil (b.peek + len) = .ok b' ∧ b'.Wf ∧
      b'.readable = b.readable.drop len := by
  obtain ⟨b', hb', hwf, hread⟩ := h.retrieve hlen
  refine ⟨b', ?_, hwf, hread⟩
  rw [h.length_readable] at hlen
  have hr := h.reader_le
  have hstop : b.peek + len ≤ b.beginWrite := by
    simp only [peek, beginWrite, readableBytes] at hlen ⊢
    omega
  simp [Buffer.retrieveUntil, hstop, hb']

/-- The bytes from `peek` to an offset inside the readable bytes. -/
theorem Wf.slice_peek (h : b.Wf) {len : ℕ} (hlen : len ≤ b.readable.length) :
    b.slice b.peek (b.peek + len) = b.readable.take len := by
  rw [h.length_readable] at hlen
  have hr := h.reader_le
  simp only [slice, readable, peek, beginWrite, readableBytes] at hlen ⊢
  rw [List.take_drop, List.take_take, min_eq_left (by omega)]

theorem wf_retrieveAll (h : kCheapPrepend ≤ b.buffer.length) : b.retrieveAll.Wf :=
  ⟨le_refl _, h⟩

end Buffer

/-! ## Buffers that keep the invariant -/

/-- A buffer together with its index invariant. -/
structure WfBuffer where
  val : Buffer
  wf : val.Wf

namespace WfBuffer

def new : WfBuffer := ⟨.new, Buffer.wf_new⟩

def readable (b : WfBuffer) : Bytes := b.val.readable

/-- `append`, which no assert stops on a well-formed buffer. -/
def append (b : WfBuffer) (data : Bytes) : WfBuffer :=
  match h : b.val.append data with
  | .ok b' => ⟨b', by
      obtain ⟨c, hc, hwf, -⟩ := b.wf.append data
      rw [h, Except.ok.injEq] at hc
      exact hc ▸ hwf⟩
  | .error _ => b

/-- `readFd`, likewise. -/
def readFd (b : WfBuffer) (bytes : Bytes) : WfBuffer :=
  match h : b.val.readFd (.data bytes) with
  | .ok b' => ⟨b', by
      obtain ⟨c, hc, hwf, -⟩ := b.wf.readFd bytes
      rw [h, Except.ok.injEq] at hc
      exact hc ▸ hwf⟩
  | .error _ => b

/-- `retrieve`, with its assert. -/
def retrieve (b : WfBuffer) (len : ℕ) : Except Buffer.Fault WfBuffer :=
  if h : len ≤ b.readable.length then
    match h' : b.val.retrieve len with
    | .ok b' => .ok ⟨b', by
        obtain ⟨c, hc, hwf, -⟩ := b.wf.retrieve h
        rw [h', Except.ok.injEq] at hc
        exact hc ▸ hwf⟩
    | .error e => .error e
  else .error .retrieve

@[simp] theorem readable_new : new.readable = [] := Buffer.readable_new

theorem val_append (b : WfBuffer) (data : Bytes) :
    b.val.append data = .ok (b.append data).val := by
  obtain ⟨c, hc, -, -⟩ := b.wf.append data
  rw [append]
  split
  · next h => exact h
  · next h => rw [hc] at h; cases h

@[simp] theorem readable_append (b : WfBuffer) (data : Bytes) :
    (b.append data).readable = b.readable ++ data := by
  obtain ⟨c, hc, -, hread⟩ := b.wf.append data
  rw [val_append, Except.ok.injEq] at hc
  rw [readable, hc, hread, readable]

@[simp] theorem readable_readFd (b : WfBuffer) (bytes : Bytes) :
    (b.readFd bytes).readable = b.readable ++ bytes := by
  obtain ⟨c, hc, -, hread⟩ := b.wf.readFd bytes
  unfold readFd
  split
  · next b' h =>
      rw [hc, Except.ok.injEq] at h
      subst h
      exact hread
  · next h =>
      rw [hc] at h
      cases h

theorem retrieve_ok (b : WfBuffer) {len : ℕ} (h : len ≤ b.readable.length) :
    ∃ b', b.retrieve len = .ok b' ∧ b.val.retrieve len = .ok b'.val ∧
      b'.readable = b.readable.drop len := by
  obtain ⟨c, hc, hwf, hread⟩ := b.wf.retrieve h
  refine ⟨⟨c, hwf⟩, ?_, hc, hread⟩
  rw [retrieve, dif_pos h]
  split
  · next h' =>
      rw [hc, Except.ok.injEq] at h'
      subst h'
      rfl
  · next h' => rw [hc] at h'; cases h'

theorem retrieve_of_lt (b : WfBuffer) {len : ℕ} (h : b.readable.length < len) :
    b.retrieve len = .error .retrieve := by
  rw [retrieve, dif_neg (by omega)]

theorem readable_of_retrieve {b b' : WfBuffer} {len : ℕ} (h : b.retrieve len = .ok b') :
    len ≤ b.readable.length ∧ b'.readable = b.readable.drop len := by
  rcases Nat.lt_or_ge b.readable.length len with hlt | hle
  · rw [retrieve_of_lt b hlt] at h
    cases h
  · obtain ⟨c, hc, -, hread⟩ := b.retrieve_ok hle
    rw [h, Except.ok.injEq] at hc
    exact ⟨hle, hc ▸ hread⟩

end WfBuffer

end MiniMuduo
