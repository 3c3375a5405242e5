import MiniMuduo.ByteQueue
import Mathlib.Algebra.Group.Nat.Defs

/-!
# `ensureWriteableBytes` in 64 bits

`Buffer` computes with unbounded numbers. Here the functions that make room are written with
`size_t`: every sum and every difference is taken modulo `2 ^ 64`, and `vector::resize` throws
`length_error`, without having changed anything, when the new size is above `max_size()`.

Two sums can wrap. When `writerIndex_ + len` does, the vector is cut off below the writer index, and
the assert at the end, which wraps as well, does not see it. When `len + kCheapPrepend` does, the
code goes on to slide the readable bytes although that makes too little room. Where neither happens
the functions compute what their counterparts on `ℕ` compute.
-/

namespace MiniMuduo

open Fallible

namespace Buffer

/-! ## `size_t` -/

/-- `a + b` of two `size_t`. -/
def addSize (a b : ℕ) : ℕ := (a + b) % 2 ^ 64

/-- `a - b` of two `size_t`. -/
def subSize (a b : ℕ) : ℕ := (a + (2 ^ 64 - b)) % 2 ^ 64

/-- `vector<char>::max_size()`. -/
def maxSize : ℕ := 2 ^ 63 - 1

theorem addSize_of_lt {a b : ℕ} (h : a + b < 2 ^ 64) : addSize a b = a + b := Nat.mod_eq_of_lt h

theorem addSize_of_le {a b : ℕ} (ha : a < 2 ^ 64) (hb : b < 2 ^ 64) (h : 2 ^ 64 ≤ a + b) :
    addSize a b = a + b - 2 ^ 64 := by
  rw [addSize]
  omega

theorem subSize_of_le {a b : ℕ} (ha : a < 2 ^ 64) (h : b ≤ a) : subSize a b = a - b := by
  rw [subSize]
  omega

/-! ## Making room -/

/-- How `ensureWriteableBytes` can end without returning: by an exception, with the buffer as it is
then, or by a failed assert. -/
inductive Stop where
  | lengthError (b : Buffer)
  | assertFailed (f : Fault)
  deriving DecidableEq, Repr

def readableBytes64 (b : Buffer) : ℕ := subSize b.writerIndex b.readerIndex
def writeableBytes64 (b : Buffer) : ℕ := subSize b.buffer.length b.writerIndex

/-- `buffer_.resize(n)`. -/
def resizeBuffer (b : Buffer) (n : ℕ) : Except Stop Buffer :=
  if maxSize < n then .error (.lengthError b) else .ok { b with buffer := resize b.buffer n }

def makeSpace64 (b : Buffer) (len : ℕ) : Except Stop Buffer := do
  if addSize b.writeableBytes64 b.prependableBytes < addSize len kCheapPrepend then
    b.resizeBuffer (addSize b.writerIndex len)
  else
    -- move readable data to the front
    check (kCheapPrepend < b.readerIndex) (.assertFailed .makeSpacePrependable)
    let readable := b.readableBytes64
    let moved : Buffer :=
      { buffer := overwrite b.buffer kCheapPrepend b.readable
        readerIndex := kCheapPrepend
        writerIndex := addSize kCheapPrepend readable }
    check (readable = moved.readableBytes64) (.assertFailed .makeSpaceReadable)
    return moved

def ensureWriteableBytes64 (b : Buffer) (len : ℕ) : Except Stop Buffer := do
  let b' ← if b.writeableBytes64 < len then b.makeSpace64 len else pure b
  check (len ≤ b'.writeableBytes64) (.assertFailed .ensureWriteableBytes)
  return b'

/-! ## A buffer in memory -/

/-- The index invariant, with a vector that fits in memory. -/
structure InMemory (b : Buffer) : Prop extends b.Wf where
  size_lt : b.buffer.length < 2 ^ 63

variable {b : Buffer} {len : ℕ}

theorem InMemory.readableBytes64 (h : b.InMemory) : b.readableBytes64 = b.readableBytes := by
  have hr := h.reader_le
  have hw := h.writer_le
  have hs := h.size_lt
  exact subSize_of_le (by omega) hr

theorem InMemory.writeableBytes64 (h : b.InMemory) : b.writeableBytes64 = b.writeableBytes := by
  have hs := h.size_lt
  exact subSize_of_le (by omega) h.writer_le

/-- What is free in front and at the end is less than the vector, and does not wrap. -/
theorem InMemory.free (h : b.InMemory) :
    b.writeableBytes + b.prependableBytes ≤ b.buffer.length ∧
      addSize b.writeableBytes64 b.prependableBytes = b.writeableBytes + b.prependableBytes := by
  have hr := h.reader_le
  have hw := h.writer_le
  have hs := h.size_lt
  have hfree : b.writeableBytes + b.prependableBytes ≤ b.buffer.length := by
    rw [writeableBytes, prependableBytes]
    omega
  refine ⟨hfree, ?_⟩
  rw [h.writeableBytes64]
  exact addSize_of_lt (by omega)

/-- The readable bytes slid to the front of the vector. -/
def slid (b : Buffer) : Buffer where
  buffer := overwrite b.buffer kCheapPrepend b.readable
  readerIndex := kCheapPrepend
  writerIndex := kCheapPrepend + b.readableBytes

/-- Sliding does not wrap. -/
theorem InMemory.makeSpace64_of_not_grow (h : b.InMemory)
    (hgrow : ¬ b.writeableBytes + b.prependableBytes < addSize len kCheapPrepend) :
    b.makeSpace64 len =
      (check (kCheapPrepend < b.readerIndex) (.assertFailed .makeSpacePrependable) >>=
        fun _ => .ok b.slid) := by
  have hs := h.size_lt
  have hread : b.readableBytes ≤ b.buffer.length := by
    have hw := h.writer_le
    rw [readableBytes]
    omega
  have hwriter : addSize kCheapPrepend b.readableBytes64 = kCheapPrepend + b.readableBytes := by
    rw [h.readableBytes64, kCheapPrepend]
    exact addSize_of_lt (by omega)
  have hback : subSize (kCheapPrepend + b.readableBytes) kCheapPrepend = b.readableBytes := by
    rw [subSize_of_le (by rw [kCheapPrepend]; omega) (by omega), Nat.add_sub_cancel_left]
  rw [← h.free.2] at hgrow
  unfold makeSpace64
  rw [if_neg hgrow]
  simp only [hwriter]
  rw [h.readableBytes64, Buffer.readableBytes64, hback, check_of_pos rfl]
  rfl

theorem InMemory.makeSpace64_of_grow (h : b.InMemory)
    (hgrow : b.writeableBytes + b.prependableBytes < addSize len kCheapPrepend) :
    b.makeSpace64 len = b.resizeBuffer (addSize b.writerIndex len) := by
  rw [← h.free.2] at hgrow
  unfold makeSpace64
  rw [if_pos hgrow]

/-! ## What `ensureWriteableBytes` is for -/

/-- How a call of `ensureWriteableBytes(len)` may end: with the same readable bytes, the indices in
order and room for `len` bytes in a vector that did not get smaller, or by an exception that
changed nothing. -/
inductive MakesRoom (b : Buffer) (len : ℕ) : Except Stop Buffer → Prop where
  | returned {b' : Buffer} :
      b'.readable = b.readable → b'.readerIndex ≤ b'.writerIndex →
      b'.writerIndex ≤ b'.buffer.length → len ≤ b'.buffer.length - b'.writerIndex →
      b.buffer.length ≤ b'.buffer.length → MakesRoom b len (.ok b')
  | thrown : MakesRoom b len (.error (.lengthError b))

theorem MakesRoom.writer_le {b' : Buffer} (h : MakesRoom b len (.ok b')) :
    b'.writerIndex ≤ b'.buffer.length := by
  cases h with
  | returned _ _ hwriter _ _ => exact hwriter

/-- Neither sum wraps, or the second one wraps and is still more than what is free. -/
def Unwrapped (b : Buffer) (len : ℕ) : Prop :=
  b.writerIndex + len < 2 ^ 64 ∧
    (len + kCheapPrepend < 2 ^ 64 ∨
      b.writeableBytes + b.prependableBytes + 2 ^ 64 < len + kCheapPrepend)

instance (b : Buffer) (len : ℕ) : Decidable (b.Unwrapped len) :=
  inferInstanceAs (Decidable (_ ∧ (_ ∨ _)))

theorem InMemory.ensureWriteableBytes64_of_le (h : b.InMemory) (hle : len ≤ b.writeableBytes) :
    b.ensureWriteableBytes64 len = .ok b := by
  rw [← h.writeableBytes64] at hle
  unfold Buffer.ensureWriteableBytes64
  simp [hle, hle.not_gt]

theorem InMemory.ensureWriteableBytes64_of_lt (h : b.InMemory) (hlt : b.writeableBytes < len) :
    b.ensureWriteableBytes64 len = (b.makeSpace64 len >>= fun b' =>
      check (len ≤ b'.writeableBytes64) (.assertFailed .ensureWriteableBytes) >>= fun _ =>
        .ok b') := by
  rw [← h.writeableBytes64] at hlt
  unfold Buffer.ensureWriteableBytes64
  simp [hlt]

/-! ### Where nothing wraps -/

theorem InMemory.resized (h : b.InMemory) {n : ℕ} (hn : n ≤ maxSize)
    (hwriter : b.writerIndex ≤ n) : InMemory { b with buffer := resize b.buffer n } where
  reader_le := h.reader_le
  writer_le := by
    show b.writerIndex ≤ (resize b.buffer n).length
    rw [length_resize]
    exact hwriter
  size_lt := by
    show (resize b.buffer n).length < 2 ^ 63
    rw [length_resize]
    rw [maxSize] at hn
    omega

/-- The slack that makes `makeSpace` slide has to come from in front of the readable bytes. -/
theorem reader_of_slack (hlt : b.writeableBytes < len)
    (hgrow : ¬ b.writeableBytes + b.prependableBytes < len + kCheapPrepend) :
    kCheapPrepend < b.readerIndex := by
  rw [prependableBytes] at hgrow
  omega

theorem InMemory.slid (h : b.InMemory) (hfront : kCheapPrepend < b.readerIndex) :
    b.slid.InMemory ∧ b.slid.buffer.length = b.buffer.length := by
  have hr := h.reader_le
  have hw := h.writer_le
  have hread := h.length_readable
  rw [readableBytes] at hread
  have hsize : b.slid.buffer.length = b.buffer.length := length_overwrite (by omega)
  refine ⟨⟨⟨?_, ?_⟩, ?_⟩, hsize⟩
  · exact Nat.le_add_right _ _
  · rw [hsize]
    show kCheapPrepend + (b.writerIndex - b.readerIndex) ≤ b.buffer.length
    omega
  · rw [hsize]
    exact h.size_lt

/-- In 64 bits `makeSpace` throws, or it does what it does on `ℕ`. -/
theorem InMemory.makeSpace64_eq (h : b.InMemory) (hlen : len < 2 ^ 64)
    (hlt : b.writeableBytes < len) (hunwrapped : b.Unwrapped len) :
    b.makeSpace64 len = .error (.lengthError b) ∨
      ∃ b', b.makeSpace64 len = .ok b' ∧ b.makeSpace len = .ok b' ∧ b'.InMemory := by
  obtain ⟨hwriter, hprepend⟩ := hunwrapped
  rcases Nat.lt_or_ge (len + kCheapPrepend) (2 ^ 64) with hsum | hwraps
  · by_cases hgrow : b.writeableBytes + b.prependableBytes < len + kCheapPrepend
    · have hgrow64 : b.writeableBytes + b.prependableBytes < addSize len kCheapPrepend := by
        rwa [addSize_of_lt hsum]
      have hresize := h.makeSpace64_of_grow hgrow64
      rw [addSize_of_lt hwriter] at hresize
      rcases Nat.lt_or_ge maxSize (b.writerIndex + len) with hbig | hfits
      · left
        rw [hresize, resizeBuffer, if_pos hbig]
      · right
        refine ⟨{ b with buffer := resize b.buffer (b.writerIndex + len) }, ?_, ?_, ?_⟩
        · rw [hresize, resizeBuffer, if_neg hfits.not_gt]
        · simp [Buffer.makeSpace, hgrow]
        · exact h.resized hfits (Nat.le_add_right _ _)
    · right
      have hfront := reader_of_slack hlt hgrow
      refine ⟨b.slid, ?_, ?_, (h.slid hfront).1⟩
      · rw [h.makeSpace64_of_not_grow (by rwa [addSize_of_lt hsum]), check_of_pos hfront]
        rfl
      · simp [Buffer.makeSpace, hgrow, hfront, readableBytes, Buffer.slid]
  · -- so large that `resize` throws
    left
    have hgrow : b.writeableBytes + b.prependableBytes < addSize len kCheapPrepend := by
      rw [addSize_of_le hlen (by decide) hwraps]
      omega
    rw [h.makeSpace64_of_grow hgrow, addSize_of_lt hwriter, resizeBuffer, if_pos]
    rw [kCheapPrepend] at hwraps
    rw [maxSize]
    omega

theorem InMemory.makesRoom_of_unwrapped (h : b.InMemory) (hlen : len < 2 ^ 64)
    (hunwrapped : b.Unwrapped len) : MakesRoom b len (b.ensureWriteableBytes64 len) := by
  rcases Nat.lt_or_ge b.writeableBytes len with hlt | hle
  · rw [h.ensureWriteableBytes64_of_lt hlt]
    rcases h.makeSpace64_eq hlen hlt hunwrapped with hthrown | ⟨b', hb', hmake, hmem⟩
    · rw [hthrown]
      exact .thrown
    · obtain ⟨c, hc, -, hread, hroom⟩ := h.toWf.makeSpace hlt
      cases hmake.symm.trans hc
      rw [hb', ok_bind, hmem.writeableBytes64, check_of_pos hroom]
      exact .returned hread hmem.reader_le hmem.writer_le hroom (makeSpace_length hlt hmake)
  · rw [h.ensureWriteableBytes64_of_le hle]
    exact .returned rfl h.reader_le h.writer_le hle (le_refl _)

/-! ### Where a sum wraps -/

/-- The vector is cut off below the writer index. -/
theorem InMemory.not_makesRoom_of_cut (h : b.InMemory) (hlen : len < 2 ^ 64)
    (hcut : 2 ^ 64 ≤ b.writerIndex + len) (hlt : b.writeableBytes < len)
    (hgrow : b.writeableBytes + b.prependableBytes < addSize len kCheapPrepend) :
    ¬ MakesRoom b len (b.ensureWriteableBytes64 len) := by
  have hs := h.size_lt
  have hw := h.writer_le
  have hsum : addSize b.writerIndex len = b.writerIndex + len - 2 ^ 64 :=
    addSize_of_le (by omega) hlen hcut
  have hfits : ¬ maxSize < b.writerIndex + len - 2 ^ 64 := by
    rw [maxSize]
    omega
  rw [h.ensureWriteableBytes64_of_lt hlt, h.makeSpace64_of_grow hgrow, hsum, resizeBuffer,
    if_neg hfits, ok_bind]
  by_cases hcheck : len ≤ Buffer.writeableBytes64
      { b with buffer := resize b.buffer (b.writerIndex + len - 2 ^ 64) }
  · rw [check_of_pos hcheck, ok_bind]
    intro hroom
    have hwriter := hroom.writer_le
    simp only [length_resize] at hwriter
    omega
  · rw [check_of_neg hcheck, error_bind]
    intro hroom
    cases hroom

/-- The readable bytes are slid although the vector is too small. -/
theorem InMemory.not_makesRoom_of_slide (h : b.InMemory) (hbig : b.buffer.length < len)
    (hgrow : ¬ b.writeableBytes + b.prependableBytes < addSize len kCheapPrepend) :
    ¬ MakesRoom b len (b.ensureWriteableBytes64 len) := by
  have hlt : b.writeableBytes < len := lt_of_le_of_lt (Nat.sub_le _ _) hbig
  rw [h.ensureWriteableBytes64_of_lt hlt, h.makeSpace64_of_not_grow hgrow]
  by_cases hfront : kCheapPrepend < b.readerIndex
  · obtain ⟨hmem, hsize⟩ := h.slid hfront
    have hroom : ¬ len ≤ b.slid.writeableBytes64 := by
      rw [hmem.writeableBytes64, writeableBytes, hsize]
      omega
    rw [check_of_pos hfront, ok_bind, ok_bind, check_of_neg hroom, error_bind]
    intro hroom
    cases hroom
  · rw [check_of_neg hfront, error_bind, error_bind]
    intro hroom
    cases hroom

/-- **`ensureWriteableBytes` in 64 bits** makes room, or throws, just when `writerIndex_ + len` does
not wrap, and `len + kCheapPrepend` does not wrap below what is free. -/
theorem makesRoom_iff (hb : b.InMemory) (hlen : len < 2 ^ 64) :
    MakesRoom b len (b.ensureWriteableBytes64 len) ↔ b.Unwrapped len := by
  refine ⟨fun hroom => ?_, hb.makesRoom_of_unwrapped hlen⟩
  have hs := hb.size_lt
  have hw := hb.writer_le
  have hfree := hb.free.1
  by_contra hwrapped
  by_cases hgrow : b.writeableBytes + b.prependableBytes < addSize len kCheapPrepend
  · have hcut : 2 ^ 64 ≤ b.writerIndex + len := by
      by_contra hcut
      apply hwrapped
      refine ⟨by omega, ?_⟩
      rcases Nat.lt_or_ge (len + kCheapPrepend) (2 ^ 64) with hsum | hwraps
      · exact .inl hsum
      · rw [addSize_of_le hlen (by decide) hwraps] at hgrow
        exact .inr (by omega)
    exact hb.not_makesRoom_of_cut hlen hcut (by rw [writeableBytes]; omega) hgrow hroom
  · have hbig : b.buffer.length < len := by
      by_contra hsmall
      apply hwrapped
      rw [Unwrapped, kCheapPrepend]
      omega
    exact hb.not_makesRoom_of_slide hbig hgrow hroom

/-- The writer index of a buffer in use is never below `kCheapPrepend`; then one sum is enough. -/
theorem unwrapped_iff_of_le (hwriter : kCheapPrepend ≤ b.writerIndex) :
    b.Unwrapped len ↔ b.writerIndex + len < 2 ^ 64 := by
  rw [Unwrapped]
  omega

theorem inMemory_new : new.InMemory where
  toWf := wf_new
  size_lt := by
    rw [new, List.length_replicate]
    decide

theorem makesRoom_iff_new : MakesRoom new 2000 (new.ensureWriteableBytes64 2000) :=
  (makesRoom_iff inMemory_new (by decide)).mpr (by decide +kernel)

/-- For a new buffer and `len = 2 ^ 64 - 8` the code tries to slide an empty buffer. -/
theorem not_makesRoom_new :
    ¬ ∀ (b : Buffer) (len : ℕ), b.InMemory → len < 2 ^ 64 →
      MakesRoom b len (b.ensureWriteableBytes64 len) := by
  intro hall
  have hroom := hall new (2 ^ 64 - 8) inMemory_new (by decide)
  have hstop : new.ensureWriteableBytes64 (2 ^ 64 - 8) =
      .error (.assertFailed .makeSpacePrependable) := by decide +kernel
  rw [hstop] at hroom
  cases hroom

/-- One byte readable and `len = 2 ^ 64 - 9`: the vector is emptied, and no assert sees it. -/
example : ensureWriteableBytes64 { new with writerIndex := 9 } (2 ^ 64 - 9) =
    .ok { buffer := [], readerIndex := 8, writerIndex := 9 } := by decide +kernel

end Buffer

end MiniMuduo
