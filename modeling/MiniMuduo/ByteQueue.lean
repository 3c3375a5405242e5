import MiniMuduo.Buffer
import MiniMuduo.Lib.Refinement

/-!
# `Buffer` is a byte queue

Any number of buffers, and any sequence of their operations that respects what the operations ask of
their caller (`Allowed`). Each buffer is a plain queue of bytes: `append`, `hasWritten` and `readFd`
add at the end, `prepend` adds at the front, `retrieve` and its relatives drop from the front, `swap`
exchanges two queues, and making room changes nothing. No assert fails on the way.
-/

namespace MiniMuduo

open Fallible

/-! ## The vector does not shrink -/

theorem le_length_overwrite (l : Bytes) (pos : ℕ) (data : Bytes) :
    l.length ≤ (overwrite l pos data).length := by
  simp only [overwrite, List.length_append, List.length_take, List.length_drop]
  omega

theorem drop_take_overwrite {l : Bytes} {pos stop : ℕ} {data : Bytes}
    (hstop : pos + data.length ≤ stop) (hl : stop ≤ l.length) :
    ((overwrite l pos data).take stop).drop pos = data ++ (l.take stop).drop (pos + data.length) := by
  have hpos : (l.take pos).length = pos := by
    rw [List.length_take]
    omega
  unfold overwrite
  rw [List.drop_take, List.drop_left' hpos, List.take_append, List.take_of_length_le (by omega),
    List.drop_take]
  congr 2
  omega

namespace Buffer

variable {b b' : Buffer}

theorem makeSpace_length {len : ℕ} (hlen : b.writeableBytes < len) (h : b.makeSpace len = .ok b') :
    b.buffer.length ≤ b'.buffer.length := by
  unfold makeSpace at h
  unfold writeableBytes at hlen
  split at h
  · cases h
    rw [length_resize]
    omega
  · simp only [bind_eq_ok, check_eq_ok, pure_eq_ok, Except.ok.injEq] at h
    obtain ⟨-, -, -, -, rfl⟩ := h
    exact le_length_overwrite _ _ _

theorem ensureWriteableBytes_length {len : ℕ} (h : b.ensureWriteableBytes len = .ok b') :
    b.buffer.length ≤ b'.buffer.length := by
  unfold ensureWriteableBytes at h
  dsimp only at h
  split at h
  · next hlen =>
      obtain ⟨b₁, hb₁, h⟩ := bind_eq_ok.mp h
      obtain ⟨-, -, h⟩ := bind_eq_ok.mp h
      cases h
      exact makeSpace_length hlen hb₁
  · obtain ⟨b₁, hb₁, h⟩ := bind_eq_ok.mp h
    cases hb₁
    obtain ⟨-, -, h⟩ := bind_eq_ok.mp h
    cases h
    exact le_refl _

theorem append_length {data : Bytes} (h : b.append data = .ok b') :
    b.buffer.length ≤ b'.buffer.length := by
  unfold append at h
  simp only [bind_eq_ok, pure_eq_ok, Except.ok.injEq] at h
  obtain ⟨b₁, hb₁, rfl⟩ := h
  exact (ensureWriteableBytes_length hb₁).trans (le_length_overwrite _ _ _)

theorem readFd_length {r : ReadResult} (h : b.readFd r = .ok b') :
    b.buffer.length ≤ b'.buffer.length := by
  cases r with
  | error =>
      cases h
      exact le_refl _
  | data bytes =>
      unfold readFd at h
      dsimp only at h
      split at h
      · cases h
        exact le_length_overwrite _ _ _
      · exact (le_length_overwrite _ _ _).trans (append_length h)

theorem retrieve_length {len : ℕ} (h : b.retrieve len = .ok b') :
    b.buffer.length ≤ b'.buffer.length := by
  unfold retrieve at h
  obtain ⟨-, -, h⟩ := bind_eq_ok.mp h
  cases h
  exact le_refl _

theorem retrieveUntil_length {stop : ℕ} (h : b.retrieveUntil stop = .ok b') :
    b.buffer.length ≤ b'.buffer.length := by
  unfold retrieveUntil at h
  obtain ⟨-, -, h⟩ := bind_eq_ok.mp h
  obtain ⟨-, -, h⟩ := bind_eq_ok.mp h
  exact retrieve_length h

/-! ## The remaining operations -/

/-- `prepend` adds at the front. -/
theorem Wf.prepend (h : b.Wf) {data : Bytes} (hdata : data.length ≤ b.prependableBytes) :
    ∃ b', b.prepend data = .ok b' ∧ b'.Wf ∧ b'.readable = data ++ b.readable ∧
      b.buffer.length ≤ b'.buffer.length := by
  have hr := h.reader_le
  have hw := h.writer_le
  have hdata' : data.length ≤ b.readerIndex := hdata
  have hlen := le_length_overwrite b.buffer (b.readerIndex - data.length) data
  refine ⟨⟨overwrite b.buffer (b.readerIndex - data.length) data, b.readerIndex - data.length,
    b.writerIndex⟩, ?_, ⟨?_, ?_⟩, ?_, hlen⟩
  · unfold Buffer.prepend
    rw [check_of_pos hdata]
    rfl
  · show b.readerIndex - data.length ≤ b.writerIndex
    omega
  · exact hw.trans hlen
  · show ((overwrite b.buffer (b.readerIndex - data.length) data).take b.writerIndex).drop
      (b.readerIndex - data.length) = data ++ (b.buffer.take b.writerIndex).drop b.readerIndex
    rw [drop_take_overwrite (by omega) hw, Nat.sub_add_cancel hdata']

/-- `Buffer::swap`, of both buffers. -/
def swap (b rhs : Buffer) : Buffer × Buffer :=
  (⟨rhs.buffer, rhs.readerIndex, rhs.writerIndex⟩, ⟨b.buffer, b.readerIndex, b.writerIndex⟩)

/-- Bytes copied to `beginWrite()`, followed by `hasWritten`. -/
def write (b : Buffer) (data : Bytes) : Buffer :=
  { b with buffer := overwrite b.buffer b.beginWrite data }.hasWritten data.length

theorem Wf.write (h : b.Wf) {data : Bytes} (hdata : data.length ≤ b.writeableBytes) :
    (b.write data).Wf ∧ (b.write data).readable = b.readable ++ data ∧
      b.buffer.length ≤ (b.write data).buffer.length := by
  have hr := h.reader_le
  have hw := h.writer_le
  have hdata' : data.length ≤ b.buffer.length - b.writerIndex := hdata
  have hlen := le_length_overwrite b.buffer b.writerIndex data
  refine ⟨⟨?_, ?_⟩, h.readable_written (take_overwrite hw), hlen⟩
  · exact hr.trans (Nat.le_add_right _ _)
  · show b.writerIndex + data.length ≤ (overwrite b.buffer b.writerIndex data).length
    omega

@[simp] theorem readable_retrieveAll (b : Buffer) : b.retrieveAll.readable = [] := by
  simp [retrieveAll, readable, slice, peek, beginWrite]

end Buffer

/-! ## Buffers and queues -/

inductive BufferOp (ι : Type) where
  | append (i : ι) (data : Bytes)
  | prepend (i : ι) (data : Bytes)
  | retrieve (i : ι) (len : ℕ)
  /-- `retrieveUntil(peek() + len)`. -/
  | retrieveUntil (i : ι) (len : ℕ)
  | retrieveAll (i : ι)
  | retrieveAsString (i : ι)
  | ensureWriteableBytes (i : ι) (len : ℕ)
  | write (i : ι) (data : Bytes)
  | swap (i j : ι)
  | readFd (i : ι) (r : Buffer.ReadResult)

namespace BufferOp

variable {ι : Type} [DecidableEq ι]

/-- What the operations ask of their caller, and of `readv`. -/
def Allowed (s : ι → Buffer) : BufferOp ι → Prop
  | .prepend i data => data.length ≤ (s i).prependableBytes
  | .retrieve i len => len ≤ (s i).readableBytes
  | .retrieveUntil i len => (s i).peek + len ≤ (s i).beginWrite
  | .write i data => data.length ≤ (s i).writeableBytes
  | .readFd i r => r.Fits (s i)
  | _ => True

instance (b : Buffer) : (r : Buffer.ReadResult) → Decidable (r.Fits b)
  | .error => inferInstanceAs (Decidable True)
  | .data bytes => inferInstanceAs (Decidable (bytes.length ≤ _))

omit [DecidableEq ι] in
instance (s : ι → Buffer) : (op : BufferOp ι) → Decidable (op.Allowed s)
  | .prepend i data => inferInstanceAs (Decidable (data.length ≤ (s i).prependableBytes))
  | .retrieve i len => inferInstanceAs (Decidable (len ≤ (s i).readableBytes))
  | .retrieveUntil i len => inferInstanceAs (Decidable ((s i).peek + len ≤ (s i).beginWrite))
  | .write i data => inferInstanceAs (Decidable (data.length ≤ (s i).writeableBytes))
  | .readFd i r => inferInstanceAs (Decidable (r.Fits (s i)))
  | .append _ _ | .retrieveAll _ | .retrieveAsString _ | .ensureWriteableBytes _ _ | .swap _ _ =>
      inferInstanceAs (Decidable True)

/-- An operation of the buffer `i`. -/
def on (s : ι → Buffer) (i : ι) (f : Buffer → Except Buffer.Fault Buffer) :
    Except Buffer.Fault (ι → Buffer) := do
  let b ← f (s i)
  return Function.update s i b

def exec (s : ι → Buffer) : BufferOp ι → Except Buffer.Fault (ι → Buffer)
  | .append i data => on s i (·.append data)
  | .prepend i data => on s i (·.prepend data)
  | .retrieve i len => on s i (·.retrieve len)
  | .retrieveUntil i len => on s i fun b => b.retrieveUntil (b.peek + len)
  | .retrieveAll i => on s i fun b => pure b.retrieveAll
  | .retrieveAsString i => on s i fun b => pure b.retrieveAsString.2
  | .ensureWriteableBytes i len => on s i (·.ensureWriteableBytes len)
  | .write i data => on s i fun b => pure (b.write data)
  | .swap i j =>
      let (b, rhs) := (s i).swap (s j)
      pure (Function.update (Function.update s i b) j rhs)
  | .readFd i r => on s i (·.readFd r)

/-- The same operation on plain queues. -/
def queue (q : ι → Bytes) : BufferOp ι → ι → Bytes
  | .append i data | .write i data | .readFd i (.data data) => Function.update q i (q i ++ data)
  | .prepend i data => Function.update q i (data ++ q i)
  | .retrieve i len | .retrieveUntil i len => Function.update q i ((q i).drop len)
  | .retrieveAll i | .retrieveAsString i => Function.update q i []
  | .ensureWriteableBytes _ _ | .readFd _ .error => q
  | .swap i j => Function.update (Function.update q i (q j)) j (q i)

/-- The buffers with the operations that are allowed. -/
def system : StepSystem (ι → Buffer) (BufferOp ι) Buffer.Fault where
  init := fun s => s = fun _ => .new
  enabled := Allowed
  exec := exec

instance (s : ι → Buffer) (op : BufferOp ι) : Decidable (system.enabled s op) :=
  inferInstanceAs (Decidable (op.Allowed s))

/-- A buffer that holds this queue. -/
structure Holds (b : Buffer) (q : Bytes) : Prop where
  wf : b.Wf
  /-- There is room for the indices that `retrieveAll` sets. -/
  room : kCheapPrepend ≤ b.buffer.length
  readable : b.readable = q

theorem holds_new : Holds .new [] := ⟨Buffer.wf_new, by simp [Buffer.new], Buffer.readable_new⟩

theorem Holds.update {s : ι → Buffer} {q : ι → Bytes} (h : ∀ i, Holds (s i) (q i)) {i : ι} {b : Buffer}
    {bytes : Bytes} (hb : Holds b bytes) (j : ι) :
    Holds (Function.update s i b j) (Function.update q i bytes j) := by
  by_cases hij : j = i
  · rw [hij, Function.update_self, Function.update_self]
    exact hb
  · rw [Function.update_of_ne hij, Function.update_of_ne hij]
    exact h j

/-- An operation of one buffer that goes well. -/
theorem on_refines {s : ι → Buffer} {q : ι → Bytes} (h : ∀ i, Holds (s i) (q i)) {i : ι}
    {f : Buffer → Except Buffer.Fault Buffer} {bytes : Bytes}
    (hf : ∃ b, f (s i) = .ok b ∧ Holds b bytes) :
    ∃ s', on s i f = .ok s' ∧ ∀ j, Holds (s' j) (Function.update q i bytes j) := by
  obtain ⟨b, hb, hholds⟩ := hf
  refine ⟨Function.update s i b, ?_, Holds.update h hholds⟩
  unfold on
  rw [hb]
  rfl

theorem refines : (system (ι := ι)).Refines (fun s q => ∀ i, Holds (s i) (q i)) queue := by
  intro s q op h hallowed
  show ∃ s', exec s op = .ok s' ∧ ∀ j, Holds (s' j) (queue q op j)
  -- one case for each operation, by what `Buffer` says it does to the readable bytes
  cases op with
  | append i data =>
      obtain ⟨b, hb, hwf, hread⟩ := (h i).wf.append data
      apply on_refines h (f := (·.append data))
      exact ⟨b, hb, hwf, (h i).room.trans (Buffer.append_length hb), (h i).readable ▸ hread⟩
  | prepend i data =>
      obtain ⟨b, hb, hwf, hread, hlen⟩ := (h i).wf.prepend hallowed
      apply on_refines h (f := (·.prepend data))
      exact ⟨b, hb, hwf, (h i).room.trans hlen, (h i).readable ▸ hread⟩
  | retrieve i len =>
      have hlen : len ≤ (s i).readable.length := by
        rw [(h i).wf.length_readable]
        exact hallowed
      obtain ⟨b, hb, hwf, hread⟩ := (h i).wf.retrieve hlen
      apply on_refines h (f := (·.retrieve len))
      exact ⟨b, hb, hwf, (h i).room.trans (Buffer.retrieve_length hb), (h i).readable ▸ hread⟩
  | retrieveUntil i len =>
      have hlen : len ≤ (s i).readable.length := by
        rw [(h i).wf.length_readable]
        exact Nat.le_sub_of_add_le' hallowed
      obtain ⟨b, hb, hwf, hread⟩ := (h i).wf.retrieveUntil hlen
      apply on_refines h (f := fun b => b.retrieveUntil (b.peek + len))
      exact ⟨b, hb, hwf, (h i).room.trans (Buffer.retrieveUntil_length hb), (h i).readable ▸ hread⟩
  | retrieveAll i =>
      apply on_refines h (f := fun b => pure b.retrieveAll)
      exact ⟨_, rfl, Buffer.wf_retrieveAll (h i).room, (h i).room, Buffer.readable_retrieveAll _⟩
  | retrieveAsString i =>
      apply on_refines h (f := fun b => pure b.retrieveAsString.2)
      exact ⟨_, rfl, Buffer.wf_retrieveAll (h i).room, (h i).room, Buffer.readable_retrieveAll _⟩
  | ensureWriteableBytes i len =>
      obtain ⟨b, hb, hwf, hread, -⟩ := (h i).wf.ensureWriteableBytes len
      have hholds : Holds b (q i) :=
        ⟨hwf, (h i).room.trans (Buffer.ensureWriteableBytes_length hb), hread.trans (h i).readable⟩
      have hupd := on_refines h (f := (·.ensureWriteableBytes len)) ⟨b, hb, hholds⟩
      rwa [Function.update_eq_self] at hupd
  | write i data =>
      obtain ⟨hwf, hread, hlen⟩ := (h i).wf.write hallowed
      apply on_refines h (f := fun b => pure (b.write data))
      exact ⟨_, rfl, hwf, (h i).room.trans hlen, (h i).readable ▸ hread⟩
  | swap i j => exact ⟨_, rfl, Holds.update (Holds.update h (h j)) (h i)⟩
  | readFd i r =>
      cases r with
      | error =>
          have hupd := on_refines h (i := i) (f := (·.readFd .error)) ⟨s i, rfl, h i⟩
          rwa [Function.update_eq_self] at hupd
      | data bytes =>
          obtain ⟨b, hb, hwf, hread⟩ := (h i).wf.readFd bytes
          apply on_refines h (f := (·.readFd (.data bytes)))
          exact ⟨b, hb, hwf, (h i).room.trans (Buffer.readFd_length hb), (h i).readable ▸ hread⟩

/-- **`Buffer` refines a byte queue.** After any sequence of allowed operations on any number of new
buffers no assert has failed, the indices are in order, the readable bytes are those of the queue, which
is the string that `retrieveAsString` would answer, and `ensureWriteableBytes` makes room without
touching them. -/
theorem buffer_refines_queue {ops : List (BufferOp ι)} (h : system.Legal (fun _ => Buffer.new) ops) :
    ∃ s, system.run (fun _ => Buffer.new) ops = .ok s ∧ ∀ i,
      (s i).readerIndex ≤ (s i).writerIndex ∧ (s i).writerIndex ≤ (s i).buffer.length ∧
      (s i).readable = ops.foldl queue (fun _ => []) i ∧
      (s i).retrieveAsString.1 = ops.foldl queue (fun _ => []) i ∧
      ∀ len, ∃ b, (s i).ensureWriteableBytes len = .ok b ∧ b.readable = (s i).readable ∧
        len ≤ b.writeableBytes := by
  obtain ⟨s, hs, hholds⟩ := refines.run (fun _ => holds_new) h
  refine ⟨s, hs, fun i => ⟨(hholds i).wf.reader_le, (hholds i).wf.writer_le, (hholds i).readable,
    (hholds i).readable, fun len => ?_⟩⟩
  obtain ⟨b, hb, -, hread, hroom⟩ := (hholds i).wf.ensureWriteableBytes len
  exact ⟨b, hb, hread, hroom⟩

/-- Two buffers: one is filled, read from, moved to the front of its vector to make room, and written
before its front; then they are exchanged. -/
def mixedOps : List (BufferOp Bool) :=
  [.append true (List.replicate 1000 7), .retrieve true 998, .append true (List.replicate 100 9),
    .prepend true [1, 2, 3], .write true [4, 5], .retrieveUntil true 101, .swap true false,
    .readFd false (.data [6]), .readFd true .error, .retrieveAsString true]

theorem buffer_refines_queue_mixedOps :
    ∃ s, system.run (fun _ => Buffer.new) mixedOps = .ok s ∧
      (s false).readable = [9, 9, 9, 9, 4, 5, 6] := by
  obtain ⟨s, hs, hrefines⟩ :=
    buffer_refines_queue (show system.Legal (fun _ => Buffer.new) mixedOps by decide +kernel)
  obtain ⟨-, -, hread, -⟩ := hrefines false
  exact ⟨s, hs, hread.trans (by decide +kernel)⟩

end BufferOp

end MiniMuduo
