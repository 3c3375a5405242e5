import MiniMuduo.ByteQueue

/-!
# The storage of `Buffer`

How large the vector gets, and what `shrink` leaves behind.

The vector grows only when the slack in front of the readable bytes is too small to make room by
sliding them, so its size is bounded by what is readable and appended at one time, not by how long
the buffer has been in use. `shrink` moves the readable bytes to the front of a new vector, but not
the indices: it keeps the content just when the indices are those of the new layout already.
-/

namespace MiniMuduo

open Fallible

namespace Buffer

variable {b b' : Buffer}

/-! ## How far one operation grows the vector -/

theorem Wf.makeSpace_length_le (h : b.Wf) {len : ℕ} (hmake : b.makeSpace len = .ok b') :
    b'.buffer.length ≤ max b.buffer.length (b.readableBytes + 2 * len + kCheapPrepend) := by
  have hr := h.reader_le
  have hw := h.writer_le
  have hread := h.length_readable
  unfold Buffer.makeSpace at hmake
  split at hmake
  · next hgrow =>
      -- the reader index is below `len + kCheapPrepend`, or sliding would have been enough
      cases hmake
      simp only [writeableBytes, prependableBytes] at hgrow
      rw [length_resize, readableBytes]
      omega
  · simp only [bind_eq_ok, check_eq_ok, pure_eq_ok, Except.ok.injEq] at hmake
    obtain ⟨-, hfront, -, -, rfl⟩ := hmake
    have hfits : kCheapPrepend + b.readable.length ≤ b.buffer.length := by
      rw [hread, readableBytes]
      omega
    exact (length_overwrite hfits).le.trans (le_max_left _ _)

theorem Wf.ensureWriteableBytes_length_le (h : b.Wf) {len : ℕ}
    (hensure : b.ensureWriteableBytes len = .ok b') :
    b'.buffer.length ≤ max b.buffer.length (b.readableBytes + 2 * len + kCheapPrepend) := by
  unfold Buffer.ensureWriteableBytes at hensure
  dsimp only at hensure
  split at hensure
  · obtain ⟨b₁, hb₁, hensure⟩ := bind_eq_ok.mp hensure
    obtain ⟨-, -, hensure⟩ := bind_eq_ok.mp hensure
    cases hensure
    exact h.makeSpace_length_le hb₁
  · obtain ⟨b₁, hb₁, hensure⟩ := bind_eq_ok.mp hensure
    obtain ⟨-, -, hensure⟩ := bind_eq_ok.mp hensure
    cases hb₁
    cases hensure
    exact le_max_left _ _

theorem Wf.append_length_le (h : b.Wf) {data : Bytes} (happend : b.append data = .ok b') :
    b'.buffer.length ≤ max b.buffer.length (b.readableBytes + 2 * data.length + kCheapPrepend) := by
  obtain ⟨b₁, hb₁, hwf, -, hroom⟩ := h.ensureWriteableBytes data.length
  have hlen : b₁.writerIndex + data.length ≤ b₁.buffer.length := by
    have := hwf.writer_le
    rw [writeableBytes] at hroom
    omega
  unfold Buffer.append at happend
  rw [hb₁] at happend
  cases happend
  show (overwrite b₁.buffer b₁.writerIndex data).length ≤ _
  rw [length_overwrite hlen]
  exact h.ensureWriteableBytes_length_le hb₁

theorem retrieve_length_eq {len : ℕ} (h : b.retrieve len = .ok b') :
    b'.buffer.length = b.buffer.length := by
  obtain ⟨-, -, h⟩ := bind_eq_ok.mp h
  cases h
  rfl

theorem retrieveUntil_length_eq {stop : ℕ} (h : b.retrieveUntil stop = .ok b') :
    b'.buffer.length = b.buffer.length := by
  obtain ⟨-, -, h⟩ := bind_eq_ok.mp h
  obtain ⟨-, -, h⟩ := bind_eq_ok.mp h
  exact retrieve_length_eq h

theorem Wf.prepend_length (h : b.Wf) {data : Bytes} (hprepend : b.prepend data = .ok b') :
    b'.buffer.length = b.buffer.length := by
  have hr := h.reader_le
  have hw := h.writer_le
  unfold Buffer.prepend at hprepend
  obtain ⟨_, hdata, hprepend⟩ := bind_eq_ok.mp hprepend
  rw [check_eq_ok, prependableBytes] at hdata
  cases hprepend
  exact length_overwrite (by omega)

theorem Wf.write_length (h : b.Wf) {data : Bytes} (hdata : data.length ≤ b.writeableBytes) :
    (b.write data).buffer.length = b.buffer.length := by
  have hw := h.writer_le
  rw [writeableBytes] at hdata
  exact length_overwrite (by rw [beginWrite]; omega)

/-- The buffer on which `readFd` calls `append`: the vector is full, the rest is in `extrabuf`. -/
def filled (b : Buffer) (bytes : Bytes) : Buffer :=
  { b with
    buffer := overwrite b.buffer b.writerIndex (bytes.take b.writeableBytes)
    writerIndex := b.buffer.length }

theorem readFd_of_lt {bytes : Bytes} (hlt : b.writeableBytes < bytes.length) :
    b.readFd (.data bytes) = (b.filled bytes).append (bytes.drop b.writeableBytes) := by
  simp only [readFd, hlt.not_ge, if_false]
  rfl

theorem readFd_of_le {bytes : Bytes} (hle : bytes.length ≤ b.writeableBytes) :
    b.readFd (.data bytes) = .ok (b.write bytes) := by
  simp only [readFd, hle, if_true]
  rfl

theorem Wf.filled_length (h : b.Wf) (bytes : Bytes) :
    (b.filled bytes).buffer.length = b.buffer.length := by
  have hw := h.writer_le
  refine length_overwrite ?_
  rw [List.length_take, writeableBytes]
  omega

theorem Wf.filled (h : b.Wf) (bytes : Bytes) : (b.filled bytes).Wf :=
  ⟨h.reader_le.trans h.writer_le, (h.filled_length bytes).ge⟩

end Buffer

namespace BufferOp

variable {ι : Type} [DecidableEq ι]

/-! ## Storage over a whole run -/

/-- An append of `len` bytes by the code itself: at most `R` bytes are readable just before it and
it adds at most `L`. -/
def AppendWithin (R L : ℕ) (b : Buffer) (len : ℕ) : Prop := b.readableBytes ≤ R ∧ len ≤ L

/-- Every append that the operation makes is within the bounds. -/
def Within (R L : ℕ) (s : ι → Buffer) : BufferOp ι → Prop
  | .append i data => AppendWithin R L (s i) data.length
  | .ensureWriteableBytes i len => AppendWithin R L (s i) len
  | .readFd i (.data bytes) =>
      (s i).writeableBytes < bytes.length →
        AppendWithin R L ((s i).filled bytes) (bytes.drop (s i).writeableBytes).length
  | _ => True

omit [DecidableEq ι] in
instance (R L : ℕ) (s : ι → Buffer) : (op : BufferOp ι) → Decidable (op.Within R L s)
  | .append _ _ | .ensureWriteableBytes _ _ => inferInstanceAs (Decidable (_ ∧ _))
  | .readFd _ (.data _) => inferInstanceAs (Decidable (_ < _ → _ ∧ _))
  | .readFd _ .error | .prepend _ _ | .retrieve _ _ | .retrieveUntil _ _ | .retrieveAll _
  | .retrieveAsString _ | .write _ _ | .swap _ _ => inferInstanceAs (Decidable True)

/-- The storage that such appends need at most. -/
def storageBound (R L : ℕ) : ℕ := max (kCheapPrepend + kInitialSize) (R + 2 * L + kCheapPrepend)

theorem AppendWithin.le_storageBound {R L len : ℕ} {b : Buffer} (h : AppendWithin R L b len)
    (hb : b.buffer.length ≤ storageBound R L) :
    max b.buffer.length (b.readableBytes + 2 * len + kCheapPrepend) ≤ storageBound R L := by
  have hR : b.readableBytes ≤ R := h.1
  have hL : len ≤ L := h.2
  apply max_le hb
  apply le_trans _ (le_max_right _ _)
  omega

/-- The invariant of one buffer. -/
structure Stored (R L : ℕ) (b : Buffer) : Prop where
  wf : b.Wf
  room : kCheapPrepend ≤ b.buffer.length
  bound : b.buffer.length ≤ storageBound R L

theorem stored_new (R L : ℕ) : Stored R L .new where
  wf := Buffer.wf_new
  room := by simp [Buffer.new]
  bound := by
    rw [Buffer.new, List.length_replicate]
    exact le_max_left _ _

omit [DecidableEq ι] in
/-- The invariant gives what the refinement asks for. -/
theorem holds_of_stored {R L : ℕ} {s : ι → Buffer} (h : ∀ i, Stored R L (s i)) (i : ι) :
    Holds (s i) (s i).readable :=
  ⟨(h i).wf, (h i).room, rfl⟩

theorem bound_update {s : ι → Buffer} {i : ι} {b : Buffer} {n : ℕ}
    (h : ∀ j, (s j).buffer.length ≤ n) (hb : b.buffer.length ≤ n) (j : ι) :
    (Function.update s i b j).buffer.length ≤ n := by
  by_cases hij : j = i
  · rw [hij, Function.update_self]
    exact hb
  · rw [Function.update_of_ne hij]
    exact h j

/-- An operation of one buffer leaves the others alone. -/
theorem bound_on {s s' : ι → Buffer} {i : ι} {f : Buffer → Except Buffer.Fault Buffer} {n : ℕ}
    (h : ∀ j, (s j).buffer.length ≤ n) (hon : on s i f = .ok s')
    (hf : ∀ b, f (s i) = .ok b → b.buffer.length ≤ n) (j : ι) : (s' j).buffer.length ≤ n := by
  obtain ⟨b, hb, hs'⟩ := bind_eq_ok.mp hon
  cases hs'
  exact bound_update h (hf b hb) j

/-- One operation keeps every vector below the bound. -/
theorem bound_exec {R L : ℕ} {s s' : ι → Buffer} {op : BufferOp ι} (h : ∀ i, Stored R L (s i))
    (hallowed : op.Allowed s) (hwithin : op.Within R L s) (hexec : exec s op = .ok s') (j : ι) :
    (s' j).buffer.length ≤ storageBound R L := by
  have hbound : ∀ i, (s i).buffer.length ≤ storageBound R L := fun i => (h i).bound
  cases op with
  | append i data =>
      apply bound_on (i := i) (f := (·.append data)) hbound hexec
      intro b hb
      exact ((h i).wf.append_length_le hb).trans (hwithin.le_storageBound (h i).bound)
  | prepend i data =>
      apply bound_on (i := i) (f := (·.prepend data)) hbound hexec
      intro b hb
      exact ((h i).wf.prepend_length hb).trans_le (h i).bound
  | retrieve i len =>
      apply bound_on (i := i) (f := (·.retrieve len)) hbound hexec
      intro b hb
      exact (Buffer.retrieve_length_eq hb).trans_le (h i).bound
  | retrieveUntil i len =>
      apply bound_on (i := i) (f := fun b => b.retrieveUntil (b.peek + len)) hbound hexec
      intro b hb
      exact (Buffer.retrieveUntil_length_eq hb).trans_le (h i).bound
  | retrieveAll i | retrieveAsString i =>
      apply bound_on (i := i) (f := fun b => pure b.retrieveAll) hbound hexec
      intro b hb
      cases hb
      exact (h i).bound
  | ensureWriteableBytes i len =>
      apply bound_on (i := i) (f := (·.ensureWriteableBytes len)) hbound hexec
      intro b hb
      exact ((h i).wf.ensureWriteableBytes_length_le hb).trans
        (hwithin.le_storageBound (h i).bound)
  | write i data =>
      apply bound_on (i := i) (f := fun b => pure (b.write data)) hbound hexec
      intro b hb
      cases hb
      exact ((h i).wf.write_length hallowed).trans_le (h i).bound
  | swap i k =>
      cases hexec
      exact bound_update (bound_update hbound (h k).bound) (h i).bound j
  | readFd i r =>
      apply bound_on (i := i) (f := (·.readFd r)) hbound hexec
      intro b hb
      cases r with
      | error =>
          cases hb
          exact (h i).bound
      | data bytes =>
          rcases Nat.lt_or_ge (s i).writeableBytes bytes.length with hlt | hle
          · rw [Buffer.readFd_of_lt hlt] at hb
            refine (((h i).wf.filled bytes).append_length_le hb).trans ?_
            apply (hwithin hlt).le_storageBound
            rw [(h i).wf.filled_length]
            exact (h i).bound
          · rw [Buffer.readFd_of_le hle] at hb
            cases hb
            exact ((h i).wf.write_length hle).trans_le (h i).bound

theorem stored_of_reachable {R L : ℕ} {s : ι → Buffer} (h : system.ReachableVia (Within R L) s) :
    ∀ i, Stored R L (s i) := by
  apply h.invariant (I := fun s => ∀ i, Stored R L (s i))
  · intro s hs i
    cases hs
    exact stored_new R L
  · intro s op s' _ hstored hwithin hstep i
    obtain ⟨t, ht, hholds⟩ := refines s _ op (holds_of_stored hstored) hstep.1
    cases ht.symm.trans hstep.2
    exact ⟨(hholds i).wf, (hholds i).room, bound_exec hstored hstep.1 hwithin hstep.2 i⟩

/-- **Buffers do not creep.** However long the run, the size of each vector stays below a bound that
depends on what is readable and appended at one time only. -/
theorem size_bounded {R L : ℕ} {s : ι → Buffer} (h : system.ReachableVia (Within R L) s) (i : ι) :
    (s i).buffer.length ≤ max (kCheapPrepend + kInitialSize) (R + 2 * L + kCheapPrepend) :=
  (stored_of_reachable h i).bound

/-- One buffer, filled past its first size, emptied but for five bytes, and filled again. -/
def refilledOps : List (BufferOp Unit) :=
  [.append () (List.replicate 1500 7), .retrieve () 1495, .append () (List.replicate 100 9),
    .readFd () (.data (List.replicate 1000 3)), .retrieve () 1100, .prepend () [1, 2]]

theorem size_bounded_refilledOps :
    ∃ s, system.ReachableVia (Within 1508 1500) s ∧ (s ()).readable.length = 7 ∧
      (s ()).buffer.length ≤ 4516 := by
  obtain ⟨s, hs, hlen⟩ := StepSystem.exists_reachableVia_of_runFrom? (Within 1508 1500)
    refilledOps (M := system) (p := fun s => decide ((s ()).readable.length = 7)) rfl
    (by decide +kernel)
  exact ⟨s, hs, of_decide_eq_true hlen, size_bounded hs ()⟩

end BufferOp

/-! ## `shrink` -/

namespace Buffer

variable {b : Buffer}

instance (b : Buffer) : Decidable b.Wf :=
  decidable_of_iff (b.readerIndex ≤ b.writerIndex ∧ b.writerIndex ≤ b.buffer.length)
    ⟨fun h => ⟨h.1, h.2⟩, fun h => ⟨h.reader_le, h.writer_le⟩⟩

theorem Wf.length_shrink (h : b.Wf) (reserve : ℕ) :
    (b.shrink reserve).buffer.length = kCheapPrepend + b.readableBytes + reserve := by
  have hread := h.length_readable
  refine (length_overwrite ?_).trans List.length_replicate
  rw [List.length_replicate]
  omega

/-- The readable bytes are at the front of the new vector. -/
theorem Wf.take_shrink (h : b.Wf) (reserve : ℕ) :
    ((b.shrink reserve).buffer.take (kCheapPrepend + b.readableBytes)).drop kCheapPrepend =
      b.readable := by
  show ((overwrite _ kCheapPrepend b.readable).take _).drop _ = _
  rw [← h.length_readable, take_overwrite (by rw [List.length_replicate]; omega), List.drop_left']
  rw [List.length_take, List.length_replicate]
  omega

theorem Wf.readable_shrink (h : b.Wf) (hreader : b.readerIndex = kCheapPrepend) (reserve : ℕ) :
    (b.shrink reserve).readable = b.readable := by
  have hwriter : b.writerIndex = kCheapPrepend + b.readableBytes := by
    have hr := h.reader_le
    rw [readableBytes]
    omega
  have htake := h.take_shrink reserve
  rwa [← hwriter, ← hreader] at htake

/-- The indices fit the new vector, with `reserve` bytes behind them, only when they have not to be
moved. -/
theorem Wf.shrink_fits_iff (h : b.Wf) (reserve : ℕ) :
    (b.shrink reserve).Wf ∧ (b.shrink reserve).writeableBytes = reserve ↔
      b.readerIndex = kCheapPrepend := by
  have hr := h.reader_le
  have hlen := h.length_shrink reserve
  rw [readableBytes] at hlen
  constructor
  · rintro ⟨hwf, hroom⟩
    have hw : b.writerIndex ≤ (b.shrink reserve).buffer.length := hwf.writer_le
    have hroom' : (b.shrink reserve).buffer.length - b.writerIndex = reserve := hroom
    omega
  · intro hreader
    refine ⟨⟨hr, ?_⟩, ?_⟩
    · show b.writerIndex ≤ (b.shrink reserve).buffer.length
      omega
    · show (b.shrink reserve).buffer.length - b.writerIndex = reserve
      omega

end Buffer

/-- The operations of any number of buffers, with `shrink`. -/
inductive StorageOp (ι : Type) where
  | queue (op : BufferOp ι)
  | shrink (i : ι) (reserve : ℕ)

namespace StorageOp

variable {ι : Type} [DecidableEq ι]

/-- A run goes on after a `shrink` as long as the indices, which it leaves as they were, lie in the
new vector; otherwise the next access is outside of it. -/
def Allowed (s : ι → Buffer) : StorageOp ι → Prop
  | .queue op => op.Allowed s
  | .shrink i reserve => ((s i).shrink reserve).Wf

omit [DecidableEq ι] in
instance (s : ι → Buffer) : (op : StorageOp ι) → Decidable (op.Allowed s)
  | .queue op => inferInstanceAs (Decidable (op.Allowed s))
  | .shrink i reserve => inferInstanceAs (Decidable ((s i).shrink reserve).Wf)

def exec (s : ι → Buffer) : StorageOp ι → Except Buffer.Fault (ι → Buffer)
  | .queue op => BufferOp.exec s op
  | .shrink i reserve => BufferOp.on s i fun b => pure (b.shrink reserve)

def system : StepSystem (ι → Buffer) (StorageOp ι) Buffer.Fault where
  init := fun s => s = fun _ => .new
  enabled := Allowed
  exec := exec

instance (s : ι → Buffer) (op : StorageOp ι) : Decidable (system.enabled s op) :=
  inferInstanceAs (Decidable (op.Allowed s))

/-- The buffers after `shrink(reserve)` of the buffer `i`. -/
def shrunk (s : ι → Buffer) (i : ι) (reserve : ℕ) : ι → Buffer :=
  Function.update s i ((s i).shrink reserve)

/-- `shrink` has kept the content of the buffer `i`: now, and for whatever is done later. -/
structure ShrinkKeeps (s : ι → Buffer) (i : ι) (reserve : ℕ) : Prop where
  readable : (shrunk s i reserve i).readable = (s i).readable
  wf : (shrunk s i reserve i).Wf
  writeable : (shrunk s i reserve i).writeableBytes = reserve
  /-- Later operations run as on the queues of bytes that were readable before, and end where the
  same operations without the `shrink` end. -/
  later : ∀ ops : List (BufferOp ι), BufferOp.system.Legal (shrunk s i reserve) ops →
    ∃ s', BufferOp.system.run (shrunk s i reserve) ops = .ok s' ∧
      (∀ j, (s' j).readable = ops.foldl BufferOp.queue (fun k => (s k).readable) j) ∧
      (BufferOp.system.Legal s ops → ∃ t, BufferOp.system.run s ops = .ok t ∧
        ∀ j, (t j).readable = (s' j).readable)

/-- The invariant of runs with `shrink`. -/
def Roomy (b : Buffer) : Prop := BufferOp.Holds b b.readable

theorem roomy_of_reachable {s : ι → Buffer} (h : system.Reachable s) : ∀ i, Roomy (s i) := by
  apply h.invariant (I := fun s => ∀ i, Roomy (s i))
  · intro s hs i
    cases hs
    exact ⟨Buffer.wf_new, by simp [Buffer.new], rfl⟩
  · rintro s op s' _ hroomy - ⟨hallowed, hexec⟩ i
    cases op with
    | queue op =>
        obtain ⟨t, ht, hholds⟩ := BufferOp.refines s _ op hroomy hallowed
        cases ht.symm.trans hexec
        exact ⟨(hholds i).wf, (hholds i).room, rfl⟩
    | shrink k reserve =>
        have hlen := (hroomy k).wf.length_shrink reserve
        have hroom : kCheapPrepend ≤ ((s k).shrink reserve).buffer.length := by omega
        cases hexec
        by_cases hik : i = k
        · rw [hik, Function.update_self]
          exact ⟨hallowed, hroom, rfl⟩
        · rw [Function.update_of_ne hik]
          exact hroomy i

theorem later_of_roomy {s : ι → Buffer} (h : ∀ i, Roomy (s i)) {i : ι}
    (hreader : (s i).readerIndex = kCheapPrepend) (reserve : ℕ) (ops : List (BufferOp ι))
    (hlegal : BufferOp.system.Legal (shrunk s i reserve) ops) :
    ∃ s', BufferOp.system.run (shrunk s i reserve) ops = .ok s' ∧
      (∀ j, (s' j).readable = ops.foldl BufferOp.queue (fun k => (s k).readable) j) ∧
      (BufferOp.system.Legal s ops → ∃ t, BufferOp.system.run s ops = .ok t ∧
        ∀ j, (t j).readable = (s' j).readable) := by
  have hwf := ((h i).wf.shrink_fits_iff reserve).mpr hreader
  have hlen := (h i).wf.length_shrink reserve
  have hholds : ∀ j, BufferOp.Holds (shrunk s i reserve j) (s j).readable := by
    intro j
    by_cases hij : j = i
    · rw [hij, shrunk, Function.update_self]
      exact ⟨hwf.1, by omega, (h i).wf.readable_shrink hreader reserve⟩
    · rw [shrunk, Function.update_of_ne hij]
      exact h j
  obtain ⟨s', hs', hq'⟩ := BufferOp.refines.run hholds hlegal
  refine ⟨s', hs', fun j => (hq' j).readable, fun hlegal' => ?_⟩
  obtain ⟨t, ht, hq⟩ := BufferOp.refines.run h hlegal'
  exact ⟨t, ht, fun j => (hq j).readable.trans (hq' j).readable.symm⟩

/-- **`shrink` keeps the content** just when the readable bytes are at the front of the vector
already: it does not set the indices, as `makeSpace` does. The size of the new vector,
`kCheapPrepend + readableBytes() + reserve`, is taken not to wrap around. -/
theorem shrinkKeeps_iff {s : ι → Buffer} (h : system.Reachable s) (i : ι) (reserve : ℕ) :
    ShrinkKeeps s i reserve ↔ (s i).readerIndex = kCheapPrepend := by
  have hroomy := roomy_of_reachable h
  have hself : shrunk s i reserve i = (s i).shrink reserve := Function.update_self ..
  constructor
  · intro hkeeps
    apply ((hroomy i).wf.shrink_fits_iff reserve).mp
    rw [← hself]
    exact ⟨hkeeps.wf, hkeeps.writeable⟩
  · intro hreader
    have hfits := ((hroomy i).wf.shrink_fits_iff reserve).mpr hreader
    exact
      { readable := hself ▸ (hroomy i).wf.readable_shrink hreader reserve
        wf := hself ▸ hfits.1
        writeable := hself ▸ hfits.2
        later := later_of_roomy hroomy hreader reserve }

/-- The retrieved byte is slid over when room is made, then the buffer is shrunk twice. -/
def compactedOps : List (StorageOp Unit) :=
  [.queue (.append () [97, 98]), .queue (.retrieve () 1),
    .queue (.append () (List.replicate 1023 9)), .shrink () 3, .queue (.retrieve () 1000),
    .shrink () 2000, .queue (.retrieveAll ()), .queue (.append () [99])]

theorem shrinkKeeps_compactedOps :
    ∃ s, system.Reachable s ∧ (s ()).readable = [99] ∧ ShrinkKeeps s () 5 := by
  obtain ⟨s, hs, hp⟩ := StepSystem.exists_reachableVia_of_runFrom? (fun _ _ => True)
    compactedOps (M := system)
    (p := fun s => decide ((s ()).readable = [99] ∧ (s ()).readerIndex = kCheapPrepend)) rfl
    (by decide +kernel)
  have hs' := of_decide_eq_true hp
  exact ⟨s, hs, hs'.1, (shrinkKeeps_iff hs () 5).mpr hs'.2⟩

/-- Two bytes in, one out, and `shrink(1)`: the byte that was left is not readable any more. -/
def retrievedOps : List (StorageOp Unit) :=
  [.queue (.append () [97, 98]), .queue (.retrieve () 1)]

theorem not_shrinkKeeps_retrievedOps :
    ¬ ∀ s : Unit → Buffer, system.Reachable s → ∀ i reserve, ShrinkKeeps s i reserve := by
  intro hall
  obtain ⟨s, hs, hp⟩ := StepSystem.exists_reachableVia_of_runFrom? (fun _ _ => True)
    retrievedOps (M := system)
    (p := fun s => decide ((shrunk s () 1 ()).readable = [0] ∧ (s ()).readable = [98])) rfl
    (by decide +kernel)
  obtain ⟨hzero, hbyte⟩ := of_decide_eq_true hp
  have hread := (hall s hs () 1).readable
  rw [hzero, hbyte] at hread
  cases hread

end StorageOp

end MiniMuduo
