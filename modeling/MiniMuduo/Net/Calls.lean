import MiniMuduo.Net.TcpConnection

/-!
# What the calls of a connection do

A member function of `TcpConnection` notes some events, queues some functors, changes the interest of
the channel and moves bytes into or out of the output buffer. The equations of this module bring the
output functions into that form, so that nothing further looks into their bodies:

* `sendInLoop` and `sendBufferInLoop` emit and then buffer what is `left`;
* `handleWrite` emits, retrieves and, when the buffer is drained, stops watching and completes.

`Quiet` collects what they have in common as far as the life of the connection is concerned: no
callback is made, and of the interest only `POLLOUT` can change.
-/

namespace MiniMuduo

open Fallible

namespace Call

variable {k k' : Call}

/-- Note `es` and queue `fs`. -/
def emit (k : Call) (es : List ConnEvent) (fs : List ConnFunctor) : Call :=
  { k with notes := k.notes ++ es, queued := k.queued ++ fs }

@[simp] theorem emit_conn (k : Call) (es : List ConnEvent) (fs : List ConnFunctor) :
    (k.emit es fs).conn = k.conn := rfl

@[simp] theorem emit_notes (k : Call) (es : List ConnEvent) (fs : List ConnFunctor) :
    (k.emit es fs).notes = k.notes ++ es := rfl

@[simp] theorem emit_queued (k : Call) (es : List ConnEvent) (fs : List ConnFunctor) :
    (k.emit es fs).queued = k.queued ++ fs := rfl

theorem emit_emit (k : Call) (es es' : List ConnEvent) (fs fs' : List ConnFunctor) :
    (k.emit es fs).emit es' fs' = k.emit (es ++ es') (fs ++ fs') := by
  simp [emit]

theorem emit_nil (k : Call) : k.emit [] [] = k := by
  simp [emit]

theorem note_eq (k : Call) (e : ConnEvent) : k.note e = k.emit [e] [] := by
  simp [note, emit]

theorem queueInLoop_eq (k : Call) (f : ConnFunctor) : k.queueInLoop f = k.emit [] [f] := by
  simp [queueInLoop, emit]

/-- The functors `queueWriteComplete` queues. -/
def completions (k : Call) : List ConnFunctor :=
  if k.conn.writeCompleteCallback then [.writeCompleteCallback] else []

theorem queueWriteComplete_eq (k : Call) : k.queueWriteComplete = k.emit [] k.completions := by
  unfold queueWriteComplete completions
  split
  · exact queueInLoop_eq k _
  · exact (emit_nil k).symm

/-- The functors `queueHighWaterMark` queues. -/
def overflows (k : Call) (remaining : ℕ) : List ConnFunctor :=
  if k.conn.unsent.length + remaining ≥ k.conn.highWaterMark ∧
      k.conn.unsent.length < k.conn.highWaterMark ∧ k.conn.highWaterMarkCallback then
    [.highWaterMarkCallback (k.conn.unsent.length + remaining)]
  else []

theorem queueHighWaterMark_eq (k : Call) (remaining : ℕ) :
    k.queueHighWaterMark remaining = k.emit [] (k.overflows remaining) := by
  unfold queueHighWaterMark overflows
  simp only []
  split
  · exact queueInLoop_eq k _
  · exact (emit_nil k).symm

/-- The events of `shutdownInLoop`. -/
def halfClose (k : Call) : List ConnEvent :=
  if k.conn.channel.isWriting then [] else [.shutdownWrite k.conn.unsent]

theorem shutdownInLoop_eq (k : Call) : k.shutdownInLoop = k.emit k.halfClose [] := by
  unfold shutdownInLoop halfClose
  split
  · exact (emit_nil k).symm
  · exact note_eq k _

/-! ### The interest -/

/-- The channel after its interest was set to `events`. -/
def channelAfter (k : Call) (events : PollEvents) : Channel :=
  ⟨k.conn.channel.fd, events, EPoller.indexAfter k.conn.channel.index events⟩

/-- The call with the interest set to `events` and the poller `p`. -/
def watch (k : Call) (events : PollEvents) (p : EPoller ConnId) : Call :=
  { k with conn := { k.conn with channel := k.channelAfter events }, poller := p }

/-- `p` is the poller after the interest was set to `events`. -/
structure Watches (k : Call) (events : PollEvents) (p : EPoller ConnId) : Prop where
  agrees : p.Agrees k.conn.self (k.channelAfter events)
  elsewhere : k.poller.OnlyAt p k.conn.self k.conn.channel.fd

theorem setEvents_ok {events : PollEvents} (h : k.setEvents events = .ok k') :
    ∃ p, k.Watches events p ∧ k' = k.watch events p := by
  unfold setEvents at h
  simp only [bind_eq_ok, pure_eq_ok, Except.ok.injEq] at h
  obtain ⟨⟨ch, p⟩, hupd, rfl⟩ := h
  have honly := EPoller.updateChannel_onlyAt hupd
  obtain ⟨rfl, hagrees⟩ := EPoller.updateChannel_ok hupd
  exact ⟨p, ⟨hagrees, honly⟩, rfl⟩

/-! ### The output buffer -/

/-- `sendInLoop` writes to the socket itself. -/
def Direct (k : Call) : Prop := ¬ k.conn.channel.isWriting ∧ k.conn.unsent.length = 0

instance (k : Call) : Decidable k.Direct :=
  inferInstanceAs (Decidable (_ ∧ _))

/-- The bytes of `data` that `sendInLoop` has the kernel take. -/
def taken (k : Call) (data : Bytes) (w : WriteResult) : Bytes :=
  if k.Direct then w.taken data else []

/-- Put `left` into the output buffer, if there is anything to put. -/
def buffer (k : Call) (left : Bytes) : Except NetFault Call :=
  if left = [] then return k else k.appendOutput left

/-- The `::write` of `sendInLoop`, if it makes one. -/
def writes (k : Call) (data : Bytes) (w : WriteResult) : List ConnEvent :=
  if k.Direct then [.write data w] else []

/-- The functors `sendInLoop` queues when its own `::write` took everything. -/
def completed (k : Call) (data : Bytes) (w : WriteResult) : List ConnFunctor :=
  if k.Direct ∧ w.nwrote? data = some data.length then k.completions else []

theorem length_taken_of_nwrote {data : Bytes} {w : WriteResult} {n : ℕ}
    (h : w.nwrote? data = some n) : (w.taken data).length = n ∧ n ≤ data.length := by
  cases w with
  | accepted m =>
      rw [WriteResult.nwrote?, Option.some.injEq] at h
      exact ⟨by rw [WriteResult.taken, List.length_take, h], h ▸ Nat.min_le_right _ _⟩
  | failed e => cases h

theorem taken_of_nwrote_none {data : Bytes} {w : WriteResult} (h : w.nwrote? data = none) :
    w.taken data = [] := by
  cases w with
  | accepted m => cases h
  | failed e => rfl

theorem drop_eq_nil_of_not_lt {data : Bytes} {n : ℕ} (h : ¬ n < data.length) : data.drop n = [] :=
  List.drop_eq_nil_of_le (by omega)

theorem drop_ne_nil_of_lt {data : Bytes} {n : ℕ} (h : n < data.length) : data.drop n ≠ [] := by
  intro hnil
  have := congrArg List.length hnil
  rw [List.length_drop, List.length_nil] at this
  omega

theorem buffer_drop (k : Call) (data : Bytes) (n : ℕ) :
    k.buffer (data.drop n) =
      if n < data.length then k.appendOutput (data.drop n) else .ok k := by
  unfold buffer
  by_cases h : n < data.length
  · rw [if_neg (drop_ne_nil_of_lt h), if_pos h]
  · rw [if_pos (drop_eq_nil_of_not_lt h), if_neg h]
    rfl

theorem sendInLoop_eq (k : Call) (t : ThreadId) (message : Bytes) (w : WriteResult) :
    k.sendInLoop t message w =
      (k.emit (.sendInLoop t message :: k.writes message w) (k.completed message w)).buffer
        (message.drop (k.taken message w).length) := by
  unfold sendInLoop writes completed taken
  rw [buffer_drop]
  by_cases hd : k.Direct
  · have hd' : ¬ k.conn.channel.isWriting ∧ k.conn.unsent.length = 0 := hd
    simp only [note_eq, emit_conn, hd', hd, if_true, true_and, not_false_eq_true, and_self,
      emit_emit, List.nil_append, List.append_nil, List.cons_append]
    cases hn : w.nwrote? message with
    | some n =>
        obtain ⟨hlen, hle⟩ := length_taken_of_nwrote hn
        rw [hlen]
        by_cases hlt : n < message.length
        · have hne : n ≠ message.length := by omega
          simp [hlt, hne]
        · have heq : n = message.length := by omega
          subst heq
          simp only [lt_irrefl, if_false, if_true, queueWriteComplete_eq, emit_emit,
            List.append_nil, List.nil_append]
          rfl
    | none =>
        rw [taken_of_nwrote_none hn]
        rfl
  · have hd' : ¬ (¬ k.conn.channel.isWriting ∧ k.conn.unsent.length = 0) := hd
    simp only [note_eq, emit_conn, hd', hd, if_false, false_and, List.length_nil]
    rfl

/-- What `sendBufferInLoop` buffers: nothing after an error that shows the peer gone. -/
def leftOfBuffer (k : Call) (data : Bytes) (w : WriteResult) : Bytes :=
  if k.Direct ∧ w.isFault then [] else data.drop (k.taken data w).length

/-- The functors `sendBufferInLoop` queues. -/
def signals (k : Call) (data : Bytes) (w : WriteResult) : List ConnFunctor :=
  if k.leftOfBuffer data w = [] then k.completed data w
  else k.overflows (k.leftOfBuffer data w).length

/-- Bytes of which none was written are all buffered, and the crossing of the mark is signalled. -/
theorem appendOutput_all (k : Call) (es : List ConnEvent) (data : Bytes) :
    (if 0 < data.length then ((k.emit es []).queueHighWaterMark data.length).appendOutput data
      else pure (k.emit es [])) =
      (k.emit es (if data = [] then [] else k.overflows data.length)).buffer data := by
  unfold buffer
  by_cases hdata : data = []
  · subst hdata
    rfl
  · have hpos : 0 < data.length := List.length_pos_of_ne_nil hdata
    simp only [hpos, if_true, hdata, if_false, queueHighWaterMark_eq, emit_emit, List.append_nil,
      List.nil_append]
    rfl

theorem sendBufferInLoop_eq (k : Call) (t : ThreadId) (data : Bytes) (w : WriteResult)
    (hstate : k.conn.state ≠ .kDisconnected) :
    k.sendBufferInLoop t data w =
      (k.emit (.sendBufferInLoop t data (if k.Direct then some w else none) :: k.writes data w)
        (k.signals data w)).buffer (k.leftOfBuffer data w) := by
  unfold sendBufferInLoop signals leftOfBuffer writes completed taken
  rw [if_neg hstate]
  by_cases hd : k.Direct
  · -- nothing is buffered: `::write` is tried first, and what it does not take is buffered
    have hd' : ¬ k.conn.channel.isWriting ∧ k.conn.unsent.length = 0 := hd
    simp only [note_eq, hd', hd, if_true, true_and, not_false_eq_true, and_self, emit_emit,
      List.nil_append, List.append_nil, List.cons_append]
    cases hn : w.nwrote? data with
    | some n =>
        obtain ⟨hlen, hle⟩ := length_taken_of_nwrote hn
        have hfault : w.isFault = false := by
          cases w with
          | accepted m => rfl
          | failed e => cases hn
        rw [hlen]
        simp only [hfault, Bool.false_eq_true, if_false, buffer_drop]
        by_cases hlt : n < data.length
        · have hne : data.length - n ≠ 0 := by omega
          have hpos : 0 < data.length - n := by omega
          simp only [hne, if_false, hpos, and_self, if_true, hlt, drop_ne_nil_of_lt hlt,
            queueHighWaterMark_eq, emit_emit, List.append_nil, List.nil_append, List.length_drop]
          rfl
        · have heq : n = data.length := by omega
          subst heq
          simp only [Nat.sub_self, if_true, lt_irrefl, and_false, if_false, List.drop_length,
            queueWriteComplete_eq, emit_emit, List.append_nil, List.nil_append]
          rfl
    | none =>
        rw [taken_of_nwrote_none hn]
        simp only [List.length_nil, List.drop_zero, reduceCtorEq, if_false]
        cases hf : w.isFault with
        | true =>
            simp only [Bool.true_eq_false, false_and, if_false, if_true, buffer]
        | false =>
            simp only [true_and, Bool.false_eq_true, if_false]
            exact appendOutput_all k _ data
  · have hd' : ¬ (¬ k.conn.channel.isWriting ∧ k.conn.unsent.length = 0) := hd
    simp only [note_eq, hd', hd, if_false, false_and, List.length_nil, List.drop_zero, true_and]
    exact appendOutput_all k _ data

/-! ### Draining -/

theorem retrieveOutput_ok {n : ℕ} (h : k.retrieveOutput n = .ok k') :
    ∃ b, b.readable = k.conn.unsent.drop n ∧ k' = k.setOutput b := by
  unfold retrieveOutput at h
  split at h
  · next b hb =>
      cases h
      exact ⟨b, (WfBuffer.readable_of_retrieve hb).2, rfl⟩
  · cases h

/-- The call when the output buffer has been drained: the interest in `POLLOUT` ends, and with it a
half-close that waited for it. -/
def drained (k : Call) (p : EPoller ConnId) : Call :=
  (k.watch (k.conn.channel.events \ Channel.kWriteEvent) p).emit
    (if k.conn.state = .kDisconnecting then [.shutdownWrite k.conn.unsent] else []) k.completions

theorem not_isWriting_channelAfter (k : Call) :
    ¬ (k.channelAfter (k.conn.channel.events \ Channel.kWriteEvent)).isWriting := by
  rw [Channel.isWriting_iff]
  simp [channelAfter, Channel.kWriteEvent]

theorem finishWrite_ok (h : k.finishWrite = .ok k') :
    ∃ p, k.Watches (k.conn.channel.events \ Channel.kWriteEvent) p ∧ k' = k.drained p := by
  unfold finishWrite at h
  rw [bind_eq_ok] at h
  obtain ⟨k₁, hset, h⟩ := h
  obtain ⟨p, hp, rfl⟩ := setEvents_ok hset
  refine ⟨p, hp, ?_⟩
  simp only [queueWriteComplete_eq, shutdownInLoop_eq] at h
  unfold drained
  split at h
  · next hstate =>
      have hclose : ∀ fs, ((k.watch (k.conn.channel.events \ Channel.kWriteEvent) p).emit [] fs).halfClose
          = [.shutdownWrite k.conn.unsent] := fun fs => if_neg (not_isWriting_channelAfter k)
      rw [pure_eq_ok, Except.ok.injEq, hclose, emit_emit, List.nil_append, List.append_nil] at h
      rw [if_pos (show k.conn.state = .kDisconnecting from hstate), ← h]
      rfl
  · next hstate =>
      cases h
      rw [if_neg (show k.conn.state ≠ .kDisconnecting from hstate)]
      rfl

/-- `handleWrite` on a channel that is watched for `POLLOUT`: what the kernel takes leaves the output
buffer, and an empty one is drained. -/
theorem handleWrite_ok {w : WriteResult} (hw : k.conn.channel.isWriting)
    (h : k.handleWrite w = .ok k') :
    ∃ b, b.readable = k.conn.unsent.drop (w.taken k.conn.unsent).length ∧
      (k' = (k.emit [.write k.conn.unsent w] []).setOutput b ∧
          (w.taken k.conn.unsent = [] ∧ b = k.conn.outputBuffer ∨ b.readable ≠ []) ∨
        b.readable = [] ∧ ∃ p, k.Watches (k.conn.channel.events \ Channel.kWriteEvent) p ∧
          k' = ((k.emit [.write k.conn.unsent w] []).setOutput b).drained p) := by
  -- the branches in which the buffer stays as it is
  have hidle : w.taken k.conn.unsent = [] →
      k.conn.outputBuffer.readable = k.conn.unsent.drop (w.taken k.conn.unsent).length := by
    intro htaken
    rw [htaken]
    rfl
  unfold handleWrite at h
  rw [if_pos hw] at h
  simp only [note_eq] at h
  cases hn : w.nwrote? k.conn.unsent with
  | none =>
      rw [hn] at h
      cases h
      have htaken := taken_of_nwrote_none hn
      exact ⟨_, hidle htaken, .inl ⟨rfl, .inl ⟨htaken, rfl⟩⟩⟩
  | some n =>
      obtain ⟨hlen, -⟩ := length_taken_of_nwrote hn
      rw [hn] at h
      by_cases hpos : 0 < n
      · simp only [if_pos hpos, bind_eq_ok] at h
        obtain ⟨k₁, hret, h⟩ := h
        obtain ⟨b, hb, rfl⟩ := retrieveOutput_ok hret
        refine ⟨b, by rw [hlen]; exact hb, ?_⟩
        split at h
        · next hdrained =>
            obtain ⟨p, hp, rfl⟩ := finishWrite_ok h
            exact .inr ⟨List.eq_nil_of_length_eq_zero hdrained, p, ⟨hp.agrees, hp.elsewhere⟩, rfl⟩
        · next hleft =>
            cases h
            exact .inl ⟨rfl, .inr (List.ne_nil_of_length_pos (Nat.pos_of_ne_zero hleft))⟩
      · simp only [if_neg hpos] at h
        cases h
        have htaken : w.taken k.conn.unsent = [] := List.eq_nil_of_length_eq_zero (by omega)
        exact ⟨_, hidle htaken, .inl ⟨rfl, .inl ⟨htaken, rfl⟩⟩⟩

theorem handleWrite_of_not_isWriting {w : WriteResult} (hw : ¬ k.conn.channel.isWriting) :
    k.handleWrite w = .ok k := by
  unfold handleWrite
  rw [if_neg hw]
  rfl

/-- `appendOutput` adds to the output buffer and has `POLLOUT` watched, if it is not already. -/
theorem appendOutput_ok {data : Bytes} (h : k.appendOutput data = .ok k') :
    k.conn.channel.isWriting ∧ k' = k.setOutput (k.conn.outputBuffer.append data) ∨
      ¬ k.conn.channel.isWriting ∧ ∃ p, k.Watches (k.conn.channel.events ∪ Channel.kWriteEvent) p ∧
        k' = (k.setOutput (k.conn.outputBuffer.append data)).watch
          (k.conn.channel.events ∪ Channel.kWriteEvent) p := by
  unfold appendOutput at h
  simp only [] at h
  split at h
  · next hw =>
      cases h
      exact .inl ⟨hw, rfl⟩
  · next hw =>
      obtain ⟨p, hp, rfl⟩ := setEvents_ok h
      exact .inr ⟨hw, p, ⟨hp.agrees, hp.elsewhere⟩, rfl⟩

/-! ## What every call keeps -/

/-- The connection stays the one it is, and nothing happens to other descriptors. -/
structure Kept (k k' : Call) : Prop where
  self : k'.conn.self = k.conn.self
  loop : k'.conn.loop = k.conn.loop
  name : k'.conn.name = k.conn.name
  fd : k'.conn.channel.fd = k.conn.channel.fd
  elsewhere : k.poller.OnlyAt k'.poller k.conn.self k.conn.channel.fd
  agrees : k.poller.Agrees k.conn.self k.conn.channel →
    k'.poller.Agrees k'.conn.self k'.conn.channel

theorem Kept.refl (k : Call) : Kept k k :=
  ⟨rfl, rfl, rfl, rfl, EPoller.OnlyAt.refl _ _ _, id⟩

theorem Kept.trans {k'' : Call} (h : Kept k k') (h' : Kept k' k'') : Kept k k'' where
  self := h'.self.trans h.self
  loop := h'.loop.trans h.loop
  name := h'.name.trans h.name
  fd := h'.fd.trans h.fd
  elsewhere := h.elsewhere.trans (by rw [← h.self, ← h.fd]; exact h'.elsewhere)
  agrees := fun ha => h'.agrees (h.agrees ha)

theorem Watches.kept {events : PollEvents} {p : EPoller ConnId} (h : k.Watches events p) :
    Kept k (k.watch events p) :=
  ⟨rfl, rfl, rfl, rfl, h.elsewhere, fun _ => h.agrees⟩

theorem connectEstablished_ok (h : k.connectEstablished = .ok k') :
    k.conn.state = .kConnecting ∧ ∃ p,
      k.Watches (k.conn.channel.events ∪ Channel.kReadEvent) p ∧
      k' = ((k.setState .kConnected).watch (k.conn.channel.events ∪ Channel.kReadEvent) p).emit
        [.connectionCallback .kConnected] [] := by
  unfold connectEstablished at h
  simp only [bind_eq_ok, check_eq_ok] at h
  obtain ⟨-, hstate, k₁, hset, h⟩ := h
  obtain ⟨p, hp, rfl⟩ := setEvents_ok hset
  cases h
  exact ⟨hstate, p, ⟨hp.agrees, hp.elsewhere⟩, note_eq _ _⟩

theorem connectDestroyed_ok (h : k.connectDestroyed = .ok k') :
    (k.conn.state = .kConnected ∨ k.conn.state = .kDisconnecting) ∧ ∃ p,
      k.Watches Channel.kNoneEvent p ∧
      k' = { ((k.setState .kDisconnected).watch Channel.kNoneEvent p).emit
        [.connectionCallback .kDisconnected] [] with rest := [.removeChannel] } := by
  unfold connectDestroyed at h
  simp only [bind_eq_ok, check_eq_ok] at h
  obtain ⟨-, hstate, k₁, hset, h⟩ := h
  obtain ⟨p, hp, rfl⟩ := setEvents_ok hset
  cases h
  refine ⟨hstate, p, ⟨hp.agrees, hp.elsewhere⟩, ?_⟩
  rw [note_eq]
  rfl

theorem handleClose_ok (h : k.handleClose = .ok k') :
    (k.conn.state = .kConnected ∨ k.conn.state = .kDisconnecting) ∧ ∃ p,
      k.Watches Channel.kNoneEvent p ∧
      k' = (k.watch Channel.kNoneEvent p).emit [.closeCallback] [] := by
  unfold handleClose at h
  simp only [bind_eq_ok, check_eq_ok] at h
  obtain ⟨-, hstate, k₁, hset, h⟩ := h
  obtain ⟨p, hp, rfl⟩ := setEvents_ok hset
  cases h
  exact ⟨hstate, p, hp, note_eq _ _⟩

/-! ## Quiet calls -/

end Call

/-- Everything but the connection, message and close callbacks. -/
def ConnEvent.isQuiet : ConnEvent → Bool
  | .connectionCallback _ | .messageCallback _ | .closeCallback => false
  | _ => true

/-- Everything but the two functors that bring a connection up and down. -/
def ConnFunctor.isQuiet : ConnFunctor → Bool
  | .connectEstablished | .connectDestroyed => false
  | _ => true

namespace Call

variable {k k' : Call}

/-- A call that sends, drains or half-closes: it makes no callback, queues neither end of the
connection's life and leaves the interest in reading alone. -/
structure Quiet (k k' : Call) : Prop extends Kept k k' where
  state : k'.conn.state = k.conn.state ∨
    k.conn.state = .kConnected ∧ k'.conn.state = .kDisconnecting
  interest : k'.conn.channel.events \ Channel.kWriteEvent =
    k.conn.channel.events \ Channel.kWriteEvent
  /-- A channel that is watched for more than `POLLOUT` stays watched. -/
  index : k.conn.channel.index = .kAdded →
    k.conn.channel.events \ Channel.kWriteEvent ≠ ∅ → k'.conn.channel.index = .kAdded
  notes : ∃ es, k'.notes = k.notes ++ es ∧ ∀ e ∈ es, e.isQuiet
  queued : ∃ fs, k'.queued = k.queued ++ fs ∧ ∀ f ∈ fs, f.isQuiet
  rest : k'.rest = k.rest

theorem Quiet.refl (k : Call) : Quiet k k where
  toKept := .refl k
  state := .inl rfl
  interest := rfl
  index := fun h _ => h
  notes := ⟨[], by simp, by simp⟩
  queued := ⟨[], by simp, by simp⟩
  rest := rfl

theorem Quiet.trans {k'' : Call} (h : Quiet k k') (h' : Quiet k' k'') : Quiet k k'' where
  toKept := h.toKept.trans h'.toKept
  state := by
    have h₁ := h.state
    have h₂ := h'.state
    grind
  interest := h'.interest.trans h.interest
  index := fun hidx hne => h'.index (h.index hidx hne) (h.interest ▸ hne)
  notes := by
    obtain ⟨es, hes, hq⟩ := h.notes
    obtain ⟨es', hes', hq'⟩ := h'.notes
    refine ⟨es ++ es', by rw [hes', hes, List.append_assoc], fun e he => ?_⟩
    exact (List.mem_append.mp he).elim (hq e) (hq' e)
  queued := by
    obtain ⟨fs, hfs, hq⟩ := h.queued
    obtain ⟨fs', hfs', hq'⟩ := h'.queued
    refine ⟨fs ++ fs', by rw [hfs', hfs, List.append_assoc], fun f hf => ?_⟩
    exact (List.mem_append.mp hf).elim (hq f) (hq' f)
  rest := h'.rest.trans h.rest

theorem quiet_emit {es : List ConnEvent} {fs : List ConnFunctor} (hes : ∀ e ∈ es, e.isQuiet)
    (hfs : ∀ f ∈ fs, f.isQuiet) : Quiet k (k.emit es fs) where
  toKept := ⟨rfl, rfl, rfl, rfl, EPoller.OnlyAt.refl _ _ _, id⟩
  state := .inl rfl
  interest := rfl
  index := fun h _ => h
  notes := ⟨es, rfl, hes⟩
  queued := ⟨fs, rfl, hfs⟩
  rest := rfl

theorem quiet_setOutput (b : WfBuffer) : Quiet k (k.setOutput b) where
  toKept := ⟨rfl, rfl, rfl, rfl, EPoller.OnlyAt.refl _ _ _, id⟩
  state := .inl rfl
  interest := rfl
  index := fun h _ => h
  notes := ⟨[], (List.append_nil _).symm, by simp⟩
  queued := ⟨[], (List.append_nil _).symm, by simp⟩
  rest := rfl

theorem quiet_disconnecting (h : k.conn.state = .kConnected) :
    Quiet k (k.setState .kDisconnecting) where
  toKept := ⟨rfl, rfl, rfl, rfl, EPoller.OnlyAt.refl _ _ _, id⟩
  state := .inr ⟨h, rfl⟩
  interest := rfl
  index := fun h _ => h
  notes := ⟨[], (List.append_nil _).symm, by simp⟩
  queued := ⟨[], (List.append_nil _).symm, by simp⟩
  rest := rfl

theorem Watches.quiet {events : PollEvents} {p : EPoller ConnId} (h : k.Watches events p)
    (he : events \ Channel.kWriteEvent = k.conn.channel.events \ Channel.kWriteEvent) :
    Quiet k (k.watch events p) where
  toKept := h.kept
  state := .inl rfl
  interest := he
  index := fun _ hne => by
    refine if_neg fun hnone => hne ?_
    rw [← he, hnone.2]
    rfl
  notes := ⟨[], (List.append_nil _).symm, by simp⟩
  queued := ⟨[], (List.append_nil _).symm, by simp⟩
  rest := rfl

theorem isQuiet_completions (k : Call) : ∀ f ∈ k.completions, f.isQuiet := by
  unfold completions
  split <;> simp [ConnFunctor.isQuiet]

theorem isQuiet_completed (k : Call) (data : Bytes) (w : WriteResult) :
    ∀ f ∈ k.completed data w, f.isQuiet := by
  unfold completed
  split
  · exact isQuiet_completions k
  · simp

theorem isQuiet_signals (k : Call) (data : Bytes) (w : WriteResult) :
    ∀ f ∈ k.signals data w, f.isQuiet := by
  unfold signals overflows
  split
  · exact isQuiet_completed k data w
  · split <;> simp [ConnFunctor.isQuiet]

theorem isQuiet_writes (k : Call) (data : Bytes) (w : WriteResult) :
    ∀ e ∈ k.writes data w, e.isQuiet := by
  unfold writes
  split <;> simp [ConnEvent.isQuiet]

theorem appendOutput_quiet {data : Bytes} (h : k.appendOutput data = .ok k') : Quiet k k' := by
  rcases appendOutput_ok h with ⟨-, rfl⟩ | ⟨-, p, hp, rfl⟩
  · exact quiet_setOutput _
  · refine (quiet_setOutput _).trans (Watches.quiet ⟨hp.agrees, hp.elsewhere⟩ ?_)
    simp [setOutput, Finset.union_sdiff_right]

theorem buffer_quiet {data : Bytes} (h : k.buffer data = .ok k') : Quiet k k' := by
  unfold buffer at h
  split at h
  · cases h
    exact .refl k
  · exact appendOutput_quiet h

theorem sendInLoop_quiet {t : ThreadId} {message : Bytes} {w : WriteResult}
    (h : k.sendInLoop t message w = .ok k') : Quiet k k' := by
  rw [sendInLoop_eq] at h
  refine (quiet_emit ?_ (isQuiet_completed k message w)).trans (buffer_quiet h)
  intro e he
  rcases List.mem_cons.mp he with rfl | he
  · rfl
  · exact isQuiet_writes k message w e he

theorem sendBufferInLoop_quiet {t : ThreadId} {data : Bytes} {w : WriteResult}
    (h : k.sendBufferInLoop t data w = .ok k') : Quiet k k' := by
  by_cases hstate : k.conn.state = .kDisconnected
  · unfold sendBufferInLoop at h
    rw [if_pos hstate] at h
    cases h
    exact .refl k
  · rw [sendBufferInLoop_eq k t data w hstate] at h
    refine (quiet_emit ?_ (isQuiet_signals k data w)).trans (buffer_quiet h)
    intro e he
    rcases List.mem_cons.mp he with rfl | he
    · rfl
    · exact isQuiet_writes k data w e he

theorem send_quiet {t : ThreadId} {message : Bytes} {w : WriteResult}
    (h : k.send t message w = .ok k') : Quiet k k' := by
  unfold send at h
  simp only [note_eq, queueInLoop_eq, emit_emit] at h
  split at h
  · split at h
    · exact (quiet_emit (by simp [ConnEvent.isQuiet]) (by simp)).trans (sendInLoop_quiet h)
    · cases h
      exact quiet_emit (by simp [ConnEvent.isQuiet]) (by simp [ConnFunctor.isQuiet])
  · cases h
    exact .refl k

/-- `send` and `shutdown` do nothing unless the connection is up. -/
theorem send_of_ne {t : ThreadId} {message : Bytes} {w : WriteResult}
    (h : k.conn.state ≠ .kConnected) : k.send t message w = .ok k := by
  unfold send
  rw [if_neg h]
  rfl

theorem sendBuffer_of_ne {t : ThreadId} {data : Bytes} {w : WriteResult}
    (h : k.conn.state ≠ .kConnected) : k.sendBuffer t data w = .ok k := by
  unfold sendBuffer
  rw [if_neg (fun hcond => h hcond.1)]
  rfl

theorem shutdown_of_ne {t : ThreadId} (h : k.conn.state ≠ .kConnected) : k.shutdown t = k := by
  unfold shutdown
  rw [if_neg h]

theorem sendBuffer_quiet {t : ThreadId} {data : Bytes} {w : WriteResult}
    (h : k.sendBuffer t data w = .ok k') : Quiet k k' := by
  unfold sendBuffer at h
  rw [note_eq] at h
  split at h
  · exact (quiet_emit (by simp [ConnEvent.isQuiet]) (by simp)).trans (sendBufferInLoop_quiet h)
  · cases h
    exact .refl k

theorem shutdownInLoop_quiet (k : Call) : Quiet k k.shutdownInLoop := by
  rw [shutdownInLoop_eq]
  unfold halfClose
  split <;> exact quiet_emit (by simp [ConnEvent.isQuiet]) (by simp)

theorem shutdown_quiet (k : Call) (t : ThreadId) : Quiet k (k.shutdown t) := by
  unfold shutdown
  split
  · next hstate =>
      refine (quiet_disconnecting hstate).trans ?_
      simp only [note_eq, queueInLoop_eq, emit_emit]
      split
      · refine Quiet.trans ?_ (shutdownInLoop_quiet _)
        exact quiet_emit (by simp [ConnEvent.isQuiet]) (by simp)
      · exact quiet_emit (by simp [ConnEvent.isQuiet]) (by simp [ConnFunctor.isQuiet])
  · exact .refl k

theorem drained_quiet {p : EPoller ConnId}
    (hp : k.Watches (k.conn.channel.events \ Channel.kWriteEvent) p) : Quiet k (k.drained p) := by
  unfold drained
  refine (hp.quiet (by simp)).trans (quiet_emit ?_ (isQuiet_completions k))
  split <;> simp [ConnEvent.isQuiet]

theorem handleWrite_quiet {w : WriteResult} (h : k.handleWrite w = .ok k') : Quiet k k' := by
  by_cases hw : k.conn.channel.isWriting
  · have hemit : ∀ b, Quiet k ((k.emit [.write k.conn.unsent w] []).setOutput b) := by
      intro b
      exact (quiet_emit (by simp [ConnEvent.isQuiet]) (by simp)).trans (quiet_setOutput b)
    obtain ⟨b, -, ⟨rfl, -⟩ | ⟨-, p, hp, rfl⟩⟩ := handleWrite_ok hw h
    · exact hemit b
    · exact (hemit b).trans (drained_quiet ⟨hp.agrees, hp.elsewhere⟩)
  · rw [handleWrite_of_not_isWriting hw] at h
    cases h
    exact .refl k

/-! ## The other calls -/

theorem kept_setState (state : StateE) : Kept k (k.setState state) :=
  ⟨rfl, rfl, rfl, rfl, EPoller.OnlyAt.refl _ _ _, id⟩

theorem connectEstablished_kept (h : k.connectEstablished = .ok k') : Kept k k' := by
  obtain ⟨-, p, hp, rfl⟩ := connectEstablished_ok h
  have hwatch : (k.setState .kConnected).Watches (k.conn.channel.events ∪ Channel.kReadEvent) p :=
    ⟨hp.agrees, hp.elsewhere⟩
  exact ((kept_setState _).trans hwatch.kept).trans ⟨rfl, rfl, rfl, rfl, EPoller.OnlyAt.refl _ _ _, id⟩

theorem connectDestroyed_kept (h : k.connectDestroyed = .ok k') : Kept k k' := by
  obtain ⟨-, p, hp, rfl⟩ := connectDestroyed_ok h
  have hwatch : (k.setState .kDisconnected).Watches Channel.kNoneEvent p :=
    ⟨hp.agrees, hp.elsewhere⟩
  exact ((kept_setState _).trans hwatch.kept).trans ⟨rfl, rfl, rfl, rfl, EPoller.OnlyAt.refl _ _ _, id⟩

theorem handleClose_kept (h : k.handleClose = .ok k') : Kept k k' := by
  obtain ⟨-, p, hp, rfl⟩ := handleClose_ok h
  exact hp.kept.trans ⟨rfl, rfl, rfl, rfl, EPoller.OnlyAt.refl _ _ _, id⟩

theorem removeChannel_ok (h : k.removeChannel = .ok k') :
    ∃ ch p, k.poller.removeChannel k.conn.self k.conn.channel = .ok (ch, p) ∧
      k' = { k with conn := { k.conn with channel := ch }, poller := p } := by
  unfold removeChannel at h
  obtain ⟨⟨ch, p⟩, hrem, h⟩ := bind_eq_ok.mp h
  cases h
  exact ⟨ch, p, hrem, rfl⟩

theorem removeChannel_kept (ha : k.poller.Agrees k.conn.self k.conn.channel)
    (h : k.removeChannel = .ok k') : Kept k k' := by
  obtain ⟨ch, p, hrem, rfl⟩ := removeChannel_ok h
  obtain ⟨-, rfl, hagrees⟩ := ha.removeChannel hrem
  exact ⟨rfl, rfl, rfl, rfl, EPoller.removeChannel_onlyAt hrem, fun _ => hagrees⟩

/-- Every task keeps the connection the one it is, and closes it at most once. -/
theorem runTask_kept {t : ConnTask} {r : Buffer.ReadResult} {w : WriteResult}
    (ha : k.poller.Agrees k.conn.self k.conn.channel) (hnotes : k.notes = [])
    (h : k.runTask t r w = .ok k') : Kept k k' ∧ k'.notes.count .closeCallback ≤ 1 := by
  -- a task is quiet, notes one event, or is a `handleClose`
  have hquiet : Quiet k k' → Kept k k' ∧ k'.notes.count .closeCallback ≤ 1 := by
    intro hq
    refine ⟨hq.toKept, ?_⟩
    obtain ⟨es, hes, hall⟩ := hq.notes
    rw [hes, hnotes, List.nil_append, List.count_eq_zero_of_not_mem]
    · exact Nat.zero_le 1
    · exact fun hmem => absurd (hall _ hmem) (by decide)
  have hone : ∀ e, k'.notes = k.notes ++ [e] → k'.notes.count .closeCallback ≤ 1 := by
    intro e he
    rw [he, hnotes]
    exact List.count_le_length
  have hclose : k.handleClose = .ok k' → Kept k k' ∧ k'.notes.count .closeCallback ≤ 1 := by
    intro hk
    refine ⟨handleClose_kept hk, hone .closeCallback ?_⟩
    obtain ⟨-, p, hp, rfl⟩ := handleClose_ok hk
    rfl
  cases t with
  | removeChannel =>
      refine ⟨removeChannel_kept ha h, ?_⟩
      obtain ⟨ch, p, -, rfl⟩ := removeChannel_ok h
      show k.notes.count .closeCallback ≤ 1
      rw [hnotes]
      exact Nat.zero_le 1
  | event revents cb =>
      cases cb with
      | close => exact hclose h
      | error =>
          cases h
          exact hquiet (.refl k)
      | write => exact hquiet (handleWrite_quiet h)
      | read =>
          cases r with
          | error =>
              cases h
              exact hquiet (.refl k)
          | data bytes =>
              cases bytes with
              | nil => exact hclose h
              | cons b bs =>
                  cases h
                  exact ⟨⟨rfl, rfl, rfl, rfl, EPoller.OnlyAt.refl _ _ _, id⟩, hone _ rfl⟩
  | functor f =>
      cases f with
      | connectEstablished =>
          refine ⟨connectEstablished_kept h, hone (.connectionCallback .kConnected) ?_⟩
          obtain ⟨-, p, hp, rfl⟩ := connectEstablished_ok h
          rfl
      | connectDestroyed =>
          refine ⟨connectDestroyed_kept h, hone (.connectionCallback .kDisconnected) ?_⟩
          obtain ⟨-, p, hp, rfl⟩ := connectDestroyed_ok h
          rfl
      | sendInLoop sender message => exact hquiet (sendInLoop_quiet h)
      | shutdownInLoop =>
          cases h
          exact hquiet (shutdownInLoop_quiet k)
      | writeCompleteCallback | highWaterMarkCallback len =>
          cases h
          rw [note_eq] at hquiet ⊢
          exact hquiet (quiet_emit (by simp [ConnEvent.isQuiet]) (by simp))

/-! ## Faults -/

end Call

/-- The asserts that are only about the end of a connection: `n == 1` in `removeConnectionInLoop` and
the one on `state_` in `connectDestroyed`. -/
def NetFault.ofRemoval : NetFault → Prop
  | .removeConnectionInLoop | .connectDestroyed => True
  | _ => False

namespace EPoller

theorem update_fails (p : EPoller ConnId) (op : EpollOp) (self : ConnId) (ch : Channel) :
    FailsWith (¬ ·.ofRemoval) (p.update op self ch) := by
  unfold update
  split
  · exact failsWith_pure _
  · exact (failsWith_check id).bind fun _ _ => failsWith_pure _

theorem updateChannel_fails (p : EPoller ConnId) (self : ConnId) (ch : Channel) :
    FailsWith (¬ ·.ofRemoval) (p.updateChannel self ch) := by
  unfold updateChannel
  split
  · exact (failsWith_check id).bind fun _ _ => (update_fails _ _ _ _).bind fun _ _ => failsWith_pure _
  · exact (failsWith_check id).bind fun _ _ => (update_fails _ _ _ _).bind fun _ _ => failsWith_pure _
  · refine (failsWith_check id).bind fun _ _ => ?_
    split
    · exact (update_fails _ _ _ _).bind fun _ _ => failsWith_pure _
    · exact (update_fails _ _ _ _).bind fun _ _ => failsWith_pure _

theorem removeChannel_fails (p : EPoller ConnId) (self : ConnId) (ch : Channel) :
    FailsWith (¬ ·.ofRemoval) (p.removeChannel self ch) := by
  unfold removeChannel
  refine (failsWith_check id).bind fun _ _ => (failsWith_check id).bind fun _ _ =>
    (failsWith_check id).bind fun _ _ => ?_
  dsimp only
  split
  · exact (update_fails _ _ _ _).bind fun _ _ => failsWith_pure _
  · exact failsWith_pure _

end EPoller

namespace Call

variable {k k' : Call}

theorem setEvents_fails (k : Call) (events : PollEvents) :
    FailsWith (¬ ·.ofRemoval) (k.setEvents events) :=
  (EPoller.updateChannel_fails _ _ _).bind fun _ _ => failsWith_pure _

theorem buffer_fails (k : Call) (left : Bytes) : FailsWith (¬ ·.ofRemoval) (k.buffer left) := by
  unfold buffer appendOutput
  split
  · exact failsWith_pure _
  · dsimp only
    split
    · exact failsWith_pure _
    · exact setEvents_fails _ _

theorem sendInLoop_fails (k : Call) (t : ThreadId) (message : Bytes) (w : WriteResult) :
    FailsWith (¬ ·.ofRemoval) (k.sendInLoop t message w) := by
  rw [sendInLoop_eq]
  exact buffer_fails _ _

theorem send_fails (k : Call) (t : ThreadId) (message : Bytes) (w : WriteResult) :
    FailsWith (¬ ·.ofRemoval) (k.send t message w) := by
  unfold send
  split
  · dsimp only
    split
    · exact sendInLoop_fails _ _ _ _
    · exact failsWith_pure _
  · exact failsWith_pure _

theorem sendBuffer_fails (k : Call) (t : ThreadId) (data : Bytes) (w : WriteResult) :
    FailsWith (¬ ·.ofRemoval) (k.sendBuffer t data w) := by
  unfold sendBuffer
  split
  · next h =>
      have hup : (k.note (.send t data)).conn.state ≠ .kDisconnected := by
        rw [show (k.note (.send t data)).conn.state = .kConnected from h.1]
        exact StateE.noConfusion
      rw [sendBufferInLoop_eq _ _ _ _ hup]
      exact buffer_fails _ _
  · exact failsWith_pure _

theorem handleWrite_fails (k : Call) (w : WriteResult) :
    FailsWith (¬ ·.ofRemoval) (k.handleWrite w) := by
  unfold handleWrite
  split
  · dsimp only
    split
    · split
      · have hretrieve : ∀ (k : Call) n, FailsWith (¬ ·.ofRemoval) (k.retrieveOutput n) := by
          intro k n
          unfold retrieveOutput
          split
          · exact failsWith_pure _
          · exact failsWith_throw id
        refine (hretrieve _ _).bind fun k' _ => ?_
        split
        · refine (setEvents_fails _ _).bind fun k'' _ => ?_
          dsimp only
          split <;> exact failsWith_pure _
        · exact failsWith_pure _
      · exact failsWith_pure _
    · exact failsWith_pure _
  · exact failsWith_pure _

theorem handleClose_fails (k : Call) : FailsWith (¬ ·.ofRemoval) k.handleClose :=
  (failsWith_check id).bind fun _ _ => (setEvents_fails _ _).bind fun _ _ => failsWith_pure _

/-- A task fails one of these asserts only when it is a `connectDestroyed` of a connection that is not
up. -/
theorem runTask_fails (k : Call) (t : ConnTask) (r : Buffer.ReadResult) (w : WriteResult)
    (ht : t = .functor .connectDestroyed →
      k.conn.state = .kConnected ∨ k.conn.state = .kDisconnecting) :
    FailsWith (¬ ·.ofRemoval) (k.runTask t r w) := by
  cases t with
  | removeChannel => exact (EPoller.removeChannel_fails _ _ _).bind fun _ _ => failsWith_pure _
  | event revents cb =>
      cases cb with
      | close => exact handleClose_fails k
      | error => exact failsWith_pure _
      | write => exact handleWrite_fails k w
      | read =>
          cases r with
          | error => exact failsWith_pure _
          | data bytes =>
              cases bytes with
              | nil => exact handleClose_fails k
              | cons b bs => exact failsWith_pure _
  | functor f =>
      cases f with
      | connectEstablished =>
          exact (failsWith_check id).bind fun _ _ => (setEvents_fails _ _).bind fun _ _ =>
            failsWith_pure _
      | connectDestroyed =>
          show FailsWith _ (_ >>= _)
          rw [check_of_pos (ht rfl)]
          exact (setEvents_fails _ _).bind fun _ _ => failsWith_pure _
      | sendInLoop sender message => exact sendInLoop_fails _ _ _ _
      | shutdownInLoop | writeCompleteCallback | highWaterMarkCallback len => exact failsWith_pure _

end Call

end MiniMuduo
