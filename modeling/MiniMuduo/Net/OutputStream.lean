import MiniMuduo.Net.Closing

/-!
# The output stream of a connection

What the kernel has accepted and what is in the output buffer are together the messages that were
executed, in order:

    accepted ++ unsent = executed

Direct writes, partial and failed ones, appends to the buffer and draining all keep this (`Balanced`),
and so does what runs after `handleClose` (`conserved_of_reachable`). From `connectEstablished` until
`handleClose` there are two more facts the code relies on (`Flow`): the channel is watched for `POLLOUT`
exactly while the buffer is not empty, and `SHUT_WR` is issued only while it is empty. That no thread's
messages are lost, repeated or overtaken on the way through the functor queue is `InOrder`.
-/

namespace MiniMuduo

/-! ## Reading a history -/

namespace ConnEvent

/-- The bytes the kernel accepted. -/
def accepted : ConnEvent → Bytes
  | .write data result => result.taken data
  | _ => []

/-- The message that was executed, unless it was given up: `send(Buffer *)` drops a message when its
own `::write` fails with `EPIPE` or `ECONNRESET`. -/
def executed : ConnEvent → Bytes
  | .sendInLoop _ message => message
  | .sendBufferInLoop _ message direct =>
      if direct = some (.failed .EPIPE) ∨ direct = some (.failed .ECONNRESET) then [] else message
  | _ => []

/-- The message `t` sent while the connection was up. -/
def sentBy (t : ThreadId) : ConnEvent → Option Bytes
  | .send sender message => if sender = t then some message else none
  | _ => none

/-- The message of `t` that was executed. -/
def executedBy (t : ThreadId) : ConnEvent → Option Bytes
  | .sendInLoop sender message => if sender = t then some message else none
  | .sendBufferInLoop sender message _ => if sender = t then some message else none
  | _ => none

end ConnEvent

/-- The message of `t` that waits in the queue. -/
def ConnFunctor.queuedBy (t : ThreadId) : ConnFunctor → Option Bytes
  | .sendInLoop sender message => if sender = t then some message else none
  | _ => none

/-- All bytes the kernel accepted. -/
def acceptedBytes (h : List ConnEvent) : Bytes := h.flatMap ConnEvent.accepted

/-- All bytes that were executed, in the order of execution. -/
def executedBytes (h : List ConnEvent) : Bytes := h.flatMap ConnEvent.executed

/-- The messages of the thread `t`: those it sent, those executed, those still queued. -/
def sentBy (t : ThreadId) (h : List ConnEvent) : List Bytes := h.filterMap (ConnEvent.sentBy t)

def executedBy (t : ThreadId) (h : List ConnEvent) : List Bytes :=
  h.filterMap (ConnEvent.executedBy t)

def queuedBy (t : ThreadId) (fs : List ConnFunctor) : List Bytes :=
  fs.filterMap (ConnFunctor.queuedBy t)

@[simp] theorem acceptedBytes_append (h h' : List ConnEvent) :
    acceptedBytes (h ++ h') = acceptedBytes h ++ acceptedBytes h' :=
  List.flatMap_append

@[simp] theorem executedBytes_append (h h' : List ConnEvent) :
    executedBytes (h ++ h') = executedBytes h ++ executedBytes h' :=
  List.flatMap_append

@[simp] theorem sentBy_append (t : ThreadId) (h h' : List ConnEvent) :
    sentBy t (h ++ h') = sentBy t h ++ sentBy t h' :=
  List.filterMap_append

@[simp] theorem executedBy_append (t : ThreadId) (h h' : List ConnEvent) :
    executedBy t (h ++ h') = executedBy t h ++ executedBy t h' :=
  List.filterMap_append

theorem sentBy_cons (t : ThreadId) (e : ConnEvent) (h : List ConnEvent) :
    sentBy t (e :: h) = (e.sentBy t).toList ++ sentBy t h := by
  unfold sentBy
  rw [List.filterMap_cons]
  cases ConnEvent.sentBy t e <;> rfl

theorem executedBy_cons (t : ThreadId) (e : ConnEvent) (h : List ConnEvent) :
    executedBy t (e :: h) = (e.executedBy t).toList ++ executedBy t h := by
  unfold executedBy
  rw [List.filterMap_cons]
  cases ConnEvent.executedBy t e <;> rfl

@[simp] theorem queuedBy_append (t : ThreadId) (fs fs' : List ConnFunctor) :
    queuedBy t (fs ++ fs') = queuedBy t fs ++ queuedBy t fs' :=
  List.filterMap_append

/-! ## Conservation -/

/-- The output side of a connection with the history `h`. -/
structure Flow (c : TcpConnection) (h : List ConnEvent) : Prop where
  conserved : acceptedBytes h ++ c.unsent = executedBytes h
  writing : c.channel.isWriting ↔ c.unsent ≠ []
  halfClose : ∀ unsent, .shutdownWrite unsent ∈ h → unsent = []

namespace Call

variable {k k' : Call} {h : List ConnEvent}

/-- What waited and what the call executed is what the kernel took and what waits now. -/
def Balanced (k k' : Call) : Prop :=
  ∃ es, k'.notes = k.notes ++ es ∧
    acceptedBytes es ++ k'.conn.unsent = k.conn.unsent ++ executedBytes es

theorem Balanced.refl (k : Call) : Balanced k k :=
  ⟨[], (List.append_nil _).symm, (List.append_nil _).symm⟩

theorem Balanced.trans {k'' : Call} (h₁ : Balanced k k') (h₂ : Balanced k' k'') : Balanced k k'' := by
  obtain ⟨es₁, hnotes₁, hbytes₁⟩ := h₁
  obtain ⟨es₂, hnotes₂, hbytes₂⟩ := h₂
  refine ⟨es₁ ++ es₂, by rw [hnotes₂, hnotes₁, List.append_assoc], ?_⟩
  rw [acceptedBytes_append, executedBytes_append, List.append_assoc, hbytes₂, ← List.append_assoc,
    hbytes₁, List.append_assoc]

/-- Events that are no part of the stream. -/
theorem balanced_of_silent {es : List ConnEvent} (hunsent : k'.conn.unsent = k.conn.unsent)
    (hnotes : k'.notes = k.notes ++ es) (hacc : acceptedBytes es = [])
    (hexe : executedBytes es = []) : Balanced k k' := by
  refine ⟨es, hnotes, ?_⟩
  rw [hacc, hexe, hunsent, List.nil_append, List.append_nil]

/-- A balanced call conserves the stream. -/
theorem Balanced.conserved (hb : Balanced k k')
    (hk : acceptedBytes (h ++ k.notes) ++ k.conn.unsent = executedBytes (h ++ k.notes)) :
    acceptedBytes (h ++ k'.notes) ++ k'.conn.unsent = executedBytes (h ++ k'.notes) := by
  obtain ⟨es, hnotes, hbytes⟩ := hb
  rw [hnotes, ← List.append_assoc, acceptedBytes_append, executedBytes_append, ← hk,
    List.append_assoc, hbytes, List.append_assoc]

/-- The call keeps the output stream, whatever the history before it. -/
structure Conserves (k k' : Call) : Prop where
  balanced : Balanced k k'
  flow : ∀ h, Flow k.conn (h ++ k.notes) → Flow k'.conn (h ++ k'.notes)

theorem Conserves.refl (k : Call) : Conserves k k := ⟨.refl k, fun _ hf => hf⟩

theorem Conserves.trans {k'' : Call} (h₁ : Conserves k k') (h₂ : Conserves k' k'') :
    Conserves k k'' :=
  ⟨h₁.balanced.trans h₂.balanced, fun h hf => h₂.flow h (h₁.flow h hf)⟩

theorem conserves_emit {es : List ConnEvent} {fs : List ConnFunctor}
    (hacc : acceptedBytes es = []) (hexe : executedBytes es = [])
    (hshut : ∀ unsent, .shutdownWrite unsent ∈ es → k.conn.unsent = [] → unsent = [])
    (hidle : (∃ unsent, .shutdownWrite unsent ∈ es) → ¬ k.conn.channel.isWriting) :
    Conserves k (k.emit es fs) := by
  have hb : Balanced k (k.emit es fs) := balanced_of_silent rfl rfl hacc hexe
  refine ⟨hb, fun h hf => ⟨hb.conserved hf.conserved, hf.writing, fun unsent hmem => ?_⟩⟩
  rw [emit_notes, ← List.append_assoc] at hmem
  rcases List.mem_append.mp hmem with hmem | hmem
  · exact hf.halfClose unsent hmem
  · -- not watched for `POLLOUT`, so the buffer is empty
    apply hshut unsent hmem
    by_contra hne
    exact hidle ⟨unsent, hmem⟩ (hf.writing.mpr hne)

theorem taken_append_drop (data : Bytes) (w : WriteResult) :
    w.taken data ++ data.drop (w.taken data).length = data := by
  cases w with
  | accepted n =>
      rw [WriteResult.taken, List.length_take]
      rcases Nat.le_total n data.length with hle | hle
      · rw [Nat.min_eq_left hle, List.take_append_drop]
      · rw [Nat.min_eq_right hle, List.take_of_length_le hle, List.drop_length, List.append_nil]
  | failed e => rfl

theorem acceptedBytes_writes (k : Call) (data : Bytes) (w : WriteResult) :
    acceptedBytes (k.writes data w) = k.taken data w := by
  unfold writes taken
  split
  · exact List.append_nil _
  · rfl

theorem executedBytes_writes (k : Call) (data : Bytes) (w : WriteResult) :
    executedBytes (k.writes data w) = [] := by
  unfold writes
  split <;> rfl

theorem not_shutdownWrite_writes (k : Call) (data : Bytes) (w : WriteResult) (unsent : Bytes) :
    .shutdownWrite unsent ∉ k.writes data w := by
  unfold writes
  split <;> simp

/-- `buffer` only adds to the output buffer and to the interest. -/
theorem buffer_ok {left : Bytes} (hk : k.buffer left = .ok k') :
    k'.notes = k.notes ∧ k'.queued = k.queued ∧ k'.conn.unsent = k.conn.unsent ++ left ∧
      (left = [] → k'.conn.channel = k.conn.channel) ∧ (left ≠ [] → k'.conn.channel.isWriting) := by
  unfold buffer at hk
  split at hk
  · next hnil =>
      cases hk
      exact ⟨rfl, rfl, by rw [hnil, List.append_nil], fun _ => rfl, fun hne => absurd hnil hne⟩
  · next hne =>
      have happend : ∀ b : WfBuffer, (b.append left).readable = b.readable ++ left :=
        fun b => WfBuffer.readable_append b left
      rcases appendOutput_ok hk with ⟨hw, rfl⟩ | ⟨-, p, hp, rfl⟩
      · exact ⟨rfl, rfl, happend _, fun hnil => absurd hnil hne, fun _ => hw⟩
      · refine ⟨rfl, rfl, happend _, fun hnil => absurd hnil hne, fun _ => ?_⟩
        rw [Channel.isWriting_iff]
        exact Finset.mem_union_right _ (Finset.mem_singleton_self _)

/-- The shape of both `sendInLoop`s: a message is executed, part of it is taken by the kernel, and the
rest is buffered. -/
theorem conserves_of_buffer {es : List ConnEvent} {fs : List ConnFunctor} {left : Bytes}
    (hk : (k.emit es fs).buffer left = .ok k')
    (hshut : ∀ unsent, .shutdownWrite unsent ∉ es)
    (hempty : k.conn.unsent = [] → acceptedBytes es ++ left = executedBytes es)
    (hqueue : k.conn.unsent ≠ [] → acceptedBytes es = [] ∧ left = executedBytes es) :
    Conserves k k' := by
  obtain ⟨hnotes, -, hunsent, hsame, hwatch⟩ := buffer_ok hk
  rw [emit_conn] at hunsent hsame
  rw [emit_notes] at hnotes
  have hb : Balanced k k' := by
    refine ⟨es, hnotes, ?_⟩
    rw [hunsent]
    by_cases hnil : k.conn.unsent = []
    · rw [hnil, List.nil_append, List.nil_append, hempty hnil]
    · obtain ⟨hacc, hleft⟩ := hqueue hnil
      rw [hacc, hleft, List.nil_append]
  refine ⟨hb, fun h hf => ⟨hb.conserved hf.conserved, ?_, fun unsent hmem => ?_⟩⟩
  · by_cases hnil : left = []
    · rw [hsame hnil, hunsent, hnil, List.append_nil]
      exact hf.writing
    · refine iff_of_true (hwatch hnil) ?_
      rw [hunsent]
      exact List.append_ne_nil_of_right_ne_nil _ hnil
  · rw [hnotes, ← List.append_assoc] at hmem
    exact hf.halfClose unsent ((List.mem_append.mp hmem).resolve_right (hshut unsent))

theorem taken_of_unsent {data : Bytes} {w : WriteResult} (hne : k.conn.unsent ≠ []) :
    k.taken data w = [] := by
  refine if_neg fun hd => hne ?_
  exact List.eq_nil_of_length_eq_zero hd.2

theorem taken_append_drop' (k : Call) (data : Bytes) (w : WriteResult) :
    k.taken data w ++ data.drop (k.taken data w).length = data := by
  unfold taken
  split
  · exact taken_append_drop data w
  · rfl

theorem sendInLoop_conserves {t : ThreadId} {message : Bytes} {w : WriteResult}
    (hk : k.sendInLoop t message w = .ok k') : Conserves k k' := by
  rw [sendInLoop_eq] at hk
  have hacc : acceptedBytes (.sendInLoop t message :: k.writes message w) = k.taken message w :=
    acceptedBytes_writes k message w
  have hexe : executedBytes (.sendInLoop t message :: k.writes message w) = message := by
    show message ++ executedBytes (k.writes message w) = message
    rw [executedBytes_writes, List.append_nil]
  refine conserves_of_buffer hk ?_ (fun _ => ?_) (fun hne => ⟨?_, ?_⟩)
  · intro unsent hmem
    rcases List.mem_cons.mp hmem with heq | hmem
    · cases heq
    · exact not_shutdownWrite_writes k message w unsent hmem
  · rw [hacc, hexe, taken_append_drop']
  · rw [hacc, taken_of_unsent hne]
  · rw [hexe, taken_of_unsent hne]
    rfl

theorem isFault_iff {w : WriteResult} :
    w.isFault = true ↔ w = .failed .EPIPE ∨ w = .failed .ECONNRESET := by
  cases w with
  | accepted n => simp [WriteResult.isFault]
  | failed e => cases e <;> simp [WriteResult.isFault]

theorem sendBufferInLoop_conserves {t : ThreadId} {data : Bytes} {w : WriteResult}
    (hstate : k.conn.state ≠ .kDisconnected) (hk : k.sendBufferInLoop t data w = .ok k') :
    Conserves k k' := by
  rw [sendBufferInLoop_eq k t data w hstate] at hk
  have hacc : acceptedBytes (.sendBufferInLoop t data (if k.Direct then some w else none) ::
      k.writes data w) = k.taken data w := acceptedBytes_writes k data w
  -- what was executed is what was taken and what is left, also when the message is given up
  have hexe : executedBytes (.sendBufferInLoop t data (if k.Direct then some w else none) ::
      k.writes data w) = k.taken data w ++ k.leftOfBuffer data w := by
    show ConnEvent.executed _ ++ executedBytes (k.writes data w) = _
    rw [executedBytes_writes, List.append_nil, leftOfBuffer, ConnEvent.executed]
    by_cases hd : k.Direct
    · simp only [hd, if_true, true_and, Option.some.injEq, ← isFault_iff]
      by_cases hfault : w.isFault = true
      · have htaken : k.taken data w = [] := by
          rw [taken, if_pos hd]
          rcases isFault_iff.mp hfault with rfl | rfl <;> rfl
        simp only [hfault, if_true, htaken, List.append_nil]
      · simp only [hfault]
        exact (taken_append_drop' k data w).symm
    · simp only [hd, if_false, false_and, reduceCtorEq, or_self]
      exact (taken_append_drop' k data w).symm
  refine conserves_of_buffer hk ?_ (fun _ => ?_) (fun hne => ⟨?_, ?_⟩)
  · intro unsent hmem
    rcases List.mem_cons.mp hmem with heq | hmem
    · cases heq
    · exact not_shutdownWrite_writes k data w unsent hmem
  · rw [hacc, hexe]
  · rw [hacc, taken_of_unsent hne]
  · rw [hexe, taken_of_unsent hne, List.nil_append]

theorem shutdownInLoop_conserves (k : Call) : Conserves k k.shutdownInLoop := by
  rw [shutdownInLoop_eq]
  unfold halfClose
  split
  · exact conserves_emit rfl rfl (by simp) (by simp)
  · next hw =>
      refine conserves_emit rfl rfl (fun unsent hmem hempty => ?_) (fun _ => hw)
      rw [List.mem_singleton, ConnEvent.shutdownWrite.injEq] at hmem
      exact hmem.trans hempty

theorem conserves_setState (k : Call) (state : StateE) : Conserves k (k.setState state) :=
  ⟨balanced_of_silent rfl (List.append_nil _).symm rfl rfl,
    fun _ hf => ⟨hf.conserved, hf.writing, hf.halfClose⟩⟩

/-- What the kernel takes moves from the buffer to the accepted bytes. -/
theorem handleWrite_balanced {w : WriteResult} (hk : k.handleWrite w = .ok k') : Balanced k k' := by
  by_cases hw : k.conn.channel.isWriting
  · obtain ⟨b, hb, hcase⟩ := handleWrite_ok hw hk
    have hmoved : w.taken k.conn.unsent ++ b.readable = k.conn.unsent := by
      rw [hb, taken_append_drop]
    rcases hcase with ⟨rfl, -⟩ | ⟨-, p, -, rfl⟩
    · refine ⟨[.write k.conn.unsent w], rfl, ?_⟩
      show w.taken k.conn.unsent ++ [] ++ b.readable = k.conn.unsent ++ []
      rw [List.append_nil, List.append_nil, hmoved]
    · refine ⟨.write k.conn.unsent w ::
        if k.conn.state = .kDisconnecting then [.shutdownWrite b.readable] else [],
        List.append_assoc _ _ _, ?_⟩
      show w.taken k.conn.unsent ++ acceptedBytes (if _ then _ else _) ++ b.readable =
        k.conn.unsent ++ executedBytes (if _ then _ else _)
      split
      · show w.taken k.conn.unsent ++ [] ++ b.readable = k.conn.unsent ++ []
        rw [List.append_nil, List.append_nil, hmoved]
      · show w.taken k.conn.unsent ++ [] ++ b.readable = k.conn.unsent ++ []
        rw [List.append_nil, List.append_nil, hmoved]
  · rw [handleWrite_of_not_isWriting hw] at hk
    cases hk
    exact .refl k

theorem handleWrite_conserves {w : WriteResult} (hk : k.handleWrite w = .ok k') :
    Conserves k k' := by
  have hb := handleWrite_balanced hk
  refine ⟨hb, fun h hf => ?_⟩
  by_cases hw : k.conn.channel.isWriting
  · obtain ⟨b, -, hcase⟩ := handleWrite_ok hw hk
    have hshut : ∀ unsent, .shutdownWrite unsent ∈ h ++ (k.notes ++ [.write k.conn.unsent w]) →
        unsent = [] := by
      intro unsent hmem
      rw [← List.append_assoc] at hmem
      exact hf.halfClose unsent ((List.mem_append.mp hmem).resolve_right (by simp))
    rcases hcase with ⟨rfl, hidle⟩ | ⟨hnil, p, hp, rfl⟩
    · refine ⟨hb.conserved hf.conserved, iff_of_true hw ?_, hshut⟩
      rcases hidle with ⟨-, rfl⟩ | hne
      · exact hf.writing.mp hw
      · exact hne
    · -- drained: the interest ends, and a half-close finds the buffer empty
      refine ⟨hb.conserved hf.conserved, ?_, fun unsent hmem => ?_⟩
      · refine iff_of_false (not_isWriting_channelAfter k) ?_
        exact fun hne => hne hnil
      · have hmem' : .shutdownWrite unsent ∈ h ++ (k.notes ++ [.write k.conn.unsent w] ++
          (if k.conn.state = .kDisconnecting then [.shutdownWrite b.readable] else [])) := hmem
        rw [← List.append_assoc] at hmem'
        rcases List.mem_append.mp hmem' with hmem' | hmem'
        · exact hshut unsent hmem'
        · split at hmem'
          · rw [List.mem_singleton, ConnEvent.shutdownWrite.injEq] at hmem'
            exact hmem'.trans hnil
          · cases hmem'
  · rw [handleWrite_of_not_isWriting hw] at hk
    cases hk
    exact hf

theorem send_conserves {t : ThreadId} {message : Bytes} {w : WriteResult}
    (hk : k.send t message w = .ok k') : Conserves k k' := by
  unfold send at hk
  simp only [note_eq, queueInLoop_eq, emit_emit] at hk
  split at hk
  · split at hk
    · exact (conserves_emit rfl rfl (by simp) (by simp)).trans (sendInLoop_conserves hk)
    · cases hk
      exact conserves_emit rfl rfl (by simp) (by simp)
  · cases hk
    exact .refl k

theorem sendBuffer_conserves {t : ThreadId} {data : Bytes} {w : WriteResult}
    (hk : k.sendBuffer t data w = .ok k') : Conserves k k' := by
  unfold sendBuffer at hk
  rw [note_eq] at hk
  split at hk
  · next hcond =>
      refine (conserves_emit rfl rfl (by simp) (by simp)).trans (sendBufferInLoop_conserves ?_ hk)
      rw [emit_conn, hcond.1]
      exact StateE.noConfusion
  · cases hk
    exact .refl k

theorem shutdown_conserves (k : Call) (t : ThreadId) : Conserves k (k.shutdown t) := by
  unfold shutdown
  split
  · refine (conserves_setState k .kDisconnecting).trans ?_
    simp only [note_eq, queueInLoop_eq, emit_emit]
    split
    · exact (conserves_emit rfl rfl (by simp) (by simp)).trans (shutdownInLoop_conserves _)
    · exact conserves_emit rfl rfl (by simp) (by simp)
  · exact .refl k

theorem handleClose_balanced (hk : k.handleClose = .ok k') : Balanced k k' := by
  obtain ⟨-, p, -, rfl⟩ := handleClose_ok hk
  exact balanced_of_silent rfl rfl rfl rfl

/-- Every task keeps the balance, also those that close the connection and those that run after. -/
theorem runTask_balanced {t : ConnTask} {r : Buffer.ReadResult} {w : WriteResult}
    (hk : k.runTask t r w = .ok k') : Balanced k k' := by
  cases t with
  | event revents cb =>
      cases cb with
      | close => exact handleClose_balanced hk
      | error =>
          cases hk
          exact .refl k
      | write => exact handleWrite_balanced hk
      | read =>
          cases r with
          | error =>
              cases hk
              exact .refl k
          | data bytes =>
              cases bytes with
              | nil => exact handleClose_balanced hk
              | cons b bs =>
                  cases hk
                  exact balanced_of_silent rfl rfl rfl rfl
  | functor f =>
      cases f with
      | connectEstablished =>
          obtain ⟨-, p, -, rfl⟩ := connectEstablished_ok hk
          exact balanced_of_silent rfl rfl rfl rfl
      | connectDestroyed =>
          obtain ⟨-, p, -, rfl⟩ := connectDestroyed_ok hk
          exact balanced_of_silent rfl rfl rfl rfl
      | sendInLoop t message => exact (sendInLoop_conserves hk).balanced
      | shutdownInLoop =>
          cases hk
          exact (shutdownInLoop_conserves k).balanced
      | writeCompleteCallback | highWaterMarkCallback len =>
          cases hk
          exact balanced_of_silent rfl rfl rfl rfl
  | removeChannel =>
      obtain ⟨ch, p, -, rfl⟩ := removeChannel_ok hk
      exact balanced_of_silent rfl (List.append_nil _).symm rfl rfl

end Call

/-! ## Order -/

/-- Every thread's messages were executed in the order in which it sent them, or wait in that order;
those of the loop's own thread never wait. -/
structure InOrder (loop : LoopId) (h : List ConnEvent) (fs : List ConnFunctor) : Prop where
  each : ∀ t, sentBy t h = executedBy t h ++ queuedBy t fs
  own : queuedBy (.loop loop) fs = []

/-- Events and functors that carry no message. -/
def Mute (es : List ConnEvent) (fs : List ConnFunctor) : Prop :=
  ∀ t, sentBy t es = [] ∧ executedBy t es = [] ∧ queuedBy t fs = []

theorem InOrder.append {loop : LoopId} {h es : List ConnEvent} {fs gs : List ConnFunctor}
    (ho : InOrder loop h fs) (hm : Mute es gs) : InOrder loop (h ++ es) (fs ++ gs) := by
  refine ⟨fun t => ?_, ?_⟩
  · obtain ⟨hs, he, hq⟩ := hm t
    rw [sentBy_append, executedBy_append, queuedBy_append, hs, he, hq, ho.each t]
    simp only [List.append_nil]
  · rw [queuedBy_append, ho.own, (hm _).2.2]
    rfl

namespace Call

variable {k k' : Call}

/-- The call keeps the order of messages, whatever was there before it. -/
def Orders (k k' : Call) : Prop :=
  k'.conn.loop = k.conn.loop ∧ ∀ h fs, InOrder k.conn.loop (h ++ k.notes) (fs ++ k.queued) →
    InOrder k.conn.loop (h ++ k'.notes) (fs ++ k'.queued)

theorem orders_of_mute {es : List ConnEvent} {fs : List ConnFunctor}
    (hloop : k'.conn.loop = k.conn.loop) (hnotes : k'.notes = k.notes ++ es)
    (hqueued : k'.queued = k.queued ++ fs) (hm : Mute es fs) : Orders k k' := by
  refine ⟨hloop, fun h gs ho => ?_⟩
  rw [hnotes, hqueued, ← List.append_assoc, ← List.append_assoc]
  exact ho.append hm

theorem Orders.refl (k : Call) : Orders k k := ⟨rfl, fun _ _ ho => ho⟩

theorem mute_completions (k : Call) (t : ThreadId) : queuedBy t k.completions = [] := by
  unfold completions
  split <;> rfl

theorem mute_completed (k : Call) (data : Bytes) (w : WriteResult) (t : ThreadId) :
    queuedBy t (k.completed data w) = [] := by
  unfold completed
  split
  · exact mute_completions k t
  · rfl

theorem mute_signals (k : Call) (data : Bytes) (w : WriteResult) (t : ThreadId) :
    queuedBy t (k.signals data w) = [] := by
  unfold signals overflows
  split
  · exact mute_completed k data w t
  · split <;> rfl

theorem mute_writes (k : Call) (data : Bytes) (w : WriteResult) (t : ThreadId) :
    sentBy t (k.writes data w) = [] ∧ executedBy t (k.writes data w) = [] := by
  unfold writes
  split <;> exact ⟨rfl, rfl⟩

theorem mute_halfClose (k : Call) : Mute k.halfClose [] := by
  unfold halfClose
  split <;> exact fun _ => ⟨rfl, rfl, rfl⟩

theorem handleWrite_orders {w : WriteResult} (hk : k.handleWrite w = .ok k') : Orders k k' := by
  have hloop := (handleWrite_quiet hk).loop
  by_cases hw : k.conn.channel.isWriting
  · obtain ⟨b, -, ⟨rfl, -⟩ | ⟨-, p, hp, rfl⟩⟩ := handleWrite_ok hw hk
    · exact orders_of_mute hloop rfl rfl fun _ => ⟨rfl, rfl, rfl⟩
    · refine orders_of_mute hloop (List.append_assoc _ _ _) (List.append_assoc _ _ _) fun t => ?_
      refine ⟨?_, ?_, mute_completions _ t⟩
      · split <;> rfl
      · split <;> rfl
  · rw [handleWrite_of_not_isWriting hw] at hk
    cases hk
    exact .refl k

theorem shutdown_orders (k : Call) (t : ThreadId) : Orders k (k.shutdown t) := by
  have hloop := (shutdown_quiet k t).loop
  unfold shutdown at hloop ⊢
  simp only [note_eq, queueInLoop_eq, shutdownInLoop_eq, emit_emit] at hloop ⊢
  split
  · split
    · refine orders_of_mute rfl rfl rfl fun t' => ?_
      rw [sentBy_append, executedBy_append, (mute_halfClose _ t').1, (mute_halfClose _ t').2.1]
      exact ⟨rfl, rfl, rfl⟩
    · exact orders_of_mute rfl rfl rfl fun _ => ⟨rfl, rfl, rfl⟩
  · exact .refl k

/-- What a `sendInLoop` leaves in the record. -/
theorem sendInLoop_record {t : ThreadId} {message : Bytes} {w : WriteResult}
    (hk : k.sendInLoop t message w = .ok k') :
    k'.notes = k.notes ++ (.sendInLoop t message :: k.writes message w) ∧
      k'.queued = k.queued ++ k.completed message w := by
  rw [sendInLoop_eq] at hk
  obtain ⟨hnotes, hqueued, -⟩ := buffer_ok hk
  exact ⟨hnotes, hqueued⟩

theorem sendBufferInLoop_record {t : ThreadId} {data : Bytes} {w : WriteResult}
    (hstate : k.conn.state ≠ .kDisconnected) (hk : k.sendBufferInLoop t data w = .ok k') :
    k'.notes = k.notes ++ (.sendBufferInLoop t data (if k.Direct then some w else none) ::
        k.writes data w) ∧ k'.queued = k.queued ++ k.signals data w := by
  rw [sendBufferInLoop_eq k t data w hstate] at hk
  obtain ⟨hnotes, hqueued, -⟩ := buffer_ok hk
  exact ⟨hnotes, hqueued⟩

/-- A message sent and executed at once by the thread of the loop, which has none waiting. -/
theorem InOrder.sendNow {loop : LoopId} {h es : List ConnEvent} {fs gs : List ConnFunctor}
    {message : Bytes} {e : ConnEvent} (ho : InOrder loop h fs)
    (he : ∀ t, ConnEvent.sentBy t e = none ∧
      ConnEvent.executedBy t e = if .loop loop = t then some message else none)
    (hm : Mute es gs) :
    InOrder loop (h ++ (.send (.loop loop) message :: e :: es)) (fs ++ gs) := by
  refine ⟨fun t => ?_, ?_⟩
  · obtain ⟨hs, hx, hq⟩ := hm t
    rw [sentBy_append, executedBy_append, queuedBy_append, hq, List.append_nil, ho.each t]
    rw [sentBy_cons, sentBy_cons, executedBy_cons, executedBy_cons, (he t).1, (he t).2, hs, hx]
    show _ ++ ((if .loop loop = t then some message else none).toList ++ ([] ++ [])) =
      executedBy t h ++ ([] ++ (_ ++ [])) ++ queuedBy t fs
    split
    · next heq =>
        -- the thread of the loop has nothing in the queue
        rw [← heq, ho.own]
        simp
    · simp
  · rw [queuedBy_append, ho.own, (hm _).2.2]
    rfl

/-- A message queued by another thread. -/
theorem InOrder.sendLater {loop : LoopId} {h : List ConnEvent} {fs : List ConnFunctor}
    {t : ThreadId} {message : Bytes} (ho : InOrder loop h fs) (hne : t ≠ .loop loop) :
    InOrder loop (h ++ [.send t message]) (fs ++ [.sendInLoop t message]) := by
  refine ⟨fun t' => ?_, ?_⟩
  · rw [sentBy_append, executedBy_append, queuedBy_append, ho.each t']
    by_cases heq : t = t' <;>
      simp [sentBy, executedBy, queuedBy, ConnEvent.sentBy, ConnEvent.executedBy,
        ConnFunctor.queuedBy, heq]
  · rw [queuedBy_append, ho.own]
    simp [queuedBy, ConnFunctor.queuedBy, hne]

/-- The next message in the queue is executed. -/
theorem InOrder.execute {loop : LoopId} {h es : List ConnEvent} {fs gs : List ConnFunctor}
    {t : ThreadId} {message : Bytes} (ho : InOrder loop h (.sendInLoop t message :: fs))
    (hm : Mute es gs) : InOrder loop (h ++ (.sendInLoop t message :: es)) (fs ++ gs) := by
  have hcons : ∀ t', queuedBy t' (.sendInLoop t message :: fs) =
      (if t = t' then some message else none).toList ++ queuedBy t' fs := by
    intro t'
    by_cases heq : t = t' <;> simp [queuedBy, ConnFunctor.queuedBy, heq]
  refine ⟨fun t' => ?_, ?_⟩
  · obtain ⟨hs, hx, hq⟩ := hm t'
    rw [sentBy_append, executedBy_append, queuedBy_append, sentBy_cons, executedBy_cons, hs, hx, hq,
      ho.each t', hcons t']
    simp [ConnEvent.sentBy, ConnEvent.executedBy]
  · have hown := ho.own
    rw [hcons, List.append_eq_nil_iff] at hown
    rw [queuedBy_append, hown.2, (hm _).2.2]
    rfl

theorem send_orders {t : ThreadId} {message : Bytes} {w : WriteResult}
    (hk : k.send t message w = .ok k') : Orders k k' := by
  refine ⟨(send_quiet hk).loop, fun h fs ho => ?_⟩
  unfold send at hk
  simp only [note_eq, queueInLoop_eq, emit_emit, List.nil_append, List.append_nil] at hk
  split at hk
  · split at hk
    · next hin =>
        have ht : t = .loop k.conn.loop := hin
        subst ht
        obtain ⟨hnotes, hqueued⟩ := sendInLoop_record hk
        have hnotes' : k'.notes = k.notes ++ (.send (.loop k.conn.loop) message ::
            .sendInLoop (.loop k.conn.loop) message :: k.writes message w) :=
          hnotes.trans (List.append_assoc _ _ _)
        have hqueued' : k'.queued = k.queued ++ k.completed message w := by
          rw [hqueued, emit_queued, List.append_nil]
          rfl
        rw [hnotes', hqueued', ← List.append_assoc, ← List.append_assoc]
        refine InOrder.sendNow ho (fun t' => ⟨rfl, rfl⟩) fun t' => ?_
        exact ⟨(mute_writes _ _ _ t').1, (mute_writes _ _ _ t').2, mute_completed _ _ _ t'⟩
    · next hout =>
        cases hk
        rw [emit_notes, emit_queued, ← List.append_assoc, ← List.append_assoc]
        exact InOrder.sendLater ho hout
  · cases hk
    exact ho

theorem sendBuffer_orders {t : ThreadId} {data : Bytes} {w : WriteResult}
    (hk : k.sendBuffer t data w = .ok k') : Orders k k' := by
  refine ⟨(sendBuffer_quiet hk).loop, fun h fs ho => ?_⟩
  unfold sendBuffer at hk
  rw [note_eq] at hk
  split at hk
  · next hcond =>
      have ht : t = .loop k.conn.loop := hcond.2
      subst ht
      obtain ⟨hnotes, hqueued⟩ := sendBufferInLoop_record
        (by rw [emit_conn, hcond.1]; exact StateE.noConfusion) hk
      have hnotes' : k'.notes = k.notes ++ (.send (.loop k.conn.loop) data ::
          .sendBufferInLoop (.loop k.conn.loop) data (if k.Direct then some w else none) ::
          k.writes data w) :=
        hnotes.trans (List.append_assoc _ _ _)
      have hqueued' : k'.queued = k.queued ++ k.signals data w := by
        rw [hqueued, emit_queued, List.append_nil]
        rfl
      rw [hnotes', hqueued', ← List.append_assoc, ← List.append_assoc]
      refine InOrder.sendNow ho (fun t' => ⟨rfl, rfl⟩) fun t' => ?_
      exact ⟨(mute_writes _ _ _ t').1, (mute_writes _ _ _ t').2, mute_signals _ _ _ t'⟩
  · cases hk
    exact ho

end Call

/-! ## Until the connection is closed -/

namespace Session

variable {s s' : Session} {a : SessionAction} {ts : List ConnTask} {t : ConnTask} {k : Call}

/-- What waited and what a step executed is what the kernel took and what waits now. -/
theorem balanced_step (h : system.Step s a s') : ∃ es, s'.history = s.history ++ es ∧
    acceptedBytes es ++ s'.conn.unsent = s.conn.unsent ++ executedBytes es := by
  obtain ⟨hen, hex⟩ := h
  have hcall : ∀ {k : Call}, Call.Balanced s.call k → s'.history = s.history ++ k.notes →
      s'.conn = k.conn → ∃ es, s'.history = s.history ++ es ∧
        acceptedBytes es ++ s'.conn.unsent = s.conn.unsent ++ executedBytes es := by
    intro k hb hhist hconn
    obtain ⟨es, hnotes, hbytes⟩ := hb
    refine ⟨es, by rw [hhist, hnotes]; rfl, ?_⟩
    rw [hconn]
    exact hbytes
  -- the steps that neither execute a message nor write
  have hsilent : s'.history = s.history → s'.conn.unsent = s.conn.unsent →
      ∃ es, s'.history = s.history ++ es ∧
        acceptedBytes es ++ s'.conn.unsent = s.conn.unsent ++ executedBytes es :=
    fun hhist hunsent => ⟨[], by rw [hhist, List.append_nil],
      hunsent.trans (List.append_nil _).symm⟩
  cases a with
  | poll revents => cases revents <;> cases hex <;> exact hsilent rfl rfl
  | task r w =>
      obtain ⟨t, ts, k, -, hk, rfl⟩ := exec_task_eq_ok hen hex
      exact hcall (Call.runTask_balanced hk) rfl rfl
  | send t message w =>
      obtain ⟨k, hk, hex⟩ := Fallible.bind_eq_ok.mp hex
      cases hex
      exact hcall (Call.send_conserves hk).balanced rfl rfl
  | sendBuffer t data w =>
      obtain ⟨k, hk, hex⟩ := Fallible.bind_eq_ok.mp hex
      cases hex
      exact hcall (Call.sendBuffer_conserves hk).balanced rfl rfl
  | shutdown t =>
      cases hex
      exact hcall (Call.shutdown_conserves s.call t).balanced rfl rfl
  | retrieveInput len =>
      obtain ⟨b, -, rfl⟩ := exec_retrieveInput_eq_ok.mp hex
      exact hsilent rfl rfl
  | removeConnection =>
      obtain ⟨u, -, hex⟩ := Fallible.bind_eq_ok.mp hex
      cases hex
      exact hsilent rfl rfl
  | takeFunctors | endIteration | setCallbacks writeComplete highWaterMark | others p =>
      cases hex
      exact hsilent rfl rfl

/-- **Conservation over the whole life of a connection**, what runs after `handleClose` included. -/
theorem conserved_of_reachable (h : system.Reachable s) :
    acceptedBytes s.history ++ s.conn.unsent = executedBytes s.history := by
  refine h.invariant (I := fun s => acceptedBytes s.history ++ s.conn.unsent =
    executedBytes s.history) (fun s hs => ?_) fun s a s' _ hs _ hstep => ?_
  · obtain ⟨self, loop, name, sockfd, hwm, wc, p, phase, atOnce, -, -, rfl⟩ := hs
    exact WfBuffer.readable_new
  · obtain ⟨es, hhist, hbytes⟩ := balanced_step hstep
    rw [hhist, acceptedBytes_append, executedBytes_append, ← hs, List.append_assoc, hbytes,
      List.append_assoc]

/-- The output side of a session. -/
structure Streams (s : Session) : Prop where
  flow : Flow s.conn s.history
  order : InOrder s.conn.loop s.history s.functors

/-- Calls of the user. -/
theorem Streams.call (h : s.Streams) (hc : Call.Conserves s.call k) (ho : Call.Orders s.call k)
    (hrest : k.rest = []) : (s.commit k).Streams := by
  refine ⟨?_, ?_⟩
  · exact hc.flow s.history (by rw [Session.call, List.append_nil]; exact h.flow)
  · have horder := ho.2 s.history s.functors
      (by rw [Session.call, List.append_nil, List.append_nil]; exact h.order)
    rw [functors_commit (by rw [hrest]; rfl)]
    show InOrder k.conn.loop _ _
    rw [ho.1]
    exact horder

/-- Tasks that execute no message. -/
theorem Streams.task (h : s.Streams) (htodo : s.todo = t :: ts)
    (ht : ∀ sender message, t ≠ .functor (.sendInLoop sender message))
    (hc : Call.Conserves s.call k) (ho : Call.Orders s.call k) (hrest : k.rest = []) :
    ((s.pop ts).commit k).Streams := by
  have hpop : (s.pop ts).Streams := by
    refine ⟨h.flow, ?_⟩
    have hqueued : ∀ t', queuedBy t' s.functors = queuedBy t' (s.pop ts).functors := by
      intro t'
      cases t with
      | functor f =>
          rw [functors_of_functor htodo]
          refine List.filterMap_cons_none ?_
          cases f with
          | sendInLoop sender message => exact absurd rfl (ht sender message)
          | _ => rfl
      | event _ _ | removeChannel => rw [functors_of_not_functor htodo rfl]
    exact ⟨fun t' => by rw [← hqueued t']; exact h.order.each t',
      (hqueued _).symm.trans h.order.own⟩
  exact hpop.call hc ho hrest

/-- The next queued message is executed. -/
theorem Streams.execute (h : s.Streams) {sender : ThreadId} {message : Bytes} {w : WriteResult}
    (htodo : s.todo = .functor (.sendInLoop sender message) :: ts)
    (hk : s.call.sendInLoop sender message w = .ok k) : ((s.pop ts).commit k).Streams := by
  have hquiet := Call.sendInLoop_quiet hk
  refine ⟨?_, ?_⟩
  · exact (Call.sendInLoop_conserves hk).flow s.history
      (by rw [Session.call, List.append_nil]; exact h.flow)
  · obtain ⟨hnotes, hqueued⟩ := Call.sendInLoop_record hk
    have horder := h.order
    rw [functors_of_functor htodo] at horder
    rw [functors_commit (quiet_rest hquiet), commit_conn, commit_history, hnotes, hqueued]
    show InOrder k.conn.loop _ _
    rw [hquiet.loop]
    refine Call.InOrder.execute horder fun t' => ?_
    exact ⟨(Call.mute_writes _ _ _ t').1, (Call.mute_writes _ _ _ t').2, Call.mute_completed _ _ _ t'⟩

theorem conserves_up {p : EPoller ConnId} :
    Call.Conserves s.call
      (((s.call.setState .kConnected).watch (s.call.conn.channel.events ∪ Channel.kReadEvent) p).emit
        [.connectionCallback .kConnected] []) := by
  refine ⟨Call.balanced_of_silent rfl rfl rfl rfl, fun h hf => ?_⟩
  refine (Call.conserves_emit rfl rfl (by simp) (by simp)).flow h ⟨hf.conserved, ?_, hf.halfClose⟩
  refine Iff.trans ?_ hf.writing
  rw [Channel.isWriting_iff, Channel.isWriting_iff]
  simp [Call.watch, Call.channelAfter, Channel.kReadEvent]

theorem Streams.init (h : init s) : s.Streams := by
  obtain ⟨self, loop, name, sockfd, hwm, wc, p, phase, atOnce, hc, hi, rfl⟩ := h
  have hempty : (TcpConnection.new self loop name sockfd hwm wc).unsent = [] := WfBuffer.readable_new
  refine ⟨⟨?_, ?_, by simp [opened]⟩, fun t => ?_, ?_⟩
  · exact hempty
  · refine iff_of_false ?_ (fun hne => hne hempty)
    rw [Channel.isWriting_iff]
    exact Finset.notMem_empty _
  · cases atOnce <;> rfl
  · cases atOnce <;> rfl

theorem Streams.runTask (h : s.Streams) (ho : s.Orderly) (hw : s.Watching) (hs : ¬ s.Closed)
    {r : Buffer.ReadResult} {w : WriteResult} (htodo : s.todo = t :: ts)
    (hk : s.call.runTask t r w = .ok k) (hopen : ¬ ((s.pop ts).commit k).Closed) :
    ((s.pop ts).commit k).Streams := by
  -- a task that calls `handleClose` ends the part of the run this is about
  have hclose : s.call.handleClose ≠ .ok k := by
    intro hk
    obtain ⟨-, p, hp, rfl⟩ := Call.handleClose_ok hk
    exact hopen (List.mem_append_right _ List.mem_cons_self)
  cases t with
  | event revents cb =>
      cases cb with
      | close => exact absurd hk hclose
      | error =>
          cases hk
          exact h.task htodo (by simp) (.refl _) (.refl _) rfl
      | write =>
          exact h.task htodo (by simp) (Call.handleWrite_conserves hk) (Call.handleWrite_orders hk)
            (Call.handleWrite_quiet hk).rest
      | read =>
          cases r with
          | error =>
              cases hk
              exact h.task htodo (by simp) (.refl _) (.refl _) rfl
          | data bytes =>
              cases bytes with
              | nil => exact absurd hk hclose
              | cons b bs =>
                  cases hk
                  rw [Call.note_eq]
                  refine h.task htodo (by simp)
                    ⟨Call.balanced_of_silent rfl rfl rfl rfl, fun hist hf => ?_⟩ ?_ rfl
                  · exact (Call.conserves_emit rfl rfl (by simp) (by simp)).flow hist
                      ⟨hf.conserved, hf.writing, hf.halfClose⟩
                  · exact Call.orders_of_mute rfl rfl rfl fun _ => ⟨rfl, rfl, rfl⟩
  | functor f =>
      cases f with
      | connectEstablished =>
          obtain ⟨-, p, hp, rfl⟩ := Call.connectEstablished_ok hk
          exact h.task htodo (by simp) conserves_up
            (Call.orders_of_mute rfl rfl rfl fun _ => ⟨rfl, rfl, rfl⟩) rfl
      | connectDestroyed =>
          -- it was queued for a `closeCallback`
          refine absurd (ho.accounts.closed ?_) hs
          unfold gone
          rw [functors_of_functor htodo, List.count_cons_self]
          omega
      | sendInLoop sender message => exact h.execute htodo hk
      | shutdownInLoop =>
          cases hk
          refine h.task htodo (by simp) (Call.shutdownInLoop_conserves _) ?_
            (Call.shutdownInLoop_quiet _).rest
          rw [Call.shutdownInLoop_eq]
          exact Call.orders_of_mute rfl rfl rfl (Call.mute_halfClose _)
      | writeCompleteCallback =>
          cases hk
          rw [Call.note_eq]
          exact h.task htodo (by simp) (Call.conserves_emit rfl rfl (by simp) (by simp))
            (Call.orders_of_mute rfl rfl rfl fun _ => ⟨rfl, rfl, rfl⟩) rfl
      | highWaterMarkCallback len =>
          cases hk
          rw [Call.note_eq]
          exact h.task htodo (by simp) (Call.conserves_emit rfl rfl (by simp) (by simp))
            (Call.orders_of_mute rfl rfl rfl fun _ => ⟨rfl, rfl, rfl⟩) rfl
  | removeChannel =>
      -- the channel is watched for reading, which `removeChannel` refuses
      obtain ⟨ch, p, hrem, rfl⟩ := Call.removeChannel_ok hk
      obtain ⟨hnone, -, -⟩ := ho.registered.removeChannel hrem
      obtain ⟨-, hread⟩ := hw (ho.waiting.ne_connecting htodo (by simp)) hs
      rw [hnone] at hread
      exact absurd hread (by decide)

theorem Streams.step (h : s.Streams) (ho : s.Orderly) (hw : s.Watching) (hopen : ¬ s'.Closed)
    (hstep : system.Step s a s') : s'.Streams := by
  have hs : ¬ s.Closed := fun hc => hopen (hc.move (move_of_step hstep))
  obtain ⟨hen, hex⟩ := hstep
  cases a with
  | poll revents =>
      cases revents with
      | none =>
          cases hex
          exact ⟨h.flow, h.order⟩
      | some revents =>
          cases hex
          refine ⟨h.flow, ?_⟩
          have horder := h.order
          unfold Session.functors at horder ⊢
          rw [hen.2.1] at horder
          rw [functors_eventTasks]
          exact horder
  | task r w =>
      obtain ⟨t, ts, k, htodo, hk, rfl⟩ := exec_task_eq_ok hen hex
      exact h.runTask ho hw hs htodo hk hopen
  | takeFunctors =>
      cases hex
      refine ⟨h.flow, ?_⟩
      have horder := h.order
      unfold Session.functors at horder ⊢
      rw [hen.2] at horder
      rw [functors_map_functor, List.append_nil]
      exact horder
  | send t message w =>
      obtain ⟨k, hk, hex⟩ := Fallible.bind_eq_ok.mp hex
      cases hex
      exact h.call (Call.send_conserves hk) (Call.send_orders hk) (Call.send_quiet hk).rest
  | sendBuffer t data w =>
      obtain ⟨k, hk, hex⟩ := Fallible.bind_eq_ok.mp hex
      cases hex
      exact h.call (Call.sendBuffer_conserves hk) (Call.sendBuffer_orders hk)
        (Call.sendBuffer_quiet hk).rest
  | shutdown t =>
      cases hex
      exact h.call (Call.shutdown_conserves _ t) (Call.shutdown_orders _ t)
        (Call.shutdown_quiet _ t).rest
  | retrieveInput len =>
      obtain ⟨b, -, rfl⟩ := exec_retrieveInput_eq_ok.mp hex
      exact ⟨⟨h.flow.conserved, h.flow.writing, h.flow.halfClose⟩, h.order⟩
  | removeConnection =>
      -- only a connection that was closed is removed
      exact absurd (ho.accounts.closed (Nat.add_pos_left hen _)) hs
  | setCallbacks writeComplete highWaterMark =>
      cases hex
      exact ⟨⟨h.flow.conserved, h.flow.writing, h.flow.halfClose⟩, h.order⟩
  | endIteration | others p =>
      cases hex
      exact ⟨h.flow, h.order⟩

theorem streams_of_reachable (h : system.Reachable s) (hopen : ¬ s.Closed) : s.Streams := by
  induction h with
  | init hinit => exact .init hinit
  | @step s s' a hr _ hstep ih =>
      have hs : ¬ s.Closed := fun hc => hopen (hc.move (move_of_step hstep))
      exact (ih hs).step (orderly_of_reachable hr) (watching_of_reachable hr) hopen hstep

/-- **The output stream is conserved** in every run of a connection until its `handleClose`. -/
theorem output_stream (h : system.Reachable s) (hopen : .closeCallback ∉ s.history) :
    acceptedBytes s.history ++ s.conn.outputBuffer.readable = executedBytes s.history ∧
      (∀ t, sentBy t s.history = executedBy t s.history ++ queuedBy t s.functors) ∧
      (s.conn.channel.isWriting ↔ s.conn.outputBuffer.readable ≠ []) ∧
      ∀ unsent, .shutdownWrite unsent ∈ s.history → unsent = [] := by
  have hstreams : ¬ s.Closed → s.Streams := by
    refine StepSystem.ReachableVia.invariant (I := fun s => ¬ s.Closed → s.Streams)
      (fun s hs _ => .init hs) (fun s a s' hr hs _ hstep hopen => ?_) h
    have hopen' : ¬ s.Closed := fun hc => hopen (hc.move (move_of_step hstep))
    exact (hs hopen').step (orderly_of_reachable hr) (watching_of_reachable hr) hopen hstep
  obtain ⟨hflow, horder⟩ := hstreams hopen
  exact ⟨hflow.conserved, horder.each, hflow.writing, hflow.halfClose⟩

/-- A message of the loop's thread is written in part, another thread sends and shuts down, and the
rest is drained. -/
def drainRun : List SessionAction :=
  [.task .error (.accepted 0), .takeFunctors, .endIteration,
    .send (.loop 0) [1, 2, 3] (.accepted 2), .send (.other 0) [4] (.accepted 0),
    .shutdown (.other 0), .poll (some {.POLLOUT}), .task .error (.failed .EWOULDBLOCK),
    .takeFunctors, .task .error (.accepted 0), .task .error (.accepted 0), .endIteration,
    .poll (some {.POLLOUT}), .task .error (.accepted 2)]

theorem output_stream_drainRun : ∃ s, system.Reachable s ∧
    (.shutdownWrite [] ∈ s.history ∧ acceptedBytes s.history = [1, 2, 3, 4]) ∧
    acceptedBytes s.history ++ s.conn.outputBuffer.readable = executedBytes s.history := by
  obtain ⟨s, hs, hd⟩ := StepSystem.exists_reachableVia_of_runFrom? (fun _ _ => True)
    drainRun (M := system)
    (p := fun s => decide (.closeCallback ∉ s.history ∧ .shutdownWrite [] ∈ s.history ∧
      acceptedBytes s.history = [1, 2, 3, 4])) init_firstSession (by decide +kernel)
  obtain ⟨hopen, hseen⟩ := of_decide_eq_true hd
  exact ⟨s, hs, hseen, (output_stream hs hopen).1⟩

end Session

end MiniMuduo
