import MiniMuduo.Net.OutputStream

/-!
# The two ways to send

`sendInLoop(const std::string &)` and `sendInLoop(const void *, size_t)` were written separately. Both
try `::write` first and buffer what is left, and where nothing out of the ordinary happens they do the
same. The second one looks at three things that the first one does not: whether the connection is
down already, whether the error shows the peer gone, and whether the output buffer grows over the
high-water mark. `sendsAlike_iff` says that these are all the differences.
-/

namespace MiniMuduo

open Fallible

/-- What can be told from outside of a call that sends. -/
structure SendOutcome where
  unsent : Bytes
  events : PollEvents
  /-- The interest of the kernel in the descriptor. -/
  interest : Option (PollEvents × ConnId)
  accepted : Bytes
  queued : List ConnFunctor
  deriving DecidableEq

namespace Call

variable {k k' : Call} {t : ThreadId} {data left : Bytes} {w : WriteResult}

def outcome (k : Call) : SendOutcome where
  unsent := k.conn.unsent
  events := k.conn.channel.events
  interest := k.poller.interest k.conn.channel.fd
  accepted := acceptedBytes k.notes
  queued := k.queued

/-- Both overloads end alike on the same bytes and the same answer of `::write`. -/
def SendsAlike (k : Call) (t : ThreadId) (data : Bytes) (w : WriteResult) : Prop :=
  (k.sendInLoop t data w).map outcome = (k.sendBufferInLoop t data w).map outcome

/-! ## When there is nothing to do differently -/

/-- The bytes that `::write` leaves, all of them when it is not called. -/
def remaining (k : Call) (data : Bytes) (w : WriteResult) : Bytes :=
  data.drop (k.taken data w).length

/-- `n` bytes more take the output buffer over the high-water mark, and someone wants to know. -/
def Crosses (k : Call) (n : ℕ) : Prop :=
  k.conn.unsent.length + n ≥ k.conn.highWaterMark ∧ k.conn.unsent.length < k.conn.highWaterMark ∧
    k.conn.highWaterMarkCallback = true

/-- Watching the channel for `POLLOUT` trips an assert of the poller. -/
def CannotWatch (k : Call) : Prop := ¬ k.conn.channel.isWriting ∧ ∃ e, k.enableWriting = .error e

/-- On a connection that is down: no bytes, and no completion to report. Otherwise: no bytes that are
given up because of `EPIPE` or `ECONNRESET`, and no crossing of the high-water mark (unless an assert
stops both overloads right after it). -/
def Uneventful (k : Call) (data : Bytes) (w : WriteResult) : Prop :=
  if k.conn.state = .kDisconnected then
    data = [] ∧ ¬ (k.Direct ∧ w.nwrote? data = some 0 ∧ k.conn.writeCompleteCallback = true)
  else
    (k.Direct → w.isFault = true → data = []) ∧
      (k.remaining data w ≠ [] → k.Crosses (k.remaining data w).length → k.CannotWatch)

instance (k : Call) (n : ℕ) : Decidable (k.Crosses n) :=
  inferInstanceAs (Decidable (_ ∧ _ ∧ _))

theorem overflows_eq (k : Call) (n : ℕ) :
    k.overflows n =
      if k.Crosses n then [.highWaterMarkCallback (k.conn.unsent.length + n)] else [] := rfl

/-! ## Buffering, seen from outside -/

theorem setEvents_emit (k : Call) (es : List ConnEvent) (fs : List ConnFunctor)
    (events : PollEvents) :
    (k.emit es fs).setEvents events = (k.setEvents events).map (·.emit es fs) := by
  unfold setEvents emit
  cases k.poller.updateChannel k.conn.self { k.conn.channel with events := events } <;> rfl

theorem setEvents_setOutput (k : Call) (b : WfBuffer) (events : PollEvents) :
    (k.setOutput b).setEvents events = (k.setEvents events).map (·.setOutput b) := by
  unfold setEvents setOutput
  cases k.poller.updateChannel k.conn.self { k.conn.channel with events := events } <;> rfl

/-- The output buffer and the interest are changed independently. -/
theorem buffer_eq (k : Call) (hne : left ≠ []) :
    k.buffer left =
      if k.conn.channel.isWriting then .ok (k.setOutput (k.conn.outputBuffer.append left))
      else k.enableWriting.map (·.setOutput (k.conn.outputBuffer.append left)) := by
  unfold buffer appendOutput
  rw [if_neg hne]
  by_cases hw : k.conn.channel.isWriting
  · exact (if_pos hw).trans (if_pos hw).symm
  · refine Eq.trans (if_neg hw) (Eq.trans ?_ (if_neg hw).symm)
    exact setEvents_setOutput k _ _

/-- Buffering does not look at what was noted and queued. -/
theorem buffer_emit (k : Call) (es : List ConnEvent) (fs : List ConnFunctor) (left : Bytes) :
    (k.emit es fs).buffer left = (k.buffer left).map (·.emit es fs) := by
  by_cases hleft : left = []
  · rw [hleft, buffer_nil, buffer_nil]
    rfl
  · have henable : (k.emit es fs).enableWriting = k.enableWriting.map (·.emit es fs) :=
      setEvents_emit k es fs _
    rw [buffer_eq _ hleft, buffer_eq _ hleft, henable, emit_conn]
    split
    · rfl
    · cases k.enableWriting <;> rfl

theorem buffer_eq_error_iff (hne : left ≠ []) :
    (∃ e, k.buffer left = .error e) ↔ k.CannotWatch := by
  rw [buffer_eq _ hne, CannotWatch]
  by_cases hw : k.conn.channel.isWriting
  · simp [hw]
  · cases henable : k.enableWriting <;> simp [hw, Except.map]

/-- From outside, emitting shows in what was accepted and what is queued. -/
theorem outcome_emit_eq_iff {es es' : List ConnEvent} {fs fs' : List ConnFunctor} :
    (k.emit es fs).outcome = (k.emit es' fs').outcome ↔
      acceptedBytes es = acceptedBytes es' ∧ fs = fs' := by
  constructor
  · intro h
    have hacc := congrArg SendOutcome.accepted h
    have hqueued := congrArg SendOutcome.queued h
    simp only [outcome, emit_notes, emit_queued, acceptedBytes_append] at hacc hqueued
    exact ⟨List.append_cancel_left hacc, List.append_cancel_left hqueued⟩
  · rintro ⟨hacc, rfl⟩
    simp only [outcome, emit_notes, acceptedBytes_append, hacc]
    rfl

/-- A call that emits and then buffers. -/
def finish (k : Call) (es : List ConnEvent) (fs : List ConnFunctor) (left : Bytes) :
    Except NetFault SendOutcome :=
  ((k.emit es fs).buffer left).map outcome

theorem finish_eq (k : Call) (es : List ConnEvent) (fs : List ConnFunctor) (left : Bytes) :
    k.finish es fs left = (k.buffer left).map fun k' => (k'.emit es fs).outcome := by
  rw [finish, buffer_emit]
  cases k.buffer left <;> rfl

/-- Calls that leave the same bytes differ in what they emit, if they do not stop. -/
theorem finish_eq_iff {es es' : List ConnEvent} {fs fs' : List ConnFunctor} :
    k.finish es fs left = k.finish es' fs' left ↔
      (acceptedBytes es = acceptedBytes es' ∧ fs = fs') ∨ (left ≠ [] ∧ k.CannotWatch) := by
  rw [finish_eq, finish_eq]
  cases hbuffer : k.buffer left with
  | error e =>
      have hne : left ≠ [] := by
        intro hnil
        rw [hnil, buffer_nil] at hbuffer
        cases hbuffer
      exact iff_of_true rfl (.inr ⟨hne, (buffer_eq_error_iff hne).mp ⟨e, hbuffer⟩⟩)
  | ok k' =>
      have hwatch : ¬ (left ≠ [] ∧ k.CannotWatch) := by
        rintro ⟨hne, hcannot⟩
        obtain ⟨e, he⟩ := (buffer_eq_error_iff hne).mpr hcannot
        rw [hbuffer] at he
        cases he
      rw [or_iff_left hwatch, ← outcome_emit_eq_iff (k := k')]
      exact Except.ok.injEq (k'.emit es fs).outcome (k'.emit es' fs').outcome ▸ Iff.rfl

/-- Calls of which only one leaves bytes differ. -/
theorem finish_ne_of_nil {es es' : List ConnEvent} {fs fs' : List ConnFunctor} (hne : left ≠ []) :
    k.finish es fs left ≠ k.finish es' fs' [] := by
  intro h
  rw [finish_eq, finish_eq, buffer_nil] at h
  cases hbuffer : k.buffer left with
  | error e =>
      rw [hbuffer] at h
      cases h
  | ok k' =>
      rw [hbuffer] at h
      have hunsent : k'.conn.unsent = k.conn.unsent :=
        congrArg SendOutcome.unsent (Except.ok.inj h)
      rw [(buffer_ok hbuffer).2.2.1] at hunsent
      exact hne (List.append_right_eq_self.mp hunsent)

/-! ## The comparison -/

theorem sendInLoop_finish (k : Call) (t : ThreadId) (data : Bytes) (w : WriteResult) :
    (k.sendInLoop t data w).map outcome =
      k.finish (.sendInLoop t data :: k.writes data w) (k.completed data w)
        (k.remaining data w) := by
  rw [sendInLoop_eq]
  rfl

theorem sendBufferInLoop_finish (hstate : k.conn.state ≠ .kDisconnected) (t : ThreadId)
    (data : Bytes) (w : WriteResult) :
    (k.sendBufferInLoop t data w).map outcome =
      k.finish (.sendBufferInLoop t data (if k.Direct then some w else none) :: k.writes data w)
        (k.signals data w) (k.leftOfBuffer data w) := by
  rw [sendBufferInLoop_eq k t data w hstate]
  rfl

theorem sendBufferInLoop_finish_of_down (hstate : k.conn.state = .kDisconnected) (t : ThreadId)
    (data : Bytes) (w : WriteResult) :
    (k.sendBufferInLoop t data w).map outcome = k.finish [] [] [] := by
  unfold sendBufferInLoop
  rw [if_pos hstate, finish, emit_nil, buffer_nil]
  rfl

theorem completed_eq_nil_iff :
    k.completed data w = [] ↔
      ¬ (k.Direct ∧ w.nwrote? data = some data.length ∧ k.conn.writeCompleteCallback = true) := by
  rw [completed, completions]
  by_cases hall : k.Direct ∧ w.nwrote? data = some data.length
  · rw [if_pos hall]
    cases hcb : k.conn.writeCompleteCallback <;> simp [hall]
  · rw [if_neg hall]
    exact iff_of_true rfl fun h => hall ⟨h.1, h.2.1⟩

theorem sendsAlike_iff_of_down (hstate : k.conn.state = .kDisconnected) :
    k.SendsAlike t data w ↔ data = [] ∧
      ¬ (k.Direct ∧ w.nwrote? data = some 0 ∧ k.conn.writeCompleteCallback = true) := by
  rw [SendsAlike, sendInLoop_finish, sendBufferInLoop_finish_of_down hstate]
  have hdata : k.taken data w ++ k.remaining data w = data := taken_append_drop' k data w
  have hacc : acceptedBytes (.sendInLoop t data :: k.writes data w) = k.taken data w :=
    acceptedBytes_writes k data w
  by_cases hleft : k.remaining data w = []
  · rw [hleft, List.append_nil] at hdata
    rw [hleft, finish_eq_iff, or_iff_left (fun h => h.1 rfl), hacc, hdata, completed_eq_nil_iff]
    apply and_congr_right
    rintro rfl
    rfl
  · refine iff_of_false (finish_ne_of_nil hleft) ?_
    rintro ⟨rfl, -⟩
    exact hleft (List.append_eq_nil_iff.mp hdata).2

/-- Nothing is completed while bytes remain. -/
theorem completed_of_remaining (hne : k.remaining data w ≠ []) : k.completed data w = [] := by
  rw [completed_eq_nil_iff]
  rintro ⟨hd, hall, -⟩
  apply hne
  rw [remaining, taken, if_pos hd, (length_taken_of_nwrote hall).1, List.drop_length]

theorem remaining_of_isFault (hd : k.Direct) (hfault : w.isFault = true) :
    k.remaining data w = data := by
  have htaken : w.taken data = [] := by
    rcases isFault_iff.mp hfault with rfl | rfl <;> rfl
  rw [remaining, taken, if_pos hd, htaken]
  rfl

theorem signals_eq_completed_iff (hleft : k.leftOfBuffer data w = k.remaining data w) :
    k.completed data w = k.signals data w ↔
      (k.remaining data w ≠ [] → ¬ k.Crosses (k.remaining data w).length) := by
  rw [signals, hleft]
  by_cases hrem : k.remaining data w = []
  · rw [if_pos hrem]
    exact iff_of_true rfl fun hne => absurd hrem hne
  · rw [if_neg hrem, completed_of_remaining hrem, overflows_eq]
    by_cases hcross : k.Crosses (k.remaining data w).length <;> simp [hrem, hcross]

theorem sendsAlike_iff_of_up (hstate : k.conn.state ≠ .kDisconnected) :
    k.SendsAlike t data w ↔ (k.Direct → w.isFault = true → data = []) ∧
      (k.remaining data w ≠ [] → k.Crosses (k.remaining data w).length → k.CannotWatch) := by
  rw [SendsAlike, sendInLoop_finish, sendBufferInLoop_finish hstate]
  by_cases hgiveUp : k.Direct ∧ w.isFault = true
  · -- one overload keeps all the bytes, the other one none
    obtain ⟨hd, hfault⟩ := hgiveUp
    have hrem : k.remaining data w = data := remaining_of_isFault hd hfault
    have hleft : k.leftOfBuffer data w = [] := if_pos ⟨hd, hfault⟩
    rw [hleft, hrem]
    by_cases hdata : data = []
    · have hsignals : k.signals data w = k.completed data w := if_pos hleft
      rw [hsignals, hdata]
      exact iff_of_true (finish_eq_iff.mpr (.inl ⟨rfl, rfl⟩)) ⟨fun _ _ => rfl, fun h => absurd rfl h⟩
    · refine iff_of_false (finish_ne_of_nil hdata) ?_
      rintro ⟨hnil, -⟩
      exact hdata (hnil hd hfault)
  · have hleft : k.leftOfBuffer data w = k.remaining data w := if_neg hgiveUp
    rw [hleft, finish_eq_iff, signals_eq_completed_iff hleft]
    have hfirst : k.Direct → w.isFault = true → data = [] := fun hd hf => absurd ⟨hd, hf⟩ hgiveUp
    constructor
    · rintro (⟨-, hno⟩ | ⟨-, hcannot⟩)
      · exact ⟨hfirst, fun hrem hcross => absurd hcross (hno hrem)⟩
      · exact ⟨hfirst, fun _ _ => hcannot⟩
    · rintro ⟨-, hcross⟩
      by_cases hstops : k.remaining data w ≠ [] ∧ k.CannotWatch
      · exact .inr hstops
      · exact .inl ⟨rfl, fun hrem hc => hstops ⟨hrem, hcross hrem hc⟩⟩

/-- **The two overloads of `sendInLoop`** end alike exactly when nothing happens that only the second
one looks at. -/
theorem sendsAlike_iff (k : Call) (t : ThreadId) (data : Bytes) (w : WriteResult) :
    k.SendsAlike t data w ↔ k.Uneventful data w := by
  unfold Uneventful
  split
  · next hstate => exact sendsAlike_iff_of_down hstate
  · next hstate => exact sendsAlike_iff_of_up hstate

/-- An established connection with nothing to write, before it sends. -/
def idleCall : Call where
  conn := { TcpConnection.new 0 0 "" 5 0 false with state := .kConnected }
  poller := ⟨fun _ => none, fun _ => none⟩
  queued := []
  notes := []
  rest := []

/-- `::write` fails with `EPIPE`: one overload keeps the byte and watches the channel, the other one
gives it up. -/
theorem not_sendsAlike_idleCall :
    ¬ ∀ (k : Call) (t : ThreadId) (data : Bytes) (w : WriteResult), k.SendsAlike t data w := by
  intro hall
  have halike := hall idleCall (.loop 0) [120] (.failed .EPIPE)
  have hstate : idleCall.conn.state ≠ .kDisconnected := by decide
  have hdirect : idleCall.Direct := by decide +kernel
  have hnil := ((sendsAlike_iff_of_up hstate).mp halike).1 hdirect rfl
  cases hnil

end Call

end MiniMuduo
