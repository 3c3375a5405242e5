import MiniMuduo.Net.Session

/-!
# The input side of a connection

`handleRead` appends what it reads to the input buffer, and the user takes bytes out at its front;
nothing else touches the buffer (`Session.input_step`). `Session.reads` is what a step takes from the
socket, `Session.retrieved` what it takes out of the buffer.
-/

namespace MiniMuduo

open Fallible

namespace Call

variable {k k' : Call}

/-- The call leaves the input buffer alone. -/
def SameInput (k k' : Call) : Prop := k'.conn.inputBuffer = k.conn.inputBuffer

theorem sameInput_buffer {left : Bytes} (h : k.buffer left = .ok k') : SameInput k k' := by
  unfold buffer at h
  split at h
  · cases h
    rfl
  · rcases appendOutput_ok h with ⟨-, rfl⟩ | ⟨-, p, -, rfl⟩ <;> rfl

theorem sameInput_sendInLoop {t : ThreadId} {message : Bytes} {w : WriteResult}
    (h : k.sendInLoop t message w = .ok k') : SameInput k k' := by
  rw [sendInLoop_eq] at h
  exact (sameInput_buffer h).trans rfl

theorem sameInput_sendBufferInLoop {t : ThreadId} {data : Bytes} {w : WriteResult}
    (h : k.sendBufferInLoop t data w = .ok k') : SameInput k k' := by
  by_cases hstate : k.conn.state = .kDisconnected
  · unfold sendBufferInLoop at h
    rw [if_pos hstate] at h
    cases h
    rfl
  · rw [sendBufferInLoop_eq k t data w hstate] at h
    exact (sameInput_buffer h).trans rfl

theorem sameInput_handleWrite {w : WriteResult} (h : k.handleWrite w = .ok k') :
    SameInput k k' := by
  by_cases hw : k.conn.channel.isWriting
  · obtain ⟨b, -, ⟨rfl, -⟩ | ⟨-, p, -, rfl⟩⟩ := handleWrite_ok hw h <;> rfl
  · rw [handleWrite_of_not_isWriting hw] at h
    cases h
    rfl

theorem sameInput_handleClose (h : k.handleClose = .ok k') : SameInput k k' := by
  obtain ⟨-, p, -, rfl⟩ := handleClose_ok h
  rfl

theorem sameInput_runFunctor {f : ConnFunctor} {w : WriteResult}
    (h : k.runFunctor f w = .ok k') : SameInput k k' := by
  cases f with
  | connectEstablished =>
      obtain ⟨-, p, -, rfl⟩ := connectEstablished_ok h
      rfl
  | connectDestroyed =>
      obtain ⟨-, p, -, rfl⟩ := connectDestroyed_ok h
      rfl
  | sendInLoop sender message => exact sameInput_sendInLoop h
  | shutdownInLoop =>
      cases h
      rw [shutdownInLoop_eq]
      rfl
  | writeCompleteCallback | highWaterMarkCallback len =>
      cases h
      rfl

theorem sameInput_send {t : ThreadId} {message : Bytes} {w : WriteResult}
    (h : k.send t message w = .ok k') : SameInput k k' := by
  unfold send at h
  rw [note_eq] at h
  split at h
  · dsimp only at h
    split at h
    · exact (sameInput_sendInLoop h).trans rfl
    · cases h
      rfl
  · cases h
    rfl

theorem sameInput_sendBuffer {t : ThreadId} {data : Bytes} {w : WriteResult}
    (h : k.sendBuffer t data w = .ok k') : SameInput k k' := by
  unfold sendBuffer at h
  rw [note_eq] at h
  split at h
  · exact (sameInput_sendBufferInLoop h).trans rfl
  · cases h
    rfl

theorem sameInput_shutdown (k : Call) (t : ThreadId) : SameInput k (k.shutdown t) := by
  unfold shutdown
  simp only [note_eq, queueInLoop_eq, shutdownInLoop_eq, emit_emit]
  split
  · split <;> rfl
  · rfl

end Call

namespace Session

variable {s s' : Session} {a : SessionAction}

/-- The bytes that a step takes from the socket; none at its end. -/
def reads (s : Session) : SessionAction → Option Bytes
  | .task (.data bytes) _ =>
      match s.todo with
      | .event _ .read :: _ => some bytes
      | _ => none
  | _ => none

/-- The bytes that arrive in a step. -/
def received (s : Session) (a : SessionAction) : Bytes := (s.reads a).getD []

/-- The bytes a step takes out of the input buffer. -/
def retrieved (s : Session) : SessionAction → Bytes
  | .retrieveInput len => s.conn.inputBuffer.readable.take len
  | _ => []

theorem reads_of_read {revents : PollEvents} {ts : List ConnTask} {bytes : Bytes} {w : WriteResult}
    (htodo : s.todo = .event revents .read :: ts) :
    s.reads (.task (.data bytes) w) = some bytes := by
  simp only [reads, htodo]

theorem reads_of_not_read {r : Buffer.ReadResult} {w : WriteResult} {t : ConnTask}
    {ts : List ConnTask} (htodo : s.todo = t :: ts) (ht : ∀ revents, t ≠ .event revents .read) :
    s.reads (.task r w) = none := by
  cases r with
  | error => rfl
  | data bytes =>
      simp only [reads, htodo]
      cases t with
      | event revents cb =>
          cases cb with
          | read => exact absurd rfl (ht revents)
          | close | error | write => rfl
      | functor | removeChannel => rfl

/-- Bytes arrive in the read callback. -/
theorem read_of_received_ne_nil {r : Buffer.ReadResult} {w : WriteResult} {t : ConnTask}
    {ts : List ConnTask} (htodo : s.todo = t :: ts) (h : s.received (.task r w) ≠ []) :
    ∃ revents b bs, t = .event revents .read ∧ r = .data (b :: bs) := by
  by_cases ht : ∃ revents, t = .event revents .read
  · obtain ⟨revents, rfl⟩ := ht
    cases r with
    | error => exact absurd rfl h
    | data bytes =>
        rw [received, reads_of_read htodo] at h
        obtain ⟨b, bs, rfl⟩ := List.exists_cons_of_ne_nil h
        exact ⟨revents, b, bs, rfl, rfl⟩
  · refine absurd ?_ h
    rw [received, reads_of_not_read htodo fun revents heq => ht ⟨revents, heq⟩]
    rfl

theorem input_task {r : Buffer.ReadResult} {w : WriteResult} {t : ConnTask} {ts : List ConnTask}
    {k : Call} (htodo : s.todo = t :: ts) (h : s.call.runTask t r w = .ok k) :
    k.conn.inputBuffer.readable =
      s.conn.inputBuffer.readable ++ s.received (.task r w) := by
  have hsame : (∀ revents, t ≠ .event revents .read) → Call.SameInput s.call k →
      k.conn.inputBuffer.readable =
        s.conn.inputBuffer.readable ++ s.received (.task r w) := by
    intro ht hk
    rw [received, reads_of_not_read htodo ht, Option.getD_none, List.append_nil, hk]
    rfl
  cases t with
  | functor f => exact hsame (by simp) (Call.sameInput_runFunctor h)
  | removeChannel =>
      obtain ⟨ch, p, -, rfl⟩ := Call.removeChannel_ok h
      exact hsame (by simp) rfl
  | event revents cb =>
      cases cb with
      | close => exact hsame (by simp) (Call.sameInput_handleClose h)
      | write => exact hsame (by simp) (Call.sameInput_handleWrite h)
      | error =>
          cases h
          exact hsame (by simp) rfl
      | read =>
          cases r with
          | error =>
              cases h
              exact (List.append_nil _).symm
          | data bytes =>
              rw [received, reads_of_read htodo, Option.getD_some]
              cases bytes with
              | nil =>
                  rw [List.append_nil, Call.sameInput_handleClose h]
                  rfl
              | cons b bs =>
                  cases h
                  exact WfBuffer.readable_readFd _ _

/-- **What a step does to the input buffer**: the user takes bytes out at its front, or what was read
is appended. -/
theorem input_step (h : system.Step s a s') :
    (∃ len, a = .retrieveInput len ∧ len ≤ s.conn.inputBuffer.readable.length ∧
        s'.conn.inputBuffer.readable = s.conn.inputBuffer.readable.drop len) ∨
      (∀ len, a ≠ .retrieveInput len) ∧ s'.conn.inputBuffer.readable =
        s.conn.inputBuffer.readable ++ s.received a := by
  obtain ⟨hen, hex⟩ := h
  have hsame : s'.conn.inputBuffer = s.conn.inputBuffer → s.reads a = none →
      s'.conn.inputBuffer.readable = s.conn.inputBuffer.readable ++ s.received a := by
    intro heq hnone
    rw [received, hnone, Option.getD_none, List.append_nil, heq]
  cases a with
  | retrieveInput len =>
      obtain ⟨b, hb, rfl⟩ := exec_retrieveInput_eq_ok.mp hex
      obtain ⟨hle, hread⟩ := WfBuffer.readable_of_retrieve hb
      exact .inl ⟨len, rfl, hle, hread⟩
  | poll revents => cases revents <;> cases hex <;> exact .inr ⟨by simp, hsame rfl rfl⟩
  | task r w =>
      obtain ⟨t, ts, k, htodo, hk, rfl⟩ := exec_task_eq_ok hen hex
      exact .inr ⟨by simp, input_task htodo hk⟩
  | send t message w =>
      obtain ⟨k, hk, hex⟩ := bind_eq_ok.mp hex
      cases hex
      exact .inr ⟨by simp, hsame (Call.sameInput_send hk) rfl⟩
  | sendBuffer t data w =>
      obtain ⟨k, hk, hex⟩ := bind_eq_ok.mp hex
      cases hex
      exact .inr ⟨by simp, hsame (Call.sameInput_sendBuffer hk) rfl⟩
  | shutdown t =>
      cases hex
      exact .inr ⟨by simp, hsame (Call.sameInput_shutdown _ t) rfl⟩
  | removeConnection =>
      obtain ⟨u, -, hex⟩ := bind_eq_ok.mp hex
      cases hex
      exact .inr ⟨by simp, hsame rfl rfl⟩
  | takeFunctors | endIteration | setCallbacks writeComplete highWaterMark | others p =>
      cases hex
      exact .inr ⟨by simp, hsame rfl rfl⟩

/-- What a step takes out of the input buffer and what is there after it, from what was there before and
what it reads. -/
theorem retrieved_append_readable (h : system.Step s a s') :
    s.retrieved a ++ s'.conn.inputBuffer.readable =
      s.conn.inputBuffer.readable ++ s.received a := by
  rcases input_step h with ⟨len, rfl, -, hread⟩ | ⟨hne, hread⟩
  · rw [hread]
    exact (List.take_append_drop len _).trans (List.append_nil _).symm
  · have hnone : s.retrieved a = [] := by
      cases a with
      | retrieveInput len => exact absurd rfl (hne len)
      | _ => rfl
    rw [hnone, hread, List.nil_append]

end Session

end MiniMuduo
