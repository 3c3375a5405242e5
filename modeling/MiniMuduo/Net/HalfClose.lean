import Mathlib.Data.List.Perm.Basic
import MiniMuduo.Net.OutputStream

/-!
# Data before the half-close

A connection between `connectEstablished` and `handleClose`, with those who send on it and shut it
down. Calls in the thread of the loop run to their end. A call in another thread is cut where other
threads can get in between: after `send` or `shutdown` found the connection up, after `shutdown` set
the state, and before the functor is in the queue.

`shutdown` in the thread of the loop, and `handleWrite`, issue `SHUT_WR` as soon as the output buffer
is empty. A message that another thread has sent may still be on its way to `sendInLoop` then
(`onItsWay`), and is written after the half-close. `data_before_half_close` says that this is the only
way in which data can miss it.
-/

namespace MiniMuduo

open Fallible

/-! ## The system -/

/-- Where a `send` or `shutdown` in another thread is. -/
inductive OffLoopCall where
  /-- `send` found the connection up; the functor is to be queued. -/
  | send (t : ThreadId) (message : Bytes)
  /-- `shutdown` found the connection up; the state is to be set. -/
  | shutdown (t : ThreadId)
  /-- `shutdown` has set the state; the functor is to be queued. -/
  | shutdownInLoop
  deriving DecidableEq, Repr

structure Established where
  conn : TcpConnection
  poller : EPoller ConnId
  /-- The functors of the connection, in the order in which they will run. -/
  functors : List ConnFunctor
  calls : List OffLoopCall
  history : List ConnEvent

inductive OutputAction where
  | send (t : ThreadId) (message : Bytes) (w : WriteResult)
  | shutdown (t : ThreadId)
  /-- A call in another thread goes on. -/
  | proceed (i : ℕ)
  /-- `doPendingFunctors` runs the next functor. -/
  | functor (w : WriteResult)
  /-- A writable event. -/
  | writable (w : WriteResult)

namespace Established

def call (s : Established) : Call := ⟨s.conn, s.poller, [], [], []⟩

def commit (s : Established) (k : Call) : Established :=
  { s with
    conn := k.conn
    poller := k.poller
    functors := s.functors ++ k.queued
    history := s.history ++ k.notes }

/-- A connection right after `connectEstablished`. -/
def init (s : Established) : Prop :=
  ∃ self loop name sockfd highWaterMark writeComplete p k,
    Call.connectEstablished
      ⟨.new self loop name sockfd highWaterMark writeComplete, p, [], [], []⟩ = .ok k ∧
    s = ⟨k.conn, k.poller, k.queued, [], k.notes⟩

def enabled (s : Established) : OutputAction → Prop
  | .proceed i => i < s.calls.length
  | .functor _ => s.functors ≠ []
  | _ => True

instance (s : Established) (a : OutputAction) : Decidable (s.enabled a) := by
  cases a <;> unfold enabled <;> infer_instance

/-- The call at this position goes on. -/
def proceed (s : Established) (i : ℕ) : OffLoopCall → Established
  | .send t message => { s with
      calls := s.calls.eraseIdx i
      functors := s.functors ++ [.sendInLoop t message] }
  | .shutdown t => { s with
      conn := { s.conn with state := .kDisconnecting }
      calls := s.calls.set i .shutdownInLoop
      history := s.history ++ [.shutdown t] }
  | .shutdownInLoop => { s with
      calls := s.calls.eraseIdx i
      functors := s.functors ++ [.shutdownInLoop] }

def exec (s : Established) : OutputAction → Except NetFault Established
  | .send t message w =>
      if s.conn.isInLoopThread t then do
        let k ← s.call.send t message w
        return s.commit k
      else if s.conn.state = .kConnected then
        return { s with
          calls := s.calls ++ [.send t message]
          history := s.history ++ [.send t message] }
      else return s
  | .shutdown t =>
      if s.conn.isInLoopThread t then return s.commit (s.call.shutdown t)
      else if s.conn.state = .kConnected then return { s with calls := s.calls ++ [.shutdown t] }
      else return s
  | .proceed i =>
      match s.calls[i]? with
      | some c => return s.proceed i c
      | none => return s
  | .functor w =>
      match s.functors with
      | [] => return s
      | f :: fs => do
          let k ← s.call.runFunctor f w
          return { s with functors := fs }.commit k
  | .writable w => do
      let k ← s.call.handleWrite w
      return s.commit k

def system : StepSystem Established OutputAction NetFault where
  init := init
  enabled := enabled
  exec := exec

instance (s : Established) (a : OutputAction) : Decidable (system.enabled s a) :=
  inferInstanceAs (Decidable (s.enabled a))

end Established

/-! ## Messages -/

/-- The message that a `send` took on. -/
def ConnEvent.sent? : ConnEvent → Option Bytes
  | .send _ message => some message
  | _ => none

/-- The message that a `sendInLoop` executed. -/
def ConnEvent.executed? : ConnEvent → Option Bytes
  | .sendInLoop _ message | .sendBufferInLoop _ message _ => some message
  | _ => none

/-- An event that neither sends nor writes. -/
def ConnEvent.isMute : ConnEvent → Bool
  | .send _ _ | .sendInLoop _ _ | .sendBufferInLoop _ _ _ | .write _ _ => false
  | _ => true

def ConnFunctor.message? : ConnFunctor → Option Bytes
  | .sendInLoop _ message => some message
  | _ => none

def OffLoopCall.message? : OffLoopCall → Option Bytes
  | .send _ message => some message
  | _ => none

def sentMessages (h : List ConnEvent) : List Bytes := h.filterMap ConnEvent.sent?

def executedMessages (h : List ConnEvent) : List Bytes := h.filterMap ConnEvent.executed?

theorem sentMessages_append (h h' : List ConnEvent) :
    sentMessages (h ++ h') = sentMessages h ++ sentMessages h' := List.filterMap_append

theorem executedMessages_append (h h' : List ConnEvent) :
    executedMessages (h ++ h') = executedMessages h ++ executedMessages h' := List.filterMap_append

/-- Mute events carry no message and no bytes. -/
theorem messages_of_mute {es : List ConnEvent} (h : ∀ e ∈ es, e.isMute = true) :
    sentMessages es = [] ∧ executedMessages es = [] ∧ acceptedBytes es = [] ∧
      executedBytes es = [] := by
  refine ⟨?_, ?_, ?_, ?_⟩
  · refine List.filterMap_eq_nil_iff.mpr fun e he => ?_
    cases e <;> first | rfl | cases h _ he
  · refine List.filterMap_eq_nil_iff.mpr fun e he => ?_
    cases e <;> first | rfl | cases h _ he
  · refine List.flatMap_eq_nil_iff.mpr fun e he => ?_
    cases e <;> first | rfl | cases h _ he
  · refine List.flatMap_eq_nil_iff.mpr fun e he => ?_
    cases e <;> first | rfl | cases h _ he

/-- What `SHUT_WR` is to come after: all messages that were sent are executed and accepted by the
kernel, and nothing is written later. -/
def DataFirst (h : List ConnEvent) : Prop :=
  ∀ before unsent after, h = before ++ .shutdownWrite unsent :: after →
    (sentMessages h).Perm (executedMessages before) ∧ acceptedBytes before = executedBytes before ∧
      ∀ data w, .write data w ∉ after

namespace Established

/-- The messages that were sent and have not come to `sendInLoop`: in the queue, or with a thread that
is about to queue them. -/
def onItsWay (s : Established) : List Bytes :=
  s.functors.filterMap ConnFunctor.message? ++ s.calls.filterMap OffLoopCall.message?

/-- The step issues `SHUT_WR`. -/
def Closes (s : Established) : OutputAction → Prop
  | .shutdown t => s.conn.isInLoopThread t ∧ s.conn.state = .kConnected ∧ ¬ s.conn.channel.isWriting
  | .functor _ => s.functors.head? = some .shutdownInLoop ∧ ¬ s.conn.channel.isWriting
  | .writable w => s.conn.channel.isWriting ∧ s.conn.state = .kDisconnecting ∧
      w.taken s.conn.unsent = s.conn.unsent ∧ s.conn.unsent ≠ []
  | _ => False

instance (s : Established) (a : OutputAction) : Decidable (s.Closes a) := by
  cases a <;> unfold Closes <;> infer_instance

/-- A step that issues `SHUT_WR` finds no message on its way. -/
def ClosesLast (s : Established) (a : OutputAction) : Prop := s.Closes a → s.onItsWay = []

instance (s : Established) (a : OutputAction) : Decidable (s.ClosesLast a) :=
  inferInstanceAs (Decidable (_ → _))

/-! ## What a step can do -/

/-- Nothing more is going to be written. -/
structure Sealed (s : Established) : Prop where
  state : s.conn.state ≠ .kConnected
  onItsWay : s.onItsWay = []
  idle : ¬ s.conn.channel.isWriting

/-- No `SHUT_WR` among these events. -/
def KeepsOpen (es : List ConnEvent) : Prop := ∀ unsent, .shutdownWrite unsent ∉ es

/-- The three kinds of steps. -/
inductive Advance (s : Established) (a : OutputAction) (s' : Established) : Prop where
  /-- Neither sends, writes nor half-closes. -/
  | mute {es : List ConnEvent} (hclose : ¬ s.Closes a) (hist : s'.history = s.history ++ es)
      (hes : ∀ e ∈ es, e.isMute = true) (hopen : KeepsOpen es) (hway : s'.onItsWay.Perm s.onItsWay)
      (hsealed : s.Sealed → s'.Sealed)
  /-- Sends or writes. -/
  | busy {es : List ConnEvent} (hclose : ¬ s.Closes a) (hist : s'.history = s.history ++ es)
      (hopen : KeepsOpen es) (hsealed : ¬ s.Sealed)
      (hway : (sentMessages es ++ s.onItsWay).Perm (executedMessages es ++ s'.onItsWay))
  /-- Half-closes, after the last write if there was one. -/
  | close {es : List ConnEvent} {unsent : Bytes} (hclose : s.Closes a)
      (hist : s'.history = s.history ++ (es ++ [.shutdownWrite unsent]))
      (hopen : KeepsOpen es) (hsent : sentMessages es = []) (hexec : executedMessages es = [])
      (hmute : s.Sealed → ∀ e ∈ es, e.isMute = true) (hway : s'.onItsWay.Perm s.onItsWay)
      (hstate : s'.conn.state ≠ .kConnected) (hidle : ¬ s'.conn.channel.isWriting)

variable {s s' : Established} {a : OutputAction}

/-- A step that leaves no trace in the history. -/
theorem Advance.silent (hclose : ¬ s.Closes a) (hist : s'.history = s.history)
    (hway : s'.onItsWay.Perm s.onItsWay) (hstate : s'.conn.state = s.conn.state)
    (hchannel : s'.conn.channel = s.conn.channel) : Advance s a s' := by
  have hist' : s'.history = s.history ++ [] := by rw [hist, List.append_nil]
  refine .mute hclose hist' (by simp) (by simp [KeepsOpen]) hway fun hs => ⟨?_, ?_, ?_⟩
  · rw [hstate]
    exact hs.state
  · rw [hs.onItsWay] at hway
    exact hway.eq_nil
  · rw [hchannel]
    exact hs.idle

theorem filterMap_completions (k : Call) : k.completions.filterMap ConnFunctor.message? = [] := by
  unfold Call.completions
  split <;> rfl

theorem filterMap_completed (k : Call) (data : Bytes) (w : WriteResult) :
    (k.completed data w).filterMap ConnFunctor.message? = [] := by
  unfold Call.completed
  split
  · exact filterMap_completions k
  · rfl

/-- Functors without messages change nothing about the messages on their way. -/
theorem onItsWay_commit {k : Call} (h : k.queued.filterMap ConnFunctor.message? = []) :
    (s.commit k).onItsWay = s.onItsWay := by
  unfold onItsWay commit
  rw [List.filterMap_append, h, List.append_nil]

theorem commit_call (s : Established) : s.commit s.call = s := by
  unfold commit call
  simp

/-- The events of a `sendInLoop`. -/
theorem messages_sendInLoop (k : Call) (t : ThreadId) (message : Bytes) (w : WriteResult) :
    sentMessages (.sendInLoop t message :: k.writes message w) = [] ∧
      executedMessages (.sendInLoop t message :: k.writes message w) = [message] ∧
      KeepsOpen (.sendInLoop t message :: k.writes message w) := by
  unfold Call.writes
  split <;> simp [sentMessages, executedMessages, ConnEvent.sent?, ConnEvent.executed?, KeepsOpen]

/-- What is queued: nothing that ends the connection, and a half-close only once it is asked for. -/
structure Consistent (s : Established) : Prop where
  quiet : ∀ f ∈ s.functors, f.isQuiet = true
  shutting : .shutdownInLoop ∈ s.functors ∨ .shutdownInLoop ∈ s.calls →
    s.conn.state ≠ .kConnected

/-- The steps with what they do, as long as nothing that ends the connection is queued. -/
inductive Moves (s : Established) : OutputAction → Established → Prop where
  /-- The connection is not up, or not writing. -/
  | ignored {a : OutputAction} : ¬ s.Closes a → Moves s a s
  | send {t : ThreadId} {message : Bytes} {w : WriteResult} {k : Call} :
      s.conn.state = .kConnected →
      (s.call.emit [.send t message] []).sendInLoop t message w = .ok k →
      Moves s (.send t message w) (s.commit k)
  | sendElsewhere {t : ThreadId} {message : Bytes} {w : WriteResult} : s.conn.state = .kConnected →
      Moves s (.send t message w) { s with
        calls := s.calls ++ [.send t message]
        history := s.history ++ [.send t message] }
  | shutdown {t : ThreadId} : s.conn.isInLoopThread t → s.conn.state = .kConnected →
      Moves s (.shutdown t) (s.commit
        ((s.call.setState .kDisconnecting).emit ([.shutdown t] ++ s.call.halfClose) []))
  | shutdownElsewhere {t : ThreadId} : ¬ s.conn.isInLoopThread t →
      Moves s (.shutdown t) { s with calls := s.calls ++ [.shutdown t] }
  | proceed {i : ℕ} {c : OffLoopCall} : s.calls[i]? = some c →
      Moves s (.proceed i) (s.proceed i c)
  | sendInLoop {w : WriteResult} {t : ThreadId} {message : Bytes} {fs : List ConnFunctor} {k : Call} :
      s.functors = .sendInLoop t message :: fs → s.call.sendInLoop t message w = .ok k →
      Moves s (.functor w) ({ s with functors := fs }.commit k)
  | shutdownInLoop {w : WriteResult} {fs : List ConnFunctor} : s.functors = .shutdownInLoop :: fs →
      Moves s (.functor w) ({ s with functors := fs }.commit (s.call.emit s.call.halfClose []))
  /-- A user callback. -/
  | callback {w : WriteResult} {f : ConnFunctor} {fs : List ConnFunctor} {e : ConnEvent} :
      s.functors = f :: fs → f ≠ .shutdownInLoop → f.message? = none → e.isMute = true →
      (∀ unsent, e ≠ .shutdownWrite unsent) →
      Moves s (.functor w) ({ s with functors := fs }.commit (s.call.emit [e] []))
  | writable {w : WriteResult} {k : Call} : s.conn.channel.isWriting → s.call.handleWrite w = .ok k →
      Moves s (.writable w) (s.commit k)

theorem moves_send {t : ThreadId} {message : Bytes} {w : WriteResult}
    (h : s.exec (.send t message w) = .ok s') : Moves s (.send t message w) s' := by
  unfold exec at h
  dsimp only at h
  split at h
  · next hloop =>
      obtain ⟨k, hk, h⟩ := bind_eq_ok.mp h
      cases h
      by_cases hst : s.conn.state = .kConnected
      · have hloop' : (s.call.emit [.send t message] []).conn.isInLoopThread t := hloop
        unfold Call.send at hk
        rw [if_pos (show s.call.conn.state = .kConnected from hst)] at hk
        simp only [Call.note_eq] at hk
        rw [if_pos hloop'] at hk
        exact .send hst hk
      · rw [Call.send_of_ne hst] at hk
        cases hk
        rw [commit_call]
        exact .ignored id
  · split at h
    · next hst =>
        cases h
        exact .sendElsewhere hst
    · cases h
      exact .ignored id

theorem moves_shutdown {t : ThreadId} (h : s.exec (.shutdown t) = .ok s') :
    Moves s (.shutdown t) s' := by
  unfold exec at h
  dsimp only at h
  split at h
  · next hloop =>
      cases h
      by_cases hst : s.conn.state = .kConnected
      · have heq : s.call.shutdown t = ((s.call.setState .kDisconnecting).emit
            ([.shutdown t] ++ s.call.halfClose) []) := by
          have hloop' : ((s.call.setState .kDisconnecting).emit [.shutdown t] []).conn.isInLoopThread t :=
            hloop
          unfold Call.shutdown
          rw [if_pos (show s.call.conn.state = .kConnected from hst)]
          simp only [Call.note_eq, Call.shutdownInLoop_eq]
          rw [if_pos hloop', Call.emit_emit]
          rfl
        rw [heq]
        exact .shutdown hloop hst
      · rw [Call.shutdown_of_ne hst, commit_call]
        exact .ignored fun hc => hst hc.2.1
  · next hloop =>
      split at h
      · cases h
        exact .shutdownElsewhere hloop
      · cases h
        exact .ignored fun hc => hloop hc.1

theorem moves_functor (hs : s.Consistent) {w : WriteResult} (hen : s.functors ≠ [])
    (h : s.exec (.functor w) = .ok s') : Moves s (.functor w) s' := by
  unfold exec at h
  dsimp only at h
  split at h
  · next hnil => exact absurd hnil hen
  · next f fs hfs =>
      obtain ⟨k, hk, h⟩ := bind_eq_ok.mp h
      cases h
      cases f with
      | connectEstablished | connectDestroyed =>
          cases hs.quiet _ (by rw [hfs]; exact List.mem_cons_self)
      | sendInLoop t message => exact .sendInLoop hfs hk
      | shutdownInLoop =>
          cases hk
          rw [Call.shutdownInLoop_eq]
          exact .shutdownInLoop hfs
      | writeCompleteCallback | highWaterMarkCallback _ =>
          cases hk
          rw [Call.note_eq]
          exact .callback hfs (by simp) rfl rfl (by simp)

theorem moves_of_step (hs : s.Consistent) (hstep : system.Step s a s') : Moves s a s' := by
  obtain ⟨hen, h⟩ := hstep
  cases a with
  | send t message w => exact moves_send h
  | shutdown t => exact moves_shutdown h
  | proceed i =>
      change (match s.calls[i]? with | some c => _ | none => _) = _ at h
      split at h
      · next hc =>
          cases h
          exact .proceed hc
      · cases h
        exact .ignored id
  | functor w => exact moves_functor hs hen h
  | writable w =>
      obtain ⟨k, hk, h⟩ := bind_eq_ok.mp h
      cases h
      by_cases hw : s.conn.channel.isWriting
      · exact .writable hw hk
      · rw [Call.handleWrite_of_not_isWriting hw] at hk
        cases hk
        rw [commit_call]
        exact .ignored fun hc => hw hc.1

/-! ## Messages along a step -/

/-- The messages of the calls, with the one at `i` first. -/
theorem filterMap_calls {i : ℕ} {c : OffLoopCall} (h : s.calls[i]? = some c) :
    (s.calls.filterMap OffLoopCall.message?).Perm
      ((c :: s.calls.eraseIdx i).filterMap OffLoopCall.message?) := by
  obtain ⟨hi, rfl⟩ := List.getElem?_eq_some_iff.mp h
  exact (List.getElem_cons_eraseIdx_perm hi).symm.filterMap _

theorem advance_proceed {i : ℕ} {c : OffLoopCall} (hc : s.calls[i]? = some c) :
    Advance s (.proceed i) (s.proceed i c) := by
  have hclose : ¬ s.Closes (.proceed i) := id
  have hperm := (filterMap_calls hc).symm
  cases c with
  | send t message =>
      refine .silent hclose rfl ?_ rfl rfl
      show ((s.functors ++ [ConnFunctor.sendInLoop t message]).filterMap _ ++ _).Perm _
      rw [List.filterMap_append, List.append_assoc]
      exact hperm.append_left _
  | shutdown t =>
      have hset : (s.proceed i (.shutdown t)).onItsWay.Perm s.onItsWay := by
        have hi := (List.getElem?_eq_some_iff.mp hc).1
        refine List.Perm.append_left _ (List.Perm.trans ?_ hperm)
        exact (List.set_perm_cons_eraseIdx hi _).filterMap _
      refine .mute hclose (rfl : _ = s.history ++ [.shutdown t]) (by simp [ConnEvent.isMute])
        (by simp [KeepsOpen]) hset fun hs => ⟨StateE.noConfusion, ?_, hs.idle⟩
      rw [hs.onItsWay] at hset
      exact hset.eq_nil
  | shutdownInLoop =>
      refine .silent hclose rfl ?_ rfl rfl
      show ((s.functors ++ [ConnFunctor.shutdownInLoop]).filterMap _ ++ _).Perm _
      rw [List.filterMap_append, List.append_assoc]
      exact hperm.append_left _

/-- What the kernel takes is a first part of what it is given. -/
theorem taken_eq_self_iff {data : Bytes} {w : WriteResult} :
    w.taken data = data ↔ data.drop (w.taken data).length = [] := by
  refine ⟨fun h => by rw [h, List.drop_length], fun h => ?_⟩
  have hall := Call.taken_append_drop data w
  rwa [h, List.append_nil] at hall

theorem advance_writable (hf : Flow s.conn s.history) {w : WriteResult} {k : Call}
    (hw : s.conn.channel.isWriting) (hk : s.call.handleWrite w = .ok k) :
    Advance s (.writable w) (s.commit k) := by
  have hsealed : ¬ s.Sealed := fun hs => hs.idle hw
  have hmute : s.Sealed → ∀ e ∈ [ConnEvent.write s.conn.unsent w], e.isMute = true :=
    fun hs => absurd hs hsealed
  have hne := hf.writing.mp hw
  obtain ⟨b, hb, ⟨rfl, hleft⟩ | ⟨hnil, p, -, rfl⟩⟩ := Call.handleWrite_ok hw hk
  · -- something is left
    have hclose : ¬ s.Closes (.writable w) := by
      rintro ⟨-, -, htaken, -⟩
      rcases hleft with ⟨hnone, -⟩ | hleft
      · exact hne (htaken.symm.trans hnone)
      · exact hleft (hb.trans (taken_eq_self_iff.mp htaken))
    refine .busy hclose (rfl : _ = s.history ++ [.write s.conn.unsent w]) (by simp [KeepsOpen]) hsealed
      (.of_eq ?_)
    exact (onItsWay_commit rfl).symm
  · have htaken : w.taken s.conn.unsent = s.conn.unsent :=
      taken_eq_self_iff.mpr (hb.symm.trans hnil)
    have hway : (s.commit (((s.call.emit [.write s.call.conn.unsent w] []).setOutput b).drained
        p)).onItsWay = s.onItsWay := onItsWay_commit (filterMap_completions _)
    have hist : (s.commit (((s.call.emit [.write s.call.conn.unsent w] []).setOutput b).drained
        p)).history = s.history ++ ([.write s.conn.unsent w] ++
          if s.conn.state = .kDisconnecting then [.shutdownWrite b.readable] else []) := rfl
    by_cases hst : s.conn.state = .kDisconnecting
    · rw [if_pos hst] at hist
      refine .close ⟨hw, hst, htaken, hne⟩ hist (by simp [KeepsOpen]) rfl rfl hmute (.of_eq hway) ?_
        (Call.not_isWriting_channelAfter _)
      show s.conn.state ≠ .kConnected
      rw [hst]
      exact StateE.noConfusion
    · rw [if_neg hst, List.append_nil] at hist
      exact .busy (fun hc => hst hc.2.1) hist (by simp [KeepsOpen]) hsealed (.of_eq hway.symm)

theorem Moves.advance (h : Moves s a s') (hf : Flow s.conn s.history) (hs : s.Consistent) :
    Advance s a s' := by
  have hup : s.conn.state = .kConnected → ¬ s.Sealed := fun hst hs => hs.state hst
  -- a functor without a message is popped
  have hpop : ∀ {f fs}, s.functors = f :: fs → f.message? = none →
      onItsWay { s with functors := fs } = s.onItsWay := by
    intro f fs hfs hnone
    unfold onItsWay
    rw [hfs, List.filterMap_cons_none hnone]
  cases h with
  | ignored hclose => exact .silent hclose rfl (.refl _) rfl rfl
  | @send t message w k hst hk =>
      obtain ⟨hnotes, hqueued⟩ := Call.sendInLoop_record hk
      obtain ⟨hsent, hexec, hopen⟩ :=
        messages_sendInLoop (s.call.emit [.send t message] []) t message w
      have hist : (s.commit k).history = s.history ++ (.send t message :: .sendInLoop t message ::
          (s.call.emit [.send t message] []).writes message w) := by
        show s.history ++ k.notes = _
        rw [hnotes]
        rfl
      refine .busy id hist ?_ (hup hst) ?_
      · exact fun unsent hmem => hopen unsent ((List.mem_cons.mp hmem).resolve_left (by simp))
      · rw [onItsWay_commit (by rw [hqueued]; exact filterMap_completed _ message w)]
        show (message :: sentMessages (_ :: _) ++ _).Perm (executedMessages (_ :: _) ++ _)
        rw [hsent]
        exact .of_eq (congrArg (· ++ s.onItsWay) hexec.symm)
  | @sendElsewhere t message w hst =>
      refine .busy id rfl (by simp [KeepsOpen]) (hup hst) ?_
      have hway : onItsWay { s with
          calls := s.calls ++ [.send t message]
          history := s.history ++ [.send t message] } = s.onItsWay ++ [message] := by
        unfold onItsWay
        rw [List.filterMap_append, ← List.append_assoc]
        rfl
      rw [hway]
      exact (List.perm_append_singleton message s.onItsWay).symm
  | @shutdown t hloop hst =>
      by_cases hw : s.conn.channel.isWriting
      · -- left to `handleWrite`
        rw [show s.call.halfClose = [] from if_pos hw]
        refine .mute (fun hc => hc.2.2 hw) (rfl : _ = s.history ++ [.shutdown t])
          (by simp [ConnEvent.isMute]) (by simp [KeepsOpen]) (.of_eq (onItsWay_commit rfl))
          fun hs => absurd hst hs.state
      · rw [show s.call.halfClose = [.shutdownWrite s.conn.unsent] from if_neg hw]
        refine .close ⟨hloop, hst, hw⟩ rfl (by simp [KeepsOpen]) rfl rfl
          (fun hs => absurd hst hs.state) (.of_eq (onItsWay_commit rfl)) ?_ hw
        exact StateE.noConfusion
  | shutdownElsewhere hloop =>
      refine .silent (fun hc => hloop hc.1) rfl (.of_eq ?_) rfl rfl
      unfold onItsWay
      rw [List.filterMap_append]
      simp [OffLoopCall.message?]
  | proceed hc => exact advance_proceed hc
  | @sendInLoop w t message fs k hfs hk =>
      have hway : s.onItsWay = message :: onItsWay { s with functors := fs } := by
        unfold onItsWay
        rw [hfs]
        rfl
      have hclose : ¬ s.Closes (.functor w) := by
        rintro ⟨hhead, -⟩
        rw [hfs] at hhead
        cases hhead
      obtain ⟨hnotes, hqueued⟩ := Call.sendInLoop_record hk
      obtain ⟨hsent, hexec, hopen⟩ := messages_sendInLoop s.call t message w
      refine .busy hclose (congrArg (s.history ++ ·) hnotes) hopen ?_ ?_
      · -- the message itself was on its way
        intro hsealed
        rw [hsealed.onItsWay] at hway
        cases hway
      · rw [onItsWay_commit (by rw [hqueued]; exact filterMap_completed _ message w), hway]
        show (sentMessages (_ :: _) ++ _).Perm (executedMessages (_ :: _) ++ _)
        rw [hsent, hexec]
        exact .refl _
  | @shutdownInLoop w fs hfs =>
      have hmem : .shutdownInLoop ∈ s.functors := by rw [hfs]; exact List.mem_cons_self
      by_cases hw : s.conn.channel.isWriting
      · rw [show s.call.halfClose = [] from if_pos hw, Call.emit_nil]
        refine .silent (fun hc => hc.2 hw) (List.append_nil _) (.of_eq ?_) rfl rfl
        rw [onItsWay_commit rfl, hpop hfs rfl]
      · rw [show s.call.halfClose = [.shutdownWrite s.conn.unsent] from if_neg hw]
        refine .close ⟨by rw [hfs]; rfl, hw⟩ (rfl : _ = s.history ++ ([] ++ [_])) (by simp [KeepsOpen])
          rfl rfl (by simp) (.of_eq ?_) (hs.shutting (.inl hmem)) hw
        rw [onItsWay_commit rfl, hpop hfs rfl]
  | @callback w f fs e hfs hne hnone he hopen =>
      have hway : (commit { s with functors := fs } (s.call.emit [e] [])).onItsWay = s.onItsWay :=
        (onItsWay_commit rfl).trans (hpop hfs hnone)
      refine .mute ?_ rfl (by simpa [call] using he) ?_ (.of_eq hway)
        fun hs => ⟨hs.state, hway.trans hs.onItsWay, hs.idle⟩
      · rintro ⟨hhead, -⟩
        rw [hfs] at hhead
        exact hne (Option.some.inj hhead)
      · exact fun unsent hin => hopen unsent (List.mem_singleton.mp hin).symm
  | writable hw hk => exact advance_writable hf hw hk

/-! ## Invariants of the queue and the stream -/

/-- A call that queues nothing but a completion and at most turns the state to `kDisconnecting`. -/
theorem Consistent.commit (hs : s.Consistent) {k : Call}
    (hqueued : ∀ f ∈ k.queued, f = .writeCompleteCallback)
    (hstate : k.conn.state = s.conn.state ∨ k.conn.state = .kDisconnecting) :
    (s.commit k).Consistent := by
  refine ⟨fun f hf => ?_, fun h => ?_⟩
  · rcases List.mem_append.mp hf with hold | hnew
    · exact hs.quiet f hold
    · rw [hqueued f hnew]
      rfl
  · have hold : .shutdownInLoop ∈ s.functors ∨ .shutdownInLoop ∈ s.calls := by
      refine h.imp_left fun hmem => ?_
      rcases List.mem_append.mp hmem with hold | hnew
      · exact hold
      · cases hqueued _ hnew
    show k.conn.state ≠ .kConnected
    rcases hstate with heq | heq <;> rw [heq]
    · exact hs.shutting hold
    · exact StateE.noConfusion

theorem eq_of_mem_completions {k : Call} {f : ConnFunctor} (h : f ∈ k.completions) :
    f = .writeCompleteCallback := by
  unfold Call.completions at h
  split at h
  · exact List.mem_singleton.mp h
  · cases h

theorem eq_of_mem_completed {k : Call} {data : Bytes} {w : WriteResult} {f : ConnFunctor}
    (h : f ∈ k.completed data w) : f = .writeCompleteCallback := by
  unfold Call.completed at h
  split at h
  · exact eq_of_mem_completions h
  · cases h

theorem Consistent.sendInLoop (hs : s.Consistent) {k k' : Call} {t : ThreadId} {message : Bytes}
    {w : WriteResult} (hk : k.sendInLoop t message w = .ok k') (hqueued : k.queued = [])
    (hstate : k.conn.state = s.conn.state) : (s.commit k').Consistent := by
  refine hs.commit (fun f hf => ?_) ?_
  · rw [(Call.sendInLoop_record hk).2, hqueued] at hf
    exact eq_of_mem_completed hf
  · rw [← hstate]
    exact (Call.sendInLoop_quiet hk).state.imp_right And.right

theorem Consistent.proceed (hs : s.Consistent) {i : ℕ} {c : OffLoopCall}
    (hc : s.calls[i]? = some c) : (s.proceed i c).Consistent := by
  have hmem : c ∈ s.calls := List.mem_of_getElem? hc
  cases c with
  | send t message =>
      refine ⟨fun f hf => ?_, fun hin => hs.shutting (hin.imp (fun hin => ?_) ?_)⟩
      · rcases List.mem_append.mp hf with hold | hnew
        · exact hs.quiet f hold
        · rw [List.mem_singleton.mp hnew]
          rfl
      · exact (List.mem_append.mp hin).resolve_right (by simp)
      · exact List.mem_of_mem_eraseIdx
  | shutdown t => exact ⟨hs.quiet, fun _ => StateE.noConfusion⟩
  | shutdownInLoop =>
      refine ⟨fun f hf => ?_, fun _ => hs.shutting (.inr hmem)⟩
      rcases List.mem_append.mp hf with hold | hnew
      · exact hs.quiet f hold
      · rw [List.mem_singleton.mp hnew]
        rfl

theorem Consistent.pop (hs : s.Consistent) {f : ConnFunctor} {fs : List ConnFunctor}
    (hfs : s.functors = f :: fs) : Consistent { s with functors := fs } := by
  refine ⟨fun f' hf' => hs.quiet f' ?_, fun hin => hs.shutting (hin.imp_left fun hin => ?_)⟩
  · rw [hfs]
    exact List.mem_cons_of_mem _ hf'
  · rw [hfs]
    exact List.mem_cons_of_mem _ hin

/-- One more call of another thread, which is not on its way to `shutdownInLoop` yet. -/
theorem Consistent.call (hs : s.Consistent) {c : OffLoopCall} (hc : c ≠ .shutdownInLoop)
    (h : List ConnEvent) : Consistent { s with calls := s.calls ++ [c], history := h } := by
  refine ⟨hs.quiet, fun hmem => hs.shutting (hmem.imp_right fun hin => ?_)⟩
  exact (List.mem_append.mp hin).resolve_right (by simpa using hc.symm)

theorem Moves.consistent (h : Moves s a s') (hs : s.Consistent) : s'.Consistent := by
  cases h with
  | ignored => exact hs
  | send _ hk => exact hs.sendInLoop hk rfl rfl
  | sendElsewhere => exact hs.call (by simp) _
  | shutdown => exact hs.commit (by simp [Call.setState, Established.call]) (.inr rfl)
  | shutdownElsewhere => exact hs.call (by simp) _
  | proceed hc => exact hs.proceed hc
  | sendInLoop hfs hk => exact (hs.pop hfs).sendInLoop hk rfl rfl
  | shutdownInLoop hfs => exact (hs.pop hfs).commit (by simp [Established.call]) (.inl rfl)
  | callback hfs => exact (hs.pop hfs).commit (by simp [Established.call]) (.inl rfl)
  | writable hw hk =>
      refine hs.commit (fun f hf => ?_) ((Call.handleWrite_quiet hk).state.imp_right And.right)
      obtain ⟨b, -, ⟨rfl, -⟩ | ⟨-, p, -, rfl⟩⟩ := Call.handleWrite_ok hw hk
      · cases hf
      · exact eq_of_mem_completions hf

theorem flow_commit (hf : Flow s.conn s.history) {k : Call} (hk : Call.Conserves s.call k) :
    Flow (s.commit k).conn (s.commit k).history :=
  hk.flow s.history (by rw [call, List.append_nil]; exact hf)

theorem Moves.flow (h : Moves s a s') (hf : Flow s.conn s.history) : Flow s'.conn s'.history := by
  -- events about nothing that is sent or written
  have hemit : ∀ {k : Call} {e : ConnEvent}, e.isMute = true →
      (∀ unsent, e ≠ .shutdownWrite unsent) → Call.Conserves k (k.emit [e] []) := by
    intro k e he hopen
    have hmute : ∀ e' ∈ [e], e'.isMute = true := by simpa using he
    obtain ⟨-, -, hacc, hexe⟩ := messages_of_mute hmute
    have hnone : ∀ unsent, .shutdownWrite unsent ∉ [e] := fun unsent hmem =>
      hopen unsent (List.mem_singleton.mp hmem).symm
    exact Call.conserves_emit hacc hexe (fun unsent hmem => absurd hmem (hnone unsent))
      fun ⟨unsent, hmem⟩ => absurd hmem (hnone unsent)
  have hsend : ∀ t message, Call.Conserves s.call (s.call.emit [.send t message] []) := fun _ _ =>
    Call.conserves_emit rfl rfl (by simp) (by simp)
  cases h with
  | ignored | shutdownElsewhere => exact hf
  | send _ hk => exact flow_commit hf ((hsend _ _).trans (Call.sendInLoop_conserves hk))
  | sendElsewhere => exact flow_commit hf (hsend _ _)
  | @shutdown t =>
      have hk : Call.Conserves s.call ((s.call.setState .kDisconnecting).emit [.shutdown t] []) :=
        (Call.conserves_setState _ _).trans (hemit rfl (by simp))
      have hclose := hk.trans (Call.shutdownInLoop_conserves _)
      rw [Call.shutdownInLoop_eq, Call.emit_emit] at hclose
      exact flow_commit hf hclose
  | @proceed i c _ =>
      cases c with
      | send t message => exact hf
      | shutdown t =>
          exact flow_commit hf ((Call.conserves_setState _ .kDisconnecting).trans
            (hemit (e := .shutdown t) rfl (by simp)))
      | shutdownInLoop => exact hf
  | sendInLoop _ hk => exact flow_commit hf (Call.sendInLoop_conserves hk)
  | shutdownInLoop =>
      rw [← Call.shutdownInLoop_eq]
      exact flow_commit hf (Call.shutdownInLoop_conserves _)
  | callback _ _ _ he hopen => exact flow_commit hf (hemit he hopen)
  | writable _ hk => exact flow_commit hf (Call.handleWrite_conserves hk)

/-- Every message that was sent is executed once or is on its way. -/
def Tally (s : Established) : Prop :=
  (sentMessages s.history).Perm (executedMessages s.history ++ s.onItsWay)

theorem Tally.advance (h : s.Tally) (ha : Advance s a s') : s'.Tally := by
  unfold Tally at h ⊢
  cases ha with
  | mute _ hist hes _ hway _ =>
      obtain ⟨hsent, hexec, -, -⟩ := messages_of_mute hes
      rw [hist, sentMessages_append, executedMessages_append, hsent, hexec, List.append_nil,
        List.append_nil]
      exact h.trans (hway.symm.append_left _)
  | @busy es _ hist _ _ hway =>
      rw [hist, sentMessages_append, executedMessages_append, List.append_assoc]
      have hmove : (executedMessages s.history ++ s.onItsWay ++ sentMessages es).Perm
          (executedMessages s.history ++ (sentMessages es ++ s.onItsWay)) := by
        rw [List.append_assoc]
        exact List.perm_append_comm.append_left _
      exact ((h.append_right _).trans hmove).trans (hway.append_left _)
  | close _ hist _ hsent hexec _ hway _ _ =>
      rw [hist, sentMessages_append, executedMessages_append, sentMessages_append,
        executedMessages_append, hsent, hexec]
      show (sentMessages s.history ++ []).Perm (executedMessages s.history ++ [] ++ _)
      rw [List.append_nil, List.append_nil]
      exact h.trans (hway.symm.append_left _)

/-! ## Runs -/

structure Sound (s : Established) : Prop where
  flow : Flow s.conn s.history
  consistent : s.Consistent
  tally : s.Tally

theorem Sound.init (h : init s) : s.Sound := by
  obtain ⟨self, loop, name, sockfd, hwm, wc, p, k, hk, rfl⟩ := h
  obtain ⟨-, p', -, rfl⟩ := Call.connectEstablished_ok hk
  have hempty : (TcpConnection.new self loop name sockfd hwm wc).unsent = [] := WfBuffer.readable_new
  refine ⟨⟨hempty, iff_of_false ?_ (fun hne => hne hempty), ?_⟩, ⟨?_, ?_⟩, .refl _⟩
  · rw [Channel.isWriting_iff]
    show PollFlag.POLLOUT ∉ Channel.kNoneEvent ∪ Channel.kReadEvent
    decide
  · simp [Call.setState, Call.watch]
  · simp [Call.setState, Call.watch]
  · simp [Call.setState, Call.watch]

theorem Sound.moves (h : s.Sound) (hstep : system.Step s a s') : Moves s a s' :=
  moves_of_step h.consistent hstep

theorem Sound.advance (h : s.Sound) (hstep : system.Step s a s') : Advance s a s' :=
  (h.moves hstep).advance h.flow h.consistent

theorem Sound.step (h : s.Sound) (hstep : system.Step s a s') : s'.Sound :=
  ⟨(h.moves hstep).flow h.flow, (h.moves hstep).consistent h.consistent,
    h.tally.advance (h.advance hstep)⟩

theorem sound_of_reachable {ok : Established → OutputAction → Prop} (h : system.ReachableVia ok s) :
    s.Sound :=
  h.invariant (fun _ => .init) fun _ _ _ _ hs _ => hs.step

/-- With nothing on its way and the output buffer idle, all that was sent is accepted. -/
theorem Sound.settled (h : s.Sound) (hway : s.onItsWay = []) (hidle : ¬ s.conn.channel.isWriting) :
    (sentMessages s.history).Perm (executedMessages s.history) ∧
      acceptedBytes s.history = executedBytes s.history := by
  have htally := h.tally
  unfold Tally at htally
  rw [hway, List.append_nil] at htally
  have hempty : s.conn.unsent = [] := by
    by_contra hne
    exact hidle (h.flow.writing.mpr hne)
  have hflow := h.flow.conserved
  rw [hempty, List.append_nil] at hflow
  exact ⟨htally, hflow⟩

/-- Data came first so far, and once the connection is half-closed nothing is left to write. -/
structure Proper (s : Established) : Prop where
  dataFirst : DataFirst s.history
  closed : ∀ unsent, .shutdownWrite unsent ∈ s.history → s.Sealed

theorem Proper.init (h : init s) : s.Proper := by
  obtain ⟨self, loop, name, sockfd, hwm, wc, p, k, hk, rfl⟩ := h
  obtain ⟨-, p', -, rfl⟩ := Call.connectEstablished_ok hk
  have hopen : ∀ unsent, ConnEvent.shutdownWrite unsent ∉
      [ConnEvent.connectionCallback .kConnected] := by simp
  refine ⟨fun before unsent after heq => absurd ?_ (hopen unsent), fun unsent hmem =>
    absurd hmem (hopen unsent)⟩
  have hmem : ConnEvent.shutdownWrite unsent ∈ before ++ .shutdownWrite unsent :: after := by simp
  rw [← heq] at hmem
  exact hmem

/-- Where an element of two lists together stands. -/
theorem append_eq_append_cons {α : Type} {l r before after : List α} {x : α}
    (h : l ++ r = before ++ x :: after) :
    (∃ mid, before = l ++ mid ∧ r = mid ++ x :: after) ∨
      ∃ mid, l = before ++ x :: mid ∧ after = mid ++ r := by
  rcases List.append_eq_append_iff.mp h with ⟨mid, hbefore, hr⟩ | ⟨mid, hl, hx⟩
  · exact .inl ⟨mid, hbefore, hr⟩
  · cases mid with
    | nil =>
        rw [List.append_nil] at hl
        exact .inl ⟨[], by rw [hl, List.append_nil], hx.symm⟩
    | cons y mid =>
        obtain ⟨rfl, hafter⟩ := List.cons.inj hx
        exact .inr ⟨mid, hl, hafter⟩

/-- A mute addition to the history of a sealed connection. -/
theorem Sealed.dataFirst (h : s.Sealed) (hs : s.Sound) (hd : DataFirst s.history)
    {es : List ConnEvent} (hes : ∀ e ∈ es, e.isMute = true) : DataFirst (s.history ++ es) := by
  obtain ⟨hperm, hbytes⟩ := hs.settled h.onItsWay h.idle
  intro before unsent after heq
  have hwrite : ∀ data w, ConnEvent.write data w ∉ es := fun data w hmem => by cases hes _ hmem
  rw [sentMessages_append, (messages_of_mute hes).1, List.append_nil]
  rcases append_eq_append_cons heq with ⟨mid, hbefore, hes'⟩ | ⟨mid, hhist, hafter⟩
  · -- the half-close is new
    have hmid : ∀ e ∈ mid, e.isMute = true :=
      fun e he => hes e (by rw [hes']; exact List.mem_append_left _ he)
    obtain ⟨-, hexec, hacc, hexe⟩ := messages_of_mute hmid
    refine ⟨?_, ?_, fun data w hmem => hwrite data w ?_⟩
    · rw [hbefore, executedMessages_append, hexec, List.append_nil]
      exact hperm
    · rw [hbefore, acceptedBytes_append, executedBytes_append, hacc, hexe, List.append_nil,
        List.append_nil]
      exact hbytes
    · rw [hes']
      exact List.mem_append_right _ (List.mem_cons_of_mem _ hmem)
  · obtain ⟨hsent, haccepted, hlast⟩ := hd before unsent mid hhist
    refine ⟨hsent, haccepted, fun data w hmem => ?_⟩
    rw [hafter] at hmem
    exact (List.mem_append.mp hmem).elim (hlast data w) (hwrite data w)

theorem Proper.step (hs : s.Sound) (h : s.Proper) (hok : s.ClosesLast a)
    (hstep : system.Step s a s') : s'.Proper := by
  have hs' := hs.step hstep
  by_cases hclosed : ∃ unsent, .shutdownWrite unsent ∈ s.history
  · obtain ⟨unsent, hmem⟩ := hclosed
    have hsealed := h.closed unsent hmem
    cases hs.advance hstep with
    | mute _ hist hes _ _ hkeep =>
        refine ⟨?_, fun _ _ => hkeep hsealed⟩
        rw [hist]
        exact hsealed.dataFirst hs h.dataFirst hes
    | busy _ _ _ hunsealed _ => exact absurd hsealed hunsealed
    | close hclose hist _ _ _ hmute hway hstate hidle =>
        refine ⟨?_, fun _ _ => ⟨hstate, ?_, hidle⟩⟩
        · rw [hist]
          refine hsealed.dataFirst hs h.dataFirst fun e he => ?_
          rcases List.mem_append.mp he with he | he
          · exact hmute hsealed e he
          · rw [List.mem_singleton.mp he]
            rfl
        · rw [hsealed.onItsWay] at hway
          exact hway.eq_nil
  · rw [not_exists] at hclosed
    -- no half-close yet: it is the last event of this step, or there still is none
    have hopen : ∀ es, KeepsOpen es → ∀ unsent, .shutdownWrite unsent ∉ s.history ++ es :=
      fun es hes unsent hmem => (List.mem_append.mp hmem).elim (hclosed unsent) (hes unsent)
    have hnone : ∀ es, KeepsOpen es → s'.history = s.history ++ es → s'.Proper := by
      intro es hes hist
      refine ⟨fun before unsent after heq => ?_, fun unsent hmem => ?_⟩
      · refine absurd ?_ (hopen es hes unsent)
        rw [← hist, heq]
        simp
      · rw [hist] at hmem
        exact absurd hmem (hopen es hes unsent)
    cases hs.advance hstep with
    | mute _ hist _ hes _ _ => exact hnone _ hes hist
    | busy _ hist hes _ _ => exact hnone _ hes hist
    | @close es unsent hclose hist hes hsent hexec _ hway hstate hidle =>
        have hway' : s'.onItsWay = [] := by
          rw [hok hclose] at hway
          exact hway.eq_nil
        obtain ⟨hperm, hbytes⟩ := hs'.settled hway' hidle
        rw [← List.append_assoc] at hist
        refine ⟨fun before unsent' after heq => ?_, fun _ _ => ⟨hstate, hway', hidle⟩⟩
        rcases append_eq_append_cons (hist.symm.trans heq) with ⟨mid, rfl, hlast⟩ | ⟨mid, hl, -⟩
        · obtain ⟨rfl, rfl⟩ : mid = [] ∧ after = [] := by
            have hlen := congrArg List.length hlast
            simp only [List.length_append, List.length_cons, List.length_nil] at hlen
            exact ⟨List.eq_nil_of_length_eq_zero (by omega), List.eq_nil_of_length_eq_zero (by omega)⟩
          rw [hist, acceptedBytes_append, executedBytes_append] at hbytes
          rw [hist, sentMessages_append, executedMessages_append] at hperm
          refine ⟨?_, ?_, by simp⟩
          · rw [hist, sentMessages_append, List.append_nil]
            exact hperm.trans (.of_eq (List.append_nil _))
          · rw [List.append_nil]
            exact (List.append_nil _).symm.trans (hbytes.trans (List.append_nil _))
        · refine absurd ?_ (hopen es hes unsent')
          rw [hl]
          simp

/-- A step that half-closes with a message on its way: the message missed it. -/
theorem Sound.closesLast (hs : s.Sound) (hd : DataFirst s'.history) (hstep : system.Step s a s') :
    s.ClosesLast a := by
  intro hclose
  have htally := (hs.step hstep).tally
  cases hs.advance hstep with
  | mute hno _ _ _ _ _ => exact absurd hclose hno
  | busy hno _ _ _ _ => exact absurd hclose hno
  | @close es unsent _ hist _ _ hexec _ hway _ _ =>
      rw [← List.append_assoc] at hist
      obtain ⟨hperm, -, -⟩ := hd _ unsent [] hist
      have hlen := (hperm.symm.trans htally).length_eq
      rw [hist, executedMessages_append _ [_], List.length_append, List.length_append] at hlen
      have hnil : s'.onItsWay = [] := List.eq_nil_of_length_eq_zero (by omega)
      rw [hnil] at hway
      exact hway.symm.eq_nil

/-- **Accepted data precedes the half-close** in every run in which no step issues `SHUT_WR` while a
message is on its way to `sendInLoop`; and a step that does so has that message miss it. -/
theorem data_before_half_close (h : system.ReachableVia ClosesLast s) :
    DataFirst s.history ∧
      ∀ a s', system.Step s a s' → (DataFirst s'.history ↔ s.ClosesLast a) := by
  have hproper : s.Proper := by
    refine StepSystem.ReachableVia.invariant (fun _ => .init) (fun s a s' hr hs hok hstep => ?_) h
    exact hs.step (sound_of_reachable hr) hok hstep
  have hsound := sound_of_reachable h
  exact ⟨hproper.dataFirst, fun a s' hstep =>
    ⟨fun hd => hsound.closesLast hd hstep, fun hok => (hproper.step hsound hok hstep).dataFirst⟩⟩

/-- A connection on descriptor 5, about to be established. -/
def firstCall : Call := ⟨.new 0 0 "" 5 0 false, ⟨fun _ => none, fun _ => none⟩, [], [], []⟩

def firstEstablished : Established :=
  let k := firstCall.connectEstablished.toOption.getD firstCall
  ⟨k.conn, k.poller, k.queued, [], k.notes⟩

theorem init_firstEstablished : init firstEstablished := by
  have hok : faultOf firstCall.connectEstablished = none := by decide +kernel
  cases hk : firstCall.connectEstablished with
  | error e =>
      rw [hk] at hok
      cases hok
  | ok k =>
      refine ⟨0, 0, "", 5, 0, false, ⟨fun _ => none, fun _ => none⟩, k, hk, ?_⟩
      unfold firstEstablished
      rw [hk]
      rfl

/-- The thread of the loop sends, another thread sends and shuts down, and what is left is drained. -/
def drainedRun : List OutputAction :=
  [.send (.loop 0) [1, 2, 3] (.accepted 2), .send (.other 0) [4] (.accepted 0), .proceed 0,
    .shutdown (.other 0), .proceed 0, .proceed 0, .functor (.accepted 0), .functor (.accepted 0),
    .writable (.failed .EWOULDBLOCK), .writable (.accepted 1), .writable (.accepted 1)]

theorem data_before_half_close_drainedRun :
    ∃ s, system.ReachableVia ClosesLast s ∧ .shutdownWrite [] ∈ s.history ∧
      acceptedBytes s.history = [1, 2, 3, 4] ∧ DataFirst s.history := by
  obtain ⟨s, hs, hp⟩ := StepSystem.exists_reachableVia_of_runFrom? ClosesLast
    drainedRun (M := system)
    (p := fun s => decide (.shutdownWrite [] ∈ s.history ∧ acceptedBytes s.history = [1, 2, 3, 4]))
    init_firstEstablished (by decide +kernel)
  obtain ⟨hclosed, haccepted⟩ := of_decide_eq_true hp
  exact ⟨s, hs, hclosed, haccepted, (data_before_half_close hs).1⟩

/-- Another thread sends, the thread of the loop shuts down, and then the message is to be written, which
the kernel refuses. -/
def overtakenRun : List OutputAction :=
  [.send (.other 0) [1] (.accepted 0), .proceed 0, .shutdown (.loop 0), .functor (.failed .EPIPE)]

theorem shutdown_overtakes_send : ∃ s, system.Reachable s ∧ ¬ DataFirst s.history := by
  obtain ⟨s, hs, hp⟩ := StepSystem.exists_reachableVia_of_runFrom? (fun _ _ => True)
    overtakenRun (M := system)
    (p := fun s => decide (s.history =
      [.connectionCallback .kConnected, .send (.other 0) [1], .shutdown (.loop 0)] ++
        .shutdownWrite [] :: [.sendInLoop (.other 0) [1], .write [1] (.failed .EPIPE)]))
    init_firstEstablished (by decide +kernel)
  refine ⟨s, hs, fun hd => ?_⟩
  obtain ⟨-, -, hlast⟩ := hd _ _ _ (of_decide_eq_true hp)
  exact hlast [1] (.failed .EPIPE) (by simp)

end Established

end MiniMuduo
