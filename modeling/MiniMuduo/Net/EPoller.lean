import MiniMuduo.Lib.Fallible
import Mathlib.Data.Finset.Basic
import Mathlib.Data.Finset.SDiff
import Mathlib.Logic.Function.Basic

/-!
# `Channel` and `EPoller`

A channel carries the interest of one descriptor and an `index` that says how far the poller knows
it. The poller keeps `channels_`, a map from descriptors to channels, and through `epoll_ctl` the
interest set of the kernel. Channels are named by their address (`κ` below), as in `event.data.ptr`.

The three books — `index`, `channels_` and the interest set — have to agree; `EPoller.Agrees` says
how, for one channel, and the lemmas after it say that `updateChannel` and `removeChannel` keep it,
leave every other descriptor alone, and when their asserts hold.

An `assert` and a `LOG(FATAL)` are faults. `epoll_ctl` fails where the interest set makes it fail
(`ADD` of a descriptor that is there, `MOD` and `DEL` of one that is not) and nowhere else.
-/

namespace MiniMuduo

open Fallible

/-- File descriptors. -/
abbrev Fd := ℕ

/-- The bits of `events_` and `revents_`. -/
inductive PollFlag where
  | POLLIN
  | POLLPRI
  | POLLOUT
  | POLLERR
  | POLLHUP
  | POLLNVAL
  | POLLRDHUP
  deriving DecidableEq, Repr

/-- A set of bits: `|` is union and `x & y` is true when the sets meet. -/
abbrev PollEvents := Finset PollFlag

/-- What stops the networking code: the asserts, the fatal log lines and the use of an object that
is gone. -/
inductive NetFault where
  /-- `updateChannel`: the descriptor of a new channel is taken. -/
  | channelPresent
  /-- `updateChannel`, `removeChannel`, `fillActiveChannels`: the channel is not in the map. -/
  | channelAbsent
  /-- `removeChannel` of a channel that is still interested in something. -/
  | removeInterested
  | removeIndex
  /-- `LOG(FATAL)` in `EPoller::update`. -/
  | epollCtl
  | buffer
  | connectEstablished
  | connectDestroyed
  | handleClose
  | removeConnectionInLoop
  | useAfterFree
  deriving DecidableEq, Repr

/-! ## Channels -/

/-- `index_`. -/
inductive ChannelIndex where
  | kNew
  | kAdded
  | kDeleted
  deriving DecidableEq, Repr

structure Channel where
  fd : Fd
  events : PollEvents
  index : ChannelIndex
  deriving DecidableEq

/-- The callbacks of a channel. -/
inductive ChannelCallback where
  | close
  | error
  | read
  | write
  deriving DecidableEq, Repr

namespace Channel

def kNoneEvent : PollEvents := ∅
def kReadEvent : PollEvents := {.POLLIN, .POLLPRI}
def kWriteEvent : PollEvents := {.POLLOUT}

def new (fd : Fd) : Channel := ⟨fd, kNoneEvent, .kNew⟩

def isNoneEvent (ch : Channel) : Prop := ch.events = kNoneEvent

def isWriting (ch : Channel) : Prop := (ch.events ∩ kWriteEvent).Nonempty

instance (ch : Channel) : Decidable ch.isNoneEvent :=
  inferInstanceAs (Decidable (ch.events = kNoneEvent))

instance (ch : Channel) : Decidable ch.isWriting :=
  inferInstanceAs (Decidable (ch.events ∩ kWriteEvent).Nonempty)

/-- The callbacks `handleEvent` makes for these `revents_`, in order. -/
def handleEvent (revents : PollEvents) : List ChannelCallback :=
  (if .POLLHUP ∈ revents ∧ .POLLIN ∉ revents then [.close] else []) ++
  (if (revents ∩ {.POLLERR, .POLLNVAL}).Nonempty then [.error] else []) ++
  (if (revents ∩ {.POLLIN, .POLLPRI, .POLLRDHUP}).Nonempty then [.read] else []) ++
  (if .POLLOUT ∈ revents then [.write] else [])

theorem isWriting_iff {ch : Channel} : ch.isWriting ↔ .POLLOUT ∈ ch.events := by
  unfold isWriting kWriteEvent
  constructor
  · rintro ⟨f, hf⟩
    rw [Finset.mem_inter, Finset.mem_singleton] at hf
    exact hf.2 ▸ hf.1
  · intro h
    exact ⟨.POLLOUT, by simp [h]⟩

/-- The order of the callbacks. -/
theorem handleEvent_sublist (revents : PollEvents) :
    (handleEvent revents).Sublist [.close, .error, .read, .write] := by
  unfold handleEvent
  split <;> split <;> split <;> split <;> decide

theorem hangup_of_close_mem {revents : PollEvents} (h : .close ∈ handleEvent revents) :
    .POLLHUP ∈ revents ∧ .POLLIN ∉ revents := by
  by_contra hno
  unfold handleEvent at h
  rw [if_neg hno] at h
  split at h <;> split at h <;> split at h <;> simp at h

/-- The read callback is made only for a read bit. -/
theorem exists_of_read_mem {revents : PollEvents} (h : .read ∈ handleEvent revents) :
    ∃ f ∈ revents, f = .POLLIN ∨ f = .POLLPRI ∨ f = .POLLRDHUP := by
  unfold handleEvent at h
  by_cases hread : (revents ∩ {.POLLIN, .POLLPRI, .POLLRDHUP}).Nonempty
  · obtain ⟨f, hf⟩ := hread
    rw [Finset.mem_inter] at hf
    exact ⟨f, hf.1, by simpa using hf.2⟩
  · rw [if_neg hread] at h
    split at h <;> split at h <;> split at h <;> simp at h

end Channel

/-! ## The poller -/

structure EPoller (κ : Type) where
  channels : Fd → Option κ
  /-- The interest set of the kernel: the events and `data.ptr` of each descriptor in it. -/
  interest : Fd → Option (PollEvents × κ)

inductive EpollOp where
  | EPOLL_CTL_ADD
  | EPOLL_CTL_MOD
  | EPOLL_CTL_DEL
  deriving DecidableEq, Repr

namespace EPoller

variable {κ : Type}

/-- `epoll_ctl`; nothing when it fails. -/
def epollCtl (p : EPoller κ) (op : EpollOp) (fd : Fd) (event : PollEvents × κ) :
    Option (EPoller κ) :=
  match op, p.interest fd with
  | .EPOLL_CTL_ADD, none => some { p with interest := Function.update p.interest fd (some event) }
  | .EPOLL_CTL_MOD, some _ => some { p with interest := Function.update p.interest fd (some event) }
  | .EPOLL_CTL_DEL, some _ => some { p with interest := Function.update p.interest fd none }
  | _, _ => none

def update (p : EPoller κ) (op : EpollOp) (self : κ) (ch : Channel) :
    Except NetFault (EPoller κ) :=
  match p.epollCtl op ch.fd (ch.events, self) with
  | some p' => return p'
  | none => do
      check (op = .EPOLL_CTL_DEL) .epollCtl
      return p

variable [DecidableEq κ]

/-- `EPoller::updateChannel` on the channel `ch` at the address `self`. -/
def updateChannel (p : EPoller κ) (self : κ) (ch : Channel) :
    Except NetFault (Channel × EPoller κ) :=
  match ch.index with
  | .kNew => do
      check (p.channels ch.fd = none) .channelPresent
      let p := { p with channels := Function.update p.channels ch.fd (some self) }
      let ch := { ch with index := .kAdded }
      let p ← p.update .EPOLL_CTL_ADD self ch
      return (ch, p)
  | .kDeleted => do
      check (p.channels ch.fd = some self) .channelAbsent
      let ch := { ch with index := .kAdded }
      let p ← p.update .EPOLL_CTL_ADD self ch
      return (ch, p)
  | .kAdded => do
      check (p.channels ch.fd = some self) .channelAbsent
      if ch.isNoneEvent then
        let p ← p.update .EPOLL_CTL_DEL self ch
        return ({ ch with index := .kDeleted }, p)
      else
        let p ← p.update .EPOLL_CTL_MOD self ch
        return (ch, p)

def removeChannel (p : EPoller κ) (self : κ) (ch : Channel) :
    Except NetFault (Channel × EPoller κ) := do
  check (p.channels ch.fd = some self) .channelAbsent
  check ch.isNoneEvent .removeInterested
  check (ch.index = .kAdded ∨ ch.index = .kDeleted) .removeIndex
  let p := { p with channels := Function.update p.channels ch.fd none }
  if ch.index = .kAdded then
    let p ← p.update .EPOLL_CTL_DEL self ch
    return ({ ch with index := .kNew }, p)
  else
    return ({ ch with index := .kNew }, p)

end EPoller

namespace EPoller

variable {κ : Type} {p p' : EPoller κ} {self : κ} {ch ch' : Channel} {events : PollEvents} {fd : Fd}

/-! ## The books agree -/

/-- What the poller and the kernel know about the channel `ch` at the address `self`. -/
def Agrees (p : EPoller κ) (self : κ) (ch : Channel) : Prop :=
  match ch.index with
  | .kNew => p.channels ch.fd ≠ some self ∧ p.interest ch.fd = none
  | .kAdded => p.channels ch.fd = some self ∧ p.interest ch.fd = some (ch.events, self)
  | .kDeleted => p.channels ch.fd = some self ∧ p.interest ch.fd = none

/-- Two pollers know the same about the descriptor `fd`. -/
def SameAt (p p' : EPoller κ) (fd : Fd) : Prop :=
  p'.channels fd = p.channels fd ∧ p'.interest fd = p.interest fd

instance [DecidableEq κ] (p p' : EPoller κ) (fd : Fd) : Decidable (p.SameAt p' fd) :=
  inferInstanceAs (Decidable (_ ∧ _))

theorem SameAt.refl (p : EPoller κ) (fd : Fd) : p.SameAt p fd := ⟨rfl, rfl⟩

theorem SameAt.trans {p'' : EPoller κ} (h : p.SameAt p' fd) (h' : p'.SameAt p'' fd) :
    p.SameAt p'' fd :=
  ⟨h'.1.trans h.1, h'.2.trans h.2⟩

/-- Nothing changes but what the poller knows about the channel at the address `addr` and the
descriptor `fd`. -/
structure OnlyAt (p p' : EPoller κ) (addr : κ) (fd : Fd) : Prop where
  same : ∀ fd', fd' ≠ fd → p.SameAt p' fd'
  channels : ∀ ptr, p'.channels fd = some ptr → p.channels fd = some ptr ∨ ptr = addr

theorem OnlyAt.refl (p : EPoller κ) (self : κ) (fd : Fd) : p.OnlyAt p self fd :=
  ⟨fun fd' _ => .refl p fd', fun _ => .inl⟩

theorem OnlyAt.trans {p'' : EPoller κ} (h : p.OnlyAt p' self fd) (h' : p'.OnlyAt p'' self fd) :
    p.OnlyAt p'' self fd where
  same := fun fd' hfd => (h.same fd' hfd).trans (h'.same fd' hfd)
  channels := fun ptr hptr => (h'.channels ptr hptr).elim (h.channels ptr) .inr

theorem SameAt.agrees (h : p.SameAt p' ch.fd) (ha : p.Agrees self ch) : p'.Agrees self ch := by
  unfold Agrees at ha ⊢
  rwa [h.1, h.2]

/-- The kernel watches a channel only while its index is `kAdded`, and for the channel's events. -/
theorem Agrees.of_interest (h : p.Agrees self ch) {ptr : κ}
    (hi : p.interest ch.fd = some (events, ptr)) :
    ch.index = .kAdded ∧ events = ch.events ∧ ptr = self := by
  unfold Agrees at h
  cases hidx : ch.index <;> simp only [hidx] at h <;> rw [h.2] at hi
  · cases hi
  · rw [Option.some.injEq, Prod.mk.injEq] at hi
    exact ⟨rfl, hi.1.symm, hi.2.symm⟩
  · cases hi

theorem Agrees.channels_eq (h : p.Agrees self ch) (hidx : ch.index = .kAdded) :
    p.channels ch.fd = some self := by
  unfold Agrees at h
  rw [hidx] at h
  exact h.1

theorem Agrees.absent (h : p.Agrees self ch) (hidx : ch.index = .kNew) :
    p.channels ch.fd ≠ some self ∧ p.interest ch.fd = none := by
  unfold Agrees at h
  rwa [hidx] at h

/-- `update` does to the interest set what the operation says, and nothing else. -/
theorem update_ok {op : EpollOp} (h : p.update op self ch = .ok p') :
    p'.channels = p.channels ∧ ∃ entry,
      p'.interest = Function.update p.interest ch.fd entry ∧
      (op = .EPOLL_CTL_DEL → entry = none) ∧
      (op ≠ .EPOLL_CTL_DEL → entry = some (ch.events, self)) := by
  unfold update epollCtl at h
  cases op <;> cases hi : p.interest ch.fd <;> rw [hi] at h
  case EPOLL_CTL_ADD.some | EPOLL_CTL_MOD.none => cases h
  case EPOLL_CTL_DEL.none =>
    -- `epoll_ctl` fails, which is only a line in the log
    cases h
    exact ⟨rfl, none, by rw [← hi, Function.update_eq_self], by simp, by simp⟩
  all_goals
    cases h
    exact ⟨rfl, _, rfl, by simp, by simp⟩

theorem update_sameAt {op : EpollOp} (h : p.update op self ch = .ok p') (hfd : fd ≠ ch.fd) :
    p.SameAt p' fd := by
  obtain ⟨hc, entry, hi, -⟩ := update_ok h
  exact ⟨by rw [hc], by rw [hi, Function.update_of_ne hfd]⟩

variable [DecidableEq κ]

/-- The index after `updateChannel`: a channel that was deleted is added again, whatever its
interest. -/
def indexAfter (index : ChannelIndex) (events : PollEvents) : ChannelIndex :=
  if index = .kAdded ∧ events = Channel.kNoneEvent then .kDeleted else .kAdded

/-- `updateChannel` makes the books agree. -/
theorem updateChannel_ok (hr : p.updateChannel self ch = .ok (ch', p')) :
    ch' = { ch with index := indexAfter ch.index ch.events } ∧ p'.Agrees self ch' := by
  unfold updateChannel at hr
  cases hidx : ch.index <;> simp only [hidx, bind_eq_ok, check_eq_ok, pure_eq_ok, Except.ok.injEq,
    Prod.mk.injEq] at hr
  case kNew =>
    obtain ⟨-, -, q, hq, rfl, rfl⟩ := hr
    obtain ⟨hc, entry, hi, -, hentry⟩ := update_ok hq
    refine ⟨by simp [indexAfter], ?_⟩
    simp [Agrees, hc, hi, hentry]
  case kDeleted =>
    obtain ⟨-, hch, q, hq, rfl, rfl⟩ := hr
    obtain ⟨hc, entry, hi, -, hentry⟩ := update_ok hq
    refine ⟨by simp [indexAfter], ?_⟩
    simp [Agrees, hc, hch, hi, hentry]
  case kAdded =>
    obtain ⟨-, hch, hr⟩ := hr
    split at hr <;> simp only [bind_eq_ok, Except.ok.injEq, Prod.mk.injEq] at hr
    · next hnone =>
        obtain ⟨q, hq, rfl, rfl⟩ := hr
        obtain ⟨hc, entry, hi, hentry, -⟩ := update_ok hq
        have hev : ch.events = Channel.kNoneEvent := hnone
        refine ⟨by simp [indexAfter, hev], ?_⟩
        simp [Agrees, hc, hch, hi, hentry]
    · next hnone =>
        obtain ⟨q, hq, rfl, rfl⟩ := hr
        obtain ⟨hc, entry, hi, -, hentry⟩ := update_ok hq
        have hev : ch.events ≠ Channel.kNoneEvent := hnone
        refine ⟨by simp [indexAfter, hev, ← hidx], ?_⟩
        simp [Agrees, hidx, hc, hch, hi, hentry]

theorem Agrees.removeChannel (h : p.Agrees self ch)
    (hr : p.removeChannel self ch = .ok (ch', p')) :
    ch.events = Channel.kNoneEvent ∧ ch' = { ch with index := .kNew } ∧ p'.Agrees self ch' := by
  unfold EPoller.removeChannel at hr
  simp only [bind_eq_ok, check_eq_ok] at hr
  obtain ⟨-, hch, -, hnone, -, hidx, hr⟩ := hr
  refine ⟨hnone, ?_⟩
  split at hr
  · simp only [bind_eq_ok, pure_eq_ok, Except.ok.injEq, Prod.mk.injEq] at hr
    obtain ⟨q, hq, rfl, rfl⟩ := hr
    obtain ⟨hc, entry, hi, hentry, -⟩ := update_ok hq
    exact ⟨rfl, by simp [Agrees, hc, hi, hentry]⟩
  · next hadded =>
      cases hr
      have hdel : ch.index = .kDeleted := hidx.resolve_left hadded
      simp only [Agrees, hdel] at h
      exact ⟨rfl, by simp [Agrees, h.2]⟩

/-! ## Other descriptors -/

theorem updateChannel_sameAt (hr : p.updateChannel self ch = .ok (ch', p')) (hfd : fd ≠ ch.fd) :
    p.SameAt p' fd := by
  have hset : (⟨Function.update p.channels ch.fd (some self), p.interest⟩ : EPoller κ).channels fd =
      p.channels fd := Function.update_of_ne hfd _ _
  unfold updateChannel at hr
  cases hidx : ch.index <;> simp only [hidx, bind_eq_ok, check_eq_ok, pure_eq_ok, Except.ok.injEq,
    Prod.mk.injEq] at hr
  case kNew =>
    obtain ⟨-, -, q, hq, -, rfl⟩ := hr
    obtain ⟨hc, hi⟩ := update_sameAt hq hfd
    exact ⟨hc.trans hset, hi⟩
  case kDeleted =>
    obtain ⟨-, -, q, hq, -, rfl⟩ := hr
    exact update_sameAt hq hfd
  case kAdded =>
    obtain ⟨-, -, hr⟩ := hr
    split at hr <;> simp only [bind_eq_ok, Except.ok.injEq, Prod.mk.injEq] at hr
    all_goals
      obtain ⟨q, hq, -, rfl⟩ := hr
      exact update_sameAt hq hfd

/-- `updateChannel` changes the books of its channel only. -/
theorem updateChannel_onlyAt (hr : p.updateChannel self ch = .ok (ch', p')) :
    p.OnlyAt p' self ch.fd := by
  refine ⟨fun fd hfd => updateChannel_sameAt hr hfd, fun ptr hptr => .inr ?_⟩
  obtain ⟨rfl, hagrees⟩ := updateChannel_ok hr
  -- whatever the channel was, it is in the map now
  have hin : p'.channels ch.fd = some self := by
    unfold Agrees indexAfter at hagrees
    split at hagrees <;> split at * <;> simp_all
  rw [hin, Option.some.injEq] at hptr
  exact hptr.symm

theorem removeChannel_onlyAt (hr : p.removeChannel self ch = .ok (ch', p')) :
    p.OnlyAt p' self ch.fd := by
  unfold removeChannel at hr
  simp only [bind_eq_ok, check_eq_ok] at hr
  obtain ⟨-, -, -, -, -, -, hr⟩ := hr
  have hout : p'.channels = Function.update p.channels ch.fd none ∧
      ∀ fd, fd ≠ ch.fd → p'.interest fd = p.interest fd := by
    split at hr
    · simp only [bind_eq_ok, pure_eq_ok, Except.ok.injEq, Prod.mk.injEq] at hr
      obtain ⟨q, hq, -, rfl⟩ := hr
      exact ⟨(update_ok hq).1, fun fd hfd => (update_sameAt hq hfd).2⟩
    · cases hr
      exact ⟨rfl, fun fd _ => rfl⟩
  refine ⟨fun fd hfd => ⟨?_, hout.2 fd hfd⟩, fun ptr hptr => ?_⟩
  · rw [hout.1, Function.update_of_ne hfd]
  · rw [hout.1, Function.update_self] at hptr
    cases hptr

end EPoller

end MiniMuduo
