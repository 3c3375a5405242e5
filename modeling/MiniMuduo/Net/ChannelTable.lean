import MiniMuduo.Lib.StepSystem
import MiniMuduo.Net.EPoller

/-!
# The channels of one poller

Any set of channels with descriptors of their own, the `EPoller` they share, and every order of the
calls their owners make: `enableReading`, `enableWriting`, `disableWriting`, `disableAll` and
`removeChannel`. A run goes on as long as the asserts hold.

* `books_agree`: the index of every channel, `channels_` and the interest set of the kernel say the
  same in every state, so `epoll_ctl` is never asked for what it refuses.
* `unwatched_of_no_interest`: a channel that gives up its interest is not watched, unless the call
  that does so finds it deleted or removed already. `updateChannel` adds a channel that is `kDeleted`
  or `kNew` whatever its interest is, so a second `disableAll` brings it back.
-/

namespace MiniMuduo

open Fallible

/-- What the owner of a channel calls. -/
inductive ChannelOp where
  | enableReading
  | enableWriting
  | disableWriting
  | disableAll
  | removeChannel
  deriving DecidableEq, Repr

namespace ChannelOp

/-- `events_` after the call; `removeChannel` does not set them. -/
def events? (events : PollEvents) : ChannelOp → Option PollEvents
  | .enableReading => some (events ∪ Channel.kReadEvent)
  | .enableWriting => some (events ∪ Channel.kWriteEvent)
  | .disableWriting => some (events \ Channel.kWriteEvent)
  | .disableAll => some Channel.kNoneEvent
  | .removeChannel => none

def enables : ChannelOp → Bool
  | .enableReading | .enableWriting => true
  | _ => false

theorem ne_none_of_enables {op : ChannelOp} {events events' : PollEvents} (h : op.enables = true)
    (he : op.events? events = some events') : events' ≠ Channel.kNoneEvent := by
  cases op with
  | enableReading =>
      cases he
      intro hnone
      have hin : PollFlag.POLLIN ∈ events ∪ Channel.kReadEvent :=
        Finset.mem_union_right _ (by decide)
      rw [hnone] at hin
      exact absurd hin (by decide)
  | enableWriting =>
      cases he
      intro hnone
      have hin : PollFlag.POLLOUT ∈ events ∪ Channel.kWriteEvent :=
        Finset.mem_union_right _ (by decide)
      rw [hnone] at hin
      exact absurd hin (by decide)
  | disableWriting | disableAll | removeChannel => cases h

end ChannelOp

namespace EPoller

variable {κ : Type} {p : EPoller κ} {fd : Fd} {entry : PollEvents × κ}

theorem epollCtl_add (h : p.interest fd = none) (event : PollEvents × κ) :
    p.epollCtl .EPOLL_CTL_ADD fd event =
      some { p with interest := Function.update p.interest fd (some event) } := by
  unfold epollCtl
  rw [h]

theorem epollCtl_mod (h : p.interest fd = some entry) (event : PollEvents × κ) :
    p.epollCtl .EPOLL_CTL_MOD fd event =
      some { p with interest := Function.update p.interest fd (some event) } := by
  unfold epollCtl
  rw [h]

theorem epollCtl_del (h : p.interest fd = some entry) (event : PollEvents × κ) :
    p.epollCtl .EPOLL_CTL_DEL fd event =
      some { p with interest := Function.update p.interest fd none } := by
  unfold epollCtl
  rw [h]

end EPoller

structure ChannelTable (κ : Type) where
  poller : EPoller κ
  chans : κ → Channel
  /-- The channels that were enabled at some time. -/
  wasEnabled : κ → Bool

namespace ChannelTable

variable {κ : Type} [DecidableEq κ]

/-- Channels with these descriptors and a poller that has not heard of them. -/
def new (fds : κ → Fd) : ChannelTable κ where
  poller := ⟨fun _ => none, fun _ => none⟩
  chans := fun c => .new (fds c)
  wasEnabled := fun _ => false

def exec (s : ChannelTable κ) : κ × ChannelOp → Except NetFault (ChannelTable κ)
  | (c, op) =>
      match op.events? (s.chans c).events with
      | some events => do
          let (ch, p) ← s.poller.updateChannel c { s.chans c with events := events }
          return {
            poller := p
            chans := Function.update s.chans c ch
            wasEnabled := if op.enables then Function.update s.wasEnabled c true else s.wasEnabled }
      | none => do
          let (ch, p) ← s.poller.removeChannel c (s.chans c)
          return { s with poller := p, chans := Function.update s.chans c ch }

def system : StepSystem (ChannelTable κ) (κ × ChannelOp) NetFault where
  init := fun s => ∃ fds : κ → Fd, Function.Injective fds ∧ s = new fds
  enabled := fun _ _ => True
  exec := exec

instance (s : ChannelTable κ) (a : κ × ChannelOp) : Decidable (system.enabled s a) :=
  inferInstanceAs (Decidable True)

/-- The operation that `updateChannel` or `removeChannel` asks `epoll_ctl` for. -/
def issued (s : ChannelTable κ) : κ × ChannelOp → Option EpollOp
  | (c, op) =>
      match op.events? (s.chans c).events, (s.chans c).index with
      | some _, .kNew | some _, .kDeleted => some .EPOLL_CTL_ADD
      | some events, .kAdded =>
          if events = Channel.kNoneEvent then some .EPOLL_CTL_DEL else some .EPOLL_CTL_MOD
      | none, .kAdded => some .EPOLL_CTL_DEL
      | none, _ => none

variable {s s' : ChannelTable κ} {a : κ × ChannelOp} {c : κ} {op : ChannelOp}

/-! ## What a step can do -/

/-- A step changes one channel and what the poller knows about it, and the two agree again. -/
structure Touches (s : ChannelTable κ) (c : κ) (s' : ChannelTable κ) : Prop where
  chans : ∃ ch, s'.chans = Function.update s.chans c ch
  fd : (s'.chans c).fd = (s.chans c).fd
  agrees : s'.poller.Agrees c (s'.chans c)
  only : s.poller.OnlyAt s'.poller c (s.chans c).fd

theorem exec_update {events : PollEvents} (he : op.events? (s.chans c).events = some events)
    (h : s.exec (c, op) = .ok s') :
    s.Touches c s' ∧ (s'.chans c).events = events ∧
      (s'.chans c).index = EPoller.indexAfter (s.chans c).index events ∧
      s'.wasEnabled = if op.enables then Function.update s.wasEnabled c true else s.wasEnabled := by
  unfold exec at h
  simp only [he] at h
  obtain ⟨⟨ch, p⟩, hupd, h⟩ := bind_eq_ok.mp h
  cases h
  have honly := EPoller.updateChannel_onlyAt hupd
  obtain ⟨hch, hagrees⟩ := EPoller.updateChannel_ok hupd
  have hself : Function.update s.chans c ch c = ch := Function.update_self _ _ _
  refine ⟨⟨⟨ch, rfl⟩, ?_, ?_, honly⟩, ?_, ?_, rfl⟩
  · exact (congrArg Channel.fd hself).trans (by rw [hch])
  · show p.Agrees c (Function.update s.chans c ch c)
    rwa [hself]
  · exact (congrArg Channel.events hself).trans (by rw [hch])
  · exact (congrArg Channel.index hself).trans (by rw [hch])

theorem exec_remove (he : op.events? (s.chans c).events = none)
    (hagrees : s.poller.Agrees c (s.chans c)) (h : s.exec (c, op) = .ok s') :
    s.Touches c s' ∧ (s'.chans c).events = Channel.kNoneEvent ∧
      (s.chans c).events = Channel.kNoneEvent ∧ (s'.chans c).index = .kNew ∧
      s'.wasEnabled = s.wasEnabled := by
  unfold exec at h
  simp only [he] at h
  obtain ⟨⟨ch, p⟩, hrem, h⟩ := bind_eq_ok.mp h
  cases h
  obtain ⟨hnone, hch, hagrees'⟩ := hagrees.removeChannel hrem
  have hself : Function.update s.chans c ch c = ch := Function.update_self _ _ _
  refine ⟨⟨⟨ch, rfl⟩, ?_, ?_, EPoller.removeChannel_onlyAt hrem⟩, ?_, hnone, ?_, rfl⟩
  · exact (congrArg Channel.fd hself).trans (by rw [hch])
  · show p.Agrees c (Function.update s.chans c ch c)
    rwa [hself]
  · exact (congrArg Channel.events hself).trans (by rw [hch]; exact hnone)
  · exact (congrArg Channel.index hself).trans (by rw [hch])

/-! ## The three books -/

/-- The books agree on every channel, and have no entries but of these channels. -/
structure Agreed (s : ChannelTable κ) : Prop where
  agrees : ∀ c, s.poller.Agrees c (s.chans c)
  fds : Function.Injective fun c => (s.chans c).fd
  channels : ∀ fd c, s.poller.channels fd = some c → (s.chans c).fd = fd
  interest : ∀ fd events c, s.poller.interest fd = some (events, c) → (s.chans c).fd = fd

omit [DecidableEq κ] in
theorem agreed_new {fds : κ → Fd} (h : Function.Injective fds) : (new fds).Agreed where
  agrees := fun c => ⟨fun hc => (by cases hc), rfl⟩
  fds := h
  channels := fun _ _ hc => (by cases hc)
  interest := fun _ _ _ hi => (by cases hi)

theorem Touches.of_ne (h : s.Touches c s') {c' : κ} (hne : c' ≠ c) : s'.chans c' = s.chans c' := by
  obtain ⟨ch, hch⟩ := h.chans
  rw [hch, Function.update_of_ne hne]

theorem Touches.fd_eq (h : s.Touches c s') (c' : κ) : (s'.chans c').fd = (s.chans c').fd := by
  by_cases hne : c' = c
  · rw [hne]
    exact h.fd
  · rw [h.of_ne hne]

theorem Agreed.touches (h : s.Agreed) (ht : s.Touches c s') : s'.Agreed := by
  have hfd : (fun c => (s'.chans c).fd) = fun c => (s.chans c).fd := funext ht.fd_eq
  refine ⟨fun c' => ?_, by rw [hfd]; exact h.fds, fun fd c' hc' => ?_, fun fd events c' hi => ?_⟩
  · by_cases hne : c' = c
    · rw [hne]
      exact ht.agrees
    · rw [ht.of_ne hne]
      have hother : (s.chans c').fd ≠ (s.chans c).fd := fun heq => hne (h.fds heq)
      exact (ht.only.same _ hother).agrees (h.agrees c')
  · rw [ht.fd_eq]
    by_cases hown : fd = (s.chans c).fd
    · subst hown
      rcases ht.only.channels c' hc' with hold | rfl
      · exact h.channels _ c' hold
      · rfl
    · rw [(ht.only.same fd hown).1] at hc'
      exact h.channels fd c' hc'
  · rw [ht.fd_eq]
    by_cases hown : fd = (s.chans c).fd
    · -- the kernel knows the channel of this call, or nothing
      rw [hown, ← ht.fd] at hi
      obtain ⟨-, -, rfl⟩ := ht.agrees.of_interest hi
      exact hown.symm
    · rw [(ht.only.same fd hown).2] at hi
      exact h.interest fd events c' hi

theorem Agreed.step (h : s.Agreed) (hstep : system.Step s a s') : s'.Agreed := by
  obtain ⟨c, op⟩ := a
  cases he : op.events? (s.chans c).events with
  | some events => exact h.touches (exec_update he hstep.2).1
  | none => exact h.touches (exec_remove he (h.agrees c) hstep.2).1

theorem agreed_of_reachable (h : system.Reachable s) : s.Agreed := by
  refine StepSystem.ReachableVia.invariant (fun s hs => ?_) (fun s a s' _ hs _ hstep => ?_) h
  · obtain ⟨fds, hfds, rfl⟩ := hs
    exact agreed_new hfds
  · exact hs.step hstep

/-- The index of every channel, `channels_` and the kernel say the same. -/
structure BooksAgree (s : ChannelTable κ) : Prop where
  kernel : ∀ fd events c, s.poller.interest fd = some (events, c) ↔
    (s.chans c).index = .kAdded ∧ (s.chans c).fd = fd ∧ (s.chans c).events = events
  new : ∀ c, (s.chans c).index = .kNew ↔ ∀ fd, s.poller.channels fd ≠ some c
  deleted : ∀ c, (s.chans c).index = .kDeleted →
    s.poller.channels (s.chans c).fd = some c ∧ s.poller.interest (s.chans c).fd = none

omit [DecidableEq κ] in
theorem Agreed.books (h : s.Agreed) : s.BooksAgree := by
  refine ⟨fun fd events c => ⟨fun hi => ?_, ?_⟩, fun c => ⟨fun hnew fd hc => ?_, fun habsent => ?_⟩,
    fun c hdel => ?_⟩
  · have hfd := h.interest fd events c hi
    rw [← hfd] at hi
    obtain ⟨hadded, hevents, -⟩ := (h.agrees c).of_interest hi
    exact ⟨hadded, hfd, hevents.symm⟩
  · rintro ⟨hadded, rfl, rfl⟩
    have ha := h.agrees c
    unfold EPoller.Agrees at ha
    rw [hadded] at ha
    exact ha.2
  · have hfd := h.channels fd c hc
    exact ((h.agrees c).absent hnew).1 (hfd ▸ hc)
  · have ha := h.agrees c
    unfold EPoller.Agrees at ha
    cases hidx : (s.chans c).index with
    | kNew => rfl
    | kAdded | kDeleted =>
        rw [hidx] at ha
        exact absurd ha.1 (habsent _)
  · have ha := h.agrees c
    unfold EPoller.Agrees at ha
    rw [hdel] at ha
    exact ha

/-! ## What `epoll_ctl` is asked for -/

omit [DecidableEq κ] in
theorem Agreed.issued_legal (h : s.Agreed) {o : EpollOp} (hissued : s.issued (c, op) = some o) :
    o = .EPOLL_CTL_ADD ↔ s.poller.interest (s.chans c).fd = none := by
  have ha := h.agrees c
  unfold EPoller.Agrees at ha
  unfold issued at hissued
  cases hidx : (s.chans c).index <;> cases he : op.events? (s.chans c).events <;>
    simp only [hidx, he] at ha hissued
  case kNew.some | kDeleted.some =>
    cases hissued
    exact ⟨fun _ => ha.2, fun _ => rfl⟩
  case kAdded.none =>
    cases hissued
    simp [ha.2]
  case kAdded.some =>
    split at hissued <;> cases hissued <;> simp [ha.2]
  all_goals cases hissued

/-- The call that is issued succeeds, and is all that happens to the interest set. -/
theorem exec_issued (hs : s.Agreed) (h : s.exec (c, op) = .ok s') :
    match s.issued (c, op) with
    | some o => ∃ q, s.poller.epollCtl o (s.chans c).fd ((s'.chans c).events, c) = some q ∧
        s'.poller.interest = q.interest
    | none => s'.poller.interest = s.poller.interest := by
  have ha := hs.agrees c
  unfold EPoller.Agrees at ha
  unfold exec EPoller.updateChannel EPoller.removeChannel at h
  unfold issued
  cases hidx : (s.chans c).index <;> cases he : op.events? (s.chans c).events <;>
    simp only [hidx, he] at ha h ⊢
  case kNew.none =>
    -- `removeChannel` of a channel that is not there fails its first assert
    simp [ha.1] at h
  case kDeleted.none =>
    simp only [bind_eq_ok, check_eq_ok, pure_eq_ok, Except.ok.injEq, reduceCtorEq, if_false] at h
    obtain ⟨⟨ch, p⟩, ⟨-, -, -, -, -, -, heq⟩, rfl⟩ := h
    cases heq
    rfl
  case kAdded.none =>
    simp only [bind_eq_ok, check_eq_ok, pure_eq_ok, Except.ok.injEq, if_true] at h
    obtain ⟨⟨ch, p⟩, ⟨-, -, -, -, -, -, q, hq, heq⟩, rfl⟩ := h
    cases heq
    obtain ⟨-, entry, hi, hdel, -⟩ := EPoller.update_ok hq
    refine ⟨_, EPoller.epollCtl_del ha.2 _, ?_⟩
    rw [hi, hdel rfl]
  case kNew.some events | kDeleted.some events =>
    simp only [bind_eq_ok, check_eq_ok, pure_eq_ok, Except.ok.injEq] at h
    obtain ⟨⟨ch, p⟩, ⟨-, -, q, hq, heq⟩, rfl⟩ := h
    cases heq
    obtain ⟨-, entry, hi, -, hadd⟩ := EPoller.update_ok hq
    refine ⟨_, EPoller.epollCtl_add ha.2 _, ?_⟩
    rw [hi, hadd (by decide)]
    simp
  case kAdded.some events =>
    simp only [bind_eq_ok, check_eq_ok, pure_eq_ok, Except.ok.injEq] at h
    obtain ⟨⟨ch, p⟩, ⟨-, -, h⟩, rfl⟩ := h
    split at h
    · next hnone =>
        rw [if_pos (show events = Channel.kNoneEvent from hnone)]
        obtain ⟨q, hq, heq⟩ := bind_eq_ok.mp h
        cases heq
        obtain ⟨-, entry, hi, hdel, -⟩ := EPoller.update_ok hq
        refine ⟨_, EPoller.epollCtl_del ha.2 _, ?_⟩
        rw [hi, hdel rfl]
    · next hnone =>
        rw [if_neg (show events ≠ Channel.kNoneEvent from hnone)]
        obtain ⟨q, hq, heq⟩ := bind_eq_ok.mp h
        cases heq
        obtain ⟨-, entry, hi, -, hmod⟩ := EPoller.update_ok hq
        refine ⟨_, EPoller.epollCtl_mod ha.2 _, ?_⟩
        rw [hi, hmod (by decide)]
        simp

omit [DecidableEq κ] in
theorem update_fails_of_epollCtl {p q : EPoller κ} {o : EpollOp} {self : κ} {ch : Channel}
    (h : p.epollCtl o ch.fd (ch.events, self) = some q) :
    FailsWith (· ≠ .epollCtl) (p.update o self ch) := by
  unfold EPoller.update
  rw [h]
  exact failsWith_pure _

/-- `LOG(FATAL)` in `EPoller::update` is not reached. -/
theorem Agreed.exec_fails (hs : s.Agreed) (a : κ × ChannelOp) :
    FailsWith (· ≠ .epollCtl) (s.exec a) := by
  obtain ⟨c, op⟩ := a
  have ha := hs.agrees c
  unfold EPoller.Agrees at ha
  have hassert : ∀ {p : Prop} [Decidable p] {e : NetFault}, e ≠ .epollCtl →
      FailsWith (· ≠ .epollCtl) (check p e) := fun he => failsWith_check he
  unfold exec
  cases he : op.events? (s.chans c).events with
  | some events =>
      simp only [he]
      refine FailsWith.bind ?_ fun _ _ => failsWith_pure _
      unfold EPoller.updateChannel
      cases hidx : (s.chans c).index <;> simp only [hidx] at ha ⊢
      case kNew | kDeleted =>
        refine (hassert (by decide)).bind fun _ _ => FailsWith.bind ?_ fun _ _ => failsWith_pure _
        refine update_fails_of_epollCtl (EPoller.epollCtl_add ?_ _)
        exact ha.2
      case kAdded =>
        refine (hassert (by decide)).bind fun _ _ => ?_
        split
        · refine FailsWith.bind ?_ fun _ _ => failsWith_pure _
          exact update_fails_of_epollCtl (EPoller.epollCtl_del ha.2 _)
        · refine FailsWith.bind ?_ fun _ _ => failsWith_pure _
          exact update_fails_of_epollCtl (EPoller.epollCtl_mod ha.2 _)
  | none =>
      simp only [he]
      refine FailsWith.bind ?_ fun _ _ => failsWith_pure _
      unfold EPoller.removeChannel
      refine (hassert (by decide)).bind fun _ _ => (hassert (by decide)).bind fun _ _ =>
        (hassert (by decide)).bind fun _ _ => ?_
      dsimp only
      split
      · next hadded =>
          rw [hadded] at ha
          refine FailsWith.bind ?_ fun _ _ => failsWith_pure _
          have hpresent : (⟨Function.update s.poller.channels (s.chans c).fd none,
              s.poller.interest⟩ : EPoller κ).interest (s.chans c).fd = _ := ha.2
          exact update_fails_of_epollCtl (EPoller.epollCtl_del hpresent _)
      · exact failsWith_pure _

/-- **The channel indices, `channels_` and the kernel agree** in every state. What is issued is legal:
`ADD` for a descriptor that is absent, `MOD` and `DEL` for one that is present. It succeeds, so
`LOG(FATAL)` is not reached, and it is all that happens to the interest set. A channel that the kernel
reports passes the lookups of `fillActiveChannels`. -/
theorem books_agree (h : system.Reachable s) :
    s.BooksAgree ∧
    (∀ c op o, s.issued (c, op) = some o →
      (o = .EPOLL_CTL_ADD ↔ s.poller.interest (s.chans c).fd = none)) ∧
    (∀ c op s', s.exec (c, op) = .ok s' →
      match s.issued (c, op) with
      | some o => ∃ q, s.poller.epollCtl o (s.chans c).fd ((s'.chans c).events, c) = some q ∧
          s'.poller.interest = q.interest
      | none => s'.poller.interest = s.poller.interest) ∧
    (∀ a, s.exec a ≠ .error .epollCtl) ∧
    ∀ fd events c, s.poller.interest fd = some (events, c) →
      s.poller.channels (s.chans c).fd = some c := by
  have hs := agreed_of_reachable h
  refine ⟨hs.books, fun c op o => hs.issued_legal, fun c op s' => exec_issued hs,
    fun a herror => hs.exec_fails a _ herror rfl, fun fd events c hi => ?_⟩
  obtain ⟨hadded, -, -⟩ := (hs.books.kernel fd events c).mp hi
  exact (hs.agrees c).channels_eq hadded

/-- Two channels; the first is enabled and disabled twice, the second stays. -/
def disabledTwice : List (ℕ × ChannelOp) :=
  [(0, .enableReading), (1, .enableReading), (1, .enableWriting), (0, .disableAll), (0, .disableAll)]

theorem books_agree_disabledTwice :
    ∃ s : ChannelTable ℕ, system.Reachable s ∧ (s.chans 0).index = .kAdded ∧
      s.BooksAgree ∧ ∀ a, s.exec a ≠ .error .epollCtl := by
  obtain ⟨s, hs, hp⟩ := StepSystem.exists_reachableVia_of_runFrom? (fun _ _ => True)
    disabledTwice (M := system) (p := fun s => decide ((s.chans 0).index = .kAdded))
    (s := new fun c => c + 5) ⟨_, fun _ _ h => Nat.add_right_cancel h, rfl⟩ (by decide +kernel)
  obtain ⟨hbooks, -, -, hfatal, -⟩ := books_agree hs
  exact ⟨s, hs, of_decide_eq_true hp, hbooks, hfatal⟩

/-! ## Channels without interest -/

/-- No channel that was enabled and has given up its interest is watched by the kernel. -/
def Unwatched (s : ChannelTable κ) : Prop :=
  ∀ c, s.wasEnabled c = true → (s.chans c).events = Channel.kNoneEvent →
    s.poller.interest (s.chans c).fd = none

/-- The call leaves a channel without interest that is not registered at the time, though it was
enabled before. -/
def DisablesUnregistered (s : ChannelTable κ) : κ × ChannelOp → Prop
  | (c, op) => s.wasEnabled c = true ∧ (s.chans c).index ≠ .kAdded ∧
      op.events? (s.chans c).events = some Channel.kNoneEvent

instance (s : ChannelTable κ) (a : κ × ChannelOp) : Decidable (s.DisablesUnregistered a) :=
  inferInstanceAs (Decidable (_ ∧ _))

omit [DecidableEq κ] in
/-- In terms of the index: a channel that is `kAdded` has an interest. -/
theorem Agreed.unwatched_iff (hs : s.Agreed) :
    s.Unwatched ↔ ∀ c, s.wasEnabled c = true → (s.chans c).events = Channel.kNoneEvent →
      (s.chans c).index ≠ .kAdded := by
  refine ⟨fun h c hc hnone hadded => ?_, fun h c hc hnone => ?_⟩
  · have hi := h c hc hnone
    rw [(hs.books.kernel _ _ c).mpr ⟨hadded, rfl, rfl⟩] at hi
    cases hi
  · have hne := h c hc hnone
    cases hi : s.poller.interest (s.chans c).fd with
    | none => rfl
    | some x =>
        exact absurd ((hs.agrees c).of_interest hi).1 hne

/-- A step keeps channels without interest unwatched exactly when it does not disable a channel that
is not registered. -/
theorem Unwatched.step_iff (hs : s.Agreed) (h : s.Unwatched) (hstep : s.exec (c, op) = .ok s') :
    s'.Unwatched ↔ ¬ s.DisablesUnregistered (c, op) := by
  have hs' : s'.Agreed := hs.step (a := (c, op)) ⟨trivial, hstep⟩
  rw [hs.unwatched_iff] at h
  rw [hs'.unwatched_iff]
  cases he : op.events? (s.chans c).events with
  | none =>
      obtain ⟨htouch, -, -, hnew, hwas⟩ := exec_remove he (hs.agrees c) hstep
      refine ⟨fun _ hdis => ?_, fun _ c' hc' hnone => ?_⟩
      · rw [hdis.2.2] at he
        cases he
      · rw [hwas] at hc'
        by_cases hne : c' = c
        · rw [hne, hnew]
          exact ChannelIndex.noConfusion
        · rw [htouch.of_ne hne] at hnone ⊢
          exact h c' hc' hnone
  | some events =>
      obtain ⟨htouch, hevents, hindex, hwas⟩ := exec_update he hstep
      have hothers : ∀ c', c' ≠ c → s'.wasEnabled c' = s.wasEnabled c' := by
        intro c' hne
        rw [hwas]
        split
        · exact Function.update_of_ne hne _ _
        · rfl
      refine ⟨fun h' hdis => ?_, fun hok c' hc' hnone => ?_⟩
      · obtain ⟨hc, hadded, hnone⟩ := hdis
        rw [hnone, Option.some.injEq] at he
        subst he
        refine h' c ?_ hevents ?_
        · rw [hwas]
          split
          · exact Function.update_self _ _ _
          · exact hc
        · rw [hindex, EPoller.indexAfter, if_neg (fun hand => hadded hand.1)]
      · by_cases hne : c' = c
        · subst hne
          rw [hevents] at hnone
          subst hnone
          rw [hindex]
          have hc : s.wasEnabled c' = true := by
            rw [hwas, if_neg] at hc'
            · exact hc'
            · exact fun hen => ChannelOp.ne_none_of_enables hen he rfl
          have hadded : (s.chans c').index = .kAdded := by
            by_contra hidx
            exact hok ⟨hc, hidx, he⟩
          rw [hadded]
          exact ChannelIndex.noConfusion
        · rw [hothers c' hne] at hc'
          rw [htouch.of_ne hne] at hnone ⊢
          exact h c' hc' hnone

/-- **A channel with no interest is not watched** in every run without a call that disables a channel
which is deleted or removed already; and such a call has it watched. -/
theorem unwatched_of_no_interest
    (h : system.ReachableVia (fun s a => ¬ s.DisablesUnregistered a) s) :
    s.Unwatched ∧ ∀ a s', system.Step s a s' → (s'.Unwatched ↔ ¬ s.DisablesUnregistered a) := by
  have hunwatched : s.Unwatched := by
    refine StepSystem.ReachableVia.invariant (fun s hs => ?_) (fun s a s' hr hs hok hstep => ?_) h
    · obtain ⟨fds, -, rfl⟩ := hs
      exact fun c _ _ => rfl
    · exact (Unwatched.step_iff (agreed_of_reachable hr.reachable) hs hstep.2).mpr hok
  exact ⟨hunwatched, fun a s' hstep =>
    hunwatched.step_iff (agreed_of_reachable h.reachable) hstep.2⟩

theorem unwatched_of_no_interest_once :
    ∃ s : ChannelTable ℕ, system.ReachableVia (fun s a => ¬ s.DisablesUnregistered a) s ∧
      (s.chans 0).events = Channel.kNoneEvent ∧ s.wasEnabled 0 = true ∧ s.Unwatched := by
  obtain ⟨s, hs, hp⟩ := StepSystem.exists_reachableVia_of_runFrom?
    (fun s a => ¬ ChannelTable.DisablesUnregistered s a)
    (disabledTwice.take 4) (M := system)
    (p := fun s => decide ((s.chans 0).events = Channel.kNoneEvent ∧ s.wasEnabled 0 = true))
    (s := new fun c => c + 5) ⟨_, fun _ _ h => Nat.add_right_cancel h, rfl⟩ (by decide +kernel)
  obtain ⟨hnone, hwas⟩ := of_decide_eq_true hp
  exact ⟨s, hs, hnone, hwas, (unwatched_of_no_interest hs).1⟩

/-- `connectEstablished`, `handleClose` and `connectDestroyed` enable reading and disable the channel
twice: it is watched without interest. -/
theorem watched_disabledTwice :
    ∃ s : ChannelTable ℕ, system.Reachable s ∧ s.wasEnabled 0 = true ∧
      (s.chans 0).events = Channel.kNoneEvent ∧
      s.poller.interest (s.chans 0).fd = some (Channel.kNoneEvent, 0) := by
  obtain ⟨s, hs, hp⟩ := StepSystem.exists_reachableVia_of_runFrom? (fun _ _ => True)
    disabledTwice (M := system) (p := fun s => decide (s.wasEnabled 0 = true ∧
      (s.chans 0).events = Channel.kNoneEvent ∧
      s.poller.interest (s.chans 0).fd = some (Channel.kNoneEvent, 0)))
    (s := new fun c => c + 5) ⟨_, fun _ _ h => Nat.add_right_cancel h, rfl⟩ (by decide +kernel)
  exact ⟨s, hs, of_decide_eq_true hp⟩

end ChannelTable

end MiniMuduo
