import MiniMuduo.Lib.DenseTable
import MiniMuduo.Net.ChannelTable

/-!
# `Poller`, beside `EPoller`

`PollerImpl` can be either of two pollers. `Poller` keeps a `pollfd` for each of its channels in the
vector `pollfds_`; the index of a channel is the position of its `pollfd`, negative for a new channel,
and a channel without interest has its descriptor negated, as `-fd - 1`, so that `::poll` ignores it.

Both are driven with the same calls. `follows_iff` says for which sequences of calls `Poller` goes
wherever `EPoller` does and has the kernel watch the same: as long as no call is one that `Poller`
mishandles. There are three kinds of them (`Mishandles`):

* a channel that was disabled is enabled again: `updateChannel` sets the events of its `pollfd` but
  leaves the descriptor negated;
* a channel is removed that was registered without interest and never touched since, so that its
  descriptor is not negated;
* a channel is used after it was removed: `removeChannel` leaves its index as it is.
-/

namespace MiniMuduo

open Fallible

/-- `struct pollfd`. -/
structure PollFd where
  fd : ℤ
  events : PollEvents
  revents : PollEvents
  deriving DecidableEq

/-- A channel as `Poller` uses it. -/
structure PolledChannel where
  fd : Fd
  events : PollEvents
  index : ℤ
  deriving DecidableEq

/-- The asserts of `Poller`, and the use of an entry of `channels_` that is not there. -/
inductive PollerFault where
  | channelPresent
  | channelAbsent
  | removeInterested
  | indexRange
  | pollfdMismatch
  | nullChannel
  deriving DecidableEq, Repr

structure PollTable (κ : Type) where
  channels : Fd → Option κ
  pollfds : List PollFd
  chans : κ → PolledChannel

namespace PollTable

variable {κ : Type} [DecidableEq κ]

def new (fds : κ → Fd) : PollTable κ where
  channels := fun _ => none
  pollfds := []
  chans := fun c => ⟨fds c, Channel.kNoneEvent, -1⟩

/-- `-channel->fd() - 1`. -/
def negated (fd : Fd) : ℤ := -(fd : ℤ) - 1

/-- `Poller::updateChannel`, with these `events_`. -/
def updateChannel (s : PollTable κ) (c : κ) (events : PollEvents) :
    Except PollerFault (PollTable κ) :=
  let ch := { s.chans c with events := events }
  if ch.index < 0 then do
    check (s.channels ch.fd = none) .channelPresent
    let pollfds := s.pollfds ++ [⟨ch.fd, ch.events, ∅⟩]
    return {
      channels := Function.update s.channels ch.fd (some c)
      pollfds := pollfds
      chans := Function.update s.chans c { ch with index := (pollfds.length : ℤ) - 1 } }
  else do
    check (s.channels ch.fd = some c) .channelAbsent
    check (0 ≤ ch.index ∧ ch.index < (s.pollfds.length : ℤ)) .indexRange
    match s.pollfds[ch.index.toNat]? with
    | none => throw .indexRange
    | some pfd => do
        check (pfd.fd = ch.fd ∨ pfd.fd = negated ch.fd) .pollfdMismatch
        let pfd := { pfd with events := ch.events, revents := ∅ }
        let pfd := if ch.events = Channel.kNoneEvent then { pfd with fd := negated ch.fd } else pfd
        return { s with
          pollfds := s.pollfds.set ch.index.toNat pfd
          chans := Function.update s.chans c ch }

/-- `Poller::removeChannel`. -/
def removeChannel (s : PollTable κ) (c : κ) : Except PollerFault (PollTable κ) := do
  let ch := s.chans c
  check (s.channels ch.fd = some c) .channelAbsent
  check (ch.events = Channel.kNoneEvent) .removeInterested
  check (0 ≤ ch.index ∧ ch.index < (s.pollfds.length : ℤ)) .indexRange
  match s.pollfds[ch.index.toNat]? with
  | none => throw .indexRange
  | some pfd => do
      check (pfd.fd = negated ch.fd ∧ pfd.events = ch.events) .pollfdMismatch
      let channels := Function.update s.channels ch.fd none
      if ch.index.toNat = s.pollfds.length - 1 then
        return { s with channels := channels, pollfds := s.pollfds.dropLast }
      else
        match s.pollfds.getLast? with
        | none => throw .indexRange
        | some last =>
            let channelAtEnd := if last.fd < 0 then -last.fd - 1 else last.fd
            match channels channelAtEnd.toNat with
            | none => throw .nullChannel
            | some c' =>
                return {
                  channels := channels
                  pollfds := (s.pollfds.set ch.index.toNat last).dropLast
                  chans := Function.update s.chans c' { s.chans c' with index := ch.index } }

def exec (s : PollTable κ) : κ × ChannelOp → Except PollerFault (PollTable κ)
  | (c, op) =>
      match op.events? (s.chans c).events with
      | some events => s.updateChannel c events
      | none => s.removeChannel c

/-- The `pollfd` of a channel has its descriptor negated. -/
def IsNegated (s : PollTable κ) (c : κ) : Prop :=
  ∃ pfd ∈ s.pollfds[(s.chans c).index.toNat]?, pfd.fd < 0

instance (s : PollTable κ) (c : κ) : Decidable (s.IsNegated c) :=
  inferInstanceAs (Decidable (∃ pfd ∈ s.pollfds[(s.chans c).index.toNat]?, pfd.fd < 0))

/-- The calls that go wrong: to enable a channel whose descriptor is negated, to remove one whose
descriptor is not, and to use one that was removed. -/
def Mishandles (s : PollTable κ) : κ × ChannelOp → Prop
  | (c, op) =>
      match op.events? (s.chans c).events with
      | some events =>
          if s.channels (s.chans c).fd = some c then events ≠ Channel.kNoneEvent ∧ s.IsNegated c
          else 0 ≤ (s.chans c).index
      | none => ¬ s.IsNegated c

/-- No call of the sequence is one that goes wrong. -/
def Handles : PollTable κ → List (κ × ChannelOp) → Prop
  | _, [] => True
  | s, a :: as => ¬ s.Mishandles a ∧ ∀ s', s.exec a = .ok s' → s'.Handles as

instance (s : PollTable κ) : (a : κ × ChannelOp) → Decidable (s.Mishandles a)
  | (c, op) =>
      match h : op.events? (s.chans c).events with
      | some events => decidable_of_iff
          (if s.channels (s.chans c).fd = some c then events ≠ Channel.kNoneEvent ∧ s.IsNegated c
            else 0 ≤ (s.chans c).index) (by simp only [Mishandles, h])
      | none => decidable_of_iff (¬ s.IsNegated c) (by simp only [Mishandles, h])

instance decidableHandles : (s : PollTable κ) → (as : List (κ × ChannelOp)) → Decidable (s.Handles as)
  | _, [] => inferInstanceAs (Decidable True)
  | s, a :: as =>
      match h : s.exec a with
      | .ok s' =>
          have := decidableHandles s' as
          decidable_of_iff (¬ s.Mishandles a ∧ s'.Handles as) (by simp [Handles, h])
      | .error _ => decidable_of_iff (¬ s.Mishandles a) (by simp [Handles, h])

end PollTable

variable {κ : Type} [DecidableEq κ]

/-- The kernel is asked to watch the same pairs of a descriptor and events, and a negative descriptor
is not watched. -/
def SameWatched (e : ChannelTable κ) (p : PollTable κ) : Prop :=
  ∀ (fd : Fd) events, events ≠ Channel.kNoneEvent →
    ((∃ c, e.poller.interest fd = some (events, c)) ↔
      ∃ pfd ∈ p.pollfds, pfd.fd = fd ∧ pfd.events = events)

/-- Where `EPoller` gets, `Poller` gets too, and both have the kernel watch the same. -/
def Follows (x : Except NetFault (ChannelTable κ)) (y : Except PollerFault (PollTable κ)) : Prop :=
  ∀ e, x = .ok e → ∃ p, y = .ok p ∧ SameWatched e p

def ChannelTable.run (e : ChannelTable κ) (ops : List (κ × ChannelOp)) :
    Except NetFault (ChannelTable κ) := ops.foldlM ChannelTable.exec e

def PollTable.run (p : PollTable κ) (ops : List (κ × ChannelOp)) :
    Except PollerFault (PollTable κ) := ops.foldlM PollTable.exec p

theorem ChannelTable.run_cons (e : ChannelTable κ) (a : κ × ChannelOp) (as : List (κ × ChannelOp)) :
    e.run (a :: as) = e.exec a >>= fun e' => e'.run as := List.foldlM_cons

theorem PollTable.run_cons (p : PollTable κ) (a : κ × ChannelOp) (as : List (κ × ChannelOp)) :
    p.run (a :: as) = p.exec a >>= fun p' => p'.run as := List.foldlM_cons

/-! ## What `updateChannel` does -/

namespace PollTable

variable {p : PollTable κ} {c : κ}

/-- A `pollfd` is added for the channel. -/
def added (p : PollTable κ) (c : κ) (events : PollEvents) : PollTable κ where
  channels := Function.update p.channels (p.chans c).fd (some c)
  pollfds := p.pollfds ++ [⟨(p.chans c).fd, events, ∅⟩]
  chans := Function.update p.chans c ⟨(p.chans c).fd, events, p.pollfds.length⟩

@[simp] theorem added_chans_self (events : PollEvents) :
    (p.added c events).chans c = ⟨(p.chans c).fd, events, p.pollfds.length⟩ :=
  Function.update_self _ _ _

theorem added_chans_of_ne {c' : κ} (h : c' ≠ c) (events : PollEvents) :
    (p.added c events).chans c' = p.chans c' := Function.update_of_ne h _ _

theorem updateChannel_of_new {events : PollEvents} (hidx : (p.chans c).index < 0)
    (hfree : p.channels (p.chans c).fd = none) :
    p.updateChannel c events = .ok (p.added c events) := by
  unfold updateChannel added
  rw [if_pos hidx, check_of_pos hfree]
  simp

/-- The `pollfd` of the channel with other events. -/
def rewrittenFd (p : PollTable κ) (c : κ) (events : PollEvents) (pfd : PollFd) : PollFd :=
  if events = Channel.kNoneEvent then ⟨negated (p.chans c).fd, events, ∅⟩ else ⟨pfd.fd, events, ∅⟩

/-- The `pollfd` of the channel is rewritten. -/
def rewritten (p : PollTable κ) (c : κ) (events : PollEvents) (i : ℕ) (pfd : PollFd) :
    PollTable κ where
  channels := p.channels
  pollfds := p.pollfds.set i (p.rewrittenFd c events pfd)
  chans := Function.update p.chans c ⟨(p.chans c).fd, events, i⟩

@[simp] theorem rewritten_chans_self (events : PollEvents) (i : ℕ) (pfd : PollFd) :
    (p.rewritten c events i pfd).chans c = ⟨(p.chans c).fd, events, i⟩ :=
  Function.update_self _ _ _

theorem rewritten_chans_of_ne {c' : κ} (h : c' ≠ c) (events : PollEvents) (i : ℕ)
    (pfd : PollFd) : (p.rewritten c events i pfd).chans c' = p.chans c' :=
  Function.update_of_ne h _ _

theorem updateChannel_of_old {i : ℕ} {pfd : PollFd} (hreg : p.channels (p.chans c).fd = some c)
    (hidx : (p.chans c).index = i) (hpfd : p.pollfds[i]? = some pfd)
    (hfd : pfd.fd = (p.chans c).fd ∨ pfd.fd = negated (p.chans c).fd) (events : PollEvents) :
    p.updateChannel c events = .ok (p.rewritten c events i pfd) := by
  have hlt : i < p.pollfds.length := (List.getElem?_eq_some_iff.mp hpfd).1
  have hrange : 0 ≤ (p.chans c).index ∧ (p.chans c).index < (p.pollfds.length : ℤ) := by omega
  have hnat : (p.chans c).index.toNat = i := by rw [hidx, Int.toNat_natCast]
  unfold updateChannel
  rw [if_neg (by omega : ¬ (p.chans c).index < 0), check_of_pos hreg, check_of_pos hrange]
  simp only [ok_bind, hnat, hpfd, check_of_pos hfd]
  unfold rewritten rewrittenFd
  rw [hidx]
  split <;> rfl

/-- A descriptor is found again in a `pollfd` that has it, negated or not. -/
theorem decoded_eq {x : ℤ} {fd : Fd} (h : x = fd ∨ x = negated fd) :
    (if x < 0 then -x - 1 else x).toNat = fd := by
  rcases h with rfl | rfl
  · rw [if_neg (by omega), Int.toNat_natCast]
  · rw [negated, if_pos (by omega)]
    omega

end PollTable

/-! ## The two in step -/

/-- The position of the `pollfd` of a channel. -/
def PollTable.slot (p : PollTable κ) (c : κ) : Option ℕ :=
  if p.channels (p.chans c).fd = some c then some (p.chans c).index.toNat else none

/-- The slots after an update that registers `c` at the position `i`, or leaves it there. -/
theorem PollTable.slot_registered {p : PollTable κ} {c : κ}
    (hfds : ∀ c', c' ≠ c → (p.chans c').fd ≠ (p.chans c).fd) (events : PollEvents) (i : ℕ) :
    (fun c' => if Function.update p.channels (p.chans c).fd (some c)
        (Function.update p.chans c ⟨(p.chans c).fd, events, i⟩ c').fd = some c' then
        some (Function.update p.chans c ⟨(p.chans c).fd, events, i⟩ c').index.toNat else none) =
      Function.update p.slot c (some i) := by
  funext c'
  by_cases hne : c' = c
  · subst hne
    rw [Function.update_self, Function.update_self, Function.update_self, if_pos rfl]
    rfl
  · rw [Function.update_of_ne hne, Function.update_of_ne hne, Function.update_of_ne (hfds c' hne)]
    rfl

/-- The slots after `c` is taken out of the map, with `chans` in place of the channels. -/
theorem PollTable.slot_removed {p : PollTable κ} {c : κ} {chans : κ → PolledChannel}
    {slot : κ → Option ℕ} (hfds : ∀ c', c' ≠ c → (p.chans c').fd ≠ (p.chans c).fd)
    (hfd : ∀ c', (chans c').fd = (p.chans c').fd) (hnone : slot c = none)
    (hslot : ∀ c', c' ≠ c → slot c' =
      if p.channels (p.chans c').fd = some c' then some (chans c').index.toNat else none)
    (pollfds : List PollFd) :
    PollTable.slot ⟨Function.update p.channels (p.chans c).fd none, pollfds, chans⟩ = slot := by
  funext c'
  show (if Function.update p.channels (p.chans c).fd none (chans c').fd = some c' then
    some (chans c').index.toNat else none) = slot c'
  rw [hfd]
  by_cases hne : c' = c
  · rw [hne, Function.update_self, if_neg (fun hc => by cases hc), hnone]
  · rw [Function.update_of_ne (hfds c' hne), hslot c' hne]

/-- The `pollfd` of the channel `ch`. -/
def PolledChannel.Fits (ch : PolledChannel) (pfd : PollFd) : Prop :=
  pfd.events = ch.events ∧ (pfd.fd = ch.fd ∨
    pfd.fd = PollTable.negated ch.fd ∧ ch.events = Channel.kNoneEvent)

/-- A `pollfd` that the kernel looks at has the descriptor of its channel. -/
theorem PolledChannel.Fits.fd_eq {ch : PolledChannel} {pfd : PollFd} {fd : Fd} (h : ch.Fits pfd)
    (hfd : pfd.fd = fd) : ch.fd = fd := by
  rcases h.2 with hpos | ⟨hneg, -⟩
  · rw [hpos] at hfd
    exact_mod_cast hfd
  · rw [hfd] at hneg
    unfold PollTable.negated at hneg
    omega

structure InStep (e : ChannelTable κ) (p : PollTable κ) : Prop where
  agreed : e.Agreed
  /-- Only channels that are watched have an interest. -/
  idle : ∀ c, (e.chans c).index ≠ .kAdded → (e.chans c).events = Channel.kNoneEvent
  fd : ∀ c, (p.chans c).fd = (e.chans c).fd
  events : ∀ c, (p.chans c).events = (e.chans c).events
  channels : p.channels = e.poller.channels
  index : ∀ c, p.channels (p.chans c).fd = some c → 0 ≤ (p.chans c).index
  dense : DenseTable (fun c => (p.chans c).Fits) p.slot p.pollfds

namespace InStep

variable {e e' : ChannelTable κ} {p p' : PollTable κ} {c : κ} {op : ChannelOp} {events : PollEvents}

theorem new {fds : κ → Fd} (h : Function.Injective fds) :
    InStep (ChannelTable.new fds) (PollTable.new fds) where
  agreed := ChannelTable.agreed_new h
  idle := fun _ _ => rfl
  fd := fun _ => rfl
  events := fun _ => rfl
  channels := rfl
  index := fun _ hc => (by cases hc)
  dense := DenseTable.nil

theorem registered_iff (h : InStep e p) :
    p.channels (p.chans c).fd = some c ↔ (e.chans c).index ≠ .kNew := by
  rw [h.channels, h.fd]
  have ha := h.agreed.agrees c
  unfold EPoller.Agrees at ha
  cases hidx : (e.chans c).index <;> rw [hidx] at ha <;> simp [ha.1]

/-- A registered channel with its `pollfd`. -/
theorem pollfd_eq (h : InStep e p) (hreg : p.channels (p.chans c).fd = some c) :
    ∃ (i : ℕ) (pfd : PollFd), (p.chans c).index = i ∧ p.slot c = some i ∧ p.pollfds[i]? = some pfd ∧
      (p.chans c).Fits pfd ∧ (p.IsNegated c ↔ pfd.fd < 0) := by
  have hidx : (p.chans c).index = (p.chans c).index.toNat :=
    (Int.toNat_of_nonneg (h.index c hreg)).symm
  have hslot : p.slot c = some (p.chans c).index.toNat := if_pos hreg
  obtain ⟨pfd, hpfd, hfits⟩ := h.dense.entry c _ hslot
  refine ⟨_, pfd, hidx, hslot, hpfd, hfits, ?_⟩
  unfold PollTable.IsNegated
  rw [hpfd]
  simp

/-- Every `pollfd` is that of a registered channel. -/
theorem owner_at (h : InStep e p) {pfd : PollFd} {i : ℕ} (hpfd : p.pollfds[i]? = some pfd) :
    ∃ c, p.slot c = some i ∧ (p.chans c).Fits pfd ∧ p.channels (p.chans c).fd = some c := by
  obtain ⟨c, hc⟩ := h.dense.owner i (List.getElem?_eq_some_iff.mp hpfd).1
  obtain ⟨x, hx, hfit⟩ := h.dense.entry c i hc
  rw [hpfd, Option.some.injEq] at hx
  subst hx
  refine ⟨c, hc, hfit, ?_⟩
  unfold PollTable.slot at hc
  by_contra hreg
  rw [if_neg hreg] at hc
  cases hc

/-- In step, the same is watched. -/
theorem sameWatched (h : InStep e p) : SameWatched e p := by
  intro fd events hne
  constructor
  · rintro ⟨c, hi⟩
    obtain ⟨hadded, rfl, rfl⟩ := (h.agreed.books.kernel fd events c).mp hi
    have hreg : p.channels (p.chans c).fd = some c :=
      h.registered_iff.mpr (by rw [hadded]; exact ChannelIndex.noConfusion)
    obtain ⟨i, pfd, -, -, hpfd, ⟨hevents, hfd⟩, -⟩ := h.pollfd_eq hreg
    rw [h.events, h.fd] at hfd
    rw [h.events] at hevents
    exact ⟨pfd, List.mem_of_getElem? hpfd, hfd.resolve_right fun hand => hne hand.2, hevents⟩
  · rintro ⟨pfd, hmem, hfd, rfl⟩
    obtain ⟨i, hpfd⟩ := List.mem_iff_getElem?.mp hmem
    obtain ⟨c, -, hfits, -⟩ := h.owner_at hpfd
    refine ⟨c, (h.agreed.books.kernel _ _ c).mpr ⟨?_, ?_, ?_⟩⟩
    · by_contra hidx
      refine hne ?_
      rw [hfits.1, h.events]
      exact h.idle c hidx
    · rw [← h.fd, hfits.fd_eq hfd]
    · rw [hfits.1, h.events]

/-! ### Updates -/

/-- `EPoller` has the channel in its map after an update. -/
theorem channels_update (he : op.events? (e.chans c).events = some events)
    (hex : e.exec (c, op) = .ok e') :
    e'.poller.channels = Function.update e.poller.channels (e.chans c).fd (some c) := by
  obtain ⟨htouch, -, hindex, -⟩ := ChannelTable.exec_update he hex
  funext fd
  by_cases hfd : fd = (e.chans c).fd
  · have ha := htouch.agrees
    unfold EPoller.Agrees at ha
    rw [hindex, htouch.fd] at ha
    rw [hfd, Function.update_self]
    have hcases : EPoller.indexAfter (e.chans c).index events = .kDeleted ∨
        EPoller.indexAfter (e.chans c).index events = .kAdded := by
      unfold EPoller.indexAfter
      split
      · exact .inl rfl
      · exact .inr rfl
    rcases hcases with hidx | hidx <;> rw [hidx] at ha <;> exact ha.1
  · rw [Function.update_of_ne hfd]
    exact (htouch.only.same fd hfd).1

theorem idle_update (h : InStep e p) (he : op.events? (e.chans c).events = some events)
    (hex : e.exec (c, op) = .ok e') (c' : κ) (hidx : (e'.chans c').index ≠ .kAdded) :
    (e'.chans c').events = Channel.kNoneEvent := by
  obtain ⟨htouch, hevents, hindex, -⟩ := ChannelTable.exec_update he hex
  by_cases hne : c' = c
  · subst hne
    rw [hindex] at hidx
    unfold EPoller.indexAfter at hidx
    split at hidx
    · next hand => rw [hevents, hand.2]
    · exact absurd rfl hidx
  · rw [htouch.of_ne hne] at hidx ⊢
    exact h.idle c' hidx

/-- Channels with the new interest of `c`. -/
theorem chans_update (h : InStep e p) (he : op.events? (e.chans c).events = some events)
    (hex : e.exec (c, op) = .ok e') (index : ℤ) (c' : κ) :
    (Function.update p.chans c ⟨(p.chans c).fd, events, index⟩ c').fd = (e'.chans c').fd ∧
      (Function.update p.chans c ⟨(p.chans c).fd, events, index⟩ c').events =
        (e'.chans c').events := by
  obtain ⟨htouch, hevents, -, -⟩ := ChannelTable.exec_update he hex
  by_cases hne : c' = c
  · subst hne
    rw [Function.update_self, htouch.fd, hevents, h.fd]
    exact ⟨rfl, rfl⟩
  · rw [Function.update_of_ne hne, htouch.of_ne hne]
    exact ⟨h.fd c', h.events c'⟩

theorem fd_ne (h : InStep e p) {c' : κ} (hne : c' ≠ c) : (p.chans c').fd ≠ (p.chans c).fd := by
  rw [h.fd, h.fd]
  exact fun heq => hne (h.agreed.fds heq)

theorem index_update (h : InStep e p) (events : PollEvents) (i : ℕ) (c' : κ)
    (hc' : Function.update p.channels (p.chans c).fd (some c)
      (Function.update p.chans c ⟨(p.chans c).fd, events, i⟩ c').fd = some c') :
    0 ≤ (Function.update p.chans c ⟨(p.chans c).fd, events, i⟩ c').index := by
  by_cases hne : c' = c
  · subst hne
    rw [Function.update_self]
    exact Int.natCast_nonneg _
  · rw [Function.update_of_ne hne] at hc' ⊢
    rw [Function.update_of_ne (h.fd_ne hne)] at hc'
    exact h.index c' hc'

/-- The first update of a channel adds a `pollfd`. -/
theorem update_new (h : InStep e p) (he : op.events? (e.chans c).events = some events)
    (hex : e.exec (c, op) = .ok e') (hreg : p.channels (p.chans c).fd ≠ some c)
    (hidx : (p.chans c).index < 0) : ∃ p', p.updateChannel c events = .ok p' ∧ InStep e' p' := by
  have hfree : p.channels (p.chans c).fd = none := by
    cases hc : p.channels (p.chans c).fd with
    | none => rfl
    | some c' =>
        rw [h.channels] at hc
        have hfd := h.agreed.channels _ c' hc
        rw [h.fd] at hfd
        have heq := h.agreed.fds hfd
        subst heq
        rw [h.channels] at hreg
        exact absurd hc hreg
  obtain ⟨htouch, -, -, -⟩ := ChannelTable.exec_update he hex
  refine ⟨p.added c events, PollTable.updateChannel_of_new hidx hfree, h.agreed.touches htouch,
    h.idle_update he hex, fun c' => (h.chans_update he hex _ c').1,
    fun c' => (h.chans_update he hex _ c').2, ?_, h.index_update events p.pollfds.length, ?_⟩
  · rw [channels_update he hex, ← h.channels, ← h.fd]
    rfl
  · have hnone : p.slot c = none := if_neg hreg
    have hfits : DenseTable (fun c' => ((p.added c events).chans c').Fits) p.slot p.pollfds := by
      refine h.dense.mono fun c' i hi x hx => ?_
      have hne : c' ≠ c := by
        rintro rfl
        rw [hnone] at hi
        cases hi
      rw [PollTable.added_chans_of_ne hne]
      exact hx
    have hpush := hfits.push hnone (x := ⟨(p.chans c).fd, events, ∅⟩) (by
      rw [PollTable.added_chans_self]
      exact ⟨rfl, .inl rfl⟩)
    rw [← PollTable.slot_registered (fun _ => h.fd_ne) events] at hpush
    exact hpush

/-- Rewriting the `pollfd` keeps the two in step if the `pollfd` still fits its channel. -/
theorem rewrite (h : InStep e p) (he : op.events? (e.chans c).events = some events)
    (hex : e.exec (c, op) = .ok e') (hreg : p.channels (p.chans c).fd = some c) {i : ℕ}
    {pfd : PollFd} (hslot : p.slot c = some i)
    (hfits : ((p.rewritten c events i pfd).chans c).Fits (p.rewrittenFd c events pfd)) :
    InStep e' (p.rewritten c events i pfd) := by
  obtain ⟨htouch, -, -, -⟩ := ChannelTable.exec_update he hex
  refine ⟨h.agreed.touches htouch, h.idle_update he hex, fun c' => (h.chans_update he hex _ c').1,
    fun c' => (h.chans_update he hex _ c').2, ?channels, ?index, ?dense⟩
  case channels =>
    rw [channels_update he hex, ← h.channels, ← h.fd, ← hreg, Function.update_eq_self]
    rfl
  case index =>
    have hindex := h.index_update (c := c) events i
    rw [← hreg, Function.update_eq_self] at hindex
    exact hindex
  case dense =>
    have hslots := PollTable.slot_registered (c := c) (fun _ => h.fd_ne) events i
    rw [← hreg, Function.update_eq_self, ← hslot, Function.update_eq_self] at hslots
    have hset : DenseTable (fun c' => ((p.rewritten c events i pfd).chans c').Fits) p.slot
        (p.rewritten c events i pfd).pollfds := by
      refine h.dense.set hslot hfits fun c' hne x hx => ?_
      rw [PollTable.rewritten_chans_of_ne hne]
      exact hx
    rw [← hslots] at hset
    exact hset

/-- A `pollfd` that was negated stays so when its channel is enabled: `EPoller` watches the channel,
and `Poller` does not. -/
theorem not_sameWatched_rewritten (h : InStep e p)
    (he : op.events? (e.chans c).events = some events) (hex : e.exec (c, op) = .ok e')
    (hne : events ≠ Channel.kNoneEvent) {i : ℕ} {pfd : PollFd} (hslot : p.slot c = some i)
    (hpfd : p.pollfds[i]? = some pfd) (hneg : pfd.fd < 0) :
    ¬ SameWatched e' (p.rewritten c events i pfd) := by
  intro hsame
  obtain ⟨htouch, hevents, hindex, -⟩ := ChannelTable.exec_update he hex
  have hadded : (e'.chans c).index = .kAdded := by
    rw [hindex, EPoller.indexAfter, if_neg fun hand => hne hand.2]
  have hwatched := ((h.agreed.touches htouch).books.kernel _ _ c).mpr ⟨hadded, htouch.fd, hevents⟩
  obtain ⟨pfd', hmem, hfd', -⟩ := (hsame _ events hne).mp ⟨c, hwatched⟩
  rcases List.mem_or_eq_of_mem_set hmem with hold | heq
  · -- descriptors are distinct, so a `pollfd` with this descriptor is at the position of `c`
    obtain ⟨j, hpfd'⟩ := List.mem_iff_getElem?.mp hold
    obtain ⟨c', hj, hfits, -⟩ := h.owner_at hpfd'
    have hc : c' = c := by
      by_contra hcne
      exact h.fd_ne hcne ((hfits.fd_eq hfd').trans (h.fd c).symm)
    rw [hc, hslot, Option.some.injEq] at hj
    rw [← hj, hpfd, Option.some.injEq] at hpfd'
    rw [hpfd', hfd'] at hneg
    omega
  · rw [heq, PollTable.rewrittenFd, if_neg hne] at hfd'
    have hfd'' : pfd.fd = ((e.chans c).fd : ℤ) := hfd'
    omega

/-- A later update rewrites the `pollfd`, and misses an interest that comes back. -/
theorem update_old (h : InStep e p) (he : op.events? (e.chans c).events = some events)
    (hex : e.exec (c, op) = .ok e') (hreg : p.channels (p.chans c).fd = some c) :
    ∃ p', p.updateChannel c events = .ok p' ∧
      (¬ (events ≠ Channel.kNoneEvent ∧ p.IsNegated c) → InStep e' p') ∧
      (events ≠ Channel.kNoneEvent ∧ p.IsNegated c → ¬ SameWatched e' p') := by
  obtain ⟨i, pfd, hidx, hslot, hpfd, ⟨-, hfd⟩, hneg⟩ := h.pollfd_eq hreg
  have hrun := PollTable.updateChannel_of_old hreg hidx hpfd (hfd.imp id And.left) events
  refine ⟨_, hrun, fun hok => h.rewrite he hex hreg hslot ?_, fun hbad => ?_⟩
  · rw [PollTable.rewritten_chans_self]
    unfold PollTable.rewrittenFd
    split
    · next hnone => exact ⟨rfl, .inr ⟨rfl, hnone⟩⟩
    · next hsome =>
        refine ⟨rfl, .inl ?_⟩
        rcases hfd with hpos | ⟨hnegated, -⟩
        · exact hpos
        · refine absurd ⟨hsome, hneg.mpr ?_⟩ hok
          rw [hnegated]
          unfold PollTable.negated
          omega
  · exact h.not_sameWatched_rewritten he hex hbad.1 hslot hpfd (hneg.mp hbad.2)

/-! ### Removal -/

theorem idle_remove (h : InStep e p) (he : op.events? (e.chans c).events = none)
    (hex : e.exec (c, op) = .ok e') (c' : κ) (hidx : (e'.chans c').index ≠ .kAdded) :
    (e'.chans c').events = Channel.kNoneEvent := by
  obtain ⟨htouch, hevents, -, -, -⟩ := ChannelTable.exec_remove he (h.agreed.agrees c) hex
  by_cases hne : c' = c
  · rw [hne, hevents]
  · rw [htouch.of_ne hne] at hidx ⊢
    exact h.idle c' hidx

/-- A removed channel was in the map of `EPoller` and is there no more. -/
theorem channels_remove (h : InStep e p) (he : op.events? (e.chans c).events = none)
    (hex : e.exec (c, op) = .ok e') :
    p.channels (p.chans c).fd = some c ∧
      e'.poller.channels = Function.update p.channels (p.chans c).fd none := by
  obtain ⟨htouch, -, -, hnew, -⟩ := ChannelTable.exec_remove he (h.agreed.agrees c) hex
  have hreg : e.poller.channels (e.chans c).fd = some c := by
    unfold ChannelTable.exec EPoller.removeChannel at hex
    simp only [he, bind_eq_ok, check_eq_ok] at hex
    obtain ⟨-, ⟨-, hch, -⟩, -⟩ := hex
    exact hch
  rw [h.channels, h.fd]
  refine ⟨hreg, funext fun fd => ?_⟩
  by_cases hfd : fd = (e.chans c).fd
  · subst hfd
    rw [Function.update_self]
    cases hc : e'.poller.channels (e.chans c).fd with
    | none => rfl
    | some c' =>
        have hcc : c' = c := by
          rcases htouch.only.channels c' hc with hold | heq
          · rw [hreg, Option.some.injEq] at hold
            exact hold.symm
          · exact heq
        have habsent := (htouch.agrees.absent hnew).1
        rw [htouch.fd, hc, hcc] at habsent
        exact absurd rfl habsent
  · rw [Function.update_of_ne hfd]
    exact (htouch.only.same fd hfd).1

/-- The owner of the last `pollfd` is found through its descriptor, negated or not. -/
theorem channelAtEnd (h : InStep e p) {last : PollFd}
    (hlast : p.pollfds[p.pollfds.length - 1]? = some last) :
    ∃ l, p.slot l = some (p.pollfds.length - 1) ∧ p.channels (p.chans l).fd = some l ∧
      (if last.fd < 0 then -last.fd - 1 else last.fd).toNat = (p.chans l).fd := by
  obtain ⟨l, hslot, ⟨-, hfd⟩, hreg⟩ := h.owner_at hlast
  exact ⟨l, hslot, hreg, PollTable.decoded_eq (hfd.imp_right And.left)⟩

/-- A removal keeps the two in step when it takes the `pollfd` of `c` out and no channel has more
than its index changed. -/
theorem remove (h : InStep e p) (he : op.events? (e.chans c).events = none)
    (hex : e.exec (c, op) = .ok e') {pollfds : List PollFd} {chans : κ → PolledChannel}
    {slot : κ → Option ℕ} (hfd : ∀ c', (chans c').fd = (p.chans c').fd)
    (hevents : ∀ c', (chans c').events = (p.chans c').events)
    (hindex : ∀ c', 0 ≤ (p.chans c').index → 0 ≤ (chans c').index) (hnone : slot c = none)
    (hslot : ∀ c', c' ≠ c → slot c' =
      if p.channels (p.chans c').fd = some c' then some (chans c').index.toNat else none)
    (hdense : DenseTable (fun c' => (p.chans c').Fits) slot pollfds) :
    InStep e' ⟨Function.update p.channels (p.chans c).fd none, pollfds, chans⟩ := by
  obtain ⟨htouch, hnew, hold, -, -⟩ := ChannelTable.exec_remove he (h.agreed.agrees c) hex
  have hsame : ∀ c', (e'.chans c').events = (e.chans c').events := by
    intro c'
    by_cases hne : c' = c
    · rw [hne, hnew, hold]
    · rw [htouch.of_ne hne]
  have hslots := PollTable.slot_removed (fun _ => h.fd_ne) hfd hnone hslot pollfds
  refine ⟨h.agreed.touches htouch, h.idle_remove he hex, fun c' => ?_, fun c' => ?_,
    (h.channels_remove he hex).2.symm, fun c' hc' => ?_, ?_⟩
  · rw [hfd, h.fd, htouch.fd_eq]
  · rw [hevents, h.events, hsame]
  · refine hindex c' (h.index c' ?_)
    dsimp only at hc'
    rw [hfd] at hc'
    by_cases hne : c' = c
    · rw [hne, Function.update_self] at hc'
      cases hc'
    · rwa [Function.update_of_ne (h.fd_ne hne)] at hc'
  · rw [hslots]
    refine hdense.mono fun c' _ _ x hx => ?_
    unfold PolledChannel.Fits at hx ⊢
    dsimp only
    rwa [hfd, hevents]

/-- What does not depend on the index is the same when the channel of the last `pollfd` gets a new
one. -/
theorem apply_reindexed {γ : Type} (f : PolledChannel → γ) (chans : κ → PolledChannel) (l : κ) (i : ℤ)
    (hf : f { chans l with index := i } = f (chans l)) (c' : κ) :
    f (Function.update chans l { chans l with index := i } c') = f (chans c') := by
  by_cases hcl : c' = l
  · rw [hcl, Function.update_self, hf]
  · rw [Function.update_of_ne hcl]

/-- `removeChannel` takes the `pollfd` out, if its descriptor is negated. -/
theorem remove_iff (h : InStep e p) (he : op.events? (e.chans c).events = none)
    (hex : e.exec (c, op) = .ok e') :
    (p.IsNegated c → ∃ p', p.removeChannel c = .ok p' ∧ InStep e' p') ∧
      (¬ p.IsNegated c → p.removeChannel c = .error .pollfdMismatch) := by
  obtain ⟨hreg, -⟩ := h.channels_remove he hex
  obtain ⟨i, pfd, hidx, hslot, hpfd, ⟨hevents, hfd⟩, hneg⟩ := h.pollfd_eq hreg
  obtain ⟨-, -, hnone, -, -⟩ := ChannelTable.exec_remove he (h.agreed.agrees c) hex
  have hlt : i < p.pollfds.length := (List.getElem?_eq_some_iff.mp hpfd).1
  have hrange : 0 ≤ (p.chans c).index ∧ (p.chans c).index < (p.pollfds.length : ℤ) := by omega
  have hnat : (p.chans c).index.toNat = i := by rw [hidx, Int.toNat_natCast]
  have hinterest : (p.chans c).events = Channel.kNoneEvent := by rw [h.events, hnone]
  unfold PollTable.removeChannel
  dsimp only
  rw [check_of_pos hreg, check_of_pos hinterest, check_of_pos hrange]
  simp only [ok_bind, hnat, hpfd]
  refine ⟨fun hc => ?_, fun hc => ?_⟩
  · have hnegated : pfd.fd = PollTable.negated (p.chans c).fd := by
      rcases hfd with hpos | ⟨hn, -⟩
      · rw [hneg, hpos] at hc
        omega
      · exact hn
    rw [check_of_pos ⟨hnegated, hevents⟩]
    simp only [ok_bind]
    split
    · next hi =>
        refine ⟨_, rfl, h.remove he hex (fun _ => rfl) (fun _ => rfl) (fun _ hc' => hc') ?_
          (fun c' hne => ?_) (h.dense.dropLast hslot hi)⟩
        · exact Function.update_self _ _ _
        · rw [Function.update_of_ne hne]
          rfl
    · next hi =>
        -- the last `pollfd` moves into the free place, and its channel gets the index of `c`
        obtain ⟨last, hgetLast⟩ : ∃ last, p.pollfds.getLast? = some last :=
          ⟨_, List.getLast?_eq_some_getLast (List.ne_nil_of_length_pos (by omega))⟩
        have hlast : p.pollfds[p.pollfds.length - 1]? = some last := by
          rw [← List.getLast?_eq_getElem?, hgetLast]
        obtain ⟨l, hl, hlreg, hend⟩ := h.channelAtEnd hlast
        have hne : l ≠ c := by
          rintro rfl
          rw [hl, Option.some.injEq] at hslot
          exact hi hslot.symm
        have hfound : Function.update p.channels (p.chans c).fd none
            (if last.fd < 0 then -last.fd - 1 else last.fd).toNat = some l := by
          rw [hend, Function.update_of_ne (h.fd_ne hne), hlreg]
        rw [hgetLast]
        simp only [hfound]
        refine ⟨_, rfl, h.remove he hex (apply_reindexed PolledChannel.fd _ l _ rfl)
          (apply_reindexed PolledChannel.events _ l _ rfl) (fun c' hc' => ?_) ?_
          (fun c' hc' => ?_) (h.dense.swapRemove hslot hl hne hlast)⟩
        · by_cases hcl : c' = l
          · rw [hcl, Function.update_self]
            exact hrange.1
          · rwa [Function.update_of_ne hcl]
        · rw [Function.update_of_ne (Ne.symm hne), Function.update_self]
        · by_cases hcl : c' = l
          · rw [hcl, Function.update_self, Function.update_self, if_pos hlreg, hnat]
          · rw [Function.update_of_ne hcl, Function.update_of_ne hc', Function.update_of_ne hcl]
            rfl
  · have hmismatch : ¬ (pfd.fd = PollTable.negated (p.chans c).fd ∧
        pfd.events = (p.chans c).events) := by
      intro hand
      refine hc (hneg.mpr ?_)
      rw [hand.1]
      unfold PollTable.negated
      omega
    rw [check_of_neg hmismatch]
    rfl

/-! ### Steps and runs -/

/-- Where `EPoller` makes a step, `Poller` stays in step with it unless it mishandles the call. -/
theorem step (h : InStep e p) (hex : e.exec (c, op) = .ok e') (hok : ¬ p.Mishandles (c, op)) :
    ∃ p', p.exec (c, op) = .ok p' ∧ InStep e' p' := by
  unfold PollTable.Mishandles at hok
  unfold PollTable.exec
  simp only [h.events] at hok ⊢
  cases he : op.events? (e.chans c).events with
  | none =>
      simp only [he, not_not] at hok ⊢
      exact (h.remove_iff he hex).1 hok
  | some events =>
      simp only [he] at hok ⊢
      by_cases hreg : p.channels (p.chans c).fd = some c
      · rw [if_pos hreg] at hok
        obtain ⟨p', hp', hstep, -⟩ := h.update_old he hex hreg
        exact ⟨p', hp', hstep hok⟩
      · rw [if_neg hreg, not_le] at hok
        exact h.update_new he hex hreg hok

/-- A call that is mishandled trips an assert or leaves another set to watch. -/
theorem not_follows (h : InStep e p) (hex : e.exec (c, op) = .ok e') (hbad : p.Mishandles (c, op)) :
    ¬ Follows (.ok e') (p.exec (c, op)) := by
  intro hfollows
  obtain ⟨p', hp', hsame⟩ := hfollows e' rfl
  unfold PollTable.Mishandles at hbad
  unfold PollTable.exec at hp'
  simp only [h.events] at hbad hp'
  cases he : op.events? (e.chans c).events with
  | none =>
      simp only [he] at hbad hp'
      rw [(h.remove_iff he hex).2 hbad] at hp'
      cases hp'
  | some events =>
      simp only [he] at hbad hp'
      by_cases hreg : p.channels (p.chans c).fd = some c
      · rw [if_pos hreg] at hbad
        obtain ⟨p'', hp'', -, hother⟩ := h.update_old he hex hreg
        rw [hp', Except.ok.injEq] at hp''
        subst hp''
        exact hother hbad hsame
      · -- a channel that was removed has kept its index and is taken for an old one
        rw [if_neg hreg] at hbad
        unfold PollTable.updateChannel at hp'
        simp only [if_neg (not_lt.mpr hbad), check_of_neg hreg] at hp'
        cases hp'

theorem follows_iff_handles (h : InStep e p) {ops : List (κ × ChannelOp)} (hrun : e.run ops = .ok e') :
    (∀ pre, pre <+: ops → Follows (e.run pre) (p.run pre)) ↔ p.Handles ops := by
  -- induction on the calls still to come; the state of each poller after the first is the next one
  induction ops generalizing e p with
  | nil =>
      refine ⟨fun _ => trivial, fun _ pre hpre => ?_⟩
      rw [List.prefix_nil.mp hpre]
      exact fun e₁ he₁ => ⟨p, rfl, by cases he₁; exact h.sameWatched⟩
  | cons a as ih =>
      obtain ⟨c, op⟩ := a
      rw [ChannelTable.run_cons] at hrun
      obtain ⟨e₁, hex, hrest⟩ := bind_eq_ok.mp hrun
      refine ⟨fun hall => ?_, fun ⟨hok, hhandles⟩ pre hpre => ?_⟩
      · have hok : ¬ p.Mishandles (c, op) := by
          intro hbad
          refine h.not_follows hex hbad ?_
          have hone := hall [(c, op)] (List.prefix_append [(c, op)] as)
          have hlast : (p.exec (c, op) >>= fun p' => p'.run []) = p.exec (c, op) := bind_pure _
          rw [ChannelTable.run_cons, PollTable.run_cons, hex, hlast] at hone
          exact hone
        obtain ⟨p₁, hp₁, hstep⟩ := h.step hex hok
        refine ⟨hok, fun p' hp' => ?_⟩
        rw [hp₁, Except.ok.injEq] at hp'
        subst hp'
        refine (ih hstep hrest).mp fun pre hpre => ?_
        have hcons := hall ((c, op) :: pre) (List.prefix_cons_inj _ |>.mpr hpre)
        rwa [ChannelTable.run_cons, PollTable.run_cons, hex, hp₁] at hcons
      · obtain ⟨p₁, hp₁, hstep⟩ := h.step hex hok
        rcases List.prefix_cons_iff.mp hpre with rfl | ⟨pre', rfl, hpre'⟩
        · exact fun e' he' => ⟨p, rfl, by cases he'; exact h.sameWatched⟩
        · rw [ChannelTable.run_cons, PollTable.run_cons, hex, hp₁]
          exact (ih hstep hrest).mpr (hhandles p₁ hp₁) pre' hpre'

end InStep

/-- **`Poller` and `EPoller` are interchangeable** on a sequence of calls exactly when none of them is
one that `Poller` mishandles: after each of them `Poller` has tripped no assert, and both have the
kernel watch the same. -/
theorem follows_iff {fds : κ → Fd} (hfds : Function.Injective fds) {ops : List (κ × ChannelOp)}
    {e : ChannelTable κ} (hrun : (ChannelTable.new fds).run ops = .ok e) :
    (∀ pre, pre <+: ops → Follows ((ChannelTable.new fds).run pre) ((PollTable.new fds).run pre)) ↔
      (PollTable.new fds).Handles ops :=
  (InStep.new hfds).follows_iff_handles hrun

/-- Three channels; the first is disabled and taken out, and the last `pollfd` moves into its place. -/
def swappedOut : List (ℕ × ChannelOp) :=
  [(0, .enableReading), (1, .enableReading), (2, .enableReading), (2, .enableWriting),
    (0, .disableAll), (0, .disableAll), (0, .removeChannel), (2, .disableWriting)]

theorem follows_iff_swappedOut :
    ∃ e, (ChannelTable.new (· + 5)).run swappedOut = .ok e ∧
      ∀ pre, pre <+: swappedOut →
        Follows ((ChannelTable.new (· + 5)).run pre) ((PollTable.new (· + 5)).run pre) := by
  have hok : ((ChannelTable.new (· + 5)).run swappedOut).toOption.isSome = true := by
    decide +kernel
  cases hrun : (ChannelTable.new (· + 5)).run swappedOut with
  | error _ =>
      rw [hrun] at hok
      cases hok
  | ok e =>
      have hfds : Function.Injective fun c : ℕ => c + 5 := fun _ _ h => Nat.add_right_cancel h
      exact ⟨e, rfl, (follows_iff hfds hrun).mpr (by decide +kernel)⟩

def reenabled : List (ℕ × ChannelOp) := [(0, .enableReading), (0, .disableAll), (0, .enableReading)]

/-- A channel that is enabled again after `disableAll` is watched by `EPoller` only. -/
theorem not_follows_reenabled :
    ¬ Follows ((ChannelTable.new (· + 5)).run reenabled) ((PollTable.new (· + 5)).run reenabled) := by
  intro hfollows
  have hwatched : ((ChannelTable.new (· + 5)).run reenabled).toOption.any
      (fun e => e.poller.interest 5 = some (Channel.kReadEvent, 0)) = true := by decide +kernel
  have hignored : ((PollTable.new (· + 5)).run reenabled).toOption.all
      (fun p => p.pollfds.all (·.fd ≠ 5)) = true := by decide +kernel
  cases hrun : (ChannelTable.new (· + 5)).run reenabled with
  | error _ =>
      rw [hrun] at hwatched
      cases hwatched
  | ok e =>
      obtain ⟨p, hp, hsame⟩ := hfollows e hrun
      rw [hrun] at hwatched
      rw [hp] at hignored
      obtain ⟨pfd, hmem, hfd, -⟩ := (hsame 5 Channel.kReadEvent (by decide)).mp
        ⟨0, of_decide_eq_true hwatched⟩
      exact of_decide_eq_true (List.all_eq_true.mp hignored pfd hmem) hfd

end MiniMuduo
