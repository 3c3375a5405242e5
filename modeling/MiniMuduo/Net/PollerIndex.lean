import MiniMuduo.Net.Poller

/-!
# The index table of `Poller`

Any set of channels with descriptors of their own, the `Poller` they share, and every order of
`updateChannel`, `removeChannel` and `poll` calls, as long as the asserts hold. Unlike `Poller` beside
`EPoller`, the runs here include the calls that `Poller` mishandles: a channel that was enabled again
keeps its negated descriptor, and still has its place in the table.

In every state the indices of the registered channels are the positions of `pollfds_`, each once, and
the `pollfd` at the index of a channel is its own. So `removeChannel`, which moves the last `pollfd`
into the free place, finds the channel it belongs to, and `fillActiveChannels` finds the channel of
every descriptor `::poll` reports.
-/

namespace MiniMuduo

open Fallible

variable {κ : Type} [DecidableEq κ]

namespace PollTable

/-! ## Polling -/

/-- `channels_.find(fd)`. -/
def find (p : PollTable κ) (fd : ℤ) : Option κ :=
  if fd < 0 then none else p.channels fd.toNat

/-- The loop of `fillActiveChannels`, over the rest of `pollfds_`: each channel with its
`revents_`. -/
def fill (p : PollTable κ) : List PollFd → ℕ → Except PollerFault (List (κ × PollEvents))
  | [], _ => return []
  | pfd :: pfds, numEvents =>
      if numEvents = 0 then return []
      else if pfd.revents = ∅ then p.fill pfds numEvents
      else
        match p.find pfd.fd with
        | none => throw .channelAbsent
        | some c => do
            let activeChannels ← p.fill pfds (numEvents - 1)
            return (c, pfd.revents) :: activeChannels

def fillActiveChannels (p : PollTable κ) (numEvents : ℕ) :
    Except PollerFault (List (κ × PollEvents)) := p.fill p.pollfds numEvents

/-- What `::poll` leaves in `pollfds_` when `answer` says what has happened on each descriptor: a
negative descriptor is ignored, and its `revents` are `0`. -/
def polled (p : PollTable κ) (answer : Fd → PollEvents) : PollTable κ :=
  { p with
    pollfds := p.pollfds.map fun pfd =>
      { pfd with revents := if pfd.fd < 0 then ∅ else answer pfd.fd.toNat } }

/-- What `::poll` returns. -/
def numEvents (p : PollTable κ) : ℕ := p.pollfds.countP fun pfd => pfd.revents ≠ ∅

/-- `Poller::poll`. -/
def poll (p : PollTable κ) (answer : Fd → PollEvents) :
    Except PollerFault (PollTable κ × List (κ × PollEvents)) := do
  let p := p.polled answer
  let activeChannels ← p.fillActiveChannels p.numEvents
  return (p, activeChannels)

end PollTable

inductive PollerCall (κ : Type) where
  /-- `updateChannel`, with these `events_`. -/
  | updateChannel (c : κ) (events : PollEvents)
  | removeChannel (c : κ)
  | poll (answer : Fd → PollEvents)

namespace PollTable

def call (p : PollTable κ) : PollerCall κ → Except PollerFault (PollTable κ)
  | .updateChannel c events => p.updateChannel c events
  | .removeChannel c => p.removeChannel c
  | .poll answer => return (← p.poll answer).1

/-- A new `Poller` and its calls, for any channels with different descriptors. -/
def system : StepSystem (PollTable κ) (PollerCall κ) PollerFault where
  init := fun p => ∃ fds : κ → Fd, Function.Injective fds ∧ p = new fds
  enabled := fun _ _ => True
  exec := call

variable {p p' : PollTable κ} {c : κ} {events : PollEvents}

/-! ## What the calls do -/

def Registered (p : PollTable κ) (c : κ) : Prop := p.channels (p.chans c).fd = some c

theorem updateChannel_cases (h : p.updateChannel c events = .ok p') :
    ((p.chans c).index < 0 ∧ p.channels (p.chans c).fd = none ∧ p' = p.added c events) ∨
      ∃ (i : ℕ) (pfd : PollFd), p.Registered c ∧ (p.chans c).index = i ∧
        p.pollfds[i]? = some pfd ∧
        (pfd.fd = (p.chans c).fd ∨ pfd.fd = negated (p.chans c).fd) ∧
        p' = p.rewritten c events i pfd := by
  have hrun := h
  unfold updateChannel at h
  dsimp only at h
  split at h
  · next hidx =>
      obtain ⟨_, hfree, -⟩ := bind_eq_ok.mp h
      rw [check_eq_ok] at hfree
      rw [updateChannel_of_new hidx hfree, Except.ok.injEq] at hrun
      exact .inl ⟨hidx, hfree, hrun.symm⟩
  · obtain ⟨_, hreg, h⟩ := bind_eq_ok.mp h
    obtain ⟨_, hrange, h⟩ := bind_eq_ok.mp h
    rw [check_eq_ok] at hreg hrange
    have hidx : (p.chans c).index = (p.chans c).index.toNat := (Int.toNat_of_nonneg hrange.1).symm
    split at h
    · cases h
    · next pfd hpfd =>
        obtain ⟨_, hfd, -⟩ := bind_eq_ok.mp h
        rw [check_eq_ok] at hfd
        rw [updateChannel_of_old hreg hidx hpfd hfd, Except.ok.injEq] at hrun
        exact .inr ⟨_, pfd, hreg, hidx, hpfd, hfd, hrun.symm⟩

/-- The last `pollfd` is taken out, that of `c`. -/
def popped (p : PollTable κ) (c : κ) : PollTable κ :=
  { p with
    channels := Function.update p.channels (p.chans c).fd none
    pollfds := p.pollfds.dropLast }

/-- The `pollfd` of `c` is taken out, and the last one, that of `l`, takes its place. -/
def swapped (p : PollTable κ) (c l : κ) (last : PollFd) : PollTable κ where
  channels := Function.update p.channels (p.chans c).fd none
  pollfds := (p.pollfds.set (p.chans c).index.toNat last).dropLast
  chans := Function.update p.chans l { p.chans l with index := (p.chans c).index }

/-- The descriptor that the `pollfd` stands for. -/
def channelAtEnd (last : PollFd) : ℤ := if last.fd < 0 then -last.fd - 1 else last.fd

/-- The end of `removeChannel`, where the channel of the last `pollfd` is told its new index. -/
def reindex (p : PollTable κ) (c : κ) (last : PollFd) : Except PollerFault (PollTable κ) :=
  match Function.update p.channels (p.chans c).fd none (channelAtEnd last).toNat with
  | none => throw .nullChannel
  | some l => return p.swapped c l last

theorem reindex_ok {last : PollFd} (h : p.reindex c last = .ok p') :
    ∃ l, Function.update p.channels (p.chans c).fd none (channelAtEnd last).toNat = some l ∧
      p' = p.swapped c l last := by
  unfold reindex at h
  split at h
  · cases h
  · next l hl =>
      cases h
      exact ⟨l, hl, rfl⟩

theorem removeChannel_cases (h : p.removeChannel c = .ok p') :
    p.Registered c ∧ ∃ (i : ℕ) (pfd : PollFd), (p.chans c).index = i ∧ p.pollfds[i]? = some pfd ∧
      (i = p.pollfds.length - 1 ∧ p' = p.popped c ∨
        i ≠ p.pollfds.length - 1 ∧ ∃ last l, p.pollfds[p.pollfds.length - 1]? = some last ∧
          Function.update p.channels (p.chans c).fd none (channelAtEnd last).toNat = some l ∧
          p' = p.swapped c l last) := by
  obtain ⟨_, hreg, h⟩ := bind_eq_ok.mp h
  obtain ⟨_, -, h⟩ := bind_eq_ok.mp h
  obtain ⟨_, hrange, h⟩ := bind_eq_ok.mp h
  rw [check_eq_ok] at hreg hrange
  refine ⟨hreg, (p.chans c).index.toNat, ?_⟩
  split at h
  · cases h
  · next pfd hpfd =>
      obtain ⟨_, -, h⟩ := bind_eq_ok.mp h
      refine ⟨pfd, (Int.toNat_of_nonneg hrange.1).symm, hpfd, ?_⟩
      split at h
      · next hlast =>
          cases h
          exact .inl ⟨hlast, rfl⟩
      · next hlast =>
          split at h
          · cases h
          · next last hget =>
              rw [List.getLast?_eq_getElem?] at hget
              obtain ⟨l, hl, hp'⟩ := reindex_ok h
              exact .inr ⟨hlast, last, l, hget, hl, hp'⟩

theorem slot_of_registered (hreg : p.Registered c) {i : ℕ} (hidx : (p.chans c).index = i) :
    p.slot c = some i := by
  have hslot : p.slot c = some (p.chans c).index.toNat := if_pos hreg
  rw [hslot, hidx, Int.toNat_natCast]

/-! ## The invariant -/

/-- A `pollfd` with the events of its channel, and with its descriptor or that negated. -/
def Matches (ch : PolledChannel) (pfd : PollFd) : Prop :=
  pfd.events = ch.events ∧ (pfd.fd = ch.fd ∨ pfd.fd = negated ch.fd)

structure Indexed (p : PollTable κ) : Prop where
  fds : ∀ c c', (p.chans c).fd = (p.chans c').fd → c = c'
  channels : ∀ fd c, p.channels fd = some c → (p.chans c).fd = fd
  index : ∀ c, p.Registered c → 0 ≤ (p.chans c).index
  dense : DenseTable (fun c => Matches (p.chans c)) p.slot p.pollfds

namespace Indexed

theorem new {fds : κ → Fd} (h : Function.Injective fds) : Indexed (PollTable.new fds) where
  fds _ _ heq := h heq
  channels _ _ hc := by cases hc
  index _ hc := by cases hc
  dense := DenseTable.nil

theorem fd_ne (h : p.Indexed) (c' : κ) (hne : c' ≠ c) : (p.chans c').fd ≠ (p.chans c).fd :=
  fun heq => hne (h.fds c' c heq)

/-- A descriptor in the map is that of a registered channel. -/
theorem registered_of_channels (h : p.Indexed) {fd : Fd} (hc : p.channels fd = some c) :
    p.Registered c := by
  unfold Registered
  rw [h.channels fd c hc]
  exact hc

/-- Every `pollfd` is that of a registered channel. -/
theorem owner_at (h : p.Indexed) {pfd : PollFd} {i : ℕ} (hpfd : p.pollfds[i]? = some pfd) :
    ∃ c, p.slot c = some i ∧ p.Registered c ∧ Matches (p.chans c) pfd := by
  obtain ⟨c, hc⟩ := h.dense.owner i (List.getElem?_eq_some_iff.mp hpfd).1
  obtain ⟨x, hx, hfit⟩ := h.dense.entry c i hc
  rw [hpfd, Option.some.injEq] at hx
  subst hx
  refine ⟨c, hc, ?_, hfit⟩
  by_contra hreg
  have hnone : p.slot c = none := if_neg hreg
  rw [hnone] at hc
  cases hc

/-- The channel of the last `pollfd` is found through its descriptor, negated or not. -/
theorem channelAtEnd (h : p.Indexed) {last : PollFd}
    (hlast : p.pollfds[p.pollfds.length - 1]? = some last) :
    ∃ l, p.slot l = some (p.pollfds.length - 1) ∧ p.Registered l ∧
      (PollTable.channelAtEnd last).toNat = (p.chans l).fd := by
  obtain ⟨l, hslot, hreg, -, hfd⟩ := h.owner_at hlast
  exact ⟨l, hslot, hreg, decoded_eq hfd⟩

/-! ### Updates -/

/-- The table after a call that changes the entry of `c` in the map, and no descriptor. -/
theorem update (h : p.Indexed) {entry : Option κ} {pollfds : List PollFd}
    {chans : κ → PolledChannel} (hfd : ∀ c', (chans c').fd = (p.chans c').fd)
    (hentry : ∀ c', entry = some c' → c' = c ∧ 0 ≤ (chans c).index)
    (hindex : ∀ c', c' ≠ c → 0 ≤ (p.chans c').index → 0 ≤ (chans c').index)
    (hdense : DenseTable (fun c' => Matches (chans c'))
      (PollTable.slot ⟨Function.update p.channels (p.chans c).fd entry, pollfds, chans⟩) pollfds) :
    Indexed ⟨Function.update p.channels (p.chans c).fd entry, pollfds, chans⟩ := by
  refine ⟨fun c₁ c₂ heq => ?fds, fun fd c' hc' => ?channels, fun c' hc' => ?index, hdense⟩
  case fds =>
    dsimp only at heq
    rw [hfd, hfd] at heq
    exact h.fds c₁ c₂ heq
  case channels =>
    dsimp only at hc' ⊢
    rw [hfd]
    by_cases hne : fd = (p.chans c).fd
    · rw [hne, Function.update_self] at hc'
      rw [hne, (hentry c' hc').1]
    · rw [Function.update_of_ne hne] at hc'
      exact h.channels fd c' hc'
  case index =>
    unfold Registered at hc'
    dsimp only at hc' ⊢
    rw [hfd] at hc'
    by_cases hne : c' = c
    · rw [hne, Function.update_self] at hc'
      rw [hne]
      exact (hentry c hc').2
    · rw [Function.update_of_ne (h.fd_ne c' hne)] at hc'
      exact hindex c' hne (h.index c' hc')

/-- The table after a call that registers `c` at the position `i`, or leaves it there. -/
theorem registered (h : p.Indexed) {i : ℕ} {pollfds : List PollFd}
    (hdense : DenseTable
      (fun c' => Matches (Function.update p.chans c ⟨(p.chans c).fd, events, i⟩ c'))
      (Function.update p.slot c (some i)) pollfds) :
    Indexed
      ⟨Function.update p.channels (p.chans c).fd (some c), pollfds,
        Function.update p.chans c ⟨(p.chans c).fd, events, i⟩⟩ := by
  rw [← slot_registered h.fd_ne events i] at hdense
  refine h.update (fun c' => ?_) (fun c' hc' => ?_) (fun c' hne hc' => ?_) hdense
  · by_cases hne : c' = c
    · rw [hne, Function.update_self]
    · rw [Function.update_of_ne hne]
  · rw [Function.update_self]
    exact ⟨(Option.some.inj hc').symm, Int.natCast_nonneg i⟩
  · rwa [Function.update_of_ne hne]

theorem updateChannel (h : p.Indexed) (hupdate : p.updateChannel c events = .ok p') :
    p'.Indexed := by
  rcases updateChannel_cases hupdate with ⟨-, hfree, rfl⟩ | ⟨i, pfd, hreg, hidx, -, hfd, rfl⟩
  · -- a new channel: its `pollfd` is put at the end
    have hslot : p.slot c = none := by
      apply if_neg
      rw [hfree]
      exact fun hc => by cases hc
    have hold : DenseTable (fun c' => Matches ((p.added c events).chans c')) p.slot p.pollfds := by
      refine h.dense.mono fun c' i hi x hx => ?_
      have hne : c' ≠ c := by
        rintro rfl
        rw [hslot] at hi
        cases hi
      rw [added_chans_of_ne hne]
      exact hx
    apply h.registered (hold.push hslot ?_)
    rw [added_chans_self]
    exact ⟨rfl, .inl rfl⟩
  · have hslot := slot_of_registered hreg hidx
    have hmatches : Matches ⟨(p.chans c).fd, events, i⟩ (p.rewrittenFd c events pfd) := by
      unfold rewrittenFd
      split
      · exact ⟨rfl, .inr rfl⟩
      · exact ⟨rfl, hfd⟩
    have hset : DenseTable (fun c' => Matches ((p.rewritten c events i pfd).chans c')) p.slot
        (p.pollfds.set i (p.rewrittenFd c events pfd)) := by
      refine h.dense.set hslot ?_ fun c' hne x hx => ?_
      · rw [rewritten_chans_self]
        exact hmatches
      · rw [rewritten_chans_of_ne hne]
        exact hx
    have hreg' : Function.update p.channels (p.chans c).fd (some c) = p.channels := by
      rw [← show p.channels (p.chans c).fd = some c from hreg, Function.update_eq_self]
    rw [← Function.update_eq_self c p.slot, hslot] at hset
    have hindexed := h.registered hset
    rw [hreg'] at hindexed
    exact hindexed

/-! ### Removal -/

/-- The table after the `pollfd` of `c` is taken out, when no channel has more than its index
changed. -/
theorem unregistered (h : p.Indexed) {pollfds : List PollFd} {chans : κ → PolledChannel}
    {slot : κ → Option ℕ} (hfd : ∀ c', (chans c').fd = (p.chans c').fd)
    (hevents : ∀ c', (chans c').events = (p.chans c').events)
    (hindex : ∀ c', 0 ≤ (p.chans c').index → 0 ≤ (chans c').index) (hnone : slot c = none)
    (hslot : ∀ c', c' ≠ c → slot c' =
      if p.channels (p.chans c').fd = some c' then some (chans c').index.toNat else none)
    (hdense : DenseTable (fun c' => Matches (p.chans c')) slot pollfds) :
    Indexed ⟨Function.update p.channels (p.chans c).fd none, pollfds, chans⟩ := by
  refine h.update hfd (fun c' hc' => ?_) (fun c' _ => hindex c') ?_
  · cases hc'
  · rw [slot_removed h.fd_ne hfd hnone hslot pollfds]
    refine hdense.mono fun c' _ _ x hx => ?_
    unfold Matches at hx ⊢
    rwa [hfd, hevents]

/-- The channel that `removeChannel` finds is the owner of the last `pollfd`. -/
theorem slot_of_found (h : p.Indexed) {last : PollFd} {l : κ}
    (hlast : p.pollfds[p.pollfds.length - 1]? = some last)
    (hl : Function.update p.channels (p.chans c).fd none (PollTable.channelAtEnd last).toNat = some l) :
    p.slot l = some (p.pollfds.length - 1) ∧ p.Registered l ∧ l ≠ c := by
  obtain ⟨l', hslot, hreg, hfd⟩ := h.channelAtEnd hlast
  have hne : (p.chans l').fd ≠ (p.chans c).fd := by
    intro heq
    rw [hfd, heq, Function.update_self] at hl
    cases hl
  rw [hfd, Function.update_of_ne hne, show p.channels (p.chans l').fd = some l' from hreg,
    Option.some.injEq] at hl
  subst hl
  exact ⟨hslot, hreg, fun heq => hne (heq ▸ rfl)⟩

theorem removeChannel (h : p.Indexed) (hremove : p.removeChannel c = .ok p') : p'.Indexed := by
  obtain ⟨hreg, i, pfd, hidx, -, hcases⟩ := removeChannel_cases hremove
  have hslot := slot_of_registered hreg hidx
  have hnat : (p.chans c).index.toNat = i := by rw [hidx, Int.toNat_natCast]
  rcases hcases with ⟨hi, rfl⟩ | ⟨-, last, l, hlast, hl, rfl⟩
  · apply h.unregistered (fun _ => rfl) (fun _ => rfl) (fun _ hc' => hc') ?_ (fun c' hne => ?_)
      (h.dense.dropLast hslot hi)
    · exact Function.update_self _ _ _
    · rw [Function.update_of_ne hne]
      rfl
  · obtain ⟨hlslot, hlreg, hne⟩ := h.slot_of_found hlast hl
    have hdense := h.dense.swapRemove hslot hlslot hne hlast
    rw [← hnat] at hdense
    have hfd := InStep.apply_reindexed PolledChannel.fd p.chans l (p.chans c).index rfl
    have hevents := InStep.apply_reindexed PolledChannel.events p.chans l (p.chans c).index rfl
    refine h.unregistered hfd hevents (fun c' hc' => ?_) ?_ (fun c' hc' => ?_) hdense
    · by_cases hcl : c' = l
      · rw [hcl, Function.update_self]
        exact h.index c hreg
      · rwa [Function.update_of_ne hcl]
    · rw [Function.update_of_ne (Ne.symm hne), Function.update_self]
    · by_cases hcl : c' = l
      · rw [hcl, Function.update_self, Function.update_self]
        exact (if_pos hlreg).symm
      · rw [Function.update_of_ne hcl, Function.update_of_ne hc', Function.update_of_ne hcl]
        rfl

/-- There is a channel to find when a `pollfd` moves. -/
theorem exists_found (h : p.Indexed) (hreg : p.Registered c)
    (hi : (p.chans c).index.toNat ≠ p.pollfds.length - 1) {last : PollFd}
    (hlast : p.pollfds[p.pollfds.length - 1]? = some last) :
    ∃ l, Function.update p.channels (p.chans c).fd none (PollTable.channelAtEnd last).toNat =
      some l := by
  obtain ⟨l, hslot, hlreg, hfd⟩ := h.channelAtEnd hlast
  have hne : l ≠ c := by
    rintro rfl
    have hslot' : p.slot l = some (p.chans l).index.toNat := if_pos hreg
    rw [hslot, Option.some.injEq] at hslot'
    exact hi hslot'.symm
  refine ⟨l, ?_⟩
  rw [hfd, Function.update_of_ne (h.fd_ne l hne)]
  exact hlreg

/-- No channel is missing when the last `pollfd` moves. -/
theorem removeChannel_ne_nullChannel (h : p.Indexed) (c : κ) :
    p.removeChannel c ≠ .error .nullChannel := by
  have hfails : FailsWith (· ≠ .nullChannel) (p.removeChannel c) := by
    unfold PollTable.removeChannel
    refine (failsWith_check (by decide)).bind fun _ hreg => ?_
    refine (failsWith_check (by decide)).bind fun _ _ => ?_
    refine (failsWith_check (by decide)).bind fun _ _ => ?_
    rw [check_eq_ok] at hreg
    split
    · exact failsWith_throw (by decide)
    · refine (failsWith_check (by decide)).bind fun _ _ => ?_
      split
      · exact failsWith_pure _
      · next hi =>
          split
          · exact failsWith_throw (by decide)
          · next last hget =>
              rw [List.getLast?_eq_getElem?] at hget
              obtain ⟨l, hl⟩ := h.exists_found hreg hi hget
              change FailsWith _ (p.reindex c last)
              rw [reindex, hl]
              exact failsWith_pure _
  exact fun herror => hfails _ herror rfl

theorem index_of_slot (h : p.Indexed) {i : ℕ} (hslot : p.slot c = some i) :
    p.Registered c ∧ (p.chans c).index = i := by
  unfold slot at hslot
  split at hslot
  · next hreg =>
      rw [Option.some.injEq] at hslot
      exact ⟨hreg, by rw [← hslot, Int.toNat_of_nonneg (h.index c hreg)]⟩
  · cases hslot

/-- Of the other channels, `removeChannel` gives the one at the end the free index. -/
theorem index_of_removeChannel (h : p.Indexed) (hremove : p.removeChannel c = .ok p') {c' : κ}
    (hne : c' ≠ c) (hreg' : p.Registered c') :
    p'.Registered c' ∧ (p'.chans c').index =
      if (p.chans c').index = (p.pollfds.length - 1 : ℕ) then (p.chans c).index
      else (p.chans c').index := by
  obtain ⟨hreg, i, pfd, hidx, -, hcases⟩ := removeChannel_cases hremove
  have hslot := slot_of_registered hreg hidx
  have hkept : Function.update p.channels (p.chans c).fd none (p.chans c').fd = some c' := by
    rw [Function.update_of_ne (h.fd_ne c' hne)]
    exact hreg'
  rcases hcases with ⟨hi, rfl⟩ | ⟨-, last, l, hlast, hl, rfl⟩
  · refine ⟨hkept, (if_neg fun heq => ?_).symm⟩
    rw [← hi] at heq
    exact hne (h.dense.unique c' c i (slot_of_registered hreg' heq) hslot)
  · obtain ⟨hlslot, hlreg, -⟩ := h.slot_of_found hlast hl
    by_cases hcl : c' = l
    · subst hcl
      have hself : (p.swapped c c' last).chans c' = _ := Function.update_self c' _ p.chans
      refine ⟨?_, ?_⟩
      · unfold Registered
        rw [hself]
        exact hkept
      · rw [hself, if_pos (h.index_of_slot hlslot).2]
    · have hsame : (p.swapped c l last).chans c' = p.chans c' := Function.update_of_ne hcl _ _
      refine ⟨?_, ?_⟩
      · unfold Registered
        rw [hsame]
        exact hkept
      · rw [hsame, if_neg]
        exact fun heq => hcl (h.dense.unique c' l _ (slot_of_registered hreg' heq) hlslot)

/-! ### Polling -/

theorem polled (h : p.Indexed) (answer : Fd → PollEvents) : (p.polled answer).Indexed :=
  ⟨h.fds, h.channels, h.index, h.dense.map fun _ _ hx => hx⟩

/-- A descriptor that `::poll` looks at is found in the map. -/
theorem find_of_mem (h : p.Indexed) {pfd : PollFd} (hmem : pfd ∈ p.pollfds) (hfd : ¬ pfd.fd < 0) :
    ∃ c, p.find pfd.fd = some c ∧ p.Registered c ∧ pfd.fd = (p.chans c).fd := by
  obtain ⟨i, hpfd⟩ := List.mem_iff_getElem?.mp hmem
  obtain ⟨c, -, hreg, -, hcases⟩ := h.owner_at hpfd
  have heq : pfd.fd = (p.chans c).fd := by
    rcases hcases with hpos | hneg
    · exact hpos
    · rw [hneg, negated] at hfd
      omega
  refine ⟨c, ?_, hreg, heq⟩
  rw [find, if_neg hfd, heq, Int.toNat_natCast]
  exact hreg

omit [DecidableEq κ] in
theorem fill_zero (p : PollTable κ) (pfds : List PollFd) : p.fill pfds 0 = .ok [] := by
  cases pfds <;> rfl

omit [DecidableEq κ] in
/-- The loop passes over a `pollfd` that is not reported. -/
theorem fill_skip {pfd : PollFd} (hrev : pfd.revents = ∅) (pfds : List PollFd) (n : ℕ) :
    p.fill (pfd :: pfds) n = p.fill pfds n := by
  rw [fill]
  by_cases hn : n = 0
  · rw [if_pos hn, hn, fill_zero]
    rfl
  · rw [if_neg hn, if_pos hrev]

/-- The loop of `fillActiveChannels` finds what is reported, if `numEvents` counts it. -/
theorem fill_ok (h : p.Indexed) {pfds : List PollFd} {n : ℕ}
    (hsub : ∀ pfd ∈ pfds, pfd ∈ p.pollfds ∧ (pfd.fd < 0 → pfd.revents = ∅))
    (hn : pfds.countP (fun pfd => pfd.revents ≠ ∅) ≤ n) :
    ∃ activeChannels, p.fill pfds n = .ok activeChannels ∧
      ∀ pfd ∈ pfds, pfd.revents ≠ ∅ →
        ∃ c, p.Registered c ∧ pfd.fd = (p.chans c).fd ∧ (c, pfd.revents) ∈ activeChannels := by
  induction pfds generalizing n with
  | nil => exact ⟨[], rfl, fun _ hmem => absurd hmem List.not_mem_nil⟩
  | cons pfd pfds ih =>
      have hrest := fun x hx => hsub x (List.mem_cons_of_mem pfd hx)
      obtain ⟨hmem, hneg⟩ := hsub pfd List.mem_cons_self
      rw [List.countP_cons] at hn
      by_cases hrev : pfd.revents = ∅
      · rw [if_neg (by simpa using hrev), Nat.add_zero] at hn
        obtain ⟨activeChannels, hfill, hfound⟩ := ih hrest hn
        refine ⟨activeChannels, (fill_skip hrev pfds n).trans hfill, fun x hx hreported => ?_⟩
        rcases List.mem_cons.mp hx with rfl | hx
        · exact absurd hrev hreported
        · exact hfound x hx hreported
      · rw [if_pos (by simpa using hrev)] at hn
        obtain ⟨activeChannels, hfill, hfound⟩ := ih (n := n - 1) hrest (by omega)
        obtain ⟨c, hfind, hreg, hfd⟩ := h.find_of_mem hmem fun hlt => hrev (hneg hlt)
        refine ⟨(c, pfd.revents) :: activeChannels, ?_, fun x hx hreported => ?_⟩
        · rw [fill, if_neg (by omega), if_neg hrev, hfind]
          simp only [hfill, ok_bind]
          rfl
        · rcases List.mem_cons.mp hx with rfl | hx
          · exact ⟨c, hreg, hfd, List.mem_cons_self⟩
          · obtain ⟨c', hreg', hfd', hactive⟩ := hfound x hx hreported
            exact ⟨c', hreg', hfd', List.mem_cons_of_mem _ hactive⟩

/-- In a state in order, polling goes well and finds the channel of every reported descriptor. -/
theorem poll_ok (h : p.Indexed) (answer : Fd → PollEvents) :
    ∃ activeChannels, p.poll answer = .ok (p.polled answer, activeChannels) ∧
      ∀ pfd ∈ (p.polled answer).pollfds, pfd.revents ≠ ∅ →
        ∃ c, p.Registered c ∧ pfd.fd = (p.chans c).fd ∧ (c, pfd.revents) ∈ activeChannels := by
  have hsub : ∀ pfd ∈ (p.polled answer).pollfds,
      pfd ∈ (p.polled answer).pollfds ∧ (pfd.fd < 0 → pfd.revents = ∅) := by
    intro pfd hmem
    refine ⟨hmem, fun hlt => ?_⟩
    obtain ⟨old, -, rfl⟩ := List.mem_map.mp hmem
    exact if_pos hlt
  obtain ⟨activeChannels, hfill, hfound⟩ := (h.polled answer).fill_ok hsub (le_refl _)
  refine ⟨activeChannels, ?_, hfound⟩
  unfold PollTable.poll fillActiveChannels numEvents
  simp only [hfill, ok_bind]
  rfl

end Indexed

/-! ## In every run -/

theorem indexed_of_reachable (h : system.Reachable p) : p.Indexed := by
  apply h.invariant
  · rintro p ⟨fds, hfds, rfl⟩
    exact Indexed.new hfds
  · rintro p call p' _ hindexed - ⟨-, hexec⟩
    cases call with
    | updateChannel c events => exact hindexed.updateChannel hexec
    | removeChannel c => exact hindexed.removeChannel hexec
    | poll answer =>
        obtain ⟨activeChannels, hpoll, -⟩ := hindexed.poll_ok answer
        change (do return (← p.poll answer).1) = .ok p' at hexec
        rw [hpoll] at hexec
        cases hexec
        exact hindexed.polled answer

/-- The indices of the registered channels are the positions of `pollfds_`, each once; `channels_`
has the descriptors of the channels, and the `pollfd` at the index of a channel is its own. -/
structure IndexTable (p : PollTable κ) : Prop where
  range : ∀ c, p.Registered c → 0 ≤ (p.chans c).index ∧ (p.chans c).index < p.pollfds.length
  distinct : ∀ c c', p.Registered c → p.Registered c' →
    (p.chans c).index = (p.chans c').index → c = c'
  onto : ∀ i : ℕ, i < p.pollfds.length → ∃ c, p.Registered c ∧ (p.chans c).index = i
  channels : ∀ fd c, p.channels fd = some c → p.Registered c ∧ (p.chans c).fd = fd
  pollfd : ∀ c, p.Registered c → ∃ pfd, p.pollfds[(p.chans c).index.toNat]? = some pfd ∧
    (pfd.fd = (p.chans c).fd ∨ pfd.fd = -((p.chans c).fd : ℤ) - 1) ∧
    pfd.events = (p.chans c).events

theorem Indexed.indexTable (h : p.Indexed) : p.IndexTable := by
  have hslot : ∀ c, p.Registered c → p.slot c = some (p.chans c).index.toNat :=
    fun c hreg => if_pos hreg
  refine ⟨fun c hreg => ⟨h.index c hreg, ?range⟩, fun c c' hreg hreg' heq => ?distinct,
    fun i hi => ?onto, fun fd c hc => ⟨h.registered_of_channels hc, h.channels fd c hc⟩,
    fun c hreg => ?pollfd⟩
  case range =>
    have hlt := h.dense.lt_length (hslot c hreg)
    have hnonneg := h.index c hreg
    omega
  case distinct =>
    apply h.dense.unique c c' _ (hslot c hreg)
    rw [hslot c' hreg', heq]
  case onto =>
    obtain ⟨c, hc⟩ := h.dense.owner i hi
    exact ⟨c, h.index_of_slot hc⟩
  case pollfd =>
    obtain ⟨pfd, hpfd, hevents, hfd⟩ := h.dense.entry c _ (hslot c hreg)
    exact ⟨pfd, hpfd, hfd, hevents⟩

/-- **The index table of `Poller` is a bijection** in every state, whatever the order of the calls.
A removal finds the channel whose `pollfd` it moves and gives it, and no other one, the free index;
and `poll` finds the channel of every descriptor that is reported. -/
theorem index_table (h : system.Reachable p) :
    p.IndexTable ∧
      (∀ c, p.removeChannel c ≠ .error .nullChannel ∧
        ∀ p', p.removeChannel c = .ok p' → ∀ c', c' ≠ c → p.Registered c' →
          p'.Registered c' ∧ (p'.chans c').index =
            if (p.chans c').index = (p.pollfds.length - 1 : ℕ) then (p.chans c).index
            else (p.chans c').index) ∧
      ∀ answer, ∃ activeChannels, p.poll answer = .ok (p.polled answer, activeChannels) ∧
        ∀ pfd ∈ (p.polled answer).pollfds, pfd.revents ≠ ∅ →
          ∃ c, p.Registered c ∧ pfd.fd = (p.chans c).fd ∧ (c, pfd.revents) ∈ activeChannels := by
  have hindexed := indexed_of_reachable h
  refine ⟨hindexed.indexTable, fun c => ⟨hindexed.removeChannel_ne_nullChannel c, ?_⟩,
    hindexed.poll_ok⟩
  exact fun p' hremove c' hne hreg => hindexed.index_of_removeChannel hremove hne hreg

/-- Three channels; the second one, disabled and enabled again, is moved by the removal of the
first. -/
def movedCalls : List (PollerCall (Fin 3)) :=
  [.updateChannel 0 {.POLLIN}, .updateChannel 2 {.POLLIN}, .updateChannel 1 {.POLLIN},
    .updateChannel 1 ∅, .updateChannel 1 {.POLLOUT}, .poll fun _ => {.POLLIN},
    .updateChannel 0 ∅, .removeChannel 0]

instance (p : PollTable κ) (call : PollerCall κ) : Decidable (system.enabled p call) :=
  inferInstanceAs (Decidable True)

theorem index_table_movedCalls :
    ∃ p : PollTable (Fin 3), system.Reachable p ∧ (p.chans 1).index = 0 ∧
      p.pollfds.map PollFd.fd = [-7, 7] ∧ p.IndexTable := by
  have hfds : Function.Injective fun c : Fin 3 => c.val + 5 := by
    intro c c' heq
    exact Fin.ext (Nat.add_right_cancel heq)
  obtain ⟨p, hp, htest⟩ := StepSystem.exists_reachableVia_of_runFrom? (fun _ _ => True) movedCalls
    (M := system) (s := PollTable.new fun c : Fin 3 => c.val + 5)
    (p := fun p => decide ((p.chans 1).index = 0 ∧ p.pollfds.map PollFd.fd = [-7, 7]))
    ⟨_, hfds, rfl⟩ (by decide +kernel)
  have htest' := of_decide_eq_true htest
  exact ⟨p, hp, htest'.1, htest'.2, (index_table hp).1⟩

end PollTable

end MiniMuduo
