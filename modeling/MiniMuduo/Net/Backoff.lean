import Mathlib.Algebra.Group.Nat.Defs
import MiniMuduo.Net.Reconnecting

/-!
# How fast a connector retries

`retry` doubles `retryDelayMs_`, up to `kMaxRetryDelayMs`. While a connector is left to itself, neither
started nor restarted, and the clock is not set back, its attempts are apart by at least these delays
(`paced`): `m + 1` attempts take the time of the first `m` delays, whatever the kernel and the callbacks
of the loop do. In particular a peer that refuses at once does not make the loop spin.
-/

namespace MiniMuduo

open Fallible

/-- The delay after `n` retries, from the delay `d` on. -/
def backoff (d n : ℕ) : ℕ := min (d * 2 ^ n) Connector.kMaxRetryDelayMs

/-- The time that the first `m` delays take, in microseconds. -/
def backoffTime (d : ℕ) : ℕ → ℕ
  | 0 => 0
  | m + 1 => backoffTime d m + backoff d m * 1000

theorem backoff_mono (d : ℕ) {m n : ℕ} (h : m ≤ n) : backoff d m ≤ backoff d n :=
  min_le_min_right _ (Nat.mul_le_mul_left d (Nat.pow_le_pow_right Nat.two_pos h))

/-- Doubling up to the maximum. -/
theorem backoff_succ (d n : ℕ) :
    min (backoff d n * 2) Connector.kMaxRetryDelayMs = backoff d (n + 1) := by
  have hpow : d * 2 ^ (n + 1) = d * 2 ^ n * 2 := by
    rw [Nat.pow_succ, Nat.mul_assoc]
  unfold backoff
  rw [hpow]
  omega

theorem backoffTime_mono (d : ℕ) : Monotone (backoffTime d) :=
  monotone_nat_of_le_succ fun m => Nat.le_add_right _ (backoff d m * 1000)

namespace ConnectorSession

variable {s₀ s s' b : ConnectorSession} {k : Answers} {n : Sock} {a : ConnectorAction}
  {t : ConnectorTask} {ts : List ConnectorTask} {channel : ConnectorChannel}

/-- The attempts that were made. -/
def attempts (s : ConnectorSession) : ℕ := s.nextSock

/-- The attempts that `retry` put off. -/
def retries (s : ConnectorSession) : ℕ := s.history.count .runAfter

/-- The connector is left to itself. -/
def ByItself (_ : ConnectorSession) (a : ConnectorAction) : Prop :=
  (∀ inLoop k, a ≠ .start inLoop k) ∧ ∀ k, a ≠ .restart k

/-- The clock of `get_now()`, which is the system clock, has not been set back before the step. -/
def ClockSteady (s : ConnectorSession) : ConnectorAction → Prop
  | .task k | .start _ k | .restart k => s.clock ≤ k.now
  | _ => True

/-- What the connector has done since `s₀`, and when it will go on. -/
structure Paced (s₀ s : ConnectorSession) : Prop where
  clock : s₀.clock ≤ s.clock
  sockets : s₀.attempts ≤ s.attempts
  retries : s₀.retries ≤ s.retries
  delay : s.connector.retryDelayMs = backoff s₀.connector.retryDelayMs (s.retries - s₀.retries)
  turns : s.attempts + s.waiting ≤ s₀.attempts + (s.retries - s₀.retries) + 1
  opened : ∀ m, s.attempts = s₀.attempts + m + 1 →
    s₀.clock + backoffTime s₀.connector.retryDelayMs m ≤ s.clock
  timers : ∀ m, s.attempts = s₀.attempts + m + 1 → ∀ t ∈ s.timers,
    s₀.clock + backoffTime s₀.connector.retryDelayMs (m + 1) ≤ t.expiration
  expired : ∀ m, s.attempts = s₀.attempts + m + 1 → ∀ t, .retryTimer t ∈ s.todo →
    s₀.clock + backoffTime s₀.connector.retryDelayMs (m + 1) ≤ s.clock
  queued : s₀.attempts < s.attempts → .startInLoop ∉ s.functors

/-- A step that opens no socket and puts nothing off. -/
theorem Paced.quiet (h : Paced s₀ s) (hsock : s'.attempts = s.attempts)
    (hretries : s'.retries = s.retries)
    (hdelay : s'.connector.retryDelayMs = s.connector.retryDelayMs) (hclock : s.clock ≤ s'.clock)
    (hwaiting : s'.waiting ≤ s.waiting) (htimers : ∀ t ∈ s'.timers, t ∈ s.timers)
    (htasks : ∀ t, .retryTimer t ∈ s'.todo →
      .retryTimer t ∈ s.todo ∨ t ∈ s.timers ∧ t.expiration ≤ s'.clock)
    (hfunctors : .startInLoop ∈ s'.functors → .startInLoop ∈ s.functors) : Paced s₀ s' := by
  constructor
  case clock => exact h.clock.trans hclock
  case sockets => exact hsock ▸ h.sockets
  case retries => exact hretries ▸ h.retries
  case delay => rw [hdelay, hretries, h.delay]
  case turns =>
    rw [hsock, hretries]
    exact (Nat.add_le_add_left hwaiting _).trans h.turns
  case opened => exact fun m hm => (h.opened m (hsock ▸ hm)).trans hclock
  case timers => exact fun m hm t ht => h.timers m (hsock ▸ hm) t (htimers t ht)
  case expired =>
    intro m hm t ht
    rcases htasks t ht with ht | ⟨ht, hle⟩
    · exact (h.expired m (hsock ▸ hm) t ht).trans hclock
    · exact (h.timers m (hsock ▸ hm) t ht).trans hle
  case queued => exact fun hlt hmem => h.queued (hsock ▸ hlt) (hfunctors hmem)

/-- What `retry` does to the schedule. -/
theorem retry_schedule (s : ConnectorSession) (n : Sock) (k : Answers) :
    (s.retry n k).attempts = s.attempts ∧ (s.retry n k).clock = s.clock ∧
      (s.retry n k).todo = s.todo ∧ (s.retry n k).functors = s.functors ∧
      ((s.retry n k).retries = s.retries + 1 ∧
          (s.retry n k).connector.retryDelayMs =
            min (s.connector.retryDelayMs * 2) Connector.kMaxRetryDelayMs ∧
          (s.retry n k).timers =
            s.timers ++ [⟨s.nextSequence, k.now + s.connector.retryDelayMs * 1000⟩] ∨
        (s.retry n k).retries = s.retries ∧
          (s.retry n k).connector.retryDelayMs = s.connector.retryDelayMs ∧
          (s.retry n k).timers = s.timers) := by
  unfold retry
  dsimp only
  split
  · exact ⟨rfl, rfl, rfl, rfl, .inl ⟨by simp [ConnectorSession.retries, runAfter, setState, note],
      rfl, rfl⟩⟩
  · exact ⟨rfl, rfl, rfl, rfl, .inr ⟨by simp [ConnectorSession.retries, setState, note], rfl, rfl⟩⟩

theorem not_mem_of_waiting (h : s.waiting = 0) :
    s.timers = [] ∧ (∀ t, .retryTimer t ∉ s.todo) ∧ .startInLoop ∉ s.functors := by
  unfold waiting at h
  refine ⟨List.length_eq_zero_iff.mp (by omega), fun t ht => ?_, List.count_eq_zero.mp (by omega)⟩
  have hnone : s.todo.countP ConnectorTask.isRetryTimer = 0 := by omega
  exact absurd rfl (List.countP_eq_zero.mp hnone _ ht)

/-- `retry` puts off the next attempt, when no other waits. -/
theorem Paced.retry (h : Paced s₀ s) (hzero : s.waiting = 0) (hnow : k.now = s.clock) :
    Paced s₀ (s.retry n k) := by
  obtain ⟨hsock, hclock, htodo, hfunctors, hcases⟩ := retry_schedule s n k
  obtain ⟨hnone, htasks, hstart⟩ := not_mem_of_waiting hzero
  rcases hcases with ⟨hretries, hdelay, htimers⟩ | ⟨hretries, hdelay, htimers⟩
  · have hle := h.retries
    have hturns := h.turns
    have hwaiting := waiting_retry_le s n k
    have hr : s.retries + 1 - s₀.retries = s.retries - s₀.retries + 1 := by omega
    constructor
    case clock => exact hclock ▸ h.clock
    case sockets => exact hsock ▸ h.sockets
    case retries =>
      omega
    case delay => rw [hdelay, hretries, hr, h.delay, backoff_succ]
    case turns => omega
    case opened => exact fun m hm => hclock ▸ h.opened m (hsock ▸ hm)
    case timers =>
      intro m hm t ht
      rw [htimers, hnone, List.nil_append, List.mem_singleton] at ht
      subst ht
      have hopened := h.opened m (hsock ▸ hm)
      -- no more attempts were made than put off
      have hmono := backoff_mono s₀.connector.retryDelayMs
        (show m ≤ s.retries - s₀.retries by omega)
      show _ ≤ k.now + s.connector.retryDelayMs * 1000
      rw [h.delay, hnow, backoffTime, ← Nat.add_assoc]
      exact Nat.add_le_add hopened (Nat.mul_le_mul_right _ hmono)
    case expired => exact fun m hm t ht => absurd (htodo ▸ ht) (htasks t)
    case queued => exact fun _ hmem => hstart (hfunctors ▸ hmem)
  · exact h.quiet hsock hretries hdelay hclock.ge (by
        unfold waiting
        rw [htimers, htodo, hfunctors])
      (fun t ht => htimers ▸ ht) (fun t ht => .inl (htodo ▸ ht)) fun hmem => hfunctors ▸ hmem

/-- The connector is about to make an attempt. -/
structure Ready (s₀ s : ConnectorSession) : Prop where
  clock : s₀.clock ≤ s.clock
  sockets : s₀.attempts ≤ s.attempts
  retries : s₀.retries ≤ s.retries
  delay : s.connector.retryDelayMs = backoff s₀.connector.retryDelayMs (s.retries - s₀.retries)
  turns : s.attempts ≤ s₀.attempts + (s.retries - s₀.retries)
  idle : s.waiting = 0
  due : ∀ m, s.attempts = s₀.attempts + m →
    s₀.clock + backoffTime s₀.connector.retryDelayMs m ≤ s.clock

theorem Ready.toPaced (h : Ready s₀ s) : Paced s₀ s := by
  obtain ⟨hnone, htasks, hstart⟩ := not_mem_of_waiting h.idle
  constructor
  case clock => exact h.clock
  case sockets => exact h.sockets
  case retries => exact h.retries
  case delay => exact h.delay
  case turns =>
    rw [h.idle]
    exact h.turns.trans (Nat.le_succ _)
  case opened =>
    intro m hm
    refine le_trans (Nat.add_le_add_left ?_ _) (h.due (m + 1) hm)
    exact backoffTime_mono _ (Nat.le_succ m)
  case timers => exact fun m _ t ht => absurd (hnone ▸ ht) List.not_mem_nil
  case expired => exact fun m _ t ht => absurd ht (htasks t)
  case queued => exact fun _ => hstart

theorem Ready.socket (h : Ready s₀ s) : Paced s₀ s.socket := by
  have hretries : s.socket.retries = s.retries := by
    simp [ConnectorSession.retries, ConnectorSession.socket, note]
  obtain ⟨hnone, htasks, hstart⟩ := not_mem_of_waiting h.idle
  have hidle : s.socket.waiting = 0 := h.idle
  have hsockets := h.sockets
  constructor
  case clock => exact h.clock
  case sockets => exact hsockets.trans (Nat.le_succ _)
  case retries => exact hretries ▸ h.retries
  case delay => exact hretries ▸ h.delay
  case turns =>
    rw [hidle, hretries]
    exact Nat.succ_le_succ h.turns
  case opened => exact fun m hm => h.due m (Nat.succ_injective hm)
  case timers =>
    intro m _ t ht
    have ht' : t ∈ s.timers := ht
    rw [hnone] at ht'
    cases ht'
  case expired => exact fun m _ t ht => absurd ht (htasks t)
  case queued => exact fun _ => hstart

theorem Ready.tries (h : Ready s₀ s) (hnow : k.now = s.clock) (htries : s.Tries k s') :
    Paced s₀ s' := by
  have hopen := h.socket
  cases htries with
  | idle _ => exact h.toPaced
  | connecting _ _ =>
      exact hopen.quiet rfl rfl rfl (Nat.le_refl _) (Nat.le_refl _) (fun _ ht => ht)
        (fun _ ht => .inl ht) id
  | retry _ => exact hopen.retry h.idle hnow
  | close _ =>
      exact hopen.quiet rfl (by simp [ConnectorSession.retries, note]) rfl (Nat.le_refl _)
        (Nat.le_refl _) (fun _ ht => ht) (fun _ ht => .inl ht) id

/-- Taking the next task. -/
theorem Paced.pop (h : Paced s₀ s) (htodo : s.todo = t :: ts) (hclock : s.clock ≤ k.now) :
    Paced s₀ (s.pop ts k) :=
  h.quiet rfl rfl rfl hclock (waiting_pop_le htodo) (fun _ ht => ht)
    (fun _ ht => .inl (htodo ▸ List.mem_cons_of_mem _ ht))
    fun hmem => (functors_pop_sublist htodo).subset hmem

/-- A waiting `startInLoop` is due when it runs. -/
theorem Paced.ready (h : Paced s₀ s) (hsingle : s.Single) (hclock : s.clock ≤ k.now)
    (hby : s.ByItself a) (hstarts : s.Starts k a b) : Ready s₀ b := by
  have hone := hsingle.atMostOne
  have hturns := h.turns
  have hmain : ∀ t ts, s.todo = t :: ts → s.waiting = (s.pop ts k).waiting + 1 →
      (∀ m, s.attempts = s₀.attempts + m + 1 →
        s₀.clock + backoffTime s₀.connector.retryDelayMs (m + 1) ≤ k.now) → Ready s₀ (s.pop ts k) := by
    intro t ts htodo hwaiting hdue
    refine ⟨h.clock.trans hclock, h.sockets, h.retries, h.delay, ?_, by omega, fun m hm => ?_⟩
    · show s.attempts ≤ s₀.attempts + (s.retries - s₀.retries)
      omega
    · have hm' : s.attempts = s₀.attempts + m := hm
      cases m with
      | zero => exact h.clock.trans hclock
      | succ m => exact hdue m hm'
  cases hstarts with
  | retryTimer htodo =>
      refine hmain _ _ htodo (waiting_pop_retryTimer htodo) fun m hm => ?_
      exact (h.expired m hm _ (htodo ▸ List.mem_cons_self)).trans hclock
  | functor htodo =>
      refine hmain _ _ htodo (waiting_pop_startInLoop htodo) fun m hm => absurd ?_ (h.queued ?_)
      · unfold functors
        rw [htodo]
        exact List.mem_cons_self
      · omega
  | start => exact absurd rfl (hby.1 true k)
  | restart => exact absurd rfl (hby.2 k)

theorem Paced.finishes (h : Paced s₀ s) (hzero : s.waiting = 0) (hnow : k.now = s.clock)
    (hfinishes : s.Finishes channel k s') : Paced s₀ s' := by
  have hremoved : Paced s₀ (s.removed channel) := by
    refine h.quiet rfl rfl rfl (Nat.le_refl _) (waiting_removed s channel).le (fun _ ht => ht)
      (fun _ ht => .inl ht) fun hmem => ?_
    simpa [functors, removed, queueInLoop, setChannel] using hmem
  have hnote : ∀ e, e ≠ .runAfter → ∀ state,
      (((s.removed channel).setState state).note e).retries = s.retries := by
    intro e he state
    simp [ConnectorSession.retries, setState, note, removed, setChannel, queueInLoop, he]
  cases hfinishes with
  | idle => exact h
  | retry => exact hremoved.retry ((waiting_removed s channel).trans hzero) hnow
  | newConnection _ =>
      exact hremoved.quiet rfl (hnote (.newConnectionCallback _) (by simp) .kConnected) rfl
        (Nat.le_refl _) (Nat.le_refl _) (fun _ ht => ht) (fun _ ht => .inl ht) id
  | close _ =>
      exact hremoved.quiet rfl (hnote (.close _) (by simp) .kConnected) rfl (Nat.le_refl _)
        (Nat.le_refl _) (fun _ ht => ht) (fun _ ht => .inl ht) id

theorem Paced.move (h : Paced s₀ s) (hsingle : s.Single) (hclock : s.ClockSteady a)
    (hby : s.ByItself a) (hmove : s.Move a s') : Paced s₀ s' := by
  cases hmove with
  | poll _ htodo _ _ =>
      refine h.quiet rfl rfl rfl (Nat.le_refl _) (waiting_poll htodo).le (fun _ ht => ht)
        (fun t ht => ?_) fun hmem => functors_poll htodo ▸ hmem
      obtain ⟨⟨c, revents⟩, -, hc⟩ := List.mem_map.mp ht
      cases c <;> cases hc
  | event htodo hstate _ hfinishes =>
      have hzero := hsingle.eq_zero (by simp [hstate])
      exact (h.pop htodo hclock).finishes (Nat.le_zero.mp (hzero ▸ waiting_pop_le htodo)) rfl hfinishes
  | @timerfd k ts htodo =>
      refine (h.pop htodo hclock).quiet rfl rfl rfl (Nat.le_refl _) (waiting_handleTimerfd _ _).le
        (fun t ht => (List.mem_filter.mp ht).1) (fun t ht => ?_)
        fun hmem => functors_handleTimerfd (s.pop ts k) k ▸ hmem
      rcases List.mem_append.mp ht with ht | ht
      · obtain ⟨t', ht', heq⟩ := List.mem_map.mp ht
        cases heq
        obtain ⟨hmem, hle⟩ := List.mem_filter.mp ht'
        exact .inr ⟨hmem, of_decide_eq_true hle⟩
      · exact .inl ht
  | connection htodo _ => exact h.pop htodo hclock
  | removeConnection htodo _ _ =>
      exact (h.pop htodo hclock).quiet rfl rfl rfl (Nat.le_refl _) (Nat.le_refl _)
        (fun _ ht => ht) (fun _ ht => .inl ht) id
  | resetChannel htodo =>
      exact (h.pop htodo hclock).quiet rfl rfl rfl (Nat.le_refl _) (Nat.le_refl _)
        (fun _ ht => ht) (fun _ ht => .inl ht) id
  | cancelInLoop htodo =>
      exact (h.pop htodo hclock).quiet rfl rfl rfl (Nat.le_refl _) (waiting_cancelInLoop_le _ _)
        (fun t ht => (List.mem_filter.mp ht).1) (fun _ ht => .inl ht) id
  | takeFunctors _ htodo =>
      refine h.quiet rfl rfl rfl (Nat.le_refl _) (waiting_takeFunctors htodo).le (fun _ ht => ht)
        (fun t ht => ?_) fun hmem => functors_takeFunctors htodo ▸ hmem
      obtain ⟨f, -, heq⟩ := List.mem_map.mp ht
      cases heq
  | endIteration _ _ =>
      exact h.quiet rfl rfl rfl (Nat.le_refl _) (Nat.le_refl _) (fun _ ht => ht)
        (fun _ ht => .inl ht) id
  | @start k => exact absurd rfl (hby.1 false k)
  | @stop inLoop =>
      have hretries : (s.stop inLoop).retries = s.retries := by
        cases inLoop <;>
          simp [ConnectorSession.retries, ConnectorSession.stop, cancelInLoop, queueInLoop, setConnect,
            note]
      refine h.quiet ?_ hretries ?_ ?_ (waiting_stop_le s _) ?_ ?_ ?_
      · cases inLoop <;> rfl
      · cases inLoop <;> rfl
      · cases inLoop <;> exact Nat.le_refl _
      · cases inLoop with
        | true => exact fun t ht => (List.mem_filter.mp ht).1
        | false => exact fun t ht => ht
      · cases inLoop <;> exact fun t ht => .inl ht
      · cases inLoop with
        | true => exact id
        | false => simp [ConnectorSession.stop, functors, queueInLoop, note, setConnect]

theorem Paced.step (h : Paced s₀ s) (hsound : s.Sound) (hsingle : s.Single)
    (hsteady : s.ClockSteady a) (hby : s.ByItself a) (hstep : system.Step s a s') : Paced s₀ s' := by
  rcases hsound.step hstep with ⟨k, b, hstarts, -, htries⟩ | hmove
  · have hclock : s.clock ≤ k.now := by cases hstarts <;> exact hsteady
    have hnow : k.now = b.clock := by cases hstarts <;> rfl
    exact (h.ready hsingle hclock hby hstarts).tries hnow htries
  · exact h.move hsingle hsteady hby hmove

/-! ## Runs -/

theorem retry_delay_le (h : s.connector.retryDelayMs ≤ Connector.kMaxRetryDelayMs) :
    (s.retry n k).connector.retryDelayMs ≤ Connector.kMaxRetryDelayMs := by
  obtain ⟨-, -, -, -, ⟨-, hdelay, -⟩ | ⟨-, hdelay, -⟩⟩ := retry_schedule s n k
  · exact hdelay ▸ min_le_right _ _
  · exact hdelay ▸ h

theorem retryDelayMs_le (h : system.Reachable s) :
    s.connector.retryDelayMs ≤ Connector.kMaxRetryDelayMs := by
  refine h.invariant (I := fun s => s.connector.retryDelayMs ≤ Connector.kMaxRetryDelayMs) ?_
    fun s a s' hr hs _ hstep => ?_
  · rintro s rfl
    decide
  · rcases (sound_of_reachable hr).step hstep with ⟨k, b, hstarts, -, htries⟩ | hmove
    · have hb : b.connector.retryDelayMs ≤ Connector.kMaxRetryDelayMs := by
        cases hstarts with
        | restart => exact show Connector.kInitRetryDelayMs ≤ Connector.kMaxRetryDelayMs by decide
        | _ => exact hs
      cases htries with
      | retry _ => exact retry_delay_le (s := b.socket) hb
      | _ => exact hb
    · cases hmove with
      | event _ _ _ hfinishes =>
          cases hfinishes with
          | retry => exact retry_delay_le (s := (s.pop _ _).removed _) hs
          | _ => exact hs
      | @stop inLoop => cases inLoop <;> exact hs
      | _ => exact hs

/-- **Attempts are apart.** From any state that a connector gets to which is started only where it is
idle, as long as it is neither started nor restarted and the clock is not set back: its delay doubles
with each retry, up to the maximum, and making `m + 1` attempts takes at least the first `m` of these
delays. -/
theorem paced (hs : system.ReachableVia StartsIdle s)
    (h : (system.startingAt s).ReachableVia (fun s a => s.ByItself a ∧ s.ClockSteady a) s') :
    s'.connector.retryDelayMs = backoff s.connector.retryDelayMs (s'.retries - s.retries) ∧
      ∀ m, s.attempts + m < s'.attempts →
        s.clock + backoffTime s.connector.retryDelayMs m ≤ s'.clock := by
  have hsingle : ∀ {s}, system.ReachableVia StartsIdle s → s.Single := fun h =>
    h.invariant (fun _ hs => hs ▸ single_new) fun _ _ _ hr hsingle hidle hstep =>
      hsingle.next (sound_of_reachable hr.reachable) hidle hstep
  have hall : system.ReachableVia StartsIdle s' ∧ Paced s s' := by
    refine h.invariant (I := fun s' => system.ReachableVia StartsIdle s' ∧ Paced s s') ?_
      fun s₁ a s₂ _ hs₁ hok hstep => ?_
    · rintro s' rfl
      refine ⟨hs, Nat.le_refl _, Nat.le_refl _, Nat.le_refl _, ?_, ?_, ?_, ?_, ?_, ?_⟩
      · have hmax := retryDelayMs_le hs.reachable
        rw [Nat.sub_self, backoff, Nat.pow_zero, Nat.mul_one, min_eq_left hmax]
      · have hone := (hsingle hs).atMostOne
        omega
      all_goals intros; omega
    · refine ⟨hs₁.1.step (fun inLoop k ha => absurd ha (hok.1.1 inLoop k)) hstep, ?_⟩
      exact hs₁.2.step (sound_of_reachable hs₁.1.reachable) (hsingle hs₁.1) hok.2 hok.1 hstep
  have hpaced := hall.2
  refine ⟨hpaced.delay, fun m hm => ?_⟩
  obtain ⟨j, hj⟩ := Nat.exists_eq_add_of_lt hm
  have hopened := hpaced.opened (m + j) (by omega)
  have hmono := backoffTime_mono s.connector.retryDelayMs (Nat.le_add_right m j)
  exact (Nat.add_le_add_left hmono _).trans hopened

instance (s : ConnectorSession) : (a : ConnectorAction) → Decidable (s.ByItself a)
  | .start inLoop k => .isFalse fun h => h.1 inLoop k rfl
  | .restart k => .isFalse fun h => h.2 k rfl
  | .poll _ | .task _ | .takeFunctors | .endIteration | .stop _ => .isTrue ⟨nofun, nofun⟩

instance (s : ConnectorSession) : (a : ConnectorAction) → Decidable (s.ClockSteady a)
  | .task k | .start _ k | .restart k => inferInstanceAs (Decidable (s.clock ≤ k.now))
  | .poll _ | .takeFunctors | .endIteration | .stop _ => .isTrue trivial

instance (s s₀ : ConnectorSession) (a : ConnectorAction) :
    Decidable ((system.startingAt s₀).enabled s a) :=
  inferInstanceAs (Decidable (s.enabled a))

/-- A connector whose first attempt was refused at once. -/
def refused : ConnectorSession :=
  (new.starting (TcpClient.answers 0 .ECONNREFUSED false)).socket.retry 0
    (TcpClient.answers 0 .ECONNREFUSED false)

/-- It is refused at once again, twice. -/
def refusedRun : List ConnectorAction :=
  [.poll [(.timerfd, {.POLLIN})], .task (TcpClient.answers 500000 .none false),
    .task (TcpClient.answers 500000 .ECONNREFUSED false), .takeFunctors, .endIteration,
    .poll [(.timerfd, {.POLLIN})], .task (TcpClient.answers 1500000 .none false),
    .task (TcpClient.answers 1500000 .ECONNREFUSED false)]

theorem paced_refusedRun : ∃ s' : ConnectorSession, s'.attempts = 3 ∧
    s'.connector.retryDelayMs = backoff 1000 (s'.retries - 1) ∧ backoffTime 1000 1 ≤ s'.clock := by
  have hstep : system.Step new (.start true (TcpClient.answers 0 .ECONNREFUSED false)) refused :=
    ⟨trivial, rfl⟩
  have hs : system.ReachableVia StartsIdle refused :=
    .step (.init rfl) (fun _ _ _ => ⟨rfl, rfl⟩) hstep
  obtain ⟨s', hs', htest⟩ := StepSystem.exists_reachableVia_of_runFrom?
    (fun s a => s.ByItself a ∧ s.ClockSteady a) refusedRun (M := system.startingAt refused)
    (p := fun s => decide (s.attempts = 3)) rfl (by decide +kernel)
  have hattempts : s'.attempts = 3 := of_decide_eq_true htest
  obtain ⟨hdelay, htime⟩ := paced hs hs'
  have htwo := htime 1 (by rw [hattempts]; decide)
  exact ⟨s', hattempts, hdelay, le_trans (Nat.le_add_left _ _) htwo⟩

end ConnectorSession

end MiniMuduo
