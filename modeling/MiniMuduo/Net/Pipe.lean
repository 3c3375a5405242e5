import Mathlib.Logic.Function.Basic
import Mathlib.Logic.Relation
import MiniMuduo.Lib.Wire
import MiniMuduo.Net.EndOfStream
import MiniMuduo.Net.InputStream
import MiniMuduo.Net.Program

/-!
# Two connections and what is between them

A `Pipe` has a connection at either side, with a program that uses it, and a `Wire` in each direction
for what one kernel has accepted and the other has not yet handed out. The steps are those of the two
programs, in every order; of the kernel's part it is assumed (`ConnEvent.Possible`, `Readable`) that

* `::read` gives out bytes that are under way, in order, and the end of the stream only when there are
  none and none will come;
* `::write` takes nothing after `SHUT_WR`, and fails with `EPIPE` or `ECONNRESET` only then or on a
  broken connection.

A reset can lose what is under way at any time. What holds of one side and its wire is shown by going
through the steps of the session one by one (`Linked`), calls of the program included.
-/

namespace MiniMuduo

open Fallible

inductive Side where
  | near
  | far
  deriving DecidableEq, Repr

def Side.peer : Side → Side
  | .near => .far
  | .far => .near

@[simp] theorem Side.peer_peer (side : Side) : side.peer.peer = side := by
  cases side <;> rfl

@[simp] theorem Side.peer_ne (side : Side) : side.peer ≠ side := by
  cases side <;> decide

theorem Side.eq_peer_of_ne {side side' : Side} (h : side' ≠ side) : side' = side.peer := by
  cases side <;> cases side' <;> first | rfl | exact absurd rfl h

/-! ## The kernel -/

/-- What a note of a connection does to the wire it writes to. -/
def ConnEvent.carry (w : Wire UInt8) : ConnEvent → Wire UInt8
  | .write data result => w.push (result.taken data)
  | .shutdownWrite _ => w.finish
  | _ => w

/-- The kernel can have answered so. -/
def ConnEvent.Possible (w : Wire UInt8) : ConnEvent → Prop
  | .write _ (.accepted _) => w.finished = false
  | .write _ (.failed errno) =>
      errno = .EPIPE ∨ errno = .ECONNRESET → w.finished = true ∨ w.broken = true
  | _ => True

instance (w : Wire UInt8) : DecidablePred (ConnEvent.Possible w)
  | .write _ (.accepted _) => inferInstanceAs (Decidable (w.finished = false))
  | .write _ (.failed errno) => inferInstanceAs (Decidable
      (errno = .EPIPE ∨ errno = .ECONNRESET → w.finished = true ∨ w.broken = true))
  | .send _ _ | .shutdown _ | .sendInLoop _ _ | .sendBufferInLoop _ _ _ | .shutdownWrite _
  | .connectionCallback _ | .messageCallback _ | .closeCallback | .writeCompleteCallback
  | .highWaterMarkCallback _ => inferInstanceAs (Decidable True)

/-- What the notes of a connection do to the wire, one after the other. -/
def carry (w : Wire UInt8) (es : List ConnEvent) : Wire UInt8 :=
  es.foldl (fun w e => e.carry w) w

def AllPossible : Wire UInt8 → List ConnEvent → Prop
  | _, [] => True
  | w, e :: es => e.Possible w ∧ AllPossible (e.carry w) es

instance decidableAllPossible : ∀ (w : Wire UInt8) (es : List ConnEvent),
    Decidable (AllPossible w es)
  | _, [] => inferInstanceAs (Decidable True)
  | w, e :: es =>
      have := decidableAllPossible (e.carry w) es
      inferInstanceAs (Decidable (e.Possible w ∧ AllPossible (e.carry w) es))

/-- `::read` can give this out: some of the bytes under way, or the end of the stream. -/
def Readable (w : Wire UInt8) : Option Bytes → Prop
  | none => True
  | some [] => w.AtEnd
  | some (b :: bs) => b :: bs <+: w.inFlight

instance (w : Wire UInt8) : DecidablePred (Readable w)
  | none => inferInstanceAs (Decidable True)
  | some [] => inferInstanceAs (Decidable w.AtEnd)
  | some (b :: bs) => inferInstanceAs (Decidable (b :: bs <+: w.inFlight))

section Carry

variable (w : Wire UInt8) {es es' : List ConnEvent}

theorem carry_append (es es' : List ConnEvent) : carry w (es ++ es') = carry (carry w es) es' :=
  List.foldl_append

theorem allPossible_append :
    AllPossible w (es ++ es') ↔ AllPossible w es ∧ AllPossible (carry w es) es' := by
  induction es generalizing w with
  | nil => simp [AllPossible, carry]
  | cons e es ih =>
      simp only [List.cons_append, AllPossible, ih, and_assoc]
      rfl

@[simp] theorem sent_carry (es : List ConnEvent) :
    (carry w es).sent = w.sent ++ acceptedBytes es := by
  induction es generalizing w with
  | nil => exact (List.append_nil _).symm
  | cons e es ih =>
      have hcons : acceptedBytes (e :: es) = e.accepted ++ acceptedBytes es := rfl
      rw [show carry w (e :: es) = carry (e.carry w) es from rfl, ih, hcons, ← List.append_assoc]
      cases e <;> simp [ConnEvent.carry, ConnEvent.accepted]

@[simp] theorem delivered_carry (es : List ConnEvent) :
    (carry w es).delivered = w.delivered := by
  induction es generalizing w with
  | nil => rfl
  | cons e es ih =>
      rw [show carry w (e :: es) = carry (e.carry w) es from rfl, ih]
      cases e <;> rfl

@[simp] theorem broken_carry (es : List ConnEvent) : (carry w es).broken = w.broken := by
  induction es generalizing w with
  | nil => rfl
  | cons e es ih =>
      rw [show carry w (e :: es) = carry (e.carry w) es from rfl, ih]
      cases e <;> rfl

/-- The wire is finished by a half-close. -/
theorem finished_carry (es : List ConnEvent) : (carry w es).finished = true ↔
    w.finished = true ∨ ∃ unsent, .shutdownWrite unsent ∈ es := by
  induction es generalizing w with
  | nil => simp [carry]
  | cons e es ih =>
      rw [show carry w (e :: es) = carry (e.carry w) es from rfl, ih]
      cases e <;> simp [ConnEvent.carry]

variable {w}

/-- Nothing more comes at the end of a wire. -/
theorem atEnd_carry (h : w.AtEnd) (hes : AllPossible w es) : (carry w es).AtEnd := by
  induction es generalizing w with
  | nil => exact h
  | cons e es ih =>
      refine ih ?_ hes.2
      have hposs := hes.1
      cases e with
      | write data result =>
          refine h.push fun hfin => ?_
          cases result with
          | accepted n => exact absurd (hfin.symm.trans hposs) (by decide)
          | failed errno => rfl
      | shutdownWrite unsent => exact h.finish
      | _ => exact h

end Carry

/-! ## The system -/

/-- No reference is left to a connection its owner has dropped, so its socket is closed. -/
def Session.Released (s : Session) : Prop := s.listed = false ∧ s.functors = [] ∧ s.todo = []

instance (s : Session) : Decidable s.Released :=
  inferInstanceAs (Decidable (_ ∧ _))

/-- Only a closed connection is dropped. -/
theorem Session.Released.closed {s : Session} (h : s.Released) (hr : Session.system.Reachable s) :
    s.Closed := by
  have haccounts := (Session.orderly_of_reachable hr).accounts
  have hgone := haccounts.listed
  rw [h.1] at hgone
  exact haccounts.closed (by simp [hgone])

structure Pipe (π : Type) where
  user : Side → Driven π
  /-- What the side writes to its socket. -/
  wire : Side → Wire UInt8
  /-- The side has read the end of the stream. -/
  ended : Side → Bool

inductive PipeAction (ι : Type) where
  | step (side : Side) (a : SessionAction × ι)
  /-- `~Socket`. -/
  | closeSocket (side : Side)
  /-- The connection is reset; of what the side wrote, only the first `n` bytes still arrive. -/
  | reset (side : Side) (n : ℕ)

namespace Pipe

variable {π ι ε : Type} (P : Side → Program π ι ε)

def session (p : Pipe π) (side : Side) : Session := (p.user side).session

/-- The notes of a step of the side, after which it is `d`. -/
def notes (p : Pipe π) (side : Side) (d : Driven π) : List ConnEvent :=
  d.session.history.drop (p.session side).history.length

def enabled (p : Pipe π) : PipeAction ι → Prop
  | .step side a => (P side).system.enabled (p.user side) a ∧
      Readable (p.wire side.peer) ((p.session side).reads a.1) ∧
      ∀ d ∈ ((P side).exec (p.user side) a).toOption, AllPossible (p.wire side) (p.notes side d)
  | .closeSocket side => (p.session side).Released
  | .reset _ _ => True

def exec (p : Pipe π) : PipeAction ι → Except ε (Pipe π)
  | .step side a => do
      let d ← (P side).exec (p.user side) a
      return {
        user := Function.update p.user side d
        wire := fun side' =>
          if side' = side then carry (p.wire side) (p.notes side d)
          else (p.wire side').pop ((p.session side).received a.1).length
        ended := Function.update p.ended side
          (p.ended side || decide ((p.session side).reads a.1 = some [])) }
  | .closeSocket side => return { p with
      wire := Function.update p.wire side (p.wire side).finish }
  | .reset side n => return { p with
      wire := Function.update p.wire side ((p.wire side).lose n) }

def system : StepSystem (Pipe π) (PipeAction ι) ε where
  init p := (∀ side, (P side).system.init (p.user side)) ∧ (∀ side, p.wire side = .new) ∧
    ∀ side, p.ended side = false
  enabled := enabled P
  exec := exec P

instance [∀ side, DecidablePred (P side).allows] (p : Pipe π) :
    ∀ a : PipeAction ι, Decidable ((system P).enabled p a)
  | .step side a => inferInstanceAs (Decidable
      ((P side).system.enabled (p.user side) a ∧ _ ∧
        ∀ d ∈ ((P side).exec (p.user side) a).toOption, AllPossible (p.wire side) (p.notes side d)))
  | .closeSocket side => inferInstanceAs (Decidable (p.session side).Released)
  | .reset _ _ => inferInstanceAs (Decidable True)

end Pipe

/-! ## One step of a session at a time -/

theorem Session.history_prefix {s s' : Session} {a : SessionAction} (h : system.Step s a s') :
    s.history <+: s'.history := by
  cases move_of_step h with
  | up _ _ | down _ _ | removeChannel _ _ | close _ _ _ | message _ | task _ _ _ _ | user _ _ _ =>
      exact List.prefix_append _ _
  | settings | poll _ _ _ | phase | takeFunctors _ | removeConnection _ _ | others _ =>
      exact List.prefix_refl _

/-- A step of a session, with the wire it writes to. -/
structure Linked (a : SessionAction) (x y : Session × Wire UInt8) : Prop where
  step : Session.system.Step x.1 a y.1
  notes : ∃ es, y.1.history = x.1.history ++ es ∧ AllPossible x.2 es ∧ y.2 = carry x.2 es

/-- A call that a program makes on its connection. -/
def Called (x y : Session × Wire UInt8) : Prop :=
  ∃ c : UserCall, Linked (c.action x.1.conn.loop) x y

/-- From `s` to `s'` by calls of the program, whatever wire they write to. -/
def CallsFrom (s s' : Session) : Prop :=
  ∃ es, s'.history = s.history ++ es ∧
    ∀ w, AllPossible w es → Relation.ReflTransGen Called (s, w) (s', carry w es)

theorem CallsFrom.refl (s : Session) : CallsFrom s s :=
  ⟨[], (List.append_nil _).symm, fun _ _ => .refl⟩

theorem CallsFrom.trans {s s₁ s₂ : Session} (h₁ : CallsFrom s s₁) (h₂ : CallsFrom s₁ s₂) :
    CallsFrom s s₂ := by
  obtain ⟨es₁, hist₁, hreach₁⟩ := h₁
  obtain ⟨es₂, hist₂, hreach₂⟩ := h₂
  refine ⟨es₁ ++ es₂, by rw [hist₂, hist₁, List.append_assoc], fun w hposs => ?_⟩
  obtain ⟨hposs₁, hposs₂⟩ := (allPossible_append w).mp hposs
  rw [carry_append]
  exact (hreach₁ w hposs₁).trans (hreach₂ _ hposs₂)

theorem Session.perform_callsFrom {s s' : Session} {calls : List UserCall}
    (h : s.perform calls = .ok s') : CallsFrom s s' := by
  induction calls generalizing s with
  | nil =>
      cases h
      exact .refl _
  | cons c calls ih =>
      rw [Session.perform, List.foldlM_cons] at h
      obtain ⟨s₁, hs₁, h⟩ := bind_eq_ok.mp h
      have hstep : system.Step _ (c.action _) s₁ := ⟨Program.enabled_action _ c, hs₁⟩
      obtain ⟨es, hist⟩ := history_prefix hstep
      refine CallsFrom.trans ⟨es, hist.symm, fun w hposs => .single ?_⟩ (ih h)
      exact ⟨c, hstep, es, hist.symm, hposs, rfl⟩

namespace Program

variable {π ι ε : Type} {P : Program π ι ε} {d d' : Driven π} {a : SessionAction} {i : ι}

theorem answers_callsFrom {notes : List ConnEvent}
    (h : notes.foldlM (P.answer i) d = .ok d') : CallsFrom d.session d'.session := by
  induction notes generalizing d with
  | nil =>
      cases h
      exact .refl _
  | cons e notes ih =>
      rw [List.foldlM_cons] at h
      obtain ⟨d₁, hd₁, h⟩ := bind_eq_ok.mp h
      obtain ⟨calls, -, hperform, -⟩ := answer_eq_ok hd₁
      exact (Session.perform_callsFrom hperform).trans (ih h)

/-- A step of a program, step by step: one of the session, and then calls. -/
theorem step_linked {w : Wire UInt8} (h : P.system.Step d (a, i) d')
    (hposs : AllPossible w (d'.session.history.drop d.session.history.length)) :
    ∃ x, Linked a (d.session, w) x ∧ Relation.ReflTransGen Called x
      (d'.session, carry w (d'.session.history.drop d.session.history.length)) := by
  obtain ⟨-, s, hs, hanswers⟩ := step_eq_ok h
  obtain ⟨es₁, hist₁⟩ := Session.history_prefix hs
  obtain ⟨es₂, hist₂, hreach⟩ := answers_callsFrom hanswers
  have hist : d'.session.history = d.session.history ++ (es₁ ++ es₂) := by
    rw [hist₂, ← List.append_assoc, hist₁]
  rw [hist, List.drop_left] at hposs ⊢
  obtain ⟨hposs₁, hposs₂⟩ := (allPossible_append w).mp hposs
  rw [carry_append]
  exact ⟨(s, carry w es₁), ⟨hs, es₁, hist₁.symm, hposs₁, rfl⟩, hreach _ hposs₂⟩

end Program

/-! ## One side and its wire -/

/-- What a step of a pipe does to a side and the wire it writes to. -/
inductive Outgoing (ok : SessionAction → Prop) (x : Session × Wire UInt8) :
    Session × Wire UInt8 → Prop where
  | step {a : SessionAction} {y z : Session × Wire UInt8} (ha : ok a) (hfirst : Linked a x y)
      (hcalls : Relation.ReflTransGen Called y z) : Outgoing ok x z
  /-- The other side reads. -/
  | pop (n : ℕ) : Outgoing ok x (x.1, x.2.pop n)
  | finish (h : x.1.Released) : Outgoing ok x (x.1, x.2.finish)
  | lose (n : ℕ) : Outgoing ok x (x.1, x.2.lose n)
  | idle : Outgoing ok x x

theorem Outgoing.closed {ok : SessionAction → Prop} {x y : Session × Wire UInt8}
    (h : Outgoing ok x y) (hx : x.1.Closed) : y.1.Closed := by
  cases h with
  | step _ hfirst hcalls =>
      have hone := hx.move (Session.move_of_step hfirst.step)
      clear hfirst
      induction hcalls with
      | refl => exact hone
      | tail _ hcall ih =>
          obtain ⟨c, hl⟩ := hcall
          exact ih.move (Session.move_of_step hl.step)
  | pop _ | finish _ | lose _ | idle => exact hx

namespace Pipe

variable {π ι ε : Type} {P : Side → Program π ι ε} {p p' : Pipe π} {act : PipeAction ι}

/-- The inversion of a step: a side goes on, a socket is closed, or the connection is reset. -/
theorem step_cases (h : (system P).Step p act p') :
    (∃ side a i d, act = .step side (a, i) ∧ (P side).system.Step (p.user side) (a, i) d ∧
      Readable (p.wire side.peer) ((p.session side).reads a) ∧
      AllPossible (p.wire side) (p.notes side d) ∧
      (∀ side', p'.user side' = if side' = side then d else p.user side') ∧
      p'.wire side = carry (p.wire side) (p.notes side d) ∧
      p'.wire side.peer = (p.wire side.peer).pop ((p.session side).received a).length ∧
      (∀ side', p'.ended side' = true → p.ended side' = true ∨
        side' = side ∧ (p.session side).reads a = some [])) ∨
    (p'.user = p.user ∧ p'.ended = p.ended ∧ ((∃ side, (p.session side).Released ∧
      p'.wire = Function.update p.wire side (p.wire side).finish) ∨
        ∃ side n, p'.wire = Function.update p.wire side ((p.wire side).lose n))) := by
  obtain ⟨hen, hex⟩ := h
  cases act with
  | step side a =>
      obtain ⟨d, hd, hex⟩ := bind_eq_ok.mp hex
      cases hex
      obtain ⟨henabled, hread, hposs⟩ := hen
      refine .inl ⟨side, a.1, a.2, d, rfl, ⟨henabled, hd⟩, hread, hposs d (by rw [hd]; rfl), ?_,
        if_pos rfl, if_neg side.peer_ne, ?_⟩
      · intro side'
        exact Function.update_apply _ _ _ _
      · intro side' hend
        simp only [Function.update_apply] at hend
        split at hend
        · next heq =>
            rw [Bool.or_eq_true, decide_eq_true_eq] at hend
            rw [heq]
            exact hend.imp_right fun h => ⟨rfl, h⟩
        · exact .inl hend
  | closeSocket side =>
      cases hex
      exact .inr ⟨rfl, rfl, .inl ⟨side, hen, rfl⟩⟩
  | reset side n =>
      cases hex
      exact .inr ⟨rfl, rfl, .inr ⟨side, n, rfl⟩⟩

/-- The step as the side sees it that writes to the wire. -/
theorem outgoing_of_step (ok : SessionAction → Prop) (side : Side) (h : (system P).Step p act p')
    (hok : ∀ a i, act = .step side (a, i) → ok a) :
    Outgoing ok (p.session side, p.wire side) (p'.session side, p'.wire side) := by
  have hupdate : ∀ side' (w : Wire UInt8), p'.user = p.user →
      p'.wire = Function.update p.wire side' w →
      (∀ x : Session × Wire UInt8, x = (p.session side', p.wire side') →
        Outgoing ok x (x.1, w)) →
      Outgoing ok (p.session side, p.wire side) (p'.session side, p'.wire side) := by
    intro side' w huser hwire hout
    have hsession : p'.session side = p.session side := by rw [session, session, huser]
    rw [hsession, hwire, Function.update_apply]
    split
    · next heq => exact hout _ (by rw [heq])
    · exact .idle
  rcases step_cases h with ⟨side', a, i, d, rfl, hstep, -, hposs, huser, hwire, hpeer, -⟩ |
    ⟨huser, -, ⟨side', hrel, hwire⟩ | ⟨side', n, hwire⟩⟩
  · by_cases heq : side = side'
    · subst heq
      have hsession : p'.session side = d.session := by
        rw [session, huser, if_pos rfl]
      obtain ⟨x, hfirst, hcalls⟩ := Program.step_linked hstep hposs
      rw [hsession, hwire]
      exact .step (hok a i rfl) hfirst hcalls
    · have hsession : p'.session side = p.session side := by
        rw [session, huser, if_neg heq]
        rfl
      rw [hsession, Side.eq_peer_of_ne heq, hpeer]
      exact .pop _
  · exact hupdate side' _ huser hwire fun x hx => hx ▸ .finish hrel
  · exact hupdate side' _ huser hwire fun x hx => hx ▸ .lose n

theorem closed_of_step (side : Side) (h : (system P).Step p act p')
    (hclosed : (p.session side).Closed) : (p'.session side).Closed :=
  (outgoing_of_step (fun _ => True) side h fun _ _ _ => trivial).closed hclosed

/-- What holds of a new side and its wire and is kept by everything that happens to them. The steps of
the side all satisfy `ok`, calls of its program among them. -/
structure Kept (ok : Session → SessionAction → Prop) (I : Session × Wire UInt8 → Prop) : Prop where
  init : ∀ s, Session.init s → I (s, .new)
  calls : ∀ s (c : UserCall), ok s (c.action s.conn.loop)
  step : ∀ a x y, Session.system.ReachableVia ok x.1 → I x → ok x.1 a → Linked a x y → I y
  pop : ∀ s w n, I (s, w) → I (s, w.pop n)
  finish : ∀ s w, Session.system.Reachable s → s.Released → I (s, w) → I (s, w.finish)
  lose : ∀ s w n, I (s, w) → I (s, w.lose n)

/-- The steps of the side satisfy `ok`. -/
def Only (side : Side) (ok : Session → SessionAction → Prop) (p : Pipe π) : PipeAction ι → Prop
  | .step side' a => side' = side → ok (p.session side) a.1
  | .closeSocket _ | .reset _ _ => True

variable {ok : Session → SessionAction → Prop} {I : Session × Wire UInt8 → Prop} {side : Side}

theorem Kept.outgoing (hK : Kept ok I) {x y : Session × Wire UInt8}
    (h : Session.system.ReachableVia ok x.1 ∧ I x) (hout : Outgoing (ok x.1) x y) :
    Session.system.ReachableVia ok y.1 ∧ I y := by
  cases hout with
  | step ha hfirst hcalls =>
      have hone : ∀ {a x y}, Session.system.ReachableVia ok x.1 ∧ I x → ok x.1 a → Linked a x y →
          Session.system.ReachableVia ok y.1 ∧ I y :=
        fun hx ha hl => ⟨hx.1.step ha hl.step, hK.step _ _ _ hx.1 hx.2 ha hl⟩
      have hy := hone h ha hfirst
      clear hfirst
      induction hcalls with
      | refl => exact hy
      | tail _ hcall ih =>
          obtain ⟨c, hl⟩ := hcall
          exact hone ih (hK.calls _ c) hl
  | pop n => exact ⟨h.1, hK.pop _ _ n h.2⟩
  | finish hrel => exact ⟨h.1, hK.finish _ _ h.1.reachable hrel h.2⟩
  | lose n => exact ⟨h.1, hK.lose _ _ n h.2⟩
  | idle => exact h

/-- **The invariant rule for a side and its wire.** -/
theorem Kept.invariant (hK : Kept ok I) (h : (system P).ReachableVia (Only side ok) p) :
    Session.system.ReachableVia ok (p.session side) ∧ I (p.session side, p.wire side) := by
  induction h with
  | init hinit =>
      obtain ⟨huser, hwire, -⟩ := hinit
      have hs : Session.init (Pipe.session _ side) := (huser side).1
      rw [hwire]
      exact ⟨.init hs, hK.init _ hs⟩
  | step _ hok hstep ih =>
      refine hK.outgoing ih (outgoing_of_step _ side hstep ?_)
      rintro a i rfl
      exact hok rfl

/-! ## What arrives -/

/-- The wire has taken what the kernel has accepted. -/
theorem kept_accepted :
    Kept (fun _ _ => True) fun x => x.2.sent = acceptedBytes x.1.history where
  init s hs := by
    obtain ⟨self, loop, name, sockfd, hwm, wc, p, phase, atOnce, -, -, rfl⟩ := hs
    rfl
  calls _ _ := trivial
  step a x y _ hx _ hl := by
    obtain ⟨es, hist, -, hw⟩ := hl.notes
    rw [hw, sent_carry, hist, acceptedBytes_append, hx]
  pop _ _ _ hx := hx
  finish _ _ _ _ hx := hx
  lose _ _ _ hx := hx

/-- What the side has retrieved and what is in its input buffer is what has arrived from the other. -/
def InputArrived (p : Pipe π) (side : Side) : Prop :=
  (p.user side).retrieved ++ (p.session side).conn.inputBuffer.readable =
    (p.wire side.peer).delivered

theorem delivered_of_readable {w : Wire UInt8} {s : Session} {a : SessionAction}
    (h : Readable w (s.reads a)) :
    (w.pop (s.received a).length).delivered = w.delivered ++ s.received a := by
  unfold Session.received
  cases hreads : s.reads a with
  | none => simp
  | some bytes =>
      rw [hreads] at h
      cases bytes with
      | nil => simp
      | cons b bs => exact Wire.delivered_pop_of_prefix h

theorem InputArrived.step {act : PipeAction ι} (h : p.InputArrived side)
    (hstep : (system P).Step p act p') : p'.InputArrived side := by
  unfold InputArrived at h ⊢
  rcases step_cases hstep with ⟨side', a, i, d, rfl, hd, hread, hposs, huser, hwire, hpeer, -⟩ |
    ⟨huser, -, ⟨side', -, hwire⟩ | ⟨side', n, hwire⟩⟩
  · by_cases heq : side = side'
    · subst heq
      rw [session, huser, if_pos rfl, hpeer, delivered_of_readable hread, ← h]
      exact Program.step_input hd
    · obtain rfl := Side.eq_peer_of_ne heq
      rw [Side.peer_peer] at h ⊢
      rw [session, huser, if_neg heq, hwire, delivered_carry]
      exact h
  · rw [session, huser, hwire, Function.update_apply]
    split
    · next heq => rwa [← heq]
    · exact h
  · rw [session, huser, hwire, Function.update_apply]
    split
    · next heq => rwa [← heq]
    · exact h

theorem inputArrived_of_reachable {okp : Pipe π → PipeAction ι → Prop}
    (h : (system P).ReachableVia okp p) (side : Side) : p.InputArrived side := by
  refine h.invariant (I := fun p => InputArrived p side) (fun p hinit => ?_)
    fun _ _ _ _ hp _ hstep => hp.step hstep
  obtain ⟨huser, hwire, -⟩ := hinit
  obtain ⟨⟨self, loop, name, sockfd, hwm, wc, q, phase, atOnce, -, -, hs⟩, -, -, hnone⟩ := huser side
  unfold InputArrived
  rw [hwire, hnone, session, hs]
  exact WfBuffer.readable_new

section Reachable

variable {okp : Pipe π → PipeAction ι → Prop}

theorem accepted_of_reachable (h : (system P).ReachableVia okp p) (side : Side) :
    Session.system.Reachable (p.session side) ∧
      (p.wire side).sent = acceptedBytes (p.session side).history := by
  refine kept_accepted.invariant (h.mono fun p act _ => ?_)
  cases act with
  | step side' a => exact fun _ => trivial
  | closeSocket _ | reset _ _ => trivial

theorem delivered_prefix_accepted (h : (system P).ReachableVia okp p) (side : Side) :
    (p.wire side).delivered <+: acceptedBytes (p.session side).history :=
  (accepted_of_reachable h side).2 ▸ Wire.delivered_prefix

theorem delivered_prefix_executed (h : (system P).ReachableVia okp p) (side : Side) :
    (p.wire side).delivered <+: executedBytes (p.session side).history := by
  refine (delivered_prefix_accepted h side).trans ?_
  rw [← Session.conserved_of_reachable (accepted_of_reachable h side).1]
  exact List.prefix_append _ _

/-- Every byte that was executed has arrived, is under way or waits in the output buffer. -/
theorem accounted (h : (system P).ReachableVia okp p) (hwhole : (p.wire side).broken = false) :
    (p.wire side).delivered ++ (p.wire side).inFlight ++ (p.session side).conn.unsent =
      executedBytes (p.session side).history := by
  obtain ⟨hs, hsent⟩ := accepted_of_reachable h side
  rw [(p.wire side).whole hwhole, hsent]
  exact Session.conserved_of_reachable hs

end Reachable

/-- **Reliable delivery, end to end.** Whatever the two programs and the kernels do, also when a side is
closed: what a side's program has retrieved, followed by what is in its input buffer, is what has arrived
there; that is a prefix of what the kernel of its peer has accepted and of what the peer has executed;
and unless something was reset, what is missing of the latter is under way or in the peer's output
buffer. -/
theorem delivery (h : (system P).Reachable p) (side : Side) :
    (p.user side.peer).retrieved ++ (p.session side.peer).conn.inputBuffer.readable =
        (p.wire side).delivered ∧
      (p.wire side).delivered <+: acceptedBytes (p.session side).history ∧
      (p.wire side).delivered <+: executedBytes (p.session side).history ∧
      ((p.wire side).broken = false → (p.wire side).delivered ++ (p.wire side).inFlight ++
        (p.session side).conn.outputBuffer.readable = executedBytes (p.session side).history) := by
  have harrived := inputArrived_of_reachable h side.peer
  rw [InputArrived, Side.peer_peer] at harrived
  exact ⟨harrived, delivered_prefix_accepted h side, delivered_prefix_executed h side, accounted h⟩

/-- Two new connections of users who call them at any time. -/
def firstPipe : Pipe Unit where
  user _ := ⟨Session.firstSession, (), []⟩
  wire _ := .new
  ended _ := false

theorem init_firstPipe {P : Side → Program Unit ι ε}
    (hsetup : ∀ side, (P side).setup Session.firstSession) : (system P).init firstPipe :=
  ⟨fun side => ⟨Session.init_firstSession, hsetup side, rfl, rfl⟩, fun _ => rfl, fun _ => rfl⟩

/-- Both connections come up. The near side sends three bytes, of which two are written at once; the far
side reads one of them and takes it out of its input buffer. -/
def partialRun : List (PipeAction Unit) :=
  [.step .near (.task .error (.accepted 0), ()), .step .near (.takeFunctors, ()),
    .step .near (.endIteration, ()), .step .far (.task .error (.accepted 0), ()),
    .step .far (.takeFunctors, ()), .step .far (.endIteration, ()),
    .step .near (.send (.loop 0) [1, 2, 3] (.accepted 2), ()),
    .step .far (.poll (some {.POLLIN}), ()),
    .step .far (.task (.data [1]) (.accepted 0), ()), .step .far (.retrieveInput 1, ())]

theorem delivery_partialRun : ∃ p : Pipe Unit, (p.user .far).retrieved = [1] ∧
    (p.wire .near).inFlight = [2] ∧
    (p.user .far).retrieved ++ (p.session .far).conn.inputBuffer.readable =
      (p.wire .near).delivered ∧
    (p.wire .near).delivered ++ (p.wire .near).inFlight ++
      (p.session .near).conn.outputBuffer.readable =
      executedBytes (p.session .near).history := by
  obtain ⟨p, hp, hd⟩ := StepSystem.exists_reachableVia_of_runFrom? (fun _ _ => True) partialRun
    (M := system fun _ => anyUser)
    (p := fun p => decide ((p.user .far).retrieved = [1] ∧ (p.wire .near).inFlight = [2] ∧
      (p.wire .near).broken = false)) (init_firstPipe fun _ => trivial) (by decide +kernel)
  obtain ⟨hone, htwo, hwhole⟩ := of_decide_eq_true hd
  obtain ⟨harrived, -, -, hall⟩ := delivery hp .near
  exact ⟨p, hone, htwo, harrived, hall hwhole⟩

/-! ## The end of the stream -/

/-- A side that has read the end of the stream gets no more. -/
theorem atEnd_of_reachable {okp : Pipe π → PipeAction ι → Prop}
    (h : (system P).ReachableVia okp p) (hended : p.ended side = true) :
    (p.wire side.peer).AtEnd := by
  refine h.invariant (I := fun p => p.ended side = true → (p.wire side.peer).AtEnd)
    (fun p hinit hend => ?_) (fun p act p' _ hp _ hstep hend => ?_) hended
  · rw [hinit.2.2 side] at hend
    cases hend
  rcases step_cases hstep with ⟨side', a, i, d, rfl, -, hread, hposs, -, hwire, hpeer, hends⟩ |
    ⟨-, heq, ⟨side', -, hwire⟩ | ⟨side', n, hwire⟩⟩
  · by_cases hside : side = side'
    · subst hside
      rw [hpeer]
      refine Wire.AtEnd.pop ?_ _
      rcases hends side hend with hbefore | ⟨-, hreads⟩
      · exact hp hbefore
      · rw [hreads] at hread
        exact hread
    · obtain rfl := Side.eq_peer_of_ne hside
      rw [Side.peer_peer] at hp ⊢
      rw [hwire]
      refine atEnd_carry (hp ?_) hposs
      exact (hends _ hend).resolve_right fun hboth => hside hboth.1
  · rw [hwire, Function.update_apply]
    have hbefore := hp (heq ▸ hend)
    split
    · next hside => exact (hside ▸ hbefore).finish
    · exact hbefore
  · rw [hwire, Function.update_apply]
    have hbefore := hp (heq ▸ hend)
    split
    · next hside => exact (hside ▸ hbefore).lose n
    · exact hbefore

/-- Until the side is closed, its wire is finished by `SHUT_WR`, and no message is given up on an
unbroken one. -/
structure Sound (x : Session × Wire UInt8) : Prop where
  finished : x.2.finished = true → ∃ unsent, .shutdownWrite unsent ∈ x.1.history
  kept : x.2.broken = false → ∀ e ∈ x.1.history, e.givesUp = false

theorem kept_sound :
    Kept Session.SendsInLoop fun x => ¬ x.1.Closed → Sound x where
  init s hs _ := by
    obtain ⟨self, loop, name, sockfd, hwm, wc, p, phase, atOnce, -, -, rfl⟩ := hs
    exact ⟨fun hfin => absurd hfin Bool.false_ne_true, by simp [Session.opened]⟩
  calls s c := by cases c <;> first | rfl | trivial
  step a x y hr hx _ hl hopen := by
    have hclosed : ¬ x.1.Closed := fun hc => hopen (hc.move (Session.move_of_step hl.step))
    obtain ⟨hfin, hkept⟩ := hx hclosed
    obtain ⟨es, hist, hposs, hw⟩ := hl.notes
    refine ⟨fun hdone => ?_, fun hwhole => ?_⟩
    · rw [hw, finished_carry] at hdone
      rw [hist]
      rcases hdone with hdone | ⟨unsent, hmem⟩
      · exact (hfin hdone).imp fun _ => List.mem_append_left _
      · exact ⟨unsent, List.mem_append_right _ hmem⟩
    · rw [hw, broken_carry] at hwhole
      intro e he
      rw [hist] at he
      rcases List.mem_append.mp he with he | he
      · exact hkept hwhole e he
      · rcases Session.givesUp_step hl.step hist with hno | ⟨hup, t, data, w, hfault, rfl⟩
        · exact hno e he
        · -- the `::write` failed on an unbroken wire, so `SHUT_WR` was issued before the `send`
          have hwrite : (ConnEvent.write data w).Possible x.2 := hposs.2.2.1
          have hover : x.2.finished = true := by
            rcases Call.isFault_iff.mp hfault with rfl | rfl
            · exact (hwrite (.inl rfl)).resolve_right (by simp [hwhole])
            · exact (hwrite (.inr rfl)).resolve_right (by simp [hwhole])
          obtain ⟨unsent, hmem⟩ := hfin hover
          exact absurd hup ((Session.inLoopOutput_of_reachable hr hclosed).ended unsent hmem).1
  pop s w n hx hopen := ⟨(hx hopen).finished, (hx hopen).kept⟩
  finish s w hr hrel _ hopen := absurd (hrel.closed hr) hopen
  lose s w n hx hopen := ⟨(hx hopen).finished, fun hwhole => absurd hwhole (by simp)⟩

/-- At the end of a stream that was not reset, the kernel has taken and handed over everything, and
nothing is left to write. -/
theorem accepted_of_ended (h : (system P).ReachableVia (Only side Session.SendsInLoop) p)
    (hopen : ¬ (p.session side).Closed) (hwhole : (p.wire side).broken = false)
    (hended : p.ended side.peer = true) :
    (p.wire side).delivered = acceptedBytes (p.session side).history ∧
      (p.session side).conn.unsent = [] := by
  obtain ⟨hs, hsound⟩ := kept_sound.invariant h
  have hatEnd := atEnd_of_reachable h hended
  rw [Side.peer_peer] at hatEnd
  have hfin : (p.wire side).finished = true := hatEnd.2.resolve_right (by simp [hwhole])
  obtain ⟨unsent, hmem⟩ := (hsound hopen).finished hfin
  exact ⟨(hatEnd.delivered_eq hwhole).trans (accepted_of_reachable h side).2,
    ((Session.inLoopOutput_of_reachable hs hopen).ended unsent hmem).2⟩

/-- **Graceful shutdown.** When a side reads the end of a stream that was not reset, from a peer that
was not closed and is used in the thread of its loop, it has received every message that the peer
sent, and the peer has nothing left in its output buffer. -/
theorem graceful_shutdown (h : (system P).ReachableVia (Only side Session.SendsInLoop) p)
    (hopen : .closeCallback ∉ (p.session side).history) (hwhole : (p.wire side).broken = false)
    (hended : p.ended side.peer = true) :
    (p.wire side).delivered = (sentMessages (p.session side).history).flatten ∧
      (p.session side).conn.outputBuffer.readable = [] := by
  obtain ⟨hs, hsound⟩ := kept_sound.invariant h
  obtain ⟨hall, hempty⟩ := accepted_of_ended h hopen hwhole hended
  have hflow := (Session.streams_of_reachable hs.reachable hopen).flow.conserved
  rw [hempty, List.append_nil] at hflow
  refine ⟨?_, hempty⟩
  calc (p.wire side).delivered
    _ = acceptedBytes (p.session side).history := hall
    _ = executedBytes (p.session side).history := hflow
    _ = (sentMessages (p.session side).history).flatten :=
        (Session.inLoopOutput_of_reachable hs hopen).executes ((hsound hopen).kept hwhole)

instance (s : Session) : ∀ a, Decidable (Session.SendsInLoop s a)
  | .send t _ _ | .sendBuffer t _ _ => inferInstanceAs (Decidable (s.conn.isInLoopThread t))
  | .poll _ | .task _ _ | .takeFunctors | .endIteration | .shutdown _ | .retrieveInput _
  | .setCallbacks _ _ | .removeConnection | .others _ => inferInstanceAs (Decidable True)

instance (side : Side) (ok : Session → SessionAction → Prop) [∀ s a, Decidable (ok s a)]
    (p : Pipe π) : ∀ act : PipeAction ι, Decidable (Only side ok p act)
  | .step side' a => inferInstanceAs (Decidable (side' = side → ok (p.session side) a.1))
  | .closeSocket _ | .reset _ _ => inferInstanceAs (Decidable True)

/-- The near side shuts down, and the far side reads to the end. -/
def shutdownRun : List (PipeAction Unit) :=
  partialRun ++ [.step .near (.shutdown (.loop 0), ()), .step .near (.poll (some {.POLLOUT}), ()),
    .step .near (.task .error (.accepted 1), ()), .step .far (.takeFunctors, ()),
    .step .far (.endIteration, ()), .step .far (.poll (some {.POLLIN}), ()),
    .step .far (.task (.data [2, 3]) (.accepted 0), ()), .step .far (.takeFunctors, ()),
    .step .far (.endIteration, ()), .step .far (.poll (some {.POLLIN}), ()),
    .step .far (.task (.data []) (.accepted 0), ())]

theorem graceful_shutdown_shutdownRun : ∃ p : Pipe Unit,
    sentMessages (p.session .near).history = [[1, 2, 3]] ∧
    (p.wire .near).delivered = (sentMessages (p.session .near).history).flatten ∧
    (p.session .near).conn.outputBuffer.readable = [] := by
  obtain ⟨p, hp, hd⟩ := StepSystem.exists_reachableVia_of_runFrom?
    (Only .near Session.SendsInLoop) shutdownRun (M := system fun _ => anyUser)
    (p := fun p => decide (sentMessages (p.session .near).history = [[1, 2, 3]] ∧
      .closeCallback ∉ (p.session .near).history ∧ (p.wire .near).broken = false ∧
      p.ended Side.near.peer = true)) (init_firstPipe fun _ => trivial)
    (by decide +kernel)
  obtain ⟨hsent, hopen, hwhole, hended⟩ := of_decide_eq_true hd
  exact ⟨p, hsent, graceful_shutdown hp hopen hwhole hended⟩

end Pipe

end MiniMuduo
