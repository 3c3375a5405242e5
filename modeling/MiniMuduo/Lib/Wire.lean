import Mathlib.Data.List.Infix

/-!
# One-way streams

A `Wire` carries a stream from a sending end to a receiving end. What is `push`ed is under way until it
is `pop`ped, in order. The sending end may `finish`, and the wire may `lose` whatever is under way from
some point on, and everything after it. The wire keeps its own record (`sent`, `delivered`), and its
invariant says what a reliable stream promises: what arrives is a prefix of what was sent, and all of
it when nothing was lost.
-/

structure Wire (α : Type) where
  /-- Everything that was pushed. -/
  sent : List α
  /-- Everything that was popped. -/
  delivered : List α
  inFlight : List α
  finished : Bool
  broken : Bool
  arrives : delivered ++ inFlight <+: sent
  whole : broken = false → delivered ++ inFlight = sent

namespace Wire

variable {α : Type}

def new : Wire α where
  sent := []
  delivered := []
  inFlight := []
  finished := false
  broken := false
  arrives := List.nil_prefix
  whole _ := rfl

/-- Send `xs`, which a broken wire takes and drops. -/
def push (w : Wire α) (xs : List α) : Wire α where
  sent := w.sent ++ xs
  delivered := w.delivered
  inFlight := if w.broken then w.inFlight else w.inFlight ++ xs
  finished := w.finished
  broken := w.broken
  arrives := by
    cases hb : w.broken with
    | true => exact w.arrives.trans (List.prefix_append _ _)
    | false =>
        rw [if_neg Bool.false_ne_true, ← List.append_assoc, w.whole hb]
  whole hb := by
    rw [hb, if_neg Bool.false_ne_true, ← List.append_assoc, w.whole hb]

/-- Receive `n` elements, or all there are. -/
def pop (w : Wire α) (n : ℕ) : Wire α where
  sent := w.sent
  delivered := w.delivered ++ w.inFlight.take n
  inFlight := w.inFlight.drop n
  finished := w.finished
  broken := w.broken
  arrives := by
    rw [List.append_assoc, List.take_append_drop]
    exact w.arrives
  whole hb := by
    rw [List.append_assoc, List.take_append_drop]
    exact w.whole hb

def finish (w : Wire α) : Wire α := { w with finished := true }

/-- Of what is under way the first `n` elements still arrive. -/
def lose (w : Wire α) (n : ℕ) : Wire α where
  sent := w.sent
  delivered := w.delivered
  inFlight := w.inFlight.take n
  finished := w.finished
  broken := true
  arrives := ((List.prefix_append_right_inj _).mpr (List.take_prefix n _)).trans w.arrives
  whole hb := absurd hb (by decide)

variable (w : Wire α) (xs : List α) (n : ℕ)

@[simp] theorem sent_push : (w.push xs).sent = w.sent ++ xs := rfl

@[simp] theorem delivered_push : (w.push xs).delivered = w.delivered := rfl

@[simp] theorem finished_push : (w.push xs).finished = w.finished := rfl

@[simp] theorem broken_push : (w.push xs).broken = w.broken := rfl

@[simp] theorem sent_pop : (w.pop n).sent = w.sent := rfl

@[simp] theorem delivered_pop : (w.pop n).delivered = w.delivered ++ w.inFlight.take n := rfl

@[simp] theorem finished_pop : (w.pop n).finished = w.finished := rfl

@[simp] theorem broken_pop : (w.pop n).broken = w.broken := rfl

@[simp] theorem sent_finish : w.finish.sent = w.sent := rfl

@[simp] theorem delivered_finish : w.finish.delivered = w.delivered := rfl

@[simp] theorem inFlight_finish : w.finish.inFlight = w.inFlight := rfl

@[simp] theorem finished_finish : w.finish.finished = true := rfl

@[simp] theorem broken_finish : w.finish.broken = w.broken := rfl

@[simp] theorem sent_lose : (w.lose n).sent = w.sent := rfl

@[simp] theorem delivered_lose : (w.lose n).delivered = w.delivered := rfl

@[simp] theorem finished_lose : (w.lose n).finished = w.finished := rfl

@[simp] theorem broken_lose : (w.lose n).broken = true := rfl

/-- Nothing is under way and nothing will be. -/
def AtEnd : Prop := w.inFlight = [] ∧ (w.finished = true ∨ w.broken = true)

instance [DecidableEq α] : Decidable w.AtEnd :=
  inferInstanceAs (Decidable (_ ∧ _))

variable {w xs}

theorem delivered_prefix : w.delivered <+: w.sent :=
  (List.prefix_append _ _).trans w.arrives

/-- At the end of a wire that lost nothing, everything has arrived. -/
theorem AtEnd.delivered_eq (h : w.AtEnd) (hb : w.broken = false) : w.delivered = w.sent := by
  rw [← w.whole hb, h.1, List.append_nil]

/-- A wire at its end stays there, unless something is pushed after `finish`. -/
theorem AtEnd.push (h : w.AtEnd) (hx : w.finished = true → xs = []) : (w.push xs).AtEnd := by
  refine ⟨?_, h.2⟩
  show (if w.broken then w.inFlight else w.inFlight ++ xs) = []
  rcases h.2 with hf | hb
  · rw [hx hf, List.append_nil, ite_self, h.1]
  · rw [if_pos hb, h.1]

theorem AtEnd.pop (h : w.AtEnd) (n : ℕ) : (w.pop n).AtEnd := by
  refine ⟨?_, h.2⟩
  show w.inFlight.drop n = []
  rw [h.1, List.drop_nil]

theorem AtEnd.finish (h : w.AtEnd) : w.finish.AtEnd := ⟨h.1, .inl rfl⟩

theorem AtEnd.lose (h : w.AtEnd) (n : ℕ) : (w.lose n).AtEnd := by
  refine ⟨?_, .inr rfl⟩
  show w.inFlight.take n = []
  rw [h.1, List.take_nil]

/-- Receiving a prefix of what is under way delivers it. -/
theorem delivered_pop_of_prefix (h : xs <+: w.inFlight) :
    (w.pop xs.length).delivered = w.delivered ++ xs := by
  obtain ⟨rest, hrest⟩ := h
  rw [delivered_pop, ← hrest, List.take_left]

end Wire
