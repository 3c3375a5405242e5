import MiniMuduo.Net.Closing
import MiniMuduo.Net.InputStream

/-!
# Programs

A user of a connection is a program of callbacks: the thread of the loop invokes one of them, and the
program answers with calls on the connection before anything else happens in that thread. A
`Program` says what it answers, given a state of its own and an input for what it cannot know (results
of system calls, the time). `Program.system` is the session of a connection with such a user: every
step of the session is followed at once by the answers to the callbacks it made.

A run of the program is a run of the session (`session_reachable`), so whatever holds of sessions with
any user holds of this one.
-/

namespace MiniMuduo

open Fallible

/-- What a program calls on its connection in the thread of the loop. -/
inductive UserCall where
  | send (message : Bytes) (w : WriteResult)
  | sendBuffer (data : Bytes) (w : WriteResult)
  | shutdown
  | retrieveInput (len : ℕ)

def UserCall.action (loop : LoopId) : UserCall → SessionAction
  | .send message w => .send (.loop loop) message w
  | .sendBuffer data w => .sendBuffer (.loop loop) data w
  | .shutdown => .shutdown (.loop loop)
  | .retrieveInput len => .retrieveInput len

/-- Steps of the loop and of the owner, as opposed to calls of the user. -/
def SessionAction.byLoop : SessionAction → Bool
  | .poll _ | .task _ _ | .takeFunctors | .endIteration | .removeConnection | .others _ => true
  | _ => false

/-- A program with states `π`, inputs `ι` and faults `ε`. -/
structure Program (π ι ε : Type) where
  start : π
  /-- How the connection is set up. -/
  setup : Session → Prop
  /-- The steps of the session that do not belong to the program. -/
  allows : SessionAction → Prop
  /-- The answer to what was noted. -/
  react : π → Session → ι → ConnEvent → Except ε (π × List UserCall)
  ofNet : NetFault → ε

/-- A user who may call the connection at any time and answers no callback. -/
def anyUser : Program Unit Unit NetFault where
  start := ()
  setup _ := True
  allows _ := True
  react _ _ _ _ := return ((), [])
  ofNet := id

instance : DecidablePred anyUser.allows := fun _ => inferInstanceAs (Decidable True)

/-- A session and the state of the program that uses it. -/
structure Driven (π : Type) where
  session : Session
  program : π
  /-- What was taken out of the input buffer so far. -/
  retrieved : Bytes

/-- A step of the session, or a call, with the record of what it takes out. -/
def Driven.exec {π : Type} (d : Driven π) (a : SessionAction) : Except NetFault (Driven π) := do
  let session ← d.session.exec a
  return ⟨session, d.program, d.retrieved ++ d.session.retrieved a⟩

/-- Calls one after the other. -/
def Driven.perform {π : Type} (d : Driven π) (calls : List UserCall) : Except NetFault (Driven π) :=
  calls.foldlM (fun d c => d.exec (c.action d.session.conn.loop)) d

/-- What calls one after the other do to the session. -/
def Session.perform (s : Session) (calls : List UserCall) : Except NetFault Session :=
  calls.foldlM (fun s c => s.exec (c.action s.conn.loop)) s

namespace Program

variable {π ι ε : Type} (P : Program π ι ε)

/-- The program answers one note. -/
def answer (i : ι) (d : Driven π) (e : ConnEvent) : Except ε (Driven π) := do
  let (program, calls) ← P.react d.program d.session i e
  (Driven.perform { d with program } calls).mapError P.ofNet

/-- A step of the session, and the answers to what it noted. -/
def exec (d : Driven π) (a : SessionAction × ι) : Except ε (Driven π) := do
  let d' ← (d.exec a.1).mapError P.ofNet
  let notes := d'.session.history.drop d.session.history.length
  notes.foldlM (P.answer a.2) d'

def system : StepSystem (Driven π) (SessionAction × ι) ε where
  init d := Session.init d.session ∧ P.setup d.session ∧ d.program = P.start ∧ d.retrieved = []
  enabled d a := d.session.enabled a.1 ∧ P.allows a.1
  exec := P.exec

instance [DecidablePred P.allows] (d : Driven π) (a : SessionAction × ι) :
    Decidable (P.system.enabled d a) :=
  inferInstanceAs (Decidable (d.session.enabled a.1 ∧ P.allows a.1))

variable {P} {d d' : Driven π} {a : SessionAction} {i : ι}

theorem enabled_action (s : Session) (c : UserCall) : s.enabled (c.action s.conn.loop) := by
  cases c <;> trivial

/-- What every step of a session keeps, calls keep. -/
theorem perform_keeps {Q : Session → Prop}
    (hQ : ∀ s a s', Session.system.Step s a s' → Q s → Q s') {s s' : Session}
    {calls : List UserCall} (hs : Q s) (h : s.perform calls = .ok s') : Q s' := by
  induction calls generalizing s with
  | nil =>
      cases h
      exact hs
  | cons c calls ih =>
      rw [Session.perform, List.foldlM_cons] at h
      obtain ⟨s₁, hs₁, h⟩ := bind_eq_ok.mp h
      exact ih (hQ s _ s₁ ⟨enabled_action s c, hs₁⟩ hs) h

/-- The session goes through the calls as without a record, and nothing is appended to its input buffer
meanwhile. -/
theorem perform_eq_ok {calls : List UserCall} (h : d.perform calls = .ok d') :
    d.session.perform calls = .ok d'.session ∧ d'.program = d.program ∧
      d'.retrieved ++ d'.session.conn.inputBuffer.readable =
        d.retrieved ++ d.session.conn.inputBuffer.readable := by
  induction calls generalizing d with
  | nil =>
      cases h
      exact ⟨rfl, rfl, rfl⟩
  | cons c calls ih =>
      rw [Driven.perform, List.foldlM_cons] at h
      obtain ⟨d₁, hd₁, h⟩ := bind_eq_ok.mp h
      obtain ⟨s₁, hs₁, hd₁⟩ := bind_eq_ok.mp hd₁
      cases hd₁
      obtain ⟨hperform, hprogram, hinput⟩ := ih h
      have hnone : d.session.received (c.action d.session.conn.loop) = [] := by cases c <;> rfl
      have hone := Session.retrieved_append_readable ⟨enabled_action _ c, hs₁⟩
      rw [hnone, List.append_nil] at hone
      refine ⟨?_, hprogram, ?_⟩
      · rw [Session.perform, List.foldlM_cons]
        exact bind_eq_ok.mpr ⟨s₁, hs₁, hperform⟩
      · rw [hinput, List.append_assoc, hone]

theorem answer_eq_ok {e : ConnEvent} (h : P.answer i d e = .ok d') :
    ∃ calls, P.react d.program d.session i e = .ok (d'.program, calls) ∧
      d.session.perform calls = .ok d'.session ∧
      d'.retrieved ++ d'.session.conn.inputBuffer.readable =
        d.retrieved ++ d.session.conn.inputBuffer.readable := by
  obtain ⟨⟨program, calls⟩, hreact, h⟩ := bind_eq_ok.mp h
  obtain ⟨hperform, hprogram, hinput⟩ := perform_eq_ok (mapError_eq_ok.mp h)
  exact ⟨calls, by rw [hprogram]; exact hreact, hperform, hinput⟩

/-- A step of the program is a step of the session and answers. -/
theorem step_eq_ok (h : P.system.Step d (a, i) d') :
    P.allows a ∧ ∃ s, Session.system.Step d.session a s ∧
      (s.history.drop d.session.history.length).foldlM (P.answer i)
        ⟨s, d.program, d.retrieved ++ d.session.retrieved a⟩ = .ok d' := by
  obtain ⟨⟨hen, hallows⟩, hex⟩ := h
  obtain ⟨d₁, hd₁, hex⟩ := bind_eq_ok.mp hex
  obtain ⟨s, hs, hd₁⟩ := bind_eq_ok.mp (mapError_eq_ok.mp hd₁)
  cases hd₁
  exact ⟨hallows, s, ⟨hen, hs⟩, hex⟩

/-- **What a step of a program does to the input buffer**: what was taken out so far and what is there
grow, together, by what the step reads. -/
theorem step_input (h : P.system.Step d (a, i) d') :
    d'.retrieved ++ d'.session.conn.inputBuffer.readable =
      d.retrieved ++ d.session.conn.inputBuffer.readable ++ d.session.received a := by
  obtain ⟨-, s, hs, hanswers⟩ := step_eq_ok h
  have hall : ∀ {notes : List ConnEvent} {d₁ : Driven π},
      notes.foldlM (P.answer i) d₁ = .ok d' →
      d'.retrieved ++ d'.session.conn.inputBuffer.readable =
        d₁.retrieved ++ d₁.session.conn.inputBuffer.readable := by
    intro notes
    induction notes with
    | nil =>
        intro d₁ h
        cases h
        rfl
    | cons e notes ih =>
        intro d₁ h
        rw [List.foldlM_cons] at h
        obtain ⟨d₂, hd₂, h⟩ := bind_eq_ok.mp h
        obtain ⟨-, -, -, hinput⟩ := answer_eq_ok hd₂
        exact (ih h).trans hinput
  rw [hall hanswers, List.append_assoc, List.append_assoc, Session.retrieved_append_readable hs]

theorem answers_keep {Q : Session → Prop}
    (hQ : ∀ s a s', Session.system.Step s a s' → Q s → Q s') {notes : List ConnEvent}
    (hd : Q d.session) (h : notes.foldlM (P.answer i) d = .ok d') : Q d'.session := by
  induction notes generalizing d with
  | nil =>
      cases h
      exact hd
  | cons e notes ih =>
      rw [List.foldlM_cons] at h
      obtain ⟨d₁, hd₁, h⟩ := bind_eq_ok.mp h
      obtain ⟨calls, -, hperform, -⟩ := answer_eq_ok hd₁
      exact ih (perform_keeps hQ hd hperform) h

theorem step_keeps {Q : Session → Prop}
    (hQ : ∀ s a s', Session.system.Step s a s' → Q s → Q s') (h : P.system.Step d (a, i) d')
    (hd : Q d.session) : Q d'.session := by
  obtain ⟨-, s, hs, hanswers⟩ := step_eq_ok h
  exact answers_keep (d := ⟨s, d.program, _⟩) hQ (hQ _ _ _ hs hd) hanswers

/-- **A run of a program is a run of its session.** -/
theorem session_reachable {ok : Driven π → SessionAction × ι → Prop}
    (h : P.system.ReachableVia ok d) : Session.system.Reachable d.session := by
  induction h with
  | init hinit => exact .init hinit.1
  | step _ _ hstep ih =>
      exact step_keeps (Q := Session.system.Reachable) (fun _ _ _ hs hr => .step hr trivial hs)
        hstep ih

/-- What was closed stays closed. -/
theorem closed_step (h : P.system.Step d (a, i) d') (hd : d.session.Closed) : d'.session.Closed :=
  step_keeps (fun _ _ _ hs hc => hc.move (Session.move_of_step hs)) h hd

end Program

end MiniMuduo
