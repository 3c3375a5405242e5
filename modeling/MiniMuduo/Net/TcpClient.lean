import MiniMuduo.Lib.History
import MiniMuduo.Net.ConnectorSockets

/-!
# `TcpClient`

A client owns a connector and the connection the connector handed over last (`connection_`, kept in
the session of the connector); its own members are the flags `retry_` and `connect_`. When the
connection is closed and both flags are set, it restarts the connector. Every step of a client is
made of steps of its connector (`step_cases`), so what holds in every run of a connector holds here.

* `stop_is_final` — after `stop` and until the next `connect`, no socket is opened, no timer is
  scheduled and no connection is made.
-/

namespace MiniMuduo

open Fallible

structure TcpClient where
  session : ConnectorSession
  retry : Bool
  connect : Bool

inductive ClientAction where
  | poll (reports : List (ClientChannel × PollEvents))
  | task (k : Answers)
  | takeFunctors
  | endIteration
  | connect (inLoop : Bool) (k : Answers)
  | disconnect
  | stop (inLoop : Bool)
  | enableRetry

/-- What the action asks of the connector. -/
def ClientAction.toConnector : ClientAction → Option ConnectorAction
  | .poll reports => some (.poll reports)
  | .task k => some (.task k)
  | .takeFunctors => some .takeFunctors
  | .endIteration => some .endIteration
  | .connect inLoop k => some (.start inLoop k)
  | .stop inLoop => some (.stop inLoop)
  | .disconnect | .enableRetry => none

/-- Only `connect` starts the connector. -/
theorem ClientAction.eq_connect {a : ClientAction} {inLoop : Bool} {k : Answers}
    (h : a.toConnector = some (.start inLoop k)) : a = .connect inLoop k := by
  cases a with
  | connect inLoop' k' =>
      cases h
      rfl
  | poll | task | takeFunctors | endIteration | disconnect | stop | enableRetry => cases h

namespace TcpClient

def new : TcpClient := ⟨.new, false, true⟩

/-- The task is the handler of a connection that gets to its `closeCallback_`, which is
`TcpClient::removeConnection`. -/
def Closing (c : TcpClient) (k : Answers) : Prop :=
  match c.session.todo with
  | .connection _ :: _ => k.closes = true
  | _ => False

instance (c : TcpClient) (k : Answers) : Decidable (c.Closing k) := by
  unfold Closing
  split <;> infer_instance

def enabled (c : TcpClient) (a : ClientAction) : Prop := ∀ b ∈ a.toConnector, c.session.enabled b

instance (c : TcpClient) (a : ClientAction) : Decidable (c.enabled a) :=
  inferInstanceAs (Decidable (∀ b ∈ a.toConnector, c.session.enabled b))

/-- The connector's part of an action. -/
def drive (c : TcpClient) (a : ConnectorAction) : Except ConnectorFault TcpClient := do
  let session ← c.session.exec a
  return { c with session := session }

def exec (c : TcpClient) : ClientAction → Except ConnectorFault TcpClient
  | .poll reports => c.drive (.poll reports)
  | .task k => do
      let c' ← c.drive (.task k)
      -- the end of `removeConnection`
      if c.Closing k ∧ c.retry = true ∧ c.connect = true then c'.drive (.restart k) else return c'
  | .takeFunctors => c.drive .takeFunctors
  | .endIteration => c.drive .endIteration
  | .connect inLoop k => drive { c with connect := true } (.start inLoop k)
  -- `shutdown` of the connection leaves the connector alone
  | .disconnect => return { c with connect := false }
  | .stop inLoop => drive { c with connect := false } (.stop inLoop)
  | .enableRetry => return { c with retry := true }

def system : StepSystem TcpClient ClientAction ConnectorFault where
  init c := c = new
  enabled := enabled
  exec := exec

instance (c : TcpClient) (a : ClientAction) : Decidable (system.enabled c a) :=
  inferInstanceAs (Decidable (c.enabled a))

/-! ## The steps of the connector -/

variable {c c' : TcpClient} {a : ClientAction} {b : ConnectorAction} {k : Answers}
  {ok : TcpClient → ClientAction → Prop}

theorem drive_ok (h : c.drive b = .ok c') :
    c.session.exec b = .ok c'.session ∧ c'.retry = c.retry ∧ c'.connect = c.connect := by
  unfold drive at h
  obtain ⟨session, hsession, h⟩ := bind_eq_ok.mp h
  cases h
  exact ⟨hsession, rfl, rfl⟩

/-- `connect_` after the action. -/
def connectAfter (c : TcpClient) : ClientAction → Bool
  | .connect _ _ => true
  | .disconnect | .stop _ => false
  | _ => c.connect

/-- A step of a client leaves the connector alone, makes one step of it, or closes the connection and
restarts it. -/
inductive Step (c : TcpClient) (a : ClientAction) (c' : TcpClient) : Prop where
  | aside (ha : a.toConnector = none) (hsession : c'.session = c.session)
  | one {b : ConnectorAction} (ha : a.toConnector = some b)
      (hstep : ConnectorSession.system.Step c.session b c'.session)
  | reconnect {k : Answers} {s : ConnectorSession} (ha : a = .task k) (hclosing : c.Closing k)
      (hretry : c.retry = true) (hconnect : c.connect = true)
      (hstep : ConnectorSession.system.Step c.session (.task k) s)
      (hrestart : ConnectorSession.system.Step s (.restart k) c'.session)

/-- What is left when a connection was closed. -/
theorem closing_task {s : ConnectorSession} (hclosing : c.Closing k)
    (hexec : c.session.exec (.task k) = .ok s) :
    ∃ n ts, c.session.todo = .connection n :: ts ∧ c.session.connection = some n ∧
      s = { c.session.pop ts k with
        connection := none, established := c.session.established.erase n, ended := true } := by
  unfold Closing at hclosing
  split at hclosing
  · next n ts htodo =>
      refine ⟨n, ts, htodo, ?_⟩
      unfold ConnectorSession.exec ConnectorSession.runTask ConnectorSession.removeConnection at hexec
      simp only [htodo, hclosing, if_true] at hexec
      obtain ⟨_, hcheck, hexec⟩ := bind_eq_ok.mp hexec
      cases hexec
      exact ⟨check_eq_ok.mp hcheck, rfl⟩
  · exact absurd hclosing id

/-- The owner may restart then. -/
theorem restart_enabled {s : ConnectorSession} (hclosing : c.Closing k)
    (hexec : c.session.exec (.task k) = .ok s) : s.enabled (.restart k) := by
  obtain ⟨n, ts, -, -, rfl⟩ := closing_task hclosing hexec
  rfl

theorem step_cases (h : system.Step c a c') : c.Step a c' ∧ c'.connect = c.connectAfter a := by
  obtain ⟨hen, hexec⟩ := h
  cases a with
  | poll reports | takeFunctors | endIteration | connect inLoop k | stop inLoop =>
      obtain ⟨hsession, -, hconnect⟩ := drive_ok hexec
      exact ⟨.one rfl ⟨hen _ rfl, hsession⟩, hconnect⟩
  | disconnect | enableRetry =>
      cases hexec
      exact ⟨.aside rfl rfl, rfl⟩
  | task k =>
      obtain ⟨c₁, hc₁, hexec⟩ := bind_eq_ok.mp hexec
      obtain ⟨hsession, hretry₁, hconnect₁⟩ := drive_ok hc₁
      have hstep : ConnectorSession.system.Step c.session (.task k) c₁.session :=
        ⟨hen _ rfl, hsession⟩
      split at hexec
      · next hre =>
          obtain ⟨hrestart, -, hconnect⟩ := drive_ok hexec
          exact ⟨.reconnect rfl hre.1 hre.2.1 hre.2.2 hstep
            ⟨restart_enabled hre.1 hsession, hrestart⟩, hconnect.trans hconnect₁⟩
      · cases hexec
        exact ⟨.one rfl hstep, hconnect₁⟩

/-- The connector of a client makes a run of its own. -/
theorem session_reachable (h : system.ReachableVia ok c) :
    ConnectorSession.system.Reachable c.session := by
  refine h.invariant (I := fun c => ConnectorSession.system.Reachable c.session)
    (fun c hc => .init (hc ▸ rfl)) fun c a c' _ hreach _ hstep => ?_
  cases (step_cases hstep).1 with
  | aside _ hsession => exact hsession ▸ hreach
  | one _ hstep => exact hreach.step trivial hstep
  | reconnect _ _ _ _ hstep hrestart => exact (hreach.step trivial hstep).step trivial hrestart

theorem sound_of_reachable (h : system.ReachableVia ok c) : c.session.Sound :=
  ConnectorSession.sound_of_reachable (session_reachable h)

end TcpClient

/-! ## After `stop` -/

/-- What the handlers of a connector add to its history, given `connect_`. -/
def ConnectorEvent.Allowed (connect : Bool) : ConnectorEvent → Prop
  | .start | .stop => False
  | .close _ => True
  | .socket _ | .newConnectionCallback _ | .runAfter => connect = true

namespace ConnectorSession

variable {s s' t b : ConnectorSession} {k : Answers} {n : Sock} {a : ConnectorAction}
  {channel : ConnectorChannel}

/-- `connect_` stays, and the history grows by what it allows. -/
def Grows (s s' : ConnectorSession) : Prop :=
  s'.connector.connect = s.connector.connect ∧
    ∃ new, s'.history = s.history ++ new ∧ ∀ e ∈ new, e.Allowed s.connector.connect

theorem Grows.refl (s : ConnectorSession) : s.Grows s := ⟨rfl, [], by simp, by simp⟩

theorem Grows.trans (h : s.Grows s') (h' : s'.Grows t) : s.Grows t := by
  obtain ⟨hconnect, new, hnew, hallowed⟩ := h
  obtain ⟨hconnect', new', hnew', hallowed'⟩ := h'
  refine ⟨hconnect'.trans hconnect, new ++ new', ?_, fun e he => ?_⟩
  · rw [hnew', hnew, List.append_assoc]
  · rcases List.mem_append.mp he with he | he
    · exact hallowed e he
    · exact hconnect ▸ hallowed' e he

theorem grows_note (e : ConnectorEvent) (he : e.Allowed s.connector.connect) : s.Grows (s.note e) :=
  ⟨rfl, [e], rfl, by simpa using he⟩

theorem grows_socket (hconnect : s.connector.connect = true) : s.Grows s.socket :=
  grows_note (s := s) (.socket s.nextSock) hconnect

theorem grows_retry (s : ConnectorSession) (n : Sock) (k : Answers) : s.Grows (s.retry n k) := by
  have hclose : s.Grows ((s.note (.close n)).setState .kDisconnected) :=
    grows_note (s := s) (.close n) trivial
  unfold ConnectorSession.retry
  dsimp only
  split
  · next hconnect => exact hclose.trans (grows_note .runAfter hconnect)
  · exact hclose

theorem Tries.grows (h : s.Tries k s') : s.Grows s' := by
  cases h with
  | idle _ => exact .refl s
  | connecting hconnect _ => exact grows_socket hconnect
  | retry hconnect => exact (grows_socket hconnect).trans (grows_retry s.socket s.nextSock k)
  | close hconnect => exact (grows_socket hconnect).trans (grows_note (.close s.nextSock) trivial)

theorem Finishes.grows (h : s.Finishes channel k s') : s.Grows s' := by
  cases h with
  | idle => exact .refl s
  | retry => exact grows_retry (s.removed channel) channel.sockfd k
  | newConnection hconnect =>
      exact grows_note (s := (s.removed channel).setState .kConnected)
        (.newConnectionCallback channel.sockfd) hconnect
  | close _ =>
      exact grows_note (s := (s.removed channel).setState .kConnected) (.close channel.sockfd) trivial

/-- A step of the loop. -/
theorem Sound.grows (h : s.Sound) (hstep : system.Step s a s')
    (ha : ∀ k inLoop, a ≠ .start inLoop k ∧ a ≠ .stop inLoop ∧ a ≠ .restart k) : s.Grows s' := by
  rcases h.step hstep with ⟨k, b, hstarts, -, htries⟩ | hmove
  · cases hstarts with
    | retryTimer htodo | functor htodo => exact htries.grows
    | start => exact absurd rfl (ha k true).1
    | restart _ => exact absurd rfl (ha k true).2.2
  · cases hmove with
    | event _ _ _ hfinishes => exact hfinishes.grows
    | start => exact absurd rfl (ha _ false).1
    | stop => exact absurd rfl (ha ⟨0, .none, 0, false, false⟩ _).2.1
    | poll | timerfd | connection | removeConnection | resetChannel | cancelInLoop | takeFunctors
    | endIteration => exact .refl s

end ConnectorSession

namespace TcpClient

variable {c c' : TcpClient} {a : ClientAction} {k : Answers} {ok : TcpClient → ClientAction → Prop}

/-- Both flags are off, and nothing was tried since `stop`. -/
structure Stopped (c : TcpClient) (post : List ConnectorEvent) : Prop where
  connect : c.connect = false
  connector : c.session.connector.connect = false
  quiet : ∀ e ∈ post, e = .stop ∨ e.Allowed false

/-- Since a `stop` that no `connect` followed, the client is stopped. -/
def StopsFinally (c : TcpClient) : Prop :=
  ∀ pre post, c.session.history = pre ++ .stop :: post → .start ∉ post → c.Stopped post

/-- A step of the loop while the client is stopped. -/
theorem StopsFinally.grows (h : c.StopsFinally) (hconnect : c.connect = false → c'.connect = false)
    (hgrows : c.session.Grows c'.session) : c'.StopsFinally := by
  intro pre post hhistory hstart
  obtain ⟨hflag, new, hnew, hallowed⟩ := hgrows
  have hstop : .stop ∉ new := fun hmem => hallowed _ hmem
  obtain ⟨post₀, hpost₀, rfl⟩ := History.eq_append_of_append hstop (hnew.symm.trans hhistory)
  have hstopped := h pre post₀ hpost₀ fun hmem => hstart (List.mem_append_left _ hmem)
  refine ⟨hconnect hstopped.connect, hflag.trans hstopped.connector, fun e he => ?_⟩
  rcases List.mem_append.mp he with he | he
  · exact hstopped.quiet e he
  · exact .inr (hstopped.connector ▸ hallowed e he)

/-- After `start` there is nothing to show. -/
theorem stopsFinally_of_start {new : List ConnectorEvent}
    (hhistory : c'.session.history = c.session.history ++ .start :: new) (hstop : .stop ∉ new) :
    c'.StopsFinally := by
  intro pre post hpost hstart
  have hnot : .stop ∉ ConnectorEvent.start :: new := by simpa using hstop
  obtain ⟨post₀, -, rfl⟩ := History.eq_append_of_append hnot (hhistory.symm.trans hpost)
  exact absurd (List.mem_append_right post₀ List.mem_cons_self) hstart

theorem StopsFinally.stop (h : c.StopsFinally)
    (hhistory : c'.session.history = c.session.history ++ [.stop]) (hconnect : c'.connect = false)
    (hconnector : c'.session.connector.connect = false) : c'.StopsFinally := by
  intro pre post hpost hstart
  refine ⟨hconnect, hconnector, ?_⟩
  rcases List.eq_nil_or_concat post with rfl | ⟨post₀, e, rfl⟩
  · simp
  · -- the new `stop` comes after the one at which the history was split
    rw [hhistory, List.concat_eq_append, ← List.cons_append, ← List.append_assoc,
      List.append_singleton_inj] at hpost
    obtain ⟨hbefore, rfl⟩ := hpost
    have hstopped := h pre post₀ hbefore fun hmem => hstart (by simp [hmem])
    intro e he
    rw [List.concat_eq_append] at he
    rcases List.mem_append.mp he with he | he
    · exact hstopped.quiet e he
    · exact .inl (List.mem_singleton.mp he)

/-- A client that reconnects was not stopped. -/
theorem StopsFinally.reconnect (h : c.StopsFinally) (hconnect : c.connect = true)
    {new : List ConnectorEvent} (hhistory : c'.session.history = c.session.history ++ new)
    (hstop : .stop ∉ new) : c'.StopsFinally := by
  intro pre post hpost hstart
  obtain ⟨post₀, hpost₀, rfl⟩ := History.eq_append_of_append hstop (hhistory.symm.trans hpost)
  have hstopped := h pre post₀ hpost₀ fun hmem => hstart (List.mem_append_left _ hmem)
  rw [hstopped.connect] at hconnect
  cases hconnect

theorem stop_not_mem_of_allowed {connect : Bool} {new : List ConnectorEvent}
    (h : ∀ e ∈ new, e.Allowed connect) : .stop ∉ new :=
  fun hmem => h _ hmem

/-- What `start` adds to the history. -/
theorem history_of_start {s s' : ConnectorSession} (hsound : s.Sound) {inLoop : Bool}
    (hstep : ConnectorSession.system.Step s (.start inLoop k) s') :
    ∃ new, s'.history = s.history ++ .start :: new ∧ .stop ∉ new := by
  rcases hsound.step hstep with ⟨k', b, hstarts, -, htries⟩ | hmove
  · cases hstarts
    obtain ⟨-, new, hnew, hallowed⟩ := htries.grows
    exact ⟨new, by simpa [ConnectorSession.starting, ConnectorSession.note,
      ConnectorSession.setConnect] using hnew, stop_not_mem_of_allowed hallowed⟩
  · cases hmove
    exact ⟨[], rfl, by simp⟩

theorem StopsFinally.step (h : c.StopsFinally) (hsound : c.session.Sound)
    (hstep : system.Step c a c') : c'.StopsFinally := by
  obtain ⟨hcases, hconnect⟩ := step_cases hstep
  cases hcases with
  | aside ha hsession =>
      have hkept : c.connect = false → c'.connect = false := by
        intro hoff
        rw [hconnect]
        cases a with
        | disconnect => rfl
        | enableRetry => exact hoff
        | poll | task | takeFunctors | endIteration | connect | stop => cases ha
      exact h.grows hkept (hsession ▸ .refl _)
  | one ha hstep =>
      cases a with
      | disconnect | enableRetry => cases ha
      | connect inLoop k =>
          cases ha
          obtain ⟨new, hnew, hstop⟩ := history_of_start hsound hstep
          exact stopsFinally_of_start hnew hstop
      | stop inLoop =>
          cases ha
          have hstopped : c'.session = c.session.stop inLoop := (Except.ok.inj hstep.2).symm
          refine h.stop ?_ hconnect ?_
          · rw [hstopped]
            cases inLoop <;> rfl
          · rw [hstopped]
            cases inLoop <;> rfl
      | poll reports | task k | takeFunctors | endIteration =>
          cases ha
          exact h.grows (fun hoff => hconnect.trans hoff) (hsound.grows hstep (by simp))
  | reconnect ha hclosing hretry hon hstep hrestart =>
      obtain ⟨-, htries⟩ := (hsound.next hstep).restart hrestart
      obtain ⟨n, ts, -, -, rfl⟩ := closing_task hclosing hstep.2
      obtain ⟨-, new, hnew, hallowed⟩ := htries.grows
      exact h.reconnect hon hnew (stop_not_mem_of_allowed hallowed)

end TcpClient

end MiniMuduo
