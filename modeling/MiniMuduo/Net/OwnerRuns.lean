import MiniMuduo.Net.Lifetimes
import MiniMuduo.Net.OwnerLoop

/-!
# What outlives an owner

As long as an owner is destroyed only when it has no connection, the runs of an `OwnerLoop` are runs
of its table (`Sound`), so that the last reference to a connection goes when its channel is out of the
poller. A new channel then finds its descriptor unused, unless the number is that of the listening
socket of a destroyed server, whose acceptor leaves its channel behind (`registered_while_owned`). In
`droppedRun` a server is destroyed that has a connection.
-/

namespace MiniMuduo

open Fallible

namespace OwnerLoop

/-! ## The condition -/

/-- An owner is destroyed when it has no connection. -/
def DestroysIdle (s : OwnerLoop) : OwnerAction → Prop
  | .destroy o => s.Idle o
  | _ => True

instance (s : OwnerLoop) : ∀ a, Decidable (s.DestroysIdle a)
  | .destroy o => inferInstanceAs (Decidable (s.Idle o))
  | .newServer _ | .newClient | .start _ | .accept _ _ _ | .connect _ _ | .restart _ _
  | .attempted _ _ | .resetChannel _ | .loop _ => inferInstanceAs (Decidable True)

/-- The descriptor of the channel that the action makes known to the poller. -/
def opening? (s : OwnerLoop) : OwnerAction → Option Fd
  | .start o => (s.owners o).bind Owner.fd?
  | .accept _ sockfd _ | .connect _ sockfd | .restart _ sockfd => some sockfd
  | .attempted o (.newConnection _) => (s.owners o).bind Owner.fd?
  | _ => none

/-- The number is in `channels_` for an owner that is gone. -/
def Stale (s : OwnerLoop) (fd : Fd) : Prop := ∃ o, s.channels fd = some o ∧ s.owners o = none

instance (s : OwnerLoop) (fd : Fd) : Decidable (s.Stale fd) :=
  decidable_of_iff (∃ o ∈ s.channels fd, s.owners o = none) (by simp [Stale])

/-! ## The descriptors -/

variable {s s' : OwnerLoop} {o : OwnerId} {c : ConnId} {fd : Fd} {a : OwnerAction}

theorem fd?_of_key? {x : Owner} (h : x.key? = some fd) : x.fd? = some fd := by
  unfold Owner.key? at h
  split at h
  · exact h
  · exact h
  · cases h

/-- No connection has the descriptor. -/
def ConnFree (s : OwnerLoop) (fd : Fd) : Prop := ∀ c i, s.table.ident c = some i → i.fd ≠ fd

/-- The owners keep their books: the descriptors of connections, acceptors and connectors differ, what
is in `channels_` for an owner that exists is what this owner has there, and a client has a connection
only while its connector is done. -/
structure Sound (s : OwnerLoop) : Prop where
  table : TcpServer.system.ReachableVia (TcpServer.Meets Session.SendsInLoop) s.table
  ioLoops : s.table.ioLoops = 0
  loops : ∀ c i, s.table.ident c = some i → i.loop = 0
  owner : ∀ c o, s.owner c = some o → c < s.table.nextConnId ∧ o < s.nextOwner
  owners : ∀ o x, s.owners o = some x → o < s.nextOwner
  keys : ∀ fd o, s.channels fd = some o →
    o < s.nextOwner ∧ ∀ x, s.owners o = some x → x.key? = some fd
  apart : ∀ o x fd, s.owners o = some x → x.fd? = some fd →
    s.ConnFree fd ∧ ∀ o' x', s.owners o' = some x' → x'.fd? = some fd → o' = o
  conns : ∀ c i, s.table.ident c = some i → s.channels i.fd = none
  clients : ∀ o c state ch, s.Holds o c → s.owners o = some (.client state ch) →
    state = .kConnected

theorem Sound.tracked (h : s.Sound) : s.table.Tracked Session.SendsInLoop :=
  TcpServer.tracked_of_reachable Session.liberal_sendsInLoop h.table

theorem Sound.connFree (h : s.Sound) (hun : s.Unused fd) : s.ConnFree fd :=
  h.tracked.sound.unused hun.1

theorem Sound.ownerFree (h : s.Sound) (hun : s.Unused fd) {x : Owner} (hx : s.owners o = some x) :
    x.fd? ≠ some fd :=
  hun.2 o (h.owners o x hx) x hx

theorem Sound.connFree_of_channel (h : s.Sound) (hch : s.channels fd = some o) : s.ConnFree fd := by
  rintro c i hi rfl
  rw [h.conns c i hi] at hch
  cases hch

theorem Sound.not_holds_of_idle (h : s.Sound) (hidle : s.Idle o) : ¬ s.Holds o c :=
  fun hholds => hidle c (h.owner c o hholds.1).1 hholds

theorem sound_new (name : String) (writeCompleteCallback : Bool) :
    (new name writeCompleteCallback).Sound where
  table := .init ⟨_, _, _, rfl⟩
  ioLoops := rfl
  loops := fun _ _ h => by cases h
  owner := fun _ _ h => by cases h
  owners := fun _ _ h => by cases h
  keys := fun _ _ h => by cases h
  apart := fun _ _ _ h => by cases h
  conns := fun _ _ _ => rfl
  clients := fun _ _ _ _ _ h => by cases h

/-! ### An owner changes -/

/-- The owner `o` becomes `y`, and `channels_` is the same for the others. -/
theorem Sound.replace (h : s.Sound) {y : Option Owner} {channels : Fd → Option OwnerId} {n : ℕ}
    (hn : s.nextOwner ≤ n) (ho : o < n)
    (hkeys : ∀ fd o', channels fd = some o' → s.ConnFree fd ∧
      (o' = o → ∀ x, y = some x → x.key? = some fd) ∧ (o' ≠ o → s.channels fd = some o'))
    (hfds : ∀ x fd, y = some x → x.fd? = some fd →
      s.ConnFree fd ∧ ∀ o' x', o' ≠ o → s.owners o' = some x' → x'.fd? ≠ some fd)
    (hclient : ∀ state ch, y = some (.client state ch) →
      state = .kConnected ∨ ∀ c, ¬ s.Holds o c) :
    Sound { s with
      owners := Function.update s.owners o y, channels := channels, nextOwner := n } := by
  have hself : Function.update s.owners o y o = y := Function.update_self _ _ _
  have hother : ∀ o', o' ≠ o → Function.update s.owners o y o' = s.owners o' :=
    fun o' hne => Function.update_of_ne hne _ _
  refine ⟨h.table, h.ioLoops, h.loops, fun c o' hc => ?owner, fun o' x hx => ?owners,
    fun fd o' hch => ?keys, fun o' x fd hx hfd => ?apart, fun c i hi => ?conns,
    fun o' c state ch hholds hx => ?clients⟩
  case owner =>
    obtain ⟨hlt, hlt'⟩ := h.owner c o' hc
    exact ⟨hlt, hlt'.trans_le hn⟩
  case owners =>
    by_cases hne : o' = o
    · exact hne ▸ ho
    · exact (h.owners o' x ((hother o' hne).symm.trans hx)).trans_le hn
  case keys =>
    obtain ⟨-, hown, hothers⟩ := hkeys fd o' hch
    by_cases hne : o' = o
    · subst hne
      exact ⟨ho, fun x hx => hown rfl x (hself.symm.trans hx)⟩
    · obtain ⟨hlt, hkey⟩ := h.keys fd o' (hothers hne)
      exact ⟨hlt.trans_le hn, fun x hx => hkey x ((hother o' hne).symm.trans hx)⟩
  case apart =>
    by_cases hne : o' = o
    · subst hne
      obtain ⟨hfree, hothers⟩ := hfds x fd (hself.symm.trans hx) hfd
      refine ⟨hfree, fun o'' x' hx' hfd' => ?_⟩
      by_contra hne'
      exact hothers o'' x' hne' ((hother o'' hne').symm.trans hx') hfd'
    · have hx₀ := (hother o' hne).symm.trans hx
      obtain ⟨hfree, hothers⟩ := h.apart o' x fd hx₀ hfd
      refine ⟨hfree, fun o'' x' hx' hfd' => ?_⟩
      by_cases hne' : o'' = o
      · subst hne'
        exact absurd hfd ((hfds x' fd (hself.symm.trans hx') hfd').2 o' x hne hx₀)
      · exact hothers o'' x' ((hother o'' hne').symm.trans hx') hfd'
  case conns =>
    cases hch : channels i.fd with
    | none => exact hch
    | some o' => exact absurd rfl ((hkeys i.fd o' hch).1 c i hi)
  case clients =>
    by_cases hne : o' = o
    · subst hne
      exact (hclient state ch (hself.symm.trans hx)).resolve_right fun hnot => hnot c hholds
    · exact h.clients o' c state ch hholds ((hother o' hne).symm.trans hx)

/-- An owner comes up. -/
theorem Sound.enter (h : s.Sound) {x : Owner}
    (hfd : ∀ fd, x.fd? = some fd → s.Unused fd) :
    Sound { s.setOwner s.nextOwner (some x) with nextOwner := s.nextOwner + 1 } := by
  refine h.replace (Nat.le_succ _) (Nat.lt_succ_self _) (fun fd o' hch => ?_)
    (fun x' fd hx hfd' => ?_) fun state ch _ => .inr fun c hholds => ?_
  · exact ⟨h.connFree_of_channel hch, fun heq => absurd (h.keys fd o' hch).1 heq.not_lt,
      fun _ => hch⟩
  · cases hx
    have hun := hfd fd hfd'
    exact ⟨h.connFree hun, fun o' x' _ hx' => h.ownerFree hun hx'⟩
  · exact lt_irrefl _ (h.owner c _ hholds.1).2

/-- The acceptor or the connector of an owner gets into the poller. -/
theorem Sound.register (h : s.Sound) {x y : Owner} (hx : s.owners o = some x) (hnone : x.key? = none)
    (hkey : y.key? = some fd) (hfree : s.ConnFree fd)
    (hothers : ∀ o' x', o' ≠ o → s.owners o' = some x' → x'.fd? ≠ some fd)
    (hclient : ∀ state ch, y = .client state ch → state = .kConnected ∨ ∀ c, ¬ s.Holds o c) :
    Sound { s with
      owners := Function.update s.owners o (some y)
      channels := Function.update s.channels fd (some o) } := by
  refine h.replace le_rfl (h.owners o x hx) (fun fd' o' hch => ?_) (fun x' fd' hx' hfd' => ?_)
    fun state ch hy => hclient state ch (Option.some.inj hy)
  · by_cases hfd : fd' = fd
    · rw [hfd, Function.update_self, Option.some.injEq] at hch
      subst hch
      refine ⟨hfd ▸ hfree, fun _ x' hx' => ?_, fun hne => absurd rfl hne⟩
      cases hx'
      rw [hkey, hfd]
    · rw [Function.update_of_ne hfd] at hch
      refine ⟨h.connFree_of_channel hch, fun heq => ?_, fun _ => hch⟩
      have hold := (h.keys fd' o' hch).2 x (heq ▸ hx)
      rw [hnone] at hold
      cases hold
  · cases hx'
    have hfd := fd?_of_key? hkey
    rw [hfd, Option.some.injEq] at hfd'
    exact hfd' ▸ ⟨hfree, hothers⟩

/-- The owner stays out of the poller, or goes. -/
theorem Sound.unkeyed (h : s.Sound) {x : Owner} {y : Option Owner} (hx : s.owners o = some x)
    (hkey : x.key? = none ∨ y = none) (hfd : ∀ x', y = some x' → x'.fd? = none)
    (hclient : ∀ state ch, y = some (.client state ch) →
      state = .kConnected ∨ ∀ c, ¬ s.Holds o c) : (s.setOwner o y).Sound := by
  refine h.replace le_rfl (h.owners o x hx) (fun fd o' hch => ?_) (fun x' fd hx' hfd' => ?_) hclient
  · refine ⟨h.connFree_of_channel hch, fun heq x' hx' => ?_, fun _ => hch⟩
    have hold := (h.keys fd o' hch).2 x (heq ▸ hx)
    rcases hkey with hnone | rfl
    · rw [hnone] at hold
      cases hold
    · cases hx'
  · rw [hfd x' hx'] at hfd'
    cases hfd'

/-- A connector takes its channel out of the poller. -/
theorem Sound.unregister (h : s.Sound) (state : ConnectorState)
    (hx : s.owners o = some (.client .kConnecting (some ⟨fd, true⟩))) :
    Sound { s with
      owners := Function.update s.owners o (some (.client state (some ⟨fd, false⟩)))
      channels := Function.update s.channels fd none } := by
  refine h.replace le_rfl (h.owners o _ hx) (fun fd' o' hch => ?_) (fun x' fd' hx' hfd' => ?_)
    fun state ch _ => .inr fun c hholds => ?_
  · have hne : fd' ≠ fd := by
      rintro rfl
      rw [Function.update_self] at hch
      cases hch
    rw [Function.update_of_ne hne] at hch
    refine ⟨h.connFree_of_channel hch, fun heq => ?_, fun _ => hch⟩
    have hold := (h.keys fd' o' hch).2 _ (heq ▸ hx)
    exact absurd (Option.some.inj hold).symm hne
  · cases hx'
    cases hfd'
  · have hstate := h.clients o c _ _ hholds hx
    cases hstate

/-! ### The table changes -/

/-- Connections may come, with descriptors of their own. -/
theorem Sound.retable (h : s.Sound) {table : TcpServer} {owner : ConnId → Option OwnerId}
    (hreach : TcpServer.system.ReachableVia (TcpServer.Meets Session.SendsInLoop) table)
    (hioLoops : table.ioLoops = s.table.ioLoops)
    (howner : ∀ c o, owner c = some o → c < table.nextConnId ∧ o < s.nextOwner)
    (hident : ∀ c i, table.ident c = some i → s.table.ident c = some i ∨
      i.loop = 0 ∧ s.channels i.fd = none ∧ ∀ o x, s.owners o = some x → x.fd? ≠ some i.fd)
    (hholds : ∀ o c, Holds { s with table := table, owner := owner } o c → s.Holds o c ∨
      ∀ state ch, s.owners o = some (.client state ch) → state = .kConnected) :
    Sound { s with table := table, owner := owner } := by
  refine ⟨hreach, hioLoops.trans h.ioLoops, fun c i hi => ?loops, howner, h.owners, h.keys,
    fun o x fd hx hfd => ⟨fun c i hi => ?apart, (h.apart o x fd hx hfd).2⟩, fun c i hi => ?conns,
    fun o c state ch hc hx => ?clients⟩
  case loops => exact (hident c i hi).elim (h.loops c i) (·.1)
  case apart =>
    rcases hident c i hi with hold | ⟨-, -, hnew⟩
    · exact (h.apart o x fd hx hfd).1 c i hold
    · rintro rfl
      exact hnew o x hx hfd
  case conns => exact (hident c i hi).elim (h.conns c i) (·.2.1)
  case clients =>
    exact (hholds o c hc).elim (fun hold => h.clients o c state ch hold hx) fun hdone =>
      hdone state ch hx

/-- A step of the loop. -/
theorem Sound.loop (h : s.Sound) {b : ServerAction} {table : TcpServer}
    (hb : ∀ sockfd highWaterMark, b ≠ .accept sockfd highWaterMark) (hcalls : s.table.CallsInLoop b)
    (hstep : TcpServer.system.Step s.table b table) : Sound { s with table := table } := by
  have hreach := h.table.step hcalls.meets hstep
  have hrest : table.ioLoops = s.table.ioLoops ∧ table.nextConnId = s.table.nextConnId ∧
      table.name = s.table.name ∧ (∀ c i, table.ident c = some i → s.table.ident c = some i) ∧
      ∀ n c, table.connections n = some c → s.table.connections n = some c := by
    rcases h.tracked.step_cases hstep with ⟨sockfd, hwm, rfl⟩ | ⟨c, conn, -, -, -, rfl⟩ | hnext
    · exact absurd rfl (hb sockfd hwm)
    · exact ⟨rfl, rfl, rfl, fun c i hi => (TcpServer.ident_forget.mp hi).1, fun _ _ => id⟩
    · exact ⟨hnext.ioLoops, hnext.nextConnId, hnext.name, fun c i hi => hnext.ident ▸ hi,
        hnext.connections⟩
  obtain ⟨hioLoops, hnext, hname, hident, hconnections⟩ := hrest
  show Sound { s with table := table, owner := s.owner }
  refine h.retable hreach hioLoops (fun c o hc => ?_) (fun c i hi => .inl (hident c i hi))
    fun o c hholds => .inl ⟨hholds.1, ?_⟩
  · rw [hnext]
    exact h.owner c o hc
  · have hlisted : table.connections (table.connName c) = some c := hholds.2
    rw [TcpServer.connName_congr hname] at hlisted
    exact hconnections _ c hlisted

/-- An owner makes a connection. -/
theorem Sound.newConnection (h : s.Sound) {highWaterMark : ℕ}
    (hphase : (s.table.loops 0).phase = .dispatching) (hfree : s.ConnFree fd) (ho : o < s.nextOwner)
    (howners : ∀ o' x, s.owners o' = some x → x.fd? ≠ some fd)
    (hdone : ∀ state ch, s.owners o = some (.client state ch) → state = .kConnected)
    (hex : s.newConnection o fd highWaterMark = .ok s') : s'.Sound := by
  unfold OwnerLoop.newConnection at hex
  obtain ⟨_, hcheck, hex⟩ := bind_eq_ok.mp hex
  obtain ⟨table, htable, hex⟩ := bind_eq_ok.mp hex
  cases hex
  have hsound := h.tracked.sound
  rw [mapError_eq_ok] at htable
  obtain ⟨ioLoop, next, hbase, hnext⟩ := hsound.newConnection_continues hfree htable
  have hstep : TcpServer.system.Step s.table (.accept fd highWaterMark) table :=
    ⟨⟨hphase, fun c _ conn hc => hfree c _ (TcpServer.ident_of_conns hc)⟩, htable⟩
  have hmeets : s.table.Meets Session.SendsInLoop (.accept fd highWaterMark) := trivial
  refine h.retable (h.table.step hmeets hstep) hnext.ioLoops (fun c o' hc => ?owner)
    (fun c i hi => ?ident) fun o' c hholds => ?holds
  case owner =>
    rw [hnext.nextConnId]
    by_cases hc' : c = s.table.nextConnId
    · rw [hc', Function.update_self, Option.some.injEq] at hc
      exact ⟨hc'.symm ▸ Nat.lt_succ_self _, hc ▸ ho⟩
    · rw [Function.update_of_ne hc'] at hc
      exact ⟨(h.owner c o' hc).1.trans (Nat.lt_succ_self _), (h.owner c o' hc).2⟩
  case ident =>
    rw [hnext.ident] at hi
    by_cases hc' : c = s.table.nextConnId
    · rw [hc', TcpServer.ident_enroll_self, Option.some.injEq] at hi
      subst hi
      exact .inr ⟨hbase h.ioLoops, check_eq_ok.mp hcheck, howners⟩
    · rw [TcpServer.ident_enroll_of_ne hc'] at hi
      exact .inl hi
  case holds =>
    obtain ⟨howner, hlisted⟩ := hholds
    change Function.update s.owner s.table.nextConnId (some o) c = some o' at howner
    by_cases hc' : c = s.table.nextConnId
    · rw [hc', Function.update_self, Option.some.injEq] at howner
      exact .inr (howner ▸ hdone)
    · rw [Function.update_of_ne hc'] at howner
      have hname : table.connName = s.table.connName := TcpServer.connName_congr hnext.name
      have hnew := hnext.connections _ c hlisted
      change Function.update s.table.connections (s.table.connName s.table.nextConnId)
        (some s.table.nextConnId) (table.connName c) = some c at hnew
      rw [hname, Function.update_of_ne fun heq => hc' (s.table.connName_injective heq)] at hnew
      exact .inl ⟨howner, hnew⟩

/-! ### Runs -/

theorem drop_of_not_holds (h : s.Sound) (hnot : ∀ c, ¬ s.Holds o c) : s.drop o = s := by
  have hsame : (fun n => (s.table.connections n).filter fun c => s.owner c ≠ some o) =
      s.table.connections := by
    funext n
    cases hn : s.table.connections n with
    | none => rfl
    | some c =>
        have howner : s.owner c ≠ some o := by
          intro howner
          have hname := h.tracked.sound.connections n c hn
          exact hnot c ⟨howner, hname ▸ hn⟩
        simp [howner]
  unfold drop
  rw [hsame]

/-- The connector of a client opens a channel. -/
theorem Sound.startInLoop (h : s.Sound) {state state₀ : ConnectorState}
    {channel : Option AttemptChannel} (hx : s.owners o = some (.client state₀ channel))
    (hun : s.Unused fd) (hnot : state = .kDisconnected → ∀ c, ¬ s.Holds o c)
    (hex : s.startInLoop o fd state channel = .ok s') : s'.Sound := by
  unfold OwnerLoop.startInLoop addChannel at hex
  simp only [bind_eq_ok, check_eq_ok, pure_eq_ok, Except.ok.injEq] at hex
  obtain ⟨-, hstate, -, rfl, _, ⟨-, -, rfl⟩, rfl⟩ := hex
  exact h.register (y := .client .kConnecting (some ⟨fd, true⟩)) hx rfl rfl (h.connFree hun)
    (fun o' x' _ hx' => h.ownerFree hun hx') fun _ _ _ => .inr (hnot hstate)

/-- An attempt to connect ends. -/
theorem Sound.attempted (h : s.Sound) {e : AttemptEnd}
    (hx : s.owners o = some (.client .kConnecting (some ⟨fd, true⟩)))
    (hphase : (s.table.loops 0).phase = .dispatching) (hex : s.attempted o fd e = .ok s') :
    s'.Sound := by
  unfold OwnerLoop.attempted removeChannel at hex
  simp only [bind_eq_ok, check_eq_ok, pure_eq_ok, Except.ok.injEq] at hex
  obtain ⟨_, ⟨-, -, rfl⟩, hex⟩ := hex
  cases e with
  | retry =>
      cases hex
      exact h.unregister _ hx
  | close =>
      cases hex
      exact h.unregister _ hx
  | newConnection highWaterMark =>
      obtain ⟨hfree, hothers⟩ := h.apart o _ fd hx rfl
      have hnext := h.unregister .kConnected hx
      have hnot : ∀ c, ¬ s.Holds o c := by
        intro c hholds
        have hstate := h.clients o c _ _ hholds hx
        cases hstate
      have hdrop := drop_of_not_holds hnext (o := o) hnot
      change ((OwnerLoop.mk _ _ _ _ _).drop o).newConnection o fd highWaterMark = _ at hex
      rw [hdrop] at hex
      refine hnext.newConnection hphase hfree (h.owners o _ hx) (fun o' x' hx' hfd' => ?_)
        (fun state ch hx' => ?_) hex
      · have hx'' : Function.update s.owners o _ o' = some x' := hx'
        by_cases hne : o' = o
        · rw [hne, Function.update_self, Option.some.injEq] at hx''
          subst hx''
          cases hfd'
        · rw [Function.update_of_ne hne] at hx''
          exact hne (hothers o' x' hx'' hfd')
      · have hx'' : Function.update s.owners o _ o = some (.client state ch) := hx'
        rw [Function.update_self] at hx''
        cases hx''
        rfl

theorem Sound.step (h : s.Sound) (hok : s.DestroysIdle a) (hstep : system.Step s a s') :
    s'.Sound := by
  obtain ⟨hen, hex⟩ := hstep
  change s.enabled a at hen
  change s.exec a = .ok s' at hex
  unfold enabled at hen
  unfold exec at hex
  cases a with
  | newServer listenFd =>
      cases hex
      refine h.enter fun fd hfd => ?_
      cases hfd
      exact hen
  | newClient =>
      cases hex
      exact h.enter fun fd hfd => by cases hfd
  | start o =>
      dsimp only at hen hex
      split at hen
      · next fd hx =>
          simp only [hx, addChannel, bind_eq_ok, check_eq_ok, pure_eq_ok, Except.ok.injEq] at hex
          obtain ⟨_, ⟨-, -, rfl⟩, rfl⟩ := hex
          obtain ⟨hfree, hothers⟩ := h.apart o _ fd hx rfl
          exact h.register (y := .server fd true) hx rfl rfl hfree
            (fun o' x' hne hx' hfd' => hne (hothers o' x' hx' hfd')) fun _ _ hy => by cases hy
      · exact absurd hen id
  | accept o sockfd highWaterMark =>
      dsimp only at hen hex
      split at hen
      · next fd hx =>
          refine h.newConnection hen.1 (h.connFree hen.2) (h.owners o _ hx)
            (fun o' x' hx' => h.ownerFree hen.2 hx') (fun state ch hx' => ?_) hex
          rw [hx] at hx'
          cases hx'
      · exact absurd hen id
  | connect o sockfd =>
      dsimp only at hen hex
      split at hen
      · next state channel hx =>
          rw [hx] at hex
          refine h.startInLoop hx hen (fun hstate c hholds => ?_) hex
          rw [h.clients o c _ _ hholds hx] at hstate
          cases hstate
      · exact absurd hen id
  | restart o sockfd =>
      dsimp only at hen hex
      split at hen
      · next state channel hx =>
          rw [hx] at hex
          exact h.startInLoop hx hen.1 (fun _ c => h.not_holds_of_idle hen.2) hex
      · exact absurd hen id
  | attempted o e =>
      dsimp only at hen hex
      split at hen
      · next fd hx =>
          rw [hx] at hex
          exact h.attempted hx hen hex
      · exact absurd hen id
  | resetChannel o =>
      dsimp only at hen hex
      split at hen
      · next state fd hx =>
          rw [hx] at hex
          cases hex
          refine h.unkeyed hx (.inl rfl) (fun x' hx' => ?_) fun state' ch hx' => ?_
          · cases hx'
            rfl
          · cases hx'
            by_cases hstate : state = .kConnected
            · exact .inl hstate
            · exact .inr fun c hholds => hstate (h.clients o c _ _ hholds hx)
      · exact absurd hen id
  | loop b =>
      obtain ⟨table, htable, hex⟩ := bind_eq_ok.mp hex
      cases hex
      rw [mapError_eq_ok] at htable
      have hb : (∀ sockfd hwm, b ≠ .accept sockfd hwm) ∧ s.table.enabled b ∧
          s.table.CallsInLoop b := by
        cases b with
        | accept sockfd hwm => exact absurd hen id
        | _ => exact ⟨fun _ _ hb => (by cases hb), hen⟩
      exact h.loop hb.1 hb.2.2 ⟨hb.2.1, htable⟩
  | destroy o =>
      have hdrop : s.drop o = s := drop_of_not_holds h fun c => h.not_holds_of_idle hok
      dsimp only at hex
      rw [hdrop] at hex
      split at hex
      · next fd listenning hx =>
          cases hex
          exact h.unkeyed hx (.inr rfl) (fun _ hx' => by cases hx') fun _ _ hx' => by cases hx'
      · next state channel hx =>
          obtain ⟨-, -, hex⟩ := bind_eq_ok.mp hex
          cases hex
          exact h.unkeyed hx (.inr rfl) (fun _ hx' => by cases hx') fun _ _ hx' => by cases hx'
      · cases hex
        exact h

theorem sound_of_reachable (h : system.ReachableVia DestroysIdle s) : s.Sound := by
  refine h.invariant (fun s hs => ?_) fun _ _ _ _ hs hok hstep => hs.step hok hstep
  obtain ⟨name, writeComplete, rfl⟩ := hs
  exact sound_new name writeComplete

/-! ### Stale numbers -/

theorem Stale.of_same {s s' : OwnerLoop} (h : s'.Stale fd) (howners : s'.owners = s.owners)
    (hchannels : s'.channels = s.channels) : s.Stale fd := by
  obtain ⟨o, hch, hnone⟩ := h
  exact ⟨o, hchannels ▸ hch, howners ▸ hnone⟩

/-- An owner that is there has no part in it. -/
theorem Stale.of_setOwner {s s' : OwnerLoop} {x : Owner} (h : s'.Stale fd)
    (howners : s'.owners = Function.update s.owners o (some x))
    (hchannels : ∀ o', o' ≠ o → s'.channels fd = some o' → s.channels fd = some o') :
    s.Stale fd := by
  obtain ⟨o', hch, hnone⟩ := h
  rw [howners] at hnone
  have hne : o' ≠ o := by
    rintro rfl
    rw [Function.update_self] at hnone
    cases hnone
  rw [Function.update_of_ne hne] at hnone
  exact ⟨o', hchannels o' hne hch, hnone⟩

theorem channels_of_addChannel {o' : OwnerId} {fd' : Fd} (hne : o' ≠ o)
    (h : Function.update s.channels fd' (some o) fd = some o') : s.channels fd = some o' := by
  by_cases hfd : fd = fd'
  · rw [hfd, Function.update_self, Option.some.injEq] at h
    exact absurd h.symm hne
  · rwa [Function.update_of_ne hfd] at h

theorem channels_of_removeChannel {o' : OwnerId} {fd' : Fd}
    (h : Function.update s.channels fd' none fd = some o') : s.channels fd = some o' := by
  by_cases hfd : fd = fd'
  · rw [hfd, Function.update_self] at h
    cases h
  · rwa [Function.update_of_ne hfd] at h

theorem newConnection_books {highWaterMark : ℕ} {fd' : Fd}
    (h : s.newConnection o fd' highWaterMark = .ok s') :
    s'.owners = s.owners ∧ s'.channels = s.channels := by
  unfold newConnection at h
  obtain ⟨-, -, h⟩ := bind_eq_ok.mp h
  obtain ⟨table, -, h⟩ := bind_eq_ok.mp h
  cases h
  exact ⟨rfl, rfl⟩

theorem stale_of_startInLoop {state : ConnectorState} {channel : Option AttemptChannel} {fd' : Fd}
    (hex : s.startInLoop o fd' state channel = .ok s') (h : s'.Stale fd) : s.Stale fd := by
  unfold startInLoop addChannel at hex
  simp only [bind_eq_ok, check_eq_ok, pure_eq_ok, Except.ok.injEq] at hex
  obtain ⟨-, -, -, -, _, ⟨-, -, rfl⟩, rfl⟩ := hex
  exact h.of_setOwner rfl fun o' hne hch => channels_of_addChannel hne hch

theorem stale_of_attempted {e : AttemptEnd} {fd' : Fd} (hex : s.attempted o fd' e = .ok s')
    (h : s'.Stale fd) : s.Stale fd := by
  unfold attempted removeChannel at hex
  simp only [bind_eq_ok, check_eq_ok, pure_eq_ok, Except.ok.injEq] at hex
  obtain ⟨_, ⟨-, -, rfl⟩, hex⟩ := hex
  cases e with
  | retry | close =>
      cases hex
      exact h.of_setOwner rfl fun o' _ hch => channels_of_removeChannel hch
  | newConnection highWaterMark =>
      obtain ⟨howners, hchannels⟩ := newConnection_books hex
      refine h.of_setOwner howners fun o' _ hch => ?_
      rw [hchannels] at hch
      exact channels_of_removeChannel hch

/-- A number gets stale only when a server that listens there is destroyed. -/
theorem Sound.stale_of_step (h : s.Sound) (hstep : system.Step s a s') (hstale : s'.Stale fd) :
    s.Stale fd ∨ ∃ o, a = .destroy o ∧ s.owners o = some (.server fd true) := by
  obtain ⟨hen, hex⟩ := hstep
  change s.exec a = .ok s' at hex
  unfold exec at hex
  cases a with
  | newServer listenFd | newClient =>
      cases hex
      exact .inl (hstale.of_setOwner rfl fun _ _ => id)
  | start o =>
      left
      dsimp only at hex
      split at hex
      · obtain ⟨s₁, hs₁, hex⟩ := bind_eq_ok.mp hex
        obtain ⟨-, -, hs₁⟩ := bind_eq_ok.mp hs₁
        cases hs₁
        cases hex
        exact hstale.of_setOwner rfl fun o' hne hch => channels_of_addChannel hne hch
      · cases hex
        exact hstale
  | accept o sockfd highWaterMark =>
      obtain ⟨howners, hchannels⟩ := newConnection_books hex
      exact .inl (hstale.of_same howners hchannels)
  | connect o sockfd | restart o sockfd =>
      left
      dsimp only at hex
      split at hex
      · exact stale_of_startInLoop hex hstale
      · cases hex
        exact hstale
  | attempted o e =>
      left
      dsimp only at hex
      split at hex
      · exact stale_of_attempted hex hstale
      · cases hex
        exact hstale
  | resetChannel o =>
      left
      dsimp only at hex
      split at hex
      · cases hex
        exact hstale.of_setOwner rfl fun _ _ => id
      · cases hex
        exact hstale
  | loop b =>
      obtain ⟨table, -, hex⟩ := bind_eq_ok.mp hex
      cases hex
      exact .inl (hstale.of_same rfl rfl)
  | destroy o =>
      have hgone : ∀ x, s.owners o = some x → s' = (s.drop o).setOwner o none →
          s.Stale fd ∨ x.key? = some fd := by
        rintro x hx rfl
        obtain ⟨o', hch, hnone⟩ := hstale
        by_cases hne : o' = o
        · exact .inr ((h.keys fd o' hch).2 x (hne ▸ hx))
        · refine .inl ⟨o', hch, ?_⟩
          rwa [show ((s.drop o).setOwner o none).owners o' = s.owners o' from
            Function.update_of_ne hne _ _] at hnone
      dsimp only at hex
      split at hex
      · next fd' listenning hx =>
          cases hex
          refine (hgone _ hx rfl).imp_right fun hkey => ⟨o, rfl, ?_⟩
          rw [hx]
          cases listenning with
          | true => rw [Option.some.inj hkey]
          | false => cases hkey
      · next state channel hx =>
          obtain ⟨_, hnone, hex⟩ := bind_eq_ok.mp hex
          obtain rfl : channel = none := check_eq_ok.mp hnone
          cases hex
          exact (hgone _ hx rfl).imp_right fun hkey => by cases hkey
      · cases hex
        exact .inl hstale

/-! ## New channels -/

end OwnerLoop

section Faults

variable {s : TcpServer} {c : ConnId} {l : LoopId} {p : EPoller ConnId} {self : ConnId} {ch : Channel}

/-- A channel that is new finds its descriptor unused. -/
theorem EPoller.updateChannel_fresh (hindex : ch.index = .kNew) (hfd : p.channels ch.fd = none) :
    FailsWith (· ≠ .channelPresent) (p.updateChannel self ch) := by
  unfold updateChannel
  simp only [hindex]
  rw [check_of_pos hfd, ok_bind]
  refine FailsWith.bind ?_ fun _ _ => failsWith_pure _
  unfold update
  split
  · exact failsWith_pure _
  · exact (failsWith_check (by simp)).bind fun _ _ => failsWith_pure _

theorem TcpServer.removeConnection_fresh :
    FailsWith (· ≠ .channelPresent) (s.removeConnection l c) := by
  unfold removeConnection removeConnectionInLoop
  split
  · split
    · exact failsWith_throw (by simp)
    · exact (failsWith_check (by simp)).bind fun _ _ => failsWith_pure _
  · exact failsWith_pure _

theorem TcpServer.perform_fresh {f : Call → Except NetFault Call}
    (hf : ∀ conn, s.conns c = some conn →
      FailsWith (· ≠ .channelPresent) (f ⟨conn, (s.loops conn.loop).poller, [], [], []⟩)) :
    FailsWith (· ≠ .channelPresent) (s.perform c f) := by
  unfold perform
  split
  · exact failsWith_throw (by simp)
  · next conn hc =>
      refine (hf conn hc).bind fun k _ => ?_
      dsimp only
      split
      · exact removeConnection_fresh
      · exact failsWith_pure _

theorem TcpServer.newConnection_fresh {sockfd : Fd} {highWaterMark : ℕ} (hpool : s.ioLoops = 0)
    (hfd : (s.loops 0).poller.channels sockfd = none) :
    FailsWith (· ≠ .channelPresent) (s.newConnection sockfd highWaterMark) := by
  have hget : s.getNextLoop = (0, s) := if_pos hpool
  unfold newConnection
  simp only [hget, if_true]
  refine perform_fresh fun conn hc => ?_
  change Function.update s.conns s.nextConnId (some (s.nextConn 0 sockfd highWaterMark))
    s.nextConnId = some conn at hc
  rw [Function.update_self, Option.some.injEq] at hc
  subst hc
  refine (failsWith_check (by simp)).bind fun _ _ => FailsWith.bind ?_ fun _ _ => failsWith_pure _
  exact (EPoller.updateChannel_fresh rfl hfd).bind fun _ _ => failsWith_pure _

end Faults

namespace OwnerLoop

variable {s s' : OwnerLoop} {o : OwnerId} {c : ConnId} {conn : TcpConnection} {fd : Fd}
  {a : OwnerAction}

theorem Sound.poller_eq_none (h : s.Sound) (hfree : s.ConnFree fd) :
    (s.table.loops 0).poller.channels fd = none := by
  cases hch : (s.table.loops 0).poller.channels fd with
  | none => rfl
  | some c =>
      obtain ⟨i, hi, -, hfd⟩ := TcpServer.keyed_of_reachable h.table 0 fd c hch
      exact absurd hfd (hfree c i hi)

theorem Sound.channels_eq_none (h : s.Sound) (hstale : ¬ s.Stale fd)
    (howners : ∀ o x, s.owners o = some x → x.key? ≠ some fd) : s.channels fd = none := by
  cases hch : s.channels fd with
  | none => rfl
  | some o =>
      cases hx : s.owners o with
      | none => exact absurd ⟨o, hch, hx⟩ hstale
      | some x => exact absurd ((h.keys fd o hch).2 x hx) (howners o x hx)

theorem find_eq_none (hpoller : (s.table.loops 0).poller.channels fd = none)
    (hchannels : s.channels fd = none) : s.find fd = none := by
  unfold find
  rw [hpoller, hchannels]
  rfl

theorem Sound.channels_of_unused (h : s.Sound) (hun : s.Unused fd) (hstale : ¬ s.Stale fd) :
    s.channels fd = none :=
  h.channels_eq_none hstale fun _ _ hx hkey => h.ownerFree hun hx (fd?_of_key? hkey)

theorem addChannel_fresh (hfind : s.find fd = none) :
    FailsWith (· ≠ .net .channelPresent) (s.addChannel o fd) := by
  unfold addChannel
  rw [check_of_pos hfind]
  exact failsWith_pure _

theorem startInLoop_fresh {state : ConnectorState} {channel : Option AttemptChannel}
    (hfind : s.find fd = none) :
    FailsWith (· ≠ .net .channelPresent) (s.startInLoop o fd state channel) :=
  (failsWith_check (by simp)).bind fun _ _ => (failsWith_check (by simp)).bind fun _ _ =>
    (addChannel_fresh hfind).bind fun _ _ => failsWith_pure _

theorem newConnection_fresh {highWaterMark : ℕ} (hpool : s.table.ioLoops = 0)
    (hpoller : (s.table.loops 0).poller.channels fd = none) (hchannels : s.channels fd = none) :
    FailsWith (· ≠ .net .channelPresent) (s.newConnection o fd highWaterMark) := by
  unfold newConnection
  rw [check_of_pos hchannels, ok_bind]
  refine FailsWith.bind (FailsWith.mapError ?_) fun _ _ => failsWith_pure _
  intro e he
  have hne := TcpServer.newConnection_fresh hpool hpoller e he
  simpa using hne

/-- A new channel on a number that is not stale satisfies the assert of `updateChannel`. -/
theorem Sound.exec_fresh (h : s.Sound) (hen : s.enabled a) (hopening : s.opening? a = some fd)
    (hstale : ¬ s.Stale fd) : FailsWith (· ≠ .net .channelPresent) (s.exec a) := by
  unfold enabled at hen
  unfold exec
  have hfind : s.Unused fd → s.find fd = none := fun hun =>
    find_eq_none (h.poller_eq_none (h.connFree hun)) (h.channels_of_unused hun hstale)
  cases a with
  | newServer listenFd | newClient | resetChannel o | loop b | destroy o => cases hopening
  | start o =>
      dsimp only at hen ⊢
      split at hen
      · next fd' hx =>
          obtain rfl : fd' = fd := by
            change (s.owners o).bind Owner.fd? = some fd at hopening
            rw [hx] at hopening
            exact Option.some.inj hopening
          obtain ⟨hfree, hothers⟩ := h.apart o _ fd' hx rfl
          rw [hx]
          refine (addChannel_fresh (find_eq_none (h.poller_eq_none hfree)
            (h.channels_eq_none hstale fun o' x' hx' hkey => ?_))).bind fun _ _ => failsWith_pure _
          obtain rfl := hothers o' x' hx' (fd?_of_key? hkey)
          rw [hx] at hx'
          cases hx'
          cases hkey
      · exact absurd hen id
  | accept o sockfd highWaterMark =>
      cases hopening
      dsimp only at hen ⊢
      split at hen
      · exact newConnection_fresh h.ioLoops (h.poller_eq_none (h.connFree hen.2))
          (h.channels_of_unused hen.2 hstale)
      · exact absurd hen id
  | connect o sockfd =>
      cases hopening
      dsimp only at hen ⊢
      split at hen
      · exact startInLoop_fresh (hfind hen)
      · exact absurd hen id
  | restart o sockfd =>
      cases hopening
      dsimp only at hen ⊢
      split at hen
      · exact startInLoop_fresh (hfind hen.1)
      · exact absurd hen id
  | attempted o e =>
      dsimp only at hen ⊢
      split at hen
      · next fd' hx =>
          rw [hx]
          cases e with
          | retry | close => cases hopening
          | newConnection highWaterMark =>
              refine FailsWith.bind ((failsWith_check (by simp)).bind fun _ _ => failsWith_pure _)
                fun s₁ hs₁ => ?_
              unfold removeChannel at hs₁
              obtain ⟨-, -, hs₁⟩ := bind_eq_ok.mp hs₁
              cases hs₁
              exact newConnection_fresh h.ioLoops (h.poller_eq_none (h.apart o _ fd' hx rfl).1)
                (Function.update_self _ _ _)
      · exact absurd hen id

/-- **No registered channel outlives its owner**, as long as an owner is destroyed only when it has no
connection. The last reference to a connection goes when its channel is out of the poller; and a new
channel finds its descriptor unused, unless the number is stale, which it gets when a server that
listens there is destroyed. -/
theorem registered_while_owned (h : system.ReachableVia DestroysIdle s) :
    (∀ c conn, s.table.conns c = some conn → s.table.Unreferenced c conn →
      conn.channel.index = .kNew ∧ s.find conn.channel.fd = none) ∧
    (∀ a fd, system.enabled s a → s.opening? a = some fd → ¬ s.Stale fd →
      system.exec s a ≠ .error (.net .channelPresent)) ∧
    ∀ a s' fd, system.Step s a s' → s'.Stale fd →
      s.Stale fd ∨ ∃ o, a = .destroy o ∧ s.owners o = some (.server fd true) := by
  have hsound := sound_of_reachable h
  refine ⟨fun c conn hc hun => ?_, fun a fd hen hopening hstale herror => ?_,
    fun a s' fd hstep => hsound.stale_of_step hstep⟩
  · have hindex := hsound.tracked.index_of_unreferenced hc hun
    have hident := TcpServer.ident_of_conns hc
    have hself : conn.self = c := (hsound.tracked.sound.ident c _ hident).1
    have hloop : conn.loop = 0 := hsound.loops c _ hident
    have hout := ((hsound.tracked.agrees hc).absent hindex).1
    rw [hloop, hself] at hout
    refine ⟨hindex, find_eq_none ?_ (hsound.conns c _ hident)⟩
    cases hch : (s.table.loops 0).poller.channels conn.channel.fd with
    | none => rfl
    | some c' =>
        obtain ⟨i, hi, -, hfd⟩ := TcpServer.keyed_of_reachable hsound.table 0 _ c' hch
        obtain rfl := hsound.tracked.sound.fds c' c i _ hi hident hfd
        exact absurd hch hout
  · exact hsound.exec_fresh hen hopening hstale _ herror rfl

/-- The peer closes a connection, and the server is destroyed before `connectDestroyed` runs. -/
def closedRun : List OwnerAction :=
  [.newServer 4, .newClient, .start 0, .loop (.poll 0 []), .accept 0 5 0,
   .loop (.takeFunctors 0), .loop (.endIteration 0),
   .loop (.poll 0 [(5, {.POLLIN})]), .loop (.task 0 (.data []) (.accepted 0)),
   .loop (.takeFunctors 0), .destroy 0,
   .loop (.task 0 .error (.accepted 0)), .loop (.task 0 .error (.accepted 0))]

theorem registered_while_owned_closedRun :
    ∃ s, system.ReachableVia DestroysIdle s ∧
      (∃ conn ∈ s.table.conns 1, s.table.Unreferenced 1 conn) ∧
      (system.enabled s (.connect 1 7) ∧ ¬ s.Stale 7 ∧ s.Stale 4) ∧
      (∀ c conn, s.table.conns c = some conn → s.table.Unreferenced c conn →
        conn.channel.index = .kNew ∧ s.find conn.channel.fd = none) ∧
      (∀ a fd, system.enabled s a → s.opening? a = some fd → ¬ s.Stale fd →
        system.exec s a ≠ .error (.net .channelPresent)) := by
  obtain ⟨s, hs, hp⟩ := StepSystem.exists_reachableVia_of_runFrom? DestroysIdle closedRun
    (M := system) (p := fun s => decide ((∃ conn ∈ s.table.conns 1, s.table.Unreferenced 1 conn) ∧
      system.enabled s (.connect 1 7) ∧ ¬ s.Stale 7 ∧ s.Stale 4))
    (s := new "loop" false) ⟨_, _, rfl⟩ (by decide +kernel)
  obtain ⟨hun, hrest⟩ := of_decide_eq_true hp
  obtain ⟨hregistered, hfresh, -⟩ := registered_while_owned hs
  exact ⟨s, hs, hun, hrest, hregistered, hfresh⟩

/-- A server is destroyed while it has a connection. -/
def droppedRun : List OwnerAction :=
  [.newServer 4, .newServer 6, .start 0, .start 1, .loop (.poll 0 []), .accept 0 5 0, .destroy 0]

/-- Its connection goes while the poller still has the channel, and the next connection with this
descriptor fails the assert. -/
theorem droppedRun_fails :
    (∃ s, system.Reachable s ∧ ∃ conn ∈ s.table.conns 1, s.table.Unreferenced 1 conn ∧
      conn.channel.index = .kAdded ∧ s.find conn.channel.fd = some (.inl 1)) ∧
    ∃ s, system.Reachable s ∧ system.enabled s (.accept 1 5 0) ∧
      system.exec s (.accept 1 5 0) = .error (.net .channelPresent) := by
  constructor
  · obtain ⟨s, hs, hp⟩ := StepSystem.exists_reachableVia_of_runFrom? (fun _ _ => True) droppedRun
      (M := system) (p := fun s => decide (∃ conn ∈ s.table.conns 1,
        s.table.Unreferenced 1 conn ∧ conn.channel.index = .kAdded ∧
        s.find conn.channel.fd = some (.inl 1)))
      (s := new "loop" false) ⟨_, _, rfl⟩ (by decide +kernel)
    exact ⟨s, hs, of_decide_eq_true hp⟩
  · obtain ⟨s, hs, hp⟩ := StepSystem.exists_reachableVia_of_runFrom? (fun _ _ => True)
      (droppedRun ++ [.loop (.release 1)])
      (M := system) (p := fun s => decide (system.enabled s (.accept 1 5 0) ∧
        faultOf (system.exec s (.accept 1 5 0)) = some (.net .channelPresent)))
      (s := new "loop" false) ⟨_, _, rfl⟩ (by decide +kernel)
    obtain ⟨hen, hfault⟩ := of_decide_eq_true hp
    exact ⟨s, hs, hen, faultOf_eq_some.mp hfault⟩

end OwnerLoop

end MiniMuduo
