import Chtho.Net.TcpClient.Lifetimes

/-! What every step of a client keeps and does, of all that matters for its destruction.

Runs are not restricted here, so that little is known of the connector: a `stopInLoop` that finds
no attempt ends what is left of one once more. It is enough that an attempt has its channel
(`Loose`), that a connection is owed one `connDestroyed` from when it is made until it has
run (`owed`), and that without `connect_`, or while connected, no connection is handed
over (`Spent`). -/
namespace Chtho.Net.TcpClient
open Lib Connector

/-- What holds of a client in every run. -/
structure Loose (s : TcpClient) : Prop where
  attempt : s.connector.state = .connecting →
    ∃ ch, s.connector.channel = some ch ∧ ch.addedToLoop = true ∧ s.channels = [ch.fd]
  channels : s.connector.state ≠ .connecting → s.channels = []
  active : s.phase.connectorActive.isSome = true → s.connector.state = .connecting
  conn : ∀ c, s.conn = some c → s.connector.state = .connected
  batch : s.phase ≠ .functors → s.queue.batch = []
  ids : 0 < s.nxtConnID

theorem loose_create : Loose create where
  attempt := fun h => by cases h
  channels := fun _ => rfl
  active := fun h => by cases h
  conn := fun _ h => by cases h
  batch := fun _ => rfl
  ids := by decide

/-- How often `connDestroyed` is still to be run on a connection: once while it is open,
or once it is queued. -/
def owed (s : TcpClient) (c : Nat) : Nat := s.queued.count (.connDestroyed c) + if s.conn = some c then 1 else 0

/-- Between two states connections were made, and nothing else is owed. -/
structure Settles (s s' : TcpClient) : Prop where
  ids : s.nxtConnID ≤ s'.nxtConnID
  owed : ∀ c, s'.owed c = s.owed c + if s.nxtConnID ≤ c ∧ c < s'.nxtConnID then 1 else 0

/-- No connection can be handed over from here on. -/
def Spent (s : TcpClient) : Prop := s.connector.connect_ = false ∨ s.connector.state = .connected

/-- Nothing of the connector is queued. -/
def Unqueued (s : TcpClient) : Prop := ∀ f ∈ s.queued, f.ofConnector = false

instance (s : TcpClient) : Decidable s.Unqueued := inferInstanceAs (Decidable (∀ f ∈ s.queued, _ = _))

variable {s s' t : TcpClient} {o : List Event} {errno : ConnectErrno} {ch : Channel} {f : Functor} {a : Action}

/-! ### The functions of the connector -/

/-- What a function of the connector leaves. -/
structure Called (s s' : TcpClient) (o : List Event) : Prop where
  loose : Loose s'
  settles : Settles s s'
  spent : Spent s → Spent s' ∧ o.any Lifetimes.handsOver = false
  timers : s.timers ≤ s'.timers

theorem settles_of_eq (hid : s'.nxtConnID = s.nxtConnID) (howed : ∀ c, s'.owed c = s.owed c) : Settles s s' :=
  ⟨Nat.le_of_eq hid.symm, fun c => by rw [howed, hid, if_neg (by omega), Nat.add_zero]⟩

theorem Loose.not_active (h : Loose s) (hne : s.connector.state ≠ .connecting) :
    ¬ s.phase.connectorActive.isSome = true := fun hactive => hne (h.active hactive)

theorem Loose.no_conn (h : Loose s) (hne : s.connector.state ≠ .connected) (c : Nat) : s.conn ≠ some c :=
  fun hconn => hne (h.conn c hconn)

theorem Loose.started (h : Loose s) (hstate : s.connector.state = .disconnected) (hs : Started s s' o) :
    Called s s' o := by
  have hchannels := h.channels (by rw [hstate]; decide)
  have hidle := h.not_active (by rw [hstate]; decide)
  have hconn := h.no_conn (by rw [hstate]; decide)
  have hon : s.connector.connect_ = true → ¬ Spent s := by
    rintro hconnect (hoff | hconnected)
    · rw [hconnect] at hoff
      cases hoff
    · rw [hstate] at hconnected
      cases hconnected
  cases hs with
  | off => exact ⟨h, settles_of_eq rfl fun _ => rfl, fun hspent => ⟨hspent, rfl⟩, Nat.le_refl _⟩
  | begun hconnect =>
    refine ⟨⟨fun _ => ⟨_, rfl, rfl, by simp [hchannels]⟩, fun hne => absurd rfl hne, fun _ => rfl,
      fun c hc => absurd hc (hconn c), h.batch, h.ids⟩, settles_of_eq rfl fun _ => rfl,
      fun hspent => absurd hspent (hon hconnect), Nat.le_refl _⟩
  | retried delay hconnect =>
    refine ⟨⟨fun hc => (by cases hc), fun _ => hchannels, fun hactive => absurd hactive hidle,
      fun c hc => absurd hc (hconn c), h.batch, h.ids⟩, settles_of_eq rfl fun _ => rfl,
      fun hspent => absurd hspent (hon hconnect), Nat.le_succ _⟩
  | failed hconnect =>
    exact ⟨⟨h.attempt, h.channels, h.active, h.conn, h.batch, h.ids⟩, settles_of_eq rfl fun _ => rfl,
      fun hspent => absurd hspent (hon hconnect), Nat.le_refl _⟩

/-- The channel is removed, with or without an attempt. -/
theorem Loose.removed (h : Loose s) (hidle : ¬ s.phase.connectorActive.isSome = true)
    (hne : s.connector.state ≠ .connected) (hchannels : ∀ fd ∈ s.channels, fd = ch.fd) {c : Connector}
    (hc : c.state ≠ .connecting) : Loose (s.removed ch c) where
  attempt := fun hstate => absurd hstate hc
  channels := fun _ => List.filter_eq_nil_iff.mpr fun fd hfd => by simp [hchannels fd hfd]
  active := fun hactive => absurd hactive hidle
  conn := fun d hd => absurd hd (h.no_conn hne d)
  batch := h.batch
  ids := h.ids

theorem count_queueInLoop (s : TcpClient) (own : Bool) (f : Functor) (c : Nat) :
    (s.queueInLoop own f).queued.count (.connDestroyed c) =
      s.queued.count (.connDestroyed c) + if f = .connDestroyed c then 1 else 0 := by
  cases own with
  | false => simp [queueInLoop, queued, List.count_cons, Nat.add_assoc]
  | true =>
    simp [queueInLoop, queued, List.count_cons]
    omega

theorem owed_queueInLoop (s : TcpClient) (own : Bool) (f : Functor) (c : Nat) :
    (s.queueInLoop own f).owed c = s.owed c + if f = .connDestroyed c then 1 else 0 := by
  have hconn : (s.queueInLoop own f).conn = s.conn := by cases own <;> rfl
  rw [owed, owed, count_queueInLoop, hconn]
  omega

theorem owed_removed (s : TcpClient) (ch : Channel) (c : Connector) (d : Nat) : (s.removed ch c).owed d = s.owed d := by
  have hpost := owed_queueInLoop s true .resetChannel d
  rw [if_neg (by simp)] at hpost
  exact hpost

/-- An attempt ends, or what is left of one. -/
theorem Loose.handled (h : Loose s) (hidle : ¬ s.phase.connectorActive.isSome = true)
    (hne : s.connector.state ≠ .connected) (hchannels : ∀ fd ∈ s.channels, fd = ch.fd) (hs : Handled s ch s' o) :
    Called s s' o := by
  have hon : s.connector.connect_ = true → ¬ Spent s := by
    rintro hconnect (hoff | hconnected)
    · rw [hconnect] at hoff
      cases hoff
    · exact hne hconnected
  cases hs with
  | waiting => exact ⟨h, settles_of_eq rfl fun _ => rfl, fun hspent => ⟨hspent, rfl⟩, Nat.le_refl _⟩
  | retried delay hconnect =>
    have hremoved := h.removed hidle hne hchannels
      (c := {s.connector with state := .disconnected, retryDelayMs := delay}) (by simp)
    exact ⟨⟨hremoved.attempt, hremoved.channels, hremoved.active, hremoved.conn, hremoved.batch, hremoved.ids⟩,
      settles_of_eq rfl (owed_removed s ch {s.connector with state := .disconnected, retryDelayMs := delay}),
      fun hspent => absurd hspent (hon hconnect), Nat.le_succ _⟩
  | closed state hconnect hstate' =>
    exact ⟨h.removed hidle hne hchannels (c := {s.connector with state := state}) hstate',
      settles_of_eq rfl (owed_removed s ch {s.connector with state := state}),
      fun _ => ⟨.inl hconnect, by simp [seen, removal, Lifetimes.handsOver]⟩, Nat.le_refl _⟩
  | connected hconnect =>
    have hremoved := h.removed hidle hne hchannels (c := {s.connector with state := .connected}) (by simp)
    refine ⟨⟨hremoved.attempt, hremoved.channels, hremoved.active, fun _ _ => rfl, hremoved.batch, Nat.succ_pos _⟩,
      ⟨Nat.le_succ _, fun d => ?_⟩, fun hspent => absurd hspent (hon hconnect), Nat.le_refl _⟩
    have howed := owed_removed s ch {s.connector with state := .connected} d
    have hnone : (s.removed ch {s.connector with state := .connected}).conn ≠ some d := h.no_conn hne d
    rw [owed, if_neg hnone] at howed
    rw [owed]
    show (s.removed ch {s.connector with state := .connected}).queued.count _ +
      (if some s.nxtConnID = some d then 1 else 0) = s.owed d + if s.nxtConnID ≤ d ∧ d < s.nxtConnID + 1 then 1 else 0
    rw [← howed]
    simp only [Option.some.injEq]
    split <;> split <;> omega

/-- In state disconnected, what is left of an attempt is ended once more. -/
theorem stopInLoop_cases (hs : s.call s.connector.stopInLoop = some (s', o)) :
    s' = s ∧ o = [] ∨ s.connector.state = .disconnected ∧ ∃ ch, Handled s ch s' o := by
  by_cases hstate : s.connector.state = .disconnected
  case neg =>
    simp only [Connector.stopInLoop, if_neg hstate, call, performAll, Option.bind_eq_bind, Option.bind_some] at hs
    obtain ⟨rfl, rfl⟩ := Prod.mk.inj (Option.some.inj hs)
    exact .inl ⟨rfl, rfl⟩
  right
  refine ⟨hstate, ?_⟩
  cases hchannel : s.connector.channel with
  | none => simp [Connector.stopInLoop, hstate, removeAndResetChannel, hchannel, call] at hs
  | some ch =>
    have hremoval := removeAndResetChannel_eq (c := {s.connector with state := .disconnected}) hchannel
    simp only [Connector.stopInLoop, if_pos hstate, hremoval, Option.bind_eq_bind, Option.bind_some, retry] at hs
    refine ⟨ch, ?_⟩
    by_cases hconnect : s.connector.connect_ = true
    · rw [if_pos hconnect] at hs
      have heq := call_removal (s := s) ch {s.connector with
        state := .disconnected, retryDelayMs := min (s.connector.retryDelayMs * 2) maxRetryDelayMs}
        [.close ch.fd, .runAfter s.connector.retryDelayMs]
      obtain ⟨rfl, rfl⟩ := Prod.mk.inj (Option.some.inj (heq.symm.trans hs))
      exact .retried _ hconnect
    · rw [if_neg hconnect] at hs
      have heq := call_removal (s := s) ch {s.connector with state := .disconnected} [.close ch.fd]
      obtain ⟨rfl, rfl⟩ := Prod.mk.inj (Option.some.inj (heq.symm.trans hs))
      exact .closed .disconnected (Bool.not_eq_true _ ▸ hconnect) (by decide)

/-- A reset finds no channel, or one of no attempt. -/
theorem resetChannel_cases (hs : s.call s.connector.resetChannel = some (s', o)) :
    s' = s ∧ o = [] ∨ ∃ ch, s.connector.channel = some ch ∧ ch.addedToLoop = false ∧
      s' = {s with connector := {s.connector with channel := none}} ∧ o = [.connector (.destroyChannel ch.fd)] := by
  cases hchannel : s.connector.channel with
  | none =>
    simp only [Connector.resetChannel, hchannel, call, performAll, Option.bind_eq_bind, Option.bind_some] at hs
    obtain ⟨rfl, rfl⟩ := Prod.mk.inj (Option.some.inj hs)
    exact .inl ⟨rfl, rfl⟩
  | some ch =>
    right
    by_cases hadded : ch.addedToLoop = false
    case neg => simp [Connector.resetChannel, hchannel, hadded, call, assert] at hs
    refine ⟨ch, rfl, hadded, ?_⟩
    by_cases hmem : ch.fd ∈ s.channels
    · simp [Connector.resetChannel, hchannel, hadded, call, performAll, perform, assert, hmem] at hs
    · simp [Connector.resetChannel, hchannel, hadded, call, performAll, perform, assert, hmem] at hs
      exact ⟨hs.1.symm, hs.2.symm⟩

theorem Loose.called_refl (h : Loose s) : Called s s [] :=
  ⟨h, settles_of_eq rfl fun _ => rfl, fun hspent => ⟨hspent, rfl⟩, Nat.le_refl _⟩

theorem Loose.stopInLoop (h : Loose s) (hidle : ¬ s.phase.connectorActive.isSome = true)
    (hs : s.call s.connector.stopInLoop = some (s', o)) : Called s s' o := by
  rcases stopInLoop_cases hs with ⟨rfl, rfl⟩ | ⟨hstate, ch, hhandled⟩
  · exact h.called_refl
  · refine h.handled hidle (by rw [hstate]; decide) (fun fd hfd => ?_) hhandled
    rw [h.channels (by rw [hstate]; decide)] at hfd
    cases hfd

theorem Loose.resetChannel (h : Loose s) (hs : s.call s.connector.resetChannel = some (s', o)) : Called s s' o := by
  rcases resetChannel_cases hs with ⟨rfl, rfl⟩ | ⟨ch, hchannel, hadded, rfl, rfl⟩
  · exact h.called_refl
  · have hne : s.connector.state ≠ .connecting := by
      intro hstate
      obtain ⟨ch', hch', hadded', -⟩ := h.attempt hstate
      rw [← Option.some.inj (hchannel.symm.trans hch'), hadded] at hadded'
      cases hadded'
    exact ⟨⟨fun hstate => absurd hstate hne, h.channels, h.active, h.conn, h.batch, h.ids⟩,
      settles_of_eq rfl fun _ => rfl, fun hspent => ⟨hspent, rfl⟩, Nat.le_refl _⟩

/-- A connection that closes is owed what it was owed before, and may start the connector again. -/
theorem Loose.rmConn (h : Loose s) {c : Nat} (hs : s.rmConn c errno = some (s', o)) :
    Loose s' ∧ Settles s s' ∧ s.timers ≤ s'.timers := by
  by_cases hconn : s.conn = some c
  case neg => simp [TcpClient.rmConn, hconn, assert] at hs
  have hstate := h.conn c hconn
  have hchannels := h.channels (by rw [hstate]; decide)
  have hidle := h.not_active (by rw [hstate]; decide)
  have hclosed : Loose (s.closed c) :=
    ⟨h.attempt, h.channels, h.active, fun d hd => (by cases hd), h.batch, h.ids⟩
  have howed : ∀ d, (s.closed c).owed d = s.owed d := by
    intro d
    have hpost := owed_queueInLoop {s with conn := none} true (.connDestroyed c) d
    rw [closed, hpost, owed, owed, hconn]
    show s.queued.count _ + 0 + _ = s.queued.count _ + _
    simp
  simp only [TcpClient.rmConn, assert, if_pos hconn, Option.bind_eq_bind, Option.bind_some] at hs
  rw [show queueInLoop {s with conn := none} true (.connDestroyed c) = s.closed c from rfl] at hs
  split at hs
  case isFalse =>
    obtain ⟨rfl, rfl⟩ := Prod.mk.inj (Option.some.inj hs)
    exact ⟨hclosed, settles_of_eq rfl howed, Nat.le_refl _⟩
  case isTrue =>
    obtain ⟨⟨t, o'⟩, hstart, hs⟩ := Option.bind_eq_some_iff.mp hs
    obtain ⟨rfl, rfl⟩ := Prod.mk.inj (Option.some.inj hs)
    have hrestarting : Loose (s.closed c).restarting :=
      ⟨fun hc => (by cases hc), fun _ => hchannels, fun hactive => absurd hactive hidle, fun d hd => (by cases hd),
        h.batch, h.ids⟩
    have hstart : (s.closed c).restarting.startInLoop errno = some (t, o') := hstart
    obtain ⟨hdisconnected, hstarted⟩ := startInLoop_cases hstart
    have hcalled := hrestarting.started hdisconnected hstarted
    exact ⟨hcalled.loose, ⟨hcalled.settles.ids, fun d => (hcalled.settles.owed d).trans
      (congrArg (· + _) (howed d))⟩, hcalled.timers⟩

/-! ### Steps of the loop and of the user -/

/-- The step closes the connection. -/
def Closes (s : TcpClient) : Action → Prop
  | .connEvent closes _ => closes = true
  | .func _ => s.conn.isSome = true ∧ s.queue.batch.head? = s.conn.map .forceCloseInLoop
  | _ => False

instance (s : TcpClient) (a : Action) : Decidable (s.Closes a) :=
  match a with
  | .connEvent _ _ => inferInstanceAs (Decidable (_ = _))
  | .func _ => inferInstanceAs (Decidable (_ ∧ _))
  | .connect _ | .connectQueued | .disconnect | .stop _ | .enableRetry | .forceClose _ | .push _ | .loop | .poll _ _
  | .connectorEvent _ | .timer _ | .doPendingFuncs | .finish => inferInstanceAs (Decidable False)

theorem closes_of_next {c : Nat} {queue : Mailbox Functor} (hnext : s.queue.next = some (.forceCloseInLoop c, queue))
    (hconn : s.conn = some c) : s.Closes (.func errno) := by
  rw [Closes, hconn, (Mailbox.next_eq_some hnext).1]
  exact ⟨rfl, rfl⟩

/-- A connector that is gone has left nothing. -/
structure Idle (s : TcpClient) : Prop where
  unqueued : Unqueued s
  timers : s.timers = 0
  channel : s.connector.channel = none

/-- How often the step runs `connDestroyed` on a connection. -/
def destroys (s : TcpClient) (a : Action) (c : Nat) : Nat :=
  match a, s.queue.next with
  | .func _, some (f, _) => (Lifetimes.ran f).count (.connDestroyed c)
  | _, _ => 0

/-- What a step does, of all that matters for a destruction. -/
structure Went (s : TcpClient) (a : Action) (s' : TcpClient) (o : List Event) : Prop where
  loose : Loose s'
  ids : s.nxtConnID ≤ s'.nxtConnID
  owed : ∀ c, s'.owed c + destroys s a c = s.owed c + if s.nxtConnID ≤ c ∧ c < s'.nxtConnID then 1 else 0
  timers : (∀ errno, a ≠ .timer errno) → s.timers ≤ s'.timers
  spent : usesClient a = false → ¬ s.Closes a → Spent s → Spent s' ∧ o.any Lifetimes.handsOver = false
  idle : usesClient a = false → ¬ s.Closes a → Idle s → Idle s'

/-- A step that leaves the connector alone. -/
structure Plain (s s' : TcpClient) : Prop where
  connector : s'.connector = s.connector
  channels : s'.channels = s.channels
  timers : s'.timers = s.timers
  ids : s'.nxtConnID = s.nxtConnID
  conn : s'.conn = s.conn

theorem Plain.went (hs : Plain s s') (h : Loose s)
    (hactive : s'.phase.connectorActive.isSome = true → s'.connector.state = .connecting)
    (hbatch : s'.phase ≠ .functors → s'.queue.batch = [])
    (hqueued : ∀ c, s'.queued.count (.connDestroyed c) + destroys s a c = s.queued.count (.connDestroyed c))
    (hback : ∀ f ∈ s'.queued, f ∈ s.queued ∨ f.ofConnector = false) : Went s a s' [] where
  loose := by
    refine ⟨?_, ?_, hactive, ?_, hbatch, ?_⟩
    · rw [hs.connector, hs.channels]
      exact h.attempt
    · rw [hs.connector, hs.channels]
      exact h.channels
    · rw [hs.connector, hs.conn]
      exact h.conn
    · rw [hs.ids]
      exact h.ids
  ids := Nat.le_of_eq hs.ids.symm
  owed := by
    intro c
    rw [owed, owed, hs.conn, hs.ids, if_neg (by omega : ¬ (s.nxtConnID ≤ c ∧ c < s.nxtConnID))]
    have := hqueued c
    omega
  timers := fun _ => Nat.le_of_eq hs.timers.symm
  spent := by
    intro _ _ hspent
    rw [Spent, hs.connector]
    exact ⟨hspent, rfl⟩
  idle := by
    intro _ _ hidle
    refine ⟨fun f hf => (hback f hf).elim (hidle.unqueued f) id, hs.timers.trans hidle.timers, ?_⟩
    rw [hs.connector]
    exact hidle.channel

/-- A function of the connector, called by a step from `t`, which differs from `s` in what is queued. -/
theorem Called.went (h : Called t s' o) (hids : t.nxtConnID = s.nxtConnID)
    (howed : ∀ c, t.owed c + destroys s a c = s.owed c) (htimers : (∀ errno, a ≠ .timer errno) → t.timers = s.timers)
    (hspent : Spent s → Spent t) (hidle : usesClient a = false → ¬ Idle s) : Went s a s' o where
  loose := h.loose
  ids := hids ▸ h.settles.ids
  owed := by
    intro c
    have := h.settles.owed c
    have := howed c
    rw [hids] at *
    omega
  timers := fun hnot => htimers hnot ▸ h.timers
  spent := fun _ _ hs => h.spent (hspent hs)
  idle := fun huser _ hs => absurd hs (hidle huser)

/-- `connect_` is set. -/
theorem Loose.flag (h : Loose s) (on client : Bool) :
    Loose {s with connect_ := client, connector := {s.connector with connect_ := on}} :=
  ⟨h.attempt, h.channels, h.active, h.conn, h.batch, h.ids⟩

theorem Loose.connector_handled (h : Loose s) {revents : Mask} {conn : Option Nat}
    (hphase : s.phase = .handling (some revents) conn) : Loose {s with phase := .handling none conn} :=
  ⟨h.attempt, h.channels, nofun, h.conn, fun _ => h.batch (by rw [hphase]; nofun), h.ids⟩

theorem Loose.conn_handled (h : Loose s) {connector : Option Mask} {c : Nat}
    (hphase : s.phase = .handling connector (some c)) : Loose {s with phase := .handling connector none} := by
  refine ⟨h.attempt, h.channels, fun hactive => h.active ?_, h.conn, fun _ => h.batch (by rw [hphase]; nofun), h.ids⟩
  rw [hphase]
  exact hactive

theorem Loose.queueInLoop (h : Loose s) (own : Bool) (f : Functor) : Loose (s.queueInLoop own f) := by
  cases own <;> exact ⟨h.attempt, h.channels, h.active, h.conn, h.batch, h.ids⟩

/-- The user queues something. -/
theorem Loose.asked (h : Loose t) (hids : t.nxtConnID = s.nxtConnID) (howed : ∀ c, t.owed c = s.owed c)
    (htimers : t.timers = s.timers) (own : Bool) (hf : ∀ c, f ≠ .connDestroyed c) (ha : usesClient a = true) :
    Went s a (t.queueInLoop own f) o where
  loose := h.queueInLoop own f
  ids := by cases own <;> exact Nat.le_of_eq hids.symm
  owed := by
    intro c
    have hnone : destroys s a c = 0 := by cases a <;> first | rfl | cases ha
    have hsame : (t.queueInLoop own f).nxtConnID = s.nxtConnID := by cases own <;> exact hids
    rw [owed_queueInLoop, if_neg (hf c), howed, hnone, hsame,
      if_neg (by omega : ¬ (s.nxtConnID ≤ c ∧ c < s.nxtConnID))]
  timers := fun _ => by cases own <;> exact Nat.le_of_eq htimers.symm
  spent := fun hu => by rw [ha] at hu; cases hu
  idle := fun hu => by rw [ha] at hu; cases hu

theorem count_popped {queue : Mailbox Functor} (hnext : s.queue.next = some (f, queue)) (errno : ConnectErrno) (c : Nat) :
    (queued {s with queue := queue}).count (.connDestroyed c) + destroys s (.func errno) c =
      s.queued.count (.connDestroyed c) := by
  have hdestroys : destroys s (.func errno) c = (Lifetimes.ran f).count (.connDestroyed c) := by
    simp [destroys, hnext]
  have hran : (Lifetimes.ran f).count (.connDestroyed c) = if f = .connDestroyed c then 1 else 0 := by
    cases f <;> simp [Lifetimes.ran, List.count_cons]
  rw [hdestroys, hran]
  simp only [queued, Mailbox.waiting_next hnext, List.cons_append, List.count_cons, beq_iff_eq]

theorem owed_popped {queue : Mailbox Functor} (hnext : s.queue.next = some (f, queue)) (errno : ConnectErrno) (c : Nat) :
    owed {s with queue := queue} c + destroys s (.func errno) c = s.owed c := by
  have := count_popped hnext errno c
  simp only [owed]
  omega

/-- A functor is run. -/
theorem Loose.func (h : Loose s) (hphase : s.phase = .functors) {queue : Mailbox Functor}
    (hnext : s.queue.next = some (f, queue)) (hs : run {s with queue := queue} errno f = some (s', o)) :
    Went s (.func errno) s' o := by
  have hidle : ¬ s.phase.connectorActive.isSome = true := by
    rw [hphase]
    exact fun hactive => by cases hactive
  have hpopped : Loose {s with queue := queue} :=
    ⟨h.attempt, h.channels, h.active, h.conn, fun hne => absurd hphase hne, h.ids⟩
  have howed := owed_popped hnext errno
  have hnot : f.ofConnector = true → ¬ Idle s := by
    intro hf hidle
    rw [hidle.unqueued f (mem_queued_of_next hnext)] at hf
    cases hf
  have hplain : Went s (.func errno) {s with queue := queue} [] :=
    Plain.went ⟨rfl, rfl, rfl, rfl, rfl⟩ h h.active hpopped.batch (count_popped hnext errno) fun g hg =>
      .inl (queued_popped hnext hg)
  cases f with
  | startInLoop =>
    obtain ⟨hstate, hstarted⟩ := startInLoop_cases hs
    exact (hpopped.started hstate hstarted).went rfl howed (fun _ => rfl) (fun hs => hs) fun _ => hnot rfl
  | stopInLoop =>
    simp only [TcpClient.run, Option.bind_eq_bind, Option.bind_eq_some_iff, Prod.exists] at hs
    obtain ⟨t, o', hcall, hs⟩ := hs
    obtain ⟨rfl, rfl⟩ := Prod.mk.inj (Option.some.inj hs)
    obtain ⟨hloose, hsettles, hspent, htimers⟩ := hpopped.stopInLoop hidle hcall
    have hcalled : Called {s with queue := queue} t (.stopInLoop :: o') :=
      ⟨hloose, hsettles, fun hs => ⟨(hspent hs).1, (hspent hs).2⟩, htimers⟩
    exact hcalled.went rfl howed (fun _ => rfl) (fun hs => hs) fun _ => hnot rfl
  | resetChannel => exact (hpopped.resetChannel hs).went rfl howed (fun _ => rfl) (fun hs => hs) fun _ => hnot rfl
  | forceCloseInLoop c =>
    by_cases hconn : s.conn = some c
    · have hcloses : Closes s (.func errno) := closes_of_next hnext hconn
      simp only [TcpClient.run, forceCloseInLoop, if_pos hconn] at hs
      obtain ⟨hloose, hsettles, htimers⟩ := hpopped.rmConn hs
      refine ⟨hloose, hsettles.ids, fun d => ?_, fun _ => htimers, fun _ hnot => absurd hcloses hnot,
        fun _ hnot => absurd hcloses hnot⟩
      have hsettled : s'.owed d = owed {s with queue := queue} d +
        if s.nxtConnID ≤ d ∧ d < s'.nxtConnID then 1 else 0 := hsettles.owed d
      have := howed d
      omega
    · simp only [TcpClient.run, forceCloseInLoop, if_neg hconn] at hs
      obtain ⟨rfl, rfl⟩ := Prod.mk.inj (Option.some.inj hs)
      exact hplain
  | connDestroyed c =>
    obtain ⟨rfl, rfl⟩ := Prod.mk.inj (Option.some.inj hs)
    exact hplain

/-- A functor of another thread arrives. -/
theorem Loose.went_push (h : Loose s) (he : s.Enabled (.push f)) (hs : s.step (.push f) = some (s', o)) :
    Went s (.push f) s' o := by
  obtain ⟨rfl, rfl⟩ := Prod.mk.inj (Option.some.inj hs)
  have hperm := List.perm_cons_erase he
  refine Plain.went ⟨rfl, rfl, rfl, rfl, rfl⟩ h h.active h.batch (fun c => ?_) fun g hg => .inl ?_
  · have hcount := hperm.count_eq (.connDestroyed c)
    simp only [List.count_cons, beq_iff_eq] at hcount
    rw [count_queueInLoop]
    simp only [queued, List.count_append, destroys]
    omega
  · rcases (queued_queueInLoop _ _ _ _).mp hg with hg | rfl
    · rcases List.mem_append.mp hg with hg | hg
      · exact List.mem_append_left _ hg
      · exact List.mem_append_right _ (List.mem_of_mem_erase hg)
    · exact List.mem_append_right _ he

/-- The loop takes what is queued. -/
theorem Loose.went_swap (h : Loose s) (hphase : s.phase = .handling none none)
    (hs : s.step .doPendingFuncs = some (s', o)) : Went s .doPendingFuncs s' o := by
  obtain ⟨rfl, rfl⟩ := Prod.mk.inj (Option.some.inj hs)
  have hqueued : queued {s with queue := s.queue.swap, phase := .functors} = s.queued := by
    show s.queue.swap.waiting ++ s.inflight = _
    rw [Mailbox.waiting_swap (h.batch (by rw [hphase]; decide))]
    rfl
  exact Plain.went ⟨rfl, rfl, rfl, rfl, rfl⟩ h (fun hactive => by cases hactive) (fun hne => absurd rfl hne)
    (fun c => by rw [hqueued]; rfl) fun f hf => .inl (hqueued ▸ hf)

theorem Loose.step (h : Loose s) (he : s.Enabled a) (hs : s.step a = some (s', o)) : Went s a s' o := by
  cases a with
  | connect errno =>
    obtain ⟨hstate, o', rfl, hstarted⟩ := connect_cases hs
    have hcalled := (h.flag true true).started hstate hstarted
    exact ⟨hcalled.loose, hcalled.settles.ids, hcalled.settles.owed, fun _ => hcalled.timers, fun hu => (by cases hu),
      fun hu => (by cases hu)⟩
  | connectQueued =>
    obtain ⟨rfl, rfl⟩ := Prod.mk.inj (Option.some.inj hs)
    exact Loose.asked (s := s) (f := .startInLoop) (a := .connectQueued) (h.flag true true) rfl (fun _ => rfl) rfl false (by simp) rfl
  | stop own =>
    obtain ⟨rfl, rfl⟩ := Prod.mk.inj (Option.some.inj hs)
    exact Loose.asked (s := s) (f := .stopInLoop) (a := .stop own) (h.flag false false) rfl (fun _ => rfl) rfl own (by simp) rfl
  | disconnect | enableRetry =>
    obtain ⟨rfl, rfl⟩ := Prod.mk.inj (Option.some.inj hs)
    exact Plain.went ⟨rfl, rfl, rfl, rfl, rfl⟩ h h.active h.batch (fun _ => rfl) fun _ => .inl
  | forceClose own =>
    obtain ⟨c, hconn⟩ := Option.isSome_iff_exists.mp he.1
    simp only [TcpClient.step, hconn] at hs
    obtain ⟨rfl, rfl⟩ := Prod.mk.inj (Option.some.inj hs)
    have hloose := h.queueInLoop own (.forceCloseInLoop c)
    refine Plain.went ?_ h hloose.active hloose.batch (fun d => ?_) fun f hf => ?_
    · cases own <;> exact ⟨rfl, rfl, rfl, rfl, rfl⟩
    · rw [count_queueInLoop, if_neg (by simp)]
      rfl
    · rcases (queued_queueInLoop _ _ _ _).mp hf with hf | rfl
      · exact .inl hf
      · exact .inr rfl
  | push f => exact h.went_push he hs
  | loop =>
    obtain ⟨rfl, rfl⟩ := Prod.mk.inj (Option.some.inj hs)
    have hphase : s.phase = .outside := he
    exact Plain.went ⟨rfl, rfl, rfl, rfl, rfl⟩ h (fun hactive => by cases hactive)
      (fun _ => h.batch (by rw [hphase]; decide)) (fun _ => rfl) fun _ => .inl
  | poll connector conn =>
    obtain ⟨rfl, rfl⟩ := Prod.mk.inj (Option.some.inj hs)
    obtain ⟨hphase, hchannels, -⟩ := he
    refine Plain.went ⟨rfl, rfl, rfl, rfl, rfl⟩ h (fun hactive => ?_) (fun _ => h.batch (by rw [hphase]; decide))
      (fun _ => rfl) fun _ => .inl
    by_contra hne
    exact hchannels hactive (h.channels hne)
  | connectorEvent outcome =>
    simp only [TcpClient.step] at hs
    split at hs
    case h_2 => cases hs
    case h_1 revents conn hphase =>
      have hstate := h.active (by rw [hphase]; rfl)
      obtain ⟨ch, hchannel, -, hchannels⟩ := h.attempt hstate
      have hhandling := h.connector_handled hphase
      obtain ⟨t, o', heq, hhandled⟩ := handleEvents_spec (s := {s with phase := .handling none conn}) hstate hchannel
        outcome revents
      obtain ⟨rfl, rfl⟩ := Prod.mk.inj (Option.some.inj (heq.symm.trans hs))
      have hcalled := hhandling.handled (fun hactive => by cases hactive) (by rw [show _ = _ from hstate]; decide)
        (fun fd hfd => by simpa [hchannels] using hfd) hhandled
      refine hcalled.went rfl (fun _ => rfl) (fun _ => rfl) id fun _ hidle => ?_
      rw [hidle.channel] at hchannel
      cases hchannel
  | connEvent closes errno =>
    simp only [TcpClient.step] at hs
    split at hs
    case h_2 => cases hs
    case h_1 connector c hphase =>
      have hhandling := h.conn_handled hphase
      cases closes with
      | false =>
        obtain ⟨rfl, rfl⟩ := Prod.mk.inj (Option.some.inj hs)
        exact Plain.went ⟨rfl, rfl, rfl, rfl, rfl⟩ h hhandling.active hhandling.batch (fun _ => rfl) fun _ => .inl
      | true =>
        obtain ⟨hloose, hsettles, htimers⟩ := hhandling.rmConn hs
        exact ⟨hloose, hsettles.ids, hsettles.owed, fun _ => htimers, fun _ hnot => absurd rfl hnot,
          fun _ hnot => absurd rfl hnot⟩
  | timer errno =>
    obtain ⟨hstate, hstarted⟩ := startInLoop_cases hs
    have hfired : Loose {s with timers := s.timers - 1} := ⟨h.attempt, h.channels, h.active, h.conn, h.batch, h.ids⟩
    refine (hfired.started hstate hstarted).went rfl (fun _ => rfl) (fun hnot => absurd rfl (hnot errno)) id fun _ hidle => ?_
    have hpos := he.2
    rw [hidle.timers] at hpos
    cases hpos
  | doPendingFuncs => exact h.went_swap he hs
  | func errno =>
    obtain ⟨f, queue, hnext, hs⟩ := func_cases hs
    exact h.func he.1 hnext hs
  | finish =>
    obtain ⟨rfl, rfl⟩ := Prod.mk.inj (Option.some.inj hs)
    exact Plain.went ⟨rfl, rfl, rfl, rfl, rfl⟩ h (fun hactive => by cases hactive) (fun _ => he.2) (fun _ => rfl)
      fun _ => .inl

end Chtho.Net.TcpClient
