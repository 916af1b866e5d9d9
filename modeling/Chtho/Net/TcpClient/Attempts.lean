import Chtho.Lib.History
import Chtho.Net.TcpClient.Record

/-! What the history says of the attempts: which socket has one, whether it has led to a
connection, and whether the channel of the last one is still to be reset. -/
namespace Chtho.Net.TcpClient
open Lib Connector

/-- The attempt on a socket has begun and is not over. -/
def InFlight (obs : List Event) (fd : Nat) : Prop := .connector (.connect fd) ∈ obs ∧ ¬ Dead obs fd

instance (obs : List Event) (fd : Nat) : Decidable (InFlight obs fd) := inferInstanceAs (Decidable (_ ∧ ¬ (_ ∨ _)))

/-- A connection has been made, and the connector has not been started since. -/
def Made : List Event → Prop := Since (fun e => ∃ fd, e = .connector (.newConnCB fd)) (· = .start)

/-- A `resetChannel` has been queued, and has not run. -/
def ResetDue : List Event → Prop :=
  Since (· = .connector .queueResetChannel) fun e => ∃ fd, e = .connector (.destroyChannel fd)

/-- How often a socket was closed or handed over. -/
def released (obs : List Event) (fd : Nat) : Nat :=
  obs.count (.connector (.close fd)) + obs.count (.connector (.newConnCB fd))

variable {s s' : TcpClient} {obs o : List Event} {a : Action} {ch : Channel} {fd : Nat}

/-! ### Sockets -/

theorem released_append (obs o : List Event) (fd : Nat) : released (obs ++ o) fd = released obs fd + released o fd := by
  simp only [released, List.count_append]
  omega

theorem dead_iff_released : Dead obs fd ↔ 0 < released obs fd := by
  rw [Dead, released, Nat.add_pos_iff_pos_or_pos, List.count_pos_iff, List.count_pos_iff]

/-- No socket is released twice, nor is one that does not exist or has an attempt. -/
structure Owned (obs : List Event) (s : TcpClient) : Prop where
  bound : ∀ fd, s.sockets ≤ fd → released obs fd = 0
  once : ∀ fd, released obs fd ≤ 1
  attempt : s.connector.state = .connecting → ∀ ch, s.connector.channel = some ch →
    ch.fd < s.sockets ∧ released obs ch.fd = 0

theorem owned_create : Owned [] create := ⟨fun _ _ => rfl, fun _ => Nat.zero_le 1, fun hstate => by cases hstate⟩

/-- Nothing is released. -/
theorem Owned.kept (h : Owned obs s) (ho : ∀ fd, released o fd = 0) (hsockets : s'.sockets = s.sockets)
    (hattempt : s'.connector.state = .connecting →
      s.connector.state = .connecting ∧ s'.connector.channel = s.connector.channel) : Owned (obs ++ o) s' where
  bound := fun fd hfd => by rw [released_append, ho, h.bound fd (hsockets ▸ hfd)]
  once := fun fd => by
    rw [released_append, ho]
    exact h.once fd
  attempt := by
    intro hstate ch hch
    obtain ⟨hold, hchannel⟩ := hattempt hstate
    rw [released_append, ho, hsockets]
    exact h.attempt hold ch (hchannel ▸ hch)

/-- One socket is released, for the first time. -/
theorem Owned.release (h : Owned obs s) {n : Nat} (ho : ∀ fd, released o fd = if n = fd then 1 else 0)
    (hopen : released obs n = 0) (hn : n < s'.sockets) (hsockets : s.sockets ≤ s'.sockets)
    (hstate : s'.connector.state ≠ .connecting) : Owned (obs ++ o) s' where
  bound := by
    intro fd hfd
    rw [released_append, ho, h.bound fd (Nat.le_trans hsockets hfd), if_neg]
    rintro rfl
    exact absurd hn (Nat.not_lt.mpr hfd)
  once := by
    intro fd
    rw [released_append, ho]
    split
    case isTrue heq => rw [← heq, hopen]
    case isFalse => exact h.once fd
  attempt := fun hconnecting => absurd hconnecting hstate

/-- An attempt that is over at once has released its socket. -/
theorem Owned.started (h : Owned obs s) (hstate : s.connector.state = .disconnected) (hs : Started s s' o) :
    Owned (obs ++ o) s' := by
  have hfresh := h.bound s.sockets (Nat.le_refl _)
  cases hs with
  | off => exact h.kept (fun _ => rfl) rfl fun hconnecting => absurd (hstate.symm.trans hconnecting) (by decide)
  | begun =>
    have hnone : ∀ fd, released [.connector (.connect s.sockets), .connector (.updateChannel s.sockets)] fd = 0 :=
      fun fd => by simp [released]
    refine ⟨fun fd hfd => ?_, fun fd => ?_, fun _ ch hch => ?_⟩
    · rw [released_append, hnone, h.bound fd (Nat.le_of_succ_le hfd)]
    · rw [released_append, hnone]
      exact h.once fd
    · obtain rfl := Option.some.inj hch
      rw [released_append, hnone]
      exact ⟨Nat.lt_succ_self _, hfresh⟩
  | retried | failed =>
    refine h.release (fun fd => ?_) hfresh (Nat.lt_succ_self _) (Nat.le_succ _) (by simp [hstate])
    simp [released, List.count_cons]

/-- The socket of an attempt that ends is released. -/
theorem Owned.handled (h : Owned obs s) (hstate : s.connector.state = .connecting)
    (hchannel : s.connector.channel = some ch) (hs : Handled s ch s' o) : Owned (obs ++ o) s' := by
  obtain ⟨hbound, hopen⟩ := h.attempt hstate ch hchannel
  cases hs with
  | waiting => exact h.kept (fun _ => rfl) rfl fun hconnecting => ⟨hconnecting, rfl⟩
  | retried =>
    refine h.release (fun fd => ?_) hopen hbound (Nat.le_refl _) (by simp [removed])
    simp [released, seen, removal, List.count_cons]
  | closed state _ hne =>
    refine h.release (fun fd => ?_) hopen hbound (Nat.le_refl _) (by simp [removed, hne])
    simp [released, seen, removal, List.count_cons]
  | connected =>
    refine h.release (fun fd => ?_) hopen hbound (Nat.le_refl _) (by simp [removed, newConn])
    simp [released, seen, removal, List.count_cons]

/-- Only the sockets and the attempt matter. -/
theorem Owned.transfer {t : TcpClient} (h : Owned obs s) (hsockets : t.sockets = s.sockets)
    (hattempt : t.connector.state = .connecting →
      s.connector.state = .connecting ∧ t.connector.channel = s.connector.channel) : Owned obs t := by
  have hkept := h.kept (o := []) (fun _ => rfl) hsockets hattempt
  rwa [List.append_nil] at hkept

theorem Owned.moved (h : Owned obs s) (hs : Moved s a s' o) : Owned (obs ++ o) s' := by
  have hidle : ∀ t : TcpClient, t.sockets = s.sockets → t.connector.state = .disconnected → Owned obs t :=
    fun t hsockets hstate => h.transfer hsockets fun hconnecting => absurd (hstate.symm.trans hconnecting) (by decide)
  cases hs with
  | quiet hsame | connectQueued hsame | stop hsame | stopInLoop _ _ hsame =>
    refine h.kept (fun fd => by simp [released]) hsame.sockets fun hconnecting => ?_
    rw [hsame.connector] at hconnecting ⊢
    exact ⟨hconnecting, rfl⟩
  | resetChannel ch _ hne hsame =>
    refine h.kept (fun fd => by simp [released]) hsame.sockets fun hconnecting => ?_
    rw [hsame.connector] at hconnecting
    exact absurd hconnecting hne
  | connect t hsame hstate hstarted =>
    have hcalled : Owned (obs ++ [.start]) t := by
      refine h.kept (fun fd => by simp [released]) hsame.sockets fun hconnecting => ?_
      rw [hsame.connector] at hconnecting
      exact absurd (hstate.symm.trans hconnecting) (by decide)
    rw [List.append_cons]
    exact hcalled.started (by rw [hsame.connector]; exact hstate) hstarted
  | timer hstate hstarted => exact (hidle {s with timers := s.timers - 1} rfl hstate).started hstate hstarted
  | @startInLoop _ queue _ _ _ hstate hstarted =>
    exact (hidle {s with queue := queue} rfl hstate).started hstate hstarted
  | handled t ch hsame hstate hchannel hhandled =>
    have ht : Owned obs t := by
      refine h.transfer hsame.sockets fun hconnecting => ?_
      rw [hsame.connector] at hconnecting ⊢
      exact ⟨hconnecting, rfl⟩
    exact ht.handled (by rw [hsame.connector]; exact hstate) (by rw [hsame.connector]; exact hchannel) hhandled
  | restarted t hsame hstate hnone hstarted =>
    have hcalled : Owned (obs ++ [.start]) t.restarting :=
      h.kept (fun fd => by simp [released]) hsame.sockets fun hconnecting => by cases hconnecting
    rw [List.append_cons]
    exact hcalled.started rfl hstarted

/-! ### The attempt, the connection and the channel -/

/-- What the history says of the connector's state and channel. -/
structure Tells (obs : List Event) (c : Connector) : Prop where
  on : c.state = .connecting → c.connect_ = true
  begun : c.state = .connecting → ∀ ch, c.channel = some ch → .connector (.connect ch.fd) ∈ obs
  made : Made obs ↔ c.state = .connected
  due : ResetDue obs ↔ c.state ≠ .connecting ∧ c.channel ≠ none

/-- Without an attempt only the connection and the channel are left to tell of. -/
theorem tells_resting {c : Connector} (hne : c.state ≠ .connecting) (hmade : Made obs ↔ c.state = .connected)
    (hdue : ResetDue obs ↔ c.channel ≠ none) : Tells obs c :=
  ⟨fun hc => absurd hc hne, fun hc => absurd hc hne, hmade, hdue.trans (and_iff_right hne).symm⟩

theorem Tells.resting {c : Connector} (h : Tells obs c) (hne : c.state ≠ .connecting) :
    ResetDue obs ↔ c.channel ≠ none := h.due.trans (and_iff_right hne)

theorem tells_create : Tells [] Connector.create := by
  refine tells_resting (by decide) ?_ ?_
  · simp [Made, Since, Connector.create]
  · simp [ResetDue, Since, Connector.create]

theorem Tells.started (h : Tells obs s.connector) (hstate : s.connector.state = .disconnected) (hs : Started s s' o) :
    Tells (obs ++ o) s'.connector := by
  have hmade : ¬ Made obs := by
    rw [h.made, hstate]
    decide
  have hdue := h.resting (by rw [hstate]; decide)
  cases hs with
  | off =>
    rw [List.append_nil]
    exact h
  | begun hon hnone =>
    refine ⟨fun _ => hon, fun _ ch hch => ?_, ?_, ?_⟩
    · obtain rfl := Option.some.inj hch
      simp
    · simpa [Made, since_append, Since] using hmade
    · simpa [ResetDue, since_append, Since, hnone] using hdue
  | retried delay =>
    refine tells_resting (by simp) ?_ ?_
    · simpa [Made, since_append, Since] using hmade
    · simpa [ResetDue, since_append, Since] using hdue
  | failed =>
    refine tells_resting (by rw [hstate]; decide) ?_ ?_
    · simpa [Made, since_append, Since, hstate] using hmade
    · simpa [ResetDue, since_append, Since] using hdue

/-- With `connect_` set, an attempt that ends well is handed over. -/
theorem Tells.handled (h : Tells obs s.connector) (hstate : s.connector.state = .connecting) (hs : Handled s ch s' o) :
    Tells (obs ++ o) s'.connector := by
  have hmade := h.made
  rw [hstate] at hmade
  cases hs with
  | waiting =>
    rw [List.append_nil]
    exact h
  | retried delay =>
    refine tells_resting (by simp [removed]) ?_ ?_
    · simpa [Made, since_append, Since, seen, removal, removed] using hmade
    · simp [ResetDue, since_append, Since, seen, removal, removed]
  | closed state hoff => exact absurd (h.on hstate) (by simp [hoff])
  | connected =>
    refine tells_resting (by simp [removed, newConn]) ?_ ?_
    · simp [Made, since_append, Since, seen, removal, removed, newConn]
    · simp [ResetDue, since_append, Since, seen, removal, removed, newConn]

/-- The connector is started anew, by a call. -/
theorem Tells.called (h : Tells obs s.connector) {c : Connector} (hstate : c.state = .disconnected)
    (hchannel : c.channel = s.connector.channel) (hne : s.connector.state ≠ .connecting) : Tells (obs ++ [.start]) c := by
  refine tells_resting (by rw [hstate]; decide) ?_ ?_
  · simp [Made, since_append, Since, hstate]
  · rw [hchannel, ← h.resting hne]
    simp [ResetDue, since_append, Since]

/-- No start is queued, and the connector is not stopped. -/
theorem Tells.moved (h : Tells obs s.connector) (hs : Moved s a s' o) (hqueued : a ≠ .connectQueued)
    (hstop : ∀ own, a ≠ .stop own) : Tells (obs ++ o) s'.connector := by
  cases hs with
  | quiet hsame =>
    rw [List.append_nil, hsame.connector]
    exact h
  | connectQueued => exact absurd rfl hqueued
  | stop => exact absurd rfl (hstop _)
  | stopInLoop _ _ hsame =>
    rw [hsame.connector]
    obtain ⟨hon, hbegun, hmade, hdue⟩ := h
    refine ⟨hon, fun hconnecting ch hch => List.mem_append_left _ (hbegun hconnecting ch hch), ?_, ?_⟩
    · simpa [Made, since_append, Since] using hmade
    · simpa [ResetDue, since_append, Since] using hdue
  | resetChannel ch hchannel hne hsame =>
    rw [hsame.connector]
    refine tells_resting hne ?_ ?_
    · simpa [Made, since_append, Since] using h.made
    · simp [ResetDue, since_append, Since]
  | connect t hsame hstate hstarted =>
    have hcalled : Tells (obs ++ [.start]) t.connector := by
      rw [hsame.connector]
      exact h.called hstate rfl (by rw [hstate]; decide)
    rw [List.append_cons]
    exact hcalled.started (by rw [hsame.connector]; exact hstate) hstarted
  | timer hstate hstarted => exact h.started (s := {s with timers := s.timers - 1}) hstate hstarted
  | @startInLoop _ queue _ _ _ hstate hstarted => exact h.started (s := {s with queue := queue}) hstate hstarted
  | handled t ch hsame hstate _ hhandled =>
    rw [← hsame.connector] at h hstate
    exact h.handled hstate hhandled
  | restarted t hsame hstate _ hstarted =>
    have hchannel : t.connector.channel = s.connector.channel := by rw [hsame.connector]
    have hcalled : Tells (obs ++ [.start]) t.restarting.connector :=
      h.called rfl hchannel (by rw [hstate]; decide)
    rw [List.append_cons]
    exact hcalled.started rfl hstarted

/-- There is a socket in flight exactly while the state is connecting. -/
theorem Tells.inFlight_iff (h : Tells obs s.connector) (hinv : Inv s) (hrecorded : Recorded obs s) (howned : Owned obs s) :
    (∃ fd, InFlight obs fd) ↔ s.connector.state = .connecting := by
  constructor
  · rintro ⟨fd, hfd, hopen⟩
    exact ((hrecorded.sockets fd hfd).resolve_left hopen).1
  · intro hstate
    obtain ⟨ch, hchannel, -⟩ := hinv.attempt hstate
    obtain ⟨-, hzero⟩ := howned.attempt hstate ch hchannel
    refine ⟨ch.fd, h.begun hstate ch hchannel, fun hdead => ?_⟩
    rw [dead_iff_released, hzero] at hdead
    exact Nat.lt_irrefl 0 hdead

/-- Neither an attempt nor a connection: the state is disconnected. -/
theorem Tells.disconnected_iff (h : Tells obs s.connector) (hinv : Inv s) (hrecorded : Recorded obs s)
    (howned : Owned obs s) :
    (∀ fd, ¬ InFlight obs fd) ∧ ¬ Made obs ↔ s.connector.state = .disconnected := by
  rw [← not_exists, h.inFlight_iff hinv hrecorded howned, h.made]
  cases s.connector.state <;> simp

end Chtho.Net.TcpClient
