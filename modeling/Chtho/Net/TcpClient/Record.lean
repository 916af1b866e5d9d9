import Chtho.Net.TcpClient.Moves

/-! What the history of a run says of the connector: whether it is to be at work, and
which of its sockets are open. A socket is closed or handed over, or it is the one of
the attempt. -/
namespace Chtho.Net.TcpClient
open Lib Connector

/-- Whether the connector is to be at work, by what was called and what has run. -/
inductive Standing where
  | started
  /-- Not started, or `stop` was called since. -/
  | quiet
  /-- And a `stopInLoop` has run since then. -/
  | stopped
deriving DecidableEq, Repr

def Standing.next : Standing → Event → Standing
  | _, .start => .started
  | .started, .stop => .quiet
  | .quiet, .stopInLoop => .stopped
  | st, _ => st

def standing (obs : List Event) : Standing := obs.foldl Standing.next .quiet

/-- The socket was closed or handed over. -/
def Dead (obs : List Event) (fd : Nat) : Prop :=
  .connector (.close fd) ∈ obs ∨ .connector (.newConnCB fd) ∈ obs

/-- No attempt is left: no channel is in the poller, the state is not connecting, and no
socket is open that was not handed over. -/
structure Over (obs : List Event) (s : TcpClient) : Prop where
  channels : s.channels = []
  state : s.connector.state ≠ .connecting
  sockets : ∀ fd, .connector (.connect fd) ∈ obs → Dead obs fd

/-- From `st` on, no connection is handed over while the connector is stopped. -/
def Silent : Standing → List Event → Prop
  | _, [] => True
  | st, e :: es => (st = .stopped → ∀ fd, e ≠ .connector (.newConnCB fd)) ∧ Silent (st.next e) es

/-! ### What is recorded -/

/-- Nothing but what the connector does is recorded. -/
def Quiet (o : List Event) : Prop := ∀ e ∈ o, ∃ effect, e = .connector effect

theorem standing_append (obs o : List Event) : standing (obs ++ o) = o.foldl Standing.next (standing obs) :=
  List.foldl_append

/-- What the connector does is not what it is to do. -/
theorem foldl_next_connector {o : List Event} (ho : Quiet o) (st : Standing) :
    o.foldl Standing.next st = st := by
  induction o with
  | nil => rfl
  | cons e es ih =>
    obtain ⟨⟨effect, rfl⟩, htail⟩ := List.forall_mem_cons.mp ho
    rw [List.foldl_cons, show st.next (.connector effect) = st by cases st <;> rfl]
    exact ih htail

theorem silent_append (st : Standing) (a b : List Event) :
    Silent st (a ++ b) ↔ Silent st a ∧ Silent (a.foldl Standing.next st) b := by
  induction a generalizing st with
  | nil => simp [Silent]
  | cons e es ih => simp [Silent, ih, and_assoc]

/-- A connector that is not stopped may hand over a connection. -/
theorem silent_connector {o : List Event} (ho : Quiet o) {st : Standing}
    (hst : st ≠ .stopped) : Silent st o := by
  induction o with
  | nil => trivial
  | cons e es ih =>
    obtain ⟨⟨effect, rfl⟩, htail⟩ := List.forall_mem_cons.mp ho
    refine ⟨fun heq => absurd heq hst, ?_⟩
    rw [show st.next (.connector effect) = st by cases st <;> rfl]
    exact ih htail

theorem Dead.mono {obs o : List Event} {fd : Nat} (h : Dead obs fd) : Dead (obs ++ o) fd :=
  h.imp (List.mem_append_left _) (List.mem_append_left _)

theorem Started.quiet {s s' : TcpClient} {o : List Event} (hs : Started s s' o) : Quiet o := by
  cases hs <;> simp [Quiet]

theorem Handled.quiet {s s' : TcpClient} {ch : Channel} {o : List Event} (hs : Handled s ch s' o) : Quiet o := by
  cases hs <;> simp [Quiet, seen, removal]

variable {s s' t : TcpClient} {obs o : List Event} {ch : Channel} {a : Action}

/-- What the history says of the connector. -/
structure Recorded (obs : List Event) (s : TcpClient) : Prop where
  connect : s.connector.connect_ = true ↔ standing obs = .started
  stopped : standing obs = .stopped → s.connector.state = .connected
  /-- A socket that is not dead is the one of the attempt. -/
  sockets : ∀ fd, .connector (.connect fd) ∈ obs →
    Dead obs fd ∨ s.connector.state = .connecting ∧ ∃ ch, s.connector.channel = some ch ∧ ch.fd = fd
  /-- The channel that is left of an attempt that failed is one of a closed socket. -/
  closed : s.connector.state = .disconnected → ∀ ch, s.connector.channel = some ch → .connector (.close ch.fd) ∈ obs
  silent : Silent .quiet obs

theorem recorded_create : Recorded [] create := by
  refine ⟨by decide, nofun, ?_, ?_, trivial⟩
  · intro fd hfd
    cases hfd
  · intro _ ch hch
    cases hch

/-- An attempt is started, or not, in state disconnected. -/
theorem Recorded.started (hconnect : s.connector.connect_ = true ↔ standing obs = .started) (hnot : standing obs ≠ .stopped)
    (hsockets : ∀ fd, .connector (.connect fd) ∈ obs → Dead obs fd)
    (hclosed : ∀ ch, s.connector.channel = some ch → .connector (.close ch.fd) ∈ obs) (hsilent : Silent .quiet obs)
    (hs : Started s s' o) : Recorded (obs ++ o) s' := by
  have hstanding : standing (obs ++ o) = standing obs := by
    rw [standing_append, foldl_next_connector hs.quiet]
  have hsilent' : Silent .quiet (obs ++ o) :=
    (silent_append _ _ _).mpr ⟨hsilent, silent_connector hs.quiet hnot⟩
  have hconnect' : s'.connector.connect_ = s.connector.connect_ := by cases hs <;> rfl
  have hold : ∀ ch, s.connector.channel = some ch → .connector (.close ch.fd) ∈ obs ++ o := fun ch hch =>
    List.mem_append_left _ (hclosed ch hch)
  refine ⟨by rw [hconnect', hstanding]; exact hconnect, fun hst => absurd (hstanding ▸ hst) hnot, ?_, ?_, hsilent'⟩
  · intro fd hfd
    rcases List.mem_append.mp hfd with hfd | hfd
    · exact .inl (hsockets fd hfd).mono
    · cases hs with
      | off => cases hfd
      | begun =>
        obtain rfl : fd = s.sockets := by simpa using hfd
        exact .inr ⟨rfl, _, rfl, rfl⟩
      | retried | failed =>
        obtain rfl : fd = s.sockets := by simpa using hfd
        exact .inl (.inl (by simp))
  · intro hdisconnected ch hch
    cases hs with
    | begun => cases hdisconnected
    | off | retried | failed => exact hold ch hch

theorem Recorded.sockets_dead (h : Recorded obs s) (hne : s.connector.state ≠ .connecting) (fd : Nat)
    (hfd : .connector (.connect fd) ∈ obs) : Dead obs fd :=
  (h.sockets fd hfd).resolve_right fun hattempt => hne hattempt.1

/-- A socket that is dead stays dead, and one of an attempt stays so with the attempt. -/
theorem Recorded.sockets_append (h : Recorded obs s) (ho : ∀ fd, .connector (.connect fd) ∉ o)
    (hstate : s'.connector.state = s.connector.state)
    (hchannel : s.connector.state = .connecting → s'.connector.channel = s.connector.channel) (fd : Nat)
    (hfd : .connector (.connect fd) ∈ obs ++ o) :
    Dead (obs ++ o) fd ∨ s'.connector.state = .connecting ∧ ∃ ch, s'.connector.channel = some ch ∧ ch.fd = fd := by
  have hold := (List.mem_append.mp hfd).resolve_right (ho fd)
  refine (h.sockets fd hold).imp Dead.mono fun ⟨hconnecting, hch⟩ => ?_
  rw [hstate, hchannel hconnecting]
  exact ⟨hconnecting, hch⟩

/-- `start` or `restart` is called without an attempt. -/
theorem Recorded.called (h : Recorded obs s) (hne : s.connector.state ≠ .connecting) (hconnect : t.connector.connect_ = true)
    (hclosed : ∀ ch, t.connector.channel = some ch → .connector (.close ch.fd) ∈ obs) (hs : Started t s' o) :
    Recorded (obs ++ .start :: o) s' := by
  have hstanding : standing (obs ++ [.start]) = .started := by
    rw [standing_append]
    cases standing obs <;> rfl
  rw [List.append_cons]
  refine Recorded.started (by rw [hconnect, hstanding]; simp) (by rw [hstanding]; decide) (fun fd hfd => ?_)
    (fun ch hch => List.mem_append_left _ (hclosed ch hch))
    ((silent_append _ _ _).mpr ⟨h.silent, fun _ _ => by simp, trivial⟩) hs
  exact (h.sockets_dead hne fd (by simpa using hfd)).mono

/-- `connect_` is set. -/
theorem Recorded.flag (h : Recorded obs s) (on : Bool)
    (hsame : Same {s with connector := {s.connector with connect_ := on}} s') :
    Recorded (obs ++ [if on then .start else .stop]) s' := by
  have hstate : s'.connector.state = s.connector.state := by rw [hsame.connector]
  have hchannel : s'.connector.channel = s.connector.channel := by rw [hsame.connector]
  have hconnect : s'.connector.connect_ = on := by rw [hsame.connector]
  have hstanding : standing (obs ++ [if on then .start else .stop]) =
      (standing obs).next (if on then .start else .stop) := by
    rw [standing_append]
    rfl
  refine ⟨?_, fun hst => ?_, h.sockets_append (by cases on <;> simp) hstate fun _ => hchannel, fun hst ch hch => ?_,
    (silent_append _ _ _).mpr ⟨h.silent, fun _ fd => by cases on <;> simp, trivial⟩⟩
  · rw [hconnect, hstanding]
    cases on with
    | true => cases standing obs <;> simp [Standing.next]
    | false => cases standing obs <;> simp [Standing.next]
  · rw [hstate]
    refine h.stopped ?_
    rw [hstanding] at hst
    revert hst
    cases on <;> cases standing obs <;> simp [Standing.next]
  · exact List.mem_append_left _ (h.closed (hstate ▸ hst) ch (hchannel ▸ hch))

/-- The state is not connected, so the connector is not stopped. -/
theorem Recorded.not_stopped (h : Recorded obs s) (hne : s.connector.state ≠ .connected) : standing obs ≠ .stopped :=
  fun hst => hne (h.stopped hst)

/-- A timer or a functor starts. -/
theorem Recorded.startInLoop (h : Recorded obs s) (hconnector : t.connector = s.connector)
    (hstate : s.connector.state = .disconnected) (hs : Started t s' o) : Recorded (obs ++ o) s' := by
  refine Recorded.started ?_ (h.not_stopped (by rw [hstate]; decide)) (h.sockets_dead (by rw [hstate]; decide)) ?_
    h.silent hs
  all_goals rw [hconnector]
  · exact h.connect
  · exact h.closed hstate

/-- The attempt has events: it goes on, its socket is closed, or it is handed over. -/
theorem Recorded.handled (h : Recorded obs s) {ch : Channel} (hsame : Same s t) (hstate : s.connector.state = .connecting)
    (hchannel : s.connector.channel = some ch) (hhandled : Handled t ch s' o) : Recorded (obs ++ o) s' := by
  have hnot := h.not_stopped (by rw [hstate]; decide)
  have hstanding : standing (obs ++ o) = standing obs := by
    rw [standing_append, foldl_next_connector hhandled.quiet]
  have hsilent : Silent .quiet (obs ++ o) :=
    (silent_append _ _ _).mpr ⟨h.silent, silent_connector hhandled.quiet hnot⟩
  have hconnect : s'.connector.connect_ = true ↔ standing (obs ++ o) = .started := by
    rw [hstanding, ← h.connect, ← hsame.connector]
    cases hhandled <;> rfl
  have hfds : ∀ fd, .connector (.connect fd) ∈ obs ++ o → Dead obs fd ∨ fd = ch.fd := by
    intro fd hfd
    have hold : .connector (.connect fd) ∈ obs := by
      refine (List.mem_append.mp hfd).resolve_right ?_
      cases hhandled <;> simp [seen, removal]
    refine (h.sockets fd hold).imp_right fun hcurrent => ?_
    obtain ⟨-, ch', hch', hfd'⟩ := hcurrent
    rw [hchannel] at hch'
    rw [← hfd', Option.some.inj hch']
  cases hhandled with
  | waiting =>
    rw [List.append_nil] at *
    refine ⟨hconnect, fun hst => absurd hst hnot, ?_, fun hst => ?_, hsilent⟩
    · rw [hsame.connector]
      exact h.sockets
    · rw [hsame.connector, hstate] at hst
      cases hst
  | retried | closed =>
    refine ⟨hconnect, fun hst => absurd (hstanding ▸ hst) hnot, fun fd hfd => .inl ?_, fun _ ch' hch' => ?_, hsilent⟩
    · rcases hfds fd hfd with hdead | rfl
      · exact hdead.mono
      · exact .inl (by simp [seen])
    · rw [← Option.some.inj hch']
      simp [seen]
  | connected =>
    refine ⟨hconnect, fun hst => absurd (hstanding ▸ hst) hnot, fun fd hfd => .inl ?_, (fun hst => by cases hst), hsilent⟩
    rcases hfds fd hfd with hdead | rfl
    · exact hdead.mono
    · exact .inr (by simp [seen])

theorem Recorded.resetChannel (h : Recorded obs s) {ch : Channel} (hne : s.connector.state ≠ .connecting)
    (hsame : Same {s with connector := {s.connector with channel := none}} s') :
    Recorded (obs ++ [.connector (.destroyChannel ch.fd)]) s' := by
  have hstanding : standing (obs ++ [.connector (.destroyChannel ch.fd)]) = standing obs := by
    rw [standing_append]
    exact foldl_next_connector (by simp [Quiet]) _
  have hstate : s'.connector.state = s.connector.state := by rw [hsame.connector]
  refine ⟨?_, fun hst => ?_, h.sockets_append (by simp) hstate fun hst => absurd hst hne, fun _ ch' hch' => ?_,
    (silent_append _ _ _).mpr ⟨h.silent, fun _ _ => by simp, trivial⟩⟩
  · rw [hstanding, ← h.connect, hsame.connector]
  · rw [hstate]
    exact h.stopped (hstanding ▸ hst)
  · rw [hsame.connector] at hch'
    cases hch'

/-- A `stopInLoop` that finds the connector at work finds a connection, or a start that came later. -/
theorem Recorded.stopInLoop (h : Recorded obs s)
    (hcond : s.connector.state = .connected ∨ s.connector.state = .connecting ∧ s.connector.connect_ = true)
    (hne : s.connector.state ≠ .disconnected) (hsame : Same s s') : Recorded (obs ++ [.stopInLoop]) s' := by
  have hstanding : standing (obs ++ [.stopInLoop]) = (standing obs).next .stopInLoop := by
    rw [standing_append]
    rfl
  refine ⟨?_, fun hst => ?_, h.sockets_append (by simp) (by rw [hsame.connector]) fun _ => by rw [hsame.connector],
    fun hst => ?_, (silent_append _ _ _).mpr ⟨h.silent, fun _ _ => by simp, trivial⟩⟩
  · rw [hstanding, hsame.connector, h.connect]
    cases standing obs <;> simp [Standing.next]
  · rw [hsame.connector]
    refine hcond.elim id fun hattempt => ?_
    -- a start came after the call of `stop`
    rw [hstanding, h.connect.mp hattempt.2] at hst
    cases hst
  · rw [hsame.connector] at hst
    exact absurd hst hne

theorem Recorded.moved (h : Recorded obs s) (hs : Moved s a s' o)
    (hstop : ∀ errno queue, a = .func errno → s.queue.next = some (.stopInLoop, queue) →
      s.connector.state = .connected ∨ s.connector.state = .connecting ∧ s.connector.connect_ = true) :
    Recorded (obs ++ o) s' := by
  cases hs with
  | quiet hsame =>
    rw [List.append_nil]
    obtain ⟨hconnect, hstopped, hsockets, hclosed, hsilent⟩ := h
    constructor
    all_goals (try rw [hsame.connector])
    all_goals assumption
  | connectQueued hsame => exact h.flag true hsame
  | stop hsame => exact h.flag false hsame
  | timer hstate hstarted => exact h.startInLoop (t := {s with timers := s.timers - 1}) rfl hstate hstarted
  | @startInLoop _ queue _ _ _ hstate hstarted => exact h.startInLoop (t := {s with queue := queue}) rfl hstate hstarted
  | connect t hsame hstate hstarted =>
    refine h.called (by rw [hstate]; decide) (by rw [hsame.connector]) (fun ch hch => ?_) hstarted
    rw [hsame.connector] at hch
    exact h.closed hstate ch hch
  | restarted t hsame hstate hnone hstarted =>
    refine h.called (by rw [hstate]; decide) rfl (fun ch hch => ?_) hstarted
    have hch : t.connector.channel = some ch := hch
    rw [hsame.connector, hnone] at hch
    cases hch
  | handled t ch hsame hstate hchannel hhandled => exact h.handled hsame hstate hchannel hhandled
  | resetChannel ch _ hne hsame => exact h.resetChannel hne hsame
  | stopInLoop hnext hne hsame => exact h.stopInLoop (hstop _ _ rfl hnext) hne hsame

end Chtho.Net.TcpClient
