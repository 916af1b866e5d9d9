import Chtho.Net.TcpClient.Attempts

/-! Connecting and reconnecting in the loop thread.

Attempts are started by `connect`, by a retry timer and by a connection that closes. The
last finds the connector in state connected and without a channel, and sets the state
itself. The other two take the state as it is: `startInLoop` asserts that it is
disconnected, and `connecting` that the channel of the last attempt has been reset. A
retry timer that `connect` has overtaken, and a `connect` after a connection has closed,
do not find it so. -/
namespace Chtho.Net.TcpClient
open Lib Connector

/-- The user calls in the loop thread, and does not stop the connector. -/
def InLoop : Action → Prop
  | .stop _ | .connectQueued => False
  | _ => True

/-- A start finds the connector without an attempt, and without the channel of one if it
needs its place. -/
def Vacant (s : TcpClient) : Action → Prop
  | .connect errno | .timer errno =>
    s.connector.state = .disconnected ∧ (errno.begun = true → s.connector.channel = none)
  | _ => True

/-- The same by what has been seen of the connector: no attempt is in flight, no connection
has been made since the last start, and the channel of the last attempt is not still to be
reset if its place is needed. -/
def Clear (obs : List Event) : Action → Prop
  | .connect errno | .timer errno =>
    (∀ fd, ¬ InFlight obs fd) ∧ ¬ Made obs ∧ (errno.begun = true → ¬ ResetDue obs)
  | _ => True

/-- `connect` is called when nothing is left of the last attempt, not even a timer, and
timers fire when the channel has been reset. -/
def Patient (s : TcpClient) : Action → Prop
  | .connect _ => s.connector.state = .disconnected ∧ s.connector.channel = none ∧ s.timers = 0
  | .timer _ => s.connector.channel = none
  | _ => True

instance (a : Action) : Decidable (InLoop a) :=
  match a with
  | .stop _ | .connectQueued => inferInstanceAs (Decidable False)
  | .connect _ | .disconnect | .enableRetry | .forceClose _ | .push _ | .loop | .poll _ _ | .connectorEvent _
  | .connEvent _ _ | .timer _ | .doPendingFuncs | .func _ | .finish => inferInstanceAs (Decidable True)

instance (s : TcpClient) (a : Action) : Decidable (s.Patient a) :=
  match a with
  | .connect _ => inferInstanceAs (Decidable (_ = _ ∧ _ = _ ∧ _ = _))
  | .timer _ => inferInstanceAs (Decidable (_ = _))
  | .stop _ | .connectQueued | .disconnect | .enableRetry | .forceClose _ | .push _ | .loop | .poll _ _
  | .connectorEvent _ | .connEvent _ _ | .doPendingFuncs | .func _ | .finish => inferInstanceAs (Decidable True)

variable {s s' : TcpClient} {obs o : List Event} {a : Action} {errno : ConnectErrno}

/-! ### What the user does not do is not queued -/

structure Unstopped (s : TcpClient) : Prop where
  starts : .startInLoop ∉ s.queued
  stops : .stopInLoop ∉ s.queued
  timers : 0 < s.timers → s.connector.connect_ = true

theorem unstopped_create : Unstopped create := ⟨by decide, by decide, fun h => absurd h (by decide)⟩

theorem stopsLate_of_notMem (h : .stopInLoop ∉ s.queued) (a : Action) : s.StopsLate a := by
  cases a with
  | func => exact fun queue hnext => absurd (mem_queued_of_next hnext) h
  | _ => trivial

theorem Started.connect_eq {s s' : TcpClient} (hs : Started s s' o) :
    s'.connector.connect_ = s.connector.connect_ := by cases hs <;> rfl

/-- Only `connect_` lets a timer be set. -/
theorem Started.timers {s s' : TcpClient} (hs : Started s s' o) (h : 0 < s.timers → s.connector.connect_ = true) :
    0 < s'.timers → s'.connector.connect_ = true := by
  cases hs with
  | off | begun | failed => exact h
  | retried _ hon => exact fun _ => hon

/-- A connector that is not stopped keeps `connect_` while it has a timer. -/
theorem Moved.timers_on (hs : Moved s a s' o) (ha : ∀ own, a ≠ .stop own)
    (h : 0 < s.timers → s.connector.connect_ = true) : 0 < s'.timers → s'.connector.connect_ = true := by
  cases hs with
  | quiet hsame | stopInLoop _ _ hsame | resetChannel _ _ _ hsame =>
    rw [hsame.timers, hsame.connector]
    exact h
  | connect t hsame _ hstarted =>
    intro _
    rw [hstarted.connect_eq, hsame.connector]
  | connectQueued hsame =>
    intro _
    rw [hsame.connector]
  | stop => exact absurd rfl (ha _)
  | timer _ hstarted => exact hstarted.timers fun hpos => h (Nat.lt_of_lt_of_le hpos (Nat.sub_le _ _))
  | startInLoop _ _ hstarted => exact hstarted.timers h
  | handled t ch hsame _ _ hhandled =>
    cases hhandled with
    | waiting =>
      rw [hsame.timers, hsame.connector]
      exact h
    | closed | connected =>
      show 0 < t.timers → t.connector.connect_ = true
      rw [hsame.timers, hsame.connector]
      exact h
    | retried _ hon => exact fun _ => hon
  | restarted t _ _ _ hstarted =>
    intro _
    rw [hstarted.connect_eq]
    rfl

theorem Unstopped.step (hinv : Inv s) (h : Unstopped s) (he : s.Enabled a) (ha : InLoop a)
    (hs : s.step a = some (s', o)) : Stepped s a s' o ∧ Unstopped s' := by
  have hstepped := hinv.step he (stopsLate_of_notMem h.stops a) hs
  refine ⟨hstepped, fun hmem => ?_, fun hmem => ?_, hstepped.moved.timers_on ?_ h.timers⟩
  · rcases hstepped.starts hmem with hmem | rfl
    · exact h.starts hmem
    · exact ha
  · rcases hstepped.stops hmem with hmem | ⟨own, rfl⟩
    · exact h.stops hmem
    · exact ha
  · rintro own rfl
    exact ha

/-! ### Which steps fail -/

theorem isSome_connectorEvent (hinv : Inv s) (outcome : Outcome) (he : s.Enabled (.connectorEvent outcome)) :
    (s.step (.connectorEvent outcome)).isSome = true := by
  simp only [TcpClient.step]
  split
  case h_1 revents conn hphase =>
    have hstate := hinv.active (by rw [hphase]; rfl)
    obtain ⟨ch, hchannel, -⟩ := hinv.attempt hstate
    obtain ⟨t, o', heq, -⟩ := handleEvents_spec (s := {s with phase := .handling none conn}) hstate hchannel
      outcome revents
    simp [heq]
  case h_2 hphase =>
    obtain ⟨revents, hactive⟩ := Option.isSome_iff_exists.mp he
    cases hp : s.phase with
    | handling connector conn =>
      rw [hp] at hactive
      exact (hphase revents conn (hp.trans (congrArg (Phase.handling · conn) hactive))).elim
    | outside | polling | functors =>
      rw [hp] at hactive
      cases hactive

theorem isSome_connEvent (hinv : Inv s) (closes : Bool) (errno : ConnectErrno) (he : s.Enabled (.connEvent closes errno)) :
    (s.step (.connEvent closes errno)).isSome = true := by
  simp only [TcpClient.step]
  split
  case h_1 connector c hphase =>
    obtain ⟨hconn, hresets⟩ := hinv.connActive c (by rw [hphase]; rfl)
    obtain ⟨t, o', heq, -⟩ := (hinv.conn_handled hphase).rmConn hconn rfl hresets errno
    cases closes <;> simp [heq]
  case h_2 hphase =>
    obtain ⟨c, hactive⟩ := Option.isSome_iff_exists.mp he
    cases hp : s.phase with
    | handling connector conn =>
      rw [hp] at hactive
      exact (hphase connector c (hp.trans (congrArg (Phase.handling connector) hactive))).elim
    | outside | polling | functors =>
      rw [hp] at hactive
      cases hactive

/-- No functor fails if one that starts finds the connector vacant. -/
theorem isSome_func (hinv : Inv s)
    (hstarts : .startInLoop ∈ s.queued → s.connector.state = .disconnected ∧ s.connector.channel = none)
    (hstops : .stopInLoop ∉ s.queued) (he : s.Enabled (.func errno)) : (s.step (.func errno)).isSome = true := by
  obtain ⟨hphase, hbatch⟩ := he
  obtain ⟨f, queue, hnext⟩ := Mailbox.exists_next hbatch
  simp only [TcpClient.step, hnext, Option.bind_eq_bind, Option.bind_some]
  cases f with
  | startInLoop =>
    obtain ⟨hstate, hnone⟩ := hstarts (mem_queued_of_next hnext)
    exact isSome_startInLoop.mpr ⟨hstate, fun _ _ => hnone⟩
  | stopInLoop => exact absurd (mem_queued_of_next hnext) hstops
  | resetChannel =>
    obtain ⟨t, o', heq, -⟩ := hinv.resetChannel hphase hnext errno
    simp [heq]
  | forceCloseInLoop c =>
    simp only [TcpClient.run, forceCloseInLoop]
    split
    case isTrue hconn =>
      obtain ⟨t, o', heq, -⟩ := (hinv.popped hphase hnext (by simp)).rmConn hconn
        (by rw [show _ = s.phase from rfl, hphase]; rfl) (hinv.resets_forceClose hconn hnext) errno
      simp [heq]
    case isFalse => rfl
  | connDestroyed c => rfl

/-- A start fails unless it finds the connector vacant, and no other step fails if a
functor that starts would find it so. -/
theorem isSome_step_iff (hinv : Inv s)
    (hstarts : .startInLoop ∈ s.queued → s.connector.state = .disconnected ∧ s.connector.channel = none)
    (hstops : .stopInLoop ∉ s.queued) (htimers : 0 < s.timers → s.connector.connect_ = true) (he : s.Enabled a) :
    (s.step a).isSome = true ↔ s.Vacant a := by
  cases a with
  | connect errno =>
    have hstart : (s.step (.connect errno)).isSome = (startInLoop
        {s with connect_ := true, connector := {s.connector with connect_ := true}} errno).isSome := by
      simp only [TcpClient.step, TcpClient.connect]
      cases startInLoop {s with connect_ := true, connector := {s.connector with connect_ := true}} errno <;> rfl
    rw [hstart, isSome_startInLoop]
    exact and_congr_right fun _ => ⟨fun hbegun => hbegun rfl, fun hbegun _ => hbegun⟩
  | timer errno =>
    show (startInLoop {s with timers := s.timers - 1} errno).isSome = true ↔ _
    rw [isSome_startInLoop]
    exact and_congr_right fun _ => ⟨fun hbegun => hbegun (htimers he.2), fun hbegun _ => hbegun⟩
  | connectQueued | disconnect | stop | enableRetry | push | loop | poll | doPendingFuncs | finish =>
    simp [TcpClient.step, Vacant]
  | forceClose own =>
    refine iff_of_true ?_ trivial
    simp only [TcpClient.step]
    split <;> rfl
  | connectorEvent outcome => exact iff_of_true (isSome_connectorEvent hinv outcome he) trivial
  | connEvent closes errno => exact iff_of_true (isSome_connEvent hinv closes errno he) trivial
  | func errno => exact iff_of_true (isSome_func hinv hstarts hstops he) trivial

/-! ### A user who waits -/

/-- There is at most one timer, and while there is one, no attempt. -/
structure Tidy (s : TcpClient) : Prop where
  timers : s.timers ≤ 1
  state : 0 < s.timers → s.connector.state = .disconnected

theorem tidy_of_timers (h : s.timers = 0) : Tidy s := ⟨by omega, by omega⟩

theorem Started.tidy {s s' : TcpClient} (hs : Started s s' o) (h : s.timers = 0) : Tidy s' := by
  cases hs with
  | off | begun | failed => exact tidy_of_timers h
  | retried => exact ⟨Nat.le_of_eq (congrArg (· + 1) h), fun _ => rfl⟩

/-- A start that finds no timer keeps it so. -/
theorem Tidy.moved (h : Tidy s) (hs : Moved s a s' o) (hstart : .startInLoop ∈ s.queued → s.timers = 0)
    (hconnect : ∀ errno, a = .connect errno → s.timers = 0) : Tidy s' := by
  have hnone : s.connector.state ≠ .disconnected → s.timers = 0 := fun hne => by
    by_contra hpos
    exact hne (h.state (Nat.pos_of_ne_zero hpos))
  cases hs with
  | quiet hsame | connectQueued hsame | stop hsame | resetChannel _ _ _ hsame =>
    refine ⟨by rw [hsame.timers]; exact h.timers, fun hpos => ?_⟩
    rw [hsame.connector]
    exact h.state (by rwa [hsame.timers] at hpos)
  | connect t hsame _ hstarted => exact hstarted.tidy (hsame.timers.trans (hconnect _ rfl))
  | timer _ hstarted => exact hstarted.tidy (Nat.sub_eq_zero_of_le h.timers)
  | startInLoop hnext _ hstarted => exact hstarted.tidy (hstart (mem_queued_of_next hnext))
  | stopInLoop _ hne hsame => exact tidy_of_timers (hsame.timers.trans (hnone hne))
  | handled t ch hsame hstate _ hhandled =>
    have hzero : t.timers = 0 := hsame.timers.trans (hnone (by rw [hstate]; decide))
    cases hhandled with
    | waiting => exact tidy_of_timers hzero
    | closed | connected => exact tidy_of_timers hzero
    | retried => exact ⟨Nat.le_of_eq (congrArg (· + 1) hzero), fun _ => rfl⟩
  | restarted t hsame hstate _ hstarted =>
    exact hstarted.tidy (hsame.timers.trans (hnone (by rw [hstate]; decide)))

/-- A user who waits finds the connector vacant, and so does a timer that does. -/
theorem Tidy.vacant (h : Tidy s) (he : s.Enabled a) (hpatient : s.Patient a) : s.Vacant a := by
  cases a with
  | connect => exact ⟨hpatient.1, fun _ => hpatient.2.1⟩
  | timer => exact ⟨h.state he.2, fun _ => hpatient⟩
  | _ => trivial

/-! ### Runs -/

/-- What holds in every run of a user in the loop thread. -/
structure InLoopInv (obs : List Event) (s : TcpClient) : Prop where
  inv : Inv s
  unstopped : Unstopped s
  recorded : Recorded obs s
  owned : Owned obs s
  tells : Tells obs s.connector

theorem inLoop_run {as : List Action} (h : (machine.restrict fun _ a => InLoop a).Run create as obs s) :
    InLoopInv obs s := by
  refine h.invariant InLoopInv ⟨inv_create, unstopped_create, recorded_create, owned_create, tells_create⟩ ?_
  rintro obs s a s' o hi ⟨he, ha⟩ hs
  obtain ⟨hstepped, hunstopped⟩ := hi.unstopped.step hi.inv he ha hs
  refine ⟨hstepped.inv, hunstopped, hi.recorded.moved hstepped.moved fun _ _ _ hnext =>
    absurd (mem_queued_of_next hnext) hi.unstopped.stops, hi.owned.moved hstepped.moved,
    hi.tells.moved hstepped.moved ?_ ?_⟩
  · rintro rfl
    exact ha
  · rintro own rfl
    exact ha

/-- What has been seen of the connector says whether it is vacant. -/
theorem InLoopInv.clear_iff (h : InLoopInv obs s) (a : Action) : Clear obs a ↔ s.Vacant a := by
  have hstart (errno : ConnectErrno) : (∀ fd, ¬ InFlight obs fd) ∧ ¬ Made obs ∧ (errno.begun = true → ¬ ResetDue obs) ↔
      s.connector.state = .disconnected ∧ (errno.begun = true → s.connector.channel = none) := by
    rw [← and_assoc, h.tells.disconnected_iff h.inv h.recorded h.owned]
    refine and_congr_right fun hstate => imp_congr_right fun _ => ?_
    rw [h.tells.resting (by rw [hstate]; decide), not_not]
  cases a with
  | connect errno | timer errno => exact hstart errno
  | _ => exact Iff.rfl

theorem patient_run {as : List Action} (h : (machine.restrict fun s a => InLoop a ∧ s.Patient a).Run create as obs s) :
    Tidy s := by
  refine (h.invariant (fun _ s => Inv s ∧ Unstopped s ∧ Tidy s) ⟨inv_create, unstopped_create, by decide, by decide⟩ ?_).2.2
  rintro obs s a s' o ⟨hinv, hunstopped, htidy⟩ ⟨he, ha, hpatient⟩ hs
  obtain ⟨hstepped, hunstopped'⟩ := hunstopped.step hinv he ha hs
  refine ⟨hstepped.inv, hunstopped', htidy.moved hstepped.moved (fun hmem => absurd hmem hunstopped.starts) ?_⟩
  rintro errno rfl
  exact hpatient.2.2

/-- A `connect` that does not fail begins an attempt. -/
theorem connect_begins (hs : s.step (.connect errno) = some (s', o)) : .connector (.connect s.sockets) ∈ o := by
  obtain ⟨-, o', rfl, hstarted⟩ := connect_cases hs
  cases hstarted with
  | off hoff => cases hoff
  | begun | retried | failed => simp

/-- **Attempts do not collide if each comes when the last one is over.** In every run of
a user who calls in the loop thread, a step fails exactly if it is a `connect` or a timer
that comes while an attempt is in flight, after a connection was made and before the next
start, or while the channel whose place it needs is still to be reset: the connector is
not vacant then. There is at most one attempt at a time, and `connect` begins one. A user
who waits until nothing is left of the last attempt finds the connector vacant, and so
does a timer that fires after the reset of the channel. -/
theorem reconnect_sound_iff {as : List Action} (h : (machine.restrict fun _ a => InLoop a).Run create as obs s) :
    (∀ a, s.Enabled a → InLoop a → ((s.step a).isSome = true ↔ Clear obs a)) ∧
      (∀ a, Clear obs a ↔ s.Vacant a) ∧
      (∀ fd fd', InFlight obs fd → InFlight obs fd' → fd = fd') ∧
      (∀ errno s' o, s.step (.connect errno) = some (s', o) → .connector (.connect s.sockets) ∈ o) ∧
      ((machine.restrict fun s a => InLoop a ∧ s.Patient a).Run create as obs s →
        ∀ a, s.Enabled a → s.Patient a → s.Vacant a) := by
  have hi := inLoop_run h
  refine ⟨fun a he _ => ?_, hi.clear_iff, ?_, fun _ _ _ => connect_begins,
    fun hrun a he hpatient => (patient_run hrun).vacant he hpatient⟩
  · rw [hi.clear_iff]
    exact isSome_step_iff hi.inv (fun hmem => absurd hmem hi.unstopped.starts) hi.unstopped.stops
      hi.unstopped.timers he
  · rintro fd fd' ⟨hfd, hopen⟩ ⟨hfd', hopen'⟩
    obtain ⟨-, ch, hch, rfl⟩ := (hi.recorded.sockets fd hfd).resolve_left hopen
    obtain ⟨-, ch', hch', rfl⟩ := (hi.recorded.sockets fd' hfd').resolve_left hopen'
    rw [Option.some.inj (hch.symm.trans hch')]

/-- A connection is made and closes, and the next attempt is the only one. -/
theorem reconnect_sound_iff_closed :
    ∃ obs s, (machine.restrict fun _ a => InLoop a).Run create
        [.enableRetry, .connect .EINPROGRESS, .loop, .poll (some POLLOUT) false, .connectorEvent ⟨0, false⟩,
          .doPendingFuncs, .func .none, .finish, .poll none true, .connEvent true .EINPROGRESS] obs s ∧
      InFlight obs 1 ∧ ∀ fd, InFlight obs fd → fd = 1 := by
  obtain ⟨obs, s, hrun, hflight⟩ : ∃ obs s, (machine.restrict fun _ a => InLoop a).Run create
        [.enableRetry, .connect .EINPROGRESS, .loop, .poll (some POLLOUT) false, .connectorEvent ⟨0, false⟩,
          .doPendingFuncs, .func .none, .finish, .poll none true, .connEvent true .EINPROGRESS] obs s ∧
      InFlight obs 1 := Machine.Run.exists_of_trace (by decide +kernel)
  exact ⟨obs, s, hrun, hflight, fun fd hfd => (reconnect_sound_iff hrun).2.2.1 fd 1 hfd hflight⟩

/-- `connect` fails while an attempt is in progress, and after a connection has closed. A
retry timer fails if `connect` was called before it fired. -/
theorem reconnect_unsound :
    (∃ obs s, machine.Run create [.connect .EINPROGRESS] obs s ∧
      s.Enabled (.connect .EINPROGRESS) ∧ s.step (.connect .EINPROGRESS) = none) ∧
    (∃ obs s, machine.Run create [.connect .EINPROGRESS, .loop, .poll (some POLLOUT) false, .connectorEvent ⟨0, false⟩,
        .doPendingFuncs, .func .none, .finish, .poll none true, .connEvent true .none] obs s ∧
      s.conn = none ∧ s.Enabled (.connect .EINPROGRESS) ∧ s.step (.connect .EINPROGRESS) = none) ∧
    ∃ obs s, machine.Run create [.connect .ECONNREFUSED, .connect .EINPROGRESS, .loop, .poll none false] obs s ∧
      s.Enabled (.timer .EINPROGRESS) ∧ s.step (.timer .EINPROGRESS) = none := by
  refine ⟨?_, ?_, ?_⟩
  all_goals exact Machine.Run.exists_of_trace (by decide +kernel)

end Chtho.Net.TcpClient
