import Chtho.Net.TcpClient.Record

/-! `Connector::stop`.

`stopInLoop` removes the connector's channel and closes its socket in state
disconnected, where there is no attempt: the channel is null, or out of the poller
with its socket closed already. In state connecting, where there is one, it does
nothing. That leaves state connected, in which nothing is to be done. -/
namespace Chtho.Net.TcpClient
open Lib Connector

/-- `stopInLoop` does not fail, touches no socket that is dead, and leaves no attempt if
the connector is to be stopped. -/
def StopSound (obs : List Event) (r : Option (TcpClient × List Event)) : Prop :=
  ∃ s' o, r = some (s', o) ∧
    (∀ fd, .connector (.close fd) ∈ o ∨ .connector (.updateChannel fd) ∈ o → ¬ Dead obs fd) ∧
    (standing (obs ++ o) = .stopped → Over (obs ++ o) s')

/-- `stopInLoop` finds an attempt that has succeeded, or one that was started after the
call of `stop`. -/
def StopsConnected (s : TcpClient) : Action → Prop
  | .func _ =>
    s.queue.next.map Prod.fst = some .stopInLoop →
      s.connector.state = .connected ∨ s.connector.state = .connecting ∧ s.connector.connect_ = true
  | _ => True

instance (s : TcpClient) (a : Action) : Decidable (s.StopsConnected a) :=
  match a with
  | .func _ => inferInstanceAs (Decidable (_ = _ → _ = _ ∨ _ = _ ∧ _ = _))
  | .connect _ | .connectQueued | .disconnect | .stop _ | .enableRetry | .forceClose _ | .push _ | .loop | .poll _ _
  | .connectorEvent _ | .connEvent _ _ | .timer _ | .doPendingFuncs | .finish => inferInstanceAs (Decidable True)

variable {s s' : TcpClient} {obs o : List Event} {a : Action}

/-! ### Runs -/

theorem stopsLate_of_stopsConnected (h : s.StopsConnected a) : s.StopsLate a := by
  cases a with
  | func errno =>
    intro queue hnext
    rcases h (by rw [hnext]; rfl) with hstate | ⟨hstate, _⟩
    all_goals
      rw [hstate]
      decide
  | _ => trivial

theorem recorded_step (hinv : Inv s) (h : Recorded obs s) (he : s.Enabled a) (hC : s.StopsConnected a)
    (hs : s.step a = some (s', o)) : Inv s' ∧ Recorded (obs ++ o) s' := by
  have hstepped := hinv.step he (stopsLate_of_stopsConnected hC) hs
  refine ⟨hstepped.inv, h.moved hstepped.moved fun errno queue ha hnext => ?_⟩
  subst ha
  exact hC (by rw [hnext]; rfl)

/-- A connector that is stopped is idle. -/
theorem Recorded.detached_of_stopped (hinv : Inv s) (h : Recorded obs s) (hst : standing obs = .stopped) :
    Over obs s := by
  have hne : s.connector.state ≠ .connecting := by rw [h.stopped hst]; decide
  exact ⟨hinv.channels hne, hne, h.sockets_dead hne⟩

variable {errno : ConnectErrno} {queue : Mailbox Functor}

/-- In state connected, and in state connecting, `stopInLoop` does nothing. -/
theorem step_stopInLoop (errno : ConnectErrno) (hnext : s.queue.next = some (.stopInLoop, queue))
    (hne : s.connector.state ≠ .disconnected) :
    s.step (.func errno) = some ({s with queue := queue}, [.stopInLoop]) := by
  have hquiet : s.connector.stopInLoop = some (s.connector, []) := by simp [Connector.stopInLoop, hne]
  simp [TcpClient.step, hnext, TcpClient.run, hquiet, call, performAll]

/-- In state disconnected it closes the socket of the channel, if there is one. -/
theorem step_stopInLoop_disconnected (hnext : s.queue.next = some (.stopInLoop, queue))
    (hstate : s.connector.state = .disconnected) (hs : s.step (.func errno) = some (s', o)) :
    ∃ ch, s.connector.channel = some ch ∧ .connector (.close ch.fd) ∈ o := by
  simp only [TcpClient.step, hnext, TcpClient.run, Option.bind_eq_bind, Option.bind_some, Connector.stopInLoop,
    if_pos hstate] at hs
  cases hchannel : s.connector.channel with
  | none => simp [removeAndResetChannel, hchannel, call] at hs
  | some ch =>
    refine ⟨ch, rfl, ?_⟩
    rw [removeAndResetChannel_eq (c := {s.connector with state := .disconnected}) hchannel] at hs
    simp only [call, Option.bind_eq_bind, Option.bind_some, Option.bind_eq_some_iff, Prod.exists] at hs
    obtain ⟨t, o', ⟨t', -, heq⟩, hs⟩ := hs
    obtain ⟨rfl, rfl⟩ := Prod.mk.inj (Option.some.inj heq)
    obtain ⟨rfl, rfl⟩ := Prod.mk.inj (Option.some.inj hs)
    simp only [retry, List.map_append, List.mem_cons, List.mem_append]
    split <;> simp

/-- Where a `stopInLoop` is sound. -/
theorem stopSound_iff (hinv : Inv s) (h : Recorded obs s) (he : s.Enabled (.func errno))
    (hnext : s.queue.next = some (.stopInLoop, queue)) :
    StopSound obs (s.step (.func errno)) ↔ s.StopsConnected (.func errno) := by
  constructor
  · rintro ⟨s', o, hs, hdead, hover⟩ -
    cases hstate : s.connector.state with
    | connected => exact .inl rfl
    | disconnected =>
      obtain ⟨ch, hchannel, hclose⟩ := step_stopInLoop_disconnected hnext hstate hs
      exact absurd (.inl (h.closed hstate ch hchannel)) (hdead ch.fd (.inl hclose))
    | connecting =>
      refine .inr ⟨rfl, ?_⟩
      by_contra hoff
      rw [step_stopInLoop errno hnext (by rw [hstate]; decide)] at hs
      obtain ⟨rfl, rfl⟩ := Prod.mk.inj (Option.some.inj hs)
      refine (hover ?_).state hstate
      rw [standing_append]
      cases hst : standing obs with
      | started => exact absurd (h.connect.mpr hst) hoff
      | quiet | stopped => rfl
  · intro hC
    have hne := stopsLate_of_stopsConnected hC queue hnext
    have hs := step_stopInLoop errno hnext hne
    obtain ⟨hinv', h'⟩ := recorded_step hinv h he hC hs
    exact ⟨_, _, hs, by simp, h'.detached_of_stopped hinv'⟩

/-- **Stopping a connector that is connected is sound.** In every run in which every
`stopInLoop` finds an attempt that has succeeded, or one started after the call of
`stop`, a connector that is stopped has no attempt left and hands over no connection; and
the next `stopInLoop` is sound exactly if it finds that, too. -/
theorem stop_sound_iff {as : List Action} (h : (machine.restrict StopsConnected).Run create as obs s) :
    (standing obs = .stopped → Over obs s) ∧ Silent .quiet obs ∧
      ∀ errno queue, s.Enabled (.func errno) → s.queue.next = some (.stopInLoop, queue) →
        (StopSound obs (s.step (.func errno)) ↔ s.StopsConnected (.func errno)) := by
  obtain ⟨hinv, hrecorded⟩ : Inv s ∧ Recorded obs s := by
    refine h.invariant (fun obs s => Inv s ∧ Recorded obs s) ⟨inv_create, recorded_create⟩ ?_
    rintro obs s a s' o ⟨hinv, hrecorded⟩ ⟨he, hC⟩ hs
    exact recorded_step hinv hrecorded he hC hs
  exact ⟨hrecorded.detached_of_stopped hinv, hrecorded.silent, fun errno queue he hnext => stopSound_iff hinv hrecorded he hnext⟩

/-- An attempt succeeds, and then the connector is stopped. -/
theorem stop_sound_iff_connected :
    ∃ obs s, (machine.restrict StopsConnected).Run create
        [.connect .EINPROGRESS, .loop, .poll (some POLLOUT) false, .connectorEvent ⟨0, false⟩, .stop true, .doPendingFuncs,
          .func .none, .func .none] obs s ∧
      standing obs = .stopped ∧ Over obs s := by
  obtain ⟨obs, s, hrun, hst⟩ : ∃ obs s, (machine.restrict StopsConnected).Run create
        [.connect .EINPROGRESS, .loop, .poll (some POLLOUT) false, .connectorEvent ⟨0, false⟩, .stop true, .doPendingFuncs,
          .func .none, .func .none] obs s ∧ standing obs = .stopped :=
    Machine.Run.exists_of_trace (by decide +kernel)
  exact ⟨obs, s, hrun, hst, (stop_sound_iff hrun).1 hst⟩

/-- A connector that was never started is stopped, and `stopInLoop` uses a null channel.
One is stopped while its attempt is in progress: the attempt goes on. -/
theorem stop_unsound :
    (∃ obs s, machine.Run create [.stop true, .loop, .poll none false, .doPendingFuncs] obs s ∧
      s.Enabled (.func .none) ∧ s.step (.func .none) = none) ∧
    ∃ obs s, machine.Run create [.connect .EINPROGRESS, .stop true, .loop, .poll none false, .doPendingFuncs, .func .none,
        .finish] obs s ∧
      standing obs = .stopped ∧ s.channels = [0] ∧ s.connector.state = .connecting := by
  constructor
  all_goals exact Machine.Run.exists_of_trace (by decide +kernel)

end Chtho.Net.TcpClient
