import Chtho.Net.TcpClient.Reconnect

/-! Who owns the sockets of a connector.

Each `connect` creates one, and an attempt can end in many ways; one dispatch may run the
callbacks for errors and for writing both. The connector is started once and never
stopped here, it starts again by itself when its connection has closed, and a
retry timer does not fire in the iteration of the loop in which it was set (`Solo`), so
that the `resetChannel` queued along with it has run. Then a socket is given away once:
closed, or handed over as a connection. -/
namespace Chtho.Net.TcpClient
open Lib Connector

/-- A client whose connector is started once. -/
structure Solo where
  client : TcpClient
  started : Bool
  /-- A timer was set in this iteration of the loop, whose functors have not all run. -/
  late : Bool
deriving DecidableEq, Repr

namespace Solo

def create : Solo := ⟨.create, false, false⟩

/-- The user starts the connector. -/
def starts : Action → Bool
  | .connect _ | .connectQueued => true
  | _ => false

def Allowed (p : Solo) : Action → Prop
  | .connect _ | .connectQueued => p.started = false
  | .stop _ => False
  | .timer _ => p.late = false
  | _ => True

def setsTimer : Event → Bool
  | .connector (.runAfter _) => true
  | _ => false

/-- An iteration of the loop ends where it polls again. -/
def step (p : Solo) (a : Action) : Option (Solo × List Event) := do
  let (client, o) ← p.client.step a
  some (⟨client, p.started || starts a, client.phase != .polling && (p.late || o.any setsTimer)⟩, o)

def machine : Machine Solo Action Event := ⟨fun p a => p.client.Enabled a ∧ p.Allowed a, step⟩

instance (p : Solo) (a : Action) : Decidable (p.Allowed a) :=
  match a with
  | .connect _ | .connectQueued | .timer _ => inferInstanceAs (Decidable (_ = _))
  | .stop _ => inferInstanceAs (Decidable False)
  | .disconnect | .enableRetry | .forceClose _ | .push _ | .loop | .poll _ _ | .connectorEvent _ | .connEvent _ _
  | .doPendingFuncs | .func _ | .finish => inferInstanceAs (Decidable True)

instance (p : Solo) (a : Action) : Decidable (machine.enabled p a) := inferInstanceAs (Decidable (_ ∧ _))

end Solo

variable {s s' : TcpClient} {obs o : List Event} {a : Action}

/-! ### The one start -/

/-- Nothing was started yet. -/
structure Pristine (s : TcpClient) : Prop where
  state : s.connector.state = .disconnected
  channel : s.connector.channel = none
  timers : s.timers = 0

theorem Pristine.same {b : Bool} (h : Pristine s)
    (hs : Same {s with connector := {s.connector with connect_ := b}} s') : Pristine s' :=
  ⟨by rw [hs.connector]; exact h.state, by rw [hs.connector]; exact h.channel, hs.timers.trans h.timers⟩

/-- How many starts are queued. -/
def starting (s : TcpClient) : Nat := s.queued.count .startInLoop

theorem starting_eq_zero : s.starting = 0 ↔ .startInLoop ∉ s.queued := List.count_eq_zero

theorem starting_queueInLoop (s : TcpClient) (own : Bool) (f : Functor) :
    (s.queueInLoop own f).starting = s.starting + if f = .startInLoop then 1 else 0 := by
  cases own with
  | false => simp [starting, queueInLoop, queued, List.count_cons, Nat.add_assoc]
  | true =>
    simp [starting, queueInLoop, queued, List.count_cons]
    omega

theorem starting_connectQueued (s : TcpClient) : s.connectQueued.1.starting = s.starting + 1 :=
  starting_queueInLoop {s with connect_ := true, connector := {s.connector with connect_ := true}} false .startInLoop

theorem starting_popped {f : Functor} {queue : Mailbox Functor} (hnext : s.queue.next = some (f, queue)) :
    s.starting = starting {s with queue := queue} + if f = .startInLoop then 1 else 0 := by
  simp [starting, queued, Mailbox.waiting_next hnext, List.count_cons]

/-- Until the start that is queued is run, the client only passes it on. -/
theorem Pristine.step (h : Pristine s) (hinv : Inv s) (hstops : .stopInLoop ∉ s.queued) (he : s.Enabled a)
    (ha : Solo.starts a = false) (hstop : ∀ own, a ≠ .stop own) (hs : s.step a = some (s', o)) :
    Pristine s' ∧ s'.starting = s.starting ∨ s'.starting + 1 = s.starting := by
  have hconnecting : s.connector.state ≠ .connecting := by
    rw [h.state]
    decide
  have hconnected : s.connector.state ≠ .connected := by
    rw [h.state]
    decide
  have hresets := (hinv.channel_eq_none hconnecting).mp h.channel
  cases a with
  | connect | connectQueued => cases ha
  | stop own => exact absurd rfl (hstop own)
  | disconnect | enableRetry | loop | poll | finish =>
    obtain ⟨rfl, rfl⟩ := Prod.mk.inj (Option.some.inj hs)
    exact .inl ⟨⟨h.state, h.channel, h.timers⟩, rfl⟩
  | forceClose own =>
    have hsome := he.1
    rw [hinv.conn_eq_none hconnected] at hsome
    cases hsome
  | push f =>
    obtain ⟨rfl, rfl⟩ := Prod.mk.inj (Option.some.inj hs)
    refine .inl ⟨⟨h.state, h.channel, h.timers⟩, ?_⟩
    have hcount := (List.perm_cons_erase he).count_eq .startInLoop
    simp only [List.count_cons, beq_iff_eq] at hcount
    rw [starting_queueInLoop]
    simp only [starting, queued, List.count_append]
    omega
  | connectorEvent outcome => exact absurd (hinv.active he) hconnecting
  | connEvent closes errno =>
    have hsome : s.phase.connActive.isSome = true := he
    rw [hinv.connActive_eq_none hconnected] at hsome
    cases hsome
  | timer errno => exact absurd he.2 (by rw [h.timers]; decide)
  | doPendingFuncs =>
    obtain ⟨rfl, rfl⟩ := Prod.mk.inj (Option.some.inj hs)
    have hphase : s.phase = .handling none none := he
    refine .inl ⟨⟨h.state, h.channel, h.timers⟩, ?_⟩
    show (s.queue.swap.waiting ++ s.inflight).count _ = _
    rw [Mailbox.waiting_swap (hinv.batch (by rw [hphase]; decide))]
    rfl
  | func errno =>
    obtain ⟨f, queue, hnext, hs⟩ := func_cases hs
    have hpopped := starting_popped hnext
    cases f with
    | startInLoop =>
      obtain ⟨-, hstarted⟩ := startInLoop_cases hs
      right
      rw [hpopped, starting, hstarted.queued_eq]
      rfl
    | stopInLoop => exact absurd (mem_queued_of_next hnext) hstops
    | resetChannel =>
      refine absurd ?_ (resets_eq_zero.mp hresets)
      rw [Mailbox.waiting_next hnext]
      exact List.mem_cons_self
    | forceCloseInLoop c =>
      simp only [TcpClient.run, forceCloseInLoop, hinv.conn_eq_none hconnected] at hs
      obtain ⟨rfl, rfl⟩ := Prod.mk.inj (Option.some.inj hs)
      exact .inl ⟨⟨h.state, h.channel, h.timers⟩, hpopped.symm⟩
    | connDestroyed c =>
      obtain ⟨rfl, rfl⟩ := Prod.mk.inj (Option.some.inj hs)
      exact .inl ⟨⟨h.state, h.channel, h.timers⟩, hpopped.symm⟩

/-! ### Timers -/

theorem Started.late (hs : Started s s' o) (h : 0 < s.timers → s.connector.channel = none)
    (hnone : o.any Solo.setsTimer = false) (htidy : Tidy s') : 0 < s'.timers → s'.connector.channel = none := by
  cases hs with
  | off | failed => exact h
  | begun => exact fun hpos => absurd (htidy.state hpos) (by simp)
  | retried => cases hnone

/-- A step that sets no timer leaves the channel as it is while there is one. -/
theorem Moved.late (hs : Moved s a s' o) (h : 0 < s.timers → s.connector.channel = none)
    (hnone : o.any Solo.setsTimer = false) (htidy : Tidy s) (htidy' : Tidy s') :
    0 < s'.timers → s'.connector.channel = none := by
  have hsame : ∀ {t : TcpClient}, t.timers = s.timers → t.connector.channel = s.connector.channel →
      0 < t.timers → t.connector.channel = none := by
    intro t htimers hchannel hpos
    rw [hchannel]
    exact h (htimers ▸ hpos)
  cases hs with
  | quiet hs | connectQueued hs | stop hs | stopInLoop _ _ hs => exact hsame hs.timers (by rw [hs.connector])
  | resetChannel _ _ _ hs =>
    intro _
    rw [hs.connector]
  | connect t hs _ hstarted => exact hstarted.late (hsame hs.timers (by rw [hs.connector])) hnone htidy'
  | timer _ hstarted =>
    exact hstarted.late (fun hpos => h (Nat.lt_of_lt_of_le hpos (Nat.sub_le _ _))) hnone htidy'
  | startInLoop _ _ hstarted => exact hstarted.late h hnone htidy'
  | restarted t hs _ hchannel hstarted =>
    refine hstarted.late (fun _ => ?_) hnone htidy'
    show t.connector.channel = none
    rw [hs.connector]
    exact hchannel
  | handled t ch hs hstate _ hhandled =>
    have hzero : t.timers = 0 := by
      by_contra hne
      have hdisconnected := htidy.state (Nat.pos_of_ne_zero (hs.timers ▸ hne))
      exact absurd (hstate.symm.trans hdisconnected) (by decide)
    intro hpos
    cases hhandled with
    | waiting | closed | connected => exact absurd (hzero ▸ hpos : 0 < 0) (by decide)
    | retried => cases hnone

/-- Where the loop polls, no reset is waiting. -/
theorem Inv.resets_polling (h : Inv s) (hphase : s.phase = .polling) : s.resets = 0 := by
  refine resets_eq_zero.mpr ?_
  rw [Mailbox.waiting, h.batch (by rw [hphase]; decide)]
  exact h.pending (by rw [hphase]; rfl)

/-! ### Runs -/

variable {p p' : Solo}

structure Single (obs : List Event) (p : Solo) : Prop where
  inv : Inv p.client
  recorded : Recorded obs p.client
  owned : Owned obs p.client
  stops : .stopInLoop ∉ p.client.queued
  starting : p.client.starting ≤ 1
  unstarted : p.started = false → p.client.starting = 0
  pristine : p.started = false ∨ 0 < p.client.starting → Pristine p.client
  tidy : Tidy p.client
  timers : 0 < p.client.timers → p.client.connector.connect_ = true
  late : p.late = false → 0 < p.client.timers → p.client.connector.channel = none

theorem single_create : Single [] Solo.create where
  inv := inv_create
  recorded := recorded_create
  owned := owned_create
  stops := by decide
  starting := by decide
  unstarted := fun _ => rfl
  pristine := fun _ => ⟨rfl, rfl, rfl⟩
  tidy := tidy_of_timers rfl
  timers := fun hpos => absurd hpos (by decide)
  late := fun _ _ => rfl

/-- A start is queued once and finds what it expects. -/
theorem Single.startup (h : Single obs p) (he : p.client.Enabled a) (ha : p.Allowed a)
    (hs : p.client.step a = some (s', o))
    (hstarts : .startInLoop ∈ s'.queued → .startInLoop ∈ p.client.queued ∨ a = .connectQueued) :
    s'.starting ≤ 1 ∧ ((p.started || Solo.starts a) = false → s'.starting = 0) ∧
      ((p.started || Solo.starts a) = false ∨ 0 < s'.starting → Pristine s') := by
  have hzero : p.client.starting = 0 → a ≠ .connectQueued → s'.starting = 0 := by
    intro hnone hne
    rw [starting_eq_zero] at hnone ⊢
    exact fun hmem => (hstarts hmem).elim hnone hne
  by_cases hfirst : p.started = false ∨ 0 < p.client.starting
  · have hpristine := h.pristine hfirst
    cases hstart : Solo.starts a with
    | true =>
      cases a with
      | connectQueued =>
        obtain ⟨rfl, rfl⟩ := Prod.mk.inj (Option.some.inj hs)
        have hone := starting_connectQueued p.client
        rw [h.unstarted ha] at hone
        exact ⟨Nat.le_of_eq hone, fun hnot => absurd hnot (by simp), fun _ =>
          ⟨hpristine.state, hpristine.channel, hpristine.timers⟩⟩
      | connect errno =>
        have hnone := hzero (h.unstarted ha) (by simp)
        exact ⟨by omega, fun _ => hnone, by simp [hnone]⟩
      | _ => cases hstart
    | false =>
      have hstop : ∀ own, a ≠ .stop own := by
        rintro own rfl
        exact ha
      have hone := h.starting
      rcases hpristine.step h.inv h.stops he hstart hstop hs with ⟨hpristine', heq⟩ | heq
      · refine ⟨by omega, fun hnot => ?_, fun _ => hpristine'⟩
        rw [heq]
        exact h.unstarted (by simpa using hnot)
      · have hnone : s'.starting = 0 := by omega
        refine ⟨by omega, fun _ => hnone, ?_⟩
        rintro (hnot | hpos)
        · have := h.unstarted (by simpa using hnot)
          omega
        · omega
  · obtain ⟨hstarted, hnone⟩ := not_or.mp hfirst
    have hnone' := hzero (by omega) (by rintro rfl; exact hstarted ha)
    have hstarted : p.started = true := by simpa using hstarted
    exact ⟨by omega, fun _ => hnone', by simp [hnone', hstarted]⟩

theorem Single.step (h : Single obs p) (he : p.client.Enabled a) (ha : p.Allowed a)
    (hs : p.step a = some (p', o)) : Single (obs ++ o) p' := by
  simp only [Solo.step, Option.bind_eq_bind, Option.bind_eq_some_iff, Prod.exists] at hs
  obtain ⟨client, seen, hstep, heq⟩ := hs
  obtain ⟨rfl, rfl⟩ := Prod.mk.inj (Option.some.inj heq)
  have hstepped := h.inv.step he (stopsLate_of_notMem h.stops a) hstep
  have hstop : ∀ own, a ≠ .stop own := by
    rintro own rfl
    exact ha
  obtain ⟨hstarting, hunstarted, hpristine⟩ := h.startup he ha hstep hstepped.starts
  have htidy : Tidy client := by
    refine h.tidy.moved hstepped.moved (fun hmem => (h.pristine (.inr (List.count_pos_iff.mpr hmem))).timers) ?_
    rintro errno rfl
    exact (h.pristine (.inl ha)).timers
  refine ⟨hstepped.inv, h.recorded.moved hstepped.moved fun _ _ _ hnext => absurd (mem_queued_of_next hnext) h.stops,
    h.owned.moved hstepped.moved, fun hmem => ?_, hstarting, hunstarted, hpristine, htidy,
    hstepped.moved.timers_on hstop h.timers, fun hlate hpos => ?_⟩
  · rcases hstepped.stops hmem with hmem | ⟨own, rfl⟩
    · exact h.stops hmem
    · exact ha
  · by_cases hphase : client.phase = .polling
    · exact (hstepped.inv.channel_eq_none (by rw [htidy.state hpos]; decide)).mpr (hstepped.inv.resets_polling hphase)
    · have hlate : p.late = false ∧ seen.any Solo.setsTimer = false := by simpa [hphase] using hlate
      exact hstepped.moved.late (h.late hlate.1) hlate.2 h.tidy htidy hpos

theorem solo_run {as : List Action} (h : Solo.machine.Run Solo.create as obs p) : Single obs p := by
  refine h.invariant Single single_create ?_
  rintro obs p a p' o hi ⟨he, ha⟩ hs
  exact hi.step he ha hs

/-- A start finds the connector vacant: the user's finds it new, and a timer's with the last
attempt over and reset. -/
theorem Single.isSome_step (h : Single obs p) (he : p.client.Enabled a) (ha : p.Allowed a) :
    (p.step a).isSome = true := by
  have hvacant : p.client.Vacant a := by
    cases a with
    | connect errno =>
      have hpristine := h.pristine (.inl ha)
      exact ⟨hpristine.state, fun _ => hpristine.channel⟩
    | timer errno => exact ⟨h.tidy.state he.2, fun _ => h.late ha he.2⟩
    | _ => trivial
  have hstep : (p.client.step a).isSome = true := by
    refine (isSome_step_iff h.inv (fun hmem => ?_) h.stops h.timers he).mpr hvacant
    have hpristine := h.pristine (.inr (List.count_pos_iff.mpr hmem))
    exact ⟨hpristine.state, hpristine.channel⟩
  obtain ⟨⟨client, seen⟩, hsome⟩ := Option.isSome_iff_exists.mp hstep
  simp [Solo.step, hsome]

/-- **A connector gives each of its sockets away once.** In every run with one start and
no stop, a socket that was created is closed once or handed over once and not both, or it
is the one socket in flight, of the attempt; the state is connecting exactly while the channel is
in the poller; there is at most one timer; and no step fails. -/
theorem sockets_owned {as : List Action} (h : Solo.machine.Run Solo.create as obs p) :
    (∀ fd, released obs fd ≤ 1) ∧
      (∀ fd, .connector (.connect fd) ∈ obs → released obs fd = 1 ∨ InFlight obs fd) ∧
      (∀ fd fd', InFlight obs fd → InFlight obs fd' → fd = fd') ∧
      (p.client.connector.state = .connecting ↔
        ∃ ch, p.client.connector.channel = some ch ∧ ch.fd ∈ p.client.channels) ∧
      p.client.timers ≤ 1 ∧
      ∀ a, p.client.Enabled a → p.Allowed a → (p.step a).isSome = true := by
  have hsingle := solo_run h
  refine ⟨hsingle.owned.once, fun fd hfd => ?_, ?_, ?_, hsingle.tidy.timers, fun a he ha => hsingle.isSome_step he ha⟩
  · by_cases hdead : Dead obs fd
    · exact .inl (Nat.le_antisymm (hsingle.owned.once fd) (dead_iff_released.mp hdead))
    · exact .inr ⟨hfd, hdead⟩
  · rintro fd fd' ⟨hfd, hopen⟩ ⟨hfd', hopen'⟩
    obtain ⟨-, ch, hch, rfl⟩ := (hsingle.recorded.sockets fd hfd).resolve_left hopen
    obtain ⟨-, ch', hch', rfl⟩ := (hsingle.recorded.sockets fd' hfd').resolve_left hopen'
    rw [Option.some.inj (hch.symm.trans hch')]
  · constructor
    · intro hstate
      obtain ⟨ch, hch, hchannels, -⟩ := hsingle.inv.attempt hstate
      exact ⟨ch, hch, by simp [hchannels]⟩
    · rintro ⟨ch, -, hmem⟩
      by_contra hne
      rw [hsingle.inv.channels hne] at hmem
      cases hmem

/-- An attempt fails by an error and by the write that follows, the next one is refused, the
third succeeds, and its connection closes. -/
theorem sockets_owned_retried :
    ∃ obs p, Solo.machine.Run Solo.create
        [.enableRetry, .loop, .connectQueued, .push .startInLoop, .poll none false, .doPendingFuncs, .func .EINPROGRESS,
          .finish, .poll (some (POLLERR ||| POLLOUT)) false, .connectorEvent ⟨111, false⟩, .doPendingFuncs, .func .none,
          .finish, .poll none false, .timer .ECONNREFUSED, .doPendingFuncs, .finish, .poll none false, .timer .none,
          .doPendingFuncs, .finish, .poll (some POLLOUT) false, .connectorEvent ⟨0, false⟩, .doPendingFuncs, .func .none,
          .finish, .poll none true, .connEvent true .EINPROGRESS] obs p ∧
      released obs 0 = 1 ∧ released obs 2 = 1 ∧ InFlight obs 3 ∧ ∀ fd, InFlight obs fd → fd = 3 := by
  obtain ⟨obs, p, hrun, hzero, htwo, hflight⟩ : ∃ obs p, Solo.machine.Run Solo.create
        [.enableRetry, .loop, .connectQueued, .push .startInLoop, .poll none false, .doPendingFuncs, .func .EINPROGRESS,
          .finish, .poll (some (POLLERR ||| POLLOUT)) false, .connectorEvent ⟨111, false⟩, .doPendingFuncs, .func .none,
          .finish, .poll none false, .timer .ECONNREFUSED, .doPendingFuncs, .finish, .poll none false, .timer .none,
          .doPendingFuncs, .finish, .poll (some POLLOUT) false, .connectorEvent ⟨0, false⟩, .doPendingFuncs, .func .none,
          .finish, .poll none true, .connEvent true .EINPROGRESS] obs p ∧
      released obs 0 = 1 ∧ released obs 2 = 1 ∧ InFlight obs 3 :=
    Machine.Run.exists_of_trace (by decide +kernel)
  exact ⟨obs, p, hrun, hzero, htwo, hflight, fun fd hfd => (sockets_owned hrun).2.2.1 fd 3 hfd hflight⟩

end Chtho.Net.TcpClient
