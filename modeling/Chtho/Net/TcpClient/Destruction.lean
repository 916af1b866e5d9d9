import Chtho.Net.TcpClient.Loose

/-! `~TcpClient`, in any state of a client.

What it leaves behind is a connection whose callback is for the client that is gone, and
a connector that goes as well, at once or with its last retry timer, while functors with
a pointer to it may still be queued: where there is no connection, the destructor has
queued one itself. -/
namespace Chtho.Net.TcpClient
open Lib Connector

variable {s s' t : TcpClient} {o : List Event} {errno : ConnectErrno} {f : Functor} {a : Action}

/-- What `~TcpClient` queues, and the connector that it leaves. -/
inductive Destroyed (s : TcpClient) : TcpClient → Prop where
  | shared (c : Nat) : s.conn = some c → Destroyed s s
  | unique (c : Nat) : s.conn = some c → Destroyed s (s.queueInLoop true (.forceCloseInLoop c))
  | stopped : s.conn = none →
      Destroyed s (queueInLoop {s with connector := {s.connector with connect_ := false}} true .stopInLoop)

theorem destroyed_cases (s : TcpClient) (others : Bool) : Destroyed s (destroyed s others) := by
  unfold destroyed
  split
  case h_1 c hconn =>
    split
    · exact .shared c hconn
    · exact .unique c hconn
  case h_2 hconn => exact .stopped hconn

theorem Loose.destroyed (h : Loose s) (hs : Destroyed s t) : Loose t := by
  cases hs with
  | shared => exact h
  | unique => exact h.queueInLoop _ _
  | stopped => exact (h.flag false s.connect_).queueInLoop true .stopInLoop

theorem Destroyed.owed_eq (hs : Destroyed s t) (c : Nat) : t.owed c = s.owed c := by
  cases hs with
  | shared => rfl
  | unique => rw [owed_queueInLoop, if_neg (by simp), Nat.add_zero]
  | stopped =>
    rw [owed_queueInLoop, if_neg (by simp), Nat.add_zero]
    rfl

theorem Destroyed.same (hs : Destroyed s t) :
    t.timers = s.timers ∧ t.nxtConnID = s.nxtConnID ∧ t.phase = s.phase ∧ t.connector.channel = s.connector.channel ∧
      t.connector.state = s.connector.state := by
  cases hs <;> exact ⟨rfl, rfl, rfl, rfl, rfl⟩

theorem Destroyed.spent (hs : Destroyed s t) (h : Loose s) : Spent t := by
  cases hs with
  | shared c hconn => exact .inr (h.conn c hconn)
  | unique c hconn => exact .inr (h.conn c hconn)
  | stopped => exact .inl rfl

/-- With a connection, nothing of the connector is added. -/
theorem Destroyed.unqueued (hs : Destroyed s t) (hconn : s.conn.isSome = true) (h : Unqueued s) : Unqueued t := by
  cases hs with
  | shared => exact h
  | unique c =>
    intro f hf
    rcases (queued_queueInLoop _ _ _ _).mp hf with hf | rfl
    · exact h f hf
    · rfl
  | stopped hnone =>
    rw [hnone] at hconn
    cases hconn

/-- Otherwise something of it is queued. -/
theorem Destroyed.queued (hs : Destroyed s t) (h : ¬ (s.conn.isSome = true ∧ Unqueued s)) : ¬ Unqueued t := by
  intro hnone
  cases hs with
  | shared c hconn => exact h ⟨by rw [hconn]; rfl, hnone⟩
  | unique c hconn =>
    exact h ⟨by rw [hconn]; rfl, fun f hf => hnone f ((queued_queueInLoop _ _ _ _).mpr (.inl hf))⟩
  | stopped => exact absurd (hnone .stopInLoop ((queued_queueInLoop _ _ _ _).mpr (.inr rfl))) (by decide)

/-- The last timer fires. -/
def LastTimer (s : TcpClient) : Action → Prop
  | .timer _ => s.timers = 1
  | _ => False

instance (s : TcpClient) (a : Action) : Decidable (s.LastTimer a) :=
  match a with
  | .timer _ => inferInstanceAs (Decidable (_ = _))
  | .connect _ | .connectQueued | .disconnect | .stop _ | .enableRetry | .forceClose _ | .push _ | .loop | .poll _ _
  | .connectorEvent _ | .connEvent _ _ | .doPendingFuncs | .func _ | .finish => inferInstanceAs (Decidable False)

namespace Lifetimes
variable {p p' : Lifetimes} {obs seen : List LifeEvent} {la : LifeAction}

/-- The connection of a client that is gone does not close, and where the last `shared_ptr` to the
connector goes, nothing of it is queued: neither when there is no timer to hold it
after `~TcpClient`, which in turn finds a connection and does not call `stop`, nor when the
last timer has fired. -/
def Careful (p : Lifetimes) : LifeAction → Prop
  | .destroy _ => p.client.timers = 0 → p.client.conn.isSome = true ∧ Unqueued p.client
  | .step a => p.alive = false → ¬ p.client.Closes a ∧ (p.client.LastTimer a → Unqueued p.client)

instance (p : Lifetimes) (la : LifeAction) : Decidable (p.Careful la) :=
  match la with
  | .destroy _ => inferInstanceAs (Decidable (_ → _ ∧ _))
  | .step _ => inferInstanceAs (Decidable (_ → ¬ _ ∧ (_ → _)))

structure Sane (obs : List LifeEvent) (p : Lifetimes) : Prop where
  defined : p.undefined = false
  undead : ∀ m, .dead m ∉ obs
  loose : Loose p.client
  owed : ∀ c, obs.count (.connDestroyed c) + p.client.owed c = if 0 < c ∧ c < p.client.nxtConnID then 1 else 0
  gone : p.connectorAlive = false → p.alive = false ∧ Idle p.client
  spent : p.alive = false → Spent p.client
  held : p.alive = false → p.connectorAlive = true → 0 < p.client.timers

theorem sane_create : Sane [] create where
  defined := rfl
  undead := by simp
  loose := loose_create
  owed := by
    intro c
    have hnone : ¬ (0 < c ∧ c < create.client.nxtConnID) := by
      rintro ⟨hpos, hlt⟩
      exact absurd hpos (Nat.not_lt.mpr (Nat.le_of_lt_succ hlt))
    rw [if_neg hnone]
    rfl
  gone := fun h => by cases h
  spent := fun h => by cases h
  held := fun h => by cases h

/-- The user calls nothing on a client that is gone. -/
theorem not_usesClient (huser : usesClient a = true → p.alive = true) (halive : p.alive = false) : usesClient a = false := by
  by_contra hne
  rw [huser (by simpa using hne)] at halive
  cases halive

/-- A connector that has left something is alive. -/
theorem Sane.connectorAlive_of (h : Sane obs p) (hnot : p.alive = true ∨ ¬ Idle p.client) : p.connectorAlive = true := by
  by_contra hne
  obtain ⟨halive, hidle⟩ := h.gone (by simpa using hne)
  rcases hnot with hnot | hnot
  · cases halive.symm.trans hnot
  · exact hnot hidle

theorem Sane.owed_went (h : Sane obs p) (hw : Went p.client a s' o) (more : List LifeEvent)
    (hmore : ∀ c, more.count (.connDestroyed c) = destroys p.client a c) (c : Nat) :
    (obs ++ (o.map LifeEvent.client ++ more)).count (LifeEvent.connDestroyed c) + s'.owed c =
      if 0 < c ∧ c < s'.nxtConnID then 1 else 0 := by
  have hclient : (o.map LifeEvent.client).count (.connDestroyed c) = 0 := List.count_eq_zero.mpr (by simp)
  rw [List.count_append, List.count_append, hclient, hmore]
  have hold := h.owed c
  have hnew := hw.owed c
  have hids := hw.ids
  have hpos := h.loose.ids
  split at hold <;> split at hnew <;> split <;> omega

/-- The client goes on, and the objects of `p` are as they were. -/
theorem Sane.went (h : Sane obs p) (hw : Went p.client a s' o) (hcareful : p.alive = false → ¬ p.client.Closes a)
    (huser : usesClient a = true → p.alive = true) (htimer : ∀ errno, a ≠ .timer errno) (more : List LifeEvent)
    (hmore : ∀ c, more.count (.connDestroyed c) = destroys p.client a c) (hundead : ∀ m, .dead m ∉ more) :
    Sane (obs ++ (o.map .client ++ more)) {p with client := s'} := by
  have hquiet := not_usesClient huser
  refine ⟨h.defined, fun m hm => ?_, hw.loose, h.owed_went hw more hmore, fun hgone => ?_, fun halive => ?_,
    fun halive hheld => ?_⟩
  · rcases List.mem_append.mp hm with hm | hm
    · exact h.undead m hm
    · rcases List.mem_append.mp hm with hm | hm
      · simp at hm
      · exact hundead m hm
  · obtain ⟨halive, hidle⟩ := h.gone hgone
    exact ⟨halive, hw.idle (hquiet halive) (hcareful halive) hidle⟩
  · exact (hw.spent (hquiet halive) (hcareful halive) (h.spent halive)).1
  · exact Nat.lt_of_lt_of_le (h.held halive hheld) (hw.timers htimer)

/-- No connection is handed to a client that is gone. -/
theorem Sane.go_cases (h : Sane obs p) (he : p.client.Enabled a) (hcareful : p.alive = false → ¬ p.client.Closes a)
    (huser : usesClient a = true → p.alive = true) (hs : p.go a = some (p', seen)) :
    ∃ s' o, p.client.step a = some (s', o) ∧ Went p.client a s' o ∧ p' = {p with client := s'} ∧ seen = o.map .client := by
  simp only [Lifetimes.go, Option.bind_eq_bind, Option.bind_eq_some_iff, Prod.exists] at hs
  obtain ⟨s', o, hstep, hs⟩ := hs
  have hwent := h.loose.step he hstep
  have hnot : ¬ (p.alive = false ∧ o.any handsOver = true) := by
    rintro ⟨halive, hhands⟩
    have hquiet := not_usesClient huser halive
    rw [(hwent.spent hquiet (hcareful halive) (h.spent halive)).2] at hhands
    cases hhands
  rw [if_neg hnot] at hs
  obtain ⟨rfl, rfl⟩ := Prod.mk.inj (Option.some.inj hs)
  exact ⟨s', o, hstep, hwent, rfl, rfl⟩

/-- The connector is still held, by the client or by a timer. -/
theorem drop_held (h : p.alive = true ∨ 0 < p.client.timers) (hs : p.drop = some (p', seen)) : p' = p ∧ seen = [] := by
  rw [drop, if_pos h] at hs
  obtain ⟨rfl, rfl⟩ := Prod.mk.inj (Option.some.inj hs)
  exact ⟨rfl, rfl⟩

/-- It goes with the last pointer to it. -/
theorem drop_gone (halive : p.alive = false) (hzero : p.client.timers = 0) (hs : p.drop = some (p', seen)) :
    p.client.connector.channel = none ∧ p' = {p with connectorAlive := false} ∧ seen = [.connectorDtor] := by
  rw [drop, if_neg (by simp [halive, hzero])] at hs
  by_cases hchannel : p.client.connector.channel = none
  case neg => simp [hchannel, assert] at hs
  simp only [hchannel, assert, if_true, Option.bind_eq_bind, Option.bind_some] at hs
  obtain ⟨rfl, rfl⟩ := Prod.mk.inj (Option.some.inj hs)
  exact ⟨hchannel, rfl, rfl⟩

/-- The client is gone, and the connector may go with it or with a timer. -/
theorem Sane.dropped {q : Lifetimes} (hdefined : q.undefined = false) (hundead : ∀ m, .dead m ∉ obs)
    (hloose : Loose q.client)
    (howed : ∀ c, obs.count (.connDestroyed c) + q.client.owed c = if 0 < c ∧ c < q.client.nxtConnID then 1 else 0)
    (halive : q.alive = false) (hheld : q.connectorAlive = true) (hspent : Spent q.client)
    (hlast : q.client.timers = 0 → Unqueued q.client) (hs : q.drop = some (p', seen)) : Sane (obs ++ seen) p' := by
  rcases Nat.eq_zero_or_pos q.client.timers with hzero | hpos
  case inr =>
    obtain ⟨rfl, rfl⟩ := drop_held (.inr hpos) hs
    rw [List.append_nil]
    exact ⟨hdefined, hundead, hloose, howed, fun hgone => absurd hgone (by simp [hheld]), fun _ => hspent, fun _ _ => hpos⟩
  case inl =>
    obtain ⟨hchannel, rfl, rfl⟩ := drop_gone halive hzero hs
    refine ⟨hdefined, fun m => by simpa using hundead m, hloose, fun c => ?_, fun _ => ⟨halive, hlast hzero, hzero, hchannel⟩,
      fun _ => hspent, fun _ hnot => (by cases hnot)⟩
    rw [← howed, List.count_append]
    simp

theorem Sane.destroy (h : Sane obs p) {others : Bool} (he : p.Enabled (.destroy others))
    (hcareful : p.Careful (.destroy others)) (hs : p.step (.destroy others) = some (p', seen)) :
    Sane (obs ++ seen) p' := by
  obtain ⟨⟨q, o⟩, hdrop, hs⟩ := Option.bind_eq_some_iff.mp hs
  obtain ⟨rfl, rfl⟩ := Prod.mk.inj (Option.some.inj hs)
  have hdestroyed := destroyed_cases p.client others
  obtain ⟨htimers, hids, -⟩ := hdestroyed.same
  have hheld := h.connectorAlive_of (.inl he.2.1)
  have hloose : Loose (destroyed p.client others) := h.loose.destroyed hdestroyed
  have hobs : ∀ m, LifeEvent.dead m ∉ obs ++ [.dtor] := fun m => by simpa using h.undead m
  have howed : ∀ c, (obs ++ [LifeEvent.dtor]).count (.connDestroyed c) + (destroyed p.client others).owed c =
      if 0 < c ∧ c < (destroyed p.client others).nxtConnID then 1 else 0 := by
    intro c
    have hcount : (obs ++ [LifeEvent.dtor]).count (.connDestroyed c) = obs.count (.connDestroyed c) := by simp
    rw [hcount, hdestroyed.owed_eq, hids]
    exact h.owed c
  have hlast : (destroyed p.client others).timers = 0 → Unqueued (destroyed p.client others) := by
    intro hzero
    obtain ⟨hconn, hnone⟩ := hcareful (htimers ▸ hzero)
    exact hdestroyed.unqueued hconn hnone
  rw [List.append_cons]
  exact Sane.dropped (q := {p with client := destroyed p.client others, alive := false}) h.defined hobs hloose howed rfl
    hheld (hdestroyed.spent h.loose) hlast hdrop

/-- A functor of the connector finds it alive, and one that closes a connection the client. -/
theorem Sane.deadCall_eq (h : Sane obs p) {queue : Mailbox Functor} (hnext : p.client.queue.next = some (f, queue))
    (hcareful : p.alive = false → ¬ p.client.Closes (.func errno)) : p.deadCall f = none := by
  have hconnector : f.ofConnector = true → p.connectorAlive = true := by
    intro hf
    refine h.connectorAlive_of (.inr fun hidle => ?_)
    rw [hidle.unqueued f (mem_queued_of_next hnext)] at hf
    cases hf
  cases f with
  | startInLoop | stopInLoop | resetChannel => exact if_pos (hconnector rfl)
  | forceCloseInLoop c => exact if_neg fun hdead => hcareful hdead.1 (closes_of_next hnext hdead.2)
  | connDestroyed c => rfl

theorem Sane.func (h : Sane obs p) (he : p.Enabled (.step (.func errno))) (hcareful : p.Careful (.step (.func errno)))
    (hs : p.func errno = some (p', seen)) : Sane (obs ++ seen) p' := by
  have hclose := fun halive => (hcareful halive).1
  simp only [Lifetimes.func, Option.bind_eq_bind, Option.bind_eq_some_iff, Prod.exists] at hs
  obtain ⟨f, queue, hnext, hs⟩ := hs
  rw [h.deadCall_eq hnext hclose] at hs
  simp only [Option.bind_eq_some_iff, Prod.exists] at hs
  obtain ⟨q, o, hgo, hs⟩ := hs
  obtain ⟨rfl, rfl⟩ := Prod.mk.inj (Option.some.inj hs)
  obtain ⟨s', o, -, hwent, rfl, rfl⟩ := h.go_cases he.2.1 hclose he.2.2 hgo
  refine h.went hwent hclose he.2.2 (by simp) (ran f) (fun c => by simp [destroys, hnext]) fun m => ?_
  cases f <;> simp [ran]

/-- A timer of a client that is gone starts nothing. -/
theorem Sane.timer_off (h : Sane obs p) (halive : p.alive = false)
    (hs : startInLoop {p.client with timers := p.client.timers - 1} errno = some (s', o)) :
    s' = {p.client with timers := p.client.timers - 1} := by
  obtain ⟨hstate, hstarted⟩ := startInLoop_cases hs
  have hoff : p.client.connector.connect_ = false := by
    refine (h.spent halive).resolve_right fun hconnected => ?_
    cases hconnected.symm.trans hstate
  cases hstarted with
  | off => rfl
  | begun hconnect | retried _ hconnect | failed hconnect => cases hoff.symm.trans hconnect

/-- A retry timer finds the connector stopped or connected, and may be the last to hold it. -/
theorem Sane.timer (h : Sane obs p) (he : p.Enabled (.step (.timer errno))) (hcareful : p.Careful (.step (.timer errno)))
    (hs : p.step (.step (.timer errno)) = some (p', seen)) : Sane (obs ++ seen) p' := by
  simp only [Lifetimes.step, Option.bind_eq_bind, Option.bind_eq_some_iff, Prod.exists] at hs
  obtain ⟨q, o, hgo, q', o', hdrop, hs⟩ := hs
  obtain ⟨rfl, rfl⟩ := Prod.mk.inj (Option.some.inj hs)
  obtain ⟨s', o, hstep, hwent, rfl, rfl⟩ := h.go_cases he.2.1 (fun halive => (hcareful halive).1) he.2.2 hgo
  have hobs : ∀ m, LifeEvent.dead m ∉ obs ++ o.map .client := fun m => by simpa using h.undead m
  have howed := h.owed_went hwent [] fun _ => rfl
  rw [List.append_nil] at howed
  rw [← List.append_assoc]
  cases halive : p.alive with
  | true =>
    obtain ⟨rfl, rfl⟩ := drop_held (p := {p with client := s'}) (.inl halive) hdrop
    rw [List.append_nil]
    refine ⟨h.defined, hobs, hwent.loose, howed, fun hgone => ?_, fun hnot => ?_, fun hnot => ?_⟩
    · exact absurd (h.gone hgone).1 (by simp [halive])
    all_goals
      have hnot : p.alive = false := hnot
      rw [halive] at hnot
      cases hnot
  | false =>
    have hheld : p.connectorAlive = true := by
      refine h.connectorAlive_of (.inr fun hidle => ?_)
      have hpos := he.2.1.2
      rw [hidle.timers] at hpos
      cases hpos
    obtain rfl := h.timer_off halive hstep
    have hpos := h.held halive hheld
    have hlast : p.client.timers - 1 = 0 → Unqueued p.client := by
      intro hzero
      have hone : p.client.timers = 1 := by omega
      exact (hcareful halive).2 hone
    exact Sane.dropped (q := {p with client := {p.client with timers := p.client.timers - 1}}) h.defined hobs hwent.loose
      howed halive hheld (h.spent halive) hlast hdrop

/-- A channel of the connector is one of an attempt. -/
theorem Sane.connectorAlive_eq (h : Sane obs p) (hactive : p.client.phase.connectorActive.isSome = true) :
    p.connectorAlive = true := by
  refine h.connectorAlive_of (.inr fun hidle => ?_)
  obtain ⟨ch, hchannel, -⟩ := h.loose.attempt (h.loose.active hactive)
  rw [hidle.channel] at hchannel
  cases hchannel

theorem Sane.of_go (h : Sane obs p) (he : p.Enabled (.step a)) (hcareful : p.Careful (.step a))
    (htimer : ∀ errno, a ≠ .timer errno) (hfunc : ∀ errno, a ≠ .func errno) (hs : p.go a = some (p', seen)) :
    Sane (obs ++ seen) p' := by
  have hclose := fun halive => (hcareful halive).1
  obtain ⟨s', o, -, hwent, rfl, rfl⟩ := h.go_cases he.2.1 hclose he.2.2 hs
  have hsane := h.went hwent hclose he.2.2 htimer [] (fun c => ?_) (by simp)
  · simpa using hsane
  · cases a with
    | func errno => exact absurd rfl (hfunc errno)
    | _ => rfl

theorem Sane.step (h : Sane obs p) (he : p.Enabled la) (hcareful : p.Careful la) (hs : p.step la = some (p', seen)) :
    Sane (obs ++ seen) p' := by
  cases la with
  | destroy others => exact h.destroy he hcareful hs
  | step a =>
    cases a with
    | timer errno => exact h.timer he hcareful hs
    | func errno => exact h.func he hcareful hs
    | connectorEvent outcome =>
      have hs : (if p.connectorAlive then p.go (.connectorEvent outcome) else p.dead .handleEvent) = some (p', seen) := hs
      rw [if_pos (h.connectorAlive_eq he.2.1)] at hs
      exact h.of_go he hcareful (by simp) (by simp) hs
    | connEvent closes errno =>
      have hs : (if closes = true ∧ p.alive = false then p.dead .rmConn else p.go (.connEvent closes errno)) =
        some (p', seen) := hs
      rw [if_neg fun hdead => (hcareful hdead.2).1 hdead.1] at hs
      exact h.of_go he hcareful (by simp) (by simp) hs
    | _ => exact h.of_go he hcareful (by simp) (by simp) hs

theorem sane_run {as : List LifeAction} (h : (machine.restrict Careful).Run create as obs p) : Sane obs p := by
  refine h.invariant Sane sane_create ?_
  intro obs p la p' seen hsane he hs
  exact hsane.step he.1 he.2 hs

/-! ### Without care -/

/-- In some order of the steps that follow, a method is run on an object that is gone. -/
def Doomed (p : Lifetimes) : Prop := ∃ as obs t m, machine.Run p as obs t ∧ .dead m ∈ obs

theorem doomed_of_dead {m : Method} (he : p.Enabled la) (hs : p.step la = p.dead m) : Doomed p :=
  ⟨_, _, _, m, .cons (M := machine) he hs .nil, List.mem_append_left _ List.mem_cons_self⟩

theorem Doomed.of_step (h : Doomed p') (he : p.Enabled la) (hs : p.step la = some (p', seen)) : Doomed p := by
  obtain ⟨as, obs, t, m, hrun, hm⟩ := h
  exact ⟨_, _, _, m, .cons (M := machine) he hs hrun, List.mem_append_right _ hm⟩

theorem exists_of_not_unqueued (h : ¬ Unqueued s) : ∃ f ∈ s.queued, f.ofConnector = true := by
  by_contra hnone
  exact h fun f hf => by
    by_contra hof
    exact hnone ⟨f, hf, by simpa using hof⟩

/-- The client and the connector are gone. -/
structure Orphan (p : Lifetimes) : Prop where
  defined : p.undefined = false
  gone : p.alive = false
  connectorGone : p.connectorAlive = false
  loose : Loose p.client
  channel : p.client.connector.channel = none

theorem Orphan.not_active (h : Orphan p) : p.client.phase.connectorActive = none := by
  by_contra hne
  obtain ⟨ch, hchannel, -⟩ := h.loose.attempt (h.loose.active (Option.isSome_iff_ne_none.mpr hne))
  rw [h.channel] at hchannel
  cases hchannel

/-- A step of the loop that hands over nothing. -/
theorem go_quiet (hs : p.client.step a = some (s', [])) : p.go a = some ({p with client := s'}, []) := by
  simp [Lifetimes.go, hs]

theorem Orphan.quiet (h : Orphan p) (he : p.client.Enabled a) (hs : p.client.step a = some (s', []))
    (hchannel : s'.connector.channel = none) : Orphan {p with client := s'} :=
  ⟨h.defined, h.gone, h.connectorGone, (h.loose.step he hs).loose, hchannel⟩

/-- A functor that needs neither of them is run. -/
theorem Orphan.func (h : Orphan p) (hphase : p.client.phase = .functors) {queue : Mailbox Functor}
    (hnext : p.client.queue.next = some (f, queue)) (hdead : p.deadCall f = none)
    (hdoomed : Orphan {p with client := {p.client with queue := queue}} →
      Doomed {p with client := {p.client with queue := queue}}) : Doomed p := by
  have hbatch := (Mailbox.next_eq_some hnext).1
  have henabled : p.client.Enabled (.func .none) := ⟨hphase, by rw [hbatch]; simp⟩
  have he : p.Enabled (.step (.func .none)) := ⟨h.defined, henabled, nofun⟩
  have hs : p.client.step (.func .none) = some ({p.client with queue := queue}, []) := by
    simp only [TcpClient.step, hnext, Option.bind_eq_bind, Option.bind_some]
    cases f with
    | startInLoop | stopInLoop | resetChannel => simp [deadCall, h.connectorGone] at hdead
    | forceCloseInLoop c =>
      refine if_neg fun hconn => ?_
      have hconn : p.client.conn = some c := hconn
      simp [deadCall, h.gone, hconn] at hdead
    | connDestroyed c => rfl
  have hstep : p.step (.step (.func .none)) = some ({p with client := {p.client with queue := queue}}, ran f) := by
    show p.func .none = _
    simp [Lifetimes.func, hnext, hdead, go_quiet hs]
  exact (hdoomed (h.quiet henabled hs h.channel)).of_step he hstep

/-- A functor of the connector in the batch is run, and if there is none the batch ends. -/
theorem Orphan.doomed_functors {batch : List Functor} (h : Orphan p) (hphase : p.client.phase = .functors)
    (hbatch : p.client.queue.batch = batch)
    (hdoomed : (∃ f ∈ batch, f.ofConnector = true) ∨
      ∀ q : Lifetimes, Orphan q → q.client.phase = .functors → q.client.queue = ⟨p.client.queue.pending, []⟩ → Doomed q) :
    Doomed p := by
  induction batch generalizing p with
  | nil =>
    rcases hdoomed with ⟨f, hf, -⟩ | hdoomed
    · cases hf
    · exact hdoomed p h hphase (by rw [← hbatch])
  | cons f batch ih =>
    have hnext : p.client.queue.next = some (f, ⟨p.client.queue.pending, batch⟩) :=
      Mailbox.next_of_batch hbatch
    cases hdead : p.deadCall f with
    | some m =>
      have hs : p.step (.step (.func .none)) = p.dead m := by
        show p.func .none = _
        simp [Lifetimes.func, hnext, hdead]
      have he : p.Enabled (.step (.func .none)) := ⟨h.defined, ⟨hphase, by rw [hbatch]; simp⟩, nofun⟩
      exact doomed_of_dead he hs
    | none =>
      refine h.func hphase hnext hdead fun hq => ih hq hphase rfl ?_
      refine hdoomed.imp_left fun ⟨g, hg, hof⟩ => ⟨g, ?_, hof⟩
      refine (List.mem_cons.mp hg).resolve_left ?_
      rintro rfl
      cases g with
      | startInLoop | stopInLoop | resetChannel => simp [deadCall, h.connectorGone] at hdead
      | forceCloseInLoop | connDestroyed => cases hof

theorem Orphan.of_loop (h : Orphan p) (he : p.client.Enabled a) (huser : usesClient a = false)
    (hs : p.client.step a = some (s', [])) (hchannel : s'.connector.channel = none)
    (hgo : p.step (.step a) = p.go a) (hdoomed : Orphan {p with client := s'} → Doomed {p with client := s'}) :
    Doomed p := by
  have henabled : p.Enabled (.step a) := ⟨h.defined, he, fun ha => absurd ha (by simp [huser])⟩
  exact (hdoomed (h.quiet he hs hchannel)).of_step henabled (hgo.trans (go_quiet hs))

section
variable (hpending : f ∈ p.client.queue.pending) (hof : f.ofConnector = true)
include hpending hof

theorem Orphan.doomed_handled (h : Orphan p) (hphase : p.client.phase = .handling none none) : Doomed p := by
  refine h.of_loop (a := .doPendingFuncs) hphase rfl rfl h.channel rfl fun hq => ?_
  exact hq.doomed_functors rfl rfl (.inl ⟨f, hpending, hof⟩)

theorem Orphan.doomed_handling (h : Orphan p) {connector : Option Mask} {conn : Option Nat}
    (hphase : p.client.phase = .handling connector conn) : Doomed p := by
  obtain rfl : connector = none := by
    have hactive := h.not_active
    rw [hphase] at hactive
    exact hactive
  cases conn with
  | none => exact h.doomed_handled hpending hof hphase
  | some c =>
    have hs : p.client.step (.connEvent false .none) = some ({p.client with phase := .handling none none}, []) := by
      simp [TcpClient.step, hphase]
    refine h.of_loop (a := .connEvent false .none) (by rw [TcpClient.Enabled, hphase]; rfl) rfl hs h.channel ?_ fun hq => ?_
    · show (if false = true ∧ p.alive = false then p.dead .rmConn else p.go (.connEvent false .none)) = _
      exact if_neg (by simp)
    · exact hq.doomed_handled hpending hof rfl

theorem Orphan.doomed_polling (h : Orphan p) (hphase : p.client.phase = .polling) : Doomed p := by
  refine h.of_loop (a := .poll none false) ⟨hphase, nofun, nofun⟩ rfl rfl h.channel rfl fun hq => ?_
  exact hq.doomed_handled hpending hof rfl

theorem Orphan.doomed_pending (h : Orphan p) : Doomed p := by
  cases hphase : p.client.phase with
  | outside =>
    refine h.of_loop (a := .loop) hphase rfl rfl h.channel rfl fun hq => ?_
    exact hq.doomed_polling hpending hof rfl
  | polling => exact h.doomed_polling hpending hof hphase
  | handling connector conn => exact h.doomed_handling hpending hof hphase
  | functors =>
    refine h.doomed_functors hphase rfl (.inr fun q hq hphase hqueue => ?_)
    refine hq.of_loop (a := .finish) ⟨hphase, by rw [hqueue]⟩ rfl rfl hq.channel rfl fun hr => ?_
    refine hr.doomed_polling ?_ hof rfl
    show f ∈ q.client.queue.pending
    rw [hqueue]
    exact hpending

omit hpending in
/-- A functor of a connector that is gone can always be run. -/
theorem Orphan.doomed (h : Orphan p) (hqueued : f ∈ p.client.queued) : Doomed p := by
  rcases List.mem_append.mp hqueued with hwaiting | hinflight
  · rcases List.mem_append.mp hwaiting with hbatch | hpending
    · have hphase : p.client.phase = .functors := by
        by_contra hne
        rw [h.loose.batch hne] at hbatch
        cases hbatch
      exact h.doomed_functors hphase rfl (.inl ⟨f, hbatch, hof⟩)
    · exact h.doomed_pending hpending hof
  · refine h.of_loop (a := .push f) hinflight rfl rfl h.channel rfl fun hq => ?_
    refine hq.doomed_pending ?_ hof
    show f ∈ p.client.queue.pending ++ [f]
    simp

end

theorem Sane.doomed_destroy (h : Sane obs p) {others : Bool} (hnot : ¬ p.Careful (.destroy others))
    (hs : p.step (.destroy others) = some (p', seen)) : Doomed p' := by
  obtain ⟨⟨q, o⟩, hdrop, hs⟩ := Option.bind_eq_some_iff.mp hs
  obtain ⟨rfl, rfl⟩ := Prod.mk.inj (Option.some.inj hs)
  have hdestroyed := destroyed_cases p.client others
  obtain ⟨hzero, hnot⟩ := Classical.not_imp.mp hnot
  obtain ⟨f, hqueued, hof⟩ := exists_of_not_unqueued (hdestroyed.queued hnot)
  have htimers : (destroyed p.client others).timers = 0 := hdestroyed.same.1.trans hzero
  obtain ⟨hchannel, rfl, -⟩ := drop_gone (p := {p with client := destroyed p.client others, alive := false}) rfl htimers hdrop
  have horphan : Orphan {p with client := destroyed p.client others, alive := false, connectorAlive := false} :=
    ⟨h.defined, rfl, rfl, h.loose.destroyed hdestroyed, hchannel⟩
  exact horphan.doomed hof hqueued

/-- The connection closes and calls the client. -/
theorem dead_of_closes (halive : p.alive = false) (hcloses : p.client.Closes a)
    (hs : p.step (.step a) = some (p', seen)) : .dead .rmConn ∈ seen := by
  cases a with
  | connEvent closes errno =>
    have hs : (if closes = true ∧ p.alive = false then p.dead .rmConn else p.go (.connEvent closes errno)) =
      some (p', seen) := hs
    rw [if_pos ⟨hcloses, halive⟩] at hs
    obtain ⟨-, rfl⟩ := Prod.mk.inj (Option.some.inj hs)
    exact List.mem_cons_self
  | func errno =>
    obtain ⟨c, hconn⟩ := Option.isSome_iff_exists.mp hcloses.1
    have hhead := hcloses.2
    have hs : p.func errno = some (p', seen) := hs
    simp only [Lifetimes.func, Option.bind_eq_bind, Option.bind_eq_some_iff, Prod.exists] at hs
    obtain ⟨f, queue, hnext, hs⟩ := hs
    rw [hconn, (Mailbox.next_eq_some hnext).1] at hhead
    obtain rfl : f = .forceCloseInLoop c := by simpa using hhead
    have hdead : p.deadCall (.forceCloseInLoop c) = some .rmConn := if_pos ⟨halive, hconn⟩
    rw [hdead] at hs
    obtain ⟨-, rfl⟩ := Prod.mk.inj (Option.some.inj hs)
    exact List.mem_cons_self
  | _ => cases hcloses

theorem Sane.doomed_timer (h : Sane obs p) (he : p.Enabled (.step (.timer errno))) (halive : p.alive = false)
    (hlast : p.client.timers = 1) (hnone : ¬ Unqueued p.client) (hs : p.step (.step (.timer errno)) = some (p', seen)) :
    Doomed p' := by
  obtain ⟨f, hqueued, hof⟩ := exists_of_not_unqueued hnone
  simp only [Lifetimes.step, Option.bind_eq_bind, Option.bind_eq_some_iff, Prod.exists] at hs
  obtain ⟨q, o, hgo, q', o', hdrop, hs⟩ := hs
  obtain ⟨rfl, rfl⟩ := Prod.mk.inj (Option.some.inj hs)
  obtain ⟨s', o, hstep, hwent, rfl, rfl⟩ := h.go_cases he.2.1 (fun _ hcloses => hcloses) he.2.2 hgo
  obtain rfl := h.timer_off halive hstep
  have hzero : p.client.timers - 1 = 0 := by omega
  obtain ⟨hchannel, rfl, -⟩ :=
    drop_gone (p := {p with client := {p.client with timers := p.client.timers - 1}}) halive hzero hdrop
  have horphan : Orphan {p with client := {p.client with timers := p.client.timers - 1}, connectorAlive := false} :=
    ⟨h.defined, halive, rfl, hwent.loose, hchannel⟩
  exact horphan.doomed hof hqueued

/-- Each step that is not careful runs a method on an object that is gone, or leads there. -/
theorem Sane.doomed (h : Sane obs p) (he : p.Enabled la) (hnot : ¬ p.Careful la) (hs : p.step la = some (p', seen)) :
    (∃ m, .dead m ∈ seen) ∨ Doomed p' := by
  cases la with
  | destroy others => exact .inr (h.doomed_destroy hnot hs)
  | step a =>
    obtain ⟨halive, hnot⟩ := Classical.not_imp.mp hnot
    by_cases hcloses : p.client.Closes a
    · exact .inl ⟨.rmConn, dead_of_closes halive hcloses hs⟩
    · obtain ⟨hlast, hnone⟩ := Classical.not_imp.mp fun hlast => hnot ⟨hcloses, hlast⟩
      cases a with
      | timer errno => exact .inr (h.doomed_timer he halive hlast hnone hs)
      | _ => cases hlast

/-- **When `~TcpClient` leaves nothing behind.** As long as the connection that has survived the
client does not close, and the connector goes with nothing of it queued, no method runs
on an object that is gone, and `connDestroyed` is run once on every connection, or still owed.
A step that breaks this runs such a method or leads to one. -/
theorem destruction_careful {as : List LifeAction} (h : (machine.restrict Careful).Run create as obs p) :
    (∀ m, .dead m ∉ obs) ∧
      (∀ c, 0 < c → c < p.client.nxtConnID → obs.count (.connDestroyed c) + p.client.owed c = 1) ∧
      ∀ la p' seen, p.Enabled la → p.step la = some (p', seen) → ¬ p.Careful la →
        (∃ m, .dead m ∈ seen) ∨ Doomed p' := by
  have hsane := sane_run h
  refine ⟨hsane.undead, fun c hpos hlt => ?_, fun la p' seen he hs hnot => hsane.doomed he hnot hs⟩
  have howed := hsane.owed c
  rwa [if_pos ⟨hpos, hlt⟩] at howed

/-- The connection has another owner, and stays open. -/
theorem destruction_careful_shared :
    ∃ obs p, (machine.restrict Careful).Run create
        [.step (.connect .EINPROGRESS), .step .loop, .step (.poll (some POLLOUT) false), .step (.connectorEvent ⟨0, false⟩),
          .step .doPendingFuncs, .step (.func .none), .step .finish, .step (.poll none true), .destroy true,
          .step (.connEvent false .none), .step .doPendingFuncs, .step .finish] obs p ∧
      .connectorDtor ∈ obs ∧ (∀ m, .dead m ∉ obs) ∧ obs.count (.connDestroyed 1) + p.client.owed 1 = 1 := by
  obtain ⟨obs, p, hrun, hdtor, hlt⟩ : ∃ obs p, (machine.restrict Careful).Run create
        [.step (.connect .EINPROGRESS), .step .loop, .step (.poll (some POLLOUT) false), .step (.connectorEvent ⟨0, false⟩),
          .step .doPendingFuncs, .step (.func .none), .step .finish, .step (.poll none true), .destroy true,
          .step (.connEvent false .none), .step .doPendingFuncs, .step .finish] obs p ∧
      .connectorDtor ∈ obs ∧ 1 < p.client.nxtConnID := Machine.Run.exists_of_trace (by decide +kernel)
  obtain ⟨hundead, hdestroyed, -⟩ := destruction_careful hrun
  exact ⟨obs, p, hrun, hdtor, hundead, hdestroyed 1 Nat.one_pos hlt⟩

/-- An idle client is destroyed, and one whose retry timer fires before the functor that
`stop` has queued. A connection that `~TcpClient` closes itself, and one that
has another owner and closes later, call the client. -/
theorem destruction_dangles :
    (∃ obs p, machine.Run create
        [.destroy false, .step .loop, .step (.poll none false), .step .doPendingFuncs, .step (.func .none)] obs p ∧
      .dead .stopInLoop ∈ obs) ∧
    (∃ obs p, machine.Run create
        [.step (.connect .ECONNREFUSED), .destroy false, .step .loop, .step (.poll none false), .step (.timer .none),
          .step .doPendingFuncs, .step (.func .none)] obs p ∧
      .dead .stopInLoop ∈ obs) ∧
    (∃ obs p, machine.Run create
        [.step (.connect .EINPROGRESS), .step .loop, .step (.poll (some POLLOUT) false), .step (.connectorEvent ⟨0, false⟩),
          .step .doPendingFuncs, .step (.func .none), .step .finish, .step (.poll none false), .destroy false,
          .step .doPendingFuncs, .step (.func .none)] obs p ∧
      .dead .rmConn ∈ obs) ∧
    ∃ obs p, machine.Run create
        [.step (.connect .EINPROGRESS), .step .loop, .step (.poll (some POLLOUT) false), .step (.connectorEvent ⟨0, false⟩),
          .step .doPendingFuncs, .step (.func .none), .step .finish, .step (.poll none false), .destroy true,
          .step .doPendingFuncs, .step .finish, .step (.poll none true), .step (.connEvent true .none)] obs p ∧
      .dead .rmConn ∈ obs := by
  refine ⟨?_, ?_, ?_, ?_⟩
  all_goals exact Machine.Run.exists_of_trace (by decide +kernel)

end Lifetimes
end Chtho.Net.TcpClient
