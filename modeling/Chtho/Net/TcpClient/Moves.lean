import Chtho.Net.TcpClient.Invariant

/-! What a step of the client can do to its connector, said once (`Moved`), with the
invariant kept. Of the functors that start and stop the connector it is kept in view
whether any are queued. -/
namespace Chtho.Net.TcpClient
open Lib Connector

/-- The functors that are queued or on their way. -/
def queued (s : TcpClient) : List Functor := s.queue.waiting ++ s.inflight

/-- The same connector, with the same sockets and timers. -/
structure Same (s t : TcpClient) : Prop where
  connector : t.connector = s.connector
  channels : t.channels = s.channels
  sockets : t.sockets = s.sockets
  timers : t.timers = s.timers

/-- What a step does to the connector, and what is seen of it. -/
inductive Moved (s : TcpClient) : Action → TcpClient → List Event → Prop where
  | quiet {a s'} : Same s s' → Moved s a s' []
  | connect (t : TcpClient) {errno s' o} :
      Same {s with connector := {s.connector with connect_ := true}} t → s.connector.state = .disconnected →
      Started t s' o → Moved s (.connect errno) s' (.start :: o)
  | connectQueued {s'} :
      Same {s with connector := {s.connector with connect_ := true}} s' → Moved s .connectQueued s' [.start]
  | stop {own s'} : Same {s with connector := {s.connector with connect_ := false}} s' → Moved s (.stop own) s' [.stop]
  | timer {errno s' o} :
      s.connector.state = .disconnected → Started {s with timers := s.timers - 1} s' o → Moved s (.timer errno) s' o
  | startInLoop {errno queue s' o} :
      s.queue.next = some (.startInLoop, queue) → s.connector.state = .disconnected →
      Started {s with queue := queue} s' o → Moved s (.func errno) s' o
  | stopInLoop {errno queue s'} :
      s.queue.next = some (.stopInLoop, queue) → s.connector.state ≠ .disconnected → Same s s' →
      Moved s (.func errno) s' [.stopInLoop]
  | resetChannel (ch : Channel) {a s'} :
      s.connector.channel = some ch → s.connector.state ≠ .connecting →
      Same {s with connector := {s.connector with channel := none}} s' →
      Moved s a s' [.connector (.destroyChannel ch.fd)]
  /-- The attempt has events. -/
  | handled (t : TcpClient) (ch : Channel) {a s' o} :
      Same s t → s.connector.state = .connecting → s.connector.channel = some ch → Handled t ch s' o → Moved s a s' o
  /-- A connection has closed, and the connector starts again. -/
  | restarted (t : TcpClient) {a s' o} :
      Same s t → s.connector.state = .connected → s.connector.channel = none → Started t.restarting s' o →
      Moved s a s' (.start :: o)

structure Stepped (s : TcpClient) (a : Action) (s' : TcpClient) (o : List Event) : Prop where
  inv : Inv s'
  moved : Moved s a s' o
  starts : .startInLoop ∈ s'.queued → .startInLoop ∈ s.queued ∨ a = .connectQueued
  stops : .stopInLoop ∈ s'.queued → .stopInLoop ∈ s.queued ∨ ∃ own, a = .stop own

variable {s s' : TcpClient} {o : List Event} {errno : ConnectErrno} {ch : Channel} {f : Functor} {a : Action}

theorem queued_queueInLoop (s : TcpClient) (own : Bool) (f g : Functor) :
    g ∈ (s.queueInLoop own f).queued ↔ g ∈ s.queued ∨ g = f := by
  cases own with
  | false => simp [queueInLoop, queued, or_assoc]
  | true => simp [queueInLoop, queued, or_assoc, or_comm]

theorem Started.queued_eq {s s' : TcpClient} (hs : Started s s' o) : s'.queued = s.queued := by
  cases hs <;> rfl

theorem Handled.queued_iff {s s' : TcpClient} (hs : Handled s ch s' o) {g : Functor} (hg : g ≠ .resetChannel) :
    g ∈ s'.queued ↔ g ∈ s.queued := by
  have hremoved : ∀ c : Connector, g ∈ (s.removed ch c).queued ↔ g ∈ s.queued := by
    intro c
    rw [show (s.removed ch c).queued = (s.queueInLoop true .resetChannel).queued from rfl, queued_queueInLoop]
    exact or_iff_left hg
  cases hs with
  | waiting => rfl
  | retried delay => exact hremoved {s.connector with state := .disconnected, retryDelayMs := delay}
  | closed state => exact hremoved {s.connector with state := state}
  | connected => exact hremoved {s.connector with state := .connected}

theorem mem_queued_of_next {queue : Mailbox Functor} (hnext : s.queue.next = some (f, queue)) :
    f ∈ s.queued := by
  rw [queued, Mailbox.waiting_next hnext]
  exact List.mem_cons_self

theorem queued_popped {queue : Mailbox Functor} (hnext : s.queue.next = some (f, queue)) {g : Functor}
    (hg : g ∈ queued {s with queue := queue}) : g ∈ s.queued := by
  rcases List.mem_append.mp hg with hg | hg
  · refine List.mem_append_left _ ?_
    rw [Mailbox.waiting_next hnext]
    exact List.mem_cons_of_mem _ hg
  · exact List.mem_append_right _ hg

/-- `rmConn` as a step, from a client `r` with the same connector. -/
theorem Inv.stepped_rmConn {r : TcpClient} (h : Inv r) (hsame : Same s r) (hback : ∀ g, g ∈ r.queued → g ∈ s.queued)
    {c : Nat} (hconn : r.conn = some c) (hactive : r.phase.connActive = none) (hresets : r.resets = 0)
    (hs : r.rmConn c errno = some (s', o)) (a : Action) : Stepped s a s' o := by
  obtain ⟨t, o', heq, hinv, hmoved⟩ := h.rmConn hconn hactive hresets errno
  obtain ⟨rfl, rfl⟩ := Prod.mk.inj (Option.some.inj (heq.symm.trans hs))
  have hclosed : ∀ g, g ≠ .connDestroyed c → g ∈ (r.closed c).queued → g ∈ s.queued := by
    intro g hg hmem
    exact hback g (((queued_queueInLoop {r with conn := none} true _ g).mp hmem).resolve_right hg)
  have hstate := (h.conn c hconn).1
  have hnone : r.connector.channel = none := (h.channel_eq_none (by rw [hstate]; decide)).mpr hresets
  have hsame' : Same s (r.closed c) := ⟨hsame.connector, hsame.channels, hsame.sockets, hsame.timers⟩
  rcases hmoved with ⟨rfl, rfl⟩ | ⟨o', hstarted, rfl⟩
  · exact ⟨hinv, .quiet hsame', fun hmem => .inl (hclosed _ (by simp) hmem), fun hmem => .inl (hclosed _ (by simp) hmem)⟩
  · refine ⟨hinv, .restarted (r.closed c) hsame' (hsame.connector ▸ hstate) (hsame.connector ▸ hnone) hstarted,
      fun hmem => ?_, fun hmem => ?_⟩
    all_goals
      rw [hstarted.queued_eq] at hmem
      exact .inl (hclosed _ (by simp) hmem)

/-- The invariant is kept when only the phase changes. -/
theorem Inv.enter (h : Inv s) (phase : Phase) (hpending : phase.handles = false → s.phase.handles = false)
    (hbatch : phase ≠ .functors → s.queue.batch = [])
    (hactive : phase.connectorActive.isSome = true → s.connector.state = .connecting)
    (hconnActive : ∀ c, phase.connActive = some c → s.conn = some c ∧ s.resets = 0) : Inv {s with phase := phase} :=
  ⟨h.stage, h.conn, h.order, h.known, h.inflight, fun hp => h.pending (hpending hp), hbatch, hactive, hconnActive⟩

theorem Inv.connector_handled (h : Inv s) {revents : Mask} {conn : Option Nat}
    (hphase : s.phase = .handling (some revents) conn) : Inv {s with phase := .handling none conn} := by
  refine h.enter _ nofun (fun _ => h.batch (by rw [hphase]; nofun)) nofun fun c hc => h.connActive c ?_
  rw [hphase]
  exact hc

theorem Inv.conn_handled (h : Inv s) {connector : Option Mask} {c : Nat}
    (hphase : s.phase = .handling connector (some c)) : Inv {s with phase := .handling connector none} := by
  refine h.enter _ nofun (fun _ => h.batch (by rw [hphase]; nofun)) (fun hsome => h.active ?_) fun c hc => ?_
  · rw [hphase]
    exact hsome
  · cases hc

/-- `connect_` is set. -/
theorem Inv.flag (h : Inv s) (on client : Bool) :
    Inv {s with connect_ := client, connector := {s.connector with connect_ := on}} :=
  ⟨h.stage, h.conn, h.order, h.known, h.inflight, h.pending, h.batch, h.active, h.connActive⟩

/-- When a connection is forced to close, the `resetChannel` of its attempt has run. -/
theorem Inv.resets_forceClose (h : Inv s) {c : Nat} (hconn : s.conn = some c) {queue : Mailbox Functor}
    (hnext : s.queue.next = some (.forceCloseInLoop c, queue)) : resets {s with queue := queue} = 0 := by
  refine resets_eq_zero.mpr (h.order c [] queue.waiting hconn ?_)
  rw [Mailbox.waiting_next hnext]
  rfl

/-- A functor that the loop runs. -/
theorem Inv.stepped_func (h : Inv s) (hphase : s.phase = .functors) {queue : Mailbox Functor}
    (hnext : s.queue.next = some (f, queue)) (hstop : f = .stopInLoop → s.connector.state ≠ .disconnected)
    (hs : run {s with queue := queue} errno f = some (s', o)) : Stepped s (.func errno) s' o := by
  have hpopped : ∀ {g}, g ∈ TcpClient.queued {s with queue := queue} → g ∈ s.queued := queued_popped hnext
  have hsame : Same s {s with queue := queue} := ⟨rfl, rfl, rfl, rfl⟩
  cases f with
  | startInLoop =>
    obtain ⟨hstate, hstarted⟩ := startInLoop_cases hs
    have hinv := h.popped hphase hnext (by simp)
    refine ⟨hinv.started hstate hstarted, .startInLoop hnext hstate hstarted, fun hmem => ?_, fun hmem => ?_⟩
    all_goals
      rw [hstarted.queued_eq] at hmem
      exact .inl (hpopped hmem)
  | stopInLoop =>
    have hnot := hstop rfl
    have hquiet : s.connector.stopInLoop = some (s.connector, []) := by simp [Connector.stopInLoop, hnot]
    simp only [TcpClient.run, hquiet, call, performAll, Option.bind_eq_bind, Option.bind_some] at hs
    obtain ⟨rfl, rfl⟩ := Prod.mk.inj (Option.some.inj hs)
    exact ⟨h.popped hphase hnext (by simp), .stopInLoop hnext hnot hsame, fun hmem => .inl (hpopped hmem),
      fun hmem => .inl (hpopped hmem)⟩
  | resetChannel =>
    have hne : s.connector.state ≠ .connecting := by
      intro hstate
      obtain ⟨_, _, _, hzero⟩ := h.attempt hstate
      refine resets_eq_zero.mp hzero ?_
      rw [Mailbox.waiting_next hnext]
      exact List.mem_cons_self
    obtain ⟨t, o', heq, hinv, rfl, ch, hchannel, rfl⟩ := h.resetChannel hphase hnext errno
    obtain ⟨rfl, rfl⟩ := Prod.mk.inj (Option.some.inj (heq.symm.trans hs))
    exact ⟨hinv, .resetChannel ch hchannel hne ⟨rfl, rfl, rfl, rfl⟩, fun hmem => .inl (hpopped hmem),
      fun hmem => .inl (hpopped hmem)⟩
  | forceCloseInLoop c =>
    have hinv := h.popped hphase hnext (by simp)
    by_cases hconn : s.conn = some c
    · have hresets := h.resets_forceClose hconn hnext
      have hactive : s.phase.connActive = none := by
        rw [hphase]
        rfl
      have hrm : TcpClient.rmConn {s with queue := queue} c errno = some (s', o) := by
        simpa only [TcpClient.run, forceCloseInLoop, if_pos hconn] using hs
      exact hinv.stepped_rmConn hsame (fun g => hpopped) hconn hactive hresets hrm _
    · simp only [TcpClient.run, forceCloseInLoop, if_neg hconn] at hs
      obtain ⟨rfl, rfl⟩ := Prod.mk.inj (Option.some.inj hs)
      exact ⟨hinv, .quiet hsame, fun hmem => .inl (hpopped hmem), fun hmem => .inl (hpopped hmem)⟩
  | connDestroyed c =>
    obtain ⟨rfl, rfl⟩ := Prod.mk.inj (Option.some.inj hs)
    exact ⟨h.popped hphase hnext (by simp), .quiet hsame, fun hmem => .inl (hpopped hmem),
      fun hmem => .inl (hpopped hmem)⟩

/-- No `stopInLoop` is run in state disconnected. -/
def StopsLate (s : TcpClient) : Action → Prop
  | .func _ => ∀ queue, s.queue.next = some (.stopInLoop, queue) → s.connector.state ≠ .disconnected
  | _ => True

/-- A functor of another thread arrives. -/
theorem Inv.stepped_push (h : Inv s) (he : f ∈ s.inflight) :
    Stepped s (.push f) (queueInLoop {s with inflight := s.inflight.erase f} true f) [] := by
  have herased : ∀ {g}, g ∈ s.inflight.erase f → g ∈ s.inflight := List.mem_of_mem_erase
  have hinv : Inv {s with inflight := s.inflight.erase f} :=
    ⟨h.stage, h.conn, h.order, fun c hc => h.known c (hc.imp_right herased), fun hmem => h.inflight (herased hmem),
      h.pending, h.batch, h.active, h.connActive⟩
  have hf : f ∈ s.queued := List.mem_append_right _ he
  have hback : ∀ g, g ∈ (queueInLoop {s with inflight := s.inflight.erase f} true f).queued → g ∈ s.queued := by
    intro g hg
    rcases (queued_queueInLoop _ _ _ _).mp hg with hg | rfl
    · rcases List.mem_append.mp hg with hg | hg
      · exact List.mem_append_left _ hg
      · exact List.mem_append_right _ (herased hg)
    · exact hf
  refine ⟨hinv.queued ?_ ?_ true, .quiet ⟨rfl, rfl, rfl, rfl⟩, fun hmem => .inl (hback _ hmem),
    fun hmem => .inl (hback _ hmem)⟩
  · rintro rfl
    exact h.inflight he
  · rintro c rfl
    exact h.known c (.inr he)

/-- What is pending becomes the batch. -/
theorem Inv.stepped_swap (h : Inv s) (hphase : s.phase = .handling none none) :
    Stepped s .doPendingFuncs {s with queue := s.queue.swap, phase := .functors} [] := by
  have hwaiting : s.queue.swap.waiting = s.queue.waiting := Mailbox.waiting_swap (h.batch (by rw [hphase]; decide))
  have hresets : resets {s with queue := s.queue.swap, phase := .functors} = s.resets := by
    show s.queue.swap.waiting.count _ = _
    rw [hwaiting]
    rfl
  have hqueued : TcpClient.queued {s with queue := s.queue.swap, phase := .functors} = s.queued := by
    show s.queue.swap.waiting ++ s.inflight = _
    rw [hwaiting]
    rfl
  refine ⟨⟨?_, h.conn, fun c pre post hc hsplit => h.order c pre post hc ?_, fun c hc => h.known c ?_, h.inflight, ?_,
    ?_, (fun hsome => by cases hsome), ?_⟩, .quiet ⟨rfl, rfl, rfl, rfl⟩, fun hmem => .inl (hqueued ▸ hmem),
    fun hmem => .inl (hqueued ▸ hmem)⟩
  · rw [hresets]
    exact h.stage
  · rw [← hwaiting]
    exact hsplit
  · rw [← hwaiting]
    exact hc
  · intro _ hmem
    cases hmem
  · exact fun hne => absurd rfl hne
  · intro c hc
    cases hc

/-- Every step but a `stopInLoop` in state disconnected keeps the invariant. -/
theorem Inv.step (h : Inv s) (he : s.Enabled a) (hstop : s.StopsLate a) (hs : s.step a = some (s', o)) :
    Stepped s a s' o := by
  cases a with
  | connect errno =>
    obtain ⟨hstate, o', rfl, hstarted⟩ := connect_cases hs
    refine ⟨(h.flag true true).started hstate hstarted,
      .connect {s with connect_ := true, connector := {s.connector with connect_ := true}} ⟨rfl, rfl, rfl, rfl⟩ hstate hstarted,
      fun hmem => ?_, fun hmem => ?_⟩
    all_goals
      rw [hstarted.queued_eq] at hmem
      exact .inl hmem
  | connectQueued =>
    obtain ⟨rfl, rfl⟩ := Prod.mk.inj (Option.some.inj hs)
    refine ⟨(h.flag true true).queued (by simp) (by simp) false, .connectQueued ⟨rfl, rfl, rfl, rfl⟩, fun _ => .inr rfl,
      fun hmem => ?_⟩
    exact .inl (((queued_queueInLoop _ _ _ _).mp hmem).resolve_right (by simp))
  | disconnect =>
    obtain ⟨rfl, rfl⟩ := Prod.mk.inj (Option.some.inj hs)
    exact ⟨h.flag s.connector.connect_ false, .quiet ⟨rfl, rfl, rfl, rfl⟩, .inl, .inl⟩
  | stop own =>
    obtain ⟨rfl, rfl⟩ := Prod.mk.inj (Option.some.inj hs)
    have hinv := (h.flag false false).queued (f := .stopInLoop) (by simp) (by simp) own
    refine ⟨hinv, .stop ?_, fun hmem => ?_, fun _ => .inr ⟨own, rfl⟩⟩
    · cases own <;> exact ⟨rfl, rfl, rfl, rfl⟩
    · exact .inl (((queued_queueInLoop _ _ _ _).mp hmem).resolve_right (by simp))
  | enableRetry =>
    obtain ⟨rfl, rfl⟩ := Prod.mk.inj (Option.some.inj hs)
    exact ⟨⟨h.stage, h.conn, h.order, h.known, h.inflight, h.pending, h.batch, h.active, h.connActive⟩,
      .quiet ⟨rfl, rfl, rfl, rfl⟩, .inl, .inl⟩
  | forceClose own =>
    obtain ⟨c, hconn⟩ := Option.isSome_iff_exists.mp he.1
    simp only [TcpClient.step, hconn] at hs
    obtain ⟨rfl, rfl⟩ := Prod.mk.inj (Option.some.inj hs)
    refine ⟨h.queued (by simp) ?_ own, .quiet ?_, fun hmem => ?_, fun hmem => ?_⟩
    · intro d hd
      obtain rfl := Functor.forceCloseInLoop.inj hd
      exact (h.conn _ hconn).2
    · cases own <;> exact ⟨rfl, rfl, rfl, rfl⟩
    · exact .inl (((queued_queueInLoop _ _ _ _).mp hmem).resolve_right (by simp))
    · exact .inl (((queued_queueInLoop _ _ _ _).mp hmem).resolve_right (by simp))
  | push f =>
    obtain ⟨rfl, rfl⟩ := Prod.mk.inj (Option.some.inj hs)
    exact h.stepped_push he
  | loop =>
    obtain ⟨rfl, rfl⟩ := Prod.mk.inj (Option.some.inj hs)
    have hphase : s.phase = .outside := he
    refine ⟨h.enter .polling (fun _ => by rw [hphase]; rfl) (fun _ => h.batch (by rw [hphase]; decide))
      (fun hsome => by cases hsome) ?_,
      .quiet ⟨rfl, rfl, rfl, rfl⟩, .inl, .inl⟩
    intro c hc
    cases hc
  | poll connector conn =>
    obtain ⟨rfl, rfl⟩ := Prod.mk.inj (Option.some.inj hs)
    obtain ⟨hphase, hchannels, -⟩ := he
    have hpending := h.pending (by rw [hphase]; rfl)
    have hbatch := h.batch (by rw [hphase]; decide)
    refine ⟨h.enter _ (fun hnot => by cases hnot) (fun _ => hbatch) (fun hsome => ?_) (fun c hc => ?_), .quiet ⟨rfl, rfl, rfl, rfl⟩,
      .inl, .inl⟩
    · by_contra hne
      exact hchannels hsome (h.channels hne)
    · cases conn with
      | false => cases hc
      | true =>
        refine ⟨hc, resets_eq_zero.mpr ?_⟩
        rw [Mailbox.waiting, hbatch]
        exact hpending
  | connectorEvent outcome =>
    simp only [TcpClient.step] at hs
    split at hs
    case h_2 => cases hs
    case h_1 revents conn hphase =>
      have hstate := h.active (by rw [hphase]; rfl)
      obtain ⟨ch, hchannel, -⟩ := h.attempt hstate
      have hinv := h.connector_handled hphase
      obtain ⟨t, o', heq, hhandled⟩ := handleEvents_spec (s := {s with phase := .handling none conn}) hstate hchannel
        outcome revents
      obtain ⟨rfl, rfl⟩ := Prod.mk.inj (Option.some.inj (heq.symm.trans hs))
      exact ⟨hinv.handled hstate hchannel rfl rfl hhandled,
        .handled {s with phase := .handling none conn} ch ⟨rfl, rfl, rfl, rfl⟩ hstate hchannel hhandled,
        fun hmem => .inl ((hhandled.queued_iff (by simp)).mp hmem),
        fun hmem => .inl ((hhandled.queued_iff (by simp)).mp hmem)⟩
  | connEvent closes errno =>
    simp only [TcpClient.step] at hs
    split at hs
    case h_2 => cases hs
    case h_1 connector c hphase =>
      obtain ⟨hconn, hresets⟩ := h.connActive c (by rw [hphase]; rfl)
      have hinv := h.conn_handled hphase
      cases closes with
      | false =>
        obtain ⟨rfl, rfl⟩ := Prod.mk.inj (Option.some.inj hs)
        exact ⟨hinv, .quiet ⟨rfl, rfl, rfl, rfl⟩, .inl, .inl⟩
      | true =>
        exact hinv.stepped_rmConn (s := s) ⟨rfl, rfl, rfl, rfl⟩ (fun _ => id) hconn rfl hresets hs _
  | timer errno =>
    obtain ⟨hstate, hstarted⟩ := startInLoop_cases hs
    have hinv : Inv {s with timers := s.timers - 1} :=
      ⟨h.stage, h.conn, h.order, h.known, h.inflight, h.pending, h.batch, h.active, h.connActive⟩
    refine ⟨hinv.started hstate hstarted,
      .timer hstate hstarted, fun hmem => ?_, fun hmem => ?_⟩
    all_goals
      rw [hstarted.queued_eq] at hmem
      exact .inl hmem
  | doPendingFuncs =>
    obtain ⟨rfl, rfl⟩ := Prod.mk.inj (Option.some.inj hs)
    exact h.stepped_swap he
  | func errno =>
    obtain ⟨f, queue, hnext, hs⟩ := func_cases hs
    refine h.stepped_func he.1 hnext (fun hf => ?_) hs
    subst hf
    exact hstop queue hnext
  | finish =>
    obtain ⟨rfl, rfl⟩ := Prod.mk.inj (Option.some.inj hs)
    obtain ⟨hphase, hbatch⟩ := he
    refine ⟨h.enter .polling (fun _ => by rw [hphase]; rfl) (fun _ => hbatch) (fun hsome => by cases hsome) ?_,
      .quiet ⟨rfl, rfl, rfl, rfl⟩,
      .inl, .inl⟩
    intro c hc
    cases hc

end Chtho.Net.TcpClient
