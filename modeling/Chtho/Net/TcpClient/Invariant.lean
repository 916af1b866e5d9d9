import Chtho.Net.TcpClient.Steps

/-! The invariant of a client in its loop.

The connector's channel is nowhere, or in the poller with the state connecting, or out
of the poller with one `resetChannel` waiting (`Stage`). A connection exists only in
state connected, and whatever can close it comes behind the `resetChannel` of its
attempt: its channel is polled only after the functors have run, and a `forceClose`
is queued behind. So `rmConn` finds the connector without a channel. -/
namespace Chtho.Net.TcpClient
open Lib Connector

/-- Where the connector is with its channel: its state, the channel, the channels in the
poller and how many `resetChannel` are waiting. -/
inductive Stage : State → Option Channel → List Nat → Nat → Prop where
  | idle {state : State} : state ≠ .connecting → Stage state none [] 0
  | attempt (ch : Channel) : Stage .connecting (some ch) [ch.fd] 0
  | removed {state : State} (ch : Channel) : state ≠ .connecting → ch.addedToLoop = false → Stage state (some ch) [] 1

/-- How many `resetChannel` are waiting. -/
def resets (s : TcpClient) : Nat := s.queue.waiting.count .resetChannel

structure Inv (s : TcpClient) : Prop where
  stage : Stage s.connector.state s.connector.channel s.channels s.resets
  conn : ∀ c, s.conn = some c → s.connector.state = .connected ∧ c < s.nxtConnID
  order : ∀ c pre post, s.conn = some c → s.queue.waiting = pre ++ .forceCloseInLoop c :: post → .resetChannel ∉ post
  known : ∀ c, .forceCloseInLoop c ∈ s.queue.waiting ∨ .forceCloseInLoop c ∈ s.inflight → c < s.nxtConnID
  inflight : .resetChannel ∉ s.inflight
  pending : s.phase.handles = false → .resetChannel ∉ s.queue.pending
  batch : s.phase ≠ .functors → s.queue.batch = []
  active : s.phase.connectorActive.isSome = true → s.connector.state = .connecting
  connActive : ∀ c, s.phase.connActive = some c → s.conn = some c ∧ s.resets = 0

theorem inv_create : Inv create := by
  refine ⟨.idle (by decide), ?_, ?_, ?_, by decide, fun _ => by decide, fun _ => rfl, nofun, ?_⟩
  · intro c hc
    cases hc
  · intro c pre post hc
    cases hc
  · intro c hc
    simp [create] at hc
  · intro c hc
    cases hc

variable {s s' : TcpClient} {o : List Event} {errno : ConnectErrno} {ch : Channel} {f : Functor} {a : Action}

/-! ### What the stage says -/

theorem resets_eq_zero : s.resets = 0 ↔ .resetChannel ∉ s.queue.waiting := List.count_eq_zero

/-- An attempt has its channel in the loop. -/
theorem Stage.attempting {channel : Option Channel} {channels : List Nat} {resets : Nat}
    (h : Stage .connecting channel channels resets) : ∃ ch, channel = some ch ∧ channels = [ch.fd] ∧ resets = 0 := by
  cases h with
  | idle hne => exact absurd rfl hne
  | attempt ch => exact ⟨ch, rfl, rfl, rfl⟩
  | removed ch hne => exact absurd rfl hne

/-- Without an attempt there is a channel exactly as long as its reset is waiting. -/
theorem Stage.resting {state : Connector.State} {channel : Option Channel} {channels : List Nat} {resets : Nat}
    (h : Stage state channel channels resets) (hne : state ≠ .connecting) :
    channels = [] ∧ (channel = none ∧ resets = 0 ∨ ∃ ch, channel = some ch ∧ ch.addedToLoop = false ∧ resets = 1) := by
  cases h with
  | idle => exact ⟨rfl, .inl ⟨rfl, rfl⟩⟩
  | attempt => exact absurd rfl hne
  | removed ch _ hadded => exact ⟨rfl, .inr ⟨ch, rfl, hadded, rfl⟩⟩

theorem Inv.attempt (h : Inv s) (hstate : s.connector.state = .connecting) :
    ∃ ch, s.connector.channel = some ch ∧ s.channels = [ch.fd] ∧ s.resets = 0 := by
  have hstage := h.stage
  rw [hstate] at hstage
  exact hstage.attempting

theorem Inv.channels (h : Inv s) (hstate : s.connector.state ≠ .connecting) : s.channels = [] :=
  (h.stage.resting hstate).1

theorem Inv.channel_eq_none (h : Inv s) (hstate : s.connector.state ≠ .connecting) :
    s.connector.channel = none ↔ s.resets = 0 := by
  rcases (h.stage.resting hstate).2 with ⟨hchannel, hresets⟩ | ⟨ch, hchannel, _, hresets⟩
  · simp [hchannel, hresets]
  · simp [hchannel, hresets]

theorem Inv.conn_eq_none (h : Inv s) (hstate : s.connector.state ≠ .connected) : s.conn = none := by
  cases hconn : s.conn with
  | none => rfl
  | some c => exact absurd (h.conn c hconn).1 hstate

theorem Inv.connActive_eq_none (h : Inv s) (hstate : s.connector.state ≠ .connected) : s.phase.connActive = none := by
  cases hactive : s.phase.connActive with
  | none => rfl
  | some c =>
    have hconn := (h.connActive c hactive).1
    rw [h.conn_eq_none hstate] at hconn
    cases hconn

/-! ### The functions of the connector -/

theorem Inv.started (h : Inv s) (hstate : s.connector.state = .disconnected) (hs : Started s s' o) : Inv s' := by
  have hconn := h.conn_eq_none (by rw [hstate]; decide)
  have hactive := h.connActive_eq_none (by rw [hstate]; decide)
  have hchannels := h.channels (by rw [hstate]; decide)
  have hidle : s.phase.connectorActive.isSome = false := by
    cases hsome : s.phase.connectorActive.isSome with
    | false => rfl
    | true =>
      have := h.active hsome
      rw [hstate] at this
      cases this
  have hnot : ∀ c, s.conn ≠ some c := by simp [hconn]
  have hnotActive : ∀ c, s.phase.connActive ≠ some c := by simp [hactive]
  cases hs with
  | off => exact h
  | begun _ hnone =>
    refine ⟨?_, fun c hc => absurd hc (hnot c), fun c _ _ hc => absurd hc (hnot c), h.known, h.inflight, h.pending,
      h.batch, fun hc => absurd hc (by simp [hidle]), fun c hc => absurd hc (hnotActive c)⟩
    have hresets := (h.channel_eq_none (by rw [hstate]; decide)).mp hnone
    show Stage .connecting (some (attemptChannel s.sockets)) _ s.resets
    rw [hresets, hchannels, if_neg (by simp)]
    exact .attempt (attemptChannel s.sockets)
  | retried delay =>
    refine ⟨?_, fun c hc => absurd hc (hnot c), fun c _ _ hc => absurd hc (hnot c), h.known, h.inflight, h.pending,
      h.batch, fun hc => absurd hc (by simp [hidle]), fun c hc => absurd hc (hnotActive c)⟩
    have hstage := h.stage
    rwa [hstate] at hstage
  | failed => exact ⟨h.stage, h.conn, h.order, h.known, h.inflight, h.pending, h.batch, h.active, h.connActive⟩

theorem resets_post : (s.queue.post f).waiting.count .resetChannel = s.resets + if f = .resetChannel then 1 else 0 := by
  rw [Mailbox.waiting_post, List.count_append, List.count_singleton]
  simp [resets]

/-- The channel of an attempt is removed. -/
theorem Inv.removed (h : Inv s) (hstate : s.connector.state = .connecting) (hchannel : s.connector.channel = some ch)
    (hphase : s.phase.handles = true) (hidle : s.phase.connectorActive = none) {c : Connector}
    (hc : c.state ≠ .connecting) : Inv (s.removed ch c) := by
  obtain ⟨ch', hch', hchannels, hresets⟩ := h.attempt hstate
  obtain rfl := Option.some.inj (hchannel.symm.trans hch')
  have hconn := h.conn_eq_none (by rw [hstate]; decide)
  have hactive := h.connActive_eq_none (by rw [hstate]; decide)
  have hnot : ∀ c, s.conn ≠ some c := by simp [hconn]
  refine ⟨?_, fun c hc => absurd hc (hnot c), fun c _ _ hc => absurd hc (hnot c), fun c hc => ?_, h.inflight,
    fun hne => absurd hne (by simp [TcpClient.removed, hphase]), h.batch, fun hsome => absurd hsome ?_, fun c hc => ?_⟩
  · have hone : (s.removed ch c).resets = 1 := by
      show (s.queue.post _).waiting.count _ = 1
      rw [resets_post, hresets]
      rfl
    have hempty : (s.removed ch c).channels = [] := by simp [TcpClient.removed, hchannels]
    rw [hone, hempty]
    exact .removed (detached ch) hc rfl
  · exact h.known c (by simpa [TcpClient.removed] using hc)
  · simp [TcpClient.removed, hidle]
  · have hsome : s.phase.connActive = some c := hc
    rw [hactive] at hsome
    cases hsome

theorem Inv.handled (h : Inv s) (hstate : s.connector.state = .connecting) (hchannel : s.connector.channel = some ch)
    (hphase : s.phase.handles = true) (hidle : s.phase.connectorActive = none) (hs : Handled s ch s' o) : Inv s' := by
  cases hs with
  | waiting => exact h
  | retried delay =>
    obtain ⟨hstage, hconn, horder, hknown, hinflight, hpending, hbatch, hactive, hconnActive⟩ :=
      h.removed hstate hchannel hphase hidle
        (c := {s.connector with state := .disconnected, retryDelayMs := delay}) (by simp)
    exact ⟨hstage, hconn, horder, hknown, hinflight, hpending, hbatch, hactive, hconnActive⟩
  | closed state _ hne => exact h.removed hstate hchannel hphase hidle hne
  | connected =>
    have hr := h.removed hstate hchannel hphase hidle (c := {s.connector with state := .connected}) (by simp)
    refine ⟨hr.stage, ?_, ?_, fun c hc => Nat.lt_succ_of_lt (hr.known c hc), hr.inflight, hr.pending, hr.batch,
      hr.active, ?_⟩
    · intro c hc
      obtain rfl := Option.some.inj hc
      exact ⟨rfl, Nat.lt_succ_self _⟩
    · -- no close of the new connection can be waiting yet
      intro c pre post hc hsplit
      obtain rfl := Option.some.inj hc
      have hmem : Functor.forceCloseInLoop s.nxtConnID ∈ s.queue.waiting := by
        have hin : Functor.forceCloseInLoop s.nxtConnID ∈ (s.queue.post .resetChannel).waiting := by
          rw [show (s.queue.post .resetChannel).waiting = _ from hsplit]
          exact List.mem_append_right _ List.mem_cons_self
        simpa using hin
      exact absurd (h.known _ (.inl hmem)) (Nat.lt_irrefl _)
    · intro c hc
      have hsome : s.phase.connActive = some c := hc
      rw [h.connActive_eq_none (by rw [hstate]; decide)] at hsome
      cases hsome

/-! ### The queue -/

/-- A functor other than `resetChannel`, that closes no connection to come, is queued. -/
theorem Inv.queued (h : Inv s) (hf : f ≠ .resetChannel) (hknown : ∀ c, f = .forceCloseInLoop c → c < s.nxtConnID)
    (own : Bool) : Inv (s.queueInLoop own f) := by
  cases own with
  | false =>
    refine ⟨h.stage, h.conn, h.order, fun c hc => ?_, ?_, h.pending, h.batch, h.active, h.connActive⟩
    · rcases hc with hc | hc
      · exact h.known c (.inl hc)
      · rcases List.mem_append.mp hc with hc | hc
        · exact h.known c (.inr hc)
        · exact hknown c (List.mem_singleton.mp hc).symm
    · intro hmem
      rcases List.mem_append.mp hmem with hmem | hmem
      · exact h.inflight hmem
      · exact hf (List.mem_singleton.mp hmem).symm
  | true =>
    have hresets : (s.queueInLoop true f).resets = s.resets := by
      show (s.queue.post f).waiting.count _ = _
      rw [resets_post, if_neg hf, Nat.add_zero]
    refine ⟨?_, h.conn, ?_, fun c hc => ?_, h.inflight, fun hphase hmem => ?_, h.batch, h.active, fun c hc => ?_⟩
    · rw [hresets]
      exact h.stage
    · intro c pre post hc hsplit hmem
      rw [show (s.queueInLoop true f).queue.waiting = s.queue.waiting ++ [f] from Mailbox.waiting_post _ _] at hsplit
      -- what is behind the close was behind it before, or it is `f`
      rcases List.eq_nil_or_concat post with rfl | ⟨post, g, rfl⟩
      · cases hmem
      · rw [List.concat_eq_append] at hmem hsplit
        have hcut : s.queue.waiting ++ [f] = (pre ++ .forceCloseInLoop c :: post) ++ [g] := by simpa using hsplit
        obtain ⟨hold, hg⟩ := List.append_inj' hcut rfl
        rcases List.mem_append.mp hmem with hmem | hmem
        · exact h.order c pre post hc hold hmem
        · exact hf ((List.cons.inj hg).1.trans (List.mem_singleton.mp hmem).symm)
    · rcases hc with hc | hc
      · rw [show (s.queueInLoop true f).queue.waiting = s.queue.waiting ++ [f] from Mailbox.waiting_post _ _] at hc
        rcases List.mem_append.mp hc with hc | hc
        · exact h.known c (.inl hc)
        · exact hknown c (List.mem_singleton.mp hc).symm
      · exact h.known c (.inr hc)
    · rcases List.mem_append.mp hmem with hmem | hmem
      · exact h.pending hphase hmem
      · exact hf (List.mem_singleton.mp hmem).symm
    · rw [hresets]
      exact h.connActive c hc

/-- What was behind the first functor keeps its order. -/
theorem Inv.order_popped (h : Inv s) {queue : Mailbox Functor} (hnext : s.queue.next = some (f, queue)) (c : Nat)
    (pre post : List Functor) (hc : s.conn = some c) (hsplit : queue.waiting = pre ++ .forceCloseInLoop c :: post) :
    .resetChannel ∉ post := by
  refine h.order c (f :: pre) post hc ?_
  rw [Mailbox.waiting_next hnext, hsplit]
  rfl

theorem Inv.known_popped (h : Inv s) {queue : Mailbox Functor} (hnext : s.queue.next = some (f, queue)) (c : Nat)
    (hc : .forceCloseInLoop c ∈ queue.waiting ∨ .forceCloseInLoop c ∈ s.inflight) : c < s.nxtConnID := by
  refine h.known c (hc.imp_left fun hc => ?_)
  rw [Mailbox.waiting_next hnext]
  exact List.mem_cons_of_mem _ hc

/-- A functor is taken off the queue to be run. -/
theorem Inv.popped (h : Inv s) {queue : Mailbox Functor} (hphase : s.phase = .functors)
    (hnext : s.queue.next = some (f, queue)) (hf : f ≠ .resetChannel) : Inv {s with queue := queue} := by
  have hwaiting := Mailbox.waiting_next hnext
  have hresets : resets {s with queue := queue} = s.resets := by
    show queue.waiting.count _ = s.queue.waiting.count _
    rw [hwaiting, List.count_cons_of_ne hf]
  refine ⟨?_, h.conn, h.order_popped hnext, h.known_popped hnext, h.inflight, fun hne => ?_,
    fun hne => absurd hphase hne, h.active, fun c hc => ?_⟩
  · rw [hresets]
    exact h.stage
  · rw [(Mailbox.next_eq_some hnext).2]
    exact h.pending hne
  · rw [hresets]
    exact h.connActive c hc

/-- `resetChannel` finds the channel that it was queued for. -/
theorem Inv.resetChannel (h : Inv s) {queue : Mailbox Functor} (hphase : s.phase = .functors)
    (hnext : s.queue.next = some (.resetChannel, queue)) (errno : ConnectErrno) :
    ∃ s' o, run {s with queue := queue} errno .resetChannel = some (s', o) ∧ Inv s' ∧
      s' = {s with queue := queue, connector := {s.connector with channel := none}} ∧
      ∃ ch, s.connector.channel = some ch ∧ o = [.connector (.destroyChannel ch.fd)] := by
  have hwaiting := Mailbox.waiting_next hnext
  have hresets : s.resets = resets {s with queue := queue} + 1 := by
    show s.queue.waiting.count _ = queue.waiting.count _ + 1
    rw [hwaiting, List.count_cons_self]
  have hne : s.connector.state ≠ .connecting := by
    intro hstate
    obtain ⟨_, _, _, hzero⟩ := h.attempt hstate
    omega
  obtain ⟨ch, hchannel, hadded, hone⟩ : ∃ ch, s.connector.channel = some ch ∧ ch.addedToLoop = false ∧ s.resets = 1 := by
    refine (h.stage.resting hne).2.resolve_left fun hnone => ?_
    omega
  have hchannels := h.channels hne
  have hgone : resets {s with queue := queue} = 0 := by omega
  refine ⟨_, [.connector (.destroyChannel ch.fd)], ?_, ?_, rfl, ch, hchannel, rfl⟩
  · simp [TcpClient.run, call, Connector.resetChannel, hchannel, hadded, performAll, perform, hchannels, assert]
  · refine ⟨?_, h.conn, h.order_popped hnext, h.known_popped hnext, h.inflight, fun hne => ?_,
      fun hne => absurd hphase hne, h.active, fun c hc => ⟨(h.connActive c hc).1, hgone⟩⟩
    · show Stage s.connector.state none s.channels (resets {s with queue := queue})
      rw [hgone, hchannels]
      exact .idle hne
    · rw [(Mailbox.next_eq_some hnext).2]
      exact h.pending hne

/-! ### The connection closes -/

/-- The client of a connector that is about to start again. -/
def restarting (s : TcpClient) : TcpClient :=
  {s with connector := {s.connector with state := .disconnected, retryDelayMs := initRetryDelayMs, connect_ := true}}

theorem Inv.closing (h : Inv s) {c : Nat} (hactive : s.phase.connActive = none) :
    Inv (queueInLoop {s with conn := none} true (.connDestroyed c)) := by
  have hclosed : Inv {s with conn := none} := by
    refine ⟨h.stage, ?_, ?_, h.known, h.inflight, h.pending, h.batch, h.active, ?_⟩
    · intro d hd
      cases hd
    · intro d pre post hd
      cases hd
    · intro d hd
      have hsome : s.phase.connActive = some d := hd
      rw [hactive] at hsome
      cases hsome
  exact hclosed.queued (by simp) (by simp) true

theorem Inv.restarting (h : Inv s) (hconn : s.conn = none) (hidle : s.phase.connectorActive = none)
    (hresets : s.resets = 0) (hne : s.connector.state ≠ .connecting) : Inv s.restarting := by
  have hnone := (h.channel_eq_none hne).mpr hresets
  have hnot : ∀ c, s.conn ≠ some c := by simp [hconn]
  refine ⟨?_, fun c hc => absurd hc (hnot c), fun c _ _ hc => absurd hc (hnot c), h.known, h.inflight, h.pending,
    h.batch, fun hsome => ?_, h.connActive⟩
  · show Stage .disconnected s.connector.channel s.channels s.resets
    rw [hnone, h.channels hne, hresets]
    exact .idle (by decide)
  · have hsome : s.phase.connectorActive.isSome = true := hsome
    rw [hidle] at hsome
    cases hsome

/-- The client after a connection has closed. -/
def closed (s : TcpClient) (c : Nat) : TcpClient := queueInLoop {s with conn := none} true (.connDestroyed c)

/-- `rmConn` does not fail. It may start the connector again. -/
theorem Inv.rmConn (h : Inv s) {c : Nat} (hconn : s.conn = some c) (hactive : s.phase.connActive = none)
    (hresets : s.resets = 0) (errno : ConnectErrno) :
    ∃ s' o, s.rmConn c errno = some (s', o) ∧ Inv s' ∧
      (s' = s.closed c ∧ o = [] ∨ ∃ o', Started (s.closed c).restarting s' o' ∧ o = .start :: o') := by
  have hstate := (h.conn c hconn).1
  have hclosed : Inv (s.closed c) := h.closing hactive
  by_cases hretry : s.retry_ = true ∧ s.connect_ = true
  · have hidle : s.phase.connectorActive = none := by
      cases hsome : s.phase.connectorActive with
      | none => rfl
      | some revents =>
        have := h.active (by simp [hsome])
        rw [hstate] at this
        cases this
    have hzero : (s.closed c).resets = 0 := by
      show (s.queue.post _).waiting.count _ = 0
      rw [resets_post, hresets]
      rfl
    have hrestart : Inv (s.closed c).restarting :=
      hclosed.restarting rfl hidle hzero (by rw [show (s.closed c).connector.state = _ from hstate]; decide)
    have hnone : (s.closed c).restarting.connector.channel = none :=
      (hrestart.channel_eq_none (by simp [TcpClient.restarting])).mpr hzero
    have hsome : ((s.closed c).restarting.startInLoop errno).isSome = true :=
      isSome_startInLoop.mpr ⟨rfl, fun _ _ => hnone⟩
    obtain ⟨⟨s', o⟩, hstart⟩ := Option.isSome_iff_exists.mp hsome
    obtain ⟨hdisconnected, hstarted⟩ := startInLoop_cases hstart
    refine ⟨s', .start :: o, ?_, hrestart.started hdisconnected hstarted, .inr ⟨o, hstarted, rfl⟩⟩
    have hcall : (s.closed c).call ((s.closed c).connector.restart (s.closed c).sockets errno) = some (s', o) := hstart
    have hif : (s.closed c).retry_ = true ∧ (s.closed c).connect_ = true := hretry
    simp only [TcpClient.rmConn, assert, if_pos hconn, Option.bind_eq_bind, Option.bind_some]
    rw [show queueInLoop {s with conn := none} true (.connDestroyed c) = s.closed c from rfl, if_pos hif, hcall]
    rfl
  · refine ⟨s.closed c, [], ?_, hclosed, .inl ⟨rfl, rfl⟩⟩
    have hif : ¬ ((s.closed c).retry_ = true ∧ (s.closed c).connect_ = true) := hretry
    simp only [TcpClient.rmConn, assert, if_pos hconn, Option.bind_eq_bind, Option.bind_some]
    rw [show queueInLoop {s with conn := none} true (.connDestroyed c) = s.closed c from rfl, if_neg hif]

end Chtho.Net.TcpClient
