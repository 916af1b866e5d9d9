import Chtho.Net.TcpClient

/-! What the functions of a connector can do to its client, said once.

An attempt starts or not (`Started`), and the events of its channel end it or not
(`Handled`). Nothing else of the connector touches its channel, but for
`resetChannel` and a `stopInLoop` that finds the state disconnected. -/
namespace Chtho.Net.TcpClient
open Lib Connector

variable {s s' : TcpClient} {o : List Event} {errno : ConnectErrno}

/-! ### Starting -/

/-- The channel of a new attempt. -/
def attemptChannel (fd : Nat) : Channel := (Channel.create fd).enableWrite

@[simp] theorem attemptChannel_fd (fd : Nat) : (attemptChannel fd).fd = fd := rfl

/-- What `startInLoop` does in state disconnected. -/
inductive Started (s : TcpClient) : TcpClient → List Event → Prop where
  | off : s.connector.connect_ = false → Started s s []
  | begun : s.connector.connect_ = true → s.connector.channel = none →
      Started s
        {s with
          connector := {s.connector with state := .connecting, channel := some (attemptChannel s.sockets)}
          channels := if s.sockets ∈ s.channels then s.channels else s.channels ++ [s.sockets]
          sockets := s.sockets + 1}
        [.connector (.connect s.sockets), .connector (.updateChannel s.sockets)]
  | retried (delay : Nat) : s.connector.connect_ = true →
      Started s
        {s with
          connector := {s.connector with state := .disconnected, retryDelayMs := delay}
          timers := s.timers + 1
          sockets := s.sockets + 1}
        [.connector (.connect s.sockets), .connector (.close s.sockets), .connector (.runAfter s.connector.retryDelayMs)]
  | failed : s.connector.connect_ = true →
      Started s {s with sockets := s.sockets + 1} [.connector (.connect s.sockets), .connector (.close s.sockets)]

theorem startInLoop_begun (hstate : s.connector.state = .disconnected) (hconnect : s.connector.connect_ = true)
    (h : errno.begun = true) :
    s.startInLoop errno = if s.connector.channel = none then
      some ({s with
          connector := {s.connector with state := .connecting, channel := some (attemptChannel s.sockets)}
          channels := if s.sockets ∈ s.channels then s.channels else s.channels ++ [s.sockets]
          sockets := s.sockets + 1},
        [.connector (.connect s.sockets), .connector (.updateChannel s.sockets)])
      else none := by
  have hcall : s.startInLoop errno = s.call (s.connector.connecting s.sockets >>= fun r =>
      some (r.1, .connect s.sockets :: r.2)) := by
    unfold TcpClient.startInLoop Connector.startInLoop
    rw [hstate, assert_bind, if_pos rfl, hconnect, if_pos rfl]
    cases errno
    case none | EINPROGRESS | EINTR | EISCONN => simp [Connector.connect]
    all_goals cases h
  rw [hcall]
  unfold Connector.connecting
  by_cases hchannel : s.connector.channel = none
  · simp [hchannel, call, performAll, perform, attemptChannel]
  · simp [hchannel, call]

/-- Where `connect(2)` is not in progress, the attempt is over at once. -/
theorem startInLoop_over (hstate : s.connector.state = .disconnected) (hconnect : s.connector.connect_ = true)
    (h : errno.begun = false) : ∃ s' o, s.startInLoop errno = some (s', o) ∧ Started s s' o := by
  unfold TcpClient.startInLoop Connector.startInLoop
  rw [hstate, assert_bind, if_pos rfl, hconnect, if_pos rfl]
  cases errno
  case none | EINPROGRESS | EINTR | EISCONN => cases h
  case EAGAIN | EADDRINUSE | EADDRNOTAVAIL | ECONNREFUSED | ENETUNREACH =>
    refine ⟨_, _, ?_, .retried (min (s.connector.retryDelayMs * 2) maxRetryDelayMs) hconnect⟩
    simp [Connector.connect, retry, hconnect, call, performAll, perform]
  all_goals
    refine ⟨_, _, ?_, .failed hconnect⟩
    simp [Connector.connect, call, performAll, perform]

theorem startInLoop_off (hstate : s.connector.state = .disconnected) (hconnect : s.connector.connect_ = false) :
    s.startInLoop errno = some (s, []) := by
  simp [TcpClient.startInLoop, Connector.startInLoop, hstate, hconnect, call, performAll]

theorem startInLoop_none (hstate : s.connector.state ≠ .disconnected) : s.startInLoop errno = none := by
  simp [TcpClient.startInLoop, Connector.startInLoop, hstate, call]

/-- A start that does not fail. -/
theorem startInLoop_cases (h : s.startInLoop errno = some (s', o)) :
    s.connector.state = .disconnected ∧ Started s s' o := by
  by_cases hstate : s.connector.state = .disconnected
  case neg =>
    rw [startInLoop_none hstate] at h
    cases h
  refine ⟨hstate, ?_⟩
  cases hconnect : s.connector.connect_ with
  | false =>
    rw [startInLoop_off hstate hconnect] at h
    obtain ⟨rfl, rfl⟩ := Prod.mk.inj (Option.some.inj h)
    exact .off hconnect
  | true =>
    cases hbegun : errno.begun with
    | true =>
      rw [startInLoop_begun hstate hconnect hbegun] at h
      split at h
      case isFalse => cases h
      case isTrue hchannel =>
        obtain ⟨rfl, rfl⟩ := Prod.mk.inj (Option.some.inj h)
        exact .begun hconnect hchannel
    | false =>
      obtain ⟨t, o', heq, hstarted⟩ := startInLoop_over hstate hconnect hbegun
      obtain ⟨rfl, rfl⟩ := Prod.mk.inj (Option.some.inj (heq.symm.trans h))
      exact hstarted

/-- A `connect` that does not fail. -/
theorem connect_cases (hs : s.step (.connect errno) = some (s', o)) :
    s.connector.state = .disconnected ∧ ∃ o', o = .start :: o' ∧
      Started {s with connect_ := true, connector := {s.connector with connect_ := true}} s' o' := by
  simp only [TcpClient.step, TcpClient.connect, Option.bind_eq_bind, Option.bind_eq_some_iff, Prod.exists] at hs
  obtain ⟨t, o', hstart, hs⟩ := hs
  obtain ⟨rfl, rfl⟩ := Prod.mk.inj (Option.some.inj hs)
  obtain ⟨hstate, hstarted⟩ := startInLoop_cases hstart
  exact ⟨hstate, o', rfl, hstarted⟩

/-- The functor that is next is run. -/
theorem func_cases (hs : s.step (.func errno) = some (s', o)) :
    ∃ f queue, s.queue.next = some (f, queue) ∧ run {s with queue := queue} errno f = some (s', o) := by
  simp only [TcpClient.step, Option.bind_eq_bind, Option.bind_eq_some_iff, Prod.exists] at hs
  exact hs

/-- When a start does not fail. -/
theorem isSome_startInLoop :
    (s.startInLoop errno).isSome = true ↔
      s.connector.state = .disconnected ∧
        (s.connector.connect_ = true → errno.begun = true → s.connector.channel = none) := by
  by_cases hstate : s.connector.state = .disconnected
  case neg => simp [startInLoop_none hstate, hstate]
  cases hconnect : s.connector.connect_ with
  | false => simp [startInLoop_off hstate hconnect, hstate]
  | true =>
    cases hbegun : errno.begun with
    | true =>
      rw [startInLoop_begun hstate hconnect hbegun]
      split <;> simp_all
    | false =>
      obtain ⟨t, o', heq, -⟩ := startInLoop_over hstate hconnect hbegun
      simp [heq, hstate]

/-! ### The end of an attempt -/

/-- The channel of an attempt that is over. -/
def detached (ch : Channel) : Channel := {ch.disableAll with addedToLoop := false}

@[simp] theorem detached_fd (ch : Channel) : (detached ch).fd = ch.fd := rfl

/-- The client of a connector whose channel is removed and has its reset queued. -/
def removed (s : TcpClient) (ch : Channel) (connector : Connector) : TcpClient :=
  {s with
    connector := {connector with channel := some (detached ch)}
    channels := s.channels.filter (· ≠ ch.fd)
    queue := s.queue.post .resetChannel}

/-- The calls of the poller that remove the channel. -/
def removal (ch : Channel) : List Connector.Effect :=
  [.updateChannel ch.fd, .removeChannel ch.fd, .queueResetChannel]

theorem removeAndResetChannel_eq {c : Connector} {ch : Channel} (h : c.channel = some ch) :
    c.removeAndResetChannel = some (ch.fd, {c with channel := some (detached ch)}, removal ch) := by
  simp [removeAndResetChannel, h, Channel.remove, detached, removal, assert, Channel.disableAll, Channel.setEvents,
    Channel.isNoneEvent]

/-- The effects of a removal, and then what `es` does. The update enters the channel if it
is not in the poller. -/
theorem call_removal (ch : Channel) (c : Connector) (es : List Connector.Effect) :
    s.call (some ({c with channel := some (detached ch)}, removal ch ++ es)) =
      (performAll (s.removed ch c) es).map fun s => (s, (removal ch ++ es).map .connector) := by
  have hmem : ch.fd ∈ if ch.fd ∈ s.channels then s.channels else s.channels ++ [ch.fd] := by
    split
    case isTrue h => exact h
    case isFalse => simp
  have hfilter : (if ch.fd ∈ s.channels then s.channels else s.channels ++ [ch.fd]).filter (· ≠ ch.fd) =
      s.channels.filter (· ≠ ch.fd) := by
    split
    · rfl
    · simp [List.filter_append]
  simp only [call, removal, List.cons_append, List.nil_append, performAll, perform, queueInLoop, Option.bind_eq_bind,
    Option.bind_some, assert, if_pos hmem, hfilter]
  rw [Option.map_eq_bind]
  rfl

/-- The effects of the connector among what is recorded. -/
def seen (es : List Connector.Effect) : List Event := es.map .connector

/-- What the events of the channel `ch` of an attempt do. -/
inductive Handled (s : TcpClient) (ch : Channel) : TcpClient → List Event → Prop where
  | waiting : Handled s ch s []
  | retried (delay : Nat) : s.connector.connect_ = true →
      Handled s ch
        {s.removed ch {s.connector with state := .disconnected, retryDelayMs := delay} with timers := s.timers + 1}
        (seen (removal ch ++ [.close ch.fd, .runAfter s.connector.retryDelayMs]))
  | closed (state : State) : s.connector.connect_ = false → state ≠ .connecting →
      Handled s ch (s.removed ch {s.connector with state := state})
        (seen (removal ch ++ [.close ch.fd]))
  | connected : s.connector.connect_ = true →
      Handled s ch (s.removed ch {s.connector with state := .connected}).newConn
        (seen (removal ch ++ [.newConnCB ch.fd]))

/-- The connector after an attempt that failed. -/
def retried (c : Connector) (ch : Channel) : Connector × List Connector.Effect :=
  ((retry {c with channel := some (detached ch)} ch.fd).1, removal ch ++ (retry {c with channel := some (detached ch)} ch.fd).2)

theorem state_retried (c : Connector) (ch : Channel) : (retried c ch).1.state = .disconnected := by
  unfold retried retry
  split <;> rfl

/-- In state disconnected the callbacks do nothing. -/
theorem handleEvents_disconnected {c : Connector} (h : c.state = .disconnected) (outcome : Outcome) (hs : List Handler) :
    c.handleEvents outcome hs = some (c, []) := by
  induction hs with
  | nil => rfl
  | cons handler hs ih => cases handler <;> simp [handleEvents, handleEvent, handleWrite, handleError, h, ih]

/-- In state connecting, a list of callbacks with the one for writing at its end ends the
attempt at most once. -/
theorem handleEvents_connecting {c : Connector} {ch : Channel} (hstate : c.state = .connecting)
    (hchannel : c.channel = some ch) (outcome : Outcome) {hs : List Handler} (hlast : .write ∉ hs.dropLast) :
    c.handleEvents outcome hs = some (c, []) ∨ c.handleEvents outcome hs = some (retried c ch) ∨
      c.handleEvents outcome hs = some ({c with state := .connected, channel := some (detached ch)},
        removal ch ++ if c.connect_ then [.newConnCB ch.fd] else [.close ch.fd]) := by
  induction hs with
  | nil => exact .inl rfl
  | cons handler hs ih =>
    have htail : .write ∉ hs.dropLast := fun hmem => hlast (by cases hs <;> simp_all)
    cases handler with
    | close | read =>
      rcases ih htail with heq | heq | heq
      all_goals simp [handleEvents, handleEvent, heq]
    | error =>
      have hrest := handleEvents_disconnected (state_retried c ch) outcome hs
      have herror : c.handleError = some (retried c ch) := by
        simp [handleError, hstate, removeAndResetChannel_eq hchannel, retried]
      right; left
      simp [handleEvents, handleEvent, herror, hrest]
    | write =>
      -- nothing comes behind it
      obtain rfl : hs = [] := by
        cases hs with
        | nil => rfl
        | cons => simp at hlast
      right
      by_cases hbad : outcome.err ≠ 0 ∨ outcome.selfConnect = true
      · left
        simp [handleEvents, handleEvent, handleWrite, hstate, removeAndResetChannel_eq hchannel, hbad, retried]
      · right
        simp [handleEvents, handleEvent, handleWrite, hstate, removeAndResetChannel_eq hchannel, hbad]

theorem write_notMem_dropLast (revents : Mask) : .write ∉ (Channel.handlers revents).dropLast := by
  unfold Channel.handlers
  have hmem : .write ∉ (if revents &&& POLLHUP ≠ 0 ∧ revents &&& POLLIN = 0 then [Handler.close] else []) ++
      (if revents &&& (POLLERR ||| POLLNVAL) ≠ 0 then [.error] else []) ++
      (if revents &&& (POLLIN ||| POLLPRI ||| POLLRDHUP) ≠ 0 then [.read] else []) := by
    simp only [List.mem_append, not_or]
    refine ⟨⟨?_, ?_⟩, ?_⟩
    all_goals split <;> simp
  generalize (_ ++ _ ++ _ : List Handler) = pre at hmem
  split
  · simpa using hmem
  · rw [List.append_nil]
    exact fun h => hmem (List.mem_of_mem_dropLast h)

/-- The events of an attempt's channel do not fail. -/
theorem handleEvents_spec {ch : Channel} (hstate : s.connector.state = .connecting)
    (hchannel : s.connector.channel = some ch) (outcome : Outcome) (revents : Mask) :
    ∃ s' o, s.call (s.connector.handleEvents outcome (Channel.handlers revents)) = some (s', o) ∧ Handled s ch s' o := by
  rcases handleEvents_connecting hstate hchannel outcome (write_notMem_dropLast revents) with heq | heq | heq
  · exact ⟨s, [], by simp [heq, call, performAll], .waiting⟩
  · rw [heq]
    by_cases hconnect : s.connector.connect_ = true
    · refine ⟨_, _, ?_, .retried (min (s.connector.retryDelayMs * 2) maxRetryDelayMs) hconnect⟩
      rw [retried, retry, if_pos hconnect]
      exact call_removal ch {s.connector with state := _, retryDelayMs := _} _
    · refine ⟨_, _, ?_, .closed .disconnected (Bool.not_eq_true _ ▸ hconnect) (by decide)⟩
      rw [retried, retry, if_neg hconnect]
      exact call_removal ch {s.connector with state := _} _
  · rw [heq]
    by_cases hconnect : s.connector.connect_ = true
    · rw [if_pos hconnect]
      exact ⟨_, _, call_removal ch {s.connector with state := .connected} _, .connected hconnect⟩
    · rw [if_neg hconnect]
      exact ⟨_, _, call_removal ch {s.connector with state := .connected} _,
        .closed _ (Bool.not_eq_true _ ▸ hconnect) (by decide)⟩

end Chtho.Net.TcpClient
