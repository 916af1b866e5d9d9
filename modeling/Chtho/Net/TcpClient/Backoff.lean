import Chtho.Net.TcpClient

/-! How long a client waits before it tries again.

The connector doubles its delay with every retry, up to 30 seconds, and `restart` sets it back.
Only the end of a connection restarts the connector, and a connection is the only thing that ends
a row of retries: whatever starts and stops the client in between, in whatever thread, the delay
of a retry is told by how many there have been since the last connection. -/
namespace Chtho.Net.TcpClient
open Lib Connector

/-- The delay after so many retries. -/
def backoff (k : Nat) : Nat := min (initRetryDelayMs * 2 ^ k) maxRetryDelayMs

def count (k : Nat) : Event → Nat
  | .connector (.runAfter _) => k + 1
  | .connector (.newConnCB _) => 0
  | _ => k

/-- How often a retry was set up since the last connection. -/
def retries (obs : List Event) : Nat := obs.foldl count 0

/-- Each delay is what it should be, after `k` retries. -/
def Law : Nat → List Event → Prop
  | _, [] => True
  | k, e :: obs => (∀ delayMs, e = .connector (.runAfter delayMs) → delayMs = backoff k) ∧ Law (count k e) obs

theorem law_append {k : Nat} {obs o : List Event} : Law k (obs ++ o) ↔ Law k obs ∧ Law (obs.foldl count k) o := by
  induction obs generalizing k with
  | nil => simp [Law]
  | cons e obs ih => simp [Law, ih, and_assoc]

theorem retries_append (obs o : List Event) : retries (obs ++ o) = o.foldl count (retries obs) := List.foldl_append

theorem backoff_succ (k : Nat) : min (backoff k * 2) maxRetryDelayMs = backoff (k + 1) := by
  unfold backoff
  rw [Nat.pow_succ, ← Nat.mul_assoc]
  generalize initRetryDelayMs * 2 ^ k = delay
  omega

/-! ### The connector -/

/-- What a function of the connector does to the delays, after `k` retries. -/
structure Paced (k : Nat) (c : Connector) (es : List Effect) (c' : Connector) : Prop where
  law : Law k (es.map .connector)
  delay : c'.state ≠ .connected → c'.retryDelayMs = backoff ((es.map Event.connector).foldl count k)
  /-- A connection is the end of the retries. -/
  made : ∀ fd, .newConnCB fd ∈ es → c'.state = .connected ∧ (es.map Event.connector).foldl count k = 0
  /-- With a connection there are none. -/
  still : c.state = .connected → c'.state = .connected ∧ (es.map Event.connector).foldl count k = k

variable {k : Nat} {c c' c'' : Connector} {es es' : List Effect}

theorem Paced.trans (h : Paced k c es c') (h' : Paced ((es.map Event.connector).foldl count k) c' es' c'') :
    Paced k c (es ++ es') c'' where
  law := by
    rw [List.map_append]
    exact law_append.mpr ⟨h.law, h'.law⟩
  delay := by
    rw [List.map_append, List.foldl_append]
    exact h'.delay
  made := by
    rw [List.map_append, List.foldl_append]
    intro fd hfd
    rcases List.mem_append.mp hfd with hfd | hfd
    · obtain ⟨hstate, hzero⟩ := h.made fd hfd
      obtain ⟨hstate', hsame⟩ := h'.still hstate
      exact ⟨hstate', hsame.trans hzero⟩
    · exact h'.made fd hfd
  still := by
    rw [List.map_append, List.foldl_append]
    intro hstate
    obtain ⟨hstate', hsame⟩ := h.still hstate
    obtain ⟨hstate'', hsame'⟩ := h'.still hstate'
    exact ⟨hstate'', hsame'.trans hsame⟩

/-- Effects that are no retry and no connection. -/
def Neutral (es : List Effect) : Prop :=
  ∀ e ∈ es, ∀ k, count k (.connector e) = k ∧ ∀ delayMs, e ≠ .runAfter delayMs

theorem Neutral.foldl (h : Neutral es) (k : Nat) : (es.map Event.connector).foldl count k = k := by
  induction es with
  | nil => rfl
  | cons e es ih =>
    obtain ⟨he, hes⟩ := List.forall_mem_cons.mp h
    rw [List.map_cons, List.foldl_cons, (he k).1, ih hes]

theorem Neutral.law (h : Neutral es) (k : Nat) : Law k (es.map .connector) := by
  induction es with
  | nil => trivial
  | cons e es ih =>
    obtain ⟨he, hes⟩ := List.forall_mem_cons.mp h
    refine ⟨fun delayMs heq => absurd (Event.connector.inj heq) ((he k).2 delayMs), ?_⟩
    rw [(he k).1]
    exact ih hes

/-- A function that does not touch the delay. -/
theorem Neutral.paced (h : Neutral es) (hdelay : c.state ≠ .connected → c.retryDelayMs = backoff k)
    (hstate : c'.state = c.state ∨ c.state ≠ .connected) (hsame : c'.retryDelayMs = c.retryDelayMs) :
    Paced k c es c' where
  law := h.law k
  delay := fun hne => by
    rw [h.foldl, hsame]
    refine hdelay ?_
    rcases hstate with hstate | hstate
    · rwa [← hstate]
    · exact hstate
  made := fun fd hfd => by
    have hzero := (h _ hfd 1).1
    cases hzero
  still := fun hconnected => ⟨(hstate.resolve_right (not_not_intro hconnected)).trans hconnected, h.foldl k⟩

theorem paced_retry (hstate : c.state ≠ .connected) (hdelay : c.retryDelayMs = backoff k) (sockfd : Nat) :
    Paced k c (c.retry sockfd).2 (c.retry sockfd).1 := by
  unfold retry
  split
  · refine ⟨by simp [Law, count, hdelay], fun _ => ?_, by simp, fun hconnected => absurd hconnected hstate⟩
    simp only [hdelay, backoff_succ]
    rfl
  · refine ⟨by simp [Law], fun _ => hdelay, by simp, fun hconnected => absurd hconnected hstate⟩

theorem removeAndResetChannel_cases {fd : Nat} (h : c.removeAndResetChannel = some (fd, c', es)) :
    c'.state = c.state ∧ c'.retryDelayMs = c.retryDelayMs ∧ c'.connect_ = c.connect_ ∧ Neutral es := by
  simp only [removeAndResetChannel, Option.bind_eq_bind, Option.bind_eq_some_iff, Option.some.injEq,
    Prod.mk.injEq] at h
  obtain ⟨_, -, _, -, -, rfl, rfl⟩ := h
  exact ⟨rfl, rfl, rfl, by simp [Neutral, count]⟩

/-- The end of an attempt that is tried again. -/
theorem paced_retry_removed {fd : Nat} (hstate : c.state ≠ .connected) (hdelay : c.retryDelayMs = backoff k)
    (h : c.removeAndResetChannel = some (fd, c', es)) : Paced k c (es ++ (c'.retry fd).2) (c'.retry fd).1 := by
  obtain ⟨hsame, hdelay', -, hplain⟩ := removeAndResetChannel_cases h
  refine (hplain.paced (fun _ => hdelay) (.inl hsame) hdelay').trans ?_
  rw [hplain.foldl]
  exact paced_retry (hsame ▸ hstate) (hdelay'.trans hdelay) fd

theorem paced_nil (hdelay : c.state ≠ .connected → c.retryDelayMs = backoff k) : Paced k c [] c :=
  Neutral.paced (by simp [Neutral]) hdelay (.inl rfl) rfl

/-- The attempt has succeeded. -/
theorem paced_connected (hne : c.state ≠ .connected) (sockfd : Nat) :
    Paced k c (if c.connect_ then [.newConnCB sockfd] else [.close sockfd]) {c with state := .connected} := by
  split
  all_goals exact ⟨by simp [Law], fun h => absurd rfl h, by simp [count], fun h => absurd h hne⟩

theorem paced_handleWrite {outcome : Outcome} (hdelay : c.state ≠ .connected → c.retryDelayMs = backoff k)
    (h : c.handleWrite outcome = some (c', es)) : Paced k c es c' := by
  unfold handleWrite at h
  split at h
  case isTrue hconnecting =>
    have hne : c.state ≠ .connected := by simp [hconnecting]
    obtain ⟨⟨fd, c₁, es₁⟩, hremoved, h⟩ := Option.bind_eq_some_iff.mp h
    dsimp only at h
    split at h
    case isTrue =>
      obtain ⟨rfl, rfl⟩ := Prod.mk.inj (Option.some.inj h)
      exact paced_retry_removed hne (hdelay hne) hremoved
    case isFalse =>
      obtain ⟨rfl, rfl⟩ := Prod.mk.inj (Option.some.inj h)
      obtain ⟨hsame, hdelay', -, hplain⟩ := removeAndResetChannel_cases hremoved
      exact (hplain.paced hdelay (.inl hsame) hdelay').trans (paced_connected (hsame ▸ hne) fd)
  case isFalse =>
    obtain ⟨-, h⟩ := assert_bind_eq_some_iff.mp h
    obtain ⟨rfl, rfl⟩ := Prod.mk.inj (Option.some.inj h)
    exact paced_nil hdelay

theorem paced_handleError (hdelay : c.state ≠ .connected → c.retryDelayMs = backoff k)
    (h : c.handleError = some (c', es)) : Paced k c es c' := by
  unfold handleError at h
  split at h
  case isTrue hconnecting =>
    have hne : c.state ≠ .connected := by simp [hconnecting]
    obtain ⟨⟨fd, c₁, es₁⟩, hremoved, h⟩ := Option.bind_eq_some_iff.mp h
    obtain ⟨rfl, rfl⟩ := Prod.mk.inj (Option.some.inj h)
    exact paced_retry_removed hne (hdelay hne) hremoved
  case isFalse =>
    obtain ⟨rfl, rfl⟩ := Prod.mk.inj (Option.some.inj h)
    exact paced_nil hdelay

theorem paced_handleEvents {outcome : Outcome} {hs : List Handler}
    (hdelay : c.state ≠ .connected → c.retryDelayMs = backoff k) (h : c.handleEvents outcome hs = some (c', es)) :
    Paced k c es c' := by
  induction hs generalizing c k es with
  | nil =>
    obtain ⟨rfl, rfl⟩ := Prod.mk.inj (Option.some.inj h)
    exact paced_nil hdelay
  | cons handler hs ih =>
    obtain ⟨⟨c₁, es₁⟩, hfirst, h⟩ := Option.bind_eq_some_iff.mp h
    obtain ⟨⟨c₂, es₂⟩, hrest, h⟩ := Option.bind_eq_some_iff.mp h
    obtain ⟨rfl, rfl⟩ := Prod.mk.inj (Option.some.inj h)
    have hpaced : Paced k c es₁ c₁ := by
      cases handler with
      | write => exact paced_handleWrite hdelay hfirst
      | error => exact paced_handleError hdelay hfirst
      | close | read =>
        obtain ⟨rfl, rfl⟩ := Prod.mk.inj (Option.some.inj hfirst)
        exact paced_nil hdelay
    exact hpaced.trans (ih hpaced.delay hrest)

theorem paced_startInLoop {sockfd : Nat} {errno : ConnectErrno}
    (hdelay : c.state ≠ .connected → c.retryDelayMs = backoff k)
    (h : c.startInLoop sockfd errno = some (c', es)) : Paced k c es c' := by
  obtain ⟨hstate, h⟩ := assert_bind_eq_some_iff.mp h
  have hne : c.state ≠ .connected := by simp [hstate]
  split at h
  case isFalse =>
    obtain ⟨rfl, rfl⟩ := Prod.mk.inj (Option.some.inj h)
    exact paced_nil hdelay
  case isTrue =>
    unfold Connector.connect at h
    split at h
    case h_1 | h_2 | h_3 | h_4 =>
      -- the attempt is in progress
      obtain ⟨⟨c₁, es₁⟩, hconnecting, h⟩ := Option.bind_eq_some_iff.mp h
      obtain ⟨-, hconnecting⟩ := assert_bind_eq_some_iff.mp hconnecting
      obtain ⟨rfl, rfl⟩ := Prod.mk.inj (Option.some.inj hconnecting)
      obtain ⟨rfl, rfl⟩ := Prod.mk.inj (Option.some.inj h)
      exact Neutral.paced (by simp [Neutral, count]) hdelay (.inr hne) rfl
    case h_5 | h_6 | h_7 | h_8 | h_9 =>
      -- it has failed, and is tried again
      obtain ⟨rfl, rfl⟩ := Prod.mk.inj (Option.some.inj h)
      have hneutral : Neutral [.connect sockfd] := by simp [Neutral, count]
      exact (hneutral.paced hdelay (.inl rfl) rfl).trans (paced_retry hne (hdelay hne) sockfd)
    all_goals
      obtain ⟨rfl, rfl⟩ := Prod.mk.inj (Option.some.inj h)
      exact Neutral.paced (by simp [Neutral, count]) hdelay (.inl rfl) rfl

theorem paced_resetChannel (hdelay : c.state ≠ .connected → c.retryDelayMs = backoff k)
    (h : c.resetChannel = some (c', es)) : Paced k c es c' := by
  unfold Connector.resetChannel at h
  split at h
  case h_1 =>
    obtain ⟨rfl, rfl⟩ := Prod.mk.inj (Option.some.inj h)
    exact paced_nil hdelay
  case h_2 =>
    obtain ⟨-, h⟩ := assert_bind_eq_some_iff.mp h
    obtain ⟨rfl, rfl⟩ := Prod.mk.inj (Option.some.inj h)
    exact Neutral.paced (by simp [Neutral, count]) hdelay (.inl rfl) rfl

theorem paced_stopInLoop (hdelay : c.state ≠ .connected → c.retryDelayMs = backoff k)
    (h : c.stopInLoop = some (c', es)) : Paced k c es c' := by
  unfold Connector.stopInLoop at h
  split at h
  case isTrue hdisconnected =>
    have hne : c.state ≠ .connected := by simp [hdisconnected]
    obtain ⟨⟨fd, c₁, es₁⟩, hremoved, h⟩ := Option.bind_eq_some_iff.mp h
    obtain ⟨rfl, rfl⟩ := Prod.mk.inj (Option.some.inj h)
    have hsame : {c with state := .disconnected} = c := by rw [← hdisconnected]
    exact paced_retry_removed hne (hdelay hne) (hsame ▸ hremoved)
  case isFalse =>
    obtain ⟨rfl, rfl⟩ := Prod.mk.inj (Option.some.inj h)
    exact paced_nil hdelay

/-! ### The client -/

variable {s s' t : TcpClient} {obs o : List Event}

/-- What is known of the delays. -/
structure Pacing (obs : List Event) (s : TcpClient) : Prop where
  law : Law 0 obs
  delay : s.connector.state ≠ .connected → s.connector.retryDelayMs = backoff (retries obs)
  /-- There is no retry while there is a connection. -/
  conn : s.conn.isSome = true → s.connector.state = .connected ∧ retries obs = 0

/-- Nothing of it is touched. -/
theorem Pacing.same (h : Pacing obs s) (ho : ∀ e ∈ o, e = .start ∨ e = .stop ∨ e = .stopInLoop)
    (hstate : s'.connector.state = s.connector.state) (hdelay : s'.connector.retryDelayMs = s.connector.retryDelayMs)
    (hconn : s'.conn = s.conn ∨ s'.conn = none) : Pacing (obs ++ o) s' := by
  have hquiet : ∀ k, o.foldl count k = k ∧ Law k o := by
    intro k
    induction o with
    | nil => exact ⟨rfl, trivial⟩
    | cons e o ih =>
      obtain ⟨he, hrest⟩ := List.forall_mem_cons.mp ho
      obtain ⟨hfold, hlaw⟩ := ih hrest
      rcases he with rfl | rfl | rfl
      all_goals exact ⟨hfold, by simp, hlaw⟩
  refine ⟨law_append.mpr ⟨h.law, (hquiet _).2⟩, ?_, ?_⟩
  · rw [hstate, hdelay, retries_append, (hquiet _).1]
    exact h.delay
  · rw [hstate, retries_append, (hquiet _).1]
    intro hsome
    rcases hconn with hconn | hconn
    · exact h.conn (hconn ▸ hsome)
    · rw [hconn] at hsome
      cases hsome

theorem performAll_cases {es : List Effect} (h : performAll s es = some s') :
    s'.connector = s.connector ∧ (s'.conn = s.conn ∨ ∃ fd, .newConnCB fd ∈ es) := by
  induction es generalizing s with
  | nil =>
    obtain rfl := Option.some.inj h
    exact ⟨rfl, .inl rfl⟩
  | cons e es ih =>
    obtain ⟨t, hfirst, hrest⟩ := Option.bind_eq_some_iff.mp h
    obtain ⟨hconnector, hconn⟩ := ih hrest
    have hstep : t.connector = s.connector ∧ (t.conn = s.conn ∨ ∃ fd, e = .newConnCB fd) := by
      cases e with
      | connect | updateChannel | close | runAfter =>
        obtain rfl := Option.some.inj hfirst
        exact ⟨rfl, .inl rfl⟩
      | queueResetChannel =>
        obtain rfl := Option.some.inj hfirst
        exact ⟨rfl, .inl rfl⟩
      | removeChannel | destroyChannel =>
        obtain ⟨-, hfirst⟩ := assert_bind_eq_some_iff.mp hfirst
        obtain rfl := Option.some.inj hfirst
        exact ⟨rfl, .inl rfl⟩
      | newConnCB fd =>
        obtain rfl := Option.some.inj hfirst
        exact ⟨rfl, .inr ⟨fd, rfl⟩⟩
    refine ⟨hconnector.trans hstep.1, ?_⟩
    rcases hconn with hconn | ⟨fd, hfd⟩
    · rcases hstep.2 with hsame | ⟨fd, rfl⟩
      · exact .inl (hconn.trans hsame)
      · exact .inr ⟨fd, List.mem_cons_self⟩
    · exact .inr ⟨fd, List.mem_cons_of_mem _ hfd⟩

/-- A function of the connector is called. -/
theorem Pacing.call (h : Pacing obs s) {r : Option (Connector × List Effect)}
    (hpaced : ∀ c' es, r = some (c', es) → Paced (retries obs) s.connector es c') (hs : s.call r = some (s', o)) :
    Pacing (obs ++ o) s' := by
  obtain ⟨⟨c', es⟩, hr, hs⟩ := Option.bind_eq_some_iff.mp hs
  obtain ⟨t, hall, hs⟩ := Option.bind_eq_some_iff.mp hs
  obtain ⟨rfl, rfl⟩ := Prod.mk.inj (Option.some.inj hs)
  obtain ⟨hconnector, hconn⟩ := performAll_cases hall
  have hp := hpaced c' es hr
  refine ⟨law_append.mpr ⟨h.law, hp.law⟩, ?_, ?_⟩
  · rw [hconnector, retries_append]
    exact hp.delay
  · rw [hconnector, retries_append]
    intro hsome
    rcases hconn with hconn | ⟨fd, hfd⟩
    · obtain ⟨hstate, hzero⟩ := h.conn (hconn ▸ hsome)
      obtain ⟨hstate', hsame⟩ := hp.still hstate
      exact ⟨hstate', hsame.trans hzero⟩
    · exact hp.made fd hfd

theorem Pacing.startInLoop (h : Pacing obs s) {errno : ConnectErrno} (hs : s.startInLoop errno = some (s', o)) :
    Pacing (obs ++ o) s' :=
  h.call (fun _ _ hr => paced_startInLoop h.delay hr) hs

/-- A connection closes: the connector may start again, with the first delay. -/
theorem Pacing.rmConn (h : Pacing obs s) {conn : Nat} {errno : ConnectErrno}
    (hs : s.rmConn conn errno = some (s', o)) : Pacing (obs ++ o) s' := by
  obtain ⟨hconn, hs⟩ := assert_bind_eq_some_iff.mp hs
  obtain ⟨-, hzero⟩ := h.conn (by rw [hconn]; rfl)
  dsimp only at hs
  split at hs
  case isTrue =>
    obtain ⟨⟨u, o'⟩, hcall, hs⟩ := Option.bind_eq_some_iff.mp hs
    obtain ⟨rfl, rfl⟩ := Prod.mk.inj (Option.some.inj hs)
    have hbegun : Pacing (obs ++ [.start]) {queueInLoop {s with conn := none} true (.connDestroyed conn) with
        connector := {s.connector with state := .disconnected, retryDelayMs := initRetryDelayMs, connect_ := true}} := by
      refine ⟨law_append.mpr ⟨h.law, by simp [Law]⟩, fun _ => ?_, fun hsome => by cases hsome⟩
      rw [retries_append, hzero]
      rfl
    have hafter : Pacing (obs ++ [.start] ++ o') u :=
      hbegun.call (fun _ _ hr => paced_startInLoop hbegun.delay hr) hcall
    rwa [List.append_assoc] at hafter
  case isFalse =>
    obtain ⟨rfl, rfl⟩ := Prod.mk.inj (Option.some.inj hs)
    exact h.same (by simp) rfl rfl (.inr rfl)

/-- What is queued, and the flags, do not matter. -/
theorem Pacing.silent (h : Pacing obs s) (hstate : s'.connector.state = s.connector.state)
    (hdelay : s'.connector.retryDelayMs = s.connector.retryDelayMs) (hconn : s'.conn = s.conn) :
    Pacing (obs ++ []) s' :=
  h.same (by simp) hstate hdelay (.inl hconn)

theorem Pacing.run (h : Pacing obs s) {errno : ConnectErrno} {f : Functor} (hs : s.run errno f = some (s', o)) :
    Pacing (obs ++ o) s' := by
  cases f with
  | startInLoop => exact h.startInLoop hs
  | stopInLoop =>
    obtain ⟨⟨t, o'⟩, hcall, hs⟩ := Option.bind_eq_some_iff.mp hs
    obtain ⟨rfl, rfl⟩ := Prod.mk.inj (Option.some.inj hs)
    have hbegun : Pacing (obs ++ [.stopInLoop]) s := h.same (by simp) rfl rfl (.inl rfl)
    have hafter := hbegun.call (fun _ _ hr => paced_stopInLoop hbegun.delay hr) hcall
    rwa [List.append_assoc] at hafter
  | resetChannel => exact h.call (fun _ _ hr => paced_resetChannel h.delay hr) hs
  | forceCloseInLoop conn =>
    simp only [TcpClient.run, forceCloseInLoop] at hs
    split at hs
    case isTrue => exact h.rmConn hs
    case isFalse =>
      obtain ⟨rfl, rfl⟩ := Prod.mk.inj (Option.some.inj hs)
      exact h.silent rfl rfl rfl
  | connDestroyed conn =>
    obtain ⟨rfl, rfl⟩ := Prod.mk.inj (Option.some.inj hs)
    exact h.silent rfl rfl rfl

theorem Pacing.step (h : Pacing obs s) {a : Action} (hs : s.step a = some (s', o)) : Pacing (obs ++ o) s' := by
  cases a with
  | connect errno =>
    obtain ⟨⟨t, o'⟩, hstart, hs⟩ := Option.bind_eq_some_iff.mp hs
    obtain ⟨rfl, rfl⟩ := Prod.mk.inj (Option.some.inj hs)
    have hbegun : Pacing (obs ++ [.start]) {s with connect_ := true, connector := {s.connector with connect_ := true}} :=
      h.same (by simp) rfl rfl (.inl rfl)
    have hafter := hbegun.startInLoop hstart
    rwa [List.append_assoc] at hafter
  | connectQueued =>
    obtain ⟨rfl, rfl⟩ := Prod.mk.inj (Option.some.inj hs)
    exact h.same (by simp) rfl rfl (.inl rfl)
  | stop own =>
    obtain ⟨rfl, rfl⟩ := Prod.mk.inj (Option.some.inj hs)
    cases own <;> exact h.same (by simp) rfl rfl (.inl rfl)
  | forceClose own =>
    simp only [TcpClient.step] at hs
    split at hs
    case h_1 conn _ =>
      obtain ⟨rfl, rfl⟩ := Prod.mk.inj (Option.some.inj hs)
      cases own <;> exact h.silent rfl rfl rfl
    case h_2 =>
      obtain ⟨rfl, rfl⟩ := Prod.mk.inj (Option.some.inj hs)
      exact h.silent rfl rfl rfl
  | disconnect | enableRetry | push | loop | poll | doPendingFuncs | finish =>
    obtain ⟨rfl, rfl⟩ := Prod.mk.inj (Option.some.inj hs)
    exact h.silent rfl rfl rfl
  | connectorEvent outcome =>
    simp only [TcpClient.step] at hs
    split at hs
    case h_2 => cases hs
    case h_1 revents conn _ =>
      have hbegun : Pacing (obs ++ []) {s with phase := .handling none conn} := h.silent rfl rfl rfl
      rw [List.append_nil] at hbegun
      exact hbegun.call (fun _ _ hr => paced_handleEvents hbegun.delay hr) hs
  | connEvent closes errno =>
    simp only [TcpClient.step] at hs
    split at hs
    case h_2 => cases hs
    case h_1 connector conn _ =>
      have hbegun : Pacing (obs ++ []) {s with phase := .handling connector none} := h.silent rfl rfl rfl
      split at hs
      case isTrue =>
        rw [List.append_nil] at hbegun
        exact hbegun.rmConn hs
      case isFalse =>
        obtain ⟨rfl, rfl⟩ := Prod.mk.inj (Option.some.inj hs)
        exact hbegun
  | timer errno =>
    have hbegun : Pacing (obs ++ []) {s with timers := s.timers - 1} := h.silent rfl rfl rfl
    rw [List.append_nil] at hbegun
    exact hbegun.startInLoop hs
  | func errno =>
    obtain ⟨⟨f, queue⟩, -, hs⟩ := Option.bind_eq_some_iff.mp hs
    have hbegun : Pacing (obs ++ []) {s with queue := queue} := h.silent rfl rfl rfl
    rw [List.append_nil] at hbegun
    exact hbegun.run hs

/-! ### Every run -/

variable {as : List Action}

theorem pacing_run (h : machine.Run create as obs s) : Pacing obs s := by
  refine h.invariant Pacing ⟨trivial, fun _ => rfl, fun hsome => by cases hsome⟩ ?_
  intro obs s a s' o hpacing he hs
  exact hpacing.step hs

/-- **Backoff.** Whatever the kernel answers to the attempts, and whatever is called in whatever thread, in
every run in which no assertion fails: a retry is set up after 500 ms, doubled for each retry there was
since the last connection, and 30 seconds at most. Only a connection sets the delay back, stopping
and starting the client does not; and while there is a connection no retry is set up. -/
theorem delays_double (h : machine.Run create as obs s) :
    (∀ pre delayMs post, obs = pre ++ .connector (.runAfter delayMs) :: post →
      delayMs = min (initRetryDelayMs * 2 ^ retries pre) maxRetryDelayMs) ∧
      (s.conn.isSome = true → retries obs = 0) := by
  have hpacing := pacing_run h
  refine ⟨fun pre delayMs post hobs => ?_, fun hsome => (hpacing.conn hsome).2⟩
  have hlaw := hpacing.law
  rw [hobs] at hlaw
  exact (law_append.mp hlaw).2.1 delayMs rfl

/-- Two attempts fail, the third makes a connection, and when that closes the next attempt fails. -/
def failing : List Action :=
  [.enableRetry, .connect .ECONNREFUSED, .loop, .poll none false, .timer .EINPROGRESS, .doPendingFuncs, .finish,
    .poll (some (POLLERR ||| POLLOUT)) false, .connectorEvent ⟨111, false⟩, .doPendingFuncs, .func .none, .finish,
    .poll none false, .timer .EINPROGRESS, .doPendingFuncs, .finish, .poll (some POLLOUT) false,
    .connectorEvent ⟨0, false⟩, .doPendingFuncs, .func .none, .finish, .poll none true, .connEvent true .ECONNREFUSED]

theorem delays_double_failing :
    ∃ obs s, machine.Run create failing obs s ∧
      obs.filter (fun e => decide (e ∈ [500, 1000, 2000].map fun ms => Event.connector (.runAfter ms))) =
        [500, 1000, 500].map (fun ms => .connector (.runAfter ms)) ∧
      ∀ pre delayMs post, obs = pre ++ .connector (.runAfter delayMs) :: post →
        delayMs = min (initRetryDelayMs * 2 ^ retries pre) maxRetryDelayMs := by
  obtain ⟨obs, s, hrun, hdelays⟩ : ∃ obs s, machine.Run create failing obs s ∧
      obs.filter (fun e => decide (e ∈ [500, 1000, 2000].map fun ms => Event.connector (.runAfter ms))) =
        [500, 1000, 500].map (fun ms => .connector (.runAfter ms)) := Machine.Run.exists_of_trace (by decide +kernel)
  exact ⟨obs, s, hrun, hdelays, (delays_double hrun).1⟩

end Chtho.Net.TcpClient
