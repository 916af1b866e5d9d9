import Chtho.Lib.History
import Chtho.Net.Http.Incremental
import Chtho.Net.Http.Server
import Chtho.Net.WholeMessages

/-! `HTTPServer` on a `TcpConnection`.

The server is written for a connection that sends what it is given and shuts down when it is
told. The real one reads what `readv` has, writes what `::write` takes and keeps the rest, gives up
a message to a peer that is gone, and half closes when it has nothing left to write. Here the
two are put together: the server answers the segments that were read as it answers them on the
connection it was written for, and what becomes of the answers is what the output buffer makes
of them. -/
namespace Chtho.Net
open Lib TcpConnection

/-- The result of `::write` for so many bytes, where the kernel has room for so many. -/
def Write.upTo (len : Nat) : Write → Write
  | .wrote n => .wrote (min n len)
  | .failed errno logged => .failed errno logged

theorem Write.upTo_within (len : Nat) (w : Write) : (w.upTo len).Within len := by
  cases w with
  | wrote n => exact Nat.min_le_right ..
  | failed e => trivial

namespace HTTPServer.OverTcp

inductive Event where
  | segment (bytes : Bytes)
  /-- A message for `sendInLoop`, and whether it drops it. -/
  | sent (msg : Bytes) (dropped : Bool)
  | effect (e : Effect)
deriving DecidableEq, Repr

inductive Action where
  /-- `w` is the room the kernel has for an answer. -/
  | handleRead (r : Readv) (w : Write)
  | handleWrite (w : Write)
  | handleClose

def send (c : TcpConnection) (msg : Bytes) (w : Write) : Option (TcpConnection × List Event) :=
  if c.state = .connected then do
    let r := w.upTo msg.length
    let (c', o) ← c.sendInLoop msg r
    some (c', .sent msg (c.drops msg r) :: o.map .effect)
  else some (c, [])

def shutdown (c : TcpConnection) : TcpConnection × List Event :=
  let (c, run) := c.shutdown
  (c, if run then c.shutdownInLoop.map .effect else [])

def onReq (httpCB : HTTPCB) (c : TcpConnection) (req : HTTPRequest) (w : Write) :
    Option (TcpConnection × List Event) := do
  let resp := reply httpCB req
  let buf ← Buffer.create Buffer.kInit
  let buf ← resp.appendToBuf buf
  let (c, o) ← send c buf.content w
  if resp.close then some ((shutdown c).1, o ++ (shutdown c).2) else some (c, o)

/-- The answer to a request line that is rejected. -/
def badReq (c : TcpConnection) (w : Write) : Option (TcpConnection × List Event) := do
  let (c, o) ← send c badRequest w
  some ((shutdown c).1, o ++ (shutdown c).2)

def onMsg (httpCB : HTTPCB) (c : TcpConnection) (w : Write) : Option (TcpConnection × List Event) := do
  let (ok, context, buf) ← HTTPContext.create.parse c.inputBuf
  let c := {c with inputBuf := buf}
  let (c, o) ← if !ok then badReq c w else some (c, [])
  if context.done then do
    let (c, o') ← onReq httpCB c context.request w
    some (c, o ++ o')
  else some (c, o)

def step (httpCB : HTTPCB) (c : TcpConnection) : Action → Option (TcpConnection × List Event)
  | .handleRead r w => do
    let (c, o) ← c.handleRead r
    if .msgCB ∈ o then do
      let (c, o') ← onMsg httpCB c w
      some (c, .segment (Buffer.received r) :: o.map .effect ++ o')
    else some (c, o.map .effect)
  | .handleWrite w => do
    let (c, o) ← c.handleWrite (w.upTo c.outputBuf.readableBytes)
    some (c, o.map .effect)
  | .handleClose => do
    let (c, o) ← c.handleClose
    some (c, o.map .effect)

/-- A channel that does not read has no event, but for a late one to write. -/
def Enabled (c : TcpConnection) : Action → Prop
  | .handleRead r _ => c.channel.isReading = true ∧ c.inputBuf.Fits r
  | .handleWrite _ => True
  | .handleClose => c.channel.isReading = true

def machine (httpCB : HTTPCB) : Machine TcpConnection Action Event := ⟨Enabled, step httpCB⟩

/-- A new connection, on which the server has seen nothing yet. -/
def established (fd : Nat) : Option TcpConnection := do
  let c ← TcpConnection.create fd false false
  let (c, _) ← c.connEstablished
  some c

/-! ### What is seen of a run -/

def segments (obs : List Event) : List Bytes :=
  obs.filterMap fun
    | .segment bytes => some bytes
    | _ => none

/-- The messages for `sendInLoop`. -/
def sent (obs : List Event) : List Bytes :=
  obs.filterMap fun
    | .sent msg _ => some msg
    | _ => none

/-- Those of them it did not drop. -/
def kept (obs : List Event) : List Bytes :=
  obs.filterMap fun
    | .sent msg false => some msg
    | _ => none

def Event.handed : Event → Bytes
  | .effect e => e.handed
  | _ => []

def handedBytes (obs : List Event) : Bytes := obs.flatMap Event.handed

@[simp] theorem segments_append (a b : List Event) : segments (a ++ b) = segments a ++ segments b := List.filterMap_append
@[simp] theorem sent_append (a b : List Event) : sent (a ++ b) = sent a ++ sent b := List.filterMap_append
@[simp] theorem kept_append (a b : List Event) : kept (a ++ b) = kept a ++ kept b := List.filterMap_append
@[simp] theorem handedBytes_append (a b : List Event) : handedBytes (a ++ b) = handedBytes a ++ handedBytes b :=
  List.flatMap_append

theorem effects_quiet (o : List Effect) :
    segments (o.map .effect) = [] ∧ sent (o.map .effect) = [] ∧ kept (o.map .effect) = [] ∧
      handedBytes (o.map .effect) = TcpConnection.handed o := by
  refine ⟨by simp [segments], by simp [sent], by simp [kept], ?_⟩
  rw [handedBytes, List.flatMap_map]
  rfl

/-- When the socket is half closed everything that was not dropped is with the kernel, and after
that nothing is sent, handed over or half closed. -/
def Closes (pre : List Event) (e : Event) : Prop :=
  (e = .effect .shutdownWrite → handedBytes pre = (kept pre).flatten) ∧
    (.effect .shutdownWrite ∈ pre → e.handed = [] ∧ e ≠ .effect .shutdownWrite ∧ ∀ msg dropped, e ≠ .sent msg dropped)

@[simp] theorem sent_message (msg : Bytes) (dropped : Bool) (o : List Event) :
    sent (.sent msg dropped :: o) = msg :: sent o := rfl

@[simp] theorem kept_message (msg : Bytes) (dropped : Bool) (o : List Event) :
    kept (.sent msg dropped :: o) = (if dropped then [] else [msg]) ++ kept o := by
  cases dropped <;> rfl

@[simp] theorem handedBytes_message (msg : Bytes) (dropped : Bool) (o : List Event) :
    handedBytes (.sent msg dropped :: o) = handedBytes o := rfl

/-! ### The connection the server was written for -/

/-- The real connection while it is up, beside the one the server was written for. -/
structure Rel (obs : List Event) (c : TcpConnection) (conn : HTTPConn) : Prop where
  up : c.state = .connected ∨ c.state = .disconnecting
  state : conn.state = c.state
  reading : c.channel.isReading = true
  backlog : c.Backlog
  sent : conn.sent = (sent obs).flatten
  stream : handedBytes obs ++ c.outputBuf.content = (kept obs).flatten
  closed : .effect .shutdownWrite ∈ obs ↔ c.state = .disconnecting ∧ c.outputBuf.content = []
  history : Throughout Closes obs

variable {httpCB : HTTPCB} {obs : List Event} {c c' : TcpConnection} {conn : HTTPConn}

/-- Before the half close anything may happen but it. -/
theorem closes_open {o : List Event} (h : Throughout Closes obs) (hobs : .effect .shutdownWrite ∉ obs)
    (ho : .effect .shutdownWrite ∉ o) : Throughout Closes (obs ++ o) := by
  refine h.append fun pre e post heq => ⟨fun hclose => ?_, fun hmem => ?_⟩
  · exact absurd (by rw [heq, hclose]; simp) ho
  · rcases List.mem_append.mp hmem with hmem | hmem
    · exact absurd hmem hobs
    · exact absurd (by rw [heq]; exact List.mem_append_left _ hmem) ho

/-- What neither sends nor writes nor half closes may happen at any time. -/
theorem closes_quiet {o : List Event} (h : Throughout Closes obs)
    (ho : ∀ e ∈ o, e.handed = [] ∧ e ≠ .effect .shutdownWrite ∧ ∀ msg dropped, e ≠ .sent msg dropped) :
    Throughout Closes (obs ++ o) := by
  refine h.append fun pre e post heq => ?_
  have hquiet := ho e (by rw [heq]; simp)
  exact ⟨fun hclose => absurd hclose hquiet.2.1, fun _ => hquiet⟩

theorem closes_close (h : Throughout Closes obs) (hobs : .effect .shutdownWrite ∉ obs)
    (hall : handedBytes obs = (kept obs).flatten) : Throughout Closes (obs ++ [.effect .shutdownWrite]) :=
  throughout_snoc.mpr ⟨h, fun _ => hall, fun hmem => absurd hmem hobs⟩

theorem Rel.open_of_connected (h : Rel obs c conn) (hc : c.state = .connected) :
    .effect .shutdownWrite ∉ obs := by
  intro hmem
  have hstate := (h.closed.mp hmem).1
  rw [hc] at hstate
  cases hstate

theorem Rel.not_down (h : Rel obs c conn) : c.state ≠ .disconnected := by
  rcases h.up with hs | hs <;> simp [hs]

/-- A message passed on, or dropped because the connection is not `connected`. -/
theorem Rel.send (h : Rel obs c conn) (msg : Bytes) (w : Write) :
    ∃ c' o, send c msg w = some (c', o) ∧ Rel (obs ++ o) c' (conn.send msg) ∧ c'.inputBuf = c.inputBuf ∧
      segments o = [] := by
  by_cases hc : c.state = .connected
  · have hopen := h.open_of_connected hc
    have hwithin := Write.upTo_within msg.length w
    obtain ⟨c', o, hsend, hwrote, _⟩ := sendInLoop_spec h.backlog h.not_down msg _ hwithin
    obtain ⟨c'', o', hsend', _, hwhole⟩ := sendInLoop_whole h.backlog.inv msg _ hwithin
    obtain ⟨rfl, rfl⟩ := Prod.mk.inj (Option.some.inj (hsend.symm.trans hsend'))
    have hclose : .effect .shutdownWrite ∉
        Event.sent msg (c.drops msg (w.upTo msg.length)) :: o.map Event.effect := by
      intro hmem
      rcases List.mem_cons.mp hmem with heq | hmem
      · cases heq
      · obtain ⟨e, he, heq⟩ := List.mem_map.mp hmem
        obtain rfl := Event.effect.inj heq
        rcases sendInLoop_effects hsend he with heq | heq | ⟨_, heq⟩ <;> cases heq
    obtain ⟨hsegments, hsent, hkept, hhanded⟩ := effects_quiet o
    have hconn : (conn.send msg) = {conn with sent := conn.sent ++ msg} := if_pos (h.state.trans hc)
    refine ⟨c', .sent msg (c.drops msg (w.upTo msg.length)) :: o.map .effect, by simp [OverTcp.send, hc, hsend],
      ⟨?_, ?_, ?_, hwrote.backlog, ?_, ?_, ?_, ?_⟩, hwrote.inputBuf, hsegments⟩
    · rw [hwrote.state]
      exact h.up
    · rw [hconn, hwrote.state]
      exact h.state
    · rw [hwrote.reading]
      exact h.reading
    · rw [hconn, sent_append, List.flatten_append, ← h.sent, sent_message, hsent]
      simp
    · rw [handedBytes_append, kept_append, List.flatten_append, ← h.stream, handedBytes_message, hhanded,
        kept_message, hkept, List.append_assoc, hwhole]
      split <;> simp
    · rw [hwrote.state, hc]
      exact ⟨fun hmem => absurd hmem (List.not_mem_append hopen hclose), fun hd => nomatch hd.1⟩
    · exact closes_open h.history hopen hclose
  · refine ⟨c, [], if_neg hc, ?_, rfl, rfl⟩
    rw [List.append_nil, HTTPConn.send, if_neg (h.state ▸ hc)]
    exact h

theorem Rel.shutdown (h : Rel obs c conn) :
    Rel (obs ++ (shutdown c).2) (shutdown c).1 conn.shutdown ∧ (OverTcp.shutdown c).1.inputBuf = c.inputBuf ∧
      segments (shutdown c).2 = [] := by
  by_cases hc : c.state = .connected
  · have hopen := h.open_of_connected hc
    have hconn : conn.shutdown = {conn with state := .disconnecting} := if_pos (h.state.trans hc)
    have hdown : c.shutdown = ({c with state := .disconnecting}, true) := if_pos hc
    have hbacklog : Backlog {c with state := .disconnecting} := ⟨h.backlog.inv, h.backlog.writing⟩
    have hboth : OverTcp.shutdown c = ({c with state := .disconnecting},
        if c.channel.isWriting then [] else [.effect .shutdownWrite]) := by
      rw [OverTcp.shutdown, hdown]
      simp only [if_true, shutdownInLoop]
      split <;> rfl
    rw [hboth, hconn]
    refine ⟨?_, rfl, by split <;> rfl⟩
    cases hw : c.channel.isWriting with
    | true =>
      have hne := h.backlog.writing.mp hw
      simp only [if_true, List.append_nil]
      exact ⟨.inr rfl, rfl, h.reading, hbacklog, h.sent, h.stream,
        ⟨fun hmem => absurd hmem hopen, fun hd => absurd hd.2 hne⟩, h.history⟩
    | false =>
      have hnil : c.outputBuf.content = [] := by
        by_contra hne
        rw [h.backlog.writing.mpr hne] at hw
        cases hw
      have hstream := h.stream
      rw [hnil, List.append_nil] at hstream
      simp only [Bool.false_eq_true, if_false]
      refine ⟨.inr rfl, rfl, h.reading, hbacklog, ?_, ?_, ⟨fun _ => ⟨rfl, hnil⟩, fun _ => by simp⟩,
        closes_close h.history hopen hstream⟩
      · rw [sent_append, List.flatten_append, ← h.sent]
        exact (List.append_nil _).symm
      · rw [handedBytes_append, kept_append, List.flatten_append, ← hstream]
        simp [hnil, handedBytes, Event.handed, Effect.handed, kept]
  · have hboth : OverTcp.shutdown c = (c, []) := by simp [OverTcp.shutdown, TcpConnection.shutdown, hc]
    rw [hboth, HTTPConn.shutdown, if_neg (h.state ▸ hc), List.append_nil]
    exact ⟨h, rfl, rfl⟩

/-- A refusal. -/
theorem Rel.badReq (h : Rel obs c conn) (w : Write) :
    ∃ c' o, badReq c w = some (c', o) ∧ Rel (obs ++ o) c' (refuse conn) ∧ c'.inputBuf = c.inputBuf ∧
      segments o = [] := by
  obtain ⟨c₁, o₁, hsend, h₁, hinput₁, hquiet₁⟩ := h.send badRequest w
  obtain ⟨h₂, hinput₂, hquiet₂⟩ := h₁.shutdown
  refine ⟨_, _, by rw [OverTcp.badReq, hsend]; rfl, ?_, hinput₂.trans hinput₁, ?_⟩
  · rw [← List.append_assoc]
    exact h₂
  · rw [segments_append, hquiet₁, hquiet₂]
    rfl

/-- An answer, with the text that is written. -/
theorem Rel.onReq (h : Rel obs c conn) {req : HTTPRequest} {text : Bytes}
    (hwritten : (reply httpCB req).written = some text) (w : Write) :
    ∃ c' o, onReq httpCB c req w = some (c', o) ∧ Rel (obs ++ o) c' (answerWith httpCB conn req text) ∧
      c'.inputBuf = c.inputBuf ∧ segments o = [] := by
  obtain ⟨b, hb, hinv, hnil⟩ := Buffer.create_spec Buffer.kInit
  obtain ⟨b', hb', _, hcontent⟩ := HTTPResponse.appendToBuf_spec hinv hwritten
  rw [hnil, List.nil_append] at hcontent
  obtain ⟨c₁, o₁, hsend, h₁, hinput₁, hquiet₁⟩ := h.send b'.content w
  rw [hcontent] at h₁
  have hfirst : OverTcp.onReq httpCB c req w = if (reply httpCB req).close then
      some ((OverTcp.shutdown c₁).1, o₁ ++ (OverTcp.shutdown c₁).2) else some (c₁, o₁) := by
    rw [OverTcp.onReq, hb, Option.bind_eq_bind, Option.bind_some, hb', Option.bind_some, hsend]
    rfl
  by_cases hclose : (reply httpCB req).close = true
  · obtain ⟨h₂, hinput₂, hquiet₂⟩ := h₁.shutdown
    refine ⟨_, _, hfirst.trans (if_pos hclose), ?_, hinput₂.trans hinput₁, ?_⟩
    · rw [← List.append_assoc, answerWith, if_pos hclose]
      exact h₂
    · rw [segments_append, hquiet₁, hquiet₂]
      rfl
  · refine ⟨c₁, o₁, hfirst.trans (if_neg hclose), ?_, hinput₁, hquiet₁⟩
    rw [answerWith, if_neg hclose]
    exact h₁

theorem onReq_eq_none (c : TcpConnection) {req : HTTPRequest} (hwritten : (reply httpCB req).written = none) (w : Write) :
    onReq httpCB c req w = none := by
  obtain ⟨b, hb, _⟩ := Buffer.create_spec Buffer.kInit
  rw [OverTcp.onReq, hb, Option.bind_eq_bind, Option.bind_some, HTTPResponse.appendToBuf_eq_none b hwritten,
    Option.bind_none]

theorem Rel.inputBuf (h : Rel obs c conn) (b : Buffer) : Rel obs {c with inputBuf := b} conn :=
  ⟨h.up, h.state, h.reading, ⟨h.backlog.inv, h.backlog.writing⟩, h.sent, h.stream, h.closed, h.history⟩

variable (httpCB) in
/-- A message is answered as the server answers the same bytes on the connection it was written for, or
the response to a request cannot be written. -/
theorem Rel.onMsg (h : Rel obs c conn) (hinv : c.inputBuf.Inv) {b : Buffer} (hb : b.Inv)
    (hsame : b.content = c.inputBuf.content) (w : Write) :
    (∃ c' o conn' b', onMsg httpCB c w = some (c', o) ∧ HTTPServer.onMsg httpCB conn b = some (conn', b') ∧
      Rel (obs ++ o) c' conn' ∧ c'.inputBuf.Inv ∧ b'.Inv ∧ b'.content = c'.inputBuf.content ∧ segments o = []) ∨
    onMsg httpCB c w = none ∧ ∃ req, (reply httpCB req).written = none := by
  obtain ⟨ok, context, rest, hparses⟩ := HTTPContext.exists_parses (c := .create) (.inl rfl) c.inputBuf.content
  obtain ⟨b₁, hparse₁, hinv₁, hrest₁⟩ := hparses.parse hinv rfl
  obtain ⟨b₂, hparse₂, hinv₂, hrest₂⟩ := hparses.parse hb hsame
  have hleft := h.inputBuf b₁
  -- the refusal, if there is one
  obtain ⟨c₁, o₁, hfirst, h₁, hinput₁, hquiet₁⟩ : ∃ c₁ o₁,
      OverTcp.onMsg httpCB c w = (if context.done then
        (OverTcp.onReq httpCB c₁ context.request w).bind fun r => some (r.1, o₁ ++ r.2) else some (c₁, o₁)) ∧
      Rel (obs ++ o₁) c₁ (if !ok then refuse conn else conn) ∧ c₁.inputBuf = b₁ ∧ segments o₁ = [] := by
    cases ok with
    | true => exact ⟨{c with inputBuf := b₁}, [], by simp [OverTcp.onMsg, hparse₁], by simpa using hleft, rfl, rfl⟩
    | false =>
      obtain ⟨c₁, o₁, hbad, h₁, hinput₁, hquiet₁⟩ := hleft.badReq w
      exact ⟨c₁, o₁, by simp [OverTcp.onMsg, hparse₁, hbad], h₁, hinput₁, hquiet₁⟩
  have hserver : HTTPServer.onMsg httpCB conn b = (if context.done then
      (HTTPServer.onReq httpCB (if !ok then refuse conn else conn) context.request).bind fun conn => some (conn, b₂)
      else some (if !ok then refuse conn else conn, b₂)) := by
    rw [HTTPServer.onMsg, hparse₂, Option.bind_eq_bind, Option.bind_some]
    rfl
  cases hdone : context.done with
  | false =>
    rw [hdone] at hfirst hserver
    exact .inl ⟨c₁, o₁, _, b₂, hfirst, hserver, h₁, hinput₁ ▸ hinv₁, hinv₂, by rw [hinput₁, hrest₁, hrest₂], hquiet₁⟩
  | true =>
    rw [hdone, if_pos rfl] at hfirst hserver
    cases hwritten : (reply httpCB context.request).written with
    | none =>
      rw [onReq_eq_none c₁ hwritten, Option.bind_none] at hfirst
      exact .inr ⟨hfirst, context.request, hwritten⟩
    | some text =>
      obtain ⟨c₂, o₂, hreq, h₂, hinput₂, hquiet₂⟩ := h₁.onReq hwritten w
      have hinput := hinput₂.trans hinput₁
      rw [hreq, Option.bind_some] at hfirst
      rw [onReq_eq, hwritten, Option.map_some, Option.bind_some] at hserver
      refine .inl ⟨c₂, o₁ ++ o₂, _, b₂, hfirst, hserver, ?_, hinput ▸ hinv₁, hinv₂,
        by rw [hinput, hrest₁, hrest₂], ?_⟩
      · rw [← List.append_assoc]
        exact h₂
      · rw [segments_append, hquiet₁, hquiet₂]
        rfl

/-! ### Steps -/

/-- The last bytes of a connection that is to close are followed by the half close. -/
theorem handleWrite_closes {r : Write} {o : List Effect} (h : c.handleWrite r = some (c', o))
    (hw : c.channel.isWriting = true) (hs : c.state = .disconnecting) (hne : c.outputBuf.readableBytes ≠ 0)
    (hempty : c'.outputBuf.readableBytes = 0) : .shutdownWrite ∈ o := by
  unfold TcpConnection.handleWrite at h
  rw [if_pos hw] at h
  split at h
  · simp only [Option.bind_eq_bind, Option.bind_eq_some_iff] at h
    obtain ⟨b, _, h⟩ := h
    split at h
    · obtain ⟨_, rfl⟩ := Prod.mk.inj (Option.some.inj h)
      simp [shutdownInLoop]
    case isFalse hfull =>
      obtain ⟨rfl, _⟩ := Prod.mk.inj (Option.some.inj h)
      exact absurd hempty hfull
  · obtain ⟨rfl, _⟩ := Prod.mk.inj (Option.some.inj h)
    exact absurd hempty hne

theorem Rel.handleWrite (h : Rel obs c conn) (w : Write) :
    ∃ c' o, c.handleWrite (w.upTo c.outputBuf.readableBytes) = some (c', o) ∧
      Rel (obs ++ o.map .effect) c' conn ∧ c'.inputBuf = c.inputBuf := by
  obtain ⟨c', o, hwrite, hwrote, hstream⟩ := handleWrite_spec h.backlog _ (Write.upTo_within c.outputBuf.readableBytes w)
  obtain ⟨hidle, hclose⟩ := handleWrite_effects hwrite
  obtain ⟨-, hsent, hkept, hhanded⟩ := effects_quiet o
  by_cases hw : c.channel.isWriting = true
  case neg =>
    obtain rfl := hidle.resolve_right hw
    have hsame : c.handleWrite (w.upTo c.outputBuf.readableBytes) = some (c, []) := if_neg hw
    obtain ⟨rfl, -⟩ := Prod.mk.inj (Option.some.inj (hsame.symm.trans hwrite))
    exact ⟨c, [], hwrite, by simpa using h, rfl⟩
  have hne := h.backlog.writing.mp hw
  have hopen : .effect .shutdownWrite ∉ obs := fun hmem => hne (h.closed.mp hmem).2
  have hmem : ∀ o : List Effect, Event.effect .shutdownWrite ∈ o.map Event.effect ↔ .shutdownWrite ∈ o := by
    simp
  refine ⟨c', o, hwrite, ⟨?_, ?_, ?_, hwrote.backlog, ?_, ?_, ?_, ?_⟩, hwrote.inputBuf⟩
  · rw [hwrote.state]
    exact h.up
  · rw [hwrote.state]
    exact h.state
  · rw [hwrote.reading]
    exact h.reading
  · rw [sent_append, hsent, List.append_nil]
    exact h.sent
  · rw [handedBytes_append, kept_append, hhanded, hkept, List.append_nil, List.append_assoc, hstream]
    exact h.stream
  · rw [List.mem_append, hmem, hwrote.state]
    constructor
    · rintro (hobs | ho)
      · exact absurd hobs hopen
      · obtain ⟨_, _, _, _, hs, hempty⟩ := hclose.resolve_left (not_not.mpr ho)
        exact ⟨hs, (Buffer.content_eq_nil_iff hwrote.backlog.inv).mpr hempty⟩
    · rintro ⟨hs, hnil⟩
      exact .inr (handleWrite_closes hwrite hw hs (fun h0 => hne ((Buffer.content_eq_nil_iff h.backlog.inv).mpr h0))
        ((Buffer.content_eq_nil_iff hwrote.backlog.inv).mp hnil))
  · rcases hclose with hno | ⟨o₁, rfl, hno, htaken, hs, hempty⟩
    · exact closes_open h.history hopen (fun ho => hno ((hmem o).mp ho))
    · -- everything is with the kernel when the half close comes
      have hnil := (Buffer.content_eq_nil_iff hwrote.backlog.inv).mpr hempty
      obtain ⟨-, -, hkept₁, hhanded₁⟩ := effects_quiet o₁
      rw [List.map_append, ← List.append_assoc]
      refine closes_close (closes_open h.history hopen fun ho => hno ((hmem o₁).mp ho)) ?_ ?_
      · exact List.not_mem_append hopen fun ho => hno ((hmem o₁).mp ho)
      · have hlast : handed [Effect.shutdownWrite] = [] := rfl
        rw [hnil, handed_append, hlast, List.append_nil, List.append_nil] at hstream
        rw [handedBytes_append, kept_append, hkept₁, hhanded₁, List.append_nil, hstream]
        exact h.stream

/-- A connection that is closed: nothing more happens to it. -/
structure Down (obs : List Event) (c : TcpConnection) (conn : HTTPConn) : Prop where
  state : c.state = .disconnected
  quiet : c.channel.isReading = false ∧ c.channel.isWriting = false
  sent : conn.sent = (sent obs).flatten
  stream : handedBytes obs ++ c.outputBuf.content = (kept obs).flatten
  history : Throughout Closes obs

theorem Rel.handleClose (h : Rel obs c conn) :
    ∃ c', c.handleClose = some (c', [.updateChannel, .closeCB]) ∧
      Down (obs ++ [.effect .updateChannel, .effect .closeCB]) c' conn ∧ c'.inputBuf = c.inputBuf := by
  refine ⟨{c with state := .disconnected, channel := c.channel.disableAll}, ?_, ⟨rfl, by simp, ?_, ?_, ?_⟩, rfl⟩
  · rw [TcpConnection.handleClose, assert_bind, if_pos h.up]
  · rw [sent_append, List.flatten_append, ← h.sent]
    exact (List.append_nil _).symm
  · rw [handedBytes_append, kept_append, List.flatten_append, ← h.stream]
    simp [handedBytes, Event.handed, Effect.handed, kept]
  · exact closes_quiet h.history (by simp [Event.handed, Effect.handed])

theorem Rel.message (h : Rel obs c conn) (seg : Bytes) :
    Rel (obs ++ [.segment seg, .effect .msgCB]) c conn := by
  refine ⟨h.up, h.state, h.reading, h.backlog, ?_, ?_, ?_, closes_quiet h.history (by simp [Event.handed, Effect.handed])⟩
  · rw [sent_append, List.flatten_append, ← h.sent]
    exact (List.append_nil _).symm
  · rw [handedBytes_append, kept_append, List.flatten_append, ← h.stream]
    simp [handedBytes, Event.handed, Effect.handed, kept]
  · rw [← h.closed]
    simp

/-- The server's side of a run: the segments read, served on the connection it was written for. -/
structure Served (httpCB : HTTPCB) (input : Buffer) (segs : List Bytes) (c : TcpConnection) (conn : HTTPConn)
    (b : Buffer) : Prop where
  serve : serve httpCB (opened, input) segs = some (conn, b)
  inv : b.Inv
  inputInv : c.inputBuf.Inv
  same : b.content = c.inputBuf.content

def Sound (httpCB : HTTPCB) (input : Buffer) (obs : List Event) (c : TcpConnection) : Prop :=
  ∃ conn b, Served httpCB input (segments obs) c conn b ∧ (Rel obs c conn ∨ Down obs c conn)

/-- A step keeps everything sound, or it fails at a response that cannot be written. -/
def Sound.Step (httpCB : HTTPCB) (input : Buffer) (obs : List Event) (c : TcpConnection) (a : Action) : Prop :=
  (∃ c' o, step httpCB c a = some (c', o) ∧ Sound httpCB input (obs ++ o) c') ∨
    step httpCB c a = none ∧ ∃ req, (reply httpCB req).written = none

variable {input : Buffer} {b : Buffer}

theorem sound_handleRead (hserved : Served httpCB input (segments obs) c conn b) (h : Rel obs c conn) (r : Readv)
    (w : Write) : Sound.Step httpCB input obs c (.handleRead r w) := by
  obtain ⟨b₁, hread, hinv₁, hcontent₁⟩ := Buffer.readFd_spec hserved.inputInv r
  have hrel := h.inputBuf b₁
  by_cases hdata : 0 < (Buffer.readFdReturn r).1
  · -- a segment: the server is told
    have hhandle : c.handleRead r = some ({c with inputBuf := b₁}, [.msgCB]) := by
      simp [TcpConnection.handleRead, hread, hdata]
    obtain ⟨b₂, hinv₂, hcontent₂, hreceive⟩ := receive_eq httpCB conn hserved.inv (Buffer.received r)
    have hstep : step httpCB c (.handleRead r w) = (OverTcp.onMsg httpCB {c with inputBuf := b₁} w).bind fun s =>
        some (s.1, .segment (Buffer.received r) :: [Effect.msgCB].map .effect ++ s.2) := by
      rw [step, hhandle, Option.bind_eq_bind, Option.bind_some]
      exact if_pos (List.mem_singleton.mpr rfl)
    obtain ⟨c', o, conn', b', hmsg, hserver, h', hinput', hinv', hsame', hquiet⟩ | ⟨hmsg, hunwritten⟩ :=
      (hrel.message (Buffer.received r)).onMsg httpCB hinv₁ hinv₂
        (by rw [hcontent₂, hcontent₁, hserved.same]) w
    case inr =>
      rw [hmsg, Option.bind_none] at hstep
      exact .inr ⟨hstep, hunwritten⟩
    rw [hmsg, Option.bind_some] at hstep
    refine .inl ⟨c', .segment (Buffer.received r) :: [Effect.msgCB].map .effect ++ o, hstep, conn', b',
      ⟨?_, hinv', hinput', hsame'⟩, .inl ?_⟩
    · have hsegs : segments (.segment (Buffer.received r) :: [Effect.msgCB].map .effect ++ o) = [Buffer.received r] := by
        rw [segments_append, hquiet]
        rfl
      rw [segments_append, hsegs, serve_append, hserved.serve]
      simp [HTTPServer.serve, hreceive, hserver]
    · rw [← List.append_assoc]
      exact h'
  have hnone : Buffer.received r = [] := by
    cases r with
    | error errno => rfl
    | data bytes =>
      have hnil : bytes = [] := by simpa [Buffer.readFdReturn, List.length_pos_iff] using hdata
      exact hnil
  have hserved' {c' : TcpConnection} {o : List Event} (hinput : c'.inputBuf = b₁) (ho : segments o = []) :
      Served httpCB input (segments (obs ++ o)) c' conn b := by
    rw [segments_append, ho, List.append_nil]
    refine ⟨hserved.serve, hserved.inv, hinput ▸ hinv₁, ?_⟩
    rw [hinput, hcontent₁, hnone, List.append_nil]
    exact hserved.same
  by_cases hzero : (Buffer.readFdReturn r).1 = 0
  · -- the peer has closed
    obtain ⟨c', hclose, hdown, hinput⟩ := hrel.handleClose
    refine .inl ⟨c', [.effect .updateChannel, .effect .closeCB], ?_, conn, b, hserved' hinput rfl, .inr hdown⟩
    simp [step, TcpConnection.handleRead, hread, hzero, hclose]
  · refine .inl ⟨{c with inputBuf := b₁}, [], ?_, conn, b, hserved' rfl rfl, .inl ?_⟩
    · simp [step, TcpConnection.handleRead, hread, hdata, hzero]
    · rw [List.append_nil]
      exact hrel

theorem sound_step (h : Sound httpCB input obs c) {a : Action} (he : Enabled c a) :
    Sound.Step httpCB input obs c a := by
  obtain ⟨conn, b, hserved, h⟩ := h
  have hserved' {c' : TcpConnection} {o : List Event} (hinput : c'.inputBuf = c.inputBuf) (ho : segments o = []) :
      Served httpCB input (segments (obs ++ o)) c' conn b := by
    rw [segments_append, ho, List.append_nil]
    exact ⟨hserved.serve, hserved.inv, hinput ▸ hserved.inputInv, by rw [hinput]; exact hserved.same⟩
  rcases h with h | h
  · cases a with
    | handleRead r w => exact sound_handleRead hserved h r w
    | handleWrite w =>
      obtain ⟨c', o, hwrite, h', hinput⟩ := h.handleWrite w
      exact .inl ⟨c', o.map .effect, by simp [step, hwrite], conn, b, hserved' hinput (effects_quiet o).1, .inl h'⟩
    | handleClose =>
      obtain ⟨c', hclose, hdown, hinput⟩ := h.handleClose
      exact .inl ⟨c', _, by simp only [step, hclose]; rfl, conn, b, hserved' hinput rfl, .inr hdown⟩
  · -- a late event finds that nothing is asked for
    cases a with
    | handleRead r w => exact absurd he.1 (by simp [h.quiet.1])
    | handleClose => exact absurd he (by simp [Enabled, h.quiet.1])
    | handleWrite w =>
      refine .inl ⟨c, [], ?_, conn, b, hserved' rfl rfl, .inr ?_⟩
      · simp [step, TcpConnection.handleWrite, h.quiet.2]
      · rw [List.append_nil]
        exact h

theorem sound_established {fd : Nat} (h : established fd = some c) : Sound httpCB c.inputBuf [] c := by
  obtain ⟨b, hb, hinv, hnil⟩ := Buffer.create_spec Buffer.kInit
  simp only [established, TcpConnection.create, hb, connEstablished, Option.bind_eq_bind, Option.bind_some, assert_bind,
    if_true, Option.some.injEq] at h
  subst h
  have hidle : (Channel.create fd).tie.enableRead.isWriting = false := by
    rw [Channel.isWriting_enableRead, Channel.isWriting_tie]
    simp [Channel.isWriting, Channel.create]
  exact ⟨opened, b, ⟨rfl, hinv, hinv, rfl⟩,
    .inl ⟨.inl rfl, rfl, by simp, ⟨hinv, by simp [hnil, hidle]⟩, rfl, hnil, by simp, throughout_nil⟩⟩

theorem sound_run {fd : Nat} {c₀ : TcpConnection} {as : List Action} (h₀ : established fd = some c₀)
    (h : (machine httpCB).Run c₀ as obs c) : Sound httpCB c₀.inputBuf obs c := by
  refine h.invariant (Sound httpCB c₀.inputBuf) (sound_established h₀) fun obs s a s' o hI he hs => ?_
  obtain ⟨s'', o', hs', hI'⟩ | ⟨hfails, _⟩ := sound_step hI he
  · obtain ⟨rfl, rfl⟩ := Prod.mk.inj (Option.some.inj (hs.symm.trans hs'))
    exact hI'
  · exact nomatch hs.symm.trans hfails

/-- **The server over TCP.** However `readv` cuts what the peer sends, however little `::write` takes
and whenever the peer goes, the server passes on what it answers to the segments read when it is
given a connection that takes everything. What it was not dropped of that is with the kernel or in
the output buffer, in order; the socket is half closed when the server has shut down and the buffer is
empty, once and with every byte before it; and no step fails if the callback's responses are short. -/
theorem served_over_tcp {fd : Nat} {c₀ : TcpConnection} {as : List Action} (h₀ : established fd = some c₀)
    (h : (machine httpCB).Run c₀ as obs c) :
    (∃ conn b, serve httpCB (opened, c₀.inputBuf) (segments obs) = some (conn, b) ∧ conn.sent = (sent obs).flatten ∧
      b.content = c.inputBuf.content ∧ (c.state ≠ .disconnected → conn.state = c.state)) ∧
    handedBytes obs ++ c.outputBuf.content = (kept obs).flatten ∧
    (c.state ≠ .disconnected →
      (.effect .shutdownWrite ∈ obs ↔ c.state = .disconnecting ∧ c.outputBuf.content = [])) ∧
    Throughout Closes obs ∧
    ((∀ req, (reply httpCB req).Short) → ∀ a, Enabled c a → (step httpCB c a).isSome) := by
  have hsound := sound_run h₀ h
  have hsafe : (∀ req, (reply httpCB req).Short) → ∀ a, Enabled c a → (step httpCB c a).isSome := by
    intro hshort a he
    obtain ⟨s', o, hs, _⟩ | ⟨_, req, hwritten⟩ := sound_step hsound he
    · rw [hs]
      rfl
    · rw [(hshort req).written_eq] at hwritten
      cases hwritten
  obtain ⟨conn, b, hserved, hrel | hdown⟩ := hsound
  · exact ⟨⟨conn, b, hserved.serve, hrel.sent, hserved.same, fun _ => hrel.state⟩, hrel.stream, fun _ => hrel.closed,
      hrel.history, hsafe⟩
  · exact ⟨⟨conn, b, hserved.serve, hdown.sent, hserved.same, fun hup => absurd hdown.state hup⟩, hdown.stream,
      fun hup => absurd hdown.state hup, hdown.history, hsafe⟩

instance (httpCB : HTTPCB) (c : TcpConnection) (a : Action) : Decidable ((machine httpCB).enabled c a) :=
  match a with
  | .handleRead (.data _) _ => inferInstanceAs (Decidable (_ ∧ _ ≤ _))
  | .handleRead (.error _) _ => inferInstanceAs (Decidable (_ ∧ True))
  | .handleWrite _ => inferInstanceAs (Decidable True)
  | .handleClose => inferInstanceAs (Decidable (_ = true))

/-- A request in two segments, and an answer that `::write` takes in two pieces: the rest of it goes
before the half close. -/
def twoPieces : List Action :=
  [.handleRead (.data (ascii "GET / HT")) (.wrote 0), .handleRead (.data (ascii "TP/1.1\r\n\r\n")) (.wrote 5),
    .handleWrite (.wrote 1000), .handleClose]

theorem served_over_tcp_twoPieces :
    ∃ c₀ obs c, established 9 = some c₀ ∧ (machine defaultHTTPCB).Run c₀ twoPieces obs c ∧
      segments obs = [ascii "GET / HT", ascii "TP/1.1\r\n\r\n"] ∧ .effect .shutdownWrite ∈ obs ∧
      (∃ conn b, serve defaultHTTPCB (opened, c₀.inputBuf) (segments obs) = some (conn, b) ∧
        conn.sent = (sent obs).flatten) ∧
      handedBytes obs ++ c.outputBuf.content = (kept obs).flatten ∧ Throughout Closes obs := by
  obtain ⟨c₀, obs, c, h₀, h, hsegs, hclosed⟩ : ∃ c₀ obs c, established 9 = some c₀ ∧
      (machine defaultHTTPCB).Run c₀ twoPieces obs c ∧ segments obs = [ascii "GET / HT", ascii "TP/1.1\r\n\r\n"] ∧
        .effect .shutdownWrite ∈ obs := Machine.Run.exists_of_start (by decide +kernel)
  obtain ⟨⟨conn, b, hserve, hsent, _⟩, hstream, _, hhistory, _⟩ := served_over_tcp h₀ h
  exact ⟨c₀, obs, c, h₀, h, hsegs, hclosed, ⟨conn, b, hserve, hsent⟩, hstream, hhistory⟩

end HTTPServer.OverTcp
end Chtho.Net
