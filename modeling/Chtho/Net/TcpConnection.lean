import Chtho.Net.Channel

/-! `TcpConnection`: the state, the channel and the two buffers of a connection, and
what its functions do to them in the loop thread.

What a function does outside the connection is the list of its `Effect`s, in
order: calls of `::write` with the kernel's answer, functors queued in the loop,
updates and removals of the channel, callbacks, the half close of the socket. A
function without a result has failed an assertion. -/
namespace Chtho.Net
open Lib

/-- The values of `errno` the code tells apart, and the rest. -/
inductive Errno where
  | ewouldblock
  | eintr
  | epipe
  | econnreset
  | other (n : Nat)
deriving DecidableEq, Repr

/-- What `::write` reports. A failure is logged if it is not `EWOULDBLOCK`, and `logged` is `errno`
behind that line. -/
inductive Write where
  | wrote (n : Nat)
  | failed (errno logged : Errno)
deriving DecidableEq, Repr

namespace Write

/-- The kernel takes at most what it is given. -/
def Within (len : Nat) : Write → Prop
  | .wrote n => n ≤ len
  | .failed _ _ => True

instance (len : Nat) (r : Write) : Decidable (r.Within len) :=
  match r with
  | .wrote n => inferInstanceAs (Decidable (n ≤ len))
  | .failed _ _ => inferInstanceAs (Decidable True)

/-- The errors of a peer that is gone. -/
def gone : Write → Bool
  | .failed .epipe _ | .failed .econnreset _ => true
  | _ => false

/-- `sendInLoop` gives up the bytes: it looks for the errors of a peer that is gone in `errno` as the
log line has left it. -/
def isFault : Write → Bool
  | .failed .ewouldblock _ => false
  | .failed _ .epipe | .failed _ .econnreset => true
  | _ => false

/-- The bytes of a request that the kernel took. -/
def taken (data : Bytes) : Write → Bytes
  | .wrote n => data.take n
  | .failed _ _ => []

end Write

namespace TcpConnection

inductive State where
  | disconnected
  | connecting
  | connected
  | disconnecting
deriving DecidableEq, Repr

/-- Functors that call back the user from the loop. -/
inductive Callback where
  | writeComplete
  | highWaterMark (size : Nat)
deriving DecidableEq, Repr

inductive Effect where
  | write (data : Bytes) (result : Write)
  | queueInLoop (cb : Callback)
  | updateChannel
  | removeChannel
  | shutdownWrite
  | connCB
  | msgCB
  | closeCB
deriving DecidableEq, Repr

/-- The bytes an effect hands to the kernel. -/
def Effect.handed : Effect → Bytes
  | .write data result => result.taken data
  | _ => []

end TcpConnection

open TcpConnection in
/-- A callback that may be unset is whether it is set. -/
structure TcpConnection where
  state : State
  channel : Channel
  writeCompleteCB : Bool
  highWaterMarkCB : Bool
  highWaterMark : Nat
  inputBuf : Buffer
  outputBuf : Buffer
deriving DecidableEq, Repr

namespace TcpConnection

def create (fd : Nat) (writeCompleteCB highWaterMarkCB : Bool) : Option TcpConnection := do
  let inputBuf ← Buffer.create Buffer.kInit
  let outputBuf ← Buffer.create Buffer.kInit
  some ⟨.connecting, .create fd, writeCompleteCB, highWaterMarkCB, 64 * 1024 * 1024, inputBuf, outputBuf⟩

def shutdownInLoop (c : TcpConnection) : List Effect :=
  if c.channel.isWriting then [] else [.shutdownWrite]

def handleWrite (c : TcpConnection) (r : Write) : Option (TcpConnection × List Effect) :=
  if c.channel.isWriting then
    let write : Effect := .write c.outputBuf.content r
    match r with
    | .wrote (n + 1) => do
      let outputBuf ← c.outputBuf.retrieve (n + 1)
      if outputBuf.readableBytes = 0 then
        let c' := {c with outputBuf := outputBuf, channel := c.channel.disableWrite}
        let complete := if c.writeCompleteCB then [Effect.queueInLoop .writeComplete] else []
        let close := if c.state = .disconnecting then c'.shutdownInLoop else []
        some (c', [write, .updateChannel] ++ complete ++ close)
      else some ({c with outputBuf := outputBuf}, [write])
    | _ => some (c, [write])
  else some (c, [])

def handleClose (c : TcpConnection) : Option (TcpConnection × List Effect) := do
  assert (c.state = .connected ∨ c.state = .disconnecting)
  some ({c with state := .disconnected, channel := c.channel.disableAll}, [.updateChannel, .closeCB])

/-- `handleError` only logs. -/
def handleRead (c : TcpConnection) (r : Readv) : Option (TcpConnection × List Effect) := do
  let ((n, _), inputBuf) ← c.inputBuf.readFd r
  let c := {c with inputBuf := inputBuf}
  if 0 < n then some (c, [.msgCB]) else if n = 0 then c.handleClose else some (c, [])

/-- `shutdown` up to its call of `runInLoop`, and whether it makes it. -/
def shutdown (c : TcpConnection) : TcpConnection × Bool :=
  if c.state = .connected then ({c with state := .disconnecting}, true) else (c, false)

/-- `forceClose` up to its call of `queueInLoop`, and whether it makes it. -/
def forceClose (c : TcpConnection) : TcpConnection × Bool :=
  if c.state = .connected ∨ c.state = .disconnecting then ({c with state := .disconnecting}, true)
  else (c, false)

def forceCloseInLoop (c : TcpConnection) : Option (TcpConnection × List Effect) :=
  if c.state = .connected ∨ c.state = .disconnecting then c.handleClose else some (c, [])

def connEstablished (c : TcpConnection) : Option (TcpConnection × List Effect) := do
  assert (c.state = .connecting)
  some ({c with state := .connected, channel := c.channel.tie.enableRead}, [.updateChannel, .connCB])

def connDestroyed (c : TcpConnection) : Option (TcpConnection × List Effect) := do
  let (c, update) :=
    if c.state = .connected then
      ({c with state := .disconnected, channel := c.channel.disableAll}, [Effect.updateChannel])
    else (c, [])
  let channel ← c.channel.remove
  some ({c with channel := channel}, update ++ [.removeChannel])

/-! ### `sendInLoop` -/

/-- What the attempt to write directly came to. -/
structure Direct where
  nwritten : Nat
  faulterr : Bool
  effects : List Effect

def writeDirect (c : TcpConnection) (data : Bytes) (r : Write) : Direct :=
  if !c.channel.isWriting && c.outputBuf.readableBytes == 0 then
    match r with
    | .wrote n =>
      ⟨n, false, .write data r ::
        if data.length - n = 0 ∧ c.writeCompleteCB then [.queueInLoop .writeComplete] else []⟩
    | .failed _ _ => ⟨0, r.isFault, [.write data r]⟩
  else ⟨0, false, []⟩

/-- The bytes left over go to `outputBuf`. -/
def keep (c : TcpConnection) (rest : Bytes) : Option (TcpConnection × List Effect) := do
  let oldLen := c.outputBuf.readableBytes
  let mark := if c.highWaterMark ≤ oldLen + rest.length ∧ oldLen < c.highWaterMark ∧ c.highWaterMarkCB
    then [Effect.queueInLoop (.highWaterMark (oldLen + rest.length))] else []
  let outputBuf ← c.outputBuf.append rest
  let c := {c with outputBuf := outputBuf}
  if c.channel.isWriting then some (c, mark)
  else some ({c with channel := c.channel.enableWrite}, mark ++ [.updateChannel])

def sendInLoop (c : TcpConnection) (data : Bytes) (r : Write) : Option (TcpConnection × List Effect) :=
  if c.state = .disconnected then some (c, [])
  else do
    let direct := c.writeDirect data r
    -- `remaining <= len`, that is `len - nwritten` has not wrapped
    assert (direct.nwritten ≤ data.length)
    let rest := data.drop direct.nwritten
    if !direct.faulterr && 0 < rest.length then
      let (c, effects) ← c.keep rest
      some (c, direct.effects ++ effects)
    else some (c, direct.effects)

/-! ### The backlog

While a connection is not disconnected, its channel asks to write exactly when
there is something to write. -/

structure Backlog (c : TcpConnection) : Prop where
  inv : c.outputBuf.Inv
  writing : c.channel.isWriting = true ↔ c.outputBuf.content ≠ []

theorem create_backlog {fd : Nat} {wc hw : Bool} {c : TcpConnection} (h : create fd wc hw = some c) :
    c.Backlog ∧ c.outputBuf.content = [] := by
  obtain ⟨b, hb, hinv, hnil⟩ := Buffer.create_spec Buffer.kInit
  simp only [create, hb, Option.bind_eq_bind, Option.bind_some, Option.some.injEq] at h
  subst h
  exact ⟨⟨hinv, by simp [hnil, Channel.isWriting, Channel.create]⟩, hnil⟩

/-- The bytes a list of effects hands to the kernel, in order. -/
def handed (o : List Effect) : Bytes := o.flatMap Effect.handed

@[simp] theorem handed_nil : handed [] = [] := rfl

@[simp] theorem handed_cons (e : Effect) (o : List Effect) : handed (e :: o) = e.handed ++ handed o := rfl

@[simp] theorem handed_append (o₁ o₂ : List Effect) : handed (o₁ ++ o₂) = handed o₁ ++ handed o₂ :=
  List.flatMap_append

@[simp] theorem handed_shutdownInLoop (c : TcpConnection) : handed c.shutdownInLoop = [] := by
  unfold shutdownInLoop
  split <;> rfl

/-- What a function that writes leaves of a connection: its state, and its channel
but for the interest in writing. -/
structure Wrote (c c' : TcpConnection) : Prop where
  state : c'.state = c.state
  inputBuf : c'.inputBuf = c.inputBuf
  reading : c'.channel.isReading = c.channel.isReading
  fd : c'.channel.fd = c.channel.fd
  idx : c'.channel.idx = c.channel.idx
  backlog : c'.Backlog

theorem keep_spec {c : TcpConnection} (h : c.outputBuf.Inv) (rest : Bytes) (hne : rest ≠ []) :
    ∃ c' o, c.keep rest = some (c', o) ∧ c.Wrote c' ∧ handed o = [] ∧
      c'.outputBuf.content = c.outputBuf.content ++ rest := by
  obtain ⟨b, hb, hinv, hcontent⟩ := Buffer.append_spec h rest
  have hne' : b.content ≠ [] := by simp [hcontent, hne]
  -- the high water mark functor hands over nothing, whether it is queued or not
  have hmark : ∀ p : Prop, ∀ [Decidable p], ∀ n,
      handed (if p then [Effect.queueInLoop (.highWaterMark n)] else []) = [] := by
    intro p _ n
    split <;> rfl
  cases hw : c.channel.isWriting
  · refine ⟨{c with outputBuf := b, channel := c.channel.enableWrite}, _,
      by simp only [keep, hb, hw]; rfl, ⟨rfl, rfl, by simp, rfl, rfl, ⟨hinv, by simp [hne']⟩⟩, ?_, hcontent⟩
    rw [handed_append, hmark]
    rfl
  · exact ⟨{c with outputBuf := b}, _, by simp only [keep, hb, hw]; rfl,
      ⟨rfl, rfl, rfl, rfl, rfl, ⟨hinv, by simp [hne', hw]⟩⟩, hmark _ _, hcontent⟩

/-- Nothing waits, so the channel does not ask to write, and conversely. -/
theorem Backlog.idle_iff {c : TcpConnection} (h : c.Backlog) :
    (!c.channel.isWriting && c.outputBuf.readableBytes == 0) = true ↔ c.outputBuf.content = [] := by
  have hw := h.writing
  rw [Bool.and_eq_true, beq_iff_eq, ← Buffer.content_eq_nil_iff h.inv]
  cases hc : c.channel.isWriting <;> simp_all

/-- The direct write takes a first part of the message, and only if nothing waits. -/
theorem writeDirect_spec {c : TcpConnection} (h : c.Backlog) (data : Bytes) (r : Write)
    (hr : r.Within data.length) :
    (c.writeDirect data r).nwritten ≤ data.length ∧
      handed (c.writeDirect data r).effects = data.take (c.writeDirect data r).nwritten ∧
      ((c.writeDirect data r).faulterr = true ↔ r.isFault = true ∧ c.outputBuf.content = []) ∧
      ((c.writeDirect data r).nwritten ≠ 0 → c.outputBuf.content = []) ∧
      ((c.writeDirect data r).faulterr = true → (c.writeDirect data r).nwritten = 0) := by
  unfold writeDirect
  split
  case isTrue hidle =>
    have hnil := h.idle_iff.mp hidle
    cases r with
    | wrote n =>
      refine ⟨hr, ?_, by simp [Write.isFault], fun _ => hnil, fun hf => absurd hf Bool.false_ne_true⟩
      simp only [handed_cons, Effect.handed, Write.taken]
      split <;> simp [Effect.handed]
    | failed errno logged =>
      exact ⟨Nat.zero_le _, by simp [Effect.handed, Write.taken], by simp [hnil], fun _ => hnil, fun _ => rfl⟩
  case isFalse hbusy =>
    have hne : c.outputBuf.content ≠ [] := fun hnil => hbusy (h.idle_iff.mpr hnil)
    exact ⟨Nat.zero_le _, by simp, by simp [hne], fun hn => absurd rfl hn, fun _ => rfl⟩

/-- **`sendInLoop`.** The message joins the stream behind the backlog: what is handed
over and what waits is what waited and the message. If nothing waits and the message is given up
it is lost, unless it is empty. -/
theorem sendInLoop_spec {c : TcpConnection} (h : c.Backlog) (hs : c.state ≠ .disconnected)
    (data : Bytes) (r : Write) (hr : r.Within data.length) :
    ∃ c' o, c.sendInLoop data r = some (c', o) ∧ c.Wrote c' ∧
      (handed o ++ c'.outputBuf.content = c.outputBuf.content ++ data ↔
        (r.isFault = true → data = [] ∨ c.outputBuf.content ≠ [])) := by
  obtain ⟨hn, hhanded, hfault, hempty, hnone⟩ := writeDirect_spec h data r hr
  have hsplit := List.take_append_drop (c.writeDirect data r).nwritten data
  -- the part handed over is empty or nothing waited before it
  have hfront : handed (c.writeDirect data r).effects ++ c.outputBuf.content =
      c.outputBuf.content ++ data.take (c.writeDirect data r).nwritten := by
    rw [hhanded]
    by_cases h0 : (c.writeDirect data r).nwritten = 0
    · simp [h0]
    · simp [hempty h0]
  unfold sendInLoop
  rw [if_neg hs]
  simp only [assert_bind, if_pos hn]
  by_cases hkeep : (!(c.writeDirect data r).faulterr &&
      decide (0 < (data.drop (c.writeDirect data r).nwritten).length)) = true
  · have hne : data.drop (c.writeDirect data r).nwritten ≠ [] := by
      rw [Bool.and_eq_true, decide_eq_true_eq] at hkeep
      exact List.length_pos_iff.mp hkeep.2
    obtain ⟨c', o, hk, hwrote, ho, hcontent⟩ := keep_spec h.inv _ hne
    have hkept : (c.writeDirect data r).faulterr ≠ true := by
      rw [Bool.and_eq_true] at hkeep
      simpa using hkeep.1
    refine ⟨c', (c.writeDirect data r).effects ++ o, ?_, hwrote, iff_of_true ?_ ?_⟩
    · rw [if_pos hkeep]
      simp [hk]
    · rw [handed_append, ho, List.append_nil, hcontent, ← List.append_assoc, hfront, List.append_assoc, hsplit]
    · exact fun hf => .inr fun hnil => hkept (hfault.mpr ⟨hf, hnil⟩)
  · refine ⟨c, (c.writeDirect data r).effects, by rw [if_neg hkeep], ⟨rfl, rfl, rfl, rfl, rfl, h⟩, ?_⟩
    rw [hfront]
    cases hf : (c.writeDirect data r).faulterr with
    | true =>
      obtain ⟨hr', hnil⟩ := hfault.mp hf
      simp [hr', hnil, hnone hf, eq_comm]
    | false =>
      rw [hf, Bool.not_false, Bool.true_and, decide_eq_true_eq] at hkeep
      have hrest := List.length_eq_zero_iff.mp (Nat.eq_zero_of_not_pos hkeep)
      rw [hrest, List.append_nil] at hsplit
      refine iff_of_true (by rw [hsplit]) fun hr' => .inr fun hnil => ?_
      rw [hfault.mpr ⟨hr', hnil⟩] at hf
      cases hf

/-- **`handleWrite`.** A first part of the backlog moves to the kernel. -/
theorem handleWrite_spec {c : TcpConnection} (h : c.Backlog) (r : Write)
    (hr : r.Within c.outputBuf.readableBytes) :
    ∃ c' o, c.handleWrite r = some (c', o) ∧ c.Wrote c' ∧
      handed o ++ c'.outputBuf.content = c.outputBuf.content := by
  have hsame : c.Wrote c := ⟨rfl, rfl, rfl, rfl, rfl, h⟩
  unfold handleWrite
  cases hw : c.channel.isWriting
  · exact ⟨c, [], rfl, hsame, rfl⟩
  · cases r with
    | failed errno logged => exact ⟨c, _, rfl, hsame, by simp [Effect.handed, Write.taken]⟩
    | wrote n =>
      cases n with
      | zero => exact ⟨c, _, rfl, hsame, by simp [Effect.handed, Write.taken]⟩
      | succ n =>
        obtain ⟨b, hb, hinv, hcontent⟩ := Buffer.retrieve_spec h.inv (n + 1) hr
        have hstream : c.outputBuf.content.take (n + 1) ++ b.content = c.outputBuf.content := by
          rw [hcontent, List.take_append_drop]
        simp only [if_true, hb, Option.bind_eq_bind, Option.bind_some]
        by_cases hempty : b.readableBytes = 0
        · have hnil := (Buffer.content_eq_nil_iff hinv).mpr hempty
          rw [if_pos hempty]
          refine ⟨_, _, rfl, ⟨rfl, rfl, by simp, rfl, rfl, ⟨hinv, by simp [hnil]⟩⟩, ?_⟩
          rw [handed_append, handed_append]
          have hcomplete : handed (if c.writeCompleteCB = true then [Effect.queueInLoop .writeComplete] else []) = [] := by
            split <;> rfl
          have hclose : ∀ c' : TcpConnection,
              handed (if c.state = .disconnecting then c'.shutdownInLoop else []) = [] := by
            intro c'
            split
            · exact handed_shutdownInLoop c'
            · rfl
          rw [hcomplete, hclose, List.append_nil, List.append_nil]
          simpa [Effect.handed, Write.taken] using hstream
        · have hne : b.content ≠ [] := fun hnil => hempty ((Buffer.content_eq_nil_iff hinv).mp hnil)
          rw [if_neg hempty]
          refine ⟨_, _, rfl, ⟨rfl, rfl, rfl, rfl, rfl, ⟨hinv, by simp [hne, hw]⟩⟩, ?_⟩
          simpa [Effect.handed, Write.taken] using hstream

/-! ### Half closes and writes -/

theorem writeDirect_effects {c : TcpConnection} {data : Bytes} {r : Write} {e : Effect}
    (h : e ∈ (c.writeDirect data r).effects) : e = .write data r ∨ ∃ cb, e = .queueInLoop cb := by
  unfold writeDirect at h
  split at h
  · split at h
    · rcases List.mem_cons.mp h with rfl | h
      · exact .inl rfl
      · split at h
        · exact .inr ⟨_, List.mem_singleton.mp h⟩
        · cases h
    · exact .inl (List.mem_singleton.mp h)
  · cases h

theorem keep_effects {c c' : TcpConnection} {rest : Bytes} {o : List Effect} {e : Effect}
    (h : c.keep rest = some (c', o)) (he : e ∈ o) : e = .updateChannel ∨ ∃ cb, e = .queueInLoop cb := by
  simp only [keep, Option.bind_eq_bind, Option.bind_eq_some_iff] at h
  obtain ⟨b, _, h⟩ := h
  have hmark : ∀ p : Prop, ∀ [Decidable p], ∀ cb,
      e ∈ (if p then [Effect.queueInLoop cb] else []) → ∃ cb, e = .queueInLoop cb := by
    intro p _ cb he
    split at he
    · exact ⟨cb, List.mem_singleton.mp he⟩
    · cases he
  split at h
  · obtain ⟨_, rfl⟩ := Prod.mk.inj (Option.some.inj h)
    exact .inr (hmark _ _ he)
  · obtain ⟨_, rfl⟩ := Prod.mk.inj (Option.some.inj h)
    rcases List.mem_append.mp he with he | he
    · exact .inr (hmark _ _ he)
    · exact .inl (List.mem_singleton.mp he)

/-- `sendInLoop` writes nothing but the message, and does not half close. -/
theorem sendInLoop_effects {c c' : TcpConnection} {data : Bytes} {r : Write} {o : List Effect} {e : Effect}
    (h : c.sendInLoop data r = some (c', o)) (he : e ∈ o) :
    e = .write data r ∨ e = .updateChannel ∨ ∃ cb, e = .queueInLoop cb := by
  unfold sendInLoop at h
  split at h
  · obtain ⟨_, rfl⟩ := Prod.mk.inj (Option.some.inj h)
    cases he
  · obtain ⟨_, h⟩ := assert_bind_eq_some_iff.mp h
    dsimp only at h
    split at h
    · simp only [Option.bind_eq_bind, Option.bind_eq_some_iff, Prod.exists] at h
      obtain ⟨c₁, o₁, hk, h⟩ := h
      obtain ⟨_, rfl⟩ := Prod.mk.inj (Option.some.inj h)
      rcases List.mem_append.mp he with he | he
      · exact (writeDirect_effects he).imp_right .inr
      · exact .inr (keep_effects hk he)
    · obtain ⟨_, rfl⟩ := Prod.mk.inj (Option.some.inj h)
      exact (writeDirect_effects he).imp_right .inr

/-- `handleWrite` writes only if the channel asks for it. It half closes last, if at
all, and then in the state `disconnecting` and with nothing left to write. -/
theorem handleWrite_effects {c c' : TcpConnection} {r : Write} {o : List Effect}
    (h : c.handleWrite r = some (c', o)) :
    (o = [] ∨ c.channel.isWriting = true) ∧
      (.shutdownWrite ∉ o ∨
        ∃ o₁, o = o₁ ++ [.shutdownWrite] ∧ .shutdownWrite ∉ o₁ ∧ handed o₁ = r.taken c.outputBuf.content ∧
          c.state = .disconnecting ∧ c'.outputBuf.readableBytes = 0) := by
  unfold handleWrite at h
  split at h
  case isFalse =>
    obtain ⟨_, rfl⟩ := Prod.mk.inj (Option.some.inj h)
    exact ⟨.inl rfl, .inl nofun⟩
  case isTrue hw =>
    refine ⟨.inr hw, ?_⟩
    split at h
    · simp only [Option.bind_eq_bind, Option.bind_eq_some_iff] at h
      obtain ⟨b, _, h⟩ := h
      split at h
      case isTrue hempty =>
        obtain ⟨rfl, rfl⟩ := Prod.mk.inj (Option.some.inj h)
        by_cases hd : c.state = .disconnecting
        · right
          refine ⟨_, congrArg _ ?_, ?_, ?_, hd, hempty⟩
          · simp [hd, shutdownInLoop]
          · split <;> simp
          · split <;> simp [Effect.handed]
        · left
          rw [if_neg hd]
          split <;> simp
      case isFalse =>
        obtain ⟨_, rfl⟩ := Prod.mk.inj (Option.some.inj h)
        exact .inl (by simp)
    · obtain ⟨_, rfl⟩ := Prod.mk.inj (Option.some.inj h)
      exact .inl (by simp)

end TcpConnection
end Chtho.Net
