import Chtho.Net.TcpConnection

/-! The output stream of a connection.

A message reaches the kernel on one of two paths: written directly by `sendInLoop`
when nothing waits, or through `outputBuf`, drained by `handleWrite` when the socket
accepts more. Here a connection goes through any sequence of its functions, with any
short count and any error of `::write` but those of a peer that is gone. The two paths
together repeat and reorder nothing. They lose a message if the line that is logged about the
error leaves one of these errors in `errno`, which `sendInLoop` reads only then. -/
namespace Chtho.Net.TcpConnection.OutputStream
open Lib

/-- What the loop thread does with the connection. -/
inductive Action where
  | connEstablished
  | sendInLoop (data : Bytes) (r : Write)
  | handleWrite (r : Write)
  | handleClose
  | shutdown
  | forceClose
deriving DecidableEq, Repr

/-- The bytes an action passes to `sendInLoop`. -/
def Action.message : Action → Bytes
  | .sendInLoop data _ => data
  | _ => []

/-- The messages passed to `sendInLoop`, in call order. -/
def messages (as : List Action) : Bytes := as.flatMap Action.message

/-- `::write` takes at most what it is given and does not find the peer gone. -/
def Enabled (c : TcpConnection) : Action → Prop
  | .sendInLoop data r => r.Within data.length ∧ r.gone = false
  | .handleWrite r => r.Within c.outputBuf.readableBytes
  | _ => True

instance (c : TcpConnection) (a : Action) : Decidable (Enabled c a) :=
  match a with
  | .sendInLoop data r => inferInstanceAs (Decidable (r.Within data.length ∧ r.gone = false))
  | .handleWrite r => inferInstanceAs (Decidable (r.Within c.outputBuf.readableBytes))
  | .connEstablished | .handleClose | .shutdown | .forceClose => inferInstanceAs (Decidable True)

/-- The line logged about a failed direct write of a message does not leave `EPIPE` or
`ECONNRESET` in `errno`. -/
def KeepsErrno (c : TcpConnection) : Action → Prop
  | .sendInLoop data r => r.isFault = true → data = [] ∨ c.outputBuf.content ≠ []
  | _ => True

instance (c : TcpConnection) (a : Action) : Decidable (KeepsErrno c a) :=
  match a with
  | .sendInLoop data r => inferInstanceAs (Decidable (r.isFault = true → data = [] ∨ c.outputBuf.content ≠ []))
  | .connEstablished | .handleWrite _ | .handleClose | .shutdown | .forceClose => inferInstanceAs (Decidable True)

def step (c : TcpConnection) : Action → Option (TcpConnection × List Effect)
  | .connEstablished => c.connEstablished
  | .sendInLoop data r => c.sendInLoop data r
  | .handleWrite r => c.handleWrite r
  | .handleClose => c.handleClose
  | .shutdown => some (c.shutdown.1, if c.shutdown.2 then c.shutdown.1.shutdownInLoop else [])
  | .forceClose => some (c.forceClose.1, [])

def machine : Machine TcpConnection Action Effect := ⟨Enabled, step⟩

instance (c : TcpConnection) (a : Action) : Decidable (machine.enabled c a) :=
  inferInstanceAs (Decidable (Enabled c a))

theorem messages_snoc (as : List Action) (a : Action) : messages (as ++ [a]) = messages as ++ a.message := by
  simp [messages]

/-- What a step does with the stream: it keeps the backlog sound, and its own message joins the stream
unless the log line spoils `errno`. -/
structure Moved (c c' : TcpConnection) (a : Action) (o : List Effect) : Prop where
  backlog : c'.Backlog
  stream : handed o ++ c'.outputBuf.content = c.outputBuf.content ++ a.message ↔ KeepsErrno c a

variable {as : List Action} {obs o : List Effect} {c c' : TcpConnection} {a : Action}

/-- A step that moves no bytes. -/
theorem moved_quiet (h : c.Backlog) (hmsg : a.message = []) (hkeeps : KeepsErrno c a) (ho : handed o = [])
    (hbuf : c'.outputBuf = c.outputBuf) (hw : c'.channel.isWriting = c.channel.isWriting) : Moved c c' a o where
  backlog := ⟨by rw [hbuf]; exact h.inv, by rw [hbuf, hw]; exact h.writing⟩
  stream := iff_of_true (by rw [ho, hbuf, hmsg, List.append_nil, List.nil_append]) hkeeps

/-- A disconnected connection stays so. -/
theorem stays_down (hdown : c.state = .disconnected) (hs : step c a = some (c', o)) : c'.state = .disconnected := by
  cases a with
  | connEstablished =>
    obtain ⟨hcon, _⟩ := assert_bind_eq_some_iff.mp hs
    rw [hcon] at hdown
    cases hdown
  | sendInLoop data r =>
    simp only [step, sendInLoop, if_pos hdown] at hs
    obtain ⟨rfl, rfl⟩ := Prod.mk.inj (Option.some.inj hs)
    exact hdown
  | handleWrite r =>
    simp only [step, handleWrite] at hs
    split at hs
    · split at hs
      · simp only [Option.bind_eq_bind, Option.bind_eq_some_iff] at hs
        obtain ⟨b, _, hs⟩ := hs
        split at hs <;> obtain ⟨rfl, rfl⟩ := Prod.mk.inj (Option.some.inj hs) <;> exact hdown
      · obtain ⟨rfl, rfl⟩ := Prod.mk.inj (Option.some.inj hs)
        exact hdown
    · obtain ⟨rfl, rfl⟩ := Prod.mk.inj (Option.some.inj hs)
      exact hdown
  | handleClose =>
    obtain ⟨_, hs⟩ := assert_bind_eq_some_iff.mp hs
    obtain ⟨rfl, rfl⟩ := Prod.mk.inj (Option.some.inj hs)
    rfl
  | shutdown =>
    obtain ⟨rfl, rfl⟩ := Prod.mk.inj (Option.some.inj hs)
    simp [shutdown, hdown]
  | forceClose =>
    obtain ⟨rfl, rfl⟩ := Prod.mk.inj (Option.some.inj hs)
    simp [forceClose, hdown]

theorem moved (h : c.Backlog) (hup : c.state ≠ .disconnected) (he : Enabled c a) (hs : step c a = some (c', o))
    (hup' : c'.state ≠ .disconnected) : Moved c c' a o := by
  cases a with
  | connEstablished =>
    obtain ⟨_, hs⟩ := assert_bind_eq_some_iff.mp hs
    obtain ⟨rfl, rfl⟩ := Prod.mk.inj (Option.some.inj hs)
    exact moved_quiet h rfl trivial rfl rfl (by simp)
  | sendInLoop data r =>
    obtain ⟨c₁, o₁, h₁, hwrote, hstream⟩ := sendInLoop_spec h hup data r he.1
    rw [step, h₁] at hs
    obtain ⟨rfl, rfl⟩ := Prod.mk.inj (Option.some.inj hs)
    exact ⟨hwrote.backlog, hstream⟩
  | handleWrite r =>
    obtain ⟨c₁, o₁, h₁, hwrote, hstream⟩ := handleWrite_spec h r he
    rw [step, h₁] at hs
    obtain ⟨rfl, rfl⟩ := Prod.mk.inj (Option.some.inj hs)
    exact ⟨hwrote.backlog, iff_of_true (hstream.trans (List.append_nil _).symm) trivial⟩
  | handleClose =>
    obtain ⟨_, hs⟩ := assert_bind_eq_some_iff.mp hs
    obtain ⟨rfl, rfl⟩ := Prod.mk.inj (Option.some.inj hs)
    exact absurd rfl hup'
  | shutdown =>
    obtain ⟨rfl, rfl⟩ := Prod.mk.inj (Option.some.inj hs)
    by_cases hcon : c.state = .connected
    · refine moved_quiet h rfl trivial ?_ ?_ ?_ <;> simp [shutdown, hcon]
    · have hsame : c.shutdown = (c, false) := by simp [shutdown, hcon]
      rw [hsame]
      exact moved_quiet h rfl trivial rfl rfl rfl
  | forceClose =>
    obtain ⟨rfl, rfl⟩ := Prod.mk.inj (Option.some.inj hs)
    by_cases hcan : c.state = .connected ∨ c.state = .disconnecting
    · refine moved_quiet h rfl trivial rfl ?_ ?_ <;> simp [forceClose, hcan]
    · have hsame : c.forceClose = (c, false) := by simp [forceClose, hcan]
      rw [hsame]
      exact moved_quiet h rfl trivial rfl rfl rfl

/-- Until the connection is disconnected, the stream is whole. -/
structure Intact (as : List Action) (obs : List Effect) (c : TcpConnection) : Prop where
  backlog : c.Backlog
  stream : handed obs ++ c.outputBuf.content = messages as

theorem Intact.moved (h : Intact as obs c) (hmoved : Moved c c' a o) (hkeeps : KeepsErrno c a) :
    Intact (as ++ [a]) (obs ++ o) c' := by
  refine ⟨hmoved.backlog, ?_⟩
  rw [handed_append, List.append_assoc, hmoved.stream.mpr hkeeps, ← List.append_assoc, h.stream, messages_snoc]

/-- The next message joins the stream exactly if the log line does not spoil `errno`. -/
theorem Intact.sends_iff (h : Intact as obs c) (hmoved : Moved c c' a o) :
    handed (obs ++ o) ++ c'.outputBuf.content = messages (as ++ [a]) ↔ KeepsErrno c a := by
  rw [handed_append, List.append_assoc, messages_snoc, ← h.stream, List.append_assoc, List.append_cancel_left_eq]
  exact hmoved.stream

theorem backlog_run {c₀ : TcpConnection} (h₀ : c₀.Backlog) (h : machine.Run c₀ as obs c)
    (hup : c.state ≠ .disconnected) : c.Backlog := by
  refine h.invariant (fun _ c => c.state ≠ .disconnected → c.Backlog) (fun _ => h₀) ?_ hup
  intro obs c a c' o hI he hs hup'
  have hbefore : c.state ≠ .disconnected := fun hdown => hup' (stays_down hdown hs)
  exact (moved (hI hbefore) hbefore he hs hup').backlog

/-- **The output stream is intact as long as logging leaves `errno` alone.** In every run in which no
line that `sendInLoop` logs about a failed direct write of a message leaves `EPIPE` or `ECONNRESET`
in `errno`: as long as the connection is not disconnected, the bytes handed to the kernel followed
by the readable bytes of `outputBuf` are the messages passed to `sendInLoop`, in call order; the
channel asks to write exactly when `outputBuf` is not empty; and neither `sendInLoop` nor
`handleWrite` can fail an assertion. The next message that is sent joins the stream exactly if its
log line does not do so. -/
theorem output_stream_intact {fd : Nat} {wc hw : Bool} {c₀ c : TcpConnection} {as : List Action}
    {obs : List Effect} (h₀ : create fd wc hw = some c₀) (h : (machine.restrict KeepsErrno).Run c₀ as obs c)
    (hc : c.state ≠ .disconnected) :
    handed obs ++ c.outputBuf.content = messages as ∧
      (c.channel.isWriting = true ↔ c.outputBuf.content ≠ []) ∧
      (∀ data r, Enabled c (.sendInLoop data r) → ∃ c' o, c.sendInLoop data r = some (c', o) ∧
        (handed (obs ++ o) ++ c'.outputBuf.content = messages (as ++ [.sendInLoop data r]) ↔
          KeepsErrno c (.sendInLoop data r))) ∧
      (∀ r, Enabled c (.handleWrite r) → (c.handleWrite r).isSome) := by
  obtain ⟨hback, hnil⟩ := create_backlog h₀
  have hinit : Intact [] [] c₀ := ⟨hback, by simp [hnil, messages]⟩
  have hall : c.state ≠ .disconnected → Intact as obs c := by
    refine h.invariant_actions (fun as obs c => c.state ≠ .disconnected → Intact as obs c) (fun _ => hinit) ?_
    intro as obs c a c' o hI he hs hup'
    have hbefore : c.state ≠ .disconnected := fun hdown => hup' (stays_down hdown hs)
    exact (hI hbefore).moved (moved (hI hbefore).backlog hbefore he.1 hs hup') he.2
  have hintact := hall hc
  refine ⟨hintact.stream, hintact.backlog.writing, ?_, ?_⟩
  · intro data r he
    obtain ⟨c', o, hsend, hwrote, hstream⟩ := sendInLoop_spec hintact.backlog hc data r he.1
    exact ⟨c', o, hsend, hintact.sends_iff ⟨hwrote.backlog, hstream⟩⟩
  · intro r he
    obtain ⟨c', o, hwrite, _⟩ := handleWrite_spec hintact.backlog r he
    rw [hwrite]
    rfl

/-- A short direct write, a message behind it, and a partial drain. -/
def shortWrites : List Action :=
  [.connEstablished, .sendInLoop [1, 2, 3] (.wrote 2), .sendInLoop [4] (.failed .ewouldblock .ewouldblock),
    .handleWrite (.wrote 1)]

theorem output_stream_intact_shortWrites :
    ∃ c₀ obs c, create 5 true false = some c₀ ∧ (machine.restrict KeepsErrno).Run c₀ shortWrites obs c ∧
      handed obs = [1, 2, 3] ∧ handed obs ++ c.outputBuf.content = [1, 2, 3, 4] ∧
      c.channel.isWriting = true := by
  obtain ⟨c₀, obs, c, h₀, hrun, hhanded, hs, hw⟩ :
      ∃ c₀ obs c, create 5 true false = some c₀ ∧ (machine.restrict KeepsErrno).Run c₀ shortWrites obs c ∧
        handed obs = [1, 2, 3] ∧ c.state = .connected ∧ c.channel.isWriting = true :=
    Machine.Run.exists_of_start (by decide +kernel)
  have hmain := output_stream_intact h₀ hrun (by rw [hs]; decide)
  exact ⟨c₀, obs, c, h₀, hrun, hhanded, hmain.1.trans (by decide), hw⟩

/-- `::write` is interrupted, and the output function of the logger, writing the line about it to a
connection of its own, leaves `ECONNRESET` in `errno`. The message is neither with the kernel nor
in `outputBuf`. -/
theorem message_lost_behind_log :
    ∃ c₀ obs c, create 5 true false = some c₀ ∧
      machine.Run c₀ [.connEstablished, .sendInLoop [1] (.failed .eintr .econnreset)] obs c ∧ c.state = .connected ∧
      handed obs ++ c.outputBuf.content ≠ messages [.connEstablished, .sendInLoop [1] (.failed .eintr .econnreset)] := by
  obtain ⟨c₀, obs, c, h₀, hrun, hs, hlost⟩ :
      ∃ c₀ obs c, create 5 true false = some c₀ ∧
        machine.Run c₀ [.connEstablished, .sendInLoop [1] (.failed .eintr .econnreset)] obs c ∧ c.state = .connected ∧
        handed obs ++ c.outputBuf.content ≠ messages [.connEstablished, .sendInLoop [1] (.failed .eintr .econnreset)] :=
    Machine.Run.exists_of_start (by decide +kernel)
  exact ⟨c₀, obs, c, h₀, hrun, hs, hlost⟩

end Chtho.Net.TcpConnection.OutputStream
