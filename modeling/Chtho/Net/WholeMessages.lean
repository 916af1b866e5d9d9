import Chtho.Net.TcpConnection

/-! Messages stay whole.

`sendInLoop` either drops a message or passes all of it on, to the kernel and behind the
output buffer; it never leaves a part of one in the stream. This needs no more than a sound
buffer: a channel of a connection that is `disconnecting` again after it was closed may ask for
nothing while bytes wait. -/
namespace Chtho.Net.TcpConnection
open Lib

/-- The connection is down, or the direct write gives up the bytes. -/
def drops (c : TcpConnection) (data : Bytes) (r : Write) : Bool :=
  c.state == .disconnected || (c.writeDirect data r).faulterr

theorem writeDirect_within {c : TcpConnection} (h : c.outputBuf.Inv) (data : Bytes) (r : Write)
    (hr : r.Within data.length) :
    (c.writeDirect data r).nwritten ≤ data.length ∧
      handed (c.writeDirect data r).effects ++ c.outputBuf.content =
        c.outputBuf.content ++ data.take (c.writeDirect data r).nwritten ∧
      ((c.writeDirect data r).faulterr = true → (c.writeDirect data r).nwritten = 0) := by
  unfold writeDirect
  split
  case isTrue hidle =>
    have hnil : c.outputBuf.content = [] := by
      rw [Bool.and_eq_true, beq_iff_eq] at hidle
      exact (Buffer.content_eq_nil_iff h).mpr hidle.2
    cases r with
    | wrote n =>
      refine ⟨hr, ?_, fun hf => absurd hf Bool.false_ne_true⟩
      rw [hnil, List.append_nil, List.nil_append, handed_cons]
      split <;> simp [Effect.handed, Write.taken]
    | failed errno logged => exact ⟨Nat.zero_le _, by simp [Effect.handed, Write.taken], fun _ => rfl⟩
  case isFalse => exact ⟨Nat.zero_le _, by simp, fun hf => absurd hf Bool.false_ne_true⟩

/-- A connection after a function that only writes. -/
structure Drained (c c' : TcpConnection) : Prop where
  state : c'.state = c.state
  reading : c'.channel.isReading = c.channel.isReading
  inv : c'.outputBuf.Inv

/-- The whole message joins the stream, or nothing of it does. -/
theorem sendInLoop_whole {c : TcpConnection} (h : c.outputBuf.Inv) (data : Bytes) (r : Write)
    (hr : r.Within data.length) :
    ∃ c' o, c.sendInLoop data r = some (c', o) ∧ Drained c c' ∧
      handed o ++ c'.outputBuf.content = c.outputBuf.content ++ if c.drops data r then [] else data := by
  have hsame : Drained c c := ⟨rfl, rfl, h⟩
  by_cases hdown : c.state = .disconnected
  · exact ⟨c, [], if_pos hdown, hsame, by simp [drops, hdown]⟩
  obtain ⟨hn, hfront, hfault⟩ := writeDirect_within h data r hr
  have hsplit := List.take_append_drop (c.writeDirect data r).nwritten data
  have hdrops : c.drops data r = (c.writeDirect data r).faulterr := by simp [drops, hdown]
  unfold sendInLoop
  rw [if_neg hdown, hdrops]
  simp only [assert_bind, if_pos hn]
  cases hf : (c.writeDirect data r).faulterr with
  | true =>
    refine ⟨c, (c.writeDirect data r).effects, rfl, hsame, ?_⟩
    rw [hfront, hfault hf, List.take_zero]
    rfl
  | false =>
    rw [Bool.not_false, Bool.true_and, if_neg Bool.false_ne_true]
    by_cases hrest : data.drop (c.writeDirect data r).nwritten = []
    · refine ⟨c, (c.writeDirect data r).effects, by simp [hrest], hsame, ?_⟩
      rw [hrest, List.append_nil] at hsplit
      rw [hfront, hsplit]
    · obtain ⟨c', o, hk, hwrote, ho, hcontent⟩ := keep_spec h _ hrest
      refine ⟨c', (c.writeDirect data r).effects ++ o, ?_, ⟨hwrote.state, hwrote.reading, hwrote.backlog.inv⟩, ?_⟩
      · rw [if_pos (by simpa using List.length_pos_iff.mpr hrest)]
        simp [hk]
      · rw [handed_append, ho, List.append_nil, hcontent, ← List.append_assoc, hfront, List.append_assoc, hsplit]

theorem handleWrite_drains {c : TcpConnection} (h : c.outputBuf.Inv) (r : Write)
    (hr : r.Within c.outputBuf.readableBytes) :
    ∃ c' o, c.handleWrite r = some (c', o) ∧ Drained c c' ∧
      handed o ++ c'.outputBuf.content = c.outputBuf.content := by
  have hsame : Drained c c := ⟨rfl, rfl, h⟩
  unfold handleWrite
  cases hw : c.channel.isWriting
  · exact ⟨c, [], rfl, hsame, rfl⟩
  cases r with
  | failed errno logged => exact ⟨c, _, rfl, hsame, by simp [Effect.handed, Write.taken]⟩
  | wrote n =>
    cases n with
    | zero => exact ⟨c, _, rfl, hsame, by simp [Effect.handed, Write.taken]⟩
    | succ n =>
      obtain ⟨b, hb, hinv, hcontent⟩ := Buffer.retrieve_spec h (n + 1) hr
      have hstream : c.outputBuf.content.take (n + 1) ++ b.content = c.outputBuf.content := by
        rw [hcontent, List.take_append_drop]
      simp only [if_true, hb, Option.bind_eq_bind, Option.bind_some]
      split
      · refine ⟨_, _, rfl, ⟨rfl, by simp, hinv⟩, ?_⟩
        have hquiet : ∀ p : Prop, ∀ [Decidable p], ∀ o : List Effect, handed o = [] →
            handed (if p then o else []) = [] := by
          intro p _ o ho
          split
          · exact ho
          · rfl
        rw [handed_append, handed_append, hquiet _ _ rfl, hquiet _ _ (handed_shutdownInLoop _)]
        simpa [Effect.handed, Write.taken] using hstream
      · refine ⟨_, _, rfl, ⟨rfl, rfl, hinv⟩, ?_⟩
        simpa [Effect.handed, Write.taken] using hstream

end Chtho.Net.TcpConnection
