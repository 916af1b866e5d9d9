import Chtho.Logging.AsyncLogging.Stream
import Mathlib.Data.List.Infix

/-! What `stop()` leaves behind.

`stop()` clears `running_`, notifies the back end and joins it. A back end that has tested
`running_` before takes everything once more and writes it, so the notification in
`waitForSecs` flushes the log. At any other place it goes back to the test and leaves the
loop, with what came after its last swap in `bufs_` and `curBuf_`. -/
namespace Chtho.Logging.AsyncLogging
open Lib

/-- What is written or in the hands of the back end. -/
def taken (obs : List Event) (s : AsyncLogging) : List Bytes := written obs ++ s.heldTexts

variable {s s' : AsyncLogging} {obs o : List Event}

/-- The back end takes in a swap only. -/
theorem Moved.taken_eq (hm : Moved s o s') (obs : List Event) :
    taken (obs ++ o) s' = taken obs s ∨
      s.InRound ∧ o = [] ∧ taken obs s' = taken obs s ++ s.frontTexts ∧ s'.frontTexts = [[]] := by
  unfold taken
  cases hm with
  | line front last held before after pc running => exact .inl (by simp [held])
  | swap pc before held front pc' running =>
    exact .inr ⟨pc, rfl, by rw [held, before, List.append_nil], front⟩
  | write rest before held front pc' running => exact .inl (by simp [before, held])
  | quiet seen held front pc pc' started => exact .inl (by rw [written_append, seen.2, List.append_nil, held])

/-- What was taken stays so. -/
theorem Moved.taken_prefix (hm : Moved s o s') (obs : List Event) : taken obs s <+: taken (obs ++ o) s' := by
  rcases hm.taken_eq obs with heq | ⟨_, rfl, heq, _⟩
  · rw [heq]
  · rw [List.append_nil, heq]
    exact List.prefix_append ..

/-- A swap takes every line. -/
theorem Stream.of_swap (h : Stream obs s') (hfront : s'.frontTexts = [[]]) :
    (taken obs s').flatten = (appended obs).flatten := by
  have hflat := h.flatten_eq
  rw [hfront, List.flatten_append, List.flatten_singleton, List.append_nil] at hflat
  exact hflat

/-- The back end leaves a round by its swap. -/
theorem Moved.inRound (hm : Moved s o s') (h : s.InRound) : s'.InRound ∨ s'.frontTexts = [[]] := by
  cases hm with
  | line front last held before after pc running => exact .inl (by rwa [InRound, pc])
  | swap pc before held front pc' running => exact .inr front
  | write rest before held front pc' running =>
    rw [heldTexts_of_inRound h] at before
    cases before
  | quiet seen held front pc pc' started => exact .inl (pc h)

/-- Without `running_` it enters no other. -/
theorem Moved.not_inRound (hm : Moved s o s') (hrun : s.running_ = false) (h : ¬ s.InRound) : ¬ s'.InRound := by
  cases hm with
  | line front last held before after pc running => rwa [InRound, pc]
  | swap pc before held front pc' running => exact absurd pc h
  | write rest before held front pc' running =>
    obtain ⟨i, hi⟩ := pc'
    exact AsyncLogging.not_inRound hi nofun nofun
  | quiet seen held front pc pc' started =>
    intro hin
    rcases pc' hin with hin | hrun'
    · exact h hin
    · rw [hrun] at hrun'
      cases hrun'

/-- `running_` is not set again. -/
theorem Moved.stopped (hm : Moved s o s') (hrun : s.running_ = false) (hidle : s.pc ≠ .idle) :
    s'.running_ = false ∧ s'.pc ≠ .idle := by
  cases hm with
  | line front last held before after pc running => exact ⟨running.trans hrun, by rwa [pc]⟩
  | swap pc before held front pc' running => exact ⟨running.trans hrun, by rw [pc']; nofun⟩
  | write rest before held front pc' running =>
    obtain ⟨i, hi⟩ := pc'
    exact ⟨running.trans hrun, by rw [hi]; nofun⟩
  | quiet seen held front pc pc' started =>
    obtain ⟨hpc, hset⟩ := started hidle
    refine ⟨Bool.eq_false_iff.mpr fun heq => ?_, hpc⟩
    rw [hset heq] at hrun
    cases hrun

/-! ### After `stop()` -/

variable {obs₁ obs₂ : List Event} {s₁ : AsyncLogging} {as₁ as₂ : List Action} {data1 data2 : Nat → UInt8}

/-- A moderate run after `stop()` was called in `s₁`, with `obs₁` seen before. -/
structure Stopping (obs₁ : List Event) (s₁ : AsyncLogging) (obs₂ : List Event) (s : AsyncLogging) : Prop where
  spare : Spare s
  stream : Stream (obs₁ ++ obs₂) s
  running : s.running_ = false
  idle : s.pc ≠ .idle
  /-- A back end in a round takes what there is. -/
  flushed : s₁.InRound → s.InRound ∨ (appended obs₁).flatten <+: (taken (obs₁ ++ obs₂) s).flatten
  /-- Any other takes nothing more. -/
  left : ¬ s₁.InRound → ¬ s.InRound ∧ taken (obs₁ ++ obs₂) s = taken obs₁ s₁

theorem stopping_stop (hspare : Spare s₁) (hstream : Stream obs₁ s₁) (he : Enabled s₁ .stop) :
    Stopping obs₁ s₁ [] s₁.stop where
  spare := spare_step hspare he rfl
  stream := by rwa [List.append_nil]
  running := rfl
  idle := he.1
  flushed := .inl
  left := fun hnot => ⟨hnot, by rw [List.append_nil]; rfl⟩

theorem Stopping.moved (h : Stopping obs₁ s₁ obs₂ s) (hm : Moved s o s') (hspare : Spare s') :
    Stopping obs₁ s₁ (obs₂ ++ o) s' := by
  obtain ⟨hrun, hidle⟩ := hm.stopped h.running h.idle
  have hstream := h.stream.moved hm
  have hmore := hm.taken_prefix (obs₁ ++ obs₂)
  have heq := hm.taken_eq (obs₁ ++ obs₂)
  rw [List.append_assoc] at hstream hmore heq
  refine ⟨hspare, hstream, hrun, hidle, fun hin₁ => ?_, fun hnot₁ => ?_⟩
  · rcases h.flushed hin₁ with hin | hpre
    · refine (hm.inRound hin).imp_right fun hfront => ?_
      rw [hstream.of_swap hfront, appended_append, List.flatten_append]
      exact List.prefix_append ..
    · exact .inr (hpre.trans hmore.flatten)
  · obtain ⟨hnot, htaken⟩ := h.left hnot₁
    refine ⟨hm.not_inRound h.running hnot, ?_⟩
    rcases heq with heq | ⟨hin, _⟩
    · exact heq.trans htaken
    · exact absurd hin hnot

theorem stopping_run (h₁ : machine.Run (create data1 data2) as₁ obs₁ s₁) (he : Enabled s₁ .stop)
    (h₂ : machine.Run s₁.stop as₂ obs₂ s) (hmod : Moderate (obs₁ ++ obs₂)) : Stopping obs₁ s₁ obs₂ s := by
  refine h₂.invariant (fun obs₂ s => Moderate (obs₁ ++ obs₂) → Stopping obs₁ s₁ obs₂ s) ?_ ?_ hmod
  · intro hmod
    rw [List.append_nil] at hmod
    exact stopping_stop (spare_run h₁) (stream_run h₁ hmod) he
  · intro obs₂ s a s' o ih hen hs hmod
    rw [← List.append_assoc] at hmod
    obtain ⟨hobs, ho⟩ := moderate_append.mp hmod
    have hbefore := ih hobs
    exact hbefore.moved (moved_step hbefore.spare ho hen hs) (spare_step hbefore.spare hen hs)

/-- **`stop()` flushes the log if it finds the back end in a round.** Let `stop()` be called
in `s₁`, and let the back end be done. Every line logged before the call has been written
exactly if the back end was waiting or about to take the lock, or if `bufs_` and
`curBuf_` held nothing. -/
theorem stop_flushes_iff (h₁ : machine.Run (create data1 data2) as₁ obs₁ s₁) (he : Enabled s₁ .stop)
    (h₂ : machine.Run s₁.stop as₂ obs₂ s) (hdone : s.pc = .done)
    (hline : ∀ line ∈ appended (obs₁ ++ obs₂), line.length < kLarge)
    (hround : ∀ size ∈ rounds (obs₁ ++ obs₂), size ≤ 25) :
    (appended obs₁).flatten <+: (written (obs₁ ++ obs₂)).flatten ↔
      s₁.InRound ∨ (s₁.bufs_.map BufPtr.text).flatten ++ s₁.curBuf_.text = [] := by
  have hmod : Moderate (obs₁ ++ obs₂) := ⟨hline, hround⟩
  have hstopping := stopping_run h₁ he h₂ hmod
  have hheld : s.heldTexts = [] := heldTexts_eq_nil (by rw [hdone]; nofun) (by rw [hdone]; nofun)
  have htaken : taken (obs₁ ++ obs₂) s = written (obs₁ ++ obs₂) := by rw [taken, hheld, List.append_nil]
  by_cases hin : s₁.InRound
  · refine iff_of_true ?_ (.inl hin)
    rcases hstopping.flushed hin with (hpc | hpc) | hpre
    · cases hdone.symm.trans hpc
    · cases hdone.symm.trans hpc
    · rwa [← htaken]
  · -- The lines logged before are what was taken before and what is left behind.
    have hlines : (taken obs₁ s₁).flatten ++ ((s₁.bufs_.map BufPtr.text).flatten ++ s₁.curBuf_.text) =
        (appended obs₁).flatten := by
      rw [← (stream_run h₁ (moderate_append.mp hmod).1).flatten_eq, taken, frontTexts]
      simp
    rw [← htaken, (hstopping.left hin).2, ← hlines, or_iff_right hin]
    constructor
    · intro hpre
      have hlen := hpre.length_le
      rw [List.length_append] at hlen
      exact List.length_eq_zero_iff.mp (by omega)
    · intro hempty
      rw [hempty, List.append_nil]

/-! ### Two runs -/

/-- A run with `stop()` in it, found by executing it. -/
theorem exists_stopped {p : List Event → AsyncLogging → List Event → AsyncLogging → Prop}
    [∀ obs₁ s₁ obs₂ s, Decidable (p obs₁ s₁ obs₂ s)]
    (h : (machine.trace (create data1 data2) as₁).any (fun r => decide (Enabled r.2 .stop ∧
      (machine.trace r.2.stop as₂).any (fun t => decide (p r.1 r.2 t.1 t.2)) = true)) = true) :
    ∃ obs₁ s₁ obs₂ s, machine.Run (create data1 data2) as₁ obs₁ s₁ ∧ Enabled s₁ .stop ∧
      machine.Run s₁.stop as₂ obs₂ s ∧ p obs₁ s₁ obs₂ s := by
  have hfirst : ∃ obs s, machine.Run (create data1 data2) as₁ obs s ∧ Enabled s .stop ∧
      (machine.trace s.stop as₂).any (fun t => decide (p obs s t.1 t.2)) = true := Machine.Run.exists_of_trace h
  obtain ⟨obs₁, s₁, h₁, he, htrace⟩ := hfirst
  obtain ⟨obs₂, s, h₂, hp⟩ := Machine.Run.exists_of_trace htrace
  exact ⟨obs₁, s₁, obs₂, s, h₁, he, h₂, hp⟩

/-- The back end waits, with a line in `curBuf_`. -/
def loggedThenWaiting : List Action :=
  [.start, .threadFunc (fun _ => 1) fun _ => 2, .append (ascii "ab") fun _ => 0, .test, .enter]

theorem stop_flushes_iff_waiting :
    ∃ obs₁ s₁ obs₂ s, machine.Run (create (fun _ => 3) fun _ => 4) loggedThenWaiting obs₁ s₁ ∧
      machine.Run s₁.stop [.wake, .drop 0, .write, .refill, .test] obs₂ s ∧ s₁.pc = .waiting ∧
      written (obs₁ ++ obs₂) = [ascii "ab"] ∧
      ((appended obs₁).flatten <+: (written (obs₁ ++ obs₂)).flatten ↔
        s₁.InRound ∨ (s₁.bufs_.map BufPtr.text).flatten ++ s₁.curBuf_.text = []) := by
  have hrun : ∃ obs₁ s₁ obs₂ s, machine.Run (create (fun _ => 3) fun _ => 4) loggedThenWaiting obs₁ s₁ ∧
      Enabled s₁ .stop ∧ machine.Run s₁.stop [.wake, .drop 0, .write, .refill, .test] obs₂ s ∧
      s.pc = .done ∧ (∀ line ∈ appended (obs₁ ++ obs₂), line.length < kLarge) ∧
      (∀ size ∈ rounds (obs₁ ++ obs₂), size ≤ 25) ∧ s₁.pc = .waiting ∧
      written (obs₁ ++ obs₂) = [ascii "ab"] := exists_stopped (by decide +kernel)
  obtain ⟨obs₁, s₁, obs₂, s, h₁, he, h₂, hdone, hline, hround, hpc, hwritten⟩ := hrun
  exact ⟨obs₁, s₁, obs₂, s, h₁, h₂, hpc, hwritten, stop_flushes_iff h₁ he h₂ hdone hline hround⟩

/-- The back end has swapped, and a line is logged before it writes. -/
def swappedThenLogged : List Action :=
  [.start, .threadFunc (fun _ => 1) fun _ => 2, .test, .enter, .wake, .append (ascii "ab") fun _ => 0, .drop 0]

/-- When `stop()` is called now, the line is not written. -/
theorem stop_loses_line :
    ∃ obs₁ s₁ obs₂ s, machine.Run (create (fun _ => 3) fun _ => 4) swappedThenLogged obs₁ s₁ ∧
      Enabled s₁ .stop ∧ machine.Run s₁.stop [.write, .refill, .test] obs₂ s ∧ s.pc = .done ∧
      (∀ line ∈ appended (obs₁ ++ obs₂), line.length < kLarge) ∧
      (∀ size ∈ rounds (obs₁ ++ obs₂), size ≤ 25) ∧
      appended obs₁ = [ascii "ab"] ∧ written (obs₁ ++ obs₂) = [[]] :=
  exists_stopped (by decide +kernel)

end Chtho.Logging.AsyncLogging
