import Chtho.Net.TimerQueue.Moves
import Mathlib.Order.MinMax

/-! The timerfd does not miss a timer.

It is set where a timer becomes the earliest, and after each batch. In between nothing may
be lost: a batch takes the expiration the fd was armed with, so until `reset` a timer is
either not before the start of the batch, and `reset` will find it, or it came later, and
then the fd was set for it or for an earlier one (`Ready`). `reset` passes over an earliest
timer whose time is not positive. Such a timer is before the start of the batch if the clock
is positive, as it is since the epoch. -/
namespace Chtho.Net.TimerQueue
open Lib

/-- The timerfd is readable, or it will be by the time a timer expires, or 100 microseconds after
it was last set. -/
def Armed (s : TimerQueue) (time : Int) : Prop :=
  ∃ d, s.timerfd = some d ∧ (d ≤ s.clock ∨ d ≤ time ∨ d ≤ s.lastReset + 100)

/-- When the batch began. -/
def Phase.start : Phase → Option Int
  | .outside => none
  | .calling now _ _ | .resetting now _ => some now

structure Ready (s : TimerQueue) : Prop where
  clock : 0 < s.clock
  start : ∀ now, s.phase.start = some now → 0 < now
  armed : ∀ x ∈ s.timers.elems, (∃ now, s.phase.start = some now ∧ now ≤ x.time) ∨ s.Armed x.time

variable {s s' : TimerQueue} {act : Action} {obs o : List Event} {a : Addr} {t : Timer}

theorem Armed.mono {e e' : Int} (h : s.Armed e) (hle : e ≤ e') : s.Armed e' := by
  obtain ⟨d, hd, hreadable | htime | hreset⟩ := h
  · exact ⟨d, hd, .inl hreadable⟩
  · exact ⟨d, hd, .inr (.inl (htime.trans hle))⟩
  · exact ⟨d, hd, .inr (.inr hreset)⟩

/-- Setting the timerfd for a time is enough for all that expire no earlier. -/
theorem armed_armed (s : TimerQueue) (now : Int) {exp time : Int} (hle : exp ≤ time) : (s.armed now exp).Armed time := by
  obtain ⟨haccepted, hne⟩ := accepted_sub exp now
  refine ⟨now + (Timestamp.sub exp now).us, ?_, ?_⟩
  · simp [armed, resetTimerfd, settime, haccepted, hne]
  · rw [us_sub]
    split
    · exact .inr (.inr le_rfl)
    · exact .inr (.inl (by omega))

/-- The order of the entries is first that of their times. -/
theorem time_le_of_le {x y : Entry} (h : x ≤ y) : x.time ≤ y.time := by
  rcases Prod.Lex.le_iff.mp h with hlt | heq
  · exact hlt.le
  · exact heq.1.le

theorem le_time_of_earliest {exp : Int} (h : s.earliest exp = true) {x : Entry} (hx : x ∈ s.timers.elems) :
    exp ≤ x.time := by
  unfold earliest at h
  cases hfirst : s.timers.first with
  | none =>
    rw [s.timers.first_eq_none.mp hfirst] at hx
    cases hx
  | some y =>
    rw [hfirst] at h
    have hlt : exp < y.time := by simpa using h
    exact hlt.le.trans (time_le_of_le (s.timers.first_le hfirst hx))

theorem exists_le_of_not_earliest {exp : Int} (h : s.earliest exp = false) : ∃ x ∈ s.timers.elems, x.time ≤ exp := by
  unfold earliest at h
  cases hfirst : s.timers.first with
  | none =>
    rw [hfirst] at h
    cases h
  | some y =>
    rw [hfirst] at h
    exact ⟨y, s.timers.first_mem hfirst, by simpa using h⟩

/-- What `handleRead` leaves is not before it. -/
theorem le_time_of_mem_dropBefore {now : Int} {x : Entry} (hx : x ∈ (s.timers.dropBefore (entry now UINTPTR_MAX)).elems) :
    now ≤ x.time :=
  time_le_of_le (s.timers.le_of_mem_dropBefore hx)

/-- A timer that is not the earliest is armed for where the earliest is. -/
theorem Ready.added (h : Ready s) (hnot : s.earliest t.expir = false) :
    Ready (inserted {s with created := s.created.erase a} a t) := by
  refine ⟨h.clock, h.start, fun x hx => ?_⟩
  rcases (OrdSet.mem_insert _).mp hx with rfl | hx
  · obtain ⟨y, hy, hle⟩ := exists_le_of_not_earliest hnot
    rcases h.armed y hy with ⟨now, hstart, hnow⟩ | harmed
    · exact .inl ⟨now, hstart, hnow.trans hle⟩
    · exact .inr (harmed.mono hle)
  · exact h.armed x hx

/-- When the timerfd is set for the earliest timer, it is set for all. -/
theorem Ready.set {now exp : Int} (hclock : 0 < s.clock) (hstart : ∀ now, s.phase.start = some now → 0 < now)
    (hnow : s.clock ≤ now) (hle : ∀ x ∈ s.timers.elems, exp ≤ x.time) : Ready (s.armed now exp) := by
  refine ⟨?_, hstart, fun x hx => .inr (armed_armed s now (hle x hx))⟩
  show 0 < now
  omega

/-- A step within the batch, or out of it, that adds only timers which are not before its start. -/
theorem Ready.same (h : Ready s) (hclock : s'.clock = s.clock) (hstart : s'.phase.start = s.phase.start)
    (hfd : s'.timerfd = s.timerfd) (hreset : s'.lastReset = s.lastReset)
    (htimers : ∀ x ∈ s'.timers.elems, x ∈ s.timers.elems ∨ ∃ now, s.phase.start = some now ∧ now ≤ x.time) :
    Ready s' where
  clock := hclock ▸ h.clock
  start := hstart ▸ h.start
  armed := fun x hx => by
    unfold Armed
    rw [hstart, hfd, hclock, hreset]
    exact (htimers x hx).elim (h.armed x) .inl

theorem Ready.step (h : Ready s) (hm : Moved s act s' o) : Ready s' := by
  cases hm with
  | create a expir interval hnone hbound => exact h.same rfl rfl rfl rfl fun _ => .inl
  | createElsewhere => exact h.same rfl rfl rfl rfl fun _ => .inl
  | added a t now _ ha ht hnot => exact h.added hnot
  | addedFirst a t now _ ha ht hfirst hnow =>
    refine Ready.set (s := inserted {s with created := s.created.erase a} a t) h.clock h.start hnow fun x hx => ?_
    rcases (OrdSet.mem_insert _).mp hx with rfl | hx
    · exact le_rfl
    · exact le_time_of_earliest hfirst hx
  | cancelled a t _ hmem ht => exact h.same rfl rfl rfl rfl fun x hx => .inl ((OrdSet.mem_erase _).mp hx).2
  | deferred id => exact h.same rfl rfl rfl rfl fun _ => .inl
  | missed id => exact h
  | handleRead now active hphase hnow hagree =>
    have hpos : 0 < now := by
      have := h.clock
      omega
    refine ⟨hpos, fun start hstart => ?_, fun x hx => .inl ⟨now, rfl, le_time_of_mem_dropBefore hx⟩⟩
    rw [← Option.some.inj hstart]
    exact hpos
  | run now done todo x t hphase ht => exact h.same rfl (by rw [hphase]; rfl) rfl rfl fun _ => .inl
  | reset now done hphase => exact h.same rfl (by rw [hphase]; rfl) rfl rfl fun _ => .inl
  | restarted now x rest t us hphase ht hus hnot =>
    refine h.same rfl (by rw [hphase]; rfl) rfl rfl fun y hy => ?_
    rcases (OrdSet.mem_insert _).mp hy with rfl | hy
    · refine .inr ⟨now, by rw [hphase]; rfl, ?_⟩
      show now ≤ now + us
      omega
    · exact .inl hy
  | dropped now x rest t hphase ht => exact h.same rfl (by rw [hphase]; rfl) rfl rfl fun _ => .inl
  | finished start now hphase hpast =>
    refine ⟨h.clock, (fun _ hnone => by cases hnone), fun y hy => .inr ?_⟩
    cases hfirst : s.timers.first with
    | none =>
      rw [s.timers.first_eq_none.mp hfirst] at hy
      cases hy
    | some x =>
      have hle := time_le_of_le (s.timers.first_le hfirst hy)
      rcases h.armed x (s.timers.first_mem hfirst) with ⟨now', hnow', hx⟩ | harmed
      · -- an earliest timer from the start of the batch on is not passed over
        have hpos := h.start now' hnow'
        have hpast := hpast x hfirst
        omega
      · exact harmed.mono hle
  | finishedArmed start now x hphase hfirst hpos hnow =>
    refine Ready.set (s := {s with phase := .outside}) h.clock (fun _ hnone => by cases hnone) hnow fun y hy => ?_
    exact time_le_of_le (s.timers.first_le hfirst hy)

/-! ### Runs -/

/-- The kernel takes the value, and it is not a request to disarm. -/
def Event.Accepted : Event → Prop
  | .settime value => value.Accepted ∧ value ≠ ⟨0, 0⟩
  | .added _ _ | .run _ | .deleted _ | .batchDone => True

theorem Moved.accepted (hm : Moved s act s' o) : ∀ e ∈ o, e.Accepted := by
  cases hm with
  | addedFirst a t now =>
    intro e he
    rcases List.mem_cons.mp he with rfl | he
    · trivial
    · rw [List.mem_singleton.mp he]
      exact accepted_sub _ _
  | finishedArmed start now x =>
    intro e he
    rw [List.mem_singleton.mp he]
    exact accepted_sub _ _
  | _ => simp [Event.Accepted]

/-- While there are timers and no batch, the timerfd is readable or armed in time, and every value
it was armed with is one the kernel takes. That `gettimeofday` is past the epoch, `0 < clock`, is
assumed. -/
theorem none_forgotten {calling : Bool} {numCreated : Nat} {clock : Int} {as : List Action} (hclock : 0 < clock)
    (h : machine.Run (create calling numCreated clock) as obs s) :
    (s.phase = .outside → ∀ x, s.timers.first = some x →
      ∃ d, s.timerfd = some d ∧ (d ≤ s.clock ∨ d ≤ max x.time (s.lastReset + 100))) ∧
    ∀ value, .settime value ∈ obs →
      value ≠ ⟨0, 0⟩ ∧ 0 ≤ value.sec ∧ 0 ≤ value.nsec ∧ value.nsec < 1000000000 := by
  have hinv := h.invariant (fun obs s => Inv s ∧ Ready s ∧ ∀ e ∈ obs, e.Accepted)
    ⟨inv_create _ _ _, ⟨hclock, (fun _ hnone => by cases hnone), (fun _ hx => by cases hx)⟩, by simp⟩
    fun obs s act s' o hs he hstep => ?_
  · obtain ⟨-, hready, haccepted⟩ := hinv
    refine ⟨fun hphase x hfirst => ?_, fun value hvalue => ?_⟩
    · rcases hready.armed x (s.timers.first_mem hfirst) with ⟨now, hstart, -⟩ | ⟨d, hd, hdue⟩
      · rw [hphase] at hstart
        cases hstart
      · exact ⟨d, hd, hdue.imp_right le_max_iff.mpr⟩
    · obtain ⟨haccepted, hne⟩ := haccepted _ hvalue
      exact ⟨hne, haccepted⟩
  · obtain ⟨hinv, hready, haccepted⟩ := hs
    obtain ⟨u, o', hu, hm⟩ := hinv.moved he
    obtain ⟨rfl, rfl⟩ := Prod.mk.inj (Option.some.inj (hstep.symm.trans hu))
    refine ⟨hinv.step hm, hready.step hm, fun e he => ?_⟩
    exact (List.mem_append.mp he).elim (haccepted e) (hm.accepted e)

/-- A timer in the past is added in a callback, before one that repeats is restarted. -/
theorem none_forgotten_past :
    ∃ obs s, machine.Run (create false 0 1000)
      [.create 16 2000 (some 0), .addTimerInLoop 16 1000, .handleRead 2000, .run, .create 32 (-5) none,
        .addTimerInLoop 32 2050, .reset, .resetTimer, .finish 2060] obs s ∧
      (s.phase.start = none ∧ .settime ⟨0, 100000⟩ ∈ obs ∧ s.timers.first = some (entry (-5) 32)) ∧
      (s.phase = .outside → ∀ x, s.timers.first = some x →
        ∃ d, s.timerfd = some d ∧ (d ≤ s.clock ∨ d ≤ max x.time (s.lastReset + 100))) ∧
      ∀ value, .settime value ∈ obs →
        value ≠ ⟨0, 0⟩ ∧ 0 ≤ value.sec ∧ 0 ≤ value.nsec ∧ value.nsec < 1000000000 := by
  have hrun : ∃ obs s, machine.Run (create false 0 1000)
      [.create 16 2000 (some 0), .addTimerInLoop 16 1000, .handleRead 2000, .run, .create 32 (-5) none,
        .addTimerInLoop 32 2050, .reset, .resetTimer, .finish 2060] obs s ∧
      (s.phase.start = none ∧ .settime ⟨0, 100000⟩ ∈ obs ∧ s.timers.first = some (entry (-5) 32)) :=
    Machine.Run.exists_of_trace (by decide +kernel)
  obtain ⟨obs, s, hrun, hfacts⟩ := hrun
  exact ⟨obs, s, hrun, hfacts, none_forgotten (by decide) hrun⟩

end Chtho.Net.TimerQueue
