import Chtho.Net.EventLoop

/-! Who wakes the loop.

`queueInLoop` writes the eventfd when it is called in another thread or while the
loop runs its pending functors. In an event handler it need not: the loop reaches
`doPendingFuncs` before it polls again. Before `loop()` is entered it would have to,
and does not: a functor queued there waits out the first `poll`. Without such calls
the loop never polls with functors pending unless the eventfd is readable or the
thread that pushed is about to make it so. -/
namespace Chtho.Net.EventLoop
open Lib

variable {φ τ : Type}

/-- Nothing is pending, or `poll` will be told. -/
def Covered (me : τ) (s : EventLoop φ τ) : Prop :=
  s.queue.pending = [] ∨ 0 < s.wakeupFd ∨ ∃ t, t ≠ me ∧ s.call t = .queueing

/-- The loop thread does not queue functors outside `loop()`. -/
def QueuesInside (me : τ) (s : EventLoop φ τ) (a : Action φ τ) : Prop :=
  ∀ f, a = .push me f → s.pc ≠ .outside

/-- Between the events and the swap nothing is owed; elsewhere what is pending is
covered, or the loop thread is on its way from a push to `wakeup()`. -/
structure Awake (me : τ) (s : EventLoop φ τ) : Prop where
  calling : s.callingPendingCBs = true ↔ s.pc = .swapping ∨ s.pc = .running
  covered : (∀ active, s.pc ≠ .dispatching active) → s.pc ≠ .swapping →
    Covered me s ∨ s.pc = .running ∧ s.call me = .queueing
  inside : s.call me = .queueing → s.pc ≠ .outside

theorem wakeup_pos (s : EventLoop φ τ) : 0 < s.wakeup.wakeupFd := by
  show 0 < if s.wakeupFd < eventfdMax then s.wakeupFd + 1 else s.wakeupFd
  by_cases h : s.wakeupFd < eventfdMax
  · rw [if_pos h]
    omega
  · rw [if_neg h]
    unfold eventfdMax at h
    omega

theorem covered_wakeup (me : τ) (s : EventLoop φ τ) : Covered me s.wakeup := .inr (.inl (wakeup_pos s))

theorem awake_create (me : τ) : Awake me (create φ τ) :=
  ⟨by simp [create], fun _ _ => .inl (.inl rfl), nofun⟩

variable [DecidableEq τ] {me : τ} {s s' : EventLoop φ τ} {a : Action φ τ} {o : List (Event φ)}

/-- A step of another thread's call that ends in a wakeup. -/
theorem awake_wakeup (h : Awake me s) (t : τ) (c : Call) (hc : c ≠ .queueing) :
    Awake me ({s with call := Function.update s.call t c} : EventLoop φ τ).wakeup := by
  refine ⟨h.calling, fun _ _ => .inl (covered_wakeup me _), ?_⟩
  intro hq
  by_cases ht : me = t
  · subst ht
    exact absurd ((Function.update_self ..).symm.trans hq) hc
  · exact h.inside ((Function.update_of_ne ht ..).symm.trans hq)

/-- Calls that are neither begun nor ended by a step cover as before. -/
theorem Covered.update {c : Call} (h : Covered me s) (t : τ) (ht : s.call t ≠ .queueing) :
    Covered me ({s with call := Function.update s.call t c} : EventLoop φ τ) := by
  rcases h with h | h | ⟨u, hu, hq⟩
  · exact .inl h
  · exact .inr (.inl h)
  · refine .inr (.inr ⟨u, hu, ?_⟩)
    have hne : u ≠ t := by
      rintro rfl
      exact ht hq
    exact (Function.update_of_ne hne ..).trans hq

omit [DecidableEq τ] in
/-- A loop thread in no call has pushed nothing that it owes a wakeup for. -/
theorem Awake.covered_idle (h : Awake me s) (hself : s.call me = .none) (hd : ∀ active, s.pc ≠ .dispatching active)
    (hsw : s.pc ≠ .swapping) : Covered me s := by
  refine (h.covered hd hsw).resolve_right ?_
  rintro ⟨_, hq⟩
  cases hself.symm.trans hq

/-- Calls of `quit` begin and end. -/
theorem Awake.update (h : Awake me s) {t : τ} {c : Call} (ht : s.call t ≠ .queueing) (hc : c ≠ .queueing) :
    Awake me ({s with call := Function.update s.call t c} : EventLoop φ τ) := by
  have hself : Function.update s.call t c me = .queueing → s.call me = .queueing := by
    intro hq
    by_cases hme : me = t
    · subst hme
      exact absurd ((Function.update_self ..).symm.trans hq) hc
    · exact (Function.update_of_ne hme ..).symm.trans hq
  refine ⟨h.calling, fun hd hsw => ?_, fun hq => h.inside (hself hq)⟩
  rcases h.covered hd hsw with hcov | ⟨hr, hq⟩
  · exact .inl (hcov.update t ht)
  · have hne : me ≠ t := by
      rintro rfl
      exact ht hq
    exact .inr ⟨hr, (Function.update_of_ne hne ..).trans hq⟩

/-- `push_back`: another thread owes a wakeup, and the loop thread comes to the functors itself. -/
theorem Awake.push (h : Awake me s) {t : τ} {f : φ} (he : Enabled me s (.push t f)) (hC : QueuesInside me s (.push t f)) :
    Awake me {s with queue := s.queue.post f, call := Function.update s.call t .queueing} := by
  by_cases ht : t = me
  · subst ht
    have hout := hC f rfl
    -- the loop thread's own push: in an event handler or in a functor
    refine ⟨h.calling, fun hd hsw => .inr ⟨?_, Function.update_self ..⟩, fun _ => hout⟩
    have hu := he.2 rfl
    cases hpc : s.pc with
    | running => rfl
    | outside => exact absurd hpc hout
    | dispatching active => exact absurd hpc (hd active)
    | _ => rw [hpc] at hu; cases hu
  · refine ⟨h.calling, fun _ _ => .inl (.inr (.inr ⟨t, ht, Function.update_self ..⟩)), ?_⟩
    intro hq
    exact h.inside ((Function.update_of_ne (fun e => ht e.symm) ..).symm.trans hq)

/-- The loop thread leaves the wakeup out where it is not running functors. -/
theorem Awake.pushed (h : Awake me s) (hcalling : ¬ s.callingPendingCBs = true) :
    Awake me {s with call := Function.update s.call me .none} := by
  have hrun : s.pc ≠ .running := fun hr => hcalling (h.calling.mpr (.inr hr))
  refine ⟨h.calling, fun hd hsw => .inl ?_, fun hq => ?_⟩
  · rcases h.covered hd hsw with hcov | ⟨hr, _⟩
    · rcases hcov with hp | hw | ⟨u, hu, hq⟩
      · exact .inl hp
      · exact .inr (.inl hw)
      · exact .inr (.inr ⟨u, hu, (Function.update_of_ne hu ..).trans hq⟩)
    · exact absurd hr hrun
  · cases (Function.update_self ..).symm.trans hq

theorem awake_step (h : Awake me s) (he : Enabled me s a) (hC : QueuesInside me s a)
    (hs : step me s a = some (s', o)) : Awake me s' := by
  cases a with
  | push t f =>
    obtain ⟨rfl, rfl⟩ := Prod.mk.inj (Option.some.inj hs)
    exact h.push he hC
  | pushed t =>
    obtain ⟨rfl, rfl⟩ := Prod.mk.inj (Option.some.inj hs)
    split
    · exact awake_wakeup h t .none nofun
    case isFalse hno =>
      rw [not_or, not_not] at hno
      obtain ⟨rfl, hcall⟩ := hno
      exact h.pushed hcall
  | setQuit t =>
    obtain ⟨rfl, rfl⟩ := Prod.mk.inj (Option.some.inj hs)
    have hidle : s.call t ≠ .queueing := by rw [he.1]; nofun
    have hupdate := h.update (c := .quitting) hidle nofun
    exact ⟨hupdate.calling, hupdate.covered, hupdate.inside⟩
  | quitSet t =>
    obtain ⟨rfl, rfl⟩ := Prod.mk.inj (Option.some.inj hs)
    split
    · exact awake_wakeup h t .none nofun
    case isFalse hno =>
      rw [not_not] at hno
      subst hno
      have hidle : s.call t ≠ .queueing := by
        have hq : s.call t = .quitting := he
        rw [hq]
        nofun
      exact h.update hidle nofun
  | loop =>
    obtain ⟨_, hs⟩ := assert_bind_eq_some_iff.mp hs
    obtain ⟨rfl, rfl⟩ := Prod.mk.inj (Option.some.inj hs)
    obtain ⟨hself, hpc⟩ := he
    have hcov := h.covered_idle hself (by rw [hpc]; nofun) (by rw [hpc]; nofun)
    have hcalling := h.calling
    rw [hpc] at hcalling
    exact ⟨by simpa using hcalling, fun _ _ => .inl hcov, nofun⟩
  | test =>
    obtain ⟨hself, hpc⟩ := he
    have hcov := h.covered_idle hself (by rw [hpc]; nofun) (by rw [hpc]; nofun)
    have hcalling := h.calling
    rw [hpc] at hcalling
    simp only [step] at hs
    split at hs
    · obtain ⟨rfl, rfl⟩ := Prod.mk.inj (Option.some.inj hs)
      refine ⟨by simpa using hcalling, fun _ _ => .inl hcov, fun hq => ?_⟩
      have hq : s.call me = .queueing := hq
      cases hself.symm.trans hq
    · obtain ⟨rfl, rfl⟩ := Prod.mk.inj (Option.some.inj hs)
      exact ⟨by simpa using hcalling, fun _ _ => .inl hcov, nofun⟩
  | poll active =>
    obtain ⟨rfl, rfl⟩ := Prod.mk.inj (Option.some.inj hs)
    have hcalling := h.calling
    rw [he.2.1] at hcalling
    exact ⟨by simpa using hcalling, fun hd _ => absurd rfl (hd active), nofun⟩
  | handleEvent =>
    obtain ⟨_, c, rest, hpc⟩ := he
    have hcalling := h.calling
    simp only [step, hpc] at hs
    obtain ⟨rfl, rfl⟩ := Prod.mk.inj (Option.some.inj hs)
    rw [hpc] at hcalling
    split
    all_goals exact ⟨by simpa [handleRead] using hcalling, fun hd _ => absurd rfl (hd rest), nofun⟩
  | doPendingFuncs =>
    obtain ⟨rfl, rfl⟩ := Prod.mk.inj (Option.some.inj hs)
    exact ⟨by simp, fun _ hsw => absurd rfl hsw, nofun⟩
  | swap =>
    obtain ⟨rfl, rfl⟩ := Prod.mk.inj (Option.some.inj hs)
    have hcalling := h.calling
    rw [he.2] at hcalling
    exact ⟨by simpa using hcalling, fun _ _ => .inl (.inl rfl), nofun⟩
  | func =>
    simp only [step, Option.bind_eq_bind, Option.bind_eq_some_iff, Prod.exists] at hs
    obtain ⟨f, q, hq, hs⟩ := hs
    obtain ⟨rfl, rfl⟩ := Prod.mk.inj (Option.some.inj hs)
    refine ⟨h.calling, fun hd hsw => ?_, h.inside⟩
    rcases h.covered hd hsw with hcov | hmid
    · refine .inl (hcov.imp_left fun hp => ?_)
      exact (Mailbox.next_eq_some hq).2.trans hp
    · exact .inr hmid
  | finish =>
    obtain ⟨rfl, rfl⟩ := Prod.mk.inj (Option.some.inj hs)
    obtain ⟨hself, hpc, _⟩ := he
    have hcov := h.covered_idle hself (by rw [hpc]; nofun) (by rw [hpc]; nofun)
    exact ⟨by simp, fun _ _ => .inl hcov, nofun⟩

/-- **No wakeup is lost inside the loop.** In every run in which the loop thread does
not queue functors outside `loop()`, whenever it is in `poller_->poll` with functors
pending, the eventfd is readable or another thread is between its `push_back` and its
`wakeup()`. -/
theorem no_lost_wakeup {as : List (Action φ τ)} {obs : List (Event φ)}
    (h : ((machine me).restrict (QueuesInside me)).Run (create φ τ) as obs s)
    (hpoll : s.pc = .polling) (hpending : s.queue.pending ≠ []) :
    0 < s.wakeupFd ∨ ∃ t, t ≠ me ∧ s.call t = .queueing := by
  have hawake : Awake me s := by
    refine h.invariant (fun _ s => Awake me s) (awake_create me) ?_
    rintro obs s a s' o hI ⟨he, hC⟩ hs
    exact awake_step hI he hC hs
  rcases hawake.covered (by rw [hpoll]; nofun) (by rw [hpoll]; nofun) with hcov | ⟨hr, _⟩
  · exact hcov.resolve_left hpending
  · rw [hpoll] at hr
    cases hr

/-- Thread `true` is the loop's. Another thread queues 7 and stops short of its
wakeup while the loop polls. -/
def pushedWhilePolling : List (Action Nat Bool) := [.loop, .test, .push false 7]

theorem no_lost_wakeup_pushedWhilePolling :
    ∃ obs s, ((machine true).restrict (QueuesInside true)).Run (create Nat Bool) pushedWhilePolling obs s ∧
      s.pc = .polling ∧ s.queue.pending = [7] ∧ (0 < s.wakeupFd ∨ ∃ t, t ≠ true ∧ s.call t = .queueing) := by
  have hrun : ((machine true).restrict (QueuesInside true)).Run (create Nat Bool) pushedWhilePolling _ _ :=
    .cons ⟨by decide, nofun⟩ rfl (.cons ⟨by decide, nofun⟩ rfl (.cons ⟨by decide, nofun⟩ rfl .nil))
  exact ⟨_, _, hrun, rfl, rfl, no_lost_wakeup hrun rfl (by decide)⟩

/-- The loop thread queues 7 before it enters `loop()`: the loop polls with 7 pending,
the eventfd not readable and no thread about to write it. -/
theorem lost_wakeup_before_loop :
    ∃ obs s, (machine true).Run (create Nat Bool) [.push true 7, .pushed true, .loop, .test] obs s ∧
      s.pc = .polling ∧ s.queue.pending = [7] ∧ s.wakeupFd = 0 ∧ ∀ t, s.call t = .none := by
  have hrun : (machine true).Run (create Nat Bool) [.push true 7, .pushed true, .loop, .test] _ _ :=
    .cons (by decide) rfl (.cons (by decide) rfl (.cons (by decide) rfl (.cons (by decide) rfl .nil)))
  exact ⟨_, _, hrun, rfl, rfl, rfl, by decide⟩

end Chtho.Net.EventLoop
