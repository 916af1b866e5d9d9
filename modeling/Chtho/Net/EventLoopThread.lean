import Chtho.Net.Wakeup

/-! `EventLoopThread`: a loop that lives in the stack frame of its own thread, and the
owner that ends it.

`func` publishes the loop before it calls `loop()`, and `loop()` begins with `quit_ = false`.
The owner may call `quit()` as soon as `startLoop` has returned. A call that comes between
the two is undone (`quit_kept_iff`): the wakeup it sends ends one `poll`, and the loop goes on.
Once `loop()` has been entered nothing sets `quit_` back, and the loop thread can run to its end.

The loop is that of `EventLoop`, with the threads `me` and `owner` among others. -/
namespace Chtho.Net
open Lib

namespace EventLoopThread

/-- Where the thread is in `func`. -/
inductive Func where
  | unstarted
  /-- The loop exists, and `cb_` runs. -/
  | initializing
  /-- `loop_` is set, and `loop()` is not entered. -/
  | published
  /-- In `loop()`, or back from it. -/
  | looping
  /-- `loop_` is null again, and the loop is gone. -/
  | done
deriving DecidableEq, Repr

/-- Where the owner is. -/
inductive Owner where
  | constructed
  /-- In `startLoop`, waiting for `loop_`. -/
  | starting
  /-- Behind `startLoop`. -/
  | running
  /-- In the destructor, having found `loop_` set. -/
  | quitting
  /-- In `thread_.join()`, or still in the call of `quit` before it. -/
  | joining
  | destroyed
deriving DecidableEq, Repr

inductive Action (φ τ : Type) where
  | startLoop
  | publish
  | loopStarted
  /-- The owner's call of `quit`, up to `quit_ = true`. -/
  | quit
  | destroy
  | clear
  | join
  /-- A step of the loop, or of a thread in a call of it. -/
  | run (a : EventLoop.Action φ τ)

end EventLoopThread

structure EventLoopThread (φ τ : Type) where
  loop_ : Bool
  exiting_ : Bool
  /-- The local variable of `func`. -/
  loop : EventLoop φ τ
  func : EventLoopThread.Func
  owner : EventLoopThread.Owner

namespace EventLoopThread
variable {φ τ : Type}

def create (φ τ : Type) : EventLoopThread φ τ := ⟨false, false, .create φ τ, .unstarted, .constructed⟩

variable [DecidableEq τ] (me owner : τ) (s : EventLoopThread φ τ)

/-- Who may do what with the loop: its own thread in `cb_` and in `loop()`, others as soon as
it is published, and the owner behind `startLoop`. `loop()` is called once. -/
def Allowed : EventLoop.Action φ τ → Prop
  | .loop => s.func = .published
  | .push t _ =>
    if t = me then s.func = .initializing ∨ s.func = .looping
    else (s.func = .published ∨ s.func = .looping) ∧ (t = owner → s.owner = .running)
  | .setQuit t =>
    if t = me then s.func = .initializing ∨ s.func = .looping
    else (s.func = .published ∨ s.func = .looping) ∧ t ≠ owner
  | .pushed _ | .quitSet _ | .test | .poll _ | .handleEvent | .doPendingFuncs | .swap | .func | .finish => s.func ≠ .done

def Enabled : Action φ τ → Prop
  | .startLoop => s.owner = .constructed
  | .publish => s.func = .initializing ∧ s.loop.call me = .none
  | .loopStarted => s.owner = .starting ∧ s.loop_ = true
  | .quit => (s.owner = .running ∨ s.owner = .quitting) ∧ s.loop.call owner = .none
  | .destroy => s.owner = .running ∧ s.loop.call owner = .none
  | .clear => s.func = .looping ∧ s.loop.pc = .outside ∧ s.loop.call me = .none
  | .join => s.owner = .joining ∧ s.func = .done
  | .run a => s.Allowed me owner a ∧ EventLoop.Enabled me s.loop a

def step : Action φ τ → Option (EventLoopThread φ τ × List (EventLoop.Event φ))
  | .startLoop => do
    assert (s.func = .unstarted)
    some ({s with func := .initializing, owner := .starting}, [])
  | .publish => some ({s with loop_ := true, func := .published}, [])
  | .loopStarted => some ({s with owner := .running}, [])
  | .quit => do
    -- a loop that is gone is not there to be called
    assert (s.func ≠ .done)
    let (loop, o) ← s.loop.step me (.setQuit owner)
    some ({s with loop := loop, owner := if s.owner = .quitting then .joining else s.owner}, o)
  | .destroy => some ({s with exiting_ := true, owner := if s.loop_ then .quitting else .destroyed}, [])
  | .clear => some ({s with loop_ := false, func := .done}, [])
  | .join => some ({s with owner := .destroyed}, [])
  | .run a => do
    let (loop, o) ← s.loop.step me a
    let func := match a with
      | .loop => .looping
      | _ => s.func
    some ({s with loop := loop, func := func}, o)

def machine : Machine (EventLoopThread φ τ) (Action φ τ) (EventLoop.Event φ) :=
  ⟨fun s a => s.Enabled me owner a, fun s a => s.step me owner a⟩

instance (a : EventLoop.Action φ τ) : Decidable (s.Allowed me owner a) :=
  match a with
  | .loop => inferInstanceAs (Decidable (s.func = .published))
  | .push t _ =>
    inferInstanceAs (Decidable (if t = me then s.func = .initializing ∨ s.func = .looping
      else (s.func = .published ∨ s.func = .looping) ∧ (t = owner → s.owner = .running)))
  | .setQuit t =>
    inferInstanceAs (Decidable (if t = me then s.func = .initializing ∨ s.func = .looping
      else (s.func = .published ∨ s.func = .looping) ∧ t ≠ owner))
  | .pushed _ | .quitSet _ | .test | .poll _ | .handleEvent | .doPendingFuncs | .swap | .func | .finish =>
    inferInstanceAs (Decidable (s.func ≠ .done))

instance (a : Action φ τ) : Decidable (s.Enabled me owner a) :=
  match a with
  | .startLoop => inferInstanceAs (Decidable (s.owner = .constructed))
  | .publish => inferInstanceAs (Decidable (s.func = .initializing ∧ s.loop.call me = .none))
  | .loopStarted => inferInstanceAs (Decidable (s.owner = .starting ∧ s.loop_ = true))
  | .quit => inferInstanceAs (Decidable ((s.owner = .running ∨ s.owner = .quitting) ∧ s.loop.call owner = .none))
  | .destroy => inferInstanceAs (Decidable (s.owner = .running ∧ s.loop.call owner = .none))
  | .clear => inferInstanceAs (Decidable (s.func = .looping ∧ s.loop.pc = .outside ∧ s.loop.call me = .none))
  | .join => inferInstanceAs (Decidable (s.owner = .joining ∧ s.func = .done))
  | .run a => inferInstanceAs (Decidable (s.Allowed me owner a ∧ EventLoop.Enabled me s.loop a))

instance (a : Action φ τ) : Decidable ((machine me owner).enabled s a) :=
  inferInstanceAs (Decidable (s.Enabled me owner a))

end EventLoopThread

/-! ### The loop alone -/

namespace EventLoop
variable {φ τ : Type} [DecidableEq τ] {me : τ} {s s' : EventLoop φ τ} {a : Action φ τ} {o : List (Event φ)}

/-- Outside `loop()` only calls are made, and entering it is the only way in. -/
theorem step_outside (hpc : s.pc = .outside) (hlooping : s.looping = false) (he : Enabled me s a) (ha : a ≠ .loop)
    (hs : step me s a = some (s', o)) : s'.pc = .outside ∧ s'.looping = false := by
  cases a with
  | push t f | setQuit t =>
    obtain ⟨rfl, rfl⟩ := Prod.mk.inj (Option.some.inj hs)
    exact ⟨hpc, hlooping⟩
  | pushed t | quitSet t =>
    obtain ⟨rfl, rfl⟩ := Prod.mk.inj (Option.some.inj hs)
    split
    · exact ⟨hpc, hlooping⟩
    · exact ⟨hpc, hlooping⟩
  | loop => exact absurd rfl ha
  | test | doPendingFuncs | swap => cases hpc.symm.trans he.2
  | poll active | func | finish => cases hpc.symm.trans he.2.1
  | handleEvent =>
    obtain ⟨_, _, _, hdispatching⟩ := he
    cases hpc.symm.trans hdispatching

/-- The loop thread makes no call but by beginning one. -/
theorem step_call (hcall : s.call me = .none) (he : Enabled me s a) (hpush : ∀ f, a ≠ .push me f)
    (hquit : a ≠ .setQuit me) (hs : step me s a = some (s', o)) : s'.call me = .none := by
  cases a with
  | push t f =>
    obtain ⟨rfl, rfl⟩ := Prod.mk.inj (Option.some.inj hs)
    have hne : me ≠ t := fun heq => hpush f (heq ▸ rfl)
    exact (Function.update_of_ne hne ..).trans hcall
  | setQuit t =>
    obtain ⟨rfl, rfl⟩ := Prod.mk.inj (Option.some.inj hs)
    have hne : me ≠ t := fun heq => hquit (heq ▸ rfl)
    exact (Function.update_of_ne hne ..).trans hcall
  | pushed t | quitSet t =>
    obtain ⟨rfl, rfl⟩ := Prod.mk.inj (Option.some.inj hs)
    have hnone : Function.update s.call t .none me = .none := by
      by_cases hne : me = t
      · rw [hne, Function.update_self]
      · rw [Function.update_of_ne hne, hcall]
    split
    · exact hnone
    · exact hnone
  | loop =>
    obtain ⟨_, hs⟩ := assert_bind_eq_some_iff.mp hs
    obtain ⟨rfl, rfl⟩ := Prod.mk.inj (Option.some.inj hs)
    exact hcall
  | test =>
    simp only [step] at hs
    split at hs
    all_goals
      obtain ⟨rfl, rfl⟩ := Prod.mk.inj (Option.some.inj hs)
      exact hcall
  | handleEvent =>
    obtain ⟨_, active, rest, hpc⟩ := he
    simp only [step, hpc] at hs
    obtain ⟨rfl, rfl⟩ := Prod.mk.inj (Option.some.inj hs)
    split
    · exact hcall
    · exact hcall
  | poll active | doPendingFuncs | swap | finish =>
    obtain ⟨rfl, rfl⟩ := Prod.mk.inj (Option.some.inj hs)
    exact hcall
  | func =>
    simp only [step, Option.bind_eq_bind, Option.bind_eq_some_iff, Option.some.injEq, Prod.mk.injEq] at hs
    obtain ⟨⟨f, queue⟩, _, rfl, rfl⟩ := hs
    exact hcall

/-- `quit_` is set, and a thread in `poll` will be woken. -/
structure Quitting (me : τ) (s : EventLoop φ τ) : Prop where
  quit : s.quit = true
  polling : s.pc = .polling → 0 < s.wakeupFd ∨ ∃ t, t ≠ me ∧ s.call t = .quitting

/-- Another thread that is in `quit` stays there while a third makes a call. -/
theorem quitting_update {t : τ} (ht : s.call t ≠ .quitting) (c : Call)
    (h : 0 < s.wakeupFd ∨ ∃ u, u ≠ me ∧ s.call u = .quitting) :
    0 < s.wakeupFd ∨ ∃ u, u ≠ me ∧ Function.update s.call t c u = .quitting := by
  refine h.imp_right ?_
  rintro ⟨u, hu, hcall⟩
  refine ⟨u, hu, ?_⟩
  have hne : u ≠ t := by
    rintro rfl
    exact ht hcall
  rw [Function.update_of_ne hne]
  exact hcall

/-- Unless `loop()` is entered again, `quit_` stays. -/
theorem Quitting.step (h : Quitting me s) (he : Enabled me s a) (ha : a ≠ .loop) (hs : step me s a = some (s', o)) :
    Quitting me s' := by
  cases a with
  | push t f =>
    obtain ⟨rfl, rfl⟩ := Prod.mk.inj (Option.some.inj hs)
    exact ⟨h.quit, fun hpc => quitting_update (by simp [he.1]) _ (h.polling hpc)⟩
  | setQuit t =>
    obtain ⟨rfl, rfl⟩ := Prod.mk.inj (Option.some.inj hs)
    exact ⟨rfl, fun hpc => quitting_update (by simp [he.1]) _ (h.polling hpc)⟩
  | pushed t =>
    obtain ⟨rfl, rfl⟩ := Prod.mk.inj (Option.some.inj hs)
    have hcall : s.call t = .queueing := he
    split
    · exact ⟨h.quit, fun _ => .inl (wakeup_pos _)⟩
    · exact ⟨h.quit, fun hpc => quitting_update (by simp [hcall]) _ (h.polling hpc)⟩
  | quitSet t =>
    obtain ⟨rfl, rfl⟩ := Prod.mk.inj (Option.some.inj hs)
    split
    · exact ⟨h.quit, fun _ => .inl (wakeup_pos _)⟩
    case isFalse hself =>
      rw [not_not] at hself
      subst hself
      refine ⟨h.quit, fun hpc => (h.polling hpc).imp_right ?_⟩
      rintro ⟨u, hu, hcall⟩
      exact ⟨u, hu, (Function.update_of_ne hu ..).trans hcall⟩
  | loop => exact absurd rfl ha
  | test =>
    simp only [EventLoop.step, h.quit, if_true] at hs
    obtain ⟨rfl, rfl⟩ := Prod.mk.inj (Option.some.inj hs)
    exact ⟨rfl, fun hpc => by cases hpc⟩
  | poll active =>
    obtain ⟨rfl, rfl⟩ := Prod.mk.inj (Option.some.inj hs)
    exact ⟨h.quit, fun hpc => by cases hpc⟩
  | handleEvent =>
    obtain ⟨_, active, rest, hpc⟩ := he
    simp only [EventLoop.step, hpc] at hs
    obtain ⟨rfl, rfl⟩ := Prod.mk.inj (Option.some.inj hs)
    split
    · exact ⟨h.quit, fun hpc => by cases hpc⟩
    · exact ⟨h.quit, fun hpc => by cases hpc⟩
  | doPendingFuncs | swap | finish =>
    obtain ⟨rfl, rfl⟩ := Prod.mk.inj (Option.some.inj hs)
    exact ⟨h.quit, fun hpc => by cases hpc⟩
  | func =>
    simp only [EventLoop.step, Option.bind_eq_bind, Option.bind_eq_some_iff, Option.some.injEq, Prod.mk.injEq] at hs
    obtain ⟨⟨f, queue⟩, _, rfl, rfl⟩ := hs
    exact ⟨h.quit, fun hpc => by cases hpc.symm.trans he.2.1⟩

end EventLoop

/-! ### Runs of the thread and its owner -/

namespace EventLoopThread
variable {φ τ : Type} [DecidableEq τ] {me owner : τ} {s s' : EventLoopThread φ τ} {a : Action φ τ}
  {o : List (EventLoop.Event φ)}

structure Inv (me : τ) (s : EventLoopThread φ τ) : Prop where
  outside : s.func = .unstarted ∨ s.func = .initializing ∨ s.func = .published →
    s.loop.pc = .outside ∧ s.loop.looping = false
  ready : s.func = .published → s.loop.call me = .none
  owner : s.owner = .running ∨ s.owner = .quitting → s.func = .published ∨ s.func = .looping ∨ s.func = .done
  loop_ : s.loop_ = true → s.func = .published ∨ s.func = .looping

omit [DecidableEq τ] in
theorem inv_create : Inv me (create φ τ) :=
  ⟨fun _ => ⟨rfl, rfl⟩, (fun hpub => by cases hpub), (by rintro (heq | heq) <;> cases heq), fun hset => by cases hset⟩

/-- A step of the loop. -/
theorem run_eq {b : EventLoop.Action φ τ} (hs : s.step me owner (.run b) = some (s', o)) :
    EventLoop.step me s.loop b = some (s'.loop, o) ∧ s'.owner = s.owner ∧ s'.loop_ = s.loop_ ∧
      (b = .loop ∧ s'.func = .looping ∨ b ≠ .loop ∧ s'.func = s.func) := by
  simp only [step, Option.bind_eq_bind, Option.bind_eq_some_iff, Option.some.injEq, Prod.mk.injEq] at hs
  obtain ⟨⟨loop, o'⟩, hloop, rfl, rfl⟩ := hs
  refine ⟨hloop, rfl, rfl, ?_⟩
  cases b with
  | loop => exact .inl ⟨rfl, rfl⟩
  | _ => exact .inr ⟨by simp, rfl⟩

/-- The owner's call of `quit`. -/
theorem quit_eq (hs : s.step me owner .quit = some (s', o)) :
    s.func ≠ .done ∧ EventLoop.step me s.loop (.setQuit owner) = some (s'.loop, o) ∧ s'.func = s.func ∧
      s'.loop_ = s.loop_ ∧ (s'.owner = .running ∨ s'.owner = .quitting → s.owner = .running ∨ s.owner = .quitting) := by
  obtain ⟨hdone, hs⟩ := assert_bind_eq_some_iff.mp hs
  simp only [Option.bind_eq_bind, Option.bind_eq_some_iff, Option.some.injEq, Prod.mk.injEq] at hs
  obtain ⟨⟨loop, o'⟩, hloop, rfl, rfl⟩ := hs
  refine ⟨hdone, hloop, rfl, rfl, fun howner => ?_⟩
  by_cases hq : s.owner = .quitting
  · exact .inr hq
  · simp only [if_neg hq] at howner
    exact howner

theorem Inv.step (hne : me ≠ owner) (h : Inv me s) (he : s.Enabled me owner a)
    (hs : s.step me owner a = some (s', o)) : Inv me s' := by
  cases a with
  | startLoop =>
    obtain ⟨hunstarted, hs⟩ := assert_bind_eq_some_iff.mp hs
    obtain ⟨rfl, rfl⟩ := Prod.mk.inj (Option.some.inj hs)
    refine ⟨fun _ => h.outside (.inl hunstarted), (fun hpub => by cases hpub), (by rintro (heq | heq) <;> cases heq),
      fun hloop => ?_⟩
    rcases h.loop_ hloop with hfunc | hfunc <;> cases hunstarted.symm.trans hfunc
  | publish =>
    obtain ⟨rfl, rfl⟩ := Prod.mk.inj (Option.some.inj hs)
    exact ⟨fun _ => h.outside (.inr (.inl he.1)), fun _ => he.2, fun _ => .inl rfl, fun _ => .inl rfl⟩
  | loopStarted =>
    obtain ⟨rfl, rfl⟩ := Prod.mk.inj (Option.some.inj hs)
    exact ⟨h.outside, h.ready, fun _ => (h.loop_ he.2).imp_right .inl, h.loop_⟩
  | quit =>
    obtain ⟨_, hloop, hfunc, hloop_, howner⟩ := quit_eq hs
    obtain ⟨hloop, _⟩ := Prod.mk.inj (Option.some.inj hloop)
    have hcall : s.func = .published → s'.loop.call me = .none := fun hpub =>
      hloop ▸ (Function.update_of_ne hne ..).trans (h.ready hpub)
    refine ⟨fun hearly => ?_, fun hpub => hcall (hfunc ▸ hpub), fun hrunning => ?_, fun hset => ?_⟩
    · rw [hfunc] at hearly
      rw [← hloop]
      exact h.outside hearly
    · rw [hfunc]
      exact h.owner (howner hrunning)
    · rw [hfunc]
      exact h.loop_ (hloop_ ▸ hset)
  | destroy =>
    obtain ⟨rfl, rfl⟩ := Prod.mk.inj (Option.some.inj hs)
    exact ⟨h.outside, h.ready, fun _ => h.owner (.inl he.1), h.loop_⟩
  | clear =>
    obtain ⟨rfl, rfl⟩ := Prod.mk.inj (Option.some.inj hs)
    exact ⟨(by rintro (heq | heq | heq) <;> cases heq), (fun hpub => by cases hpub), fun _ => .inr (.inr rfl),
      fun hset => by cases hset⟩
  | join =>
    obtain ⟨rfl, rfl⟩ := Prod.mk.inj (Option.some.inj hs)
    exact ⟨h.outside, h.ready, (by rintro (heq | heq) <;> cases heq), h.loop_⟩
  | run b =>
    obtain ⟨hallowed, hb⟩ := he
    obtain ⟨hloop, howner, hloop_, ⟨rfl, hfunc⟩ | ⟨hnot, hfunc⟩⟩ := run_eq hs
    · refine ⟨fun hearly => ?_, fun hpub => ?_, fun _ => .inr (.inl hfunc), fun _ => .inr hfunc⟩
      · rw [hfunc] at hearly
        rcases hearly with heq | heq | heq <;> cases heq
      · cases hfunc.symm.trans hpub
    · refine ⟨fun hearly => ?_, fun hpub => ?_, fun hrunning => ?_, fun hset => ?_⟩
      · obtain ⟨hpc, hlooping⟩ := h.outside (hfunc ▸ hearly)
        exact EventLoop.step_outside hpc hlooping hb hnot hloop
      · rw [hfunc] at hpub
        -- between the publication and `loop()` the thread calls nothing
        refine EventLoop.step_call (h.ready hpub) hb (fun f heq => ?_) (fun heq => ?_) hloop
        all_goals
          subst heq
          simp only [Allowed, if_true] at hallowed
          rcases hallowed with hfunc | hfunc <;> cases hpub.symm.trans hfunc
      · rw [hfunc]
        exact h.owner (howner ▸ hrunning)
      · rw [hfunc]
        exact h.loop_ (hloop_ ▸ hset)

/-! ### The way out of the loop -/

/-- The thread can come to the end of `func`, so that a join returns. -/
def Ends (me owner : τ) (s : EventLoopThread φ τ) : Prop :=
  ∃ as obs s', (machine me owner).Run s as obs s' ∧ s'.func = .done

theorem Ends.of_step (he : s.Enabled me owner a) (hs : s.step me owner a = some (s', o)) (h : Ends me owner s') :
    Ends me owner s := by
  obtain ⟨as, obs, s₁, hrun, hdone⟩ := h
  exact ⟨a :: as, o ++ obs, s₁, Machine.Run.cons he hs hrun, hdone⟩

/-- In `loop()` with `quit_` set, and not in a call of its own. -/
structure Leaving (me : τ) (s : EventLoopThread φ τ) : Prop where
  func : s.func = .looping
  quit : s.loop.quit = true
  call : s.loop.call me = .none

omit [DecidableEq τ] in
theorem Leaving.not_done (h : Leaving me s) : s.func ≠ .done := by
  simp [h.func]

theorem ends_outside (h : Leaving me s) (hpc : s.loop.pc = .outside) : Ends me owner s :=
  .of_step (a := .clear) ⟨h.func, hpc, h.call⟩ rfl ⟨[], [], _, .nil, rfl⟩

theorem ends_test (h : Leaving me s) (hpc : s.loop.pc = .test) : Ends me owner s := by
  have hs : s.step me owner (.run .test) = some ({s with loop := {s.loop with looping := false, pc := .outside}}, []) := by
    simp [step, EventLoop.step, h.quit]
  exact .of_step (a := .run .test) ⟨h.not_done, h.call, hpc⟩ hs (ends_outside ⟨h.func, h.quit, h.call⟩ rfl)

/-- The functors swapped out are run, one by one. -/
theorem ends_running (h : Leaving me s) (hpc : s.loop.pc = .running) : Ends me owner s := by
  induction hbatch : s.loop.queue.batch generalizing s with
  | nil =>
    exact .of_step (a := .run .finish) ⟨h.not_done, h.call, hpc, hbatch⟩ rfl (ends_test ⟨h.func, h.quit, h.call⟩ rfl)
  | cons f batch ih =>
    have hnext : s.loop.queue.next = some (f, {s.loop.queue with batch := batch}) :=
      Mailbox.next_of_batch hbatch
    have hs : s.step me owner (.run .func) =
        some ({s with loop := {s.loop with queue := {s.loop.queue with batch := batch}}}, [.ran f]) := by
      simp [step, EventLoop.step, hnext]
    exact .of_step (a := .run .func) ⟨h.not_done, h.call, hpc, by simp [hbatch]⟩ hs
      (ih ⟨h.func, h.quit, h.call⟩ hpc rfl)

theorem ends_swapping (h : Leaving me s) (hpc : s.loop.pc = .swapping) : Ends me owner s :=
  .of_step (a := .run .swap) ⟨h.not_done, h.call, hpc⟩ rfl (ends_running ⟨h.func, h.quit, h.call⟩ rfl)

theorem ends_dispatching (h : Leaving me s) {active : List EventLoop.Source} (hpc : s.loop.pc = .dispatching active) :
    Ends me owner s := by
  induction active generalizing s with
  | nil =>
    exact .of_step (a := .run .doPendingFuncs) ⟨h.not_done, h.call, hpc⟩ rfl
      (ends_swapping ⟨h.func, h.quit, h.call⟩ rfl)
  | cons source active ih =>
    have hstep : ∃ loop, EventLoop.step me s.loop .handleEvent = some (loop, []) ∧ loop.pc = .dispatching active ∧
        loop.quit = s.loop.quit ∧ loop.call = s.loop.call := by
      simp only [EventLoop.step, hpc]
      refine ⟨_, rfl, ?_⟩
      split <;> exact ⟨rfl, rfl, rfl⟩
    obtain ⟨loop, hloop, hpc', hquit, hcall⟩ := hstep
    have hs : s.step me owner (.run .handleEvent) = some ({s with loop := loop}, []) := by simp [step, hloop]
    refine .of_step (a := .run .handleEvent) ⟨h.not_done, h.call, source, active, hpc⟩ hs
      (ih ⟨h.func, hquit.trans h.quit, ?_⟩ hpc')
    exact (congrFun hcall me).trans h.call

/-- `poll` returns: the eventfd is readable, or the thread that is in `quit` makes it so. -/
theorem ends_polling (h : Leaving me s) (hpc : s.loop.pc = .polling)
    (hwake : 0 < s.loop.wakeupFd ∨ ∃ t, t ≠ me ∧ s.loop.call t = .quitting) : Ends me owner s := by
  have hreadable (s : EventLoopThread φ τ) (h : Leaving me s) (hpc : s.loop.pc = .polling)
      (hfd : 0 < s.loop.wakeupFd) : Ends me owner s :=
    .of_step (a := .run (.poll [.wakeup])) ⟨h.not_done, h.call, hpc, fun _ => hfd⟩ rfl
      (ends_dispatching ⟨h.func, h.quit, h.call⟩ rfl)
  rcases hwake with hfd | ⟨t, ht, hcall⟩
  · exact hreadable s h hpc hfd
  · have hs : s.step me owner (.run (.quitSet t)) =
        some ({s with loop := ({s.loop with call := Function.update s.loop.call t .none} : EventLoop φ τ).wakeup}, []) := by
      simp [step, EventLoop.step, ht]
    refine .of_step (a := .run (.quitSet t)) ⟨h.not_done, hcall⟩ hs
      (hreadable _ ⟨h.func, h.quit, ?_⟩ hpc (EventLoop.wakeup_pos _))
    exact (Function.update_of_ne (Ne.symm ht) ..).trans h.call

/-- Once `quit_` is set in `loop()`, the thread can leave from wherever it is. -/
theorem ends_looping (hfunc : s.func = .looping) (h : s.loop.Quitting me) : Ends me owner s := by
  have hdone : s.func ≠ .done := by
    simp [hfunc]
  have hleaving (s : EventLoopThread φ τ) (h' : Leaving me s)
      (hwake : s.loop.pc = .polling → 0 < s.loop.wakeupFd ∨ ∃ t, t ≠ me ∧ s.loop.call t = .quitting) :
      Ends me owner s := by
    cases hpc : s.loop.pc with
    | outside => exact ends_outside h' hpc
    | test => exact ends_test h' hpc
    | polling => exact ends_polling h' hpc (hwake hpc)
    | dispatching active => exact ends_dispatching h' hpc
    | swapping => exact ends_swapping h' hpc
    | running => exact ends_running h' hpc
  -- a thread in a call of its own is at the end of it
  have hcalling (b : EventLoop.Action φ τ) (hallowed : s.Allowed me owner b) (he : EventLoop.Enabled me s.loop b)
      (hb : b ≠ .loop) (loop : EventLoop φ τ) (hloop : EventLoop.step me s.loop b = some (loop, []))
      (hcall : loop.call me = .none) : Ends me owner s := by
    have hquitting := h.step he hb hloop
    have hs : s.step me owner (.run b) = some ({s with loop := loop}, []) := by
      cases b with
      | loop => exact absurd rfl hb
      | _ => simp [step, hloop]
    exact .of_step (a := .run b) ⟨hallowed, he⟩ hs (hleaving _ ⟨hfunc, hquitting.quit, hcall⟩ hquitting.polling)
  cases hcall : s.loop.call me with
  | none => exact hleaving s ⟨hfunc, h.quit, hcall⟩ h.polling
  | queueing =>
    refine hcalling (.pushed me) hdone hcall (by simp) _ rfl ?_
    split
    · exact Function.update_self ..
    · exact Function.update_self ..
  | quitting =>
    refine hcalling (.quitSet me) hdone hcall (by simp) _ rfl ?_
    split
    · exact Function.update_self ..
    · exact Function.update_self ..

/-! ### Quitting -/

/-- A quit request is kept: `quit_` is set, a thread in `poll` is woken, the next test of `quit_`
leaves the loop, and so `func` can end. -/
structure Kept (me owner : τ) (s : EventLoopThread φ τ) : Prop where
  loop : s.loop.Quitting me
  leaves : ∀ s' o, s.step me owner (.run .test) = some (s', o) → s'.loop.pc = .outside
  ends : Ends me owner s

theorem kept_of_quitting (hfunc : s.func = .looping ∨ s.func = .done) (h : s.loop.Quitting me) : Kept me owner s := by
  refine ⟨h, fun s' o hs => ?_, ?_⟩
  · obtain ⟨hloop, _⟩ := run_eq hs
    simp only [EventLoop.step, h.quit, if_true] at hloop
    obtain ⟨hloop, _⟩ := Prod.mk.inj (Option.some.inj hloop)
    rw [← hloop]
  · rcases hfunc with hfunc | hfunc
    · exact ends_looping hfunc h
    · exact ⟨[], [], s, .nil, hfunc⟩

/-- Behind the entry of `loop()`, every step keeps `quit_`. -/
theorem quitting_step (hne : me ≠ owner) (hfunc : s.func = .looping ∨ s.func = .done) (h : s.loop.Quitting me)
    (he : s.Enabled me owner a) (hs : s.step me owner a = some (s', o)) :
    (s'.func = .looping ∨ s'.func = .done) ∧ s'.loop.Quitting me := by
  cases a with
  | startLoop =>
    obtain ⟨hunstarted, _⟩ := assert_bind_eq_some_iff.mp hs
    rcases hfunc with hfunc | hfunc <;> cases hunstarted.symm.trans hfunc
  | publish => rcases hfunc with hfunc | hfunc <;> cases he.1.symm.trans hfunc
  | loopStarted | destroy | join =>
    obtain ⟨rfl, rfl⟩ := Prod.mk.inj (Option.some.inj hs)
    exact ⟨hfunc, h⟩
  | clear =>
    obtain ⟨rfl, rfl⟩ := Prod.mk.inj (Option.some.inj hs)
    exact ⟨.inr rfl, h⟩
  | quit =>
    obtain ⟨_, hloop, hfunc', _⟩ := quit_eq hs
    refine ⟨hfunc' ▸ hfunc, h.step (a := .setQuit owner) ⟨he.2, fun heq => absurd heq.symm hne⟩ (by simp) hloop⟩
  | run b =>
    obtain ⟨hallowed, hb⟩ := he
    obtain ⟨hloop, _, _, ⟨rfl, _⟩ | ⟨hnot, hfunc'⟩⟩ := run_eq hs
    · have hpub : s.func = .published := hallowed
      rcases hfunc with hfunc | hfunc <;> cases hpub.symm.trans hfunc
    · exact ⟨hfunc' ▸ hfunc, h.step hb hnot hloop⟩

/-- **A quit request is kept unless it comes before `loop()`.** The owner's call of `quit`
is kept in everything that may follow exactly if the thread is not between the publication of the loop and
the call of `loop()`. -/
theorem quit_kept_iff (hne : me ≠ owner) {as : List (Action φ τ)} {obs : List (EventLoop.Event φ)}
    (hrun : (machine me owner).Run (create φ τ) as obs s) (he : s.Enabled me owner .quit)
    (hs : s.step me owner .quit = some (s', o)) :
    (∀ as' obs' t, (machine me owner).Run s' as' obs' t → Kept me owner t) ↔ s.func ≠ .published := by
  have hinv : Inv me s := hrun.invariant (fun _ => Inv me) inv_create fun _ _ _ _ _ h he hs => h.step hne he hs
  obtain ⟨hdone, hloop, hfunc, _⟩ := quit_eq hs
  obtain ⟨hloop, _⟩ := Prod.mk.inj (Option.some.inj hloop)
  constructor
  · intro hkept hpub
    -- `loop()` is entered, and sets `quit_` back
    obtain ⟨hpc, hlooping⟩ := hinv.outside (.inr (.inr hpub))
    have hready : s'.loop.call me = .none := hloop ▸ (Function.update_of_ne hne ..).trans (hinv.ready hpub)
    have hpc' : s'.loop.pc = .outside := hloop ▸ hpc
    have hlooping' : s'.loop.looping = false := hloop ▸ hlooping
    have henter : s'.step me owner (.run .loop) =
        some ({s' with loop := {s'.loop with looping := true, quit := false, pc := .test}, func := .looping}, []) := by
      simp [step, EventLoop.step, hlooping']
    have hlost := hkept _ _ _ (Machine.Run.cons (M := machine me owner) (a := .run .loop)
      ⟨hfunc.trans hpub, hready, hpc'⟩ henter .nil)
    cases hlost.loop.quit
  · intro hpub as' obs' t hrun'
    have hlooping : s.func = .looping := by
      rcases hinv.owner he.1 with hfunc | hfunc | hfunc
      · exact absurd hfunc hpub
      · exact hfunc
      · exact absurd hfunc hdone
    have hquitting : s'.loop.Quitting me := by
      rw [← hloop]
      exact ⟨rfl, fun _ => .inr ⟨owner, hne.symm, Function.update_self ..⟩⟩
    obtain ⟨hfunc', hquit⟩ := hrun'.invariant
      (fun _ t => (t.func = .looping ∨ t.func = .done) ∧ t.loop.Quitting me)
      ⟨.inl (hfunc.trans hlooping), hquitting⟩
      fun _ _ _ _ _ h he hs => quitting_step hne h.1 h.2 he hs
    exact kept_of_quitting hfunc' hquit

/-- The thread is in `poll` when the owner quits. -/
def quitInPoll : List (Action Nat Bool) :=
  [.startLoop, .publish, .loopStarted, .run .loop, .run .test]

theorem quit_kept_iff_in_poll :
    ∃ obs s s' o, (machine false true).Run (create Nat Bool) quitInPoll obs s ∧
      s.step false true .quit = some (s', o) ∧
      ∀ as' obs' t, (machine false true).Run s' as' obs' t → Kept false true t := by
  have hrun : ∃ obs s, (machine false true).Run (create Nat Bool) quitInPoll obs s ∧
      (s.func ≠ .published ∧ s.Enabled false true .quit ∧ (s.step false true .quit).isSome = true) :=
    Machine.Run.exists_of_trace (by decide +kernel)
  obtain ⟨obs, s, hrun, hfunc, he, hsome⟩ := hrun
  obtain ⟨⟨s', o⟩, hs⟩ := Option.isSome_iff_exists.mp hsome
  exact ⟨obs, s, s', o, hrun, hs, (quit_kept_iff (by decide) hrun he hs).mpr hfunc⟩

/-- The owner is destroyed before the thread has called `loop()`, and its wakeup ends one `poll`. -/
def quitBeforeLoop : List (Action Nat Bool) :=
  [.startLoop, .publish, .loopStarted, .destroy, .quit, .run (.quitSet true), .run .loop, .run .test,
    .run (.poll [.wakeup]), .run .handleEvent, .run .doPendingFuncs, .run .swap, .run .finish, .run .test]

/-- The owner joins, and the loop is in `poll` again with nothing to end it. -/
theorem quit_lost :
    ∃ obs s, (machine false true).Run (create Nat Bool) quitBeforeLoop obs s ∧
      s.owner = .joining ∧ s.loop.pc = .polling ∧ s.loop.quit = false ∧ s.loop.wakeupFd = 0 ∧
      s.loop.call false = .none ∧ s.loop.call true = .none :=
  Machine.Run.exists_of_trace (by decide +kernel)

end EventLoopThread
end Chtho.Net
