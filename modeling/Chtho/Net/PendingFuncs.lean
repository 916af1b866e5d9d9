import Chtho.Net.EventLoop

/-! Functors queued in a loop run once each, in the order of the pushes.

The history of a run is a list of events. At every moment the functors pushed are
those that have run, followed by the rest of the batch, followed by `pendingCBs_`;
and until the next swap a batch only shrinks, so what is pushed behind it waits for
a later one. -/
namespace Chtho.Net.EventLoop
open Lib

variable {φ τ : Type}

/-- The functors pushed, in the order of `push_back`. -/
def pushes (obs : List (Event φ)) : List φ :=
  obs.filterMap fun
    | .pushed f => some f
    | .ran _ => none

/-- The functors run by `doPendingFuncs`, in order. -/
def runs (obs : List (Event φ)) : List φ :=
  obs.filterMap fun
    | .pushed _ => none
    | .ran f => some f

@[simp] theorem pushes_append (a b : List (Event φ)) : pushes (a ++ b) = pushes a ++ pushes b :=
  List.filterMap_append

@[simp] theorem runs_append (a b : List (Event φ)) : runs (a ++ b) = runs a ++ runs b :=
  List.filterMap_append

@[simp] theorem pushes_nil : pushes ([] : List (Event φ)) = [] := rfl
@[simp] theorem runs_nil : runs ([] : List (Event φ)) = [] := rfl
@[simp] theorem pushes_pushed (f : φ) : pushes [Event.pushed f] = [f] := rfl
@[simp] theorem runs_pushed (f : φ) : runs [Event.pushed f] = [] := rfl
@[simp] theorem pushes_ran (f : φ) : pushes [Event.ran f] = [] := rfl
@[simp] theorem runs_ran (f : φ) : runs [Event.ran f] = [f] := rfl

@[simp] theorem queue_wakeup (s : EventLoop φ τ) : s.wakeup.queue = s.queue := rfl
@[simp] theorem pc_wakeup (s : EventLoop φ τ) : s.wakeup.pc = s.pc := rfl

variable [DecidableEq τ] {me : τ} {s s' : EventLoop φ τ} {a : Action φ τ} {o : List (Event φ)}

/-- What a step does to the queue: it posts, it takes a batch, it takes the next
functor of the batch, or it leaves the queue alone; and only the last functor of a
batch lets the loop thread out of it. -/
theorem step_queue (he : Enabled me s a) (hs : step me s a = some (s', o)) :
    (∃ t f, a = .push t f ∧ o = [.pushed f] ∧ s'.queue = s.queue.post f ∧ s'.pc = s.pc) ∨
      (a = .swap ∧ o = [] ∧ s'.queue = s.queue.swap ∧ s.pc = .swapping ∧ s'.pc = .running) ∨
      (∃ f, a = .func ∧ o = [.ran f] ∧ s.queue.next = some (f, s'.queue) ∧ s'.pc = s.pc) ∨
      (a ≠ .swap ∧ o = [] ∧ s'.queue = s.queue ∧
        (s'.pc = s.pc ∨ s.queue.batch = [] ∨ s.pc ≠ .running ∧ s'.pc ≠ .running)) := by
  cases a with
  | push t f =>
    obtain ⟨rfl, rfl⟩ := Prod.mk.inj (Option.some.inj hs)
    exact .inl ⟨t, f, rfl, rfl, rfl, rfl⟩
  | pushed t =>
    obtain ⟨rfl, rfl⟩ := Prod.mk.inj (Option.some.inj hs)
    refine .inr (.inr (.inr ⟨nofun, rfl, ?_, .inl ?_⟩)) <;> split <;> rfl
  | setQuit t =>
    obtain ⟨rfl, rfl⟩ := Prod.mk.inj (Option.some.inj hs)
    exact .inr (.inr (.inr ⟨nofun, rfl, rfl, .inl rfl⟩))
  | quitSet t =>
    obtain ⟨rfl, rfl⟩ := Prod.mk.inj (Option.some.inj hs)
    refine .inr (.inr (.inr ⟨nofun, rfl, ?_, .inl ?_⟩)) <;> split <;> rfl
  | loop =>
    obtain ⟨_, hs⟩ := assert_bind_eq_some_iff.mp hs
    obtain ⟨rfl, rfl⟩ := Prod.mk.inj (Option.some.inj hs)
    exact .inr (.inr (.inr ⟨nofun, rfl, rfl, .inr (.inr ⟨by rw [he.2]; nofun, nofun⟩)⟩))
  | test =>
    have hpc : s.pc ≠ .running := by rw [he.2]; nofun
    simp only [step] at hs
    split at hs
    all_goals
      obtain ⟨rfl, rfl⟩ := Prod.mk.inj (Option.some.inj hs)
      exact .inr (.inr (.inr ⟨nofun, rfl, rfl, .inr (.inr ⟨hpc, nofun⟩)⟩))
  | poll active =>
    obtain ⟨rfl, rfl⟩ := Prod.mk.inj (Option.some.inj hs)
    exact .inr (.inr (.inr ⟨nofun, rfl, rfl, .inr (.inr ⟨by rw [he.2.1]; nofun, nofun⟩)⟩))
  | handleEvent =>
    obtain ⟨_, c, rest, hpc⟩ := he
    simp only [step, hpc] at hs
    obtain ⟨rfl, rfl⟩ := Prod.mk.inj (Option.some.inj hs)
    refine .inr (.inr (.inr ⟨nofun, rfl, ?_, .inr (.inr ⟨by rw [hpc]; nofun, ?_⟩)⟩)) <;> split <;> first | rfl | nofun
  | doPendingFuncs =>
    obtain ⟨rfl, rfl⟩ := Prod.mk.inj (Option.some.inj hs)
    exact .inr (.inr (.inr ⟨nofun, rfl, rfl, .inr (.inr ⟨by rw [he.2]; nofun, nofun⟩)⟩))
  | swap =>
    obtain ⟨rfl, rfl⟩ := Prod.mk.inj (Option.some.inj hs)
    exact .inr (.inl ⟨rfl, rfl, rfl, he.2, rfl⟩)
  | func =>
    simp only [step, Option.bind_eq_bind, Option.bind_eq_some_iff, Prod.exists] at hs
    obtain ⟨f, q, hq, hs⟩ := hs
    obtain ⟨rfl, rfl⟩ := Prod.mk.inj (Option.some.inj hs)
    exact .inr (.inr (.inl ⟨f, rfl, rfl, hq, rfl⟩))
  | finish =>
    obtain ⟨rfl, rfl⟩ := Prod.mk.inj (Option.some.inj hs)
    exact .inr (.inr (.inr ⟨nofun, rfl, rfl, .inr (.inl he.2.2)⟩))

/-- Every functor pushed has run or waits, in order, and there is a batch only while
it is run. -/
structure Accounted (obs : List (Event φ)) (s : EventLoop φ τ) : Prop where
  order : pushes obs = runs obs ++ s.queue.waiting
  batch : s.pc ≠ .running → s.queue.batch = []

theorem accounted_step {obs : List (Event φ)} (h : Accounted obs s) (he : Enabled me s a)
    (hs : step me s a = some (s', o)) : Accounted (obs ++ o) s' := by
  have horder := h.order
  rcases step_queue he hs with ⟨t, f, _, rfl, hq, hpc⟩ | ⟨_, rfl, hq, hpc, hpc'⟩ | ⟨f, _, rfl, hq, hpc⟩ |
    ⟨_, rfl, hq, hpc⟩
  · refine ⟨by simp [hq, horder], fun hr => ?_⟩
    rw [hpc] at hr
    rw [hq]
    exact h.batch hr
  · have hb : s.queue.batch = [] := h.batch (by rw [hpc]; nofun)
    exact ⟨by simp [hq, Mailbox.waiting_swap hb, horder], fun hr => absurd hpc' hr⟩
  · refine ⟨by simp [horder, Mailbox.waiting_next hq], fun hr => ?_⟩
    rw [hpc] at hr
    have hb := h.batch hr
    rw [(Mailbox.next_eq_some hq).1] at hb
    cases hb
  · refine ⟨by simp [hq, horder], fun hr => ?_⟩
    rw [hq]
    rcases hpc with hpc | hb | ⟨hnot, _⟩
    · exact h.batch (by rwa [← hpc])
    · exact hb
    · exact h.batch hnot

theorem accounted_run {as : List (Action φ τ)} {obs : List (Event φ)}
    (h : (machine me).Run (create φ τ) as obs s) : Accounted obs s :=
  h.invariant Accounted ⟨rfl, fun _ => rfl⟩ fun _ _ _ _ _ hI he hs => accounted_step hI he hs

/-- Without a swap, running functors is all that happens to a batch. -/
theorem batch_step (ha : a ≠ .swap) (he : Enabled me s a) (hs : step me s a = some (s', o)) :
    (runs o).length + s'.queue.batch.length = s.queue.batch.length := by
  rcases step_queue he hs with ⟨t, f, _, rfl, hq, _⟩ | ⟨hswap, _⟩ | ⟨f, _, rfl, hq, _⟩ | ⟨_, rfl, hq, _⟩
  · simp [hq, Mailbox.post]
  · exact absurd hswap ha
  · rw [(Mailbox.next_eq_some hq).1, List.length_cons]
    simp [Nat.add_comm]
  · simp [hq]

theorem batch_run {s₀ : EventLoop φ τ} {as : List (Action φ τ)} {obs : List (Event φ)}
    (h : (machine me).Run s₀ as obs s) (has : .swap ∉ as) :
    (runs obs).length + s.queue.batch.length = s₀.queue.batch.length := by
  induction h with
  | nil => simp
  | snoc _ he hs ih =>
    rw [List.mem_append, not_or, List.mem_singleton] at has
    have hstep := batch_step (fun h => has.2 h.symm) he hs
    rw [runs_append, List.length_append, Nat.add_assoc, hstep, ih has.1]

/-- **Queued functors run exactly once, in the order of the pushes.** At every moment
the functors run are a prefix of those pushed, and the rest are in the batch and in
`pendingCBs_`, in order. And if a functor is pushed while a batch is run, then by the
time its turn comes the loop has swapped again: it never runs in that batch. -/
theorem functors_run_once_in_order {as : List (Action φ τ)} {obs : List (Event φ)}
    (h : (machine me).Run (create φ τ) as obs s) :
    runs obs <+: pushes obs ∧
      pushes obs = runs obs ++ (s.queue.batch ++ s.queue.pending) ∧
      ∀ t f as₂ obs₂ s₂, s.pc = .running → (machine me).Run s (.push t f :: as₂) obs₂ s₂ →
        Enabled me s₂ .func → (runs (obs ++ obs₂)).length = (pushes obs).length → .swap ∈ as₂ := by
  have horder := (accounted_run h).order
  refine ⟨⟨s.queue.waiting, horder.symm⟩, horder, ?_⟩
  intro t f as₂ obs₂ s₂ _ h₂ he hturn
  by_contra hswap
  have hbatch := batch_run h₂ (by simp [hswap])
  have hlen := congrArg List.length horder
  simp only [Mailbox.waiting, runs_append, List.length_append] at hlen hturn
  exact he.2.2 (List.length_eq_zero_iff.mp (by omega))

/-- Thread `true` is the loop's, `false` another. 7 is queued before the batch is taken;
while it runs, it queues 9. -/
def queuedInBatch : List (Action Nat Bool) :=
  [.loop, .test, .push false 7, .pushed false, .poll [.wakeup], .handleEvent, .doPendingFuncs, .swap, .func]

theorem functors_run_once_in_order_queuedInBatch :
    ∃ obs s obs₂ s₂, (machine true).Run (create Nat Bool) queuedInBatch obs s ∧ runs obs = [7] ∧
      s.pc = .running ∧ runs obs <+: pushes obs ∧
      (machine true).Run s [.push true 9, .pushed true, .finish, .test, .poll [], .doPendingFuncs, .swap] obs₂ s₂ ∧
      Action.swap ∈ [.pushed true, .finish, .test, .poll [], .doPendingFuncs, (.swap : Action Nat Bool)] := by
  have hrun : (machine true).Run (create Nat Bool) queuedInBatch _ _ := .of_trace rfl
  have hmain := functors_run_once_in_order hrun
  exact ⟨_, _, _, _, hrun, rfl, rfl, hmain.1, .of_trace rfl,
    hmain.2.2 true 9 _ _ _ rfl (.of_trace rfl) (by decide) rfl⟩

end Chtho.Net.EventLoop
