import Mathlib.Data.List.Induction
import Mathlib.Tactic.Common

/-! Programs that can abort, and machines that run them.

A failed assertion leaves an `Option` program without a result. A `Machine` takes
actions: `enabled` is what its surroundings may do (the scheduler, the kernel, the
caller), `step` is what the program makes of it, with what can be observed on the
way. A `Run` collects the actions and the observations of an execution from its
first state on. The rest of the file is what proofs about runs share: an invariant
over the observations so far and the current state (`Run.invariant`), a condition
imposed on every step (`restrict`), runs found by executing their actions
(`Run.exists_of_trace`), and the simulation of a machine by a specification that cannot
abort (`Simulation`). -/
namespace Chtho.Lib

/-! ### Assertions -/

/-- The program goes on only if `p` holds. -/
def assert (p : Prop) [Decidable p] : Option Unit := if p then some () else none

@[simp] theorem assert_bind {β : Type} (p : Prop) [Decidable p] (f : Unit → Option β) :
    (assert p >>= f) = if p then f () else none := by
  unfold assert
  split <;> rfl

theorem assert_bind_eq_some_iff {β : Type} {p : Prop} [Decidable p] {f : Unit → Option β} {r : β} :
    (assert p >>= f) = some r ↔ p ∧ f () = some r := by
  rw [assert_bind]
  exact Option.ite_none_right_eq_some

/-! ### Machines -/

structure Machine (σ α ω : Type) where
  /-- What may happen next. -/
  enabled : σ → α → Prop
  /-- What the program does, and what is seen of it; none if it aborts. -/
  step : σ → α → Option (σ × List ω)

variable {σ α ω τ : Type}

namespace Machine

/-- An execution from `s₀`: its actions, its observations and the state it is in. -/
inductive Run (M : Machine σ α ω) (s₀ : σ) : List α → List ω → σ → Prop where
  | nil : Run M s₀ [] [] s₀
  | snoc {as obs s a s' o} : Run M s₀ as obs s → M.enabled s a → M.step s a = some (s', o) →
      Run M s₀ (as ++ [a]) (obs ++ o) s'

/-- The machine with a further condition on every step. -/
def restrict (M : Machine σ α ω) (C : σ → α → Prop) : Machine σ α ω where
  enabled := fun s a => M.enabled s a ∧ C s a
  step := M.step

instance (M : Machine σ α ω) (C : σ → α → Prop) (s : σ) (a : α) [Decidable (M.enabled s a)] [Decidable (C s a)] :
    Decidable ((M.restrict C).enabled s a) := inferInstanceAs (Decidable (_ ∧ _))

variable {M : Machine σ α ω} {s₀ s : σ} {as : List α} {obs : List ω}

/-- What the first state has and every step keeps holds in every state reached. -/
theorem Run.invariant (I : List ω → σ → Prop) (init : I [] s₀)
    (step : ∀ obs s a s' o, I obs s → M.enabled s a → M.step s a = some (s', o) → I (obs ++ o) s')
    (h : M.Run s₀ as obs s) : I obs s := by
  induction h with
  | nil => exact init
  | snoc _ he hs ih => exact step _ _ _ _ _ ih he hs

/-- The same with the actions of the run in view. -/
theorem Run.invariant_actions (I : List α → List ω → σ → Prop) (init : I [] [] s₀)
    (step : ∀ as obs s a s' o, I as obs s → M.enabled s a → M.step s a = some (s', o) →
      I (as ++ [a]) (obs ++ o) s')
    (h : M.Run s₀ as obs s) : I as obs s := by
  induction h with
  | nil => exact init
  | snoc _ he hs ih => exact step _ _ _ _ _ _ ih he hs

/-- The last step of a run. -/
theorem Run.of_snoc {a : α} (h : M.Run s₀ (as ++ [a]) obs s) :
    ∃ obs' o s', obs = obs' ++ o ∧ M.Run s₀ as obs' s' ∧ M.enabled s' a ∧ M.step s' a = some (s, o) := by
  generalize has : as ++ [a] = all at h
  cases h with
  | nil => simp at has
  | snoc hrun he hs =>
    obtain ⟨rfl, hlast⟩ := List.append_inj' has rfl
    obtain rfl := List.singleton_inj.mp hlast
    exact ⟨_, _, _, rfl, hrun, he, hs⟩

/-- The beginning of a run is a run. -/
theorem Run.exists_prefix {as' : List α} (h : M.Run s₀ (as ++ as') obs s) : ∃ obs' s', M.Run s₀ as obs' s' := by
  induction as' using List.reverseRecOn generalizing obs s with
  | nil =>
    rw [List.append_nil] at h
    exact ⟨obs, s, h⟩
  | append_singleton as' a ih =>
    rw [← List.append_assoc] at h
    obtain ⟨_, _, _, _, hrun, _⟩ := h.of_snoc
    exact ih hrun

/-- A run may also be grown at its front. -/
theorem Run.cons {a : α} {s₁ : σ} {o : List ω} (he : M.enabled s₀ a) (hs : M.step s₀ a = some (s₁, o))
    (h : M.Run s₁ as obs s) : M.Run s₀ (a :: as) (o ++ obs) s := by
  induction h with
  | nil => simpa using Run.snoc .nil he hs
  | snoc _ he' hs' ih =>
    rw [← List.append_assoc]
    exact .snoc ih he' hs'

/-- The execution of given actions, where their enabledness can be decided. -/
def trace (M : Machine σ α ω) [∀ s a, Decidable (M.enabled s a)] (s : σ) : List α → Option (List ω × σ)
  | [] => some ([], s)
  | a :: as =>
    if M.enabled s a then do
      let (s', o) ← M.step s a
      let (obs, t) ← M.trace s' as
      some (o ++ obs, t)
    else none

theorem Run.of_trace [∀ s a, Decidable (M.enabled s a)] (h : M.trace s₀ as = some (obs, s)) :
    M.Run s₀ as obs s := by
  induction as generalizing s₀ obs with
  | nil =>
    obtain ⟨rfl, rfl⟩ := Prod.mk.inj (Option.some.inj h)
    exact .nil
  | cons a as ih =>
    unfold trace at h
    split at h
    case isFalse => cases h
    case isTrue he =>
      simp only [Option.bind_eq_bind, Option.bind_eq_some_iff, Option.some.injEq, Prod.mk.injEq,
        Prod.exists] at h
      obtain ⟨s₁, o, hs, obs', t, htrace, rfl, rfl⟩ := h
      exact .cons he hs (ih htrace)

/-- A run found by executing its actions, and what can be decided of it. -/
theorem Run.exists_of_trace [∀ s a, Decidable (M.enabled s a)] {p : List ω → σ → Prop}
    [∀ obs s, Decidable (p obs s)] (h : (M.trace s₀ as).any (fun r => decide (p r.1 r.2)) = true) :
    ∃ obs s, M.Run s₀ as obs s ∧ p obs s := by
  cases htrace : M.trace s₀ as with
  | none =>
    rw [htrace] at h
    cases h
  | some r =>
    rw [htrace, Option.any_some, decide_eq_true_eq] at h
    exact ⟨r.1, r.2, .of_trace htrace, h⟩

/-- The same from a first state that is computed. -/
theorem Run.exists_of_start [∀ s a, Decidable (M.enabled s a)] {x : Option σ} {p : List ω → σ → Prop}
    [∀ obs s, Decidable (p obs s)] (h : x.any (fun s₀ => (M.trace s₀ as).any fun r => decide (p r.1 r.2)) = true) :
    ∃ s₀ obs s, x = some s₀ ∧ M.Run s₀ as obs s ∧ p obs s := by
  cases x with
  | none => cases h
  | some s₀ =>
    obtain ⟨obs, s, hrun, hp⟩ := Run.exists_of_trace h
    exact ⟨s₀, obs, s, rfl, hrun, hp⟩

end Machine

/-! ### Simulation by a specification -/

/-- The machine follows `spec`, which has an answer to every action: an enabled
step from related states does not abort, shows what the specification shows and
ends in related states. -/
structure Simulation (M : Machine σ α ω) (spec : τ → α → τ × List ω) where
  Rel : σ → τ → Prop
  step : ∀ s t a, Rel s t → M.enabled s a →
    ∃ s', M.step s a = some (s', (spec t a).2) ∧ Rel s' (spec t a).1

/-- The specification's own run. -/
def specRun (spec : τ → α → τ × List ω) : τ → List α → τ × List ω
  | t, [] => (t, [])
  | t, a :: as =>
    let r := specRun spec (spec t a).1 as
    (r.1, (spec t a).2 ++ r.2)

theorem specRun_snoc (spec : τ → α → τ × List ω) (t : τ) (as : List α) (a : α) :
    specRun spec t (as ++ [a]) =
      ((spec (specRun spec t as).1 a).1, (specRun spec t as).2 ++ (spec (specRun spec t as).1 a).2) := by
  induction as generalizing t with
  | nil => simp [specRun]
  | cons b bs ih => simp only [List.cons_append, specRun, ih, List.append_assoc]

namespace Simulation
variable {M : Machine σ α ω} {spec : τ → α → τ × List ω} {s₀ s : σ} {t₀ : τ} {as : List α}
  {obs : List ω}

/-- Every run shows what the specification shows and ends related to it. -/
theorem run (S : Simulation M spec) (h₀ : S.Rel s₀ t₀) (h : M.Run s₀ as obs s) :
    S.Rel s (specRun spec t₀ as).1 ∧ obs = (specRun spec t₀ as).2 := by
  induction h with
  | nil => exact ⟨h₀, rfl⟩
  | snoc _ he hs ih =>
    obtain ⟨hrel, rfl⟩ := ih
    obtain ⟨u, hu, hrel'⟩ := S.step _ _ _ hrel he
    rw [hs] at hu
    obtain ⟨rfl, rfl⟩ := Prod.mk.inj (Option.some.inj hu)
    rw [specRun_snoc]
    exact ⟨hrel', rfl⟩

/-- No run can abort. -/
theorem safe (S : Simulation M spec) (h₀ : S.Rel s₀ t₀) (h : M.Run s₀ as obs s) (a : α)
    (he : M.enabled s a) : (M.step s a).isSome := by
  obtain ⟨s', hs, _⟩ := S.step s _ a (S.run h₀ h).1 he
  rw [hs]
  rfl

end Simulation

end Chtho.Lib
