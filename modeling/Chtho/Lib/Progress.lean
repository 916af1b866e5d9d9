import Mathlib
import Chtho.Lib.Machine

/-! Machines that come to an end.

If every step of a machine leaves less work than there was, no run is longer than the work at
its beginning, whoever is scheduled. What such a run cannot do is stop before the end: that is
for the machine to show, by an enabled step in every state that is not yet an end. The work of
many threads is the sum of theirs, and a step of one of them is enough to make it less. -/
namespace Chtho.Lib
open Finset

/-- Only the share of one thread changes. -/
theorem sum_add_of_one {τ : Type} [Fintype τ] {f g : τ → Nat} (t : τ) (hothers : ∀ u, u ≠ t → g u = f u) :
    ∑ u, g u + f t = ∑ u, f u + g t := by
  classical
  have hrest : ∑ u ∈ univ.erase t, g u = ∑ u ∈ univ.erase t, f u :=
    sum_congr rfl fun u hu => hothers u (ne_of_mem_erase hu)
  rw [← add_sum_erase univ g (mem_univ t), ← add_sum_erase univ f (mem_univ t), hrest]
  omega

/-- Some thread has less to do, and the others have as much as before. -/
theorem sum_lt_of_one {τ : Type} [Fintype τ] {f g : τ → Nat} (t : τ) (hlt : g t < f t)
    (hothers : ∀ u, u ≠ t → g u = f u) : ∑ u, g u < ∑ u, f u := by
  have hsum := sum_add_of_one t hothers
  omega

/-- The same for threads in a list. -/
theorem sum_map_set {α : Type} (f : α → Nat) {l : List α} {i : Nat} {a : α} (h : l[i]? = some a) (b : α) :
    ((l.set i b).map f).sum + f a = (l.map f).sum + f b := by
  induction l generalizing i with
  | nil => cases h
  | cons c l ih =>
    cases i with
    | zero =>
      obtain rfl := Option.some.inj h
      simp only [List.set_cons_zero, List.map_cons, List.sum_cons]
      omega
    | succ i =>
      have hrest := ih h
      simp only [List.set_cons_succ, List.map_cons, List.sum_cons]
      omega

namespace Machine
variable {σ α ω : Type} {M : Machine σ α ω} {s₀ s : σ} {as : List α} {obs : List ω}

/-- A run uses up the work. -/
theorem Run.length_le {I : σ → Prop} {work : σ → Nat}
    (hstep : ∀ s a s' o, I s → M.enabled s a → M.step s a = some (s', o) → I s' ∧ work s' < work s)
    (hinit : I s₀) (h : M.Run s₀ as obs s) : I s ∧ as.length + work s ≤ work s₀ := by
  induction h with
  | nil => exact ⟨hinit, by simp⟩
  | snoc _ he hs ih =>
    obtain ⟨hI, hlt⟩ := hstep _ _ _ _ ih.1 he hs
    refine ⟨hI, ?_⟩
    rw [List.length_append, List.length_singleton]
    omega

/-- A run and one of another machine that goes on from it, found by executing both. -/
theorem Run.exists_of_traces {N : Machine σ α ω} [∀ s a, Decidable (M.enabled s a)] [∀ s a, Decidable (N.enabled s a)]
    {bs : List α} {p : List ω → σ → List ω → σ → Prop} [∀ obs s obs' s', Decidable (p obs s obs' s')]
    (h : (M.trace s₀ as).any (fun r => (N.trace r.2 bs).any fun r' => decide (p r.1 r.2 r'.1 r'.2)) = true) :
    ∃ obs s obs' s', M.Run s₀ as obs s ∧ N.Run s bs obs' s' ∧ p obs s obs' s' := by
  cases htrace : M.trace s₀ as with
  | none =>
    rw [htrace] at h
    cases h
  | some r =>
    rw [htrace, Option.any_some] at h
    obtain ⟨obs', s', hrun', hp⟩ := Run.exists_of_trace h
    exact ⟨r.1, r.2, obs', s', .of_trace htrace, hrun', hp⟩

end Machine
end Chtho.Lib
