import Mathlib.Data.List.Induction
import Mathlib.Tactic.Common

/-! What holds throughout a history.

A history grows at its end, and most of what one wants to say about it is what had happened
when something else happened. -/
namespace Chtho.Lib
variable {ω : Type} {p q : List ω → ω → Prop} {obs o : List ω} {e : ω}

/-- Each event of the history has `p` to those before it. -/
def Throughout (p : List ω → ω → Prop) (obs : List ω) : Prop :=
  ∀ pre e post, obs = pre ++ e :: post → p pre e

theorem throughout_nil : Throughout p [] := fun pre _ _ h => by simp at h

theorem throughout_snoc : Throughout p (obs ++ [e]) ↔ Throughout p obs ∧ p obs e := by
  constructor
  · refine fun h => ⟨fun pre e' post heq => h pre e' (post ++ [e]) ?_, h obs e [] rfl⟩
    rw [heq, List.append_assoc, List.cons_append]
  · rintro ⟨hbefore, hlast⟩ pre e' post heq
    rcases List.eq_nil_or_concat post with rfl | ⟨post, e'', rfl⟩
    · obtain ⟨rfl, hsame⟩ := List.append_inj' heq rfl
      exact List.singleton_inj.mp hsame ▸ hlast
    · rw [List.concat_eq_append, ← List.cons_append, ← List.append_assoc] at heq
      obtain ⟨hobs, _⟩ := List.append_inj' heq rfl
      exact hbefore pre e' post hobs

/-- More events, each of which has `p` to the history and to those of them before it. -/
theorem Throughout.append (h : Throughout p obs) (ho : Throughout (fun pre => p (obs ++ pre)) o) :
    Throughout p (obs ++ o) := by
  induction o using List.reverseRecOn with
  | nil => rwa [List.append_nil]
  | append_singleton o e ih =>
    obtain ⟨hbefore, hlast⟩ := throughout_snoc.mp ho
    rw [← List.append_assoc]
    exact throughout_snoc.mpr ⟨ih hbefore, hlast⟩

/-- An event with `p` has happened, and none with `q` since then. -/
def Since (p q : ω → Prop) : List ω → Prop
  | [] => False
  | e :: obs => p e ∧ (∀ e' ∈ obs, ¬ q e') ∨ Since p q obs

theorem since_append {p q : ω → Prop} :
    Since p q (obs ++ o) ↔ Since p q o ∨ Since p q obs ∧ ∀ e ∈ o, ¬ q e := by
  induction obs with
  | nil => simp [Since]
  | cons e obs ih =>
    rw [List.cons_append, Since, ih, List.forall_mem_append, Since]
    tauto

end Chtho.Lib
