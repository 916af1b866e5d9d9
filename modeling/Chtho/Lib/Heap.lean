import Mathlib.Logic.Function.Basic
import Mathlib.Tactic.Common

/-! Heaps: objects at addresses, as functions that are updated at one address at a time. -/
namespace Chtho.Lib.Heap

variable {ι α : Type} [DecidableEq ι] {heap : ι → Option α} {a b : ι} {t u : α}

/-- What is found after an object was put at `a`. -/
theorem update_some (h : Function.update heap a (some t) b = some u) :
    b = a ∧ u = t ∨ b ≠ a ∧ heap b = some u := by
  rw [Function.update_apply] at h
  split at h
  case isTrue hb => exact .inl ⟨hb, (Option.some.inj h).symm⟩
  case isFalse hb => exact .inr ⟨hb, h⟩

/-- What is found after the object at `a` was deleted. -/
theorem update_none (h : Function.update heap a none b = some u) : b ≠ a ∧ heap b = some u := by
  rw [Function.update_apply] at h
  split at h
  case isTrue => cases h
  case isFalse hb => exact ⟨hb, h⟩

/-- What is there stays when a free address is used. -/
theorem update_free (hfree : heap a = none) (h : heap b = some t) (v : Option α) :
    Function.update heap a v b = heap b := by
  refine Function.update_of_ne (fun heq => ?_) _ _
  rw [heq, hfree] at h
  cases h

end Chtho.Lib.Heap
