import Mathlib.Data.List.Basic
import Mathlib.Data.List.Infix
import Mathlib.Tactic.Common

/-! Searching a sequence front to back for a subsequence, as `std::search` does. -/
namespace Chtho.Lib

variable {α : Type} [DecidableEq α]

/-- The position of the first occurrence of `pat`, if there is one. -/
def search (pat : List α) : List α → Option Nat
  | [] => if pat = [] then some 0 else none
  | x :: xs => if pat <+: x :: xs then some 0 else (search pat xs).map (· + 1)

theorem search_eq_none_iff {pat : List α} (hpat : pat ≠ []) (xs : List α) :
    search pat xs = none ↔ ¬ pat <:+: xs := by
  induction xs with
  | nil => simp [search, hpat]
  | cons x xs ih =>
    rw [search, List.infix_cons_iff, not_or]
    split
    case isTrue h => simp [h]
    case isFalse h => simp [h, ih]

/-- What occurs has a first occurrence. -/
theorem exists_first_occurrence {pat xs : List α} (hpat : pat ≠ []) (h : pat <:+: xs) :
    ∃ a b, xs = a ++ pat ++ b ∧ ¬ pat <:+: a := by
  induction xs with
  | nil => exact absurd (List.infix_nil.mp h) hpat
  | cons x xs ih =>
    by_cases hhead : pat <+: x :: xs
    · obtain ⟨b, hb⟩ := hhead
      exact ⟨[], b, hb.symm, fun hnil => hpat (List.infix_nil.mp hnil)⟩
    · obtain ⟨a, b, rfl, ha⟩ := ih ((List.infix_cons_iff.mp h).resolve_left hhead)
      refine ⟨x :: a, b, rfl, fun hsub => ?_⟩
      rcases List.infix_cons_iff.mp hsub with hpre | hsub
      · exact hhead (hpre.trans ⟨pat ++ b, by simp⟩)
      · exact ha hsub

/-- A separator of two different elements is found right behind a text without it. -/
theorem search_pair {a b : α} (hab : a ≠ b) {xs : List α} (h : ¬ [a, b] <:+: xs) (ys : List α) :
    search [a, b] (xs ++ a :: b :: ys) = some xs.length := by
  induction xs with
  | nil => simp [search]
  | cons x xs ih =>
    rw [List.infix_cons_iff, not_or] at h
    have hhead : ¬ [a, b] <+: x :: (xs ++ a :: b :: ys) := by
      intro hpre
      obtain ⟨ha, hnext⟩ := List.cons_prefix_cons.mp hpre
      cases xs with
      | nil => exact hab (List.cons_prefix_cons.mp hnext).1.symm
      | cons y xs =>
        have hb := (List.cons_prefix_cons.mp hnext).1
        exact h.1 ⟨xs, by rw [ha, hb]; rfl⟩
    rw [List.cons_append, search, if_neg hhead, ih h.2]
    rfl

/-- The first separator is behind what has none. -/
theorem first_separator {x : α} {a : List α} (h : x ∉ a) (b : List α) :
    (a ++ x :: b).idxOf x = a.length ∧ a.length ≠ (a ++ x :: b).length ∧
      (a ++ x :: b).take a.length = a ∧ (a ++ x :: b).drop (a.length + 1) = b := by
  refine ⟨?_, ?_, List.take_left, ?_⟩
  · rw [List.idxOf_append_of_notMem h, List.idxOf_cons_self, Nat.add_zero]
  · rw [List.length_append, List.length_cons]
    omega
  · rw [← List.drop_drop, List.drop_left]
    rfl

/-- So two texts with the same separator agree up to it. -/
theorem before_separator {x : α} {a a' b b' : List α} (h : x ∉ a) (h' : x ∉ a') (heq : a ++ x :: b = a' ++ x :: b') :
    a = a' := by
  obtain ⟨hidx, _, htake, _⟩ := first_separator h b
  obtain ⟨hidx', _, htake', _⟩ := first_separator h' b'
  rw [← htake, ← htake', ← hidx, ← hidx', heq]

end Chtho.Lib
