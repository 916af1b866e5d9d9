import Mathlib.Tactic.Common

/-! Taking turns.

Of `n` places one is next, and behind the last comes the first. At any time some rounds are complete,
and the places before the next one have had one turn more (`InTurn`); so no place is ever ahead of
another by more than one turn. -/
namespace Chtho.Lib

/-- The place behind `nxt`, of `n`. -/
def rotate (n nxt : Nat) : Nat := if nxt + 1 ≥ n then 0 else nxt + 1

/-- The turns that the places have had: whole rounds, and a part of one. -/
def InTurn (n nxt : Nat) (turns : Nat → Nat) : Prop :=
  ∃ rounds, ∀ i < n, turns i = rounds + if i < nxt then 1 else 0

variable {n nxt : Nat} {turns : Nat → Nat}

theorem rotate_lt (h : 0 < n) (nxt : Nat) : rotate n nxt < n := by
  unfold rotate
  split
  case isTrue => exact h
  case isFalse hmore => exact Nat.not_le.mp hmore

theorem inTurn_zero (n : Nat) (h : ∀ i < n, turns i = 0) : InTurn n 0 turns := by
  refine ⟨0, fun i hi => ?_⟩
  rw [h i hi, if_neg (Nat.not_lt_zero i)]

/-- The next place has its turn. -/
theorem InTurn.rotate (h : InTurn n nxt turns) :
    InTurn n (rotate n nxt) fun i => turns i + if i = nxt then 1 else 0 := by
  obtain ⟨rounds, hturns⟩ := h
  have hnew (i : Nat) (hi : i < n) : (turns i + if i = nxt then 1 else 0) = rounds + if i < nxt + 1 then 1 else 0 := by
    rw [hturns i hi]
    split <;> split <;> split <;> omega
  by_cases hmore : nxt + 1 ≥ n
  · -- a round is complete
    refine ⟨rounds + 1, fun i hi => ?_⟩
    rw [Lib.rotate, if_pos hmore, if_neg (Nat.not_lt_zero i)]
    exact (hnew i hi).trans (by rw [if_pos (Nat.lt_of_lt_of_le hi hmore)])
  · refine ⟨rounds, fun i hi => ?_⟩
    rw [Lib.rotate, if_neg hmore]
    exact hnew i hi

theorem InTurn.le_add_one (h : InTurn n nxt turns) {i j : Nat} (hi : i < n) (hj : j < n) : turns i ≤ turns j + 1 := by
  obtain ⟨rounds, hturns⟩ := h
  rw [hturns i hi, hturns j hj]
  split <;> split <;> omega

end Chtho.Lib
