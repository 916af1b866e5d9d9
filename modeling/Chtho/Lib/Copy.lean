import Mathlib.Data.List.Basic
import Mathlib.Tactic.Common

/-! Copies into and inside an array.

An array is a list of cells. `copyIn` stores a range that lies outside the array
and `copyWithin` moves a range of the array itself, both one cell at a time and
front to back, as a forward copy loop does; a store outside the array has no
result. `slice` and `splice` are the declarative counterparts, and `copyIn_eq`
and `copyWithin_eq` say when the loops compute them: always for a source outside
the array, and for a source inside it when the target does not lie behind the
start of the source, so that no cell is overwritten before it is read. -/
namespace Chtho.Lib

variable {α : Type}

/-- The `n` cells from position `i` on. -/
def slice (m : List α) (i n : Nat) : List α := (m.drop i).take n

/-- The array with the cells from position `i` on replaced by `xs`. -/
def splice (m : List α) (i : Nat) (xs : List α) : List α :=
  m.take i ++ xs ++ m.drop (i + xs.length)

/-- A forward copy of `xs` onto the cells from `dst` on. -/
def copyIn (m : List α) (dst : Nat) : List α → Option (List α)
  | [] => some m
  | x :: xs => if dst < m.length then copyIn (m.set dst x) (dst + 1) xs else none

/-- A forward copy of `n` cells of the array from `src` to `dst`. -/
def copyWithin (m : List α) (src dst : Nat) : Nat → Option (List α)
  | 0 => some m
  | n + 1 =>
    match m[src]? with
    | none => none
    | some x => if dst < m.length then copyWithin (m.set dst x) (src + 1) (dst + 1) n else none

/-! ### Slices and splices, cell by cell -/

theorem getElem?_slice (m : List α) (i n k : Nat) :
    (slice m i n)[k]? = if k < n then m[i + k]? else none := by
  simp only [slice, List.getElem?_take, List.getElem?_drop]

theorem getElem?_splice (m : List α) (i : Nat) (xs : List α) (hi : i ≤ m.length) (k : Nat) :
    (splice m i xs)[k]? =
      if k < i then m[k]? else if k < i + xs.length then xs[k - i]? else m[k]? := by
  have hlen : (m.take i).length = i := by rw [List.length_take]; omega
  rw [splice, List.append_assoc]
  by_cases h1 : k < i
  · rw [if_pos h1, List.getElem?_append_left (by omega), List.getElem?_take, if_pos h1]
  · rw [if_neg h1, List.getElem?_append_right (by omega), hlen]
    by_cases h2 : k < i + xs.length
    · rw [if_pos h2, List.getElem?_append_left (by omega)]
    · rw [if_neg h2, List.getElem?_append_right (by omega), List.getElem?_drop]
      congr 1
      omega

@[simp] theorem slice_zero (m : List α) (i : Nat) : slice m i 0 = [] := List.take_zero

theorem length_slice (m : List α) (i n : Nat) (h : i + n ≤ m.length) : (slice m i n).length = n := by
  rw [slice, List.length_take, List.length_drop]
  omega

theorem length_splice (m : List α) (i : Nat) (xs : List α) (h : i + xs.length ≤ m.length) :
    (splice m i xs).length = m.length := by
  simp only [splice, List.length_append, List.length_take, List.length_drop]
  omega

/-- A slice splits at any point. -/
theorem slice_add (m : List α) (i a b : Nat) : slice m i (a + b) = slice m i a ++ slice m (i + a) b := by
  rw [slice, List.take_add, List.drop_drop]
  rfl

/-- Dropping from a slice moves its start. -/
theorem drop_slice (m : List α) (i n k : Nat) : (slice m i n).drop k = slice m (i + k) (n - k) := by
  rw [slice, List.drop_take, List.drop_drop]
  rfl

theorem take_slice (m : List α) (i n k : Nat) (h : k ≤ n) : (slice m i n).take k = slice m i k := by
  rw [slice, List.take_take, Nat.min_eq_left h]
  rfl

theorem slice_append_left (m z : List α) (i n : Nat) (h : i + n ≤ m.length) :
    slice (m ++ z) i n = slice m i n := by
  apply List.ext_getElem?
  intro k
  rw [getElem?_slice, getElem?_slice]
  split
  · exact List.getElem?_append_left (by omega)
  · rfl

/-- Reading back what was spliced in. -/
theorem slice_splice_self (m : List α) (i : Nat) (xs : List α) (hi : i ≤ m.length) :
    slice (splice m i xs) i xs.length = xs := by
  apply List.ext_getElem?
  intro k
  rw [getElem?_slice, getElem?_splice m i xs hi]
  by_cases hk : k < xs.length
  · rw [if_pos hk, if_neg (by omega), if_pos (by omega)]
    congr 1
    omega
  · rw [if_neg hk, List.getElem?_eq_none (by omega)]

/-- A splice leaves the cells before it alone. -/
theorem slice_splice_before (m : List α) (j : Nat) (xs : List α) (i n : Nat) (hj : j ≤ m.length)
    (h : i + n ≤ j) : slice (splice m j xs) i n = slice m i n := by
  apply List.ext_getElem?
  intro k
  rw [getElem?_slice, getElem?_slice]
  split
  · rw [getElem?_splice m j xs hj, if_pos (by omega)]
  · rfl

/-- A splice leaves the cells behind it alone. -/
theorem slice_splice_after (m : List α) (j : Nat) (xs : List α) (i n : Nat) (hj : j ≤ m.length)
    (h : j + xs.length ≤ i) : slice (splice m j xs) i n = slice m i n := by
  apply List.ext_getElem?
  intro k
  rw [getElem?_slice, getElem?_slice]
  split
  · rw [getElem?_splice m j xs hj, if_neg (by omega), if_neg (by omega)]
  · rfl

/-! ### The copy loops -/

theorem set_splice (m : List α) (i : Nat) (x : α) (xs : List α) (h : i < m.length) :
    splice (m.set i x) (i + 1) xs = splice m i (x :: xs) := by
  apply List.ext_getElem?
  intro k
  rw [getElem?_splice _ _ _ (by rw [List.length_set]; omega), getElem?_splice _ _ _ (by omega),
    List.getElem?_set, List.length_cons]
  by_cases hk : k = i
  · subst hk
    simp [h]
  · have hik : i ≠ k := fun he => hk he.symm
    rw [if_neg hik]
    by_cases h1 : k < i
    · rw [if_pos (by omega), if_pos h1]
    · rw [if_neg (by omega), if_neg h1]
      have hsub : k - i = k - (i + 1) + 1 := by omega
      by_cases h2 : k < i + 1 + xs.length
      · rw [if_pos h2, if_pos (by omega), hsub, List.getElem?_cons_succ]
      · rw [if_neg h2, if_neg (by omega)]

/-- A copy from outside the array that fits is a splice. -/
theorem copyIn_eq (m : List α) (dst : Nat) (xs : List α) (h : dst + xs.length ≤ m.length) :
    copyIn m dst xs = some (splice m dst xs) := by
  induction xs generalizing m dst with
  | nil => simp [copyIn, splice]
  | cons x xs ih =>
    have hlen : dst + 1 + xs.length ≤ m.length := by
      rw [List.length_cons] at h
      omega
    rw [copyIn, if_pos (by omega), ih _ _ (by rw [List.length_set]; exact hlen), set_splice _ _ _ _ (by omega)]

/-- A copy inside the array towards its front is a splice of the source as it was
before the copy: a cell is read before the loop reaches it as a target. -/
theorem copyWithin_eq (m : List α) (src dst n : Nat) (hd : dst ≤ src) (h : src + n ≤ m.length) :
    copyWithin m src dst n = some (splice m dst (slice m src n)) := by
  induction n generalizing m src dst with
  | zero => simp [copyWithin, splice]
  | succ n ih =>
    have hsrc : src < m.length := by omega
    have hget : m[src]? = some m[src] := List.getElem?_eq_getElem hsrc
    have hcons : slice m src (n + 1) = m[src] :: slice (m.set dst m[src]) (src + 1) n := by
      rw [slice, List.drop_eq_getElem_cons hsrc, List.take_succ_cons]
      congr 1
      rw [slice, List.drop_set_of_lt (by omega)]
    rw [copyWithin, hget]
    simp only
    rw [if_pos (by omega), ih _ _ _ (by omega) (by rw [List.length_set]; omega), hcons,
      set_splice _ _ _ _ (by omega)]

/-! A copy does not change how many cells there are. -/

theorem length_of_copyIn {m m' : List α} {dst : Nat} {xs : List α} (h : copyIn m dst xs = some m') :
    m'.length = m.length := by
  induction xs generalizing m dst with
  | nil => rw [← Option.some.inj h]
  | cons x xs ih =>
    rw [copyIn] at h
    split at h
    · rw [ih h, List.length_set]
    · cases h

theorem length_of_copyWithin {m m' : List α} {src dst n : Nat} (h : copyWithin m src dst n = some m') :
    m'.length = m.length := by
  induction n generalizing m src dst with
  | zero => rw [← Option.some.inj h]
  | succ n ih =>
    rw [copyWithin] at h
    split at h
    · cases h
    split at h
    · rw [ih h, List.length_set]
    · cases h

end Chtho.Lib
