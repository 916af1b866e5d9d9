import Mathlib.Data.List.Basic
import Mathlib.Tactic.Common

/-! A vector whose elements belong to owners that know their positions.

An owner finds its element by the position it keeps, so that an element can be
changed or taken out without a search. The last element takes the place of one
that is taken out, and its owner must be told (`swapRemove`). `Indexed` says that
owners and positions match, and each operation on the vector keeps it. -/
namespace Chtho.Lib

/-- The element at `i` is swapped with the last one and popped. -/
def swapRemove {α : Type} (xs : List α) (i : Nat) : List α :=
  match xs[i]?, xs.getLast? with
  | some x, some y => ((xs.set i y).set (xs.length - 1) x).dropLast
  | _, _ => xs

theorem getElem?_swapRemove {α : Type} {xs : List α} {i : Nat} (hi : i < xs.length) (j : Nat) :
    (swapRemove xs i)[j]? =
      if xs.length - 1 ≤ j then none else if j = i then xs[xs.length - 1]? else xs[j]? := by
  obtain ⟨y, hy⟩ : ∃ y, xs[xs.length - 1]? = some y := ⟨_, List.getElem?_eq_getElem (by omega)⟩
  have hlast : xs.getLast? = some y := by rw [List.getLast?_eq_getElem?, hy]
  unfold swapRemove
  rw [List.getElem?_eq_getElem hi, hlast]
  simp only [List.dropLast_eq_take, List.length_set, List.getElem?_take]
  split
  case isFalse h => rw [if_pos (by omega)]
  case isTrue h =>
    rw [if_neg (by omega), List.getElem?_set_ne (by omega)]
    by_cases hj : j = i
    · rw [hj, if_pos rfl, List.getElem?_set_self hi, hy]
    · rw [if_neg hj, List.getElem?_set_ne (Ne.symm hj)]

/-- Where the element is the last one it is only popped. -/
theorem swapRemove_last {α : Type} {xs : List α} {i : Nat} (hi : i < xs.length) (hlast : i = xs.length - 1) :
    swapRemove xs i = xs.dropLast := by
  ext j x
  rw [getElem?_swapRemove hi, List.dropLast_eq_take, List.getElem?_take]
  by_cases hj : j < xs.length - 1
  · rw [if_neg (by omega), if_neg (by omega), if_pos hj]
  · rw [if_pos (by omega), if_neg hj]

variable {ι α : Type}

/-- The elements of `xs` are those of the members, each at the position its owner keeps. -/
structure Indexed (member : ι → Prop) (pos : ι → Int) (holds : ι → α → Prop) (xs : List α) : Prop where
  at_pos : ∀ c, member c → ∃ i x, pos c = Int.ofNat i ∧ xs[i]? = some x ∧ holds c x
  owner : ∀ i, i < xs.length → ∃ c, member c ∧ pos c = Int.ofNat i

namespace Indexed
variable {member member' : ι → Prop} {pos pos' : ι → Int} {holds holds' : ι → α → Prop} {xs : List α}

theorem empty (h : ∀ c, ¬ member c) : Indexed member pos holds [] where
  at_pos := fun c hc => absurd hc (h c)
  owner := fun i hi => absurd hi (Nat.not_lt_zero i)

/-- An element that can belong to one owner only makes the positions distinct. -/
theorem pos_inj (h : Indexed member pos holds xs) (hone : ∀ c d x, holds c x → holds d x → c = d) {c d : ι}
    (hc : member c) (hd : member d) (heq : pos c = pos d) : c = d := by
  obtain ⟨i, x, hi, hx, hcx⟩ := h.at_pos c hc
  obtain ⟨j, y, hj, hy, hdy⟩ := h.at_pos d hd
  have hij : i = j := Int.ofNat.inj (hi.symm.trans (heq.trans hj))
  subst hij
  obtain rfl : x = y := Option.some.inj (hx.symm.trans hy)
  exact hone c d x hcx hdy

/-- A new member's element at the end. -/
theorem push (h : Indexed member pos holds xs) {d : ι} {x : α} (hnot : ¬ member d)
    (hmember : ∀ c, member' c ↔ member c ∨ c = d) (hd : pos' d = Int.ofNat xs.length) (hx : holds' d x)
    (hpos : ∀ c, member c → pos' c = pos c) (hholds : ∀ c y, member c → holds c y → holds' c y) :
    Indexed member' pos' holds' (xs ++ [x]) where
  at_pos := by
    intro c hc
    rcases (hmember c).mp hc with hc | rfl
    · obtain ⟨i, y, hi, hy, hcy⟩ := h.at_pos c hc
      refine ⟨i, y, by rw [hpos c hc, hi], ?_, hholds c y hc hcy⟩
      rw [List.getElem?_append_left (List.getElem?_eq_some_iff.mp hy).1, hy]
    · exact ⟨xs.length, x, hd, by simp, hx⟩
  owner := by
    intro i hi
    rw [List.length_append, List.length_singleton] at hi
    by_cases hlt : i < xs.length
    · obtain ⟨c, hc, hci⟩ := h.owner i hlt
      exact ⟨c, (hmember c).mpr (.inl hc), by rw [hpos c hc, hci]⟩
    · have hlast : i = xs.length := by omega
      exact ⟨d, (hmember d).mpr (.inr rfl), by rw [hd, hlast]⟩

/-- A member's element changes. -/
theorem set (h : Indexed member pos holds xs) (hone : ∀ c d x, holds c x → holds d x → c = d) {d : ι} {i : Nat}
    {x : α} (hd : member d) (hi : pos d = Int.ofNat i) (hx : holds' d x) (hmember : ∀ c, member' c ↔ member c)
    (hpos : ∀ c, pos' c = pos c) (hholds : ∀ c y, c ≠ d → holds c y → holds' c y) :
    Indexed member' pos' holds' (xs.set i x) where
  at_pos := by
    intro c hc
    obtain ⟨j, y, hj, hy, hcy⟩ := h.at_pos c ((hmember c).mp hc)
    have hlt := (List.getElem?_eq_some_iff.mp hy).1
    rw [hpos]
    by_cases hcd : c = d
    · subst hcd
      have hij : i = j := Int.ofNat.inj (hi.symm.trans hj)
      subst hij
      exact ⟨i, x, hi, List.getElem?_set_self hlt, hx⟩
    · refine ⟨j, y, hj, ?_, hholds c y hcd hcy⟩
      have hne : i ≠ j := by
        rintro rfl
        exact hcd (h.pos_inj hone ((hmember c).mp hc) hd (hj.trans hi.symm))
      rw [List.getElem?_set_ne hne, hy]
  owner := by
    intro j hj
    rw [List.length_set] at hj
    obtain ⟨c, hc, hcj⟩ := h.owner j hj
    exact ⟨c, (hmember c).mpr hc, by rw [hpos, hcj]⟩

/-- A member leaves. The owner of the last element is told its new position. -/
theorem remove (h : Indexed member pos holds xs) (hone : ∀ c d x, holds c x → holds d x → c = d) {d : ι} {i : Nat}
    (hd : member d) (hi : pos d = Int.ofNat i) (hmember : ∀ c, member' c ↔ member c ∧ c ≠ d)
    (hlast : ∀ c, member' c → pos c = Int.ofNat (xs.length - 1) → pos' c = Int.ofNat i)
    (hpos : ∀ c, member' c → pos c ≠ Int.ofNat (xs.length - 1) → pos' c = pos c)
    (hholds : ∀ c y, member' c → holds c y → holds' c y) : Indexed member' pos' holds' (swapRemove xs i) := by
  obtain ⟨i', x, hi', hx, -⟩ := h.at_pos d hd
  obtain rfl : i = i' := Int.ofNat.inj (hi.symm.trans hi')
  have hlt : i < xs.length := (List.getElem?_eq_some_iff.mp hx).1
  constructor
  · intro c hc
    obtain ⟨hcm, hcd⟩ := (hmember c).mp hc
    obtain ⟨j, y, hj, hy, hcy⟩ := h.at_pos c hcm
    have hjlt := (List.getElem?_eq_some_iff.mp hy).1
    have hne : j ≠ i := by
      rintro rfl
      exact hcd (h.pos_inj hone hcm hd (hj.trans hi.symm))
    by_cases hend : j = xs.length - 1
    · subst hend
      refine ⟨i, y, hlast c hc hj, ?_, hholds c y hc hcy⟩
      rw [getElem?_swapRemove hlt, if_neg (by omega), if_pos rfl, hy]
    · refine ⟨j, y, ?_, ?_, hholds c y hc hcy⟩
      · rw [hpos c hc (fun heq => hend (Int.ofNat.inj (hj.symm.trans heq))), hj]
      · rw [getElem?_swapRemove hlt, if_neg (by omega), if_neg hne, hy]
  · intro j hj
    have hjlt : j < xs.length - 1 := by
      by_contra hge
      have hnone : (swapRemove xs i)[j]? = none := by
        rw [getElem?_swapRemove hlt, if_pos (by omega)]
      exact absurd hj (Nat.not_lt.mpr (List.getElem?_eq_none_iff.mp hnone))
    by_cases hji : j = i
    · subst hji
      obtain ⟨c, hc, hcend⟩ := h.owner (xs.length - 1) (by omega)
      have hcd : c ≠ d := by
        rintro rfl
        have := Int.ofNat.inj (hi.symm.trans hcend)
        omega
      have hc' := (hmember c).mpr ⟨hc, hcd⟩
      exact ⟨c, hc', hlast c hc' hcend⟩
    · obtain ⟨c, hc, hcj⟩ := h.owner j (by omega)
      have hcd : c ≠ d := by
        rintro rfl
        exact hji (Int.ofNat.inj (hcj.symm.trans hi))
      have hc' := (hmember c).mpr ⟨hc, hcd⟩
      refine ⟨c, hc', ?_⟩
      rw [hpos c hc', hcj]
      rw [hcj]
      intro heq
      have := Int.ofNat.inj heq
      omega

end Indexed
end Chtho.Lib
