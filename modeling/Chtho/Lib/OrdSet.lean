import Mathlib.Data.List.Basic
import Mathlib.Data.List.Sort
import Mathlib.Data.List.TakeWhile
import Mathlib.Order.Lattice

/-! Sets kept in order, as `std::set` is. -/
namespace Chtho.Lib

@[ext] structure OrdSet (α : Type) [LinearOrder α] where
  elems : List α
  sorted : elems.Pairwise (· < ·)

namespace OrdSet
variable {α : Type} [LinearOrder α]

def empty : OrdSet α := ⟨[], .nil⟩

theorem sorted_insert {xs : List α} (h : xs.Pairwise (· < ·)) {x : α} (hx : x ∉ xs) :
    (xs.orderedInsert (· ≤ ·) x).Pairwise (· < ·) := by
  induction xs with
  | nil => exact List.pairwise_singleton _ _
  | cons y ys ih =>
    obtain ⟨hhead, htail⟩ := List.pairwise_cons.mp h
    rw [List.mem_cons, not_or] at hx
    rw [List.orderedInsert_cons]
    split
    case isTrue hle =>
      have hlt := lt_of_le_of_ne hle hx.1
      refine List.pairwise_cons.mpr ⟨fun z hz => ?_, h⟩
      rcases List.mem_cons.mp hz with rfl | hz
      · exact hlt
      · exact hlt.trans (hhead z hz)
    case isFalse hnle =>
      refine List.pairwise_cons.mpr ⟨fun z hz => ?_, ih htail hx.2⟩
      rcases (List.mem_orderedInsert _).mp hz with rfl | hz
      · exact lt_of_not_ge hnle
      · exact hhead z hz

/-- `s.insert(x)`, which changes nothing if `x` is there. -/
def insert (s : OrdSet α) (x : α) : OrdSet α :=
  if h : x ∈ s.elems then s else ⟨s.elems.orderedInsert (· ≤ ·) x, sorted_insert s.sorted h⟩

/-- `s.erase(x)` -/
def erase (s : OrdSet α) (x : α) : OrdSet α := ⟨s.elems.erase x, s.sorted.sublist List.erase_sublist⟩

/-- The elements of `[s.begin(), s.lower_bound(x))`. -/
def before (s : OrdSet α) (x : α) : List α := s.elems.takeWhile (· < x)

/-- `s.erase(s.begin(), s.lower_bound(x))` -/
def dropBefore (s : OrdSet α) (x : α) : OrdSet α :=
  ⟨s.elems.dropWhile (· < x), s.sorted.sublist (List.dropWhile_sublist _)⟩

/-- `*s.begin()` -/
def first (s : OrdSet α) : Option α := s.elems.head?

def size (s : OrdSet α) : Nat := s.elems.length

variable (s : OrdSet α) {x y : α}

theorem nodup : s.elems.Nodup := s.sorted.imp ne_of_lt

theorem insert_perm (h : x ∉ s.elems) : (s.insert x).elems.Perm (x :: s.elems) := by
  rw [insert, dif_neg h]
  exact List.perm_orderedInsert _ _ _

theorem mem_insert : y ∈ (s.insert x).elems ↔ y = x ∨ y ∈ s.elems := by
  by_cases h : x ∈ s.elems
  · rw [insert, dif_pos h]
    refine ⟨.inr, fun hy => hy.elim (fun heq => heq ▸ h) id⟩
  · rw [(s.insert_perm h).mem_iff, List.mem_cons]

theorem erase_perm (h : x ∈ s.elems) : s.elems.Perm (x :: (s.erase x).elems) := List.perm_cons_erase h

theorem mem_erase : y ∈ (s.erase x).elems ↔ y ≠ x ∧ y ∈ s.elems := s.nodup.mem_erase_iff

theorem before_append : s.before x ++ (s.dropBefore x).elems = s.elems := List.takeWhile_append_dropWhile

/-- What `lower_bound(x)` leaves is not less than `x`. -/
theorem le_of_mem_dropBefore (h : y ∈ (s.dropBefore x).elems) : x ≤ y := by
  have hsorted := s.sorted
  replace h : y ∈ s.elems.dropWhile (· < x) := h
  generalize s.elems = xs at h hsorted
  induction xs with
  | nil => cases h
  | cons z zs ih =>
    obtain ⟨hhead, htail⟩ := List.pairwise_cons.mp hsorted
    rw [List.dropWhile_cons] at h
    split at h
    case isTrue => exact ih h htail
    case isFalse hnlt =>
      have hle : x ≤ z := by simpa using hnlt
      rcases List.mem_cons.mp h with rfl | hy
      · exact hle
      · exact hle.trans (hhead y hy).le

/-- What comes before `x` is all that is less. -/
theorem before_eq_filter : s.before x = s.elems.filter (· < x) := by
  rw [← s.before_append (x := x), List.filter_append]
  have hbefore : (s.before x).filter (· < x) = s.before x :=
    List.filter_eq_self.mpr fun y hy => List.mem_takeWhile_imp (p := (· < x)) hy
  have hrest : (s.dropBefore x).elems.filter (· < x) = [] :=
    List.filter_eq_nil_iff.mpr fun y hy => by simpa using s.le_of_mem_dropBefore hy
  rw [hbefore, hrest, List.append_nil]

/-- A set is what its elements are. -/
theorem eq_of_mem_iff {s t : OrdSet α} (h : ∀ x, x ∈ s.elems ↔ x ∈ t.elems) : s = t :=
  OrdSet.ext (s.sorted.eq_of_mem_iff t.sorted h)

theorem first_le (h : s.first = some x) (hy : y ∈ s.elems) : x ≤ y := by
  obtain ⟨ys, hys⟩ := List.head?_eq_some_iff.mp h
  have hsorted := s.sorted
  rw [hys] at hy hsorted
  rcases List.mem_cons.mp hy with rfl | hy
  · exact le_rfl
  · exact ((List.pairwise_cons.mp hsorted).1 y hy).le

theorem first_mem (h : s.first = some x) : x ∈ s.elems := List.mem_of_head? h

theorem first_eq_none : s.first = none ↔ s.elems = [] := List.head?_eq_none_iff

end OrdSet
end Chtho.Lib
