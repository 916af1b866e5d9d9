import Mathlib.Data.List.Basic
import Mathlib.Order.Lattice
import Mathlib.Tactic.Common

/-! Maps kept in the order of their keys, as `std::map` is. -/
namespace Chtho.Lib

structure OrdMap (α β : Type) [LinearOrder α] where
  entries : List (α × β)
  sorted : entries.Pairwise (·.1 < ·.1)

namespace OrdMap
variable {α β : Type} [LinearOrder α]

theorem ext {m m' : OrdMap α β} (h : m.entries = m'.entries) : m = m' := by
  cases m
  cases m'
  cases h
  rfl

def empty : OrdMap α β := ⟨[], .nil⟩

def find? (m : OrdMap α β) (k : α) : Option β := (m.entries.find? (·.1 = k)).map Prod.snd

/-- The entries with the one of `k` set, in its place. -/
def insertEntry (k : α) (v : β) : List (α × β) → List (α × β)
  | [] => [(k, v)]
  | e :: es =>
    if k < e.1 then (k, v) :: e :: es else if k = e.1 then (k, v) :: es else e :: insertEntry k v es

theorem mem_insertEntry {k : α} {v : β} {es : List (α × β)} {e : α × β} (h : e ∈ insertEntry k v es) :
    e = (k, v) ∨ e ∈ es := by
  induction es with
  | nil => exact .inl (List.mem_singleton.mp h)
  | cons e' es ih =>
    rw [insertEntry] at h
    split at h
    · exact List.mem_cons.mp h
    · split at h
      · exact (List.mem_cons.mp h).imp_right (List.mem_cons_of_mem _)
      · rcases List.mem_cons.mp h with rfl | h
        · exact .inr List.mem_cons_self
        · exact (ih h).imp_right (List.mem_cons_of_mem _)

theorem insertEntry_sorted {k : α} {v : β} {es : List (α × β)} (h : es.Pairwise (·.1 < ·.1)) :
    (insertEntry k v es).Pairwise (·.1 < ·.1) := by
  induction es with
  | nil => exact List.pairwise_singleton _ _
  | cons e es ih =>
    obtain ⟨hhead, htail⟩ := List.pairwise_cons.mp h
    rw [insertEntry]
    split
    case isTrue hlt =>
      refine List.pairwise_cons.mpr ⟨?_, h⟩
      rintro e' (_ | ⟨_, he'⟩)
      · exact hlt
      · exact lt_trans hlt (hhead e' he')
    case isFalse hnlt =>
      split
      case isTrue heq => exact List.pairwise_cons.mpr ⟨fun e' he' => heq ▸ hhead e' he', htail⟩
      case isFalse hne =>
        refine List.pairwise_cons.mpr ⟨fun e' he' => ?_, ih htail⟩
        rcases mem_insertEntry he' with rfl | he'
        · exact lt_of_le_of_ne (not_lt.mp hnlt) (Ne.symm hne)
        · exact hhead e' he'

/-- `m[k] = v`. -/
def insert (m : OrdMap α β) (k : α) (v : β) : OrdMap α β :=
  ⟨insertEntry k v m.entries, insertEntry_sorted m.sorted⟩

/-- `m.erase(k)`. -/
def erase (m : OrdMap α β) (k : α) : OrdMap α β :=
  ⟨m.entries.filter (·.1 ≠ k), m.sorted.filter _⟩

/-- What `m.erase(k)` returns. -/
def count (m : OrdMap α β) (k : α) : Nat := if (m.find? k).isSome then 1 else 0

@[simp] theorem find?_empty (k : α) : (empty : OrdMap α β).find? k = none := rfl

theorem find?_insert (m : OrdMap α β) (k j : α) (v : β) :
    (m.insert k v).find? j = if k = j then some v else m.find? j := by
  show ((insertEntry k v m.entries).find? (·.1 = j)).map Prod.snd = _
  unfold find?
  induction m.entries with
  | nil =>
    by_cases hj : k = j
    · simp [insertEntry, hj]
    · simp [insertEntry, hj]
  | cons e es ih =>
    simp only [insertEntry]
    by_cases hj : k = j
    · subst hj
      split
      · simp
      · split
        · simp
        case isFalse hne => simpa [List.find?_cons, Ne.symm hne] using ih
    · rw [if_neg hj] at ih ⊢
      split
      · simp [hj]
      · split
        case isTrue heq => simp [← heq, hj]
        case isFalse =>
          simp only [List.find?_cons]
          split
          · rfl
          · exact ih

theorem find?_erase (m : OrdMap α β) (k j : α) :
    (m.erase k).find? j = if k = j then none else m.find? j := by
  unfold find? erase
  rw [List.find?_filter]
  by_cases hj : k = j
  · subst hj
    simp
  · rw [if_neg hj]
    congr 2
    funext e
    by_cases he : e.1 = j
    · simp [he, Ne.symm hj]
    · simp [he]

theorem find?_eq_some (m : OrdMap α β) {k : α} {v : β} : m.find? k = some v ↔ (k, v) ∈ m.entries := by
  unfold find?
  have hsorted := m.sorted
  generalize m.entries = es at hsorted
  induction es with
  | nil => simp
  | cons e es ih =>
    obtain ⟨hhead, htail⟩ := List.pairwise_cons.mp hsorted
    rw [List.find?_cons, List.mem_cons]
    by_cases he : e.1 = k
    · subst he
      have hnot : (e.1, v) ∉ es := fun hmem => lt_irrefl e.1 (hhead (e.1, v) hmem)
      simp [hnot, Prod.ext_iff, eq_comm]
    · have hne : (k, v) ≠ e := fun heq => he (congrArg Prod.fst heq).symm
      simpa [he, hne] using ih htail

/-- To say what is found at a key is to say nothing new. -/
theorem ite_find? (m : OrdMap α β) {k : α} {x : Option β} (h : m.find? k = x) (j : α) :
    (if k = j then x else m.find? j) = m.find? j := by
  split
  case isTrue hj => rw [← hj, h]
  case isFalse => rfl

/-- An entry behind all others goes to the end. -/
theorem insertEntry_last {k : α} {v : β} {es : List (α × β)} (h : ∀ e ∈ es, e.1 < k) :
    insertEntry k v es = es ++ [(k, v)] := by
  induction es with
  | nil => rfl
  | cons e es ih =>
    obtain ⟨hhead, htail⟩ := List.forall_mem_cons.mp h
    rw [insertEntry, if_neg (not_lt_of_gt hhead), if_neg (ne_of_gt hhead), ih htail]
    rfl

/-- The entries of a map, set one by one, make the map. -/
theorem foldl_insert_entries (m : OrdMap α β) : m.entries.foldl (fun m e => m.insert e.1 e.2) empty = m := by
  have hall : ∀ (es : List (α × β)) (m₀ : OrdMap α β), (m₀.entries ++ es).Pairwise (·.1 < ·.1) →
      (es.foldl (fun m e => m.insert e.1 e.2) m₀).entries = m₀.entries ++ es := by
    intro es
    induction es with
    | nil => exact fun m₀ _ => (List.append_nil _).symm
    | cons e es ih =>
      intro m₀ hsorted
      have hlast : (m₀.insert e.1 e.2).entries = m₀.entries ++ [e] :=
        insertEntry_last fun e' he' => (List.pairwise_append.mp hsorted).2.2 e' he' e List.mem_cons_self
      rw [List.foldl_cons, ih (m₀.insert e.1 e.2) (by rw [hlast]; simpa using hsorted), hlast]
      simp
  exact ext (hall m.entries empty m.sorted)

end OrdMap
end Chtho.Lib
