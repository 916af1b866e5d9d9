import Mathlib.Data.List.Basic
import Mathlib.Data.List.Induction
import Mathlib.Tactic.Common

/-! Items packed whole into chunks.

A writer appends items to the last chunk or starts another; a reader takes chunks from
the front. However it goes, the chunks are the items in order, and no item is split
between two of them. -/
namespace Chtho.Lib

variable {α : Type}

/-- Every chunk is the concatenation of some of the items, all of them in order. -/
def Packed (items chunks : List (List α)) : Prop :=
  ∃ groups : List (List (List α)), groups.flatten = items ∧ groups.map List.flatten = chunks

namespace Packed
variable {items chunks : List (List α)} {chunk item : List α}

theorem nil : Packed ([] : List (List α)) [] := ⟨[], rfl, rfl⟩

theorem flatten_eq (h : Packed items chunks) : chunks.flatten = items.flatten := by
  obtain ⟨groups, rfl, rfl⟩ := h
  exact List.flatten_flatten.symm

/-- An empty chunk holds no item. -/
theorem snoc_nil (h : Packed items chunks) : Packed items (chunks ++ [[]]) := by
  obtain ⟨groups, rfl, rfl⟩ := h
  exact ⟨groups ++ [[]], by simp, by simp⟩

/-- The next item goes to the last chunk. -/
theorem extend (h : Packed items (chunks ++ [chunk])) : Packed (items ++ [item]) (chunks ++ [chunk ++ item]) := by
  obtain ⟨groups, hitems, hchunks⟩ := h
  obtain ⟨front, last, rfl, rfl, hlast⟩ := List.map_eq_append_iff.mp hchunks
  obtain ⟨group, rfl, rfl⟩ := List.map_eq_singleton_iff.mp hlast
  exact ⟨front ++ [group ++ [item]], by simp [← hitems], by simp⟩

/-- Or it starts one. -/
theorem snoc (h : Packed items chunks) : Packed (items ++ [item]) (chunks ++ [item]) :=
  h.snoc_nil.extend

/-- Every item is a chunk of its own. -/
theorem refl (items : List (List α)) : Packed items items := by
  induction items using List.reverseRecOn with
  | nil => exact nil
  | append_singleton items item ih => exact ih.snoc

theorem append {items' chunks' : List (List α)} (h : Packed items chunks) (h' : Packed items' chunks') :
    Packed (items ++ items') (chunks ++ chunks') := by
  obtain ⟨groups, rfl, rfl⟩ := h
  obtain ⟨groups', rfl, rfl⟩ := h'
  exact ⟨groups ++ groups', List.flatten_append, List.map_append⟩

/-- Groups of images are images of groups. -/
theorem exists_groups {β γ : Type} {f : β → γ} {items : List β} {groups : List (List γ)}
    (h : items.map f = groups.flatten) : ∃ items' : List (List β), items'.flatten = items ∧ items'.map (List.map f) = groups := by
  induction groups generalizing items with
  | nil => exact ⟨[], (List.map_eq_nil_iff.mp h).symm, rfl⟩
  | cons group groups ih =>
    obtain ⟨first, rest, rfl, hfirst, hrest⟩ := List.map_eq_append_iff.mp h
    obtain ⟨items', rfl, rfl⟩ := ih hrest
    exact ⟨first :: items', rfl, by rw [List.map_cons, hfirst]⟩

/-- The chunks may be packed in their turn. -/
theorem trans {larger : List (List α)} (h : Packed items chunks) (h' : Packed chunks larger) : Packed items larger := by
  obtain ⟨groups, rfl, hchunks⟩ := h
  obtain ⟨groups', hflat, rfl⟩ := h'
  obtain ⟨parts, rfl, rfl⟩ := exists_groups (hchunks.trans hflat.symm)
  refine ⟨parts.map List.flatten, List.flatten_flatten.symm, ?_⟩
  simp only [List.map_map]
  exact List.map_congr_left fun part _ => List.flatten_flatten

end Packed
end Chtho.Lib
