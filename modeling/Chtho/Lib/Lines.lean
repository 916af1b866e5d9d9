import Chtho.Lib.Packed

/-! Texts of lines.

A line is a text that ends with a separator and has no other. Where lines are packed whole into
chunks, splitting a chunk at the separators gives the lines that are in it back, and behind the
last separator there is nothing. -/
namespace Chtho.Lib

variable {α : Type} {sep : α}

/-- Text that ends with the separator, which is nowhere else in it. -/
def IsLine (sep : α) (text : List α) : Prop := ∃ body, text = body ++ [sep] ∧ sep ∉ body

theorem isLine_append {body : List α} (h : sep ∉ body) : IsLine sep (body ++ [sep]) := ⟨body, rfl, h⟩

theorem IsLine.dropLast_append {text : List α} (h : IsLine sep text) : text.dropLast ++ [sep] = text := by
  obtain ⟨body, rfl, -⟩ := h
  rw [List.dropLast_concat]

/-- Every item of a chunk is one of the items. -/
theorem Packed.exists_group {items chunks : List (List α)} {chunk : List α} (h : Packed items chunks)
    (hmem : chunk ∈ chunks) : ∃ group : List (List α), group.flatten = chunk ∧ ∀ item ∈ group, item ∈ items := by
  obtain ⟨groups, rfl, rfl⟩ := h
  obtain ⟨group, hgroup, rfl⟩ := List.mem_map.mp hmem
  exact ⟨group, rfl, fun item hitem => List.mem_flatten_of_mem hgroup hitem⟩

/-- Chunks that are made of such items are so together. -/
theorem exists_items_flatten {p : List α → Prop} {chunks : List (List α)}
    (h : ∀ chunk ∈ chunks, ∃ items : List (List α), items.flatten = chunk ∧ ∀ item ∈ items, p item) :
    ∃ items : List (List α), items.flatten = chunks.flatten ∧ ∀ item ∈ items, p item := by
  induction chunks with
  | nil => exact ⟨[], rfl, by simp⟩
  | cons chunk chunks ih =>
    obtain ⟨⟨first, rfl, hfirst⟩, hrest⟩ := List.forall_mem_cons.mp h
    obtain ⟨rest, hflat, hitems⟩ := ih hrest
    refine ⟨first ++ rest, ?_, List.forall_mem_append.mpr ⟨hfirst, hitems⟩⟩
    rw [List.flatten_append, hflat, List.flatten_cons]

section
variable [BEq α] [LawfulBEq α]

/-- Lines put one behind the other can be told apart. -/
theorem splitOn_lines {lines : List (List α)} (h : ∀ line ∈ lines, IsLine sep line) :
    lines.flatten.splitOn sep = lines.map List.dropLast ++ [[]] := by
  induction lines with
  | nil => rfl
  | cons line lines ih =>
    obtain ⟨⟨body, rfl, hbody⟩, hrest⟩ := List.forall_mem_cons.mp h
    rw [List.flatten_cons, List.append_assoc, List.singleton_append, List.splitOn_append_cons_self_of_not_mem hbody,
      ih hrest, List.map_cons, List.dropLast_concat, List.cons_append]

/-- The chunks that lines are packed into, split at the separators: they are the lines in their order. -/
theorem Packed.splitOn {lines chunks : List (List α)} (h : Packed lines chunks)
    (hlines : ∀ line ∈ lines, IsLine sep line) :
    ∃ groups : List (List (List α)), groups.flatten = lines.map List.dropLast ∧
      chunks.map (List.splitOn sep) = groups.map (· ++ [[]]) := by
  obtain ⟨groups, rfl, rfl⟩ := h
  refine ⟨groups.map (List.map List.dropLast), by rw [List.map_flatten], ?_⟩
  rw [List.map_map, List.map_map]
  refine List.map_congr_left fun group hgroup => splitOn_lines fun line hline => ?_
  exact hlines line (List.mem_flatten_of_mem hgroup hline)

end

end Chtho.Lib
