/-
  The deletion of several songs (`LibraryService::deleteFiles`).

  Each removal counts the rows with the path of its row while that row is still in the
  table, which earlier removals have already changed.
-/
import NarMusic.Lib.Shared
import NarMusic.Download.Library

namespace NarMusic.Shelf

open Cxx Shared

/-- The path is freed by the deletion of the rows with these ids. -/
def Unreferenced (table : LibraryTable) (gone : ℤ → Prop) (path : Str) : Prop :=
  path ≠ [] ∧ Freed LibraryRow.id LibraryRow.filePath table.rows gone path

theorem findById_row {table : LibraryTable} {row : LibraryRow} (hrow : row ∈ table.rows) :
    table.findById row.id = some row.readRow := by
  cases hfound : table.rows.find? (·.id = row.id) with
  | none =>
    have hno := List.find?_eq_none.1 hfound row hrow
    simp at hno
  | some found =>
    have hid := List.find?_some hfound
    have heq := List.inj_on_of_nodup_map table.nodup (List.mem_of_find?_eq_some hfound) hrow (by simpa using hid)
    rw [LibraryTable.findById, hfound, heq, Option.map_some]

theorem findById_none {table : LibraryTable} {id : ℤ} :
    table.findById id = none ↔ ∀ row ∈ table.rows, row.id ≠ id := by
  rw [LibraryTable.findById, Option.map_eq_none_iff, List.find?_eq_none]
  simp

/-- The count that `remove` takes says whether another row has the path. -/
theorem countByFilePath_le_one {table : LibraryTable} {row : LibraryRow} (hrow : row ∈ table.rows) :
    table.countByFilePath row.filePath ≤ 1 ↔
      ∀ other ∈ table.rows, other.id ≠ row.id → other.filePath ≠ row.filePath := by
  refine ⟨fun hcount => LibraryTable.filePath_unique (findById_row hrow) hcount, fun hothers => ?_⟩
  have hplain : cStr row.filePath = row.filePath := table.plain row hrow
  have hself : table.rows.filter (·.filePath = cStr row.filePath) ⊆ [row] := by
    intro other hother
    obtain ⟨hmem, hpath⟩ := List.mem_filter.1 hother
    rw [decide_eq_true_eq, hplain] at hpath
    by_contra hne
    rw [List.mem_singleton] at hne
    refine hothers other hmem (fun hid => hne ?_) hpath
    exact List.inj_on_of_nodup_map table.nodup hmem hrow hid
  have hnodup : (table.rows.filter (·.filePath = cStr row.filePath)).Nodup :=
    (table.nodup.of_map _).filter _
  rw [LibraryTable.countByFilePath, List.countP_eq_length_filter]
  exact (List.subperm_of_subset hnodup hself).length_le

/-! ## One removal -/

section
variable (denied : Finset Str) (shelf : Shelf) (id : ℤ)

theorem rows_remove : (shelf.remove denied id).table.rows = shelf.table.rows.filter (·.id ≠ id) := by
  unfold remove
  split
  · next hnone =>
    refine (List.filter_eq_self.2 fun row hrow => ?_).symm
    exact decide_eq_true (findById_none.1 hnone row hrow)
  · rfl

theorem unreferenced_row {row : LibraryRow} (hrow : row ∈ shelf.table.rows) {path : Str} :
    Unreferenced shelf.table (· = row.id) path ↔
      path ≠ [] ∧ path = row.filePath ∧ shelf.table.countByFilePath row.filePath ≤ 1 := by
  rw [countByFilePath_le_one hrow]
  refine and_congr_right fun _ => ?_
  constructor
  · rintro ⟨⟨other, hother, hid, rfl⟩, hothers⟩
    obtain rfl := List.inj_on_of_nodup_map shelf.table.nodup hother hrow hid
    exact ⟨rfl, hothers⟩
  · rintro ⟨rfl, hothers⟩
    exact ⟨⟨row, hrow, rfl, rfl⟩, hothers⟩

/-- A removal takes from the disk the path that it frees. -/
theorem mem_disk_remove_iff {path : Str} :
    path ∈ (shelf.remove denied id).disk ↔
      path ∈ shelf.disk ∧ (Unreferenced shelf.table (· = id) path → path ∈ denied) := by
  by_cases hnone : shelf.table.findById id = none
  · have hno : ¬ Unreferenced shelf.table (· = id) path := fun h =>
      not_freed_of_empty (findById_none.1 hnone) h.2
    simp only [remove, hnone, hno, false_imp_iff, and_true]
  · obtain ⟨row, hrow, rfl⟩ : ∃ row ∈ shelf.table.rows, row.id = id := by
      by_contra hno
      push Not at hno
      exact hnone (findById_none.2 hno)
    rw [unreferenced_row shelf hrow]
    simp only [remove, findById_row hrow]
    show path ∈ (if shelf.table.countByFilePath row.filePath ≤ 1 ∧ row.filePath ≠ [] then
      removeFile denied shelf.disk row.filePath else shelf.disk) ↔ _
    split_ifs with hcount
    · rw [mem_removeFile]
      constructor
      · rintro ⟨hpath, hdenied⟩
        exact ⟨hpath, fun h => h.2.1 ▸ hdenied h.2.1⟩
      · rintro ⟨hpath, hdenied⟩
        exact ⟨hpath, fun heq => heq ▸ hdenied ⟨heq ▸ hcount.2, heq, hcount.1⟩⟩
    · have hkept : ¬ (path ≠ [] ∧ path = row.filePath ∧ shelf.table.countByFilePath row.filePath ≤ 1) :=
        fun h => hcount ⟨h.2.2, h.2.1 ▸ h.1⟩
      simp only [hkept, false_imp_iff, and_true]

end

/-! ## A list of removals -/

theorem rows_deleteFiles (denied : Finset Str) (ids : List ℤ) (shelf : Shelf) :
    (shelf.deleteFiles denied ids).table.rows = shelf.table.rows.filter (·.id ∉ ids) := by
  induction ids generalizing shelf with
  | nil => simp [deleteFiles]
  | cons id ids ih =>
    have hrest := ih (shelf.remove denied id)
    rw [rows_remove, List.filter_filter] at hrest
    rw [deleteFiles, List.foldl_cons]
    refine hrest.trans (List.filter_congr fun row _ => ?_)
    rw [← Bool.decide_and]
    simp only [List.mem_cons, not_or, and_comm]

/-- Removals in a row take what a removal of all the rows would free. -/
theorem mem_disk_deleteFiles (denied : Finset Str) (ids : List ℤ) (shelf : Shelf) {path : Str} :
    path ∈ (shelf.deleteFiles denied ids).disk ↔
      path ∈ shelf.disk ∧ (Unreferenced shelf.table (· ∈ ids) path → path ∈ denied) := by
  induction ids generalizing shelf with
  | nil =>
    have hno : ¬ Unreferenced shelf.table (· ∈ []) path := fun h =>
      not_freed_of_empty (fun _ _ => List.not_mem_nil) h.2
    simp only [deleteFiles, List.foldl_nil, hno, false_imp_iff, and_true]
  | cons id ids ih =>
    have hsplit : Unreferenced shelf.table (· ∈ id :: ids) path ↔
        Unreferenced shelf.table (· = id) path ∨
          Unreferenced (shelf.remove denied id).table (· ∈ ids) path := by
      unfold Unreferenced
      simp only [rows_remove, List.mem_cons, freed_or, and_or_left]
    rw [deleteFiles, List.foldl_cons]
    refine (ih (shelf.remove denied id)).trans ?_
    rw [mem_disk_remove_iff, hsplit, or_imp, and_assoc]

/-- **What a deletion leaves.**  The other rows are as they were, and a file that can be removed is
    gone exactly when a deleted row had its path and no row that is left has it. -/
theorem deleteFiles_exact (denied : Finset Str) (shelf : Shelf) (ids : List ℤ) :
    (shelf.deleteFiles denied ids).table.rows = shelf.table.rows.filter (·.id ∉ ids) ∧
      (shelf.deleteFiles denied ids).disk ⊆ shelf.disk ∧
      ∀ path ∈ shelf.disk, path ∉ denied →
        (path ∉ (shelf.deleteFiles denied ids).disk ↔
          path ≠ [] ∧ (∃ row ∈ shelf.table.rows, row.id ∈ ids ∧ row.filePath = path) ∧
            ∀ row ∈ (shelf.deleteFiles denied ids).table.rows, row.filePath ≠ path) := by
  refine ⟨rows_deleteFiles denied ids shelf, fun path hpath => ?_, fun path hpath hdenied => ?_⟩
  · exact ((mem_disk_deleteFiles denied ids shelf).1 hpath).1
  · rw [mem_disk_deleteFiles, rows_deleteFiles]
    simp only [hpath, hdenied, true_and, imp_false, not_not, Unreferenced, Freed, List.mem_filter,
      decide_eq_true_eq, and_imp]

end NarMusic.Shelf
