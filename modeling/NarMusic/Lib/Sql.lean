/-
  Prepared statements on one table, as SQLite executes them.

  * A row has a value for each column.  Parameters are numbered from 1; one that is
    not bound is `NULL`.
  * `INSERT INTO t (cols) VALUES (?, ...)` and `UPDATE t SET col = ?, ...` assign the
    parameters to the columns in the order of the statement (`assign`); `SELECT cols`
    answers the values in that order (`project`), which are then read by position
    (`column`).
  * No two rows of a table have the same primary key.
-/
import Mathlib.Data.List.Nodup
import NarMusic.Lib.Int

namespace Sql

open Cxx

inductive Value where
  | null
  | integer (n : ℤ)
  | text (s : Str)
  deriving DecidableEq

/-- `sqlite3_bind_text` of a C string. -/
def Value.ofStr (s : Str) : Value := .text (cStr s)

/-- `sqlite3_column_text`, read as a C string. -/
def Value.toStr : Value → Str
  | .text s => cStr s
  | .integer n => decInt n
  | .null => []

/-- `sqlite3_column_int64`. -/
def Value.toInt : Value → ℤ
  | .integer n => n
  | _ => 0

abbrev Row (κ : Type) := κ → Value

/-- `sqlite3_column_int`: the low 32 bits. -/
def Value.toInt32 (v : Value) : ℤ := int32 v.toInt

@[simp] theorem Value.toStr_text (s : Str) : (Value.text s).toStr = cStr s := rfl

@[simp] theorem Value.toInt_integer (n : ℤ) : (Value.integer n).toInt = n := rfl

@[simp] theorem Value.toInt32_integer (n : ℤ) : (Value.integer n).toInt32 = int32 n := rfl

/-- The parameters bound by `sqlite3_bind_*(stmt, i, v)`. -/
def params (bound : List (ℕ × Value)) (i : ℕ) : Value := (bound.lookup i).getD .null

section
variable {κ : Type} [DecidableEq κ]

/-- The columns `cols` take the parameters from the first one on. -/
def assign (cols : List κ) (ps : ℕ → Value) (row : Row κ) : Row κ := fun c =>
  if c ∈ cols then ps (cols.idxOf c + 1) else row c

/-- The row `INSERT` makes where no column has a default. -/
def insertRow (cols : List κ) (ps : ℕ → Value) : Row κ := assign cols ps fun _ => .null

def project (cols : List κ) (row : Row κ) : List Value := cols.map row

/-- Column `i` of a result row. -/
def column (vals : List Value) (i : ℕ) : Value := vals.getD i .null

theorem assign_of_notMem {cols : List κ} {c : κ} (h : c ∉ cols) (ps : ℕ → Value) (row : Row κ) :
    assign cols ps row c = row c := if_neg h

end

/-- A table with the primary key `key`. -/
structure Table {κ : Type} (key : κ) where
  rows : List (Row κ)
  nodup : (rows.map (· key)).Nodup

namespace Table

variable {κ : Type} {key : κ}

def empty : Table key := ⟨[], List.nodup_nil⟩

/-- `SELECT ... WHERE key = ?`. -/
def select (table : Table key) (k : Value) : Option (Row κ) := table.rows.find? (· key = k)

/-- `SELECT ... WHERE p`. -/
def selectWhere (table : Table key) (p : Row κ → Prop) [DecidablePred p] : List (Row κ) := table.rows.filter (p ·)

/-- `INSERT` of a row with a new key. -/
def insert (table : Table key) (row : Row κ) (hnew : ∀ old ∈ table.rows, old key ≠ row key) :
    Table key where
  rows := table.rows ++ [row]
  nodup := by
    rw [List.map_append, List.nodup_append]
    refine ⟨table.nodup, List.nodup_singleton _, ?_⟩
    intro k hk k' hk'
    obtain ⟨old, hold, rfl⟩ := List.mem_map.1 hk
    obtain rfl := List.mem_singleton.1 hk'
    exact hnew old hold

/-- `DELETE ... WHERE p`. -/
def delete (table : Table key) (p : Row κ → Prop) [DecidablePred p] : Table key where
  rows := table.rows.filter (¬ p ·)
  nodup := table.nodup.sublist (List.filter_sublist.map _)

/-- `INSERT OR REPLACE`. -/
def replace (table : Table key) (row : Row κ) : Table key :=
  (table.delete (· key = row key)).insert row fun _ hold => of_decide_eq_true (List.mem_filter.1 hold).2

/-- `UPDATE ... WHERE p`, which leaves the keys. -/
def update (table : Table key) (p : Row κ → Prop) [DecidablePred p] (f : Row κ → Row κ)
    (hkey : ∀ row, f row key = row key) : Table key where
  rows := table.rows.map fun row => if p row then f row else row
  nodup := by
    have hmap : (fun row : Row κ => row key) ∘ (fun row => if p row then f row else row) =
        fun row => row key := by
      funext row
      simp only [Function.comp]
      split_ifs
      · exact hkey row
      · rfl
    rw [List.map_map, hmap]
    exact table.nodup

/-! ## What is found after a statement -/

theorem select_eq_some {table : Table key} {k : Value} {row : Row κ} :
    table.select k = some row ↔ row ∈ table.rows ∧ row key = k := by
  constructor
  · intro h
    have hk := List.find?_some h
    exact ⟨List.mem_of_find?_eq_some h, of_decide_eq_true hk⟩
  · rintro ⟨hrow, rfl⟩
    cases hfind : table.rows.find? (· key = row key) with
    | none =>
      have := List.find?_eq_none.1 hfind row hrow
      simp at this
    | some found =>
      have hmem := List.mem_of_find?_eq_some hfind
      have hkey := List.find?_some hfind
      have hkey : found key = row key := of_decide_eq_true hkey
      rw [List.inj_on_of_nodup_map table.nodup hmem hrow hkey] at hfind
      exact hfind

theorem select_ext {table table' : Table key} {k : Value}
    (h : ∀ row : Row κ, row key = k → (row ∈ table'.rows ↔ row ∈ table.rows)) :
    table'.select k = table.select k := by
  refine Option.ext fun row => ?_
  rw [select_eq_some, select_eq_some]
  exact and_congr_left fun hk => h row hk

theorem select_insert_self (table : Table key) {row : Row κ}
    (hnew : ∀ old ∈ table.rows, old key ≠ row key) :
    (table.insert row hnew).select (row key) = some row :=
  select_eq_some.2 ⟨List.mem_append_right _ (List.mem_singleton_self row), rfl⟩

theorem select_insert_ne (table : Table key) {row : Row κ}
    (hnew : ∀ old ∈ table.rows, old key ≠ row key) {k : Value} (hk : k ≠ row key) :
    (table.insert row hnew).select k = table.select k := by
  refine select_ext fun old hold => ?_
  simp only [insert, List.mem_append, List.mem_singleton]
  refine or_iff_left ?_
  rintro rfl
  exact hk hold.symm

theorem select_replace_self (table : Table key) (row : Row κ) :
    (table.replace row).select (row key) = some row := select_insert_self _ _

theorem select_update (table : Table key) (p : Row κ → Prop) [DecidablePred p] {f : Row κ → Row κ}
    (hkey : ∀ row, f row key = row key) (k : Value) :
    (table.update p f hkey).select k = (table.select k).map fun row => if p row then f row else row := by
  have hkept : ∀ row : Row κ, (if p row then f row else row) key = row key := by
    intro row
    split_ifs
    · exact hkey row
    · rfl
  refine Option.ext fun row => ?_
  rw [Option.map_eq_some_iff, select_eq_some]
  simp only [update, List.mem_map, select_eq_some]
  constructor
  · rintro ⟨⟨old, hold, rfl⟩, hk⟩
    exact ⟨old, ⟨hold, (hkept old).symm.trans hk⟩, rfl⟩
  · rintro ⟨old, ⟨hold, hk⟩, rfl⟩
    exact ⟨⟨old, hold, rfl⟩, (hkept old).trans hk⟩

/-- What is selected of rows that hold records. -/
theorem selectWhere_map {α : Type} {table : Table key} {records : List α} {columns : α → Row κ}
    (h : table.rows = records.map columns) {p : Row κ → Prop} [DecidablePred p] {q : α → Prop} [DecidablePred q]
    (hpq : ∀ a, p (columns a) ↔ q a) : table.selectWhere p = (records.filter (q ·)).map columns := by
  rw [selectWhere, h, List.filter_map]
  congr 1
  exact List.filter_congr fun a _ => decide_eq_decide.2 (hpq a)

end Table

end Sql
