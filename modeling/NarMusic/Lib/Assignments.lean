/-
  Assignments to keys, in order: the last one of a key stays, those before it
  are overwritten.
-/
import Mathlib.Data.List.Perm.Basic
import Mathlib.Data.List.Nodup
import Mathlib.Tactic.Common

namespace Assignments

variable {κ ν : Type} [DecidableEq κ]

/-- The value a key has in the end. -/
def value (k : κ) : List (κ × ν) → Option ν
  | [] => none
  | e :: es => (value k es).or (if k = e.1 then some e.2 else none)

theorem value_append_singleton (k : κ) (es : List (κ × ν)) (e : κ × ν) :
    value k (es ++ [e]) = if k = e.1 then some e.2 else value k es := by
  induction es with
  | nil => simp [value]
  | cons a es ih =>
    rw [List.cons_append, value, ih, value]
    split_ifs <;> simp

/-- The assignments that stay. -/
def lasts : List (κ × ν) → List (κ × ν)
  | [] => []
  | e :: es => if e.1 ∈ es.map Prod.fst then lasts es else e :: lasts es

/-- The assignments that a later one of the same key follows. -/
def overwritten : List (κ × ν) → List (κ × ν)
  | [] => []
  | e :: es => if e.1 ∈ es.map Prod.fst then e :: overwritten es else overwritten es

theorem perm_lasts (es : List (κ × ν)) : es.Perm (lasts es ++ overwritten es) := by
  induction es with
  | nil => exact List.Perm.refl _
  | cons e es ih =>
    unfold lasts overwritten
    split_ifs with hlater
    · exact (ih.cons e).trans List.perm_middle.symm
    · exact ih.cons e

theorem value_eq_none_iff {k : κ} {es : List (κ × ν)} : value k es = none ↔ k ∉ es.map Prod.fst := by
  induction es with
  | nil => simp [value]
  | cons e es ih =>
    rw [value, Option.or_eq_none_iff, ih, List.map_cons, List.mem_cons, not_or]
    split_ifs with hk <;> simp [hk]

theorem value_cons_of_mem {e : κ × ν} {es : List (κ × ν)} (h : e.1 ∈ es.map Prod.fst) (k : κ) :
    value k (e :: es) = value k es := by
  rw [value]
  split_ifs with hk
  · cases hv : value k es with
    | none => exact absurd (hk ▸ h) (value_eq_none_iff.1 hv)
    | some v => rfl
  · exact Option.or_none

theorem value_cons_of_notMem {e : κ × ν} {es : List (κ × ν)} (h : e.1 ∉ es.map Prod.fst) (k : κ) :
    value k (e :: es) = if k = e.1 then some e.2 else value k es := by
  rw [value]
  split_ifs with hk
  · rw [value_eq_none_iff.2 (hk ▸ h)]
    rfl
  · exact Option.or_none

theorem keys_lasts {es : List (κ × ν)} {e : κ × ν} (h : e ∈ lasts es) : e.1 ∈ es.map Prod.fst :=
  List.mem_map_of_mem ((perm_lasts es).symm.subset (List.mem_append_left _ h))

/-- What stays at a key is its value. -/
theorem mem_lasts {es : List (κ × ν)} {k : κ} {v : ν} : (k, v) ∈ lasts es ↔ value k es = some v := by
  induction es with
  | nil => simp [lasts, value]
  | cons e es ih =>
    by_cases hlater : e.1 ∈ es.map Prod.fst
    · rw [lasts, if_pos hlater, value_cons_of_mem hlater, ih]
    · rw [lasts, if_neg hlater, value_cons_of_notMem hlater, List.mem_cons, ih]
      by_cases hk : k = e.1
      · have hnone : value k es = none := value_eq_none_iff.2 (hk ▸ hlater)
        rw [if_pos hk, hnone]
        constructor
        · rintro (rfl | h)
          · rfl
          · cases h
        · intro h
          obtain rfl : e.2 = v := by simpa using h
          exact Or.inl (Prod.ext hk rfl)
      · rw [if_neg hk]
        refine or_iff_right ?_
        rintro rfl
        exact hk rfl

theorem nodup_keys_lasts (es : List (κ × ν)) : ((lasts es).map Prod.fst).Nodup := by
  induction es with
  | nil => exact List.nodup_nil
  | cons e es ih =>
    unfold lasts
    split_ifs with hlater
    · exact ih
    · rw [List.map_cons, List.nodup_cons]
      refine ⟨fun hmem => ?_, ih⟩
      obtain ⟨d, hd, heq⟩ := List.mem_map.1 hmem
      exact hlater (heq ▸ keys_lasts hd)

theorem nodup_lasts (es : List (κ × ν)) : (lasts es).Nodup := (nodup_keys_lasts es).of_map _

theorem overwritten_eq_nil_iff {es : List (κ × ν)} :
    overwritten es = [] ↔ (es.map Prod.fst).Nodup := by
  induction es with
  | nil => simp [overwritten]
  | cons e es ih =>
    rw [overwritten, List.map_cons, List.nodup_cons, ← ih]
    split_ifs with hlater <;> simp [hlater]

end Assignments
