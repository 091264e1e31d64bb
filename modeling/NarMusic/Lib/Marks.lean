/-
  Lists with marked positions, and what removing positions does to the marks.

  * `eraseIdx_mark`: the marks behind a removed position move up with their elements;
  * `foldl_eraseIdx`: removing positions from the last one to the first one removes
    exactly their elements.
-/
import Mathlib.Tactic.Common
import Mathlib.Data.List.Basic

namespace Marks

universe u
variable {α : Type u}

/-- The elements of a list, each with whether its position is marked. -/
def mark (p : ℕ → Bool) (l : List α) : List (α × Bool) := l.mapIdx fun i a => (a, p i)

@[simp] theorem getElem?_mark (p : ℕ → Bool) (l : List α) (i : ℕ) :
    (mark p l)[i]? = l[i]?.map fun a => (a, p i) :=
  List.getElem?_mapIdx

theorem mark_congr {p q : ℕ → Bool} {l : List α} (h : ∀ i < l.length, p i = q i) :
    mark p l = mark q l := by
  refine List.ext_getElem? fun i => ?_
  rw [getElem?_mark, getElem?_mark]
  cases hi : l[i]? with
  | none => rfl
  | some a => rw [h i (List.getElem?_eq_some_iff.1 hi).1]

/-- **A position that goes**: the marks behind it move up with their elements. -/
theorem eraseIdx_mark (p : ℕ → Bool) (l : List α) (k : ℕ) :
    (mark p l).eraseIdx k = mark (fun i => if i < k then p i else p (i + 1)) (l.eraseIdx k) := by
  refine List.ext_getElem? fun i => ?_
  rw [getElem?_mark, List.getElem?_eraseIdx, List.getElem?_eraseIdx]
  split_ifs <;> rw [getElem?_mark]

/-- An element that a filter drops can be removed before. -/
theorem filter_eraseIdx {q : α → Bool} {l : List α} {k : ℕ} {a : α} (hk : l[k]? = some a) (ha : q a = false) :
    (l.eraseIdx k).filter q = l.filter q := by
  obtain ⟨hlt, rfl⟩ := List.getElem?_eq_some_iff.1 hk
  have hsplit : l = l.take k ++ l[k] :: l.drop (k + 1) := by simp
  conv_rhs => rw [hsplit]
  rw [List.eraseIdx_eq_take_drop_succ, List.filter_append, List.filter_append, List.filter_cons,
    if_neg (by simp [ha])]

/-- **Positions that go, the last one first**: exactly the elements at other positions stay. -/
theorem foldl_eraseIdx {down : List ℕ} (hdown : down.Pairwise (· > ·)) (l : List α) :
    mark (fun _ => false) (down.foldl List.eraseIdx l) = (mark down.contains l).filter (!·.2) := by
  induction down generalizing l with
  | nil =>
    have hall : ∀ x ∈ mark (fun _ => false) l, !x.2 := by
      intro x hx
      obtain ⟨i, hi⟩ := List.mem_iff_getElem?.1 hx
      rw [getElem?_mark] at hi
      obtain ⟨a, -, rfl⟩ := Option.map_eq_some_iff.1 hi
      rfl
    exact (List.filter_eq_self.2 hall).symm
  | cons d rest ih =>
    obtain ⟨hlt, hrest⟩ := List.pairwise_cons.1 hdown
    rw [List.foldl_cons, ih hrest]
    by_cases hd : d < l.length
    · have hmarked : (mark (d :: rest).contains l)[d]? = some (l[d], true) := by
        rw [getElem?_mark, List.getElem?_eq_getElem hd]
        simp
      rw [← filter_eraseIdx hmarked rfl, eraseIdx_mark]
      congr 1
      refine mark_congr fun i _ => ?_
      -- neither the position nor one behind it is in the rest
      split_ifs with hi
      · simp [Nat.ne_of_lt hi]
      · have hnot : ∀ j, d ≤ j → j ∉ rest := fun j hj hmem => absurd (hlt j hmem) (by omega)
        have hne : i + 1 ≠ d := by omega
        simp [hnot i (by omega), hnot (i + 1) (by omega), hne]
    · rw [List.eraseIdx_of_length_le (by omega)]
      congr 1
      refine mark_congr fun i hi => ?_
      have hne : i ≠ d := by omega
      simp [hne]

end Marks
