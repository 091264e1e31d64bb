/-
  A list whose places are changed one at a time, and which grows at its end: the jobs
  of a pool, the parties of a machine.

  What stands in a place afterwards stood there before, or is the new value
  (`getElem?_set_cases`, `getElem?_append_cases`); a count changes by what is changed
  (`countP_set`).
-/
import Mathlib.Tactic.Common
import Mathlib.Tactic.SplitIfs

namespace Slots

universe u
variable {α : Type u} {l : List α} {i j : ℕ} {a b : α}

theorem getElem?_set_cases (h : (l.set i a)[j]? = some b) :
    (j = i ∧ b = a) ∨ (j ≠ i ∧ l[j]? = some b) := by
  rw [List.getElem?_set] at h
  by_cases hij : i = j
  · rw [if_pos hij] at h
    split_ifs at h
    exact Or.inl ⟨hij.symm, (Option.some.inj h).symm⟩
  · rw [if_neg hij] at h
    exact Or.inr ⟨Ne.symm hij, h⟩

theorem mem_set_cases (h : b ∈ l.set i a) : b = a ∨ ∃ j, j ≠ i ∧ l[j]? = some b := by
  obtain ⟨j, hj⟩ := List.mem_iff_getElem?.1 h
  rcases getElem?_set_cases hj with ⟨-, rfl⟩ | ⟨hne, hj⟩
  · exact Or.inl rfl
  · exact Or.inr ⟨j, hne, hj⟩

theorem mem_set_of_ne (hne : j ≠ i) (hj : l[j]? = some b) : b ∈ l.set i a :=
  List.mem_iff_getElem?.2 ⟨j, by rw [List.getElem?_set, if_neg (Ne.symm hne), hj]⟩

theorem mem_set_self (hi : l[i]? = some b) : a ∈ l.set i a :=
  List.mem_iff_getElem?.2 ⟨i, by simp [(List.getElem?_eq_some_iff.1 hi).1]⟩

theorem getElem?_append_cases (h : (l ++ [a])[j]? = some b) :
    l[j]? = some b ∨ (j = l.length ∧ b = a) := by
  rcases Nat.lt_or_ge j l.length with hlt | hge
  · rw [List.getElem?_append_left hlt] at h
    exact Or.inl h
  · rw [List.getElem?_append_right hge, List.getElem?_singleton] at h
    split_ifs at h with hzero
    exact Or.inr ⟨by omega, (Option.some.inj h).symm⟩

theorem mem_append_cases (h : b ∈ l ++ [a]) : b ∈ l ∨ b = a := by
  rw [List.mem_append, List.mem_singleton] at h
  exact h

theorem pairwise_iff_getElem? {R : α → α → Prop} :
    l.Pairwise R ↔ ∀ i j : ℕ, i < j → ∀ a ∈ l[i]?, ∀ b ∈ l[j]?, R a b := by
  rw [List.pairwise_iff_getElem]
  constructor
  · intro h i j hij a ha b hb
    obtain ⟨hi, rfl⟩ := List.getElem?_eq_some_iff.1 ha
    obtain ⟨hj, rfl⟩ := List.getElem?_eq_some_iff.1 hb
    exact h i j hi hj hij
  · intro h i j hi hj hij
    exact h i j hij _ (List.getElem?_eq_getElem hi) _ (List.getElem?_eq_getElem hj)

/-- The count of the old value goes, that of the new one comes. -/
theorem countP_set (p : α → Bool) (hi : l[i]? = some b) :
    (l.set i a).countP p + (if p b then 1 else 0) = l.countP p + (if p a then 1 else 0) := by
  obtain ⟨hlt, rfl⟩ := List.getElem?_eq_some_iff.1 hi
  have hone : (if p l[i] then 1 else 0) ≤ l.countP p := by
    split_ifs with hp
    · exact List.countP_pos_iff.2 ⟨l[i], List.getElem_mem hlt, hp⟩
    · exact Nat.zero_le _
  rw [List.countP_set hlt]
  omega

end Slots
