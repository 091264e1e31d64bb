/-
  The overlap of two multisets, and its computation on sorted lists.

  `setIntersection` goes through two sorted lists in step; what it collects is the
  intersection, with multiplicities.
-/
import Mathlib.Algebra.BigOperators.Group.Finset.Basic
import Mathlib.Algebra.Order.Field.Basic
import Mathlib.Algebra.Order.Ring.Rat
import Mathlib.Algebra.Field.Rat
import Mathlib.Data.Multiset.UnionInter
import Mathlib.Tactic.Positivity

namespace Overlap

variable {α : Type}

/-- `std::set_intersection` -/
def setIntersection [LinearOrder α] : List α → List α → List α
  | [], _ => []
  | _ :: _, [] => []
  | a :: as, b :: bs =>
    if a < b then setIntersection as (b :: bs)
    else if b < a then setIntersection (a :: as) bs
    else a :: setIntersection as bs

/-- The size of the common part of two multisets, by the size of the smaller one. -/
def overlap [DecidableEq α] (s t : Multiset α) : ℚ :=
  if s = 0 ∨ t = 0 then 0 else (s ∩ t).card / (min s.card t.card : ℕ)

/-! ## Sorted lists -/

section
variable [LinearOrder α] [DecidableEq α]

/-- Smaller than all of a sorted list. -/
theorem count_of_lt {a b : α} {bs : List α} (h : a < b) (hs : (b :: bs).Pairwise (· ≤ ·)) :
    (b :: bs).count a = 0 := by
  refine List.count_eq_zero.2 fun hmem => ?_
  rcases List.mem_cons.1 hmem with rfl | hmem
  · exact lt_irrefl a h
  · exact absurd (List.rel_of_pairwise_cons hs hmem) (not_le.2 h)

theorem count_setIntersection {as bs : List α} (ha : as.Pairwise (· ≤ ·)) (hb : bs.Pairwise (· ≤ ·)) (x : α) :
    (setIntersection as bs).count x = min (as.count x) (bs.count x) := by
  induction as, bs using setIntersection.induct with
  | case1 bs => simp [setIntersection]
  | case2 a as => simp [setIntersection]
  | case3 a as b bs h ih =>
    rw [setIntersection, if_pos h, ih ha.of_cons hb]
    by_cases hx : a = x
    · subst hx
      rw [count_of_lt h hb, Nat.min_zero, Nat.min_zero]
    · rw [List.count_cons_of_ne hx]
  | case4 a as b bs h h' ih =>
    rw [setIntersection, if_neg h, if_pos h', ih ha hb.of_cons]
    by_cases hx : b = x
    · subst hx
      rw [count_of_lt h' ha, Nat.zero_min, Nat.zero_min]
    · rw [List.count_cons_of_ne hx]
  | case5 a as b bs h h' ih =>
    obtain rfl : a = b := le_antisymm (not_lt.1 h') (not_lt.1 h)
    rw [setIntersection, if_neg h, if_neg h', List.count_cons, List.count_cons, List.count_cons,
      ih ha.of_cons hb.of_cons, Nat.add_min_add_right]

theorem coe_setIntersection {as bs : List α} (ha : as.Pairwise (· ≤ ·)) (hb : bs.Pairwise (· ≤ ·)) :
    (setIntersection as bs : Multiset α) = (as : Multiset α) ∩ bs := by
  ext x
  rw [Multiset.count_inter, Multiset.coe_count, Multiset.coe_count, Multiset.coe_count,
    count_setIntersection ha hb]

end

/-! ## The overlap -/

section
variable [DecidableEq α] (s t : Multiset α)

theorem card_inter : (s ∩ t).card = ∑ x ∈ s.toFinset, min (s.count x) (t.count x) := by
  have hmem : ∀ x ∈ s ∩ t, x ∈ s.toFinset := fun x hx =>
    Multiset.mem_toFinset.2 (Multiset.mem_of_le Multiset.inter_le_left hx)
  rw [← Multiset.sum_count_eq_card hmem]
  exact Finset.sum_congr rfl fun x _ => Multiset.count_inter x s t

theorem overlap_comm : overlap s t = overlap t s := by
  unfold overlap
  simp only [or_comm, Multiset.inter_comm, min_comm]

theorem card_inter_le : (s ∩ t).card ≤ min s.card t.card :=
  le_min (Multiset.card_le_card Multiset.inter_le_left) (Multiset.card_le_card Multiset.inter_le_right)

theorem overlap_nonneg : 0 ≤ overlap s t := by
  unfold overlap
  split_ifs
  · exact le_rfl
  · positivity

theorem overlap_le_one : overlap s t ≤ 1 := by
  unfold overlap
  split_ifs
  · exact zero_le_one
  · exact div_le_one_of_le₀ (Nat.cast_le.2 (card_inter_le s t)) (Nat.cast_nonneg _)

variable {s t}

/-- The overlap is whole when one multiset contains the other. -/
theorem overlap_eq_one_iff (hs : s ≠ 0) (ht : t ≠ 0) : overlap s t = 1 ↔ s ≤ t ∨ t ≤ s := by
  have hpos : 0 < min s.card t.card := lt_min (Multiset.card_pos.2 hs) (Multiset.card_pos.2 ht)
  have hne : ((min s.card t.card : ℕ) : ℚ) ≠ 0 := Nat.cast_ne_zero.2 hpos.ne'
  rw [overlap, if_neg (not_or.2 ⟨hs, ht⟩), div_eq_one_iff_eq hne, Nat.cast_inj]
  constructor
  · intro h
    rcases le_total s.card t.card with hle | hle
    · rw [min_eq_left hle] at h
      have heq : s ∩ t = s := Multiset.eq_of_le_of_card_le Multiset.inter_le_left h.ge
      exact Or.inl (heq ▸ Multiset.inter_le_right)
    · rw [min_eq_right hle] at h
      have heq : s ∩ t = t := Multiset.eq_of_le_of_card_le Multiset.inter_le_right h.ge
      exact Or.inr (heq ▸ Multiset.inter_le_left)
  · rintro (h | h)
    · have heq : s ∩ t = s := le_antisymm Multiset.inter_le_left (Multiset.le_inter le_rfl h)
      rw [heq, min_eq_left (Multiset.card_le_card h)]
    · have heq : s ∩ t = t := le_antisymm Multiset.inter_le_right (Multiset.le_inter h le_rfl)
      rw [heq, min_eq_right (Multiset.card_le_card h)]

end

end Overlap
