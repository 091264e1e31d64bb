/-
  The first of a sequence of candidates that is not in use.

  The candidates are tried one after the other.  When they are distinct, there is a
  fresh one among as many as are in use and one more, so the search ends.
-/
import Mathlib.Data.Finset.Card
import Mathlib.Data.Nat.Find

namespace FirstFresh

variable {α : Type} [DecidableEq α] (candidate : ℕ → α) (used : Finset α)

/-- The first fresh candidate from the `k`-th on; `none` is out of fuel. -/
def firstFresh : ℕ → ℕ → Option ℕ
  | 0, _ => none
  | fuel + 1, k => if candidate k ∈ used then firstFresh fuel (k + 1) else some k

variable {candidate used}

theorem exists_fresh (h : Function.Injective candidate) (used : Finset α) :
    ∃ k ≤ used.card, candidate k ∉ used := by
  by_contra hnone
  push Not at hnone
  have hsub : (Finset.range (used.card + 1)).image candidate ⊆ used := by
    intro a ha
    obtain ⟨k, hk, rfl⟩ := Finset.mem_image.1 ha
    exact hnone k (Nat.lt_succ_iff.1 (Finset.mem_range.1 hk))
  have hcard := Finset.card_le_card hsub
  rw [Finset.card_image_of_injective _ h, Finset.card_range] at hcard
  omega

/-- The first fresh one of distinct candidates. -/
theorem exists_first (h : Function.Injective candidate) (used : Finset α) :
    ∃ j ≤ used.card, candidate j ∉ used ∧ ∀ i < j, candidate i ∈ used := by
  obtain ⟨n, hn, hfresh⟩ := exists_fresh h used
  have hex : ∃ k, candidate k ∉ used := ⟨n, hfresh⟩
  refine ⟨Nat.find hex, (Nat.find_min' hex hfresh).trans hn, Nat.find_spec hex, fun i hi => ?_⟩
  exact not_not.1 (Nat.find_min hex hi)

theorem firstFresh_eq_some {j k fuel : ℕ} (hk : k ≤ j) (hj : candidate j ∉ used)
    (hskipped : ∀ i, k ≤ i → i < j → candidate i ∈ used) (hfuel : j < k + fuel) :
    firstFresh candidate used fuel k = some j := by
  induction fuel generalizing k with
  | zero => omega
  | succ fuel ih =>
    rcases Nat.eq_or_lt_of_le hk with rfl | hlt
    · rw [firstFresh, if_neg hj]
    · rw [firstFresh, if_pos (hskipped k le_rfl hlt)]
      exact ih hlt (fun i hi => hskipped i (by omega)) (by omega)

end FirstFresh
