/-
  Records that share resources.

  A resource is freed by a removal when a removed record has it and no record that is
  left does.  Removals one after the other free what a removal of all would free.
-/
import Mathlib.Tactic.Common

namespace Shared

variable {α κ ρ : Type} (key : α → κ) (resource : α → ρ)

/-- What is freed when the records with these keys are removed. -/
def Freed (records : List α) (gone : κ → Prop) (r : ρ) : Prop :=
  (∃ a ∈ records, gone (key a) ∧ resource a = r) ∧ ∀ a ∈ records, ¬ gone (key a) → resource a ≠ r

variable {key resource} {records : List α} {gone gone' : κ → Prop} {r : ρ}

theorem not_freed_of_empty (h : ∀ a ∈ records, ¬ gone (key a)) : ¬ Freed key resource records gone r := by
  rintro ⟨⟨a, ha, hgone, -⟩, -⟩
  exact h a ha hgone

/-- Two removals in a row. -/
theorem freed_or [DecidablePred gone] :
    Freed key resource records (fun k => gone k ∨ gone' k) r ↔
      Freed key resource records gone r ∨
        Freed key resource (records.filter fun a => ¬ gone (key a)) gone' r := by
  have hleft {a : α} : a ∈ records.filter (fun a => ¬ gone (key a)) ↔ a ∈ records ∧ ¬ gone (key a) := by
    rw [List.mem_filter, decide_eq_true_eq]
  constructor
  · rintro ⟨⟨a, ha, hgone, hr⟩, hothers⟩
    by_cases hfirst : ∀ b ∈ records, ¬ gone (key b) → resource b ≠ r
    · refine Or.inl ⟨⟨a, ha, ?_, hr⟩, hfirst⟩
      by_contra hstays
      exact hfirst a ha hstays hr
    · -- the second removal takes the last record that has the resource
      push Not at hfirst
      obtain ⟨b, hb, hstays, hbr⟩ := hfirst
      have hsecond : gone' (key b) := by
        by_contra hno
        exact hothers b hb (not_or.2 ⟨hstays, hno⟩) hbr
      refine Or.inr ⟨⟨b, hleft.2 ⟨hb, hstays⟩, hsecond, hbr⟩, fun c hc hno => ?_⟩
      exact hothers c (hleft.1 hc).1 (not_or.2 ⟨(hleft.1 hc).2, hno⟩)
  · rintro (⟨⟨a, ha, hgone, hr⟩, hothers⟩ | ⟨⟨a, ha, hgone, hr⟩, hothers⟩)
    · exact ⟨⟨a, ha, Or.inl hgone, hr⟩, fun b hb hno => hothers b hb (not_or.1 hno).1⟩
    · refine ⟨⟨a, (hleft.1 ha).1, Or.inr hgone, hr⟩, fun b hb hno => ?_⟩
      exact hothers b (hleft.2 ⟨hb, (not_or.1 hno).1⟩) (not_or.1 hno).2

end Shared
