/-
  Runs of a machine.  A machine is a step function on states and labels, whose
  labels carry every choice of the environment; a run is a list of labels.

  * `exec` is the state after a run, `Each P` says that `P` holds of every step
    of a run (of the state before it and its label);
  * `Each.inv` is induction over a run whose steps all meet a condition, and
    `Each.imp` and `each_iff` compare two conditions under an invariant;
  * `split_append` splits a trace that has grown.
-/
import Mathlib.Tactic.Common

namespace Run

universe u v
variable {σ : Type u} {α : Type v}

/-- The state after a run. -/
def exec (step : σ → α → σ) (s : σ) (run : List α) : σ := run.foldl step s

/-- `P` holds of every step of the run. -/
def Each (step : σ → α → σ) (P : σ → α → Prop) : σ → List α → Prop
  | _, [] => True
  | s, a :: run => P s a ∧ Each step P (step s a) run

instance Each.decidable (step : σ → α → σ) (P : σ → α → Prop) [∀ s a, Decidable (P s a)] :
    ∀ (s : σ) (run : List α), Decidable (Each step P s run)
  | _, [] => .isTrue trivial
  | s, a :: run => @instDecidableAnd _ _ _ (Each.decidable step P (step s a) run)

section
variable {step : σ → α → σ} {P Q : σ → α → Prop} {I : σ → Prop}

@[simp] theorem exec_nil (s : σ) : exec step s [] = s := rfl

@[simp] theorem exec_cons (s : σ) (a : α) (run : List α) :
    exec step s (a :: run) = exec step (step s a) run := rfl

/-- **Induction over a run** whose steps all meet `P`. -/
theorem Each.inv (hstep : ∀ s a, I s → P s a → I (step s a)) {s : σ} {run : List α}
    (h : Each step P s run) (hs : I s) : I (exec step s run) := by
  induction run generalizing s with
  | nil => exact hs
  | cons a run ih => exact ih h.2 (hstep s a hs h.1)

/-- An invariant of every step is one of every run. -/
theorem exec_inv (hstep : ∀ s a, I s → I (step s a)) {s : σ} (hs : I s) (run : List α) :
    I (exec step s run) := by
  induction run generalizing s with
  | nil => exact hs
  | cons a run ih => exact ih (hstep s a hs)

/-- Under an invariant that `P` maintains, a run of `P`-steps is one of `Q`-steps. -/
theorem Each.imp (hstep : ∀ s a, I s → P s a → Q s a ∧ I (step s a)) {s : σ} {run : List α}
    (h : Each step P s run) (hs : I s) : Each step Q s run := by
  induction run generalizing s with
  | nil => trivial
  | cons a run ih =>
    obtain ⟨hq, hi⟩ := hstep s a hs h.1
    exact ⟨hq, ih h.2 hi⟩

/-- Conditions that agree on the steps from states of an invariant agree on runs. -/
theorem each_iff (hstep : ∀ s a, I s → I (step s a)) (hPQ : ∀ s a, I s → (P s a ↔ Q s a))
    {s : σ} (hs : I s) (run : List α) : Each step P s run ↔ Each step Q s run :=
  ⟨fun h => h.imp (fun s a hi hp => ⟨(hPQ s a hi).1 hp, hstep s a hi⟩) hs,
    fun h => h.imp (fun s a hi hq => ⟨(hPQ s a hi).2 hq, hstep s a hi⟩) hs⟩

/-- Where a step that breaks `P` makes `R`, and every step keeps `R`, a run with such a step ends
    in `R`. -/
theorem Each.exec_of_not {R : σ → Prop} (hstep : ∀ s a, I s → I (step s a))
    (hbreak : ∀ s a, I s → Q s a → ¬ P s a → R (step s a))
    (hkeep : ∀ s a, I s → Q s a → R s → R (step s a)) {s : σ} {run : List α}
    (hrun : Each step Q s run) (hs : I s) (hnot : ¬ Each step P s run) : R (exec step s run) := by
  induction run generalizing s with
  | nil => exact absurd trivial hnot
  | cons a run ih =>
    have hs' := hstep s a hs
    by_cases hp : P s a
    · exact ih hrun.2 hs' fun h => hnot ⟨hp, h⟩
    · have hboth := hrun.2.inv (I := fun s => I s ∧ R s)
        (fun s a hir hq => ⟨hstep s a hir.1, hkeep s a hir.1 hq hir.2⟩) ⟨hs', hbreak s a hs hrun.1 hp⟩
      exact hboth.2

theorem Each.of_forall (h : ∀ s a, P s a) (s : σ) (run : List α) : Each step P s run := by
  induction run generalizing s with
  | nil => trivial
  | cons a run ih => exact ⟨h s a, ih _⟩

end

/-- What stands in a trace, and not in what was appended to it, stood there before. -/
theorem split_append {ε : Type u} {trace es pre post : List ε} {e : ε} (he : e ∉ es)
    (hsplit : trace ++ es = pre ++ e :: post) :
    ∃ mid, trace = pre ++ e :: mid ∧ post = mid ++ es := by
  rcases List.append_eq_append_iff.1 hsplit with ⟨mid, -, hes⟩ | ⟨mid, htrace, hpost⟩
  · exact absurd (by simp [hes]) he
  · cases mid with
    | nil =>
      rw [List.nil_append] at hpost
      exact absurd (by simp [← hpost]) he
    | cons d mid =>
      obtain ⟨rfl, rfl⟩ := List.cons.inj hpost
      exact ⟨mid, htrace, rfl⟩

end Run
