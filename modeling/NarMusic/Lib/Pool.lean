/-
  A pool of threads, and tasks that each write to a slot of their own.

  The schedule says which waiting task a thread takes and which running task comes to its
  end; at most `threads` tasks are running.  When no task is left, every slot has what its task
  writes, whatever the schedule was (`done_slots`), and there is such a schedule (`inOrder_done`).
-/
import NarMusic.Lib.Run

namespace Pool

universe u
variable {β : Type u}

structure State (β : Type u) where
  waiting : List ℕ
  running : List ℕ := []
  slots : List β

inductive Event where
  | start (i : ℕ)
  | finish (i : ℕ)

/-- All tasks have been submitted. -/
def submitted (n : ℕ) (blank : β) : State β := { waiting := .range n, slots := .replicate n blank }

/-- An event that cannot happen leaves the pool as it is. -/
def step (threads : ℕ) (write : ℕ → β) (s : State β) : Event → State β
  | .start i =>
    if i ∈ s.waiting ∧ s.running.length < threads then
      { s with waiting := s.waiting.erase i, running := i :: s.running }
    else s
  | .finish i =>
    if i ∈ s.running then { s with running := s.running.erase i, slots := s.slots.set i (write i) } else s

/-- No task is left. -/
def Done (s : State β) : Prop := s.waiting = [] ∧ s.running = []

/-- A task waits, is running, or has written. -/
structure Inv (n : ℕ) (write : ℕ → β) (s : State β) : Prop where
  length : s.slots.length = n
  tasks : ∀ i < n, i ∈ s.waiting ∨ i ∈ s.running ∨ s.slots[i]? = some (write i)

variable {threads n : ℕ} {write : ℕ → β} {s : State β}

theorem inv_submitted (blank : β) : Inv n write (submitted n blank) :=
  ⟨List.length_replicate, fun _ hi => Or.inl (List.mem_range.2 hi)⟩

theorem inv_step (h : Inv n write s) (e : Event) : Inv n write (step threads write s e) := by
  cases e with
  | start i =>
    unfold step
    dsimp only
    split_ifs with hi
    · refine ⟨h.length, fun j hj => ?_⟩
      by_cases hji : j = i
      · exact Or.inr (Or.inl (hji ▸ List.mem_cons_self))
      · rcases h.tasks j hj with hw | hr | hs
        · exact Or.inl ((List.mem_erase_of_ne hji).2 hw)
        · exact Or.inr (Or.inl (List.mem_cons_of_mem _ hr))
        · exact Or.inr (Or.inr hs)
    · exact h
  | finish i =>
    unfold step
    dsimp only
    split_ifs with hi
    · refine ⟨List.length_set.trans h.length, fun j hj => ?_⟩
      by_cases hji : j = i
      · subst hji
        have hlt : j < s.slots.length := h.length.symm ▸ hj
        exact Or.inr (Or.inr (List.getElem?_set_self hlt))
      · rcases h.tasks j hj with hw | hr | hs
        · exact Or.inl hw
        · exact Or.inr (Or.inl ((List.mem_erase_of_ne hji).2 hr))
        · exact Or.inr (Or.inr ((List.getElem?_set_ne (Ne.symm hji)).trans hs))
    · exact h

/-- **Slots by position**: under every schedule that leaves no task. -/
theorem done_slots (threads : ℕ) (write : ℕ → β) (blank : β) {schedule : List Event}
    (h : Done (Run.exec (step threads write) (submitted n blank) schedule)) :
    (Run.exec (step threads write) (submitted n blank) schedule).slots = (List.range n).map write := by
  have hstep : ∀ s e, Inv n write s → Inv n write (step threads write s e) := fun _ e hs => inv_step hs e
  have hinv := Run.exec_inv hstep (inv_submitted blank) schedule
  refine List.ext_getElem? fun i => ?_
  by_cases hi : i < n
  · rcases hinv.tasks i hi with hw | hr | hs
    · exact absurd (h.1 ▸ hw) List.not_mem_nil
    · exact absurd (h.2 ▸ hr) List.not_mem_nil
    · simpa [hi] using hs
  · have hlen := hinv.length
    rw [List.getElem?_eq_none (by omega), List.getElem?_eq_none (by simp; omega)]

/-- One task after the other. -/
def inOrder (tasks : List ℕ) : List Event := tasks.flatMap fun i => [.start i, .finish i]

theorem inOrder_done (hthreads : 0 < threads) (write : ℕ → β) (tasks : List ℕ) (slots : List β) :
    Done (Run.exec (step threads write) { waiting := tasks, slots } (inOrder tasks)) := by
  induction tasks generalizing slots with
  | nil => exact ⟨rfl, rfl⟩
  | cons i tasks ih =>
    have hround : Run.exec (step threads write) { waiting := i :: tasks, slots } [.start i, .finish i] =
        { waiting := tasks, slots := slots.set i (write i) } := by
      simp [step, hthreads]
    have hrest := ih (slots.set i (write i))
    rw [← hround] at hrest
    have hsplit : inOrder (i :: tasks) = [.start i, .finish i] ++ inOrder tasks := rfl
    rw [hsplit, Run.exec, List.foldl_append]
    exact hrest

end Pool
