/-
  Computations that change a state and may throw.

  What was changed before the throw stays changed, so that what holds at the end has to hold after
  every change, whatever the outcome: `Leads I J m`.  The rules follow the constructions of a
  program; a `try` leads where its block leads (`Leads.recover`).
-/
import Mathlib.Tactic.Common

/-- A computation with a state of type `σ`, which returns an `α` or throws an `ε`. -/
abbrev Attempt (ε σ α : Type) := ExceptT ε (StateM σ) α

namespace Attempt

variable {ε σ α β : Type}

/-- The outcome, and the state it leaves. -/
def exec (m : Attempt ε σ α) (s : σ) : Except ε α × σ := (ExceptT.run m).run s

/-- A call that does not look at the state. -/
def lift (x : Except ε α) : Attempt ε σ α := ExceptT.mk (pure x)

/-- A change of the state. -/
def update (f : σ → σ) : Attempt ε σ Unit := ExceptT.mk fun s => (.ok (), f s)

/-- The state. -/
def state : Attempt ε σ σ := ExceptT.mk fun s => (.ok s, s)

/-- `try { m } catch (...) { return a; }` -/
def recover (m : Attempt ε σ α) (a : α) : Attempt ε σ α :=
  ExceptT.mk fun s => (.ok ((m.exec s).1.toOption.getD a), (m.exec s).2)

theorem exec_bind_ok {m : Attempt ε σ α} {f : α → Attempt ε σ β} {s s' : σ} {a : α} (h : m.exec s = (.ok a, s')) :
    exec (m >>= f) s = (f a).exec s' := by
  unfold exec at h ⊢
  rw [ExceptT.run_bind, StateT.run_bind, h]
  rfl

theorem exec_bind_error {m : Attempt ε σ α} {f : α → Attempt ε σ β} {s s' : σ} {e : ε} (h : m.exec s = (.error e, s')) :
    exec (m >>= f) s = (.error e, s') := by
  unfold exec at h ⊢
  rw [ExceptT.run_bind, StateT.run_bind, h]
  rfl

/-- From a state that meets `I`, the state that is left meets `J`, whether the computation returns or
    throws. -/
def Leads (I J : σ → Prop) (m : Attempt ε σ α) : Prop := ∀ s, I s → J (m.exec s).2

/-- The invariant is kept. -/
abbrev Keeps (I : σ → Prop) (m : Attempt ε σ α) : Prop := Leads I I m

variable {I J K : σ → Prop}

theorem Leads.mono {I' J' : σ → Prop} {m : Attempt ε σ α} (h : Leads I J m) (hI : ∀ s, I' s → I s)
    (hJ : ∀ s, J s → J' s) : Leads I' J' m := fun s hs => hJ _ (h s (hI s hs))

theorem Keeps.pure (a : α) : Keeps I (Pure.pure a : Attempt ε σ α) := fun _ hs => hs

theorem Keeps.lift (x : Except ε α) : Keeps I (lift x : Attempt ε σ α) := fun _ hs => hs

theorem Keeps.state : Keeps I (state : Attempt ε σ σ) := fun _ hs => hs

theorem Leads.update {f : σ → σ} (h : ∀ s, I s → J (f s)) : Leads I J (update f : Attempt ε σ Unit) := h

/-- In a sequence, what holds behind the first part is enough for the end too. -/
theorem Leads.bind {m : Attempt ε σ α} {f : α → Attempt ε σ β} (hm : Leads I K m) (hf : ∀ a, Leads K J (f a))
    (hKJ : ∀ s, K s → J s) : Leads I J (m >>= f) := by
  intro s hs
  have hnext := hm s hs
  cases h : m.exec s with
  | mk r s' =>
    rw [h] at hnext
    cases r with
    | ok a =>
      rw [exec_bind_ok h]
      exact hf a s' hnext
    | error e =>
      rw [exec_bind_error h]
      exact hKJ s' hnext

theorem Keeps.bind {m : Attempt ε σ α} {f : α → Attempt ε σ β} (hm : Keeps I m) (hf : ∀ a, Keeps I (f a)) :
    Keeps I (m >>= f) := Leads.bind hm hf fun _ hs => hs

theorem Leads.recover {m : Attempt ε σ α} (hm : Leads I J m) (a : α) : Leads I J (recover m a) := hm

theorem Leads.ite {p : Prop} [Decidable p] {m m' : Attempt ε σ α} (hm : Leads I J m) (hm' : Leads I J m') :
    Leads I J (if p then m else m') := by
  split_ifs
  · exact hm
  · exact hm'

end Attempt
