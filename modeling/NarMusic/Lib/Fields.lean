/-
  Assignments to the fields of a record, one after the other, each of which may fail.

  A failed assignment may have changed its field, and ends the run.  When the fields are
  independent of each other, every assignment finds in its field what was there at the beginning,
  so the run is determined by what each assignment does then (`applyAll_setAll`), and it leaves
  the record as it was exactly when each of those attempted does (`applyAll_keeps_iff`).
-/
import Mathlib.Tactic.Common
import Mathlib.Data.List.Pairwise

namespace Fields

universe u
variable {σ : Type u} {ε : Type}

/-- A field of a record. -/
structure Field (σ : Type u) where
  Value : Type
  get : σ → Value
  set : σ → Value → σ
  get_set : ∀ s a, get (set s a) = a
  set_get : ∀ s, set s (get s) = s

/-- A field of a field. -/
def Field.comp (f : Field σ) (g : Field f.Value) : Field σ where
  Value := g.Value
  get s := g.get (f.get s)
  set s a := f.set s (g.set (f.get s) a)
  get_set s a := by rw [f.get_set, g.get_set]
  set_get s := by rw [g.set_get, f.set_get]

/-- Setting one field leaves the other. -/
def Independent (f g : Field σ) : Prop :=
  (∀ s a, g.get (f.set s a) = g.get s) ∧ ∀ s a, f.get (g.set s a) = f.get s

/-- Fields of independent fields are independent. -/
theorem Independent.comp {f f' : Field σ} (h : Independent f f') (g : Field f.Value) (g' : Field f'.Value) :
    Independent (f.comp g) (f'.comp g') :=
  ⟨fun s _ => congrArg g'.get (h.1 s _), fun s _ => congrArg g.get (h.2 s _)⟩

/-- Independent fields of one field are independent. -/
theorem Independent.comp_same (f : Field σ) {g g' : Field f.Value} (h : Independent g g') :
    Independent (f.comp g) (f.comp g') := by
  constructor
  · intro s a
    exact (congrArg g'.get (f.get_set s _)).trans (h.1 _ a)
  · intro s a
    exact (congrArg g.get (f.get_set s _)).trans (h.2 _ a)

/-- An assignment, by what it does to its field. -/
structure Assignment (σ : Type u) (ε : Type) where
  field : Field σ
  run : field.Value → Except ε Unit × field.Value

namespace Assignment

/-- Whether the assignment succeeds on a record. -/
def outcome (w : Assignment σ ε) (s : σ) : Except ε Unit := (w.run (w.field.get s)).1

/-- What the assignment makes of its field. -/
def value (w : Assignment σ ε) (s : σ) : w.field.Value := (w.run (w.field.get s)).2

def Fails (w : Assignment σ ε) (s : σ) : Prop := ∃ e, w.outcome s = .error e

/-- The field has what the assignment would make of it. -/
def Keeps (w : Assignment σ ε) (s : σ) : Prop := w.value s = w.field.get s

end Assignment

/-- The assignments up to the first one that fails. -/
def applyAll : List (Assignment σ ε) → σ → Except ε Unit × σ
  | [], s => (.ok (), s)
  | w :: ws, s =>
    match w.outcome s with
    | .ok _ => applyAll ws (w.field.set s (w.value s))
    | .error e => (.error e, w.field.set s (w.value s))

/-- Those that are attempted, by what each of them does to `s`. -/
def attempted (s : σ) : List (Assignment σ ε) → List (Assignment σ ε)
  | [] => []
  | w :: ws =>
    match w.outcome s with
    | .ok _ => w :: attempted s ws
    | .error _ => [w]

/-- The fields of `s'` are set to what the assignments make of those of `s`. -/
def setAll (s : σ) (ws : List (Assignment σ ε)) (s' : σ) : σ :=
  ws.foldl (fun s' w => w.field.set s' (w.value s)) s'

variable {ws : List (Assignment σ ε)} {w : Assignment σ ε} {s s' : σ}

theorem attempted_sublist : (attempted s ws).Sublist ws := by
  induction ws with
  | nil => exact List.Sublist.refl _
  | cons w ws ih =>
    unfold attempted
    split
    · exact ih.cons_cons w
    · exact (List.nil_sublist ws).cons_cons w

theorem attempted_eq (h : ∀ w ∈ ws, ¬ w.Fails s) : attempted s ws = ws := by
  induction ws with
  | nil => rfl
  | cons w ws ih =>
    obtain ⟨hw, hws⟩ := List.forall_mem_cons.1 h
    unfold attempted
    split
    · rw [ih hws]
    · next e he => exact absurd ⟨e, he⟩ hw

theorem get_setAll {f : Field σ} (h : ∀ w ∈ ws, Independent w.field f) : f.get (setAll s ws s') = f.get s' := by
  induction ws generalizing s' with
  | nil => rfl
  | cons w ws ih =>
    obtain ⟨hw, hws⟩ := List.forall_mem_cons.1 h
    exact (ih hws).trans (hw.1 s' _)

section
variable (hws : ws.Pairwise fun w w' => Independent w.field w'.field)
include hws

/-- Each assignment finds what was there at the beginning. -/
theorem applyAll_setAll (hget : ∀ w ∈ ws, w.field.get s' = w.field.get s) :
    (applyAll ws s').2 = setAll s (attempted s ws) s' ∧
      ((∃ e, (applyAll ws s').1 = .error e) ↔ ∃ w ∈ ws, w.Fails s) := by
  induction ws generalizing s' with
  | nil => exact ⟨rfl, by simp [applyAll]⟩
  | cons w ws ih =>
    obtain ⟨hw, hws⟩ := List.pairwise_cons.1 hws
    have houtcome : w.outcome s' = w.outcome s := by
      rw [Assignment.outcome, Assignment.outcome, hget w List.mem_cons_self]
    have hvalue : w.value s' = w.value s := by
      rw [Assignment.value, Assignment.value, hget w List.mem_cons_self]
    unfold applyAll attempted
    rw [houtcome, hvalue]
    cases h : w.outcome s with
    | ok _ =>
      have hrest : ∀ w' ∈ ws, w'.field.get (w.field.set s' (w.value s)) = w'.field.get s := fun w' hw' =>
        ((hw w' hw').1 s' _).trans (hget w' (List.mem_cons_of_mem _ hw'))
      obtain ⟨hset, hfails⟩ := ih hws hrest
      refine ⟨hset, hfails.trans ?_⟩
      simp [Assignment.Fails, h]
    | error e => exact ⟨rfl, iff_of_true ⟨e, rfl⟩ ⟨w, List.mem_cons_self, e, h⟩⟩

omit hws in
theorem setAll_keeps (h : ∀ w ∈ ws, w.Keeps s) : setAll s ws s = s := by
  induction ws with
  | nil => rfl
  | cons w ws ih =>
    obtain ⟨hw, hws⟩ := List.forall_mem_cons.1 h
    have hset : w.field.set s (w.value s) = s := by
      rw [hw, w.field.set_get]
    rw [setAll, List.foldl_cons, hset]
    exact ih hws

/-- What an independent assignment changes, stays changed. -/
theorem keeps_of_setAll (h : setAll s ws s = s) : ∀ w ∈ ws, w.Keeps s := by
  intro w hw
  obtain ⟨front, back, rfl⟩ := List.append_of_mem hw
  have hback := (List.pairwise_append.1 hws).2.1
  have hafter : ∀ w' ∈ back, Independent w'.field w.field := fun w' hw' =>
    ((List.pairwise_cons.1 hback).1 w' hw').symm
  have hget := congrArg w.field.get h
  rw [setAll, List.foldl_append, List.foldl_cons] at hget
  exact ((get_setAll hafter).trans (w.field.get_set _ _)).symm.trans hget

/-- **A run without a failure** makes all assignments. -/
theorem applyAll_ok (h : (applyAll ws s).1 = .ok ()) : (applyAll ws s).2 = setAll s ws s := by
  obtain ⟨hset, hfails⟩ := applyAll_setAll hws (s := s) fun _ _ => rfl
  have hnone : ∀ w ∈ ws, ¬ w.Fails s := by
    intro w hw hfail
    obtain ⟨e, he⟩ := hfails.2 ⟨w, hw, hfail⟩
    cases h.symm.trans he
  rw [hset, attempted_eq hnone]

/-- **A run leaves the record** exactly when each of the attempted assignments does. -/
theorem applyAll_keeps_iff : (applyAll ws s).2 = s ↔ ∀ w ∈ attempted s ws, w.Keeps s := by
  rw [(applyAll_setAll hws (s := s) fun _ _ => rfl).1]
  exact ⟨keeps_of_setAll (hws.sublist attempted_sublist), setAll_keeps⟩

end

end Fields
