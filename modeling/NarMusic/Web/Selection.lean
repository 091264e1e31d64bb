/-
  The selection of a batch (`web/app/modules/batch.js`): positions of a list that is spliced.

  What the selection is for is a mark beside each song (`State.marks`): a song that goes takes
  its mark with it, and the others keep theirs.  The handlers keep positions instead
  (`Web.Batch`), and `marks_act` says that these are the marks.
-/
import NarMusic.Lib.Marks
import NarMusic.Web.Batch

namespace NarMusic.Web

namespace JsSet

variable {α : Type} [DecidableEq α]

theorem mem_add {s : JsSet α} {a b : α} : b ∈ (s.add a).elems ↔ b ∈ s.elems ∨ b = a := by
  unfold add
  split_ifs with h
  · exact ⟨Or.inl, fun hb => hb.elim id fun hb => hb ▸ h⟩
  · simp

theorem mem_delete {s : JsSet α} {a b : α} : b ∈ (s.delete a).elems ↔ b ∈ s.elems ∧ b ≠ a := by
  simp [delete]

theorem mem_foldl_add {l : List α} {s : JsSet α} {b : α} :
    b ∈ (l.foldl add s).elems ↔ b ∈ s.elems ∨ b ∈ l := by
  induction l generalizing s with
  | nil => simp
  | cons a l ih => rw [List.foldl_cons, ih, mem_add, List.mem_cons, or_assoc]

theorem mem_ofList {l : List α} {b : α} : b ∈ (ofList l).elems ↔ b ∈ l :=
  mem_foldl_add.trans (by simp [empty])

end JsSet

namespace Batch

/-! ## What the user does -/

/-- A click, and the answer to the question that `batchDeleteSelected` asks. -/
inductive Action where
  /-- `toggleBatchItemSelect` -/
  | select (idx : ℕ) (checked : Bool)
  /-- `toggleBatchSelectAll` -/
  | selectAll (checked : Bool)
  /-- `deleteBatchItem` -/
  | deleteItem (idx : ℕ)
  /-- `batchDeleteSelected` -/
  | deleteSelected (confirmed : Bool)

namespace State

def act (s : State) : Action → State
  | .select idx checked => s.step (.select idx checked)
  | .selectAll checked => s.step (.selectAll checked)
  | .deleteItem idx => s.step (.deleteItem idx)
  | .deleteSelected confirmed => if confirmed then s.step .deleteSelected else s

/-- The songs, each with whether it is selected. -/
def marks (s : State) : List (Item × Bool) := Marks.mark s.batchSelectedIndexes.elems.contains s.batchResults

/-- The selected positions lie within the list. -/
def Within (s : State) : Prop := ∀ i ∈ s.batchSelectedIndexes.elems, i < s.batchResults.length

end State

namespace Action

/-- A position of the list. -/
def Valid (s : State) : Action → Prop
  | select idx _ | deleteItem idx => idx < s.batchResults.length
  | _ => True

/-- What an action is for. -/
def onMarks : Action → List (Item × Bool) → List (Item × Bool)
  | select idx checked, marks => marks.modify idx fun m => (m.1, checked)
  | selectAll checked, marks => marks.map fun m => (m.1, checked && (m.2 || m.1.found))
  | deleteItem idx, marks => marks.eraseIdx idx
  | deleteSelected confirmed, marks => if confirmed then marks.filter (!·.2) else marks

end Action

/-! ## One action -/

theorem within_act {s : State} (hs : s.Within) {a : Action} (ha : a.Valid s) : (s.act a).Within := by
  intro i hi
  cases a with
  | select idx checked =>
    cases checked with
    | true => exact (JsSet.mem_add.1 hi).elim (hs i) fun hi => hi ▸ ha
    | false => exact hs i (JsSet.mem_delete.1 hi).1
  | selectAll checked =>
    cases checked with
    | true =>
      rcases JsSet.mem_foldl_add.1 hi with hi | hi
      · exact hs i hi
      · exact List.mem_range.1 (List.mem_filter.1 hi).1
    | false => cases hi
  | deleteItem idx =>
    have hidx : idx < s.batchResults.length := ha
    obtain ⟨j, hj, hji⟩ := List.mem_filterMap.1 (JsSet.mem_ofList.1 hi)
    have hjlt := hs j hj
    have hlen : (s.act (.deleteItem idx)).batchResults.length = s.batchResults.length - 1 :=
      List.length_eraseIdx_of_lt hidx
    rw [hlen]
    split_ifs at hji <;> cases hji <;> omega
  | deleteSelected confirmed =>
    cases confirmed with
    | true => cases hi
    | false => exact hs i hi

theorem splices_results (down : List ℕ) (s : State) :
    (down.foldl State.splice s).batchResults = down.foldl List.eraseIdx s.batchResults := by
  induction down generalizing s with
  | nil => rfl
  | cons d down ih => exact ih _

/-- The positions are spliced from the last one to the first one. -/
theorem selectedDown_pairwise (s : State) : s.selectedDown.Pairwise (· > ·) := by
  have hsorted : s.selectedDown.Pairwise (· ≥ ·) := List.pairwise_insertionSort _ _
  have hnodup : s.selectedDown.Nodup :=
    (List.perm_insertionSort _ _).nodup_iff.2 s.batchSelectedIndexes.nodup
  exact (hsorted.and hnodup).imp fun h => lt_of_le_of_ne h.1 (Ne.symm h.2)

theorem marks_deleteSelected (s : State) : s.deleteSelected.marks = s.marks.filter (!·.2) := by
  have hmarks : s.deleteSelected.marks =
      Marks.mark (fun _ => false) (s.selectedDown.foldl List.eraseIdx s.batchResults) := by
    unfold State.marks State.deleteSelected
    rw [splices_results]
    exact Marks.mark_congr fun i _ => rfl
  rw [hmarks, Marks.foldl_eraseIdx (selectedDown_pairwise s)]
  congr 1
  refine Marks.mark_congr fun i _ => ?_
  have hperm : i ∈ s.selectedDown ↔ i ∈ s.batchSelectedIndexes.elems :=
    (List.perm_insertionSort _ _).mem_iff
  rw [Bool.eq_iff_iff, List.contains_iff_mem, List.contains_iff_mem]
  exact hperm

theorem marks_deleteItem (s : State) (idx : ℕ) : (s.deleteItem idx).marks = s.marks.eraseIdx idx := by
  unfold State.marks
  rw [Marks.eraseIdx_mark]
  refine Marks.mark_congr fun i _ => ?_
  rw [Bool.eq_iff_iff, List.contains_iff_mem]
  constructor
  · intro hi
    obtain ⟨j, hj, hji⟩ := List.mem_filterMap.1 (JsSet.mem_ofList.1 hi)
    split_ifs at hji with h₁ h₂ <;> cases hji
    · rwa [if_pos h₁, List.contains_iff_mem]
    · have hsucc : j - 1 + 1 = j := by omega
      rwa [if_neg (by omega), List.contains_iff_mem, hsucc]
  · intro hi
    refine JsSet.mem_ofList.2 (List.mem_filterMap.2 ?_)
    split_ifs at hi with hlt
    · exact ⟨i, List.contains_iff_mem.1 hi, if_pos hlt⟩
    · refine ⟨i + 1, List.contains_iff_mem.1 hi, ?_⟩
      rw [if_neg (by omega), if_pos (by omega), Nat.add_sub_cancel]

theorem marks_select (s : State) (idx : ℕ) (checked : Bool) :
    (s.act (.select idx checked)).marks = s.marks.modify idx fun m => (m.1, checked) := by
  refine List.ext_getElem? fun i => ?_
  have hcontains : (s.act (.select idx checked)).batchSelectedIndexes.elems.contains i =
      if idx = i then checked else s.batchSelectedIndexes.elems.contains i := by
    rw [Bool.eq_iff_iff, List.contains_iff_mem]
    cases checked with
    | true =>
      refine JsSet.mem_add.trans ?_
      split_ifs with h <;> simp [eq_comm, h]
    | false =>
      refine JsSet.mem_delete.trans ?_
      split_ifs with h <;> simp [eq_comm, h]
  have hresults : (s.act (.select idx checked)).batchResults = s.batchResults := rfl
  unfold State.marks
  rw [Marks.getElem?_mark, List.getElem?_modify, Marks.getElem?_mark, hcontains, hresults]
  cases s.batchResults[i]? with
  | none => simp
  | some item => by_cases h : idx = i <;> simp [h]

theorem marks_selectAll (s : State) (checked : Bool) :
    (s.act (.selectAll checked)).marks = s.marks.map fun m => (m.1, checked && (m.2 || m.1.found)) := by
  refine List.ext_getElem? fun i => ?_
  have hresults : (s.act (.selectAll checked)).batchResults = s.batchResults := rfl
  unfold State.marks
  rw [Marks.getElem?_mark, List.getElem?_map, Marks.getElem?_mark, hresults]
  cases hitem : s.batchResults[i]? with
  | none => rfl
  | some item =>
    have hcontains : (s.act (.selectAll checked)).batchSelectedIndexes.elems.contains i =
        (checked && (s.batchSelectedIndexes.elems.contains i || item.found)) := by
      obtain ⟨hlt, rfl⟩ := List.getElem?_eq_some_iff.1 hitem
      rw [Bool.eq_iff_iff, List.contains_iff_mem]
      cases checked with
      | true =>
        refine JsSet.mem_foldl_add.trans ?_
        simp [List.mem_filter, hlt]
      | false => simp [State.act, State.step, State.handle, JsSet.empty]
    simp only [Option.map_some, hcontains]

/-- **One action** does to the marks what it is for. -/
theorem marks_act (s : State) (a : Action) : (s.act a).marks = a.onMarks s.marks := by
  cases a with
  | select idx checked => exact marks_select s idx checked
  | selectAll checked => exact marks_selectAll s checked
  | deleteItem idx => exact marks_deleteItem s idx
  | deleteSelected confirmed =>
    cases confirmed with
    | true => exact marks_deleteSelected s
    | false => rfl

/-- Within the list, the selection can be read off the marks. -/
theorem selected_iff {s : State} (hs : s.Within) (i : ℕ) :
    i ∈ s.batchSelectedIndexes.elems ↔ ∃ item, s.marks[i]? = some (item, true) := by
  unfold State.marks
  rw [Marks.getElem?_mark]
  constructor
  · intro hi
    exact ⟨s.batchResults.get ⟨i, hs i hi⟩, by simp [hs i hi, hi]⟩
  · rintro ⟨item, hitem⟩
    obtain ⟨_, -, h⟩ := Option.map_eq_some_iff.1 hitem
    exact List.contains_iff_mem.1 (Prod.mk.inj h).2

/-! ## Runs -/

/-- The positions are those of the marked songs, before and after an action that does to the
    marks what it is for. -/
def Follows (s : State) (a : Action) : Prop :=
  s.Within ∧ (s.act a).Within ∧ (s.act a).marks = a.onMarks s.marks ∧
    ∀ i, i ∈ (s.act a).batchSelectedIndexes.elems ↔ ∃ item, (s.act a).marks[i]? = some (item, true)

/-- **The selection follows the songs** in every run on positions of the list: its positions stay
    within the list, a deletion takes exactly its song and that song's mark, and a confirmed
    deletion of the selection takes exactly the marked songs, in a list that keeps its order. -/
theorem selection_follows {s : State} (hs : s.Within) {run : List Action}
    (hrun : Run.Each State.act Action.Valid s run) :
    Run.Each State.act Follows s run ∧ (Run.exec State.act s run).Within ∧
      (Run.exec State.act s run).marks = run.foldl (fun marks a => a.onMarks marks) s.marks := by
  refine ⟨?_, ?_, ?_⟩
  · refine hrun.imp (fun s a hs ha => ?_) hs
    have hs' := within_act hs ha
    exact ⟨⟨hs, hs', marks_act s a, selected_iff hs'⟩, hs'⟩
  · exact hrun.inv (fun s a hs ha => within_act hs ha) hs
  · clear hs hrun
    induction run generalizing s with
    | nil => rfl
    | cons a run ih => rw [Run.exec_cons, ih, marks_act, List.foldl_cons]

/-- Both songs are selected, the first one is deleted, and then the selection. -/
theorem selection_follows_twoSongs :
    (Run.exec State.act (.parsed twoSongs) [.selectAll true, .deleteItem 0, .deleteSelected true]).marks =
      [] := by
  have hwithin : (State.parsed twoSongs).Within := fun i hi => absurd hi List.not_mem_nil
  have hvalid : Run.Each State.act Action.Valid (.parsed twoSongs)
      [.selectAll true, .deleteItem 0, .deleteSelected true] :=
    ⟨trivial, Nat.zero_lt_two, trivial, trivial⟩
  exact (selection_follows hwithin hvalid).2.2.trans (by decide)

/-- A deletion of the selection that is not confirmed takes nothing. -/
theorem declined_keeps : ¬ ∀ (s : State) (confirmed : Bool), s.Within →
    (s.act (.deleteSelected confirmed)).marks = s.marks.filter (!·.2) := by
  intro h
  have hwithin : ((State.parsed twoSongs).act (.select 0 true)).Within := by
    refine within_act (fun i hi => absurd hi List.not_mem_nil) ?_
    exact Nat.zero_lt_two
  have hlength := congrArg List.length (h _ false hwithin)
  revert hlength
  decide

end Batch

end NarMusic.Web
