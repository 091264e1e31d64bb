/-
  The lines of a text: those that end with the separator, and the rest behind
  the last one.
-/
import NarMusic.Lib.Bytes

namespace Cxx

/-- Lines with the separator behind each, and a rest. -/
def unlines (sep : Byte) (ls : List Str) (rest : Str) : Str := ls.flatMap (· ++ [sep]) ++ rest

/-- The lines that end with the separator, and the rest. -/
def splitLines (sep : Byte) : Str → List Str × Str
  | [] => ([], [])
  | c :: s =>
    if c = sep then ([] :: (splitLines sep s).1, (splitLines sep s).2)
    else match splitLines sep s with
      | ([], rest) => ([], c :: rest)
      | (l :: ls, rest) => ((c :: l) :: ls, rest)

@[simp] theorem unlines_nil (sep : Byte) (rest : Str) : unlines sep [] rest = rest := rfl

@[simp] theorem unlines_cons (sep : Byte) (l : Str) (ls : List Str) (rest : Str) :
    unlines sep (l :: ls) rest = l ++ sep :: unlines sep ls rest := by
  simp [unlines]

/-- The lines and the rest are the text. -/
theorem unlines_splitLines (sep : Byte) (s : Str) :
    unlines sep (splitLines sep s).1 (splitLines sep s).2 = s := by
  induction s with
  | nil => rfl
  | cons c s ih =>
    rw [splitLines]
    split_ifs with hc
    · rw [unlines_cons, ih, hc]
      rfl
    · generalize splitLines sep s = p at ih ⊢
      obtain ⟨_ | ⟨l, ls⟩, rest⟩ := p
      · exact congrArg (c :: ·) ih
      · exact congrArg (c :: ·) ih

/-- No line has a separator in it. -/
theorem splitLines_free (sep : Byte) (s : Str) :
    (∀ l ∈ (splitLines sep s).1, sep ∉ l) ∧ sep ∉ (splitLines sep s).2 := by
  induction s with
  | nil => exact ⟨fun l hl => absurd hl List.not_mem_nil, List.not_mem_nil⟩
  | cons c s ih =>
    rw [splitLines]
    split_ifs with hc
    · refine ⟨fun l hl => ?_, ih.2⟩
      rcases List.mem_cons.1 hl with rfl | hl
      · exact List.not_mem_nil
      · exact ih.1 l hl
    · generalize splitLines sep s = p at ih ⊢
      obtain ⟨_ | ⟨l, ls⟩, rest⟩ := p
      · exact ⟨ih.1, List.not_mem_cons_of_ne_of_not_mem (Ne.symm hc) ih.2⟩
      · refine ⟨fun l' hl' => ?_, ih.2⟩
        rcases List.mem_cons.1 hl' with rfl | hl'
        · exact List.not_mem_cons_of_ne_of_not_mem (Ne.symm hc) (ih.1 l List.mem_cons_self)
        · exact ih.1 l' (List.mem_cons_of_mem _ hl')

/-- `getline` reads the rest as a line of its own, if there is one. -/
theorem getlines_unlines {sep : Byte} {ls : List Str} (h : ∀ l ∈ ls, sep ∉ l) {rest : Str} (hrest : sep ∉ rest) :
    getlines sep (unlines sep ls rest) = ls ++ if rest = [] then [] else [rest] := by
  induction ls with
  | nil =>
    rw [unlines_nil, List.nil_append]
    split_ifs with hnil
    · rw [hnil, getlines]
    · exact getlines_last hrest hnil
  | cons l ls ih =>
    rw [unlines_cons, getlines_sep (h l List.mem_cons_self), ih fun l hl => h l (List.mem_cons_of_mem _ hl)]
    rfl

end Cxx
