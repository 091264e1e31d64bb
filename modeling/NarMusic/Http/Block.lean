/-
  Header blocks: lines with a line break before each, and a blank line behind the
  last.  The blank line is not found earlier, and the lines are read back, all but
  the last with their CR.
-/
import NarMusic.Http.Request

namespace NarMusic

open Cxx

/-- Free of line breaks. -/
def Plain (s : Str) : Prop := 13 ∉ s ∧ 10 ∉ s

@[simp] theorem blankLine_length : blankLine.length = 4 := rfl

/-- Lines, each with the line break before it. -/
def lineBlock (lines : List Str) : Str := lines.flatMap fun line => crlf ++ line

/-- What `getline` reads from such lines. -/
def crLines : List Str → List Str
  | [] => []
  | [line] => [line]
  | line :: line' :: lines => (line ++ [13]) :: crLines (line' :: lines)

theorem flatMap_crlf (lines : List Str) :
    crlf ++ lines.flatMap (fun line => line ++ crlf) = lineBlock lines ++ crlf := by
  induction lines with
  | nil => rfl
  | cons line lines ih =>
    simp only [lineBlock, List.flatMap_cons, List.append_assoc] at ih ⊢
    rw [ih]

/-- A blank line is not found inside a header block. -/
theorem find_lineBlock {lines : List Str} (h : ∀ line ∈ lines, Plain line ∧ line ≠ []) (t : Str) :
    find blankLine (lineBlock lines ++ (blankLine ++ t)) = some (lineBlock lines).length := by
  induction lines with
  | nil => exact find_head (List.prefix_append _ _)
  | cons line lines ih =>
    obtain ⟨⟨h1, -⟩, hne⟩ := h line List.mem_cons_self
    obtain ⟨b, l, hl⟩ := List.exists_cons_of_ne_nil hne
    have hsplit : lineBlock (line :: lines) ++ (blankLine ++ t) =
        13 :: ((10 :: line) ++ (lineBlock lines ++ (blankLine ++ t))) := by
      simp [lineBlock, crlf]
    -- The line is not empty, so the CRLF before it does not begin a blank line.
    have hno : ¬ blankLine <+: 13 :: ((10 :: line) ++ (lineBlock lines ++ (blankLine ++ t))) := by
      rw [hl]
      rintro ⟨u, hu⟩
      have : 13 = b := by simpa [blankLine] using (by simpa [blankLine] using hu : 13 = b ∧ _).1
      exact h1 (by simp [hl, this])
    have hskip : 13 ∉ 10 :: line := by simpa using h1
    rw [hsplit, find, if_neg hno, blankLine, find_skip hskip, ← blankLine,
      ih fun line' hline' => h line' (List.mem_cons_of_mem _ hline')]
    simp [lineBlock, crlf]
    omega

theorem getlines_lineBlock {line : Str} {lines : List Str}
    (h : ∀ line' ∈ line :: lines, Plain line' ∧ line' ≠ []) :
    getlines 10 (line ++ lineBlock lines) = crLines (line :: lines) := by
  induction lines generalizing line with
  | nil =>
    obtain ⟨hplain, hne⟩ := h line List.mem_cons_self
    simpa [lineBlock, crLines] using getlines_last hplain.2 hne
  | cons line' lines ih =>
    obtain ⟨hplain, -⟩ := h line List.mem_cons_self
    have hsplit : line ++ lineBlock (line' :: lines) = (line ++ [13]) ++ 10 :: (line' ++ lineBlock lines) := by
      simp [lineBlock, crlf]
    rw [hsplit, getlines_sep (by simp [hplain.2]), ih fun l hl => h l (List.mem_cons_of_mem _ hl)]
    rfl

theorem find_lineBlock_crlf (lines : List Str) (t : Str) :
    find crlf (lineBlock lines ++ (blankLine ++ t)) = some 0 := by
  refine find_head ?_
  cases lines with
  | nil => exact ⟨13 :: 10 :: t, rfl⟩
  | cons line lines => exact ⟨line ++ (lineBlock lines ++ (blankLine ++ t)), by simp [lineBlock]⟩

/-! ## Behind a first line -/

section
variable {requestLine : Str} {lines : List Str}

theorem find_block_blank (hline : 13 ∉ requestLine) (h : ∀ line ∈ lines, Plain line ∧ line ≠ []) (t : Str) :
    find blankLine (requestLine ++ (lineBlock lines ++ (blankLine ++ t))) =
      some (requestLine ++ lineBlock lines).length := by
  rw [blankLine, find_skip hline, ← blankLine, find_lineBlock h]
  simp only [Option.map_some, List.length_append, Option.some.injEq]
  omega

theorem find_block_crlf (hline : 13 ∉ requestLine) (t : Str) :
    find crlf (requestLine ++ (lineBlock lines ++ (blankLine ++ t))) = some requestLine.length := by
  rw [crlf, find_skip hline, ← crlf, find_lineBlock_crlf]
  simp

/-- The text that is cut out between the first line and the blank line. -/
theorem headersStr_block (requestLine : Str) (h : ∀ line ∈ lines, Plain line ∧ line ≠ []) {t : Str}
    (ht : lines = [] → t = []) :
    ∃ headersStr, substrLen (requestLine ++ (lineBlock lines ++ (blankLine ++ t))) (requestLine.length + 2)
        (sizeSub (requestLine ++ lineBlock lines).length (requestLine.length + 2)) = .ok headersStr ∧
      (getlines 10 headersStr = crLines lines ∨ lines = [] ∧ getlines 10 headersStr = [[13]]) := by
  cases lines with
  | nil =>
    -- The block is empty: the length wraps around and the rest of the text is cut out.
    obtain rfl := ht rfl
    refine ⟨crlf, ?_, Or.inr ⟨rfl, rfl⟩⟩
    have hsub : sizeSub (requestLine ++ lineBlock []).length (requestLine.length + 2) = 2 ^ 64 - 2 := by
      rw [lineBlock, List.flatMap_nil, List.append_nil, sizeSub, if_neg (by omega)]
      omega
    have hsplit : requestLine ++ (lineBlock [] ++ (blankLine ++ [])) = (requestLine ++ crlf) ++ crlf := by
      simp [lineBlock, blankLine, crlf]
    have hlen : requestLine.length + 2 = (requestLine ++ crlf).length := by simp [crlf]
    rw [hsub, hsplit, hlen, substrLen, substr_append]
    rfl
  | cons line lines =>
    refine ⟨line ++ lineBlock lines, ?_, Or.inl (getlines_lineBlock h)⟩
    have hblock : requestLine ++ lineBlock (line :: lines) =
        (requestLine ++ crlf) ++ (line ++ lineBlock lines) := by
      simp [lineBlock]
    have hlen : requestLine.length + 2 = (requestLine ++ crlf).length := by simp [crlf]
    rw [← List.append_assoc, hlen, hblock, sizeSub_append, List.append_assoc, substrLen_append]

end

end NarMusic
