/-
  Lyrics without their empty tag lines (`LyricsAggregator::cleanLyrics`), against
  the filter of lines that the comment of the function describes.

  The regular expression is not bound to the start of a line: where a line has
  something in front of a tag at its end, the tag and the newline go, and the
  line is joined to the next one that is not blank.
-/
import NarMusic.Lyrics.Tags
import NarMusic.Lib.Lines

namespace NarMusic.LyricsAggregator

open Cxx

/-! ## The filter -/

/-- One tag, followed by white space. -/
def tagLine (l : Str) : Bool :=
  match timeRegex l with
  | some tag => tag.rest.all isspace
  | none => false

/-- The lines that stay: a line of one tag goes, and after it the blank ones. -/
def keptLines : Bool → List Str → List Str
  | _, [] => []
  | behindTag, l :: ls =>
    if tagLine l || (behindTag && l.all isspace) then keptLines true ls else l :: keptLines false ls

def filterLines (lyrics : Str) : Str :=
  unlines 10 (keptLines false (splitLines 10 lyrics).1) (splitLines 10 lyrics).2

/-! ## What the code does with a line -/

/-- What stands in front of a tag at the end of a line. -/
def beforeTag : Str → Option Str
  | [] => none
  | c :: l => if tagLine (c :: l) then some [] else (beforeTag l).map (c :: ·)

/-- The text without its matches, by lines: a line that ends with a tag loses it with the newline and
    the blank lines that follow. -/
def cleanLines : Bool → List Str → Str → Str
  | _, [], rest => rest
  | behindTag, l :: ls, rest =>
    if behindTag && l.all isspace then cleanLines true ls rest
    else match beforeTag l with
      | some front => front ++ cleanLines true ls rest
      | none => l ++ 10 :: cleanLines false ls rest

/-- What is left when a match has taken the white space up to its last newline. -/
def skipBlank (s : Str) : Str := s.drop ((s.takeWhile isspace).rdropWhile (· ≠ 10)).length

theorem rdropWhile_newline (a z : Str) :
    (a ++ 10 :: z).rdropWhile (· ≠ 10) = a ++ 10 :: z.rdropWhile (· ≠ 10) := by
  induction z using List.reverseRecOn with
  | nil => exact List.rdropWhile_concat_neg _ _ _ (by simp)
  | append_singleton z c ih =>
    rw [← List.cons_append, ← List.append_assoc, List.rdropWhile_concat, List.rdropWhile_concat, ih]
    split_ifs <;> simp

/-- Without a newline a match takes no white space. -/
theorem blanks_rest {s : Str} (h : 10 ∉ s) : (s.takeWhile isspace).rdropWhile (· ≠ 10) = [] := by
  refine List.rdropWhile_eq_nil_iff.2 fun c hc => decide_eq_true fun h10 => h ?_
  exact h10 ▸ (List.takeWhile_sublist _).subset hc

theorem skipBlank_rest {s : Str} (h : 10 ∉ s) : skipBlank s = s := by
  rw [skipBlank, blanks_rest h]
  rfl

/-- Bytes that are not all white space end the white space. -/
theorem takeWhile_not_all {l : Str} (h : l.all isspace = false) (s : Str) :
    (l ++ s).takeWhile isspace = l.takeWhile isspace := by
  rw [List.takeWhile_append, if_neg fun hlen => ?_]
  have hall := List.takeWhile_eq_self_iff.1 ((List.takeWhile_prefix isspace).eq_of_length hlen)
  rw [List.all_eq_true.2 hall] at h
  cases h

/-- The white space of a match, up to its last newline. -/
theorem blanks_line {l : Str} (h : 10 ∉ l) (s : Str) :
    ((l ++ 10 :: s).takeWhile isspace).rdropWhile (· ≠ 10) =
      if l.all isspace then l ++ 10 :: (s.takeWhile isspace).rdropWhile (· ≠ 10) else [] := by
  cases hall : l.all isspace with
  | true =>
    rw [List.takeWhile_append_of_pos (List.all_eq_true.1 hall), List.takeWhile_cons_of_pos rfl,
      rdropWhile_newline]
    rfl
  | false =>
    rw [takeWhile_not_all hall, blanks_rest h]
    rfl

theorem drop_line (l z s : Str) : (l ++ 10 :: s).drop (l ++ 10 :: z).length = s.drop z.length := by
  rw [List.length_append, List.drop_append, List.drop_eq_nil_of_le (by omega)]
  simp

theorem skipBlank_line {l : Str} (h : 10 ∉ l) (s : Str) :
    skipBlank (l ++ 10 :: s) = if l.all isspace then skipBlank s else l ++ 10 :: s := by
  rw [skipBlank, blanks_line h]
  split_ifs
  · exact drop_line l _ s
  · rfl

/-- A line matches from its start on when it is a tag and white space, and the match takes the blank
    lines behind it. -/
theorem emptyLine_line {l : Str} (h : 10 ∉ l) (s : Str) :
    emptyLine (l ++ 10 :: s) = if tagLine l then some (skipBlank s) else none := by
  unfold emptyLine tagLine
  rw [timeRegex_line h]
  cases hl : timeRegex l with
  | none => rfl
  | some tag =>
    have hrest : 10 ∉ tag.rest := by
      obtain ⟨t, rfl, -⟩ := timeRegex_eq_some hl
      exact fun hmem => h (List.mem_append_right _ hmem)
    simp only [Option.map_some, Option.bind_eq_bind, Option.bind_some, blanks_line hrest]
    by_cases hall : tag.rest.all isspace = true
    · simp only [hall, if_true, List.append_eq_nil_iff, reduceCtorEq, and_false, if_false, drop_line]
      rfl
    · simp only [hall]
      rfl

theorem emptyLine_rest {s : Str} (h : 10 ∉ s) : emptyLine s = none := by
  unfold emptyLine
  cases hs : timeRegex s with
  | none => rfl
  | some tag =>
    have hrest : 10 ∉ tag.rest := by
      obtain ⟨t, rfl, -⟩ := timeRegex_eq_some hs
      exact fun hmem => h (List.mem_append_right _ hmem)
    simp only [Option.bind_eq_bind, Option.bind_some, blanks_rest hrest, if_true]

/-! ## The text by lines -/

theorem cleanFrom_skip (k : ℕ) (s : Str) : cleanFrom k s = cleanFrom 0 (s.drop k) :=
  scan_skip (fun k => by cases k <;> rfl) (fun _ _ _ => rfl) k s

theorem cleanFrom_rest {s : Str} (h : 10 ∉ s) : cleanFrom 0 s = s := by
  induction s with
  | nil => rfl
  | cons c s ih => rw [cleanFrom, emptyLine_rest h, ih fun hmem => h (List.mem_cons_of_mem _ hmem)]

theorem skipBlank_suffix (s : Str) : skipBlank s <:+ s := List.drop_suffix _ _

theorem drop_suffix_length {s t : Str} (h : t <:+ s) : s.drop (s.length - t.length) = t := by
  obtain ⟨front, rfl⟩ := h
  simp

theorem cleanFrom_line {l : Str} (h : 10 ∉ l) (s : Str) :
    cleanFrom 0 (l ++ 10 :: s) =
      match beforeTag l with
      | some front => front ++ cleanFrom 0 (skipBlank s)
      | none => l ++ 10 :: cleanFrom 0 s := by
  induction l with
  | nil =>
    have hnone : emptyLine (10 :: s) = none := rfl
    simp [beforeTag, cleanFrom, hnone]
  | cons c l ih =>
    have hl : 10 ∉ l := fun hmem => h (List.mem_cons_of_mem _ hmem)
    have hempty := emptyLine_line h s
    rw [List.cons_append] at hempty
    rw [List.cons_append, cleanFrom, hempty, beforeTag]
    split_ifs with htag
    · have hsuffix : skipBlank s <:+ l ++ 10 :: s :=
        (skipBlank_suffix s).trans ((List.suffix_cons 10 s).trans (List.suffix_append l _))
      simp only
      rw [cleanFrom_skip, drop_suffix_length hsuffix]
      rfl
    · simp only
      rw [ih hl]
      cases beforeTag l <;> rfl

theorem tagLine_not_blank {l : Str} (h : tagLine l = true) : l.all isspace = false := by
  unfold tagLine at h
  cases hl : timeRegex l with
  | none =>
    rw [hl] at h
    cases h
  | some tag =>
    obtain ⟨t, rfl, -⟩ := timeRegex_eq_some hl
    obtain ⟨s, hs, -⟩ := t.opens
    rw [hs]
    rfl

/-- A line that ends with a tag is not blank. -/
theorem beforeTag_not_blank {l front : Str} (h : beforeTag l = some front) : l.all isspace = false := by
  induction l generalizing front with
  | nil => cases h
  | cons c l ih =>
    rw [beforeTag] at h
    split_ifs at h with htag
    · exact tagLine_not_blank htag
    · obtain ⟨front, hfront, -⟩ := Option.map_eq_some_iff.1 h
      rw [List.all_cons, ih hfront, Bool.and_false]

theorem cleanFrom_lines {ls : List Str} (h : ∀ l ∈ ls, 10 ∉ l) {rest : Str} (hrest : 10 ∉ rest)
    (behindTag : Bool) :
    cleanFrom 0 (if behindTag then skipBlank (unlines 10 ls rest) else unlines 10 ls rest) =
      cleanLines behindTag ls rest := by
  induction ls generalizing behindTag with
  | nil =>
    rw [unlines_nil, skipBlank_rest hrest, ite_self, cleanFrom_rest hrest, cleanLines]
  | cons l ls ih =>
    have hl := h l List.mem_cons_self
    have ih := ih fun l hl => h l (List.mem_cons_of_mem _ hl)
    have hline : cleanFrom 0 (unlines 10 (l :: ls) rest) =
        match beforeTag l with
        | some front => front ++ cleanLines true ls rest
        | none => l ++ 10 :: cleanLines false ls rest := by
      rw [unlines_cons, cleanFrom_line hl, ← ih true, ← ih false]
      rfl
    rw [cleanLines]
    cases behindTag with
    | false => exact hline
    | true =>
      rw [if_pos rfl, unlines_cons, skipBlank_line hl]
      cases hall : l.all isspace with
      | true => simpa using ih true
      | false => simpa using hline

theorem cleanLyrics_eq (lyrics : Str) :
    cleanLyrics lyrics = cleanLines false (splitLines 10 lyrics).1 (splitLines 10 lyrics).2 := by
  have hfree := splitLines_free 10 lyrics
  rw [← cleanFrom_lines hfree.1 hfree.2, if_neg (by simp), unlines_splitLines, cleanLyrics]

/-! ## Against the filter -/

/-- The line has a tag at its end, up to white space, and something in front of the tag. -/
def TextBeforeTag (l : Str) : Prop :=
  ∃ front, ∃ tag : TimeTag, ∃ ws, front ≠ [] ∧ l = front ++ (tag.text ++ ws) ∧ ws.all isspace = true

theorem tagLine_iff {l : Str} :
    tagLine l = true ↔ ∃ tag : TimeTag, ∃ ws, l = tag.text ++ ws ∧ ws.all isspace = true := by
  unfold tagLine
  constructor
  · intro h
    cases hl : timeRegex l with
    | none =>
      rw [hl] at h
      cases h
    | some tag =>
      rw [hl] at h
      obtain ⟨t, heq, -⟩ := timeRegex_eq_some hl
      exact ⟨t, tag.rest, heq, h⟩
  · rintro ⟨tag, ws, rfl, hws⟩
    rw [timeRegex_text]
    exact hws

/-- Behind its first byte, a line of one tag has no bracket that opens. -/
theorem tagLine_bracket {c : Byte} {l : Str} (h : tagLine (c :: l) = true) : 91 ∉ l := by
  obtain ⟨tag, ws, heq, hws⟩ := tagLine_iff.1 h
  obtain ⟨s, hs, hopen⟩ := tag.opens
  rw [hs] at heq
  obtain rfl : l = s ++ ws := (List.cons.inj heq).2
  refine fun hmem => (List.mem_append.1 hmem).elim hopen fun hmem => ?_
  cases List.all_eq_true.1 hws 91 hmem

theorem beforeTag_isSome {l : Str} :
    (beforeTag l).isSome = true ↔
      ∃ front, ∃ tag : TimeTag, ∃ ws, l = front ++ (tag.text ++ ws) ∧ ws.all isspace = true := by
  induction l with
  | nil =>
    simp only [beforeTag, Option.isSome_none, Bool.false_eq_true, false_iff, not_exists, not_and]
    intro front tag ws heq
    cases (List.append_eq_nil_iff.1 (List.append_eq_nil_iff.1 heq.symm).2).1
  | cons c l ih =>
    rw [beforeTag]
    by_cases htag : tagLine (c :: l) = true
    · obtain ⟨tag, ws, h⟩ := tagLine_iff.1 htag
      rw [if_pos htag]
      exact ⟨fun _ => ⟨[], tag, ws, h⟩, fun _ => rfl⟩
    · rw [if_neg htag, Option.isSome_map, ih]
      constructor
      · rintro ⟨front, tag, ws, rfl, hws⟩
        exact ⟨c :: front, tag, ws, rfl, hws⟩
      · rintro ⟨front, tag, ws, heq, hws⟩
        cases front with
        | nil => exact absurd (tagLine_iff.2 ⟨tag, ws, heq, hws⟩) htag
        | cons d front => exact ⟨front, tag, ws, (List.cons.inj heq).2, hws⟩

/-- The scan finds it. -/
theorem textBeforeTag_iff {l : Str} : TextBeforeTag l ↔ (beforeTag l).any (· ≠ []) = true := by
  cases l with
  | nil =>
    simp only [beforeTag, Option.any_none, Bool.false_eq_true, iff_false]
    rintro ⟨front, tag, ws, hne, heq, -⟩
    exact hne (List.append_eq_nil_iff.1 heq.symm).1
  | cons c l =>
    have hsplit : TextBeforeTag (c :: l) ↔ (beforeTag l).isSome = true := by
      rw [beforeTag_isSome]
      constructor
      · rintro ⟨_ | ⟨d, front⟩, tag, ws, hne, heq, hws⟩
        · exact absurd rfl hne
        · exact ⟨front, tag, ws, (List.cons.inj heq).2, hws⟩
      · rintro ⟨front, tag, ws, rfl, hws⟩
        exact ⟨c :: front, tag, ws, List.cons_ne_nil _ _, rfl, hws⟩
    rw [hsplit, beforeTag]
    by_cases htag : tagLine (c :: l) = true
    · have hnone : (beforeTag l).isSome = false := by
        refine Bool.eq_false_iff.2 fun hsome => tagLine_bracket htag ?_
        obtain ⟨front, tag, ws, rfl, -⟩ := beforeTag_isSome.1 hsome
        obtain ⟨s, hs, -⟩ := tag.opens
        simp [hs]
      simp [htag, hnone]
    · rw [if_neg htag]
      cases beforeTag l <;> simp

/-- The three kinds of lines: with no tag at the end, of one tag, and with something before it. -/
theorem beforeTag_cases (l : Str) :
    (beforeTag l = none ∧ tagLine l = false) ∨ (beforeTag l = some [] ∧ tagLine l = true) ∨
      ∃ front, front ≠ [] ∧ beforeTag l = some front ∧ tagLine l = false ∧ front.length ≤ l.length := by
  induction l with
  | nil => exact Or.inl ⟨rfl, rfl⟩
  | cons c l ih =>
    rw [beforeTag]
    by_cases htag : tagLine (c :: l) = true
    · exact Or.inr (Or.inl ⟨if_pos htag, htag⟩)
    · have hfalse := Bool.eq_false_of_not_eq_true htag
      rw [if_neg htag, hfalse]
      rcases ih with ⟨hnone, -⟩ | ⟨hsome, -⟩ | ⟨front, -, hsome, -, hlen⟩
      · exact Or.inl ⟨by rw [hnone]; rfl, rfl⟩
      · exact Or.inr (Or.inr ⟨[c], List.cons_ne_nil _ _, by rw [hsome]; rfl, rfl, by simp⟩)
      · exact Or.inr (Or.inr ⟨c :: front, List.cons_ne_nil _ _, by rw [hsome]; rfl, rfl, by simpa using hlen⟩)

/-- Every line with something before its tag costs its newline. -/
theorem length_cleanLines (behind behind' : Bool) (h : behind' = true → behind = true) (ls : List Str)
    (rest : Str) :
    (cleanLines behind ls rest).length + ls.countP (fun l => (beforeTag l).any (· ≠ [])) ≤
      (unlines 10 (keptLines behind' ls) rest).length := by
  induction ls generalizing behind behind' with
  | nil => simp [cleanLines, keptLines]
  | cons l ls ih =>
    have ih1 := ih true true fun _ => rfl
    have ih2 := ih true false fun _ => rfl
    have ih3 := ih false false fun _ => by contradiction
    rw [cleanLines, keptLines, List.countP_cons]
    rcases beforeTag_cases l with ⟨hbefore, htag⟩ | ⟨hbefore, htag⟩ | ⟨front, hne, hbefore, htag, hlen⟩
    · -- both keep the line, or drop it as a blank one
      rw [hbefore, htag]
      simp only [Option.any_none, Bool.false_eq_true, if_false, Bool.false_or]
      cases l.all isspace with
      | false =>
        simp only [Bool.and_false, Bool.false_eq_true, if_false, unlines_cons, List.length_append, List.length_cons]
        omega
      | true =>
        cases behind with
        | false =>
          obtain rfl : behind' = false := by simpa using h
          simp only [Bool.false_and, Bool.false_eq_true, if_false, unlines_cons, List.length_append,
            List.length_cons]
          omega
        | true =>
          cases behind' with
          | false =>
            simp only [Bool.false_and, Bool.and_self, Bool.false_eq_true, if_false, if_true, unlines_cons,
              List.length_append, List.length_cons]
            omega
          | true => simpa using ih1
    · have hblank := beforeTag_not_blank hbefore
      rw [hbefore, htag, hblank]
      simpa using ih1
    · have hblank := beforeTag_not_blank hbefore
      rw [hbefore, htag, hblank]
      have hany : (some front).any (· ≠ []) = true := by simp [hne]
      simp only [hany, Bool.and_false, Bool.or_self, Bool.false_eq_true, if_false, if_true, unlines_cons,
        List.length_append, List.length_cons]
      omega

/-- Without such lines the two are the same. -/
theorem cleanLines_eq {ls : List Str} (h : ∀ l ∈ ls, ¬ TextBeforeTag l) (behind : Bool) (rest : Str) :
    cleanLines behind ls rest = unlines 10 (keptLines behind ls) rest := by
  induction ls generalizing behind with
  | nil => simp [cleanLines, keptLines]
  | cons l ls ih =>
    have ih := ih fun l hl => h l (List.mem_cons_of_mem _ hl)
    have hl := h l List.mem_cons_self
    rw [textBeforeTag_iff] at hl
    rw [cleanLines, keptLines]
    rcases beforeTag_cases l with ⟨hbefore, htag⟩ | ⟨hbefore, htag⟩ | ⟨front, hne, hbefore, -⟩
    · rw [hbefore, htag, Bool.false_or]
      split_ifs
      · exact ih true
      · rw [unlines_cons, ← ih false]
    · rw [hbefore, htag, beforeTag_not_blank hbefore]
      simpa using ih true
    · exact absurd (by simp [hbefore, hne]) hl

/-- **The filter of lines.**  The code is the filter exactly when no line that ends with a newline has
    something before a tag at its end. -/
theorem cleanLyrics_filters (lyrics : Str) :
    cleanLyrics lyrics = filterLines lyrics ↔ ∀ l ∈ (splitLines 10 lyrics).1, ¬ TextBeforeTag l := by
  rw [cleanLyrics_eq, filterLines]
  constructor
  · intro heq l hl hbefore
    have hlen := length_cleanLines false false id (splitLines 10 lyrics).1 (splitLines 10 lyrics).2
    have hpos : 0 < (splitLines 10 lyrics).1.countP (fun l => (beforeTag l).any (· ≠ [])) :=
      List.countP_pos_iff.2 ⟨l, hl, textBeforeTag_iff.1 hbefore⟩
    rw [heq] at hlen
    omega
  · exact fun h => cleanLines_eq h false _

/-- A line of two tags takes the next line to its first time. -/
theorem two_tags_joined :
    cleanLyrics (lit "[00:01.00][00:02.00]\n[00:03.00]x") = lit "[00:01.00][00:03.00]x" ∧
      ¬ ∀ lyrics, cleanLyrics lyrics = filterLines lyrics := by
  refine ⟨by decide +kernel, fun h => ?_⟩
  exact absurd (h (lit "[00:01.00][00:02.00]\n[00:03.00]x")) (by decide +kernel)

end NarMusic.LyricsAggregator
