/-
  KRC lyrics (`QishuiProvider::krcStringToLrc`, qishui_provider.cpp), and the
  timed lines that the merger reads from what they become.

  `.` matches no carriage return, so a line that ends with one does not match to
  its end and is left out.
-/
import NarMusic.Lyrics.Merge
import NarMusic.Lyrics.Tags
import NarMusic.Lib.Except
import NarMusic.Lib.Lines

namespace NarMusic.QishuiProvider

open Cxx LyricsAggregator

/-- `\[(\d+),(\d+)\](.*)` over a whole line: the first group and the third. -/
def lineRegex (line : Str) : Option (Str × Str) := do
  let s ← expect 91 line
  let start := s.takeWhile isdigit
  let s ← expect 44 (s.dropWhile isdigit)
  let duration := s.takeWhile isdigit
  let rest ← expect 93 (s.dropWhile isdigit)
  if start ≠ [] ∧ duration ≠ [] ∧ rest.all (fun c => c ≠ 10 && c ≠ 13) then some (start, rest) else none

/-- A text without its matches of `<[^>]*>`, whose bytes are skipped. -/
def removeFrom : ℕ → Str → Str
  | _, [] => []
  | skip + 1, _ :: s => removeFrom skip s
  | 0, c :: s =>
    if c = 60 ∧ s.contains 62 then removeFrom ((s.takeWhile (· ≠ 62)).length + 1) s else c :: removeFrom 0 s

/-- `std::regex_replace(text, wordRegex, "")` -/
def removeMarks (text : Str) : Str := removeFrom 0 text

/-- A number with `std::setw` and `std::setfill('0')`. -/
def setw (width : ℕ) (s : Str) : Str := List.replicate (width - s.length) 48 ++ s

/-- What one line writes. -/
def lineToLrc (line : Str) : Except Exn Str :=
  match lineRegex line with
  | none => .ok []
  | some (start, rest) =>
    match stoll start with
    | none => .error .outOfRange
    | some startMs =>
      let text := removeMarks rest
      if text = [] then .ok []
      else
        let min := int32 (startMs / 60000)
        let sec := int32 (startMs % 60000 / 1000)
        let ms := int32 (startMs % 1000)
        .ok ([91] ++ setw 2 (decInt min) ++ [58] ++ setw 2 (decInt sec) ++ [46] ++ setw 3 (decInt ms) ++ [93] ++
          text ++ [10])

def krcStringToLrc (krcContent : Str) : Except Exn Str := do
  let parts ← (getlines 10 krcContent).mapM lineToLrc
  return parts.flatten

/-! ## Lines -/

/-- A line of a KRC text: its time, the marked text, and whether it ends with CRLF. -/
structure KrcLine where
  start : Str
  duration : Str
  marked : Str
  crlf : Bool
  start_digits : start ≠ [] ∧ ∀ c ∈ start, isdigit c = true
  start_lt : digitsVal start < 6000000
  duration_digits : duration ≠ [] ∧ ∀ c ∈ duration, isdigit c = true
  marked_line : 10 ∉ marked ∧ 13 ∉ marked
  text_ne_nil : removeMarks marked ≠ []
  text_trimmed : trimBlanks (removeMarks marked) = removeMarks marked

def KrcLine.text (line : KrcLine) : Str := removeMarks line.marked

def KrcLine.entry (line : KrcLine) : ℕ × Str := (digitsVal line.start, line.text)

/-- The line up to its newline. -/
def KrcLine.source (line : KrcLine) : Str :=
  91 :: (line.start ++ 44 :: (line.duration ++ 93 :: (line.marked ++ if line.crlf then [13] else [])))

/-- The text of lines that all end, and perhaps a last one that does not. -/
def krcText (lines : List KrcLine) (last : Option KrcLine) : Str :=
  unlines 10 (lines.map KrcLine.source) ((last.map KrcLine.source).getD [])

theorem lineRegex_source (line : KrcLine) :
    lineRegex line.source = if line.crlf then none else some (line.start, line.marked) := by
  obtain ⟨hstart, hstart'⟩ := takeWhile_digits line.start_digits.2 (c := 44) rfl
    (line.duration ++ 93 :: (line.marked ++ if line.crlf then [13] else []))
  obtain ⟨hduration, hduration'⟩ := takeWhile_digits line.duration_digits.2 (c := 93) rfl
    (line.marked ++ if line.crlf then [13] else [])
  have hread : lineRegex line.source =
      if line.start ≠ [] ∧ line.duration ≠ [] ∧
          (line.marked ++ if line.crlf then [13] else []).all (fun c => c ≠ 10 && c ≠ 13) then
        some (line.start, line.marked ++ if line.crlf then [13] else [])
      else none := by
    simp only [lineRegex, KrcLine.source, expect, if_true, Option.bind_eq_bind, Option.bind_some, hstart, hstart',
      hduration, hduration']
  have hmarked : line.marked.all (fun c => c ≠ 10 && c ≠ 13) = true := by
    simp only [List.all_eq_true, Bool.and_eq_true, decide_eq_true_eq]
    exact fun c hc => ⟨fun h => line.marked_line.1 (h ▸ hc), fun h => line.marked_line.2 (h ▸ hc)⟩
  rw [hread]
  cases line.crlf with
  | false => simp only [line.start_digits.1, line.duration_digits.1, hmarked, ne_eq, not_false_eq_true, true_and,
      Bool.false_eq_true, if_false, List.append_nil, if_true]
  | true => simp

/-! ## What a line writes -/

theorem digitsVal_replicate (k : ℕ) (ds : Str) : digitsVal (List.replicate k 48 ++ ds) = digitsVal ds := by
  induction k with
  | zero => rfl
  | succ k ih =>
    rw [List.replicate_succ, List.cons_append, digitsVal, List.foldl_cons]
    exact ih

/-- A number that fits is written with the width's number of digits. -/
theorem setw_dec {w n : ℕ} (hw : 0 < w) (hn : n < 10 ^ w) :
    (setw w (dec n)).length = w ∧ (∀ c ∈ setw w (dec n), isdigit c = true) ∧
      digitsVal (setw w (dec n)) = n := by
  have hlen : (dec n).length ≤ w := by
    rw [dec, List.length_map]
    exact (Nat.length_toDigits_le_iff (by omega) hw).2 hn
  refine ⟨?_, fun c hc => ?_, ?_⟩
  · rw [setw, List.length_append, List.length_replicate]
    omega
  · rcases List.mem_append.1 hc with hzero | hdigit
    · rw [List.eq_of_mem_replicate hzero]
      rfl
    · exact isdigit_dec n c hdigit
  · rw [setw, digitsVal_replicate, digitsVal_dec]

/-- `[mm:ss.mmm]` -/
def tagMs (startMs : ℕ) : Str :=
  [91] ++ setw 2 (dec (startMs / 60000)) ++ [58] ++ setw 2 (dec (startMs % 60000 / 1000)) ++ [46] ++
    setw 3 (dec (startMs % 1000)) ++ [93]

theorem lineToLrc_source (line : KrcLine) :
    lineToLrc line.source =
      .ok (if line.crlf then [] else tagMs (digitsVal line.start) ++ line.text ++ [10]) := by
  rw [lineToLrc, lineRegex_source]
  cases line.crlf with
  | true => rfl
  | false =>
    have hlt := line.start_lt
    have hread := stoll_digits line.start_digits.2 line.start_digits.1
    rw [if_pos (by omega)] at hread
    have hmin : int32 ((digitsVal line.start : ℤ) / 60000) = (digitsVal line.start / 60000 : ℕ) :=
      int32_of_isInt32 ⟨by omega, by omega⟩
    have hsec : int32 ((digitsVal line.start : ℤ) % 60000 / 1000) = (digitsVal line.start % 60000 / 1000 : ℕ) :=
      int32_of_isInt32 ⟨by omega, by omega⟩
    have hms : int32 ((digitsVal line.start : ℤ) % 1000) = (digitsVal line.start % 1000 : ℕ) :=
      int32_of_isInt32 ⟨by omega, by omega⟩
    simp only [Bool.false_eq_true, if_false, hread, if_neg line.text_ne_nil, hmin, hsec, hms]
    rfl

/-- The merger reads the time and the text back. -/
theorem lrcLine_tagMs {startMs : ℕ} (h : startMs < 6000000) (text : Str) :
    lrcLine (tagMs startMs ++ text) = some (startMs, trimBlanks text) := by
  obtain ⟨hmin, hmin', hmin''⟩ := setw_dec (w := 2) (n := startMs / 60000) (by omega) (by omega)
  obtain ⟨hsec, hsec', hsec''⟩ := setw_dec (w := 2) (n := startMs % 60000 / 1000) (by omega) (by omega)
  obtain ⟨hms, hms', hms''⟩ := setw_dec (w := 3) (n := startMs % 1000) (by omega) (by omega)
  have hread := readTag_text hmin' hsec' hms' text
  have heq : tagMs startMs ++ text = 91 :: (setw 2 (dec (startMs / 60000)) ++ 58 ::
      (setw 2 (dec (startMs % 60000 / 1000)) ++ 46 :: (setw 3 (dec (startMs % 1000)) ++ 93 :: text))) := by
    simp [tagMs]
  rw [heq, lrcLine, hread]
  simp only [Option.bind_eq_bind, Option.bind_some, hmin, hsec, hms, hmin'', hsec'', hms'']
  rw [if_pos ⟨trivial, trivial, Or.inr trivial⟩, if_neg (show ¬ 3 = 2 by omega)]
  refine congrArg some (Prod.ext ?_ rfl)
  show startMs / 60000 * 60000 + startMs % 60000 / 1000 * 1000 + startMs % 1000 = startMs
  omega

/-! ## The whole text -/

theorem removeFrom_sublist (k : ℕ) (s : Str) : (removeFrom k s).Sublist s := by
  induction s generalizing k with
  | nil =>
    cases k <;> exact List.Sublist.refl _
  | cons c s ih =>
    cases k with
    | zero =>
      rw [removeFrom]
      split_ifs
      · exact (ih _).cons c
      · exact (ih 0).cons_cons c
    | succ k => exact (ih k).cons c

theorem KrcLine.text_line (line : KrcLine) : 10 ∉ line.text ∧ 13 ∉ line.text :=
  ⟨fun h => line.marked_line.1 ((removeFrom_sublist 0 _).subset h),
    fun h => line.marked_line.2 ((removeFrom_sublist 0 _).subset h)⟩

/-- All lines, the last one too. -/
def allLines (lines : List KrcLine) (last : Option KrcLine) : List KrcLine := lines ++ last.toList

theorem getlines_krcText (lines : List KrcLine) (last : Option KrcLine) :
    getlines 10 (krcText lines last) = (allLines lines last).map KrcLine.source := by
  have hfree : ∀ line : KrcLine, 10 ∉ line.source := by
    intro line
    have hstart : 10 ∉ line.start := notMem_digits rfl line.start_digits.2
    have hduration : 10 ∉ line.duration := notMem_digits rfl line.duration_digits.2
    have hmarked := line.marked_line.1
    cases hcr : line.crlf <;> simp [KrcLine.source, hstart, hduration, hmarked, hcr]
  have hlines : ∀ l ∈ lines.map KrcLine.source, 10 ∉ l := by
    intro l hl
    obtain ⟨line, -, rfl⟩ := List.mem_map.1 hl
    exact hfree line
  rw [krcText, allLines, List.map_append]
  cases last with
  | none => exact getlines_unlines hlines List.not_mem_nil
  | some line =>
    rw [Option.map_some, Option.getD_some, getlines_unlines hlines (hfree line),
      if_neg (show line.source ≠ [] from List.cons_ne_nil _ _)]
    rfl

/-- The line that is written for one that matches. -/
def KrcLine.lrc (line : KrcLine) : Str := tagMs (digitsVal line.start) ++ line.text

theorem flatten_filter {α : Type} (p : α → Bool) (f : α → Str) (as : List α) :
    (as.map fun a => if p a then [] else f a).flatten = (as.filter (!p ·)).flatMap f := by
  induction as with
  | nil => rfl
  | cons a as ih =>
    rw [List.map_cons, List.flatten_cons, ih]
    cases hp : p a <;> simp [hp]

/-- What is written: a line for each one that does not end with CRLF. -/
theorem krcStringToLrc_eq (lines : List KrcLine) (last : Option KrcLine) :
    krcStringToLrc (krcText lines last) =
      .ok ((((allLines lines last).filter (!·.crlf)).map KrcLine.lrc).flatMap (· ++ [10])) := by
  have hmap : ∀ l ∈ allLines lines last, (lineToLrc ∘ KrcLine.source) l =
      .ok (if l.crlf then [] else l.lrc ++ [10]) := fun l _ => lineToLrc_source l
  rw [krcStringToLrc, getlines_krcText, List.mapM_map, Except.mapM_ok hmap, List.flatMap_map]
  exact congrArg Except.ok (flatten_filter KrcLine.crlf (fun l => l.lrc ++ [10]) _)

theorem notMem_tagMs {startMs : ℕ} (h : startMs < 6000000) {c : Byte} (hc : isdigit c = false)
    (hpunct : c ∉ [91, 58, 46, 93]) : c ∉ tagMs startMs := by
  obtain ⟨-, hmin, -⟩ := setw_dec (w := 2) (n := startMs / 60000) (by omega) (by omega)
  obtain ⟨-, hsec, -⟩ := setw_dec (w := 2) (n := startMs % 60000 / 1000) (by omega) (by omega)
  obtain ⟨-, hms, -⟩ := setw_dec (w := 3) (n := startMs % 1000) (by omega) (by omega)
  simp only [List.mem_cons, List.not_mem_nil, or_false, not_or] at hpunct
  simp [tagMs, notMem_digits hc hmin, notMem_digits hc hsec, notMem_digits hc hms, hpunct]

/-- The merger reads one entry from each line. -/
theorem timedLines_lrc (lines : List KrcLine) :
    timedLines ((lines.map KrcLine.lrc).flatMap (· ++ [10])) = lines.map KrcLine.entry := by
  have hfree : ∀ line : KrcLine, 10 ∉ line.lrc ∧ 13 ∉ line.lrc := fun line => by
    rw [KrcLine.lrc, List.mem_append, List.mem_append, not_or, not_or]
    exact ⟨⟨notMem_tagMs line.start_lt rfl (by decide), line.text_line.1⟩,
      notMem_tagMs line.start_lt rfl (by decide), line.text_line.2⟩
  have hread : ∀ line : KrcLine, lrcLine (line.lrc.filter (· ≠ 13)) = some line.entry := fun line => by
    have hfilter : line.lrc.filter (· ≠ 13) = line.lrc := by
      refine List.filter_eq_self.2 fun c hc => decide_eq_true ?_
      rintro rfl
      exact (hfree line).2 hc
    rw [hfilter, KrcLine.lrc, lrcLine_tagMs line.start_lt, KrcLine.text, line.text_trimmed]
    rfl
  have hlines : ∀ l ∈ lines.map KrcLine.lrc, 10 ∉ l := by
    intro l hl
    obtain ⟨line, -, rfl⟩ := List.mem_map.1 hl
    exact (hfree line).1
  rw [timedLines, lrcLines, getlines_flatMap hlines, List.filterMap_map, List.filterMap_map,
    ← List.filterMap_eq_map]
  exact List.filterMap_congr fun line _ => hread line

/-- **KRC lyrics.**  The merger reads the times and texts of all lines back exactly when none ends with
    CRLF. -/
theorem krcStringToLrc_keeps (lines : List KrcLine) (last : Option KrcLine) :
    (krcStringToLrc (krcText lines last)).map timedLines = .ok ((allLines lines last).map KrcLine.entry) ↔
      ∀ line ∈ allLines lines last, line.crlf = false := by
  rw [krcStringToLrc_eq, Except.map, timedLines_lrc, Except.ok.injEq]
  constructor
  · intro h
    have hlen := congrArg List.length h
    rw [List.length_map, List.length_map] at hlen
    intro line hline
    simpa using List.length_filter_eq_length_iff.1 hlen line hline
  · intro h
    rw [List.filter_eq_self.2 fun line hline => by rw [h line hline]; rfl]

/-- A line that ends with CRLF is lost. -/
theorem crlf_lost :
    krcStringToLrc (lit "[1000,500]<0,500,0>abc\r\n") = .ok [] ∧
      ¬ ∀ lines last, (krcStringToLrc (krcText lines last)).map timedLines =
        .ok ((allLines lines last).map KrcLine.entry) := by
  refine ⟨by rfl, fun h => ?_⟩
  have hline := h [⟨lit "1000", lit "500", lit "<0,500,0>abc", true, digits_of_all (by decide), by decide,
    digits_of_all (by decide), by decide, by decide, by decide⟩] none
  rw [krcStringToLrc_eq] at hline
  cases hline

end NarMusic.QishuiProvider
