/-
  The translation in a KRC file (`KugouProvider::decryptKRC`, kugou_provider.cpp).

  The file is a compressed text under a repeated key.  The translations are a JSON text in base64 in
  a tag of its own; the lines of the one with the most Chinese are written with the times of the
  lyrics' lines.  What the merger reads of them is the translation of each line at the time of the
  line (`decryptKRC_document`).
-/
import Mathlib.Data.List.MinMax
import NarMusic.Core.Base64
import NarMusic.Lyrics.ShareLyrics

namespace NarMusic.KugouProvider

open Cxx LyricsAggregator QishuiProvider

/-! ## The file -/

def xorKey : Str := [64, 71, 97, 119, 94, 50, 116, 71, 81, 54, 49, 45, 206, 210, 110, 105]

/-- The bytes from position `i` on, under the repeated key. -/
def xorFrom (i : ℕ) : Str → Str
  | [] => []
  | c :: s => (c ^^^ xorKey.getD (i % 16) 0) :: xorFrom (i + 1) s

/-- `\[(\d+),\d+\]` at the front: its group, and what follows. -/
def krcTsRegex (s : Str) : Option (Str × Str) := do
  let s ← expect 91 s
  let start := s.takeWhile isdigit
  let s ← expect 44 (s.dropWhile isdigit)
  let duration := s.takeWhile isdigit
  let rest ← expect 93 (s.dropWhile isdigit)
  if start ≠ [] ∧ duration ≠ [] then some (start, rest) else none

/-- The groups of all matches from a position on; the bytes of a match are skipped. -/
def stampsFrom : ℕ → Str → List Str
  | _, [] => []
  | skip + 1, _ :: s => stampsFrom skip s
  | 0, c :: s =>
    match krcTsRegex (c :: s) with
    | none => stampsFrom 0 s
    | some (start, rest) => start :: stampsFrom (s.length - rest.length) s

def stampOf (start : Str) : Except Exn ℤ :=
  match stoll start with
  | some ms => .ok ms
  | none => .error .outOfRange

/-! ## The translations -/

/-- One line: its parts, joined. -/
def lineOf (lineArr : JsonValue) : Except Exn Str := do
  return (← lineArr.elements.mapM JsonValue.getString).flatten

/-- One round of the loop over the translations: the lines, if it has any. -/
def transLinesOf (item : JsonValue) : Except Exn (Option (List Str)) :=
  match item.find? "lyricContent" with
  | none => .ok none
  | some lyricContent => return some (← lyricContent.elements.mapM lineOf)

/-- What the loop over the indices of `contentArr` goes through. -/
def contentItems : JsonValue → Except Exn (List JsonValue)
  | .arr items => .ok items
  | .null | .obj [] => .ok []
  | _ => .error .typeError

/-- The first bytes of most Chinese characters. -/
def isChineseLead (c : Byte) : Bool := 0xE4 ≤ c && c ≤ 0xE9

/-- `ratio`; a character is counted with its bytes. -/
def ratio (transLines : List Str) : ℚ :=
  let chineseCount := (transLines.map (List.countP isChineseLead)).sum
  let totalAlpha := chineseCount + (transLines.map List.length).sum
  if 0 < totalAlpha then chineseCount / totalAlpha else 0

/-- `bestRatio`, and the lines it is of. -/
def compareRatio (best : ℚ × Option (List Str)) (transLines : List Str) : ℚ × Option (List Str) :=
  if best.1 < ratio transLines then (ratio transLines, some transLines) else best

def bestLines (allTransLines : List (List Str)) : Option (List Str) :=
  let best := allTransLines.foldl compareRatio (0, none)
  if 1 / 100 < best.1 then best.2 else none

/-- `[%02d:%02d.%02d]` -/
def stampTag (ms : ℤ) : Str :=
  let min := int32 (ms.tdiv 60000)
  let sec := int32 ((ms.tmod 60000).tdiv 1000)
  let cs := int32 ((ms.tmod 1000).tdiv 10)
  [91] ++ setw 2 (decInt min) ++ [58] ++ setw 2 (decInt sec) ++ [46] ++ setw 2 (decInt cs) ++ [93]

/-- A line that is left out. -/
def isEmptyLine (tl : Str) : Bool := tl = [] || tl = lit " "

/-- The loop over the lines; it ends with the times. -/
def transLrc : List Str → List ℤ → Str
  | tl :: transLines, ms :: krcTimestamps =>
    (if isEmptyLine tl then [] else stampTag ms ++ tl ++ [10]) ++ transLrc transLines krcTimestamps
  | _, _ => []

section
variable (parse : Str → Except Exn JsonValue)

/-- What the inner `try` does. -/
def translationOf (langJson : Str) (krcTimestamps : List ℤ) : Except Exn Str := do
  let langData ← parse langJson
  let contentArr ← langData.member "content"
  let items ← contentItems contentArr
  let found ← items.mapM transLinesOf
  match bestLines (found.filterMap id) with
  | some transLines => return transLrc transLines krcTimestamps
  | none => return []

/-- `outTranslation`, from what follows `[language:`. -/
def languageTag (rest : Str) (krcTimestamps : List ℤ) : Str :=
  match find [93] rest with
  | none => []
  | some n =>
    let langJson := base64Decode (rest.take n)
    if langJson = [] then []
    else
      match translationOf parse langJson krcTimestamps with
      | .ok outTranslation => outTranslation
      | .error _ => []

/-- `outLyrics` and `outTranslation`; `uncompress` is given the space there is. -/
def decryptKRC (uncompress : Str → ℕ → Option Str) (krcData : Str) : Except Exn (Option (Str × Str)) :=
  if krcData.length < 8 then .ok none
  else if krcData.take 4 ≠ lit "krc1" then .ok none
  else
    let decrypted := xorFrom 0 (krcData.drop 4)
    match uncompress decrypted (decrypted.length * 10) with
    | none => .ok none
    | some fullText => do
      let krcTimestamps ← (stampsFrom 0 fullText).mapM stampOf
      match find (lit "[language:") fullText with
      | none => return some (fullText, [])
      | some langPos =>
        return some (fullText.take langPos, languageTag parse (fullText.drop (langPos + 10)) krcTimestamps)

end

/-! ## The key -/

theorem length_xorFrom (i : ℕ) (s : Str) : (xorFrom i s).length = s.length := by
  induction s generalizing i with
  | nil => rfl
  | cons c s ih => rw [xorFrom, List.length_cons, ih, List.length_cons]

/-- The key twice is no key. -/
theorem xorFrom_xorFrom (i : ℕ) (s : Str) : xorFrom i (xorFrom i s) = s := by
  induction s generalizing i with
  | nil => rfl
  | cons c s ih =>
    rw [xorFrom, xorFrom, ih, UInt8.xor_assoc, UInt8.xor_self, UInt8.xor_zero]

/-! ## The times -/

/-- No digit follows a bracket. -/
def NoStamp (s : Str) : Prop := ∀ a b, s = a ++ 91 :: b → ∃ c b', b = c :: b' ∧ isdigit c = false

theorem NoStamp.tail {c : Byte} {s : Str} (h : NoStamp (c :: s)) : NoStamp s := by
  intro a b hs
  exact h (c :: a) b (by rw [hs, List.cons_append])

theorem noStamp_of_notMem {s : Str} (h : 91 ∉ s) : NoStamp s := by
  rintro a b rfl
  simp at h

theorem noStamp_bracket {c : Byte} {s : Str} (hc : isdigit c = false) (hs : 91 ∉ c :: s) : NoStamp (91 :: c :: s) := by
  intro a b h
  cases a with
  | nil => exact ⟨c, s, (List.cons.inj h).2.symm, hc⟩
  | cons d a =>
    rw [(List.cons.inj h).2] at hs
    simp at hs

theorem NoStamp.append {s t : Str} (hs : NoStamp s) (ht : NoStamp t) : NoStamp (s ++ t) := by
  intro a b h
  rcases List.append_eq_append_iff.1 h with ⟨a', rfl, ht'⟩ | ⟨b', rfl, hb⟩
  · exact ht a' b ht'
  · cases b' with
    | nil => exact ht [] b hb.symm
    | cons d b' =>
      obtain ⟨rfl, rfl⟩ := List.cons.inj hb
      obtain ⟨c, b'', rfl, hc⟩ := hs a b' rfl
      exact ⟨c, b'' ++ t, rfl, hc⟩

theorem krcTsRegex_plain {g y : Str} (h : NoStamp g) (hg : g ≠ []) : krcTsRegex (g ++ y) = none := by
  cases g with
  | nil => exact absurd rfl hg
  | cons c g =>
    rw [krcTsRegex]
    by_cases hc : c = 91
    · subst hc
      obtain ⟨d, g', rfl, hd⟩ := h [] g rfl
      have htake : (d :: (g' ++ y)).takeWhile isdigit = [] := by
        rw [List.takeWhile_cons, hd, if_neg Bool.false_ne_true]
      show ((expect 44 ((d :: (g' ++ y)).dropWhile isdigit)).bind fun s =>
        (expect 93 (s.dropWhile isdigit)).bind fun rest =>
          if (d :: (g' ++ y)).takeWhile isdigit ≠ [] ∧ s.takeWhile isdigit ≠ [] then
            some ((d :: (g' ++ y)).takeWhile isdigit, rest) else none) = none
      simp [htake]
    · simp [expect, hc]

theorem stampsFrom_skip (k : ℕ) (s : Str) : stampsFrom k s = stampsFrom 0 (s.drop k) :=
  scan_skip (fun k => by cases k <;> rfl) (fun _ _ _ => rfl) k s

/-- A text without times has none. -/
theorem stampsFrom_plain {g : Str} (h : NoStamp g) (y : Str) : stampsFrom 0 (g ++ y) = stampsFrom 0 y := by
  induction g with
  | nil => rfl
  | cons c g ih =>
    have hnone := krcTsRegex_plain (y := y) h (List.cons_ne_nil c g)
    rw [List.cons_append] at hnone ⊢
    rw [stampsFrom, hnone]
    exact ih h.tail

/-! ## Documents -/

/-- A line of the lyrics: its time, its duration and what is behind them, the line's end too. -/
structure Line where
  start : Str
  duration : Str
  words : Str
  start_digits : start ≠ [] ∧ ∀ c ∈ start, isdigit c = true
  start_lt : digitsVal start < 6000000
  duration_digits : duration ≠ [] ∧ ∀ c ∈ duration, isdigit c = true
  words_plain : NoStamp words

def Line.time (line : Line) : ℕ := digitsVal line.start

def Line.source (line : Line) : Str := 91 :: (line.start ++ 44 :: (line.duration ++ 93 :: line.words))

/-- A text with the tag of the translations behind its head. -/
structure Document where
  head : Str
  json : Str
  gap : Str
  lines : List Line
  head_plain : NoStamp head
  head_free : ¬ lit "[language:" <:+: head
  json_ne_nil : json ≠ []
  gap_plain : NoStamp gap

namespace Document

def code (doc : Document) : Str := Base64.encode doc.json

def text (doc : Document) : Str :=
  doc.head ++ (lit "[language:" ++ (doc.code ++ 93 :: (doc.gap ++ doc.lines.flatMap Line.source)))

end Document

theorem krcTsRegex_source (line : Line) (y : Str) :
    krcTsRegex (line.source ++ y) = some (line.start, line.words ++ y) := by
  obtain ⟨hstart, hstart'⟩ := takeWhile_digits line.start_digits.2 (c := 44) rfl
    (line.duration ++ 93 :: (line.words ++ y))
  obtain ⟨hduration, hduration'⟩ := takeWhile_digits line.duration_digits.2 (c := 93) rfl (line.words ++ y)
  have hsource : line.source ++ y =
      91 :: (line.start ++ 44 :: (line.duration ++ 93 :: (line.words ++ y))) := by
    simp [Line.source]
  rw [hsource]
  simp only [krcTsRegex, expect, if_true, Option.bind_eq_bind, Option.bind_some, hstart, hstart', hduration, hduration']
  rw [if_pos ⟨line.start_digits.1, line.duration_digits.1⟩]

theorem stampsFrom_source (line : Line) (y : Str) :
    stampsFrom 0 (line.source ++ y) = line.start :: stampsFrom 0 y := by
  have hread := krcTsRegex_source line y
  have hsource : line.source ++ y =
      91 :: (line.start ++ 44 :: (line.duration ++ 93 :: (line.words ++ y))) := by
    simp [Line.source]
  rw [hsource] at hread ⊢
  rw [stampsFrom, hread]
  dsimp only
  rw [stampsFrom_skip]
  have hdrop : (line.start ++ 44 :: (line.duration ++ 93 :: (line.words ++ y))).drop
      ((line.start ++ 44 :: (line.duration ++ 93 :: (line.words ++ y))).length - (line.words ++ y).length) =
      line.words ++ y := by
    have hsplit : line.start ++ 44 :: (line.duration ++ 93 :: (line.words ++ y)) =
        (line.start ++ 44 :: (line.duration ++ [93])) ++ (line.words ++ y) := by simp
    rw [hsplit, List.length_append, Nat.add_sub_cancel_right, List.drop_left]
  rw [hdrop, stampsFrom_plain line.words_plain]

theorem stampsFrom_lines (lines : List Line) : stampsFrom 0 (lines.flatMap Line.source) = lines.map Line.start := by
  induction lines with
  | nil => rfl
  | cons line lines ih => rw [List.flatMap_cons, stampsFrom_source, ih, List.map_cons]

/-- The code has no bracket. -/
theorem code_plain (doc : Document) : 91 ∉ doc.code ∧ 93 ∉ doc.code := by
  constructor
  · intro h
    exact absurd (Base64.mem_encode doc.json 91 h) (by decide)
  · intro h
    exact absurd (Base64.mem_encode doc.json 93 h) (by decide)

/-- The times of a document are those of its lines. -/
theorem stamps_document (doc : Document) :
    (stampsFrom 0 doc.text).mapM stampOf = .ok (doc.lines.map fun line => (line.time : ℤ)) := by
  have hplain : NoStamp (doc.head ++ (lit "[language:" ++ (doc.code ++ 93 :: doc.gap))) := by
    refine doc.head_plain.append (NoStamp.append ?_ (NoStamp.append ?_ ?_))
    · exact noStamp_bracket rfl (by decide)
    · exact noStamp_of_notMem (code_plain doc).1
    · exact (noStamp_of_notMem (s := [93]) (by decide)).append doc.gap_plain
  have hsplit : doc.text = (doc.head ++ (lit "[language:" ++ (doc.code ++ 93 :: doc.gap))) ++
      doc.lines.flatMap Line.source := by
    simp [Document.text]
  have hstamp : ∀ line : Line, stampOf line.start = .ok (line.time : ℤ) := by
    intro line
    have hread := stoll_digits line.start_digits.2 line.start_digits.1
    have hlt := line.start_lt
    rw [if_pos (by omega)] at hread
    rw [stampOf, hread]
    rfl
  rw [hsplit, stampsFrom_plain hplain, stampsFrom_lines, List.mapM_map]
  exact Except.mapM_ok fun line _ => hstamp line

/-! ## The choice -/

theorem ratio_nonneg (transLines : List Str) : 0 ≤ ratio transLines := by
  unfold ratio
  dsimp only
  split_ifs
  · positivity
  · exact le_refl 0

/-- The lines with the largest share, the first of them, where it is more than a hundredth. -/
theorem bestLines_eq (allTransLines : List (List Str)) :
    bestLines allTransLines = (allTransLines.argmax ratio).filter (1 / 100 < ratio ·) := by
  -- the loop has the lines that the maximum has, as soon as their share is positive
  have key : ∀ (ds : List (List Str)) (best : ℚ × Option (List Str)) (top : Option (List Str)),
      best.1 = (top.map ratio).getD 0 → (0 < best.1 → best.2 = top) →
        (ds.foldl compareRatio best).1 = ((ds.foldl (List.argAux fun b c => ratio c < ratio b) top).map ratio).getD 0 ∧
          (0 < (ds.foldl compareRatio best).1 → (ds.foldl compareRatio best).2 =
            ds.foldl (List.argAux fun b c => ratio c < ratio b) top) := by
    intro ds
    induction ds with
    | nil => exact fun best top hratio hlines => ⟨hratio, hlines⟩
    | cons d ds ih =>
      intro best top hratio hlines
      rw [List.foldl_cons, List.foldl_cons]
      have hnonneg := ratio_nonneg d
      cases top with
      | none =>
        have hzero : best.1 = 0 := hratio
        by_cases hlt : best.1 < ratio d
        · exact ih _ _ (by simp [compareRatio, List.argAux, hlt]) (by simp [compareRatio, List.argAux, hlt])
        · have hd : ratio d = 0 := le_antisymm (hzero ▸ not_lt.1 hlt) hnonneg
          have hskip : compareRatio best d = best := if_neg hlt
          rw [hskip]
          refine ih _ _ (by simp [List.argAux, hd, hzero]) fun hpos => ?_
          rw [hzero] at hpos
          exact absurd hpos (lt_irrefl 0)
      | some e =>
        have he : best.1 = ratio e := hratio
        by_cases hlt : ratio e < ratio d
        · exact ih _ _ (by simp [compareRatio, List.argAux, he, hlt]) (by simp [compareRatio, List.argAux, he, hlt])
        · refine ih _ _ (by simp [compareRatio, List.argAux, he, hlt]) ?_
          simpa [compareRatio, List.argAux, he, hlt] using hlines
  obtain ⟨hratio, hlines⟩ := key allTransLines (0, none) none rfl fun h => absurd h (lt_irrefl 0)
  rw [bestLines]
  have hargmax : allTransLines.foldl (List.argAux fun b c => ratio c < ratio b) none = allTransLines.argmax ratio := rfl
  rw [hargmax] at hratio hlines
  split_ifs with h
  · rw [hlines (lt_trans (by norm_num) h)]
    rw [hratio] at h
    cases hmax : allTransLines.argmax ratio with
    | none => rfl
    | some e =>
      rw [hmax, Option.map_some, Option.getD_some] at h
      exact (if_pos (decide_eq_true h)).symm
  · rw [hratio] at h
    cases hmax : allTransLines.argmax ratio with
    | none => rfl
    | some e =>
      rw [hmax, Option.map_some, Option.getD_some] at h
      exact (if_neg fun hlt => h (of_decide_eq_true hlt)).symm

/-! ## What is read of it -/

theorem setw_two {n : ℕ} (h : n < 100) : setw 2 (dec n) = pad2 n := by
  interval_cases n <;> rfl

theorem stampTag_eq {ms : ℕ} (h : ms < 6000000) : stampTag ms = tagOf ms := by
  have hmin : int32 ((ms : ℤ).tdiv 60000) = (ms / 60000 : ℕ) := by
    rw [Int.tdiv_eq_ediv_of_nonneg (by omega)]
    exact int32_of_isInt32 ⟨by omega, by omega⟩
  have hsec : int32 (((ms : ℤ).tmod 60000).tdiv 1000) = (ms % 60000 / 1000 : ℕ) := by
    rw [Int.tmod_eq_emod_of_nonneg (by omega), Int.tdiv_eq_ediv_of_nonneg (by omega)]
    exact int32_of_isInt32 ⟨by omega, by omega⟩
  have hcs : int32 (((ms : ℤ).tmod 1000).tdiv 10) = (ms % 1000 / 10 : ℕ) := by
    rw [Int.tmod_eq_emod_of_nonneg (by omega), Int.tdiv_eq_ediv_of_nonneg (by omega)]
    exact int32_of_isInt32 ⟨by omega, by omega⟩
  rw [stampTag, hmin, hsec, hcs, tagOf, ← setw_two (n := ms / 60000) (by omega),
    ← setw_two (n := ms % 60000 / 1000) (by omega), ← setw_two (n := ms % 1000 / 10) (by omega)]
  rfl

theorem lrcLine_tagOf {ms : ℕ} (h : ms < 6000000) (text : Str) :
    lrcLine (tagOf ms ++ text) = some (ms / 10 * 10, trimBlanks text) := by
  have hmin : (pad2 (ms / 60000)).length = 2 := length_pad2 (by omega)
  have hsec : (pad2 (ms % 60000 / 1000)).length = 2 := length_pad2 (by omega)
  have hcs : (pad2 (ms % 1000 / 10)).length = 2 := length_pad2 (by omega)
  have hread := readTag_text (timeTag ms).min_digits.2 (timeTag ms).sec_digits.2 (timeTag ms).ms_digits.2 text
  have heq : tagOf ms ++ text = 91 :: ((timeTag ms).min ++ 58 :: ((timeTag ms).sec ++ 46 :: ((timeTag ms).ms ++ 93 :: text))) := by
    simp [tagOf, timeTag]
  rw [heq, lrcLine, hread]
  simp only [timeTag, Option.bind_eq_bind, Option.bind_some, hmin, hsec, hcs, digitsVal_pad2]
  rw [if_pos ⟨trivial, trivial, Or.inl trivial⟩, if_pos trivial]
  refine congrArg some (Prod.ext ?_ rfl)
  show ms / 60000 * 60000 + ms % 60000 / 1000 * 1000 + ms % 1000 / 10 * 10 = ms / 10 * 10
  omega

theorem reads_tagOf {ms : ℕ} (h : ms < 6000000) : ReadsAs (tagOf ms) (ms / 10 * 10) where
  newline := newline_notMem_tagOf ms
  cr := by
    have hpad : ∀ n, 13 ∉ pad2 n := fun n => notMem_digits rfl (pad2_digits n).2
    simp [tagOf, hpad]
  read := lrcLine_tagOf h

/-- The lines that are written, with the line of the lyrics by which they stand. -/
def shown (lines : List Line) (transLines : List Str) : List (Str × Line) :=
  (transLines.zip lines).filter fun p => !isEmptyLine p.1

theorem transLrc_eq (transLines : List Str) (lines : List Line) :
    transLrc transLines (lines.map fun line => (line.time : ℤ)) =
      ((shown lines transLines).map fun p => tagOf p.2.time ++ p.1).flatMap (· ++ [10]) := by
  induction transLines generalizing lines with
  | nil => rfl
  | cons tl transLines ih =>
    cases lines with
    | nil => rfl
    | cons line lines =>
      have hcons : shown (line :: lines) (tl :: transLines) =
          if isEmptyLine tl then shown lines transLines else (tl, line) :: shown lines transLines := by
        rw [shown, List.zip_cons_cons, List.filter_cons]
        cases isEmptyLine tl <;> rfl
      have htag : stampTag (line.time : ℤ) = tagOf line.time := stampTag_eq line.start_lt
      rw [List.map_cons, transLrc, ih, hcons, htag]
      cases isEmptyLine tl <;> simp

/-- The merger reads them at the times of their lines, to the centisecond. -/
theorem timedLines_transLrc {transLines : List Str} (h : ∀ tl ∈ transLines, 10 ∉ tl) (lines : List Line) :
    timedLines (transLrc transLines (lines.map fun line => (line.time : ℤ))) =
      (shown lines transLines).map fun p => (p.2.time / 10 * 10, plainText p.1) := by
  rw [transLrc_eq]
  refine (timedLines_written (shown lines transLines) (fun p => tagOf p.2.time) Prod.fst (fun p => p.2.time / 10 * 10)
    (fun p _ => reads_tagOf p.2.start_lt) fun p hp => ?_).2
  exact h p.1 (List.of_mem_zip (List.mem_of_mem_filter hp)).1

/-! ## The whole file -/

/-- The tag of the translations is found behind the head. -/
theorem find_language (doc : Document) : find (lit "[language:") doc.text = some doc.head.length := by
  have hsplit : doc.text = (doc.head ++ lit "[language") ++ 58 ::
      (doc.code ++ 93 :: (doc.gap ++ doc.lines.flatMap Line.source)) := by
    have hlit : lit "[language:" = lit "[language" ++ [58] := by rfl
    rw [Document.text, hlit, List.append_assoc, List.append_assoc]
    rfl
  have hfree : ¬ (lit "[language" ++ [58]) <:+: doc.head ++ lit "[language" :=
    not_infix_append doc.head_free (by decide)
  have hfind := find_ending hfree (List.suffix_append _ _)
    (doc.code ++ 93 :: (doc.gap ++ doc.lines.flatMap Line.source))
  rw [List.length_append, Nat.add_sub_cancel_right] at hfind
  rw [hsplit]
  exact hfind

/-- What is read of the tag, where the translation can be read. -/
theorem languageTag_code {doc : Document} {parse : Str → Except Exn JsonValue} {krcTimestamps : List ℤ}
    {outTranslation : Str} (h : translationOf parse doc.json krcTimestamps = .ok outTranslation) (y : Str) :
    languageTag parse (doc.code ++ 93 :: y) krcTimestamps = outTranslation := by
  have hdecode : base64Decode doc.code = doc.json := by
    refine base64Decode_eq (List.filter_eq_self.2 fun c hc => ?_)
    rw [Base64.encode_no_space doc.json c hc]
    rfl
  rw [languageTag, find_byte (code_plain doc).2]
  dsimp only
  rw [List.take_left, hdecode, if_neg doc.json_ne_nil, h]

/-- **The translation of a KRC file.**  From a document that is compressed and put under the key, the
    head is read and the translation with the most Chinese; the merger reads each of its lines at the
    time of the line by which it stands. -/
theorem decryptKRC_document (doc : Document) {uncompress : Str → ℕ → Option Str} {compressed : Str}
    {parse : Str → Except Exn JsonValue} {langData : JsonValue} {items : List JsonValue}
    {found : List (Option (List Str))} {transLines : List Str}
    (hlen : 4 ≤ compressed.length) (huncompress : uncompress compressed (compressed.length * 10) = some doc.text)
    (hparse : parse doc.json = .ok langData) (hcontent : langData.find? "content" = some (.arr items))
    (hfound : items.mapM transLinesOf = .ok found) (hbest : (found.filterMap id).argmax ratio = some transLines)
    (hratio : 1 / 100 < ratio transLines) (hplain : ∀ tl ∈ transLines, 10 ∉ tl) :
    ∃ outTranslation, decryptKRC parse uncompress (lit "krc1" ++ xorFrom 0 compressed) =
        .ok (some (doc.head, outTranslation)) ∧
      timedLines outTranslation = (shown doc.lines transLines).map fun p => (p.2.time / 10 * 10, plainText p.1) := by
  refine ⟨transLrc transLines (doc.lines.map fun line => (line.time : ℤ)), ?_, timedLines_transLrc hplain doc.lines⟩
  have hsize : ¬ (lit "krc1" ++ xorFrom 0 compressed).length < 8 := by
    have hfour : (lit "krc1").length = 4 := rfl
    rw [List.length_append, length_xorFrom, hfour]
    omega
  have hmagic : (lit "krc1" ++ xorFrom 0 compressed).take 4 = lit "krc1" := rfl
  have hrest : (lit "krc1" ++ xorFrom 0 compressed).drop 4 = xorFrom 0 compressed := rfl
  have hlang : translationOf parse doc.json (doc.lines.map fun line => (line.time : ℤ)) =
      .ok (transLrc transLines (doc.lines.map fun line => (line.time : ℤ))) := by
    have hchosen : bestLines (found.filterMap id) = some transLines := by
      rw [bestLines_eq, hbest]
      exact Option.filter_some_pos (decide_eq_true hratio)
    refine Except.bind_eq_ok.2 ⟨langData, hparse, Except.bind_eq_ok.2 ⟨_, JsonValue.member_of_find? hcontent,
      Except.bind_eq_ok.2 ⟨items, rfl, Except.bind_eq_ok.2 ⟨found, hfound, ?_⟩⟩⟩⟩
    rw [hchosen]
    rfl
  rw [decryptKRC, if_neg hsize, if_neg (not_not.2 hmagic), hrest]
  dsimp only
  rw [xorFrom_xorFrom, huncompress]
  refine Except.bind_eq_ok.2 ⟨_, stamps_document doc, ?_⟩
  rw [find_language]
  have htake : doc.text.take doc.head.length = doc.head := List.take_left
  have hdrop : doc.text.drop (doc.head.length + 10) =
      doc.code ++ 93 :: (doc.gap ++ doc.lines.flatMap Line.source) := by
    rw [← List.drop_drop, Document.text, List.drop_left]
    rfl
  show Except.ok (some (_, _)) = _
  rw [htake, hdrop, languageTag_code hlang]

/-- Two lines, the second without a translation. -/
def twoLines : Document where
  head := lit "[ti:a]\n"
  json := lit "\x7b\"content\":[\x7b\"lyricContent\":[[\"你\",\"好\"],[\" \"]]\x7d]\x7d"
  gap := lit "\n"
  lines := [⟨lit "1234", lit "500", lit "<0,500,0>hi\n", digits_of_all (by decide), by decide,
      digits_of_all (by decide), noStamp_of_notMem (by decide)⟩,
    ⟨lit "2000", lit "500", lit "<0,500,0>yo\n", digits_of_all (by decide), by decide,
      digits_of_all (by decide), noStamp_of_notMem (by decide)⟩]
  head_plain := noStamp_bracket rfl (by decide)
  head_free := by decide
  json_ne_nil := by decide
  gap_plain := noStamp_of_notMem (by decide)

/-- Its translations. -/
def twoLinesData : JsonValue :=
  .obj [("content", .arr [.obj [("lyricContent", .arr [.arr [.str "你".toList, .str "好".toList], .arr [.str " ".toList]])]])]

/-- `compress2` of its text at level 0: one stored block. -/
def stored (text adler : Str) : Str :=
  [120, 1, 1] ++ [(text.length % 256).toUInt8, (text.length / 256).toUInt8] ++
    [(255 - text.length % 256).toUInt8, (255 - text.length / 256).toUInt8] ++ text ++ adler

/-- `uncompress` of that block. -/
def inflate (text adler : Str) (s : Str) (_ : ℕ) : Option Str := if s = stored text adler then some text else none

theorem twoLines_translated :
    ∃ outTranslation, decryptKRC (fun _ => .ok twoLinesData) (inflate twoLines.text [3, 136, 41, 80])
        (lit "krc1" ++ xorFrom 0 (stored twoLines.text [3, 136, 41, 80])) = .ok (some (twoLines.head, outTranslation)) ∧
      timedLines outTranslation =
        (shown twoLines.lines [lit "你好", lit " "]).map fun p => (p.2.time / 10 * 10, plainText p.1) := by
  have hsize : 4 ≤ (stored twoLines.text [3, 136, 41, 80]).length := by
    simp [stored]
  have hmax : ([some [lit "你好", lit " "]].filterMap id).argmax ratio = some [lit "你好", lit " "] := rfl
  exact decryptKRC_document twoLines hsize (if_pos rfl) rfl rfl rfl hmax (by decide +kernel) (by decide)

end NarMusic.KugouProvider
