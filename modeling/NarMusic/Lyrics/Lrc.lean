/-
  Time tags of lyrics (lyrics_aggregator.cpp): the tags that the regular
  expressions find, `adjustLyricsTiming` and `cleanLyrics`.
-/
import NarMusic.Lib.Bytes
import NarMusic.Lib.Int
import Mathlib.Data.List.DropRight

namespace NarMusic.LyricsAggregator

open Cxx

/-- `[min:sec.ms]` at the start of a text, and what follows it. -/
structure Tag where
  min : Str
  sec : Str
  ms : Str
  rest : Str

/-- One byte of a pattern. -/
def expect (c : Byte) : Str → Option Str
  | [] => none
  | d :: s => if d = c then some s else none

/-- `\[(\d*):(\d*)\.(\d*)\]`: no separator is a digit, so each group is the longest run of digits
    there, whatever number of digits the regular expression asks for. -/
def readTag (s : Str) : Option Tag := do
  let s ← expect 91 s
  let min := s.takeWhile isdigit
  let s ← expect 58 (s.dropWhile isdigit)
  let sec := s.takeWhile isdigit
  let s ← expect 46 (s.dropWhile isdigit)
  let ms := s.takeWhile isdigit
  let rest ← expect 93 (s.dropWhile isdigit)
  return { min, sec, ms, rest }

theorem expect_eq_some {c : Byte} {s t : Str} : expect c s = some t ↔ s = c :: t := by
  cases s with
  | nil => simp [expect]
  | cons d s => simp [expect]

theorem readTag_rest {s : Str} {tag : Tag} (h : readTag s = some tag) : tag.rest <:+ s := by
  have hdrop : ∀ {a b : Str} {c : Byte}, expect c (a.dropWhile isdigit) = some b → b <:+ a :=
    fun h => (List.suffix_cons _ _).trans (expect_eq_some.1 h ▸ List.dropWhile_suffix _)
  obtain ⟨s1, h1, h⟩ := Option.bind_eq_some_iff.1 h
  obtain ⟨s2, h2, h⟩ := Option.bind_eq_some_iff.1 h
  obtain ⟨s3, h3, h⟩ := Option.bind_eq_some_iff.1 h
  obtain ⟨s4, h4, h⟩ := Option.bind_eq_some_iff.1 h
  obtain rfl := Option.some.inj h
  exact (((hdrop h4).trans (hdrop h3)).trans (hdrop h2)).trans
    (expect_eq_some.1 h1 ▸ List.suffix_cons _ _)

/-- `\[(\d+):(\d+)\.(\d+)\]` -/
def timeRegex (s : Str) : Option Tag := do
  let tag ← readTag s
  if tag.min ≠ [] ∧ tag.sec ≠ [] ∧ tag.ms ≠ [] then some tag else none

/-- `std::stoi` of digits. -/
def stoi (ds : Str) : Except Exn ℤ := if digitsVal ds < 2 ^ 31 then .ok (digitsVal ds) else .error .outOfRange

/-- `[mm:ss.xx]`: the tag of a time, to the centisecond. -/
def tagOf (ms : ℕ) : Str :=
  [91] ++ pad2 (ms / 60000) ++ [58] ++ pad2 (ms % 60000 / 1000) ++ [46] ++ pad2 (ms % 1000 / 10) ++ [93]

/-- The tag that replaces a match: the sum is an `int`, and a time before zero becomes zero. -/
def shiftTag (offsetMs : ℤ) (tag : Tag) : Except Exn Str := do
  let min ← stoi tag.min
  let sec ← stoi tag.sec
  let ms ← stoi tag.ms
  let ms := if tag.ms.length = 2 then ms * 10 else ms
  return tagOf (int32 ((min * 60 + sec) * 1000 + ms + offsetMs)).toNat

/-- The text from a position on, with its tags shifted; the bytes of a match are skipped. -/
def shiftFrom (offsetMs : ℤ) : ℕ → Str → Except Exn Str
  | _, [] => .ok []
  | skip + 1, _ :: s => shiftFrom offsetMs skip s
  | 0, c :: s =>
    match timeRegex (c :: s) with
    | none => return c :: (← shiftFrom offsetMs 0 s)
    | some tag => return (← shiftTag offsetMs tag) ++ (← shiftFrom offsetMs (s.length - tag.rest.length) s)

def adjustLyricsTiming (lyrics : Str) (offsetMs : ℤ) : Except Exn Str :=
  if offsetMs = 0 ∨ lyrics = [] then .ok lyrics else shiftFrom offsetMs 0 lyrics

/-- `\[\d+:\d+\.\d+\]\s*\n`: what follows the match, which ends at the last newline of the blanks
    behind the tag. -/
def emptyLine (s : Str) : Option Str := do
  let tag ← timeRegex s
  let blanks := (tag.rest.takeWhile isspace).rdropWhile (· ≠ 10)
  if blanks = [] then none else some (tag.rest.drop blanks.length)

/-- The text from a position on, without its empty tag lines. -/
def cleanFrom : ℕ → Str → Str
  | _, [] => []
  | skip + 1, _ :: s => cleanFrom skip s
  | 0, c :: s =>
    match emptyLine (c :: s) with
    | none => c :: cleanFrom 0 s
    | some rest => cleanFrom (s.length - rest.length) s

def cleanLyrics (lyrics : Str) : Str := cleanFrom 0 lyrics

end NarMusic.LyricsAggregator
