/-
  The lyrics of the web player (src/web/app/modules/lyrics.js): `parseLrcLyrics`.

  A time is an exact number of seconds here; the program computes it in floating
  point.
-/
import NarMusic.Web.Text
import Mathlib.Data.List.Sort
import Mathlib.Data.Rat.Floor

namespace NarMusic.Web.Lyrics

open Cxx

/-- A match of `\[(\d+):(\d+\.?\d*)\]` at the start of a text: its groups and what follows.  No
    symbol behind a run of digits is a digit, so each run is as long as it can be. -/
def timeRegex (s : Text) : Option (Text × Text × Text) :=
  match s with
  | '[' :: s =>
    let min := s.takeWhile Char.isDigit
    match s.dropWhile Char.isDigit with
    | ':' :: s =>
      let sec := s.takeWhile Char.isDigit
      let s := s.dropWhile Char.isDigit
      let frac := if s.head? = some '.' then '.' :: s.tail.takeWhile Char.isDigit else []
      match s.drop frac.length with
      | ']' :: rest => if min ≠ [] ∧ sec ≠ [] then some (min, sec ++ frac, rest) else none
      | _ => none
    | _ => none
  | _ => none

/-- `[...line.matchAll(timeRegex)]`: the groups of the matches; the characters of a match are
    skipped. -/
def matchAll : ℕ → Text → List (Text × Text)
  | _, [] => []
  | skip + 1, _ :: s => matchAll skip s
  | 0, c :: s =>
    match timeRegex (c :: s) with
    | none => matchAll 0 s
    | some (min, sec, rest) => (min, sec) :: matchAll (s.length - rest.length) s

/-- `line.replace(timeRegex, '')` -/
def removeAll : ℕ → Text → Text
  | _, [] => []
  | skip + 1, _ :: s => removeAll skip s
  | 0, c :: s =>
    match timeRegex (c :: s) with
    | none => c :: removeAll 0 s
    | some (_, _, rest) => removeAll (s.length - rest.length) s

/-- The value of decimal digits. -/
def digitsValue (ds : Text) : ℕ := ds.foldl (fun v d => 10 * v + (d.toNat - 48)) 0

/-- `parseFloat` of digits, with a point and more digits behind them or not. -/
def parseFloat (s : Text) : ℚ :=
  let frac := (s.dropWhile Char.isDigit).tail.takeWhile Char.isDigit
  digitsValue (s.takeWhile Char.isDigit) + digitsValue frac / 10 ^ frac.length

structure LyricLine where
  time : ℚ
  text : Text

/-- One turn of the loop over the lines. -/
def lineLyrics (line : Text) : List LyricLine :=
  let text := trim (removeAll 0 line)
  if text = [] then []
  else (matchAll 0 line).map fun m => { time := parseFloat m.1 * 60 + parseFloat m.2, text }

def parseLrcLyrics (lrcText : Text) : List LyricLine :=
  ((split ['\n'] lrcText).flatMap lineLyrics).insertionSort (·.time ≤ ·.time)

theorem mem_parseLrcLyrics {lrcText : Text} {e : LyricLine} :
    e ∈ parseLrcLyrics lrcText ↔ ∃ line ∈ split ['\n'] lrcText, e ∈ lineLyrics line := by
  rw [parseLrcLyrics, List.mem_insertionSort, List.mem_flatMap]

end NarMusic.Web.Lyrics
