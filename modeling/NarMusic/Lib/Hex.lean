/-
  Hexadecimal digits, and the formatted extraction of an `int` in hexadecimal
  (`stream << std::hex << s; stream >> n`).
-/
import NarMusic.Lib.Bytes

namespace Cxx

def isxdigit (c : Byte) : Bool := isdigit c || (65 ≤ c && c ≤ 70) || (97 ≤ c && c ≤ 102)

/-- The digit of a number below 16, with small letters. -/
def hexDigit (n : Byte) : Byte := if n < 10 then 48 + n else 87 + n

/-- The value of a hexadecimal digit. -/
def hexVal (c : Byte) : ℕ :=
  if isdigit c then c.toNat - 48 else if c ≤ 70 then c.toNat - 55 else c.toNat - 87

/-- The value of hexadecimal digits. -/
def hexDigitsVal (ds : Str) : ℕ := ds.foldl (fun v d => 16 * v + hexVal d) 0

/-- The number read from a text that is too short to overflow and for a prefix `0x`: blanks and
    a sign are read, then the longest run of digits, and without a digit it is 0.  Where the
    text ends before a number, nothing is written and the variable stays what it was. -/
def readHex (before : ℤ) (s : Str) : ℤ :=
  match s.dropWhile isspace with
  | [] => before
  | c :: t =>
    let n : ℤ := hexDigitsVal ((if c = 45 ∨ c = 43 then t else c :: t).takeWhile isxdigit)
    if c = 45 then -n else n

/-! ## The two digits of a byte -/

theorem nibbles (b : Byte) : b / 16 < 16 ∧ b % 16 < 16 := by
  have hb := b.toNat_lt
  rw [UInt8.lt_iff_toNat_lt, UInt8.lt_iff_toNat_lt, UInt8.toNat_div, UInt8.toNat_mod]
  simp only [UInt8.reduceToNat]
  omega

theorem nibbles_join (b : Byte) : (b / 16).toNat * 16 + (b % 16).toNat = b.toNat := by
  rw [UInt8.toNat_div, UInt8.toNat_mod]
  exact Nat.div_add_mod' _ _

/-! ## Reading them -/

theorem ofInt_natCast (n : ℕ) : UInt8.ofInt (n : ℤ) = UInt8.ofNat n := by
  rw [← UInt8.toNat_inj, UInt8.toNat_ofNat']
  simp [UInt8.ofInt]
  omega

theorem isxdigit_plain {c : Byte} (h : isxdigit c = true) :
    isspace c = false ∧ c ≠ 45 ∧ c ≠ 43 ∧ c ≠ 37 := by
  simp only [isxdigit, isdigit, isspace, Bool.or_eq_true, Bool.and_eq_true, decide_eq_true_eq,
    UInt8.le_iff_toNat_le, Bool.or_eq_false_iff, Bool.and_eq_false_iff, decide_eq_false_iff_not, ne_eq,
    ← UInt8.toNat_inj] at h ⊢
  simp only [UInt8.reduceToNat] at h ⊢
  omega

theorem hexVal_lt {c : Byte} (h : isxdigit c = true) : hexVal c < 16 := by
  simp only [isxdigit, isdigit, Bool.or_eq_true, Bool.and_eq_true, decide_eq_true_eq,
    UInt8.le_iff_toNat_le, UInt8.reduceToNat] at h
  simp only [hexVal, isdigit, Bool.and_eq_true, decide_eq_true_eq, UInt8.le_iff_toNat_le,
    UInt8.reduceToNat]
  split_ifs <;> omega

theorem readHex_two (before : ℤ) {a b : Byte} (ha : isxdigit a = true) (hb : isxdigit b = true) :
    readHex before [a, b] = (16 * hexVal a + hexVal b : ℕ) := by
  obtain ⟨h1, h2, h3, -⟩ := isxdigit_plain ha
  have hdrop : [a, b].dropWhile isspace = [a, b] := by simp [h1]
  have htake : [a, b].takeWhile isxdigit = [a, b] := by simp [ha, hb]
  unfold readHex
  rw [hdrop]
  dsimp only
  rw [if_neg (not_or.2 ⟨h2, h3⟩), if_neg h2, htake]
  simp [hexDigitsVal]

/-- At most one digit. -/
theorem readHex_small (before : ℤ) {a b : Byte} (h : ¬ (isxdigit a = true ∧ isxdigit b = true))
    (hspace : ¬ (isspace a = true ∧ isspace b = true)) :
    -16 < readHex before [a, b] ∧ readHex before [a, b] < 16 := by
  have hone : ∀ c : Byte, hexDigitsVal ([c].takeWhile isxdigit) < 16 := by
    intro c
    by_cases hc : isxdigit c = true
    · simpa [hc, hexDigitsVal] using hexVal_lt hc
    · simp [hc, hexDigitsVal]
  have hshort : ∀ (c : Byte) (t : Str), (isxdigit c = true → t.takeWhile isxdigit = []) →
      hexDigitsVal ((c :: t).takeWhile isxdigit) < 16 := by
    intro c t ht
    by_cases hc : isxdigit c = true
    · simpa [hc, ht hc, hexDigitsVal] using hexVal_lt hc
    · simp [hc, hexDigitsVal]
  have hbound : ∀ (c : Byte) (n : ℕ), n < 16 →
      -16 < (if c = 45 then -(n : ℤ) else n) ∧ (if c = 45 then -(n : ℤ) else n) < 16 := by
    intro c n hn
    split_ifs <;> omega
  unfold readHex
  by_cases ha : isspace a = true
  · have hb : isspace b = false := by
      rw [← Bool.not_eq_true]
      exact fun hb => hspace ⟨ha, hb⟩
    have hdrop : [a, b].dropWhile isspace = [b] := by simp [ha, hb]
    rw [hdrop]
    refine hbound b _ ?_
    split_ifs
    · simp [hexDigitsVal]
    · exact hone b
  · have hdrop : [a, b].dropWhile isspace = [a, b] := by simp [ha]
    rw [hdrop]
    refine hbound a _ ?_
    split_ifs
    · exact hone b
    · refine hshort a [b] fun hdigit => ?_
      have hb : ¬ isxdigit b = true := fun hb => h ⟨hdigit, hb⟩
      simp [hb]

end Cxx
