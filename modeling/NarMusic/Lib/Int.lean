/-
  `int` arithmetic: the value of an expression, wrapped around in 32 bits.
-/
import Mathlib.Tactic.Common
import Mathlib.Algebra.Ring.Int.Defs
import Mathlib.Algebra.Ring.Nat
import NarMusic.Lib.Bytes

namespace Cxx

/-- `n` is a value of type `int`. -/
def IsInt32 (n : ℤ) : Prop := -2 ^ 31 ≤ n ∧ n < 2 ^ 31

instance (n : ℤ) : Decidable (IsInt32 n) := inferInstanceAs (Decidable (_ ∧ _))

/-- `std::stoi(s)`, `none` when it throws. -/
def stoi (s : Str) : Option ℤ := (stoll s).filter fun n => IsInt32 n

/-- What an `int` holds when an expression of value `n` is stored in it. -/
def int32 (n : ℤ) : ℤ := n.bmod (2 ^ 32)

theorem int32_of_isInt32 {n : ℤ} (h : IsInt32 n) : int32 n = n :=
  Int.bmod_eq_of_le h.1 h.2

theorem int32_eq_iff {m n : ℤ} : int32 m = int32 n ↔ 2 ^ 32 ∣ n - m := by
  unfold int32
  rw [eq_comm, Int.bmod_eq_bmod_iff_bmod_sub_eq_zero, ← Int.dvd_iff_bmod_eq_zero]
  rfl

/-- The double of an `int` from `2 ^ 30` on is negative. -/
theorem int32_double {n : ℤ} (h : 2 ^ 30 ≤ n) (h' : n < 2 ^ 31) : int32 (n * 2) = n * 2 - 2 ^ 32 := by
  have hshift : int32 (n * 2) = int32 (n * 2 - 2 ^ 32) := (Int.sub_bmod_right _ (2 ^ 32)).symm
  rw [hshift]
  exact int32_of_isInt32 ⟨by omega, by omega⟩

/-- The `n` bits of a word from bit `k` on, read by an arithmetic shift and a mask. -/
theorem toNat_field (v : BitVec 32) {k n : ℕ} (h : k + n ≤ 32) :
    (v.sshiftRight k &&& BitVec.ofNat 32 (2 ^ n - 1)).toNat = v.toNat / 2 ^ k % 2 ^ n := by
  apply Nat.eq_of_testBit_eq
  intro i
  have hmask : (2 ^ n - 1) % 2 ^ 32 = 2 ^ n - 1 := by
    have hle : 2 ^ n ≤ 2 ^ 32 := Nat.pow_le_pow_right (by omega) (by omega)
    have hpos : 0 < 2 ^ n := Nat.two_pow_pos n
    exact Nat.mod_eq_of_lt (by omega)
  rw [BitVec.toNat_and, BitVec.toNat_ofNat, hmask, Nat.and_two_pow_sub_one_eq_mod,
    Nat.testBit_mod_two_pow, Nat.testBit_mod_two_pow, Nat.testBit_div_two_pow]
  by_cases hi : i < n
  · have hlow : k + i < 32 := by omega
    simp only [hi, decide_true, Bool.true_and]
    rw [BitVec.testBit_toNat, BitVec.getLsbD_sshiftRight, BitVec.testBit_toNat]
    simp [hlow, Nat.add_comm]
    omega
  · simp [hi]

end Cxx
