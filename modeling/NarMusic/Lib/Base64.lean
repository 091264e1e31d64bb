/-
  The Base64 encoding of RFC 4648, with padding.

  Three bytes are 24 bits, read as four numbers of six bits, each written as a
  character of the alphabet.  A last group of one or two bytes is filled up
  with zero bits to whole characters, and with `=` to four of them.
-/
import NarMusic.Lib.Bytes

namespace Base64

open Cxx

def alphabet : Str := lit "ABCDEFGHIJKLMNOPQRSTUVWXYZabcdefghijklmnopqrstuvwxyz0123456789+/"

def pad : Byte := 61

/-- The character of a number below 64. -/
def symbol (n : ℕ) : Byte := alphabet.getD n 0

/-- The characters of 24 bits. -/
def group (n : ℕ) : Str :=
  [symbol (n / 2 ^ 18 % 64), symbol (n / 2 ^ 12 % 64), symbol (n / 2 ^ 6 % 64), symbol (n % 64)]

def encode : Str → Str
  | a :: b :: c :: s => group (a.toNat * 2 ^ 16 + b.toNat * 2 ^ 8 + c.toNat) ++ encode s
  | [a, b] => (group (a.toNat * 2 ^ 16 + b.toNat * 2 ^ 8)).take 3 ++ [pad]
  | [a] => (group (a.toNat * 2 ^ 16)).take 2 ++ [pad, pad]
  | [] => []

/-! ## The alphabet -/

theorem find_symbol {n : ℕ} (h : n < 64) : find [symbol n] alphabet = some n := by
  have hall : ∀ n < 64, find [symbol n] alphabet = some n := by decide +kernel
  exact hall n h

theorem symbol_plain {n : ℕ} (h : n < 64) : symbol n ≠ pad ∧ isspace (symbol n) = false := by
  have hall : ∀ n < 64, symbol n ≠ pad ∧ isspace (symbol n) = false := by decide +kernel
  exact hall n h

/-! ## The code of a text -/

/-- A code has no white space in it. -/
theorem encode_no_space (s : Str) : ∀ c ∈ encode s, isspace c = false := by
  have hsymbol : ∀ n, isspace (symbol (n % 64)) = false := fun n =>
    (symbol_plain (Nat.mod_lt n (by omega))).2
  have hgroup : ∀ n, ∀ c ∈ group n, isspace c = false := by
    intro n c hc
    simp only [group, List.mem_cons, List.not_mem_nil, or_false] at hc
    rcases hc with rfl | rfl | rfl | rfl <;> exact hsymbol _
  induction s using encode.induct with
  | case1 a b c s ih =>
    intro d hd
    rw [encode, List.mem_append] at hd
    exact hd.elim (hgroup _ d) (ih d)
  | case2 a b =>
    intro d hd
    rw [encode, List.mem_append, List.mem_singleton] at hd
    rcases hd with hd | rfl
    · exact hgroup _ d (List.mem_of_mem_take hd)
    · rfl
  | case3 a =>
    intro d hd
    rw [encode, List.mem_append] at hd
    rcases hd with hd | hd
    · exact hgroup _ d (List.mem_of_mem_take hd)
    · obtain rfl : d = pad := by simpa using hd
      rfl
  | case4 => exact fun d hd => absurd hd List.not_mem_nil

theorem symbol_mem (n : ℕ) : symbol (n % 64) ∈ alphabet := by
  have hlt : n % 64 < alphabet.length := Nat.mod_lt n (by decide)
  rw [symbol, List.getD_eq_getElem?_getD, List.getElem?_eq_getElem hlt]
  exact List.getElem_mem hlt

/-- A code has characters of the alphabet, and the pad. -/
theorem mem_encode (s : Str) : ∀ c ∈ encode s, c ∈ pad :: alphabet := by
  have hgroup : ∀ n, ∀ c ∈ group n, c ∈ pad :: alphabet := by
    intro n c hc
    simp only [group, List.mem_cons, List.not_mem_nil, or_false] at hc
    rcases hc with rfl | rfl | rfl | rfl <;> exact List.mem_cons_of_mem _ (symbol_mem _)
  induction s using encode.induct with
  | case1 a b c s ih =>
    intro d hd
    rw [encode, List.mem_append] at hd
    exact hd.elim (hgroup _ d) (ih d)
  | case2 a b =>
    intro d hd
    rw [encode, List.mem_append, List.mem_singleton] at hd
    rcases hd with hd | rfl
    · exact hgroup _ d (List.mem_of_mem_take hd)
    · exact List.mem_cons_self
  | case3 a =>
    intro d hd
    rw [encode, List.mem_append] at hd
    rcases hd with hd | hd
    · exact hgroup _ d (List.mem_of_mem_take hd)
    · obtain rfl : d = pad := by simpa using hd
      exact List.mem_cons_self
  | case4 => exact fun d hd => absurd hd List.not_mem_nil

end Base64
