/-
  UTF-8: characters to bytes and back.

  `decode` is strict: it refuses overlong forms, surrogates and what is past U+10FFFF,
  as the decoder of the core library does, on which it rests.
-/
import Mathlib.Data.UInt
import Mathlib.Tactic.Common

namespace Utf8

open String (utf8EncodeChar)

/-- The bytes of a text. -/
def encode (cs : List Char) : List UInt8 := cs.flatMap utf8EncodeChar

@[simp] theorem encode_nil : encode [] = [] := rfl

@[simp] theorem encode_cons (c : Char) (cs : List Char) : encode (c :: cs) = utf8EncodeChar c ++ encode cs :=
  List.flatMap_cons

@[simp] theorem encode_append (cs ds : List Char) : encode (cs ++ ds) = encode cs ++ encode ds :=
  List.flatMap_append

/-- The first character, and the bytes behind it. -/
def decodeChar (s : List UInt8) : Option (Char × List UInt8) :=
  (s.toByteArray.utf8DecodeChar? 0).map fun c => (c, s.drop c.utf8Size)

/-- The text of bytes that are UTF-8; there are no more characters than bytes. -/
def decodeAux : ℕ → List UInt8 → Option (List Char)
  | _, [] => some []
  | 0, _ :: _ => none
  | n + 1, s => do
    let (c, rest) ← decodeChar s
    return c :: (← decodeAux n rest)

def decode (s : List UInt8) : Option (List Char) := decodeAux s.length s

theorem decodeChar_encode (c : Char) (s : List UInt8) : decodeChar (utf8EncodeChar c ++ s) = some (c, s) := by
  unfold decodeChar
  rw [List.toByteArray_append, ByteArray.utf8DecodeChar?_utf8EncodeChar_append, Option.map_some,
    ← String.length_utf8EncodeChar, List.drop_left]

theorem decodeAux_encode {cs : List Char} {n : ℕ} (h : (encode cs).length ≤ n) :
    decodeAux n (encode cs) = some cs := by
  induction cs generalizing n with
  | nil => cases n <;> rfl
  | cons c cs ih =>
    have hpos := c.utf8Size_pos
    rw [encode_cons, List.length_append, String.length_utf8EncodeChar] at h
    obtain ⟨n, rfl⟩ : ∃ m, n = m + 1 := ⟨n - 1, by omega⟩
    have hne : utf8EncodeChar c ++ encode cs ≠ [] := by
      simp
    rw [encode_cons, decodeAux, decodeChar_encode]
    · simp [ih (show (encode cs).length ≤ n by omega)]
    · exact hne

/-- **What is encoded is decoded.** -/
theorem decode_encode (cs : List Char) : decode (encode cs) = some cs := decodeAux_encode le_rfl

theorem encode_inj {cs ds : List Char} : encode cs = encode ds ↔ cs = ds := by
  refine ⟨fun h => ?_, congrArg encode⟩
  have hdecode := congrArg decode h
  rw [decode_encode, decode_encode] at hdecode
  exact Option.some.inj hdecode

/-! ## The bytes of a character -/

theorem char_lt (c : Char) : c.toNat < 0x110000 := by
  have hvalid := c.valid
  simp only [UInt32.isValidChar, Nat.isValidChar] at hvalid
  show c.val.toNat < _
  omega

/-- The four forms. -/
theorem encodeChar_cases (c : Char) :
    (c.toNat < 0x80 ∧ utf8EncodeChar c = [.ofNat c.toNat]) ∨
      (0x80 ≤ c.toNat ∧ c.toNat < 0x800 ∧
        utf8EncodeChar c = [.ofNat (c.toNat / 64 + 0xC0), .ofNat (c.toNat % 64 + 0x80)]) ∨
      (0x800 ≤ c.toNat ∧ c.toNat < 0x10000 ∧ utf8EncodeChar c =
        [.ofNat (c.toNat / 4096 + 0xE0), .ofNat (c.toNat / 64 % 64 + 0x80), .ofNat (c.toNat % 64 + 0x80)]) ∨
      (0x10000 ≤ c.toNat ∧ utf8EncodeChar c =
        [.ofNat (c.toNat / 262144 + 0xF0), .ofNat (c.toNat / 4096 % 64 + 0x80),
          .ofNat (c.toNat / 64 % 64 + 0x80), .ofNat (c.toNat % 64 + 0x80)]) := by
  have hmax : c.toNat < 0x110000 := char_lt c
  unfold utf8EncodeChar
  simp only [show c.val.toNat = c.toNat from rfl]
  by_cases h1 : c.toNat ≤ 0x7f
  · exact Or.inl ⟨by omega, if_pos h1⟩
  · by_cases h2 : c.toNat ≤ 0x7ff
    · rw [if_neg h1, if_pos h2, Nat.mod_eq_of_lt (show c.toNat / 64 < 0x20 by omega)]
      exact Or.inr (Or.inl ⟨by omega, by omega, rfl⟩)
    · by_cases h3 : c.toNat ≤ 0xffff
      · rw [if_neg h1, if_neg h2, if_pos h3, Nat.mod_eq_of_lt (show c.toNat / 4096 < 0x10 by omega)]
        exact Or.inr (Or.inr (Or.inl ⟨by omega, by omega, rfl⟩))
      · rw [if_neg h1, if_neg h2, if_neg h3, Nat.mod_eq_of_lt (show c.toNat / 262144 < 0x08 by omega)]
        exact Or.inr (Or.inr (Or.inr ⟨by omega, rfl⟩))

theorem encodeChar_ascii {c : Char} (h : c.toNat < 0x80) : utf8EncodeChar c = [.ofNat c.toNat] := by
  rcases encodeChar_cases c with ⟨-, he⟩ | ⟨h1, -, -⟩ | ⟨h1, -, -⟩ | ⟨h1, -⟩
  · exact he
  · omega
  · omega
  · omega

/-- The bytes of a character that is not ASCII have the high bit. -/
theorem encodeChar_high {c : Char} (h : ¬ c.toNat < 0x80) : ∀ b ∈ utf8EncodeChar c, 0x80 ≤ b := by
  have hmax := char_lt c
  have hbyte {n : ℕ} (h : 0x80 ≤ n) (h' : n < 256) : 0x80 ≤ UInt8.ofNat n := by
    rw [UInt8.le_iff_toNat_le, UInt8.toNat_ofNat', Nat.mod_eq_of_lt h']
    exact h
  rcases encodeChar_cases c with ⟨h1, -⟩ | ⟨h1, h2, he⟩ | ⟨h1, h2, he⟩ | ⟨h1, he⟩
  · exact absurd h1 h
  · rw [he]
    simp only [List.forall_mem_cons]
    exact ⟨hbyte (by omega) (by omega), hbyte (by omega) (by omega), by simp⟩
  · rw [he]
    simp only [List.forall_mem_cons]
    exact ⟨hbyte (by omega) (by omega), hbyte (by omega) (by omega), hbyte (by omega) (by omega), by simp⟩
  · rw [he]
    simp only [List.forall_mem_cons]
    exact ⟨hbyte (by omega) (by omega), hbyte (by omega) (by omega), hbyte (by omega) (by omega),
      hbyte (by omega) (by omega), by simp⟩

end Utf8
