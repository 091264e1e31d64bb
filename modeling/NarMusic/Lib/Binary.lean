/-
  Binary formats: little-endian numbers, the parsers that read them back, and CRC-32.

  A parser takes what it reads off the front.  `Reads p s a` says that `p` takes the
  bytes `s` for `a`, whatever comes behind; a record reads what its fields read.
-/
import NarMusic.Lib.Bytes

namespace Binary

open Cxx

def writeU16 (v : UInt16) : Str := [v.toUInt8, (v >>> 8).toUInt8]

def writeU32 (v : UInt32) : Str :=
  [v.toUInt8, (v >>> 8).toUInt8, (v >>> 16).toUInt8, (v >>> 24).toUInt8]

abbrev Parser := StateT Str Option

namespace Parser

def u16 : Parser UInt16
  | a :: b :: s => some (.ofNat (a.toNat + 256 * b.toNat), s)
  | _ => none

def u32 : Parser UInt32
  | a :: b :: c :: d :: s =>
    some (.ofNat (a.toNat + 256 * b.toNat + 65536 * c.toNat + 16777216 * d.toNat), s)
  | _ => none

/-- The next `n` bytes. -/
def bytes (n : ℕ) : Parser Str := fun s => if n ≤ s.length then some (s.take n, s.drop n) else none

def signature (v : UInt32) : Parser Unit := do
  let w ← u32
  if w = v then pure () else failure

/-- `n` times the same. -/
def times {α : Type} (p : Parser α) : ℕ → Parser (List α)
  | 0 => pure []
  | n + 1 => do
    let a ← p
    let as ← times p n
    pure (a :: as)

/-- `p` takes `s` for `a`. -/
def Reads {α : Type} (p : Parser α) (s : Str) (a : α) : Prop := ∀ rest, p.run (s ++ rest) = some (a, rest)

/-! ## What the parsers read -/

variable {α β : Type}

theorem Reads.pure (a : α) : Reads (Pure.pure a) [] a := fun _ => rfl

/-- What is read one after the other stands one after the other. -/
theorem Reads.bind {p : Parser α} {f : α → Parser β} {s t : Str} {a : α} {b : β} (hp : Reads p s a)
    (hf : Reads (f a) t b) : Reads (p >>= f) (s ++ t) b := by
  intro rest
  rw [StateT.run_bind, List.append_assoc, hp]
  exact hf rest

theorem Reads.bind_nil {p : Parser α} {f : α → Parser β} {s : Str} {a : α} {b : β} (hp : Reads p s a)
    (hf : Reads (f a) [] b) : Reads (p >>= f) s b := by
  have h := hp.bind hf
  rwa [List.append_nil] at h

theorem u16_reads (v : UInt16) : Reads u16 (writeU16 v) v := by
  intro rest
  have hv : UInt16.ofNat (v.toUInt8.toNat + 256 * (v >>> 8).toUInt8.toNat) = v := by
    have hlt := v.toNat_lt
    rw [← UInt16.toNat_inj]
    simp [Nat.shiftRight_eq_div_pow]
    omega
  show u16 (writeU16 v ++ rest) = some (v, rest)
  simp only [writeU16, List.cons_append, List.nil_append, u16, hv]

theorem u32_reads (v : UInt32) : Reads u32 (writeU32 v) v := by
  intro rest
  have hv : UInt32.ofNat (v.toUInt8.toNat + 256 * (v >>> 8).toUInt8.toNat +
      65536 * (v >>> 16).toUInt8.toNat + 16777216 * (v >>> 24).toUInt8.toNat) = v := by
    have hlt := v.toNat_lt
    rw [← UInt32.toNat_inj]
    simp [Nat.shiftRight_eq_div_pow]
    omega
  show u32 (writeU32 v ++ rest) = some (v, rest)
  simp only [writeU32, List.cons_append, List.nil_append, u32, hv]

theorem bytes_reads {n : ℕ} {s : Str} (h : s.length = n) : Reads (bytes n) s s := by
  subst h
  intro rest
  show bytes s.length (s ++ rest) = some (s, rest)
  simp [bytes]

theorem signature_reads (v : UInt32) : Reads (signature v) (writeU32 v) () := by
  refine (u32_reads v).bind_nil ?_
  rw [if_pos rfl]
  exact Reads.pure ()

theorem Reads.times {p : Parser α} {write : α → Str} {as : List α}
    (h : ∀ a ∈ as, Reads p (write a) a) : Reads (p.times as.length) (as.flatMap write) as := by
  induction as with
  | nil => exact Reads.pure []
  | cons a as ih =>
    obtain ⟨ha, has⟩ := List.forall_mem_cons.1 h
    rw [List.flatMap_cons]
    exact ha.bind ((ih has).bind_nil (Reads.pure (a :: as)))

end Parser

/-! ## CRC-32 -/

/-- One bit of the division by the polynomial, the lowest bit first. -/
def crcBit (c : UInt32) : UInt32 := if c &&& 1 = 1 then (c >>> 1) ^^^ 0xEDB88320 else c >>> 1

def crcByte (c : UInt32) (b : Byte) : UInt32 := crcBit^[8] (c ^^^ b.toUInt32)

def crc32 (s : Str) : UInt32 := s.foldl crcByte 0xFFFFFFFF ^^^ 0xFFFFFFFF

example : crc32 (lit "123456789") = 0xCBF43926 := by decide +kernel

theorem crc32_nil : crc32 [] = 0 := by decide

end Binary
