/-
  Strings of the web client, as lists of characters: the methods of `String` and the
  functions on them that the modules under `web/app` use.

  No string here has a lone surrogate: it comes out of UTF-8, or goes into it.
-/
import Mathlib.Data.List.DropRight
import NarMusic.Lib.Bytes
import NarMusic.Lib.Utf8

namespace NarMusic.Web

open Cxx

abbrev Text := List Char

/-- A header value as `fetch` gives it: one character a byte. -/
def isomorphicDecode (s : Str) : Text := s.map fun b => Char.ofNat b.toNat

theorem isomorphicDecode_append (s t : Str) :
    isomorphicDecode (s ++ t) = isomorphicDecode s ++ isomorphicDecode t := List.map_append

/-- ASCII bytes are the UTF-8 of the characters they are read as. -/
theorem encode_isomorphicDecode {s : Str} (h : ∀ b ∈ s, b < 0x80) :
    Utf8.encode (isomorphicDecode s) = s := by
  induction s with
  | nil => rfl
  | cons b s ih =>
    obtain ⟨hb, hs⟩ := List.forall_mem_cons.1 h
    have hbyte : String.utf8EncodeChar (Char.ofNat b.toNat) = [b] := by
      have hall : ∀ m < 128, String.utf8EncodeChar (Char.ofNat m) = [.ofNat m] := by decide
      rw [hall _ (UInt8.lt_iff_toNat_lt.1 hb), UInt8.ofNat_toNat]
    show Utf8.encode (Char.ofNat b.toNat :: isomorphicDecode s) = _
    rw [Utf8.encode_cons, hbyte, ih hs, List.singleton_append]

/-! ## Methods -/

/-- White space of `trim` and `\s`, line terminators included. -/
def isSpace (c : Char) : Bool :=
  c.toNat ∈ [9, 10, 11, 12, 13, 32, 0xA0, 0x1680, 0x202F, 0x205F, 0x3000, 0xFEFF, 0x2028, 0x2029] ∨
    0x2000 ≤ c.toNat ∧ c.toNat ≤ 0x200A

def trim (s : Text) : Text := (s.dropWhile isSpace).rdropWhile isSpace

def includes (pat s : Text) : Bool := decide (pat <:+: s)

/-- `split` at a string; `skip` characters of a separator are still to be passed over. -/
def splitAux (sep : Text) : ℕ → Text → Text → List Text
  | _, piece, [] => [piece]
  | skip + 1, piece, _ :: s => splitAux sep skip piece s
  | 0, piece, c :: s =>
    if sep.isPrefixOf (c :: s) then piece :: splitAux sep (sep.length - 1) [] s
    else splitAux sep 0 (piece ++ [c]) s

def split (sep s : Text) : List Text := splitAux sep 0 [] s

def join (sep : Text) (pieces : List Text) : Text := sep.intercalate pieces

/-- The value of a hexadecimal digit. -/
def hexValue (c : Char) : Option ℕ :=
  if '0' ≤ c ∧ c ≤ '9' then some (c.toNat - 48)
  else if 'A' ≤ c ∧ c ≤ 'F' then some (c.toNat - 55)
  else if 'a' ≤ c ∧ c ≤ 'f' then some (c.toNat - 87)
  else none

/-- The digits at the front. -/
def digits (radix : ℕ) : Text → List ℕ
  | [] => []
  | c :: s =>
    match hexValue c with
    | some d => if d < radix then d :: digits radix s else []
    | none => []

/-- The number they write, `none` where there is none. -/
def number (radix : ℕ) (s : Text) : Option ℤ :=
  match digits radix s with
  | [] => none
  | d :: ds => some ((d :: ds).foldl (fun n d => n * radix + d) 0 : ℕ)

/-- `parseInt`; `none` is `NaN`. -/
def parseInt (s : Text) : Option ℤ :=
  let s := s.dropWhile isSpace
  let negative := s.head? = some '-'
  let s := if negative ∨ s.head? = some '+' then s.tail else s
  let value := if ['0', 'x'].isPrefixOf s ∨ ['0', 'X'].isPrefixOf s then number 16 (s.drop 2) else number 10 s
  value.map fun n => if negative then -n else n

theorem trim_eq_self {s : Text} (hfirst : ∀ c ∈ s.head?, isSpace c = false)
    (hlast : ∀ c ∈ s.getLast?, isSpace c = false) : trim s = s := by
  have hdrop : s.dropWhile isSpace = s := by
    cases s with
    | nil => rfl
    | cons c s => exact List.dropWhile_cons_of_neg (by simpa using hfirst c rfl)
  rw [trim, hdrop, List.rdropWhile_eq_self_iff]
  intro hne
  simpa using hlast _ (List.getLast?_eq_getLast_of_ne_nil hne)

theorem trim_sublist (s : Text) : (trim s).Sublist s :=
  (List.rdropWhile_prefix _ _).sublist.trans (List.dropWhile_sublist _)

/-- A trimmed text ends in no white space. -/
theorem getLast?_of_trim {s : Text} (h : trim s = s) : ∀ c ∈ s.getLast?, isSpace c = false := by
  intro c hc
  have hne : s ≠ [] := by
    rintro rfl
    exact absurd hc (by simp)
  have hlast := List.rdropWhile_last_not isSpace (s.dropWhile isSpace) (by rw [← trim, h]; exact hne)
  have heq : (List.rdropWhile isSpace (List.dropWhile isSpace s)).getLast
      (by rw [← trim, h]; exact hne) = s.getLast hne := by
    congr 1
  rw [heq] at hlast
  rw [List.getLast?_eq_getLast_of_ne_nil hne, Option.mem_some] at hc
  simpa [hc] using hlast

/-! ## Regular expressions -/

/-- The first position at which the expression matches, and its group there. -/
def search (exec : Text → Option Text) : Text → Option Text
  | [] => exec []
  | c :: s => (exec (c :: s)).or (search exec s)

/-- A literal of an expression with the flag `i`, and what is behind it.  Letters are compared
    in upper case, where no other character becomes an ASCII one. -/
def afterFold : Text → Text → Option Text
  | [], s => some s
  | _ :: _, [] => none
  | p :: pat, c :: s => if c.toUpper = p.toUpper then afterFold pat s else none

/-- What `.` does not match. -/
def isLineTerminator (c : Char) : Bool := c = '\n' || c = '\r' || c = '\u2028' || c = '\u2029'

/-- A group of one character or more. -/
def nonempty (s : Text) : Option Text := if s = [] then none else some s

theorem search_skip {exec : Text → Option Text} {pre s : Text}
    (h : ∀ t, t ≠ [] → t <:+ pre → exec (t ++ s) = none) : search exec (pre ++ s) = search exec s := by
  induction pre with
  | nil => rfl
  | cons c pre ih =>
    have hhead := h (c :: pre) (List.cons_ne_nil _ _) List.suffix_rfl
    rw [List.cons_append] at hhead ⊢
    rw [search, hhead, Option.none_or]
    exact ih fun t ht hsuffix => h t ht (hsuffix.trans (List.suffix_cons _ _))

theorem search_of_exec {exec : Text → Option Text} {s g : Text} (h : exec s = some g) :
    search exec s = some g := by
  cases s with
  | nil => exact h
  | cons c s => rw [search, h, Option.some_or]

theorem afterFold_append (pat s : Text) : afterFold pat (pat ++ s) = some s := by
  induction pat with
  | nil => rfl
  | cons p pat ih => rw [List.cons_append, afterFold, if_pos rfl, ih]

/-- Only `*` is `*` in upper case. -/
theorem toUpper_star {c : Char} (h : c.toUpper = '*') : c = '*' := by
  unfold Char.toUpper at h
  split_ifs at h with hletter
  · obtain ⟨hlow, hhigh⟩ := hletter
    rw [UInt32.le_iff_toNat_le] at hlow hhigh
    have hval := congrArg (fun d : Char => d.val.toNat) h
    simp only [UInt32.toNat_add] at hval
    have hshift : ('A'.val - 'a'.val).toNat = 4294967264 := rfl
    have ha : 'a'.val.toNat = 97 := rfl
    have hz : 'z'.val.toNat = 122 := rfl
    have hs : '*'.val.toNat = 42 := rfl
    omega
  · exact h

/-- A literal with a `*` at a place where the text has none does not match. -/
theorem afterFold_star {pre s : Text} (post rest : Text) (hlen : pre.length < s.length) (hstar : '*' ∉ s) :
    afterFold (pre ++ '*' :: post) (s ++ rest) = none := by
  induction pre generalizing s with
  | nil =>
    obtain ⟨c, s, rfl⟩ := List.exists_cons_of_length_pos (show 0 < s.length by simpa using hlen)
    have hne : c.toUpper ≠ '*'.toUpper := by
      intro h
      exact hstar (toUpper_star h ▸ List.mem_cons_self)
    rw [List.nil_append, List.cons_append, afterFold, if_neg hne]
  | cons p pre ih =>
    obtain ⟨c, s, rfl⟩ := List.exists_cons_of_length_pos (show 0 < s.length by omega)
    rw [List.cons_append, List.cons_append, afterFold]
    split_ifs
    · exact ih (by simpa using hlen) fun h => hstar (List.mem_cons_of_mem _ h)
    · rfl

/-! ## `decodeURIComponent` -/

/-- The characters of a component, and the bytes of its escapes. -/
def escapes : Text → Option (List (Char ⊕ Byte))
  | [] => some []
  | c :: s =>
    if c = '%' then
      match s with
      | h :: l :: s => do
        let hi ← hexValue h
        let lo ← hexValue l
        return .inr (.ofNat (hi * 16 + lo)) :: (← escapes s)
      | _ => none
    else do return .inl c :: (← escapes s)

theorem escapes_cons {c : Char} (h : c ≠ '%') (s : Text) :
    escapes (c :: s) = (escapes s).map (.inl c :: ·) := by
  rw [escapes.eq_def]
  simp only [h, if_false]
  cases escapes s <;> rfl

theorem escapes_percent {h l : Char} {hi lo : ℕ} (hh : hexValue h = some hi) (hl : hexValue l = some lo)
    (s : Text) : escapes ('%' :: h :: l :: s) = (escapes s).map (.inr (.ofNat (hi * 16 + lo)) :: ·) := by
  rw [escapes.eq_def]
  simp only [if_true, hh, hl, Option.bind_eq_bind, Option.bind_some]
  cases escapes s <;> rfl

/-- How many bytes the first byte of a character announces. -/
def octetCount (b : Byte) : Option ℕ :=
  if b < 0x80 then some 1
  else if b < 0xC0 then none
  else if b < 0xE0 then some 2
  else if b < 0xF0 then some 3
  else if b < 0xF8 then some 4
  else none

/-- The next `n` parts, which are all bytes. -/
def takeBytes : ℕ → List (Char ⊕ Byte) → Option (Str × List (Char ⊕ Byte))
  | 0, parts => some ([], parts)
  | n + 1, .inr b :: parts => (takeBytes n parts).map fun (bytes, rest) => (b :: bytes, rest)
  | _ + 1, _ => none

/-- The characters, with escaped ones decoded; each part makes one character at most. -/
def decodeParts : ℕ → List (Char ⊕ Byte) → Option Text
  | _, [] => some []
  | 0, _ :: _ => none
  | n + 1, .inl c :: parts => do return c :: (← decodeParts n parts)
  | n + 1, .inr b :: parts => do
    let count ← octetCount b
    let (bytes, rest) ← takeBytes (count - 1) parts
    match Utf8.decodeChar (b :: bytes) with
    | some (c, []) => return c :: (← decodeParts n rest)
    | _ => none

/-- `decodeURIComponent`; `none` is a `URIError`. -/
def decodeURIComponent (s : Text) : Option Text := do
  let parts ← escapes s
  decodeParts parts.length parts

end NarMusic.Web
