/-
  `JSON.parse`, and what it reads where the server has written a string with `dump`
  (`stringBody_escape`).

  A number is kept as `m * 10 ^ e`.  An escape that is half of a surrogate pair is not
  read: the strings of the client have none, and `dump` writes none.
-/
import NarMusic.Http.Json
import NarMusic.Web.Text

namespace NarMusic.Web

open Cxx

inductive Value where
  | null
  | bool (b : Bool)
  | num (m e : ℤ)
  | str (s : Text)
  | arr (items : List Value)
  | obj (members : List (Text × Value))

namespace Value

/-- A property that was read; of two members with one name the last one counts. -/
def get (name : Text) : Value → Option Value
  | obj members => (members.reverse.find? (·.1 = name)).map (·.2)
  | _ => none

/-- A number is false when its nearest double is zero. -/
def truthy : Value → Bool
  | null => false
  | bool b => b
  | num m e => m ≠ 0 ∧ (e < 0 → (10 : ℤ) ^ e.natAbs < m.natAbs * 2 ^ 1075)
  | str s => s ≠ []
  | _ => true

/-- `value || other`, where a property may be missing. -/
def orElse (value : Option Value) (other : Value) : Value :=
  match value with
  | some v => if v.truthy then v else other
  | none => other

/-! ## Parsing -/

def skipSpace (s : Text) : Text := s.dropWhile (· ∈ [' ', '\t', '\n', '\r'])

/-- The character of four hexadecimal digits, unless it is half of a pair. -/
def unicodeEscape : Text → Option (Char × Text)
  | a :: b :: c :: d :: s => do
    let n := (((← hexValue a) * 16 + (← hexValue b)) * 16 + (← hexValue c)) * 16 + (← hexValue d)
    if n.isValidChar then some (Char.ofNat n, s) else none
  | _ => none

/-- The character of an escape with one letter. -/
def letterEscape : Char → Option Char
  | '"' => some '"'
  | '\\' => some '\\'
  | '/' => some '/'
  | 'b' => some '\x08'
  | 'f' => some '\x0c'
  | 'n' => some '\n'
  | 'r' => some '\r'
  | 't' => some '\t'
  | _ => none

/-- A string behind its first quote, with as many characters as the text has at most. -/
def stringBody : ℕ → Text → Option (Text × Text)
  | 0, _ => none
  | _ + 1, [] => none
  | n + 1, c :: s =>
    if c = '"' then some ([], s)
    else if c = '\\' then
      match s with
      | [] => none
      | letter :: s => do
        let (d, s) ← if letter = 'u' then unicodeEscape s else (letterEscape letter).map fun d => (d, s)
        let (t, s) ← stringBody n s
        return (d :: t, s)
    else if c.toNat < 32 then none
    else do
      let (t, s) ← stringBody n s
      return (c :: t, s)

def isDigit (c : Char) : Bool := '0' ≤ c && c ≤ '9'

def digitsValue (ds : Text) : ℕ := ds.foldl (fun n d => n * 10 + (d.toNat - 48)) 0

/-- The exponent part, 0 where there is none. -/
def exponent (s : Text) : Option (ℤ × Text) :=
  match s with
  | c :: s =>
    if c = 'e' ∨ c = 'E' then
      let negative := s.head? = some '-'
      let s := if negative ∨ s.head? = some '+' then s.tail else s
      let ds := s.takeWhile isDigit
      if ds = [] then none
      else some (if negative then -(digitsValue ds : ℤ) else digitsValue ds, s.drop ds.length)
    else some (0, c :: s)
  | [] => some (0, [])

/-- A number without its sign; a leading zero stands alone. -/
def unsigned (s : Text) : Option (Value × Text) := do
  let whole := s.takeWhile isDigit
  let whole := if whole.head? = some '0' then ['0'] else whole
  if whole = [] then none
  let s := s.drop whole.length
  let fraction := if s.head? = some '.' then s.tail.takeWhile isDigit else []
  if s.head? = some '.' ∧ fraction = [] then none
  let s := if s.head? = some '.' then s.tail.drop fraction.length else s
  let (e, s) ← exponent s
  return (num (digitsValue (whole ++ fraction)) (e - fraction.length), s)

def number (s : Text) : Option (Value × Text) :=
  match s with
  | '-' :: s => do
    match ← unsigned s with
    | (num m e, s) => return (num (-m) e, s)
    | _ => none
  | s => unsigned s

/-- What is behind a literal. -/
def literal (word : String) (s : Text) : Option Text :=
  if word.toList.isPrefixOf s then some (s.drop word.length) else none

mutual

/-- A value, nested as deep as the text is long at most. -/
def parseValue : ℕ → Text → Option (Value × Text)
  | 0, _ => none
  | n + 1, s =>
    match skipSpace s with
    | '{' :: s =>
      match skipSpace s with
      | '}' :: s => some (obj [], s)
      | s => (parseMembers n s).map fun (ms, s) => (obj ms, s)
    | '[' :: s =>
      match skipSpace s with
      | ']' :: s => some (arr [], s)
      | s => (parseItems n s).map fun (vs, s) => (arr vs, s)
    | '"' :: s => (stringBody s.length s).map fun (t, s) => (str t, s)
    | s =>
      ((literal "true" s).map fun s => (bool true, s)).or <|
      ((literal "false" s).map fun s => (bool false, s)).or <|
      ((literal "null" s).map fun s => (null, s)).or (number s)

def parseItems : ℕ → Text → Option (List Value × Text)
  | 0, _ => none
  | n + 1, s => do
    let (v, s) ← parseValue n s
    match skipSpace s with
    | ',' :: s =>
      let (vs, s) ← parseItems n s
      return (v :: vs, s)
    | ']' :: s => return ([v], s)
    | _ => none

def parseMembers : ℕ → Text → Option (List (Text × Value) × Text)
  | 0, _ => none
  | n + 1, s =>
    match skipSpace s with
    | '"' :: s => do
      let (k, s) ← stringBody s.length s
      match skipSpace s with
      | ':' :: s => do
        let (v, s) ← parseValue n s
        match skipSpace s with
        | ',' :: s =>
          let (ms, s) ← parseMembers n s
          return ((k, v) :: ms, s)
        | '}' :: s => return ([(k, v)], s)
        | _ => none
      | _ => none
    | _ => none

end

/-- `JSON.parse`; `none` is a `SyntaxError`. -/
def parse (s : Text) : Option Value := do
  let (v, rest) ← parseValue (s.length + 1) s
  if skipSpace rest = [] then some v else none

end Value

/-! ## Strings that the server writes -/

/-- A character as `dump` writes it. -/
def escapeChar (c : Char) : Text :=
  if c.toNat < 0x80 then isomorphicDecode (Json.escapeByte (.ofNat c.toNat)) else [c]

/-- A string as `dump` writes it. -/
def quote (s : Text) : Text := '"' :: (s.flatMap escapeChar ++ ['"'])

theorem escapeByte_high {b : Byte} (h : 0x80 ≤ b) : Json.escapeByte b = [b] := by
  have hne (n : Byte) (hn : n < 0x80) : b ≠ n := fun heq => UInt8.not_lt.2 h (heq ▸ hn)
  unfold Json.escapeByte
  rw [if_neg (hne 8 (by decide)), if_neg (hne 9 (by decide)), if_neg (hne 10 (by decide)),
    if_neg (hne 12 (by decide)), if_neg (hne 13 (by decide)), if_neg (hne 34 (by decide)),
    if_neg (hne 92 (by decide)), if_neg]
  exact UInt8.not_le.2 (UInt8.lt_of_lt_of_le (by decide) h)

theorem flatMap_escapeByte (s : Text) :
    (Utf8.encode s).flatMap Json.escapeByte = Utf8.encode (s.flatMap escapeChar) := by
  induction s with
  | nil => rfl
  | cons c s ih =>
    rw [Utf8.encode_cons, List.flatMap_append, ih, List.flatMap_cons, Utf8.encode_append]
    congr 1
    by_cases h : c.toNat < 0x80
    · have hascii : ∀ m < 128, (Json.escapeByte (.ofNat m)).all (· < 0x80) = true := by decide +kernel
      rw [escapeChar, if_pos h, Utf8.encodeChar_ascii h, encode_isomorphicDecode (Json.ascii_of_all (hascii _ h)), List.flatMap_cons,
        List.flatMap_nil, List.append_nil]
    · rw [escapeChar, if_neg h, Utf8.encode_cons, Utf8.encode_nil, List.append_nil]
      calc (String.utf8EncodeChar c).flatMap Json.escapeByte
          = (String.utf8EncodeChar c).flatMap fun b => [b] :=
            List.flatMap_congr fun b hb => escapeByte_high (Utf8.encodeChar_high h b hb)
        _ = String.utf8EncodeChar c := List.flatMap_singleton' _

/-! ### What is encoded is valid -/

section
variable {n : ℕ} (h : n < 256) (k : Byte)
include h

theorem le_ofNat : k ≤ UInt8.ofNat n ↔ k.toNat ≤ n := by
  rw [UInt8.le_iff_toNat_le, UInt8.toNat_ofNat', Nat.mod_eq_of_lt h]

theorem ofNat_le : UInt8.ofNat n ≤ k ↔ n ≤ k.toNat := by
  rw [UInt8.le_iff_toNat_le, UInt8.toNat_ofNat', Nat.mod_eq_of_lt h]

theorem ofNat_lt : UInt8.ofNat n < k ↔ n < k.toNat := by
  rw [UInt8.lt_iff_toNat_lt, UInt8.toNat_ofNat', Nat.mod_eq_of_lt h]

theorem ofNat_eq : UInt8.ofNat n = k ↔ n = k.toNat := by
  rw [← UInt8.toNat_inj, UInt8.toNat_ofNat', Nat.mod_eq_of_lt h]

end

theorem isCont_ofNat {n : ℕ} (h : n < 64) : Json.isCont (.ofNat (n + 0x80)) = true := by
  simp only [Json.isCont, Bool.and_eq_true, decide_eq_true_eq, le_ofNat (show n + 0x80 < 256 by omega),
    ofNat_le (show n + 0x80 < 256 by omega), UInt8.reduceToNat]
  omega

theorem utf8Valid_encodeChar (c : Char) (s : Str) :
    Json.utf8Valid (String.utf8EncodeChar c ++ s) = Json.utf8Valid s := by
  have hmax := Utf8.char_lt c
  have hsurrogate : c.toNat < 0xD800 ∨ 0xDFFF < c.toNat := by
    have hvalid := c.valid
    simp only [UInt32.isValidChar, Nat.isValidChar] at hvalid
    show c.val.toNat < _ ∨ _ < c.val.toNat
    omega
  rcases Utf8.encodeChar_cases c with ⟨h1, he⟩ | ⟨h1, h2, he⟩ | ⟨h1, h2, he⟩ | ⟨h1, he⟩
  · rw [he, List.singleton_append, Json.utf8Valid.eq_def]
    simp only [ofNat_lt (show c.toNat < 256 by omega), UInt8.reduceToNat, h1, if_true]
  · have ha : c.toNat / 64 + 0xC0 < 256 := by omega
    rw [he, List.cons_append, List.singleton_append, Json.utf8Valid.eq_def]
    simp only [ofNat_lt ha, le_ofNat ha, ofNat_le ha, UInt8.reduceToNat]
    rw [if_neg (by omega), if_pos (by simp; omega), isCont_ofNat (by omega), Bool.true_and]
  · have ha : c.toNat / 4096 + 0xE0 < 256 := by omega
    have hb : c.toNat / 64 % 64 + 0x80 < 256 := by omega
    have hlead : Json.isLead3 (.ofNat (c.toNat / 4096 + 0xE0)) (.ofNat (c.toNat / 64 % 64 + 0x80)) = true := by
      simp only [Json.isLead3, Json.isCont, Bool.or_eq_true, Bool.and_eq_true, decide_eq_true_eq, ofNat_eq ha,
        le_ofNat ha, ofNat_le ha, le_ofNat hb, ofNat_le hb, ne_eq, UInt8.reduceToNat]
      omega
    rw [he, List.cons_append, List.cons_append, List.singleton_append, Json.utf8Valid.eq_def]
    simp only [ofNat_lt ha, le_ofNat ha, ofNat_le ha, UInt8.reduceToNat]
    rw [if_neg (by omega), if_neg (by simp), hlead, if_pos rfl, isCont_ofNat (by omega), Bool.true_and]
  · have ha : c.toNat / 262144 + 0xF0 < 256 := by omega
    have hb : c.toNat / 4096 % 64 + 0x80 < 256 := by omega
    have hlead3 : Json.isLead3 (.ofNat (c.toNat / 262144 + 0xF0)) (.ofNat (c.toNat / 4096 % 64 + 0x80)) =
        false := by
      simp only [Json.isLead3, Json.isCont, ← Bool.not_eq_true, Bool.or_eq_true, Bool.and_eq_true,
        decide_eq_true_eq, ofNat_eq ha, le_ofNat ha, ofNat_le ha, le_ofNat hb, ofNat_le hb, ne_eq,
        UInt8.reduceToNat]
      omega
    have hlead : Json.isLead4 (.ofNat (c.toNat / 262144 + 0xF0)) (.ofNat (c.toNat / 4096 % 64 + 0x80)) =
        true := by
      simp only [Json.isLead4, Json.isCont, Bool.or_eq_true, Bool.and_eq_true, decide_eq_true_eq, ofNat_eq ha,
        le_ofNat ha, ofNat_le ha, le_ofNat hb, ofNat_le hb, UInt8.reduceToNat]
      omega
    rw [he, List.cons_append, List.cons_append, List.cons_append, List.singleton_append,
      Json.utf8Valid.eq_def]
    simp only [ofNat_lt ha, le_ofNat ha, ofNat_le ha, UInt8.reduceToNat]
    rw [if_neg (by omega), if_neg (by simp), hlead3, if_neg Bool.false_ne_true, hlead,
      isCont_ofNat (by omega), isCont_ofNat (by omega), Bool.true_and, Bool.true_and, Bool.true_and]

theorem utf8Valid_encode (s : Text) : Json.utf8Valid (Utf8.encode s) := by
  induction s with
  | nil => rfl
  | cons c s ih => rwa [Utf8.encode_cons, utf8Valid_encodeChar]

theorem dumpString_encode (s : Text) : Json.dumpString (Utf8.encode s) = .ok (Utf8.encode (quote s)) := by
  have hquote : String.utf8EncodeChar '"' = [34] := by decide +kernel
  rw [Json.dumpString, if_pos (utf8Valid_encode s), flatMap_escapeByte, quote, Utf8.encode_cons,
    Utf8.encode_append, Utf8.encode_cons, Utf8.encode_nil, hquote]
  rfl

/-! ### What is written is read -/

open Value

theorem unicodeEscape_append (a b c d : Char) (s : Text) :
    unicodeEscape (a :: b :: c :: d :: s) = (unicodeEscape [a, b, c, d]).map fun p => (p.1, s) := by
  rcases ha : hexValue a with _ | na
  · simp [unicodeEscape, ha]
  rcases hb : hexValue b with _ | nb
  · simp [unicodeEscape, ha, hb]
  rcases hc : hexValue c with _ | nc
  · simp [unicodeEscape, ha, hb, hc]
  rcases hd : hexValue d with _ | nd
  · simp [unicodeEscape, ha, hb, hc, hd]
  simp only [unicodeEscape, ha, hb, hc, hd, Option.bind_eq_bind, Option.bind_some]
  split_ifs <;> rfl

theorem stringBody_backslash (n : ℕ) (letter : Char) (s : Text) :
    stringBody (n + 1) ('\\' :: letter :: s) =
      (if letter = 'u' then unicodeEscape s else (letterEscape letter).map fun d => (d, s)).bind fun p =>
        (stringBody n p.2).map fun q => (p.1 :: q.1, q.2) := by
  rw [stringBody.eq_def]
  dsimp only
  rw [if_neg (by decide), if_pos rfl]
  by_cases hu : letter = 'u'
  · rw [if_pos hu, if_pos hu]
    rcases unicodeEscape s with _ | ⟨d, s⟩
    · rfl
    · simp only [Option.bind_eq_bind, Option.bind_some]
      cases stringBody n s <;> rfl
  · rw [if_neg hu, if_neg hu]
    rcases letterEscape letter with _ | d
    · rfl
    · simp only [Option.bind_eq_bind, Option.map_some, Option.bind_some]
      cases stringBody n s <;> rfl

/-- A character stands for itself, or behind a backslash, or is written with its number. -/
theorem escapeChar_cases (c : Char) :
    (escapeChar c = [c] ∧ c ≠ '"' ∧ c ≠ '\\' ∧ ¬ c.toNat < 32) ∨
      (∃ d, escapeChar c = ['\\', d] ∧ d ≠ 'u' ∧ letterEscape d = some c) ∨
      ∃ h l, escapeChar c = ['\\', 'u', '0', '0', h, l] ∧ unicodeEscape ['0', '0', h, l] = some (c, []) := by
  by_cases h : c.toNat < 0x80
  · have hall : ∀ m < 128, ∀ e, e = isomorphicDecode (Json.escapeByte (.ofNat m)) →
        (e = [Char.ofNat m] ∧ m ≠ 34 ∧ m ≠ 92 ∧ ¬ m < 32) ∨
          (e = ['\\', e.getD 1 ' '] ∧ e.getD 1 ' ' ≠ 'u' ∧ letterEscape (e.getD 1 ' ') = some (Char.ofNat m)) ∨
          e = ['\\', 'u', '0', '0', e.getD 4 ' ', e.getD 5 ' '] ∧
            unicodeEscape ['0', '0', e.getD 4 ' ', e.getD 5 ' '] = some (Char.ofNat m, []) := by
      simp only [forall_eq]
      decide +kernel
    rw [escapeChar, if_pos h]
    rcases hall _ h _ rfl with ⟨he, hquote, hslash, hcontrol⟩ | ⟨he, hu, hd⟩ | ⟨he, hnumber⟩
    · rw [Char.ofNat_toNat] at he
      exact Or.inl ⟨he, fun heq => hquote (heq ▸ rfl), fun heq => hslash (heq ▸ rfl), hcontrol⟩
    · rw [Char.ofNat_toNat] at hd
      exact Or.inr (Or.inl ⟨_, he, hu, hd⟩)
    · rw [Char.ofNat_toNat] at hnumber
      exact Or.inr (Or.inr ⟨_, _, he, hnumber⟩)
  · refine Or.inl ⟨if_neg h, ?_, ?_, by omega⟩
    · rintro rfl
      exact h (by decide)
    · rintro rfl
      exact h (by decide)

theorem stringBody_escapeChar (n : ℕ) (c : Char) (s : Text) :
    stringBody (n + 1) (escapeChar c ++ s) = (stringBody n s).map fun p => (c :: p.1, p.2) := by
  rcases escapeChar_cases c with ⟨hc, hquote, hslash, hcontrol⟩ | ⟨d, hc, hu, hd⟩ | ⟨h, l, hc, hnumber⟩
  · rw [hc, List.singleton_append, stringBody.eq_def]
    dsimp only
    rw [if_neg hquote, if_neg hslash, if_neg hcontrol]
    cases stringBody n s <;> rfl
  · rw [hc, List.cons_append, List.singleton_append, stringBody_backslash, if_neg hu, hd, Option.map_some,
      Option.bind_some]
  · have hescape := unicodeEscape_append '0' '0' h l s
    rw [hnumber, Option.map_some] at hescape
    simp only [hc, List.cons_append, List.nil_append]
    rw [stringBody_backslash, if_pos rfl, hescape, Option.bind_some]

theorem stringBody_escape {s rest : Text} {n : ℕ} (h : s.length < n) :
    stringBody n (s.flatMap escapeChar ++ '"' :: rest) = some (s, rest) := by
  induction s generalizing n with
  | nil =>
    obtain ⟨n, rfl⟩ : ∃ m, n = m + 1 := ⟨n - 1, by simp at h; omega⟩
    rfl
  | cons c s ih =>
    obtain ⟨n, rfl⟩ : ∃ m, n = m + 1 := ⟨n - 1, by simp at h; omega⟩
    rw [List.flatMap_cons, List.append_assoc, stringBody_escapeChar, ih (by simpa using h), Option.map_some]

theorem length_le_escape (s : Text) : s.length ≤ (s.flatMap escapeChar).length := by
  induction s with
  | nil => exact le_rfl
  | cons c s ih =>
    have hne : 1 ≤ (escapeChar c).length := by
      rcases escapeChar_cases c with ⟨hc, -⟩ | ⟨d, hc, -⟩ | ⟨h, l, hc, -⟩ <;> simp [hc]
    rw [List.flatMap_cons, List.length_append, List.length_cons]
    omega

theorem quote_append (s rest : Text) : quote s ++ rest = '"' :: (s.flatMap escapeChar ++ '"' :: rest) := by
  simp [quote]

theorem stringBody_quote (s rest : Text) :
    stringBody (s.flatMap escapeChar ++ '"' :: rest).length (s.flatMap escapeChar ++ '"' :: rest) =
      some (s, rest) := by
  have hle := length_le_escape s
  refine stringBody_escape ?_
  rw [List.length_append, List.length_cons]
  omega

theorem parseValue_quote (n : ℕ) (s rest : Text) : parseValue (n + 1) (quote s ++ rest) = some (str s, rest) := by
  have hskip : skipSpace (quote s ++ rest) = '"' :: (s.flatMap escapeChar ++ '"' :: rest) := quote_append s rest
  rw [parseValue, hskip]
  simp only [stringBody_quote, Option.map_some]

section
variable {n : ℕ} {k s rest : Text} {v : Value} {ms : List (Text × Value)}

theorem parseMembers_last (hv : parseValue n s = some (v, '}' :: rest)) :
    parseMembers (n + 1) (quote k ++ ':' :: s) = some ([(k, v)], rest) := by
  have hskip : skipSpace (quote k ++ ':' :: s) = '"' :: (k.flatMap escapeChar ++ '"' :: ':' :: s) :=
    quote_append k _
  rw [parseMembers, hskip]
  simp only [stringBody_quote, Option.bind_eq_bind, Option.bind_some]
  show (parseValue n s).bind _ = _
  rw [hv]
  rfl

theorem parseMembers_more {t : Text} (hv : parseValue n s = some (v, ',' :: t))
    (hms : parseMembers n t = some (ms, rest)) :
    parseMembers (n + 1) (quote k ++ ':' :: s) = some ((k, v) :: ms, rest) := by
  have hskip : skipSpace (quote k ++ ':' :: s) = '"' :: (k.flatMap escapeChar ++ '"' :: ':' :: s) :=
    quote_append k _
  rw [parseMembers, hskip]
  simp only [stringBody_quote, Option.bind_eq_bind, Option.bind_some]
  show (parseValue n s).bind _ = _
  rw [hv]
  show (parseMembers n t).bind _ = _
  rw [hms]
  rfl

end

/-- An object of two strings. -/
def objectText (k k' s s' : Text) : Text :=
  '{' :: (quote k ++ ':' :: (quote s ++ ',' :: (quote k' ++ ':' :: (quote s' ++ ['}']))))

/-- **An object of two strings** is read as it is. -/
theorem parse_objectText (k k' s s' : Text) :
    parse (objectText k k' s s') = some (obj [(k, str s), (k', str s')]) := by
  have hlen : 3 ≤ (objectText k k' s s').length := by
    simp only [objectText, quote, List.length_cons, List.length_append]
    omega
  obtain ⟨n, hn⟩ : ∃ n, (objectText k k' s s').length = n + 3 := ⟨_, (Nat.sub_add_cancel hlen).symm⟩
  have hmembers := parseMembers_more (k := k) (parseValue_quote (n + 1) s _)
    (parseMembers_last (k := k') (parseValue_quote n s' ['}']))
  obtain ⟨t, ht⟩ : ∃ t, quote k ++ ':' :: (quote s ++ ',' :: (quote k' ++ ':' :: (quote s' ++ ['}']))) =
      '"' :: t := ⟨_, quote_append k _⟩
  rw [ht] at hmembers
  have hopen : skipSpace ('{' :: '"' :: t) = '{' :: '"' :: t := rfl
  have hfirst : skipSpace ('"' :: t) = '"' :: t := rfl
  rw [parse, hn, objectText, ht, parseValue, hopen]
  simp only [hfirst]
  show (Option.bind ((parseMembers (n + 3) ('"' :: t)).map _) _) = _
  rw [hmembers]
  rfl

end NarMusic.Web
