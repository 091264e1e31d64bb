/-
  What the client reads of the JSON that the server writes.

  `dump` throws on a string that is not UTF-8; every text it does write is UTF-8, and
  `JSON.parse` reads the value back out of it (`parse_dump`): the same nesting, the members of
  an object in the order of their names, the strings as the characters their bytes encode.
-/
import NarMusic.Lib.Except
import NarMusic.Web.Json

namespace NarMusic.Web

open Cxx

/-! ## UTF-8 -/

section
variable {a b c d : Byte} {s : Str}

theorem isCont_iff : Json.isCont a = true ↔ 0x80 ≤ a.toNat ∧ a.toNat < 0xC0 := by
  simp only [Json.isCont, Bool.and_eq_true, decide_eq_true_eq, UInt8.le_iff_toNat_le, UInt8.reduceToNat]
  omega

theorem toNat_ofNat {n : ℕ} (h : n.isValidChar) : (Char.ofNat n).toNat = n := by
  rw [Char.ofNat, dif_pos h]
  rfl

theorem ofNat_of_toNat {n : ℕ} (h : a.toNat = n) : UInt8.ofNat n = a := by
  rw [← h, UInt8.ofNat_toNat]

theorem encode_two (ha : 0xC2 ≤ a.toNat ∧ a.toNat ≤ 0xDF) (hb : Json.isCont b = true) :
    ∃ ch : Char, String.utf8EncodeChar ch = [a, b] := by
  obtain ⟨hb, hb'⟩ := isCont_iff.1 hb
  have hn := toNat_ofNat (n := a.toNat % 32 * 64 + b.toNat % 64) (Or.inl (by omega))
  refine ⟨Char.ofNat (a.toNat % 32 * 64 + b.toNat % 64), ?_⟩
  rcases Utf8.encodeChar_cases (Char.ofNat (a.toNat % 32 * 64 + b.toNat % 64)) with h | ⟨-, -, h⟩ | h | h
  · rw [hn] at h
    omega
  · rw [h, hn, ofNat_of_toNat (a := a) (by omega), ofNat_of_toNat (a := b) (by omega)]
  · rw [hn] at h
    omega
  · rw [hn] at h
    omega

theorem encode_three (hab : Json.isLead3 a b = true) (hc : Json.isCont c = true) :
    ∃ ch : Char, String.utf8EncodeChar ch = [a, b, c] := by
  obtain ⟨hc, hc'⟩ := isCont_iff.1 hc
  simp only [Json.isLead3, Bool.or_eq_true, Bool.and_eq_true, decide_eq_true_eq, isCont_iff, ← UInt8.toNat_inj,
    UInt8.le_iff_toNat_le, ne_eq, UInt8.reduceToNat] at hab
  have hn := toNat_ofNat (n := a.toNat % 16 * 4096 + b.toNat % 64 * 64 + c.toNat % 64)
    (by unfold Nat.isValidChar; omega)
  refine ⟨Char.ofNat (a.toNat % 16 * 4096 + b.toNat % 64 * 64 + c.toNat % 64), ?_⟩
  rcases Utf8.encodeChar_cases (Char.ofNat (a.toNat % 16 * 4096 + b.toNat % 64 * 64 + c.toNat % 64)) with
    h | h | ⟨-, -, h⟩ | h
  · rw [hn] at h
    omega
  · rw [hn] at h
    omega
  · rw [h, hn, ofNat_of_toNat (a := a) (by omega), ofNat_of_toNat (a := b) (by omega),
      ofNat_of_toNat (a := c) (by omega)]
  · rw [hn] at h
    omega

theorem encode_four (hab : Json.isLead4 a b = true) (hc : Json.isCont c = true) (hd : Json.isCont d = true) :
    ∃ ch : Char, String.utf8EncodeChar ch = [a, b, c, d] := by
  obtain ⟨hc, hc'⟩ := isCont_iff.1 hc
  obtain ⟨hd, hd'⟩ := isCont_iff.1 hd
  simp only [Json.isLead4, Bool.or_eq_true, Bool.and_eq_true, decide_eq_true_eq, isCont_iff, ← UInt8.toNat_inj,
    UInt8.le_iff_toNat_le, UInt8.reduceToNat] at hab
  have hn := toNat_ofNat (n := a.toNat % 8 * 262144 + b.toNat % 64 * 4096 + c.toNat % 64 * 64 + d.toNat % 64)
    (by unfold Nat.isValidChar; omega)
  refine ⟨Char.ofNat (a.toNat % 8 * 262144 + b.toNat % 64 * 4096 + c.toNat % 64 * 64 + d.toNat % 64), ?_⟩
  rcases Utf8.encodeChar_cases
    (Char.ofNat (a.toNat % 8 * 262144 + b.toNat % 64 * 4096 + c.toNat % 64 * 64 + d.toNat % 64)) with
    h | h | h | ⟨-, h⟩
  · rw [hn] at h
    omega
  · rw [hn] at h
    omega
  · rw [hn] at h
    omega
  · rw [h, hn, ofNat_of_toNat (a := a) (by omega), ofNat_of_toNat (a := b) (by omega),
      ofNat_of_toNat (a := c) (by omega), ofNat_of_toNat (a := d) (by omega)]

theorem encode_more (front : Str) (hfront : ∃ ch : Char, String.utf8EncodeChar ch = front)
    (hs : ∃ t, s = Utf8.encode t) : ∃ t, front ++ s = Utf8.encode t := by
  obtain ⟨ch, rfl⟩ := hfront
  obtain ⟨t, rfl⟩ := hs
  exact ⟨ch :: t, rfl⟩

end

/-- **What is valid is the encoding of a text.** -/
theorem exists_encode {s : Str} (h : Json.utf8Valid s = true) : ∃ t, s = Utf8.encode t := by
  induction s using Json.utf8Valid.induct with
  | case1 => exact ⟨[], rfl⟩
  | case2 a s ha ih =>
    rw [Json.utf8Valid.eq_def] at h
    simp only [ha, if_true] at h
    have hbyte : a.toNat < 0x80 := UInt8.lt_iff_toNat_lt.1 ha
    have hn := toNat_ofNat (n := a.toNat) (Or.inl (by omega))
    refine encode_more [a] ⟨Char.ofNat a.toNat, ?_⟩ (ih h)
    rw [Utf8.encodeChar_ascii (by rw [hn]; exact hbyte), hn, UInt8.ofNat_toNat]
  | case3 a ha =>
    rw [Json.utf8Valid.eq_def] at h
    simp [ha] at h
  | case4 a ha b s hab ih =>
    rw [Json.utf8Valid.eq_def] at h
    simp only [ha, if_false, hab, if_true, Bool.and_eq_true] at h
    simp only [Bool.and_eq_true, decide_eq_true_eq, UInt8.le_iff_toNat_le, UInt8.reduceToNat] at hab
    exact encode_more _ (encode_two hab h.1) (ih h.2)
  | case5 a ha b hab =>
    rw [Json.utf8Valid.eq_def] at h
    simp [ha, hab] at h
  | case6 a ha b hab c s hlead ih =>
    rw [Json.utf8Valid.eq_def] at h
    simp only [ha, if_false, hab, hlead, if_true, Bool.false_eq_true, Bool.and_eq_true] at h
    exact encode_more _ (encode_three hlead h.1) (ih h.2)
  | case7 a ha b hab c hlead =>
    rw [Json.utf8Valid.eq_def] at h
    simp [ha, hab, hlead] at h
  | case8 a ha b hab c hlead d s ih =>
    rw [Json.utf8Valid.eq_def] at h
    simp only [ha, if_false, hab, hlead, Bool.false_eq_true, Bool.and_eq_true] at h
    exact encode_more _ (encode_four h.1.1.1 h.1.1.2 h.1.2) (ih h.2)

/-- The text of bytes that are valid UTF-8. -/
def textOf (s : Str) : Text := (Utf8.decode s).getD []

theorem textOf_encode (t : Text) : textOf (Utf8.encode t) = t := by
  rw [textOf, Utf8.decode_encode, Option.getD_some]

/-! ## Values -/

mutual

/-- The value that `JSON.parse` makes of what `dump` writes. -/
def read : Json → Value
  | .bool b => .bool b
  | .int n => .num n 0
  | .str s => .str (textOf s)
  | .arr items => .arr (readItems items)
  | .obj members => .obj (readMembers members)

def readItems : List Json → List Value
  | [] => []
  | j :: js => read j :: readItems js

def readMembers : List (Str × Json) → List (Text × Value)
  | [] => []
  | (k, j) :: ms => (textOf k, read j) :: readMembers ms

end

/-- What can stand behind a value in a larger one. -/
def Stops (rest : Text) : Prop := ∀ c ∈ rest.head?, c = ',' ∨ c = ']' ∨ c = '}'

/-- The text is read as the value, whatever stands behind it. -/
structure Spells (t : Text) (v : Value) : Prop where
  begins : ∃ c s, t = c :: s ∧ c ∉ [' ', '\t', '\n', '\r', ']', '}']
  read : ∀ n rest, t.length < n → Stops rest → Value.parseValue n (t ++ rest) = some (v, rest)

open Value

theorem skipSpace_cons {c : Char} (h : c ∉ [' ', '\t', '\n', '\r', ']', '}']) (s : Text) :
    skipSpace (c :: s) = c :: s := by
  refine List.dropWhile_cons_of_neg ?_
  simp only [List.mem_cons, List.not_mem_nil, or_false, not_or, decide_eq_true_eq] at h ⊢
  tauto

theorem spells_quote (s : Text) : Spells (quote s) (.str s) := by
  refine ⟨⟨'"', _, rfl, by decide⟩, fun n rest hn _ => ?_⟩
  obtain ⟨n, rfl⟩ : ∃ m, n = m + 1 := ⟨n - 1, by omega⟩
  exact parseValue_quote n s rest

/-- Behind a first character that opens nothing a literal or a number is read. -/
theorem parseValue_plain {c : Char} (h : c ∉ [' ', '\t', '\n', '\r', ']', '}', '{', '[', '"']) (n : ℕ) (s : Text) :
    parseValue (n + 1) (c :: s) =
      (((literal "true" (c :: s)).map fun s => (bool true, s)).or <|
        ((literal "false" (c :: s)).map fun s => (bool false, s)).or <|
        ((literal "null" (c :: s)).map fun s => (null, s)).or (Value.number (c :: s))) := by
  simp only [List.mem_cons, List.not_mem_nil, or_false, not_or] at h
  have hskip : skipSpace (c :: s) = c :: s := skipSpace_cons (by simp [h]) s
  rw [parseValue, hskip]
  split
  · next heq => exact absurd (List.cons.inj heq).1 h.2.2.2.2.2.2.1
  · next heq => exact absurd (List.cons.inj heq).1 h.2.2.2.2.2.2.2.1
  · next heq => exact absurd (List.cons.inj heq).1 h.2.2.2.2.2.2.2.2
  · rfl

theorem spells_bool (b : Bool) : Spells (if b then "true".toList else "false".toList) (.bool b) := by
  cases b with
  | true =>
    refine ⟨⟨'t', _, rfl, by decide⟩, fun n rest hn _ => ?_⟩
    obtain ⟨n, rfl⟩ : ∃ m, n = m + 1 := ⟨n - 1, by omega⟩
    exact parseValue_plain (c := 't') (by decide) n ('r' :: 'u' :: 'e' :: rest)
  | false =>
    refine ⟨⟨'f', _, rfl, by decide⟩, fun n rest hn _ => ?_⟩
    obtain ⟨n, rfl⟩ : ∃ m, n = m + 1 := ⟨n - 1, by omega⟩
    exact parseValue_plain (c := 'f') (by decide) n ('a' :: 'l' :: 's' :: 'e' :: rest)

/-! ### Numbers -/

theorem isDigit_ofNat {b : Byte} (h : isdigit b = true) : isDigit (Char.ofNat b.toNat) = true := by
  obtain ⟨hlow, hhigh⟩ := isdigit_iff.1 h
  have hall : ∀ m < 58, 48 ≤ m → isDigit (Char.ofNat m) = true := by decide
  exact hall _ (by omega) hlow

theorem digitsValue_isomorphicDecode {ds : Str} (h : ∀ b ∈ ds, isdigit b = true) :
    digitsValue (isomorphicDecode ds) = digitsVal ds := by
  have hfold : ∀ v, (isomorphicDecode ds).foldl (fun n d => n * 10 + (d.toNat - 48)) v =
      ds.foldl (fun v d => 10 * v + (d.toNat - 48)) v := by
    induction ds with
    | nil => exact fun v => rfl
    | cons b ds ih =>
      obtain ⟨hb, hds⟩ := List.forall_mem_cons.1 h
      obtain ⟨-, hhigh⟩ := isdigit_iff.1 hb
      intro v
      show List.foldl _ (v * 10 + ((Char.ofNat b.toNat).toNat - 48)) (isomorphicDecode ds) = _
      rw [toNat_ofNat (Or.inl (by omega)), ih hds, List.foldl_cons, Nat.mul_comm v 10]
  exact hfold 0

theorem unsigned_digits {ds rest : Text} (hds : ∀ c ∈ ds, isDigit c = true) (hne : ds ≠ [])
    (hzero : ds.head? = some '0' → ds = ['0']) (hrest : Stops rest) :
    unsigned (ds ++ rest) = some (num (digitsValue ds) 0, rest) := by
  have hhead : ∀ c ∈ rest.head?, isDigit c = false ∧ c ≠ '.' ∧ c ≠ 'e' ∧ c ≠ 'E' := by
    intro c hc
    rcases hrest c hc with rfl | rfl | rfl <;> decide
  have hwhole : (ds ++ rest).takeWhile isDigit = ds := by
    rw [List.takeWhile_append_of_pos hds]
    cases rest with
    | nil => simp
    | cons c rest => simp [(hhead c rfl).1]
  have hfirst : (if ds.head? = some '0' then ['0'] else ds) = ds := by
    split_ifs with h0
    · exact (hzero h0).symm
    · rfl
  have hdot : rest.head? ≠ some '.' := fun h => (hhead '.' h).2.1 rfl
  have hexponent : exponent rest = some (0, rest) := by
    cases rest with
    | nil => rfl
    | cons c rest =>
      obtain ⟨-, -, he, hE⟩ := hhead c rfl
      rw [exponent, if_neg (by simp [he, hE])]
  simp only [unsigned, hwhole, hfirst, List.drop_left, hdot, if_false, hexponent, hne, false_and]
  simp

/-- The text of a natural number. -/
theorem unsigned_dec (k : ℕ) :
    ∃ c s, isomorphicDecode (dec k) = c :: s ∧ isDigit c = true ∧
      ∀ rest, Stops rest → unsigned (c :: (s ++ rest)) = some (num k 0, rest) := by
  have hdigits : ∀ c ∈ isomorphicDecode (dec k), isDigit c = true := by
    intro c hc
    obtain ⟨b, hb, rfl⟩ := List.mem_map.1 hc
    exact isDigit_ofNat (isdigit_dec k b hb)
  obtain ⟨b, bs, hbs⟩ := List.exists_cons_of_ne_nil (dec_ne_nil k)
  have hb : isdigit b = true := isdigit_dec k b (by simp [hbs])
  have hhead : isomorphicDecode (dec k) = Char.ofNat b.toNat :: isomorphicDecode bs := by
    rw [hbs]
    rfl
  have hzero : (isomorphicDecode (dec k)).head? = some '0' → isomorphicDecode (dec k) = ['0'] := by
    intro h
    rcases Nat.eq_zero_or_pos k with rfl | hk
    · rfl
    · -- only zero is written with a zero in front
      rw [hhead, List.head?_cons, Option.some_inj] at h
      have hn := congrArg Char.toNat h
      rw [toNat_ofNat (Or.inl (by have := isdigit_iff.1 hb; omega))] at hn
      have hb48 : b = 48 := UInt8.toNat_inj.1 hn
      exact absurd (by rw [hbs, hb48]; rfl) (dec_head hk)
  refine ⟨_, _, hhead, isDigit_ofNat hb, fun rest hrest => ?_⟩
  rw [← List.cons_append, ← hhead, unsigned_digits hdigits (by rw [hhead]; simp) hzero hrest,
    digitsValue_isomorphicDecode (isdigit_dec k), digitsVal_dec]

theorem parseValue_number {c : Char} (h : c = '-' ∨ isDigit c = true) (n : ℕ) (s : Text) :
    parseValue (n + 1) (c :: s) = Value.number (c :: s) := by
  have hne : ∀ d, d ≠ '-' → isDigit d = false → c ≠ d := by
    rintro d hminus hdigit rfl
    rcases h with h | h
    · exact hminus h
    · rw [hdigit] at h
      cases h
  have hliteral : ∀ word d t, String.toList word = d :: t → c ≠ d → literal word (c :: s) = none := by
    intro word d t hword hcd
    rw [literal, hword, if_neg]
    simp [List.isPrefixOf, Ne.symm hcd]
  rw [parseValue_plain, hliteral "true" 't' _ rfl (hne _ (by decide) (by decide)),
    hliteral "false" 'f' _ rfl (hne _ (by decide) (by decide)),
    hliteral "null" 'n' _ rfl (hne _ (by decide) (by decide))]
  · rfl
  · intro hmem
    have hall : ∀ d ∈ [' ', '\t', '\n', '\r', ']', '}', '{', '[', '"'], d ≠ '-' ∧ isDigit d = false := by
      simp only [List.forall_mem_cons, List.not_mem_nil, IsEmpty.forall_iff, implies_true, and_true]
      decide
    exact hne c (hall c hmem).1 (hall c hmem).2 rfl

theorem spells_int (n : ℤ) : Spells (isomorphicDecode (decInt n)) (.num n 0) := by
  have hplain : ∀ d ∈ [' ', '\t', '\n', '\r', ']', '}'], isDigit d = false := by
    simp only [List.forall_mem_cons, List.not_mem_nil, IsEmpty.forall_iff, implies_true, and_true]
    decide
  cases n with
  | ofNat k =>
    obtain ⟨c, s, hcs, hc, hread⟩ := unsigned_dec k
    have hminus : c ≠ '-' := by
      rintro rfl
      cases hc
    refine ⟨⟨c, s, hcs, fun hmem => absurd hc (by simp [hplain c hmem])⟩, fun n rest hn hrest => ?_⟩
    obtain ⟨n, rfl⟩ : ∃ m, n = m + 1 := ⟨n - 1, by omega⟩
    have hnumber : Value.number (c :: (s ++ rest)) = unsigned (c :: (s ++ rest)) := by
      unfold Value.number
      split
      · next heq => exact absurd (List.cons.inj heq).1 hminus
      · rfl
    rw [decInt, hcs, List.cons_append, parseValue_number (Or.inr hc), hnumber, hread rest hrest]
    rfl
  | negSucc k =>
    obtain ⟨c, s, hcs, hc, hread⟩ := unsigned_dec (k + 1)
    have htext : isomorphicDecode (decInt (.negSucc k)) = '-' :: c :: s := by
      rw [← hcs]
      rfl
    refine ⟨⟨'-', _, htext, by decide⟩, fun n rest hn hrest => ?_⟩
    obtain ⟨n, rfl⟩ : ∃ m, n = m + 1 := ⟨n - 1, by omega⟩
    rw [htext, List.cons_append, List.cons_append, parseValue_number (Or.inl rfl), Value.number, hread rest hrest]
    rfl

/-! ### Arrays and objects -/

/-- The parts of an array or object, with a comma between two of them. -/
def commas : List Text → Text
  | [] => []
  | [t] => t
  | t :: t' :: ts => t ++ ',' :: commas (t' :: ts)

theorem joinComma_encode (ts : List Text) : Json.joinComma (ts.map Utf8.encode) = Utf8.encode (commas ts) := by
  have hcomma : String.utf8EncodeChar ',' = [44] := by decide +kernel
  induction ts with
  | nil => rfl
  | cons t ts ih =>
    cases ts with
    | nil => rfl
    | cons t' ts =>
      rw [commas, Utf8.encode_append, Utf8.encode_cons, ← ih, hcomma]
      rfl

theorem commas_cons (t : Text) (ts : List Text) :
    commas (t :: ts) = t ++ if ts = [] then [] else ',' :: commas ts := by
  cases ts with
  | nil => simp [commas]
  | cons t' ts => simp [commas]

theorem stops_comma (s : Text) : Stops (',' :: s) := by
  intro c hc
  exact Or.inl (Option.some_inj.1 hc).symm

theorem stops_bracket (s : Text) : Stops (']' :: s) := by
  intro c hc
  exact Or.inr (Or.inl (Option.some_inj.1 hc).symm)

theorem stops_brace (s : Text) : Stops ('}' :: s) := by
  intro c hc
  exact Or.inr (Or.inr (Option.some_inj.1 hc).symm)

theorem parseItems_commas {ts : List Text} {vs : List Value} (h : List.Forall₂ Spells ts vs) (hne : ts ≠ []) {n : ℕ}
    (hn : (commas ts).length + 1 < n) (rest : Text) :
    parseItems n (commas ts ++ ']' :: rest) = some (vs, rest) := by
  induction h generalizing n with
  | nil => exact absurd rfl hne
  | @cons t v ts vs hv hvs ih =>
    obtain ⟨n, rfl⟩ : ∃ m, n = m + 1 := ⟨n - 1, by omega⟩
    rw [commas_cons] at hn ⊢
    cases hvs with
    | nil =>
      rw [if_pos rfl, List.append_nil] at hn ⊢
      rw [parseItems, hv.read n _ (by omega) (stops_bracket rest)]
      rfl
    | cons hv' hvs' =>
      rw [if_neg (by simp), List.length_append, List.length_cons] at hn
      have hitems := ih (by simp) (n := n) (by omega)
      rw [if_neg (by simp), List.append_assoc, List.cons_append, parseItems, hv.read n _ (by omega) (stops_comma _)]
      show (parseItems n _).bind _ = _
      rw [hitems]
      rfl

theorem spells_arr {ts : List Text} {vs : List Value} (h : List.Forall₂ Spells ts vs) :
    Spells ('[' :: (commas ts ++ [']'])) (.arr vs) := by
  refine ⟨⟨'[', _, rfl, by decide⟩, fun n rest hn _ => ?_⟩
  obtain ⟨n, rfl⟩ : ∃ m, n = m + 1 := ⟨n - 1, by omega⟩
  simp only [List.length_cons, List.length_append, List.length_nil] at hn
  have hopen : ∀ s, skipSpace ('[' :: s) = '[' :: s := fun s => rfl
  rw [List.cons_append, List.append_assoc, List.singleton_append, parseValue, hopen]
  cases h with
  | nil => rfl
  | @cons t v ts vs hv hvs =>
    have hitems := parseItems_commas (.cons hv hvs) (by simp) (n := n) (by omega) rest
    obtain ⟨c, s, rfl, hc⟩ := hv.begins
    obtain ⟨u, hu⟩ : ∃ u, commas ((c :: s) :: ts) ++ ']' :: rest = c :: u := by
      rw [commas_cons]
      exact ⟨_, rfl⟩
    have hfirst : skipSpace (c :: u) = c :: u := skipSpace_cons hc u
    rw [hu] at hitems ⊢
    simp only [hfirst]
    split
    · next heq =>
      obtain ⟨rfl, -⟩ := List.cons.inj heq
      exact absurd hc (by decide)
    · rw [hitems]
      rfl

/-- The text of a member. -/
def memberText (p : Text × Text) : Text := quote p.1 ++ ':' :: p.2

theorem parseMembers_commas {ps : List (Text × Text)} {ms : List (Text × Value)}
    (h : List.Forall₂ (fun p m => p.1 = m.1 ∧ Spells p.2 m.2) ps ms) (hne : ps ≠ []) {n : ℕ}
    (hn : (commas (ps.map memberText)).length + 1 < n) (rest : Text) :
    parseMembers n (commas (ps.map memberText) ++ '}' :: rest) = some (ms, rest) := by
  induction h generalizing n with
  | nil => exact absurd rfl hne
  | @cons p m ps ms hm hms ih =>
    obtain ⟨k, t⟩ := p
    obtain ⟨k', v⟩ := m
    obtain ⟨rfl, hv⟩ := hm
    obtain ⟨n, rfl⟩ : ∃ m, n = m + 1 := ⟨n - 1, by omega⟩
    rw [List.map_cons, commas_cons, memberText] at hn ⊢
    rw [List.length_append, List.length_append, List.length_cons] at hn
    cases hms with
    | nil =>
      rw [List.map_nil, if_pos rfl, List.append_nil, List.append_assoc, List.cons_append]
      rw [List.map_nil, if_pos rfl, List.length_nil] at hn
      exact parseMembers_last (hv.read n _ (by omega) (stops_brace rest))
    | cons hm' hms' =>
      rw [if_neg (by simp), List.length_cons] at hn
      have hitems := ih (by simp) (n := n) (by omega)
      rw [if_neg (by simp), List.append_assoc, List.append_assoc, List.cons_append, List.cons_append]
      exact parseMembers_more (hv.read n _ (by omega) (stops_comma _)) hitems

theorem spells_obj {ps : List (Text × Text)} {ms : List (Text × Value)}
    (h : List.Forall₂ (fun p m => p.1 = m.1 ∧ Spells p.2 m.2) ps ms) :
    Spells ('{' :: (commas (ps.map memberText) ++ ['}'])) (.obj ms) := by
  refine ⟨⟨'{', _, rfl, by decide⟩, fun n rest hn _ => ?_⟩
  obtain ⟨n, rfl⟩ : ∃ m, n = m + 1 := ⟨n - 1, by omega⟩
  simp only [List.length_cons, List.length_append, List.length_nil] at hn
  have hopen : ∀ s, skipSpace ('{' :: s) = '{' :: s := fun s => rfl
  rw [List.cons_append, List.append_assoc, List.singleton_append, parseValue, hopen]
  cases h with
  | nil => rfl
  | @cons p m ps ms hm hms =>
    have hmembers := parseMembers_commas (.cons hm hms) (by simp) (n := n) (by omega) rest
    obtain ⟨u, hu⟩ : ∃ u, commas ((p :: ps).map memberText) ++ '}' :: rest = '"' :: u := by
      rw [List.map_cons, commas_cons]
      exact ⟨_, rfl⟩
    have hfirst : skipSpace ('"' :: u) = '"' :: u := rfl
    rw [hu] at hmembers ⊢
    simp only [hfirst]
    show (parseMembers n ('"' :: u)).map _ = _
    rw [hmembers]
    rfl

mutual

theorem spells_dump : ∀ (j : Json) (s : Str), j.dump = .ok s → ∃ t, s = Utf8.encode t ∧ Spells t (read j)
  | .bool true, s, h => ⟨_, (Except.ok.inj h).symm.trans (by decide +kernel), spells_bool true⟩
  | .bool false, s, h => ⟨_, (Except.ok.inj h).symm.trans (by decide +kernel), spells_bool false⟩
  | .int n, s, h => by
    rw [Json.dump] at h
    obtain rfl := Except.ok.inj h
    exact ⟨_, (encode_isomorphicDecode (decInt_ascii n)).symm, spells_int n⟩
  | .str s', s, h => by
    rw [Json.dump] at h
    obtain ⟨t, rfl⟩ := exists_encode (Json.dumpString_ok_iff.1 ⟨s, h⟩)
    rw [dumpString_encode] at h
    obtain rfl := Except.ok.inj h
    rw [read, textOf_encode]
    exact ⟨_, rfl, spells_quote t⟩
  | .arr items, s, h => by
    rw [Json.dump] at h
    cases hitems : Json.dumpItems items with
    | error e =>
      rw [hitems] at h
      cases h
    | ok ss =>
      rw [hitems] at h
      obtain rfl := Except.ok.inj h
      obtain ⟨ts, rfl, hts⟩ := spells_dumpItems items ss hitems
      refine ⟨_, ?_, spells_arr hts⟩
      dsimp only
      rw [joinComma_encode, Utf8.encode_cons, Utf8.encode_append]
      rfl
  | .obj members, s, h => by
    rw [Json.dump] at h
    cases hmembers : Json.dumpMembers members with
    | error e =>
      rw [hmembers] at h
      cases h
    | ok ss =>
      rw [hmembers] at h
      obtain rfl := Except.ok.inj h
      obtain ⟨ps, rfl, hps⟩ := spells_dumpMembers members ss hmembers
      refine ⟨_, ?_, spells_obj hps⟩
      dsimp only
      rw [← List.map_map, joinComma_encode, Utf8.encode_cons, Utf8.encode_append]
      rfl

theorem spells_dumpItems : ∀ (js : List Json) (ss : List Str), Json.dumpItems js = .ok ss →
    ∃ ts, ss = ts.map Utf8.encode ∧ List.Forall₂ Spells ts (readItems js)
  | [], ss, h => ⟨[], (Except.ok.inj h).symm, .nil⟩
  | j :: js, ss, h => by
    rw [Json.dumpItems] at h
    obtain ⟨s, hs, h⟩ := Except.bind_eq_ok.1 h
    obtain ⟨ss', hss', h⟩ := Except.bind_eq_ok.1 h
    obtain rfl := Except.ok.inj h
    obtain ⟨t, rfl, ht⟩ := spells_dump j s hs
    obtain ⟨ts, rfl, hts⟩ := spells_dumpItems js ss' hss'
    exact ⟨t :: ts, rfl, .cons ht hts⟩

theorem spells_dumpMembers : ∀ (ms : List (Str × Json)) (ss : List Str), Json.dumpMembers ms = .ok ss →
    ∃ ps : List (Text × Text), ss = ps.map (Utf8.encode ∘ memberText) ∧
      List.Forall₂ (fun p m => p.1 = m.1 ∧ Spells p.2 m.2) ps (readMembers ms)
  | [], ss, h => ⟨[], (Except.ok.inj h).symm, .nil⟩
  | (k, j) :: ms, ss, h => by
    rw [Json.dumpMembers] at h
    obtain ⟨s₀, hs₀, h⟩ := Except.bind_eq_ok.1 h
    obtain ⟨s, hs, h⟩ := Except.bind_eq_ok.1 h
    obtain ⟨ss', hss', h⟩ := Except.bind_eq_ok.1 h
    obtain rfl := Except.ok.inj h
    obtain ⟨t₀, rfl⟩ := exists_encode (Json.dumpString_ok_iff.1 ⟨s₀, hs₀⟩)
    obtain ⟨t, rfl, ht⟩ := spells_dump j s hs
    obtain ⟨ps, rfl, hps⟩ := spells_dumpMembers ms ss' hss'
    rw [dumpString_encode] at hs₀
    obtain rfl := Except.ok.inj hs₀
    refine ⟨(t₀, t) :: ps, ?_, .cons ⟨(textOf_encode t₀).symm, ht⟩ hps⟩
    rw [List.map_cons, Function.comp, memberText, Utf8.encode_append, Utf8.encode_cons]
    rfl

end

/-- **What `dump` writes is read**: the browser decodes the body and parses it. -/
theorem parse_dump {j : Json} {s : Str} (h : j.dump = .ok s) :
    ∃ t, Utf8.decode s = some t ∧ Value.parse t = some (read j) := by
  obtain ⟨t, rfl, hspells⟩ := spells_dump j s h
  refine ⟨t, Utf8.decode_encode t, ?_⟩
  have hread := hspells.read (t.length + 1) [] (by omega) (by simp [Stops])
  rw [List.append_nil] at hread
  rw [Value.parse, hread]
  rfl

end NarMusic.Web
