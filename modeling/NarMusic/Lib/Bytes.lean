/-
  Byte strings: the operations of `std::string`, `std::getline` and `std::stoul`
  on lists of bytes.

  Positions are `size_t`: `npos` is `none`, `substr` throws past the end, and a
  difference of two positions wraps around.
-/
import Mathlib.Data.List.Infix
import Mathlib.Data.List.TakeWhile
import Mathlib.Tactic.Common
import Mathlib.Tactic.IntervalCases
import Mathlib.Tactic.Positivity
import Mathlib.Tactic.Ring

namespace Cxx

abbrev Byte := UInt8
abbrev Str := List Byte

/-- The exceptions of the library functions, and any other with its text. -/
inductive Exn where
  | outOfRange
  | invalidArgument
  | typeError
  | other (what : Str)
  deriving DecidableEq, Repr

/-- The bytes of a source literal (UTF-8). -/
def lit (s : String) : Str := s.toList.flatMap String.utf8EncodeChar

/-- `s.find(pat)`. -/
def find (pat : Str) : Str → Option ℕ
  | [] => if pat = [] then some 0 else none
  | c :: s => if pat <+: c :: s then some 0 else (find pat s).map (· + 1)

/-- `s.substr(pos)`. -/
def substr (s : Str) (pos : ℕ) : Except Exn Str :=
  if pos ≤ s.length then .ok (s.drop pos) else .error .outOfRange

/-- `s.substr(pos, len)`. -/
def substrLen (s : Str) (pos len : ℕ) : Except Exn Str := (substr s pos).map (List.take len)

/-- The difference of two positions, as a `size_t`. -/
def sizeSub (a b : ℕ) : ℕ := if b ≤ a then a - b else 2 ^ 64 + a - b

/-- The lines read by `while (std::getline(stream, line, sep))`. -/
def getlines (sep : Byte) : Str → List Str
  | [] => []
  | c :: s =>
    if c = sep then [] :: getlines sep s
    else match getlines sep s with
      | [] => [[c]]
      | l :: ls => (c :: l) :: ls

def isspace (c : Byte) : Bool := c = 32 || (9 ≤ c && c ≤ 13)

def isdigit (c : Byte) : Bool := 48 ≤ c && c ≤ 57

/-- `std::isalnum` in the C locale. -/
def isalnum (c : Byte) : Bool := isdigit c || (65 ≤ c && c ≤ 90) || (97 ≤ c && c ≤ 122)

/-- The value of a string of decimal digits. -/
def digitsVal (ds : Str) : ℕ := ds.foldl (fun v d => 10 * v + (d.toNat - 48)) 0

/-- `std::stoul(s)`, `none` when it throws: blanks, a sign and the longest run of digits are
    read, the rest is ignored, and a negative number wraps around. -/
def stoul (s : Str) : Option ℕ :=
  let t := s.dropWhile isspace
  let neg := t.head? = some 45
  let ds := (if neg ∨ t.head? = some 43 then t.tail else t).takeWhile isdigit
  if ds = [] ∨ 2 ^ 64 ≤ digitsVal ds then none
  else some (if neg then (2 ^ 64 - digitsVal ds) % 2 ^ 64 else digitsVal ds)

/-- `std::stoll(s)`, `none` when it throws. -/
def stoll (s : Str) : Option ℤ :=
  let t := s.dropWhile isspace
  let neg := t.head? = some 45
  let ds := (if neg ∨ t.head? = some 43 then t.tail else t).takeWhile isdigit
  if ds = [] ∨ (if neg then 2 ^ 63 < digitsVal ds else 2 ^ 63 ≤ digitsVal ds) then none
  else some (if neg then -digitsVal ds else digitsVal ds)

/-- `std::tolower` in the C locale. -/
def tolower (c : Byte) : Byte := if 65 ≤ c && c ≤ 90 then c + 32 else c

/-- `std::to_string` of a non-negative number. -/
def dec (n : ℕ) : Str := (Nat.toDigits 10 n).map Char.toUInt8

/-- `%02d` -/
def pad2 (n : ℕ) : Str := if n < 10 then 48 :: dec n else dec n

/-- `std::to_string`. -/
def decInt : ℤ → Str
  | .ofNat n => dec n
  | .negSucc n => 45 :: dec (n + 1)

/-- The C string of `s.c_str()`: the bytes before the first NUL. -/
def cStr (s : Str) : Str := s.takeWhile (· ≠ 0)

/-! ## `find` -/

theorem find_some {pat s : Str} {i : ℕ} (h : find pat s = some i) :
    pat <+: s.drop i ∧ ∀ j < i, ¬ pat <+: s.drop j := by
  induction s generalizing i with
  | nil =>
    unfold find at h
    split_ifs at h with hp
    obtain rfl : 0 = i := by simpa using h
    exact ⟨by simp [hp], by simp⟩
  | cons c s ih =>
    unfold find at h
    split_ifs at h with hp
    · obtain rfl : 0 = i := by simpa using h
      exact ⟨hp, by simp⟩
    · obtain ⟨k, hk, rfl⟩ := Option.map_eq_some_iff.1 h
      obtain ⟨h1, h2⟩ := ih hk
      refine ⟨h1, fun j hj => ?_⟩
      cases j with
      | zero => exact hp
      | succ j => exact h2 j (by omega)

theorem find_eq_some {pat s : Str} {i : ℕ} (h1 : pat <+: s.drop i)
    (h2 : ∀ j < i, ¬ pat <+: s.drop j) (hi : i ≤ s.length) : find pat s = some i := by
  induction s generalizing i with
  | nil =>
    obtain rfl : i = 0 := by simpa using hi
    simpa [find] using h1
  | cons c s ih =>
    unfold find
    cases i with
    | zero => rw [if_pos (by simpa using h1)]
    | succ i =>
      rw [if_neg (by simpa using h2 0 (by omega)),
        ih (i := i) h1 (fun j hj => h2 (j + 1) (by omega)) (by simpa using hi)]
      rfl

theorem find_le {pat s : Str} {i : ℕ} (h : find pat s = some i) : i + pat.length ≤ s.length := by
  induction s generalizing i with
  | nil =>
    unfold find at h
    split_ifs at h with hp
    obtain rfl : 0 = i := by simpa using h
    simp [hp]
  | cons c s ih =>
    unfold find at h
    split_ifs at h with hp
    · obtain rfl : 0 = i := by simpa using h
      simpa using hp.length_le
    · obtain ⟨k, hk, rfl⟩ := Option.map_eq_some_iff.1 h
      have := ih hk
      simp only [List.length_cons]
      omega

/-- An occurrence is found, or an earlier one. -/
theorem exists_find {pat s : Str} {i : ℕ} (h : pat <+: s.drop i) (hi : i ≤ s.length) :
    ∃ j ≤ i, find pat s = some j := by
  induction s generalizing i with
  | nil =>
    rw [List.drop_nil, List.prefix_nil] at h
    exact ⟨0, Nat.zero_le i, if_pos h⟩
  | cons c s ih =>
    by_cases hp : pat <+: c :: s
    · exact ⟨0, Nat.zero_le i, if_pos hp⟩
    · cases i with
      | zero => exact absurd h hp
      | succ i =>
        obtain ⟨j, hj, hfind⟩ := ih h (by simpa using hi)
        exact ⟨j + 1, by omega, by rw [find, if_neg hp, hfind, Option.map_some]⟩

theorem find_eq_none {pat s : Str} (h : ¬ pat <:+: s) : find pat s = none := by
  by_contra hne
  obtain ⟨i, hi⟩ := Option.ne_none_iff_exists'.1 hne
  exact h ((find_some hi).1.isInfix.trans (List.drop_suffix i s).isInfix)

/-- A pattern that ends in a byte is found where the text before that byte ends with the rest of it. -/
theorem find_ending {k left : Str} {c : Byte} (h : ¬ (k ++ [c]) <:+: left) (hk : k <:+ left) (right : Str) :
    find (k ++ [c]) (left ++ c :: right) = some (left.length - k.length) := by
  obtain ⟨front, rfl⟩ := hk
  have hlen : (front ++ k).length - k.length = front.length := by simp
  have hsplit : front ++ k ++ c :: right = front ++ ((k ++ [c]) ++ right) := by simp
  rw [hlen, hsplit]
  refine find_eq_some ?_ (fun j hj hpre => h ?_) (by simp)
  · rw [List.drop_left' rfl]
    exact List.prefix_append _ _
  · have hfit : (k ++ [c]).length ≤ ((front ++ k).drop j).length := by
      simp only [List.length_append, List.length_singleton, List.length_drop]
      omega
    have hle : j ≤ (front ++ k).length := by
      rw [List.length_append]
      omega
    rw [← hsplit, List.drop_append_of_le_length hle] at hpre
    exact (List.prefix_of_prefix_length_le hpre (List.prefix_append _ _) hfit).isInfix.trans
      (List.drop_suffix j _).isInfix

/-- Bytes other than its last one make no occurrence of a pattern. -/
theorem not_infix_append {k left right : Str} {c : Byte} (h : ¬ (k ++ [c]) <:+: left) (hc : c ∉ right) :
    ¬ (k ++ [c]) <:+: left ++ right := by
  induction right using List.reverseRecOn with
  | nil => rwa [List.append_nil]
  | append_singleton right d ih =>
    rw [List.mem_append, not_or] at hc
    rw [← List.append_assoc, List.infix_concat_iff, not_or]
    refine ⟨fun hsuffix => ?_, ih hc.1⟩
    obtain ⟨front, hfront⟩ := hsuffix
    rw [← List.append_assoc] at hfront
    obtain ⟨-, hcd⟩ := List.append_inj' hfront rfl
    exact hc.2 (by simpa using (List.cons.inj hcd).1)

/-- Its last byte makes one only behind the rest of it. -/
theorem not_infix_concat {k left : Str} {c : Byte} (h : ¬ (k ++ [c]) <:+: left) (hk : ¬ k <:+ left) :
    ¬ (k ++ [c]) <:+: left ++ [c] := by
  rw [List.infix_concat_iff, not_or]
  refine ⟨fun hsuffix => hk ?_, h⟩
  obtain ⟨front, hfront⟩ := hsuffix
  rw [← List.append_assoc] at hfront
  exact ⟨front, (List.append_inj' hfront rfl).1⟩

/-- The first occurrence stays the first when bytes are appended. -/
theorem find_append {pat s : Str} {i : ℕ} (h : find pat s = some i) (t : Str) :
    find pat (s ++ t) = some i := by
  obtain ⟨h1, h2⟩ := find_some h
  have hle := find_le h
  refine find_eq_some ?_ (fun j hj hp => h2 j hj ?_) (by simp; omega)
  · rw [List.drop_append_of_le_length (by omega)]
    exact h1.trans (List.prefix_append _ _)
  · rw [List.drop_append_of_le_length (by omega)] at hp
    refine List.prefix_of_prefix_length_le hp (List.prefix_append _ _) ?_
    simp only [List.length_drop]
    omega

/-- Bytes that differ from the first byte of the pattern are skipped. -/
theorem find_skip {c : Byte} {p l : Str} (h : c ∉ l) (s : Str) :
    find (c :: p) (l ++ s) = (find (c :: p) s).map (· + l.length) := by
  induction l with
  | nil => simp
  | cons d l ih =>
    rw [List.mem_cons, not_or] at h
    have hp : ¬ (c :: p) <+: d :: (l ++ s) := fun hp => h.1 (List.cons_prefix_cons.1 hp).1
    rw [List.cons_append, find, if_neg hp, ih h.2, Option.map_map]
    congr 1

theorem find_head {pat s : Str} (h : pat <+: s) : find pat s = some 0 := by
  cases s with
  | nil => simp [find, List.prefix_nil.1 h]
  | cons c s => rw [find, if_pos h]

/-- A byte is found where the text before it ends. -/
theorem find_byte {c : Byte} {l : Str} (h : c ∉ l) (s : Str) :
    find [c] (l ++ c :: s) = some l.length := by
  rw [find_skip h, find_head (by simp)]
  simp

theorem find_byte_none {c : Byte} {l : Str} (h : c ∉ l) : find [c] l = none := by
  have := find_skip (p := []) h []
  simpa [find] using this

/-! ## Texts with a separator between them -/

theorem intercalate_cons {x : Byte} (l : Str) (ls : List Str) :
    [x].intercalate (l :: ls) = l ++ ls.flatMap (x :: ·) := by
  induction ls generalizing l with
  | nil => simp
  | cons l' ls ih =>
    rw [List.intercalate_cons_cons, ih, List.flatMap_cons, List.append_assoc]
    rfl

/-- Texts with the separator behind each. -/
theorem flatMap_sep {x : Byte} (l : Str) (ls : List Str) :
    (l :: ls).flatMap (· ++ [x]) = [x].intercalate (l :: ls) ++ [x] := by
  induction ls generalizing l with
  | nil => simp
  | cons l' ls ih =>
    rw [List.flatMap_cons, ih, List.intercalate_cons_cons]
    simp

/-! ## `substr` -/

theorem substr_append (a b : Str) : substr (a ++ b) a.length = .ok b := by
  simp [substr]

theorem substrLen_append (a b c : Str) :
    substrLen (a ++ (b ++ c)) a.length b.length = .ok b := by
  simp [substrLen, substr, Except.map]

theorem sizeSub_append (a b : Str) : sizeSub (a ++ b).length a.length = b.length := by
  simp [sizeSub]

/-! ## `getline` -/

theorem getlines_sep {sep : Byte} {l : Str} (h : sep ∉ l) (s : Str) :
    getlines sep (l ++ sep :: s) = l :: getlines sep s := by
  induction l with
  | nil => simp [getlines]
  | cons c l ih =>
    rw [List.mem_cons, not_or] at h
    simp [getlines, ih h.2, Ne.symm h.1]

/-- Lines that end in a separator are read back. -/
theorem getlines_flatMap {sep : Byte} {ls : List Str} (h : ∀ l ∈ ls, sep ∉ l) :
    getlines sep (ls.flatMap (· ++ [sep])) = ls := by
  induction ls with
  | nil => rfl
  | cons l ls ih =>
    rw [List.flatMap_cons, List.append_assoc, List.singleton_append,
      getlines_sep (h l List.mem_cons_self), ih fun l hl => h l (List.mem_cons_of_mem _ hl)]

theorem notMem_of_mem_getlines {sep : Byte} {s l : Str} (h : l ∈ getlines sep s) : sep ∉ l := by
  induction s generalizing l with
  | nil => cases h
  | cons c s ih =>
    rw [getlines] at h
    split_ifs at h with hc
    · rcases List.mem_cons.1 h with rfl | h
      · exact List.not_mem_nil
      · exact ih h
    · cases hs : getlines sep s with
      | nil =>
        obtain rfl : l = [c] := by simpa [hs] using h
        simpa using Ne.symm hc
      | cons d ls =>
        rw [hs] at h ih
        rcases List.mem_cons.1 h with rfl | h
        · rw [List.mem_cons, not_or]
          exact ⟨Ne.symm hc, ih List.mem_cons_self⟩
        · exact ih (List.mem_cons_of_mem _ h)

theorem getlines_last {sep : Byte} {l : Str} (h : sep ∉ l) (hl : l ≠ []) :
    getlines sep l = [l] := by
  induction l with
  | nil => exact absurd rfl hl
  | cons c l ih =>
    rw [List.mem_cons, not_or] at h
    cases l with
    | nil => simp [getlines, Ne.symm h.1]
    | cons d l =>
      have := ih h.2 (by simp)
      rw [getlines, this, if_neg (Ne.symm h.1)]

/-- A text is some whole lines and an unfinished one. -/
theorem getlines_unfinished (sep : Byte) (s : Str) :
    ∃ whole last, sep ∉ last ∧ ∀ t, getlines sep (s ++ t) = whole ++ getlines sep (last ++ t) := by
  induction s with
  | nil => exact ⟨[], [], List.not_mem_nil, fun t => rfl⟩
  | cons c s ih =>
    obtain ⟨whole, last, hlast, hlines⟩ := ih
    by_cases hc : c = sep
    · refine ⟨[] :: whole, last, hlast, fun t => ?_⟩
      rw [List.cons_append, getlines, if_pos hc, hlines, List.cons_append]
    · cases whole with
      | nil =>
        refine ⟨[], c :: last, by simp [Ne.symm hc, hlast], fun t => ?_⟩
        have ht : getlines sep (s ++ t) = getlines sep (last ++ t) := hlines t
        rw [List.cons_append, List.cons_append, getlines, if_neg hc, ht, getlines, if_neg hc,
          List.nil_append]
      | cons l ls =>
        refine ⟨(c :: l) :: ls, last, hlast, fun t => ?_⟩
        rw [List.cons_append, getlines, if_neg hc, hlines]
        rfl

/-! ## Decimal numbers -/

theorem digitChar_toNat {d : ℕ} (h : d < 10) : (Nat.digitChar d).toUInt8.toNat = 48 + d := by
  interval_cases d <;> rfl

theorem isdigit_iff {c : Byte} : isdigit c = true ↔ 48 ≤ c.toNat ∧ c.toNat ≤ 57 := by
  rw [isdigit, Bool.and_eq_true, decide_eq_true_eq, decide_eq_true_eq]
  rfl

theorem isdigit_plain {c : Byte} (h : isdigit c = true) : isspace c = false ∧ c ≠ 45 ∧ c ≠ 43 := by
  simp only [isdigit, isspace, Bool.and_eq_true, decide_eq_true_eq, UInt8.le_iff_toNat_le,
    Bool.or_eq_false_iff, Bool.and_eq_false_iff, decide_eq_false_iff_not, ne_eq,
    ← UInt8.toNat_inj] at h ⊢
  simp only [UInt8.reduceToNat] at h ⊢
  omega

/-- Quantified over the bytes of the text, not over all bytes, for `decide`. -/
theorem digits_of_all {s : Str} (h : s ≠ [] ∧ s.all isdigit = true) : s ≠ [] ∧ ∀ c ∈ s, isdigit c = true :=
  h.imp_right List.all_eq_true.1

theorem notMem_digits {c : Byte} (hc : isdigit c = false) {ds : Str} (h : ∀ d ∈ ds, isdigit d = true) :
    c ∉ ds := by
  intro hmem
  rw [h c hmem] at hc
  cases hc

theorem isdigit_dec (n : ℕ) : ∀ c ∈ dec n, isdigit c = true := by
  induction n using Nat.strong_induction_on with
  | _ n ih =>
    have hd : ∀ d < 10, isdigit (Nat.digitChar d).toUInt8 = true := by decide
    intro c hc
    rw [dec, Nat.toDigits_eq_if (by omega)] at hc
    split_ifs at hc with hn
    · obtain rfl : c = (Nat.digitChar n).toUInt8 := by simpa using hc
      exact hd n hn
    · rw [List.map_append, List.mem_append] at hc
      rcases hc with hc | hc
      · exact ih (n / 10) (by omega) c hc
      · obtain rfl : c = (Nat.digitChar (n % 10)).toUInt8 := by simpa using hc
        exact hd _ (Nat.mod_lt _ (by omega))

theorem dec_ne_nil (n : ℕ) : dec n ≠ [] := by
  simp [dec, Nat.toDigits_ne_nil]

theorem digitsVal_dec (n : ℕ) : digitsVal (dec n) = n := by
  induction n using Nat.strong_induction_on with
  | _ n ih =>
    unfold dec
    rw [Nat.toDigits_eq_if (by omega)]
    split_ifs with hn
    · simp [digitsVal, digitChar_toNat hn]
    · have h := ih (n / 10) (by omega)
      unfold dec digitsVal at h
      rw [List.map_append, digitsVal, List.foldl_append, h]
      simp only [List.map_cons, List.map_nil, List.foldl_cons, List.foldl_nil,
        digitChar_toNat (Nat.mod_lt n (show 0 < 10 by omega))]
      omega

theorem dec_injective : Function.Injective dec := by
  intro m n h
  rw [← digitsVal_dec m, h, digitsVal_dec]

theorem digitsVal_pad2 (n : ℕ) : digitsVal (pad2 n) = n := by
  unfold pad2
  split_ifs
  · exact digitsVal_dec n
  · exact digitsVal_dec n

theorem pad2_injective : Function.Injective pad2 := by
  intro m n h
  rw [← digitsVal_pad2 m, h, digitsVal_pad2]

theorem length_pad2 {n : ℕ} (h : n < 100) : (pad2 n).length = 2 := by
  interval_cases n <;> rfl

/-- A number has digits, and perhaps the minus sign. -/
theorem mem_decInt {n : ℤ} {c : Byte} (h : c ∈ decInt n) : c = 45 ∨ isdigit c = true := by
  cases n with
  | ofNat k => exact Or.inr (isdigit_dec k c h)
  | negSucc k => exact (List.mem_cons.1 h).imp_right (isdigit_dec _ c)

theorem decInt_ascii (n : ℤ) : ∀ c ∈ decInt n, c < 0x80 := by
  intro c hc
  have hlt : c.toNat < 128 := by
    rcases mem_decInt hc with rfl | hdigit
    · decide
    · have hrange := isdigit_iff.1 hdigit
      omega
  exact UInt8.lt_iff_toNat_lt.2 hlt

theorem decInt_ne_zero (n : ℤ) : ∀ c ∈ decInt n, c ≠ 0 := by
  rintro c hc rfl
  rcases mem_decInt hc with hminus | hdigit
  · cases hminus
  · cases hdigit

theorem decInt_injective : Function.Injective decInt := by
  -- a number without a sign does not begin with one
  have hsign : ∀ k s, dec k ≠ 45 :: s := by
    intro k s h
    exact (isdigit_plain (isdigit_dec k 45 (by simp [h]))).2.1 rfl
  intro m n h
  cases m with
  | ofNat k =>
    cases n with
    | ofNat l => exact congrArg Int.ofNat (dec_injective h)
    | negSucc l => exact absurd h (hsign k _)
  | negSucc k =>
    cases n with
    | ofNat l => exact absurd h.symm (hsign l _)
    | negSucc l =>
      have heq := dec_injective (List.cons.inj h).2
      exact congrArg Int.negSucc (by omega)

/-- A text is split at its last separator in one way. -/
theorem append_sep_inj {sep : Byte} {a b s t : Str} (hs : sep ∉ s) (ht : sep ∉ t) :
    a ++ sep :: s = b ++ sep :: t ↔ a = b ∧ s = t := by
  constructor
  · intro h
    rcases List.append_eq_append_iff.1 h with ⟨mid, rfl, hmid⟩ | ⟨mid, rfl, hmid⟩
    · rcases List.cons_eq_append_iff.1 hmid with ⟨rfl, htail⟩ | ⟨mid', rfl, rfl⟩
      · exact ⟨(List.append_nil a).symm, (List.cons.inj htail).2.symm⟩
      · exact absurd (by simp) hs
    · rcases List.cons_eq_append_iff.1 hmid with ⟨rfl, htail⟩ | ⟨mid', rfl, rfl⟩
      · exact ⟨List.append_nil b, (List.cons.inj htail).2⟩
      · exact absurd (by simp) ht
  · rintro ⟨rfl, rfl⟩
    rfl

@[simp] theorem cStr_cStr (s : Str) : cStr (cStr s) = cStr s := by
  simp [cStr, List.takeWhile_takeWhile]

theorem cStr_eq_self {s : Str} (h : ∀ c ∈ s, c ≠ 0) : cStr s = s :=
  List.takeWhile_eq_self_iff.2 fun c hc => decide_eq_true (h c hc)

theorem cStr_of_notMem {s : Str} (h : 0 ∉ s) : cStr s = s :=
  cStr_eq_self fun _ hc heq => h (heq ▸ hc)

theorem cStr_append {a : Str} (h : 0 ∉ a) (b : Str) : cStr (a ++ b) = a ++ cStr b := by
  unfold cStr
  refine List.takeWhile_append_of_pos fun c hc => ?_
  simp only [decide_eq_true_eq]
  rintro rfl
  exact h hc

theorem cStr_append_of_mem {a : Str} (h : 0 ∈ a) (b : Str) : cStr (a ++ b) = cStr a := by
  induction a with
  | nil => cases h
  | cons c a ih =>
    by_cases hc : c = 0
    · simp [cStr, hc]
    · have hmem : 0 ∈ a := (List.mem_cons.1 h).resolve_left (Ne.symm hc)
      simp only [cStr, List.cons_append, List.takeWhile_cons, hc, ne_eq, not_false_iff, decide_true,
        if_true]
      exact congrArg (c :: ·) (ih hmem)

/-- Digits have no blanks and no sign in front. -/
theorem digits_plain {s : Str} (hs : ∀ c ∈ s, isdigit c = true) (hne : s ≠ []) :
    s.dropWhile isspace = s ∧ s.takeWhile isdigit = s ∧ s.head? ≠ some 45 ∧ s.head? ≠ some 43 := by
  obtain ⟨c, t, rfl⟩ := List.exists_cons_of_ne_nil hne
  obtain ⟨hspace, hminus, hplus⟩ := isdigit_plain (hs c List.mem_cons_self)
  exact ⟨by simp [hspace], List.takeWhile_eq_self_iff.2 hs, by simp [hminus], by simp [hplus]⟩

/-- `stoul` reads digits. -/
theorem stoul_digits {s : Str} (hs : ∀ c ∈ s, isdigit c = true) (hne : s ≠ []) (h : digitsVal s < 2 ^ 64) :
    stoul s = some (digitsVal s) := by
  obtain ⟨hdrop, htake, hminus, hplus⟩ := digits_plain hs hne
  simp only [stoul, hdrop, hminus, hplus, or_self, if_false, htake, hne, false_or]
  rw [if_neg (by omega)]

theorem stoll_digits {s : Str} (hs : ∀ c ∈ s, isdigit c = true) (hne : s ≠ []) :
    stoll s = if digitsVal s < 2 ^ 63 then some ↑(digitsVal s) else none := by
  obtain ⟨hdrop, htake, hminus, hplus⟩ := digits_plain hs hne
  simp only [stoll, hdrop, hminus, hplus, or_self, if_false, htake, hne, false_or]
  split_ifs <;> first | rfl | omega

/-- `stoul` reads back what `to_string` wrote. -/
theorem stoul_dec {n : ℕ} (h : n < 2 ^ 64) : stoul (dec n) = some n := by
  have hdigits := stoul_digits (isdigit_dec n) (dec_ne_nil n) (by rwa [digitsVal_dec])
  rwa [digitsVal_dec] at hdigits

/-- Blanks before a number are skipped. -/
theorem stoul_blanks (k : ℕ) (s : Str) : stoul (List.replicate k 32 ++ s) = stoul s := by
  have hdrop : (List.replicate k 32 ++ s).dropWhile isspace = s.dropWhile isspace := by
    refine List.dropWhile_append_of_pos fun c hc => ?_
    rw [List.eq_of_mem_replicate hc]
    rfl
  unfold stoul
  rw [hdrop]

theorem foldl_digits (v : ℕ) (ds : Str) :
    ds.foldl (fun v d => 10 * v + (d.toNat - 48)) v = v * 10 ^ ds.length + digitsVal ds := by
  induction ds generalizing v with
  | nil => simp [digitsVal]
  | cons d ds ih =>
    rw [digitsVal, List.foldl_cons, List.foldl_cons, ih, ih, List.length_cons, pow_succ]
    ring

theorem digitsVal_lt {ds : Str} (h : ∀ c ∈ ds, isdigit c = true) : digitsVal ds < 10 ^ ds.length := by
  induction ds with
  | nil => exact Nat.one_pos
  | cons d ds ih =>
    have hd : d.toNat - 48 < 10 := by
      have hdigit := isdigit_iff.1 (h d List.mem_cons_self)
      omega
    have hds := ih fun c hc => h c (List.mem_cons_of_mem _ hc)
    have hmul := Nat.mul_le_mul_right (10 ^ ds.length) (Nat.le_of_lt_succ hd)
    rw [digitsVal, List.foldl_cons, foldl_digits, List.length_cons, pow_succ, Nat.mul_zero, Nat.zero_add]
    omega

theorem dec_head {n : ℕ} (hn : 0 < n) : (dec n).head? ≠ some 48 := by
  induction n using Nat.strong_induction_on with
  | _ n ih =>
    have hd : ∀ d < 10, 0 < d → (Nat.digitChar d).toUInt8 ≠ 48 := by decide
    unfold dec
    rw [Nat.toDigits_eq_if (by omega)]
    split_ifs with hlt
    · simpa using hd n hlt hn
    · have hne : (Nat.toDigits 10 (n / 10)).map Char.toUInt8 ≠ [] := dec_ne_nil (n / 10)
      rw [List.map_append, List.head?_append_of_ne_nil _ hne]
      exact ih (n / 10) (by omega) (by omega)

/-- A number without its first digit is smaller. -/
theorem stoul_dec_tail {n : ℕ} (h : n < 2 ^ 64) :
    (stoul (dec n).tail).getD 0 ≤ n ∧ (0 < n → (stoul (dec n).tail).getD 0 < n) := by
  obtain ⟨d, ds, hds⟩ := List.exists_cons_of_ne_nil (dec_ne_nil n)
  have hval := digitsVal_dec n
  rw [hds, digitsVal, List.foldl_cons, foldl_digits] at hval
  have hle : digitsVal ds ≤ n := by omega
  have hdigits : ∀ c ∈ d :: ds, isdigit c = true := hds ▸ isdigit_dec n
  have hread : (stoul ds).getD 0 = digitsVal ds := by
    cases ds with
    | nil => rfl
    | cons e es =>
      rw [stoul_digits (fun c hc => hdigits c (List.mem_cons_of_mem _ hc)) (by simp) (by omega)]
      rfl
  rw [hds, List.tail_cons, hread]
  refine ⟨hle, fun hn => ?_⟩
  have hne : d ≠ 48 := by
    rintro rfl
    exact dec_head hn (by rw [hds]; rfl)
  have hd : 0 < d.toNat - 48 := by
    have hrange := isdigit_iff.1 (hdigits d List.mem_cons_self)
    have h48 : d.toNat ≠ 48 := fun heq => hne (UInt8.toNat_inj.1 heq)
    omega
  have hpos : 0 < (10 * 0 + (d.toNat - 48)) * 10 ^ ds.length := by positivity
  omega

end Cxx
