/-
  The query of a request (`core/http/request.cpp`): `urlDecode` against the
  decoder of forms, and `queryParam` against the pairs of the query.

  `urlDecode` always takes two bytes behind a percent sign and leaves them to the
  extraction of a number.  `queryParam` looks for the key anywhere in the query.
-/
import NarMusic.Http.Response
import NarMusic.Lib.Utf8

namespace NarMusic

open Cxx

/-! ## Decoding -/

/-- `before n` is what the local `hex` holds when `n` bytes are left, which is nothing in
    particular. -/
def Request.urlDecode (before : ℕ → ℤ) : Str → Str
  | [] => []
  | c :: s =>
    if c = 37 then
      match s with
      | a :: b :: t => UInt8.ofInt (readHex (before (t.length + 3)) [a, b]) :: urlDecode before t
      | [a] => c :: urlDecode before [a]
      | [] => [c]
    else if c = 43 then 32 :: urlDecode before s
    else c :: urlDecode before s

/-- The decoder of `application/x-www-form-urlencoded`: a percent sign counts only before two
    hexadecimal digits. -/
def formDecode : Str → Str
  | [] => []
  | c :: s =>
    if c = 37 then
      match s with
      | a :: b :: t =>
        if isxdigit a && isxdigit b then UInt8.ofNat (16 * hexVal a + hexVal b) :: formDecode t
        else c :: formDecode (a :: b :: t)
      | [a] => c :: formDecode [a]
      | [] => [c]
    else if c = 43 then 32 :: formDecode s
    else c :: formDecode s

/-- Every percent sign with two bytes behind it is followed by two hexadecimal digits. -/
def WellEscaped (s : Str) : Prop :=
  ∀ before a b after, s = before ++ 37 :: a :: b :: after → isxdigit a = true ∧ isxdigit b = true

theorem wellEscaped_short {s : Str} (hs : s.length < 3) : WellEscaped s := by
  rintro before a b after rfl
  simp only [List.length_append, List.length_cons] at hs
  omega

theorem wellEscaped_tail {c : Byte} {s : Str} (h : WellEscaped (c :: s)) : WellEscaped s :=
  fun before a b after hs => h (c :: before) a b after (by rw [hs]; rfl)

theorem wellEscaped_cons {c : Byte} {s : Str} (hc : c ≠ 37) : WellEscaped (c :: s) ↔ WellEscaped s := by
  refine ⟨wellEscaped_tail, fun h before a b after hs => ?_⟩
  rcases List.cons_eq_append_iff.1 hs with ⟨rfl, hcons⟩ | ⟨before', rfl, htail⟩
  · exact absurd (List.cons.inj hcons).1.symm hc
  · exact h before' a b after htail

theorem wellEscaped_escape {a b : Byte} {t : Str} :
    WellEscaped (37 :: a :: b :: t) ↔ (isxdigit a = true ∧ isxdigit b = true) ∧ WellEscaped t := by
  constructor
  · intro h
    exact ⟨h [] a b t rfl, wellEscaped_tail (wellEscaped_tail (wellEscaped_tail h))⟩
  · rintro ⟨⟨ha, hb⟩, ht⟩ before x y after hs
    rcases List.cons_eq_append_iff.1 hs with ⟨rfl, hcons⟩ | ⟨before', rfl, htail⟩
    · cases hcons
      exact ⟨ha, hb⟩
    · have hinner : WellEscaped (a :: b :: t) := by
        rwa [wellEscaped_cons (isxdigit_plain ha).2.2.2, wellEscaped_cons (isxdigit_plain hb).2.2.2]
      exact hinner before' x y after htail

namespace Request

variable (before : ℕ → ℤ)

theorem urlDecode_escape (a b : Byte) (t : Str) : urlDecode before (37 :: a :: b :: t) =
    UInt8.ofInt (readHex (before (t.length + 3)) [a, b]) :: urlDecode before t := by
  rw [urlDecode, if_pos rfl]

theorem formDecode_literal {c : Byte} (hc : c ≠ 37) (s : Str) :
    formDecode (c :: s) = (if c = 43 then 32 else c) :: formDecode s := by
  rw [formDecode.eq_def]
  dsimp only
  rw [if_neg hc]
  split_ifs <;> rfl

theorem urlDecode_literal {c : Byte} (hc : c ≠ 37) (s : Str) :
    urlDecode before (c :: s) = (if c = 43 then 32 else c) :: urlDecode before s := by
  rw [urlDecode.eq_def]
  dsimp only
  rw [if_neg hc]
  split_ifs <;> rfl

theorem formDecode_escape (a b : Byte) (t : Str) : formDecode (37 :: a :: b :: t) =
    if isxdigit a = true ∧ isxdigit b = true then
      UInt8.ofNat (16 * hexVal a + hexVal b) :: formDecode t
    else 37 :: formDecode (a :: b :: t) := by
  rw [formDecode, if_pos rfl]
  simp only [Bool.and_eq_true]

theorem urlDecode_short {s : Str} (hs : s.length < 2) :
    urlDecode before (37 :: s) = 37 :: urlDecode before s := by
  match s with
  | [] => rfl
  | [a] => rw [urlDecode, if_pos rfl]

theorem formDecode_short {s : Str} (hs : s.length < 2) : formDecode (37 :: s) = 37 :: formDecode s := by
  match s with
  | [] => rfl
  | [a] => rw [formDecode, if_pos rfl]

/-- One byte in front is one byte more, or it begins an escape. -/
theorem length_formDecode_cons (c : Byte) (s : Str) :
    (formDecode (c :: s)).length = (formDecode s).length + 1 ∨
      ∃ a b t, s = a :: b :: t ∧ (isxdigit a = true ∧ isxdigit b = true) ∧
        (formDecode (c :: s)).length = (formDecode t).length + 1 := by
  by_cases hc : c = 37
  · subst hc
    match s with
    | [] => exact Or.inl (congrArg List.length (formDecode_short (by simp)))
    | [a] => exact Or.inl (congrArg List.length (formDecode_short (by simp)))
    | a :: b :: t =>
      rw [formDecode_escape]
      by_cases hdigits : isxdigit a = true ∧ isxdigit b = true
      · rw [if_pos hdigits]
        exact Or.inr ⟨a, b, t, rfl, hdigits, rfl⟩
      · rw [if_neg hdigits]
        exact Or.inl rfl
  · rw [formDecode_literal hc]
    exact Or.inl rfl

/-- The code never writes more bytes than the decoder of forms. -/
theorem length_urlDecode_le (s : Str) : (urlDecode before s).length ≤ (formDecode s).length := by
  induction hn : s.length using Nat.strong_induction_on generalizing s with
  | _ n ih =>
    subst hn
    have hdigit : ∀ (d : Byte) (t : Str), isxdigit d = true →
        (urlDecode before (d :: t)).length = (urlDecode before t).length + 1 := by
      intro d t hd
      rw [urlDecode_literal before (isxdigit_plain hd).2.2.2]
      rfl
    -- a byte in front of the rest, and two bytes in front of it
    have hone : ∀ (b : Byte) (t : Str), t.length < s.length →
        (urlDecode before t).length ≤ (formDecode (b :: t)).length + 1 := by
      intro b t ht
      rcases length_formDecode_cons b t with hlen | ⟨x, y, u, rfl, ⟨hx, hy⟩, hlen⟩
      · have := ih t.length ht t rfl
        omega
      · have := ih u.length (by simp at ht; omega) u rfl
        rw [hdigit x _ hx, hdigit y _ hy]
        omega
    have htwo : ∀ (a b : Byte) (t : Str), t.length < s.length →
        (urlDecode before t).length ≤ (formDecode (a :: b :: t)).length := by
      intro a b t ht
      rcases length_formDecode_cons a (b :: t) with hlen | ⟨x, y, u, hcons, ⟨-, hy⟩, hlen⟩
      · have := hone b t ht
        omega
      · obtain ⟨-, rfl⟩ := List.cons.inj hcons
        have := ih u.length (by simp at ht; omega) u rfl
        rw [hdigit y _ hy]
        omega
    cases s with
    | nil => exact le_rfl
    | cons c s =>
      have htail := ih s.length (by simp) s rfl
      by_cases hc : c = 37
      · subst hc
        match s with
        | [] => exact le_rfl
        | [a] =>
          rw [urlDecode_short before (by simp), formDecode_short (by simp)]
          exact Nat.succ_le_succ htail
        | a :: b :: t =>
          have hrest := ih t.length (by simp; omega) t rfl
          rw [urlDecode_escape, formDecode_escape]
          split_ifs
          · exact Nat.succ_le_succ hrest
          · exact Nat.succ_le_succ (htwo a b t (by simp; omega))
      · rw [urlDecode_literal before hc, formDecode_literal hc]
        exact Nat.succ_le_succ htail

/-- A byte read from at most one digit is not the percent sign. -/
theorem ofInt_ne_percent {n : ℤ} (h : -16 < n ∧ n < 16) : UInt8.ofInt n ≠ 37 := by
  obtain ⟨hlow, hhigh⟩ := h
  interval_cases n <;> decide

/-- Other bytes behind a percent sign are decoded in another way. -/
theorem urlDecode_bad {a b : Byte} (h : ¬ (isxdigit a = true ∧ isxdigit b = true)) (t : Str) :
    urlDecode before (37 :: a :: b :: t) ≠ formDecode (37 :: a :: b :: t) := by
  rw [urlDecode_escape, formDecode_escape, if_neg h]
  intro heq
  obtain ⟨hbyte, htail⟩ := List.cons.inj heq
  by_cases hspace : isspace a = true ∧ isspace b = true
  · have hlen := congrArg List.length htail
    have hle := length_urlDecode_le before t
    have hplain : ∀ c : Byte, isspace c = true → c ≠ 37 := by
      rintro c hc rfl
      cases hc
    rw [formDecode_literal (hplain a hspace.1), formDecode_literal (hplain b hspace.2), List.length_cons,
      List.length_cons] at hlen
    omega
  · exact ofInt_ne_percent (readHex_small _ h hspace) hbyte

theorem urlDecode_iff (s : Str) : urlDecode before s = formDecode s ↔ WellEscaped s := by
  have hliteral : ∀ (c : Byte) (s : Str), c ≠ 37 → (urlDecode before s = formDecode s ↔ WellEscaped s) →
      (urlDecode before (c :: s) = formDecode (c :: s) ↔ WellEscaped (c :: s)) := by
    intro c s hc ih
    rw [urlDecode_literal before hc, formDecode_literal hc, wellEscaped_cons hc, ← ih]
    simp
  induction s using urlDecode.induct with
  | case1 => exact ⟨fun _ => wellEscaped_short (by simp), fun _ => rfl⟩
  | case2 a b t ih =>
    rw [wellEscaped_escape]
    by_cases hdigits : isxdigit a = true ∧ isxdigit b = true
    · rw [urlDecode_escape, formDecode_escape, if_pos hdigits, readHex_two _ hdigits.1 hdigits.2,
        ofInt_natCast]
      simp [hdigits, ih]
    · simp only [hdigits, false_and, iff_false]
      exact urlDecode_bad before hdigits t
  | case3 a ih =>
    rw [urlDecode_short before (by simp), formDecode_short (by simp)]
    exact ⟨fun _ => wellEscaped_short (by simp), fun _ => congrArg _ (ih.2 (wellEscaped_short (by simp)))⟩
  | case4 => exact ⟨fun _ => wellEscaped_short (by simp), fun _ => rfl⟩
  | case5 s hc ih => exact hliteral 43 s hc ih
  | case6 c s hc hplus ih => exact hliteral c s hc ih

/-- Two other bytes behind a percent sign are lost. -/
theorem percent_lost : urlDecode (fun _ => 0) (lit "%zz") ≠ formDecode (lit "%zz") := by
  decide +kernel

/-! ## Pairs of a query -/

/-- `queryParam(key)`. -/
def queryParam (req : Request) (key : Str) : Str :=
  if req.queryString = [] then []
  else match Cxx.find (key ++ [61]) req.queryString with
    | none => []
    | some pos =>
      let value := req.queryString.drop (pos + (key.length + 1))
      urlDecode before (match Cxx.find [38] value with
        | some last => value.take last
        | none => value)

end Request

/-- The bytes `encodeURIComponent` leaves as they are. -/
def isUriUnreserved (c : Byte) : Bool := Response.isUnreserved c || (lit "!*'()").contains c

/-- `encodeURIComponent` of a text. -/
def encodeURIComponent (value : List Char) : Str :=
  (Utf8.encode value).flatMap fun c =>
    if isUriUnreserved c then [c] else [37, Response.hexUpper (c / 16), Response.hexUpper (c % 16)]

/-- Pairs joined to a query. -/
def joinQuery : List (Str × List Char) → Str
  | [] => []
  | [p] => p.1 ++ 61 :: encodeURIComponent p.2
  | p :: p' :: ps => p.1 ++ 61 :: (encodeURIComponent p.2 ++ 38 :: joinQuery (p' :: ps))

/-- The first pair up to whose equals sign the query, with `left` before the pairs, ends with
    the key. -/
def firstEnding (key left : Str) : List (Str × List Char) → Option (List Char)
  | [] => none
  | p :: ps =>
    if key <:+ left ++ p.1 then some p.2
    else firstEnding key (left ++ p.1 ++ 61 :: (encodeURIComponent p.2 ++ [38])) ps

/-- The value of the first pair with the name. -/
def firstNamed (key : Str) (ps : List (Str × List Char)) : Option (List Char) :=
  (ps.find? fun p => p.1 = key).map (·.2)

namespace Request

variable (before : ℕ → ℤ)

theorem hexUpper_digit {n : Byte} (h : n < 16) :
    isxdigit (Response.hexUpper n) = true ∧ hexVal (Response.hexUpper n) = n.toNat := by
  have hall : ∀ m < 16, isxdigit (Response.hexUpper (.ofNat m)) = true ∧
      hexVal (Response.hexUpper (.ofNat m)) = m := by decide
  simpa using hall n.toNat (UInt8.lt_iff_toNat_lt.1 h)

/-- No byte that stays as it is has a meaning in a query. -/
theorem isUriUnreserved_spec {c : Byte} (h : isUriUnreserved c = true) :
    c ≠ 37 ∧ c ≠ 43 ∧ c ≠ 61 ∧ c ≠ 38 := by
  have hall : ∀ m < 256, isUriUnreserved (.ofNat m) = true →
      UInt8.ofNat m ≠ 37 ∧ UInt8.ofNat m ≠ 43 ∧ UInt8.ofNat m ≠ 61 ∧ UInt8.ofNat m ≠ 38 := by
    decide +kernel
  simpa using hall c.toNat c.toNat_lt (by simpa using h)

theorem urlDecode_encode (value : List Char) :
    urlDecode before (encodeURIComponent value) = Utf8.encode value := by
  unfold encodeURIComponent
  induction Utf8.encode value with
  | nil => rfl
  | cons c s ih =>
    rw [List.flatMap_cons]
    split_ifs with hc
    · obtain ⟨hpercent, hplus, -, -⟩ := isUriUnreserved_spec hc
      rw [List.singleton_append, urlDecode_literal before hpercent, if_neg hplus, ih]
    · obtain ⟨hhigh, hlow⟩ := nibbles c
      rw [List.cons_append, List.cons_append, List.singleton_append, urlDecode_escape,
        readHex_two _ (hexUpper_digit hhigh).1 (hexUpper_digit hlow).1, (hexUpper_digit hhigh).2,
        (hexUpper_digit hlow).2, Nat.mul_comm, nibbles_join, ofInt_natCast, UInt8.ofNat_toNat, ih]

theorem encodeURIComponent_plain (value : List Char) :
    61 ∉ encodeURIComponent value ∧ 38 ∉ encodeURIComponent value := by
  have hall : ∀ b ∈ encodeURIComponent value, b ≠ 61 ∧ b ≠ 38 := by
    intro b hb
    obtain ⟨c, -, hb⟩ := List.mem_flatMap.1 hb
    split_ifs at hb with hc
    · obtain rfl := List.mem_singleton.1 hb
      exact (isUriUnreserved_spec hc).2.2
    · have hdigit : ∀ n : Byte, n < 16 → Response.hexUpper n ≠ 61 ∧ Response.hexUpper n ≠ 38 := by
        intro n hn
        have hkept : isUriUnreserved (Response.hexUpper n) = true := by
          rw [isUriUnreserved, Response.hexUpper_unreserved hn, Bool.true_or]
        exact (isUriUnreserved_spec hkept).2.2
      obtain ⟨hhigh, hlow⟩ := nibbles c
      simp only [List.mem_cons, List.not_mem_nil, or_false] at hb
      rcases hb with rfl | rfl | rfl
      · decide
      · exact hdigit _ hhigh
      · exact hdigit _ hlow
  exact ⟨fun h => (hall _ h).1 rfl, fun h => (hall _ h).2 rfl⟩

/-- A query is its first pair, with the other pairs behind an ampersand. -/
theorem joinQuery_cons (p : Str × List Char) (ps : List (Str × List Char)) :
    ∃ tail, joinQuery (p :: ps) = p.1 ++ 61 :: (encodeURIComponent p.2 ++ tail) ∧
      (ps = [] ∧ tail = [] ∨ tail = 38 :: joinQuery ps) := by
  cases ps with
  | nil => exact ⟨[], by simp [joinQuery], Or.inl ⟨rfl, rfl⟩⟩
  | cons p' ps => exact ⟨38 :: joinQuery (p' :: ps), rfl, Or.inr rfl⟩

/-- What the search finds behind the key: the value of the first pair that ends it. -/
theorem find_query (key : Str) {left : Str} {ps : List (Str × List Char)}
    (hnames : ∀ p ∈ ps, 61 ∉ p.1) (hleft : ¬ (key ++ [61]) <:+: left) :
    match firstEnding key left ps with
    | none => Cxx.find (key ++ [61]) (left ++ joinQuery ps) = none
    | some value => ∃ pos, Cxx.find (key ++ [61]) (left ++ joinQuery ps) = some pos ∧
        ∃ rest, (left ++ joinQuery ps).drop (pos + (key.length + 1)) = encodeURIComponent value ++ rest ∧
          (rest = [] ∨ ∃ t, rest = 38 :: t) := by
  induction ps generalizing left with
  | nil =>
    rw [joinQuery, List.append_nil]
    exact find_eq_none hleft
  | cons p ps ih =>
    obtain ⟨tail, hjoin, htail⟩ := joinQuery_cons p ps
    have hname : ¬ (key ++ [61]) <:+: left ++ p.1 :=
      not_infix_append hleft (hnames p List.mem_cons_self)
    rw [firstEnding]
    split_ifs with hkey
    · have hsplit : left ++ joinQuery (p :: ps) =
          (left ++ p.1) ++ 61 :: (encodeURIComponent p.2 ++ tail) := by
        rw [hjoin, List.append_assoc]
      rw [hsplit]
      refine ⟨_, find_ending hname hkey _, tail, ?_, ?_⟩
      · have hlen : (left ++ p.1).length - key.length + (key.length + 1) = (left ++ p.1 ++ [61]).length := by
          have := hkey.length_le
          simp only [List.length_append, List.length_singleton] at this ⊢
          omega
        have hbyte : left ++ p.1 ++ 61 :: (encodeURIComponent p.2 ++ tail) =
            (left ++ p.1 ++ [61]) ++ (encodeURIComponent p.2 ++ tail) := by simp
        rw [hlen, hbyte]
        exact List.drop_left' rfl
      · rcases htail with ⟨-, rfl⟩ | rfl
        · exact Or.inl rfl
        · exact Or.inr ⟨_, rfl⟩
    · have hvalue : ¬ (key ++ [61]) <:+: left ++ p.1 ++ 61 :: encodeURIComponent p.2 := by
        have happend := not_infix_append (not_infix_concat hname hkey) (encodeURIComponent_plain p.2).1
        rwa [List.append_assoc (left ++ p.1)] at happend
      rcases htail with ⟨rfl, rfl⟩ | rfl
      · rw [hjoin, List.append_nil, ← List.append_assoc]
        exact find_eq_none hvalue
      · have hnext : ¬ (key ++ [61]) <:+: left ++ p.1 ++ 61 :: (encodeURIComponent p.2 ++ [38]) := by
          have happend : ¬ (key ++ [61]) <:+: (left ++ p.1 ++ 61 :: encodeURIComponent p.2) ++ [38] :=
            not_infix_append hvalue (by decide)
          rwa [List.append_assoc (left ++ p.1)] at happend
        have hsplit : left ++ joinQuery (p :: ps) =
            (left ++ p.1 ++ 61 :: (encodeURIComponent p.2 ++ [38])) ++ joinQuery ps := by
          rw [hjoin]
          simp
        rw [hsplit]
        exact ih (fun q hq => hnames q (List.mem_cons_of_mem _ hq)) hnext

/-- `queryParam` returns the value of the first pair that ends the key. -/
theorem queryParam_ending {req : Request} {pairs : List (Str × List Char)}
    (hnames : ∀ p ∈ pairs, 61 ∉ p.1) (hquery : req.queryString = joinQuery pairs) (key : Str) :
    queryParam before req key = ((firstEnding key [] pairs).map Utf8.encode).getD [] := by
  have hstart : ¬ (key ++ [61]) <:+: ([] : Str) := by simp
  have hfind := find_query key hnames hstart
  rw [List.nil_append, ← hquery] at hfind
  unfold queryParam
  by_cases hempty : req.queryString = []
  · obtain rfl : pairs = [] := by
      cases pairs with
      | nil => rfl
      | cons p ps =>
        obtain ⟨tail, hjoin, -⟩ := joinQuery_cons p ps
        rw [hempty, hjoin] at hquery
        simp at hquery
    rw [if_pos hempty]
    rfl
  · rw [if_neg hempty]
    cases hending : firstEnding key [] pairs with
    | none =>
      rw [hending] at hfind
      dsimp only at hfind
      rw [hfind]
      rfl
    | some value =>
      rw [hending] at hfind
      obtain ⟨pos, hpos, rest, hdrop, hrest⟩ := hfind
      rw [hpos]
      dsimp only
      rw [hdrop]
      have hplain := (encodeURIComponent_plain value).2
      rcases hrest with rfl | ⟨t, rfl⟩
      · rw [List.append_nil, find_byte_none hplain]
        exact urlDecode_encode before value
      · rw [find_byte hplain]
        dsimp only
        rw [List.take_left' rfl]
        exact urlDecode_encode before value

/-- A key that is a name itself is ended by the names that end with it. -/
theorem firstEnding_name {key left : Str} (hkey : 38 ∉ key) (hleft : left = [] ∨ [38] <:+ left)
    (ps : List (Str × List Char)) :
    firstEnding key left ps = (ps.find? fun p => decide (key <:+ p.1)).map (·.2) := by
  induction ps generalizing left with
  | nil => rfl
  | cons p ps ih =>
    have hends : key <:+ left ++ p.1 ↔ key <:+ p.1 := by
      refine ⟨fun hsuffix => ?_, fun hsuffix => hsuffix.trans (List.suffix_append _ _)⟩
      rcases hleft with rfl | ⟨left, rfl⟩
      · simpa using hsuffix
      rcases List.suffix_or_suffix_of_suffix hsuffix (List.suffix_append _ p.1) with h | ⟨front, rfl⟩
      · exact h
      -- a key that reaches past the name takes the ampersand with it
      have hfront : front <:+ left ++ [38] := by
        obtain ⟨rest, hrest⟩ := hsuffix
        rw [← List.append_assoc] at hrest
        exact ⟨rest, List.append_cancel_right hrest⟩
      rcases List.suffix_concat_iff.1 hfront with rfl | ⟨t, rfl, -⟩
      · exact List.suffix_rfl
      · simp at hkey
    have hnext : [38] <:+ left ++ p.1 ++ 61 :: (encodeURIComponent p.2 ++ [38]) :=
      ⟨left ++ p.1 ++ 61 :: encodeURIComponent p.2, by simp⟩
    by_cases hname : key <:+ p.1
    · rw [firstEnding, if_pos (hends.2 hname), List.find?_cons_of_pos (by simpa using hname)]
      rfl
    · rw [firstEnding, if_neg (mt hends.1 hname), List.find?_cons_of_neg (by simpa using hname)]
      exact ih (Or.inr hnext)

/-- The lookup is exact where the first name that ends with the key decides as the first
    name that is the key does. -/
theorem queryParam_iff {req : Request} {pairs : List (Str × List Char)}
    (hnames : ∀ p ∈ pairs, 61 ∉ p.1)
    (hquery : req.queryString = joinQuery pairs) (key : Str) :
    queryParam before req key = ((firstNamed key pairs).map Utf8.encode).getD [] ↔
      (firstEnding key [] pairs).getD [] = (firstNamed key pairs).getD [] := by
  have hencode : ∀ value : Option (List Char),
      (value.map Utf8.encode).getD [] = Utf8.encode (value.getD []) := by
    intro value
    cases value <;> rfl
  rw [queryParam_ending before hnames hquery, hencode, hencode]
  refine ⟨fun heq => ?_, fun heq => by rw [heq]⟩
  have hdecode := congrArg Utf8.decode heq
  rw [Utf8.decode_encode, Utf8.decode_encode] at hdecode
  exact Option.some.inj hdecode

end Request

/-- A request to delete an entry of the library, with a query of two pairs. -/
def deleteRequest (pairs : List (Str × List Char)) : Request where
  method := .DELETE
  path := lit "/api/library/delete"
  queryString := joinQuery pairs
  headers := .empty
  body := []
  bodyLength := 0
  pathParams := .empty

theorem Request.id_first : Request.queryParam (fun _ => 0)
    (deleteRequest [(lit "id", ['3']), (lit "uid", ['7'])]) (lit "id") = lit "3" :=
  (Request.queryParam_iff (fun _ => 0)
    (by decide +kernel : ∀ p ∈ [(lit "id", ['3']), (lit "uid", ['7'])], 61 ∉ p.1) rfl (lit "id")).2
    (by decide +kernel)

/-- A name in front that only ends with the key takes the place of the key. -/
theorem Request.uid_taken : Request.queryParam (fun _ => 0)
    (deleteRequest [(lit "uid", ['7']), (lit "id", ['3'])]) (lit "id") ≠
      ((firstNamed (lit "id") [(lit "uid", ['7']), (lit "id", ['3'])]).map Utf8.encode).getD [] := by
  decide +kernel

end NarMusic
