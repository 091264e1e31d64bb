/-
  How alike two names are (`LyricsAggregator::nameSimilarity`).

  A word is a longest run of ASCII letters and digits.  The bytes of other scripts are
  not letters here, so a name without an ASCII letter or digit has no words and is like
  no name, itself included (`selfSimilar_iff`).
-/
import NarMusic.Lib.OrdMap
import NarMusic.Lib.Overlap
import NarMusic.Lib.Utf8
import NarMusic.Lyrics.Aggregator

namespace NarMusic.LyricsAggregator

open Cxx Overlap

/-- The loop of `extractWords`. -/
def extractLoop : Str → Str → List Str
  | [], word => if word ≠ [] then [word] else []
  | c :: s, word =>
    if isalnum c then extractLoop s (word ++ [tolower c])
    else if word ≠ [] then word :: extractLoop s []
    else extractLoop s []

def extractWords (s : Str) : List Str := extractLoop s []

/-- The score, as an exact number. -/
def nameSimilarity (a b : Str) : ℚ :=
  if a = [] ∨ b = [] then 0
  else
    let wordsA := extractWords a
    let wordsB := extractWords b
    if wordsA = [] ∨ wordsB = [] then 0
    else
      let intersection := setIntersection (wordsA.insertionSort (· ≤ ·)) (wordsB.insertionSort (· ≤ ·))
      intersection.length / (min wordsA.length wordsB.length : ℕ)

/-! ## Words -/

/-- The words of a text, in lower case. -/
def wordsOf (s : Str) : List Str :=
  ((s.splitOnP fun c => !isalnum c).filter (· ≠ [])).map (·.map tolower)

theorem extractLoop_eq (s word : Str) :
    extractLoop s (word.reverse.map tolower) =
      ((s.splitOnPPrepend (fun c => !isalnum c) word).filter (· ≠ [])).map (·.map tolower) := by
  induction s generalizing word with
  | nil =>
    rw [extractLoop, List.splitOnPPrepend_nil]
    by_cases hword : word = []
    · simp [hword]
    · simp [hword]
  | cons c s ih =>
    rw [extractLoop]
    by_cases hc : isalnum c
    · rw [if_pos hc, List.splitOnPPrepend_cons_neg (by simpa using hc), ← ih (c :: word)]
      simp
    · have hempty := ih []
      rw [if_neg hc, List.splitOnPPrepend_cons_pos (by simpa using hc), ← List.splitOnPPrepend_nil_right]
      by_cases hword : word = []
      · simpa [hword] using hempty
      · simpa [hword] using hempty

theorem extractWords_eq (s : Str) : extractWords s = wordsOf s := extractLoop_eq s []

@[simp] theorem wordsOf_nil : wordsOf [] = [] := rfl

/-- A byte that is in no word ends one. -/
theorem wordsOf_append_cons (x y : Str) {c : Byte} (hc : isalnum c = false) :
    wordsOf (x ++ c :: y) = wordsOf x ++ wordsOf y := by
  unfold wordsOf
  rw [List.splitOnP_append_cons x y (by simpa using hc), List.filter_append, List.map_append]

theorem wordsOf_append {x sep y : Str} (hne : sep ≠ []) (hsep : ∀ c ∈ sep, isalnum c = false) :
    wordsOf (x ++ sep ++ y) = wordsOf x ++ wordsOf y := by
  induction sep generalizing x with
  | nil => exact absurd rfl hne
  | cons c sep ih =>
    obtain ⟨hc, hrest⟩ := List.forall_mem_cons.1 hsep
    rw [List.append_assoc, List.cons_append, wordsOf_append_cons x _ hc]
    by_cases hlast : sep = []
    · rw [hlast, List.nil_append]
    · have hmore := ih (x := []) hlast hrest
      rw [List.nil_append, wordsOf_nil, List.nil_append] at hmore
      rw [hmore]

theorem extractLoop_ne_nil (s : Str) {word : Str} (h : word ≠ []) : extractLoop s word ≠ [] := by
  induction s generalizing word with
  | nil =>
    rw [extractLoop, if_pos h]
    exact List.cons_ne_nil _ _
  | cons c s ih =>
    rw [extractLoop]
    split_ifs
    · exact ih (by simp)
    · exact List.cons_ne_nil _ _

theorem wordsOf_ne_nil {s : Str} : wordsOf s ≠ [] ↔ ∃ c ∈ s, isalnum c = true := by
  induction s with
  | nil => simp
  | cons c s ih =>
    by_cases hc : isalnum c
    · have hword : wordsOf (c :: s) ≠ [] := by
        rw [← extractWords_eq, extractWords, extractLoop, if_pos hc]
        exact extractLoop_ne_nil s (by simp)
      exact ⟨fun _ => ⟨c, List.mem_cons_self, hc⟩, fun _ => hword⟩
    · have hrest := wordsOf_append_cons [] s (Bool.eq_false_of_not_eq_true hc)
      rw [List.nil_append, wordsOf_nil, List.nil_append] at hrest
      rw [hrest, ih]
      simp [hc]

/-! ## Case -/

theorem tolower_spec (c : Byte) : isalnum (tolower c) = isalnum c ∧ tolower (tolower c) = tolower c := by
  have hall : ∀ m < 256, isalnum (tolower (.ofNat m)) = isalnum (.ofNat m) ∧
      tolower (tolower (.ofNat m)) = tolower (.ofNat m) := by decide +kernel
  simpa using hall c.toNat c.toNat_lt

theorem wordsOf_lower (s : Str) : wordsOf (s.map tolower) = wordsOf s := by
  have hloop (word : Str) : extractLoop (s.map tolower) word = extractLoop s word := by
    induction s generalizing word with
    | nil => rfl
    | cons c s ih =>
      rw [List.map_cons, extractLoop, extractLoop, (tolower_spec c).1, (tolower_spec c).2, ih, ih]
  rw [← extractWords_eq, ← extractWords_eq]
  exact hloop []

/-! ## Texts with something between them -/

/-- The texts in this order, with at least one byte between two of them and no byte of a word. -/
inductive Joined : List Str → Str → Prop
  | single (x : Str) : Joined [x] x
  | cons {x sep s : Str} {xs : List Str} (hne : sep ≠ []) (hsep : ∀ c ∈ sep, isalnum c = false)
      (h : Joined xs s) : Joined (x :: xs) (x ++ sep ++ s)

/-- The same texts up to order and case, empty ones apart. -/
def SameTexts (xs ys : List Str) : Prop :=
  ((xs.filter (· ≠ [])).map (·.map tolower)).Perm ((ys.filter (· ≠ [])).map (·.map tolower))

theorem wordsOf_joined {xs : List Str} {s : Str} (h : Joined xs s) : wordsOf s = xs.flatMap wordsOf := by
  induction h with
  | single x => simp
  | cons hne hsep h ih => rw [wordsOf_append hne hsep, ih, List.flatMap_cons]

theorem flatMap_wordsOf (xs : List Str) :
    ((xs.filter (· ≠ [])).map (·.map tolower)).flatMap wordsOf = xs.flatMap wordsOf := by
  induction xs with
  | nil => rfl
  | cons x xs ih =>
    rw [List.flatMap_cons, ← ih]
    by_cases hx : x = []
    · simp [hx]
    · simp [hx, wordsOf_lower]

theorem wordsOf_perm {xs ys : List Str} {s t : Str} (hs : Joined xs s) (ht : Joined ys t)
    (h : SameTexts xs ys) : (wordsOf s).Perm (wordsOf t) := by
  rw [wordsOf_joined hs, wordsOf_joined ht, ← flatMap_wordsOf xs, ← flatMap_wordsOf ys]
  exact h.flatMap_right wordsOf

/-! ## The score -/

/-- Sorting and merging finds the common words, with multiplicities. -/
theorem length_intersection (as bs : List Str) :
    (setIntersection (as.insertionSort (· ≤ ·)) (bs.insertionSort (· ≤ ·))).length =
      ((as : Multiset Str) ∩ bs).card := by
  have hcommon := coe_setIntersection (List.pairwise_insertionSort (· ≤ ·) as)
    (List.pairwise_insertionSort (· ≤ ·) bs)
  rw [Multiset.coe_eq_coe.2 (List.perm_insertionSort _ as),
    Multiset.coe_eq_coe.2 (List.perm_insertionSort _ bs)] at hcommon
  rw [← hcommon, Multiset.coe_card]

theorem nameSimilarity_eq (a b : Str) :
    nameSimilarity a b = overlap (wordsOf a : Multiset Str) (wordsOf b : Multiset Str) := by
  unfold nameSimilarity overlap
  rw [extractWords_eq, extractWords_eq]
  by_cases hnil : wordsOf a = [] ∨ wordsOf b = []
  · rw [if_pos (show (wordsOf a : Multiset Str) = 0 ∨ (wordsOf b : Multiset Str) = 0 by simpa using hnil)]
    dsimp only
    rw [if_pos hnil, ite_self]
  · have hab : ¬ (a = [] ∨ b = []) := by
      rintro (rfl | rfl)
      · exact hnil (Or.inl rfl)
      · exact hnil (Or.inr rfl)
    dsimp only
    rw [if_neg hab, if_neg hnil, length_intersection,
      if_neg (show ¬ ((wordsOf a : Multiset Str) = 0 ∨ (wordsOf b : Multiset Str) = 0) by simpa using hnil),
      Multiset.coe_card, Multiset.coe_card]

/-- **The score.**  It is the common part of the two multisets of words, by the size of the smaller
    one; it is symmetric and between 0 and 1, whole when one multiset has the other in it and both
    have a word, and blind to the order of the words, their case and what is between them. -/
theorem nameSimilarity_multiset (a b : Str) :
    (nameSimilarity a b =
        if wordsOf a = [] ∨ wordsOf b = [] then (0 : ℚ)
        else ((∑ w ∈ (wordsOf a).toFinset,
            min ((wordsOf a : Multiset Str).count w) ((wordsOf b : Multiset Str).count w) : ℕ) : ℚ) /
          (min (wordsOf a).length (wordsOf b).length : ℕ)) ∧
      nameSimilarity a b = nameSimilarity b a ∧ 0 ≤ nameSimilarity a b ∧ nameSimilarity a b ≤ 1 ∧
      (wordsOf a ≠ [] ∧ wordsOf b ≠ [] →
        (nameSimilarity a b = 1 ↔
          (wordsOf a : Multiset Str) ≤ wordsOf b ∨ (wordsOf b : Multiset Str) ≤ wordsOf a)) ∧
      ∀ a' xs ys, Joined xs a → Joined ys a' → SameTexts xs ys → nameSimilarity a' b = nameSimilarity a b := by
  refine ⟨?_, ?_, ?_, ?_, ?_, ?_⟩
  · rw [nameSimilarity_eq, overlap, card_inter]
    simp only [Multiset.coe_eq_zero, Multiset.coe_card]
    rfl
  · rw [nameSimilarity_eq, nameSimilarity_eq, overlap_comm]
  · exact nameSimilarity_eq a b ▸ overlap_nonneg _ _
  · exact nameSimilarity_eq a b ▸ overlap_le_one _ _
  · rintro ⟨ha, hb⟩
    rw [nameSimilarity_eq]
    exact overlap_eq_one_iff (by simpa using ha) (by simpa using hb)
  · intro a' xs ys hx hy hsame
    rw [nameSimilarity_eq, nameSimilarity_eq, Multiset.coe_eq_coe.2 (wordsOf_perm hx hy hsame)]

/-- A name without words: its words are among those of the other, and the score is 0. -/
theorem empty_contained :
    ¬ ∀ a b, (nameSimilarity a b = 1 ↔
      (wordsOf a : Multiset Str) ≤ wordsOf b ∨ (wordsOf b : Multiset Str) ≤ wordsOf a) := by
  intro h
  have hone := (h [] (lit "a")).2 (Or.inl (by rw [wordsOf_nil]; exact Multiset.zero_le _))
  rw [nameSimilarity, if_pos (Or.inl rfl)] at hone
  exact zero_ne_one hone

/-! ## A name and itself -/

/-- What `getLyricsViaSharePage` refuses: a track name of the page that is not like the one searched
    for. -/
def shareRefused (trackName ssTrackName : Str) : Prop :=
  ssTrackName ≠ [] ∧ nameSimilarity trackName ssTrackName < 2 / 10

/-- The name is fully like itself, and its share page is not refused. -/
def SelfSimilar (name : Str) : Prop := nameSimilarity name name = 1 ∧ ¬ shareRefused name name

theorem nameSimilarity_self (s : Str) : nameSimilarity s s = if wordsOf s = [] then 0 else 1 := by
  rw [nameSimilarity_eq]
  split_ifs with h
  · rw [overlap, if_pos (Or.inl (by rw [h]; rfl))]
  · exact (overlap_eq_one_iff (by simpa using h) (by simpa using h)).2 (Or.inl le_rfl)

theorem selfSimilar_iff_words {s : Str} : SelfSimilar s ↔ wordsOf s ≠ [] := by
  unfold SelfSimilar shareRefused
  rw [nameSimilarity_self]
  split_ifs with h
  · simp [h]
  · simp only [h, ne_eq, not_false_iff, true_and, not_and, iff_true]
    intro _
    norm_num

theorem isAlphanum_lt {c : Char} (h : c.isAlphanum = true) : c.toNat < 0x80 := by
  have hval : c.val.toNat = c.toNat := rfl
  have hlast : 'Z'.val.toNat = 90 ∧ 'z'.val.toNat = 122 ∧ '9'.val.toNat = 57 := ⟨rfl, rfl, rfl⟩
  delta Char.isAlphanum Char.isAlpha Char.isUpper Char.isLower Char.isDigit at h
  simp only [Bool.or_eq_true, Bool.and_eq_true, decide_eq_true_eq, ge_iff_le, UInt32.le_iff_toNat_le] at h
  omega

/-- ASCII letters and digits are the bytes of words, and no byte of another character is one. -/
theorem isalnum_encode (c : Char) : (∃ b ∈ String.utf8EncodeChar c, isalnum b = true) ↔ c.isAlphanum = true := by
  by_cases h : c.toNat < 0x80
  · have hall : ∀ m < 128, isalnum (.ofNat m) = (Char.ofNat m).isAlphanum := by decide +kernel
    rw [Utf8.encodeChar_ascii h]
    simp [hall _ h]
  · constructor
    · rintro ⟨b, hb, halnum⟩
      have hhigh := Utf8.encodeChar_high h b hb
      have hall : ∀ m < 256, 0x80 ≤ m → isalnum (.ofNat m) = false := by decide +kernel
      have hbyte := hall b.toNat b.toNat_lt (UInt8.le_iff_toNat_le.1 hhigh)
      rw [UInt8.ofNat_toNat] at hbyte
      exact absurd halnum (by simp [hbyte])
    · intro halnum
      exact absurd (isAlphanum_lt halnum) h

/-- **A name and itself.**  A name is fully like itself, and its share page accepted, exactly when it
    has an ASCII letter or digit. -/
theorem selfSimilar_iff (name : List Char) :
    SelfSimilar (Utf8.encode name) ↔ ∃ c ∈ name, c.isAlphanum = true := by
  rw [selfSimilar_iff_words, wordsOf_ne_nil]
  unfold Utf8.encode
  simp only [List.mem_flatMap, ← isalnum_encode]
  constructor
  · rintro ⟨b, ⟨c, hc, hb⟩, halnum⟩
    exact ⟨c, hc, b, hb, halnum⟩
  · rintro ⟨c, hc, b, hb, halnum⟩
    exact ⟨b, ⟨c, hc, hb⟩, halnum⟩

/-- A name of two ideographs, which are letters of their script. -/
theorem ideographs_refused :
    ¬ ∀ name : List Char, name ≠ [] → (∃ c ∈ name, c.isAlphanum = true ∨ isCjk c.toNat = true) →
      SelfSimilar (Utf8.encode name) := by
  intro h
  have hself := h ['晴', '天'] (by simp) ⟨'晴', by simp, Or.inr (by decide)⟩
  rw [selfSimilar_iff_words] at hself
  exact hself (by decide +kernel)

end NarMusic.LyricsAggregator
