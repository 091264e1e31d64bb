/-
  The JSON object in a share page (`QishuiProvider::extractJsonObject`, qishui_provider.cpp).

  The object is looked for behind a quoted field name, and cut out by counting braces.  The count
  takes the braces in strings with the others, so the object is cut too early when its strings
  have closed as many braces as it has open, and too late when their braces do not cancel.
-/
import NarMusic.Lib.JsonText

namespace NarMusic.QishuiProvider

open Cxx JsonText

/-- How far the loop looks. -/
def window : ℕ := 200000

/-- The loop over the bytes from `i` on; the position behind the object. -/
def braceLoop : Str → ℤ → ℕ → Option ℕ
  | [], _, _ => none
  | c :: s, brace, i =>
    if c = 123 then braceLoop s (brace + 1) (i + 1)
    else if c = 125 then
      if brace - 1 = 0 then some (i + 1) else braceLoop s (brace - 1) (i + 1)
    else braceLoop s brace (i + 1)

def quoted (fieldName : Str) : Str := lit "\"" ++ fieldName ++ lit "\""

def extractJsonObject (html fieldName : Str) : Str :=
  let marker := quoted fieldName
  match find marker html with
  | none => []
  | some idx =>
    match find [123] (html.drop idx) with
    | none => []
    | some gap =>
      let objStart := idx + gap
      if idx + marker.length + 5 < objStart then []
      else
        match braceLoop ((html.drop objStart).take window) 0 objStart with
        | none => []
        | some objEnd => (html.drop objStart).take (objEnd - objStart)

/-! ## The loop -/

/-- Up to its last byte, more braces are open than closed. -/
def Open (brace : ℤ) (s : Str) : Prop := ∀ p, p <+: s → p ≠ s → 0 < brace + count p

theorem open_cons {brace : ℤ} {c : Byte} {s : Str} :
    Open brace (c :: s) ↔ 0 < brace ∧ Open (brace - closing c) s := by
  constructor
  · intro h
    refine ⟨by simpa using h [] List.nil_prefix (by simp), fun p hp hne => ?_⟩
    have := h (c :: p) (List.cons_prefix_cons.2 ⟨rfl, hp⟩) fun heq => hne (List.cons.inj heq).2
    rw [count_cons] at this
    omega
  · rintro ⟨hbrace, h⟩ p hp hne
    rcases List.prefix_cons_iff.1 hp with rfl | ⟨q, rfl, hq⟩
    · simpa using hbrace
    · have := h q hq fun heq => hne (congrArg _ heq)
      rw [count_cons]
      omega

/-- One byte of the loop, where more braces are open than closed. -/
theorem braceLoop_cons {brace : ℤ} (hbrace : 0 < brace) (c : Byte) (s : Str) (i : ℕ) :
    braceLoop (c :: s) brace i =
      if brace - closing c = 0 then some (i + 1) else braceLoop s (brace - closing c) (i + 1) := by
  unfold closing
  rw [braceLoop]
  by_cases hopen : c = 123
  · subst hopen
    have hne : ¬ brace + 1 = 0 := by omega
    simp [hne]
  · by_cases hclose : c = 125
    · simp [hclose]
    · have hne : ¬ brace = 0 := by omega
      simp [hopen, hclose, hne]

theorem closing_le (c : Byte) : closing c ≤ 1 := by
  unfold closing
  split_ifs <;> decide

theorem braceLoop_some {brace : ℤ} {s : Str} {i n : ℕ} (hbrace : 0 < brace) (h : braceLoop s brace i = some n) :
    ∃ k, k <+: s ∧ n = i + k.length ∧ brace + count k = 0 ∧ Open brace k := by
  induction s generalizing brace i with
  | nil => cases h
  | cons c s ih =>
    rw [braceLoop_cons hbrace] at h
    split_ifs at h with hzero
    · refine ⟨[c], by simp, (Option.some.inj h).symm, ?_, ?_⟩
      · rw [count_cons, count_nil]
        omega
      · exact open_cons.2 ⟨hbrace, fun p hp hne => absurd (List.prefix_nil.1 hp) hne⟩
    · have hpos : 0 < brace - closing c := by
        have := closing_le c
        omega
      obtain ⟨k, hk, hn, hcount, hopen⟩ := ih hpos h
      refine ⟨c :: k, List.cons_prefix_cons.2 ⟨rfl, hk⟩, ?_, ?_, open_cons.2 ⟨hbrace, hopen⟩⟩
      · rw [hn, List.length_cons]
        omega
      · rw [count_cons]
        omega

theorem braceLoop_none {brace : ℤ} {s : Str} {i : ℕ} (hbrace : 0 < brace) (h : braceLoop s brace i = none) :
    ∀ p, p <+: s → 0 < brace + count p := by
  induction s generalizing brace i with
  | nil =>
    intro p hp
    rw [List.prefix_nil.1 hp]
    simpa using hbrace
  | cons c s ih =>
    intro p hp
    rw [braceLoop_cons hbrace] at h
    split_ifs at h with hzero
    have hpos : 0 < brace - closing c := by
      have := closing_le c
      omega
    rcases List.prefix_cons_iff.1 hp with rfl | ⟨q, rfl, hq⟩
    · simpa using hbrace
    · have := ih hpos h q hq
      rw [count_cons]
      omega

/-! ## What is cut out -/

/-- Its braces cancel, and not earlier. -/
structure Closes (k : Str) : Prop where
  ne_nil : k ≠ []
  cancel : count k = 0
  front : ∀ p, p <+: k → p ≠ [] → p ≠ k → 0 < count p

theorem Closes.unique {k k' s : Str} (h : Closes k) (h' : Closes k') (hk : k <+: s) (hk' : k' <+: s) : k = k' := by
  by_contra hne
  rcases List.prefix_or_prefix_of_prefix hk hk' with hp | hp
  · have := h'.front k hp h.ne_nil hne
    rw [h.cancel] at this
    exact absurd this (lt_irrefl 0)
  · have := h.front k' hp h'.ne_nil (Ne.symm hne)
    rw [h'.cancel] at this
    exact absurd this (lt_irrefl 0)

/-- The loop from an opening brace on. -/
theorem braceLoop_object (s : Str) (i : ℕ) :
    (∃ k, Closes k ∧ k <+: 123 :: s ∧ braceLoop (123 :: s) 0 i = some (i + k.length)) ∨
      braceLoop (123 :: s) 0 i = none ∧ ∀ p, p <+: 123 :: s → p ≠ [] → 0 < count p := by
  have hfirst : braceLoop (123 :: s) 0 i = braceLoop s 1 (i + 1) := rfl
  have hcount : ∀ p, count (123 :: p) = 1 + count p := by
    intro p
    have hclosing : closing 123 = -1 := by decide
    rw [count_cons, hclosing]
    omega
  rw [hfirst]
  cases h : braceLoop s 1 (i + 1) with
  | some n =>
    obtain ⟨k, hk, rfl, hzero, hopen⟩ := braceLoop_some one_pos h
    refine Or.inl ⟨123 :: k, ⟨List.cons_ne_nil _ _, (hcount k).trans hzero, fun p hp hne hproper => ?_⟩,
      List.cons_prefix_cons.2 ⟨rfl, hk⟩, ?_⟩
    · rcases List.prefix_cons_iff.1 hp with rfl | ⟨q, rfl, hq⟩
      · exact absurd rfl hne
      · rw [hcount]
        exact hopen q hq fun heq => hproper (congrArg _ heq)
    · rw [List.length_cons]
      congr 1
      omega
  | none =>
    refine Or.inr ⟨rfl, fun p hp hne => ?_⟩
    rcases List.prefix_cons_iff.1 hp with rfl | ⟨q, rfl, hq⟩
    · exact absurd rfl hne
    · rw [hcount]
      exact braceLoop_none one_pos h q hq

/-- A page with a field, and a text behind it that begins with a brace: the quoted name is there for
    the first time, and the text follows it within five bytes. -/
structure Page where
  front : Str
  fieldName : Str
  gap : Str
  text : Str
  first : find (quoted fieldName) (front ++ (quoted fieldName ++ gap ++ text)) = some front.length
  near : gap.length ≤ 5
  begins : text.head? = some 123

namespace Page

variable (page : Page)

def html : Str := page.front ++ (quoted page.fieldName ++ page.gap ++ page.text)

/-- The page from the first opening brace on, counted from the quoted name. -/
def scanned : Str := (quoted page.fieldName ++ page.gap ++ page.text).dropWhile (· ≠ 123)

end Page

/-- A text up to its first opening brace. -/
theorem before_brace (a b : Str) :
    ∃ f s, a ++ 123 :: b = f ++ 123 :: s ∧ 123 ∉ f ∧ f.length ≤ a.length ∧
      (a ++ 123 :: b).dropWhile (· ≠ 123) = 123 :: s := by
  induction a with
  | nil => exact ⟨[], b, rfl, List.not_mem_nil, le_rfl, List.dropWhile_cons_of_neg (by simp)⟩
  | cons c a ih =>
    by_cases hc : c = 123
    · subst hc
      exact ⟨[], a ++ 123 :: b, rfl, List.not_mem_nil, Nat.zero_le _, List.dropWhile_cons_of_neg (by simp)⟩
    · obtain ⟨f, s, hsplit, hf, hle, hdrop⟩ := ih
      refine ⟨c :: f, s, congrArg (c :: ·) hsplit, ?_, Nat.succ_le_succ hle, ?_⟩
      · rw [List.mem_cons, not_or]
        exact ⟨Ne.symm hc, hf⟩
      · rw [List.cons_append, List.dropWhile_cons_of_pos (by simpa using hc), hdrop]

/-- The loop runs over the window from the first brace behind the name. -/
theorem extract_scanned (page : Page) :
    ∃ s objStart, page.scanned = 123 :: s ∧
      extractJsonObject page.html page.fieldName =
        match braceLoop ((123 :: s).take window) 0 objStart with
        | none => []
        | some objEnd => (123 :: s).take (objEnd - objStart) := by
  obtain ⟨b, hb⟩ : ∃ b, page.text = 123 :: b := by
    have hbegins := page.begins
    cases ht : page.text with
    | nil =>
      rw [ht] at hbegins
      cases hbegins
    | cons c b =>
      rw [ht] at hbegins
      exact ⟨b, by rw [Option.some.inj hbegins]⟩
  obtain ⟨f, s, hsplit, hf, hle, hscanned⟩ := before_brace (quoted page.fieldName ++ page.gap) b
  have htail : quoted page.fieldName ++ page.gap ++ page.text = f ++ 123 :: s := by rw [hb, hsplit]
  have hdrop : page.html.drop page.front.length = f ++ 123 :: s := by
    unfold Page.html
    rw [List.drop_left' rfl, htail]
  have hdrop' : page.html.drop (page.front.length + f.length) = 123 :: s := by
    rw [← List.drop_drop, hdrop, List.drop_left' rfl]
  have hnear : ¬ page.front.length + (quoted page.fieldName).length + 5 < page.front.length + f.length := by
    have := page.near
    rw [List.length_append] at hle
    omega
  have hfirst : find (quoted page.fieldName) page.html = some page.front.length := page.first
  refine ⟨s, page.front.length + f.length, ?_, ?_⟩
  · unfold Page.scanned
    rw [hb, hscanned]
  · unfold extractJsonObject
    simp only [hfirst, hdrop, find_byte hf, hdrop', if_neg hnear]

/-- What is cut out of the window ends where its braces cancel; where they do not, nothing is. -/
theorem extract_cases (page : Page) :
    (∃ k, Closes k ∧ k <+: page.scanned.take window ∧ extractJsonObject page.html page.fieldName = k) ∨
      extractJsonObject page.html page.fieldName = [] ∧
        ∀ p, p <+: page.scanned.take window → p ≠ [] → 0 < count p := by
  obtain ⟨s, objStart, hscanned, hextract⟩ := extract_scanned page
  have hwindow : (123 :: s).take window = 123 :: s.take (window - 1) := rfl
  rw [hextract, hscanned, hwindow]
  rcases braceLoop_object (s.take (window - 1)) objStart with ⟨k, hk, hfirst, hloop⟩ | ⟨hloop, hopen⟩
  · refine Or.inl ⟨k, hk, hfirst, ?_⟩
    rw [hloop]
    dsimp only
    rw [Nat.add_sub_cancel_left]
    exact (List.prefix_iff_eq_take.1 (hfirst.trans (hwindow ▸ List.take_prefix _ _))).symm
  · refine Or.inr ⟨?_, hopen⟩
    rw [hloop]

theorem extract_eq_iff (page : Page) {k : Str} (hne : k ≠ []) (hle : k.length ≤ window) :
    extractJsonObject page.html page.fieldName = k ↔ Closes k ∧ k <+: page.scanned := by
  constructor
  · rintro rfl
    rcases extract_cases page with ⟨k, hk, hfirst, heq⟩ | ⟨hnil, -⟩
    · rw [heq]
      exact ⟨hk, hfirst.trans (List.take_prefix _ _)⟩
    · exact absurd hnil hne
  · rintro ⟨hk, hfirst⟩
    have htake : k <+: page.scanned.take window := by
      obtain ⟨t, ht⟩ := hfirst
      rw [← ht, List.take_append, List.take_of_length_le hle]
      exact List.prefix_append _ _
    rcases extract_cases page with ⟨k', hk', hfirst', heq⟩ | ⟨-, hopen⟩
    · exact heq.trans (hk'.unique hk hfirst' htake)
    · have := hopen k htake hne
      rw [hk.cancel] at this
      exact absurd this (lt_irrefl 0)

/-- The braces of an object cancel at its end exactly when those in its strings do, and never close
    as many objects as are open before. -/
theorem closes_object {object : Str} (h : Text .object object) :
    Closes object ↔ excess object = 0 ∧ ∀ q, q <+: object → q ≠ [] → q ≠ object → excess q < depth q := by
  have hzero := h.depth_zero
  constructor
  · intro hk
    have hcancel := hk.cancel
    rw [count_eq] at hcancel
    refine ⟨by omega, fun q hq hne hproper => ?_⟩
    have := hk.front q hq hne hproper
    rw [count_eq] at this
    omega
  · rintro ⟨hexcess, hfront⟩
    obtain ⟨t, ht, -⟩ := h.braces
    refine ⟨ht ▸ List.cons_ne_nil _ _, ?_, fun q hq hne hproper => ?_⟩
    · rw [count_eq]
      omega
    · have := hfront q hq hne hproper
      rw [count_eq]
      omega

/-- **Strings without braces**: the object is cut out, where there is no brace before it. -/
theorem extract_plain (page : Page) {object : Str} (h : Text .object object) (htext : object <+: page.text)
    (hle : object.length ≤ window) (hgap : 123 ∉ quoted page.fieldName ++ page.gap)
    (hplain : ∀ q, q <+: object → excess q = 0) : extractJsonObject page.html page.fieldName = object := by
  obtain ⟨t, ht, -⟩ := h.braces
  have hscanned : page.scanned = page.text := by
    have hskip : ∀ c ∈ quoted page.fieldName ++ page.gap, decide (c ≠ 123) = true :=
      fun c hc => decide_eq_true fun heq => hgap (heq ▸ hc)
    obtain ⟨rest, hrest⟩ := htext
    unfold Page.scanned
    rw [List.dropWhile_append_of_pos hskip, ← hrest, ht]
    exact List.dropWhile_cons_of_neg (by simp)
  refine (extract_eq_iff page (ht ▸ List.cons_ne_nil _ _) hle).2 ⟨(closes_object h).2 ⟨?_, ?_⟩, hscanned ▸ htext⟩
  · exact hplain _ List.prefix_rfl
  · intro q hq hne hproper
    rw [hplain q hq]
    exact h.depth_pos hq hne hproper

/-- **What is cut out of a page** is the object, exactly when the text from the first brace on begins
    with it too and the braces in its strings cancel without closing as many objects as are open;
    and it is nothing, exactly when these braces close no object in the window. -/
theorem extract_iff (page : Page) :
    (∀ object, Text .object object → object <+: page.text → object.length < 200000 →
      (extractJsonObject page.html page.fieldName = object ↔
        object <+: page.scanned ∧ excess object = 0 ∧
          ∀ q, q <+: object → q ≠ [] → q ≠ object → excess q < depth q)) ∧
    (extractJsonObject page.html page.fieldName = [] ↔
      ∀ q, q <+: page.scanned.take 200000 → q ≠ [] → excess q < depth q) := by
  constructor
  · intro object h _ hshort
    obtain ⟨t, ht, -⟩ := h.braces
    rw [extract_eq_iff page (ht ▸ List.cons_ne_nil _ _) (le_of_lt hshort), closes_object h]
    exact and_comm
  · constructor
    · intro hnil q hq hne
      rcases extract_cases page with ⟨k, hk, -, heq⟩ | ⟨-, hopen⟩
      · exact absurd (heq.symm.trans hnil) hk.ne_nil
      · have := hopen q hq hne
        rw [count_eq] at this
        omega
    · intro h
      rcases extract_cases page with ⟨k, hk, hfirst, -⟩ | ⟨hnil, -⟩
      · have := h k hfirst hk.ne_nil
        have hcancel := hk.cancel
        rw [count_eq] at hcancel
        omega
      · exact hnil

/-- The page `"f":` with the object whose member `a` is the string of a closing brace. -/
def bracePage : Page where
  front := []
  fieldName := lit "f"
  gap := lit ":"
  text := lit "\x7b\"a\":\"\x7d\"\x7d"
  first := by decide
  near := by decide
  begins := by decide

theorem brace_object : Text .object (lit "\x7b\"a\":\"\x7d\"\x7d") := by
  have hkey : Quoted (lit "\"a\"") := ⟨[97], .plain (by decide) (by decide) (by decide) .nil, by decide⟩
  have hvalue : Quoted (lit "\"\x7d\"") := ⟨[125], .plain (by decide) (by decide) (by decide) .nil, by decide⟩
  have hblank : Blank [] := fun c hc => absurd hc List.not_mem_nil
  have hmember : Text .members (lit "\"a\":\"\x7d\"") := by
    have := Text.lastMember hblank hkey hblank hblank (.string hvalue) hblank
    have htext : lit "\"a\":\"\x7d\"" = [] ++ lit "\"a\"" ++ [] ++ 58 :: ([] ++ lit "\"\x7d\"" ++ []) := by decide
    rwa [htext]
  have hobject : lit "\x7b\"a\":\"\x7d\"\x7d" = 123 :: (lit "\"a\":\"\x7d\"" ++ [125]) := by decide
  rw [hobject]
  exact .members hmember

/-- The object is cut off at the brace in its string. -/
theorem brace_in_string : ¬ ∀ (page : Page) (object : Str), Text .object object → object <+: page.text →
    object.length < 200000 → extractJsonObject page.html page.fieldName = object := by
  intro h
  have hcut := h bracePage _ brace_object List.prefix_rfl (by decide)
  revert hcut
  decide

end NarMusic.QishuiProvider
