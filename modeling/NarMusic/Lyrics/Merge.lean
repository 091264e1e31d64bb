/-
  Bilingual lyrics (`LyricsAggregator::mergeBilingualLyrics`): which lines of the
  original the merged text keeps.
-/
import NarMusic.Lyrics.Lrc
import NarMusic.Lib.Assignments
import NarMusic.Lib.OrdMap

namespace NarMusic.LyricsAggregator

open Cxx Assignments

def isBlank (c : Byte) : Bool := c = 32 || c = 9

/-- From `find_first_not_of(" \t")` to `find_last_not_of(" \t")`. -/
def trimBlanks (s : Str) : Str := (s.dropWhile isBlank).rdropWhile isBlank

/-- A line that matches `^\[(\d{2}):(\d{2})\.(\d{2,3})\](.*)$`: its time in milliseconds and its
    trimmed text. -/
def lrcLine (line : Str) : Option (ℕ × Str) := do
  let tag ← readTag line
  if tag.min.length = 2 ∧ tag.sec.length = 2 ∧ (tag.ms.length = 2 ∨ tag.ms.length = 3) then
    let ms := if tag.ms.length = 2 then digitsVal tag.ms * 10 else digitsVal tag.ms
    some (digitsVal tag.min * 60000 + digitsVal tag.sec * 1000 + ms, trimBlanks tag.rest)
  else none

/-- The lines of a text, without carriage returns. -/
def lrcLines (text : Str) : List Str := (getlines 10 text).map (List.filter (· ≠ 13))

/-- `merged` and `metaData`. -/
structure Merge where
  merged : OrdMap ℕ (Str × Str)
  metaData : List Str

def setSlot (isTranslation : Bool) (content : Str) (slot : Str × Str) : Str × Str :=
  if isTranslation then (slot.1, content) else (content, slot.2)

/-- One line in `parseLrc`; `merged[timestamp]` makes a slot of two empty texts. -/
def parseLine (isTranslation : Bool) (m : Merge) (line : Str) : Merge :=
  match lrcLine line with
  | some (timestamp, content) =>
    let slot := (m.merged.get timestamp).getD ([], [])
    { m with merged := m.merged.insert timestamp (setSlot isTranslation content slot) }
  | none =>
    if isTranslation = false ∧ line.head? = some 91 then { m with metaData := m.metaData ++ [line] } else m

def parseLrc (isTranslation : Bool) (text : Str) (m : Merge) : Merge :=
  (lrcLines text).foldl (parseLine isTranslation) m

/-- The lines of one time. -/
def slotLines (e : ℕ × Str × Str) : List Str :=
  (if e.2.1 ≠ [] then [tagOf e.1 ++ e.2.1] else []) ++
    (if e.2.2 ≠ [] ∧ e.2.2 ≠ e.2.1 then [tagOf e.1 ++ e.2.2] else [])

def mergedLines (original translation : Str) : List Str :=
  let m := parseLrc true translation (parseLrc false original ⟨.empty, []⟩)
  m.metaData ++ m.merged.entries.flatMap slotLines

def mergeBilingualLyrics (original translation : Str) : Str :=
  if translation = [] then original else (mergedLines original translation).flatMap (· ++ [10])

/-! ## The lines of the inputs -/

/-- The timed lines of a text: time and trimmed text. -/
def timedLines (text : Str) : List (ℕ × Str) := (lrcLines text).filterMap lrcLine

/-- The lines kept as metadata. -/
def metaLines (text : Str) : List Str :=
  (lrcLines text).filter fun line => lrcLine line = none ∧ line.head? = some 91

/-- The lines as the output writes them, without the empty ones. -/
def tagged (es : List (ℕ × Str)) : List Str :=
  (es.filter (·.2 ≠ [])).map fun e => tagOf e.1 ++ e.2

/-- The lines of the translation that are written: the last one of each time, unless the last
    line of the original at that time has the same text. -/
def translated (original translation : Str) : List (ℕ × Str) :=
  (lasts (timedLines translation)).filter fun e => value e.1 (timedLines original) ≠ some e.2

/-- Every timed line of the original with a text is a line of the output, counted with
    multiplicity. -/
def Keeps (original output : Str) : Prop :=
  ∀ line, (tagged (timedLines original)).count line ≤ (getlines 10 output).count line

/-! ## What the maps hold -/

theorem setSlot_setSlot (tr : Bool) (c d : Str) (slot : Str × Str) :
    setSlot tr c (setSlot tr d slot) = setSlot tr c slot := by
  cases tr <;> rfl

theorem get_foldl (tr : Bool) (lines : List Str) (m : Merge) (t : ℕ) :
    (lines.foldl (parseLine tr) m).merged.get t =
      match value t (lines.filterMap lrcLine) with
      | some c => some (setSlot tr c ((m.merged.get t).getD ([], [])))
      | none => m.merged.get t := by
  induction lines generalizing m with
  | nil => rfl
  | cons line lines ih =>
    rw [List.foldl_cons, ih, List.filterMap_cons, parseLine]
    cases hline : lrcLine line with
    | none =>
      dsimp only
      split_ifs <;> rfl
    | some e =>
      obtain ⟨timestamp, content⟩ := e
      dsimp only
      rw [value, OrdMap.get_insert]
      cases hv : value t (lines.filterMap lrcLine) with
      | none =>
        by_cases ht : t = timestamp
        · simp [ht]
        · simp [ht]
      | some c =>
        by_cases ht : t = timestamp
        · simp [ht, setSlot_setSlot]
        · simp [ht]

theorem get_parseLrc (tr : Bool) (text : Str) (m : Merge) (t : ℕ) :
    (parseLrc tr text m).merged.get t =
      match value t (timedLines text) with
      | some c => some (setSlot tr c ((m.merged.get t).getD ([], [])))
      | none => m.merged.get t :=
  get_foldl tr (lrcLines text) m t

theorem metaData_foldl (tr : Bool) (lines : List Str) (m : Merge) :
    (lines.foldl (parseLine tr) m).metaData = m.metaData ++
      if tr then [] else lines.filter fun line => lrcLine line = none ∧ line.head? = some 91 := by
  induction lines generalizing m with
  | nil => simp
  | cons line lines ih =>
    rw [List.foldl_cons, ih, parseLine, List.filter_cons]
    cases hline : lrcLine line with
    | some e => simp
    | none => cases tr <;> by_cases hhead : line.head? = some 91 <;> simp [hhead]

/-- The slot of a time: the last text of each language. -/
theorem get_merged (original translation : Str) (t : ℕ) :
    (parseLrc true translation (parseLrc false original ⟨.empty, []⟩)).merged.get t =
      match value t (timedLines original), value t (timedLines translation) with
      | none, none => none
      | a, b => some (a.getD [], b.getD []) := by
  rw [get_parseLrc, get_parseLrc]
  cases value t (timedLines original) <;> cases value t (timedLines translation) <;> rfl

/-- A slot with a text holds the last lines of its time. -/
theorem mem_entries {original translation : Str} {t : ℕ} {a b : Str} :
    (t, a, b) ∈ (parseLrc true translation (parseLrc false original ⟨.empty, []⟩)).merged.entries ↔
      (value t (timedLines original) ≠ none ∨ value t (timedLines translation) ≠ none) ∧
        (value t (timedLines original)).getD [] = a ∧ (value t (timedLines translation)).getD [] = b := by
  rw [← OrdMap.get_eq_some_iff, get_merged]
  cases value t (timedLines original) <;> cases value t (timedLines translation) <;> simp

/-! ## What the output holds -/

theorem tagged_append (es ds : List (ℕ × Str)) : tagged (es ++ ds) = tagged es ++ tagged ds := by
  simp [tagged]

theorem tagged_perm {es ds : List (ℕ × Str)} (h : es.Perm ds) : (tagged es).Perm (tagged ds) :=
  (h.filter _).map _

theorem mem_translated {original translation : Str} {t : ℕ} {s : Str} :
    (t, s) ∈ translated original translation ↔
      value t (timedLines translation) = some s ∧ value t (timedLines original) ≠ some s := by
  unfold translated
  rw [List.mem_filter, mem_lasts, decide_eq_true_eq]

theorem flatMap_ite {α : Type} (p : α → Prop) [DecidablePred p] (f : α → Str) (es : List α) :
    (es.flatMap fun e => if p e then [f e] else []) = (es.filter p).map f := by
  induction es with
  | nil => rfl
  | cons e es ih =>
    rw [List.flatMap_cons, ih, List.filter_cons]
    by_cases hp : p e <;> simp [hp]

/-- One text of each entry that is picked, against a list of times and texts. -/
theorem perm_pick {es : List (ℕ × Str × Str)} {ds : List (ℕ × Str)} (p : ℕ × Str × Str → Prop)
    [DecidablePred p] (hes : (es.map Prod.fst).Nodup) (hds : ds.Nodup) (pick : Str × Str → Str)
    (hmem : ∀ t s, (∃ slot, (t, slot) ∈ es ∧ p (t, slot) ∧ pick slot = s) ↔ (t, s) ∈ ds) :
    ((es.filter p).map fun e => (e.1, pick e.2)).Perm ds := by
  have hkeys : (((es.filter p).map fun e => (e.1, pick e.2)).map Prod.fst).Nodup := by
    rw [List.map_map]
    exact hes.sublist (List.filter_sublist.map Prod.fst)
  refine (List.perm_ext_iff_of_nodup (hkeys.of_map _) hds).2 fun ⟨t, s⟩ => ?_
  rw [← hmem, List.mem_map]
  constructor
  · rintro ⟨⟨t', slot⟩, he, heq⟩
    obtain ⟨rfl, rfl⟩ := Prod.mk.inj heq
    obtain ⟨h1, h2⟩ := List.mem_filter.1 he
    exact ⟨slot, h1, of_decide_eq_true h2, rfl⟩
  · rintro ⟨slot, h1, h2, rfl⟩
    exact ⟨(t, slot), List.mem_filter.2 ⟨h1, decide_eq_true h2⟩, rfl⟩

theorem tagged_pick {es : List (ℕ × Str × Str)} {ds : List (ℕ × Str)} (p : ℕ × Str × Str → Prop)
    [DecidablePred p] (pick : Str × Str → Str)
    (h : ((es.filter p).map fun e => (e.1, pick e.2)).Perm (ds.filter (·.2 ≠ []))) :
    (es.flatMap fun e => if p e then [tagOf e.1 ++ pick e.2] else []).Perm (tagged ds) := by
  have hlines := h.map fun e => tagOf e.1 ++ e.2
  rw [List.map_map] at hlines
  rw [flatMap_ite]
  exact hlines

/-- The lines of all slots are the lines that stay, and the translated ones. -/
theorem perm_slotLines (original translation : Str) :
    ((parseLrc true translation (parseLrc false original ⟨.empty, []⟩)).merged.entries.flatMap
      slotLines).Perm (tagged (lasts (timedLines original)) ++ tagged (translated original translation)) := by
  set m := (parseLrc true translation (parseLrc false original ⟨.empty, []⟩)).merged with hm
  have hsplit : m.entries.flatMap slotLines =
      m.entries.flatMap fun e => (if e.2.1 ≠ [] then [tagOf e.1 ++ e.2.1] else []) ++
        (if e.2.2 ≠ [] ∧ e.2.2 ≠ e.2.1 then [tagOf e.1 ++ e.2.2] else []) := rfl
  have hfirst : ((m.entries.filter fun e => e.2.1 ≠ []).map fun e => (e.1, e.2.1)).Perm
      ((lasts (timedLines original)).filter (·.2 ≠ [])) := by
    refine perm_pick (fun e => e.2.1 ≠ []) m.entries_nodup ((nodup_lasts _).filter _) Prod.fst
      fun t s => ?_
    rw [List.mem_filter, mem_lasts, decide_eq_true_eq]
    simp only [Prod.exists, hm, mem_entries]
    cases value t (timedLines original) <;> aesop
  have hsecond : ((m.entries.filter fun e => e.2.2 ≠ [] ∧ e.2.2 ≠ e.2.1).map fun e => (e.1, e.2.2)).Perm
      ((translated original translation).filter (·.2 ≠ [])) := by
    have hnodup : (translated original translation).Nodup := (nodup_lasts _).filter _
    refine perm_pick (fun e => e.2.2 ≠ [] ∧ e.2.2 ≠ e.2.1) m.entries_nodup (hnodup.filter _) Prod.snd
      fun t s => ?_
    rw [List.mem_filter, mem_translated, decide_eq_true_eq]
    simp only [Prod.exists, hm, mem_entries]
    cases value t (timedLines original) <;> cases value t (timedLines translation) <;> aesop
  rw [hsplit]
  refine (List.flatMap_append_perm _ _ _).symm.trans (List.Perm.append ?_ ?_)
  · exact tagged_pick (fun e => e.2.1 ≠ []) Prod.fst hfirst
  · exact tagged_pick (fun e => e.2.2 ≠ [] ∧ e.2.2 ≠ e.2.1) Prod.snd hsecond

theorem newline_notMem_lrcLines {text line : Str} (h : line ∈ lrcLines text) : 10 ∉ line := by
  obtain ⟨l, hl, rfl⟩ := List.mem_map.1 h
  exact fun hmem => notMem_of_mem_getlines hl (List.mem_of_mem_filter hmem)

theorem newline_notMem_tagOf (ms : ℕ) : 10 ∉ tagOf ms := by
  have hpad : ∀ n, 10 ∉ pad2 n := by
    intro n hmem
    have hdec : 10 ∉ dec n := fun hd => absurd (isdigit_dec n 10 hd) (by decide)
    unfold pad2 at hmem
    split_ifs at hmem
    · exact hdec ((List.mem_cons.1 hmem).resolve_left (by decide))
    · exact hdec hmem
  simp [tagOf, hpad]

theorem lrcLine_text {line : Str} {e : ℕ × Str} (h : lrcLine line = some e) :
    ∃ tag, readTag line = some tag ∧ trimBlanks tag.rest = e.2 := by
  obtain ⟨tag, htag, h⟩ := Option.bind_eq_some_iff.1 h
  split_ifs at h <;> exact ⟨tag, htag, congrArg Prod.snd (Option.some.inj h)⟩

theorem newline_notMem_timed {text : Str} {e : ℕ × Str} (h : e ∈ timedLines text) : 10 ∉ e.2 := by
  obtain ⟨line, hline, he⟩ := List.mem_filterMap.1 h
  obtain ⟨tag, htag, htext⟩ := lrcLine_text he
  rw [← htext]
  intro hmem
  have hrest : 10 ∈ tag.rest := (List.dropWhile_sublist _).subset ((List.rdropWhile_prefix _ _).subset hmem)
  exact newline_notMem_lrcLines hline ((readTag_rest htag).subset hrest)

theorem mergedLines_perm (original translation : Str) :
    (mergedLines original translation).Perm (metaLines original ++
      (tagged (lasts (timedLines original)) ++ tagged (translated original translation))) := by
  have hmeta : (parseLrc true translation (parseLrc false original ⟨.empty, []⟩)).metaData =
      metaLines original := by
    unfold parseLrc
    rw [metaData_foldl, metaData_foldl]
    simp [metaLines]
  exact hmeta ▸ (perm_slotLines original translation).append_left _

/-- The output has the lines that were put together. -/
theorem getlines_merge {original translation : Str} (h : translation ≠ []) :
    getlines 10 (mergeBilingualLyrics original translation) = mergedLines original translation := by
  rw [mergeBilingualLyrics, if_neg h]
  refine getlines_flatMap fun line hline => ?_
  have htagged : ∀ es : List (ℕ × Str), (∀ e ∈ es, 10 ∉ e.2) → ∀ l ∈ tagged es, 10 ∉ l := by
    intro es hes l hl
    obtain ⟨e, he, rfl⟩ := List.mem_map.1 hl
    rw [List.mem_append, not_or]
    exact ⟨newline_notMem_tagOf _, hes e (List.mem_of_mem_filter he)⟩
  have hlasts : ∀ text, ∀ e ∈ lasts (timedLines text), 10 ∉ e.2 := fun text e he =>
    newline_notMem_timed ((perm_lasts _).symm.subset (List.mem_append_left _ he))
  rcases List.mem_append.1 ((mergedLines_perm _ _).subset hline) with hmeta | hline
  · exact newline_notMem_lrcLines (List.mem_of_mem_filter hmeta)
  · rcases List.mem_append.1 hline with hfirst | hsecond
    · exact htagged _ (hlasts original) line hfirst
    · exact htagged _ (fun e he => hlasts translation e (List.mem_of_mem_filter he)) line hsecond

/-- A line of the original stays or is overwritten. -/
theorem count_timed (original line : Str) :
    (tagged (timedLines original)).count line =
      (tagged (lasts (timedLines original))).count line +
        (tagged (overwritten (timedLines original))).count line := by
  rw [(tagged_perm (perm_lasts _)).count_eq, tagged_append, List.count_append]

/-- Where the lines of the output come from. -/
theorem count_merge {original translation : Str} (h : translation ≠ []) (line : Str) :
    (getlines 10 (mergeBilingualLyrics original translation)).count line =
      (metaLines original).count line + ((tagged (lasts (timedLines original))).count line +
        (tagged (translated original translation)).count line) := by
  rw [getlines_merge h, (mergedLines_perm _ _).count_eq, List.count_append, List.count_append]

/-- Lines of distinct times are all kept. -/
theorem keeps_of_distinct {original translation : Str} (h : translation ≠ [])
    (hdistinct : ((timedLines original).map Prod.fst).Nodup) :
    Keeps original (mergeBilingualLyrics original translation) := by
  intro line
  have hnone : (tagged (overwritten (timedLines original))).count line = 0 := by
    rw [overwritten_eq_nil_iff.2 hdistinct]
    rfl
  rw [count_timed, count_merge h, hnone]
  omega

/-- **What is kept.** A line of the original is lost when it is overwritten and neither the
    metadata nor the translation has the same line. -/
theorem mergeBilingualLyrics_keeps {original translation : Str} (h : translation ≠ []) :
    Keeps original (mergeBilingualLyrics original translation) ↔
      ∀ line, (tagged (overwritten (timedLines original))).count line ≤
        (metaLines original).count line + (tagged (translated original translation)).count line := by
  refine forall_congr' fun line => ?_
  rw [count_timed, count_merge h]
  omega

theorem two_lines_kept :
    Keeps (lit "[ti:T]\n[00:01.00]A\n[00:01.500]B")
      (mergeBilingualLyrics (lit "[ti:T]\n[00:01.00]A\n[00:01.500]B") (lit "[00:01.00]C")) := by
  refine (mergeBilingualLyrics_keeps (by decide)).2 fun line => ?_
  have hnone : overwritten (timedLines (lit "[ti:T]\n[00:01.00]A\n[00:01.500]B")) = [] := by
    decide +kernel
  rw [hnone]
  exact Nat.zero_le _

/-- A second before two lines of the first second, both are at zero, and the first is lost. -/
theorem clamped_line_lost :
    adjustLyricsTiming (lit "[00:00.10]A\n[00:00.20]B") (-1000) = .ok (lit "[00:00.00]A\n[00:00.00]B") ∧
      ¬ Keeps (lit "[00:00.00]A\n[00:00.00]B")
        (mergeBilingualLyrics (lit "[00:00.00]A\n[00:00.00]B") (lit "[00:01.00]T")) := by
  refine ⟨by rfl, fun hkeeps => ?_⟩
  exact absurd (hkeeps (lit "[00:00.00]A")) (by decide +kernel)

end NarMusic.LyricsAggregator
