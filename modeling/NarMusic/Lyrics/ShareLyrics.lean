/-
  The lyrics of a share page (`QishuiProvider::krcJsonToLrc`, qishui_provider.cpp), and what the
  merger makes of them.

  Two texts are written, the lyrics and the translation, a line for each sentence; the merger puts
  them together again, the translation of a sentence behind its line (`krcJsonToLrc_merged`).
-/
import NarMusic.Lib.JsonValue
import NarMusic.Lyrics.Krc

namespace NarMusic.QishuiProvider

open Cxx LyricsAggregator Assignments

/-! ## The sentences -/

/-- The member that `contains(key)` and `is_string()` ask for. -/
def stringAt (key : String) (v : JsonValue) : Str :=
  match v.find? key with
  | some (.str s) => Utf8.encode s
  | _ => []

/-- The array at `key`; that it is not empty is asked by the caller. -/
def arrayAt (key : String) (v : JsonValue) : List JsonValue := (v.array key).getD []

/-- The texts of the words, joined. -/
def wordsText (key : String) (s : JsonValue) : Str := (arrayAt key s).flatMap (stringAt "text")

/-- `text` -/
def sentenceText (s : JsonValue) : Str :=
  if wordsText "words" s = [] then stringAt "text" s else wordsText "words" s

def hasString (key : String) (v : JsonValue) : Bool :=
  match v.find? key with
  | some (.str _) => true
  | _ => false

/-- `transText` -/
def transText (s : JsonValue) : Str :=
  if arrayAt "translatedWords" s ≠ [] then wordsText "translatedWords" s
  else if hasString "translation" s then stringAt "translation" s
  else if hasString "trans" s then stringAt "trans" s
  else stringAt "translatedText" s

section
variable (truncate : ℤ → ℕ → ℤ)

/-- `contains("startMs")`, `is_number()` and `get<int64_t>()`. -/
def startMsAt (v : JsonValue) : ℤ :=
  match v.find? "startMs" with
  | some (.int n) => n.bmod (2 ^ 64)
  | some (.float asInt asSize) => truncate asInt asSize
  | _ => 0

/-- `startMs`, that of the first word where the sentence has none. -/
def startMs (s : JsonValue) : ℤ :=
  let own := startMsAt truncate s
  if own = 0 then ((arrayAt "words" s).head?.map (startMsAt truncate)).getD 0 else own

/-- What a line starts with. -/
def lrcTag (startMs : ℤ) : Str :=
  let min := int32 (startMs.tdiv 60000)
  let sec := int32 ((startMs.tmod 60000).tdiv 1000)
  let ms := int32 (startMs.tmod 1000)
  [91] ++ setw 2 (decInt min) ++ [58] ++ setw 2 (decInt sec) ++ [46] ++ setw 3 (decInt ms) ++ [93]

/-- `lrc`, `transLrc` and `hasTrans`. -/
structure Texts where
  lrc : Str
  transLrc : Str
  hasTrans : Bool

def isObject : JsonValue → Bool
  | .obj _ => true
  | _ => false

/-- One round of the loop over the sentences. -/
def addSentence (t : Texts) (s : JsonValue) : Texts :=
  if isObject s = false then t
  else
    let startMs := startMs truncate s
    let text := sentenceText s
    if text = [] then t
    else
      let t := { t with lrc := t.lrc ++ (lrcTag startMs ++ text ++ [10]) }
      let transText := transText s
      if transText = [] then t
      else { t with hasTrans := true, transLrc := t.transLrc ++ (lrcTag startMs ++ transText ++ [10]) }

/-- The lyrics and the translation; a text that is no JSON has neither. -/
def krcJsonToLrc (parse : Str → Except Exn JsonValue) (krcJson : Str) : Str × Str :=
  match parse krcJson with
  | .error _ => ([], [])
  | .ok krc =>
    match krc.find? "sentences" with
    | some (.arr sentences) =>
      let t := sentences.foldl (addSentence truncate) ⟨[], [], false⟩
      (t.lrc, if t.hasTrans then t.transLrc else [])
    | _ => ([], [])

/-! ## What is written -/

/-- A sentence that is written: its time, its text and its translation. -/
structure Sentence where
  startMs : ℤ
  text : Str
  trans : Str

/-- The sentences that are objects with a text. -/
def sentencesOf (sentences : List JsonValue) : List Sentence :=
  (sentences.filter fun s => isObject s && sentenceText s ≠ []).map fun s =>
    ⟨startMs truncate s, sentenceText s, transText s⟩

variable {truncate}

def Sentence.line (s : Sentence) : Str := lrcTag s.startMs ++ s.text

def Sentence.transLine (s : Sentence) : Str := lrcTag s.startMs ++ s.trans

/-- The sentences that have a translation. -/
def withTrans (ss : List Sentence) : List Sentence := ss.filter (·.trans ≠ [])

theorem foldl_addSentence (sentences : List JsonValue) (t : Texts) :
    sentences.foldl (addSentence truncate) t =
      ⟨t.lrc ++ ((sentencesOf truncate sentences).map Sentence.line).flatMap (· ++ [10]),
        t.transLrc ++ ((withTrans (sentencesOf truncate sentences)).map Sentence.transLine).flatMap (· ++ [10]),
        t.hasTrans || !(withTrans (sentencesOf truncate sentences)).isEmpty⟩ := by
  induction sentences generalizing t with
  | nil => simp [sentencesOf, withTrans]
  | cons s sentences ih =>
    rw [List.foldl_cons, ih, addSentence]
    by_cases hobject : isObject s = true
    · by_cases htext : sentenceText s = []
      · have hskip : sentencesOf truncate (s :: sentences) = sentencesOf truncate sentences := by
          simp [sentencesOf, htext]
        simp [hobject, htext, hskip]
      · have hcons : sentencesOf truncate (s :: sentences) =
            ⟨startMs truncate s, sentenceText s, transText s⟩ :: sentencesOf truncate sentences := by
          simp [sentencesOf, hobject, htext]
        by_cases htrans : transText s = []
        · simp [hobject, htext, htrans, hcons, withTrans, Sentence.line]
        · simp [hobject, htext, htrans, hcons, withTrans, Sentence.line, Sentence.transLine]
    · have hskip : sentencesOf truncate (s :: sentences) = sentencesOf truncate sentences := by
        simp [sentencesOf, hobject]
      simp [hobject, hskip]

/-- Both texts, a line for each sentence. -/
theorem krcJsonToLrc_eq {parse : Str → Except Exn JsonValue} {krcJson : Str} {krc : JsonValue}
    {sentences : List JsonValue} (hparse : parse krcJson = .ok krc)
    (hsentences : krc.find? "sentences" = some (.arr sentences)) :
    krcJsonToLrc truncate parse krcJson =
      (((sentencesOf truncate sentences).map Sentence.line).flatMap (· ++ [10]),
        ((withTrans (sentencesOf truncate sentences)).map Sentence.transLine).flatMap (· ++ [10])) := by
  rw [krcJsonToLrc, hparse]
  dsimp only
  rw [hsentences]
  dsimp only
  rw [foldl_addSentence]
  cases hnone : withTrans (sentencesOf truncate sentences) with
  | nil => simp
  | cons s ss => simp

/-! ## What is read of it -/

/-- A sentence that fits into a line with a time of two digits of minutes. -/
structure Sentence.Plain (s : Sentence) : Prop where
  startMs_nonneg : 0 ≤ s.startMs
  startMs_lt : s.startMs < 6000000
  text : 10 ∉ s.text
  trans : 10 ∉ s.trans

def Sentence.time (s : Sentence) : ℕ := s.startMs.toNat

/-- A text as the merger writes it. -/
def plainText (text : Str) : Str := trimBlanks (text.filter (· ≠ 13))

theorem lrcTag_eq {startMs : ℤ} (h : 0 ≤ startMs) (hlt : startMs < 6000000) : lrcTag startMs = tagMs startMs.toNat := by
  obtain ⟨n, rfl⟩ := Int.eq_ofNat_of_zero_le h
  have hmin : int32 ((n : ℤ).tdiv 60000) = (n / 60000 : ℕ) := by
    rw [Int.tdiv_eq_ediv_of_nonneg (by omega)]
    exact int32_of_isInt32 ⟨by omega, by omega⟩
  have hsec : int32 (((n : ℤ).tmod 60000).tdiv 1000) = (n % 60000 / 1000 : ℕ) := by
    rw [Int.tmod_eq_emod_of_nonneg (by omega), Int.tdiv_eq_ediv_of_nonneg (by omega)]
    exact int32_of_isInt32 ⟨by omega, by omega⟩
  have hms : int32 ((n : ℤ).tmod 1000) = (n % 1000 : ℕ) := by
    rw [Int.tmod_eq_emod_of_nonneg (by omega)]
    exact int32_of_isInt32 ⟨by omega, by omega⟩
  rw [lrcTag, hmin, hsec, hms]
  rfl

/-- A tag that the merger reads as a time. -/
structure ReadsAs (tag : Str) (time : ℕ) : Prop where
  newline : 10 ∉ tag
  cr : 13 ∉ tag
  read : ∀ text, lrcLine (tag ++ text) = some (time, trimBlanks text)

/-- The merger reads one timed line from each line, with its text. -/
theorem timedLines_written {α : Type} (as : List α) (tag text : α → Str) (time : α → ℕ)
    (htag : ∀ a ∈ as, ReadsAs (tag a) (time a)) (htext : ∀ a ∈ as, 10 ∉ text a) :
    (∀ line ∈ lrcLines ((as.map fun a => tag a ++ text a).flatMap (· ++ [10])), lrcLine line ≠ none) ∧
      timedLines ((as.map fun a => tag a ++ text a).flatMap (· ++ [10])) =
        as.map fun a => (time a, plainText (text a)) := by
  have hfree : ∀ l ∈ as.map fun a => tag a ++ text a, 10 ∉ l := by
    intro l hl
    obtain ⟨a, ha, rfl⟩ := List.mem_map.1 hl
    rw [List.mem_append, not_or]
    exact ⟨(htag a ha).newline, htext a ha⟩
  have hread : ∀ a ∈ as, lrcLine ((tag a ++ text a).filter (· ≠ 13)) = some (time a, plainText (text a)) := by
    intro a ha
    have hcr : (tag a).filter (· ≠ 13) = tag a := by
      refine List.filter_eq_self.2 fun c hc => decide_eq_true ?_
      rintro rfl
      exact (htag a ha).cr hc
    rw [List.filter_append, hcr]
    exact (htag a ha).read _
  have hlines : lrcLines ((as.map fun a => tag a ++ text a).flatMap (· ++ [10])) =
      as.map fun a => (tag a ++ text a).filter (· ≠ 13) := by
    rw [lrcLines, getlines_flatMap hfree, List.map_map]
    rfl
  refine ⟨fun line hline => ?_, ?_⟩
  · rw [hlines] at hline
    obtain ⟨a, ha, rfl⟩ := List.mem_map.1 hline
    rw [hread a ha]
    exact Option.some_ne_none _
  · rw [timedLines, hlines, List.filterMap_map, ← List.filterMap_eq_map]
    exact List.filterMap_congr hread

theorem Sentence.Plain.reads {s : Sentence} (h : s.Plain) : ReadsAs (lrcTag s.startMs) s.time := by
  have hnonneg := h.startMs_nonneg
  have hlt : s.time < 6000000 := by
    have := h.startMs_lt
    rw [Sentence.time]
    omega
  rw [lrcTag_eq hnonneg h.startMs_lt]
  exact ⟨notMem_tagMs hlt rfl (by decide), notMem_tagMs hlt rfl (by decide), lrcLine_tagMs hlt⟩

/-- A key of a list without a second assignment has the value of its entry. -/
theorem value_eq_some {es : List (ℕ × Str)} (h : (es.map Prod.fst).Nodup) {k : ℕ} {v : Str} :
    value k es = some v ↔ (k, v) ∈ es := by
  have hperm := perm_lasts es
  rw [overwritten_eq_nil_iff.2 h, List.append_nil] at hperm
  rw [← mem_lasts, hperm.mem_iff]

/-- The slot of a sentence in the merged text. -/
def Sentence.slot (s : Sentence) : ℕ × Str × Str := (s.time, plainText s.text, plainText s.trans)

/-- The slots of the merged text are those of the sentences. -/
theorem mem_merged {ss : List Sentence} {original translation : Str} (hnodup : (ss.map Sentence.time).Nodup)
    (hlines : timedLines original = ss.map fun s => (s.time, plainText s.text))
    (htrans : timedLines translation = (withTrans ss).map fun s => (s.time, plainText s.trans)) (e : ℕ × Str × Str) :
    e ∈ (parseLrc true translation (parseLrc false original ⟨.empty, []⟩)).merged.entries ↔
      e ∈ ss.map Sentence.slot := by
  obtain ⟨t, a, b⟩ := e
  have hkeys : ((timedLines original).map Prod.fst).Nodup := by
    rw [hlines, List.map_map]
    exact hnodup
  have hkeys' : ((timedLines translation).map Prod.fst).Nodup := by
    rw [htrans, List.map_map]
    exact hnodup.sublist (List.filter_sublist.map Sentence.time)
  -- a sentence is the only one at its time
  have hvalue : ∀ s ∈ ss, value s.time (timedLines original) = some (plainText s.text) ∧
      (value s.time (timedLines translation)).getD [] = plainText s.trans := by
    intro s hs
    refine ⟨(value_eq_some hkeys).2 (hlines ▸ List.mem_map_of_mem hs), ?_⟩
    by_cases hnone : s.trans = []
    · cases hv : value s.time (timedLines translation) with
      | none => simp [hnone, plainText, trimBlanks]
      | some v =>
        have hmem := (value_eq_some hkeys').1 hv
        rw [htrans] at hmem
        obtain ⟨s', hs', heq⟩ := List.mem_map.1 hmem
        obtain ⟨hss', hne⟩ := List.mem_filter.1 hs'
        have hsame : s' = s := List.inj_on_of_nodup_map hnodup hss' hs (congrArg Prod.fst heq)
        rw [hsame] at hne
        exact absurd hnone (of_decide_eq_true hne)
    · have hmem : s ∈ withTrans ss := List.mem_filter.2 ⟨hs, decide_eq_true hnone⟩
      rw [(value_eq_some hkeys').2 (htrans ▸ List.mem_map_of_mem hmem)]
      rfl
  rw [mem_entries]
  constructor
  · rintro ⟨hsome, ha, hb⟩
    have htime : ∃ s ∈ ss, s.time = t := by
      rcases hsome with h | h
      · have hmem : t ∈ (timedLines original).map Prod.fst := by
          by_contra hno
          exact h (value_eq_none_iff.2 hno)
        rw [hlines, List.map_map] at hmem
        exact List.mem_map.1 hmem
      · have hmem : t ∈ (timedLines translation).map Prod.fst := by
          by_contra hno
          exact h (value_eq_none_iff.2 hno)
        rw [htrans, List.map_map] at hmem
        obtain ⟨s, hs, heq⟩ := List.mem_map.1 hmem
        exact ⟨s, List.mem_of_mem_filter hs, heq⟩
    obtain ⟨s, hs, rfl⟩ := htime
    obtain ⟨hfirst, hsecond⟩ := hvalue s hs
    rw [hfirst] at ha
    refine List.mem_map.2 ⟨s, hs, ?_⟩
    rw [Sentence.slot, ← ha, ← hb, hsecond]
    rfl
  · intro hmem
    obtain ⟨s, hs, heq⟩ := List.mem_map.1 hmem
    obtain ⟨rfl, rfl, rfl⟩ : s.time = t ∧ plainText s.text = a ∧ plainText s.trans = b := by
      simpa [Sentence.slot] using heq
    obtain ⟨hfirst, hsecond⟩ := hvalue s hs
    refine ⟨Or.inl ?_, ?_, hsecond⟩
    · rw [hfirst]
      exact Option.some_ne_none _
    · rw [hfirst]
      rfl

theorem perm_merged {ss : List Sentence} {original translation : Str} (hnodup : (ss.map Sentence.time).Nodup)
    (hlines : timedLines original = ss.map fun s => (s.time, plainText s.text))
    (htrans : timedLines translation = (withTrans ss).map fun s => (s.time, plainText s.trans)) :
    (parseLrc true translation (parseLrc false original ⟨.empty, []⟩)).merged.entries.Perm
      (ss.map Sentence.slot) := by
  refine (List.perm_ext_iff_of_nodup ?_ ?_).2 (mem_merged hnodup hlines htrans)
  · exact (OrdMap.entries_nodup _).of_map _
  · refine List.Nodup.of_map Prod.fst ?_
    rw [List.map_map]
    exact hnodup

/-- Lines that are all timed are no metadata. -/
theorem metaLines_nil {text : Str} (h : ∀ line ∈ lrcLines text, lrcLine line ≠ none) : metaLines text = [] := by
  refine List.filter_eq_nil_iff.2 fun line hline hmeta => ?_
  exact h line hline (of_decide_eq_true hmeta).1

/-- **The lyrics of a share page.**  For sentences of distinct times below 100 minutes, of which one
    has a translation, the merged text has the lines of all sentences in the order of their times:
    the text, and behind it the translation where there is another one. -/
theorem krcJsonToLrc_merged {parse : Str → Except Exn JsonValue} {krcJson : Str} {krc : JsonValue}
    {sentences : List JsonValue} (hparse : parse krcJson = .ok krc)
    (hsentences : krc.find? "sentences" = some (.arr sentences))
    (hplain : ∀ s ∈ sentencesOf truncate sentences, s.Plain)
    (hnodup : ((sentencesOf truncate sentences).map Sentence.time).Nodup)
    (htrans : ∃ s ∈ sentencesOf truncate sentences, s.trans ≠ []) :
    ∃ slots : List (ℕ × Str × Str), slots.Perm ((sentencesOf truncate sentences).map Sentence.slot) ∧ slots.Pairwise (·.1 < ·.1) ∧
      getlines 10 (mergeBilingualLyrics (krcJsonToLrc truncate parse krcJson).1
        (krcJsonToLrc truncate parse krcJson).2) = slots.flatMap slotLines := by
  rw [krcJsonToLrc_eq hparse hsentences]
  dsimp only
  set ss := sentencesOf truncate sentences with hss
  obtain ⟨htimed, hlines⟩ := timedLines_written ss (lrcTag ·.startMs) Sentence.text Sentence.time
    (fun s hs => (hplain s hs).reads) fun s hs => (hplain s hs).text
  obtain ⟨-, hlines'⟩ := timedLines_written (withTrans ss) (lrcTag ·.startMs) Sentence.trans Sentence.time
    (fun s hs => (hplain s (List.mem_of_mem_filter hs)).reads) fun s hs => (hplain s (List.mem_of_mem_filter hs)).trans
  have hne : ((withTrans ss).map Sentence.transLine).flatMap (· ++ [10]) ≠ [] := by
    obtain ⟨s, hs, hsome⟩ := htrans
    have hmem : s ∈ withTrans ss := List.mem_filter.2 ⟨hs, decide_eq_true hsome⟩
    intro hnil
    have hline := List.flatMap_eq_nil_iff.1 hnil _ (List.mem_map_of_mem hmem)
    simp at hline
  refine ⟨(parseLrc true _ (parseLrc false _ ⟨.empty, []⟩)).merged.entries,
    perm_merged hnodup hlines hlines', OrdMap.sorted _, ?_⟩
  rw [getlines_merge hne, mergedLines]
  have hmeta : (parseLrc true (((withTrans ss).map Sentence.transLine).flatMap (· ++ [10]))
      (parseLrc false ((ss.map Sentence.line).flatMap (· ++ [10])) ⟨.empty, []⟩)).metaData = [] := by
    unfold parseLrc
    rw [metaData_foldl, metaData_foldl, if_pos rfl, if_neg Bool.false_ne_true, List.append_nil, List.nil_append]
    exact metaLines_nil htimed
  rw [hmeta]
  rfl

end

/-- Two sentences in words, the later one first and without a translation. -/
def twoSentences : JsonValue :=
  .obj [("sentences", .arr [
    .obj [("startMs", .int 61500), ("text", .str "b ".toList)],
    .obj [("translation", .str "ä".toList), ("words", .arr [.obj [("startMs", .int 1234), ("text", .str "a".toList)],
      .obj [("text", .str "a".toList)]])]])]

theorem twoSentences_merged :
    ∃ slots : List (ℕ × Str × Str), slots.Perm [(61500, lit "b", []), (1234, lit "aa", lit "ä")] ∧
      slots.Pairwise (·.1 < ·.1) ∧
      getlines 10 (mergeBilingualLyrics (krcJsonToLrc (fun n _ => n) (fun _ => .ok twoSentences) []).1
        (krcJsonToLrc (fun n _ => n) (fun _ => .ok twoSentences) []).2) = slots.flatMap slotLines := by
  have hread : sentencesOf (fun n _ => n) [.obj [("startMs", .int 61500), ("text", .str "b ".toList)],
      .obj [("translation", .str "ä".toList), ("words", .arr [.obj [("startMs", .int 1234), ("text", .str "a".toList)],
        .obj [("text", .str "a".toList)]])]] = [⟨61500, lit "b ", []⟩, ⟨1234, lit "aa", lit "ä"⟩] := by rfl
  have h := @krcJsonToLrc_merged (fun n _ => n) (fun _ => .ok twoSentences) [] twoSentences _ rfl rfl
  rw [hread] at h
  refine h ?_ ?_ ?_
  · simp only [List.forall_mem_cons, List.not_mem_nil, IsEmpty.forall_iff, implies_true, and_true]
    exact ⟨⟨by decide, by decide, by decide, by decide⟩, by decide, by decide, by decide, by decide⟩
  · decide
  · exact ⟨_, List.mem_cons_of_mem _ List.mem_cons_self, List.cons_ne_nil _ _⟩

end NarMusic.QishuiProvider
