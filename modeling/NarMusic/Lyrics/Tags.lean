/-
  The time tags of lyrics (`LyricsAggregator::adjustLyricsTiming`): which tags a
  text has, and what shifting them does.
-/
import NarMusic.Lyrics.Lrc
import NarMusic.Lib.Tokens

namespace NarMusic.LyricsAggregator

open Cxx

/-- A time tag `[min:sec.ms]`. -/
structure TimeTag where
  min : Str
  sec : Str
  ms : Str
  min_digits : min ≠ [] ∧ ∀ c ∈ min, isdigit c = true
  sec_digits : sec ≠ [] ∧ ∀ c ∈ sec, isdigit c = true
  ms_digits : ms ≠ [] ∧ ∀ c ∈ ms, isdigit c = true

def TimeTag.text (tag : TimeTag) : Str :=
  91 :: (tag.min ++ 58 :: (tag.sec ++ 46 :: (tag.ms ++ [93])))

/-- Its time in milliseconds, with a fraction of two digits taken as centiseconds. -/
def TimeTag.time (tag : TimeTag) : ℤ :=
  (digitsVal tag.min * 60 + digitsVal tag.sec) * 1000 +
    if tag.ms.length = 2 then digitsVal tag.ms * 10 else digitsVal tag.ms

/-- The time that `adjustLyricsTiming` reads, before the offset is added. -/
def adjustTime (tag : Tag) : Except Exn ℤ := do
  let min ← stoi tag.min
  let sec ← stoi tag.sec
  let ms ← stoi tag.ms
  let ms := if tag.ms.length = 2 then ms * 10 else ms
  return int32 ((min * 60 + sec) * 1000 + ms)

/-! ## Reading a tag -/

/-- A run of digits before another byte. -/
theorem takeWhile_digits {ds : Str} (h : ∀ c ∈ ds, isdigit c = true) {c : Byte} (hc : isdigit c = false)
    (s : Str) :
    (ds ++ c :: s).takeWhile isdigit = ds ∧ (ds ++ c :: s).dropWhile isdigit = c :: s := by
  rw [List.takeWhile_append_of_pos h, List.dropWhile_append_of_pos h]
  simp [hc]

theorem readTag_text {min sec ms : Str} (hmin : ∀ c ∈ min, isdigit c = true)
    (hsec : ∀ c ∈ sec, isdigit c = true) (hms : ∀ c ∈ ms, isdigit c = true) (rest : Str) :
    readTag (91 :: (min ++ 58 :: (sec ++ 46 :: (ms ++ 93 :: rest)))) = some ⟨min, sec, ms, rest⟩ := by
  obtain ⟨hmin, hmin'⟩ := takeWhile_digits hmin (c := 58) rfl (sec ++ 46 :: (ms ++ 93 :: rest))
  obtain ⟨hsec, hsec'⟩ := takeWhile_digits hsec (c := 46) rfl (ms ++ 93 :: rest)
  obtain ⟨hms, hms'⟩ := takeWhile_digits hms (c := 93) rfl rest
  simp [readTag, expect, hmin, hmin', hsec, hsec', hms, hms']

theorem readTag_eq_some {s : Str} {tag : Tag} (h : readTag s = some tag) :
    s = 91 :: (tag.min ++ 58 :: (tag.sec ++ 46 :: (tag.ms ++ 93 :: tag.rest))) ∧
      (∀ c ∈ tag.min, isdigit c = true) ∧ (∀ c ∈ tag.sec, isdigit c = true) ∧
      ∀ c ∈ tag.ms, isdigit c = true := by
  obtain ⟨s1, h1, h⟩ := Option.bind_eq_some_iff.1 h
  obtain ⟨s2, h2, h⟩ := Option.bind_eq_some_iff.1 h
  obtain ⟨s3, h3, h⟩ := Option.bind_eq_some_iff.1 h
  obtain ⟨s4, h4, h⟩ := Option.bind_eq_some_iff.1 h
  obtain rfl := Option.some.inj h
  rw [expect_eq_some] at h1 h2 h3 h4
  have hdigits : ∀ s : Str, ∀ c ∈ s.takeWhile isdigit, isdigit c = true := fun s c hc =>
    List.mem_takeWhile_imp hc
  refine ⟨?_, hdigits _, hdigits _, hdigits _⟩
  rw [← h4, List.takeWhile_append_dropWhile, ← h3, List.takeWhile_append_dropWhile, ← h2,
    List.takeWhile_append_dropWhile, h1]

/-- The tag as `readTag` reads it. -/
def TimeTag.read (tag : TimeTag) (rest : Str) : Tag := ⟨tag.min, tag.sec, tag.ms, rest⟩

theorem TimeTag.text_append (tag : TimeTag) (r : Str) :
    tag.text ++ r = 91 :: (tag.min ++ 58 :: (tag.sec ++ 46 :: (tag.ms ++ 93 :: r))) := by
  simp [text]

theorem timeRegex_text (tag : TimeTag) (r : Str) : timeRegex (tag.text ++ r) = some (tag.read r) := by
  have hread := readTag_text tag.min_digits.2 tag.sec_digits.2 tag.ms_digits.2 r
  simp [tag.text_append, timeRegex, hread, tag.min_digits.1, tag.sec_digits.1, tag.ms_digits.1,
    TimeTag.read]

theorem timeRegex_eq_some {s : Str} {tag : Tag} (h : timeRegex s = some tag) :
    ∃ t : TimeTag, s = t.text ++ tag.rest ∧ tag = t.read tag.rest := by
  obtain ⟨tag', hread, h⟩ := Option.bind_eq_some_iff.1 h
  split_ifs at h with hne
  obtain rfl := Option.some.inj h
  obtain ⟨heq, hmin, hsec, hms⟩ := readTag_eq_some hread
  refine ⟨⟨tag'.min, tag'.sec, tag'.ms, ⟨hne.1, hmin⟩, ⟨hne.2.1, hsec⟩, ⟨hne.2.2, hms⟩⟩, ?_, rfl⟩
  rw [TimeTag.text_append, heq]

theorem TimeTag.notMem_digits (tag : TimeTag) {c : Byte} (hc : isdigit c = false) :
    c ∉ tag.min ∧ c ∉ tag.sec ∧ c ∉ tag.ms :=
  ⟨Cxx.notMem_digits hc tag.min_digits.2, Cxx.notMem_digits hc tag.sec_digits.2,
    Cxx.notMem_digits hc tag.ms_digits.2⟩

theorem TimeTag.opens (tag : TimeTag) : ∃ s, tag.text = 91 :: s ∧ 91 ∉ s :=
  ⟨_, rfl, by simpa using tag.notMem_digits (c := 91) rfl⟩

/-- A tag is within one line. -/
theorem TimeTag.newline_notMem (tag : TimeTag) : 10 ∉ tag.text := by
  simpa [text] using tag.notMem_digits (c := 10) rfl

theorem TimeTag.start_unique {t u : TimeTag} {r r' : Str} (h : t.text ++ r = u.text ++ r') : t = u := by
  have hread := timeRegex_text t r
  rw [h, timeRegex_text u r'] at hread
  obtain ⟨hmin, hsec, hms, -⟩ := Tag.mk.inj (Option.some.inj hread)
  cases t
  cases u
  obtain rfl := hmin
  obtain rfl := hsec
  obtain rfl := hms
  rfl

/-- The time tags, as the tokens of a text. -/
def timeTags : Lexis Byte TimeTag where
  text := TimeTag.text
  opening := 91
  opens := TimeTag.opens
  start_unique := TimeTag.start_unique

/-- A tag is found in a line whatever follows the line. -/
theorem timeRegex_line {l : Str} (h : 10 ∉ l) (s : Str) :
    timeRegex (l ++ 10 :: s) = (timeRegex l).map fun tag => { tag with rest := tag.rest ++ 10 :: s } := by
  cases hl : timeRegex l with
  | some tag =>
    obtain ⟨t, heq, htag⟩ := timeRegex_eq_some hl
    rw [heq, List.append_assoc, timeRegex_text, htag]
    rfl
  | none =>
    by_contra hne
    obtain ⟨tag, htag⟩ := Option.ne_none_iff_exists'.1 hne
    obtain ⟨t, heq, -⟩ := timeRegex_eq_some htag
    have hprefix : t.text <+: l := by
      rcases List.append_eq_append_iff.1 heq with ⟨x, hx, hxs⟩ | ⟨x, hx, -⟩
      · cases x with
        | nil => exact ⟨[], by simpa using hx⟩
        | cons d x =>
          obtain rfl : 10 = d := (List.cons.inj hxs).1
          exact absurd (by simp [hx]) t.newline_notMem
      · exact ⟨x, hx.symm⟩
    obtain ⟨r, rfl⟩ := hprefix
    rw [timeRegex_text] at hl
    cases hl

/-- No tag is found in a text without tags. -/
theorem timeRegex_free {g y : Str} (h : timeTags.Free g) (hg : g ≠ []) (hy : timeTags.Bound y) :
    timeRegex (g ++ y) = none := by
  by_contra hne
  obtain ⟨tag, htag⟩ := Option.ne_none_iff_exists'.1 hne
  obtain ⟨t, heq, -⟩ := timeRegex_eq_some htag
  exact h.not_start hg hy t tag.rest heq

/-! ## Shifting -/

theorem shiftFrom_skip (offsetMs : ℤ) (k : ℕ) (s : Str) :
    shiftFrom offsetMs k s = shiftFrom offsetMs 0 (s.drop k) :=
  scan_skip (fun k => by cases k <;> rfl) (fun _ _ _ => rfl) k s

/-- A text without tags is copied. -/
theorem shiftFrom_free {g y : Str} (h : timeTags.Free g) (hy : timeTags.Bound y) (offsetMs : ℤ) :
    shiftFrom offsetMs 0 (g ++ y) = (shiftFrom offsetMs 0 y).map (g ++ ·) := by
  induction g with
  | nil =>
    rw [List.nil_append]
    cases shiftFrom offsetMs 0 y <;> rfl
  | cons c g ih =>
    have hnone := timeRegex_free h (List.cons_ne_nil c g) hy
    rw [List.cons_append] at hnone ⊢
    rw [shiftFrom, hnone, ih (h.of_suffix (List.suffix_cons c g))]
    cases shiftFrom offsetMs 0 y <;> rfl

/-- A tag is replaced. -/
theorem shiftFrom_text (offsetMs : ℤ) (tag : TimeTag) (r : Str) :
    shiftFrom offsetMs 0 (tag.text ++ r) =
      (do return (← shiftTag offsetMs (tag.read r)) ++ (← shiftFrom offsetMs 0 r)) := by
  have hregex := timeRegex_text tag r
  obtain ⟨s, hs, -⟩ := tag.opens
  have hdrop : (s ++ r).drop ((s ++ r).length - r.length) = r := by simp
  rw [hs, List.cons_append] at hregex ⊢
  rw [shiftFrom, hregex]
  simp only [TimeTag.read]
  rw [shiftFrom_skip, hdrop]

theorem pad2_digits (n : ℕ) : pad2 n ≠ [] ∧ ∀ c ∈ pad2 n, isdigit c = true := by
  unfold pad2
  split_ifs
  · refine ⟨List.cons_ne_nil _ _, fun c hc => ?_⟩
    rcases List.mem_cons.1 hc with rfl | hc
    · rfl
    · exact isdigit_dec n c hc
  · exact ⟨dec_ne_nil n, isdigit_dec n⟩

/-- `[mm:ss.cc]` -/
def timeTag (ms : ℕ) : TimeTag where
  min := pad2 (ms / 60000)
  sec := pad2 (ms % 60000 / 1000)
  ms := pad2 (ms % 1000 / 10)
  min_digits := pad2_digits _
  sec_digits := pad2_digits _
  ms_digits := pad2_digits _

theorem timeTag_text (ms : ℕ) : (timeTag ms).text = tagOf ms := by
  simp [timeTag, TimeTag.text, tagOf]

theorem timeTag_time (ms : ℕ) : (timeTag ms).time = ms / 10 * 10 := by
  have hlen : (pad2 (ms % 1000 / 10)).length = 2 := length_pad2 (by omega)
  simp only [timeTag, TimeTag.time, digitsVal_pad2, hlen, if_true]
  omega

/-- The tag of the shifted time, which is at least zero. -/
def TimeTag.shift (offsetMs : ℤ) (tag : TimeTag) : TimeTag := timeTag (max 0 (tag.time + offsetMs)).toNat

theorem TimeTag.shift_time (offsetMs : ℤ) (tag : TimeTag) :
    (tag.shift offsetMs).time = max 0 (tag.time + offsetMs) / 10 * 10 := by
  rw [shift, timeTag_time, Int.toNat_of_nonneg (le_max_left _ _)]

theorem TimeTag.shift_mono (offsetMs : ℤ) {t u : TimeTag} (h : t.time ≤ u.time) :
    (t.shift offsetMs).time ≤ (u.shift offsetMs).time := by
  rw [shift_time, shift_time]
  omega

/-- A tag whose time is an `int` is read as that time. -/
theorem adjustTime_read {tag : TimeTag} (h : IsInt32 tag.time) (r : Str) :
    adjustTime (tag.read r) = .ok tag.time := by
  have hbound := h.2
  have hval : digitsVal tag.min < 2 ^ 31 ∧ digitsVal tag.sec < 2 ^ 31 ∧ digitsVal tag.ms < 2 ^ 31 := by
    unfold TimeTag.time at hbound
    split_ifs at hbound <;> omega
  have hsum : ((digitsVal tag.min : ℤ) * 60 + digitsVal tag.sec) * 1000 +
      (if tag.ms.length = 2 then (digitsVal tag.ms : ℤ) * 10 else digitsVal tag.ms) = tag.time := by
    unfold TimeTag.time
    push_cast
    rfl
  rw [← int32_of_isInt32 h, ← hsum]
  simp only [adjustTime, TimeTag.read, stoi, hval.1, hval.2.1, hval.2.2, if_true]
  rfl

theorem shiftTag_eq (offsetMs : ℤ) (tag : Tag) :
    shiftTag offsetMs tag = (adjustTime tag).map fun t => tagOf (int32 (t + offsetMs)).toNat := by
  have hint : ∀ n, int32 (int32 n + offsetMs) = int32 (n + offsetMs) := fun n => by
    unfold int32
    exact Int.bmod_add_bmod
  unfold shiftTag adjustTime
  cases stoi tag.min with
  | error e => rfl
  | ok min =>
    cases stoi tag.sec with
    | error e => rfl
    | ok sec =>
      cases stoi tag.ms with
      | error e => rfl
      | ok ms =>
        simp only [Except.map, bind, Except.bind, pure, Except.pure]
        rw [hint]

theorem shiftTag_read {offsetMs : ℤ} {tag : TimeTag} (htime : IsInt32 tag.time)
    (hshift : IsInt32 (tag.time + offsetMs)) (r : Str) :
    shiftTag offsetMs (tag.read r) = .ok (tag.shift offsetMs).text := by
  have hmax : (max 0 (tag.time + offsetMs)).toNat = (tag.time + offsetMs).toNat := by omega
  rw [shiftTag_eq, adjustTime_read htime, Except.map, int32_of_isInt32 hshift, TimeTag.shift, timeTag_text,
    hmax]

/-! ## A whole text -/

/-- Texts with tags behind them, the tags shifted. -/
def shiftParts (offsetMs : ℤ) (parts : List (Str × TimeTag)) : List (Str × TimeTag) :=
  parts.map fun p => (p.1, p.2.shift offsetMs)

/-- The times of the tags and the shifted times are values of type `int`. -/
def Fits (lyrics : Str) (offsetMs : ℤ) : Prop :=
  ∀ tag : TimeTag, tag.text <:+: lyrics → IsInt32 tag.time ∧ IsInt32 (tag.time + offsetMs)

theorem shiftFrom_splits {offsetMs : ℤ} {s last : Str} {parts : List (Str × TimeTag)}
    (h : timeTags.Splits s parts last)
    (hfits : ∀ p ∈ parts, IsInt32 p.2.time ∧ IsInt32 (p.2.time + offsetMs)) :
    shiftFrom offsetMs 0 s = .ok (timeTags.render (shiftParts offsetMs parts) last) := by
  induction parts generalizing s with
  | nil =>
    have hcopy := shiftFrom_free h.last Lexis.bound_nil offsetMs
    rw [List.append_nil] at hcopy
    rw [h.eq]
    exact hcopy.trans (by simp [shiftFrom, Except.map, Lexis.render, shiftParts])
  | cons p parts ih =>
    have htag : shiftTag offsetMs (p.2.read (timeTags.render parts last)) = .ok (p.2.shift offsetMs).text :=
      shiftTag_read (hfits p List.mem_cons_self).1 (hfits p List.mem_cons_self).2 _
    have hrest := ih h.tail fun q hq => hfits q (List.mem_cons_of_mem _ hq)
    have hfree := shiftFrom_free (h.gap p List.mem_cons_self)
      (Lexis.bound_text p.2 (timeTags.render parts last)) offsetMs
    have hparts : shiftParts offsetMs (p :: parts) = (p.1, p.2.shift offsetMs) :: shiftParts offsetMs parts := rfl
    rw [h.eq, Lexis.render_cons, hfree, show timeTags.text p.2 = p.2.text from rfl, shiftFrom_text, htag, hrest,
      hparts, Lexis.render_cons]
    rfl

theorem adjust_splits {offsetMs : ℤ} (hoffset : offsetMs ≠ 0) {s last : Str} {parts : List (Str × TimeTag)}
    (h : timeTags.Splits s parts last)
    (hfits : ∀ p ∈ parts, IsInt32 p.2.time ∧ IsInt32 (p.2.time + offsetMs)) :
    adjustLyricsTiming s offsetMs = .ok (timeTags.render (shiftParts offsetMs parts) last) := by
  have hshift := shiftFrom_splits h hfits
  by_cases hs : s = []
  · subst hs
    rw [adjustLyricsTiming, if_pos (Or.inr rfl), ← hshift, shiftFrom]
  · rw [adjustLyricsTiming, if_neg (not_or.2 ⟨hoffset, hs⟩), hshift]

theorem timeTag_congr {m n : ℕ} (h : m / 10 = n / 10) : timeTag m = timeTag n := by
  have hmin : m / 60000 = n / 60000 := by omega
  have hsec : m % 60000 / 1000 = n % 60000 / 1000 := by omega
  have hms : m % 1000 / 10 = n % 1000 / 10 := by omega
  simp only [timeTag, hmin, hsec, hms]

/-- Two shifts by whole centiseconds, neither of which reaches zero, are one. -/
theorem TimeTag.shift_shift {a b : ℤ} (ha : 10 ∣ a) (hb : 10 ∣ b) {tag : TimeTag} (h : 0 ≤ tag.time + a)
    (h' : 0 ≤ tag.time + (a + b)) : (tag.shift a).shift b = tag.shift (a + b) := by
  have htime : max 0 (tag.time + a) / 10 * 10 + b = (tag.time + (a + b)) / 10 * 10 := by omega
  rw [shift, shift_time, htime, shift]
  exact timeTag_congr (by omega)

/-- A shift that does not reach zero fits when a later one does. -/
theorem TimeTag.shift_fits {a b : ℤ} (ha : 10 ∣ a) (hb : 10 ∣ b) {tag : TimeTag} (h : 0 ≤ tag.time + a)
    (h' : 0 ≤ tag.time + (a + b)) (hfits : IsInt32 (tag.time + a)) (hfits' : IsInt32 (tag.time + (a + b))) :
    IsInt32 (tag.shift a).time ∧ IsInt32 ((tag.shift a).time + b) := by
  unfold IsInt32 at *
  rw [shift_time]
  omega

theorem adjust_adjust {lyrics : Str} {a b : ℤ} (ha : a ≠ 0) (hb : b ≠ 0) (hab : a + b ≠ 0)
    (ha10 : 10 ∣ a) (hb10 : 10 ∣ b) (hfits : Fits lyrics a) (hfits' : Fits lyrics (a + b))
    (hclamp : ∀ tag : TimeTag, tag.text <:+: lyrics → 0 ≤ tag.time + a ∧ 0 ≤ tag.time + (a + b)) :
    (adjustLyricsTiming lyrics a >>= fun s => adjustLyricsTiming s b) = adjustLyricsTiming lyrics (a + b) := by
  obtain ⟨parts, last, h⟩ := timeTags.exists_splits lyrics
  have hfirst := adjust_splits ha h fun p hp => hfits p.2 (h.isInfix hp)
  have hboth := adjust_splits hab h fun p hp => hfits' p.2 (h.isInfix hp)
  have hsecond := adjust_splits hb (h.map (TimeTag.shift a)) fun p hp => by
    obtain ⟨q, hq, rfl⟩ := List.mem_map.1 hp
    obtain ⟨h1, h2⟩ := hclamp q.2 (h.isInfix hq)
    exact TimeTag.shift_fits ha10 hb10 h1 h2 (hfits q.2 (h.isInfix hq)).2 (hfits' q.2 (h.isInfix hq)).2
  have hparts : shiftParts b (shiftParts a parts) = shiftParts (a + b) parts := by
    unfold shiftParts
    rw [List.map_map]
    refine List.map_congr_left fun p hp => ?_
    obtain ⟨h1, h2⟩ := hclamp p.2 (h.isInfix hp)
    exact congrArg (Prod.mk p.1) (TimeTag.shift_shift ha10 hb10 h1 h2)
  rw [hfirst, hboth, ← hparts]
  exact hsecond

/-- **Shifting.**  The text splits at its tags, each of them becomes the tag of the shifted time, and
    nothing else changes; the order of the times stays, and two shifts by whole centiseconds are
    one. -/
theorem adjustLyricsTiming_shifts (lyrics : Str) :
    (∃ parts last, timeTags.Splits lyrics parts last) ∧
    (∀ offsetMs, offsetMs ≠ 0 → Fits lyrics offsetMs → ∀ parts last, timeTags.Splits lyrics parts last →
      adjustLyricsTiming lyrics offsetMs = .ok (timeTags.render (shiftParts offsetMs parts) last) ∧
      timeTags.Splits (timeTags.render (shiftParts offsetMs parts) last) (shiftParts offsetMs parts) last ∧
      (∀ p ∈ parts, (p.2.shift offsetMs).text = tagOf (max 0 (p.2.time + offsetMs)).toNat ∧
        (p.2.shift offsetMs).time = max 0 (p.2.time + offsetMs) / 10 * 10) ∧
      (parts.Pairwise (·.2.time ≤ ·.2.time) →
        (shiftParts offsetMs parts).Pairwise (·.2.time ≤ ·.2.time))) ∧
    ∀ a b, a ≠ 0 → b ≠ 0 → a + b ≠ 0 → 10 ∣ a → 10 ∣ b → Fits lyrics a → Fits lyrics (a + b) →
      (∀ tag : TimeTag, tag.text <:+: lyrics → 0 ≤ tag.time + a ∧ 0 ≤ tag.time + (a + b)) →
      (adjustLyricsTiming lyrics a >>= fun s => adjustLyricsTiming s b) = adjustLyricsTiming lyrics (a + b) := by
  refine ⟨timeTags.exists_splits lyrics, fun offsetMs hoffset hfits parts last h => ⟨?_, ?_, ?_, ?_⟩,
    fun a b => adjust_adjust⟩
  · exact adjust_splits hoffset h fun p hp => hfits p.2 (h.isInfix hp)
  · exact h.map _
  · exact fun p _ => ⟨timeTag_text _, p.2.shift_time offsetMs⟩
  · exact fun hsorted => List.pairwise_map.2 (hsorted.imp (TimeTag.shift_mono offsetMs))

end NarMusic.LyricsAggregator
