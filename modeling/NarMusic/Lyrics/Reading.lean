/-
  The three readers of a time tag: `adjustLyricsTiming`, `mergeBilingualLyrics`
  and the web player.

  The first takes any number of digits and a fraction that has not two of them
  as milliseconds, the second wants two digits, two digits and two or three, the
  third takes any number of digits and reads the fraction as a decimal.
-/
import NarMusic.Lyrics.Merge
import NarMusic.Lyrics.Tags
import NarMusic.Web.Lyrics

namespace NarMusic.LyricsAggregator

open Cxx

/-- The tag as the text of a line in the player. -/
def TimeTag.chars (tag : TimeTag) : Web.Text := Web.isomorphicDecode tag.text

/-- The three read the same time, and a line that begins with the tag is a timed line: where the
    player shows it, its first time, cut to milliseconds, is that one. -/
def ReadAlike (tag : TimeTag) : Prop :=
  ∃ t : ℕ, adjustTime (tag.read []) = .ok t ∧
    (∀ rest, (lrcLine (tag.text ++ rest)).map Prod.fst = some t) ∧
    ∀ rest, ∀ e ∈ (Web.Lyrics.lineLyrics (tag.chars ++ rest)).head?, ⌊e.time * 1000⌋ = t

/-- A tag of two, two and two or three digits. -/
def Standard (tag : TimeTag) : Prop :=
  tag.min.length = 2 ∧ tag.sec.length = 2 ∧ (tag.ms.length = 2 ∨ tag.ms.length = 3)

instance (tag : TimeTag) : Decidable (Standard tag) := inferInstanceAs (Decidable (_ ∧ _))

/-! ## The player -/

theorem isDigit_chars {ds : Str} (h : ∀ c ∈ ds, isdigit c = true) :
    ∀ c ∈ Web.isomorphicDecode ds, c.isDigit = true := by
  have hall : ∀ m < 256, isdigit (.ofNat m) = true → (Char.ofNat m).isDigit = true := by decide +kernel
  intro c hc
  obtain ⟨b, hb, rfl⟩ := List.mem_map.1 hc
  exact hall b.toNat b.toNat_lt (by rw [UInt8.ofNat_toNat]; exact h b hb)

theorem digitsValue_chars (ds : Str) : Web.Lyrics.digitsValue (Web.isomorphicDecode ds) = digitsVal ds := by
  have hall : ∀ m < 256, (Char.ofNat m).toNat = m := by decide +kernel
  unfold Web.Lyrics.digitsValue digitsVal Web.isomorphicDecode
  rw [List.foldl_map]
  congr 1
  funext v d
  rw [hall d.toNat d.toNat_lt]

/-- A run of digits before another character. -/
theorem takeWhile_chars {ds : Str} (h : ∀ c ∈ ds, isdigit c = true) {c : Char} (hc : c.isDigit = false)
    (s : Web.Text) :
    (Web.isomorphicDecode ds ++ c :: s).takeWhile Char.isDigit = Web.isomorphicDecode ds ∧
      (Web.isomorphicDecode ds ++ c :: s).dropWhile Char.isDigit = c :: s := by
  rw [List.takeWhile_append_of_pos (isDigit_chars h), List.dropWhile_append_of_pos (isDigit_chars h)]
  simp [hc]

theorem TimeTag.chars_append (tag : TimeTag) (r : Web.Text) :
    tag.chars ++ r = '[' :: (Web.isomorphicDecode tag.min ++ ':' :: (Web.isomorphicDecode tag.sec ++
      '.' :: (Web.isomorphicDecode tag.ms ++ ']' :: r))) := by
  simp [chars, text, Web.isomorphicDecode]

theorem timeRegex_chars (tag : TimeTag) (r : Web.Text) :
    Web.Lyrics.timeRegex (tag.chars ++ r) = some (Web.isomorphicDecode tag.min,
      Web.isomorphicDecode tag.sec ++ '.' :: Web.isomorphicDecode tag.ms, r) := by
  obtain ⟨hmin, hmin'⟩ := takeWhile_chars tag.min_digits.2 (c := ':') rfl (Web.isomorphicDecode tag.sec ++
      '.' :: (Web.isomorphicDecode tag.ms ++ ']' :: r))
  obtain ⟨hsec, hsec'⟩ := takeWhile_chars tag.sec_digits.2 (c := '.') rfl
    (Web.isomorphicDecode tag.ms ++ ']' :: r)
  obtain ⟨hms, hms'⟩ := takeWhile_chars tag.ms_digits.2 (c := ']') rfl r
  have hne : Web.isomorphicDecode tag.min ≠ [] ∧ Web.isomorphicDecode tag.sec ≠ [] := by
    simpa [Web.isomorphicDecode] using ⟨tag.min_digits.1, tag.sec_digits.1⟩
  simp [tag.chars_append, Web.Lyrics.timeRegex, hmin, hmin', hsec, hsec', hms, hne]

theorem parseFloat_whole {ds : Str} (h : ∀ c ∈ ds, isdigit c = true) :
    Web.Lyrics.parseFloat (Web.isomorphicDecode ds) = digitsVal ds := by
  have htake := List.takeWhile_eq_self_iff.2 (isDigit_chars h)
  have hdrop := List.dropWhile_eq_nil_iff.2 (isDigit_chars h)
  rw [Web.Lyrics.parseFloat, htake, hdrop, digitsValue_chars]
  simp [Web.Lyrics.digitsValue]

theorem parseFloat_decimal {ds es : Str} (h : ∀ c ∈ ds, isdigit c = true) (h' : ∀ c ∈ es, isdigit c = true) :
    Web.Lyrics.parseFloat (Web.isomorphicDecode ds ++ '.' :: Web.isomorphicDecode es) =
      digitsVal ds + digitsVal es / 10 ^ es.length := by
  obtain ⟨htake, hdrop⟩ := takeWhile_chars h (c := '.') rfl (Web.isomorphicDecode es)
  have hfrac := List.takeWhile_eq_self_iff.2 (isDigit_chars h')
  rw [Web.Lyrics.parseFloat, htake, hdrop, List.tail_cons, hfrac, digitsValue_chars, digitsValue_chars]
  simp [Web.isomorphicDecode]

/-- The seconds of a tag, its fraction a decimal. -/
def TimeTag.seconds (tag : TimeTag) : ℚ :=
  digitsVal tag.min * 60 + (digitsVal tag.sec + digitsVal tag.ms / 10 ^ tag.ms.length)

/-- A line that begins with a tag and has a text is shown at the time of the tag first. -/
theorem lineLyrics_shown (tag : TimeTag) (r : Web.Text)
    (htext : Web.trim (Web.Lyrics.removeAll 0 (tag.chars ++ r)) ≠ []) :
    (Web.Lyrics.lineLyrics (tag.chars ++ r)).head? =
      some ⟨tag.seconds, Web.trim (Web.Lyrics.removeAll 0 (tag.chars ++ r))⟩ := by
  have hregex := timeRegex_chars tag r
  have htime : Web.Lyrics.parseFloat (Web.isomorphicDecode tag.min) * 60 +
      Web.Lyrics.parseFloat (Web.isomorphicDecode tag.sec ++ '.' :: Web.isomorphicDecode tag.ms) =
        tag.seconds := by
    rw [parseFloat_whole tag.min_digits.2, parseFloat_decimal tag.sec_digits.2 tag.ms_digits.2]
    rfl
  rw [tag.chars_append] at hregex htext ⊢
  rw [Web.Lyrics.lineLyrics, if_neg htext, Web.Lyrics.matchAll, hregex, ← htime]
  rfl

theorem lineLyrics_chars {tag : TimeTag} {r : Web.Text} {e : Web.Lyrics.LyricLine}
    (h : e ∈ (Web.Lyrics.lineLyrics (tag.chars ++ r)).head?) : e.time = tag.seconds := by
  by_cases htext : Web.trim (Web.Lyrics.removeAll 0 (tag.chars ++ r)) = []
  · rw [Web.Lyrics.lineLyrics, if_pos htext] at h
    cases h
  · rw [lineLyrics_shown tag r htext] at h
    obtain rfl := Option.some.inj h
    rfl

theorem floor_seconds (tag : TimeTag) :
    ⌊tag.seconds * 1000⌋ = ((digitsVal tag.min * 60 + digitsVal tag.sec) * 1000 +
      digitsVal tag.ms * 1000 / 10 ^ tag.ms.length : ℕ) := by
  have hsplit : tag.seconds * 1000 = (((digitsVal tag.min * 60 + digitsVal tag.sec) * 1000 : ℕ) : ℚ) +
      ((digitsVal tag.ms * 1000 : ℕ) : ℚ) / ((10 ^ tag.ms.length : ℕ) : ℚ) := by
    unfold TimeTag.seconds
    push_cast
    ring
  rw [hsplit, Int.floor_natCast_add, Rat.floor_natCast_div_natCast]
  push_cast
  rfl

/-! ## The three -/

theorem lrcLine_tag (tag : TimeTag) (rest : Str) :
    (lrcLine (tag.text ++ rest)).map Prod.fst =
      if Standard tag then some tag.time.toNat else none := by
  have hread := readTag_text tag.min_digits.2 tag.sec_digits.2 tag.ms_digits.2 rest
  rw [← tag.text_append] at hread
  rw [lrcLine, hread]
  simp only [Option.bind_eq_bind, Option.bind_some]
  by_cases h : Standard tag
  · rw [if_pos h, if_pos (show tag.min.length = 2 ∧ _ from h), Option.map_some, TimeTag.time]
    refine congrArg some ?_
    split_ifs <;> omega
  · rw [if_neg h, if_neg (show ¬ (tag.min.length = 2 ∧ _) from h)]
    rfl

/-- The milliseconds of a fraction of `k` digits, as the first reader and as the player take them. -/
theorem fraction_iff {v k : ℕ} (hk : 0 < k) :
    v * 1000 / 10 ^ k = (if k = 2 then v * 10 else v) ↔ k = 2 ∨ k = 3 ∨ v = 0 := by
  by_cases h4 : k < 4
  · interval_cases k <;> simp <;> omega
  · have hpow : 10 ^ 4 ≤ 10 ^ k := Nat.pow_le_pow_right (by omega) (by omega)
    have hle : v * 1000 / 10 ^ k ≤ v * 1000 / 10 ^ 4 := Nat.div_le_div_left hpow (by omega)
    rw [if_neg (by omega)]
    constructor
    · intro heq
      omega
    · rintro (hk | hk | rfl)
      · omega
      · omega
      · simp

/-- The first reader and the player agree on a fraction of two or three digits, and on zero. -/
theorem adjust_player_iff (tag : TimeTag) :
    ⌊tag.seconds * 1000⌋ = tag.time ↔
      tag.ms.length = 2 ∨ tag.ms.length = 3 ∨ digitsVal tag.ms = 0 := by
  have htime : tag.time = (((digitsVal tag.min * 60 + digitsVal tag.sec) * 1000 +
      if tag.ms.length = 2 then digitsVal tag.ms * 10 else digitsVal tag.ms : ℕ) : ℤ) := by
    unfold TimeTag.time
    push_cast
    rfl
  rw [floor_seconds, htime, Nat.cast_inj, Nat.add_left_cancel_iff,
    fraction_iff (List.length_pos_iff.2 tag.ms_digits.1)]

theorem time_nonneg (tag : TimeTag) : 0 ≤ tag.time := by
  unfold TimeTag.time
  split_ifs <;> omega

theorem standard_time {tag : TimeTag} (h : Standard tag) : IsInt32 tag.time := by
  obtain ⟨hmin, hsec, hms⟩ := h
  have hmin' := digitsVal_lt tag.min_digits.2
  have hsec' := digitsVal_lt tag.sec_digits.2
  have hms' := digitsVal_lt tag.ms_digits.2
  rw [hmin] at hmin'
  rw [hsec] at hsec'
  unfold IsInt32 TimeTag.time
  rcases hms with hms | hms
  · rw [hms] at hms'
    rw [if_pos hms]
    omega
  · rw [hms] at hms'
    rw [if_neg (by omega)]
    omega

/-- The player shows a line that begins with such a tag, and has a text, at the time that
    `adjustLyricsTiming` reads. -/
theorem parseLrcLyrics_shown {tag : TimeTag} (h : Standard tag) {lrcText r : Web.Text}
    (hline : tag.chars ++ r ∈ Web.split ['\n'] lrcText)
    (htext : Web.trim (Web.Lyrics.removeAll 0 (tag.chars ++ r)) ≠ []) :
    ∃ e ∈ Web.Lyrics.parseLrcLyrics lrcText,
      ⌊e.time * 1000⌋ = tag.time ∧ e.text = Web.trim (Web.Lyrics.removeAll 0 (tag.chars ++ r)) := by
  refine ⟨⟨tag.seconds, _⟩, ?_, (adjust_player_iff tag).2 (h.2.2.imp_right Or.inl), rfl⟩
  rw [Web.Lyrics.mem_parseLrcLyrics]
  exact ⟨_, hline, List.mem_of_head? (lineLyrics_shown tag r htext)⟩

/-- **Reading a tag.**  The three readers read the same time, and the line is a timed line of the
    merger, exactly when the tag has two digits, two digits and two or three. -/
theorem readAlike_iff (tag : TimeTag) : ReadAlike tag ↔ Standard tag := by
  constructor
  · rintro ⟨t, -, hmerge, -⟩
    by_contra hne
    have hnone := lrcLine_tag tag []
    rw [hmerge [], if_neg hne] at hnone
    cases hnone
  · intro h
    have htime : (tag.time.toNat : ℤ) = tag.time := Int.toNat_of_nonneg (time_nonneg tag)
    refine ⟨tag.time.toNat, ?_, fun rest => ?_, fun rest e he => ?_⟩
    · rw [adjustTime_read (standard_time h), htime]
    · rw [lrcLine_tag, if_pos h]
    · rw [lineLyrics_chars he, htime]
      exact (adjust_player_iff tag).2 (h.2.2.imp_right Or.inl)

/-- Half a second behind the first one: the first reader takes five milliseconds, the merger leaves
    the line out, and the player takes half a second. -/
theorem half_second_apart :
    ∃ tag : TimeTag, tag.text = lit "[00:01.5]" ∧ adjustTime (tag.read []) = .ok 1005 ∧
      lrcLine (tag.text ++ lit "x") = none ∧
      (Web.Lyrics.lineLyrics (tag.chars ++ ['x'])).map (·.time) = [3 / 2] ∧ ¬ ReadAlike tag := by
  have hmerge : lrcLine (lit "[00:01.5]" ++ lit "x") = none := by decide +kernel
  refine ⟨⟨lit "00", lit "01", lit "5", digits_of_all (by decide), digits_of_all (by decide),
    digits_of_all (by decide)⟩, rfl, by rfl, hmerge, by decide +kernel, fun h => ?_⟩
  obtain ⟨t, -, hall, -⟩ := h
  have htime := hall (lit "x")
  rw [show TimeTag.text _ = lit "[00:01.5]" from rfl, hmerge] at htime
  cases htime

end NarMusic.LyricsAggregator
