/-
  What `fetchBest` returns.

  The selected result has lyrics unless none has (`selected_hasLyrics`), so the
  supplement of lyrics never finds anything to do, and the translation of the answer is
  the one that came with its lyrics, if there is one (`words_best`).  Every other
  supplement fills its own field (`supplement_frame`).
-/
import NarMusic.Lyrics.Aggregator
import Mathlib.Data.Int.ConditionallyCompleteOrder
import Mathlib.Data.List.MinMax
import Mathlib.Data.List.Nodup

namespace NarMusic.LyricsAggregator

open Cxx

/-! ## Lookups -/

/-- What is asked of the results: distinct platforms of the default ones, and no flag without its
    field. -/
structure Results (allData : List MusicMetadata) : Prop where
  nonempty : allData ≠ []
  distinct : (allData.map (·.source)).Nodup
  platforms : ∀ d ∈ allData, d.source ∈ defaultOrder
  lyrics : ∀ d ∈ allData, d.hasLyrics → d.lyrics ≠ []
  translation : ∀ d ∈ allData, d.hasTranslation → d.translationLyrics ≠ []
  cover : ∀ d ∈ allData, d.hasCover → d.coverData ≠ []

theorem mem_buildPlatformOrder {platform : Str} (h : platform ∈ defaultOrder) (preferredPlatform : Str) :
    platform ∈ buildPlatformOrder preferredPlatform := by
  unfold buildPlatformOrder
  split_ifs
  · exact h
  · by_cases heq : platform = preferredPlatform
    · exact heq ▸ List.mem_cons_self
    · exact List.mem_cons_of_mem _ (List.mem_filter.2 ⟨h, decide_eq_true heq⟩)

theorem findPlatform_mem {allData : List MusicMetadata} {platform : Str} {d : MusicMetadata}
    (h : findPlatform allData platform = some d) : d ∈ allData ∧ d.source = platform :=
  ⟨List.mem_of_find?_eq_some h, by simpa using List.find?_some h⟩

theorem findPlatform_source {allData : List MusicMetadata} (h : (allData.map (·.source)).Nodup)
    {d : MusicMetadata} (hd : d ∈ allData) : findPlatform allData d.source = some d := by
  cases hfind : findPlatform allData d.source with
  | none => exact absurd (List.find?_eq_none.1 hfind d hd) (by simp)
  | some e =>
    obtain ⟨he, hsource⟩ := findPlatform_mem hfind
    rw [List.inj_on_of_nodup_map h he hd hsource]

theorem mem_inOrder {allData : List MusicMetadata} (h : Results allData) {preferredPlatform : Str}
    {d : MusicMetadata} : d ∈ inOrder allData (buildPlatformOrder preferredPlatform) ↔ d ∈ allData := by
  unfold inOrder
  rw [List.mem_filterMap]
  constructor
  · rintro ⟨platform, -, hfind⟩
    exact (findPlatform_mem hfind).1
  · intro hd
    exact ⟨d.source, mem_buildPlatformOrder (h.platforms d hd) _, findPlatform_source h.distinct hd⟩

/-! ## The selected result -/

theorem missingScore_nonneg (d : MusicMetadata) : 0 ≤ missingScore d := by
  unfold missingScore
  split_ifs <;> omega

theorem hasLyrics_of_missingScore {d : MusicMetadata} (h : 0 < missingScore d) : d.hasLyrics = true := by
  by_contra hno
  rw [missingScore, if_pos (Bool.eq_false_of_not_eq_true hno)] at h
  exact absurd h (lt_irrefl 0)

theorem missingScore_pos {d : MusicMetadata} (h : d.hasLyrics = true) : 0 < missingScore d := by
  unfold missingScore
  rw [h]
  split_ifs <;> simp_all

/-- The scan of the third tier is the first maximum of the scores. -/
theorem primary_eq_argmax (results : List MusicMetadata) :
    primary results = results.argmax missingScore := by
  have key : ∀ (ds : List MusicMetadata) (best : Option MusicMetadata),
      (ds.foldl compareScore (best, (best.map missingScore).getD (-1))).1 =
        ds.foldl (List.argAux fun b c => missingScore c < missingScore b) best := by
    intro ds
    induction ds with
    | nil => exact fun _ => rfl
    | cons d ds ih =>
      intro best
      rw [List.foldl_cons, List.foldl_cons, ← ih]
      cases best with
      | none =>
        have hpos : missingScore d > -1 := lt_of_lt_of_le (by decide) (missingScore_nonneg d)
        simp only [compareScore, List.argAux, Option.map_none, Option.getD_none, if_pos hpos,
          Option.map_some, Option.getD_some]
      | some e =>
        simp only [compareScore, List.argAux, Option.map_some, Option.getD_some, gt_iff_lt]
        split_ifs <;> rfl
  exact key results none

theorem hasLyrics_of_hasCoreData {d : MusicMetadata} (h : hasCoreData d = true) : d.hasLyrics = true := by
  by_contra hno
  rw [hasCoreData, if_pos (Bool.eq_false_of_not_eq_true hno)] at h
  cases h

/-- The first two tiers select a result with lyrics, the third one the best score. -/
theorem selected_cases {allData : List MusicMetadata} {preferredPlatform : Str} {d : MusicMetadata}
    (h : selected allData preferredPlatform = some d) :
    (d ∈ allData ∧ d.hasLyrics = true) ∨
      (d ∈ inOrder allData (buildPlatformOrder preferredPlatform) ∧
        ∀ e ∈ inOrder allData (buildPlatformOrder preferredPlatform), missingScore e ≤ missingScore d) := by
  unfold selected at h
  dsimp only at h
  rcases Option.or_eq_some_iff.1 h with h | ⟨-, h⟩
  · rcases Option.or_eq_some_iff.1 h with h | ⟨-, h⟩
    · unfold preferred at h
      split_ifs at h
      obtain ⟨hfind, hcore⟩ := Option.filter_eq_some_iff.1 h
      exact Or.inl ⟨(findPlatform_mem hfind).1, hasLyrics_of_hasCoreData hcore⟩
    · obtain ⟨platform, -, hfind⟩ := List.mem_filterMap.1 (List.mem_of_find?_eq_some h)
      have hcomplete : isComplete d = true := List.find?_some h
      exact Or.inl ⟨(findPlatform_mem hfind).1,
        hasLyrics_of_hasCoreData (Bool.and_eq_true_iff.1 hcomplete).1⟩
  · rw [primary_eq_argmax] at h
    exact Or.inr ⟨List.argmax_mem h, fun e he => List.le_of_mem_argmax he h⟩

theorem selected_mem {allData : List MusicMetadata} (hr : Results allData) {preferredPlatform : Str}
    {d : MusicMetadata} (h : selected allData preferredPlatform = some d) : d ∈ allData := by
  rcases selected_cases h with ⟨hd, -⟩ | ⟨hd, -⟩
  · exact hd
  · exact (mem_inOrder hr).1 hd

/-- A result without lyrics is selected only when no result has lyrics. -/
theorem selected_hasLyrics {allData : List MusicMetadata} (hr : Results allData) {preferredPlatform : Str}
    {d : MusicMetadata} (h : selected allData preferredPlatform = some d) :
    d.hasLyrics = true ↔ ∃ e ∈ allData, e.hasLyrics = true := by
  refine ⟨fun hd => ⟨d, selected_mem hr h, hd⟩, ?_⟩
  rintro ⟨e, he, helyrics⟩
  rcases selected_cases h with ⟨-, hd⟩ | ⟨-, hmax⟩
  · exact hd
  · have hpos : 0 < missingScore d :=
      (missingScore_pos helyrics).trans_le (hmax e ((mem_inOrder hr).2 he))
    exact hasLyrics_of_missingScore hpos

theorem selected_isSome {allData : List MusicMetadata} (hr : Results allData) (preferredPlatform : Str) :
    ∃ d, selected allData preferredPlatform = some d := by
  have hprimary : primary (inOrder allData (buildPlatformOrder preferredPlatform)) ≠ none := by
    rw [primary_eq_argmax, ne_eq, List.argmax_eq_none]
    obtain ⟨d, hd⟩ := List.exists_mem_of_ne_nil _ hr.nonempty
    exact List.ne_nil_of_mem ((mem_inOrder hr).2 hd)
  obtain ⟨d, hd⟩ := Option.ne_none_iff_exists'.1 hprimary
  unfold selected
  dsimp only
  rw [hd]
  cases (preferred allData preferredPlatform).or _ with
  | none => exact ⟨d, rfl⟩
  | some e => exact ⟨e, rfl⟩

/-- The preferred platform is selected when it has the core data. -/
theorem selected_preferred {allData : List MusicMetadata} (hr : Results allData) {d : MusicMetadata}
    (hd : d ∈ allData) (hcore : hasCoreData d = true) : selected allData d.source = some d := by
  have hne : d.source ≠ [] := fun heq => absurd (heq ▸ hr.platforms d hd) (by decide)
  have hpreferred : preferred allData d.source = some d := by
    rw [preferred, if_pos hne, findPlatform_source hr.distinct hd, Option.filter_some, if_pos hcore]
  unfold selected
  dsimp only
  rw [hpreferred]
  rfl

/-! ## What the supplements change -/

section Supplement
variable {missing usable : MusicMetadata → Bool} {take : MusicMetadata → MusicMetadata → MusicMetadata}

/-- What `take` leaves alone, the supplement leaves alone. -/
theorem supplement_frame {α : Type} (field : MusicMetadata → α)
    (htake : ∀ best d, field (take best d) = field best) (results : List MusicMetadata)
    (best : MusicMetadata) : field (supplement missing usable take results best) = field best := by
  unfold supplement
  split
  · split
    · exact htake best _
    · rfl
  · rfl

theorem supplement_present {best : MusicMetadata} (h : missing best = false) (results : List MusicMetadata) :
    supplement missing usable take results best = best := by
  unfold supplement
  rw [h]
  rfl

theorem supplement_unusable {results : List MusicMetadata} (h : ∀ d ∈ results, usable d = false)
    (best : MusicMetadata) : supplement missing usable take results best = best := by
  have hnone : results.find? usable = none := List.find?_eq_none.2 fun d hd => by simp [h d hd]
  unfold supplement
  rw [hnone]
  split <;> rfl

variable (missing usable take) in
/-- Afterwards it is missing only when no result is usable. -/
theorem supplement_missing (htake : ∀ best d, usable d = true → missing (take best d) = false)
    (results : List MusicMetadata) (best : MusicMetadata) :
    missing (supplement missing usable take results best) = false ↔
      missing best = false ∨ ∃ d ∈ results, usable d = true := by
  cases hmissing : missing best with
  | false => simp [supplement_present hmissing, hmissing]
  | true =>
    rw [supplement, if_pos hmissing]
    cases hfind : results.find? usable with
    | none => simpa [hmissing] using List.find?_eq_none.1 hfind
    | some d =>
      have husable : usable d = true := List.find?_some hfind
      simp only [htake best d husable, true_iff]
      exact Or.inr ⟨d, List.mem_of_find?_eq_some hfind, husable⟩

end Supplement

/-- The fields of the last two supplements. -/
def words (d : MusicMetadata) : Str × Bool × Str × Bool :=
  (d.lyrics, d.hasLyrics, d.translationLyrics, d.hasTranslation)

def cover (d : MusicMetadata) : Str × Bool := (d.coverData, d.hasCover)

/-- The fields of the first four. -/
def labels (d : MusicMetadata) : (Str × Bool) × Str × Str × Str := (cover d, d.album, d.artist, d.songName)

section Fields
variable (results : List MusicMetadata) (best : MusicMetadata)

@[simp] theorem words_supplementCover : words (supplementCover results best) = words best :=
  supplement_frame words (by intros; rfl) results best

@[simp] theorem words_supplementAlbum : words (supplementAlbum results best) = words best :=
  supplement_frame words (by intros; rfl) results best

@[simp] theorem words_supplementArtist : words (supplementArtist results best) = words best :=
  supplement_frame words (by intros; rfl) results best

@[simp] theorem words_supplementSongName : words (supplementSongName results best) = words best :=
  supplement_frame words (by intros; rfl) results best

@[simp] theorem labels_supplementLyrics : labels (supplementLyrics results best) = labels best := by
  refine supplement_frame labels (fun best d => ?_) results best
  dsimp only
  split_ifs <;> rfl

@[simp] theorem labels_supplementTranslation : labels (supplementTranslation results best) = labels best :=
  supplement_frame labels (by intros; rfl) results best

@[simp] theorem cover_supplementAlbum : cover (supplementAlbum results best) = cover best :=
  supplement_frame cover (by intros; rfl) results best

@[simp] theorem cover_supplementArtist : cover (supplementArtist results best) = cover best :=
  supplement_frame cover (by intros; rfl) results best

@[simp] theorem cover_supplementSongName : cover (supplementSongName results best) = cover best :=
  supplement_frame cover (by intros; rfl) results best

@[simp] theorem album_supplementCover : (supplementCover results best).album = best.album :=
  supplement_frame MusicMetadata.album (by intros; rfl) results best

@[simp] theorem album_supplementArtist : (supplementArtist results best).album = best.album :=
  supplement_frame MusicMetadata.album (by intros; rfl) results best

@[simp] theorem album_supplementSongName : (supplementSongName results best).album = best.album :=
  supplement_frame MusicMetadata.album (by intros; rfl) results best

@[simp] theorem artist_supplementCover : (supplementCover results best).artist = best.artist :=
  supplement_frame MusicMetadata.artist (by intros; rfl) results best

@[simp] theorem artist_supplementAlbum : (supplementAlbum results best).artist = best.artist :=
  supplement_frame MusicMetadata.artist (by intros; rfl) results best

@[simp] theorem artist_supplementSongName : (supplementSongName results best).artist = best.artist :=
  supplement_frame MusicMetadata.artist (by intros; rfl) results best

@[simp] theorem songName_supplementCover : (supplementCover results best).songName = best.songName :=
  supplement_frame MusicMetadata.songName (by intros; rfl) results best

@[simp] theorem songName_supplementAlbum : (supplementAlbum results best).songName = best.songName :=
  supplement_frame MusicMetadata.songName (by intros; rfl) results best

@[simp] theorem songName_supplementArtist : (supplementArtist results best).songName = best.songName :=
  supplement_frame MusicMetadata.songName (by intros; rfl) results best

end Fields

/-- The lyrics stay when there are some, and when no result has any. -/
theorem supplementLyrics_idle {results : List MusicMetadata} {best : MusicMetadata}
    (h : best.hasLyrics = false → ∀ d ∈ results, d.hasLyrics = false) :
    supplementLyrics results best = best := by
  cases hlyrics : best.hasLyrics with
  | true => exact supplement_present (by simp [hlyrics]) results
  | false => exact supplement_unusable (h hlyrics) best

theorem supplementTranslation_lyrics (results : List MusicMetadata) (best : MusicMetadata) :
    (supplementTranslation results best).lyrics = best.lyrics ∧
      (supplementTranslation results best).hasLyrics = best.hasLyrics :=
  Prod.mk.inj (supplement_frame (fun d => (d.lyrics, d.hasLyrics)) (by intros; rfl) results best)

theorem supplementTranslation_present {best : MusicMetadata} (h : best.hasTranslation = true)
    (results : List MusicMetadata) : supplementTranslation results best = best :=
  supplement_present (by simp [h]) results

theorem supplementTranslation_hasTranslation {best : MusicMetadata} (hlyrics : best.hasLyrics = true)
    (hforeign : isChineseLyrics best.lyrics = false) (results : List MusicMetadata) :
    (supplementTranslation results best).hasTranslation = true ↔
      best.hasTranslation = true ∨ ∃ d ∈ results, d.hasTranslation = true ∧ d.translationLyrics ≠ [] := by
  have h := supplement_missing
    (fun best => best.hasLyrics && !best.hasTranslation && !isChineseLyrics best.lyrics)
    (fun d => d.hasTranslation && d.translationLyrics ≠ [])
    (fun best d => { best with translationLyrics := d.translationLyrics, hasTranslation := true })
    (by intros; simp) results best
  obtain ⟨h1, h2⟩ := supplementTranslation_lyrics results best
  change ((supplementTranslation results best).hasLyrics &&
    !(supplementTranslation results best).hasTranslation &&
    !isChineseLyrics (supplementTranslation results best).lyrics) = false ↔ _ at h
  simpa [h1, h2, hlyrics, hforeign] using h

section Missing
variable (best : MusicMetadata) (allData : List MusicMetadata) (platformOrder : List Str)

/-- The last two supplements find the lyrics and the translation as they were. -/
theorem supplementMissing_eq :
    ∃ b, words b = words best ∧ supplementMissing best allData platformOrder =
      supplementTranslation (inOrder allData platformOrder)
        (supplementLyrics (inOrder allData platformOrder) b) :=
  ⟨_, by simp, rfl⟩

/-- Each of the first four finds its field as it was. -/
theorem labels_supplementMissing :
    let r := supplementMissing best allData platformOrder
    cover r = cover (supplementCover allData best) ∧
      (∃ b, b.album = best.album ∧ r.album = (supplementAlbum allData b).album) ∧
      (∃ b, b.artist = best.artist ∧ r.artist = (supplementArtist allData b).artist) ∧
      ∃ b, b.songName = best.songName ∧ r.songName = (supplementSongName allData b).songName := by
  intro r
  let withCover := supplementCover allData best
  let withAlbum := supplementAlbum allData withCover
  let withArtist := supplementArtist allData withAlbum
  have h : labels r = labels (supplementSongName allData withArtist) := by
    change labels (supplementTranslation _ (supplementLyrics _ _)) = _
    rw [labels_supplementTranslation, labels_supplementLyrics]
  obtain ⟨hcover, h⟩ := Prod.mk.inj h
  obtain ⟨halbum, h⟩ := Prod.mk.inj h
  obtain ⟨hartist, hsongName⟩ := Prod.mk.inj h
  refine ⟨by simpa [withArtist, withAlbum] using hcover, ⟨withCover, ?_, ?_⟩, ⟨withAlbum, ?_, ?_⟩,
    ⟨withArtist, ?_, hsongName⟩⟩
  · simp [withCover]
  · simpa [withArtist, withAlbum] using halbum
  · simp [withAlbum, withCover]
  · simpa [withArtist] using hartist
  · simp [withArtist, withAlbum, withCover]

end Missing

theorem supplementCover_hasCover (results : List MusicMetadata) (best : MusicMetadata) :
    (supplementCover results best).hasCover = true ↔
      best.hasCover = true ∨ ∃ d ∈ results, d.hasCover = true ∧ d.coverData ≠ [] := by
  have h := supplement_missing (fun best => !best.hasCover) (fun d => d.hasCover && d.coverData ≠ [])
    (fun best d => { best with coverData := d.coverData, hasCover := true, coverSize := d.coverSize })
    (by intros; simp) results best
  simpa [supplementCover] using h

theorem supplementAlbum_album (results : List MusicMetadata) (best : MusicMetadata) :
    (supplementAlbum results best).album ≠ [] ↔ best.album ≠ [] ∨ ∃ d ∈ results, d.album ≠ [] := by
  have h := supplement_missing (fun best => best.album = []) (fun d => d.album ≠ [])
    (fun best d => { best with album := d.album, hasAlbum := true }) (by simp) results best
  simpa [supplementAlbum] using h

theorem supplementCover_kept {best : MusicMetadata} (h : best.hasCover = true) (results : List MusicMetadata) :
    supplementCover results best = best :=
  supplement_present (by simp [h]) results

theorem supplementAlbum_kept {best : MusicMetadata} (h : best.album ≠ []) (results : List MusicMetadata) :
    supplementAlbum results best = best :=
  supplement_present (by simp [h]) results

theorem supplementArtist_kept {best : MusicMetadata} (h : best.artist ≠ []) (results : List MusicMetadata) :
    supplementArtist results best = best :=
  supplement_present (by simp [h]) results

theorem supplementSongName_kept {best : MusicMetadata} (h : best.songName ≠ [])
    (results : List MusicMetadata) : supplementSongName results best = best :=
  supplement_present (by simp [h]) results

/-! ## `fetchBest` -/

/-- What is returned for a set of results. -/
structure IsBest (allData : List MusicMetadata) (preferredPlatform : Str) (best : MusicMetadata) : Prop where
  preferred : ∀ d ∈ allData, d.source = preferredPlatform → hasCoreData d = true →
    best.lyrics = cleanLyrics d.lyrics
  hasLyrics : best.hasLyrics = true ↔ ∃ d ∈ allData, d.hasLyrics = true
  hasCover : best.hasCover = true ↔ ∃ d ∈ allData, d.hasCover = true
  album : best.album ≠ [] ↔ ∃ d ∈ allData, d.album ≠ []
  paired : best.hasLyrics = true → ∃ p ∈ allData, p.hasLyrics = true ∧
    best.lyrics = cleanLyrics p.lyrics ∧ (p.hasTranslation = true →
      best.hasTranslation = true ∧ best.translationLyrics = p.translationLyrics)
  translated : best.hasLyrics = true → isChineseLyrics best.lyrics = false →
    (best.hasTranslation = true ↔ ∃ d ∈ allData, d.hasTranslation = true)
  kept : ∃ d ∈ allData, selected allData preferredPlatform = some d ∧
    (d.songName ≠ [] → best.songName = d.songName) ∧ (d.artist ≠ [] → best.artist = d.artist) ∧
    (d.album ≠ [] → best.album = d.album) ∧
    (d.hasCover = true → best.hasCover = true ∧ best.coverData = d.coverData)

/-- Empty lyrics are clean. -/
theorem cleaned_eq (d : MusicMetadata) : cleaned d = { d with lyrics := cleanLyrics d.lyrics } := by
  unfold cleaned
  split_ifs with h
  · rfl
  · have hnil : cleanLyrics d.lyrics = d.lyrics := by rw [not_not.1 h]; rfl
    rw [hnil]

/-- The labels of the answer for a selected result. -/
theorem labels_best {allData : List MusicMetadata} {d : MusicMetadata} (hd : d ∈ allData)
    (hcover : ∀ e ∈ allData, e.hasCover = true → e.coverData ≠ []) (order : List Str) :
    let best := supplementMissing (cleaned d) allData order
    (best.hasCover = true ↔ ∃ e ∈ allData, e.hasCover = true) ∧
      (best.album ≠ [] ↔ ∃ e ∈ allData, e.album ≠ []) ∧
      (d.songName ≠ [] → best.songName = d.songName) ∧ (d.artist ≠ [] → best.artist = d.artist) ∧
      (d.album ≠ [] → best.album = d.album) ∧
      (d.hasCover = true → best.hasCover = true ∧ best.coverData = d.coverData) := by
  intro best
  have hcleaned : labels (cleaned d) = labels d := by rw [cleaned_eq]; rfl
  obtain ⟨hc, h⟩ := Prod.mk.inj hcleaned
  obtain ⟨h1, h2⟩ := Prod.mk.inj hc
  obtain ⟨h3, h⟩ := Prod.mk.inj h
  obtain ⟨h4, h5⟩ := Prod.mk.inj h
  obtain ⟨hcover', ⟨b, hb, halbum⟩, ⟨b', hb', hartist⟩, ⟨b'', hb'', hsongName⟩⟩ :=
    labels_supplementMissing (cleaned d) allData order
  obtain ⟨hdata, hflag⟩ := Prod.mk.inj hcover'
  refine ⟨?_, ?_, fun hne => ?_, fun hne => ?_, fun hne => ?_, fun hflagged => ?_⟩
  · rw [hflag, supplementCover_hasCover, h2]
    constructor
    · rintro (hd' | ⟨e, he, hecover, -⟩)
      · exact ⟨d, hd, hd'⟩
      · exact ⟨e, he, hecover⟩
    · rintro ⟨e, he, hecover⟩
      exact Or.inr ⟨e, he, hecover, hcover e he hecover⟩
  · rw [halbum, supplementAlbum_album, hb, h3]
    exact or_iff_right_of_imp fun hne => ⟨d, hd, hne⟩
  · rw [hsongName, supplementSongName_kept (by rwa [hb'', h5]), hb'', h5]
  · rw [hartist, supplementArtist_kept (by rwa [hb', h4]), hb', h4]
  · rw [halbum, supplementAlbum_kept (by rwa [hb, h3]), hb, h3]
  · rw [hflag, hdata, supplementCover_kept (by rwa [h2]), h1, h2]
    exact ⟨hflagged, rfl⟩

/-- The lyrics and the translation of the answer for a selected result. -/
theorem words_best {allData : List MusicMetadata} (hr : Results allData) {preferredPlatform : Str}
    {d : MusicMetadata} (hd : selected allData preferredPlatform = some d) :
    let best := supplementMissing (cleaned d) allData (buildPlatformOrder preferredPlatform)
    best.lyrics = cleanLyrics d.lyrics ∧ best.hasLyrics = d.hasLyrics ∧
      (d.hasTranslation = true → best.hasTranslation = true ∧ best.translationLyrics = d.translationLyrics) ∧
      (best.hasLyrics = true → isChineseLyrics best.lyrics = false →
        (best.hasTranslation = true ↔ ∃ e ∈ allData, e.hasTranslation = true)) := by
  intro best
  have hcleaned : words (cleaned d) = (cleanLyrics d.lyrics, d.hasLyrics, d.translationLyrics,
      d.hasTranslation) := by
    rw [cleaned_eq]
    rfl
  obtain ⟨b, hwords, heq⟩ := supplementMissing_eq (cleaned d) allData (buildPlatformOrder preferredPlatform)
  obtain ⟨h1, h⟩ := Prod.mk.inj (hwords.trans hcleaned)
  obtain ⟨h2, h⟩ := Prod.mk.inj h
  obtain ⟨h3, h4⟩ := Prod.mk.inj h
  have hidle : supplementLyrics (inOrder allData (buildPlatformOrder preferredPlatform)) b = b := by
    refine supplementLyrics_idle fun hnone e he => Bool.eq_false_of_not_eq_true fun helyrics => ?_
    rw [h2] at hnone
    exact absurd ((selected_hasLyrics hr hd).2 ⟨e, (mem_inOrder hr).1 he, helyrics⟩) (by simp [hnone])
  have hbest : best = supplementTranslation (inOrder allData (buildPlatformOrder preferredPlatform)) b := by
    rw [← hidle, ← heq]
  obtain ⟨hlyrics, hflag⟩ := supplementTranslation_lyrics
    (inOrder allData (buildPlatformOrder preferredPlatform)) b
  refine ⟨hbest ▸ hlyrics.trans h1, hbest ▸ hflag.trans h2, fun htranslation => ?_, fun hsome hforeign => ?_⟩
  · rw [hbest, supplementTranslation_present (h4.trans htranslation)]
    exact ⟨h4.trans htranslation, h3⟩
  · rw [hbest] at hsome hforeign ⊢
    rw [supplementTranslation_hasTranslation (hflag ▸ hsome) (hlyrics ▸ hforeign), h4]
    constructor
    · rintro (htranslation | ⟨e, he, htranslation, -⟩)
      · exact ⟨d, selected_mem hr hd, htranslation⟩
      · exact ⟨e, (mem_inOrder hr).1 he, htranslation⟩
    · rintro ⟨e, he, htranslation⟩
      exact Or.inr ⟨e, (mem_inOrder hr).2 he, htranslation, hr.translation e he htranslation⟩

/-- **The answer is the best one**: the preferred platform's when it has the core data, and what
    one result lacks comes from the others. -/
theorem fetchBest_isBest (providers : List Provider) (keyword preferredPlatform : Str)
    (hr : Results (allResults providers keyword)) :
    IsBest (allResults providers keyword) preferredPlatform
      (fetchBest providers keyword preferredPlatform) := by
  obtain ⟨d, hd⟩ := selected_isSome hr preferredPlatform
  have hproviders : providers ≠ [] := fun hnil => hr.nonempty (by rw [hnil]; rfl)
  have hbest : fetchBest providers keyword preferredPlatform =
      supplementMissing (cleaned d) (allResults providers keyword) (buildPlatformOrder preferredPlatform) := by
    unfold fetchBest
    rw [if_neg hproviders]
    dsimp only
    rw [hd]
  obtain ⟨hlyrics, hflag, hpair, htranslated⟩ := words_best hr hd
  obtain ⟨hcover, halbum, hkept⟩ := labels_best (selected_mem hr hd) hr.cover
    (buildPlatformOrder preferredPlatform)
  rw [hbest]
  exact {
    preferred := fun e he hsource hcore => by
      have hsel := selected_preferred hr he hcore
      rw [hsource, hd] at hsel
      rw [hlyrics, Option.some.inj hsel]
    hasLyrics := by rw [hflag, selected_hasLyrics hr hd]
    hasCover := hcover
    album := halbum
    paired := fun hsome => ⟨d, selected_mem hr hd, hflag ▸ hsome, hlyrics, hpair⟩
    translated := htranslated
    kept := ⟨d, selected_mem hr hd, hd, hkept⟩ }

/-- Lyrics of one platform, and a translation and an album of another. -/
def twoProviders : List Provider :=
  [⟨lit "酷狗音乐", fun _ d => { d with hasLyrics := true, lyrics := lit "[00:01.00]Hello" }⟩,
    ⟨lit "网易云音乐", fun _ d => { d with
      album := lit "A", hasTranslation := true, translationLyrics := lit "[00:01.00]你好" }⟩]

theorem twoProviders_best :
    IsBest (allResults twoProviders (lit "k")) (lit "网易云音乐")
      (fetchBest twoProviders (lit "k") (lit "网易云音乐")) :=
  fetchBest_isBest _ _ _
    { nonempty := by decide +kernel
      distinct := by decide +kernel
      platforms := by decide +kernel
      lyrics := by decide +kernel
      translation := by decide +kernel
      cover := by decide +kernel }

/-- Nothing of one platform, and a translation of another. -/
def noLyrics : List Provider :=
  [⟨lit "酷狗音乐", fun _ d => d⟩,
    ⟨lit "网易云音乐", fun _ d => { d with hasTranslation := true, translationLyrics := lit "[00:01.00]你好" }⟩]

/-- Without lyrics the translation of another platform is not returned. -/
theorem translation_not_returned :
    Results (allResults noLyrics (lit "k")) ∧
      isChineseLyrics (fetchBest noLyrics (lit "k") []).lyrics = false ∧
      (fetchBest noLyrics (lit "k") []).hasTranslation = false ∧
      ∃ d ∈ allResults noLyrics (lit "k"), d.hasTranslation = true := by
  refine ⟨{
    nonempty := by decide +kernel
    distinct := by decide +kernel
    platforms := by decide +kernel
    lyrics := by decide +kernel
    translation := by decide +kernel
    cover := by decide +kernel }, by decide +kernel, by decide +kernel, by decide +kernel⟩

end NarMusic.LyricsAggregator
