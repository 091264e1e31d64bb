/-
  The choice among the providers' results (`LyricsAggregator::fetchBest`): three
  tiers, then the supplements.
-/
import NarMusic.Lyrics.Lrc

namespace NarMusic.LyricsAggregator

open Cxx

/-! ## The language of lyrics -/

/-- The counts of `isChineseLyrics`. -/
structure Counts where
  cjkCount : ℕ
  alphaCount : ℕ
  japaneseCount : ℕ

/-- The length that a first byte announces, and the bits it gives. -/
def leadByte (b : Byte) : ℕ × ℕ :=
  let b0 := b.toNat
  if b0 < 0x80 then (1, b0)
  else if b0 / 32 = 6 then (2, b0 % 32)
  else if b0 / 16 = 14 then (3, b0 % 16)
  else if b0 / 8 = 30 then (4, b0 % 8)
  else (1, 0)

/-- The code point of a first byte and the bytes behind it, which are not checked. -/
def codePoint (bits : ℕ) (rest : Str) : ℕ := rest.foldl (fun cp b => cp * 64 + b.toNat % 64) bits

def isAlpha (cp : ℕ) : Bool := (65 ≤ cp && cp ≤ 90) || (97 ≤ cp && cp ≤ 122)

def isKana (cp : ℕ) : Bool := (0x3040 ≤ cp && cp ≤ 0x309F) || (0x30A0 ≤ cp && cp ≤ 0x30FF)

def isCjk (cp : ℕ) : Bool :=
  (0x4E00 ≤ cp && cp ≤ 0x9FFF) || (0x3400 ≤ cp && cp ≤ 0x4DBF) ||
    (0xF900 ≤ cp && cp ≤ 0xFAFF) || (0x20000 ≤ cp && cp ≤ 0x2A6DF)

def count (cp : ℕ) (n : Counts) : Counts :=
  if cp < 0x80 then (if isAlpha cp then { n with alphaCount := n.alphaCount + 1 } else n)
  else if isKana cp then { n with japaneseCount := n.japaneseCount + 1, alphaCount := n.alphaCount + 1 }
  else if isCjk cp then { n with cjkCount := n.cjkCount + 1, alphaCount := n.alphaCount + 1 }
  else n

/-- What the counts say, once there are `samples` letters. -/
def verdict (samples : ℕ) (n : Counts) : Option Bool :=
  if samples ≤ n.alphaCount ∧ n.alphaCount ≤ n.japaneseCount * 10 then some false
  else if samples ≤ n.alphaCount ∧ n.alphaCount * 3 ≤ n.cjkCount * 10 then some true
  else none

/-- The loop of `isChineseLyrics`, after the bytes of a tag or of a code point are skipped. -/
def isChineseFrom : ℕ → Str → Counts → Bool
  | _, [], n => (verdict 3 n).getD false
  | skip + 1, _ :: s, n => isChineseFrom skip s n
  | 0, c :: s, n =>
    if c = 91 then isChineseFrom ((s.takeWhile (· ≠ 93)).length + 1) s n
    else
      let more := (leadByte c).1 - 1
      let n := count (codePoint (leadByte c).2 (s.take more)) n
      match verdict 10 n with
      | some answer => answer
      | none => isChineseFrom more s n

def isChineseLyrics (lyrics : Str) : Bool := isChineseFrom 0 (cStr lyrics) ⟨0, 0, 0⟩

/-! ## Results -/

/-- `MusicMetadata` -/
structure MusicMetadata where
  source : Str
  songId : Str := []
  songName : Str := []
  artist : Str := []
  album : Str := []
  lyrics : Str := []
  translationLyrics : Str := []
  coverData : Str := []
  coverUrl : Str := []
  hasLyrics : Bool := false
  hasTranslation : Bool := false
  hasCover : Bool := false
  hasAlbum : Bool := false
  coverSize : ℤ := 0
  delayMs : ℤ := 0
  narmeta : Str := []
  deriving DecidableEq

def hasCoreData (d : MusicMetadata) : Bool :=
  if d.hasLyrics = false then false
  else if isChineseLyrics d.lyrics = false ∧ (d.hasTranslation = false ∨ d.translationLyrics = []) then false
  else true

def isComplete (d : MusicMetadata) : Bool := hasCoreData d && d.hasCover

def missingScore (d : MusicMetadata) : ℤ :=
  if d.hasLyrics = false then 0
  else
    100 + (if d.hasTranslation ∧ d.translationLyrics ≠ [] then
        if isChineseLyrics d.lyrics then 50 else 100 else 0) +
      (if d.album ≠ [] then 10 else 0) + (if d.hasCover then 1 else 0)

def defaultOrder : List Str := [lit "酷狗音乐", lit "网易云音乐", lit "QQ音乐", lit "汽水音乐"]

def buildPlatformOrder (preferredPlatform : Str) : List Str :=
  if preferredPlatform = [] then defaultOrder
  else preferredPlatform :: defaultOrder.filter (· ≠ preferredPlatform)

def findPlatform (allData : List MusicMetadata) (platform : Str) : Option MusicMetadata :=
  allData.find? (·.source = platform)

/-- The results that a loop over the platforms meets, in its order. -/
def inOrder (allData : List MusicMetadata) (platformOrder : List Str) : List MusicMetadata :=
  platformOrder.filterMap (findPlatform allData)

/-! ## Supplements -/

/-- One supplement: when something is missing, it is taken from the first usable result. -/
def supplement (missing : MusicMetadata → Bool) (usable : MusicMetadata → Bool)
    (take : MusicMetadata → MusicMetadata → MusicMetadata) (results : List MusicMetadata)
    (best : MusicMetadata) : MusicMetadata :=
  if missing best then
    match results.find? usable with
    | some d => take best d
    | none => best
  else best

def supplementCover : List MusicMetadata → MusicMetadata → MusicMetadata :=
  supplement (fun best => !best.hasCover) (fun d => d.hasCover && d.coverData ≠ [])
    fun best d => { best with coverData := d.coverData, hasCover := true, coverSize := d.coverSize }

def supplementAlbum : List MusicMetadata → MusicMetadata → MusicMetadata :=
  supplement (fun best => best.album = []) (fun d => d.album ≠ [])
    fun best d => { best with album := d.album, hasAlbum := true }

def supplementArtist : List MusicMetadata → MusicMetadata → MusicMetadata :=
  supplement (fun best => best.artist = []) (fun d => d.artist ≠ []) fun best d => { best with artist := d.artist }

def supplementSongName : List MusicMetadata → MusicMetadata → MusicMetadata :=
  supplement (fun best => best.songName = []) (fun d => d.songName ≠ [])
    fun best d => { best with songName := d.songName }

/-- The lyrics, with the translation of the same result. -/
def supplementLyrics : List MusicMetadata → MusicMetadata → MusicMetadata :=
  supplement (fun best => !best.hasLyrics) (fun d => d.hasLyrics) fun best d =>
    let best := { best with lyrics := cleanLyrics d.lyrics, hasLyrics := true }
    if d.hasTranslation ∧ d.translationLyrics ≠ [] then
      { best with translationLyrics := d.translationLyrics, hasTranslation := true }
    else best

def supplementTranslation : List MusicMetadata → MusicMetadata → MusicMetadata :=
  supplement (fun best => best.hasLyrics && !best.hasTranslation && !isChineseLyrics best.lyrics)
    (fun d => d.hasTranslation && d.translationLyrics ≠ [])
    fun best d => { best with translationLyrics := d.translationLyrics, hasTranslation := true }

def supplementMissing (best : MusicMetadata) (allData : List MusicMetadata) (platformOrder : List Str) :
    MusicMetadata :=
  let best := supplementCover allData best
  let best := supplementAlbum allData best
  let best := supplementArtist allData best
  let best := supplementSongName allData best
  let best := supplementLyrics (inOrder allData platformOrder) best
  supplementTranslation (inOrder allData platformOrder) best

/-! ## The tiers -/

/-- The first tier: the preferred platform, when it has the core data. -/
def preferred (allData : List MusicMetadata) (preferredPlatform : Str) : Option MusicMetadata :=
  if preferredPlatform ≠ [] then (findPlatform allData preferredPlatform).filter hasCoreData else none

/-- One candidate of the third tier: `primary` and `bestScore`. -/
def compareScore (acc : Option MusicMetadata × ℤ) (d : MusicMetadata) : Option MusicMetadata × ℤ :=
  if missingScore d > acc.2 then (some d, missingScore d) else acc

/-- The third tier: the best score, the first of equals. -/
def primary (results : List MusicMetadata) : Option MusicMetadata := (results.foldl compareScore (none, -1)).1

/-- The result that the tiers select. -/
def selected (allData : List MusicMetadata) (preferredPlatform : Str) : Option MusicMetadata :=
  let results := inOrder allData (buildPlatformOrder preferredPlatform)
  ((preferred allData preferredPlatform).or (results.find? isComplete)).or (primary results)

/-- A provider, with what its `fetch` leaves in the record, whether it succeeds, fails or throws. -/
structure Provider where
  name : Str
  fetch : Str → MusicMetadata → MusicMetadata

/-- What the futures answer. -/
def allResults (providers : List Provider) (keyword : Str) : List MusicMetadata :=
  providers.map fun provider => provider.fetch keyword { source := provider.name }

/-- `best.lyrics` without its empty tag lines. -/
def cleaned (d : MusicMetadata) : MusicMetadata :=
  if d.lyrics ≠ [] then { d with lyrics := cleanLyrics d.lyrics } else d

def fetchBest (providers : List Provider) (keyword preferredPlatform : Str) : MusicMetadata :=
  if providers = [] then { source := [] }
  else
    let allData := allResults providers keyword
    match selected allData preferredPlatform with
    | none => { source := [], songName := keyword }
    | some d => supplementMissing (cleaned d) allData (buildPlatformOrder preferredPlatform)

end NarMusic.LyricsAggregator
