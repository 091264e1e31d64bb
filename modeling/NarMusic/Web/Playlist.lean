/-
  Playlists: the `narmeta` line that `executeDownload` stores with a song
  (`application/download_service.cpp`), the playlist that `generatePlaylist` prints of
  them (`application/library_service.cpp`), and `parsePlaylistText`
  (`web/app/modules/batch.js`), which reads it.

  The four fields of a line are separated by `|`.  The reader joins what is behind the
  third one again, so a file name may have a `|`, and no other field may: a playlist is
  read back when no URL has one (`parsePlaylistText_iff`).

  The tag library is a parameter: what it finds in a file under `----:com.narnat:narmeta`,
  `none` for a file that is not valid, has no tag or no such item.
-/
import NarMusic.Download.Library
import NarMusic.Download.Queue
import NarMusic.Web.Text

namespace NarMusic.Web

open Cxx

/-! ## The server -/

def narmeta (req : CreateTaskRequest) : Str :=
  let delayStr := (if req.delayMs ≥ 0 then lit "+" else []) ++ decInt req.delayMs
  req.url ++ lit "|" ++ req.platform ++ lit "|" ++ delayStr ++ lit "|" ++ req.filename

def generatePlaylist (library : LibraryTable) (tag : Str → Option Str) (ids : List ℤ) : Str :=
  ids.flatMap fun id =>
    match library.findById id with
    | none => []
    | some entry =>
      if entry.filePath = [] then []
      else match tag entry.filePath with
        | none => []
        | some val => if val = [] then [] else val ++ lit "\n"

/-! ## The client -/

/-- The settings of a song from a `narmeta` line. -/
structure Settings where
  url : Text
  platform : Text
  delayMs : ℤ
  filename : Text
  deriving DecidableEq

structure Song where
  title : Text
  artist : Text
  keyword : Text
  original : Text
  narmeta : Option Settings
  deriving DecidableEq

/-- `/^https?:\/\//`. -/
def isHttp (s : Text) : Bool := "http://".toList.isPrefixOf s || "https://".toList.isPrefixOf s

/-- Title and artist on the two sides of the first separator. -/
def splitTitle (sep s : Text) : Text × Text :=
  let parts := split sep s
  (trim (parts.headD []), trim (join sep parts.tail))

def makeSong (title artist original : Text) (narmeta : Option Settings) : Song :=
  { title, artist, keyword := if artist ≠ [] then title ++ " ".toList ++ artist else title, original, narmeta }

def plainSong (line : Text) : Option Song :=
  let (title, artist) :=
    if includes " - ".toList line then splitTitle " - ".toList line
    else if includes "-".toList line then splitTitle "-".toList line
    else (line, [])
  if title = [] then none else some (makeSong title artist line none)

def narmetaSong (line : Text) (settings : Settings) : Song :=
  let (title, artist) :=
    if includes " - ".toList settings.filename then splitTitle " - ".toList settings.filename
    else (settings.filename, [])
  makeSong title artist line (some settings)

def parseLine (line : Text) : Option Song :=
  match line.splitOn '|' with
  | first :: platform :: delayStr :: filename :: rest =>
    if isHttp first then
      some (narmetaSong line
        { url := trim first
          platform := trim platform
          delayMs := (parseInt (trim delayStr)).getD 0
          filename := trim (join "|".toList (filename :: rest)) })
    else plainSong line
  | _ => plainSong line

def parsePlaylistText (text : Text) : List Song :=
  (((text.splitOn '\n').map trim).filter (· ≠ [])).filterMap parseLine

/-! ## One line -/

/-- The request the client sends with these settings. -/
def Settings.request (s : Settings) : CreateTaskRequest where
  url := Utf8.encode s.url
  filename := Utf8.encode s.filename
  platform := Utf8.encode s.platform
  delayMs := s.delayMs

/-- What a request can have: a URL that `extractUrlFromText` returns, a platform without a separator,
    and a name of one line. -/
structure Settings.Valid (s : Settings) : Prop where
  http : isHttp s.url
  url : ∀ c ∈ s.url, isSpace c = false
  trimmed : trim s.platform = s.platform
  platform : '|' ∉ s.platform ∧ '\n' ∉ s.platform
  delayMs : IsInt32 s.delayMs
  name : trim s.filename = s.filename
  filename : '\n' ∉ s.filename

/-- The text of the delay. -/
def delayText (n : ℤ) : Text := (if n ≥ 0 then ['+'] else []) ++ isomorphicDecode (decInt n)

/-- The text of the line. -/
def Settings.line (s : Settings) : Text :=
  s.url ++ '|' :: (s.platform ++ '|' :: (delayText s.delayMs ++ '|' :: s.filename))

theorem encode_line (s : Settings) : Utf8.encode s.line = narmeta s.request := by
  have hbar : String.utf8EncodeChar '|' = lit "|" := by decide +kernel
  have hplus : String.utf8EncodeChar '+' = lit "+" := by decide +kernel
  have hsign : Utf8.encode (if s.delayMs ≥ 0 then ['+'] else []) =
      if s.request.delayMs ≥ 0 then lit "+" else [] := by
    by_cases h : s.delayMs ≥ 0
    · have h' : s.request.delayMs ≥ 0 := h
      rw [if_pos h, if_pos h', Utf8.encode_cons, Utf8.encode_nil, hplus, List.append_nil]
    · have h' : ¬ s.request.delayMs ≥ 0 := h
      rw [if_neg h, if_neg h', Utf8.encode_nil]
  simp only [Settings.line, delayText, narmeta, Utf8.encode_append, Utf8.encode_cons, hbar, hsign,
    encode_isomorphicDecode (decInt_ascii _), List.append_assoc]
  rfl

/-! ### The delay -/

theorem hexValue_digit {b : Byte} (h : isdigit b = true) :
    hexValue (Char.ofNat b.toNat) = some (b.toNat - 48) ∧ b.toNat - 48 < 10 := by
  have hall : ∀ m < 128, 48 ≤ m → m ≤ 57 → hexValue (Char.ofNat m) = some (m - 48) ∧ m - 48 < 10 := by
    decide
  obtain ⟨hlow, hhigh⟩ := isdigit_iff.1 h
  exact hall _ (by omega) hlow hhigh

theorem digits_isomorphicDecode {s : Str} (h : ∀ b ∈ s, isdigit b = true) :
    digits 10 (isomorphicDecode s) = s.map fun b => b.toNat - 48 := by
  induction s with
  | nil => rfl
  | cons b s ih =>
    obtain ⟨hb, hs⟩ := List.forall_mem_cons.1 h
    obtain ⟨hvalue, hlt⟩ := hexValue_digit hb
    show digits 10 (Char.ofNat b.toNat :: isomorphicDecode s) = _
    rw [digits, hvalue]
    simp only [hlt, if_true, ih hs, List.map_cons]

theorem number_dec (n : ℕ) : number 10 (isomorphicDecode (dec n)) = some (n : ℤ) := by
  have hdigits := digits_isomorphicDecode (isdigit_dec n)
  have hval : ((dec n).map fun b => b.toNat - 48).foldl (fun n d => n * 10 + d) 0 = n := by
    rw [List.foldl_map]
    simpa only [digitsVal, Nat.mul_comm] using digitsVal_dec n
  unfold number
  rw [hdigits]
  cases hmap : (dec n).map fun b => b.toNat - 48 with
  | nil => exact absurd (List.map_eq_nil_iff.1 hmap) (dec_ne_nil n)
  | cons d ds =>
    rw [hmap] at hval
    simp only [hval]

/-- A number does not look like a hexadecimal one, has no sign and no blank in front. -/
theorem dec_plain (n : ℕ) : ∀ c ∈ isomorphicDecode (dec n),
    c ∉ ['x', 'X', '-', '+', '|', '\n'] ∧ isSpace c = false := by
  intro c hc
  obtain ⟨b, hb, rfl⟩ := List.mem_map.1 hc
  have hall : ∀ m < 128, 48 ≤ m → m ≤ 57 →
      Char.ofNat m ∉ ['x', 'X', '-', '+', '|', '\n'] ∧ isSpace (Char.ofNat m) = false := by decide
  obtain ⟨hlow, hhigh⟩ := isdigit_iff.1 (isdigit_dec n b hb)
  exact hall _ (by omega) hlow hhigh

/-- Behind its sign a delay is a number. -/
theorem delayText_cases (n : ℤ) :
    (∃ k : ℕ, n = k ∧ delayText n = '+' :: isomorphicDecode (dec k)) ∨
      ∃ k : ℕ, n = -(k : ℤ) ∧ delayText n = '-' :: isomorphicDecode (dec k) := by
  cases n with
  | ofNat k => exact Or.inl ⟨k, rfl, by simp [delayText, decInt]⟩
  | negSucc k =>
    have hneg : ¬ Int.negSucc k ≥ 0 := by omega
    refine Or.inr ⟨k + 1, by omega, ?_⟩
    rw [delayText, if_neg hneg]
    rfl

theorem parseInt_delayText (n : ℤ) : parseInt (delayText n) = some n := by
  have hhex (k : ℕ) (x : Char) (hx : x = 'x' ∨ x = 'X') :
      ['0', x].isPrefixOf (isomorphicDecode (dec k)) = false := by
    rw [← Bool.not_eq_true, List.isPrefixOf_iff_prefix]
    intro hpre
    refine (dec_plain k x (hpre.subset (by simp))).1 ?_
    rcases hx with rfl | rfl
    · decide
    · decide
  have hplus : isSpace '+' = false := by decide
  have hminus : isSpace '-' = false := by decide
  rcases delayText_cases n with ⟨k, rfl, htext⟩ | ⟨k, rfl, htext⟩
  · simp [parseInt, htext, hplus, hhex, number_dec]
  · simp [parseInt, htext, hminus, hhex, number_dec]

theorem delayText_plain (n : ℤ) : ∀ c ∈ delayText n, c ∉ ['|', '\n'] ∧ isSpace c = false := by
  have hdec (k : ℕ) (c : Char) (hc : c ∈ isomorphicDecode (dec k)) : c ∉ ['|', '\n'] ∧ isSpace c = false := by
    obtain ⟨hplain, hspace⟩ := dec_plain k c hc
    have hsub : ['|', '\n'] ⊆ ['x', 'X', '-', '+', '|', '\n'] := by decide
    exact ⟨fun h => hplain (hsub h), hspace⟩
  intro c hc
  rcases delayText_cases n with ⟨k, -, htext⟩ | ⟨k, -, htext⟩
  · rw [htext] at hc
    rcases List.mem_cons.1 hc with rfl | hc
    · decide
    · exact hdec k c hc
  · rw [htext] at hc
    rcases List.mem_cons.1 hc with rfl | hc
    · decide
    · exact hdec k c hc

theorem trim_plain {s : Text} (h : ∀ c ∈ s, isSpace c = false) : trim s = s :=
  trim_eq_self (fun c hc => h c (List.mem_of_mem_head? hc)) fun c hc => h c (List.mem_of_mem_getLast? hc)

/-! ### The line -/

theorem Settings.Valid.parseLine {s : Settings} (hs : s.Valid) (hurl : '|' ∉ s.url) :
    parseLine s.line = some (narmetaSong s.line s) := by
  have hdelay : '|' ∉ delayText s.delayMs := fun h => (delayText_plain _ _ h).1 (by simp)
  have hsplit : s.line.splitOn '|' = s.url :: s.platform :: delayText s.delayMs :: s.filename.splitOn '|' := by
    rw [Settings.line, List.splitOn_append_cons_self_of_not_mem hurl,
      List.splitOn_append_cons_self_of_not_mem hs.platform.1, List.splitOn_append_cons_self_of_not_mem hdelay]
  obtain ⟨first, rest, hfilename⟩ := List.exists_cons_of_ne_nil (List.splitOn_ne_nil '|' s.filename)
  have hjoin : join "|".toList (first :: rest) = s.filename := by
    rw [← hfilename]
    exact List.intercalate_splitOn '|'
  have htrim : trim (delayText s.delayMs) = delayText s.delayMs :=
    trim_plain fun c hc => (delayText_plain _ c hc).2
  rw [Web.parseLine, hsplit, hfilename]
  simp only [hs.http, if_true, hjoin, htrim, trim_plain hs.url, hs.trimmed, hs.name, parseInt_delayText,
    Option.getD_some]

theorem plainSong_narmeta {line : Text} {song : Song} (h : plainSong line = some song) :
    song.narmeta = none := by
  unfold plainSong at h
  split at h
  next title artist _ =>
    split_ifs at h
    exact Option.some.inj h ▸ rfl

theorem narmetaSong_narmeta (line : Text) (s : Settings) : (narmetaSong line s).narmeta = some s := by
  unfold narmetaSong
  split
  rfl

theorem notMem_of_mem_splitOn {c : Char} {s : Text} : ∀ {t : Text}, t ∈ s.splitOn c → c ∉ t := by
  induction s with
  | nil =>
    intro t ht
    rw [List.splitOn_nil, List.mem_singleton] at ht
    exact ht ▸ List.not_mem_nil
  | cons d s ih =>
    intro t ht
    rw [List.splitOn_cons_eq_if_modifyHead] at ht
    split_ifs at ht with hd
    · rcases List.mem_cons.1 ht with rfl | ht
      · exact List.not_mem_nil
      · exact ih ht
    · obtain ⟨first, rest, hsplit⟩ := List.exists_cons_of_ne_nil (List.splitOn_ne_nil c s)
      rw [hsplit, List.modifyHead_cons] at ht
      rw [hsplit] at ih
      rcases List.mem_cons.1 ht with rfl | ht
      · rw [List.mem_cons]
        rintro (rfl | h)
        · exact hd BEq.rfl
        · exact ih List.mem_cons_self h
      · exact ih (List.mem_cons_of_mem _ ht)

/-- Every URL the reader finds is one without a separator. -/
theorem parseLine_url {line : Text} {song : Song} {s : Settings} (h : parseLine line = some song)
    (hs : song.narmeta = some s) : '|' ∉ s.url := by
  have hplain (h : plainSong line = some song) : '|' ∉ s.url := by
    rw [plainSong_narmeta h] at hs
    exact absurd hs (by simp)
  unfold parseLine at h
  split at h
  · next first platform delayStr filename rest hsplit =>
    split_ifs at h
    · rw [← Option.some.inj h, narmetaSong_narmeta] at hs
      rw [← Option.some.inj hs]
      intro hmem
      have hfirst : first ∈ line.splitOn '|' := by simp [hsplit]
      exact notMem_of_mem_splitOn hfirst ((trim_sublist first).subset hmem)
    · exact hplain h
  · exact hplain h

/-- A line begins with its URL and ends with its name, or a separator. -/
theorem Settings.Valid.line_trim {s : Settings} (hs : s.Valid) : trim s.line = s.line := by
  refine trim_eq_self (fun c hc => ?_) fun c hc => ?_
  · have hne : s.url ≠ [] := by
      intro hnil
      have hhttp := hs.http
      rw [hnil] at hhttp
      exact absurd hhttp (by decide)
    rw [Settings.line, List.head?_append_of_ne_nil _ hne] at hc
    exact hs.url c (List.mem_of_mem_head? hc)
  · have hline : s.line = (s.url ++ '|' :: (s.platform ++ '|' :: delayText s.delayMs)) ++ '|' :: s.filename := by
      simp [Settings.line]
    rw [hline, List.getLast?_append_cons, List.getLast?_cons] at hc
    cases hlast : s.filename.getLast? with
    | none =>
      rw [hlast] at hc
      exact (Option.mem_some.1 hc) ▸ (by decide)
    | some d =>
      rw [hlast] at hc
      exact (Option.mem_some.1 hc) ▸ getLast?_of_trim hs.name d hlast

theorem Settings.Valid.line_newline {s : Settings} (hs : s.Valid) : '\n' ∉ s.line := by
  have hurl : '\n' ∉ s.url := fun h => absurd (hs.url _ h) (by decide)
  have hdelay : '\n' ∉ delayText s.delayMs := fun h => (delayText_plain _ _ h).1 (by simp)
  simp [Settings.line, hurl, hs.platform.2, hdelay, hs.filename]

/-! ## Export and import -/

/-- The text of a playlist. -/
def playlistText (songs : List Settings) : Text := songs.flatMap fun s => s.line ++ ['\n']

/-- The ids are those of files in which the tag library finds the lines of the requests. -/
def Exported (library : LibraryTable) (tag : Str → Option Str) (ids : List ℤ) (songs : List Settings) : Prop :=
  List.Forall₂ (fun id s => ∃ entry, library.findById id = some entry ∧ entry.filePath ≠ [] ∧
    tag entry.filePath = some (narmeta s.request)) ids songs

theorem Exported.generatePlaylist {library : LibraryTable} {tag : Str → Option Str} {ids : List ℤ}
    {songs : List Settings} (h : Exported library tag ids songs) :
    generatePlaylist library tag ids = Utf8.encode (playlistText songs) := by
  have hnewline : String.utf8EncodeChar '\n' = lit "\n" := by decide +kernel
  induction h with
  | nil => rfl
  | cons hfile _ ih =>
    obtain ⟨entry, hfind, hpath, htag⟩ := hfile
    have hne (req : CreateTaskRequest) : narmeta req ≠ [] := by
      have hbar : lit "|" ≠ [] := by decide +kernel
      simp [narmeta, hbar]
    unfold Web.generatePlaylist playlistText at ih ⊢
    rw [List.flatMap_cons, List.flatMap_cons, Utf8.encode_append, ih, Utf8.encode_append, encode_line]
    simp only [hfind, hpath, htag, hne, if_false, Utf8.encode_cons, Utf8.encode_nil, hnewline, List.append_nil]

/-- The lines that are read are the lines that were printed. -/
theorem lines_playlistText {songs : List Settings} (h : ∀ s ∈ songs, s.Valid) :
    (((playlistText songs).splitOn '\n').map trim).filter (· ≠ []) = songs.map Settings.line := by
  induction songs with
  | nil => decide
  | cons s songs ih =>
    obtain ⟨hs, hsongs⟩ := List.forall_mem_cons.1 h
    have hne : s.line ≠ [] := by simp [Settings.line]
    rw [playlistText, List.flatMap_cons, List.append_assoc, List.singleton_append,
      List.splitOn_append_cons_self_of_not_mem hs.line_newline, List.map_cons, hs.line_trim,
      List.filter_cons_of_pos (by simpa using hne), List.map_cons]
    exact congrArg _ (ih hsongs)

/-- **Export and import.**  The songs that are read have the settings of the requests, in their
    order, exactly when no URL has a separator. -/
theorem parsePlaylistText_iff (library : LibraryTable) (tag : Str → Option Str) (ids : List ℤ)
    (songs : List Settings) (hsongs : ∀ s ∈ songs, s.Valid) (h : Exported library tag ids songs) :
    (∃ text, Utf8.decode (generatePlaylist library tag ids) = some text ∧
        (parsePlaylistText text).map Song.narmeta = songs.map some) ↔ ∀ s ∈ songs, '|' ∉ s.url := by
  rw [h.generatePlaylist, Utf8.decode_encode]
  constructor
  · rintro ⟨text, htext, hread⟩ s hs
    obtain rfl := Option.some.inj htext
    have hmem : some s ∈ (parsePlaylistText (playlistText songs)).map Song.narmeta := by
      rw [hread]
      exact List.mem_map_of_mem hs
    obtain ⟨song, hsong, hnarmeta⟩ := List.mem_map.1 hmem
    obtain ⟨line, -, hline⟩ := List.mem_filterMap.1 hsong
    exact parseLine_url hline hnarmeta
  · intro hurl
    refine ⟨_, rfl, ?_⟩
    rw [parsePlaylistText, lines_playlistText hsongs]
    clear h
    induction songs with
    | nil => rfl
    | cons s songs ih =>
      obtain ⟨hs, hrest⟩ := List.forall_mem_cons.1 hsongs
      obtain ⟨hbar, hbars⟩ := List.forall_mem_cons.1 hurl
      rw [List.map_cons, List.filterMap_cons_some (hs.parseLine hbar), List.map_cons, narmetaSong_narmeta,
        ih hrest hbars, List.map_cons]

/-! ### A name and a URL with a separator -/

/-- A library of one file. -/
def oneSong : LibraryTable :=
  (LibraryTable.empty.save { filePath := lit "a.m4a", downloadedAt := 0, lastUsedAt := 0 }).2

theorem oneSong_exported (s : Settings) : Exported oneSong (fun _ => some (narmeta s.request)) [1] [s] :=
  .cons ⟨_, rfl, by decide +kernel, rfl⟩ .nil

def liveSong (url : Text) : Settings where
  url
  platform := "QQ音乐".toList
  delayMs := -500
  filename := "晴天 - 周杰伦|live".toList

theorem liveSong_valid {url : Text} (hhttp : isHttp url) (hspace : url.all (!isSpace ·)) :
    (liveSong url).Valid where
  http := hhttp
  url := fun c hc => by simpa using List.all_eq_true.1 hspace c hc
  trimmed := show trim "QQ音乐".toList = "QQ音乐".toList by decide
  platform := show '|' ∉ "QQ音乐".toList ∧ '\n' ∉ "QQ音乐".toList by decide
  delayMs := show IsInt32 (-500) by decide
  name := show trim "晴天 - 周杰伦|live".toList = "晴天 - 周杰伦|live".toList by decide
  filename := show '\n' ∉ "晴天 - 周杰伦|live".toList by decide

theorem liveSong_read :
    ∃ text, Utf8.decode (generatePlaylist oneSong
        (fun _ => some (narmeta (liveSong "https://y.qq.com/a".toList).request)) [1]) = some text ∧
      (parsePlaylistText text).map Song.narmeta = [liveSong "https://y.qq.com/a".toList].map some :=
  (parsePlaylistText_iff _ _ _ _ (by simpa using liveSong_valid rfl rfl)
    (oneSong_exported _)).2 (by decide)

/-- The reader takes what is behind the `|` of the URL for the platform. -/
theorem piped_url_lost : ¬ ∀ (library : LibraryTable) (tag : Str → Option Str) (ids : List ℤ)
    (songs : List Settings), (∀ s ∈ songs, s.Valid) → Exported library tag ids songs →
    ∃ text, Utf8.decode (generatePlaylist library tag ids) = some text ∧
      (parsePlaylistText text).map Song.narmeta = songs.map some := by
  intro h
  obtain ⟨text, htext, hread⟩ := h oneSong _ [1] [liveSong "https://y.qq.com/a|b".toList]
    (by simpa using liveSong_valid rfl rfl) (oneSong_exported _)
  rw [(oneSong_exported _).generatePlaylist, Utf8.decode_encode] at htext
  obtain rfl := Option.some.inj htext
  exact absurd hread (by decide +kernel)

end NarMusic.Web
