/-
  The four providers (`kugou_provider.cpp`, `netease_provider.cpp`, `qqmusic_provider.cpp` and
  `qishui_provider.cpp` of infrastructure/lyrics), in the order in which `main` adds them.

  A provider fills the record as it goes, and what it has filled stays when a later answer cannot be
  read.  Whatever the platforms answer, no record has a flag without its field, so that the choice
  among the records can rely on the flags (`allResults_sound`).
-/
import NarMusic.Bilibili.Keys
import NarMusic.Lib.Attempt
import NarMusic.Lyrics.FetchBest
import NarMusic.Lyrics.KugouKrc
import NarMusic.Lyrics.SharePage
import NarMusic.Lyrics.Similarity

namespace NarMusic

open Cxx LyricsAggregator

/-- What `CurlClient::download` answers. -/
structure BinaryResponse where
  success : Bool := false
  binaryBody : Str := []

/-- The platforms' servers, and the libraries that are asked on the way. -/
structure Platforms where
  get : Str → HttpResponse
  post : Str → Str → HttpResponse
  download : Str → BinaryResponse
  urlEncode : Str → Str
  parse : Str → Except Exn JsonValue
  dump : JsonValue → Except Exn Str
  /-- `get<long long>()` of a number with a fraction. -/
  truncate : ℤ → ℕ → ℤ
  uncompress : Str → ℕ → Option Str

/-- A computation that fills a record. -/
abbrev Filling (α : Type) := Attempt Exn MusicMetadata α

namespace Filling

open Attempt

/-! ## JSON -/

/-- `empty()` -/
def isEmpty : JsonValue → Bool
  | .null | .arr [] | .obj [] => true
  | _ => false

/-- `size()` -/
def size : JsonValue → ℕ
  | .null => 0
  | .arr items => items.length
  | .obj members => members.length
  | _ => 1

/-- `v[i]` below the size. -/
def item (i : ℕ) : JsonValue → Except Exn JsonValue
  | .arr items => .ok (items.getD i .null)
  | _ => .error .typeError

/-- A chain of `contains`. -/
def path (keys : List String) (v : JsonValue) : Option JsonValue := keys.foldlM (fun v key => v.find? key) v

/-- `contains(key)` and `is_string()`. -/
def stringAt? (key : String) (v : JsonValue) : Option Str :=
  match v.find? key with
  | some (.str s) => some (Utf8.encode s)
  | _ => none

/-- `contains(key)` and `is_number()`. -/
def numberAt? (net : Platforms) (key : String) (v : JsonValue) : Option ℤ :=
  match v.find? key with
  | some (.int n) => some (n.bmod (2 ^ 64))
  | some (.float asInt asSize) => some (net.truncate asInt asSize)
  | _ => none

/-- `value(key, 0LL)` -/
def longOr (net : Platforms) (key : String) : JsonValue → Except Exn ℤ :=
  JsonValue.value (JsonValue.getLong net.truncate) key 0

/-- `if (v.contains(key)) field = v[key].get<std::string>();` -/
def fill (key : String) (set : Str → MusicMetadata → MusicMetadata) (v : JsonValue) : Filling Unit :=
  match v.find? key with
  | none => pure ()
  | some w => do
    let s ← lift w.getString
    update (set s)

/-- The same, for strings only. -/
def fillString (key : String) (set : Str → MusicMetadata → MusicMetadata) (v : JsonValue) : Filling Unit :=
  match stringAt? key v with
  | none => pure ()
  | some s => update (set s)

def setSongId (s : Str) (d : MusicMetadata) : MusicMetadata := { d with songId := s }

def setSongName (s : Str) (d : MusicMetadata) : MusicMetadata := { d with songName := s }

def setArtist (s : Str) (d : MusicMetadata) : MusicMetadata := { d with artist := s }

def setAlbum (s : Str) (d : MusicMetadata) : MusicMetadata := { d with album := s, hasAlbum := true }

def setCoverUrl (s : Str) (d : MusicMetadata) : MusicMetadata := { d with coverUrl := s }

def setTranslation (s : Str) (d : MusicMetadata) : MusicMetadata :=
  { d with translationLyrics := s, hasTranslation := true }

/-- `lyrics`, and `hasLyrics` where there are any. -/
def setLyrics (s : Str) (d : MusicMetadata) : MusicMetadata := { d with lyrics := s, hasLyrics := s ≠ [] }

/-- `if (!s.empty()) field = s;` -/
def fillNonempty (set : Str → MusicMetadata → MusicMetadata) (s : Str) : Filling Unit :=
  if s = [] then pure () else update (set s)

def fillTranslation (transLyric : Str) : Filling Unit := fillNonempty setTranslation transLyric

/-! ## The best song -/

/-- `bestScore` and `bestIndex`; a score is a `double`, here the number that it stands for. -/
def betterScore (best : ℚ × ℕ) (score : ℚ × ℕ) : ℚ × ℕ := if best.1 < score.1 then score else best

def bestIndex (scores : List ℚ) : ℕ := (scores.zipIdx.foldl betterScore (-1, 0)).2

/-- The song with the best score, of more than one. -/
def bestSong (popularity : JsonValue → Except Exn ℤ) (score : ℤ → JsonValue → Except Exn ℚ) (songs : JsonValue) :
    Except Exn JsonValue :=
  if 1 < size songs then
    match songs with
    | .arr items => do
      let pops ← items.mapM popularity
      let scores ← items.mapM (score (pops.foldl max 0))
      item (bestIndex scores) songs
    | _ => .error .typeError
  else item 0 songs

/-- `popBonus` -/
def popBonus (maxPop : ℤ) (pop : Option ℤ) : ℚ :=
  match pop with
  | some pop => if 0 < maxPop then 15 / 100 * pop / maxPop else 0
  | none => 0

/-! ## What the fetches share -/

/-- The cover, if it has five kilobytes at least. -/
def downloadCover (net : Platforms) (coverUrl : Str) : Filling Unit :=
  if coverUrl = [] then pure ()
  else
    let resp := net.download coverUrl
    if resp.success ∧ resp.binaryBody ≠ [] ∧ 5120 ≤ resp.binaryBody.length then
      update fun out => { out with
        coverData := resp.binaryBody
        hasCover := true
        coverSize := int32 resp.binaryBody.length }
    else pure ()

/-- `if (!getLyrics(out)) out.hasLyrics = false;` -/
def dropLyrics (found : Bool) : Filling Unit :=
  if found then pure () else update fun out => { out with hasLyrics := false }

/-- `fetch` of the first three providers. -/
def fetchWith (net : Platforms) (searchSong : Str → Filling Bool) (getLyrics : Filling Bool) (keyword : Str) :
    Filling Bool := do
  if (← searchSong keyword) = false then return false
  else
    dropLyrics (← getLyrics)
    let out ← state
    downloadCover net out.coverUrl
    return true

end Filling

open Attempt Filling

/-- `j.contains(key) && j[key].get<int>() == success` -/
def succeeded (key : String) (success : ℤ) (j : JsonValue) : Except Exn Bool :=
  match j.find? key with
  | none => .ok false
  | some code => return (← code.getInt) = success

/-- The songs of an answer, if there are any. -/
def songsOf (key : String) (success : ℤ) (keys : List String) (j : JsonValue) : Except Exn (Option JsonValue) := do
  if ← succeeded key success j then return (path keys j).filter (!isEmpty ·)
  else return none

/-! ## Kugou -/

namespace KugouProvider

section
variable (net : Platforms) (keyword : Str)

def playCount (song : JsonValue) : Except Exn ℤ := .ok ((numberAt? net "play_count" song).getD 0)

def score (maxPop : ℤ) (song : JsonValue) : Except Exn ℚ := do
  let songName ← song.stringOr "songname"
  let artistBonus := ((stringAt? "singername" song).map (2 / 10 * nameSimilarity keyword ·)).getD 0
  return nameSimilarity keyword songName + artistBonus + popBonus maxPop (numberAt? net "play_count" song)

/-- An address that starts with `http`, without blanks. -/
def httpUrl (url : Str) : Option Str := if find (lit "http") url = some 0 then some (url.filter (· ≠ 32)) else none

/-- `_150.jpg` at the end becomes `_500.jpg`. -/
def enlarged (url : Str) : Str :=
  if lit "_150.jpg" <:+ url then url.take (url.length - 8) ++ lit "_500.jpg" else url

/-- The size of a cover is put into its address. -/
def sized (url : Str) : Str :=
  match find (lit "\x7bsize\x7d") url with
  | some pos => url.take pos ++ lit "800" ++ url.drop (pos + 6)
  | none => url

/-- A member that is there and not `null`. -/
def present (key : String) (v : JsonValue) : Option JsonValue :=
  match v.find? key with
  | some .null => none
  | w => w

def fillUrl (key : String) (change : Str → Str) (song : JsonValue) : Filling Unit :=
  match present key song with
  | none => pure ()
  | some v => do
    let url ← lift v.getString
    match httpUrl url with
    | some url => update (setCoverUrl (change url))
    | none => pure ()

def albumCoverOf (d : JsonValue) : Except Exn Str := do
  let imgurl ← (match present "imgurl" d with
    | some v => v.getString
    | none => .ok [] : Except Exn Str)
  match httpUrl imgurl with
  | some url => return sized url
  | none =>
    match present "sizable_cover" d with
    | some v => return sized ((← v.getString).filter (· ≠ 32))
    | none => return []

def fetchAlbumCover (albumId : Str) : Str :=
  let resp := net.get (lit "http://mobilecdn.kugou.com/api/v3/album/info?albumid=" ++ albumId)
  if resp.success = false then []
  else
    let read : Except Exn Str := do
      let j ← net.parse resp.body
      if ← succeeded "status" 1 j then
        match j.find? "data" with
        | some d => albumCoverOf d
        | none => return []
      else return []
    read.toOption.getD []

/-- `album_id`, a string or a number. -/
def albumIdOf (song : JsonValue) : Str :=
  (stringAt? "album_id" song).getD (((numberAt? net "album_id" song).map decInt).getD [])

def fillSong (song : JsonValue) : Filling Unit := do
  fill "hash" setSongId song
  fill "songname" setSongName song
  fill "singername" setArtist song
  fill "album_name" setAlbum song
  fillUrl "album_img" enlarged song
  fillUrl "img" id song
  let data ← state
  if data.coverUrl = [] ∧ albumIdOf net song ≠ [] then update (setCoverUrl (fetchAlbumCover net (albumIdOf net song)))
  else pure ()

def searchSong : Filling Bool :=
  let url := lit "http://mobilecdn.kugou.com/api/v3/search/song?format=json&keyword=" ++ net.urlEncode keyword ++
    lit "&page=1&pagesize=10&showtype=1"
  let resp := net.get url
  if resp.success = false then pure false
  else recover (do
    let j ← lift (net.parse resp.body)
    let songs ← lift (songsOf "status" 1 ["data", "info"] j)
    match songs with
    | none => return false
    | some songs =>
      let song ← lift (bestSong (playCount net) (score net keyword) songs)
      fillSong net song
      return true) false

end

section
variable (net : Platforms)

def downloadUrl (id accesskey fmt : Str) : Str :=
  lit "http://lyrics.kugou.com/download?ver=1&client=pc&id=" ++ id ++ lit "&accesskey=" ++ accesskey ++
    lit "&fmt=" ++ fmt ++ lit "&charset=utf8"

/-- `krcTrans`, where the KRC file can be read. -/
def krcTranslation (id accesskey : Str) : Except Exn Str :=
  let krcResp := net.get (downloadUrl id accesskey (lit "krc"))
  if krcResp.success = false then .ok []
  else do
    let krcJson ← net.parse krcResp.body
    match krcJson.find? "content" with
    | none => return []
    | some content =>
      let krcBase64 ← content.getString
      let texts ← decryptKRC net.parse net.uncompress (NarMusic.base64Decode krcBase64)
      return (texts.map Prod.snd).getD []

def fillTrans (lyricData : JsonValue) : Filling Unit :=
  match lyricData.find? "trans" with
  | none => pure ()
  | some base64Trans => do
    let base64Trans ← lift base64Trans.getString
    fillTranslation (NarMusic.base64Decode base64Trans)

/-- The lyrics and the translation of the file, up to `hasLyrics`. -/
def fillLyrics (id accesskey : Str) (lyricData content : JsonValue) : Filling Unit := do
  let base64Content ← lift content.getString
  update fun data => { data with lyrics := NarMusic.base64Decode base64Content }
  fillTrans lyricData
  let data ← state
  if data.hasTranslation = false then fillTranslation ((krcTranslation net id accesskey).toOption.getD [])
  else pure ()

def readLyrics (body : Str) : Filling Bool := do
  let j ← lift (net.parse body)
  match (j.find? "candidates").filter (!isEmpty ·) with
  | none => return false
  | some candidates =>
    let candidate ← lift (item 0 candidates)
    let id ← lift (candidate.member "id" >>= JsonValue.getString)
    let accesskey ← lift (candidate.member "accesskey" >>= JsonValue.getString)
    let dlResp := net.get (downloadUrl id accesskey (lit "lrc"))
    if dlResp.success = false then return false
    else
      let lyricData ← lift (net.parse dlResp.body)
      match lyricData.find? "content" with
      | none => return false
      | some content =>
        fillLyrics net id accesskey lyricData content
        update fun data => { data with hasLyrics := data.lyrics ≠ [] }
        return (← state).hasLyrics

def searchKeyword (data : MusicMetadata) : Str :=
  if data.artist ≠ [] ∧ data.songName ≠ [] then data.artist ++ lit " - " ++ data.songName
  else if data.songName ≠ [] then data.songName
  else data.songId

def getLyrics : Filling Bool := do
  let data ← state
  if data.songId = [] ∧ data.songName = [] then return false
  else
    let url := lit "http://lyrics.kugou.com/search?ver=1&man=yes&client=pc&keyword=" ++
      net.urlEncode (searchKeyword data) ++ lit "&duration=200000&hash=" ++ net.urlEncode data.songId
    let resp := net.get url
    if resp.success = false then return false
    else recover (readLyrics net resp.body) false

def fetch (keyword : Str) : Filling Bool := fetchWith net (searchSong net) (getLyrics net) keyword

end

end KugouProvider

/-! ## Netease -/

namespace NeteaseProvider

section
variable (net : Platforms) (keyword : Str)

/-- `ar[0]["name"]`, where `ar` is there and not empty. -/
def artistOf (song : JsonValue) : Except Exn (Option JsonValue) :=
  match (song.find? "ar").filter (!isEmpty ·) with
  | none => .ok none
  | some ar => return (← item 0 ar).find? "name"

def score (maxPop : ℤ) (song : JsonValue) : Except Exn ℚ := do
  let songName ← song.stringOr "name"
  let artistBonus ← (match ← artistOf song with
    | some name => return 2 / 10 * nameSimilarity keyword (← name.getString)
    | none => return 0 : Except Exn ℚ)
  return nameSimilarity keyword songName + artistBonus + popBonus maxPop (numberAt? net "pop" song)

/-- The address before its query, with a query of its own. -/
def pictureUrl (picUrl : Str) : Str := picUrl.takeWhile (· ≠ 63) ++ lit "?param=1000y1000"

def fillArtist (song : JsonValue) : Filling Unit := do
  match ← lift (artistOf song) with
  | some name =>
    let artist ← lift name.getString
    update (setArtist artist)
  | none => pure ()

def fillSong (song : JsonValue) : Filling Unit := do
  let id ← lift (song.member "id" >>= JsonValue.getLong net.truncate)
  update (setSongId (decInt id))
  fill "name" setSongName song
  fillArtist song
  match song.find? "al" with
  | some al =>
    fill "name" setAlbum al
    fill "picUrl" (fun picUrl => setCoverUrl (pictureUrl picUrl)) al
  | none => pure ()

def searchSong : Filling Bool :=
  let url := lit "http://music.163.com/api/cloudsearch/pc?s=" ++ net.urlEncode keyword ++ lit "&type=1&offset=0&limit=10"
  let resp := net.get url
  if resp.success = false then pure false
  else recover (do
    let j ← lift (net.parse resp.body)
    let songs ← lift (songsOf "code" 200 ["result", "songs"] j)
    match songs with
    | none => return false
    | some songs =>
      let song ← lift (bestSong (longOr net "pop") (score net keyword) songs)
      fillSong net song
      return true) false

end

section
variable (net : Platforms)

def fillTlyric (j : JsonValue) : Filling Unit :=
  match path ["tlyric", "lyric"] j with
  | none | some .null => pure ()
  | some tlyric => do
    let transLyric ← lift tlyric.getString
    fillTranslation transLyric

def readLyrics (body : Str) : Filling Bool := do
  let j ← lift (net.parse body)
  match path ["lrc", "lyric"] j with
  | none => return false
  | some lyric =>
    let lyrics ← lift lyric.getString
    if lyrics = [] then return false
    else
      update (setLyrics lyrics)
      fillTlyric j
      return true

def getLyrics : Filling Bool := do
  let data ← state
  let url := lit "http://music.163.com/api/song/lyric?id=" ++ data.songId ++ lit "&lv=-1&kv=-1&tv=-1"
  let resp := net.get url
  if resp.success = false then return false
  else recover (readLyrics net resp.body) false

def fetch (keyword : Str) : Filling Bool := fetchWith net (searchSong net) (getLyrics net) keyword

end

end NeteaseProvider

/-! ## QQ -/

namespace QQMusicProvider

section
variable (net : Platforms)

def url : Str := lit "https://u.y.qq.com/cgi-bin/musicu.fcg?format=json"

/-- `reqJson`, with its members in order. -/
def requestJson (method module : String) (param : List (String × JsonValue)) : JsonValue :=
  .obj [("comm", .obj [("ct", .int 19), ("cv", .str "1859".toList), ("uin", .str "0".toList)]),
    ("req", .obj [("method", .str method.toList), ("module", .str module.toList), ("param", .obj param)])]

/-- A request by `post`, and by `get` where that fails. -/
def ask (jsonData : Str) : HttpResponse :=
  let resp := net.post url jsonData
  if resp.success = false then net.get (url ++ lit "&data=" ++ net.urlEncode jsonData) else resp

/-- The name of the first singer, of an array that is not empty. -/
def singerOf (song : JsonValue) : Option JsonValue :=
  match song.find? "singer" with
  | some (.arr (singer :: _)) => singer.find? "name"
  | _ => none

def score (keyword : Str) (maxPop : ℤ) (song : JsonValue) : Except Exn ℚ := do
  let songName ← song.stringOr "name"
  let artistBonus ← (match singerOf song with
    | some name => return 2 / 10 * nameSimilarity keyword (← name.getString)
    | none => return 0 : Except Exn ℚ)
  return nameSimilarity keyword songName + artistBonus + popBonus maxPop (numberAt? net "listenCnt" song)

def coverUrlOf (albumMid : Str) : Str :=
  lit "https://y.gtimg.cn/music/photo_new/T002R800x800M000" ++ albumMid ++ lit ".jpg"

def fillSinger (song : JsonValue) : Filling Unit :=
  match singerOf song with
  | some (.str name) => update (setArtist (Utf8.encode name))
  | _ => pure ()

def fillSong (song : JsonValue) : Filling Unit := do
  fillString "mid" setSongId song
  fillString "name" setSongName song
  fillSinger song
  match song.find? "album" with
  | some (.obj members) =>
    fillString "name" setAlbum (.obj members)
    fillNonempty (fun albumMid => setCoverUrl (coverUrlOf albumMid)) ((stringAt? "mid" (.obj members)).getD [])
  | _ => pure ()

/-- A text in a request; `dump()` throws where it is no UTF-8. -/
def textOf (s : Str) : Except Exn JsonValue :=
  match Utf8.decode s with
  | some cs => .ok (.str cs)
  | none => .error .typeError

def searchSong (keyword : Str) : Filling Bool := do
  let query ← lift (textOf keyword)
  let jsonData ← lift (net.dump (requestJson "DoSearchForQQMusicDesktop" "music.search.SearchCgiService"
    [("num_per_page", .int 10), ("page_num", .int 1), ("query", query)]))
  let resp := ask net jsonData
  if resp.success = false ∨ resp.body = [] then return false
  else recover (do
    let j ← lift (net.parse resp.body)
    match (path ["req", "data", "body", "song", "list"] j).filter (!isEmpty ·) with
    | none => return false
    | some songs =>
      let song ← lift (bestSong (longOr net "listenCnt") (score net keyword) songs)
      fillSong song
      return true) false

def readLyrics (body : Str) : Filling Bool := do
  let j ← lift (net.parse body)
  match path ["req", "data"] j with
  | none => return false
  | some lyricData =>
    let originalLyrics := base64Decode ((stringAt? "lyric" lyricData).getD [])
    if originalLyrics = [] then return false
    else
      fillTranslation (base64Decode ((stringAt? "trans" lyricData).getD []))
      update (setLyrics originalLyrics)
      return true

def getLyrics : Filling Bool := do
  let data ← state
  let songMID ← lift (textOf data.songId)
  let jsonData ← lift (net.dump (requestJson "GetPlayLyricInfo" "music.musichallSong.PlayLyricInfo"
    [("songMID", songMID), ("trans", .int 1)]))
  let resp := ask net jsonData
  if resp.success = false ∨ resp.body = [] then return false
  else recover (readLyrics net resp.body) false

def fetch (keyword : Str) : Filling Bool := fetchWith net (searchSong net) (getLyrics net) keyword

end

end QQMusicProvider

/-! ## Qishui -/

namespace QishuiProvider

/-- What the search hands on. -/
structure QishuiContext where
  trackId : Str
  trackName : Str
  coverUrl : Str

section
variable (net : Platforms)

/-- The entity's track, or the song itself. -/
def trackOf (song : JsonValue) : JsonValue := (path ["entity", "track"] song).getD song

/-- The names of the artists, joined. -/
def joinArtists (sep : Str) (track : JsonValue) : Str :=
  ((arrayAt "artists" track).filterMap (stringAt? "name")).foldl (fun joined name =>
    (if joined = [] then [] else joined ++ sep) ++ name) []

def score (keyword : Str) (song : JsonValue) : Except Exn ℚ := do
  let songName ← (trackOf song).stringOr "name"
  return nameSimilarity keyword songName + 2 / 10 * nameSimilarity keyword (joinArtists (lit " ") (trackOf song))

def coverSize : Str := lit "~c5_1080x1080.jpg"

def isArray : JsonValue → Bool
  | .arr _ => true
  | _ => false

/-- The address of an album's cover. -/
def albumCoverUrl (cover : JsonValue) : Except Exn Str := do
  let coverBase ← (match arrayAt "urls" cover with
    | url :: _ => url.getString
    | [] => .ok [] : Except Exn Str)
  let uri ← cover.stringOr "uri"
  return if coverBase ≠ [] ∨ uri ≠ [] then coverBase ++ uri ++ coverSize else []

/-- The album's name, and the address of its cover. -/
def fillAlbum (track : JsonValue) : Filling Str :=
  match (track.find? "album").filter isObject with
  | none => pure []
  | some album => do
    let name ← lift (album.stringOr "name")
    update fun data => { data with album := name, hasAlbum := name ≠ [] }
    match (album.find? "url_cover").filter isObject with
    | none => return []
    | some cover => lift (albumCoverUrl cover)

/-- The first group's songs, if there are any. -/
def songsOf (j : JsonValue) : List JsonValue :=
  match arrayAt "result_groups" j with
  | firstGroup :: _ => arrayAt "data" firstGroup
  | [] => []

def readSong (keyword body : Str) : Filling (Option QishuiContext) := do
  let j ← lift (net.parse body)
  let songs := songsOf j
  if songs = [] then return none
  else
    let scores ← lift (songs.mapM (score keyword))
    let track := trackOf (songs.getD (bestIndex scores) .null)
    let trackId ← lift (track.stringOr "id")
    if trackId = [] then return none
    else
      let trackName ← lift (track.stringOr "name")
      let coverUrl ← fillAlbum track
      update fun data => { data with songName := trackName, artist := joinArtists (lit ", ") track }
      return some { trackId, trackName, coverUrl }

def searchUrl : Str :=
  lit "https://api.qishui.com/luna/pc/search/track?aid=386088&app_name=luna_pc&region=cn&geo_region=cn&os_region=cn" ++
    lit "&device_id=1088932190113307&iid=2332504177791808&version_name=3.0.0&version_code=30000000" ++
    lit "&channel=official&device_platform=windows&device_type=Windows&q="

def searchSong (keyword : Str) : Filling (Option QishuiContext) :=
  let resp := net.get (searchUrl ++ net.urlEncode keyword ++ lit "&cursor=0&search_method=input")
  if resp.success = false then pure none
  else recover (readSong net keyword resp.body) none

/-- `lrcText`, by the type of the content. -/
def lrcTextOf (type content : Str) : Except Exn Str :=
  if type = lit "lrc" then .ok content
  else do
    let lrcText ← krcStringToLrc content
    return if type ≠ lit "krc" ∧ lrcText = [] then content else lrcText

/-- The first translation that has a text. -/
def fillLang : List JsonValue → Filling Unit
  | [] => pure ()
  | transData :: rest =>
    if isObject transData = false then fillLang rest
    else do
      let transContent ← lift (transData.stringOr "content")
      if transContent = [] then fillLang rest
      else
        let transType ← lift (transData.stringOr "type")
        let transLrc ← lift (if transType = lit "krc" then krcStringToLrc transContent else .ok transContent)
        if transLrc = [] then fillLang rest else update (setTranslation transLrc)

def fillTranslations (lyric : JsonValue) : Filling Unit :=
  match lyric.find? "lang_translations" with
  | some (.obj members) => fillLang (members.map (·.2))
  | _ => pure ()

def readTrack (body : Str) : Filling Bool := do
  let j ← lift (net.parse body)
  match (j.find? "lyric").filter isObject with
  | none => return false
  | some lyric =>
    let content ← lift (lyric.stringOr "content")
    if content = [] then return false
    else
      let type ← lift (lyric.stringOr "type")
      let lrcText ← lift (lrcTextOf type content)
      update (setLyrics lrcText)
      fillTranslations lyric
      return true

def getLyricsViaApi (ctx : QishuiContext) : Filling Bool :=
  let resp := net.get (lit "https://api.qishui.com/luna/pc/track_v2?track_id=" ++ ctx.trackId ++
    lit "&media_type=track&queue_type=")
  if resp.success = false ∨ resp.body = [] then pure false
  else recover (readTrack net resp.body) false

/-- `ctx.coverUrl`, which the page's cover replaces. -/
def pageCoverUrl (coverUrl ssCoverUrl : Str) : Str :=
  if find (lit "http") ssCoverUrl = some 0 then
    if ssCoverUrl.contains 126 then ssCoverUrl.takeWhile (· ≠ 126) ++ coverSize else ssCoverUrl
  else coverUrl

/-- What is read of the page's object: whether there are lyrics, and the address of the cover. -/
def readPage (ctx : QishuiContext) (awoJson : Str) : Filling (Bool × Str) := do
  let awo ← lift (net.parse awoJson)
  let ssTrackName ← lift (awo.stringOr "trackName")
  let ssArtist ← lift (awo.stringOr "artistName")
  if ssTrackName ≠ [] ∧ nameSimilarity ctx.trackName ssTrackName < 2 / 10 then return (false, ctx.coverUrl)
  else
    fillNonempty setSongName ssTrackName
    fillNonempty setArtist ssArtist
    match (awo.find? "lyrics").filter isObject with
    | none => return (false, ctx.coverUrl)
    | some lyrics =>
      if (lyrics.find? "sentences").any isArray = false then return (false, ctx.coverUrl)
      else
        let lyricsJson ← lift (net.dump lyrics)
        let texts := krcJsonToLrc net.truncate net.parse lyricsJson
        update (setLyrics texts.1)
        fillTranslation texts.2
        let ssCoverUrl ← lift (awo.stringOr "coverURL")
        return (texts.1 ≠ [], pageCoverUrl ctx.coverUrl ssCoverUrl)

def getLyricsViaSharePage (ctx : QishuiContext) : Filling (Bool × Str) :=
  let resp := net.get (lit "https://music.douyin.com/qishui/share/track?track_id=" ++ ctx.trackId)
  if resp.success = false ∨ resp.body = [] then pure (false, ctx.coverUrl)
  else
    let option := extractJsonObject resp.body (lit "audioWithLyricsOption")
    let awoJson := if option = [] then extractJsonObject resp.body (lit "audioWithLyrics") else option
    if awoJson = [] then pure (false, ctx.coverUrl)
    else recover (readPage net ctx awoJson) (false, ctx.coverUrl)

def getLyrics (ctx : QishuiContext) : Filling (Bool × Str) :=
  if ctx.trackId = [] then pure (false, ctx.coverUrl)
  else do
    let found ← getLyricsViaApi net ctx
    if found then
      let data ← state
      return (data.hasLyrics, ctx.coverUrl)
    else getLyricsViaSharePage net ctx

def fetch (keyword : Str) : Filling Bool := do
  match ← searchSong net keyword with
  | none => return false
  | some ctx =>
    let found ← getLyrics net ctx
    dropLyrics found.1
    downloadCover net found.2
    return true

end

end QishuiProvider

/-! ## What they hand on -/

/-- What a provider leaves in the record of its name. -/
structure Sound (name : Str) (d : MusicMetadata) : Prop where
  source : d.source = name
  lyrics : d.hasLyrics → d.lyrics ≠ []
  translation : d.hasTranslation → d.translationLyrics ≠ []
  cover : d.hasCover → 5120 ≤ d.coverData.length

/-- The record, before it has lyrics. -/
def Fresh (name : Str) (d : MusicMetadata) : Prop := Sound name d ∧ d.hasLyrics = false

/-- A change of the labels of a record: flags, lyrics, translation and cover stay. -/
def Labels (f : MusicMetadata → MusicMetadata) : Prop :=
  ∀ d, (f d).source = d.source ∧ (f d).hasLyrics = d.hasLyrics ∧ (f d).lyrics = d.lyrics ∧
    (f d).hasTranslation = d.hasTranslation ∧ (f d).translationLyrics = d.translationLyrics ∧
    (f d).hasCover = d.hasCover ∧ (f d).coverData = d.coverData

section
variable {name : Str}

theorem Sound.labels {f : MusicMetadata → MusicMetadata} (hf : Labels f) {d : MusicMetadata} (h : Sound name d) :
    Sound name (f d) := by
  obtain ⟨h1, h2, h3, h4, h5, h6, h7⟩ := hf d
  constructor
  · rw [h1]
    exact h.source
  · rw [h2, h3]
    exact h.lyrics
  · rw [h4, h5]
    exact h.translation
  · rw [h6, h7]
    exact h.cover

/-- What is kept by every change of the labels. -/
def LabelFree (I : MusicMetadata → Prop) : Prop := ∀ f, Labels f → ∀ d, I d → I (f d)

theorem labelFree_sound : LabelFree (Sound name) := fun _ hf _ h => h.labels hf

theorem labelFree_fresh : LabelFree (Fresh name) := fun _ hf d h => ⟨h.1.labels hf, (hf d).2.1.trans h.2⟩

end

section
variable {I : MusicMetadata → Prop}

theorem keeps_set (hI : LabelFree I) {f : MusicMetadata → MusicMetadata} (hf : Labels f) :
    Keeps I (update f : Filling Unit) := Leads.update (hI f hf)

theorem keeps_fill (hI : LabelFree I) {set : Str → MusicMetadata → MusicMetadata} (hset : ∀ s, Labels (set s))
    (key : String) (v : JsonValue) : Keeps I (fill key set v) := by
  unfold fill
  cases v.find? key with
  | none => exact Keeps.pure ()
  | some w => exact Keeps.bind (Keeps.lift _) fun s => keeps_set hI (hset s)

theorem keeps_fillString (hI : LabelFree I) {set : Str → MusicMetadata → MusicMetadata} (hset : ∀ s, Labels (set s))
    (key : String) (v : JsonValue) : Keeps I (fillString key set v) := by
  unfold fillString
  cases stringAt? key v with
  | none => exact Keeps.pure ()
  | some s => exact keeps_set hI (hset s)

theorem labels_setSongId (s : Str) : Labels (setSongId s) := fun _ => ⟨rfl, rfl, rfl, rfl, rfl, rfl, rfl⟩

theorem labels_setSongName (s : Str) : Labels (setSongName s) := fun _ => ⟨rfl, rfl, rfl, rfl, rfl, rfl, rfl⟩

theorem labels_setArtist (s : Str) : Labels (setArtist s) := fun _ => ⟨rfl, rfl, rfl, rfl, rfl, rfl, rfl⟩

theorem labels_setAlbum (s : Str) : Labels (setAlbum s) := fun _ => ⟨rfl, rfl, rfl, rfl, rfl, rfl, rfl⟩

theorem labels_setCoverUrl (s : Str) : Labels (setCoverUrl s) := fun _ => ⟨rfl, rfl, rfl, rfl, rfl, rfl, rfl⟩

end

section
variable {name : Str}

theorem keeps_fillNonempty {I : MusicMetadata → Prop} {set : Str → MusicMetadata → MusicMetadata}
    (h : ∀ s, s ≠ [] → ∀ d, I d → I (set s d)) (s : Str) : Keeps I (fillNonempty set s) := by
  unfold fillNonempty
  split_ifs with hnil
  · exact Keeps.pure ()
  · exact Leads.update (h s hnil)

theorem keeps_fillTranslation (transLyric : Str) : Keeps (Sound name) (fillTranslation transLyric) :=
  keeps_fillNonempty (fun _ hs _ h => ⟨h.source, h.lyrics, fun _ => hs, h.cover⟩) transLyric

theorem keeps_fillTranslation_fresh (transLyric : Str) : Keeps (Fresh name) (fillTranslation transLyric) :=
  keeps_fillNonempty (fun _ hs _ h => ⟨⟨h.1.source, h.1.lyrics, fun _ => hs, h.1.cover⟩, h.2⟩) transLyric

theorem keeps_setLyrics (s : Str) : Keeps (Sound name) (update (setLyrics s) : Filling Unit) :=
  Leads.update fun _ h => ⟨h.source, fun hs => of_decide_eq_true hs, h.translation, h.cover⟩

theorem keeps_downloadCover (net : Platforms) (coverUrl : Str) : Keeps (Sound name) (downloadCover net coverUrl) := by
  unfold downloadCover
  refine Leads.ite (Keeps.pure ()) ?_
  dsimp only
  split_ifs with hresp
  · exact Leads.update fun d h => ⟨h.source, h.lyrics, h.translation, fun _ => hresp.2.2⟩
  · exact Keeps.pure ()

theorem keeps_dropLyrics (found : Bool) : Keeps (Sound name) (dropLyrics found) :=
  Leads.ite (Keeps.pure ()) (Leads.update fun _ h => ⟨h.source, nofun, h.translation, h.cover⟩)

/-- The best of the songs of an answer, if there are any, goes into the record. -/
theorem keeps_fillBest {I : MusicMetadata → Prop} {fillSong : JsonValue → Filling Unit}
    (hfill : ∀ song, Keeps I (fillSong song)) {best : JsonValue → Except Exn JsonValue} (songs : Option JsonValue) :
    Keeps I (match songs with
      | none => return false
      | some songs => do
        let song ← lift (best songs)
        fillSong song
        return true : Filling Bool) := by
  cases songs with
  | none => exact Keeps.pure false
  | some songs =>
    refine Keeps.bind (Keeps.lift _) fun song => ?_
    exact Keeps.bind (hfill song) fun _ => Keeps.pure true

/-- A search: its answer is parsed, and the best song goes into the record. -/
theorem keeps_search {net : Platforms} {I : MusicMetadata → Prop} {fillSong : JsonValue → Filling Unit}
    (hfill : ∀ song, Keeps I (fillSong song)) {songsOf : JsonValue → Except Exn (Option JsonValue)}
    {best : JsonValue → Except Exn JsonValue} (resp : HttpResponse) :
    Keeps I (if resp.success = false then pure false
      else recover (do
        let j ← lift (net.parse resp.body)
        let songs ← lift (songsOf j)
        match songs with
        | none => return false
        | some songs =>
          let song ← lift (best songs)
          fillSong song
          return true) false : Filling Bool) := by
  refine Leads.ite (Keeps.pure false) (Leads.recover ?_ false)
  exact Keeps.bind (Keeps.lift _) fun j => Keeps.bind (Keeps.lift _) fun songs => keeps_fillBest hfill songs

/-- A fetch of the first three providers. -/
theorem leads_fetchWith {net : Platforms} {searchSong : Str → Filling Bool} {getLyrics : Filling Bool} {keyword : Str}
    (hsearch : Keeps (Fresh name) (searchSong keyword)) (hlyrics : Leads (Fresh name) (Sound name) getLyrics) :
    Leads (Fresh name) (Sound name) (fetchWith net searchSong getLyrics keyword) := by
  unfold fetchWith
  refine Leads.bind hsearch (fun found => Leads.ite (fun d h => h.1) ?_) fun d h => h.1
  refine Leads.bind hlyrics (fun found => ?_) fun d h => h
  refine Keeps.bind (keeps_dropLyrics found) fun _ => ?_
  exact Keeps.bind Keeps.state fun out => Keeps.bind (keeps_downloadCover net _) fun _ => Keeps.pure true

end

namespace KugouProvider

section
variable {net : Platforms} {I : MusicMetadata → Prop} {name : Str}

theorem keeps_fillUrl (hI : LabelFree I) (key : String) (change : Str → Str) (song : JsonValue) :
    Keeps I (fillUrl key change song) := by
  unfold fillUrl
  cases present key song with
  | none => exact Keeps.pure ()
  | some v =>
    refine Keeps.bind (Keeps.lift _) fun url => ?_
    cases httpUrl url with
    | none => exact Keeps.pure ()
    | some url => exact keeps_set hI (labels_setCoverUrl _)

theorem keeps_fillSong (hI : LabelFree I) (song : JsonValue) : Keeps I (fillSong net song) := by
  unfold fillSong
  refine Keeps.bind (keeps_fill hI labels_setSongId "hash" song) fun _ => ?_
  refine Keeps.bind (keeps_fill hI labels_setSongName "songname" song) fun _ => ?_
  refine Keeps.bind (keeps_fill hI labels_setArtist "singername" song) fun _ => ?_
  refine Keeps.bind (keeps_fill hI labels_setAlbum "album_name" song) fun _ => ?_
  refine Keeps.bind (keeps_fillUrl hI "album_img" enlarged song) fun _ => ?_
  refine Keeps.bind (keeps_fillUrl hI "img" id song) fun _ => ?_
  exact Keeps.bind Keeps.state fun data => Leads.ite (keeps_set hI (labels_setCoverUrl _)) (Keeps.pure ())

theorem keeps_searchSong (hI : LabelFree I) (keyword : Str) : Keeps I (searchSong net keyword) := by
  unfold searchSong
  exact keeps_search (keeps_fillSong hI) _

theorem keeps_fillLyrics (id accesskey : Str) (lyricData content : JsonValue) :
    Keeps (Fresh name) (fillLyrics net id accesskey lyricData content) := by
  unfold fillLyrics
  refine Keeps.bind (Keeps.lift _) fun base64Content => ?_
  refine Keeps.bind (Leads.update fun d h => ?_) fun _ => ?_
  · -- the lyrics are written before their flag
    exact ⟨⟨h.1.source, fun hflag => absurd (h.2 ▸ hflag) Bool.false_ne_true, h.1.translation, h.1.cover⟩, h.2⟩
  refine Keeps.bind ?_ fun _ => ?_
  · unfold fillTrans
    cases lyricData.find? "trans" with
    | none => exact Keeps.pure ()
    | some base64Trans => exact Keeps.bind (Keeps.lift _) fun base64Trans => keeps_fillTranslation_fresh _
  · exact Keeps.bind Keeps.state fun data => Leads.ite (keeps_fillTranslation_fresh _) (Keeps.pure ())

/-- A computation that reads only. -/
theorem fresh_sound {α : Type} {m : Filling α} (h : Keeps (Fresh name) m) : Leads (Fresh name) (Sound name) m :=
  h.mono (fun _ hd => hd) fun _ hd => hd.1

theorem leads_readLyrics (body : Str) : Leads (Fresh name) (Sound name) (readLyrics net body) := by
  have hdone : ∀ d, Fresh name d → Sound name d := fun d h => h.1
  unfold readLyrics
  refine Leads.bind (Keeps.lift _) (fun j => ?_) hdone
  cases (j.find? "candidates").filter (!isEmpty ·) with
  | none => exact fresh_sound (Keeps.pure false)
  | some candidates =>
    refine Leads.bind (Keeps.lift _) (fun candidate => ?_) hdone
    refine Leads.bind (Keeps.lift _) (fun id => ?_) hdone
    refine Leads.bind (Keeps.lift _) (fun accesskey => ?_) hdone
    refine Leads.ite (fresh_sound (Keeps.pure false)) ?_
    refine Leads.bind (Keeps.lift _) (fun lyricData => ?_) hdone
    cases lyricData.find? "content" with
    | none => exact fresh_sound (Keeps.pure false)
    | some content =>
      refine Leads.bind (keeps_fillLyrics id accesskey lyricData content) (fun _ => ?_) hdone
      refine Leads.bind (Leads.update fun d h => ?_) (fun _ => ?_) fun d h => h
      · exact ⟨h.1.source, fun hs => of_decide_eq_true hs, h.1.translation, h.1.cover⟩
      · exact Keeps.bind Keeps.state fun data => Keeps.pure data.hasLyrics

theorem leads_fetch (keyword : Str) : Leads (Fresh name) (Sound name) (fetch net keyword) := by
  refine leads_fetchWith (keeps_searchSong labelFree_fresh keyword) ?_
  unfold getLyrics
  refine Leads.bind Keeps.state (fun data => ?_) fun d h => h.1
  refine Leads.ite (fresh_sound (Keeps.pure false)) ?_
  exact Leads.ite (fresh_sound (Keeps.pure false)) (Leads.recover (leads_readLyrics _) false)

end

end KugouProvider

namespace NeteaseProvider

section
variable {net : Platforms} {I : MusicMetadata → Prop} {name : Str}

theorem keeps_fillSong (hI : LabelFree I) (song : JsonValue) : Keeps I (fillSong net song) := by
  unfold fillSong
  refine Keeps.bind (Keeps.lift _) fun id => Keeps.bind (keeps_set hI (labels_setSongId _)) fun _ => ?_
  refine Keeps.bind (keeps_fill hI labels_setSongName "name" song) fun _ => ?_
  refine Keeps.bind ?_ fun _ => ?_
  · unfold fillArtist
    refine Keeps.bind (Keeps.lift _) fun artist => ?_
    cases artist with
    | none => exact Keeps.pure ()
    | some artist => exact Keeps.bind (Keeps.lift _) fun artist => keeps_set hI (labels_setArtist artist)
  · cases song.find? "al" with
    | none => exact Keeps.pure ()
    | some al =>
      refine Keeps.bind (keeps_fill hI labels_setAlbum "name" al) fun _ => ?_
      exact keeps_fill hI (fun picUrl => labels_setCoverUrl (pictureUrl picUrl)) "picUrl" al

theorem keeps_searchSong (hI : LabelFree I) (keyword : Str) : Keeps I (searchSong net keyword) := by
  unfold searchSong
  exact keeps_search (keeps_fillSong hI) _

theorem keeps_readLyrics (body : Str) : Keeps (Sound name) (readLyrics net body) := by
  unfold readLyrics
  refine Keeps.bind (Keeps.lift _) fun j => ?_
  cases path ["lrc", "lyric"] j with
  | none => exact Keeps.pure false
  | some lyric =>
    refine Keeps.bind (Keeps.lift _) fun lyrics => Leads.ite (Keeps.pure false) ?_
    refine Keeps.bind (keeps_setLyrics lyrics) fun _ => ?_
    refine Keeps.bind ?_ fun _ => Keeps.pure true
    unfold fillTlyric
    split
    · exact Keeps.pure ()
    · exact Keeps.pure ()
    · exact Keeps.bind (Keeps.lift _) fun transLyric => keeps_fillTranslation transLyric

theorem leads_fetch (keyword : Str) : Leads (Fresh name) (Sound name) (fetch net keyword) := by
  refine leads_fetchWith (keeps_searchSong labelFree_fresh keyword) (Leads.mono (I := Sound name) ?_ (fun d h => h.1) fun d h => h)
  unfold getLyrics
  refine Keeps.bind Keeps.state fun data => ?_
  exact Leads.ite (Keeps.pure false) (Leads.recover (keeps_readLyrics _) false)

end

end NeteaseProvider

namespace QQMusicProvider

section
variable {net : Platforms} {I : MusicMetadata → Prop} {name : Str}

theorem keeps_fillSong (hI : LabelFree I) (song : JsonValue) : Keeps I (fillSong song) := by
  unfold fillSong
  refine Keeps.bind (keeps_fillString hI labels_setSongId "mid" song) fun _ => ?_
  refine Keeps.bind (keeps_fillString hI labels_setSongName "name" song) fun _ => ?_
  refine Keeps.bind ?_ fun _ => ?_
  · unfold fillSinger
    split
    · exact keeps_set hI (labels_setArtist _)
    · exact Keeps.pure ()
  · split
    · refine Keeps.bind (keeps_fillString hI labels_setAlbum "name" _) fun _ => ?_
      exact keeps_fillNonempty (fun albumMid _ => hI _ (labels_setCoverUrl (coverUrlOf albumMid))) _
    · exact Keeps.pure ()

theorem keeps_searchSong (hI : LabelFree I) (keyword : Str) : Keeps I (searchSong net keyword) := by
  unfold searchSong
  refine Keeps.bind (Keeps.lift _) fun query => Keeps.bind (Keeps.lift _) fun jsonData => ?_
  refine Leads.ite (Keeps.pure false) (Leads.recover ?_ false)
  exact Keeps.bind (Keeps.lift _) fun j => keeps_fillBest (keeps_fillSong hI) _

theorem keeps_readLyrics (body : Str) : Keeps (Sound name) (readLyrics net body) := by
  unfold readLyrics
  refine Keeps.bind (Keeps.lift _) fun j => ?_
  cases path ["req", "data"] j with
  | none => exact Keeps.pure false
  | some lyricData =>
    refine Leads.ite (Keeps.pure false) ?_
    refine Keeps.bind (keeps_fillTranslation _) fun _ => ?_
    exact Keeps.bind (keeps_setLyrics _) fun _ => Keeps.pure true

theorem leads_fetch (keyword : Str) : Leads (Fresh name) (Sound name) (fetch net keyword) := by
  refine leads_fetchWith (keeps_searchSong labelFree_fresh keyword) (Leads.mono (I := Sound name) ?_ (fun d h => h.1) fun d h => h)
  unfold getLyrics
  refine Keeps.bind Keeps.state fun data => ?_
  refine Keeps.bind (Keeps.lift _) fun songMID => Keeps.bind (Keeps.lift _) fun jsonData => ?_
  exact Leads.ite (Keeps.pure false) (Leads.recover (keeps_readLyrics _) false)

end

end QQMusicProvider

namespace QishuiProvider

section
variable {net : Platforms} {name : Str}

theorem keeps_searchSong (keyword : Str) : Keeps (Sound name) (searchSong net keyword) := by
  have hI : LabelFree (Sound name) := labelFree_sound
  unfold searchSong
  refine Leads.ite (Keeps.pure none) (Leads.recover ?_ none)
  unfold readSong
  refine Keeps.bind (Keeps.lift _) fun j => Leads.ite (Keeps.pure none) ?_
  refine Keeps.bind (Keeps.lift _) fun scores => Keeps.bind (Keeps.lift _) fun trackId => ?_
  refine Leads.ite (Keeps.pure none) ?_
  refine Keeps.bind (Keeps.lift _) fun trackName => Keeps.bind ?_ fun coverUrl => ?_
  · unfold fillAlbum
    split
    · exact Keeps.pure []
    · refine Keeps.bind (Keeps.lift _) fun album => ?_
      refine Keeps.bind (keeps_set hI fun _ => ⟨rfl, rfl, rfl, rfl, rfl, rfl, rfl⟩) fun _ => ?_
      split
      · exact Keeps.pure []
      · exact Keeps.lift _
  · refine Keeps.bind (keeps_set hI fun _ => ⟨rfl, rfl, rfl, rfl, rfl, rfl, rfl⟩) fun _ => ?_
    exact Keeps.pure _

theorem keeps_fillLang (langs : List JsonValue) : Keeps (Sound name) (fillLang langs) := by
  induction langs with
  | nil => exact Keeps.pure ()
  | cons transData langs ih =>
    unfold fillLang
    refine Leads.ite ih (Keeps.bind (Keeps.lift _) fun transContent => Leads.ite ih ?_)
    refine Keeps.bind (Keeps.lift _) fun transType => Keeps.bind (Keeps.lift _) fun transLrc => ?_
    split_ifs with hnil
    · exact ih
    · exact Leads.update fun _ h => ⟨h.source, h.lyrics, fun _ => hnil, h.cover⟩

theorem keeps_readTrack (body : Str) : Keeps (Sound name) (readTrack net body) := by
  unfold readTrack
  refine Keeps.bind (Keeps.lift _) fun j => ?_
  split
  · exact Keeps.pure false
  · refine Keeps.bind (Keeps.lift _) fun content => Leads.ite (Keeps.pure false) ?_
    refine Keeps.bind (Keeps.lift _) fun type => Keeps.bind (Keeps.lift _) fun lrcText => ?_
    refine Keeps.bind (keeps_setLyrics lrcText) fun _ => Keeps.bind ?_ fun _ => Keeps.pure true
    unfold fillTranslations
    split
    · exact keeps_fillLang _
    · exact Keeps.pure ()

theorem keeps_readPage (ctx : QishuiContext) (awoJson : Str) : Keeps (Sound name) (readPage net ctx awoJson) := by
  have hI : LabelFree (Sound name) := labelFree_sound
  unfold readPage
  refine Keeps.bind (Keeps.lift _) fun awo => Keeps.bind (Keeps.lift _) fun ssTrackName => ?_
  refine Keeps.bind (Keeps.lift _) fun ssArtist => Leads.ite (Keeps.pure _) ?_
  refine Keeps.bind (keeps_fillNonempty (fun s _ => hI _ (labels_setSongName s)) _) fun _ => ?_
  refine Keeps.bind (keeps_fillNonempty (fun s _ => hI _ (labels_setArtist s)) _) fun _ => ?_
  split
  · exact Keeps.pure _
  · refine Leads.ite (Keeps.pure _) (Keeps.bind (Keeps.lift _) fun lyricsJson => ?_)
    refine Keeps.bind (keeps_setLyrics _) fun _ => Keeps.bind (keeps_fillTranslation _) fun _ => ?_
    exact Keeps.bind (Keeps.lift _) fun ssCoverUrl => Keeps.pure _

theorem keeps_getLyrics (ctx : QishuiContext) : Keeps (Sound name) (getLyrics net ctx) := by
  unfold getLyrics
  refine Leads.ite (Keeps.pure _) (Keeps.bind ?_ fun found => Leads.ite ?_ ?_)
  · exact Leads.ite (Keeps.pure false) (Leads.recover (keeps_readTrack _) false)
  · exact Keeps.bind Keeps.state fun data => Keeps.pure _
  · refine Leads.ite (Keeps.pure _) (Leads.ite (Keeps.pure _) ?_)
    exact Leads.recover (keeps_readPage ctx _) _

theorem keeps_fetch (keyword : Str) : Keeps (Sound name) (fetch net keyword) := by
  unfold fetch
  refine Keeps.bind (keeps_searchSong keyword) fun ctx => ?_
  cases ctx with
  | none => exact Keeps.pure false
  | some ctx =>
    refine Keeps.bind (keeps_getLyrics ctx) fun found => Keeps.bind (keeps_dropLyrics _) fun _ => ?_
    exact Keeps.bind (keeps_downloadCover net _) fun _ => Keeps.pure true

end

end QishuiProvider

/-! ## The four -/

/-- The providers of `main`, in their order. -/
def providers (net : Platforms) : List Provider :=
  [⟨lit "酷狗音乐", fun keyword d => ((KugouProvider.fetch net keyword).exec d).2⟩,
    ⟨lit "网易云音乐", fun keyword d => ((NeteaseProvider.fetch net keyword).exec d).2⟩,
    ⟨lit "QQ音乐", fun keyword d => ((QQMusicProvider.fetch net keyword).exec d).2⟩,
    ⟨lit "汽水音乐", fun keyword d => ((QishuiProvider.fetch net keyword).exec d).2⟩]

theorem fresh_new (name : Str) : Fresh name { source := name } := ⟨⟨rfl, nofun, nofun, nofun⟩, rfl⟩

theorem provider_sound {net : Platforms} {provider : Provider} (h : provider ∈ providers net) (keyword : Str) :
    Sound provider.name (provider.fetch keyword { source := provider.name }) := by
  simp only [providers, List.mem_cons, List.not_mem_nil, or_false] at h
  rcases h with rfl | rfl | rfl | rfl
  · exact KugouProvider.leads_fetch keyword _ (fresh_new _)
  · exact NeteaseProvider.leads_fetch keyword _ (fresh_new _)
  · exact QQMusicProvider.leads_fetch keyword _ (fresh_new _)
  · exact QishuiProvider.keeps_fetch keyword _ (fresh_new _).1

/-- **What the providers hand on.**  Whatever the platforms answer, the records have the sources of the
    default order, one each, and no flag without its field; a cover has five kilobytes at least. -/
theorem allResults_sound (net : Platforms) (keyword : Str) :
    Results (allResults (providers net) keyword) ∧
      (allResults (providers net) keyword).map (·.source) = defaultOrder ∧
      ∀ d ∈ allResults (providers net) keyword, d.hasCover → 5120 ≤ d.coverData.length := by
  have hsound : ∀ d ∈ allResults (providers net) keyword, ∃ name, Sound name d := by
    intro d hd
    obtain ⟨provider, hprovider, rfl⟩ := List.mem_map.1 hd
    exact ⟨_, provider_sound hprovider keyword⟩
  have hsources : (allResults (providers net) keyword).map (·.source) = defaultOrder := by
    have hmap : (allResults (providers net) keyword).map (·.source) = (providers net).map Provider.name := by
      rw [allResults, List.map_map]
      exact List.map_congr_left fun provider hprovider => (provider_sound hprovider keyword).source
    rw [hmap]
    rfl
  have hcover : ∀ d ∈ allResults (providers net) keyword, d.hasCover → 5120 ≤ d.coverData.length := by
    intro d hd
    obtain ⟨name, h⟩ := hsound d hd
    exact h.cover
  refine ⟨{
    nonempty := List.cons_ne_nil _ _
    distinct := by
      rw [hsources]
      decide +kernel
    platforms := fun d hd => hsources ▸ List.mem_map_of_mem hd
    lyrics := fun d hd => (hsound d hd).elim fun _ h => h.lyrics
    translation := fun d hd => (hsound d hd).elim fun _ h => h.translation
    cover := fun d hd hflag hnil => ?_ }, hsources, hcover⟩
  have hlen := hcover d hd hflag
  rw [hnil] at hlen
  exact absurd hlen (by decide)

end NarMusic
