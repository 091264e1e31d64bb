/-
  The keys of `BilibiliClient` (`infrastructure/bilibili/bilibili_client.cpp`).

  They are cut out of two URLs of an answer, and all that is checked is that neither is empty.
  The table of `signWbiParams` asks for 59 bytes (`needed_length`), so what the answer must
  not do is name two shorter keys (`ShortKeys`).

  The requests are a parameter, and so is `json::parse`.
-/
import NarMusic.Bilibili.Search
import NarMusic.Lib.Except
import NarMusic.Lib.JsonValue
import NarMusic.Zip.EntryNames

namespace NarMusic

open Cxx

/-- What is read of an answer. -/
structure HttpResponse where
  success : Bool := false
  body : Str := []

namespace BilibiliClient

open BatchDownload (rfind rfind_append rfind_none)

def FALLBACK_COOKIE : Str :=
  lit "buvid3=175-9E59-4C12-8A3A-3C76C5B6850865482infoc; " ++
    lit "buvid4=6A5E6D2E-1C78-1C42-8F6A-3D7F9C0E5B3265482;"

/-- The cookie in an answer. -/
def cookieOf (j : JsonValue) : Except Exn Str :=
  if j.contains "data" then do
    let data ← j.member "data"
    let buvid3 ← data.stringOr "b_3"
    let buvid4 ← data.stringOr "b_4"
    let result := if buvid3 = [] then [] else lit "buvid3=" ++ buvid3
    return if buvid4 = [] then result
      else (if result = [] then result else result ++ lit "; ") ++ lit "buvid4=" ++ buvid4
  else .ok []

def extractKey (url : Str) : Str :=
  match rfind 47 url, rfind 46 url with
  | some slash, some dot => if slash < dot then (url.drop (slash + 1)).take (dot - slash - 1) else []
  | _, _ => []

/-- The keys in an answer. -/
def keysOf (j : JsonValue) : Except Exn (Str × Str) :=
  if j.contains "data" then do
    let data ← j.member "data"
    if data.contains "wbi_img" then
      let wbi_img ← data.member "wbi_img"
      let img_url ← wbi_img.member "img_url" >>= JsonValue.getString
      let sub_url ← wbi_img.member "sub_url" >>= JsonValue.getString
      return (extractKey img_url, extractKey sub_url)
    else return ([], [])
  else .ok ([], [])

section
variable (get : Str → List Str → HttpResponse) (parse : Str → Except Exn JsonValue)

def fetchAnonymousCookie : Str :=
  let resp := get (lit "https://api.bilibili.com/x/frontend/finger/spi") [lit "Referer: https://www.bilibili.com/"]
  if resp.success = false ∨ resp.body = [] then []
  else
    match parse resp.body >>= cookieOf with
    | .ok cookie => cookie
    | .error _ => []

/-- The answer of the nav endpoint. -/
def nav (cookie : Str) : HttpResponse :=
  get (lit "https://api.bilibili.com/x/web-interface/nav")
    [lit "Referer: https://www.bilibili.com/", lit "Cookie: " ++ cookie]

def fetchWbiKeys (cookie : Str) : Str × Str :=
  let resp := nav get cookie
  if resp.success = false ∨ resp.body = [] then ([], [])
  else
    match parse resp.body >>= keysOf with
    | .ok keys => keys
    | .error _ => ([], [])

/-- The cookie that `initialize` sets. -/
def initialCookie : Str :=
  let cookie := fetchAnonymousCookie get parse
  if cookie = [] then FALLBACK_COOKIE else cookie

/-- `initialize` -/
def initializeClient (c : BilibiliClient) : Bool × BilibiliClient :=
  let cookie := initialCookie get parse
  let keys := fetchWbiKeys get parse cookie
  let keys :=
    if keys.1 = [] ∨ keys.2 = [] then
      (lit "7cd084941338484aae1ad9425b84077c", lit "4932caff0ff746eab6f01bf08b70ac45")
    else keys
  (true, { c with cookie, imgKey := keys.1, subKey := keys.2 })

end

/-! ## Keys in an answer -/

/-- The name of a file without its extension: what stands between the last slash and the last dot. -/
def Stem (url key : Str) : Prop :=
  ∃ dir ext, url = dir ++ 47 :: (key ++ 46 :: ext) ∧ 47 ∉ key ++ 46 :: ext ∧ 46 ∉ ext

/-- The answer has the two URLs. -/
def WbiImg (j : JsonValue) (img_url sub_url : List Char) : Prop :=
  ∃ data wbi_img, j.find? "data" = some data ∧ data.find? "wbi_img" = some wbi_img ∧
    wbi_img.find? "img_url" = some (.str img_url) ∧ wbi_img.find? "sub_url" = some (.str sub_url)

/-- An answer with two keys that are not empty, but too short together. -/
def ShortKeys (parse : Str → Except Exn JsonValue) (resp : HttpResponse) : Prop :=
  resp.success = true ∧ resp.body ≠ [] ∧ ∃ j img_url sub_url imgKey subKey,
    parse resp.body = .ok j ∧ WbiImg j img_url sub_url ∧
    Stem (Utf8.encode img_url) imgKey ∧ Stem (Utf8.encode sub_url) subKey ∧
    imgKey ≠ [] ∧ subKey ≠ [] ∧ (imgKey ++ subKey).length < 59

theorem rfind_cases (c : Byte) (s : Str) :
    rfind c s = none ∨ ∃ a t, c ∉ t ∧ s = a ++ c :: t ∧ rfind c s = some a.length := by
  by_cases h : c ∈ s
  · obtain ⟨t, a, hsplit, ht⟩ := List.eq_append_cons_of_mem (List.mem_reverse.2 h)
    have hs : s = a.reverse ++ c :: t.reverse := by simpa using congrArg List.reverse hsplit
    have ht : c ∉ t.reverse := by simpa using ht
    exact Or.inr ⟨_, _, ht, hs, hs ▸ rfind_append _ ht⟩
  · exact Or.inl (rfind_none h)

/-- What is cut out of a URL, where it is not empty. -/
theorem extractKey_iff {url key : Str} (hkey : key ≠ []) : extractKey url = key ↔ Stem url key := by
  constructor
  · rintro rfl
    unfold extractKey at hkey ⊢
    rcases rfind_cases 47 url with hslash | ⟨dir, name, hname, hurl, hslash⟩
    · simp [hslash] at hkey
    rcases rfind_cases 46 url with hdot | ⟨front, ext, hext, hurl', hdot⟩
    · simp [hslash, hdot] at hkey
    rw [hslash, hdot] at hkey ⊢
    dsimp only at hkey ⊢
    split_ifs at hkey ⊢ with hlt
    -- the dot stands behind the slash, so the front is longer than the directory
    · obtain ⟨key, rfl⟩ : dir ++ [47] <+: front := by
        have hslashed : dir ++ [47] <+: url := ⟨name, by simp [hurl]⟩
        have hdotted : front <+: url := ⟨46 :: ext, hurl'.symm⟩
        exact List.prefix_of_prefix_length_le hslashed hdotted (by simpa using Nat.succ_le_of_lt hlt)
      have hsplit : url = dir ++ 47 :: (key ++ 46 :: ext) := by simpa using hurl'
      have hname' : name = key ++ 46 :: ext := by
        have := hurl.symm.trans hsplit
        simpa using this
      have hcut : (url.drop (dir.length + 1)).take ((dir ++ [47] ++ key).length - dir.length - 1) = key := by
        rw [hsplit]
        simp
      rw [hcut]
      exact ⟨dir, ext, hsplit, hname' ▸ hname, hext⟩
    · exact absurd rfl hkey
  · rintro ⟨dir, ext, rfl, hname, hext⟩
    have hdot : rfind 46 (dir ++ 47 :: (key ++ 46 :: ext)) = some (dir ++ 47 :: key).length := by
      rw [← rfind_append (dir ++ 47 :: key) hext]
      simp
    unfold extractKey
    rw [rfind_append dir hname, hdot]
    dsimp only
    rw [if_pos (by simp)]
    simp

theorem keysOf_iff {j : JsonValue} {imgKey subKey : Str} (himg : imgKey ≠ []) (hsub : subKey ≠ []) :
    keysOf j = .ok (imgKey, subKey) ↔ ∃ img_url sub_url, WbiImg j img_url sub_url ∧
      Stem (Utf8.encode img_url) imgKey ∧ Stem (Utf8.encode sub_url) subKey := by
  have hnone : (([], []) : Str × Str) ≠ (imgKey, subKey) := fun h => himg (Prod.mk.inj h).1.symm
  unfold keysOf
  constructor
  · intro h
    obtain ⟨data, hdata, h⟩ := (JsonValue.bind_contains hnone).1 h
    obtain ⟨wbi_img, hwbi, h⟩ := (JsonValue.bind_contains hnone).1 h
    obtain ⟨_, h₁, h⟩ := Except.bind_eq_ok.1 h
    obtain ⟨_, h₂, h⟩ := Except.bind_eq_ok.1 h
    obtain ⟨img_url, himg_url, rfl⟩ := JsonValue.string_member.1 h₁
    obtain ⟨sub_url, hsub_url, rfl⟩ := JsonValue.string_member.1 h₂
    obtain ⟨hkey, hkey'⟩ := Prod.mk.inj (Except.ok.inj h)
    exact ⟨img_url, sub_url, ⟨data, wbi_img, hdata, hwbi, himg_url, hsub_url⟩,
      (extractKey_iff himg).1 hkey, (extractKey_iff hsub).1 hkey'⟩
  · rintro ⟨img_url, sub_url, ⟨data, wbi_img, hdata, hwbi, himg_url, hsub_url⟩, hkey, hkey'⟩
    refine (JsonValue.bind_contains hnone).2 ⟨data, hdata, ?_⟩
    refine (JsonValue.bind_contains hnone).2 ⟨wbi_img, hwbi, ?_⟩
    refine Except.bind_eq_ok.2 ⟨_, JsonValue.string_member.2 ⟨_, himg_url, rfl⟩, ?_⟩
    refine Except.bind_eq_ok.2 ⟨_, JsonValue.string_member.2 ⟨_, hsub_url, rfl⟩, ?_⟩
    rw [(extractKey_iff himg).2 hkey, (extractKey_iff hsub).2 hkey']
    rfl

/-! ## What the table asks for -/

/-- The table reaches 58. -/
theorem needed_length (c : BilibiliClient) :
    (∀ i ∈ MIXIN_KEY_ENC_TAB, i < (c.imgKey ++ c.subKey).length) ↔ 59 ≤ (c.imgKey ++ c.subKey).length := by
  constructor
  · intro h
    exact h 58 (by decide)
  · intro h i hi
    have hmax : ∀ i ∈ MIXIN_KEY_ENC_TAB, i ≤ 58 := by decide
    exact lt_of_le_of_lt (hmax i hi) h

variable (get : Str → List Str → HttpResponse) (parse : Str → Except Exn JsonValue)

/-- Keys that are not empty come from an answer that names them. -/
theorem fetchWbiKeys_iff {cookie imgKey subKey : Str} (himg : imgKey ≠ []) (hsub : subKey ≠ []) :
    fetchWbiKeys get parse cookie = (imgKey, subKey) ↔
      (nav get cookie).success = true ∧ (nav get cookie).body ≠ [] ∧ ∃ j img_url sub_url,
        parse (nav get cookie).body = .ok j ∧ WbiImg j img_url sub_url ∧
        Stem (Utf8.encode img_url) imgKey ∧ Stem (Utf8.encode sub_url) subKey := by
  have hnone : ¬ (([], []) : Str × Str) = (imgKey, subKey) := fun h => himg (Prod.mk.inj h).1.symm
  unfold fetchWbiKeys
  dsimp only
  constructor
  · intro h
    split_ifs at h with hresp
    · exact absurd h hnone
    · obtain ⟨hsuccess, hbody⟩ := not_or.1 hresp
      refine ⟨by simpa using hsuccess, hbody, ?_⟩
      cases hkeys : parse (nav get cookie).body >>= keysOf with
      | error e =>
        rw [hkeys] at h
        exact absurd h hnone
      | ok keys =>
        rw [hkeys] at h
        obtain rfl : keys = (imgKey, subKey) := h
        obtain ⟨j, hj, hkeys⟩ := Except.bind_eq_ok.1 hkeys
        obtain ⟨img_url, sub_url, hwbi, hstems⟩ := (keysOf_iff himg hsub).1 hkeys
        exact ⟨j, img_url, sub_url, hj, hwbi, hstems⟩
  · rintro ⟨hsuccess, hbody, j, img_url, sub_url, hj, hwbi, hstems⟩
    have hkeys := Except.bind_eq_ok.2 ⟨j, hj, (keysOf_iff himg hsub).2 ⟨img_url, sub_url, hwbi, hstems⟩⟩
    rw [if_neg (not_or.2 ⟨by simp [hsuccess], hbody⟩), hkeys]

/-- **No read outside the keys**, exactly when the answer names no two keys that are too short. -/
theorem keys_in_range (c : BilibiliClient) :
    (∀ i ∈ MIXIN_KEY_ENC_TAB,
        i < ((c.initializeClient get parse).2.imgKey ++ (c.initializeClient get parse).2.subKey).length) ↔
      ¬ ShortKeys parse (nav get (initialCookie get parse)) := by
  rw [needed_length]
  unfold initializeClient
  dsimp only
  set keys := fetchWbiKeys get parse (initialCookie get parse) with hkeys
  split_ifs with hempty
  · -- the keys of the client itself
    refine iff_of_true (by decide +kernel) ?_
    rintro ⟨hsuccess, hbody, j, img_url, sub_url, imgKey, subKey, hj, hwbi, hstem, hstem', himg, hsub, -⟩
    have hfetch := (fetchWbiKeys_iff get parse himg hsub).2
      ⟨hsuccess, hbody, j, img_url, sub_url, hj, hwbi, hstem, hstem'⟩
    rw [hkeys, hfetch] at hempty
    exact hempty.elim himg hsub
  · obtain ⟨himg, hsub⟩ := not_or.1 hempty
    obtain ⟨hsuccess, hbody, j, img_url, sub_url, hj, hwbi, hstems⟩ :=
      (fetchWbiKeys_iff get parse himg hsub).1 hkeys.symm
    rw [← not_lt, not_iff_not]
    constructor
    · exact fun hlt => ⟨hsuccess, hbody, j, img_url, sub_url, keys.1, keys.2, hj, hwbi, hstems.1, hstems.2,
        himg, hsub, hlt⟩
    · rintro ⟨-, -, j, img_url, sub_url, imgKey, subKey, hj, hwbi, hstem, hstem', himg', hsub', hlt⟩
      have hfetch := (fetchWbiKeys_iff get parse himg' hsub').2
        ⟨hsuccess, hbody, j, img_url, sub_url, hj, hwbi, hstem, hstem'⟩
      rw [hkeys, hfetch]
      exact hlt

/-- An answer with the URL `/a.b` twice. -/
def shortAnswer : JsonValue :=
  .obj [("data", .obj [("wbi_img", .obj [("img_url", .str "/a.b".toList), ("sub_url", .str "/a.b".toList)])])]

def shortBody : Str :=
  lit "\x7b\"data\":\x7b\"wbi_img\":\x7b\"img_url\":\"/a.b\",\"sub_url\":\"/a.b\"\x7d\x7d\x7d"

/-- The keys `a` and `a` are two bytes. -/
theorem short_keys_out_of_range : ¬ ∀ (get : Str → List Str → HttpResponse)
    (parse : Str → Except Exn JsonValue) (c : BilibiliClient), ∀ i ∈ MIXIN_KEY_ENC_TAB,
      i < ((c.initializeClient get parse).2.imgKey ++ (c.initializeClient get parse).2.subKey).length := by
  intro h
  have hlast := h (fun _ _ => { success := true, body := shortBody })
    (fun s => if s = shortBody then .ok shortAnswer else .error (.other []))
    ⟨[], [], [], false⟩ 58 (by decide)
  revert hlast
  decide +kernel

end BilibiliClient

end NarMusic
