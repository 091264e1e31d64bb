/-
  The signed search requests of `BilibiliClient`
  (`infrastructure/bilibili/bilibili_client.cpp`).

  `signWbiParams` hashes a query that it builds from the parameters, and `searchSingle`
  builds the query of the URL from them once more.  The two loops differ in what they do
  with an empty value, so they agree as long as no value is empty (`Clean`).

  The hash is a parameter, and so is what a reply is read as: the best candidate's link and
  title.
-/
import NarMusic.Http.Response
import Mathlib.Data.List.DropRight

namespace NarMusic

open Cxx

/-- Without the HTTP client. -/
structure BilibiliClient where
  cookie : Str
  imgKey : Str
  subKey : Str
  initialized : Bool

namespace BilibiliClient

def MIXIN_KEY_ENC_TAB : List ℕ :=
  [46, 47, 18, 2, 53, 8, 23, 32, 15, 50, 10, 31, 58, 3, 45, 35,
    27, 43, 5, 49, 33, 9, 42, 19, 29, 28, 14, 39, 12, 38, 41, 13]

/-- `MD5 input` is the digest. -/
def md5Hex (MD5 : Str → Fin 16 → Byte) (input : Str) : Str :=
  (List.ofFn (MD5 input)).flatMap fun d => [hexDigit (d / 16), hexDigit (d % 16)]

/-- The same loop as `urlEncodeUtf8`. -/
def urlEncodeWbi (s : Str) : Str := Response.urlEncodeUtf8 s

/-- `none` where the keys are too short for the table; at `rawKey.size()` a NUL is read. -/
def mixinKey (c : BilibiliClient) : Option Str :=
  let rawKey := c.imgKey ++ c.subKey
  MIXIN_KEY_ENC_TAB.mapM fun i => (rawKey ++ [0])[i]?

/-- The string `qs`. -/
def qs (signedParams : OrdMap Str Str) : Str :=
  signedParams.entries.foldl (fun qs p =>
    if p.2 = [] then qs
    else (if qs = [] then qs else qs ++ lit "&") ++ p.1 ++ lit "=" ++ urlEncodeWbi p.2) []

def signWbiParams (MD5 : Str → Fin 16 → Byte) (c : BilibiliClient) (now : ℤ) (params : OrdMap Str Str) :
    Option (OrdMap Str Str) := do
  let signedParams := params.insert (lit "wts") (decInt now)
  let mixinKey ← c.mixinKey
  some (signedParams.insert (lit "w_rid") (md5Hex MD5 (qs signedParams ++ mixinKey)))

/-- `while (pos = s.find(pat)) s.erase(pos, pat.size())`. -/
def eraseAll (pat : Str) (hpat : pat ≠ []) (s : Str) : Str :=
  match _h : find pat s with
  | none => s
  | some pos => eraseAll pat hpat (s.take pos ++ s.drop (pos + pat.length))
termination_by s.length
decreasing_by
  have := find_le _h
  have := List.length_pos_iff.2 hpat
  simp only [List.length_append, List.length_take, List.length_drop]
  omega

def optimizeKeyword (raw : Str) : Str :=
  let result := raw.filter fun c => c ∉ [32, 9, 45, 95]
  let result := eraseAll [0xC2, 0xB7] (by simp) result
  let result := eraseAll [0xE2, 0x80, 0x94] (by simp) result
  if result = [] then raw else result

structure Item where
  name : Str
  result : Str
  link : Str
  title : Str

/-- A request that has been sent, with the keyword and the clock reading it was made from. -/
structure Sent where
  keyword : Str
  now : ℤ
  url : Str

def searchUrl : Str := lit "https://api.bilibili.com/x/web-interface/wbi/search/all/v2?"

def searchParams (keyword : Str) : OrdMap Str Str :=
  .ofList [(lit "keyword", keyword), (lit "page", lit "1"), (lit "pagesize", lit "20")]

/-- `best` is what the reply is read as, `none` where the search fails. -/
def searchSingle (MD5 : Str → Fin 16 → Byte) (c : BilibiliClient) (now : ℤ) (best : Option (Str × Str))
    (keyword : Str) : Option (Item × Sent) := do
  let signedParams ← c.signWbiParams MD5 now (searchParams keyword)
  let url := signedParams.entries.foldl
    (fun url p => url ++ p.1 ++ lit "=" ++ urlEncodeWbi p.2 ++ lit "&") searchUrl
  let item : Item := match best with
    | some (link, title) => { name := keyword, result := lit "成功", link, title }
    | none => { name := keyword, result := lit "失败", link := [], title := [] }
  some (item, { keyword, now, url := url.dropLast })

def isTrimmed (c : Byte) : Bool := c = 32 || c = 9 || c = 13 || c = 10

/-- `kws`. -/
def splitKeywords (keywords : Str) : List Str :=
  ((getlines 44 keywords).map fun token => (token.dropWhile isTrimmed).rdropWhile isTrimmed).filter (· ≠ [])

section

variable (MD5 : Str → Fin 16 → Byte) (clock : ℕ → ℤ) (replies : ℕ → Option (Str × Str))

/-- One request behind those already sent, at its clock reading and with its reply. -/
def request (c : BilibiliClient) (keyword : Str) (sent : List Sent) : Option (Item × List Sent) := do
  let (item, s) ← c.searchSingle MD5 (clock sent.length) (replies sent.length) keyword
  some (item, sent ++ [s])

/-- One round of the loop in `search`. -/
def searchKeyword (c : BilibiliClient) (kw : Str) (sent : List Sent) : Option (Item × List Sent) := do
  let optimized := optimizeKeyword kw
  let (item, sent) ← c.request MD5 clock replies optimized sent
  let (item, sent) ← if item.link = [] ∧ optimized ≠ kw then c.request MD5 clock replies kw sent
    else some (item, sent)
  some ({ item with name := kw }, sent)

/-- The results, and the requests sent for them. -/
def search (c : BilibiliClient) (keywords : Str) : Option (List Item × List Sent) :=
  if c.initialized = false then some ([], [])
  else (splitKeywords keywords).foldlM (fun (results, sent) kw => do
    let (item, sent) ← c.searchKeyword MD5 clock replies kw sent
    some (results ++ [item], sent)) ([], [])

end

/-! ## The two loops -/

/-- One pair of a query. -/
def pairText (p : Str × Str) : Str := p.1 ++ lit "=" ++ urlEncodeWbi p.2

/-- Names that are not split, and no value that is skipped. -/
def Clean (m : OrdMap Str Str) : Prop := ∀ p ∈ m.entries, 38 ∉ p.1 ∧ 61 ∉ p.1 ∧ p.2 ≠ []

theorem clean_insert {m : OrdMap Str Str} (h : Clean m) {k v : Str} (hand : 38 ∉ k) (heq : 61 ∉ k)
    (hv : v ≠ []) : Clean (m.insert k v) := by
  intro p hp
  rcases OrdMap.mem_insert hp with rfl | hp
  · exact ⟨hand, heq, hv⟩
  · exact h p hp

theorem urlEncodeWbi_plain (s : Str) : 38 ∉ urlEncodeWbi s := by
  intro h
  rcases Response.mem_urlEncode h with h | h <;> exact absurd h (by decide)

theorem pairText_ne_nil (p : Str × Str) : pairText p ≠ [] := by
  have heq : lit "=" = [61] := by decide
  simp [pairText, heq]

theorem pairText_plain {p : Str × Str} (h : 38 ∉ p.1) : 38 ∉ pairText p := by
  have heq : lit "=" = [61] := by decide
  rw [pairText, heq, List.mem_append, List.mem_append, not_or, not_or]
  exact ⟨⟨h, by decide⟩, urlEncodeWbi_plain p.2⟩

/-- Without empty values the string that is hashed is all the pairs, with `&` between them. -/
theorem qs_eq {m : OrdMap Str Str} (h : Clean m) : qs m = [38].intercalate (m.entries.map pairText) := by
  have hamp : lit "&" = [38] := by decide
  have hstep : ∀ (es : List (Str × Str)) (acc : Str), (∀ p ∈ es, p.2 ≠ []) → acc ≠ [] →
      es.foldl (fun qs p => if p.2 = [] then qs
        else (if qs = [] then qs else qs ++ lit "&") ++ p.1 ++ lit "=" ++ urlEncodeWbi p.2) acc =
      acc ++ (es.map pairText).flatMap (38 :: ·) := by
    intro es
    induction es with
    | nil => simp
    | cons p es ih =>
      intro acc hvalues hacc
      obtain ⟨hp, hes⟩ := List.forall_mem_cons.1 hvalues
      rw [List.foldl_cons, if_neg hp, if_neg hacc, ih _ hes (by simp [hacc]), hamp]
      simp [pairText]
  unfold qs
  cases hes : m.entries with
  | nil => rfl
  | cons p es =>
    have hvalues : ∀ p ∈ m.entries, p.2 ≠ [] := fun p hp => (h p hp).2.2
    rw [hes] at hvalues
    obtain ⟨hp, hvalues⟩ := List.forall_mem_cons.1 hvalues
    have hfirst : p.1 ++ lit "=" ++ urlEncodeWbi p.2 = pairText p := rfl
    rw [List.foldl_cons, if_neg hp, if_pos rfl, List.nil_append, hfirst,
      hstep es _ hvalues (pairText_ne_nil p), List.map_cons, intercalate_cons]

/-- The URL has all the pairs, and its last `&` is removed. -/
theorem url_eq (es : List (Str × Str)) (hne : es ≠ []) :
    (es.foldl (fun url p => url ++ p.1 ++ lit "=" ++ urlEncodeWbi p.2 ++ lit "&") searchUrl).dropLast =
      searchUrl ++ [38].intercalate (es.map pairText) := by
  have hamp : lit "&" = [38] := by decide
  have hstep : ∀ (es : List (Str × Str)) (acc : Str),
      es.foldl (fun url p => url ++ p.1 ++ lit "=" ++ urlEncodeWbi p.2 ++ lit "&") acc =
        acc ++ (es.map pairText).flatMap (· ++ [38]) := by
    intro es
    induction es with
    | nil => simp
    | cons p es ih =>
      intro acc
      rw [List.foldl_cons, ih, hamp]
      simp [pairText]
  obtain ⟨p, es, rfl⟩ := List.exists_cons_of_ne_nil hne
  rw [hstep, List.map_cons, flatMap_sep, ← List.append_assoc, List.dropLast_concat]

/-! ## The pair that is removed -/

/-- A query without the pairs of a name. -/
def removePair (name query : Str) : Str :=
  [38].intercalate ((query.splitOn 38).filter fun pair => ¬ name ++ [61] <+: pair)

theorem splitOn_pairs {m : OrdMap Str Str} (h : Clean m) (hne : m.entries ≠ []) :
    ([38].intercalate (m.entries.map pairText)).splitOn 38 = m.entries.map pairText := by
  refine List.splitOn_intercalate 38 (fun l hl => ?_) (by simpa using hne)
  obtain ⟨p, hp, rfl⟩ := List.mem_map.1 hl
  exact pairText_plain (h p hp).1

/-- A pair begins with the name exactly when it is the name's. -/
theorem prefix_pairText {name : Str} {p : Str × Str} (hname : 61 ∉ name) (hp : 61 ∉ p.1) :
    name ++ [61] <+: pairText p ↔ p.1 = name := by
  have heq : lit "=" = [61] := by decide
  rw [pairText, heq]
  constructor
  · rintro ⟨t, ht⟩
    have hsplit : name ++ 61 :: t = p.1 ++ 61 :: urlEncodeWbi p.2 := by simpa using ht
    have hlen := find_byte hname t
    rw [hsplit, find_byte hp] at hlen
    exact (List.append_inj hsplit (Option.some.inj hlen).symm).1.symm
  · rintro rfl
    exact List.prefix_append _ _

/-- Removing the pair of an inserted name gives the query without it. -/
theorem removePair_insert {m : OrdMap Str Str} (h : Clean m) {name value : Str} (hand : 38 ∉ name)
    (heq : 61 ∉ name) (hvalue : value ≠ []) (hnew : ∀ p ∈ m.entries, p.1 ≠ name) :
    removePair name ([38].intercalate ((m.insert name value).entries.map pairText)) = qs m := by
  have hclean := clean_insert h hand heq hvalue
  have hne : (m.insert name value).entries ≠ [] := by
    have hget : (m.insert name value).get name = some value := by rw [OrdMap.get_insert, if_pos rfl]
    exact List.ne_nil_of_mem (OrdMap.get_eq_some_iff.1 hget)
  have hfilter : (m.insert name value).entries.filter (fun p => decide (¬ name ++ [61] <+: pairText p)) =
      m.entries := by
    rw [OrdMap.filter_insert (fun v => by simpa using (prefix_pairText (p := (name, v)) heq heq).2 rfl)]
    refine List.filter_eq_self.2 fun p hp => ?_
    rw [decide_eq_true_eq, prefix_pairText heq (h p hp).2.1]
    exact hnew p hp
  unfold removePair
  rw [splitOn_pairs hclean hne, List.filter_map]
  exact (congrArg (fun es => [38].intercalate (es.map pairText)) hfilter).trans (qs_eq h).symm

/-! ## Keywords -/

theorem optimizeKeyword_ne_nil {raw : Str} (h : raw ≠ []) : optimizeKeyword raw ≠ [] := by
  unfold optimizeKeyword
  dsimp only
  split_ifs with hempty
  · exact h
  · exact hempty

theorem splitKeywords_ne_nil {keywords kw : Str} (h : kw ∈ splitKeywords keywords) : kw ≠ [] := by
  simpa using (List.mem_filter.1 h).2

/-! ## The requests -/

/-- The string `qs` that was hashed for a request. -/
def Sent.qs (s : Sent) : Str :=
  BilibiliClient.qs ((searchParams s.keyword).insert (lit "wts") (decInt s.now))

/-- The query of the request is what was hashed for it, with the hash as one more pair. -/
def Signed (MD5 : Str → Fin 16 → Byte) (c : BilibiliClient) (s : Sent) : Prop :=
  ∃ mixinKey query, c.mixinKey = some mixinKey ∧ s.url = searchUrl ++ query ∧
    removePair (lit "w_rid") query = s.qs ∧
    lit "w_rid=" ++ md5Hex MD5 (s.qs ++ mixinKey) ∈ query.splitOn 38

variable {MD5 : Str → Fin 16 → Byte} {c : BilibiliClient}

/-- The digits of a hash stay as they are in a query. -/
theorem urlEncodeWbi_md5Hex (input : Str) : urlEncodeWbi (md5Hex MD5 input) = md5Hex MD5 input := by
  have hdigit : ∀ n : Byte, n < 16 → Response.isUnreserved (hexDigit n) = true := by
    intro n hn
    have hall : ∀ m < 16, Response.isUnreserved (hexDigit (.ofNat m)) = true := by decide
    simpa using hall n.toNat (UInt8.lt_iff_toNat_lt.1 hn)
  have hplain : ∀ s : Str, (∀ b ∈ s, Response.isUnreserved b = true) → urlEncodeWbi s = s := by
    intro s hs
    unfold urlEncodeWbi Response.urlEncodeUtf8
    induction s with
    | nil => rfl
    | cons b s ih =>
      obtain ⟨hb, hs⟩ := List.forall_mem_cons.1 hs
      rw [List.flatMap_cons, if_pos hb, ih hs, List.singleton_append]
  refine hplain _ fun b hb => ?_
  obtain ⟨d, -, hd⟩ := List.mem_flatMap.1 hb
  simp only [List.mem_cons, List.not_mem_nil, or_false] at hd
  rcases hd with rfl | rfl
  · exact hdigit _ (nibbles d).1
  · exact hdigit _ (nibbles d).2

theorem md5Hex_ne_nil (input : Str) : md5Hex MD5 input ≠ [] := by
  simp [md5Hex, List.ofFn_succ]

theorem decInt_ne_nil (n : ℤ) : decInt n ≠ [] := by
  cases n with
  | ofNat n => exact dec_ne_nil n
  | negSucc n => exact List.cons_ne_nil _ _

theorem clean_searchParams {keyword : Str} (h : keyword ≠ []) (now : ℤ) :
    Clean ((searchParams keyword).insert (lit "wts") (decInt now)) := by
  have hempty : Clean .empty := fun p hp => by cases hp
  have hkeyword := clean_insert hempty (k := lit "keyword") (by decide) (by decide) h
  have hpage := clean_insert hkeyword (k := lit "page") (v := lit "1") (by decide) (by decide) (by decide)
  have hsize := clean_insert hpage (k := lit "pagesize") (v := lit "20") (by decide) (by decide) (by decide)
  exact clean_insert hsize (by decide) (by decide) (decInt_ne_nil now)

theorem searchParams_keys {keyword : Str} {now : ℤ} {p : Str × Str}
    (h : p ∈ ((searchParams keyword).insert (lit "wts") (decInt now)).entries) : p.1 ≠ lit "w_rid" := by
  rcases OrdMap.mem_insert h with rfl | h
  · exact (by decide : lit "wts" ≠ lit "w_rid")
  rcases OrdMap.mem_insert h with rfl | h
  · exact (by decide : lit "pagesize" ≠ lit "w_rid")
  rcases OrdMap.mem_insert h with rfl | h
  · exact (by decide : lit "page" ≠ lit "w_rid")
  rcases OrdMap.mem_insert h with rfl | h
  · exact (by decide : lit "keyword" ≠ lit "w_rid")
  · cases h

/-- Keys that are long enough are mixed. -/
theorem mixinKey_some (hkeys : ∀ i ∈ MIXIN_KEY_ENC_TAB, i < (c.imgKey ++ c.subKey).length) :
    ∃ mixinKey, c.mixinKey = some mixinKey := by
  have hmap : ∀ l : List ℕ, (∀ i ∈ l, i < (c.imgKey ++ c.subKey).length) →
      ∃ key, l.mapM (fun i => (c.imgKey ++ c.subKey ++ [0])[i]?) = some key := by
    intro l
    induction l with
    | nil => exact fun _ => ⟨[], rfl⟩
    | cons i l ih =>
      intro hl
      obtain ⟨hi, hl⟩ := List.forall_mem_cons.1 hl
      obtain ⟨key, hkey⟩ := ih hl
      exact ⟨_ :: key, by rw [List.mapM_cons, List.getElem?_append_left hi, List.getElem?_eq_getElem hi, hkey]; rfl⟩
  exact hmap _ hkeys

/-- A request sends the parameters it has signed. -/
theorem searchSingle_some {keyword : Str} {now : ℤ} {signedParams : OrdMap Str Str}
    (h : c.signWbiParams MD5 now (searchParams keyword) = some signedParams) (best : Option (Str × Str)) :
    ∃ item, c.searchSingle MD5 now best keyword = some (item, { keyword, now, url :=
      (signedParams.entries.foldl
        (fun url p => url ++ p.1 ++ lit "=" ++ urlEncodeWbi p.2 ++ lit "&") searchUrl).dropLast }) := by
  unfold searchSingle
  rw [h]
  exact ⟨_, rfl⟩

/-- A pair for the hash of a query is found in it and can be removed from it again. -/
theorem signed_query {m : OrdMap Str Str} (h : Clean m) (hnew : ∀ p ∈ m.entries, p.1 ≠ lit "w_rid")
    (input : Str) :
    ∃ query, ((m.insert (lit "w_rid") (md5Hex MD5 input)).entries.foldl
          (fun url p => url ++ p.1 ++ lit "=" ++ urlEncodeWbi p.2 ++ lit "&") searchUrl).dropLast =
        searchUrl ++ query ∧
      removePair (lit "w_rid") query = qs m ∧ lit "w_rid=" ++ md5Hex MD5 input ∈ query.splitOn 38 := by
  have hmem : (lit "w_rid", md5Hex MD5 input) ∈ (m.insert (lit "w_rid") (md5Hex MD5 input)).entries :=
    OrdMap.get_eq_some_iff.1 (by rw [OrdMap.get_insert, if_pos rfl])
  have hand : 38 ∉ lit "w_rid" := by decide
  have heq : 61 ∉ lit "w_rid" := by decide
  have hclean := clean_insert h hand heq (@md5Hex_ne_nil MD5 input)
  refine ⟨_, url_eq _ (List.ne_nil_of_mem hmem), removePair_insert h hand heq (md5Hex_ne_nil _) hnew, ?_⟩
  rw [splitOn_pairs hclean (List.ne_nil_of_mem hmem)]
  refine List.mem_map.2 ⟨_, hmem, ?_⟩
  have hname : lit "w_rid=" = lit "w_rid" ++ lit "=" := by decide
  rw [pairText, urlEncodeWbi_md5Hex, hname]

/-- One request: a keyword that is not empty is sent as it was hashed. -/
theorem searchSingle_signed {mixinKey : Str} (hkey : c.mixinKey = some mixinKey) {keyword : Str}
    (h : keyword ≠ []) (now : ℤ) (best : Option (Str × Str)) :
    ∃ item s, c.searchSingle MD5 now best keyword = some (item, s) ∧ Signed MD5 c s := by
  have hsign : c.signWbiParams MD5 now (searchParams keyword) =
      some (((searchParams keyword).insert (lit "wts") (decInt now)).insert (lit "w_rid")
        (md5Hex MD5 (qs ((searchParams keyword).insert (lit "wts") (decInt now)) ++ mixinKey))) := by
    unfold signWbiParams
    rw [hkey]
    rfl
  obtain ⟨item, hitem⟩ := searchSingle_some hsign best
  obtain ⟨query, hurl, hremove, hmem⟩ := @signed_query MD5 _ (clean_searchParams h now)
    (fun p hp => searchParams_keys hp)
    (qs ((searchParams keyword).insert (lit "wts") (decInt now)) ++ mixinKey)
  refine ⟨item, _, hitem, mixinKey, query, hkey, ?_, hremove, hmem⟩
  dsimp only
  exact hurl

section

variable (clock : ℕ → ℤ) (replies : ℕ → Option (Str × Str)) {mixinKey : Str}

theorem request_signed (hkey : c.mixinKey = some mixinKey) {keyword : Str} (h : keyword ≠ [])
    {sent : List Sent} (hsent : ∀ s ∈ sent, Signed MD5 c s) :
    ∃ item sent', c.request MD5 clock replies keyword sent = some (item, sent') ∧
      ∀ s ∈ sent', Signed MD5 c s := by
  obtain ⟨item, s, hsingle, hs⟩ :=
    searchSingle_signed hkey h (clock sent.length) (replies sent.length)
  refine ⟨item, sent ++ [s], by rw [request, hsingle]; rfl, ?_⟩
  intro s' hs'
  rcases List.mem_append.1 hs' with hs' | hs'
  · exact hsent s' hs'
  · rwa [List.mem_singleton.1 hs']

/-- One round sends one request, or a second one with the keyword as it was given. -/
theorem searchKeyword_signed (hkey : c.mixinKey = some mixinKey) {kw : Str} (h : kw ≠ [])
    {sent : List Sent} (hsent : ∀ s ∈ sent, Signed MD5 c s) :
    ∃ item sent', c.searchKeyword MD5 clock replies kw sent = some (item, sent') ∧
      ∀ s ∈ sent', Signed MD5 c s := by
  obtain ⟨item, sent₁, hfirst, hsent₁⟩ := request_signed clock replies hkey (optimizeKeyword_ne_nil h) hsent
  obtain ⟨item', sent₂, hsecond, hsent₂⟩ := request_signed clock replies hkey h hsent₁
  by_cases hretry : item.link = [] ∧ optimizeKeyword kw ≠ kw
  · refine ⟨{ item' with name := kw }, sent₂, ?_, hsent₂⟩
    unfold searchKeyword
    simp only [hfirst, Option.bind_eq_bind, Option.bind_some, if_pos hretry, hsecond]
  · refine ⟨{ item with name := kw }, sent₁, ?_, hsent₁⟩
    unfold searchKeyword
    simp only [hfirst, Option.bind_eq_bind, Option.bind_some, if_neg hretry]

end

/-- **Signed and sent parameters agree.** -/
theorem search_signed (MD5 : Str → Fin 16 → Byte) {c : BilibiliClient}
    (hkeys : ∀ i ∈ MIXIN_KEY_ENC_TAB, i < (c.imgKey ++ c.subKey).length) (clock : ℕ → ℤ)
    (replies : ℕ → Option (Str × Str)) (keywords : Str) :
    ∃ results sent, c.search MD5 clock replies keywords = some (results, sent) ∧
      ∀ s ∈ sent, Signed MD5 c s := by
  obtain ⟨mixinKey, hkey⟩ := mixinKey_some hkeys
  have hrun : ∀ (kws : List Str) (results : List Item) (sent : List Sent), (∀ kw ∈ kws, kw ≠ []) →
      (∀ s ∈ sent, Signed MD5 c s) → ∃ results' sent',
        kws.foldlM (fun (results, sent) kw => do
          let (item, sent) ← c.searchKeyword MD5 clock replies kw sent
          some (results ++ [item], sent)) (results, sent) = some (results', sent') ∧
        ∀ s ∈ sent', Signed MD5 c s := by
    intro kws
    induction kws with
    | nil => exact fun results sent _ hsent => ⟨results, sent, rfl, hsent⟩
    | cons kw kws ih =>
      intro results sent hkws hsent
      obtain ⟨hkw, hkws⟩ := List.forall_mem_cons.1 hkws
      obtain ⟨item, sent', hround, hsent'⟩ := searchKeyword_signed clock replies hkey hkw hsent
      obtain ⟨results'', sent'', hrest, hsent''⟩ := ih (results ++ [item]) sent' hkws hsent'
      refine ⟨results'', sent'', ?_, hsent''⟩
      rw [List.foldlM_cons]
      dsimp only
      rw [hround]
      exact hrest
  unfold search
  split_ifs
  · exact ⟨[], [], rfl, by simp⟩
  · exact hrun _ [] [] (fun kw hkw => splitKeywords_ne_nil hkw) (by simp)

/-- The cookie and the keys the client uses when it is given none. -/
def fallbackClient : BilibiliClient where
  cookie := lit "buvid3=175-9E59-4C12-8A3A-3C76C5B6850865482infoc; " ++
    lit "buvid4=6A5E6D2E-1C78-1C42-8F6A-3D7F9C0E5B3265482;"
  imgKey := lit "7cd084941338484aae1ad9425b84077c"
  subKey := lit "4932caff0ff746eab6f01bf08b70ac45"
  initialized := true

theorem search_fallback : ∃ results sent, fallbackClient.search (fun _ _ => 0) (fun _ => 1700000000)
    (fun _ => none) (lit "a - b, c") = some (results, sent) ∧
      ∀ s ∈ sent, Signed (fun _ _ => 0) fallbackClient s :=
  search_signed (fun _ _ => 0) (by decide +kernel) (fun _ => 1700000000) (fun _ => none) (lit "a - b, c")

end BilibiliClient

end NarMusic
