/-
  The song that a search finds (`BilibiliClient::searchSingle` of
  `infrastructure/bilibili/bilibili_client.cpp`).

  Of the videos in an answer those are candidates that last at most ten minutes and have an
  identifier; the one that was played most is taken.  Every song that `search` finds is such a
  choice from an answer to a request for its keyword (`search_most_played`).
-/
import Mathlib.Data.List.MinMax
import NarMusic.Bilibili.Audio
import NarMusic.Lyrics.Krc

namespace NarMusic.BilibiliClient

open Cxx

structure Candidate where
  link : Str
  title : Str
  play : ℤ

/-- `<[^>]*>`, replaced by nothing. -/
def stripHtmlTags (html : Str) : Str := QishuiProvider.removeMarks html

/-- The runs of digits in a text; `numBuf` is the open one. -/
def digitRuns : Str → Str → List Str
  | numBuf, [] => if numBuf = [] then [] else [numBuf]
  | numBuf, c :: s =>
    if isdigit c then digitRuns (numBuf ++ [c]) s
    else if numBuf = [] then digitRuns [] s
    else numBuf :: digitRuns [] s

/-- Seconds, or `mm:ss`, or `h:mm:ss`; numbers that are too large for `int` are left out. -/
def durationText (durStr : Str) : ℤ :=
  if durStr.all isdigit then (stoi durStr).getD 0
  else
    match (digitRuns [] durStr).filterMap stoi with
    | [m, s] => int32 (m * 60 + s)
    | [h, m, s] => int32 (h * 3600 + m * 60 + s)
    | [s] => s
    | _ => 0

/-- `dur` -/
def duration : JsonValue → ℤ
  | .int n => int32 n
  | .float asInt _ => asInt
  | .str s => durationText (Utf8.encode s)
  | _ => 0

section
variable (truncate : ℤ → ℕ → ℤ)

/-- `play` -/
def plays (video : JsonValue) : ℤ :=
  match video.find? "play" with
  | some (.int n) => n.bmod (2 ^ 64)
  | some (.float asInt asSize) => truncate asInt asSize
  | some (.str s) => (stoll (Utf8.encode s)).getD 0
  | _ => 0

def videoUrl : Str := lit "https://www.bilibili.com/video/"

def titleOf (video : JsonValue) : Str :=
  match video.find? "title" with
  | some (.str title) => stripHtmlTags (Utf8.encode title)
  | _ => []

/-- One round of the loop over the videos. -/
def candidate (video : JsonValue) : Except Exn (Option Candidate) :=
  match video.find? "duration" with
  | none => .ok none
  | some d =>
    if duration d ≤ 0 ∨ 600 < duration d then .ok none
    else
      match video.find? "bvid" with
      | none | some .null => .ok none
      | some bvid => do
        let bvid ← bvid.getString
        return some { link := videoUrl ++ bvid, title := titleOf video, play := plays truncate video }

/-- One round of the loop over the results. -/
def itemCandidates (resultItem : JsonValue) : Except Exn (List Candidate) := do
  let type ← resultItem.stringOr "result_type"
  if type ≠ lit "video" then return []
  else
    match resultItem.find? "data" with
    | none => return []
    | some data => return (← data.elements.mapM (candidate truncate)).filterMap id

/-- `value("code", -1)` -/
def codeOf : JsonValue → Except Exn ℤ := JsonValue.value JsonValue.getInt "code" (-1)

/-- The candidates of an answer. -/
def candidates (j : JsonValue) : Except Exn (List Candidate) := do
  let code ← codeOf j
  if code ≠ 0 then return []
  else
    match j.find? "data" >>= JsonValue.find? "result" with
    | none => return []
    | some result => return (← result.elements.mapM (itemCandidates truncate)).flatten

/-- The front of the sorted candidates; `tie` says which one of those with as many plays. -/
def choose (tie : ℕ) (cs : List Candidate) : Option Candidate :=
  let top := cs.filter fun c => cs.all fun other => other.play ≤ c.play
  top[tie % top.length]?

/-- What `searchSingle` makes of an answer. -/
def best (parse : Str → Except Exn JsonValue) (tie : ℕ) (resp : HttpResponse) : Option (Str × Str) :=
  if resp.success = false ∨ resp.body = [] then none
  else
    match parse resp.body >>= candidates truncate with
    | .ok cs => (choose tie cs).map fun c => (c.link, c.title)
    | .error _ => none

end

/-! ## Titles -/

/-- No tag is left: behind a `<` there is no `>`. -/
theorem removeFrom_plain {skip : ℕ} {s a b : Str} (h : QishuiProvider.removeFrom skip s = a ++ 60 :: b) : 62 ∉ b := by
  induction s generalizing skip a with
  | nil =>
    cases skip <;> simp [QishuiProvider.removeFrom] at h
  | cons c s ih =>
    cases skip with
    | succ skip => exact ih h
    | zero =>
      rw [QishuiProvider.removeFrom] at h
      split_ifs at h with htag
      · exact ih h
      · cases a with
        | nil =>
          obtain ⟨rfl, rfl⟩ := List.cons.inj h
          intro hmem
          have hs : 62 ∈ s := (QishuiProvider.removeFrom_sublist 0 s).subset hmem
          exact htag ⟨rfl, List.contains_iff_mem.2 hs⟩
        | cons d a => exact ih (List.cons.inj h).2

/-! ## The choice -/

section
variable {truncate : ℤ → ℕ → ℤ}

/-- The video is one of an answer. -/
def Offers (j video : JsonValue) : Prop :=
  ∃ result item data, j.find? "data" >>= JsonValue.find? "result" = some result ∧ item ∈ result.elements ∧
    item.find? "result_type" = some (.str "video".toList) ∧ item.find? "data" = some data ∧ video ∈ data.elements

/-- The video is a candidate. -/
def Fits (truncate : ℤ → ℕ → ℤ) (video : JsonValue) (c : Candidate) : Prop :=
  ∃ d bvid, video.find? "duration" = some d ∧ 0 < duration d ∧ duration d ≤ 600 ∧
    video.find? "bvid" = some (.str bvid) ∧
    c = { link := videoUrl ++ Utf8.encode bvid, title := titleOf video, play := plays truncate video }

theorem candidate_iff {video : JsonValue} {c : Candidate} :
    candidate truncate video = .ok (some c) ↔ Fits truncate video c := by
  unfold candidate Fits
  cases hduration : video.find? "duration" with
  | none => simp
  | some d =>
    dsimp only
    split_ifs with hrange
    · constructor
      · nofun
      · rintro ⟨_, _, hd, h, h', -⟩
        obtain rfl := Option.some.inj hd
        omega
    · cases hbvid : video.find? "bvid" with
      | none => simp
      | some v =>
        constructor
        · intro h
          cases v with
          | str bvid =>
            obtain rfl := Option.some.inj (Except.ok.inj h)
            exact ⟨d, bvid, rfl, by omega, by omega, rfl, rfl⟩
          | _ => cases h
        · rintro ⟨_, bvid, _, -, -, hb, rfl⟩
          obtain rfl := Option.some.inj hb
          rfl

theorem stringOr_video {item : JsonValue} :
    item.stringOr "result_type" = .ok (lit "video") ↔ item.find? "result_type" = some (.str "video".toList) := by
  have hlit : lit "video" = Utf8.encode "video".toList := rfl
  cases item with
  | obj members =>
    rw [JsonValue.stringOr, JsonValue.value, JsonValue.find?]
    cases members.lookup "result_type" with
    | none =>
      constructor
      · intro h
        exact absurd (Except.ok.inj h) (by decide)
      · intro h
        cases h
    | some v =>
      dsimp only
      rw [JsonValue.getString_eq_ok, hlit]
      constructor
      · rintro ⟨cs, rfl, hcs⟩
        rw [Utf8.encode_inj.1 hcs]
      · intro h
        obtain rfl := Option.some.inj h
        exact ⟨_, rfl, rfl⟩
  | _ =>
    constructor
    · intro h
      cases h
    · intro h
      cases h

theorem mem_itemCandidates {item : JsonValue} {cs : List Candidate} (h : itemCandidates truncate item = .ok cs)
    {c : Candidate} : c ∈ cs ↔ item.find? "result_type" = some (.str "video".toList) ∧
      ∃ data, item.find? "data" = some data ∧ ∃ video ∈ data.elements, Fits truncate video c := by
  unfold itemCandidates at h
  rw [Except.bind_eq_ok] at h
  obtain ⟨type, htype, h⟩ := h
  split_ifs at h with hvideo
  · obtain rfl := Except.ok.inj h
    constructor
    · nofun
    · rintro ⟨hitem, -⟩
      exact absurd (Except.ok.inj (htype.symm.trans (stringOr_video.2 hitem))) hvideo
  · rw [not_not] at hvideo
    rw [← stringOr_video, htype, hvideo]
    cases hdata : item.find? "data" with
    | none =>
      rw [hdata] at h
      obtain rfl := Except.ok.inj h
      simp
    | some data =>
      rw [hdata] at h
      obtain ⟨found, hfound, h⟩ := Except.bind_eq_ok.1 h
      obtain rfl := Except.ok.inj h
      simp only [true_and, Option.some.injEq, exists_eq_left']
      rw [List.mem_filterMap]
      constructor
      · rintro ⟨_, hmem, rfl⟩
        obtain ⟨video, hvideo, hcandidate⟩ := (Except.mem_mapM hfound).1 hmem
        exact ⟨video, hvideo, candidate_iff.1 hcandidate⟩
      · rintro ⟨video, hvideo, hfits⟩
        exact ⟨some c, (Except.mem_mapM hfound).2 ⟨video, hvideo, candidate_iff.2 hfits⟩, rfl⟩

/-- The candidates of an answer are the videos in it that fit. -/
theorem mem_candidates {j : JsonValue} {cs : List Candidate} (h : candidates truncate j = .ok cs) {c : Candidate} :
    c ∈ cs ↔ codeOf j = .ok 0 ∧ ∃ video, Offers j video ∧ Fits truncate video c := by
  unfold candidates at h
  rw [Except.bind_eq_ok] at h
  obtain ⟨code, hcode, h⟩ := h
  rw [hcode]
  split_ifs at h with hzero
  · obtain rfl := Except.ok.inj h
    constructor
    · nofun
    · rintro ⟨heq, -⟩
      exact absurd (Except.ok.inj heq) hzero
  · rw [not_not] at hzero
    subst hzero
    unfold Offers
    cases hresult : j.find? "data" >>= JsonValue.find? "result" with
    | none =>
      rw [hresult] at h
      obtain rfl := Except.ok.inj h
      simp
    | some result =>
      rw [hresult] at h
      obtain ⟨found, hfound, h⟩ := Except.bind_eq_ok.1 h
      obtain rfl := Except.ok.inj h
      rw [List.mem_flatten]
      constructor
      · rintro ⟨cs, hcs, hc⟩
        obtain ⟨item, hitem, hcandidates⟩ := (Except.mem_mapM hfound).1 hcs
        obtain ⟨htype, data, hdata, video, hvideo, hfits⟩ := (mem_itemCandidates hcandidates).1 hc
        exact ⟨rfl, video, ⟨result, item, data, rfl, hitem, htype, hdata, hvideo⟩, hfits⟩
      · rintro ⟨-, video, ⟨_, item, data, hr, hitem, htype, hdata, hvideo⟩, hfits⟩
        obtain rfl := Option.some.inj hr
        obtain ⟨cs, hcs, hcandidates⟩ := Except.exists_mapM hfound hitem
        exact ⟨cs, hcs, (mem_itemCandidates hcandidates).2 ⟨htype, data, hdata, video, hvideo, hfits⟩⟩

theorem choose_some {tie : ℕ} {cs : List Candidate} {c : Candidate} (h : choose tie cs = some c) :
    c ∈ cs ∧ ∀ other ∈ cs, other.play ≤ c.play := by
  obtain ⟨hmem, hall⟩ := List.mem_filter.1 (List.mem_of_getElem? h)
  rw [List.all_eq_true] at hall
  exact ⟨hmem, fun other hother => of_decide_eq_true (hall other hother)⟩

theorem choose_none {tie : ℕ} {cs : List Candidate} : choose tie cs = none ↔ cs = [] := by
  constructor
  · intro h
    by_contra hne
    -- one with the most plays is among the front ones
    obtain ⟨c, hc⟩ := Option.ne_none_iff_exists'.1 (mt List.argmax_eq_none.1 hne : cs.argmax Candidate.play ≠ none)
    have htop : c ∈ cs.filter fun c => cs.all fun other => other.play ≤ c.play := by
      refine List.mem_filter.2 ⟨List.argmax_mem hc, List.all_eq_true.2 fun other hother => decide_eq_true ?_⟩
      exact List.le_of_mem_argmax hother hc
    have hlt := Nat.mod_lt tie (List.length_pos_of_mem htop)
    have hge := List.getElem?_eq_none_iff.1 h
    omega
  · rintro rfl
    rfl

/-- The link and the title are those of a video of the answer that fits, and none of those that fit
    was played more; the title has no tag. -/
def MostPlayed (truncate : ℤ → ℕ → ℤ) (j : JsonValue) (link title : Str) : Prop :=
  ∃ video c, Offers j video ∧ Fits truncate video c ∧ c.link = link ∧ c.title = title ∧
    (∀ video' c', Offers j video' → Fits truncate video' c' → c'.play ≤ c.play) ∧
    ∀ a b, title = a ++ 60 :: b → 62 ∉ b

theorem titleOf_plain {video : JsonValue} {a b : Str} (h : titleOf video = a ++ 60 :: b) : 62 ∉ b := by
  unfold titleOf at h
  split at h
  · exact removeFrom_plain h
  · simp at h

theorem best_some {parse : Str → Except Exn JsonValue} {tie : ℕ} {resp : HttpResponse} {link title : Str}
    (h : best truncate parse tie resp = some (link, title)) :
    resp.success = true ∧ ∃ j, parse resp.body = .ok j ∧ MostPlayed truncate j link title := by
  unfold best at h
  split_ifs at h with hresp
  rw [not_or] at hresp
  split at h
  · next cs hcs =>
    obtain ⟨j, hj, hcandidates⟩ := Except.bind_eq_ok.1 hcs
    obtain ⟨c, hchoose, heq⟩ := Option.map_eq_some_iff.1 h
    obtain ⟨rfl, rfl⟩ := Prod.mk.inj heq
    obtain ⟨hmem, hmax⟩ := choose_some hchoose
    obtain ⟨hcode, video, hoffers, hfits⟩ := (mem_candidates hcandidates).1 hmem
    refine ⟨eq_true_of_ne_false hresp.1, j, hj, video, c, hoffers, hfits, rfl, rfl, fun video' c' ho hf => ?_, ?_⟩
    · exact hmax c' ((mem_candidates hcandidates).2 ⟨hcode, video', ho, hf⟩)
    · obtain ⟨d, bvid, -, -, -, -, rfl⟩ := hfits
      exact fun a b h => titleOf_plain h
  · cases h

/-- An answer that is read without an exception gives nothing only where no video fits. -/
theorem best_none {parse : Str → Except Exn JsonValue} {tie : ℕ} {resp : HttpResponse} {j : JsonValue}
    {cs : List Candidate} (hsuccess : resp.success = true) (hbody : resp.body ≠ [])
    (hj : parse resp.body = .ok j) (hcs : candidates truncate j = .ok cs) :
    best truncate parse tie resp = none ↔ ¬ (codeOf j = .ok 0 ∧ ∃ video c, Offers j video ∧ Fits truncate video c) := by
  have hread : parse resp.body >>= candidates truncate = .ok cs := Except.bind_eq_ok.2 ⟨j, hj, hcs⟩
  unfold best
  rw [if_neg (by simp [hsuccess, hbody]), hread]
  dsimp only
  rw [Option.map_eq_none_iff, choose_none, List.eq_nil_iff_forall_not_mem]
  constructor
  · rintro h ⟨hcode, video, c, hoffers, hfits⟩
    exact h c ((mem_candidates hcs).2 ⟨hcode, video, hoffers, hfits⟩)
  · intro h c hc
    obtain ⟨hcode, video, hoffers, hfits⟩ := (mem_candidates hcs).1 hc
    exact h ⟨hcode, video, c, hoffers, hfits⟩

end

/-! ## The search -/

section
variable {truncate : ℤ → ℕ → ℤ} {parse : Str → Except Exn JsonValue} {resp : ℕ → HttpResponse} {tie : ℕ → ℕ}
  {MD5 : Str → Fin 16 → Byte} {clock : ℕ → ℤ} {c : BilibiliClient}

/-- The song is a choice from the answer to one of the requests for the keyword. -/
def ChosenFor (truncate : ℤ → ℕ → ℤ) (parse : Str → Except Exn JsonValue) (resp : ℕ → HttpResponse)
    (sent : List Sent) (keyword : Str) (item : Item) : Prop :=
  ∃ k s j, sent[k]? = some s ∧ (s.keyword = keyword ∨ s.keyword = optimizeKeyword keyword) ∧
    (resp k).success = true ∧ parse (resp k).body = .ok j ∧ MostPlayed truncate j item.link item.title

theorem ChosenFor.front {sent sent' : List Sent} {keyword : Str} {item : Item}
    (h : ChosenFor truncate parse resp sent keyword item) (hsent : sent <+: sent') :
    ChosenFor truncate parse resp sent' keyword item := by
  obtain ⟨k, s, j, hk, hrest⟩ := h
  obtain ⟨more, rfl⟩ := hsent
  exact ⟨k, s, j, by rw [List.getElem?_append_left (List.getElem?_eq_some_iff.1 hk).1, hk], hrest⟩

/-- One request. -/
theorem request_chosen {keyword kw : Str} {sent sent' : List Sent} {item : Item}
    (h : c.request MD5 clock (fun k => best truncate parse (tie k) (resp k)) keyword sent = some (item, sent'))
    (hkw : keyword = kw ∨ keyword = optimizeKeyword kw) :
    sent <+: sent' ∧ (item.link = [] ∨ ChosenFor truncate parse resp sent' kw item) := by
  obtain ⟨⟨item', s⟩, hsingle, h⟩ := Option.bind_eq_some_iff.1 h
  obtain ⟨rfl, rfl⟩ := Prod.mk.inj (Option.some.inj h)
  obtain ⟨_, -, hsingle⟩ := Option.bind_eq_some_iff.1 hsingle
  obtain ⟨hitem, rfl⟩ := Prod.mk.inj (Option.some.inj hsingle)
  refine ⟨List.prefix_append _ _, ?_⟩
  beta_reduce at hitem
  cases hbest : best truncate parse (tie sent.length) (resp sent.length) with
  | none =>
    rw [hbest] at hitem
    subst hitem
    exact Or.inl rfl
  | some found =>
    rw [hbest] at hitem
    obtain ⟨hsuccess, j, hj, hchosen⟩ := best_some hbest
    subst hitem
    exact Or.inr ⟨sent.length, _, j, List.getElem?_concat_length, hkw, hsuccess, hj, hchosen⟩

/-- One keyword, with its second request where the first has found nothing. -/
theorem searchKeyword_chosen {kw : Str} {sent sent' : List Sent} {item : Item}
    (h : c.searchKeyword MD5 clock (fun k => best truncate parse (tie k) (resp k)) kw sent = some (item, sent')) :
    sent <+: sent' ∧ item.name = kw ∧ (item.link = [] ∨ ChosenFor truncate parse resp sent' kw item) := by
  obtain ⟨⟨item₁, sent₁⟩, h₁, h⟩ := Option.bind_eq_some_iff.1 h
  obtain ⟨hsent₁, hchosen₁⟩ := request_chosen h₁ (Or.inr rfl)
  dsimp only at h
  split_ifs at h
  · obtain ⟨⟨item₂, sent₂⟩, h₂, h⟩ := Option.bind_eq_some_iff.1 h
    obtain ⟨hsent₂, hchosen₂⟩ := request_chosen h₂ (Or.inl rfl)
    obtain ⟨rfl, rfl⟩ := Prod.mk.inj (Option.some.inj h)
    exact ⟨hsent₁.trans hsent₂, rfl, hchosen₂⟩
  · obtain ⟨rfl, rfl⟩ := Prod.mk.inj (Option.some.inj h)
    exact ⟨hsent₁, rfl, hchosen₁⟩

/-- All rounds, from the results so far. -/
theorem rounds_chosen {kws : List Str} {results results' : List Item} {sent sent' : List Sent}
    (h : kws.foldlM (fun acc kw =>
      (c.searchKeyword MD5 clock (fun k => best truncate parse (tie k) (resp k)) kw acc.2).bind fun found =>
        some (acc.1 ++ [found.1], found.2)) (results, sent) = some (results', sent')) :
    sent <+: sent' ∧ ∀ item ∈ results', item ∈ results ∨ item.name ∈ kws ∧
      (item.link = [] ∨ ChosenFor truncate parse resp sent' item.name item) := by
  induction kws generalizing results sent with
  | nil =>
    obtain ⟨rfl, rfl⟩ := Prod.mk.inj (Option.some.inj h)
    exact ⟨List.prefix_rfl, fun item hitem => Or.inl hitem⟩
  | cons kw kws ih =>
    rw [List.foldlM_cons] at h
    obtain ⟨⟨results₁, sent₁⟩, hround, hrest⟩ := Option.bind_eq_some_iff.1 h
    obtain ⟨⟨found, sent₂⟩, hfound, hround⟩ := Option.bind_eq_some_iff.1 hround
    obtain ⟨rfl, rfl⟩ := Prod.mk.inj (Option.some.inj hround)
    obtain ⟨hsent, hname, hchosen⟩ := searchKeyword_chosen hfound
    obtain ⟨hsent', hitems⟩ := ih hrest
    refine ⟨hsent.trans hsent', fun item hitem => ?_⟩
    rcases hitems item hitem with hitem | ⟨hmem, hlink⟩
    · rcases List.mem_append.1 hitem with hitem | hitem
      · exact Or.inl hitem
      · obtain rfl := List.mem_singleton.1 hitem
        refine Or.inr ⟨hname ▸ List.mem_cons_self, hchosen.imp_right fun hfor => ?_⟩
        rw [hname]
        exact hfor.front hsent'
    · exact Or.inr ⟨List.mem_cons_of_mem kw hmem, hlink⟩

/-- **What a search finds.**  Every result has a keyword for its name, and where it has a link, the
    link is that of a video from an answer to a request for this keyword: one of at most ten minutes
    that no other such video of the answer was played more than. -/
theorem search_most_played (resp : ℕ → HttpResponse) (tie : ℕ → ℕ) {keywords : Str} {results : List Item} {sent : List Sent}
    (h : c.search MD5 clock (fun k => best truncate parse (tie k) (resp k)) keywords = some (results, sent)) :
    ∀ item ∈ results, item.name ∈ splitKeywords keywords ∧
      (item.link = [] ∨ ChosenFor truncate parse resp sent item.name item) := by
  unfold search at h
  split_ifs at h
  · obtain ⟨rfl, rfl⟩ := Prod.mk.inj (Option.some.inj h)
    intro item hitem
    cases hitem
  · intro item hitem
    exact ((rounds_chosen h).2 item hitem).resolve_left List.not_mem_nil

end

/-- An answer with a song of three minutes, a longer one, and one that was played less. -/
def threeVideos : JsonValue :=
  .obj [("code", .int 0), ("data", .obj [("result", .arr [.obj [("data", .arr [
    .obj [("bvid", .str "BVx".toList), ("duration", .str "3:05".toList), ("play", .int 7),
      ("title", .str "<em>a</em>b".toList)],
    .obj [("bvid", .str "BVy".toList), ("duration", .str "10:01".toList), ("play", .int 9)],
    .obj [("bvid", .str "BVz".toList), ("duration", .int 100), ("play", .str "5".toList)]]),
    ("result_type", .str "video".toList)]])])]

/-- Every request is answered with `threeVideos`. -/
def songSearch : Option (List Item × List Sent) :=
  search (fun _ _ => 0) (fun _ => 0) (fun k => best (fun n _ => n) (fun _ => .ok threeVideos) k ⟨true, lit "x"⟩)
    fallbackClient (lit "a")

theorem song_chosen : ∃ results sent, songSearch = some (results, sent) ∧
    ∀ item ∈ results, item.name ∈ splitKeywords (lit "a") ∧ (item.link = [] ∨
      ChosenFor (fun n _ => n) (fun _ => .ok threeVideos) (fun _ => ⟨true, lit "x"⟩) sent item.name item) := by
  obtain ⟨⟨results, sent⟩, h⟩ := Option.isSome_iff_exists.1 (by decide +kernel : songSearch.isSome = true)
  exact ⟨results, sent, h, search_most_played _ id h⟩

end NarMusic.BilibiliClient
