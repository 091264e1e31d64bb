/-
  Batches of searches (`SearchController::batchSearch`, search_controller.cpp).

  A task searches one keyword, and writes what it has found to its own place of a vector
  (`Lib.Pool`), so the places are right whatever the schedule is.  What a task has found is the
  first result of `BilibiliClient::search`, which splits its argument at commas: a keyword
  with a comma is searched by its first part that is not blank.

  What the server says to a request may depend on the task, on how many requests the task has
  sent before, and on the keyword it asks for.
-/
import NarMusic.Bilibili.Search
import NarMusic.Http.Router
import NarMusic.Http.UrlDecode
import NarMusic.Lib.Except
import NarMusic.Lib.JsonValue
import NarMusic.Lib.Pool

namespace NarMusic

open Cxx

/-! ## A server that answers what it is asked -/

namespace BilibiliClient

/-- A keyword without the blanks around it. -/
def trimmed (token : Str) : Str := (token.dropWhile isTrimmed).rdropWhile isTrimmed

section
variable (MD5 : Str → Fin 16 → Byte) (clock : ℕ → ℤ) (server : ℕ → Str → Option (Str × Str))

/-- The replies to a round: its first request asks for the optimized keyword, a second one for the
    keyword itself. -/
def replyTo (kw : Str) (first k : ℕ) : Option (Str × Str) :=
  server k (if k = first then optimizeKeyword kw else kw)

/-- `search`, with the replies of the server (`search_asked`). -/
def searchAsked (c : BilibiliClient) (keywords : Str) : Option (List Item × List Sent) :=
  if c.initialized = false then some ([], [])
  else (splitKeywords keywords).foldlM (fun (results, sent) kw => do
    let (item, sent) ← c.searchKeyword MD5 clock (replyTo server kw sent.length) kw sent
    some (results ++ [item], sent)) ([], [])

end

variable {MD5 : Str → Fin 16 → Byte} {clock : ℕ → ℤ} {server : ℕ → Str → Option (Str × Str)}
  {c : BilibiliClient}

/-- The replies are those of the server to the keywords that have been sent. -/
def Answers (server : ℕ → Str → Option (Str × Str)) (replies : ℕ → Option (Str × Str)) (sent : List Sent) : Prop :=
  ∀ k s, sent[k]? = some s → replies k = server k s.keyword

theorem Answers.front {replies : ℕ → Option (Str × Str)} {sent sent' : List Sent}
    (h : Answers server replies sent') (hfront : sent <+: sent') : Answers server replies sent := by
  intro k s hs
  refine h k s ?_
  obtain ⟨back, rfl⟩ := hfront
  rw [List.getElem?_append_left (List.getElem?_eq_some_iff.1 hs).1]
  exact hs

theorem request_congr {replies replies' : ℕ → Option (Str × Str)} (keyword : Str) {sent : List Sent}
    (h : replies sent.length = replies' sent.length) :
    c.request MD5 clock replies keyword sent = c.request MD5 clock replies' keyword sent := by
  rw [request, request, h]

theorem request_sent {replies : ℕ → Option (Str × Str)} {keyword : Str} {sent sent' : List Sent} {item : Item}
    (h : c.request MD5 clock replies keyword sent = some (item, sent')) :
    ∃ s, sent' = sent ++ [s] ∧ s.keyword = keyword := by
  obtain ⟨⟨item', s⟩, hsingle, h⟩ := Option.bind_eq_some_iff.1 h
  obtain ⟨_, -, hsingle⟩ := Option.bind_eq_some_iff.1 hsingle
  obtain ⟨-, rfl⟩ := Prod.mk.inj (Option.some.inj hsingle)
  exact ⟨_, (Prod.mk.inj (Option.some.inj h)).2.symm, rfl⟩

/-- The request for a keyword has the reply of the server. -/
theorem request_asked {replies : ℕ → Option (Str × Str)} {keyword : Str} {sent sent' : List Sent} {item : Item}
    (h : c.request MD5 clock (fun k => server k keyword) keyword sent = some (item, sent'))
    (hreplies : Answers server replies sent') :
    c.request MD5 clock replies keyword sent = some (item, sent') := by
  obtain ⟨s, rfl, hs⟩ := request_sent h
  rw [← h]
  refine request_congr keyword ?_
  rw [hreplies sent.length s (by simp), hs]

/-- One round. -/
theorem searchKeyword_asked {kw : Str} {sent sent' : List Sent} {item : Item}
    (h : c.searchKeyword MD5 clock (replyTo server kw sent.length) kw sent = some (item, sent')) :
    sent <+: sent' ∧ ∀ replies, Answers server replies sent' →
      c.searchKeyword MD5 clock replies kw sent = some (item, sent') := by
  unfold searchKeyword at h ⊢
  obtain ⟨⟨item₁, sent₁⟩, h₁, h⟩ := Option.bind_eq_some_iff.1 h
  obtain ⟨s₁, rfl, hs₁⟩ := request_sent h₁
  have hfirst : ∀ replies, Answers server replies (sent ++ [s₁]) →
      c.request MD5 clock replies (optimizeKeyword kw) sent = some (item₁, sent ++ [s₁]) := by
    intro replies hreplies
    refine request_asked ?_ hreplies
    rw [← h₁]
    exact request_congr _ (by simp [replyTo])
  dsimp only at h
  split_ifs at h with hretry
  · obtain ⟨⟨item₂, sent₂⟩, h₂, h⟩ := Option.bind_eq_some_iff.1 h
    obtain ⟨s₂, rfl, hs₂⟩ := request_sent h₂
    obtain ⟨rfl, rfl⟩ := Prod.mk.inj (Option.some.inj h)
    refine ⟨⟨[s₁, s₂], by simp⟩, fun replies hreplies => ?_⟩
    have hsecond : c.request MD5 clock replies kw (sent ++ [s₁]) = some (item₂, sent ++ [s₁] ++ [s₂]) := by
      refine request_asked ?_ hreplies
      rw [← h₂]
      exact request_congr _ (by simp [replyTo])
    simp only [hfirst replies (hreplies.front (List.prefix_append _ _)), Option.bind_eq_bind, Option.bind_some,
      if_pos hretry, hsecond]
  · obtain ⟨rfl, rfl⟩ := Prod.mk.inj (Option.some.inj h)
    refine ⟨List.prefix_append _ _, fun replies hreplies => ?_⟩
    simp only [hfirst replies hreplies, Option.bind_eq_bind, Option.bind_some, if_neg hretry]

/-- A run of rounds keeps the results that are there. -/
theorem rounds_front (round : Str → List Sent → Option (Item × List Sent)) {kws : List Str}
    {results results' : List Item} {sent sent' : List Sent}
    (h : kws.foldlM (fun (results, sent) kw => do
      let (item, sent) ← round kw sent
      some (results ++ [item], sent)) (results, sent) = some (results', sent')) : results <+: results' := by
  induction kws generalizing results sent with
  | nil =>
    obtain ⟨rfl, -⟩ := Prod.mk.inj (Option.some.inj h)
    exact List.prefix_rfl
  | cons kw kws ih =>
    rw [List.foldlM_cons] at h
    obtain ⟨⟨results₁, sent₁⟩, hround, hrest⟩ := Option.bind_eq_some_iff.1 h
    obtain ⟨_, -, hround⟩ := Option.bind_eq_some_iff.1 hround
    obtain ⟨rfl, rfl⟩ := Prod.mk.inj (Option.some.inj hround)
    exact (List.prefix_append _ _).trans (ih hrest)

/-- **The search that is answered by the server** is `search` with the replies to what it has sent. -/
theorem search_asked {keywords : Str} {results : List Item} {sent : List Sent}
    (h : c.searchAsked MD5 clock server keywords = some (results, sent)) :
    c.search MD5 clock (fun k => sent[k]?.bind fun s => server k s.keyword) keywords = some (results, sent) := by
  have hrun : ∀ (kws : List Str) (results results' : List Item) (sent sent' : List Sent),
      kws.foldlM (fun (results, sent) kw => do
        let (item, sent) ← c.searchKeyword MD5 clock (replyTo server kw sent.length) kw sent
        some (results ++ [item], sent)) (results, sent) = some (results', sent') →
      sent <+: sent' ∧ ∀ replies, Answers server replies sent' →
        kws.foldlM (fun (results, sent) kw => do
          let (item, sent) ← c.searchKeyword MD5 clock replies kw sent
          some (results ++ [item], sent)) (results, sent) = some (results', sent') := by
    intro kws
    induction kws with
    | nil =>
      intro results results' sent sent' h
      obtain ⟨rfl, rfl⟩ := Prod.mk.inj (Option.some.inj h)
      exact ⟨List.prefix_rfl, fun _ _ => rfl⟩
    | cons kw kws ih =>
      intro results results' sent sent' h
      rw [List.foldlM_cons] at h
      obtain ⟨⟨results₁, sent₁⟩, hround, hrest⟩ := Option.bind_eq_some_iff.1 h
      obtain ⟨⟨item, sent₂⟩, hitem, hround⟩ := Option.bind_eq_some_iff.1 hround
      obtain ⟨rfl, rfl⟩ := Prod.mk.inj (Option.some.inj hround)
      obtain ⟨hfront, hasked⟩ := searchKeyword_asked hitem
      obtain ⟨hfront', hasked'⟩ := ih _ _ _ _ hrest
      refine ⟨hfront.trans hfront', fun replies hreplies => ?_⟩
      rw [List.foldlM_cons]
      dsimp only
      rw [hasked replies (hreplies.front hfront')]
      exact hasked' replies hreplies
  unfold searchAsked at h
  unfold search
  split_ifs at h ⊢
  · exact h
  · exact (hrun _ _ _ _ _ h).2 _ fun k s hs => by rw [hs]; rfl

/-! ## Commas -/

theorem mem_trimmed {b : Byte} (hb : isTrimmed b = false) (token : Str) : b ∈ trimmed token ↔ b ∈ token := by
  have hdrop : ∀ l : Str, b ∈ l.dropWhile isTrimmed ↔ b ∈ l := by
    intro l
    refine ⟨fun h => (List.dropWhile_sublist _).subset h, fun h => ?_⟩
    rw [← List.takeWhile_append_dropWhile (p := isTrimmed) (l := l)] at h
    refine (List.mem_append.1 h).resolve_left fun htake => ?_
    rw [List.mem_takeWhile_imp htake] at hb
    cases hb
  rw [trimmed, List.rdropWhile, List.mem_reverse, hdrop, List.mem_reverse, hdrop]

theorem mem_eraseAll {b : Byte} {pat : Str} (hpat : pat ≠ []) (hb : b ∉ pat) (s : Str) :
    b ∈ eraseAll pat hpat s ↔ b ∈ s := by
  induction s using eraseAll.induct pat hpat with
  | case1 s h => rw [eraseAll, h]
  | case2 s pos h ih =>
    rw [eraseAll, h]
    dsimp only
    rw [ih, List.mem_append]
    obtain ⟨back, hback⟩ := (find_some h).1
    have hsplit : s = s.take pos ++ (pat ++ s.drop (pos + pat.length)) := by
      rw [← List.drop_drop, ← hback, List.drop_left' rfl, hback, List.take_append_drop]
    conv_rhs => rw [hsplit]
    simp [hb]

/-- The optimized keyword has the commas of the keyword. -/
theorem comma_optimizeKeyword (raw : Str) : 44 ∈ optimizeKeyword raw ↔ 44 ∈ raw := by
  unfold optimizeKeyword
  dsimp only
  split_ifs
  · exact Iff.rfl
  · rw [mem_eraseAll _ (by decide), mem_eraseAll _ (by decide), List.mem_filter]
    exact and_iff_left (by decide)

/-- The parts of a keyword have no comma. -/
theorem comma_splitKeywords {keywords kw : Str} (h : kw ∈ splitKeywords keywords) : 44 ∉ kw := by
  obtain ⟨token, htoken, rfl⟩ := List.mem_map.1 (List.mem_filter.1 h).1
  exact fun hmem => notMem_of_mem_getlines htoken ((mem_trimmed (by decide) token).1 hmem)

/-- A keyword without a comma is searched as a whole. -/
theorem splitKeywords_whole {keyword : Str} (hcomma : 44 ∉ keyword) (hne : trimmed keyword ≠ []) :
    splitKeywords keyword = [trimmed keyword] := by
  have hkeyword : keyword ≠ [] := by
    rintro rfl
    exact hne rfl
  unfold splitKeywords
  rw [getlines_last hcomma hkeyword]
  exact List.filter_eq_self.2 fun kw hkw => decide_eq_true (List.mem_singleton.1 hkw ▸ hne)

/-- A whole keyword is one round. -/
theorem searchAsked_whole (hready : c.initialized = true) {keyword : Str} (hcomma : 44 ∉ keyword)
    (hne : trimmed keyword ≠ []) :
    c.searchAsked MD5 clock server keyword =
      (c.searchKeyword MD5 clock (replyTo server (trimmed keyword) 0) (trimmed keyword) []).map
        fun (item, sent) => ([item], sent) := by
  unfold searchAsked
  rw [if_neg (by simp [hready]), splitKeywords_whole hcomma hne, List.foldlM_cons]
  simp only [List.length_nil, List.foldlM_nil, List.nil_append]
  cases c.searchKeyword MD5 clock (replyTo server (trimmed keyword) 0) (trimmed keyword) [] <;> rfl

end BilibiliClient

/-! ## The controller -/

namespace SearchController

open BilibiliClient

structure BatchSearchResult where
  keyword : Str := []
  link : Str := []
  title : Str := []
  found : Bool := false
  deriving DecidableEq

/-- The code and the message of a refusal, or the keywords. -/
def readKeywords (body : JsonValue) : Except Exn ((Str × Str) ⊕ List Str) :=
  match body.array "keywords" with
  | some items => do
    let keywords ← items.mapM JsonValue.getString
    if keywords = [] then return .inl (lit "empty_keywords", lit "keywords数组不能为空")
    else if 100 < keywords.length then
      return .inl (lit "too_many_keywords", lit "单次批量搜索不能超过100个关键词")
    else return .inr keywords
  | none => .ok (.inl (lit "missing_keywords", lit "keywords数组参数缺失"))

/-- What a task makes of what its search has found. -/
def firstResult (keyword : Str) : List Item → BatchSearchResult
  | first :: _ => { keyword, link := first.link, title := first.title, found := first.link ≠ [] }
  | [] => { keyword, link := [], title := [], found := false }

/-- One round of the loop over the results, which counts `foundCount` and `notFoundCount`. -/
def count (n : ℕ × ℕ) (sr : BatchSearchResult) : ℕ × ℕ := if sr.found then (n.1 + 1, n.2) else (n.1, n.2 + 1)

def counts (searchResults : List BatchSearchResult) : ℕ × ℕ := searchResults.foldl count (0, 0)

def BatchSearchResult.json (sr : BatchSearchResult) : Json :=
  .object [(lit "keyword", .str sr.keyword), (lit "link", .str sr.link), (lit "title", .str sr.title),
    (lit "found", .bool sr.found)]

def answerJson (searchResults : List BatchSearchResult) (total : ℕ) : Json :=
  .object [(lit "results", .arr (searchResults.map BatchSearchResult.json)), (lit "total", .int total),
    (lit "found", .int (counts searchResults).1), (lit "not_found", .int (counts searchResults).2)]

section
variable (MD5 : Str → Fin 16 → Byte) (clock : ℕ → ℕ → ℤ) (server : ℕ → ℕ → Str → Option (Str × Str))
  (c : BilibiliClient)

/-- The task of a position; `none` where the keys of the client are too short to be mixed. -/
def task (keywords : List Str) (i : ℕ) : Option BatchSearchResult := do
  let keyword ← keywords[i]?
  let (results, _) ← c.searchAsked MD5 (clock i) (server i) keyword
  return firstResult keyword results

/-- The pool, with the vector `searchResults` as its slots. -/
def pool (keywords : List Str) (schedule : List Pool.Event) : Pool.State (Option BatchSearchResult) :=
  Run.exec (Pool.step (min 4 keywords.length) (task MD5 clock server c keywords))
    (Pool.submitted keywords.length (some {})) schedule

/-- The `catch` block. -/
def parseError (what : Exn → Str) (e : Exn) : Except Exn Response :=
  Response.error 400 (lit "Bad Request") (lit "parse_error") (what e)

/-- What is answered when all tasks are over. -/
def respond (what : Exn → Str) (total : ℕ) (searchResults : List BatchSearchResult) : Except Exn Response :=
  match Response.json 200 (lit "OK") (answerJson searchResults total) with
  | .ok r => .ok r
  | .error e => parseError what e

/-- `none` where a task is not over, and where one has read outside the keys. -/
def batchSearch (what : Exn → Str) (parse : Str → Except Exn JsonValue) (reqBody : Str)
    (schedule : List Pool.Event) : Option (Except Exn Response) :=
  match parse reqBody >>= readKeywords with
  | .error e => some (parseError what e)
  | .ok (.inl (code, msg)) => some (Response.error 400 (lit "Bad Request") code msg)
  | .ok (.inr keywords) =>
    let done := pool MD5 clock server c keywords schedule
    if done.waiting = [] ∧ done.running = [] then
      (done.slots.mapM id).map (respond what keywords.length)
    else none

/-- `search`; `none` where the keys of the client are too short to be mixed. -/
def search (hex : ℕ → ℤ) (req : Request) : Option (Except Exn Response) :=
  let keyword := req.queryParam hex (lit "keyword")
  if keyword = [] then
    some (Response.error 400 (lit "Bad Request") (lit "missing_keyword") (lit "keyword参数缺失"))
  else (c.searchAsked MD5 (clock 0) (server 0) keyword).map fun found =>
    let first := firstResult keyword found.1
    Response.json 200 (lit "OK") (.object [(lit "keyword", .str first.keyword), (lit "link", .str first.link),
      (lit "title", .str first.title)])

/-- What searching exactly the keyword, without the blanks around it, yields. -/
def exactResult (clock : ℕ → ℤ) (server : ℕ → Str → Option (Str × Str)) (keyword : Str) :
    Option BatchSearchResult :=
  (c.searchKeyword MD5 clock (replyTo server (trimmed keyword) 0) (trimmed keyword) []).map fun (item, _) =>
    { keyword, link := item.link, title := item.title, found := item.link ≠ [] }

end

/-- Under every schedule that leaves no task, and by every server: the answer is made of the slots of
    the pool, these are what searching exactly the keywords yields, by position, and the counts add
    up. -/
def Whole (keywords : List Str) : Prop :=
  ∀ MD5 clock server c schedule, c.initialized = true → Pool.Done (pool MD5 clock server c keywords schedule) →
    (∀ what parse reqBody, parse reqBody >>= readKeywords = .ok (.inr keywords) →
      batchSearch MD5 clock server c what parse reqBody schedule =
        ((pool MD5 clock server c keywords schedule).slots.mapM id).map (respond what keywords.length)) ∧
    (pool MD5 clock server c keywords schedule).slots =
      keywords.mapIdx (fun i keyword => exactResult MD5 c (clock i) (server i) keyword) ∧
    ∀ searchResults, (pool MD5 clock server c keywords schedule).slots.mapM id = some searchResults →
      (counts searchResults).1 + (counts searchResults).2 = keywords.length

theorem counts_add (searchResults : List BatchSearchResult) :
    (counts searchResults).1 + (counts searchResults).2 = searchResults.length := by
  have hrun : ∀ (rs : List BatchSearchResult) (n : ℕ × ℕ),
      (rs.foldl count n).1 + (rs.foldl count n).2 = n.1 + n.2 + rs.length := by
    intro rs
    induction rs with
    | nil => exact fun _ => rfl
    | cons r rs ih =>
      intro n
      have hcount : (count n r).1 + (count n r).2 = n.1 + n.2 + 1 := by
        unfold count
        split_ifs
        · exact Nat.add_right_comm _ _ _
        · rfl
      rw [List.foldl_cons, ih, hcount, List.length_cons]
      omega
  simpa [counts] using hrun searchResults (0, 0)

theorem slots_length {α : Type} {slots : List (Option α)} {results : List α} (h : slots.mapM id = some results) :
    results.length = slots.length := by
  induction slots generalizing results with
  | nil =>
    obtain rfl := Option.some.inj h
    rfl
  | cons slot slots ih =>
    rw [List.mapM_cons] at h
    obtain ⟨r, -, h⟩ := Option.bind_eq_some_iff.1 h
    obtain ⟨rs, hrs, h⟩ := Option.bind_eq_some_iff.1 h
    obtain rfl := Option.some.inj h
    rw [List.length_cons, List.length_cons, ih hrs]

/-- A keyword without a comma is answered as a whole. -/
theorem task_whole {MD5 : Str → Fin 16 → Byte} {clock : ℕ → ℕ → ℤ} {server : ℕ → ℕ → Str → Option (Str × Str)}
    {c : BilibiliClient} (hready : c.initialized = true) {keywords : List Str} {i : ℕ} {keyword : Str}
    (hkeyword : keywords[i]? = some keyword) (hcomma : 44 ∉ keyword) (hblank : trimmed keyword ≠ []) :
    task MD5 clock server c keywords i = exactResult MD5 c (clock i) (server i) keyword := by
  unfold task exactResult
  rw [hkeyword]
  simp only [Option.bind_eq_bind, Option.bind_some, searchAsked_whole hready hcomma hblank]
  cases c.searchKeyword MD5 (clock i) (replyTo (server i) (trimmed keyword) 0) (trimmed keyword) [] <;> rfl

/-! ## A server that tells a comma -/

/-- The server knows only what the optimized keyword asks for. -/
def onlyKnows (keyword : Str) (_ : ℕ) (asked : Str) : Option (Str × Str) :=
  if asked = optimizeKeyword (trimmed keyword) then some ([49], []) else none

theorem request_fallback (MD5 : Str → Fin 16 → Byte) (clock : ℕ → ℤ) (replies : ℕ → Option (Str × Str))
    (keyword : Str) (sent : List Sent) :
    ∃ item s, fallbackClient.request MD5 clock replies keyword sent = some (item, sent ++ [s]) ∧
      item.link = ((replies sent.length).map Prod.fst).getD [] := by
  have hkeys : ∀ i ∈ MIXIN_KEY_ENC_TAB, i < (fallbackClient.imgKey ++ fallbackClient.subKey).length := by
    decide +kernel
  obtain ⟨mixinKey, hkey⟩ := mixinKey_some hkeys
  unfold request searchSingle signWbiParams
  cases hreply : replies sent.length <;> simp [hkey]

/-- A round that begins with a link ends with it. -/
theorem searchKeyword_found {clock : ℕ → ℤ} {replies : ℕ → Option (Str × Str)} {MD5 : Str → Fin 16 → Byte}
    {kw link title : Str} (hlink : link ≠ []) (hreply : replies 0 = some (link, title)) :
    ∃ item sent, fallbackClient.searchKeyword MD5 clock replies kw [] = some (item, sent) ∧ item.link = link := by
  obtain ⟨item, s, hrequest, hitem⟩ := request_fallback MD5 clock replies (optimizeKeyword kw) []
  have hitem : item.link = link := hitem.trans (by simp [hreply])
  refine ⟨{ item with name := kw }, [s], ?_, hitem⟩
  unfold searchKeyword
  simp only [hrequest, Option.bind_eq_bind, Option.bind_some, hitem, hlink, false_and, if_false, List.nil_append]

/-- A round without replies ends without a link. -/
theorem searchKeyword_missed {clock : ℕ → ℤ} {replies : ℕ → Option (Str × Str)} {MD5 : Str → Fin 16 → Byte}
    {kw : Str} (hreplies : ∀ k, replies k = none) (sent : List Sent) :
    ∃ item sent', fallbackClient.searchKeyword MD5 clock replies kw sent = some (item, sent') ∧
      item.link = [] := by
  obtain ⟨item₁, s₁, h₁, hitem₁⟩ := request_fallback MD5 clock replies (optimizeKeyword kw) sent
  obtain ⟨item₂, s₂, h₂, hitem₂⟩ := request_fallback MD5 clock replies kw (sent ++ [s₁])
  have hitem₁ : item₁.link = [] := hitem₁.trans (by simp [hreplies])
  have hitem₂ : item₂.link = [] := hitem₂.trans (by simp [hreplies])
  unfold searchKeyword
  by_cases hretry : item₁.link = [] ∧ optimizeKeyword kw ≠ kw
  · refine ⟨{ item₂ with name := kw }, sent ++ [s₁] ++ [s₂], ?_, hitem₂⟩
    simp only [h₁, Option.bind_eq_bind, Option.bind_some, if_pos hretry, h₂]
  · refine ⟨{ item₁ with name := kw }, sent ++ [s₁], ?_, hitem₁⟩
    simp only [h₁, Option.bind_eq_bind, Option.bind_some, if_neg hretry]

/-- The first part of a keyword with a comma asks for something else. -/
theorem searchAsked_missed {MD5 : Str → Fin 16 → Byte} {clock : ℕ → ℤ} {keyword : Str} (hcomma : 44 ∈ keyword)
    {results : List Item} {sent : List Sent}
    (h : fallbackClient.searchAsked MD5 clock (onlyKnows keyword) keyword = some (results, sent)) :
    (firstResult keyword results).link = [] := by
  have hcomma' : 44 ∈ optimizeKeyword (trimmed keyword) :=
    (comma_optimizeKeyword _).2 ((mem_trimmed (by decide) keyword).2 hcomma)
  have hmissed : ∀ kw ∈ splitKeywords keyword, ∀ first k, replyTo (onlyKnows keyword) kw first k = none := by
    intro kw hkw first k
    have hplain := comma_splitKeywords hkw
    refine if_neg fun heq => ?_
    rw [← heq] at hcomma'
    split_ifs at hcomma'
    · exact hplain ((comma_optimizeKeyword kw).1 hcomma')
    · exact hplain hcomma'
  unfold searchAsked at h
  rw [if_neg (by decide)] at h
  cases hkws : splitKeywords keyword with
  | nil =>
    rw [hkws] at h
    obtain ⟨rfl, -⟩ := Prod.mk.inj (Option.some.inj h)
    rfl
  | cons kw kws =>
    obtain ⟨item, sent₁, hitem, hlink⟩ := @searchKeyword_missed clock
      (replyTo (onlyKnows keyword) kw 0) MD5 kw (hmissed kw (hkws ▸ List.mem_cons_self) 0) []
    rw [hkws, List.foldlM_cons] at h
    obtain ⟨⟨results₁, sent₂⟩, hround, hrest⟩ := Option.bind_eq_some_iff.1 h
    simp only [List.length_nil, hitem, Option.bind_eq_bind, Option.bind_some, List.nil_append] at hround
    obtain ⟨rfl, rfl⟩ := Prod.mk.inj (Option.some.inj hround)
    obtain ⟨back, rfl⟩ := rounds_front (fun kw sent => fallbackClient.searchKeyword MD5 clock
      (replyTo (onlyKnows keyword) kw sent.length) kw sent) hrest
    exact hlink

theorem exactResult_found (MD5 : Str → Fin 16 → Byte) (clock : ℕ → ℤ) (keyword : Str) :
    ∃ r, exactResult MD5 fallbackClient clock (onlyKnows keyword) keyword = some r ∧ r.link = [49] := by
  have hreply : replyTo (onlyKnows keyword) (trimmed keyword) 0 0 = some ([49], []) := by
    unfold replyTo onlyKnows
    rw [if_pos rfl, if_pos rfl]
  obtain ⟨item, sent, hitem, hlink⟩ := @searchKeyword_found clock _ MD5 (trimmed keyword) _ _ (by simp) hreply
  refine ⟨{ keyword, link := item.link, title := item.title, found := item.link ≠ [] }, ?_, hlink⟩
  unfold exactResult
  rw [hitem]
  rfl

/-- A keyword with a comma is not answered as a whole by a server that knows it. -/
theorem comma_of_whole {keywords : List Str} (h : Whole keywords) : ∀ keyword ∈ keywords, 44 ∉ keyword := by
  intro keyword hkeyword hcomma
  obtain ⟨i, hi⟩ := List.mem_iff_getElem?.1 hkeyword
  have hthreads : 0 < min 4 keywords.length := by
    have := List.length_pos_of_mem hkeyword
    omega
  have hdone := Pool.inOrder_done hthreads
    (task (fun _ _ => 0) (fun _ _ => 0) (fun _ => onlyKnows keyword) fallbackClient keywords)
    (.range keywords.length) (.replicate keywords.length (some {}))
  have hslots := (h _ _ _ fallbackClient _ rfl hdone).2.1
  have htasks := Pool.done_slots _ _ _ hdone
  have hslot := congrArg (·[i]?) (htasks.symm.trans hslots)
  have hlt := (List.getElem?_eq_some_iff.1 hi).1
  simp only [List.getElem?_map, List.getElem?_range hlt, Option.map_some, List.getElem?_mapIdx, hi,
    Option.some.injEq] at hslot
  obtain ⟨r, hr, hlink⟩ := exactResult_found (fun _ _ => 0) (fun _ => 0) keyword
  rw [hr, task, hi] at hslot
  simp only [Option.bind_eq_bind, Option.bind_some] at hslot
  obtain ⟨⟨results, sent⟩, hsearch, hslot⟩ := Option.bind_eq_some_iff.1 hslot
  obtain rfl := Option.some.inj hslot
  rw [searchAsked_missed hcomma hsearch] at hlink
  cases hlink

/-- **Batches of searches** answer every keyword as a whole exactly when no keyword has a comma. -/
theorem whole_iff {keywords : List Str} (hblank : ∀ keyword ∈ keywords, ∃ b ∈ keyword, isTrimmed b = false) :
    Whole keywords ↔ ∀ keyword ∈ keywords, 44 ∉ keyword := by
  constructor
  · exact comma_of_whole
  · intro h MD5 clock server c schedule hready hdone
    have htasks := Pool.done_slots _ _ _ hdone
    refine ⟨fun what parse reqBody hbody => ?_, htasks.trans ?_, fun searchResults hresults => ?_⟩
    · unfold batchSearch
      rw [hbody]
      exact if_pos hdone
    · refine List.ext_getElem? fun i => ?_
      rw [List.getElem?_map, List.getElem?_mapIdx]
      cases hi : keywords[i]? with
      | none =>
        have hlen := List.getElem?_eq_none_iff.1 hi
        rw [List.getElem?_eq_none (by simpa using hlen)]
        rfl
      | some keyword =>
        have hlt := (List.getElem?_eq_some_iff.1 hi).1
        have hmem := List.mem_of_getElem? hi
        obtain ⟨b, hb, hplain⟩ := hblank keyword hmem
        rw [List.getElem?_range hlt, Option.map_some, Option.map_some,
          task_whole hready hi (h keyword hmem) (List.ne_nil_of_mem ((mem_trimmed hplain keyword).2 hb))]
    · have hlen : (pool MD5 clock server c keywords schedule).slots.length = keywords.length := by
        unfold pool
        rw [htasks, List.length_map, List.length_range]
      rw [counts_add, slots_length hresults, hlen]

theorem whole_twoSongs : Whole [lit "A", lit " B C "] := by
  refine (whole_iff fun keyword hkeyword => ?_).2 (by decide)
  simp only [List.mem_cons, List.not_mem_nil, or_false] at hkeyword
  rcases hkeyword with rfl | rfl
  · exact ⟨65, by decide, by decide⟩
  · exact ⟨66, by decide, by decide⟩

/-- A batch of `A,B`, which is searched as `A`. -/
theorem comma_not_whole : ¬ ∀ keywords : List Str, keywords ≠ [] → keywords.length ≤ 100 →
    (∀ keyword ∈ keywords, ∃ b ∈ keyword, isTrimmed b = false) → Whole keywords := by
  intro h
  have hwhole := h [lit "A,B"] (by decide) (by decide) fun keyword hkeyword =>
    ⟨65, by rw [List.mem_singleton.1 hkeyword]; decide, by decide⟩
  exact comma_of_whole hwhole _ (List.mem_singleton.2 rfl) (by decide)

end SearchController

end NarMusic
