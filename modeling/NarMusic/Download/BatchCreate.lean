/-
  Batches of downloads (`DownloadController::batchCreateTasks`,
  download_controller.cpp).

  The members of an element are read outside the `try` of the element, so an
  element of the wrong type ends the whole batch with a 400, also when tasks have
  been created for the elements before it; and so does the text of an exception
  of `createTask` that is not UTF-8, when the answer is written.
-/
import NarMusic.Download.Queue
import NarMusic.Http.Response
import NarMusic.Http.Router
import NarMusic.Lib.Except
import NarMusic.Lib.JsonValue
import NarMusic.Web.Json

namespace NarMusic.DownloadController

open Cxx Download

/-! ## Reading -/

/-- The elements of a batch, and what its body says for those that do not say it themselves. -/
structure Batch where
  tasks : List JsonValue
  defaultPlatform : Str
  defaultDelayMs : ℤ

/-- The code and the message of a refusal, or the batch. -/
def readBatch (body : JsonValue) : Except Exn ((Str × Str) ⊕ Batch) :=
  match body.array "tasks" with
  | none => .ok (.inl (lit "missing_tasks", lit "tasks数组参数缺失"))
  | some tasks =>
    if tasks = [] then .ok (.inl (lit "empty_tasks", lit "tasks数组不能为空"))
    else if 100 < tasks.length then .ok (.inl (lit "too_many_tasks", lit "单次批量下载不能超过100个任务"))
    else do
      let defaultPlatform ← body.value JsonValue.getString "platform" (lit "网易云音乐")
      let defaultDelayMs ← body.value JsonValue.getInt "offsetMs" 0
      return .inr { tasks, defaultPlatform, defaultDelayMs }

/-- What is read of an element. -/
structure TaskItem where
  req : CreateTaskRequest
  keyword : Str
  title : Str

def readTask (batch : Batch) (taskObj : JsonValue) : Except Exn TaskItem := do
  let url ← taskObj.stringOr "url"
  let url ← (if url = [] then taskObj.stringOr "content" else .ok url)
  let filename ← taskObj.stringOr "filename"
  let platform ← taskObj.value JsonValue.getString "platform" batch.defaultPlatform
  let delayMs ← taskObj.value JsonValue.getInt "offsetMs" batch.defaultDelayMs
  let keyword ← taskObj.stringOr "keyword"
  let title ← taskObj.stringOr "title"
  return { req := { url, filename, platform, delayMs }, keyword, title }

/-! ## Creating -/

/-- What comes of a call of `createTask`: two readings of the clock, or an exception and the service
    it leaves. -/
inductive Attempt where
  | returns (now created : Time)
  | throws (e : Exn) (left : Service)

def createTask (config : DownloadConfig) (attempt : Attempt) (s : Service) (req : CreateTaskRequest) :
    Except Exn Str × Service :=
  match attempt with
  | .returns now created => (.ok (taskId now s.taskCounter), Download.createTask config s now created req)
  | .throws e left => (.error e, left)

/-- `taskResult`: the id of the task, or the text of the error. -/
structure TaskResult where
  keyword : Str
  title : Str
  url : Str
  outcome : Except Str Str

def TaskResult.json (res : TaskResult) : Json :=
  match res.outcome with
  | .ok id => .object [(lit "keyword", .str res.keyword), (lit "title", .str res.title),
      (lit "url", .str res.url), (lit "success", .bool true), (lit "task_id", .str id)]
  | .error msg => .object [(lit "keyword", .str res.keyword), (lit "title", .str res.title),
      (lit "url", .str res.url), (lit "success", .bool false), (lit "error", .str msg)]

/-- Where the loop stands: the service, the variables of the loop, and the calls of `createTask` so
    far with the positions they were made for. -/
structure Progress where
  service : Service
  results : List TaskResult := []
  successCount : ℕ := 0
  failCount : ℕ := 0
  calls : List (ℕ × Except Exn Str) := []

section
variable (what : Exn → Str) (config : DownloadConfig) (attempts : ℕ → Attempt)

/-- An element that has been read. -/
def submitTask (i : ℕ) (item : TaskItem) (p : Progress) : Progress :=
  let result := TaskResult.mk item.keyword item.title item.req.url
  if item.req.url = [] then
    { p with results := p.results ++ [result (.error (lit "URL不能为空"))], failCount := p.failCount + 1 }
  else
    let (outcome, service) := createTask config (attempts i) p.service item.req
    match outcome with
    | .ok id =>
      { service, results := p.results ++ [result (.ok id)], successCount := p.successCount + 1,
        failCount := p.failCount, calls := p.calls ++ [(i, outcome)] }
    | .error e =>
      { service, results := p.results ++ [result (.error (what e))], successCount := p.successCount,
        failCount := p.failCount + 1, calls := p.calls ++ [(i, outcome)] }

/-- The loop, from position `i` on. -/
def submitAll (batch : Batch) : ℕ → List JsonValue → Stateful Progress Unit
  | _, [], p => (.ok (), p)
  | i, taskObj :: tasks, p =>
    match readTask batch taskObj with
    | .error e => (.error e, p)
    | .ok item => submitAll batch (i + 1) tasks (submitTask what config attempts i item p)

def answerJson (results : List TaskResult) (total successCount failCount : ℕ) : Json :=
  .object [(lit "results", .arr (results.map TaskResult.json)), (lit "total", .int total),
    (lit "success", .int successCount), (lit "failed", .int failCount)]

/-- The `try` block. -/
def batchBody (parse : Str → Except Exn JsonValue) (reqBody : Str) : Stateful Progress Response := fun p =>
  match parse reqBody with
  | .error e => (.error e, p)
  | .ok body =>
    match readBatch body with
    | .error e => (.error e, p)
    | .ok (.inl (code, msg)) => (Response.error 400 (lit "Bad Request") code msg, p)
    | .ok (.inr batch) =>
      match submitAll what config attempts batch 0 batch.tasks p with
      | (.error e, p) => (.error e, p)
      | (.ok _, p) =>
        (Response.json 200 (lit "OK") (answerJson p.results batch.tasks.length p.successCount p.failCount), p)

def batchCreateTasks (parse : Str → Except Exn JsonValue) (reqBody : Str) : Stateful Progress Response :=
  attempt (batchBody what config attempts parse reqBody) fun e p =>
    (Response.error 400 (lit "Bad Request") (lit "parse_error") (what e), p)

/-! ## Positions, and all or nothing -/

/-- The result is about the element. -/
def Describes (batch : Batch) (taskObj : JsonValue) (res : TaskResult) : Prop :=
  ∃ item, readTask batch taskObj = .ok item ∧ res.keyword = item.keyword ∧ res.title = item.title ∧
    res.url = item.req.url

/-- An answer 200 with a result for each element: it succeeds with an id when `createTask` has returned
    that id for the position. -/
def Positional (batch : Batch) (answer : Except Exn Response) (p : Progress) : Prop :=
  ∃ r results success failed, answer = .ok r ∧ r.status = 200 ∧
    Response.json 200 (lit "OK") (answerJson results batch.tasks.length success failed) = .ok r ∧
    results.length = batch.tasks.length ∧ success + failed = batch.tasks.length ∧
    ∀ i taskObj res, batch.tasks[i]? = some taskObj → results[i]? = some res →
      Describes batch taskObj res ∧ ∀ id, res.outcome = .ok id ↔ (i, .ok id) ∈ p.calls

/-- An error without a call of `createTask`, or a positional answer. -/
def AllOrNothing (parse : Str → Except Exn JsonValue) (reqBody : Str) (service : Service) : Prop :=
  let (answer, p) := batchCreateTasks what config attempts parse reqBody { service }
  (p.calls = [] ∧ ∀ r, answer = .ok r → r.status ≠ 200) ∨
    ∃ body batch, parse reqBody = .ok body ∧ readBatch body = .ok (.inr batch) ∧ Positional batch answer p

/-- No element that cannot be read stands behind one with a URL; and where all can be read, the text of
    every exception of `createTask` is UTF-8. -/
structure Orderly (batch : Batch) : Prop where
  unread : ∀ front taskObj back items e, batch.tasks = front ++ taskObj :: back →
    front.mapM (readTask batch) = .ok items → readTask batch taskObj = .error e →
      ∀ item ∈ items, item.req.url = []
  texts : ∀ items, batch.tasks.mapM (readTask batch) = .ok items → ∀ i item e left,
    items[i]? = some item → item.req.url ≠ [] → attempts i = .throws e left → Json.utf8Valid (what e) = true

/-! ## The loop -/

/-- The loop over elements that have been read. -/
def submitItems : ℕ → List TaskItem → Progress → Progress
  | _, [], p => p
  | i, item :: items, p => submitItems (i + 1) items (submitTask what config attempts i item p)

variable {what config attempts}

theorem submitAll_append {batch : Batch} {front : List JsonValue} {items : List TaskItem}
    (h : front.mapM (readTask batch) = .ok items) (back : List JsonValue) (i : ℕ) (p : Progress) :
    submitAll what config attempts batch i (front ++ back) p =
      submitAll what config attempts batch (i + front.length) back
        (submitItems what config attempts i items p) := by
  induction front generalizing i items p with
  | nil =>
    obtain rfl : [] = items := Except.ok.inj h
    rfl
  | cons t front ih =>
    obtain ⟨item, rest, ht, hfront, rfl⟩ := Except.mapM_cons_eq_ok.1 h
    rw [List.cons_append, submitAll, ht]
    simp only
    rw [ih hfront, List.length_cons, submitItems, Nat.add_right_comm, Nat.add_assoc]

/-- What holds when the elements of `done` have been through the loop. -/
structure Inv (what : Exn → Str) (attempts : ℕ → Attempt) (done : List TaskItem) (p : Progress) : Prop where
  length : p.results.length = done.length
  count : p.successCount + p.failCount = done.length
  about : ∀ i item res, done[i]? = some item → p.results[i]? = some res →
    (res.keyword = item.keyword ∧ res.title = item.title ∧ res.url = item.req.url) ∧
      ∀ id, res.outcome = .ok id ↔ (i, .ok id) ∈ p.calls
  calls_lt : ∀ c ∈ p.calls, c.1 < done.length
  calls_nil : p.calls = [] ↔ ∀ item ∈ done, item.req.url = []
  texts : (∀ res ∈ p.results, ∀ text, res.outcome = .error text → Json.utf8Valid text = true) ↔
    ∀ i item e left, done[i]? = some item → item.req.url ≠ [] → attempts i = .throws e left →
      Json.utf8Valid (what e) = true
  ids : ∀ res ∈ p.results, ∀ id, res.outcome = .ok id → Json.utf8Valid id = true

theorem inv_start (service : Service) : Inv what attempts [] { service } where
  length := rfl
  count := rfl
  about := by simp
  calls_lt := by simp
  calls_nil := by simp
  texts := by simp
  ids := by simp

theorem taskId_valid (now : Time) (n : ℤ) : Json.utf8Valid (taskId now n) = true := by
  refine Json.utf8Valid_ascii fun c hc => ?_
  simp only [taskId, List.mem_append] at hc
  rcases hc with ((hc | hc) | hc) | hc
  · exact Json.ascii_of_all (by decide +kernel) c hc
  · exact decInt_ascii _ c hc
  · exact Json.ascii_of_all (by decide +kernel) c hc
  · exact decInt_ascii _ c hc

/-- What one element adds: a result, and a call when it has a URL. -/
structure Adds (what : Exn → Str) (attempts : ℕ → Attempt) (n : ℕ) (item : TaskItem) (res : TaskResult)
    (calls : List (ℕ × Except Exn Str)) : Prop where
  about : res.keyword = item.keyword ∧ res.title = item.title ∧ res.url = item.req.url
  position : ∀ c ∈ calls, c.1 = n
  id_iff : ∀ id, res.outcome = .ok id ↔ (n, .ok id) ∈ calls
  nil_iff : calls = [] ↔ item.req.url = []
  text_iff : (∀ text, res.outcome = .error text → Json.utf8Valid text = true) ↔
    (item.req.url ≠ [] → ∀ e left, attempts n = .throws e left → Json.utf8Valid (what e) = true)
  id_valid : ∀ id, res.outcome = .ok id → Json.utf8Valid id = true

theorem submitTask_adds (what : Exn → Str) (config : DownloadConfig) (attempts : ℕ → Attempt) (n : ℕ)
    (item : TaskItem) (p : Progress) :
    ∃ res calls, Adds what attempts n item res calls ∧
      (submitTask what config attempts n item p).results = p.results ++ [res] ∧
      (submitTask what config attempts n item p).calls = p.calls ++ calls ∧
      (submitTask what config attempts n item p).successCount +
        (submitTask what config attempts n item p).failCount = p.successCount + p.failCount + 1 := by
  unfold submitTask
  by_cases hurl : item.req.url = []
  · have htext : Json.utf8Valid (lit "URL不能为空") = true := by decide +kernel
    simp only [if_pos hurl]
    exact ⟨_, [], ⟨⟨rfl, rfl, rfl⟩, by simp, by simp, by simp [hurl], by simp [hurl, htext], by simp⟩, rfl,
      (List.append_nil _).symm, rfl⟩
  · simp only [if_neg hurl]
    cases hattempt : attempts n with
    | returns now created =>
      refine ⟨_, [(n, .ok (taskId now p.service.taskCounter))], ⟨⟨rfl, rfl, rfl⟩, by simp, ?_, by simp [hurl],
        by simp [hattempt], ?_⟩, rfl, rfl, Nat.add_right_comm _ _ _⟩
      · exact fun id => by simp [eq_comm]
      · rintro id hid
        obtain rfl := Except.ok.inj hid
        exact taskId_valid _ _
    | throws e left =>
      exact ⟨_, [(n, .error e)], ⟨⟨rfl, rfl, rfl⟩, by simp, by simp, by simp [hurl],
        by simp [hattempt, hurl], by simp⟩, rfl, rfl, rfl⟩

theorem concat_cases {α : Type} {l : List α} {a b : α} {i : ℕ} (h : (l ++ [a])[i]? = some b) :
    (i < l.length ∧ l[i]? = some b) ∨ (i = l.length ∧ a = b) := by
  obtain ⟨hi, hget⟩ := List.getElem?_eq_some_iff.1 h
  rw [List.length_append, List.length_singleton] at hi
  by_cases hlast : i = l.length
  · subst hlast
    exact Or.inr ⟨rfl, by simpa using hget⟩
  · have hlt : i < l.length := by omega
    exact Or.inl ⟨hlt, by rwa [List.getElem?_append_left hlt] at h⟩

/-- One more element. -/
theorem Inv.step {done : List TaskItem} {p : Progress} (h : Inv what attempts done p) (item : TaskItem) :
    Inv what attempts (done ++ [item]) (submitTask what config attempts done.length item p) := by
  obtain ⟨res, calls, hadds, hresults, hcalls, hcount⟩ :=
    submitTask_adds what config attempts done.length item p
  have hlen := h.length
  refine { length := ?_, count := ?_, about := ?_, calls_lt := ?_, calls_nil := ?_, texts := ?_, ids := ?_ }
  · rw [hresults, List.length_append, List.length_append, hlen]
    rfl
  · rw [hcount, h.count, List.length_append]
    rfl
  · intro i item' res' hitem hres
    rw [hresults] at hres
    rw [hcalls]
    rcases concat_cases hitem with ⟨hi, hitem⟩ | ⟨rfl, rfl⟩
    · obtain ⟨-, hres⟩ := (concat_cases hres).resolve_right (by omega)
      refine ⟨(h.about i item' res' hitem hres).1, fun id => ?_⟩
      rw [(h.about i item' res' hitem hres).2, List.mem_append, or_iff_left]
      exact fun hmem => absurd (hadds.position _ hmem) (by simp; omega)
    · obtain ⟨-, rfl⟩ := (concat_cases hres).resolve_left (by omega)
      refine ⟨hadds.about, fun id => ?_⟩
      rw [hadds.id_iff, List.mem_append, or_iff_right]
      exact fun hmem => absurd (h.calls_lt _ hmem) (by simp)
  · intro c hc
    rw [hcalls, List.mem_append] at hc
    rw [List.length_append, List.length_singleton]
    rcases hc with hc | hc
    · exact Nat.lt_succ_of_lt (h.calls_lt c hc)
    · rw [hadds.position c hc]
      exact Nat.lt_succ_self _
  · rw [hcalls, List.append_eq_nil_iff, h.calls_nil, hadds.nil_iff, List.forall_mem_append,
      List.forall_mem_singleton]
  · rw [hresults, List.forall_mem_append, List.forall_mem_singleton, h.texts, hadds.text_iff]
    constructor
    · rintro ⟨hdone, hitem⟩ i item' e left hget hurl hattempt
      rcases concat_cases hget with ⟨-, hget⟩ | ⟨rfl, rfl⟩
      · exact hdone i item' e left hget hurl hattempt
      · exact hitem hurl e left hattempt
    · intro hall
      refine ⟨fun i item' e left hget => ?_, fun hurl e left => ?_⟩
      · obtain ⟨hi, -⟩ := List.getElem?_eq_some_iff.1 hget
        exact hall i item' e left (by rwa [List.getElem?_append_left hi])
      · exact hall done.length item e left (by simp) hurl
  · rw [hresults, List.forall_mem_append, List.forall_mem_singleton]
    exact ⟨h.ids, hadds.id_valid⟩

/-- All elements. -/
theorem Inv.run {done : List TaskItem} {p : Progress} (h : Inv what attempts done p) (items : List TaskItem) :
    Inv what attempts (done ++ items) (submitItems what config attempts done.length items p) := by
  induction items generalizing done p with
  | nil => rwa [List.append_nil]
  | cons item items ih =>
    have hstep : Inv what attempts (done ++ [item]) (submitTask what config attempts done.length item p) :=
      h.step item
    have hrest := ih hstep
    rw [List.length_append, List.append_assoc] at hrest
    exact hrest

/-! ## The answer -/

theorem json_dumps (res : TaskResult) :
    res.json.Dumps ↔ (Json.utf8Valid res.keyword = true ∧ Json.utf8Valid res.title = true ∧
      Json.utf8Valid res.url = true) ∧ (∀ id, res.outcome = .ok id → Json.utf8Valid id = true) ∧
        ∀ text, res.outcome = .error text → Json.utf8Valid text = true := by
  have hkeys : ([lit "error", lit "keyword", lit "success", lit "task_id", lit "title", lit "url"].all
      Json.utf8Valid) = true := by decide +kernel
  simp only [List.all_cons, List.all_nil, Bool.and_true, Bool.and_eq_true] at hkeys
  obtain ⟨herror, hkeyword, hsuccess, hid, htitle, hurl⟩ := hkeys
  obtain ⟨keyword, title, url, outcome⟩ := res
  cases outcome with
  | ok id =>
    have hobject : TaskResult.json ⟨keyword, title, url, .ok id⟩ = .obj [(lit "keyword", .str keyword),
        (lit "success", .bool true), (lit "task_id", .str id), (lit "title", .str title),
        (lit "url", .str url)] := rfl
    rw [hobject, Json.dumps_obj]
    simp only [List.forall_mem_cons, List.not_mem_nil, IsEmpty.forall_iff, implies_true, Json.dumps_str,
      Json.dumps_bool, hkeyword, hsuccess, hid, htitle, hurl, true_and, and_true]
    constructor
    · rintro ⟨h1, h2, h3, h4⟩
      exact ⟨⟨h1, h3, h4⟩, fun _ h => Except.ok.inj h ▸ h2, fun _ h => (nomatch h)⟩
    · rintro ⟨⟨h1, h3, h4⟩, h2, -⟩
      exact ⟨h1, h2 id rfl, h3, h4⟩
  | error text =>
    have hobject : TaskResult.json ⟨keyword, title, url, .error text⟩ = .obj [(lit "error", .str text),
        (lit "keyword", .str keyword), (lit "success", .bool false), (lit "title", .str title),
        (lit "url", .str url)] := rfl
    rw [hobject, Json.dumps_obj]
    simp only [List.forall_mem_cons, List.not_mem_nil, IsEmpty.forall_iff, implies_true, Json.dumps_str,
      Json.dumps_bool, herror, hkeyword, hsuccess, htitle, hurl, true_and, and_true]
    constructor
    · rintro ⟨h2, h1, h3, h4⟩
      exact ⟨⟨h1, h3, h4⟩, fun _ h => (nomatch h), fun _ h => Except.error.inj h ▸ h2⟩
    · rintro ⟨⟨h1, h3, h4⟩, -, h2⟩
      exact ⟨h2 text rfl, h1, h3, h4⟩

theorem answer_dumps (results : List TaskResult) (total success failed : ℕ) :
    (answerJson results total success failed).Dumps ↔ ∀ res ∈ results, res.json.Dumps := by
  have hkeys : ([lit "failed", lit "results", lit "success", lit "total"].all Json.utf8Valid) = true := by
    decide +kernel
  simp only [List.all_cons, List.all_nil, Bool.and_true, Bool.and_eq_true] at hkeys
  obtain ⟨hfailed, hresults, hsuccess, htotal⟩ := hkeys
  have hobject : answerJson results total success failed = .obj [(lit "failed", .int failed),
      (lit "results", .arr (results.map TaskResult.json)), (lit "success", .int success),
      (lit "total", .int total)] := rfl
  rw [hobject, Json.dumps_obj]
  simp only [List.forall_mem_cons, List.not_mem_nil, IsEmpty.forall_iff, implies_true, Json.dumps_arr,
    Json.dumps_int, hfailed, hresults, hsuccess, htotal, true_and, and_true, List.forall_mem_map]

theorem getString_valid {key : String} {dflt s : Str} {v : JsonValue} (h : v.value JsonValue.getString key dflt = .ok s)
    (hdflt : Json.utf8Valid dflt = true) : Json.utf8Valid s = true := by
  cases v with
  | obj members =>
    rw [JsonValue.value] at h
    cases hlookup : members.lookup key with
    | none =>
      rw [hlookup] at h
      obtain rfl := Except.ok.inj h
      exact hdflt
    | some w =>
      rw [hlookup] at h
      cases w with
      | str t =>
        obtain rfl := Except.ok.inj h
        exact Web.utf8Valid_encode t
      | _ => cases h
  | _ => cases h

/-- What is read and goes into the result is UTF-8. -/
theorem readTask_valid {batch : Batch} {taskObj : JsonValue} {item : TaskItem} (h : readTask batch taskObj = .ok item) :
    Json.utf8Valid item.keyword = true ∧ Json.utf8Valid item.title = true ∧
      Json.utf8Valid item.req.url = true := by
  obtain ⟨url, hurl, h⟩ := Except.bind_eq_ok.1 h
  obtain ⟨url', hurl', h⟩ := Except.bind_eq_ok.1 h
  obtain ⟨filename, -, h⟩ := Except.bind_eq_ok.1 h
  obtain ⟨platform, -, h⟩ := Except.bind_eq_ok.1 h
  obtain ⟨delayMs, -, h⟩ := Except.bind_eq_ok.1 h
  obtain ⟨keyword, hkeyword, h⟩ := Except.bind_eq_ok.1 h
  obtain ⟨title, htitle, h⟩ := Except.bind_eq_ok.1 h
  obtain rfl := Except.ok.inj h
  refine ⟨getString_valid hkeyword rfl, getString_valid htitle rfl, ?_⟩
  split_ifs at hurl' with hempty
  · exact getString_valid hurl' rfl
  · obtain rfl := Except.ok.inj hurl'
    exact getString_valid hurl rfl

/-! ## When it holds -/

variable {parse : Str → Except Exn JsonValue} {reqBody : Str} {service : Service}

theorem refused {code msg : Str} {r : Response} (h : Response.error 400 (lit "Bad Request") code msg = .ok r) :
    r.status ≠ 200 := by
  rw [Response.error_status h]
  decide

theorem batchCreateTasks_error {p p' : Progress} {e : Exn}
    (h : batchBody what config attempts parse reqBody p = (.error e, p')) :
    batchCreateTasks what config attempts parse reqBody p =
      (Response.error 400 (lit "Bad Request") (lit "parse_error") (what e), p') := by
  rw [batchCreateTasks, attempt, h]

theorem batchCreateTasks_ok {p p' : Progress} {r : Response}
    (h : batchBody what config attempts parse reqBody p = (.ok r, p')) :
    batchCreateTasks what config attempts parse reqBody p = (.ok r, p') := by
  rw [batchCreateTasks, attempt, h]

/-- A batch that ends in an exception. -/
theorem allOrNothing_error {p : Progress} {e : Exn}
    (h : batchBody what config attempts parse reqBody { service } = (.error e, p)) :
    AllOrNothing what config attempts parse reqBody service ↔ p.calls = [] := by
  rw [AllOrNothing, batchCreateTasks_error h]
  constructor
  · rintro (⟨hcalls, -⟩ | ⟨_, _, _, _, r, _, _, _, hr, hstatus, -⟩)
    · exact hcalls
    · exact absurd hstatus (refused hr)
  · exact fun hcalls => Or.inl ⟨hcalls, fun r hr => refused hr⟩

theorem batchBody_eq {body : JsonValue} {read : (Str × Str) ⊕ Batch} (hparse : parse reqBody = .ok body)
    (hbody : readBatch body = .ok read) (p : Progress) :
    batchBody what config attempts parse reqBody p =
      match read with
      | .inl (code, msg) => (Response.error 400 (lit "Bad Request") code msg, p)
      | .inr batch =>
        match submitAll what config attempts batch 0 batch.tasks p with
        | (.error e, p) => (.error e, p)
        | (.ok _, p) => (Response.json 200 (lit "OK")
            (answerJson p.results batch.tasks.length p.successCount p.failCount), p) := by
  rw [batchBody, hparse]
  simp only [hbody]
  cases read <;> rfl

/-- Without a batch there is an error and no call. -/
theorem allOrNothing_refused (h : ∀ body batch, parse reqBody = .ok body → readBatch body ≠ .ok (.inr batch)) :
    AllOrNothing what config attempts parse reqBody service := by
  cases hparse : parse reqBody with
  | error e =>
    have hrun : batchBody what config attempts parse reqBody { service } = (.error e, { service }) := by
      rw [batchBody, hparse]
    exact (allOrNothing_error hrun).2 rfl
  | ok body =>
    cases hbody : readBatch body with
    | error e =>
      have hrun : batchBody what config attempts parse reqBody { service } = (.error e, { service }) := by
        rw [batchBody, hparse]
        simp only [hbody]
      exact (allOrNothing_error hrun).2 rfl
    | ok read =>
      have hrun : batchBody what config attempts parse reqBody { service } = _ := batchBody_eq hparse hbody _
      cases read with
      | inr batch => exact absurd hbody (h body batch hparse)
      | inl refusal =>
        obtain ⟨code, msg⟩ := refusal
        simp only at hrun
        cases hanswer : Response.error 400 (lit "Bad Request") code msg with
        | error e =>
          rw [hanswer] at hrun
          exact (allOrNothing_error hrun).2 rfl
        | ok r =>
          rw [hanswer] at hrun
          rw [AllOrNothing, batchCreateTasks_ok hrun]
          refine Or.inl ⟨rfl, fun r' hr' => ?_⟩
          obtain rfl := Except.ok.inj hr'
          exact refused hanswer

variable {body : JsonValue} {batch : Batch}

/-- A batch with an element that cannot be read. -/
theorem allOrNothing_unread (hparse : parse reqBody = .ok body) (hbody : readBatch body = .ok (.inr batch))
    {front back : List JsonValue} {taskObj : JsonValue} {items : List TaskItem} {e : Exn}
    (htasks : batch.tasks = front ++ taskObj :: back) (hitems : front.mapM (readTask batch) = .ok items)
    (he : readTask batch taskObj = .error e) :
    AllOrNothing what config attempts parse reqBody service ↔ ∀ item ∈ items, item.req.url = [] := by
  have hinv : Inv what attempts items (submitItems what config attempts 0 items { service }) :=
    (inv_start service).run items
  have hall : submitAll what config attempts batch 0 batch.tasks { service } =
      (.error e, submitItems what config attempts 0 items { service }) := by
    rw [htasks, submitAll_append hitems, submitAll, he]
  have hrun : batchBody what config attempts parse reqBody { service } = _ := batchBody_eq hparse hbody _
  simp only [hall] at hrun
  rw [allOrNothing_error hrun, hinv.calls_nil]

/-- The results can be written when the texts of the exceptions can. -/
theorem results_dump {items : List TaskItem} {p : Progress} (hinv : Inv what attempts items p)
    (hitems : batch.tasks.mapM (readTask batch) = .ok items) (total : ℕ) :
    (answerJson p.results total p.successCount p.failCount).Dumps ↔
      ∀ res ∈ p.results, ∀ text, res.outcome = .error text → Json.utf8Valid text = true := by
  rw [answer_dumps]
  refine forall₂_congr fun res hres => ?_
  obtain ⟨i, hi⟩ := List.mem_iff_getElem?.1 hres
  obtain ⟨hlt, -⟩ := List.getElem?_eq_some_iff.1 hi
  have hlt' : i < items.length := hinv.length ▸ hlt
  have hitem : items[i]? = some items[i] := List.getElem?_eq_getElem hlt'
  obtain ⟨taskObj, -, hread⟩ := (Except.mapM_getElem? hitems).2 i _ hitem
  obtain ⟨hkeyword, htitle, hurl⟩ := (hinv.about i _ res hitem hi).1
  have hvalid := readTask_valid hread
  rw [← hkeyword, ← htitle, ← hurl] at hvalid
  rw [json_dumps, and_iff_right hvalid, and_iff_right (hinv.ids res hres)]

theorem response_ok_iff {j : Json} : (∃ r, Response.json 200 (lit "OK") j = .ok r) ↔ j.Dumps := Json.map_ok_iff

theorem response_status {j : Json} {r : Response} (h : Response.json 200 (lit "OK") j = .ok r) : r.status = 200 := by
  rw [Response.json] at h
  cases hdump : j.dump with
  | error e =>
    rw [hdump] at h
    cases h
  | ok text =>
    rw [hdump] at h
    obtain rfl := Except.ok.inj h
    rfl

/-- A batch of elements that can all be read. -/
theorem allOrNothing_read (hparse : parse reqBody = .ok body) (hbody : readBatch body = .ok (.inr batch))
    {items : List TaskItem} (hitems : batch.tasks.mapM (readTask batch) = .ok items) :
    AllOrNothing what config attempts parse reqBody service ↔
      ∀ i item e left, items[i]? = some item → item.req.url ≠ [] → attempts i = .throws e left →
        Json.utf8Valid (what e) = true := by
  obtain ⟨p, hp⟩ : ∃ p, p = submitItems what config attempts 0 items { service } := ⟨_, rfl⟩
  have hinv : Inv what attempts items p := hp ▸ (inv_start service).run items
  obtain ⟨hlen, hget⟩ := Except.mapM_getElem? hitems
  have hall : submitAll what config attempts batch 0 batch.tasks { service } = (.ok (), p) := by
    have happend : submitAll what config attempts batch 0 (batch.tasks ++ []) { service } = _ :=
      submitAll_append hitems [] 0 _
    rw [List.append_nil] at happend
    rw [happend, submitAll, hp]
  have hrun : batchBody what config attempts parse reqBody { service } = _ := batchBody_eq hparse hbody _
  simp only [hall] at hrun
  rw [← hinv.texts, ← results_dump hinv hitems batch.tasks.length, ← response_ok_iff]
  cases hanswer : Response.json 200 (lit "OK")
      (answerJson p.results batch.tasks.length p.successCount p.failCount) with
  | error e =>
    rw [hanswer] at hrun
    rw [allOrNothing_error hrun]
    constructor
    · intro hcalls
      have hurls := hinv.calls_nil.1 hcalls
      rw [← hanswer, response_ok_iff, results_dump hinv hitems, hinv.texts]
      intro i item e left hitem hurl
      exact absurd (hurls item (List.mem_of_getElem? hitem)) hurl
    · rintro ⟨r, hr⟩
      cases hr
  | ok r =>
    rw [hanswer] at hrun
    rw [AllOrNothing, batchCreateTasks_ok hrun]
    refine ⟨fun _ => ⟨r, rfl⟩, fun _ => Or.inr ⟨body, batch, hparse, hbody, r, p.results, p.successCount,
      p.failCount, rfl, response_status hanswer, hanswer, by rw [hinv.length, hlen], by rw [hinv.count, hlen],
      fun i taskObj res htask hres => ?_⟩⟩
    obtain ⟨hlt, -⟩ := List.getElem?_eq_some_iff.1 hres
    have hlt' : i < items.length := hinv.length ▸ hlt
    have hitem : items[i]? = some items[i] := List.getElem?_eq_getElem hlt'
    obtain ⟨taskObj', htask', hread⟩ := hget i _ hitem
    obtain rfl := Option.some.inj (htask.symm.trans htask')
    obtain ⟨habout, hid⟩ := hinv.about i _ res hitem hres
    exact ⟨⟨_, hread, habout⟩, hid⟩

/-- **All or nothing.**  Either `createTask` has not been called and there is an error, or there is a
    result for every element, exactly when no element that cannot be read stands behind one with a
    URL, and, where all can be read, the exceptions of `createTask` have texts in UTF-8. -/
theorem batchCreateTasks_allOrNothing (what : Exn → Str) (config : DownloadConfig) (attempts : ℕ → Attempt)
    (parse : Str → Except Exn JsonValue) (reqBody : Str) (service : Service) :
    AllOrNothing what config attempts parse reqBody service ↔
      ∀ body batch, parse reqBody = .ok body → readBatch body = .ok (.inr batch) →
        Orderly what attempts batch := by
  by_cases hbatch : ∃ body batch, parse reqBody = .ok body ∧ readBatch body = .ok (.inr batch)
  · obtain ⟨body, batch, hparse, hbody⟩ := hbatch
    have hone : (∀ body batch, parse reqBody = .ok body → readBatch body = .ok (.inr batch) →
        Orderly what attempts batch) ↔ Orderly what attempts batch := by
      refine ⟨fun h => h body batch hparse hbody, fun h body' batch' hparse' hbody' => ?_⟩
      obtain rfl := Except.ok.inj (hparse.symm.trans hparse')
      obtain rfl := Sum.inr.inj (Except.ok.inj (hbody.symm.trans hbody'))
      exact h
    rw [hone]
    rcases Except.mapM_cases (readTask batch) batch.tasks with ⟨items, hitems⟩ | ⟨front, taskObj, back, items, e, htasks, hitems, he⟩
    · rw [allOrNothing_read hparse hbody hitems]
      refine ⟨fun h => ⟨?_, fun items' hitems' => ?_⟩, fun h => h.texts items hitems⟩
      · intro front taskObj back items' e htasks _ he
        exact absurd (htasks ▸ hitems) (Except.mapM_ne_ok he items)
      · obtain rfl := Except.ok.inj (hitems.symm.trans hitems')
        exact h
    · rw [allOrNothing_unread hparse hbody htasks hitems he]
      refine ⟨fun h => ⟨?_, fun items' hitems' => ?_⟩, fun h => h.unread _ _ _ _ e htasks hitems he⟩
      · intro front' taskObj' back' items' e' htasks' hitems' he'
        obtain rfl := Except.mapM_first_unique (htasks.symm.trans htasks') hitems hitems' he he'
        exact h
      · exact absurd (htasks ▸ hitems') (Except.mapM_ne_ok he items')
  · have hrefused : ∀ body batch, parse reqBody = .ok body → readBatch body ≠ .ok (.inr batch) :=
      fun body batch hparse hbody => hbatch ⟨body, batch, hparse, hbody⟩
    exact ⟨fun _ body batch hparse hbody => absurd hbody (hrefused body batch hparse),
      fun _ => allOrNothing_refused hrefused⟩

/-- A task with a URL, and a number. -/
def halfBatch : JsonValue := .obj [("tasks", .arr [.obj [("url", .str ['u'])], .int 1])]

def halfText : Str := lit "\x7b\"tasks\":[\x7b\"url\":\"u\"\x7d,1]\x7d"

/-- The task of the first element has been created when the second one makes the answer an error. -/
theorem halfBatch_apart :
    (batchCreateTasks (fun _ => []) {} (fun _ => .returns 0 0) (fun _ => .ok halfBatch) halfText
        { service := {} }).2.calls = [(0, .ok (lit "task_0_0"))] ∧
      ¬ ∀ what config attempts parse reqBody service,
        AllOrNothing what config attempts parse reqBody service := by
  refine ⟨by rfl, fun h => ?_⟩
  obtain ⟨parse, hparse⟩ : ∃ parse : Str → Except Exn JsonValue, parse halfText = .ok halfBatch :=
    ⟨fun _ => .ok halfBatch, rfl⟩
  have hbatch : readBatch halfBatch =
      .ok (.inr ⟨[.obj [("url", .str ['u'])], .int 1], lit "网易云音乐", 0⟩) := by rfl
  have hitems : [JsonValue.obj [("url", .str ['u'])]].mapM (readTask
      ⟨[.obj [("url", .str ['u'])], .int 1], lit "网易云音乐", 0⟩) =
        .ok [⟨⟨lit "u", [], lit "网易云音乐", 0⟩, [], []⟩] := by rfl
  have hurls := (allOrNothing_unread hparse hbatch rfl hitems rfl).1
    (h (fun _ => []) {} (fun _ => .returns 0 0) parse halfText {})
  cases hurls _ (List.mem_singleton_self _)

end

end NarMusic.DownloadController
