/-
  One submit of the web client: `api.createTask` and `api.batchDownload`, the network,
  and the handlers of the server (`download_controller.cpp`).

  `request` sends a submit again after a timeout or a network error.  A request has no
  identity, so the server calls `createTask` for the items of every attempt it gets to
  see, and each call is a new task.
-/
import NarMusic.Web.Api
import NarMusic.Download.Queue

namespace NarMusic.Web

open Cxx Download

/-- A task of the request body; `none` where the member is missing. -/
structure TaskObj where
  url : Str := []
  content : Str := []
  filename : Str := []
  platform : Option Str := none
  offsetMs : Option ℤ := none

/-- The request that the controller reads from it. -/
def TaskObj.read (obj : TaskObj) (platform : Str) (delayMs : ℤ) : CreateTaskRequest where
  url := if obj.url = [] then obj.content else obj.url
  filename := obj.filename
  platform := obj.platform.getD platform
  delayMs := obj.offsetMs.getD delayMs

inductive Submit where
  | createTask (payload : TaskObj)
  | batchDownload (tasks : List TaskObj) (platform : Str) (offsetMs : ℤ)

namespace Submit

/-- `retries` in the options of the two functions. -/
def retries : Submit → ℕ
  | createTask _ => 1
  | batchDownload _ _ _ => 1

/-- The items of a submit, as the server reads them. -/
def items : Submit → List CreateTaskRequest
  | createTask payload => [payload.read (lit "网易云音乐") 0]
  | batchDownload tasks platform offsetMs => tasks.map (·.read platform offsetMs)

/-- What the handler gets to: an item without a URL is answered with an error, and so is a batch
    that is empty or too long. -/
def handled (submit : Submit) : List (CreateTaskRequest × ℕ) :=
  let items := submit.items.zipIdx.filter (·.1.url ≠ [])
  match submit with
  | createTask _ => items
  | batchDownload tasks _ _ => if tasks = [] ∨ 100 < tasks.length then [] else items

end Submit

/-- Where `request` is. -/
inductive Stage where
  /-- In `fetch`. -/
  | waiting
  /-- In the pause before the next attempt. -/
  | pausing
  | settled
  deriving DecidableEq

/-- The client and the server, with the messages between them; an attempt is known by its number. -/
structure Exchange where
  attempt : ℕ := 0
  stage : Stage := .waiting
  requests : List ℕ := [0]
  replies : List (ℕ × Received) := []
  service : Service
  /-- The calls of `DownloadService::createTask`, with the number of the item. -/
  calls : List (CreateTaskRequest × ℕ) := []

inductive Delivery where
  /-- The `i`-th request gets to the server.  The rate limiter may refuse it; otherwise it is handled,
      with two readings of the clock for each item, and answered. -/
  | request (i : ℕ) (limited : Bool) (clock : ℕ → Time × Time) (res : Received)
  | requestLost (i : ℕ)
  | reply (i : ℕ)
  | replyLost (i : ℕ)
  /-- `fetch` rejects, after a timeout or for an error of the network. -/
  | failure (timeout : Bool)
  /-- The pause ends. -/
  | wake

section
variable (config : DownloadConfig) (submit : Submit)

/-- The calls that a request leads to. -/
def execute (clock : ℕ → Time × Time) (s : Service) : Service :=
  submit.handled.foldl (fun s e => Download.createTask config s (clock e.2).1 (clock e.2).2 e.1) s

/-- What `request` does after an attempt. -/
def Exchange.after (s : Exchange) : Outcome → Exchange
  | .again => { s with stage := .pausing }
  | .throws _ | .returns _ => { s with stage := .settled }

def Exchange.step (s : Exchange) : Delivery → Exchange
  | .request i limited clock res =>
    match s.requests[i]? with
    | none => s
    | some attempt =>
      let s := { s with requests := s.requests.eraseIdx i }
      if limited then { s with replies := s.replies ++ [(attempt, { res with status := 429 })] }
      else
        { s with
          service := execute config submit clock s.service
          calls := s.calls ++ submit.handled
          replies := s.replies ++ [(attempt, res)] }
  | .requestLost i => { s with requests := s.requests.eraseIdx i }
  | .reply i =>
    match s.replies[i]? with
    | none => s
    | some (attempt, res) =>
      let s := { s with replies := s.replies.eraseIdx i }
      -- the reply to an attempt that was given up is not read
      if s.stage = .waiting ∧ attempt = s.attempt then s.after (onResponse submit.retries attempt res) else s
  | .replyLost i => { s with replies := s.replies.eraseIdx i }
  | .failure timeout =>
    if s.stage = .waiting then s.after (onFailure submit.retries s.attempt timeout) else s
  | .wake =>
    if s.stage = .pausing then
      { s with attempt := s.attempt + 1, stage := .waiting, requests := s.requests ++ [s.attempt + 1] }
    else s

/-- The submit has just been sent. -/
def Exchange.start (service : Service) : Exchange := { service }

/-- No item has more than one task. -/
def AtMostOnce (s : Exchange) : Prop := ∀ i, (s.calls.map Prod.snd).count i ≤ 1

/-- A submit is sent again only when no attempt is on its way to the server, and none was handled. -/
def CleanRetry (s : Exchange) : Delivery → Prop
  | .wake => s.stage = .pausing → s.requests = [] ∧ s.calls = []
  | _ => True

end

/-! ## One attempt -/

/-- A handler calls `createTask` once for an item. -/
theorem nodup_handled (submit : Submit) : (submit.handled.map Prod.snd).Nodup := by
  have hitems : ((submit.items.zipIdx.filter (·.1.url ≠ [])).map Prod.snd).Nodup := by
    have hall : (submit.items.zipIdx.map Prod.snd).Nodup := by
      rw [List.zipIdx_map_snd]
      exact List.nodup_range'
    exact hall.sublist (List.filter_sublist.map _)
  unfold Submit.handled
  cases submit with
  | createTask payload => exact hitems
  | batchDownload tasks platform offsetMs =>
    dsimp only
    split_ifs
    · exact List.nodup_nil
    · exact hitems

/-- Every call makes a task of its own. -/
theorem jobs_execute (config : DownloadConfig) (submit : Submit) (clock : ℕ → Time × Time) (s : Service) :
    (execute config submit clock s).jobs.map Job.req = s.jobs.map Job.req ++ submit.handled.map Prod.fst := by
  unfold execute
  induction submit.handled generalizing s with
  | nil => simp
  | cons e es ih =>
    rw [List.foldl_cons, ih]
    simp [Download.createTask]

/-! ## One step -/

/-- **What a step does** on the server and on the way to it. -/
inductive Stepped (config : DownloadConfig) (submit : Submit) (s : Exchange) : Delivery → Exchange → Prop
  /-- An attempt is handled. -/
  | handled {l s'} (clock : ℕ → Time × Time) (calls : s'.calls = s.calls ++ submit.handled)
      (service : s'.service = execute config submit clock s.service)
      (requests : s'.requests.length + 1 = s.requests.length) (attempt : s'.attempt = s.attempt)
      (stage : s'.stage = s.stage) : Stepped config submit s l s'
  | quiet {l s'} (calls : s'.calls = s.calls) (service : s'.service = s.service)
      (requests : s'.requests.length ≤ s.requests.length) (attempt : s'.attempt = s.attempt)
      (stage : s'.stage = .pausing → s.stage = .pausing ∨ s.attempt < submit.retries) :
      Stepped config submit s l s'
  /-- The next attempt is sent. -/
  | sent {s'} (pausing : s.stage = .pausing) (calls : s'.calls = s.calls) (service : s'.service = s.service)
      (requests : s'.requests.length = s.requests.length + 1) (attempt : s'.attempt = s.attempt + 1)
      (stage : s'.stage = .waiting) : Stepped config submit s .wake s'

section
variable {config : DownloadConfig} {submit : Submit}

theorem onResponse_again {retries attempt : ℕ} {res : Received} (h : onResponse retries attempt res = .again) :
    attempt < retries := by
  unfold onResponse at h
  split_ifs at h with hlimited
  exact hlimited.2

theorem onFailure_again {retries attempt : ℕ} {timeout : Bool} (h : onFailure retries attempt timeout = .again) :
    attempt < retries := by
  unfold onFailure at h
  split_ifs at h with hless
  exact hless

/-- The client pauses only when it has attempts left. -/
theorem stepped_after {s s' : Exchange} {l : Delivery} {outcome : Outcome} (hs : s'.calls = s.calls)
    (hservice : s'.service = s.service) (hrequests : s'.requests = s.requests) (hattempt : s'.attempt = s.attempt)
    (hagain : outcome = .again → s.attempt < submit.retries) :
    Stepped config submit s l (s'.after outcome) := by
  have hlen : s'.requests.length ≤ s.requests.length := (congrArg List.length hrequests).le
  cases outcome with
  | again => exact .quiet hs hservice hlen hattempt fun _ => Or.inr (hagain rfl)
  | throws _ | returns _ => exact .quiet hs hservice hlen hattempt nofun

variable (config submit) in
theorem step_stepped (s : Exchange) (l : Delivery) : Stepped config submit s l (s.step config submit l) := by
  have hstay : ∀ l, Stepped config submit s l s := fun l => .quiet rfl rfl le_rfl rfl Or.inl
  cases l with
  | request i limited clock res =>
    unfold Exchange.step
    dsimp only
    cases hi : s.requests[i]? with
    | none => exact hstay _
    | some attempt =>
      obtain ⟨hlt, -⟩ := List.getElem?_eq_some_iff.1 hi
      have hlen := List.length_eraseIdx_of_lt hlt
      cases limited with
      | true => exact .quiet rfl rfl (by simp [hlen]) rfl Or.inl
      | false => exact .handled clock rfl rfl (by simp [hlen]; omega) rfl rfl
  | requestLost i => exact .quiet rfl rfl (List.length_eraseIdx_le s.requests i) rfl Or.inl
  | reply i =>
    unfold Exchange.step
    dsimp only
    cases hi : s.replies[i]? with
    | none => exact hstay _
    | some e =>
      obtain ⟨attempt, res⟩ := e
      dsimp only
      split_ifs with hread
      · exact stepped_after rfl rfl rfl rfl fun hagain => hread.2 ▸ onResponse_again hagain
      · exact .quiet rfl rfl le_rfl rfl Or.inl
  | replyLost i => exact .quiet rfl rfl le_rfl rfl Or.inl
  | failure timeout =>
    unfold Exchange.step
    dsimp only
    split_ifs
    · exact stepped_after rfl rfl rfl rfl onFailure_again
    · exact hstay _
  | wake =>
    unfold Exchange.step
    dsimp only
    split_ifs with hpausing
    · exact .sent hpausing rfl rfl (by simp) rfl rfl
    · exact hstay _

/-! ## Runs -/

/-- Every call is a task: the jobs are those of before and one for each call. -/
def Made (service : Service) (s : Exchange) : Prop :=
  s.service.jobs.map Job.req = service.jobs.map Job.req ++ s.calls.map Prod.fst

theorem made_step {service : Service} {s : Exchange} (h : Made service s) (l : Delivery) :
    Made service (s.step config submit l) := by
  unfold Made at h ⊢
  cases step_stepped config submit s l with
  | handled clock calls hservice =>
    rw [calls, hservice, jobs_execute, h, List.map_append, List.append_assoc]
  | quiet calls hservice => rw [calls, hservice, h]
  | sent _ calls hservice => rw [calls, hservice, h]

/-- In every run, the tasks of a submit are those of the calls. -/
theorem made_run (service : Service) (run : List Delivery) :
    Made service (Run.exec (Exchange.step config submit) (.start service) run) :=
  Run.exec_inv (I := Made service) (fun _ l h => made_step h l) (by simp [Made, Exchange.start]) run

/-- The calls and the attempts on their way are not more than the attempts, and there are at most
    `retries + 1` of these. -/
structure Limited (submit : Submit) (s : Exchange) : Prop where
  calls : ∀ i, (s.calls.map Prod.snd).count i + s.requests.length ≤ s.attempt + 1
  attempt : s.attempt ≤ submit.retries
  pausing : s.stage = .pausing → s.attempt < submit.retries

theorem limited_step {s : Exchange} (h : Limited submit s) (l : Delivery) :
    Limited submit (s.step config submit l) := by
  obtain ⟨hcalls, hattempt, hpausing⟩ := h
  cases step_stepped config submit s l with
  | handled clock calls _ requests attempt stage =>
    refine ⟨fun i => ?_, attempt ▸ hattempt, fun hp => attempt ▸ hpausing (stage ▸ hp)⟩
    have honce := List.nodup_iff_count_le_one.1 (nodup_handled submit) i
    have := hcalls i
    rw [calls, List.map_append, List.count_append, attempt]
    omega
  | quiet calls _ requests attempt stage =>
    refine ⟨fun i => ?_, attempt ▸ hattempt, fun hp => attempt ▸ (stage hp).elim hpausing id⟩
    have := hcalls i
    rw [calls, attempt]
    omega
  | sent pausing calls _ requests attempt stage =>
    have hless := hpausing pausing
    refine ⟨fun i => ?_, by omega, fun hp => absurd (stage.symm.trans hp) (by decide)⟩
    have := hcalls i
    rw [calls, requests, attempt]
    omega

/-- In every run, an item has at most two tasks. -/
theorem calls_le (service : Service) (run : List Delivery) (i : ℕ) :
    ((Run.exec (Exchange.step config submit) (.start service) run).calls.map Prod.snd).count i ≤ 2 := by
  have hstart : Limited submit (.start service) := ⟨by simp [Exchange.start], Nat.zero_le _, nofun⟩
  have h : Limited submit (Run.exec (Exchange.step config submit) (.start service) run) :=
    Run.exec_inv (I := Limited submit) (fun _ l hs => limited_step hs l) hstart run
  have hretries : submit.retries = 1 := by cases submit <;> rfl
  have := h.calls i
  have := h.attempt
  omega

/-- No item is called for twice, and nothing is on its way once a call is made. -/
structure Once (s : Exchange) : Prop where
  calls : (s.calls.map Prod.snd).Nodup
  alone : s.requests.length = 0 ∨ s.calls = [] ∧ s.requests.length ≤ 1

theorem once_step {s : Exchange} {l : Delivery} (h : Once s) (hclean : CleanRetry s l) :
    Once (s.step config submit l) := by
  obtain ⟨hcalls, halone⟩ := h
  cases step_stepped config submit s l with
  | handled clock calls _ requests =>
    rcases halone with hnone | ⟨hnil, hone⟩
    · omega
    · refine ⟨?_, Or.inl (by omega)⟩
      rw [calls, hnil, List.nil_append]
      exact nodup_handled submit
  | quiet calls _ requests =>
    rw [← calls] at hcalls halone
    refine ⟨hcalls, ?_⟩
    rcases halone with hnone | ⟨hnil, hone⟩
    · exact Or.inl (by omega)
    · exact Or.inr ⟨hnil, requests.trans hone⟩
  | sent pausing calls _ requests =>
    obtain ⟨hnone, hnil⟩ := hclean pausing
    rw [← calls] at hcalls
    exact ⟨hcalls, Or.inr ⟨calls.trans hnil, by simp [requests, hnone]⟩⟩

end

/-- **A submit makes at most one task for each item** in a run in which it is sent again only when no
    earlier attempt was handled or still can be. -/
theorem submit_at_most_once (config : DownloadConfig) (submit : Submit) (service : Service)
    (run : List Delivery) (h : Run.Each (Exchange.step config submit) CleanRetry (.start service) run) :
    AtMostOnce (Run.exec (Exchange.step config submit) (.start service) run) := by
  have hstart : Once (.start service) := ⟨List.nodup_nil, Or.inr ⟨rfl, le_rfl⟩⟩
  have honce := h.inv (fun _ _ hs hclean => once_step hs hclean) hstart
  exact List.nodup_iff_count_le_one.1 honce.calls

/-- One song, as the form sends it. -/
def formSubmit : Submit :=
  .createTask { url := lit "https://y.qq.com/a", filename := lit "song", offsetMs := some 0 }

def accepted : Received := ⟨200, "OK".toList, []⟩

/-- The first attempt is lost on the way, and the second one is handled. -/
theorem lost_once :
    AtMostOnce (Run.exec (Exchange.step {} formSubmit) (.start {})
      [.requestLost 0, .failure false, .wake, .request 0 false (fun _ => (0, 0)) accepted, .reply 0]) :=
  submit_at_most_once {} formSubmit {} _
    ⟨trivial, trivial, fun _ => ⟨rfl, rfl⟩, trivial, trivial, trivial⟩

/-- The first reply comes after the timeout, and there are two tasks. -/
theorem late_reply_twice :
    let s := Run.exec (Exchange.step {} formSubmit) (.start {})
      [.request 0 false (fun _ => (0, 0)) accepted, .failure true, .wake,
        .request 0 false (fun _ => (16 * 10 ^ 9, 16 * 10 ^ 9)) accepted, .reply 0, .reply 0]
    (s.service.jobs.map Job.id).Nodup ∧ s.service.jobs.length = 2 ∧ ¬ AtMostOnce s := by
  intro s
  refine ⟨by decide +kernel, by decide +kernel, fun h => ?_⟩
  exact absurd (h 0) (by decide +kernel)

end NarMusic.Web
