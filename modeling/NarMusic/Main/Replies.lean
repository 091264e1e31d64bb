/-
  What a client reads of the answers of the server (`main.cpp` and the controllers).

  Names, queries, bodies and file names of a request go into the bodies of the answers, and into one
  header only, where they are escaped.  So every answer of the router is read as it was built,
  whatever the request and the state are (`dispatch_read`): no request can add a header or a second
  response.  A worker task gives no other responses than these (`answer_framed`).
-/
import NarMusic.Bilibili.BatchSearch
import NarMusic.Http.Replies
import NarMusic.Http.StaticFile
import NarMusic.Main.Api
import NarMusic.Server.Connection

namespace NarMusic

open Cxx

/-- A response, if there is one, is framed. -/
def Framing (answer : Except Exn Response) : Prop := ∀ resp, answer = .ok resp → resp.Framed

namespace Framing

theorem statusTexts : ((Plain (lit "Bad Request") ∧ Plain (lit "Forbidden")) ∧ Plain (lit "Not Found")) ∧
    (Plain (lit "Internal Error") ∧ Plain (lit "Internal Server Error")) ∧ Plain (lit "Too Many Requests") := by
  decide +kernel

/-- Beside the state that a handler leaves. -/
theorem pair {σ : Type} {answer : Except Exn Response} {s : σ} (h : Framing answer) : Framing (answer, s).1 := h

theorem error (e : Exn) : Framing (.error e) := by
  intro resp h
  cases h

theorem ok {resp : Response} (h : resp.Framed) : Framing (.ok resp) := by
  rintro _ ⟨⟩
  exact h

theorem bind {α : Type} {x : Except Exn α} {f : α → Except Exn Response} (h : ∀ a, Framing (f a)) :
    Framing (x >>= f) := by
  cases x with
  | error e => exact error e
  | ok a => exact h a

theorem json (body : Json) : Framing (Response.json 200 (lit "OK") body) := fun _ h =>
  Response.framed_json Response.ok_framed.1 Response.ok_framed.2 h

theorem refusal {status : ℤ} {statusText : Str} (h : 0 ≤ status ∧ Plain statusText) (code msg : Str) :
    Framing (Response.error status statusText code msg) := fun _ hr => Response.framed_error h.1 h.2 hr

theorem badRequest (code msg : Str) : Framing (Response.error 400 (lit "Bad Request") code msg) :=
  refusal ⟨by omega, statusTexts.1.1.1⟩ code msg

theorem forbidden (code msg : Str) : Framing (Response.error 403 (lit "Forbidden") code msg) :=
  refusal ⟨by omega, statusTexts.1.1.2⟩ code msg

theorem notFound (code msg : Str) : Framing (Response.error 404 (lit "Not Found") code msg) :=
  refusal ⟨by omega, statusTexts.1.2⟩ code msg

theorem internalError (code msg : Str) : Framing (Response.error 500 (lit "Internal Error") code msg) :=
  refusal ⟨by omega, statusTexts.2.1.1⟩ code msg

theorem attempt {σ : Type} {body : Stateful σ Response} {recover : Exn → Stateful σ Response} {s : σ}
    (hbody : Framing (body s).1) (hrecover : ∀ e s, Framing (recover e s).1) :
    Framing (NarMusic.attempt body recover s).1 := by
  unfold NarMusic.attempt
  split
  · next heq =>
    rw [heq] at hbody
    exact hbody
  · exact hrecover _ _

end Framing

/-- Whatever a handler answers is framed. -/
def Answers {σ : Type} (handler : Handler σ) : Prop := ∀ req s, Framing (handler req s).1

/-! ## The router -/

namespace Router

variable {σ : Type} {router : Router σ} {what : Exn → Str}

theorem runMiddlewares_framed {req : Request} {mws : List (Middleware σ)}
    (h : ∀ mw ∈ mws, ∀ s resp, (mw req s).1 = .ok (some resp) → resp.Framed) (s : σ) {resp : Response}
    (hr : (runMiddlewares mws req s).1 = .ok (some resp)) : resp.Framed := by
  induction mws generalizing s with
  | nil => cases hr
  | cons mw mws ih =>
    obtain ⟨hmw, hmws⟩ := List.forall_mem_cons.1 h
    unfold runMiddlewares at hr
    split at hr
    · next s' _ => exact ih hmws s' hr
    · exact hmw s resp hr

theorem guarded_framing {handler : Handler σ} (h : Answers handler) : Answers (guarded what handler) := by
  have htext : (0 : ℤ) ≤ 500 ∧ Plain (lit "Internal Server Error") := ⟨by omega, Framing.statusTexts.2.1.2⟩
  intro req s
  refine Framing.attempt (h req s) ?_
  intro e s
  exact .pair (.refusal htext _ _)

theorem dispatch_framing
    (hmws : ∀ mw ∈ router.middlewares, ∀ req s resp, (mw req s).1 = .ok (some resp) → resp.Framed)
    (hserves : router.Serves fun _ handler => Answers handler) : Answers (router.dispatch what) := by
  intro req s
  have hmws' := fun mw hmw => hmws mw hmw req
  unfold dispatch
  split
  · exact .pair (.error _)
  · next resp s' heq =>
    exact .ok (runMiddlewares_framed hmws' s (by rw [heq]))
  · split
    · next handler req' hres => exact guarded_framing (hserves _ _ _ hres) req' _
    · exact .pair (.notFound _ _)

end Router

/-! ## The controllers -/

namespace LibraryController

variable (env : Surroundings)

theorem withIds_answers {handler : List ℤ → Stateful Shelf Response}
    (h : ∀ ids shelf, Framing (handler ids shelf).1) : Answers (withIds env handler) := by
  intro req shelf
  refine Framing.attempt ?_ fun e shelf => .pair (.badRequest _ _)
  split
  · exact .pair (.error _)
  · exact .pair (.badRequest _ _)
  · exact h _ _

theorem list_answers : Answers (list env) := by
  intro req shelf
  unfold list
  exact .pair (.json _)

theorem batchRemove_answers : Answers (batchRemove env) :=
  withIds_answers env fun _ _ => .pair (.json _)

theorem remove_answers : Answers (remove env) := by
  intro req shelf
  unfold remove
  dsimp only
  split_ifs
  · exact .pair (.badRequest _ _)
  · split
    · exact .pair (.badRequest _ _)
    · exact .pair (.json _)

theorem batchDownload_answers : Answers (batchDownload env) := by
  refine withIds_answers env fun ids shelf => ?_
  dsimp only
  split
  · exact .pair (.notFound _ _)
  · split_ifs
    · split
      · exact .pair (.notFound _ _)
      · exact .pair <| .ok (Response.framed_downloadFile _ _)
    · exact .pair (.internalError _ _)
    · split
      · exact .pair (.internalError _ _)
      · exact .pair <| .ok (Response.framed_downloadFile _ _)

theorem generatePlaylist_answers : Answers (generatePlaylist env) := by
  refine withIds_answers env fun ids shelf => ?_
  dsimp only
  split_ifs
  · exact .pair (.notFound _ _)
  · exact .pair (.json _)

theorem lyrics_answers : Answers (lyrics env) := by
  intro req shelf
  unfold lyrics
  dsimp only
  split_ifs
  · exact .pair (.badRequest _ _)
  · exact .pair (.notFound _ _)
  · exact .pair (.json _)

end LibraryController

namespace DownloadController

variable (env : Surroundings)

theorem parseError_framing (e : Exn) (b : Backend) : Framing (parseError env e b).1 := by
  unfold parseError
  exact .pair (.badRequest _ _)

theorem createTaskHandler_answers : Answers (createTaskHandler env) := by
  intro req b
  refine Framing.attempt ?_ (parseError_framing env)
  dsimp only
  split
  · exact .pair (.error _)
  · split_ifs
    · exact .pair (.badRequest _ _)
    · exact .pair (.bind fun _ => .json _)

theorem batchCreateTasks_framing (what : Exn → Str) (config : DownloadConfig) (attempts : ℕ → Attempt)
    (parse : Str → Except Exn JsonValue) (reqBody : Str) (p : Progress) :
    Framing (batchCreateTasks what config attempts parse reqBody p).1 := by
  refine Framing.attempt ?_ fun e p => .pair (.badRequest _ _)
  unfold batchBody
  split
  · exact .pair (.error _)
  · split
    · exact .pair (.error _)
    · exact .pair (.badRequest _ _)
    · split
      · exact .pair (.error _)
      · exact .pair (.json _)

theorem batchCreateTasksHandler_answers : Answers (batchCreateTasksHandler env) := by
  intro req b
  unfold batchCreateTasksHandler
  exact .pair (batchCreateTasks_framing _ _ _ _ _ _)

theorem getStatus_answers : Answers (getStatus env) := by
  intro req b
  unfold getStatus
  dsimp only
  split_ifs
  · exact .pair (.badRequest _ _)
  · split
    · exact .pair (.notFound _ _)
    · exact .pair (.json _)

theorem batchGetStatus_answers : Answers (batchGetStatus env) := by
  intro req b
  refine Framing.attempt (.pair (.bind fun body => ?_)) (parseError_framing env)
  split
  · exact .bind fun _ => .json _
  · exact .badRequest _ _

theorem downloadFile_answers : Answers (downloadFile env) := by
  intro req b
  unfold downloadFile
  dsimp only
  split_ifs
  · exact .pair (.badRequest _ _)
  · exact .pair (.notFound _ _)
  all_goals exact .pair <| .ok (Response.framed_downloadFile _ _)

theorem stream_answers : Answers (stream env) := by
  intro req b
  unfold stream
  dsimp only
  split_ifs
  · exact .pair (.badRequest _ _)
  · exact .pair (.notFound _ _)
  · exact .pair <| .ok (Response.framed_streamFile _)

end DownloadController

namespace SearchController

variable (MD5 : Str → Fin 16 → Byte) (clock : ℕ → ℕ → ℤ) (server : ℕ → ℕ → Str → Option (Str × Str))
  (c : BilibiliClient)

theorem search_framing {hex : ℕ → ℤ} {req : Request} {answer : Except Exn Response}
    (h : search MD5 clock server c hex req = some answer) : Framing answer := by
  unfold search at h
  dsimp only at h
  split_ifs at h
  · obtain rfl := Option.some.inj h
    exact .badRequest _ _
  · obtain ⟨found, -, rfl⟩ := Option.map_eq_some_iff.1 h
    exact .json _

theorem respond_framing (what : Exn → Str) (total : ℕ) (searchResults : List BatchSearchResult) :
    Framing (respond what total searchResults) := by
  unfold respond
  split
  · next resp hjson =>
    rw [← hjson]
    exact .json _
  · exact .badRequest _ _

theorem batchSearch_framing {what : Exn → Str} {parse : Str → Except Exn JsonValue} {reqBody : Str}
    {schedule : List Pool.Event} {answer : Except Exn Response}
    (h : batchSearch MD5 clock server c what parse reqBody schedule = some answer) : Framing answer := by
  unfold batchSearch at h
  split at h
  · obtain rfl := Option.some.inj h
    exact .badRequest _ _
  · obtain rfl := Option.some.inj h
    exact .badRequest _ _
  · dsimp only at h
    split_ifs at h
    obtain ⟨searchResults, -, rfl⟩ := Option.map_eq_some_iff.1 h
    exact respond_framing _ _ _

end SearchController

namespace StaticFileHandler

theorem headerOk_contentType (path : Str) :
    Response.HeaderOk (lit "Content-Type", contentTypeForPath path) := by
  have hall : ∀ e ∈ contentTypes, Response.HeaderOk (lit "Content-Type", e.2) := by decide +kernel
  have hother : Response.HeaderOk (lit "Content-Type", lit "application/octet-stream") :=
    Response.fixedHeaders_ok _ (by simp [Response.fixedHeaders])
  unfold contentTypeForPath
  cases h : contentTypes.find? fun e => (find e.1 path).isSome with
  | none => exact hother
  | some e => exact hall e (List.mem_of_find?_eq_some h)

theorem handle_framing (h : StaticFileHandler) (t : FileTree.Tree) (gzipCompress : Str → Str) (req : Request) :
    Framing (h.handle t gzipCompress req) := by
  have hgzip : Response.HeaderOk (lit "Content-Encoding", lit "gzip") ∧
      Response.HeaderOk (lit "Vary", lit "Accept-Encoding") := by decide +kernel
  unfold handle
  refine Framing.bind fun located => ?_
  split
  · exact .notFound _ _
  · exact .forbidden _ _
  · refine .ok ?_
    unfold respond
    dsimp only
    split_ifs
    · exact ((Response.framed_file _ (headerOk_contentType _)).setHeader hgzip.1).setHeader hgzip.2
    · exact Response.framed_file _ (headerOk_contentType _)

end StaticFileHandler

/-! ## The server -/

namespace Main

variable {ψ : Type}

theorem onRest_answers {handler : Handler ψ} (h : Answers handler) : Answers (onRest handler) :=
  fun req app => h req app.rest

theorem deletion_answers {handler : Handler ψ} (h : Answers handler) : Answers (deletion handler) :=
  fun req app => h req app.rest

theorem middleware_framed (env : Env ψ) {mw : Middleware (App ψ)} (hmw : mw ∈ (router env).middlewares)
    (req : Request) (app : App ψ) {resp : Response} (h : (mw req app).1 = .ok (some resp)) : resp.Framed := by
  have hanswer {answer : Except Exn Response} (hframing : Framing answer)
      (hr : answer.map some = .ok (some resp)) : resp.Framed := by
    cases answer with
    | error e => cases hr
    | ok r => exact hframing resp (congrArg _ (Option.some.inj (Except.ok.inj hr)))
  have htext : (0 : ℤ) ≤ 429 ∧ Plain (lit "Too Many Requests") := ⟨by omega, Framing.statusTexts.2.2⟩
  rw [router_middlewares, List.mem_cons] at hmw
  rcases hmw with rfl | hmw
  · unfold rateLimit at h
    dsimp only at h
    split_ifs at h
    · exact hanswer (.refusal htext _ _) h
    · cases h
  · split_ifs at hmw
    · cases hmw
    · obtain rfl := List.mem_singleton.1 hmw
      unfold requireToken at h
      dsimp only at h
      split_ifs at h
      · cases h
      · cases h
      · dsimp only at h
        exact hanswer (.forbidden _ _) h

theorem verified_framing (token : Str) : Framing (verified token) := by
  unfold verified
  exact .json _

theorem protectionVerify_answers (passwordOf : Str → Except Exn Str) (draws : ℕ → Fin 16) :
    Answers (@protectionVerify ψ passwordOf draws) := by
  intro req app
  unfold protectionVerify
  split_ifs
  · exact .pair (verified_framing _)
  · refine Framing.attempt ?_ fun e app => .pair (.badRequest _ _)
    split
    · exact .pair (.error _)
    · split_ifs
      · exact .pair (verified_framing _)
      · exact .pair (.forbidden _ _)

theorem protectionStatus_answers : Answers (@protectionStatus ψ) := by
  intro req app
  unfold protectionStatus
  exact .pair (.json _)

/-- The controllers answer with framed responses. -/
structure Controllers.Frames (ctrl : Controllers ψ) : Prop where
  createTask : Answers ctrl.createTask
  getStatus : Answers ctrl.getStatus
  batchGetStatus : Answers ctrl.batchGetStatus
  downloadFile : Answers ctrl.downloadFile
  stream : Answers ctrl.stream
  search : Answers ctrl.search
  batchSearch : Answers ctrl.batchSearch
  batchCreateTasks : Answers ctrl.batchCreateTasks
  list : Answers ctrl.list
  remove : Answers ctrl.remove
  batchRemove : Answers ctrl.batchRemove
  batchDownload : Answers ctrl.batchDownload
  generatePlaylist : Answers ctrl.generatePlaylist
  lyrics : Answers ctrl.lyrics
  staticFile : Answers ctrl.staticFile

theorem router_answers {env : Env ψ} (h : env.ctrl.Frames) :
    (router env).Serves fun _ handler => Answers handler := by
  have plain : ∀ {router : Router (App ψ)} {method pattern} {handler : Handler ψ}, Answers handler →
      router.Serves (fun _ handler => Answers handler) → Router.hasParams pattern = false →
      (router.addRoute method pattern (onRest handler)).Serves fun _ handler => Answers handler :=
    fun hanswers hserves hp => hserves.addRoute hp fun _ _ _ => onRest_answers hanswers
  have optional : ∀ {router : Router (App ψ)} {enabled : Bool} {mw},
      router.Serves (fun _ handler => Answers handler) →
      (if enabled then router.addMiddleware mw else router).Serves fun _ handler => Answers handler := by
    intro router enabled mw hserves
    split_ifs
    · exact hserves.addMiddleware mw
    · exact hserves
  refine Router.Serves.addCatchAllRoute ?_ fun _ => onRest_answers h.staticFile
  refine plain h.lyrics (plain h.generatePlaylist (plain h.batchDownload ?_ rfl) rfl) rfl
  refine Router.Serves.addRoute ?_ rfl fun _ _ _ => deletion_answers h.batchRemove
  refine Router.Serves.addRoute ?_ rfl fun _ _ _ => deletion_answers h.remove
  refine optional (Router.Serves.addRoute ?_ rfl fun _ _ _ => protectionVerify_answers _ _)
  refine Router.Serves.addRoute ?_ rfl fun _ _ _ => protectionStatus_answers
  exact plain h.list (plain h.batchCreateTasks (plain h.batchSearch (plain h.search (plain h.stream
    (plain h.downloadFile (plain h.batchGetStatus (plain h.getStatus (plain h.createTask
      ((Router.Serves.empty _).addMiddleware _) rfl) rfl) rfl) rfl) rfl) rfl) rfl) rfl) rfl

/-- Every answer of the router is framed. -/
theorem dispatch_framing {env : Env ψ} (h : env.ctrl.Frames) (app : App ψ) (a : Arrival) :
    Framing (dispatch env app a).1 :=
  Router.dispatch_framing (fun _ hmw req app _ hr => middleware_framed env hmw req app hr) (router_answers h) _ _

end Main

/-- A worker task answers that the request is bad, or with what the handler gives. -/
theorem answer_response {σ : Type} {dispatch : Request → σ → Except Exn Response × σ} {taskData : Str} {app : σ}
    {resp : Response} (h : (answer dispatch taskData app).response = some resp) :
    badRequest = .ok resp ∨ ∃ req, (dispatch req app).1 = .ok resp := by
  have hok (e : Except Exn Response) (he : e.toOption = some resp) : e = .ok resp := by
    cases e with
    | error e => cases he
    | ok r => exact congrArg _ (Option.some.inj he)
  unfold answer at h
  -- a variable, so that nothing evaluates the text of the response
  generalize badRequest = bad at h ⊢
  split at h
  · cases h
  · exact Or.inl (hok bad h)
  · next req _ => exact Or.inr ⟨req, hok (dispatch req app).1 h⟩

namespace Api

open Main

/-- The controllers outside the backend answer with framed responses. -/
def Outside.Frames (out : Outside) : Prop :=
  ∀ req, Framing (out.search req) ∧ Framing (out.batchSearch req) ∧ Framing (out.staticFile req)

/-- So do the search controller and the static files, whatever Bilibili answers, however the pool
    runs and whatever files there are. -/
theorem frames_of_source {out : Outside}
    (hsearch : ∀ req, ∃ MD5 clock server c hex,
      SearchController.search MD5 clock server c hex req = some (out.search req))
    (hbatch : ∀ req, ∃ MD5 clock server c what parse schedule,
      SearchController.batchSearch MD5 clock server c what parse req.body schedule = some (out.batchSearch req))
    (hstatic : ∀ req, ∃ (h : StaticFileHandler) (t : FileTree.Tree) (gzipCompress : Str → Str),
      h.handle t gzipCompress req = out.staticFile req) : out.Frames := by
  intro req
  obtain ⟨MD5, clock, server, c, hex, hsearch⟩ := hsearch req
  obtain ⟨MD5', clock', server', c', what, parse, schedule, hbatch⟩ := hbatch req
  obtain ⟨h, t, gzipCompress, hstatic⟩ := hstatic req
  refine ⟨?_, ?_, ?_⟩
  · exact SearchController.search_framing _ _ _ _ hsearch
  · exact SearchController.batchSearch_framing _ _ _ _ hbatch
  · rw [← hstatic]
    exact StaticFileHandler.handle_framing h t gzipCompress req

theorem controllers_frames {out : Outside} (h : out.Frames) : (controllers out).Frames where
  createTask := DownloadController.createTaskHandler_answers _
  getStatus := DownloadController.getStatus_answers _
  batchGetStatus := DownloadController.batchGetStatus_answers _
  downloadFile := DownloadController.downloadFile_answers _
  stream := DownloadController.stream_answers _
  search req _ := (h req).1
  batchSearch req _ := (h req).2.1
  batchCreateTasks := DownloadController.batchCreateTasksHandler_answers _
  list req b := LibraryController.list_answers _ req b.shelf
  remove req b := LibraryController.remove_answers _ req b.shelf
  batchRemove req b := LibraryController.batchRemove_answers _ req b.shelf
  batchDownload req b := LibraryController.batchDownload_answers _ req b.shelf
  generatePlaylist req b := LibraryController.generatePlaylist_answers _ req b.shelf
  lyrics req b := LibraryController.lyrics_answers _ req b.shelf
  staticFile req _ := (h req).2.2

/-- **A client reads every answer as it was built**: whatever the request, the state and the texts in
    them are, it reads the status, the headers that the server has set and the body, and what comes
    behind the answer is left. -/
theorem dispatch_read (settings : Settings) {out : Outside} (hout : out.Frames) (app : App Backend)
    (a : Arrival) {resp : Response} (h : (dispatch (settings.env out) app a).1 = .ok resp) {body : Str}
    (hlen : (body.length : ℤ) = resp.contentLen) (rest : Str) :
    Reply.read (resp.serializeHeaders ++ body ++ rest) = some (resp.reply body, rest) :=
  have hframed := @dispatch_framing _ (settings.env out) (controllers_frames hout) app a resp h
  (hframed.writes hlen).read_append rest

/-- Whatever bytes a worker task has taken, the response that it gives is framed. -/
theorem answer_framed (settings : Settings) {out : Outside} (hout : out.Frames) (now : ℕ) (taskData : Str)
    (app : App Backend) {resp : Response}
    (h : (answer (fun req app => dispatch (settings.env out) app ⟨now, req⟩) taskData app).response = some resp) :
    resp.Framed := by
  rcases answer_response h with hbad | ⟨req, hreq⟩
  · exact Framing.badRequest (lit "bad_request") (lit "Invalid request") resp hbad
  · exact @dispatch_framing _ (settings.env out) (controllers_frames hout) app ⟨now, req⟩ resp hreq

/-- Is a password set? -/
def askStatus : Arrival := ⟨0, ⟨.GET, lit "/api/protection/status", [], .empty, [], 0, .empty⟩⟩

def enabled : Response where
  body := lit "\x7b\"enabled\":true\x7d"
  headers := .ofList [(lit "Content-Type", lit "application/json"), (lit "Access-Control-Allow-Origin", lit "*")]

theorem askStatus_read : Reply.read (enabled.serializeHeaders ++ enabled.body ++ lit "HTTP") =
    some (enabled.reply enabled.body, lit "HTTP") := by
  have hempty : Response.Framed {} :=
    @Response.framed_of {} [] Response.ok_framed.1 Response.ok_framed.2 rfl (List.forall_mem_nil _)
  have hquiet : quiet.Frames := fun _ => ⟨.ok hempty, .ok hempty, .ok hempty⟩
  have hanswer : ((dispatch (pwSettings.env quiet) (exec pwSettings oneSong []) askStatus).1).toOption =
      some enabled := by decide +kernel
  have hok : (dispatch (pwSettings.env quiet) (exec pwSettings oneSong []) askStatus).1 = .ok enabled := by
    generalize (dispatch (pwSettings.env quiet) (exec pwSettings oneSong []) askStatus).1 = answer at hanswer ⊢
    cases answer with
    | error e => cases hanswer
    | ok resp => exact congrArg _ (Option.some.inj hanswer)
  exact dispatch_read pwSettings hquiet (exec pwSettings oneSong []) askStatus hok (by decide +kernel) (lit "HTTP")

end Api

end NarMusic
