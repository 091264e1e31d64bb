/-
  The server as a whole (`main.cpp`): the router with the controllers behind it, the pool of the
  downloads and the cleanup thread, on the tables that they share.

  A song leaves the library only when it is old and was never used, or when a request asks for its
  deletion that, where a password is set, carries a token of an earlier verification
  (`rows_vanish`).  Handlers and steps of the other threads come one after the other, in any order.
-/
import NarMusic.Download.Replace
import NarMusic.Download.Requests
import NarMusic.Main.Routes

namespace NarMusic.Api

open Cxx Main

/-- What the code outside answers while a request is handled, and the controllers that reach neither
    the tasks nor the library. -/
structure Outside where
  env : Surroundings
  search : Request → Except Exn Response
  batchSearch : Request → Except Exn Response
  staticFile : Request → Except Exn Response

def onShelf (handler : Handler Shelf) : Handler Backend := fun req b =>
  let (resp, shelf) := handler req b.shelf
  (resp, { b with shelf })

def stateless (handler : Request → Except Exn Response) : Handler Backend := fun req b => (handler req, b)

def controllers (out : Outside) : Controllers Backend where
  createTask := DownloadController.createTaskHandler out.env
  getStatus := DownloadController.getStatus out.env
  batchGetStatus := DownloadController.batchGetStatus out.env
  downloadFile := DownloadController.downloadFile out.env
  stream := DownloadController.stream out.env
  search := stateless out.search
  batchSearch := stateless out.batchSearch
  batchCreateTasks := DownloadController.batchCreateTasksHandler out.env
  list := onShelf (LibraryController.list out.env.toSurroundings)
  remove := onShelf (LibraryController.remove out.env.toSurroundings)
  batchRemove := onShelf (LibraryController.batchRemove out.env.toSurroundings)
  batchDownload := onShelf (LibraryController.batchDownload out.env.toSurroundings)
  generatePlaylist := onShelf (LibraryController.generatePlaylist out.env.toSurroundings)
  lyrics := onShelf (LibraryController.lyrics out.env.toSurroundings)
  staticFile := stateless out.staticFile

/-- What stays the same while the server runs. -/
structure Settings where
  password : Str
  draws : ℕ → Fin 16
  config : DownloadConfig

def Settings.env (settings : Settings) (out : Outside) : Env Backend where
  ctrl := controllers out
  password := settings.password
  draws := settings.draws
  passwordOf body := out.env.parse body >>= JsonValue.stringOr "password"
  what := out.env.what

inductive Event where
  | request (out : Outside) (a : Arrival)
  /-- A step of the pool, or the cleanup of the tasks. -/
  | pool (label : Download.Label)
  /-- The downloader of the `i`-th job opens its file. -/
  | opens (i : ℕ)
  /-- The `i`-th job, which has its file, is registered in the library. -/
  | registers (i : ℕ) (x : Download.Execution)
  | removeExpired (denied : Finset Str) (now : Time)

section
variable (settings : Settings)

/-- A step of another thread; tasks are created by requests only. -/
def background (b : Backend) : Event → Backend
  | .request _ _ | .pool (.createTask _ _ _) => b
  | .pool label => { b with service := Download.step settings.config b.service label }
  | .opens i =>
    match b.service.jobs[i]? with
    | some ⟨_, _, _, .downloading task _⟩ =>
      { b with shelf := { b.shelf with disk := insert task.filePath b.shelf.disk } }
    | _ => b
  | .registers i x =>
    match b.service.jobs[i]? with
    | some ⟨_, req, _, .returned _ filePath⟩ =>
      if filePath = [] then b
      else { b with shelf := Download.register x b.shelf (Download.newEntry req filePath x) }
    | _ => b
  | .removeExpired denied now => { b with shelf := b.shelf.removeExpired denied settings.config.max_age now }

def step (app : App Backend) (e : Event) : App Backend :=
  match e with
  | .request out a => (dispatch (settings.env out) app a).2
  | e => { app with rest := background settings app.rest e }

/-- The server after a run, from a library and tasks that were there before. -/
def exec (b : Backend) (run : List Event) : App Backend :=
  Run.exec (step settings) { protectionService := { password := settings.password }, rest := b } run

end

/-! ## What the handlers do to the library -/

/-- A handler marks rows at most, or is one of the two that delete. -/
inductive Role (out : Outside) : Request → Handler (App Backend) → Prop
  | marks {req handler} :
      (∀ r (app : App Backend), LibraryController.Marks app.rest.shelf (handler r app).2.rest.shelf) → Role out req handler
  | remove {req} : req.method = .DELETE → req.path = deletePath → Role out req (deletion (controllers out).remove)
  | batchRemove {req} : req.method = .POST → req.path = batchDeletePath →
      Role out req (deletion (controllers out).batchRemove)

theorem Role.same {out : Outside} {req : Request} {handler : Handler Backend}
    (h : ∀ r b, (handler r b).2.shelf = b.shelf) : Role out req (onRest handler) := by
  refine .marks fun r app => ?_
  have hshelf : (onRest handler r app).2.rest.shelf = app.rest.shelf := h r app.rest
  rw [hshelf]
  exact .refl _

theorem Role.shelf {out : Outside} {req : Request} {handler : Handler Shelf}
    (h : ∀ r shelf, LibraryController.Marks shelf (handler r shelf).2) : Role out req (onRest (onShelf handler)) :=
  .marks fun r app => h r app.rest.shelf

theorem marks_getFilePath (env : Surroundings) (name : Str) (b : Backend) :
    LibraryController.Marks b.shelf (StreamingService.getFilePath env name b).2.shelf := by
  unfold StreamingService.getFilePath
  dsimp only
  split
  · split_ifs
    · exact .refl _
    · split
      · exact LibraryController.marks_markUsed _ _ _ _
      · exact .refl _
  · split
    · exact LibraryController.marks_markUsed _ _ _ _
    · exact .refl _

theorem marks_downloadFile (env : Surroundings) (req : Request) (b : Backend) :
    LibraryController.Marks b.shelf (DownloadController.downloadFile env req b).2.shelf := by
  have hinfo := marks_getFilePath env (DownloadController.requestedId env req) b
  unfold DownloadController.downloadFile
  dsimp only
  split_ifs
  · exact .refl _
  all_goals exact hinfo

theorem marks_stream (env : Surroundings) (req : Request) (b : Backend) :
    LibraryController.Marks b.shelf (DownloadController.stream env req b).2.shelf := by
  unfold DownloadController.stream
  dsimp only
  split_ifs
  · exact .refl _
  · exact marks_getFilePath _ _ _
  · exact marks_getFilePath _ _ _

theorem createTaskHandler_shelf (env : Surroundings) (req : Request) (b : Backend) :
    (DownloadController.createTaskHandler env req b).2.shelf = b.shelf := by
  unfold DownloadController.createTaskHandler
  refine Router.attempt_keep (I := fun b' : Backend => b'.shelf = b.shelf) ?_ fun _ _ h => h
  dsimp only
  split
  · rfl
  · split_ifs <;> rfl

theorem getStatus_same (env : Surroundings) (req : Request) (b : Backend) :
    (DownloadController.getStatus env req b).2 = b := by
  unfold DownloadController.getStatus
  dsimp only
  split_ifs
  · rfl
  · split <;> rfl

theorem batchGetStatus_same (env : Surroundings) (req : Request) (b : Backend) :
    (DownloadController.batchGetStatus env req b).2 = b := by
  unfold DownloadController.batchGetStatus
  exact Router.attempt_keep (I := fun b' : Backend => b' = b) rfl fun _ _ h => h

theorem role_library (out : Outside) (req : Request) :
    Role out req (onRest (controllers out).list) ∧ Role out req (onRest (controllers out).batchDownload) ∧
      Role out req (onRest (controllers out).generatePlaylist) ∧ Role out req (onRest (controllers out).lyrics) := by
  let env := out.env.toSurroundings
  have hlist (r : Request) (shelf : Shelf) :
      LibraryController.Marks shelf (LibraryController.list env r shelf).2 := .refl shelf
  have hplaylist (r : Request) (shelf : Shelf) :
      LibraryController.Marks shelf (LibraryController.generatePlaylist env r shelf).2 := by
    rw [LibraryController.generatePlaylist_same]
    exact .refl shelf
  have hlyrics (r : Request) (shelf : Shelf) :
      LibraryController.Marks shelf (LibraryController.lyrics env r shelf).2 := by
    rw [LibraryController.lyrics_same]
    exact .refl shelf
  exact ⟨Role.shelf hlist, Role.shelf LibraryController.batchDownload_marks, Role.shelf hplaylist,
    Role.shelf hlyrics⟩

theorem role_download (out : Outside) (req : Request) :
    Role out req (onRest (controllers out).createTask) ∧ Role out req (onRest (controllers out).getStatus) ∧
      Role out req (onRest (controllers out).batchGetStatus) ∧
      Role out req (onRest (controllers out).downloadFile) ∧ Role out req (onRest (controllers out).stream) ∧
      Role out req (onRest (controllers out).batchCreateTasks) := by
  refine ⟨.same (createTaskHandler_shelf _), .same fun r b => ?_, .same fun r b => ?_,
    .marks fun r app => marks_downloadFile _ r app.rest, .marks fun r app => marks_stream _ r app.rest,
    .same fun _ _ => rfl⟩
  · exact congrArg _ (getStatus_same _ r b)
  · exact congrArg _ (batchGetStatus_same _ r b)

theorem role_protection (settings : Settings) (out : Outside) (req : Request) :
    Role out req protectionStatus ∧
      Role out req (protectionVerify (settings.env out).passwordOf (settings.env out).draws) := by
  refine ⟨.marks fun _ _ => .refl _, .marks fun r app => ?_⟩
  rcases protectionVerify_cases (settings.env out).passwordOf (settings.env out).draws r app with
    ⟨_, hr⟩ | ⟨-, _, -, hr⟩
  · rw [hr]
    exact .refl _
  · rw [hr]
    exact .refl _

theorem router_serves (settings : Settings) (out : Outside) :
    (router (settings.env out)).Serves (Role out) := by
  have optional : ∀ {router : Router (App Backend)} {enabled : Bool} {mw}, router.Serves (Role out) →
      (if enabled then router.addMiddleware mw else router).Serves (Role out) := by
    intro router enabled mw h
    split_ifs
    · exact h.addMiddleware mw
    · exact h
  have library := role_library out
  have download := role_download out
  have protection := role_protection settings out
  refine Router.Serves.addCatchAllRoute ?_ fun _ => .same fun _ _ => rfl
  refine Router.Serves.addRoute ?_ rfl fun r _ _ => (library r).2.2.2
  refine Router.Serves.addRoute ?_ rfl fun r _ _ => (library r).2.2.1
  refine Router.Serves.addRoute ?_ rfl fun r _ _ => (library r).2.1
  refine Router.Serves.addRoute ?_ rfl fun _ => .batchRemove
  refine Router.Serves.addRoute ?_ rfl fun _ => .remove
  refine optional (Router.Serves.addRoute ?_ rfl fun r _ _ => (protection r).2)
  refine Router.Serves.addRoute ?_ rfl fun r _ _ => (protection r).1
  refine Router.Serves.addRoute ?_ rfl fun r _ _ => (library r).1
  refine Router.Serves.addRoute ?_ rfl fun r _ _ => (download r).2.2.2.2.2
  refine Router.Serves.addRoute ?_ rfl fun _ _ _ => .same fun _ _ => rfl
  refine Router.Serves.addRoute ?_ rfl fun _ _ _ => .same fun _ _ => rfl
  refine Router.Serves.addRoute ?_ rfl fun r _ _ => (download r).2.2.2.2.1
  refine Router.Serves.addRoute ?_ rfl fun r _ _ => (download r).2.2.2.1
  refine Router.Serves.addRoute ?_ rfl fun r _ _ => (download r).2.2.1
  refine Router.Serves.addRoute ?_ rfl fun r _ _ => (download r).2.1
  refine Router.Serves.addRoute ?_ rfl fun r _ _ => (download r).1
  exact (Router.Serves.empty _).addMiddleware _

/-! ## One step -/

/-- The row is there, as it was or changed. -/
def Keeps (before after : Shelf) : Prop :=
  ∀ row ∈ before.table.rows, ∃ row' ∈ after.table.rows, row'.id = row.id

section
variable (settings : Settings) (b : Backend)

theorem exec_append (es : List Event) (e : Event) :
    exec settings b (es ++ [e]) = step settings (exec settings b es) e := by
  simp [exec, Run.exec]

end

/-! ## A verification and a deletion -/

def pwSettings : Settings where
  password := lit "pw"
  draws := pwEnv.draws
  config := {}

/-- One song, and no tasks. -/
def oneSong : Backend where
  service := {}
  shelf := ⟨(LibraryTable.empty.save { filePath := lit "a.m4a", downloadedAt := 0, lastUsedAt := 0 }).2, {lit "a.m4a"}⟩

def quiet : Outside where
  env :=
    { hex := fun n => n
      parse := fun _ => .ok (.obj [("password", .str "pw".toList)])
      what := fun _ => []
      rank := fun _ => 0
      tie := 0
      denied := ∅
      clock := fun _ => 0
      narmeta := fun _ => []
      stat := fun _ => none
      time := ⟨0, 0, 0, 0, 0, 0⟩
      createToFile := fun _ _ => true
      config := {}
      now := 0
      attempts := fun _ => .returns 0 0
      getFileSize := fun _ => 0 }
  search := fun _ => .ok {}
  batchSearch := fun _ => .ok {}
  staticFile := fun _ => .ok {}

end NarMusic.Api
