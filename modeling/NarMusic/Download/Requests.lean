/-
  Downloads over HTTP (`presentation/controllers/download_controller.cpp`,
  `application/streaming_service.cpp`): the handlers of `DownloadController` on the tasks and the
  library.

  A task is asked for by its id.  The file of a finished task is served from the task; any other
  name is looked up in the library, and the song is marked as used.
-/
import NarMusic.Download.BatchCreate
import NarMusic.Download.LibraryController
import NarMusic.Server.StreamSender

namespace NarMusic

open Cxx

/-- `Task::toJson` -/
def Task.toJson (task : Task) : Json :=
  .object ([(lit "task_id", .str task.id), (lit "url", .str task.url),
    (lit "is_downloading", .bool (task.status = .Downloading)),
    (lit "is_finished", .bool (task.status = .Finished ∨ task.status = .Failed)),
    (lit "is_success", .bool (task.status = .Finished)), (lit "downloaded_bytes", .int task.downloadedBytes)] ++
    (if task.status = .Failed then [(lit "error", .str (lit "download_failed"))] else []) ++
    if task.status = .Finished then
      [(lit "file_info", .object [(lit "filename", .str (
        if task.displayName ≠ [] ∧ ¬ task.displayName.contains 46 then task.displayName ++ lit ".m4a"
        else task.displayName)), (lit "filesize", .int task.downloadedBytes)])]
    else [])

/-- The tasks and the library. -/
structure Backend where
  service : Download.Service
  shelf : Shelf

/-- What the code outside answers while a request is handled. -/
structure Surroundings extends LibraryController.Surroundings where
  config : DownloadConfig
  /-- The clock that a task reads when it is constructed. -/
  now : Time
  attempts : ℕ → DownloadController.Attempt
  getFileSize : Str → ℤ

/-! ## The service -/

namespace StreamingService

variable (env : Surroundings)

def getFilePath (taskIdOrFilename : Str) (b : Backend) : Str × Backend :=
  let library :=
    match b.shelf.table.findBySystemFilename env.tie taskIdOrFilename with
    | some entry => (entry.filePath, { b with shelf := { b.shelf with table := b.shelf.table.markUsed entry.id (env.clock 0) } })
    | none => ([], b)
  match b.service.tasks.findById taskIdOrFilename env.now with
  | some task => if task.status = .Finished then (task.filePath, b) else library
  | none => library

def streamFileInfo (taskIdOrFilename rangeHeader : Str) (b : Backend) : FileStreamInfo × Backend :=
  let (filePath, b) := getFilePath env taskIdOrFilename b
  (if filePath = [] then {}
    else StreamSender.resolveStreamInfo (env.getFileSize filePath) filePath rangeHeader, b)

def getDisplayName (taskIdOrFilename : Str) (b : Backend) : Str :=
  match b.service.tasks.findById taskIdOrFilename env.now with
  | some task => task.displayName
  | none =>
    match b.shelf.table.findBySystemFilename env.tie taskIdOrFilename with
    | some entry => if entry.originalFilename ≠ [] then entry.originalFilename else entry.songName
    | none => []

end StreamingService

/-! ## The controller -/

namespace DownloadController

variable (env : Surroundings)

def readRequest (body : JsonValue) : Except Exn CreateTaskRequest := do
  let url ← body.stringOr "url"
  let url ← (if url = [] then body.stringOr "content" else .ok url)
  let filename ← body.stringOr "filename"
  let platform ← body.value JsonValue.getString "platform" (lit "网易云音乐")
  let delayMs ← body.value JsonValue.getInt "offsetMs" 0
  return { url, filename, platform, delayMs }

/-- A `catch` of the controller. -/
def parseError (e : Exn) (b : Backend) : Except Exn Response × Backend :=
  (Response.error 400 (lit "Bad Request") (lit "parse_error") (env.what e), b)

/-- `DownloadController::createTask` -/
def createTaskHandler : Handler Backend := fun req =>
  attempt (fun b =>
    match env.parse req.body >>= readRequest with
    | .error e => (.error e, b)
    | .ok taskReq =>
      if taskReq.url = [] then
        (Response.error 400 (lit "Bad Request") (lit "missing_url") (lit "URL不能为空"), b)
      else
        let (outcome, service) := createTask env.config (env.attempts 0) b.service taskReq
        (outcome >>= fun taskId => Response.json 200 (lit "OK") (.object [(lit "task_id", .str taskId),
          (lit "message", .str (lit "download_started")), (lit "url", .str taskReq.url)]), { b with service }))
    (parseError env)

def batchCreateTasksHandler : Handler Backend := fun req b =>
  let (answer, p) := batchCreateTasks env.what env.config env.attempts env.parse req.body { service := b.service }
  (answer, { b with service := p.service })

def getStatus : Handler Backend := fun req b =>
  let taskId := req.queryParam env.hex (lit "task_id")
  if taskId = [] then
    (Response.error 400 (lit "Bad Request") (lit "missing_task_id") (lit "task_id参数缺失"), b)
  else match b.service.tasks.findById taskId env.now with
    | none => (Response.error 404 (lit "Not Found") (lit "task_not_found") (lit "任务不存在"), b)
    | some task => (Response.json 200 (lit "OK") task.toJson, b)

/-- The status of one of the ids. -/
def statusOf (tasks : TaskTable) (id : JsonValue) : Except Exn Json := do
  let taskId ← id.getString
  return match tasks.findById taskId env.now with
    | some task => task.toJson
    | none => .object [(lit "task_id", .str taskId), (lit "is_finished", .bool true), (lit "is_success", .bool false),
        (lit "error", .str (lit "task_not_found"))]

def batchGetStatus : Handler Backend := fun req =>
  attempt (fun b =>
    (env.parse req.body >>= fun body =>
      match body.array "task_ids" with
      | some ids => do
        Response.json 200 (lit "OK") (.object [(lit "results", .arr (← ids.mapM (statusOf env b.service.tasks)))])
      | none => Response.error 400 (lit "Bad Request") (lit "missing_task_ids") (lit "task_ids数组参数缺失"), b))
    (parseError env)

/-- The id or the file name that a request for a file gives. -/
def requestedId (req : Request) : Str :=
  if req.queryParam env.hex (lit "task_id") = [] then req.queryParam env.hex (lit "filename")
  else req.queryParam env.hex (lit "task_id")

def downloadFile : Handler Backend := fun req b =>
  let id := requestedId env req
  if id = [] then
    (Response.error 400 (lit "Bad Request") (lit "missing_id") (lit "task_id或filename参数缺失"), b)
  else
    let (info, b) := StreamingService.streamFileInfo env id [] b
    if info.filePath = [] ∨ info.fileSize ≤ 0 then
      (Response.error 404 (lit "Not Found") (lit "file_not_found") (lit "文件不存在"), b)
    else
      let displayName := StreamingService.getDisplayName env id b
      let displayName := if displayName = [] then id else displayName
      let displayName := if displayName.contains 46 then displayName else displayName ++ lit ".m4a"
      (.ok (Response.downloadFile info displayName), b)

def stream : Handler Backend := fun req b =>
  let id := requestedId env req
  if id = [] then
    (Response.error 400 (lit "Bad Request") (lit "missing_id") (lit "task_id或filename参数缺失"), b)
  else
    let (info, b) := StreamingService.streamFileInfo env id (req.header (lit "Range")) b
    if info.filePath = [] ∨ info.fileSize ≤ 0 then
      (Response.error 404 (lit "Not Found") (lit "file_not_found") (lit "文件不存在"), b)
    else (.ok (Response.streamFile info), b)

end DownloadController

end NarMusic
