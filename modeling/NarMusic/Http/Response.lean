/-
  HTTP responses and their bytes (`core/http/response.cpp`).

  A response carries its body, or names a range of a file that is streamed
  behind its header block.
-/
import NarMusic.Http.Request
import NarMusic.Http.Json
import NarMusic.Lib.Hex

namespace NarMusic

open Cxx

structure FileStreamInfo where
  filePath : Str := []
  fileSize : ℤ := 0
  rangeStart : ℤ := 0
  rangeEnd : ℤ := 0
  isPartial : Bool := false
  cleanupPath : Str := []
  deriving DecidableEq

structure Response where
  status : ℤ := 200
  statusText : Str := lit "OK"
  body : Str := []
  headers : OrdMap Str Str := .empty
  isFileStream : Bool := false
  fileStreamInfo : FileStreamInfo := {}
  deriving DecidableEq

namespace Response

def setHeader (r : Response) (key value : Str) : Response :=
  { r with headers := r.headers.insert key value }

def json (status : ℤ) (statusText : Str) (body : Json) : Except Exn Response :=
  body.dump.map fun text =>
    { status, statusText, body := text,
      headers := .ofList [(lit "Content-Type", lit "application/json"),
        (lit "Access-Control-Allow-Origin", lit "*")] }

def error (status : ℤ) (statusText code msg : Str) : Except Exn Response :=
  json status statusText (.object [(lit "error", .str code), (lit "message", .str msg)])

def file (content contentType : Str) : Response where
  body := content
  headers := .ofList [(lit "Content-Type", contentType), (lit "Cache-Control", lit "max-age=3600")]

/-- An upper-case hexadecimal digit. -/
def hexUpper (n : Byte) : Byte := if n < 10 then 48 + n else 55 + n

/-- The bytes `urlEncodeUtf8` leaves as they are. -/
def isUnreserved (c : Byte) : Bool :=
  (48 ≤ c && c ≤ 57) || (65 ≤ c && c ≤ 90) || (97 ≤ c && c ≤ 122) ||
    c = 45 || c = 95 || c = 46 || c = 126

def urlEncodeUtf8 (s : Str) : Str :=
  s.flatMap fun c => if isUnreserved c then [c] else [37, hexUpper (c / 16), hexUpper (c % 16)]

theorem hexUpper_unreserved {n : Byte} (h : n < 16) : isUnreserved (hexUpper n) = true := by
  have hall : ∀ m < 16, isUnreserved (hexUpper (.ofNat m)) = true := by decide
  simpa using hall n.toNat (UInt8.lt_iff_toNat_lt.1 h)

/-- What is escaped is ASCII, without the characters that have a meaning in a header or a query. -/
theorem mem_urlEncode {s : Str} {b : Byte} (h : b ∈ urlEncodeUtf8 s) : isUnreserved b ∨ b = 37 := by
  unfold urlEncodeUtf8 at h
  obtain ⟨c, -, hb⟩ := List.mem_flatMap.1 h
  split_ifs at hb with hc
  · rw [List.mem_singleton] at hb
    exact Or.inl (hb ▸ hc)
  · simp only [List.mem_cons, List.not_mem_nil, or_false] at hb
    rcases hb with rfl | rfl | rfl
    · exact Or.inr rfl
    · exact Or.inl (hexUpper_unreserved (nibbles c).1)
    · exact Or.inl (hexUpper_unreserved (nibbles c).2)

def downloadFile (info : FileStreamInfo) (displayName : Str) : Response where
  isFileStream := true
  fileStreamInfo := info
  headers := .ofList [(lit "Content-Type", lit "application/octet-stream"),
    (lit "Accept-Ranges", lit "bytes"), (lit "Connection", lit "keep-alive"),
    (lit "Access-Control-Allow-Origin", lit "*"),
    (lit "Access-Control-Expose-Headers", lit "Content-Disposition"),
    (lit "Content-Disposition", lit "attachment; filename=\"" ++ urlEncodeUtf8 displayName ++
      lit "\"; filename*=UTF-8''" ++ urlEncodeUtf8 displayName)]

/-- `Content-Range` of a partial response. -/
def contentRange (info : FileStreamInfo) : Str :=
  lit "bytes " ++ decInt info.rangeStart ++ lit "-" ++ decInt info.rangeEnd ++ lit "/" ++
    decInt info.fileSize

def streamFile (info : FileStreamInfo) : Response where
  status := if info.isPartial then 206 else 200
  statusText := if info.isPartial then lit "Partial Content" else lit "OK"
  isFileStream := true
  fileStreamInfo := info
  headers := .ofList ((if info.isPartial then [(lit "Content-Range", contentRange info)] else []) ++
    [(lit "Content-Type", lit "audio/mp4"), (lit "Accept-Ranges", lit "bytes"),
      (lit "Connection", lit "keep-alive"), (lit "Access-Control-Allow-Origin", lit "*"),
      (lit "Cache-Control", lit "no-cache, no-store, must-revalidate")])

/-- The status line and the lines of the header map. -/
def headLines (r : Response) : Str :=
  lit "HTTP/1.1 " ++ decInt r.status ++ lit " " ++ r.statusText ++ crlf ++
    r.headers.entries.flatMap fun h => h.1 ++ lit ": " ++ h.2 ++ crlf

/-- The `Content-Length` line, unless the header map has one. -/
def lengthLine (r : Response) (contentLen : ℤ) : Str :=
  if r.headers.get contentLengthKey = none then
    contentLengthKey ++ lit ": " ++ decInt contentLen ++ crlf
  else []

def connectionLine (r : Response) : Str :=
  if r.headers.get (lit "Connection") = none then lit "Connection: close" ++ crlf else []

def serialize (r : Response) : Str :=
  r.headLines ++ r.lengthLine r.body.length ++ r.connectionLine ++ crlf ++ r.body

/-- The content length `serializeHeaders` announces. -/
def contentLen (r : Response) : ℤ :=
  if r.isFileStream then r.fileStreamInfo.rangeEnd - r.fileStreamInfo.rangeStart + 1
  else r.body.length

def serializeHeaders (r : Response) : Str :=
  r.headLines ++ r.lengthLine r.contentLen ++ r.connectionLine ++ crlf

/-- The path to unlink when the response has been streamed. -/
def cleanupPath (r : Response) : Str :=
  if r.isFileStream then r.fileStreamInfo.cleanupPath else []

/-! ## The body of an error -/

/-- The code is written before the message, and nothing is when one of the two cannot be. -/
theorem dump_error (code msg : Str) :
    (Json.object [(lit "error", .str code), (lit "message", .str msg)]).dump = (do
      let codeText ← Json.dumpString code
      let msgText ← Json.dumpString msg
      return 123 :: (Json.joinComma [34 :: (lit "error" ++ [34]) ++ 58 :: codeText,
        34 :: (lit "message" ++ [34]) ++ 58 :: msgText] ++ [125])) := by
  have hobject : Json.object [(lit "error", .str code), (lit "message", .str msg)] =
      .obj [(lit "error", .str code), (lit "message", .str msg)] := rfl
  have htexts : (lit "error").all (· < 0x80) = true ∧ (lit "message").all (· < 0x80) = true ∧
      (lit "error").flatMap Json.escapeByte = lit "error" ∧
      (lit "message").flatMap Json.escapeByte = lit "message" := by decide +kernel
  obtain ⟨herror, hmessage, herror', hmessage'⟩ := htexts
  rw [hobject, Json.dump, Json.dumpMembers, Json.dumpMembers, Json.dumpMembers, Json.dump, Json.dump,
    Json.dumpString_ascii (Json.ascii_of_all herror), Json.dumpString_ascii (Json.ascii_of_all hmessage),
    herror', hmessage']
  cases Json.dumpString code with
  | error e => rfl
  | ok codeText =>
    cases Json.dumpString msg with
    | error e => rfl
    | ok msgText => rfl

theorem error_ok {code msg codeText msgText : Str} (hcode : Json.dumpString code = .ok codeText)
    (hmsg : Json.dumpString msg = .ok msgText) (status : ℤ) (statusText : Str) :
    ∃ r, error status statusText code msg = .ok r ∧ r.status = status ∧ r.statusText = statusText ∧
      r.body = 123 :: (Json.joinComma [34 :: (lit "error" ++ [34]) ++ 58 :: codeText,
        34 :: (lit "message" ++ [34]) ++ 58 :: msgText] ++ [125]) := by
  rw [error, json, dump_error, hcode, hmsg]
  exact ⟨_, rfl, rfl, rfl, rfl⟩

theorem error_status {status : ℤ} {statusText code msg : Str} {r : Response}
    (hr : error status statusText code msg = .ok r) : r.status = status := by
  rw [error, json] at hr
  cases hdump : (Json.object [(lit "error", .str code), (lit "message", .str msg)]).dump with
  | error e =>
    rw [hdump] at hr
    cases hr
  | ok text =>
    rw [hdump] at hr
    cases hr
    rfl

/-- With a code that is UTF-8, `error` throws exactly at a message that is not. -/
theorem error_dump {code : Str} (hcode : Json.utf8Valid code = true) (status : ℤ) (statusText msg : Str) :
    (Json.utf8Valid msg = true → ∃ r, error status statusText code msg = .ok r ∧ r.status = status) ∧
      (Json.utf8Valid msg = false → error status statusText code msg = .error .typeError) := by
  have hcodeText := Json.dumpString_valid hcode
  constructor
  · intro h
    obtain ⟨r, hr, hstatus, -, -⟩ := error_ok hcodeText (Json.dumpString_valid h) status statusText
    exact ⟨r, hr, hstatus⟩
  · intro h
    rw [error, json, dump_error, hcodeText, Json.dumpString_invalid h]
    rfl

end Response

end NarMusic
