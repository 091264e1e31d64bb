/-
  HTTP requests: when a byte buffer holds a complete request, and what it says
  (`core/http/request.cpp`).

  Both functions look for the first blank line and read the header block line
  by line.  `substr` throws where a header line ends with its colon; in
  `isCompleteRequest` that happens for `Content-Length` only.
-/
import NarMusic.Lib.Bytes
import NarMusic.Lib.OrdMap

namespace NarMusic

open Cxx

def MAX_CONTENT_LENGTH : ℕ := 10 * 1024 * 1024

def crlf : Str := [13, 10]

/-- The end of the header block, `"\r\n\r\n"`. -/
def blankLine : Str := [13, 10, 13, 10]

def contentLengthKey : Str := lit "Content-Length"

inductive Method where
  | GET
  | POST
  | PUT
  | DELETE
  | UNKNOWN
  deriving DecidableEq, Repr

structure Request where
  method : Method
  path : Str
  queryString : Str
  headers : OrdMap Str Str
  body : Str
  bodyLength : ℕ
  pathParams : OrdMap Str Str

namespace Request

/-- `if (!s.empty() && s.back() == '\r') s.pop_back()`. -/
def popCR (s : Str) : Str := if s.getLast? = some 13 then s.dropLast else s

/-- The header loop of `isCompleteRequest`: the content length, or `none` at its early
    `return true`. -/
def contentLengthLoop : List Str → ℕ → Except Exn (Option ℕ)
  | [], contentLength => .ok (some contentLength)
  | line :: lines, contentLength =>
    match find [58] line with
    | none => contentLengthLoop lines contentLength
    | some colonPos =>
      if popCR (line.take colonPos) = contentLengthKey then
        match substr line (colonPos + 2) with
        | .error e => .error e
        | .ok val =>
          let contentLength := (stoul (popCR val)).getD contentLength
          if MAX_CONTENT_LENGTH < contentLength then .ok none
          else contentLengthLoop lines contentLength
      else contentLengthLoop lines contentLength

def isCompleteRequest (data : Str) : Except Exn Bool :=
  match find blankLine data, find crlf data with
  | some headerEnd, some headerLineEnd =>
    let bodyStart := headerEnd + 4
    let headerSectionStart := headerLineEnd + 2
    match substrLen data headerSectionStart (sizeSub headerEnd headerSectionStart) with
    | .error e => .error e
    | .ok headersStr =>
      match contentLengthLoop (getlines 10 headersStr) 0 with
      | .error e => .error e
      | .ok none => .ok true
      | .ok (some contentLength) => .ok (contentLength ≤ data.length - bodyStart)
  | _, _ => .ok false

def parseMethod (s : Str) : Method :=
  if s = lit "GET" then .GET
  else if s = lit "POST" then .POST
  else if s = lit "PUT" then .PUT
  else if s = lit "DELETE" then .DELETE
  else .UNKNOWN

/-- The header loop of `parse`. -/
def headerLoop : List Str → OrdMap Str Str → Except Exn (OrdMap Str Str)
  | [], headers => .ok headers
  | line :: lines, headers =>
    match find [58] line with
    | none => headerLoop lines headers
    | some colonPos =>
      match substr line (colonPos + 2) with
      | .error e => .error e
      | .ok value => headerLoop lines (headers.insert (line.take colonPos) (popCR value))

/-- The path and the query string of a request target. -/
def splitTarget (fullPath : Str) : Str × Str :=
  match find [63] fullPath with
  | some queryPos => (fullPath.take queryPos, fullPath.drop (queryPos + 1))
  | none => (fullPath, [])

/-- `bodyLength_`, read back from the header map. -/
def contentLength (headers : OrdMap Str Str) : ℕ :=
  match headers.get contentLengthKey with
  | some v => (stoul v).getD 0
  | none => 0

/-- The part of `parse` after the request line, which ends at `endLine`. -/
def parseFields (raw : Str) (endLine : ℕ) (method : Method) (target : Str × Str) :
    Except Exn (Option Request) :=
  match find blankLine raw with
  | none => .ok none
  | some headerEnd =>
    match substrLen raw (endLine + 2) (sizeSub headerEnd (endLine + 2)) with
    | .error e => .error e
    | .ok headersStr =>
      match headerLoop (getlines 10 headersStr) .empty with
      | .error e => .error e
      | .ok headers =>
        let bodyLength := contentLength headers
        if MAX_CONTENT_LENGTH < bodyLength then .ok none
        else .ok (some {
          method, path := target.1, queryString := target.2, headers, bodyLength,
          body := if 0 < bodyLength then (raw.drop (headerEnd + 4)).take bodyLength else [],
          pathParams := .empty })

/-- `parse` on a fresh request: `none` where it returns `false`. -/
def parse (raw : Str) : Except Exn (Option Request) :=
  if raw = [] then .ok none
  else match find crlf raw with
    | none => .ok none
    | some endLine =>
      let requestLine := raw.take endLine
      match find [32] requestLine with
      | none => .ok none
      | some firstSpace =>
        match find [32] (requestLine.drop (firstSpace + 1)) with
        | none => .ok none
        | some targetLength =>
          parseFields raw endLine (parseMethod (requestLine.take firstSpace))
            (splitTarget ((requestLine.drop (firstSpace + 1)).take targetLength))

/-- `header(key)`: the empty string when the header is absent. -/
def header (req : Request) (key : Str) : Str := (req.headers.get key).getD []

end Request

end NarMusic
