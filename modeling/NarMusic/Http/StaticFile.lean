/-
  The files of the web directory (`presentation/middleware/static_file_handler.cpp`).

  The path that is asked for is resolved, and its text is compared with the text of the
  web directory.  A text that begins so may lie beside the directory (`serves_below_iff`).
  The files do not change between the constructor and a request.
-/
import NarMusic.Lib.FileTree
import NarMusic.Http.Response

namespace NarMusic

open Cxx Path FileTree

structure StaticFileHandler where
  webDir : Str
  webDirCanonical : Str
  deriving DecidableEq

/-- What a request leads to. -/
inductive Located where
  | missing
  | outside
  | file (names : List Str) (content : Str)
  deriving DecidableEq

namespace StaticFileHandler

/-- The constructor.  `fs::absolute` throws for an empty path. -/
def create (t : Tree) (webDir : Str) : Except Exn StaticFileHandler :=
  match t.canonical webDir with
  | some names => .ok ⟨webDir, pathString names⟩
  | none =>
    if webDir = [] then .error (.other (lit "filesystem error: cannot make absolute path"))
    else .ok ⟨webDir, join (pathString t.cwd) webDir⟩

def contentTypes : List (Str × Str) :=
  [(lit ".html", lit "text/html; charset=utf-8"), (lit ".css", lit "text/css; charset=utf-8"),
    (lit ".json", lit "application/json; charset=utf-8"),
    (lit ".js", lit "application/javascript; charset=utf-8"), (lit ".png", lit "image/png"),
    (lit ".jpg", lit "image/jpeg"), (lit ".jpeg", lit "image/jpeg"), (lit ".svg", lit "image/svg+xml"),
    (lit ".ico", lit "image/x-icon"), (lit ".woff2", lit "font/woff2"), (lit ".woff", lit "font/woff")]

def contentTypeForPath (path : Str) : Str :=
  ((contentTypes.find? fun e => (find e.1 path).isSome).map (·.2)).getD (lit "application/octet-stream")

def requestedPath (h : StaticFileHandler) (req : Request) : Except Exn Str :=
  if req.path = lit "/" then .ok (join h.webDir (lit "index.html"))
  else (substr req.path 1).map (join h.webDir)

/-- The file `handle` opens.  A directory can be opened, and reading it throws. -/
def locate (h : StaticFileHandler) (t : Tree) (req : Request) : Except Exn Located :=
  (h.requestedPath req).bind fun requested =>
    match t.canonical requested with
    | none => .ok .missing
    | some names =>
      if find h.webDirCanonical (pathString names) ≠ some 0 then .ok .outside
      else match t.node names with
        | some (.file (some content)) => .ok (.file names content)
        | some .dir =>
          .error (.other (lit "basic_filebuf::underflow error reading the file: Is a directory"))
        | _ => .ok .missing

def acceptsGzip (req : Request) : Bool := (find (lit "gzip") (req.header (lit "Accept-Encoding"))).isSome

def isCompressible (contentType : Str) : Bool :=
  find (lit "text/") contentType = some 0 || find (lit "application/javascript") contentType = some 0 ||
    find (lit "application/json") contentType = some 0

/-- The response with a file's content; `gzipCompress` is empty where it fails. -/
def respond (gzipCompress : Str → Str) (req : Request) (names : List Str) (content : Str) : Response :=
  let contentType := contentTypeForPath (pathString names)
  if acceptsGzip req ∧ isCompressible contentType ∧ content.length > 256 ∧ gzipCompress content ≠ [] then
    ((Response.file (gzipCompress content) contentType).setHeader
      (lit "Content-Encoding") (lit "gzip")).setHeader (lit "Vary") (lit "Accept-Encoding")
  else Response.file content contentType

def handle (h : StaticFileHandler) (t : Tree) (gzipCompress : Str → Str) (req : Request) :
    Except Exn Response :=
  (h.locate t req).bind fun
    | .missing => Response.error 404 (lit "Not Found") (lit "file_not_found") (lit "文件不存在")
    | .outside => Response.error 403 (lit "Forbidden") (lit "forbidden") (lit "禁止访问")
    | .file names content => .ok (respond gzipCompress req names content)

end StaticFileHandler

/-- A web directory: a path of the tree that resolves to a directory. -/
structure WebDir (t : Tree) where
  path : Str
  names : List Str
  canonical : t.canonical path = some names
  isDir : t.node names = some .dir

/-- `handle` answers with the content of the file `names`. -/
def WebDir.Serves {t : Tree} (web : WebDir t) (gzipCompress : Str → Str) (req : Request)
    (names : List Str) : Prop :=
  ∃ h content, StaticFileHandler.create t web.path = .ok h ∧ h.locate t req = .ok (.file names content) ∧
    h.handle t gzipCompress req = .ok (StaticFileHandler.respond gzipCompress req names content)

/-- A readable file of the tree. -/
def Readable (t : Tree) (names : List Str) : Prop := ∃ content, t.node names = some (.file (some content))

/-- A request that resolves, and whose path in normal form is that of a readable file beside the web
    directory. -/
def WebDir.Strays {t : Tree} (web : WebDir t) (req : Request) : Prop :=
  ∃ requested, StaticFileHandler.requestedPath ⟨web.path, pathString web.names⟩ req = .ok requested ∧
    t.canonical requested ≠ none ∧ Readable t (t.lexical requested) ∧
    Beside web.names (t.lexical requested)

/-! ## What a request is answered -/

namespace StaticFileHandler

variable {h : StaticFileHandler} {t : Tree} {req : Request}

theorem create_webDir (web : WebDir t) : create t web.path = .ok ⟨web.path, pathString web.names⟩ := by
  rw [create, web.canonical]

theorem respond_status (gzipCompress : Str → Str) (names : List Str) (content : Str) :
    (respond gzipCompress req names content).status = 200 := by
  unfold respond
  dsimp only
  split_ifs <;> rfl

/-- An answer with status 200 is the content of the file that is located, and no other is. -/
theorem handle_status {gzipCompress : Str → Str} {r : Response}
    (hr : h.handle t gzipCompress req = .ok r) :
    r.status = 200 ↔ ∃ names content, h.locate t req = .ok (.file names content) ∧
      r = respond gzipCompress req names content := by
  unfold handle at hr
  cases hloc : h.locate t req with
  | error e =>
    rw [hloc] at hr
    cases hr
  | ok located =>
    rw [hloc] at hr
    simp only [Except.bind] at hr
    cases located with
    | missing =>
      simp only at hr
      simp [Response.error_status hr]
    | outside =>
      simp only at hr
      simp [Response.error_status hr]
    | file names content =>
      simp only [Except.ok.injEq] at hr
      simp [← hr, respond_status]

theorem locate_eq_file {names : List Str} {content : Str} :
    h.locate t req = .ok (.file names content) ↔
      ∃ requested, h.requestedPath req = .ok requested ∧ t.canonical requested = some names ∧
        h.webDirCanonical <+: pathString names ∧ t.node names = some (.file (some content)) := by
  unfold locate
  cases hpath : h.requestedPath req with
  | error e => simp [Except.bind]
  | ok requested =>
    simp only [Except.bind]
    cases hcan : t.canonical requested with
    | none => simp [hcan]
    | some resolved =>
      by_cases hpre : h.webDirCanonical <+: pathString resolved
      · simp only [find_head hpre, ne_eq, not_true_eq_false, if_false]
        constructor
        · intro hloc
          cases hnode : t.node resolved with
          | none => simp [hnode] at hloc
          | some node =>
            cases node with
            | dir => simp [hnode] at hloc
            | file readable =>
              cases readable with
              | none => simp [hnode] at hloc
              | some text =>
                simp only [hnode, Except.ok.injEq, Located.file.injEq] at hloc
                obtain ⟨rfl, rfl⟩ := hloc
                exact ⟨requested, rfl, hcan, hpre, hnode⟩
        · rintro ⟨_, hok, hres, -, hnode⟩
          cases hok
          rw [hcan] at hres
          cases hres
          simp [hnode]
      · have hfind : find h.webDirCanonical (pathString resolved) ≠ some 0 := fun hzero =>
          hpre (find_some hzero).1
        simp only [hfind, ne_eq, not_false_iff, if_true]
        constructor
        · nofun
        · rintro ⟨_, hok, hres, hin, -⟩
          cases hok
          rw [hcan] at hres
          cases hres
          exact absurd hin hpre

end StaticFileHandler

/-! ## Files in and beside the web directory -/

variable {t : Tree} (web : WebDir t)

theorem WebDir.names_valid : ∀ c ∈ web.names, ValidName c :=
  Tree.names_valid (t := t) (by simp [web.isDir])

theorem WebDir.serves_iff (gzipCompress : Str → Str) {req : Request} {names : List Str} :
    web.Serves gzipCompress req names ↔
      ∃ requested, StaticFileHandler.requestedPath ⟨web.path, pathString web.names⟩ req = .ok requested ∧
        t.canonical requested = some names ∧ Readable t names ∧
        (web.names <+: names ∨ Beside web.names names) := by
  constructor
  · rintro ⟨h, content, hcreate, hloc, -⟩
    rw [StaticFileHandler.create_webDir] at hcreate
    cases hcreate
    obtain ⟨requested, hpath, hcan, hpre, hnode⟩ := StaticFileHandler.locate_eq_file.1 hloc
    have hnames : ∀ c ∈ names, ValidName c := Tree.names_valid (Tree.canonical_node hcan)
    exact ⟨requested, hpath, hcan, ⟨content, hnode⟩, (pathString_prefix_iff web.names_valid hnames).1 hpre⟩
  · rintro ⟨requested, hpath, hcan, ⟨content, hnode⟩, hin⟩
    have hnames : ∀ c ∈ names, ValidName c := Tree.names_valid (Tree.canonical_node hcan)
    have hloc : StaticFileHandler.locate ⟨web.path, pathString web.names⟩ t req = .ok (.file names content) :=
      StaticFileHandler.locate_eq_file.2
        ⟨requested, hpath, hcan, (pathString_prefix_iff web.names_valid hnames).2 hin, hnode⟩
    refine ⟨_, content, StaticFileHandler.create_webDir web, hloc, ?_⟩
    rw [StaticFileHandler.handle, hloc]
    simp only [Except.bind]

/-- A readable file is not the directory itself. -/
theorem WebDir.below_iff {names : List Str} (h : Readable t names) :
    StrictPrefix web.names names ↔ web.names <+: names := by
  obtain ⟨content, hnode⟩ := h
  refine and_iff_left ?_
  rintro rfl
  rw [web.isDir] at hnode
  cases hnode

theorem WebDir.request_below_iff (gzipCompress : Str → Str) (req : Request) :
    (∀ names, web.Serves gzipCompress req names → StrictPrefix web.names names) ↔ ¬ web.Strays req := by
  constructor
  · rintro h ⟨requested, hpath, hres, hread, hbeside⟩
    obtain ⟨names, hcan⟩ := Option.ne_none_iff_exists'.1 hres
    rw [← Tree.canonical_eq_lexical hcan] at hread hbeside
    have hserves := (web.serves_iff gzipCompress).2
      ⟨requested, hpath, hcan, hread, Or.inr hbeside⟩
    exact not_beside_prefix hbeside (h names hserves).1
  · intro h names hserves
    obtain ⟨requested, hpath, hcan, hread, hin⟩ := (web.serves_iff gzipCompress).1 hserves
    refine (web.below_iff hread).2 (hin.resolve_right fun hbeside => h ⟨requested, hpath, ?_, ?_⟩)
    · rw [hcan]
      nofun
    · rw [← Tree.canonical_eq_lexical hcan]
      exact ⟨hread, hbeside⟩

/-- A second separator in front of a path makes it absolute. -/
theorem requestedPath_absolute (h : StaticFileHandler) (req : Request) {names : List Str}
    (hpath : req.path = sep :: pathString names) : h.requestedPath req = .ok (pathString names) := by
  have hne : req.path ≠ lit "/" := by
    rw [hpath]
    intro heq
    exact pathString_ne_nil names (List.cons.inj heq).2
  rw [StaticFileHandler.requestedPath, if_neg hne, hpath]
  simp [substr, Except.map, join_of_absolute (pathString_head names)]

/-- **The web directory.**  A request is served from the web directory unless it strays, and some
    request strays as soon as a readable file lies beside the directory. -/
theorem serves_below_iff (gzipCompress : Str → Str) :
    (∀ req, (∀ names, web.Serves gzipCompress req names → StrictPrefix web.names names) ↔
      ¬ web.Strays req) ∧
    ((∀ req names, web.Serves gzipCompress req names → StrictPrefix web.names names) ↔
      ∀ names, Readable t names → ¬ Beside web.names names) := by
  refine ⟨web.request_below_iff gzipCompress, ?_⟩
  constructor
  · intro h names hread hbeside
    let req : Request := ⟨.GET, sep :: pathString names, [], .empty, [], 0, .empty⟩
    have hexists : t.node names ≠ none := by
      obtain ⟨content, hnode⟩ := hread
      simp [hnode]
    have hserves := (web.serves_iff gzipCompress).2
      ⟨pathString names, requestedPath_absolute _ req rfl, Tree.canonical_pathString hexists,
        hread, Or.inr hbeside⟩
    exact not_beside_prefix hbeside (h req names hserves).1
  · intro h req names hserves
    obtain ⟨-, -, -, hread, hin⟩ := (web.serves_iff gzipCompress).1 hserves
    exact (web.below_iff hread).2 (hin.resolve_right (h names hread))

/-! ## A directory beside the web directory -/

def webName : Str := lit "web"

def webSecretName : Str := lit "web-secret"

def twoSitesNode (names : List Str) : Option Node :=
  if names = [] ∨ names = [webName] ∨ names = [webSecretName] then some .dir
  else if names = [webSecretName, lit "a.json"] then some (.file (some (lit "key")))
  else none

/-- The entries of the tree have a directory above them, and a name. -/
theorem twoSitesNode_concat {p : List Str} {c : Str} (h : twoSitesNode (p ++ [c]) ≠ none) :
    twoSitesNode p = some .dir ∧ ValidName c := by
  have hcases : (p = [] ∧ (c = webName ∨ c = webSecretName)) ∨ (p = [webSecretName] ∧ c = lit "a.json") := by
    by_contra hno
    have hpair : p ++ [c] ≠ [webSecretName] ++ [lit "a.json"] := fun heq => by
      simp only [List.append_singleton_inj] at heq
      exact hno (Or.inr heq)
    simp_all [twoSitesNode, List.append_eq_singleton_iff]
  rcases hcases with ⟨rfl, rfl | rfl⟩ | ⟨rfl, rfl⟩
  · exact ⟨rfl, by decide⟩
  · exact ⟨rfl, by decide⟩
  · exact ⟨rfl, by decide⟩

def twoSites : Tree where
  node := twoSitesNode
  cwd := []
  root := rfl
  parent h := (twoSitesNode_concat h).1
  valid h := (twoSitesNode_concat h).2
  cwd_dir := rfl

def webOfTwo : WebDir twoSites := ⟨webName, [webName], by decide +kernel, rfl⟩

theorem twoSites_served :
    ¬ ∀ names, webOfTwo.Serves id ⟨.GET, lit "/../web-secret/a.json", [], .empty, [], 0, .empty⟩ names →
      StrictPrefix webOfTwo.names names := by
  intro h
  refine absurd (h [webSecretName, lit "a.json"] ⟨_, lit "key", rfl, ?_, ?_⟩) (by decide +kernel)
  · rfl
  · rfl

end NarMusic
