/-
  The router that `main` builds (`main.cpp`): the rate limiter before every route,
  the routes of the controllers, the verification of the protection password and,
  where a password is set, the check that stands before the deletions.

  The controllers are parameters: they act on a state of their own (`rest`).
  `deletions` records the requests with which the handlers of the two delete routes
  are called.
-/
import NarMusic.Core.RateLimiter
import NarMusic.Core.ProtectionService
import NarMusic.Http.Router

namespace NarMusic.Main

open Cxx

structure App (ψ : Type) where
  rateLimiter : RateLimiter := ⟨{ maxRequests := 60, windowSeconds := 60 }, ∅⟩
  protectionService : ProtectionService
  /-- The clock the rate limiter reads. -/
  now : ℕ := 0
  deletions : List Request := []
  rest : ψ

/-- The handlers of the controllers and of the static files. -/
structure Controllers (ψ : Type) where
  createTask : Handler ψ
  getStatus : Handler ψ
  batchGetStatus : Handler ψ
  downloadFile : Handler ψ
  stream : Handler ψ
  search : Handler ψ
  batchSearch : Handler ψ
  batchCreateTasks : Handler ψ
  list : Handler ψ
  remove : Handler ψ
  batchRemove : Handler ψ
  batchDownload : Handler ψ
  generatePlaylist : Handler ψ
  lyrics : Handler ψ
  staticFile : Handler ψ

section
variable {ψ : Type}

/-- A handler on the state of the controllers. -/
def onRest (handler : Handler ψ) : Handler (App ψ) := fun req app =>
  let (resp, rest) := handler req app.rest
  (resp, { app with rest })

/-- A handler whose calls are recorded. -/
def deletion (handler : Handler ψ) : Handler (App ψ) := fun req app =>
  onRest handler req { app with deletions := app.deletions ++ [req] }

/-! ## Middlewares -/

def rateLimit : Middleware (App ψ) := fun req app =>
  let (allowed, rateLimiter) := app.rateLimiter.allow app.now req.path
  (if !allowed then
    (Response.error 429 (lit "Too Many Requests") (lit "rate_limited")
      (lit "请求过于频繁，请稍后再试")).map some
   else .ok none,
   { app with rateLimiter })

def deletePath : Str := lit "/api/library/delete"
def batchDeletePath : Str := lit "/api/library/batch-delete"
def verifyPath : Str := lit "/api/protection/verify"

def bearer : Str := lit "Bearer "

def requireToken : Middleware (App ψ) := fun req app =>
  if req.method ≠ .DELETE ∧ ¬ (req.method = .POST ∧ req.path = batchDeletePath) then (.ok none, app)
  else
    let authHeader := req.header (lit "Authorization")
    if bearer.length < authHeader.length ∧ authHeader.take bearer.length = bearer ∧
        app.protectionService.validateToken (authHeader.drop bearer.length) then
      (.ok none, app)
    else
      ((Response.error 403 (lit "Forbidden") (lit "protection_required") (lit "需要密码验证")).map some,
        app)

/-! ## The protection routes -/

def protectionStatus : Handler (App ψ) := fun _ app =>
  (Response.json 200 (lit "OK") (.object [(lit "enabled", .bool app.protectionService.isEnabled)]), app)

/-- The answer to a verification that succeeds. -/
def verified (token : Str) : Except Exn Response :=
  Response.json 200 (lit "OK") (.object [(lit "valid", .bool true), (lit "token", .str token)])

def protectionVerify (passwordOf : Str → Except Exn Str) (draws : ℕ → Fin 16) :
    Handler (App ψ) := fun req app =>
  if !app.protectionService.isEnabled then (verified [], app)
  else
    attempt (fun app =>
      match passwordOf req.body with
      | .error e => (.error e, app)
      | .ok password =>
        if app.protectionService.verifyPassword password then
          let (token, protectionService) := app.protectionService.generateToken draws
          (verified token, { app with protectionService })
        else
          (Response.error 403 (lit "Forbidden") (lit "wrong_password") (lit "密码错误"), app))
      (fun _ app =>
        (Response.error 400 (lit "Bad Request") (lit "parse_error") (lit "请求格式错误"), app)) app

/-! ## The router -/

/-- What `main` is built from: the controllers, the password of the configuration, the random
    digits, `json::parse(body).value("password", "")` and the text of an exception. -/
structure Env (ψ : Type) where
  ctrl : Controllers ψ
  password : Str
  draws : ℕ → Fin 16
  passwordOf : Str → Except Exn Str
  what : Exn → Str

def router (env : Env ψ) : Router (App ψ) :=
  let ctrl := env.ctrl
  let service : ProtectionService := { password := env.password }
  let router : Router (App ψ) := Router.addMiddleware {} rateLimit
  let router := router.addRoute .POST (lit "/api/message") (onRest ctrl.createTask)
  let router := router.addRoute .GET (lit "/api/download/status") (onRest ctrl.getStatus)
  let router := router.addRoute .POST (lit "/api/download/status/batch") (onRest ctrl.batchGetStatus)
  let router := router.addRoute .GET (lit "/api/download/file") (onRest ctrl.downloadFile)
  let router := router.addRoute .GET (lit "/api/download/stream") (onRest ctrl.stream)
  let router := router.addRoute .GET (lit "/api/search") (onRest ctrl.search)
  let router := router.addRoute .POST (lit "/api/search/batch") (onRest ctrl.batchSearch)
  let router := router.addRoute .POST (lit "/api/download/batch") (onRest ctrl.batchCreateTasks)
  let router := router.addRoute .GET (lit "/api/library/list") (onRest ctrl.list)
  let router := router.addRoute .GET (lit "/api/protection/status") protectionStatus
  let router := router.addRoute .POST verifyPath (protectionVerify env.passwordOf env.draws)
  let router := if service.isEnabled then router.addMiddleware requireToken else router
  let router := router.addRoute .DELETE deletePath (deletion ctrl.remove)
  let router := router.addRoute .POST batchDeletePath (deletion ctrl.batchRemove)
  let router := router.addRoute .POST (lit "/api/library/batch-download") (onRest ctrl.batchDownload)
  let router := router.addRoute .POST (lit "/api/library/generate-playlist") (onRest ctrl.generatePlaylist)
  let router := router.addRoute .GET (lit "/api/lyrics") (onRest ctrl.lyrics)
  router.addCatchAllRoute .GET (onRest ctrl.staticFile)

/-- A request, and the clock when it is dispatched. -/
structure Arrival where
  now : ℕ
  req : Request

def dispatch (env : Env ψ) (app : App ψ) (a : Arrival) : Except Exn Response × App ψ :=
  (router env).dispatch env.what a.req { app with now := a.now }

def start (env : Env ψ) (rest : ψ) : App ψ where
  protectionService := { password := env.password }
  rest

/-- The state after a sequence of requests. -/
def serve (env : Env ψ) (rest : ψ) (as : List Arrival) : App ψ :=
  as.foldl (fun app a => (dispatch env app a).2) (start env rest)

/-! ## What the handlers do -/

/-- The requests of the two delete routes. -/
def Deletes (req : Request) : Prop :=
  (req.method = .DELETE ∧ req.path = deletePath) ∨ (req.method = .POST ∧ req.path = batchDeletePath)

/-- Neither the tokens nor the record of deletions changes. -/
def Same (app app' : App ψ) : Prop :=
  app'.protectionService = app.protectionService ∧ app'.deletions = app.deletions

/-- What a handler may do, with the requests it is called for. -/
inductive Role (env : Env ψ) : Request → Handler (App ψ) → Prop
  | plain {req handler} : (∀ r app, Same app (handler r app).2) → Role env req handler
  | verify {req} : req.method = .POST → req.path = verifyPath →
      Role env req (protectionVerify env.passwordOf env.draws)
  | delete {req} (handler : Handler ψ) : Deletes req → Role env req (deletion handler)

theorem Role.onRest (env : Env ψ) (req : Request) (handler : Handler ψ) :
    Role env req (onRest handler) := .plain fun _ _ => ⟨rfl, rfl⟩

theorem router_serves (env : Env ψ) : (router env).Serves (Role env) := by
  have plain : ∀ {router : Router (App ψ)} {method pattern} (handler : Handler ψ),
      router.Serves (Role env) → Router.hasParams pattern = false →
      (router.addRoute method pattern (onRest handler)).Serves (Role env) :=
    fun handler h hp => h.addRoute hp fun req _ _ => .onRest env req handler
  have optional : ∀ {router : Router (App ψ)} {enabled : Bool} {mw}, router.Serves (Role env) →
      (if enabled then router.addMiddleware mw else router).Serves (Role env) := by
    intro router enabled mw h
    split_ifs
    · exact h.addMiddleware mw
    · exact h
  refine Router.Serves.addCatchAllRoute ?_ fun req => .onRest env req _
  refine plain _ (plain _ (plain _ ?_ rfl) rfl) rfl
  refine Router.Serves.addRoute ?_ rfl fun _ h1 h2 => .delete _ (Or.inr ⟨h1, h2⟩)
  refine Router.Serves.addRoute ?_ rfl fun _ h1 h2 => .delete _ (Or.inl ⟨h1, h2⟩)
  refine optional (Router.Serves.addRoute ?_ rfl fun _ h1 h2 => .verify h1 h2)
  refine Router.Serves.addRoute ?_ rfl fun _ _ _ => .plain fun _ _ => ⟨rfl, rfl⟩
  exact plain _ (plain _ (plain _ (plain _ (plain _ (plain _ (plain _ (plain _ (plain _
    ((Router.Serves.empty _).addMiddleware _) rfl) rfl) rfl) rfl) rfl) rfl) rfl) rfl) rfl

theorem router_middlewares (env : Env ψ) :
    (router env).middlewares = rateLimit :: if env.password = [] then [] else [requireToken] := by
  -- the last registration is rewritten by itself: as a simp lemma it makes the kernel unfold the router
  unfold router
  dsimp only
  rw [Router.addCatchAllRoute_middlewares]
  simp only [Router.addRoute_middlewares, ProtectionService.isEnabled]
  by_cases hp : env.password = [] <;> simp [hp]

/-! ## What the middlewares do -/

theorem same_trans {a b c : App ψ} (h : Same a b) (h' : Same b c) : Same a c :=
  ⟨h'.1.trans h.1, h'.2.trans h.2⟩

theorem middleware_same (env : Env ψ) {mw : Middleware (App ψ)} (hmw : mw ∈ (router env).middlewares)
    (req : Request) (app : App ψ) : Same app (mw req app).2 := by
  rw [router_middlewares, List.mem_cons] at hmw
  rcases hmw with rfl | hmw
  · exact ⟨rfl, rfl⟩
  · split_ifs at hmw
    · cases hmw
    · obtain rfl := List.mem_singleton.1 hmw
      unfold requireToken
      dsimp only
      split_ifs <;> exact ⟨rfl, rfl⟩

theorem map_some_ne_none (r : Except Exn Response) : r.map some ≠ .ok none := by
  cases r <;> simp [Except.map]

/-- The header of a request that `requireToken` lets pass, if it is a deletion. -/
theorem requireToken_pass {req : Request} {app : App ψ} (hd : Deletes req)
    (h : (requireToken req app).1 = .ok none) :
    ∃ token ∈ app.protectionService.tokens, req.header (lit "Authorization") = bearer ++ token := by
  have hguard : ¬ (req.method ≠ .DELETE ∧ ¬ (req.method = .POST ∧ req.path = batchDeletePath)) := by
    rintro ⟨h1, h2⟩
    rcases hd with ⟨hm, -⟩ | hd
    · exact h1 hm
    · exact h2 hd
  unfold requireToken at h
  rw [if_neg hguard] at h
  dsimp only at h
  split_ifs at h with hauth
  · refine ⟨_, ProtectionService.mem_of_validateToken hauth.2.2, ?_⟩
    have hsplit := List.take_append_drop bearer.length (req.header (lit "Authorization"))
    rw [hauth.2.1] at hsplit
    exact hsplit.symm
  · dsimp only at h
    exact absurd h (map_some_ne_none _)

/-! ## What the verification does -/

theorem verified_ok {token : Str} (h : ∀ c ∈ token, c < 0x80) : ∃ resp, verified token = .ok resp := by
  have hobj : Json.object [(lit "valid", .bool true), (lit "token", .str token)] =
      .obj [(lit "token", .str token), (lit "valid", .bool true)] := rfl
  have hascii : (lit "token").all (· < 0x80) = true ∧ (lit "valid").all (· < 0x80) = true := by decide +kernel
  have htoken := Json.dumpString_ascii (Json.ascii_of_all hascii.1)
  have hvalid := Json.dumpString_ascii (Json.ascii_of_all hascii.2)
  obtain ⟨text, htext⟩ : ∃ text, Json.dump (.obj [(lit "token", .str token),
      (lit "valid", .bool true)]) = .ok text := by
    rw [Json.dump, Json.dumpMembers, Json.dumpMembers, Json.dumpMembers, Json.dump, Json.dump, htoken,
      hvalid, Json.dumpString_ascii h]
    exact ⟨_, rfl⟩
  rw [verified, hobj, Response.json, htext]
  exact ⟨_, rfl⟩

/-- A verification changes nothing, or it was given the password and answers with the token it
    issues. -/
theorem protectionVerify_cases (passwordOf : Str → Except Exn Str) (draws : ℕ → Fin 16)
    (req : Request) (app : App ψ) :
    (∃ r, protectionVerify passwordOf draws req app = (r, app)) ∨
      passwordOf req.body = .ok app.protectionService.password ∧
        ∃ resp, verified (app.protectionService.generateToken draws).1 = .ok resp ∧
          protectionVerify passwordOf draws req app = (.ok resp,
            { app with protectionService := (app.protectionService.generateToken draws).2 }) := by
  have hfail : ∀ {body : Stateful (App ψ) Response} {recover : Exn → Stateful (App ψ) Response} {r},
      body app = (r, app) → (∀ e, ∃ r', recover e app = (r', app)) →
      ∃ r', attempt body recover app = (r', app) := by
    intro body recover r hbody hrecover
    cases r with
    | ok resp => exact ⟨.ok resp, by rw [attempt, hbody]⟩
    | error e =>
      obtain ⟨r', hr'⟩ := hrecover e
      exact ⟨r', by rw [attempt, hbody, ← hr']⟩
  unfold protectionVerify
  split_ifs with henabled
  · exact Or.inl ⟨_, rfl⟩
  · cases hpw : passwordOf req.body with
    | error e => exact Or.inl (hfail rfl fun _ => ⟨_, rfl⟩)
    | ok password =>
      by_cases hok : app.protectionService.verifyPassword password
      · obtain rfl : password = app.protectionService.password := by
          simpa [ProtectionService.verifyPassword] using hok
        obtain ⟨resp, hresp⟩ := verified_ok
          (ProtectionService.randomHex_ascii draws app.protectionService.drawn 32)
        refine Or.inr ⟨rfl, resp, hresp, ?_⟩
        rw [attempt]
        simp only [hok, if_true, ProtectionService.generateToken, hresp]
      · exact Or.inl (hfail (if_neg hok) fun _ => ⟨_, rfl⟩)

/-! ## One request -/

/-- The request is a verification that is given the password, and is answered with the token. -/
def Verifies (env : Env ψ) (app : App ψ) (a : Arrival) (token : Str) : Prop :=
  a.req.method = .POST ∧ a.req.path = verifyPath ∧ env.passwordOf a.req.body = .ok env.password ∧
    ∃ resp, verified token = .ok resp ∧ (dispatch env app a).1 = .ok resp

/-- What a request does: nothing to tokens and deletions, or the handler of its role is called
    when every middleware has let it pass. -/
theorem dispatch_cases (env : Env ψ) (app : App ψ) (a : Arrival) :
    Same app (dispatch env app a).2 ∨
      (∀ mw ∈ (router env).middlewares, ∃ app₁, Same app app₁ ∧ (mw a.req app₁).1 = .ok none) ∧
        ∃ handler params app₁, Role env a.req handler ∧ Same app app₁ ∧
          dispatch env app a =
            Router.guarded env.what handler (a.req.setPathParams params) app₁ := by
  have hkeep : ∀ mw ∈ (router env).middlewares, ∀ app₁, Same app app₁ → Same app (mw a.req app₁).2 :=
    fun mw hmw app₁ h => same_trans h (middleware_same env hmw a.req app₁)
  have hstart : Same app { app with now := a.now } := ⟨rfl, rfl⟩
  rcases @Router.dispatch_cases _ _ (router env) env.what _ hkeep _ hstart with h |
    ⟨hpass, handler, req', app₁, hres, hsame, heq⟩
  · exact Or.inl h
  · obtain ⟨params, rfl⟩ := Router.resolve_req hres
    exact Or.inr ⟨hpass, handler, params, app₁, router_serves env _ _ _ hres, hsame, heq⟩

theorem guarded_keep {I : App ψ → Prop} {what : Exn → Str} {handler : Handler (App ψ)} {req : Request}
    {app : App ψ} (h : I (handler req app).2) : I (Router.guarded what handler req app).2 :=
  Router.attempt_keep h fun _ _ h => h

/-- The tokens that are new after a request answer a verification. -/
theorem dispatch_tokens {env : Env ψ} {app : App ψ} (hpw : app.protectionService.password = env.password)
    (a : Arrival) :
    (dispatch env app a).2.protectionService.password = env.password ∧
      ∀ token ∈ (dispatch env app a).2.protectionService.tokens,
        token ∈ app.protectionService.tokens ∨ Verifies env app a token := by
  have hsame : (dispatch env app a).2.protectionService = app.protectionService →
      (dispatch env app a).2.protectionService.password = env.password ∧
      ∀ token ∈ (dispatch env app a).2.protectionService.tokens,
        token ∈ app.protectionService.tokens ∨ Verifies env app a token := by
    intro h
    rw [h]
    exact ⟨hpw, fun _ => Or.inl⟩
  rcases dispatch_cases env app a with h | ⟨-, handler, params, app₁, hrole, h, heq⟩
  · exact hsame h.1
  · have hkept (hh : (handler (a.req.setPathParams params) app₁).2.protectionService =
        app₁.protectionService) := hsame <| by
      rw [heq, guarded_keep (I := fun app' => app'.protectionService = app₁.protectionService) hh, h.1]
    cases hrole with
    | plain hh => exact hkept (hh _ _).1
    | delete handler hd => exact hkept rfl
    | verify hm hp =>
      rcases protectionVerify_cases env.passwordOf env.draws (a.req.setPathParams params) app₁ with
        ⟨r, hr⟩ | ⟨hbody, resp, hresp, hr⟩
      · exact hkept (by rw [hr])
      · rw [h.1, hpw] at hbody
        have hd : dispatch env app a = (.ok resp, { app₁ with
            protectionService := (app₁.protectionService.generateToken env.draws).2 }) := by
          rw [heq, Router.guarded, attempt, hr]
        rw [hd, ← h.1]
        refine ⟨(congrArg _ h.1).trans hpw, ?_⟩
        intro token ht
        rcases Finset.mem_insert.1 ht with rfl | ht
        · exact Or.inr ⟨hm, hp, hbody, resp, hresp, by rw [hd]⟩
        · exact Or.inl ht

/-- A handler of the delete routes is called with a token only, where a password is set. -/
theorem dispatch_deletions {env : Env ψ} (hp : env.password ≠ []) {app : App ψ} {a : Arrival}
    (h : (dispatch env app a).2.deletions ≠ app.deletions) :
    ∃ token ∈ app.protectionService.tokens,
      a.req.header (lit "Authorization") = bearer ++ token := by
  rcases dispatch_cases env app a with hs | ⟨hpass, handler, params, app₁, hrole, hs, heq⟩
  · exact absurd hs.2 h
  · rw [heq, ← hs.2] at h
    cases hrole with
    | plain hh =>
      exact absurd (guarded_keep (I := fun app' => app'.deletions = _) (hh _ _).2) h
    | verify =>
      refine absurd (guarded_keep (I := fun app' => app'.deletions = _) ?_) h
      rcases protectionVerify_cases env.passwordOf env.draws (a.req.setPathParams params) app₁ with
        ⟨r, hr⟩ | ⟨-, resp, -, hr⟩ <;> rw [hr]
    | delete handler hd =>
      obtain ⟨app₂, hs₂, hnone⟩ := hpass requireToken (by simp [router_middlewares, hp])
      obtain ⟨token, htoken, hheader⟩ := requireToken_pass hd hnone
      exact ⟨token, hs₂.1 ▸ htoken, hheader⟩

/-! ## Every sequence of requests -/

theorem serve_append (env : Env ψ) (rest : ψ) (as : List Arrival) (a : Arrival) :
    serve env rest (as ++ [a]) = (dispatch env (serve env rest as) a).2 := by
  simp [serve]

/-- Every token was issued by a verification. -/
theorem serve_tokens (env : Env ψ) (rest : ψ) (as : List Arrival) :
    (serve env rest as).protectionService.password = env.password ∧
      ∀ token ∈ (serve env rest as).protectionService.tokens, ∃ before a after,
        as = before ++ a :: after ∧ Verifies env (serve env rest before) a token := by
  induction as using List.reverseRecOn with
  | nil => exact ⟨rfl, fun token h => absurd h (Finset.notMem_empty token)⟩
  | append_singleton as a ih =>
    obtain ⟨hpw, htokens⟩ := ih
    obtain ⟨hpw', hnew⟩ := dispatch_tokens hpw a
    rw [serve_append]
    refine ⟨hpw', ?_⟩
    intro token ht
    rcases hnew token ht with ht | hv
    · obtain ⟨before, v, after, rfl, hv⟩ := htokens token ht
      exact ⟨before, v, after ++ [a], by simp, hv⟩
    · exact ⟨as, a, [], rfl, hv⟩

/-- **Deletion is verified.**  Where a password is set, a request for which the handler of a
    delete route is called comes after a verification of that password, and carries the token
    that the verification returned. -/
theorem deletion_verified (env : Env ψ) (rest : ψ) (hp : env.password ≠ []) (as : List Arrival)
    (a : Arrival)
    (hdel : (serve env rest (as ++ [a])).deletions ≠ (serve env rest as).deletions) :
    ∃ before v after token, as = before ++ v :: after ∧
      Verifies env (serve env rest before) v token ∧
      a.req.header (lit "Authorization") = bearer ++ token := by
  rw [serve_append] at hdel
  obtain ⟨token, htoken, hheader⟩ := dispatch_deletions hp hdel
  obtain ⟨before, v, after, has, hv⟩ := (serve_tokens env rest as).2 token htoken
  exact ⟨before, v, after, token, has, hv, hheader⟩

end

/-! ## A verification and a deletion -/

/-- The server with the password `pw`, and controllers that do nothing. -/
def pwEnv : Env Unit where
  ctrl :=
    let idle : Handler Unit := fun _ s => (.ok {}, s)
    ⟨idle, idle, idle, idle, idle, idle, idle, idle, idle, idle, idle, idle, idle, idle, idle⟩
  password := lit "pw"
  draws := fun _ => 0
  passwordOf := fun body =>
    if body = lit "\x7b\"password\":\"pw\"\x7d" then .ok (lit "pw") else .error .invalidArgument
  what := fun _ => []

def pwVerify : Arrival where
  now := 0
  req := ⟨.POST, verifyPath, [], .empty, lit "\x7b\"password\":\"pw\"\x7d", 17, .empty⟩

def pwDelete : Arrival where
  now := 1
  req := ⟨.DELETE, deletePath, lit "id=1",
    .ofList [(lit "Authorization", bearer ++ List.replicate 32 48)], [], 0, .empty⟩

theorem pw_verified : ∃ before v after token, [pwVerify] = before ++ v :: after ∧
    Verifies pwEnv (serve pwEnv () before) v token ∧
    pwDelete.req.header (lit "Authorization") = bearer ++ token :=
  deletion_verified pwEnv () (by decide) [pwVerify] pwDelete fun h =>
    absurd (congrArg List.length h) (by decide +kernel)

end NarMusic.Main
