/-
  The router (`core/http/router.cpp`): middlewares, then the route registered for
  the method and the path, then the patterns with parameters in order, then the
  catch-all route.

  Handlers are functions of the request and of the state they share.  An exception
  in a handler becomes a 500 response; one in a middleware leaves `dispatch`.
-/
import Mathlib.Data.List.AList
import NarMusic.Http.Response

namespace NarMusic

open Cxx

/-- A function that may throw, on a state it shares with others. -/
abbrev Stateful (σ α : Type) := σ → Except Exn α × σ

abbrev Handler (σ : Type) := Request → Stateful σ Response

abbrev Middleware (σ : Type) := Request → Stateful σ (Option Response)

/-- `try { body } catch`: what `body` did to the state stays done. -/
def attempt {σ α : Type} (body : Stateful σ α) (recover : Exn → Stateful σ α) : Stateful σ α :=
  fun app =>
    match body app with
    | (.ok r, app) => (.ok r, app)
    | (.error e, app) => recover e app

structure Route (σ : Type) where
  method : Method
  pattern : Str
  handler : Handler σ

structure Router (σ : Type) where
  staticRoutes : AList fun _ : Method × Str => Route σ := ∅
  dynamicRoutes : List (Route σ) := []
  catchAllHandler : Option (Handler σ) := none
  catchAllMethod : Method := .GET
  middlewares : List (Middleware σ) := []

def Request.setPathParams (req : Request) (params : OrdMap Str Str) : Request :=
  { req with pathParams := params }

namespace Router

/-! ## Paths -/

/-- The pieces of a path between its slashes; the loop is that of `getline`. -/
def splitPath (path : Str) : List Str :=
  getlines 47 (if path.head? = some 47 then path.tail else path)

def hasParams (pattern : Str) : Bool := (find [58] pattern).isSome

/-- The loop of `matchPath` over two lists of the same length. -/
def matchSegments : List (Str × Str) → OrdMap Str Str → Option (OrdMap Str Str)
  | [], params => some params
  | (patternSeg, pathSeg) :: segs, params =>
    if patternSeg.head? = some 58 then matchSegments segs (params.insert patternSeg.tail pathSeg)
    else if patternSeg ≠ pathSeg then none
    else matchSegments segs params

/-- The parameters, or `none` where it returns `false`. -/
def matchPath (pattern path : Str) : Option (OrdMap Str Str) :=
  let patternSegs := splitPath pattern
  let pathSegs := splitPath path
  if patternSegs.length ≠ pathSegs.length then none
  else matchSegments (patternSegs.zip pathSegs) .empty

section
variable {σ : Type}

/-! ## Registration -/

def addRoute (router : Router σ) (method : Method) (pattern : Str) (handler : Handler σ) : Router σ :=
  let route : Route σ := ⟨method, pattern, handler⟩
  if hasParams pattern then { router with dynamicRoutes := router.dynamicRoutes ++ [route] }
  else { router with staticRoutes := router.staticRoutes.insert (method, pattern) route }

def addCatchAllRoute (router : Router σ) (method : Method) (handler : Handler σ) : Router σ :=
  { router with catchAllMethod := method, catchAllHandler := some handler }

def addMiddleware (router : Router σ) (mw : Middleware σ) : Router σ :=
  { router with middlewares := router.middlewares ++ [mw] }

/-! ## Dispatch -/

/-- A handler call in `try`; `what` is the text of an exception. -/
def guarded (what : Exn → Str) (handler : Handler σ) : Handler σ := fun req =>
  attempt (handler req) fun e app =>
    (Response.error 500 (lit "Internal Server Error") (lit "handler_error") (what e), app)

/-- The first middleware that answers. -/
def runMiddlewares : List (Middleware σ) → Middleware σ
  | [], _, app => (.ok none, app)
  | mw :: mws, req, app =>
    match mw req app with
    | (.ok none, app) => runMiddlewares mws req app
    | r => r

/-- The handler of the route registered for the request: the static one, else the first
    pattern that matches. -/
def routeHandler (router : Router σ) (req : Request) : Option (Handler σ × Request) :=
  match router.staticRoutes.lookup (req.method, req.path) with
  | some route => some (route.handler, req)
  | none =>
    router.dynamicRoutes.findSome? fun route =>
      if route.method ≠ req.method then none
      else (matchPath route.pattern req.path).map fun params =>
        (route.handler, req.setPathParams params)

/-- The handler for a request that no middleware answers. -/
def resolve (router : Router σ) (req : Request) : Option (Handler σ × Request) :=
  match router.routeHandler req with
  | some found => some found
  | none =>
    match router.catchAllHandler with
    | some handler => if req.method = router.catchAllMethod then some (handler, req) else none
    | none => none

def dispatch (router : Router σ) (what : Exn → Str) : Handler σ := fun req app =>
  match runMiddlewares router.middlewares req app with
  | (.error e, app) => (.error e, app)
  | (.ok (some resp), app) => (.ok resp, app)
  | (.ok none, app) =>
    match router.resolve req with
    | some (handler, req) => guarded what handler req app
    | none =>
      (Response.error 404 (lit "Not Found") (lit "not_found") (lit "No route matches the request"), app)

def hasMatch (router : Router σ) (method : Method) (path : Str) : Bool :=
  (router.staticRoutes.lookup (method, path)).isSome ||
    router.dynamicRoutes.any fun route =>
      route.method = method && (matchPath route.pattern path).isSome

/-! ## What a registration adds -/

@[simp] theorem addRoute_middlewares (router : Router σ) (method : Method) (pattern : Str)
    (handler : Handler σ) : (router.addRoute method pattern handler).middlewares = router.middlewares := by
  unfold addRoute
  split_ifs <;> rfl

@[simp] theorem addMiddleware_middlewares (router : Router σ) (mw : Middleware σ) :
    (router.addMiddleware mw).middlewares = router.middlewares ++ [mw] := rfl

@[simp] theorem addCatchAllRoute_middlewares (router : Router σ) (method : Method)
    (handler : Handler σ) : (router.addCatchAllRoute method handler).middlewares = router.middlewares := rfl

theorem resolve_addRoute {router : Router σ} {method : Method} {pattern : Str} {handler : Handler σ}
    (hp : hasParams pattern = false) (req : Request) :
    (router.addRoute method pattern handler).resolve req =
      if req.method = method ∧ req.path = pattern then some (handler, req)
      else router.resolve req := by
  rw [addRoute, if_neg (by simp [hp])]
  by_cases hkey : req.method = method ∧ req.path = pattern
  · obtain ⟨rfl, rfl⟩ := hkey
    simp [resolve, routeHandler]
  · have hne : (req.method, req.path) ≠ (method, pattern) := fun h => hkey (by simpa using h)
    rw [if_neg hkey]
    simp only [resolve, routeHandler, AList.lookup_insert_ne hne]

theorem resolve_addCatchAllRoute {router : Router σ} {method : Method} {handler : Handler σ}
    (req : Request) :
    (router.addCatchAllRoute method handler).resolve req =
      (router.routeHandler req).or (if req.method = method then some (handler, req) else none) := by
  unfold resolve
  rw [show (router.addCatchAllRoute method handler).routeHandler req = router.routeHandler req from rfl]
  cases router.routeHandler req <;> rfl

/-- The handler is called with the request, up to its path parameters. -/
theorem resolve_req {router : Router σ} {req req' : Request} {handler : Handler σ}
    (h : router.resolve req = some (handler, req')) : ∃ params, req' = req.setPathParams params := by
  have hroute : ∀ found, router.routeHandler req = some found →
      ∃ params, found.2 = req.setPathParams params := by
    intro found hfound
    unfold routeHandler at hfound
    split at hfound
    · obtain rfl := Option.some.inj hfound
      exact ⟨req.pathParams, rfl⟩
    · obtain ⟨route, -, hroute⟩ := List.exists_of_findSome?_eq_some hfound
      split_ifs at hroute
      obtain ⟨params, -, rfl⟩ := Option.map_eq_some_iff.1 hroute
      exact ⟨params, rfl⟩
  unfold resolve at h
  split at h
  · next found hfound =>
    obtain rfl := Option.some.inj h
    exact hroute _ hfound
  · split at h
    · split_ifs at h
      obtain ⟨-, rfl⟩ := Prod.mk.inj (Option.some.inj h)
      exact ⟨req.pathParams, rfl⟩
    · cases h

/-- Every handler a request can reach has `P`. -/
def Serves (P : Request → Handler σ → Prop) (router : Router σ) : Prop :=
  ∀ req handler req', router.resolve req = some (handler, req') → P req handler

theorem Serves.empty (P : Request → Handler σ → Prop) : Serves P {} := by
  intro req handler req' h
  have hnone : (Router.routeHandler ({} : Router σ) req) = none := rfl
  simp [resolve, hnone] at h

theorem Serves.addRoute {P : Request → Handler σ → Prop} {router : Router σ} (h : Serves P router)
    {method : Method} {pattern : Str} {handler : Handler σ} (hp : hasParams pattern = false)
    (hP : ∀ req, req.method = method → req.path = pattern → P req handler) :
    Serves P (router.addRoute method pattern handler) := by
  intro req g req' hg
  rw [resolve_addRoute hp] at hg
  split_ifs at hg with hkey
  · obtain ⟨rfl, rfl⟩ := Prod.mk.inj (Option.some.inj hg)
    exact hP _ hkey.1 hkey.2
  · exact h req g req' hg

theorem Serves.addCatchAllRoute {P : Request → Handler σ → Prop} {router : Router σ}
    (h : Serves P router) {method : Method} {handler : Handler σ} (hP : ∀ req, P req handler) :
    Serves P (router.addCatchAllRoute method handler) := by
  intro req g req' hg
  rw [resolve_addCatchAllRoute] at hg
  rcases hr : router.routeHandler req with _ | found
  · rw [hr, Option.none_or] at hg
    split_ifs at hg
    obtain ⟨rfl, rfl⟩ := Prod.mk.inj (Option.some.inj hg)
    exact hP _
  · refine h req g req' ?_
    rw [hr, Option.some_or] at hg
    rw [resolve, hr, hg]

theorem Serves.addMiddleware {P : Request → Handler σ → Prop} {router : Router σ}
    (h : Serves P router) (mw : Middleware σ) : Serves P (router.addMiddleware mw) := h

/-! ## Dispatch step by step -/

/-- What every middleware keeps, all of them keep. -/
theorem runMiddlewares_keep {I : σ → Prop} {req : Request} :
    ∀ {mws : List (Middleware σ)}, (∀ mw ∈ mws, ∀ app, I app → I (mw req app).2) →
      ∀ {app}, I app → I (runMiddlewares mws req app).2
  | [], _, _, h => h
  | mw :: mws, hkeep, app, h => by
    have hmw := hkeep mw List.mem_cons_self app h
    unfold runMiddlewares
    split
    · next app' heq =>
      rw [heq] at hmw
      exact runMiddlewares_keep (fun m hm => hkeep m (List.mem_cons_of_mem _ hm)) hmw
    · exact hmw

/-- Where none answers, each of them was asked and let the request pass. -/
theorem runMiddlewares_pass {I : σ → Prop} {req : Request} :
    ∀ {mws : List (Middleware σ)}, (∀ mw ∈ mws, ∀ app, I app → I (mw req app).2) →
      ∀ {app app'}, I app → runMiddlewares mws req app = (.ok none, app') →
        ∀ mw ∈ mws, ∃ app₁, I app₁ ∧ (mw req app₁).1 = .ok none
  | [], _, _, _, _, _, _, hm => by cases hm
  | mw :: mws, hkeep, app, app', h, hrun, m, hm => by
    have hmw := hkeep mw List.mem_cons_self app h
    unfold runMiddlewares at hrun
    split at hrun
    · next app₁ heq =>
      rw [heq] at hmw
      rcases List.mem_cons.1 hm with rfl | hm
      · exact ⟨app, h, by rw [heq]⟩
      · exact runMiddlewares_pass (fun m hm => hkeep m (List.mem_cons_of_mem _ hm)) hmw hrun m hm
    · next hne => exact absurd hrun (hne app')

theorem attempt_keep {α : Type} {I : σ → Prop} {body : Stateful σ α} {recover : Exn → Stateful σ α}
    {app : σ} (hbody : I (body app).2) (hrecover : ∀ e app, I app → I (recover e app).2) :
    I (attempt body recover app).2 := by
  unfold attempt
  split
  · next heq => rwa [heq] at hbody
  · next heq =>
    rw [heq] at hbody
    exact hrecover _ _ hbody

/-- A request is answered before its handler is called, or every middleware let it pass and
    its handler, if it has one, is called. -/
theorem dispatch_cases {I : σ → Prop} {router : Router σ} {what : Exn → Str} {req : Request}
    (hkeep : ∀ mw ∈ router.middlewares, ∀ app, I app → I (mw req app).2) {app : σ} (h : I app) :
    I (router.dispatch what req app).2 ∨
      (∀ mw ∈ router.middlewares, ∃ app₁, I app₁ ∧ (mw req app₁).1 = .ok none) ∧
        ∃ handler req' app₁, router.resolve req = some (handler, req') ∧ I app₁ ∧
          router.dispatch what req app = guarded what handler req' app₁ := by
  have hmws := runMiddlewares_keep hkeep h
  unfold dispatch
  split
  · next heq => exact Or.inl (by rwa [heq] at hmws)
  · next heq => exact Or.inl (by rwa [heq] at hmws)
  · next app₁ heq =>
    rw [heq] at hmws
    split
    · next handler req' hres =>
      exact Or.inr ⟨runMiddlewares_pass hkeep h heq, handler, req', app₁, hres, hmws, rfl⟩
    · exact Or.inl hmws

end

end Router

end NarMusic
