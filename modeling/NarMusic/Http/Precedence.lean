/-
  Which handler `dispatch` runs, over every history of registrations: the last
  one registered for the path itself, else the first pattern that matches, else
  the catch-all route of the request's method.

  The texts of `Response::error` are dumped as JSON, and `dump` throws for a
  text that is not UTF-8: an exception with such a text leaves `dispatch`
  (`dispatch_precedence`).
-/
import NarMusic.Http.Router

namespace NarMusic

open Cxx

/-- A call of `addRoute` or of `addCatchAllRoute`. -/
inductive Registration (σ : Type) where
  | addRoute (method : Method) (pattern : Str) (handler : Handler σ)
  | addCatchAllRoute (method : Method) (handler : Handler σ)

namespace Router

/-! ## Patterns -/

/-- The path has the segments of the pattern, up to the parameters, which are bound to what
    stands in their place. -/
def Binds (pattern path : Str) (params : OrdMap Str Str) : Prop :=
  List.Forall₂ (fun patternSeg pathSeg => patternSeg.head? = some 58 ∨ patternSeg = pathSeg)
      (splitPath pattern) (splitPath path) ∧
    params = .ofList (((splitPath pattern).zip (splitPath path)).filterMap fun segs =>
      if segs.1.head? = some 58 then some (segs.1.tail, segs.2) else none)

theorem matchSegments_eq {patternSegs pathSegs : List Str}
    (hlen : patternSegs.length = pathSegs.length) (acc params : OrdMap Str Str) :
    matchSegments (patternSegs.zip pathSegs) acc = some params ↔
      List.Forall₂ (fun patternSeg pathSeg => patternSeg.head? = some 58 ∨ patternSeg = pathSeg)
          patternSegs pathSegs ∧
        params = ((patternSegs.zip pathSegs).filterMap fun segs =>
          if segs.1.head? = some 58 then some (segs.1.tail, segs.2) else none).foldl
            (fun m e => m.insert e.1 e.2) acc := by
  induction patternSegs generalizing pathSegs acc with
  | nil =>
    obtain rfl : pathSegs = [] := List.eq_nil_of_length_eq_zero hlen.symm
    simp [matchSegments, eq_comm]
  | cons patternSeg patternSegs ih =>
    cases pathSegs with
    | nil => simp at hlen
    | cons pathSeg pathSegs =>
      have hlen' : patternSegs.length = pathSegs.length := by simpa using hlen
      rw [List.zip_cons_cons, matchSegments, List.forall₂_cons, List.filterMap_cons]
      by_cases hparam : patternSeg.head? = some 58
      · simp only [hparam, if_true, true_or, true_and, List.foldl_cons]
        exact ih hlen' _
      · by_cases heq : patternSeg = pathSeg
        · subst heq
          simp only [hparam, if_false, ne_eq, not_true, or_true, true_and]
          exact ih hlen' _
        · simp [hparam, heq]

theorem matchPath_eq {pattern path : Str} {params : OrdMap Str Str} :
    matchPath pattern path = some params ↔ Binds pattern path params := by
  unfold matchPath Binds
  by_cases hlen : (splitPath pattern).length = (splitPath path).length
  · simp only [hlen, ne_eq, not_true, if_false]
    exact matchSegments_eq hlen _ _
  · rw [if_pos hlen]
    exact ⟨nofun, fun h => absurd h.1.length_eq hlen⟩

section
variable {σ : Type}

/-! ## Histories -/

def register (router : Router σ) : Registration σ → Router σ
  | .addRoute method pattern handler => router.addRoute method pattern handler
  | .addCatchAllRoute method handler => router.addCatchAllRoute method handler

/-- The router after its registrations. -/
def registered (middlewares : List (Middleware σ)) (regs : List (Registration σ)) : Router σ :=
  regs.foldl register { middlewares }

/-- A route for the path itself. -/
def IsStatic (method : Method) (path : Str) : Registration σ → Prop
  | .addRoute m pattern _ => m = method ∧ pattern = path ∧ hasParams pattern = false
  | .addCatchAllRoute _ _ => False

/-- A pattern that matches the path. -/
def IsDynamic (method : Method) (path : Str) : Registration σ → Prop
  | .addRoute m pattern _ => m = method ∧ hasParams pattern = true ∧ ∃ params, Binds pattern path params
  | .addCatchAllRoute _ _ => False

def IsCatchAll : Registration σ → Prop
  | .addRoute _ _ _ => False
  | .addCatchAllRoute _ _ => True

/-- The handler for a request, with the request it is called with, or none. -/
inductive Chosen (req : Request) (regs : List (Registration σ)) : Option (Handler σ × Request) → Prop
  | static {before after : List (Registration σ)} {handler : Handler σ} :
      regs = before ++ .addRoute req.method req.path handler :: after →
      hasParams req.path = false →
      (∀ reg ∈ after, ¬ IsStatic req.method req.path reg) →
      Chosen req regs (some (handler, req))
  | dynamic {before after : List (Registration σ)} {pattern : Str} {handler : Handler σ}
      {params : OrdMap Str Str} :
      (∀ reg ∈ regs, ¬ IsStatic req.method req.path reg) →
      regs = before ++ .addRoute req.method pattern handler :: after →
      hasParams pattern = true →
      Binds pattern req.path params →
      (∀ reg ∈ before, ¬ IsDynamic req.method req.path reg) →
      Chosen req regs (some (handler, req.setPathParams params))
  | catchAll {before after : List (Registration σ)} {handler : Handler σ} :
      (∀ reg ∈ regs, ¬ IsStatic req.method req.path reg) →
      (∀ reg ∈ regs, ¬ IsDynamic req.method req.path reg) →
      regs = before ++ .addCatchAllRoute req.method handler :: after →
      (∀ reg ∈ after, ¬ IsCatchAll reg) →
      Chosen req regs (some (handler, req))
  | missing :
      (∀ reg ∈ regs, ¬ IsStatic req.method req.path reg) →
      (∀ reg ∈ regs, ¬ IsDynamic req.method req.path reg) →
      (∀ before method handler after, regs = before ++ .addCatchAllRoute method handler :: after →
        (∀ reg ∈ after, ¬ IsCatchAll reg) → method ≠ req.method) →
      Chosen req regs none

/-! ## What the router holds after a history -/

/-- The route a registration puts under a key. -/
def staticRoute (method : Method) (path : Str) : Registration σ → Option (Route σ)
  | .addRoute m pattern handler =>
    if m = method ∧ pattern = path ∧ hasParams pattern = false then some ⟨m, pattern, handler⟩ else none
  | .addCatchAllRoute _ _ => none

def dynamicRoute : Registration σ → Option (Route σ)
  | .addRoute m pattern handler => if hasParams pattern then some ⟨m, pattern, handler⟩ else none
  | .addCatchAllRoute _ _ => none

def catchAllRoute : Registration σ → Option (Method × Handler σ)
  | .addRoute _ _ _ => none
  | .addCatchAllRoute m handler => some (m, handler)

theorem registered_append (middlewares : List (Middleware σ)) (regs : List (Registration σ))
    (reg : Registration σ) :
    registered middlewares (regs ++ [reg]) = (registered middlewares regs).register reg := by
  simp [registered]

@[simp] theorem registered_middlewares (middlewares : List (Middleware σ))
    (regs : List (Registration σ)) : (registered middlewares regs).middlewares = middlewares := by
  induction regs using List.reverseRecOn with
  | nil => rfl
  | append_singleton regs reg ih =>
    rw [registered_append]
    cases reg with
    | addRoute m pattern handler => rw [register, addRoute_middlewares, ih]
    | addCatchAllRoute m handler => exact ih

theorem lookup_registered (middlewares : List (Middleware σ)) (regs : List (Registration σ))
    (method : Method) (path : Str) :
    (registered middlewares regs).staticRoutes.lookup (method, path) =
      regs.reverse.findSome? (staticRoute method path) := by
  induction regs using List.reverseRecOn with
  | nil => rfl
  | append_singleton regs reg ih =>
    rw [registered_append, List.reverse_append, List.reverse_singleton, List.singleton_append,
      List.findSome?_cons, ← ih]
    cases reg with
    | addCatchAllRoute m handler => rfl
    | addRoute m pattern handler =>
      dsimp only [register, addRoute, staticRoute]
      by_cases hp : hasParams pattern = true
      · simp [hp]
      · rw [Bool.not_eq_true] at hp
        by_cases hkey : m = method ∧ pattern = path
        · obtain ⟨rfl, rfl⟩ := hkey
          simp [hp]
        · have hne : (method, path) ≠ (m, pattern) := fun h => hkey (by simpa [eq_comm] using h)
          have hnot : ¬ (m = method ∧ pattern = path ∧ hasParams pattern = false) :=
            fun h => hkey ⟨h.1, h.2.1⟩
          rw [if_neg hnot, if_neg (by simp [hp])]
          exact AList.lookup_insert_ne hne

theorem dynamicRoutes_registered (middlewares : List (Middleware σ)) (regs : List (Registration σ)) :
    (registered middlewares regs).dynamicRoutes = regs.filterMap dynamicRoute := by
  induction regs using List.reverseRecOn with
  | nil => rfl
  | append_singleton regs reg ih =>
    rw [registered_append, List.filterMap_append, ← ih]
    cases reg with
    | addCatchAllRoute m handler => simp [register, addCatchAllRoute, dynamicRoute]
    | addRoute m pattern handler =>
      unfold register addRoute
      by_cases hp : hasParams pattern = true <;> simp [hp, dynamicRoute]

theorem catchAll_registered (middlewares : List (Middleware σ)) (regs : List (Registration σ)) :
    ((registered middlewares regs).catchAllHandler.map fun handler =>
        ((registered middlewares regs).catchAllMethod, handler)) =
      regs.reverse.findSome? catchAllRoute := by
  induction regs using List.reverseRecOn with
  | nil => rfl
  | append_singleton regs reg ih =>
    rw [registered_append, List.reverse_append, List.reverse_singleton, List.singleton_append,
      List.findSome?_cons, ← ih]
    cases reg with
    | addCatchAllRoute m handler => rfl
    | addRoute m pattern handler =>
      dsimp only [register, addRoute]
      split_ifs <;> rfl

theorem staticRoute_eq_some {method : Method} {path : Str} {reg : Registration σ} {route : Route σ} :
    staticRoute method path reg = some route ↔
      reg = .addRoute method path route.handler ∧ hasParams path = false ∧
        route = ⟨method, path, route.handler⟩ := by
  cases reg with
  | addCatchAllRoute m handler => simp [staticRoute]
  | addRoute m pattern handler =>
    dsimp only [staticRoute]
    constructor
    · intro h
      split_ifs at h with hkey
      obtain ⟨rfl, rfl, hp⟩ := hkey
      obtain rfl := Option.some.inj h
      exact ⟨rfl, hp, rfl⟩
    · rintro ⟨hreg, hp, hroute⟩
      injection hreg with hm hpattern hhandler
      rw [if_pos ⟨hm, hpattern, hpattern ▸ hp⟩, hroute, hm, hpattern, hhandler]

theorem staticRoute_eq_none {method : Method} {path : Str} {reg : Registration σ} :
    staticRoute method path reg = none ↔ ¬ IsStatic method path reg := by
  cases reg with
  | addCatchAllRoute m handler => simp [staticRoute, IsStatic]
  | addRoute m pattern handler => simp [staticRoute, IsStatic]

theorem catchAllRoute_eq_none {reg : Registration σ} : catchAllRoute reg = none ↔ ¬ IsCatchAll reg := by
  cases reg <;> simp [catchAllRoute, IsCatchAll]

/-- The call a pattern leads to. -/
def dynamicCall (req : Request) (reg : Registration σ) : Option (Handler σ × Request) :=
  (dynamicRoute reg).bind fun route =>
    if route.method ≠ req.method then none
    else (matchPath route.pattern req.path).map fun params => (route.handler, req.setPathParams params)

theorem dynamicCall_eq_some {req : Request} {reg : Registration σ} {found : Handler σ × Request} :
    dynamicCall req reg = some found ↔ ∃ pattern params, reg = .addRoute req.method pattern found.1 ∧
      hasParams pattern = true ∧ Binds pattern req.path params ∧ found.2 = req.setPathParams params := by
  cases reg with
  | addCatchAllRoute m handler => simp [dynamicCall, dynamicRoute]
  | addRoute m pattern handler =>
    dsimp only [dynamicCall, dynamicRoute]
    constructor
    · intro h
      by_cases hp : hasParams pattern = true
      · rw [if_pos hp, Option.bind_some] at h
        split_ifs at h with hm
        obtain ⟨params, hparams, rfl⟩ := Option.map_eq_some_iff.1 h
        obtain rfl : m = req.method := not_not.1 hm
        exact ⟨pattern, params, rfl, hp, matchPath_eq.1 hparams, rfl⟩
      · rw [if_neg hp] at h
        cases h
    · rintro ⟨pattern', params, hreg, hp, hbinds, hreq⟩
      injection hreg with hm hpattern hhandler
      subst hm hpattern
      rw [if_pos hp, Option.bind_some, if_neg (by simp), matchPath_eq.2 hbinds, Option.map_some,
        hhandler, ← hreq]

theorem dynamicCall_eq_none {req : Request} {reg : Registration σ} :
    dynamicCall req reg = none ↔ ¬ IsDynamic req.method req.path reg := by
  rw [← not_iff_not, not_not, ← ne_eq, Option.ne_none_iff_exists']
  constructor
  · rintro ⟨found, hfound⟩
    obtain ⟨pattern, params, rfl, hp, hbinds, -⟩ := dynamicCall_eq_some.1 hfound
    exact ⟨rfl, hp, params, hbinds⟩
  · intro h
    cases reg with
    | addCatchAllRoute m handler => cases h
    | addRoute m pattern handler =>
      obtain ⟨rfl, hp, params, hbinds⟩ := h
      exact ⟨(handler, req.setPathParams params),
        dynamicCall_eq_some.2 ⟨pattern, params, rfl, hp, hbinds, rfl⟩⟩

theorem findSome?_filterMap {α β γ : Type} (f : α → Option β) (g : β → Option γ) (l : List α) :
    (l.filterMap f).findSome? g = l.findSome? fun a => (f a).bind g := by
  induction l with
  | nil => rfl
  | cons a l ih => cases h : f a <;> simp [List.findSome?_cons, h, ih]

/-- The last element with a value. -/
theorem findSome?_reverse_eq_some {α β : Type} {f : α → Option β} {l : List α} {b : β} :
    l.reverse.findSome? f = some b ↔
      ∃ before a after, l = before ++ a :: after ∧ f a = some b ∧ ∀ x ∈ after, f x = none := by
  rw [List.findSome?_eq_some_iff]
  constructor
  · rintro ⟨front, a, back, hl, hb, hnone⟩
    refine ⟨back.reverse, a, front.reverse, ?_, hb, fun x hx => hnone x (List.mem_reverse.1 hx)⟩
    rw [← List.reverse_reverse l, hl]
    simp
  · rintro ⟨before, a, after, rfl, hb, hnone⟩
    refine ⟨after.reverse, a, before.reverse, by simp, hb, fun x hx => hnone x (List.mem_reverse.1 hx)⟩

/-- The lookups of `dispatch`, as searches in the history. -/
theorem resolve_registered (middlewares : List (Middleware σ)) (regs : List (Registration σ))
    (req : Request) :
    (registered middlewares regs).resolve req =
      ((regs.reverse.findSome? (staticRoute req.method req.path)).map fun route => (route.handler, req)).or
        ((regs.findSome? (dynamicCall req)).or
          ((regs.reverse.findSome? catchAllRoute).bind fun route =>
            if req.method = route.1 then some (route.2, req) else none)) := by
  have hdynamic : (registered middlewares regs).dynamicRoutes.findSome? (fun route =>
      if route.method ≠ req.method then none
      else (matchPath route.pattern req.path).map fun params =>
        (route.handler, req.setPathParams params)) = regs.findSome? (dynamicCall req) := by
    rw [dynamicRoutes_registered, findSome?_filterMap]
    rfl
  unfold resolve routeHandler
  rw [lookup_registered, hdynamic, ← catchAll_registered middlewares]
  cases regs.reverse.findSome? (staticRoute req.method req.path) with
  | some route => rfl
  | none =>
    cases regs.findSome? (dynamicCall req) with
    | some found => rfl
    | none => cases (registered middlewares regs).catchAllHandler <;> rfl

theorem findSome?_static_eq_none {method : Method} {path : Str} {regs : List (Registration σ)} :
    regs.reverse.findSome? (staticRoute method path) = none ↔ ∀ reg ∈ regs, ¬ IsStatic method path reg := by
  simp only [List.findSome?_eq_none_iff, List.mem_reverse, staticRoute_eq_none]

theorem findSome?_dynamic_eq_none {req : Request} {regs : List (Registration σ)} :
    regs.findSome? (dynamicCall req) = none ↔ ∀ reg ∈ regs, ¬ IsDynamic req.method req.path reg := by
  simp only [List.findSome?_eq_none_iff, dynamicCall_eq_none]

theorem findSome?_catchAll_eq_some {regs : List (Registration σ)} {method : Method} {handler : Handler σ} :
    regs.reverse.findSome? catchAllRoute = some (method, handler) ↔
      ∃ before after, regs = before ++ .addCatchAllRoute method handler :: after ∧
        ∀ reg ∈ after, ¬ IsCatchAll reg := by
  simp only [findSome?_reverse_eq_some, catchAllRoute_eq_none]
  constructor
  · rintro ⟨before, reg, after, hregs, hreg, hafter⟩
    cases reg with
    | addRoute m pattern handler => cases hreg
    | addCatchAllRoute m handler =>
      cases hreg
      exact ⟨before, after, hregs, hafter⟩
  · rintro ⟨before, after, hregs, hafter⟩
    exact ⟨before, _, after, hregs, rfl, hafter⟩

/-- **The handler `dispatch` finds is the one chosen by precedence.** -/
theorem chosen_iff (middlewares : List (Middleware σ)) {regs : List (Registration σ)} {req : Request}
    {found : Option (Handler σ × Request)} :
    Chosen req regs found ↔ (registered middlewares regs).resolve req = found := by
  rw [resolve_registered]
  constructor
  · intro h
    cases h with
    | static hregs hp hafter =>
      rename_i handler
      have hroute : staticRoute req.method req.path (.addRoute req.method req.path handler) =
          some ⟨req.method, req.path, handler⟩ := staticRoute_eq_some.2 ⟨rfl, hp, rfl⟩
      rw [findSome?_reverse_eq_some.2 ⟨_, _, _, hregs, hroute,
        fun reg hreg => staticRoute_eq_none.2 (hafter reg hreg)⟩]
      rfl
    | dynamic hstatic hregs hp hbinds hbefore =>
      rename_i pattern handler params
      have hcall : dynamicCall req (.addRoute req.method pattern handler) =
          some (handler, req.setPathParams params) :=
        dynamicCall_eq_some.2 ⟨pattern, params, rfl, hp, hbinds, rfl⟩
      rw [findSome?_static_eq_none.2 hstatic, List.findSome?_eq_some_iff.2 ⟨_, _, _, hregs, hcall,
        fun reg hreg => dynamicCall_eq_none.2 (hbefore reg hreg)⟩]
      rfl
    | catchAll hstatic hdynamic hregs hafter =>
      rw [findSome?_static_eq_none.2 hstatic, findSome?_dynamic_eq_none.2 hdynamic,
        findSome?_catchAll_eq_some.2 ⟨_, _, hregs, hafter⟩]
      simp
    | missing hstatic hdynamic hcatch =>
      rw [findSome?_static_eq_none.2 hstatic, findSome?_dynamic_eq_none.2 hdynamic]
      rcases hlast : regs.reverse.findSome? catchAllRoute with _ | ⟨m, handler⟩
      · rfl
      · obtain ⟨before, after, hregs, hafter⟩ := findSome?_catchAll_eq_some.1 hlast
        have hne := hcatch before m handler after hregs hafter
        simp [hne.symm]
  · rintro rfl
    cases hstatic : regs.reverse.findSome? (staticRoute req.method req.path) with
    | some route =>
      obtain ⟨before, reg, after, hregs, hreg, hafter⟩ := findSome?_reverse_eq_some.1 hstatic
      obtain ⟨rfl, hp, -⟩ := staticRoute_eq_some.1 hreg
      exact .static hregs hp fun reg hreg => staticRoute_eq_none.1 (hafter reg hreg)
    | none =>
      have hnostatic := findSome?_static_eq_none.1 hstatic
      cases hdynamic : regs.findSome? (dynamicCall req) with
      | some found =>
        obtain ⟨before, reg, after, hregs, hreg, hbefore⟩ := List.findSome?_eq_some_iff.1 hdynamic
        obtain ⟨pattern, params, rfl, hp, hbinds, hreq⟩ := dynamicCall_eq_some.1 hreg
        obtain ⟨handler, req'⟩ := found
        obtain rfl : req' = req.setPathParams params := hreq
        exact .dynamic hnostatic hregs hp hbinds fun reg hreg => dynamicCall_eq_none.1 (hbefore reg hreg)
      | none =>
        have hnodynamic := findSome?_dynamic_eq_none.1 hdynamic
        rcases hlast : regs.reverse.findSome? catchAllRoute with _ | ⟨m, handler⟩
        · refine .missing hnostatic hnodynamic fun before m handler after hregs hafter => ?_
          rw [findSome?_catchAll_eq_some.2 ⟨before, after, hregs, hafter⟩] at hlast
          cases hlast
        · obtain ⟨before, after, hregs, hafter⟩ := findSome?_catchAll_eq_some.1 hlast
          by_cases hm : req.method = m
          · subst hm
            simp only [Option.map_none, Option.none_or, Option.bind_some, if_true]
            exact .catchAll hnostatic hnodynamic hregs hafter
          · simp only [Option.map_none, Option.none_or, Option.bind_some, hm, if_false]
            refine .missing hnostatic hnodynamic fun before' m' handler' after' hregs' hafter' => ?_
            rw [findSome?_catchAll_eq_some.2 ⟨before', after', hregs', hafter'⟩] at hlast
            obtain ⟨rfl, -⟩ := Prod.mk.inj (Option.some.inj hlast)
            exact fun h => hm h.symm

theorem hasMatch_registered (middlewares : List (Middleware σ)) (regs : List (Registration σ))
    (method : Method) (path : Str) :
    (registered middlewares regs).hasMatch method path = true ↔
      (∃ reg ∈ regs, IsStatic method path reg) ∨ ∃ reg ∈ regs, IsDynamic method path reg := by
  unfold hasMatch
  rw [Bool.or_eq_true, lookup_registered, dynamicRoutes_registered]
  refine or_congr ?_ ?_
  · rw [← not_iff_not, Bool.not_eq_true, Option.isSome_eq_false_iff, Option.isNone_iff_eq_none,
      findSome?_static_eq_none]
    simp
  · simp only [List.any_eq_true, List.mem_filterMap, Bool.and_eq_true, decide_eq_true_eq,
      Option.isSome_iff_exists, matchPath_eq]
    constructor
    · rintro ⟨route, ⟨reg, hreg, hroute⟩, hm, params, hbinds⟩
      cases reg with
      | addCatchAllRoute m handler => cases hroute
      | addRoute m pattern handler =>
        rw [dynamicRoute, Option.ite_none_right_eq_some] at hroute
        obtain ⟨hp, hroute⟩ := hroute
        obtain rfl := Option.some.inj hroute
        exact ⟨_, hreg, hm, hp, params, hbinds⟩
    · rintro ⟨reg, hreg, hmatch⟩
      cases reg with
      | addCatchAllRoute m handler => cases hmatch
      | addRoute m pattern handler =>
        obtain ⟨hm, hp, params, hbinds⟩ := hmatch
        exact ⟨⟨m, pattern, handler⟩, ⟨_, hreg, by simp [dynamicRoute, hp]⟩, hm, params, hbinds⟩

/-! ## Dispatch over all histories -/

/-- What becomes of a request that the middlewares let pass with the state `app`: the chosen
    handler is run on that state and no other one touches it, its exception becomes a 500
    response, and without a handler the response is a 404. -/
structure Precedence (middlewares : List (Middleware σ)) (regs : List (Registration σ)) (req : Request)
    (app : σ) (result : Except Exn Response × σ) : Prop where
  chosen : ∃! found, Chosen req regs found
  returns : ∀ handler req' resp app', Chosen req regs (some (handler, req')) →
    handler req' app = (.ok resp, app') → result = (.ok resp, app')
  throws : ∀ handler req' e app', Chosen req regs (some (handler, req')) →
    handler req' app = (.error e, app') → ∃ resp, resp.status = 500 ∧ result = (.ok resp, app')
  missing : Chosen req regs none → ∃ resp, resp.status = 404 ∧ result = (.ok resp, app)
  hasMatch : ∀ method path, (registered middlewares regs).hasMatch method path = true ↔
    (∃ reg ∈ regs, IsStatic method path reg) ∨ ∃ reg ∈ regs, IsDynamic method path reg

theorem dispatch_registered {middlewares : List (Middleware σ)} {regs : List (Registration σ)}
    (what : Exn → Str) {req : Request} {app app₁ : σ}
    (hpass : runMiddlewares middlewares req app = (.ok none, app₁)) {found : Option (Handler σ × Request)}
    (h : Chosen req regs found) :
    (registered middlewares regs).dispatch what req app =
      match found with
      | some (handler, req') => guarded what handler req' app₁
      | none => (Response.error 404 (lit "Not Found") (lit "not_found")
          (lit "No route matches the request"), app₁) := by
  unfold dispatch
  rw [registered_middlewares, hpass]
  dsimp only
  rw [(chosen_iff middlewares).1 h]
  rcases found with _ | ⟨handler, req'⟩ <;> rfl

/-- The texts that `dispatch` itself puts in an error answer are ASCII. -/
theorem answerTexts_valid : Json.utf8Valid (lit "handler_error") = true ∧
    Json.utf8Valid (lit "not_found") = true ∧ Json.utf8Valid (lit "No route matches the request") = true := by
  have hascii : (lit "handler_error").all (· < 0x80) = true ∧ (lit "not_found").all (· < 0x80) = true ∧
      (lit "No route matches the request").all (· < 0x80) = true := by decide +kernel
  obtain ⟨hcode, hnotFound, hmessage⟩ := hascii
  exact ⟨Json.utf8Valid_ascii (Json.ascii_of_all hcode), Json.utf8Valid_ascii (Json.ascii_of_all hnotFound),
    Json.utf8Valid_ascii (Json.ascii_of_all hmessage)⟩

theorem dispatch_precedence {middlewares : List (Middleware σ)} (regs : List (Registration σ))
    (what : Exn → Str) {req : Request} {app app₁ : σ}
    (hpass : runMiddlewares middlewares req app = (.ok none, app₁)) :
    Precedence middlewares regs req app₁ ((registered middlewares regs).dispatch what req app) ↔
      ∀ handler req' e, Chosen req regs (some (handler, req')) → (handler req' app₁).1 = .error e →
        Json.utf8Valid (what e) = true := by
  have hcode := answerTexts_valid.1
  constructor
  · intro h handler req' e hchosen he
    obtain ⟨resp, -, hresp⟩ := h.throws handler req' e _ hchosen (Prod.ext he rfl)
    rw [dispatch_registered what hpass hchosen] at hresp
    dsimp only [guarded, attempt] at hresp
    rw [show handler req' app₁ = (.error e, (handler req' app₁).2) from Prod.ext he rfl] at hresp
    by_contra hinvalid
    have hthrow := (Response.error_dump hcode 500 (lit "Internal Server Error") (what e)).2
      (Bool.not_eq_true _ ▸ hinvalid)
    dsimp only at hresp
    rw [hthrow] at hresp
    cases hresp
  · intro h
    have hunique : ∃! found, Chosen req regs found :=
      ⟨_, (chosen_iff middlewares).2 rfl, fun found hfound => ((chosen_iff middlewares).1 hfound).symm⟩
    refine ⟨hunique, ?_, ?_, ?_, hasMatch_registered middlewares regs⟩
    · intro handler req' resp app' hchosen hresp
      rw [dispatch_registered what hpass hchosen]
      dsimp only [guarded, attempt]
      rw [hresp]
    · intro handler req' e app' hchosen he
      obtain ⟨resp, hresp, hstatus⟩ := (Response.error_dump hcode 500 (lit "Internal Server Error")
        (what e)).1 (h handler req' e hchosen (by rw [he]))
      refine ⟨resp, hstatus, ?_⟩
      rw [dispatch_registered what hpass hchosen]
      dsimp only [guarded, attempt]
      rw [he]
      dsimp only
      rw [hresp]
    · intro hchosen
      obtain ⟨-, hnotFound, hmessage⟩ := answerTexts_valid
      obtain ⟨resp, hresp, hstatus⟩ := (Response.error_dump hnotFound 404 (lit "Not Found")
        (lit "No route matches the request")).1 hmessage
      refine ⟨resp, hstatus, ?_⟩
      rw [dispatch_registered what hpass hchosen]
      dsimp only
      rw [hresp]

end

/-! ## Two histories -/

/-- The text of an exception. -/
def whatText : Exn → Str
  | .other text => text
  | _ => []

def songRequest : Request where
  method := .GET
  path := lit "/api/song"
  queryString := []
  headers := .empty
  body := []
  bodyLength := 0
  pathParams := .empty

/-- A handler that records its name, and the parameter `id`. -/
def named (name : Str) : Handler (List (Str × Str)) := fun req app =>
  (.ok {}, app ++ [(name, (req.pathParams.get (lit "id")).getD [])])

def songRoutes : List (Registration (List (Str × Str))) :=
  [.addRoute .GET (lit "/api/:id") (named (lit "first")), .addRoute .GET (lit "/:a/:id") (named (lit "second")),
    .addCatchAllRoute .GET (named (lit "files"))]

theorem songRoutes_precedence :
    Precedence [] songRoutes songRequest []
      ((registered [] songRoutes).dispatch whatText songRequest []) := by
  have hfirst : Chosen songRequest songRoutes
      (some (named (lit "first"), songRequest.setPathParams (.ofList [(lit "id", lit "song")]))) := by
    have hparams : hasParams (lit "/api/:id") = true ∧ hasParams (lit "/:a/:id") = true := by
      decide +kernel
    have hregs : songRoutes = [] ++ .addRoute .GET (lit "/api/:id") (named (lit "first")) :: songRoutes.tail :=
      rfl
    refine .dynamic (fun reg hreg => ?_) hregs hparams.1 (matchPath_eq.1 ?_) (by simp)
    · simp only [songRoutes, List.mem_cons, List.not_mem_nil, or_false] at hreg
      rcases hreg with rfl | rfl | rfl <;> simp [IsStatic, hparams]
    · decide +kernel
  refine (dispatch_precedence songRoutes whatText rfl).2 fun handler req' e hchosen he => ?_
  have hsame := (chosen_iff []).1 hchosen
  rw [(chosen_iff []).1 hfirst] at hsame
  obtain ⟨rfl, -⟩ := Prod.mk.inj (Option.some.inj hsame)
  cases he

/-- A handler whose exception has a text that is not UTF-8. -/
def failing : Handler Unit := fun _ app => (.error (.other [255]), app)

theorem thrown_out :
    ¬ Precedence [] [.addRoute .GET (lit "/api/song") failing] songRequest ()
      ((registered [] [.addRoute .GET (lit "/api/song") failing]).dispatch whatText songRequest ()) := by
  intro h
  have hchosen : Chosen songRequest [.addRoute .GET (lit "/api/song") failing] (some (failing, songRequest)) :=
    .static (List.nil_append _).symm (by decide +kernel) (by simp)
  have hcode := answerTexts_valid.1
  have hthrow := (Response.error_dump hcode 500 (lit "Internal Server Error") [255]).2 (by decide +kernel)
  obtain ⟨resp, -, hresp⟩ := h.throws failing songRequest (.other [255]) () hchosen rfl
  rw [dispatch_registered whatText rfl hchosen] at hresp
  have hresult := congrArg Prod.fst hresp
  dsimp only [guarded, attempt, failing, whatText] at hresult
  rw [hthrow] at hresult
  cases hresult
end Router

end NarMusic
