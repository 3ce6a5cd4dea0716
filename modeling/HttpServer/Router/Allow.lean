import HttpServer.Lib.Elements
import HttpServer.Router.Exceptions

/-!
# The Allow header

`routeActs` is `Router::route` with a record of what it does: the handlers it
runs, the mounts it serves from, and the 405 that it answers on its own, for a
known path or from a mount. The `Allow` value of such a 405 lists the methods
that would have been dispatched, and nothing else; without one exactly one part
of the router answers (`allow_tells`).
-/

namespace HttpServer

open Separated

/-- What `route` does with a request. -/
inductive RouteAct where
  | ran (route : Route)
  | served (mount : StaticMount)
  /-- The router's own 405. -/
  | refused

/-- The elements of the `Allow` value. -/
def Response.allowed (res : Response) : List Bytes :=
  elements comma (· == sp) ((res.headers.lookup (ascii "Allow")).getD [])

namespace Router

/-- The loop over the static mounts. -/
def actMounts (fs : FileSystem) (request : Request) : List StaticMount → List RouteAct × Option Response
  | [] => ([], some .notFound)
  | mount :: mounts =>
    if mount.mountPrefix.isPrefixOf request.target then
      if request.method = ascii "GET" ∨ request.method = ascii "HEAD" then
        ([.served mount], serveStaticFile fs mount request.target)
      else ([.refused], some (.methodNotAllowed (ascii "GET, HEAD")))
    else actMounts fs request mounts

/-- What `route` does, and its response. -/
def routeActs (r : Router) (fs : FileSystem) (request : Request) : List RouteAct × Option Response :=
  match runRoutes request false r.routes with
  | (handlers, .inr response) => (handlers.map .ran, some response)
  | (handlers, .inl true) =>
    (handlers.map .ran ++ [.refused], some (.methodNotAllowed (allowMethods request.target r.routes)))
  | (handlers, .inl false) =>
    let (acts, response) := actMounts fs request r.staticMounts
    (handlers.map .ran ++ acts, response)

/-- The request reaches a handler, or the serving of static files. -/
def Dispatched (r : Router) (fs : FileSystem) (request : Request) : Prop :=
  (∃ route, .ran route ∈ (r.routeActs fs request).1) ∨ ∃ mount, .served mount ∈ (r.routeActs fs request).1

/-- The methods that are registered for a target, in order. -/
def methodsFor (target : Bytes) (routes : List Route) : List Bytes :=
  (routes.filter (·.path == target)).map (·.method)

/-- `x` is the first of `xs` with the property. -/
def First {α : Type} (p : α → Prop) (xs : List α) (x : α) : Prop :=
  ∃ front back, xs = front ++ x :: back ∧ p x ∧ ∀ y ∈ front, ¬ p y

/-- The route has the request's path and method. -/
def Matches (request : Request) (route : Route) : Prop :=
  route.path = request.target ∧ route.method = request.method

/-- The answer is a 405, and its `Allow` value has the methods that reach a handler or the serving of
static files, and not that of the request. -/
structure Tells (r : Router) (fs : FileSystem) (request : Request) (res : Response) : Prop where
  answer : r.route fs request = some res
  status : res.status = .methodNotAllowed
  own : request.method ∉ res.allowed
  others : ∀ other : Request, other.target = request.target →
    (other.method ∈ res.allowed ↔ r.Dispatched fs other)

/-- Which part of the router answers when it does not refuse the method itself. -/
inductive Answered (r : Router) (fs : FileSystem) (request : Request) : Prop where
  | handler (route : Route) (first : First (Matches request) r.routes route)
      (acts : (r.routeActs fs request).1 = [.ran route])
      (answer : r.route fs request = some (handle route request))
  | file (mount : StaticMount) (first : First (·.mountPrefix <+: request.target) r.staticMounts mount)
      (none_ : ∀ route ∈ r.routes, route.path ≠ request.target)
      (acts : (r.routeActs fs request).1 = [.served mount])
      (answer : r.route fs request = serveStaticFile fs mount request.target)
  | missing (none_ : ∀ route ∈ r.routes, route.path ≠ request.target)
      (unmounted : ∀ mount ∈ r.staticMounts, ¬ mount.mountPrefix <+: request.target)
      (acts : (r.routeActs fs request).1 = []) (answer : r.route fs request = some .notFound)

/-! ## The parts of the router -/

/-- The loop over the mounts stops at the first prefix of the target. -/
theorem actMounts_eq (fs : FileSystem) (request : Request) (mounts : List StaticMount) :
    actMounts fs request mounts =
      (match mounts.find? fun mount => mount.mountPrefix.isPrefixOf request.target with
        | some mount => if Served request then [.served mount] else [.refused]
        | none => [], findMount fs request mounts) := by
  induction mounts with
  | nil => rfl
  | cons mount mounts ih =>
    unfold actMounts findMount
    by_cases starts : mount.mountPrefix.isPrefixOf request.target = true
    · simp only [starts, if_true, List.find?_cons_of_pos]
      by_cases method : Served request
      · rw [if_pos (show _ ∨ _ from method), if_pos method, if_pos (show _ ∨ _ from method)]
      · rw [if_neg (show ¬ (_ ∨ _) from method), if_neg method, if_neg (show ¬ (_ ∨ _) from method)]
    · rw [if_neg starts, if_neg starts, ih, List.find?_cons_of_neg (by simpa using starts)]

/-- The first mount whose prefix the target has is the one that answers. -/
theorem findMount_mountFor (r : Router) (fs : FileSystem) (request : Request) :
    findMount fs request r.staticMounts =
      match r.mountFor request with
      | some mount => answer fs request mount
      | none => some .notFound := by
  rw [findMount_eq]
  rfl

/-- The record, and the response of `route`. -/
theorem routeActs_eq (r : Router) (fs : FileSystem) (request : Request) :
    r.routeActs fs request =
      (match r.routeFor request with
        | some route => [.ran route]
        | none =>
          if r.hasPath request then [.refused]
          else
            match r.mountFor request with
            | some mount => if Served request then [.served mount] else [.refused]
            | none => [],
        r.route fs request) := by
  unfold routeActs
  rw [runRoutes_eq, findRoute_eq, route_eq]
  unfold routeFor hasPath mountFor
  cases r.routes.find? fun route => route.path == request.target && route.method == request.method with
  | some route => rfl
  | none =>
    rw [Bool.false_or]
    cases r.routes.any (·.path == request.target) with
    | true => rfl
    | false =>
      simp only [actMounts_eq]
      rfl

/-- The `Allow` header lists the methods of the path, in the order of the routes. -/
theorem allowMethods_eq (target : Bytes) (routes : List Route) :
    allowMethods target routes = join (ascii ", ") (methodsFor target routes) := by
  unfold allowMethods join joinBehind methodsFor
  rw [List.foldl_map, List.foldl_filter]
  simp only [beq_iff_eq]

theorem methodNotAllowed_allowed (allow : Bytes) :
    (Response.methodNotAllowed allow).allowed = elements comma (· == sp) allow := by
  rw [Response.allowed, Response.methodNotAllowed_lookup]
  rfl

/-- A method is listed when a route has it with this path. -/
theorem mem_methodsFor {m target : Bytes} {routes : List Route} :
    m ∈ methodsFor target routes ↔ ∃ route ∈ routes, route.path = target ∧ route.method = m := by
  simp [methodsFor, and_assoc]

/-- Method names without commas and spaces are read back from the `Allow` value. -/
theorem allowed_methods {target : Bytes} {routes : List Route} (known : ∃ route ∈ routes, route.path = target)
    (names : ∀ route ∈ routes, route.method ≠ [] ∧ comma ∉ route.method ∧ sp ∉ route.method) :
    (Response.methodNotAllowed (allowMethods target routes)).allowed = methodsFor target routes := by
  rw [methodNotAllowed_allowed, allowMethods_eq]
  refine elements_join (by decide) (by decide) ?_ ?_
  · obtain ⟨route, mem, path⟩ := known
    exact List.ne_nil_of_mem (mem_methodsFor.2 ⟨route, mem, path, rfl⟩)
  · intro m hm
    obtain ⟨route, mem, -, rfl⟩ := mem_methodsFor.1 hm
    obtain ⟨ne, whole, solid⟩ := names route mem
    exact ⟨ne, whole, fun c hc => beq_false_of_ne fun eq => solid (eq ▸ hc)⟩

theorem allowed_mount (m : Bytes) :
    m ∈ (Response.methodNotAllowed (ascii "GET, HEAD")).allowed ↔ m = ascii "GET" ∨ m = ascii "HEAD" := by
  have both : elements comma (· == sp) (ascii "GET, HEAD") = [ascii "GET", ascii "HEAD"] := by decide
  rw [methodNotAllowed_allowed, both]
  simp

/-- The flag of the loop tells whether some route has the path. -/
theorem hasPath_iff {r : Router} {request : Request} :
    r.hasPath request = true ↔ ∃ route ∈ r.routes, route.path = request.target := by
  simp [hasPath]

/-- No route is taken when none has both the path and the method. -/
theorem routeFor_none {r : Router} {request : Request} :
    r.routeFor request = none ↔ ∀ route ∈ r.routes, ¬ Matches request route := by
  simp [routeFor, Matches]

/-- What `find?` finds is the first one. -/
theorem first_of_find {α : Type} {p : α → Prop} {q : α → Bool} {xs : List α} {x : α}
    (same : ∀ y, q y = true ↔ p y) (found : xs.find? q = some x) : First p xs x := by
  obtain ⟨holds, front, back, eq, before⟩ := List.find?_eq_some_iff_append.1 found
  refine ⟨front, back, eq, (same x).1 holds, fun y hy py => ?_⟩
  have off := before y hy
  rw [(same y).2 py] at off
  cases off

/-- A request is dispatched to its route, or, where no route has the path, to a mount with a method that it serves. -/
theorem dispatched_iff {r : Router} {fs : FileSystem} {request : Request} :
    r.Dispatched fs request ↔ (∃ route ∈ r.routes, Matches request route) ∨
      (r.hasPath request = false ∧ r.mountFor request ≠ none ∧ Served request) := by
  unfold Dispatched
  rw [routeActs_eq]
  cases found : r.routeFor request with
  | some route =>
    refine iff_of_true (.inl ⟨route, by simp⟩) (.inl ⟨route, List.mem_of_find?_eq_some found, ?_⟩)
    simpa [Matches] using List.find?_some found
  | none =>
    have unmatched : ¬ ∃ route ∈ r.routes, Matches request route := fun ⟨route, mem, ok⟩ =>
      routeFor_none.1 found route mem ok
    rw [or_iff_right unmatched]
    cases r.hasPath request with
    | true => simp
    | false =>
      cases r.mountFor request with
      | none => simp
      | some mount => by_cases method : Served request <;> simp [method]

/-- The 405 of a known path. -/
theorem tells_path {r : Router} {fs : FileSystem} {request : Request}
    (names : ∀ route ∈ r.routes, route.method ≠ [] ∧ comma ∉ route.method ∧ sp ∉ route.method)
    (found : r.routeFor request = none) (path : r.hasPath request = true) :
    r.Tells fs request (.methodNotAllowed (allowMethods request.target r.routes)) := by
  have allowed := allowed_methods (hasPath_iff.1 path) names
  refine ⟨by rw [route_eq, found, path]; rfl, rfl, ?_, ?_⟩
  · rw [allowed, mem_methodsFor]
    rintro ⟨route, mem, ok⟩
    exact routeFor_none.1 found route mem ok
  · intro other target
    have known : r.hasPath other = true := by rwa [hasPath, target]
    rw [allowed, mem_methodsFor, dispatched_iff, known, ← target]
    simp [Matches]

/-- The 405 of a mount. -/
theorem tells_mount {r : Router} {fs : FileSystem} {request : Request} {mount : StaticMount}
    (path : r.hasPath request = false) (mounted : r.mountFor request = some mount)
    (method : ¬ Served request) : r.Tells fs request (.methodNotAllowed (ascii "GET, HEAD")) := by
  refine ⟨?_, rfl, by rwa [allowed_mount], ?_⟩
  · rw [route_mounts path, findMount_mountFor, mounted]
    exact if_neg method
  · intro other target
    have unknown : r.hasPath other = false := by rwa [hasPath, target]
    have first : r.mountFor other = some mount := by rwa [mountFor, target]
    have off : ¬ ∃ route ∈ r.routes, Matches other route := by
      rintro ⟨route, mem, ok⟩
      rw [hasPath_iff.2 ⟨route, mem, ok.1⟩] at unknown
      cases unknown
    rw [allowed_mount, dispatched_iff, unknown, first, or_iff_right off]
    simp [Served]

/-- Behind the routes a mount answers, or nothing does. -/
theorem answered_mounts {r : Router} {fs : FileSystem} {request : Request} (path : r.hasPath request = false)
    (own : .refused ∉ (r.routeActs fs request).1) : r.Answered fs request := by
  have none_ : ∀ route ∈ r.routes, route.path ≠ request.target := by simpa [hasPath] using path
  have found : r.routeFor request = none := routeFor_none.2 fun route mem ok => none_ route mem ok.1
  have acts := congrArg Prod.fst (r.routeActs_eq fs request)
  have answer := r.route_mounts path fs
  simp only [found, path, Bool.false_eq_true, if_false] at acts
  rw [findMount_mountFor] at answer
  cases mounted : r.mountFor request with
  | none =>
    rw [mounted] at acts answer
    refine .missing none_ (fun mount mem starts => ?_) acts answer
    exact List.find?_eq_none.1 mounted mount mem (List.isPrefixOf_iff_prefix.2 starts)
  | some mount =>
    rw [mounted] at acts answer
    by_cases method : Served request
    · simp only [if_pos method, Router.answer] at acts answer
      exact .file mount (first_of_find (fun y => List.isPrefixOf_iff_prefix) mounted) none_ acts answer
    · simp only [if_neg method] at acts
      exact absurd (by simp [acts]) own

/-- **The Allow header tells the truth.** -/
theorem allow_tells (r : Router) (fs : FileSystem)
    (names : ∀ route ∈ r.routes, route.method ≠ [] ∧ comma ∉ route.method ∧ sp ∉ route.method)
    (request : Request) :
    (.refused ∈ (r.routeActs fs request).1 → ∃ res, r.Tells fs request res) ∧
      (.refused ∉ (r.routeActs fs request).1 → r.Answered fs request) := by
  have acts := congrArg Prod.fst (r.routeActs_eq fs request)
  cases found : r.routeFor request with
  | some route =>
    simp only [found] at acts
    have answer : r.route fs request = some (handle route request) := by rw [route_eq, found]
    refine ⟨fun refused => by simp [acts] at refused, fun _ => ?_⟩
    exact .handler route (first_of_find (fun y => by simp [Matches]) found) acts answer
  | none =>
    cases path : r.hasPath request with
    | true =>
      simp only [found, path, if_true] at acts
      exact ⟨fun _ => ⟨_, tells_path names found path⟩, fun own => absurd (by simp [acts]) own⟩
    | false =>
      refine ⟨fun refused => ?_, answered_mounts path⟩
      simp only [found, path, Bool.false_eq_true, if_false] at acts
      cases mounted : r.mountFor request with
      | none => simp [acts, mounted] at refused
      | some mount =>
        have method : ¬ Served request := fun method => by simp [acts, mounted, method] at refused
        exact ⟨_, tells_mount path mounted method⟩

/-- Two methods on one path, and a mount. -/
def twoMethods : Router where
  routes := [⟨ascii "GET", ascii "/a", fun _ => none⟩, ⟨ascii "POST", ascii "/a", fun _ => none⟩]
  staticMounts := [⟨ascii "/static", ascii "/srv"⟩]

theorem allow_tells_twoMethods :
    (∃ res, twoMethods.Tells (oneFile fun _ => false) { method := ascii "DELETE", target := ascii "/a" } res) ∧
      (∃ res, twoMethods.Tells (oneFile fun _ => false)
        { method := ascii "POST", target := ascii "/static/x" } res) ∧
      twoMethods.Answered (oneFile fun _ => false) { method := ascii "GET", target := ascii "/b" } := by
  have names : ∀ route ∈ twoMethods.routes,
      route.method ≠ [] ∧ comma ∉ route.method ∧ sp ∉ route.method := by
    simp only [twoMethods, List.mem_cons, List.not_mem_nil, or_false]
    rintro route (rfl | rfl) <;> decide
  refine ⟨(allow_tells twoMethods _ names _).1 ?_, (allow_tells twoMethods _ names _).1 ?_,
    (allow_tells twoMethods _ names _).2 ?_⟩
  · exact List.mem_singleton_self RouteAct.refused
  · exact List.mem_singleton_self RouteAct.refused
  · exact List.not_mem_nil

end Router

end HttpServer
