import HttpServer.Router.Mounts

/-!
# Exceptions in the router

`routeRun` is `Router::route` where every file system call has an outcome of its
own, and with a record of the handlers that are run. A handler that throws is
answered with 500 and no other is run; an exception leaves `route` just where
`is_regular_file`, the one call without an `error_code`, throws (`answers_iff`).
-/

namespace HttpServer

/-- The outcomes of the calls that `serve_static_file` makes. -/
structure Calls where
  /-- `canonical(full_path, ec)`; none where `ec` is set. -/
  file : Option CanonicalPath
  /-- `canonical(mount.directory, ec)`; none where `ec` is set. -/
  root : Option CanonicalPath
  /-- `is_regular_file(canonical)`; none where it throws. -/
  regular : Option Bool
  /-- The content of the file; none where it cannot be opened. -/
  content : Option Bytes

namespace Router

/-- `serve_static_file` on the given outcomes. -/
def serveCalls (c : Calls) (mount : StaticMount) (path : Bytes) : Option Response :=
  if path.length < mount.mountPrefix.length then none
  else if !isPathSafe (relPath mount path) then some (.error .forbidden (ascii "Forbidden"))
  else
    match c.file with
    | none => some .notFound
    | some canonical =>
      match c.root with
      | none => some (.error .internalServerError [])
      | some canonicalRoot =>
        let rootStr := canonicalRoot.text
        let fileStr := canonical.text
        if fileStr.take rootStr.length ≠ rootStr then some (.error .forbidden (ascii "Forbidden"))
        else
          match c.regular with
          | none => none
          | some false => some .notFound
          | some true =>
            match c.content with
            | none => some (.error .internalServerError [])
            | some content =>
              some ((Response.ok content).setHeader (ascii "Content-Type") (getMimeType fileStr))

/-- The loop over the routes, with the handlers that it runs. -/
def runRoutes (request : Request) (pathFound : Bool) : List Route → List Route × (Bool ⊕ Response)
  | [] => ([], .inl pathFound)
  | route :: routes =>
    if route.path = request.target then
      if route.method = request.method then ([route], .inr (handle route request))
      else runRoutes request true routes
    else runRoutes request pathFound routes

/-- The loop over the static mounts. -/
def runMounts (c : Calls) (request : Request) : List StaticMount → Option Response
  | [] => some .notFound
  | mount :: mounts =>
    if mount.mountPrefix.isPrefixOf request.target then
      if request.method = ascii "GET" ∨ request.method = ascii "HEAD" then
        serveCalls c mount request.target
      else some (.methodNotAllowed (ascii "GET, HEAD"))
    else runMounts c request mounts

/-- The handlers that `route` runs, and its response; none where an exception leaves it. -/
def routeRun (r : Router) (c : Calls) (request : Request) : List Route × Option Response :=
  match runRoutes request false r.routes with
  | (handlers, .inr response) => (handlers, some response)
  | (handlers, .inl true) => (handlers, some (.methodNotAllowed (allowMethods request.target r.routes)))
  | (handlers, .inl false) => (handlers, runMounts c request r.staticMounts)

/-- `route` returns a response, and it is a 500 if a handler throws, the only one that is run. -/
def RouteAnswers (r : Router) (c : Calls) (request : Request) : Prop :=
  (∃ res, (r.routeRun c request).2 = some res) ∧
    ∀ route ∈ (r.routeRun c request).1, route.func request = none →
      (r.routeRun c request).2 = some (.error .internalServerError (ascii "Internal Server Error")) ∧
      (r.routeRun c request).1 = [route]

/-- The request comes to a mount and to a path that both canonical calls resolve below it, and the
query for a regular file throws. -/
structure Escapes (r : Router) (c : Calls) (request : Request) : Prop where
  path : r.hasPath request = false
  method : Served request
  mounted : ∃ mount, r.mountFor request = some mount ∧ isPathSafe (relPath mount request.target) = true
  inside : ∃ f root, c.file = some f ∧ c.root = some root ∧ root.text <+: f.text
  throws : c.regular = none

/-! ## One file system -/

/-- The outcomes on a file system. -/
def calls (fs : FileSystem) (mount : StaticMount) (path : Bytes) : Calls where
  file := fs.canonical (fullPath mount path)
  root := fs.canonical mount.directory
  regular := (fs.canonical (fullPath mount path)).bind fs.isRegularFile
  content := (fs.canonical (fullPath mount path)).bind fs.read

theorem serveCalls_calls (fs : FileSystem) (mount : StaticMount) (path : Bytes) :
    serveCalls (calls fs mount path) mount path = serveStaticFile fs mount path := by
  unfold serveCalls serveStaticFile calls fullPath
  dsimp only
  cases fs.canonical (joinPath mount.directory (relativePath (relPath mount path))) with
  | none => rfl
  | some f => rfl

/-- At most one handler is run, the one of the first route that matches. -/
theorem runRoutes_eq (request : Request) (pathFound : Bool) (routes : List Route) :
    runRoutes request pathFound routes =
      ((routes.find? fun route => route.path == request.target && route.method == request.method).toList,
        findRoute request pathFound routes) := by
  induction routes generalizing pathFound with
  | nil => rfl
  | cons route routes ih =>
    unfold runRoutes findRoute
    by_cases path : route.path = request.target
    · by_cases method : route.method = request.method
      · simp [path, method]
      · simp [path, method, ih]
    · simp [path, ih]

/-- The record of the handlers, and the response. -/
theorem routeRun_eq (r : Router) (c : Calls) (request : Request) :
    r.routeRun c request = ((r.routeFor request).toList,
      match r.routeFor request with
      | some route => some (handle route request)
      | none =>
        if r.hasPath request then some (.methodNotAllowed (allowMethods request.target r.routes))
        else runMounts c request r.staticMounts) := by
  unfold routeRun
  rw [runRoutes_eq, findRoute_eq]
  unfold routeFor hasPath
  cases r.routes.find? fun route => route.path == request.target && route.method == request.method with
  | some route => rfl
  | none =>
    cases r.routes.any (·.path == request.target) with
    | true => rfl
    | false => rfl

theorem runMounts_eq (c : Calls) (request : Request) (mounts : List StaticMount) :
    runMounts c request mounts =
      match mounts.find? fun mount => mount.mountPrefix.isPrefixOf request.target with
      | some mount =>
        if Served request then serveCalls c mount request.target
        else some (.methodNotAllowed (ascii "GET, HEAD"))
      | none => some .notFound := by
  induction mounts with
  | nil => rfl
  | cons mount mounts ih =>
    unfold runMounts
    by_cases starts : mount.mountPrefix.isPrefixOf request.target = true
    · simp only [starts, if_true, List.find?_cons_of_pos]
      rfl
    · rw [if_neg starts, ih, List.find?_cons_of_neg (by simpa using starts)]

/-- On a file system the response is that of `route`. -/
theorem routeRun_calls (r : Router) (fs : FileSystem) (request : Request) (c : Calls)
    (same : ∀ mount, r.mountFor request = some mount → c = calls fs mount request.target) :
    (r.routeRun c request).2 = r.route fs request := by
  rw [routeRun_eq, route_eq]
  cases r.routeFor request with
  | some route => rfl
  | none =>
    cases r.hasPath request with
    | true => rfl
    | false =>
      change runMounts c request r.staticMounts = findMount fs request r.staticMounts
      rw [runMounts_eq, findMount_eq]
      unfold mountFor at same
      cases found : r.staticMounts.find? fun mount => mount.mountPrefix.isPrefixOf request.target with
      | none => rfl
      | some mount =>
        change (if Served request then serveCalls c mount request.target else _) = answer fs request mount
        rw [same mount found, serveCalls_calls]
        rfl

/-! ## The exception that escapes -/

/-- A static file is not answered for just where the query for a regular file throws. -/
theorem serveCalls_none {c : Calls} {mount : StaticMount} {target : Bytes}
    (long : mount.mountPrefix.length ≤ target.length) :
    serveCalls c mount target = none ↔
      isPathSafe (relPath mount target) = true ∧
      (∃ f root, c.file = some f ∧ c.root = some root ∧ root.text <+: f.text) ∧ c.regular = none := by
  unfold serveCalls
  rw [if_neg (Nat.not_lt.2 long)]
  cases safe : isPathSafe (relPath mount target) with
  | false => simp
  | true =>
    cases c.file with
    | none => simp
    | some f =>
      cases c.root with
      | none => simp
      | some root =>
        by_cases texts : f.text.take root.text.length = root.text
        · have below := (take_eq_iff root.text f.text).1 texts
          cases c.regular with
          | none => simp [texts, below]
          | some b =>
            cases b with
            | false => simp [texts]
            | true => cases c.content <;> simp [texts]
        · have outside : ¬ root.text <+: f.text := fun below => texts ((take_eq_iff root.text f.text).2 below)
          simp [texts, outside]

theorem runMounts_none (c : Calls) (request : Request) (mounts : List StaticMount) :
    runMounts c request mounts = none ↔
      Served request ∧ ∃ mount, mounts.find? (fun m => m.mountPrefix.isPrefixOf request.target) = some mount ∧
        isPathSafe (relPath mount request.target) = true ∧
        (∃ f root, c.file = some f ∧ c.root = some root ∧ root.text <+: f.text) ∧ c.regular = none := by
  rw [runMounts_eq]
  cases found : mounts.find? fun m => m.mountPrefix.isPrefixOf request.target with
  | none => simp
  | some mount =>
    have takes : mount.mountPrefix <+: request.target := by
      simpa [List.isPrefixOf_iff_prefix] using List.find?_some found
    have long := takes.length_le
    by_cases method : Served request
    · simp [method, serveCalls_none long]
    · simp [method]

/-- A handler that throws is answered with 500, and it is the only one that is run. -/
theorem routeRun_threw {r : Router} {c : Calls} {request : Request} {route : Route}
    (ran : route ∈ (r.routeRun c request).1) (threw : route.func request = none) :
    (r.routeRun c request).2 = some (.error .internalServerError (ascii "Internal Server Error")) ∧
      (r.routeRun c request).1 = [route] := by
  rw [routeRun_eq] at ran ⊢
  have found : r.routeFor request = some route := Option.mem_toList.1 ran
  rw [found]
  exact ⟨by simp [handle, threw], rfl⟩

/-- **The router answers**, unless the query for a regular file throws. -/
theorem answers_iff (r : Router) (c : Calls) (request : Request) :
    RouteAnswers r c request ↔ ¬ Escapes r c request := by
  have handlers : RouteAnswers r c request ↔ ¬ (r.routeRun c request).2 = none := by
    unfold RouteAnswers
    rw [← Option.ne_none_iff_exists']
    exact and_iff_left fun route ran threw => routeRun_threw ran threw
  rw [handlers, not_iff_not, routeRun_eq]
  cases found : r.routeFor request with
  | some route =>
    refine iff_of_false (by simp) fun escapes => ?_
    cases (routeFor_hasPath found).symm.trans escapes.path
  | none =>
    cases path : r.hasPath request with
    | true =>
      refine iff_of_false (by simp) fun escapes => ?_
      cases path.symm.trans escapes.path
    | false =>
      change runMounts c request r.staticMounts = none ↔ _
      exact (runMounts_none c request r.staticMounts).trans
        ⟨fun ⟨method, mount, first, safe, inside, throws⟩ => ⟨path, method, ⟨mount, first, safe⟩, inside, throws⟩,
          fun ⟨_, method, ⟨mount, first, safe⟩, inside, throws⟩ => ⟨method, mount, first, safe, inside, throws⟩⟩

/-- A file that canonical finds and the query for a regular file fails on. -/
theorem answers_escape :
    ¬ RouteAnswers { staticMounts := [⟨ascii "/static", ascii "/srv"⟩] }
      ⟨some ⟨[ascii "srv", ascii "x"], by decide⟩, some ⟨[ascii "srv"], by decide⟩, none, none⟩
      { method := ascii "GET", target := ascii "/static/x" } := by
  rintro ⟨⟨res, answered⟩, -⟩
  have escaped : (routeRun { staticMounts := [⟨ascii "/static", ascii "/srv"⟩] }
      ⟨some ⟨[ascii "srv", ascii "x"], by decide⟩, some ⟨[ascii "srv"], by decide⟩, none, none⟩
      { method := ascii "GET", target := ascii "/static/x" }).2 = none := by rfl
  cases escaped.symm.trans answered

end Router

end HttpServer
