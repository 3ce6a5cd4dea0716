import HttpServer.Http.Client
import HttpServer.Router.Containment

/-!
# What the router answers

Where no file system call throws the router always answers (`route_total`). Its
own responses have clean headers, except that the `Allow` value of its 405 is
made of the registered method names (`route_answers`).
-/

namespace HttpServer

/-- No line end in a name or a value. -/
def Clean (s : Bytes) : Prop := (13 : UInt8) ∉ s ∧ (10 : UInt8) ∉ s

instance (s : Bytes) : Decidable (Clean s) := inferInstanceAs (Decidable (_ ∧ _))

namespace Response

def CleanHeaders (r : Response) : Prop := ∀ e ∈ r.headers.entries, Clean e.1 ∧ Clean e.2

/-- A response with status 204 has no body. -/
def BodyAllowed (r : Response) : Prop := r.status = .noContent → r.body = []

/-- A header that is set is there, and nothing else is new. -/
theorem mem_setHeader {r : Response} {k v : Bytes} {e : Sigma fun _ : Bytes => Bytes}
    (h : e ∈ (r.setHeader k v).headers.entries) : e = ⟨k, v⟩ ∨ e ∈ r.headers.entries := by
  obtain ⟨name, value⟩ := e
  rw [← AList.mem_lookup_iff, setHeader] at h
  by_cases same : name = k
  · subst same
    simp only [AList.lookup_insert, Option.mem_some_iff] at h
    subst h
    exact .inl rfl
  · simp only [AList.lookup_insert_ne same] at h
    exact .inr (AList.mem_lookup_iff.1 h)

/-- Setting a clean header keeps the headers clean. -/
theorem CleanHeaders.setHeader {r : Response} (h : r.CleanHeaders) {k v : Bytes} (hk : Clean k)
    (hv : Clean v) : (r.setHeader k v).CleanHeaders := by
  intro e he
  rcases mem_setHeader he with rfl | he
  · exact ⟨hk, hv⟩
  · exact h e he

theorem cleanHeaders_empty (status : StatusCode) : ({ status : Response }).CleanHeaders := by
  rintro e ⟨⟩

theorem setBody_clean {r : Response} (h : r.CleanHeaders) (body : Bytes) {type : Bytes}
    (ht : Clean type) : (r.setBody body type).CleanHeaders :=
  CleanHeaders.setHeader (r := { r with body }) h (by decide) ht

/-- The errors that the code writes have clean headers. -/
theorem error_clean (code : StatusCode) (message : Bytes) : (error code message).CleanHeaders := by
  unfold error
  split
  · exact setBody_clean (cleanHeaders_empty code) _ (by decide)
  · exact setBody_clean (cleanHeaders_empty code) _ (by decide)

theorem error_body (code : StatusCode) (message : Bytes) (other : code ≠ .noContent) :
    (error code message).BodyAllowed := by
  intro none_
  rw [error_status] at none_
  exact absurd none_ other

end Response

namespace Router

open Response

/-- The response is one that the router, or a handler that keeps the rules, gives. -/
structure Regular (res : Response) : Prop where
  headers : res.CleanHeaders
  body : res.BodyAllowed

/-- Every response of a handler has clean headers, and no body with status 204. -/
def HandlersRegular (r : Router) : Prop :=
  ∀ route ∈ r.routes, ∀ q res, route.func q = some res → Regular res

/-- No file system call throws. -/
def Calm (fs : FileSystem) : Prop := ∀ p, ∃ b, fs.isRegularFile p = some b

/-- An error other than 204 is regular. -/
theorem error_regular {code : StatusCode} (message : Bytes) (other : code ≠ .noContent) :
    Regular (error code message) :=
  ⟨error_clean code message, error_body code message other⟩

/-- So is a 405 with a clean list of methods. -/
theorem methodNotAllowed_regular {allow : Bytes} (h : Clean allow) : Regular (methodNotAllowed allow) where
  headers := setBody_clean ((cleanHeaders_empty _).setHeader (by decide) h) _ (by decide)
  body h := by cases h

/-- Every entry of the table of types is clean, and so is the default. -/
theorem getMimeType_clean (path : Bytes) : Clean (getMimeType path) := by
  have table : ∀ e ∈ mimeTypes, Clean e.2 := by decide +kernel
  unfold getMimeType
  split
  · decide
  · rename_i dotPos _
    show Clean ((mimeTypes.lookup (toLower (path.drop dotPos))).getD (ascii "application/octet-stream"))
    cases found : mimeTypes.lookup (toLower (path.drop dotPos)) with
    | none => exact show Clean (ascii "application/octet-stream") by decide
    | some type =>
      obtain ⟨front, back, eq, -⟩ := List.lookup_eq_some_iff.1 found
      exact table (toLower (path.drop dotPos), type) (by rw [eq]; simp)

/-- Whatever `serve_static_file` returns, for a file or for an error, is regular. -/
theorem serveStaticFile_regular {fs : FileSystem} {mount : StaticMount} {target : Bytes}
    {res : Response} (h : serveStaticFile fs mount target = some res) : Regular res := by
  rcases serveStaticFile_cases h with ⟨code, message, -, other, rfl⟩ | ⟨root, f, content, -, -, rfl⟩
  · exact error_regular message other
  · refine ⟨CleanHeaders.setHeader ?_ (by decide) (getMimeType_clean _), fun h => by cases h⟩
    exact setBody_clean (cleanHeaders_empty .ok) _ (by decide)

/-- So is whatever the loop over the mounts returns. -/
theorem findMount_regular {fs : FileSystem} {request : Request} {mounts : List StaticMount}
    {res : Response} (h : findMount fs request mounts = some res) : Regular res := by
  induction mounts with
  | nil =>
    cases h
    exact error_regular _ (by decide)
  | cons mount mounts ih =>
    unfold findMount at h
    split at h
    · split at h
      · exact serveStaticFile_regular h
      · cases h
        exact methodNotAllowed_regular (by decide)
    · exact ih h

/-! ## Which part of the router answers -/

/-- The first route with the request's path and method. -/
def routeFor (r : Router) (request : Request) : Option Route :=
  r.routes.find? fun route => route.path == request.target && route.method == request.method

/-- Some route has the request's path. -/
def hasPath (r : Router) (request : Request) : Bool :=
  r.routes.any (·.path == request.target)

/-- The first mount whose prefix the target starts with. -/
def mountFor (r : Router) (request : Request) : Option StaticMount :=
  r.staticMounts.find? fun mount => mount.mountPrefix.isPrefixOf request.target

/-- The loop over the routes takes the first one with the path and the method, and notes each path that it passes. -/
theorem findRoute_eq (request : Request) (pathFound : Bool) (routes : List Route) :
    findRoute request pathFound routes =
      match routes.find? fun route => route.path == request.target && route.method == request.method with
      | some route => .inr (handle route request)
      | none => .inl (pathFound || routes.any (·.path == request.target)) := by
  induction routes generalizing pathFound with
  | nil => simp [findRoute]
  | cons route routes ih =>
    unfold findRoute
    by_cases path : route.path = request.target
    · by_cases method : route.method = request.method
      · simp [path, method]
      · simp [path, method, ih]
    · have other : (route.path == request.target) = false := beq_false_of_ne path
      simp [path, other, ih]

/-- A matching route answers, else the 405 if the path is known, else the mounts. -/
theorem route_eq (r : Router) (fs : FileSystem) (request : Request) :
    r.route fs request =
      match r.routeFor request with
      | some route => some (handle route request)
      | none =>
        if r.hasPath request then some (methodNotAllowed (allowMethods request.target r.routes))
        else findMount fs request r.staticMounts := by
  rw [route, findRoute_eq, routeFor]
  cases r.routes.find? fun route => route.path == request.target && route.method == request.method with
  | some route => rfl
  | none =>
    rw [hasPath, Bool.false_or]
    cases r.routes.any (·.path == request.target) with
    | true => rfl
    | false => rfl

/-- HEAD is served like GET. -/
theorem findMount_head {fs : FileSystem} {request : Request} (head : request.method = ascii "HEAD")
    (mounts : List StaticMount) :
    findMount fs request mounts =
      match mounts.find? fun mount => mount.mountPrefix.isPrefixOf request.target with
      | some mount => serveStaticFile fs mount request.target
      | none => some .notFound := by
  induction mounts with
  | nil => rfl
  | cons mount mounts ih =>
    unfold findMount
    by_cases starts : mount.mountPrefix.isPrefixOf request.target = true
    · simp [starts, head]
    · simp [starts, ih]

/-- The router answers with its own 405: the path is registered, the method is not. -/
def Refused (r : Router) (request : Request) : Prop :=
  r.routeFor request = none ∧ r.hasPath request = true

/-- A handler that throws is answered with a 500, which is regular, and the others are by hypothesis. -/
theorem handle_regular {r : Router} {request : Request} {route : Route} (handlers : r.HandlersRegular)
    (found : r.routeFor request = some route) : Regular (handle route request) := by
  unfold handle
  cases answer : route.func request with
  | none => exact error_regular _ (by decide)
  | some res => exact handlers route (List.mem_of_find?_eq_some found) request res answer

/-- The router's 405 lists the registered methods; every other response keeps the rules. -/
theorem route_answers {r : Router} {fs : FileSystem} {request : Request} {res : Response}
    (handlers : r.HandlersRegular) (h : r.route fs request = some res) :
    (r.Refused request ∧ res = methodNotAllowed (allowMethods request.target r.routes)) ∨
      (¬ r.Refused request ∧ Regular res) := by
  rw [route_eq] at h
  unfold Refused
  cases found : r.routeFor request with
  | some route =>
    rw [found] at h
    cases h
    exact .inr ⟨by simp, handle_regular handlers found⟩
  | none =>
    rw [found] at h
    cases path : r.hasPath request with
    | true =>
      simp only [path, if_true] at h
      cases h
      exact .inl ⟨⟨rfl, rfl⟩, rfl⟩
    | false =>
      simp only [path, Bool.false_eq_true, if_false] at h
      exact .inr ⟨by simp, findMount_regular h⟩

/-! ## Empty answers -/

/-- The router's answer has no body: a handler gives one without, or an empty file is served. -/
inductive Bare (r : Router) (fs : FileSystem) (request : Request) : Prop where
  | handler (route : Route) (res : Response) (found : r.routeFor request = some route)
      (answer : route.func request = some res) (empty : res.body = [])
  | file (mount : StaticMount) (root f : CanonicalPath) (found : r.routeFor request = none)
      (path : r.hasPath request = false) (mounted : r.mountFor request = some mount)
      (leads : Leads fs mount request.target root f []) (texts : root.text <+: f.text)

/-- Every error page has a text. -/
theorem error_ne_nil (code : StatusCode) (message : Bytes) : (error code message).body ≠ [] := by
  unfold error
  split
  · assumption
  · rw [setBody_body]
    cases code <;> decide

/-- An answer without a body is the one to an empty file in the mount. -/
theorem serveStaticFile_bare {fs : FileSystem} {mount : StaticMount} {target : Bytes} {res : Response}
    (h : serveStaticFile fs mount target = some res) :
    res.body = [] ↔ ∃ root f, Leads fs mount target root f [] ∧ root.text <+: f.text := by
  constructor
  · intro empty
    rcases serveStaticFile_cases h with ⟨code, message, -, -, rfl⟩ | ⟨root, f, content, leads, texts, rfl⟩
    · exact absurd empty (error_ne_nil code message)
    · cases (show content = [] from empty)
      exact ⟨root, f, leads, texts⟩
  · rintro ⟨root, f, leads, texts⟩
    rw [leads.served texts] at h
    cases h
    rfl

/-- A handler's answer without a body is its own: the 500 for an exception has one. -/
theorem handle_bare (route : Route) (request : Request) :
    (handle route request).body = [] ↔ ∃ res, route.func request = some res ∧ res.body = [] := by
  unfold handle
  cases route.func request with
  | none => simp [error_ne_nil]
  | some res => simp

/-- To a `HEAD` the mounts answer without a body for an empty file only: the body is left as it was read. -/
theorem findMount_bare {r : Router} {fs : FileSystem} {request : Request} {res : Response}
    (head : request.method = ascii "HEAD") (h : findMount fs request r.staticMounts = some res) :
    res.body = [] ↔ ∃ mount root f, r.mountFor request = some mount ∧
      Leads fs mount request.target root f [] ∧ root.text <+: f.text := by
  rw [findMount_head head] at h
  change (match r.mountFor request with
    | some mount => serveStaticFile fs mount request.target
    | none => some .notFound) = some res at h
  cases mounted : r.mountFor request with
  | none =>
    rw [mounted] at h
    cases h
    simp [notFound, error_ne_nil]
  | some mount =>
    rw [mounted] at h
    rw [serveStaticFile_bare h]
    simp

/-- An answer to HEAD has no body only where a handler or an empty file gives none. -/
theorem route_bare {r : Router} {fs : FileSystem} {request : Request} {res : Response}
    (head : request.method = ascii "HEAD") (h : r.route fs request = some res) :
    res.body = [] ↔ r.Bare fs request := by
  rw [route_eq] at h
  cases found : r.routeFor request with
  | some route =>
    rw [found] at h
    cases h
    rw [handle_bare]
    constructor
    · rintro ⟨res, answer, empty⟩
      exact .handler route res found answer empty
    · intro bare
      cases bare with
      | handler route' res found' answer empty =>
        cases found.symm.trans found'
        exact ⟨res, answer, empty⟩
      | file _ _ _ none_ => cases found.symm.trans none_
  | none =>
    rw [found] at h
    cases path : r.hasPath request with
    | true =>
      simp only [path, if_true] at h
      cases h
      constructor
      · intro empty
        exact absurd (show ascii "Method Not Allowed" = [] from empty) (by decide)
      · intro bare
        cases bare with
        | handler route res found' => cases found.symm.trans found'
        | file _ _ _ _ path' => cases path.symm.trans path'
    | false =>
      simp only [path, Bool.false_eq_true, if_false] at h
      rw [findMount_bare head h]
      constructor
      · rintro ⟨mount, root, f, mounted, leads, texts⟩
        exact .file mount root f found path mounted leads texts
      · intro bare
        cases bare with
        | handler route res found' => cases found.symm.trans found'
        | file mount root f _ _ mounted leads texts => exact ⟨mount, root, f, mounted, leads, texts⟩

/-! ## The router always answers -/

/-- A static file is answered for when no call throws. -/
theorem serveStaticFile_total {fs : FileSystem} (calm : Calm fs) {mount : StaticMount} {target : Bytes}
    (long : mount.mountPrefix.length ≤ target.length) : ∃ res, serveStaticFile fs mount target = some res := by
  unfold serveStaticFile
  rw [if_neg (Nat.not_lt.2 long)]
  dsimp only
  split
  · exact ⟨_, rfl⟩
  split
  · exact ⟨_, rfl⟩
  rename_i f _
  split
  · exact ⟨_, rfl⟩
  split
  · exact ⟨_, rfl⟩
  obtain ⟨b, regular⟩ := calm f
  rw [regular]
  cases b with
  | false => exact ⟨_, rfl⟩
  | true =>
    cases fs.read f with
    | none => exact ⟨_, rfl⟩
    | some content => exact ⟨_, rfl⟩

/-- Where no call of the file system throws the mounts answer every request. -/
theorem findMount_total {fs : FileSystem} (calm : Calm fs) (request : Request)
    (mounts : List StaticMount) : ∃ res, findMount fs request mounts = some res := by
  induction mounts with
  | nil => exact ⟨_, rfl⟩
  | cons mount mounts ih =>
    unfold findMount
    split
    · rename_i matches_
      split
      · exact serveStaticFile_total calm (List.isPrefixOf_iff_prefix.1 matches_).length_le
      · exact ⟨_, rfl⟩
    · exact ih

/-- When no call throws the router always answers. -/
theorem route_total (r : Router) {fs : FileSystem} (calm : Calm fs) (request : Request) :
    ∃ res, r.route fs request = some res := by
  rw [route_eq]
  split
  · exact ⟨_, rfl⟩
  · split
    · exact ⟨_, rfl⟩
    · exact findMount_total calm request r.staticMounts

end Router

end HttpServer
