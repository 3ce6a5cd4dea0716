import HttpServer.Http.Response
import HttpServer.Lib.Search
import HttpServer.Router.FileSystem

/-!
# The router

`Router::route` with its table of handlers, its 405 and its static mounts. A
handler gives none where it throws; `route` gives none where an exception leaves
it. Static files are read through a file system.
-/

namespace HttpServer

open ListSearch

structure Route where
  method : Bytes
  path : Bytes
  func : Request → Option Response

structure StaticMount where
  mountPrefix : Bytes
  directory : Bytes

structure Router where
  routes : List Route := []
  staticMounts : List StaticMount := []

namespace Router

def addRoute (r : Router) (method path : Bytes) (func : Request → Option Response) : Router :=
  { r with routes := r.routes ++ [⟨method, path, func⟩] }

def addStatic (r : Router) (mountPrefix directory : Bytes) : Router :=
  { r with staticMounts := r.staticMounts ++ [⟨mountPrefix, directory⟩] }

def isPathSafe (path : Bytes) : Bool :=
  if (find (ascii "..") path).isSome then false
  else if (find [0] path).isSome then false
  else if path.isEmpty || path.head? != some slash then false
  else true

/-- The content types by file name extension. -/
def mimeTypes : List (Bytes × Bytes) :=
  [(ascii ".html", ascii "text/html"), (ascii ".htm", ascii "text/html"),
    (ascii ".txt", ascii "text/plain"), (ascii ".css", ascii "text/css"),
    (ascii ".js", ascii "application/javascript"), (ascii ".json", ascii "application/json"),
    (ascii ".png", ascii "image/png"), (ascii ".jpg", ascii "image/jpeg"),
    (ascii ".jpeg", ascii "image/jpeg"), (ascii ".gif", ascii "image/gif"),
    (ascii ".svg", ascii "image/svg+xml"), (ascii ".ico", ascii "image/x-icon")]

/-- `path.find_last_of('.')`. -/
def findLastDot (path : Bytes) : Option Nat :=
  (path.reverse.findIdx? (· == 46)).map fun i => path.length - 1 - i

def getMimeType (path : Bytes) : Bytes :=
  match findLastDot path with
  | none => ascii "application/octet-stream"
  | some dotPos =>
    let ext := toLower (path.drop dotPos)
    (mimeTypes.lookup ext).getD (ascii "application/octet-stream")

/-- The path below the mount, with a slash in front. -/
def relPath (mount : StaticMount) (path : Bytes) : Bytes :=
  let rel := path.drop mount.mountPrefix.length
  if rel.isEmpty || rel.head? != some slash then slash :: rel else rel

def serveStaticFile (fs : FileSystem) (mount : StaticMount) (path : Bytes) : Option Response :=
  if path.length < mount.mountPrefix.length then none
  else
    let rel := relPath mount path
    if !isPathSafe rel then some (.error .forbidden (ascii "Forbidden"))
    else
      let fullPath := joinPath mount.directory (relativePath rel)
      match fs.canonical fullPath with
      | none => some .notFound
      | some canonical =>
        match fs.canonical mount.directory with
        | none => some (.error .internalServerError [])
        | some canonicalRoot =>
          let rootStr := canonicalRoot.text
          let fileStr := canonical.text
          if fileStr.take rootStr.length ≠ rootStr then some (.error .forbidden (ascii "Forbidden"))
          else
            match fs.isRegularFile canonical with
            | none => none
            | some false => some .notFound
            | some true =>
              match fs.read canonical with
              | none => some (.error .internalServerError [])
              | some content =>
                some ((Response.ok content).setHeader (ascii "Content-Type") (getMimeType fileStr))

/-- A handler's response; an exception becomes a 500. -/
def handle (route : Route) (request : Request) : Response :=
  (route.func request).getD (.error .internalServerError (ascii "Internal Server Error"))

/-- The loop over the routes: the response of the first that matches, or `path_found`. -/
def findRoute (request : Request) (pathFound : Bool) : List Route → Bool ⊕ Response
  | [] => .inl pathFound
  | route :: routes =>
    if route.path = request.target then
      if route.method = request.method then .inr (handle route request)
      else findRoute request true routes
    else findRoute request pathFound routes

/-- The methods registered for the target, for the `Allow` header. -/
def allowMethods (target : Bytes) (routes : List Route) : Bytes :=
  routes.foldl (fun allow route =>
    if route.path = target then
      (if allow.isEmpty then allow else allow ++ ascii ", ") ++ route.method
    else allow) []

/-- The loop over the static mounts. -/
def findMount (fs : FileSystem) (request : Request) : List StaticMount → Option Response
  | [] => some .notFound
  | mount :: mounts =>
    if mount.mountPrefix.isPrefixOf request.target then
      if request.method = ascii "GET" ∨ request.method = ascii "HEAD" then
        serveStaticFile fs mount request.target
      else some (.methodNotAllowed (ascii "GET, HEAD"))
    else findMount fs request mounts

def route (r : Router) (fs : FileSystem) (request : Request) : Option Response :=
  match findRoute request false r.routes with
  | .inr response => some response
  | .inl true => some (.methodNotAllowed (allowMethods request.target r.routes))
  | .inl false => findMount fs request r.staticMounts

end Router

end HttpServer
