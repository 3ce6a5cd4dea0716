import HttpServer.Server.Arguments
import HttpServer.Server.Framing
import HttpServer.Server.Service

/-!
# The deployed server

`main` reads the command line, sets up the routes and starts the server. What it
is for, from a client's side: `Api.answer` gives status and body of the answer to
each request. Whatever the scheduler and the other clients do, the client of an
accepted connection reads these answers from the socket, one for each request it
has sent and in their order (`api_served`): the parser, the router, the serializer
and the threads put together.
-/

namespace HttpServer

open Runs

namespace Response

/-- `Response::ok(body, content_type)`. -/
def okTyped (body contentType : Bytes) : Response :=
  { status := .ok : Response }.setBody body contentType

/-- `Response::json(json_string)`. -/
def json (jsonString : Bytes) : Response :=
  { status := .ok : Response }.setBody jsonString (ascii "application/json")

theorem ok_okTyped (body : Bytes) : ok body = okTyped body (ascii "text/plain") := rfl

/-- What the handlers answer with is regular. -/
theorem okTyped_regular (body : Bytes) {contentType : Bytes} (clean : Clean contentType) :
    Router.Regular (okTyped body contentType) :=
  ⟨setBody_clean (cleanHeaders_empty _) _ clean, fun h => by cases h⟩

end Response

def welcome : Bytes := ascii "<html><body><h1>Welcome to High-Performance HTTP Server!</h1></body></html>"

def health : Bytes := ascii "\x7b\"status\":\"ok\"\x7d"

def info : Bytes := ascii "\x7b\"name\":\"httpserver\",\"version\":\"1.0\",\"language\":\"C++20\"\x7d"

/-- `Server::setup_routes`. -/
def Router.setupRoutes (r : Router) (staticDir : Bytes) : Router :=
  let r := r.addRoute (ascii "GET") (ascii "/") fun _ => some (.okTyped welcome (ascii "text/html"))
  let r := r.addRoute (ascii "GET") (ascii "/health") fun _ => some (.json health)
  let r := r.addRoute (ascii "GET") (ascii "/api/info") fun _ => some (.json info)
  let r := r.addRoute (ascii "POST") (ascii "/api/echo") fun req => some (.json req.body)
  let r := r.addRoute (ascii "DELETE") (ascii "/api/data") fun _ => some (.makeResponse .noContent)
  r.addStatic (ascii "/static") staticDir

/-- The router behind `Server::setup_routes`. -/
def Arguments.Config.router (cfg : Arguments.Config) : Router := Router.setupRoutes {} cfg.staticDir

/-- The server that `main` starts, on a file system. -/
def Arguments.Config.policy (cfg : Arguments.Config) (fs : FileSystem) (w : Platform) : Policy where
  keepalive := cfg.enableKeepalive
  limit := cfg.maxRequestsPerConn
  answer q := (cfg.router.route fs q).getD {}
  platform := w

/-! ## What the server is for -/

namespace Api

/-- The one method of each path, and what a request with this method gets. -/
def endpoints : List (Bytes × Bytes × (Bytes → Answer)) :=
  [(ascii "/", ascii "GET", fun _ => ⟨200, welcome⟩),
    (ascii "/health", ascii "GET", fun _ => ⟨200, health⟩),
    (ascii "/api/info", ascii "GET", fun _ => ⟨200, info⟩),
    (ascii "/api/echo", ascii "POST", fun body => ⟨200, body⟩),
    (ascii "/api/data", ascii "DELETE", fun _ => ⟨204, []⟩)]

def refused : Answer := ⟨405, ascii "Method Not Allowed"⟩

/-- The static file, or the reason why there is none. -/
def file (cfg : Arguments.Config) (fs : FileSystem) (target : Bytes) : Answer :=
  let res := (Router.serveStaticFile fs ⟨ascii "/static", cfg.staticDir⟩ target).getD {}
  ⟨res.status.toNat, res.body⟩

/-- The answer to a request with the given method, other than HEAD, target and body. -/
def answer (cfg : Arguments.Config) (fs : FileSystem) (q : Request) : Answer :=
  match endpoints.lookup q.target with
  | some (method, act) => if q.method = method then act q.body else refused
  | none =>
    if ¬ ascii "/static" <+: q.target then ⟨404, ascii "Not Found"⟩
    else if q.method = ascii "GET" then file cfg fs q.target
    else refused

end Api

namespace Router

variable {fs : FileSystem} {q : Request}

/-- The route handles the path and the method of an endpoint, and its responses are the endpoint's answers. -/
structure Serves (route : Route) (e : Bytes × Bytes × (Bytes → Answer)) : Prop where
  path : route.path = e.1
  method : route.method = e.2.1
  answers : ∀ q, ∃ res, route.func q = some res ∧ e.2.2 q.body = ⟨res.status.toNat, res.body⟩

/-- What the loop over the routes finds, for a table with each path once. -/
inductive Finds (q : Request) (pathFound : Bool) : Option (Bytes × (Bytes → Answer)) → Bool ⊕ Response → Prop where
  | unknown : Finds q pathFound none (.inl pathFound)
  | other {method : Bytes} {act : Bytes → Answer} (ne : q.method ≠ method) :
      Finds q pathFound (some (method, act)) (.inl true)
  | served {method : Bytes} {act : Bytes → Answer} {res : Response} (eq : q.method = method)
      (answer : act q.body = ⟨res.status.toNat, res.body⟩) : Finds q pathFound (some (method, act)) (.inr res)

/-- A path without a route is not found. -/
theorem findRoute_absent {pathFound : Bool} {routes : List Route} (absent : ∀ route ∈ routes, route.path ≠ q.target) :
    findRoute q pathFound routes = .inl pathFound := by
  induction routes with
  | nil => rfl
  | cons route routes ih =>
    rw [findRoute, if_neg (absent route (by simp))]
    exact ih fun other mem => absent other (List.mem_cons_of_mem _ mem)

/-- A table with each path once is searched by path first and by method then. -/
theorem findRoute_finds {routes : List Route} {table : List (Bytes × Bytes × (Bytes → Answer))}
    (serves : List.Forall₂ Serves routes table) (once : (routes.map (·.path)).Nodup) (pathFound : Bool) :
    Finds q pathFound (table.lookup q.target) (findRoute q pathFound routes) := by
  induction serves with
  | nil => exact .unknown
  | @cons route e routes table first rest ih =>
    obtain ⟨path, method, act⟩ := e
    rw [List.map_cons, List.nodup_cons] at once
    rw [findRoute]
    by_cases same : route.path = q.target
    · have here : ((path, method, act) :: table).lookup q.target = some (method, act) := by
        rw [← same, first.path, List.lookup_cons_self]
      rw [if_pos same, here]
      split
      · rename_i eq
        obtain ⟨res, answer, agrees⟩ := first.answers q
        rw [handle, answer]
        exact .served (eq.symm.trans first.method) agrees
      · rename_i ne
        rw [findRoute_absent]
        · exact .other fun eq => ne (first.method.trans eq.symm)
        · intro other mem again
          exact once.1 (List.mem_map.2 ⟨other, mem, again.trans same.symm⟩)
    · have there : ((path, method, act) :: table).lookup q.target = table.lookup q.target := by
        have ne : (q.target == path) = false := beq_false_of_ne fun eq => same (first.path.trans eq.symm)
        rw [List.lookup_cons, ne]
      rw [if_neg same, there]
      exact ih once.2

/-- A list of clean method names is clean. -/
theorem allowMethods_clean {routes : List Route} (clean : ∀ route ∈ routes, (13 : UInt8) ∉ route.method) :
    (13 : UInt8) ∉ allowMethods q.target routes := by
  have comma : (13 : UInt8) ∉ ascii ", " := by decide
  have grows (allow : Bytes) (before : (13 : UInt8) ∉ allow) : (13 : UInt8) ∉ routes.foldl (fun allow route =>
      if route.path = q.target then (if allow.isEmpty then allow else allow ++ ascii ", ") ++ route.method
      else allow) allow := by
    induction routes generalizing allow with
    | nil => exact before
    | cons route routes ih =>
      refine ih (fun other mem => clean other (List.mem_cons_of_mem _ mem)) _ ?_
      have name := clean route (by simp)
      dsimp only
      split
      · split <;> simp [before, comma, name]
      · exact before
  exact grows [] (by simp)

end Router

section

variable {cfg : Arguments.Config} {fs : FileSystem} {w : Platform} {q : Request}

/-- The handlers of the API keep the rules. -/
theorem router_handlers : cfg.router.HandlersRegular := by
  intro route listed q res answer
  change route ∈ [_, _, _, _, _] at listed
  simp only [List.mem_cons, List.not_mem_nil, or_false] at listed
  rcases listed with rfl | rfl | rfl | rfl | rfl <;> cases answer
  · exact Response.okTyped_regular _ (by decide)
  · exact Response.okTyped_regular _ (by decide)
  · exact Response.okTyped_regular _ (by decide)
  · exact Response.okTyped_regular _ (by decide)
  · exact ⟨Response.cleanHeaders_empty _, fun _ => rfl⟩

/-- `setup_routes` registers the endpoints, in this order. -/
theorem router_serves : List.Forall₂ Router.Serves cfg.router.routes Api.endpoints :=
  .cons ⟨rfl, rfl, fun _ => ⟨_, rfl, rfl⟩⟩ <| .cons ⟨rfl, rfl, fun _ => ⟨_, rfl, rfl⟩⟩ <|
    .cons ⟨rfl, rfl, fun _ => ⟨_, rfl, rfl⟩⟩ <| .cons ⟨rfl, rfl, fun _ => ⟨_, rfl, rfl⟩⟩ <|
      .cons ⟨rfl, rfl, fun _ => ⟨_, rfl, rfl⟩⟩ .nil

/-- No path is registered twice. -/
theorem router_once : (cfg.router.routes.map (·.path)).Nodup := by
  change [ascii "/", ascii "/health", ascii "/api/info", ascii "/api/echo", ascii "/api/data"].Nodup
  decide

/-- Without a route, the one mount answers: below `/static` a `GET` with the file, and any other method with 405. -/
theorem findMount_static (other : q.method ≠ ascii "HEAD") {res : Response}
    (answer : Router.findMount fs q cfg.router.staticMounts = some res) :
    (⟨res.status.toNat, res.body⟩ : Answer) =
      if ¬ ascii "/static" <+: q.target then ⟨404, ascii "Not Found"⟩
      else if q.method = ascii "GET" then Api.file cfg fs q.target
      else Api.refused := by
  change Router.findMount fs q [⟨ascii "/static", cfg.staticDir⟩] = some res at answer
  unfold Router.findMount Router.findMount at answer
  by_cases static : ascii "/static" <+: q.target
  · rw [if_pos (List.isPrefixOf_iff_prefix.2 static)] at answer
    rw [if_neg (not_not.2 static)]
    by_cases get : q.method = ascii "GET"
    · rw [if_pos (.inl get)] at answer
      rw [if_pos get, Api.file, answer]
      rfl
    · rw [if_neg (not_or.2 ⟨get, other⟩)] at answer
      cases answer
      rw [if_neg get]
      rfl
  · rw [if_neg fun starts => static (List.isPrefixOf_iff_prefix.1 starts)] at answer
    cases answer
    rw [if_pos static]
    rfl

/-- The router answers as the interface says. -/
theorem route_api (other : q.method ≠ ascii "HEAD") {res : Response} (answer : cfg.router.route fs q = some res) :
    (⟨res.status.toNat, res.body⟩ : Answer) = Api.answer cfg fs q := by
  have finds := @Router.findRoute_finds q _ _ (@router_serves cfg) router_once false
  unfold Router.route at answer
  unfold Api.answer
  generalize Api.endpoints.lookup q.target = entry at finds ⊢
  generalize Router.findRoute q false cfg.router.routes = found at finds answer
  cases finds with
  | unknown => exact findMount_static other answer
  | other ne =>
    cases answer
    exact (if_neg ne).symm
  | served eq agrees =>
    cases answer
    exact agrees.symm.trans (if_pos eq).symm

/-- The client can tell where the answer ends. -/
theorem route_readable (other : q.method ≠ ascii "HEAD") {res : Response} (answer : cfg.router.route fs q = some res) :
    Readable q.method res := by
  refine (Router.readable_iff router_handlers answer).2 ⟨fun head => absurd head other, fun _ => ?_⟩
  refine noBlank_line (noCrlf_of_not_mem (Router.allowMethods_clean fun route listed => ?_))
  change route ∈ [_, _, _, _, _] at listed
  simp only [List.mem_cons, List.not_mem_nil, or_false] at listed
  rcases listed with rfl | rfl | rfl | rfl | rfl <;> decide

/-! ## The conversation with a client -/

/-- A client's requests, each with the chunks that it is cut into: none asks for the head alone, only the last one
may ask to close the connection, and there are no more than the server answers on one connection. -/
structure Asks (P : Policy) (ms : List (Message × List Bytes)) : Prop where
  wellFormed : ∀ m ∈ ms, m.1.WellFormed
  cut : ∀ m ∈ ms, Cut m.1 m.2
  body : ∀ m ∈ ms, m.1.method ≠ ascii "HEAD"
  keeps : ∀ m ∈ ms.dropLast, P.keeps m.1.request = true
  within : (ms.length : Int) ≤ P.limit

/-- The requests as the server sees them. -/
def exchanges (ms : List (Message × List Bytes)) : List Exchange := ms.map fun m => (m.2, m.1.request)

variable {ms : List (Message × List Bytes)}

/-- Each request is brought to a fresh parser by its chunks. -/
theorem Asks.brings {P : Policy} (asks : Asks P ms) : ∀ e ∈ exchanges ms, Brings {} e.1 e.2 := by
  intro e mem
  obtain ⟨m, listed, rfl⟩ := List.mem_map.1 mem
  exact (asks.cut m listed).brings (asks.wellFormed m listed)

theorem exchanges_chunks (ms : List (Message × List Bytes)) : (exchanges ms).map Prod.fst = ms.map Prod.snd :=
  List.map_map

/-- The stream of the responses is read as the answers, whatever follows it. -/
theorem stream_answers (calm : Router.Calm fs) (asks : Asks (cfg.policy fs w) ms) (t : Bytes) :
    readResponses (ms.map (·.1.method)) ((cfg.policy fs w).stream 0 (exchanges ms) ++ t) =
      some (ms.map fun m => Api.answer cfg fs m.1.request, t) := by
  have names (q : Request) : ∀ e ∈ ((cfg.policy fs w).answer q).headers.entries, (13 : UInt8) ∉ e.1 :=
    Router.names_clean router_handlers w 0 q
  have answers (q : Request) : cfg.router.route fs q = some ((cfg.policy fs w).answer q) :=
    @Router.policy_answer cfg.router fs w 0 calm q
  have readable : ∀ e ∈ exchanges ms, Readable e.2.method ((cfg.policy fs w).answer e.2) := by
    intro e mem
    obtain ⟨m, listed, rfl⟩ := List.mem_map.1 mem
    exact route_readable (asks.body m listed) (answers _)
  have read := read_stream names readable 0 t
  have methods : (exchanges ms).map (·.2.method) = ms.map (·.1.method) := List.map_map
  rw [← methods, read, exchanges, List.map_map]
  refine congrArg some (congrArg (·, t) (List.map_congr_left fun m listed => ?_))
  have body := asks.body m listed
  refine Eq.trans ?_ (route_api body (answers _))
  exact congrArg (Answer.mk _) (if_neg body)

/-- What `handle_connection` sends when the chunks of the requests arrive. -/
theorem handleConnection_stream {P : Policy} (asks : Asks P ms) :
    bytesSent (P.server.handleConnection ((ms.map Prod.snd).flatten.map .data) []) = P.stream 0 (exchanges ms) := by
  have keeps : ∀ e ∈ (exchanges ms).dropLast, P.keeps e.2 = true := by
    intro e mem
    rw [exchanges, ← List.map_dropLast] at mem
    obtain ⟨m, listed, rfl⟩ := List.mem_map.1 mem
    exact asks.keeps m listed
  have within_ : ((exchanges ms).length : Int) ≤ P.limit := by
    rw [exchanges, List.length_map]
    exact asks.within
  refine bytesSent_stream P asks.brings keeps within_ (steadyReads_data _) steadySends_nil ?_
  rw [chunks_map_data, exchanges_chunks]

/-- **Every accepted client gets the answers to its requests**, in their order, whatever the scheduler and the
other clients do: what it has got so far is the first part of a stream that it reads as these answers, and it is all
of it when the server waits for the client again, or has closed, unless a call on the socket has failed. -/
theorem api_served (cfg : Arguments.Config) (limit : 1 ≤ cfg.maxRequestsPerConn) {fs : FileSystem}
    (calm : Router.Calm fs) (w : Platform) {p : Program cfg.numWorkers.toNat} {notes : Program.Notes}
    (run : Program.Serving (cfg.policy fs w) cfg.numWorkers.toNat cfg.maxQueueSize.toNat (p, notes)) {j : Nat}
    {m : Minutes} (known : notes j = some m) (accepted : p.pool.enqueues j ≠ .returned false)
    {ms : List (Message × List Bytes)} (asks : Asks (cfg.policy fs w) ms)
    (arrive : arrived m.log = (ms.map Prod.snd).flatten) :
    ∃ rest, readResponses (ms.map (·.1.method)) (bytesSent m.log ++ rest) =
        some (ms.map fun m => Api.answer cfg fs m.1.request, []) ∧
      (m.broken = false →
        ((∃ parser served, (p.connections j).stage (cfg.policy fs w) = .reading parser served) ∨
          (p.connections j).stage (cfg.policy fs w) = .ended) → rest = []) := by
  obtain ⟨rest, whole, settled⟩ := Program.serving_lacks (cfg.policy fs w) limit run known accepted
  rw [arrive, handleConnection_stream asks] at whole
  have read := stream_answers calm asks []
  rw [List.append_nil] at read
  exact ⟨rest, by rw [whole, read], fun healthy waits => (settled healthy waits).1⟩

end

/-- A request to echo two letters. -/
def echoHi : Message where
  method := ascii "POST"
  target := ascii "/api/echo"
  fields := [ascii "Content-Length: 2"]
  body := ascii "hi"

theorem echoHi_wellFormed : echoHi.WellFormed where
  method := by decide
  slash := rfl
  noSpace := by decide
  lineClean := by decide
  lineShort := by decide
  few := by decide
  fields f mem := by
    rw [List.mem_singleton.1 mem]
    decide
  total := by decide
  small := by decide
  length := by decide
  declared _ := ⟨_, List.mem_singleton_self _, by decide⟩

/-- A server without workers, on an empty file system. -/
def baseline : Arguments.Config := { numWorkers := 0 }

/-- How many responses have been sent when the server waits for the client. -/
def ConnectionPc.awaits : ConnectionPc → Option Nat
  | .reading served _ => some served
  | _ => none

theorem ConnectionPc.reading_of_awaits {pc : ConnectionPc} {k : Nat} (h : pc.awaits = some k) :
    ∃ parser, pc = .reading k parser := by
  cases pc with
  | reading served parser =>
    cases h
    exact ⟨parser, rfl⟩
  | waiting | accepted | writing | closed | threw => cases h

/-- One client asks for an echo and then for the root, while another one sends nothing. -/
def echoClient (now : Moment) : List (ProgramAct 0) :=
  [.accept (some 0), .accept (some 1), .recv 0 (.data echoHi.text) now, .send 0 (.sent 1000),
    .recv 0 (.data getRoot.text) now, .send 0 (.sent 1000)]

theorem echoClient_asks : Asks (baseline.policy (Node.dir []).fileSystem .still)
    [(echoHi, [echoHi.text]), (getRoot, [getRoot.text])] where
  wellFormed m mem := by
    simp only [List.mem_cons, List.not_mem_nil, or_false] at mem
    rcases mem with rfl | rfl
    · exact echoHi_wellFormed
    · exact getRoot_wellFormed
  cut m mem := by
    simp only [List.mem_cons, List.not_mem_nil, or_false] at mem
    rcases mem with rfl | rfl
    · exact .single echoHi
    · exact .single getRoot
  body m mem := by
    simp only [List.mem_cons, List.not_mem_nil, or_false] at mem
    rcases mem with rfl | rfl <;> decide
  keeps m mem := by
    rw [List.dropLast_cons_cons, List.dropLast_singleton, List.mem_singleton] at mem
    rw [mem]
    decide +kernel
  within := by decide

/-- The echo and the welcome page are read by the client, whatever the other one does. -/
theorem api_served_echo : ∃ (p : Program 0) (notes : Program.Notes) (m : Minutes),
    Program.Serving (baseline.policy (Node.dir []).fileSystem .still) 0 256 (p, notes) ∧ notes 0 = some m ∧
    readResponses [ascii "POST", ascii "GET"] (bytesSent m.log) =
      some ([⟨200, ascii "hi"⟩, ⟨200, welcome⟩], []) := by
  have facts : (exec (fun s act => noted (Program.step (baseline.policy (Node.dir []).fileSystem .still).server.config)
        Program.note s (Program.fixed (baseline.policy (Node.dir []).fileSystem .still) act)) (fun _ _ => true)
      (Program.main 0 256, fun _ => none) (echoClient ⟨.still, fun _ => none⟩)).map
        (fun s => ((s.2 0).map fun m => (arrived m.log, m.broken), s.1.pool.enqueues 0, (s.1.connections 0).awaits)) =
      some (some ([echoHi.text, getRoot.text], false), .idle, some 2) := by decide +kernel
  obtain ⟨⟨p, notes⟩, ran, seen⟩ := Option.map_eq_some_iff.1 facts
  simp only [Prod.mk.injEq, Option.map_eq_some_iff] at seen
  obtain ⟨⟨m, known, arrive, healthy⟩, idle, waits⟩ := seen
  obtain ⟨parser, reading⟩ := ConnectionPc.reading_of_awaits waits
  have run : Program.Serving (baseline.policy (Node.dir []).fileSystem .still) 0 256 (p, notes) :=
    (exec_run ran).simulate (f := id) (g := fun _ act => Program.fixed _ act)
      fun _ _ _ _ took => ⟨Program.fixed_fixed _ _, took⟩
  obtain ⟨rest, read, settled⟩ := api_served baseline (by decide) (fileSystem_calm (Node.dir [])) .still run known
    (by rw [idle]; exact fun h => by cases h) echoClient_asks arrive
  rw [settled healthy (.inl ⟨parser, 2, by rw [reading]; rfl⟩), List.append_nil] at read
  exact ⟨p, notes, m, run, known, read⟩

end HttpServer
