import HttpServer.Router.Answers
import HttpServer.Server.Pipeline

/-!
# Response streams

A client that waits for each response before it sends the next request reads the
stream of the blocking server response by response, if every HEAD request is
answered bare and no 405 of the router carries an empty line in its `Allow`
value; otherwise there is a response behind which something is left over
(`framed_iff`).
-/

namespace HttpServer

/-- A client that sent `method` can read the response, wherever it stands. -/
structure Readable (method : Bytes) (res : Response) : Prop where
  head : ∀ e ∈ res.headers.entries, toLower e.1 ∉ ownNames → NoBlank (e.2 ++ crlf)
  body : bodyless method res.status.toNat → res.body = []

/-- An exchange: the chunks of a request, and the request. -/
abbrev Exchange := List Bytes × Request

/-- The responses from number `k` on. -/
def Policy.stream (P : Policy) (k : Nat) (ms : List Exchange) : Bytes :=
  (ms.mapIdx fun i m => P.reply (k + i) m.2).flatten

/-- What a client should read for an exchange. -/
def Policy.answerTo (P : Policy) (m : Exchange) : Answer where
  status := (P.answer m.2).status.toNat
  body := if m.2.method = ascii "HEAD" then [] else (P.answer m.2).body

theorem Policy.stream_cons (P : Policy) (k : Nat) (m : Exchange) (ms : List Exchange) :
    P.stream k (m :: ms) = P.reply k m.2 ++ P.stream (k + 1) ms := by
  have shift : (fun i m' => P.reply (k + (i + 1)) (m' : Exchange).2) =
      fun i m' => P.reply (k + 1 + i) m'.2 := by
    funext i m'
    rw [Nat.add_assoc, Nat.add_comm 1 i]
  rw [Policy.stream, List.mapIdx_cons, List.flatten_cons, shift]
  rfl

/-- The last response comes behind those of the requests before. -/
theorem Policy.stream_snoc (P : Policy) (ms : List Exchange) (m : Exchange) :
    P.stream 0 (ms ++ [m]) = P.stream 0 ms ++ P.reply ms.length m.2 := by
  simp [Policy.stream, List.mapIdx_append]

/-- One more response is read where the others end. -/
theorem readResponses_snoc {methods : List Bytes} {s t : Bytes} {as : List Answer} (m : Bytes)
    (h : readResponses methods s = some (as, t)) :
    readResponses (methods ++ [m]) s = (readResponse m t).map fun (a, rest) => (as ++ [a], rest) := by
  induction methods generalizing s as with
  | nil =>
    cases h
    simp only [List.nil_append, readResponses]
    cases readResponse m t with
    | none => rfl
    | some r => rfl
  | cons method methods ih =>
    simp only [List.cons_append, readResponses] at h ⊢
    cases first : readResponse method s with
    | none => simp [first] at h
    | some r =>
      simp only [first] at h ⊢
      obtain ⟨⟨as', t'⟩, rest, eq⟩ := Option.map_eq_some_iff.1 h
      cases eq
      rw [ih rest, Option.map_map]
      rfl

section

variable {P : Policy} (names : ∀ q, ∀ e ∈ (P.answer q).headers.entries, (13 : UInt8) ∉ e.1)

include names

/-- A readable reply is read as the answer, whatever follows it. -/
theorem read_reply {m : Exchange} (ok : Readable m.2.method (P.answer m.2)) (k : Nat) (t : Bytes) :
    readResponse m.2.method (P.reply k m.2 ++ t) = some (P.answerTo m, t) := by
  have clean := (@headText_noBlank P.platform k { P.answer m.2 with keepAlive := P.keeps m.2 }
    (names m.2)).2 ok.head
  have read := readResponse_serialize clean ok.body t
  have same : P.answerTo m = ⟨(P.answer m.2).status.toNat, (P.answer m.2).body⟩ := by
    unfold Policy.answerTo
    split
    · rename_i head
      rw [ok.body (.inl head)]
    · rfl
  rw [same]
  exact read

/-- A reply that the client has read whole was readable. -/
theorem readable_of_read {m : Exchange} {k : Nat} {a : Answer}
    (h : readResponse m.2.method (P.reply k m.2) = some (a, [])) :
    Readable m.2.method (P.answer m.2) := by
  obtain ⟨head, body⟩ := @readResponse_exact P.platform k
    { P.answer m.2 with keepAlive := P.keeps m.2 } m.2.method a h
  have entries := (@headText_noBlank P.platform k { P.answer m.2 with keepAlive := P.keeps m.2 }
    (names m.2)).1 head
  exact ⟨entries, body⟩

/-- Readable responses are read one by one, whatever follows them. -/
theorem read_stream {ms : List Exchange} (ok : ∀ m ∈ ms, Readable m.2.method (P.answer m.2)) (k : Nat)
    (t : Bytes) :
    readResponses (ms.map (·.2.method)) (P.stream k ms ++ t) = some (ms.map P.answerTo, t) := by
  induction ms generalizing k with
  | nil => rfl
  | cons m ms ih =>
    have rest := ih (fun m' h => ok m' (List.mem_cons_of_mem m h)) (k + 1)
    rw [P.stream_cons, List.append_assoc, List.map_cons, readResponses,
      read_reply names (ok m (by simp)) k]
    simp only [rest, Option.map_some, List.map_cons]

/-- When nothing is ever left over, all responses are readable. -/
theorem readable_of_stream {ms : List Exchange}
    (framed : ∀ front, front <+: ms →
      ∃ as, readResponses (front.map (·.2.method)) (P.stream 0 front) = some (as, [])) :
    ∀ m ∈ ms, Readable m.2.method (P.answer m.2) := by
  induction ms using List.reverseRecOn with
  | nil => simp
  | append_singleton ms m ih =>
    have earlier := ih fun front h => framed front (h.trans (List.prefix_append _ _))
    obtain ⟨as, whole⟩ := framed _ List.prefix_rfl
    have before := read_stream names earlier 0 (P.reply ms.length m.2)
    rw [P.stream_snoc, List.map_append, List.map_singleton,
      readResponses_snoc m.2.method before] at whole
    obtain ⟨⟨a, rest⟩, read, eq⟩ := Option.map_eq_some_iff.1 whole
    have nothing : rest = [] := (Prod.mk.inj eq).2
    subst nothing
    intro m' hm'
    rcases List.mem_append.1 hm' with h | h
    · exact earlier m' h
    · rw [List.mem_singleton.1 h]
      exact readable_of_read names read

end

/-! ## The server with a router -/

/-- The blocking server with the router `r`, keep-alive enabled. -/
def Router.server (r : Router) (fs : FileSystem) (w : Platform) (limit : Int) : Server where
  config := { maxRequestsPerConn := limit, enableKeepalive := true }
  route := r.route fs
  platform := w

/-- The same as a policy, for a router that always answers. -/
def Router.policy (r : Router) (fs : FileSystem) (w : Platform) (limit : Int) : Policy where
  keepalive := true
  limit
  answer q := (r.route fs q).getD {}
  platform := w

/-- A server with a router that always answers follows the policy of its answers. -/
theorem Router.policy_server (r : Router) {fs : FileSystem} (calm : Calm fs) (w : Platform) (limit : Int) :
    (r.policy fs w limit).server = r.server fs w limit := by
  have route : (fun q => some ((r.route fs q).getD {})) = r.route fs := by
    funext q
    obtain ⟨res, answer⟩ := r.route_total calm q
    rw [answer]
    rfl
  unfold Policy.server Router.server
  simp only [Router.policy, route]

/-- What the client reads for an exchange: the status of the router's response and, except for
HEAD, its body. -/
def Matches (s : Server) (m : Exchange) (a : Answer) : Prop :=
  ∃ res, s.route m.2 = some res ∧ a.status = res.status.toNat ∧
    (m.2.method ≠ ascii "HEAD" → a.body = res.body)

/-- Whenever the client has waited for the responses to its requests so far, it reads exactly one
for each, and nothing is left over. -/
def Framed (s : Server) (ms : List Exchange) : Prop :=
  ∀ front, front <+: ms → ∀ recvs sends, SteadyReads recvs → SteadySends sends →
    chunks recvs = (front.map Prod.fst).flatten →
    ∃ as, readResponses (front.map (·.2.method)) (bytesSent (s.handleConnection recvs sends)) =
        some (as, []) ∧ List.Forall₂ (Matches s) front as

/-- Without a request nothing is sent. -/
theorem bytesSent_idle (P : Policy) {recvs : List RecvOutcome} {sends : List SendOutcome}
    (reads : SteadyReads recvs) (none_ : chunks recvs = []) :
    bytesSent (P.server.handleConnection recvs sends) = [] := by
  unfold Server.handleConnection
  rw [readSome_steady reads, none_]
  cases P.server.config.maxRequestsPerConn.toNat with
  | zero => rfl
  | succ left => rfl

/-- The bytes sent are the stream of the responses. -/
theorem bytesSent_stream (P : Policy) {ms : List Exchange} (brings : ∀ m ∈ ms, Brings {} m.1 m.2)
    (keeps : ∀ m ∈ ms.dropLast, P.keeps m.2 = true) (within : (ms.length : Int) ≤ P.limit)
    {recvs : List RecvOutcome} {sends : List SendOutcome} (reads : SteadyReads recvs)
    (steady : SteadySends sends) (arrive : chunks recvs = (ms.map Prod.fst).flatten) :
    bytesSent (P.server.handleConnection recvs sends) = P.stream 0 ms := by
  cases ms with
  | nil => exact bytesSent_idle P reads arrive
  | cons m ms =>
    have limit : 1 ≤ P.limit := by
      simp only [List.length_cons] at within
      push_cast at within
      omega
    rw [(handleConnection_play P limit reads steady).bytes, arrive,
      @play_requests P (m :: ms) 0 brings keeps (by simpa using within)]
    rfl

/-- Requests before the last one of a front part are before the last one of all. -/
theorem mem_dropLast_front {front ms : List Exchange} (h : front <+: ms) :
    ∀ m ∈ front.dropLast, m ∈ ms.dropLast := by
  obtain ⟨t, rfl⟩ := h
  intro m hm
  by_cases last : t = []
  · subst last
    rwa [List.append_nil]
  · rw [List.dropLast_append_of_ne_nil last]
    exact List.mem_append_left _ (List.dropLast_subset _ hm)

namespace Router

open Response

/-- A 405 has two headers of its own. -/
theorem methodNotAllowed_entries {allow : Bytes} {e : Sigma fun _ : Bytes => Bytes}
    (h : e ∈ (methodNotAllowed allow).headers.entries) :
    e = ⟨ascii "Content-Type", ascii "text/plain"⟩ ∨ e = ⟨ascii "Allow", allow⟩ := by
  rcases mem_setHeader h with rfl | h
  · exact .inl rfl
  · rcases mem_setHeader (r := { status := .methodNotAllowed }) h with rfl | h
    · exact .inr rfl
    · cases h

theorem methodNotAllowed_allow (allow : Bytes) :
    ⟨ascii "Allow", allow⟩ ∈ (methodNotAllowed allow).headers.entries :=
  AList.mem_lookup_iff.1 (methodNotAllowed_lookup allow)

/-- A header name of the router's has no carriage return. -/
theorem names_clean {r : Router} {fs : FileSystem} (handlers : r.HandlersRegular) (w : Platform)
    (limit : Int) (q : Request) :
    ∀ e ∈ ((r.policy fs w limit).answer q).headers.entries, (13 : UInt8) ∉ e.1 := by
  intro e he
  change e ∈ ((r.route fs q).getD {}).headers.entries at he
  cases answer : r.route fs q with
  | none =>
    rw [answer] at he
    cases he
  | some res =>
    rw [answer, Option.getD_some] at he
    rcases route_answers handlers answer with ⟨-, rfl⟩ | ⟨-, regular⟩
    · rcases methodNotAllowed_entries he with rfl | rfl
      · show (13 : UInt8) ∉ ascii "Content-Type"
        decide
      · show (13 : UInt8) ∉ ascii "Allow"
        decide
    · exact (regular.headers e he).1.1

/-- What it takes for a client to read the router's response. -/
theorem readable_iff {r : Router} {fs : FileSystem} {q : Request} {res : Response}
    (handlers : r.HandlersRegular) (answer : r.route fs q = some res) :
    Readable q.method res ↔ (q.method = ascii "HEAD" → r.Bare fs q) ∧
      (r.Refused q → NoBlank (allowMethods q.target r.routes ++ crlf)) := by
  have bare : (q.method = ascii "HEAD" → r.Bare fs q) ↔ (q.method = ascii "HEAD" → res.body = []) :=
    forall_congr' fun head => (route_bare head answer).symm
  rw [bare]
  rcases route_answers handlers answer with ⟨refused, rfl⟩ | ⟨routed, regular⟩
  · constructor
    · intro ok
      exact ⟨fun head => ok.body (.inl head),
        fun _ => ok.head _ (methodNotAllowed_allow _)
          (show toLower (ascii "Allow") ∉ ownNames by decide)⟩
    · rintro ⟨body, allow⟩
      refine ⟨?_, ?_⟩
      · intro e he _
        rcases methodNotAllowed_entries he with rfl | rfl
        · decide
        · exact allow refused
      · rintro (head | none_)
        · exact body head
        · cases none_
  · constructor
    · intro ok
      exact ⟨fun head => ok.body (.inl head), fun refused => absurd refused routed⟩
    · rintro ⟨body, -⟩
      refine ⟨?_, ?_⟩
      · intro e he _
        exact noBlank_line (noCrlf_of_not_mem (regular.headers e he).2.1)
      · rintro (head | none_)
        · exact body head
        · apply regular.body
          cases status : res.status <;> simp [status, StatusCode.toNat] at none_ ⊢

end Router

section

variable {r : Router} {fs : FileSystem} (w : Platform) {limit : Int} (calm : Router.Calm fs)
  {ms : List Exchange} (brings : ∀ m ∈ ms, Brings {} m.1 m.2)
  (open_ : ∀ m ∈ ms.dropLast, m.2.shouldKeepAlive = true) (within : (ms.length : Int) ≤ limit)

include calm

/-- The policy answers as the router does. -/
theorem Router.policy_answer (q : Request) : r.route fs q = some ((r.policy fs w limit).answer q) := by
  obtain ⟨res, answer⟩ := r.route_total calm q
  simp [Router.policy, answer]

include brings open_ within

/-- What the server has sent when the first few requests have arrived. -/
theorem Router.bytesSent_front {front : List Exchange} (part : front <+: ms) {recvs : List RecvOutcome}
    {sends : List SendOutcome} (reads : SteadyReads recvs) (steady : SteadySends sends)
    (arrive : chunks recvs = (front.map Prod.fst).flatten) :
    bytesSent ((r.server fs w limit).handleConnection recvs sends) =
      (r.policy fs w limit).stream 0 front := by
  rw [← r.policy_server calm]
  apply bytesSent_stream _ ?_ ?_ ?_ reads steady arrive
  · intro m hm
    exact brings m (part.subset hm)
  · intro m hm
    simp [Policy.keeps, Router.policy, open_ m (mem_dropLast_front part m hm)]
  · have fewer : front.length ≤ ms.length := part.length_le
    show (front.length : Int) ≤ limit
    omega

/-- Where every front of the requests is framed each single reply is readable: it is the last one of its front. -/
theorem readable_of_framed (handlers : r.HandlersRegular) (framed : Framed (r.server fs w limit) ms) :
    ∀ m ∈ ms, Readable m.2.method ((r.policy fs w limit).answer m.2) := by
  apply readable_of_stream (Router.names_clean handlers w limit)
  intro front part
  obtain ⟨as, read, -⟩ := framed front part ((front.map Prod.fst).flatten.map .data) []
    (steadyReads_data _) steadySends_nil (chunks_map_data _)
  rw [Router.bytesSent_front w calm brings open_ within part (steadyReads_data _) steadySends_nil
    (chunks_map_data _)] at read
  exact ⟨as, read⟩

/-- Readable replies make a stream that the client cuts where the server did. -/
theorem framed_of_readable (handlers : r.HandlersRegular)
    (ok : ∀ m ∈ ms, Readable m.2.method ((r.policy fs w limit).answer m.2)) :
    Framed (r.server fs w limit) ms := by
  intro front part recvs sends reads steady arrive
  have read := read_stream (Router.names_clean handlers w limit) (fun m hm => ok m (part.subset hm)) 0 []
  rw [List.append_nil, ← Router.bytesSent_front w calm brings open_ within part reads steady arrive] at read
  refine ⟨_, read, ?_⟩
  rw [List.forall₂_map_right_iff, List.forall₂_same]
  intro m _
  refine ⟨_, Router.policy_answer w calm m.2, rfl, fun other => ?_⟩
  rw [Policy.answerTo, if_neg other]

end

/-- **Framing.** The client reads the stream response by response exactly when every HEAD request is
answered bare and no 405 of the router has an empty line in its `Allow` value. -/
theorem framed_iff {r : Router} {fs : FileSystem} (w : Platform) {limit : Int}
    (handlers : r.HandlersRegular) (calm : Router.Calm fs) {ms : List Exchange}
    (brings : ∀ m ∈ ms, Brings {} m.1 m.2) (open_ : ∀ m ∈ ms.dropLast, m.2.shouldKeepAlive = true)
    (within : (ms.length : Int) ≤ limit) :
    Framed (r.server fs w limit) ms ↔
      ∀ m ∈ ms,
        (m.2.method = ascii "HEAD" → r.Bare fs m.2) ∧
        (r.Refused m.2 → NoBlank (Router.allowMethods m.2.target r.routes ++ crlf)) := by
  have readable : (∀ m ∈ ms, Readable m.2.method ((r.policy fs w limit).answer m.2)) ↔ ∀ m ∈ ms,
      (m.2.method = ascii "HEAD" → r.Bare fs m.2) ∧
      (r.Refused m.2 → NoBlank (Router.allowMethods m.2.target r.routes ++ crlf)) :=
    forall₂_congr fun m _ => Router.readable_iff handlers (Router.policy_answer w calm m.2)
  rw [← readable]
  constructor
  · exact readable_of_framed w calm brings open_ within handlers
  · exact framed_of_readable w calm brings open_ within handlers

/-- One route, for GET of the root. -/
def greeter : Router :=
  Router.addRoute {} (ascii "GET") (ascii "/") fun _ => some (Response.ok (ascii "hello"))

theorem greeter_handlers : greeter.HandlersRegular := by
  intro route listed q res answer
  simp only [greeter, Router.addRoute, List.nil_append, List.mem_singleton] at listed
  subst listed
  cases answer
  exact ⟨Response.setBody_clean (Response.cleanHeaders_empty _) _ (by decide), fun h => by cases h⟩

/-- On a tree of files no question about a path fails. -/
theorem fileSystem_calm (root : Node) : Router.Calm root.fileSystem := fun _ => ⟨_, rfl⟩

theorem framed_greeter :
    Framed (greeter.server (Node.dir []).fileSystem .still 2)
      [([getRoot.text], getRoot.request), ([getRoot.text], getRoot.request)] := by
  refine (framed_iff .still greeter_handlers (fileSystem_calm _) ?_ ?_ ?_).2 ?_
  · simpa using (Cut.single getRoot).brings getRoot_wellFormed
  · simp only [List.dropLast_cons_cons, List.dropLast_singleton, List.mem_singleton, forall_eq]
    decide
  · decide
  · simp only [List.mem_cons, List.not_mem_nil, or_false, or_self, forall_eq]
    refine ⟨fun head => absurd head (by decide), fun refused => absurd refused.2 ?_⟩
    have found : (greeter.routeFor getRoot.request).isSome = true := by decide
    rw [refused.1] at found
    cases found

/-- A HEAD request for the root. -/
def headRoot : Message := { getRoot with method := ascii "HEAD" }

theorem headRoot_wellFormed : headRoot.WellFormed :=
  { getRoot_wellFormed with
    method := by decide
    lineClean := by decide
    lineShort := by decide
    declared := fun h => absurd h (by decide) }

/-- The 404 to a HEAD request carries its body, which the client takes for the next response. -/
theorem head_body_left :
    Brings {} [headRoot.text] headRoot.request ∧
      ¬ Framed (Router.server {} (Node.dir []).fileSystem .still 1)
        [([headRoot.text], headRoot.request)] := by
  refine ⟨(Cut.single headRoot).brings headRoot_wellFormed, fun framed => ?_⟩
  have left : (readResponses [ascii "HEAD"]
      (bytesSent ((Router.server {} (Node.dir []).fileSystem .still 1).handleConnection
        [.data headRoot.text] []))).map Prod.snd = some (ascii "Not Found") := by
    decide +kernel
  obtain ⟨as, read, -⟩ := framed _ List.prefix_rfl [.data headRoot.text] []
    (steadyReads_data [headRoot.text]) steadySends_nil rfl
  have empty : some (ascii "Not Found") = some [] :=
    left.symm.trans (congrArg (Option.map Prod.snd) read)
  exact absurd empty (by decide)

end HttpServer
