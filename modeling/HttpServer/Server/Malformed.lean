import HttpServer.Http.Faults
import HttpServer.Server.Api

/-!
# Malformed requests

What a client gets for a text that is no request: behind the answers to the
requests before, a response with the status of the first fault in it, and a close.
What else the client sends is not read (`fault_answered`).
-/

namespace HttpServer

open HttpParser Runs

/-- Chunks of a faulty text. -/
structure Spoils (cs : List Bytes) (c : StatusCode) : Prop where
  nonempty : ∀ x ∈ cs, x ≠ []
  noLimit : ∀ front back, cs = front ++ back → ¬ LimitCut front.flatten back.flatten
  faulty : Faulty cs.flatten c

section

variable {P : Policy} {c : StatusCode}

/-- A session reads up to the fault, reports it and closes. -/
theorem play_error (k : Nat) {p : HttpParser} {cs : List Bytes} (nonempty : ∀ x ∈ cs, x ≠ []) (run : p.Running)
    (bad : (p.feedAll cs).1.verdict = .error c) :
    ∃ read, read <+: cs ∧ play P ⟨p, k⟩ cs = read.map .received ++ [.responded (P.refusal k c), .closed] := by
  induction cs generalizing p with
  | nil =>
    rw [feedAll_nil, verdict_incomplete.2 run] at bad
    cases bad
  | cons x cs ih =>
    have some_ := nonempty x (by simp)
    rw [feedAll_cons] at bad
    cases first : (p.feed x).1.verdict with
    | incomplete =>
      obtain ⟨read, part, played⟩ :=
        ih (fun y mem => nonempty y (List.mem_cons_of_mem x mem)) (verdict_incomplete.1 first) bad
      refine ⟨x :: read, List.cons_prefix_cons.2 ⟨rfl, part⟩, ?_⟩
      simp [play, some_, first, played]
    | error d =>
      have done : ¬ (p.feed x).1.Running := fun more => more.2 (verdict_error.1 first).1
      rw [feedAll_done done, first] at bad
      cases bad
      exact ⟨[x], List.cons_prefix_cons.2 ⟨rfl, List.nil_prefix⟩, by simp [play, some_, first]⟩
    | complete q =>
      have done : ¬ (p.feed x).1.Running := fun more => more.1 (verdict_complete.1 first).1
      rw [feedAll_done done, first] at bad
      cases bad

/-- A session answers the requests, and goes on with what follows. -/
theorem play_exchanges {ms : List Exchange} {k : Nat} (brings : ∀ m ∈ ms, Brings {} m.1 m.2)
    (keeps : ∀ m ∈ ms, P.keeps m.2 = true) (room : (k + ms.length : Int) < P.limit) (more : List Bytes) :
    ∃ front, (responses front).flatten = P.stream k ms ∧
      play P ⟨{}, k⟩ ((ms.map Prod.fst).flatten ++ more) = front ++ play P ⟨{}, k + ms.length⟩ more := by
  induction ms generalizing k with
  | nil => exact ⟨[], rfl, rfl⟩
  | cons m ms ih =>
    simp only [List.length_cons] at room
    push_cast at room
    obtain ⟨front, answers, played⟩ := @ih (k + 1) (fun n mem => brings n (List.mem_cons_of_mem m mem))
      (fun n mem => keeps n (List.mem_cons_of_mem m mem)) (by push_cast; omega)
    refine ⟨m.1.map .received ++ .responded (P.reply k m.2) :: front, ?_, ?_⟩
    · rw [responses_append, responses_received, List.nil_append, responses_cons, P.stream_cons, ← answers]
      rfl
    · rw [List.map_cons, List.flatten_cons, List.append_assoc, play_brings P (brings m (by simp)) k,
        if_pos ⟨keeps m (by simp), by omega⟩, played, List.length_cons, Nat.add_comm ms.length 1, ← Nat.add_assoc,
        List.append_assoc, List.cons_append]

/-- The codes of the faults. -/
theorem Faulty.code {s : Bytes} (faulty : Faulty s c) :
    c ∈ [StatusCode.badRequest, .methodNotAllowed, .payloadTooLarge, .uriTooLong, .headerFieldsTooLarge] := by
  cases faulty with
  | requestLine rest clean fault => cases fault <;> decide
  | openLine | openFields => decide
  | field rest valid clean ne fault => cases fault <;> decide
  | body rest valid fault => cases fault <;> decide

/-- A client other than one that waits for the head alone reads the report. -/
theorem read_refusal {s : Bytes} (faulty : Faulty s c) {method : Bytes} (other : method ≠ ascii "HEAD") (k : Nat)
    (t : Bytes) : readResponse method (P.refusal k c ++ t) = some (⟨c.toNat, c.reasonPhrase⟩, t) := by
  have code := faulty.code
  have regular : Router.Regular (Response.error c []) := by
    refine Router.error_regular [] ?_
    rintro rfl
    exact absurd code (by decide)
  have names : ∀ e ∈ (Response.error c []).headers.entries, (13 : UInt8) ∉ e.1 :=
    fun e mem => (regular.headers e mem).1.1
  have clean := (@headText_noBlank P.platform k { Response.error c [] with keepAlive := false } names).2
    fun e mem _ => noBlank_line (noCrlf_of_not_mem (regular.headers e mem).2.1)
  have body : bodyless method c.toNat → (Response.error c []).body = [] := by
    rintro (head | none_)
    · exact absurd head other
    · simp only [List.mem_cons, List.not_mem_nil, or_false] at code
      rcases code with rfl | rfl | rfl | rfl | rfl <;> simp [StatusCode.toNat] at none_
  exact readResponse_serialize clean body t

variable {ms : List (Message × List Bytes)} {cs : List Bytes}

/-- What `handle_connection` does with the requests and the faulty text. -/
theorem handleConnection_spoiled (asks : Asks P ms) (keeps : ∀ m ∈ ms, P.keeps m.1.request = true)
    (room : (ms.length : Int) < P.limit) (spoils : Spoils cs c) :
    bytesSent (P.server.handleConnection (((ms.map Prod.snd).flatten ++ cs).map .data) []) =
        P.stream 0 (exchanges ms) ++ P.refusal ms.length c ∧
      .closed ∈ visible (P.server.handleConnection (((ms.map Prod.snd).flatten ++ cs).map .data) []) := by
  have limit : 1 ≤ P.limit := by omega
  have alone := handleConnection_play P limit (steadyReads_data ((ms.map Prod.snd).flatten ++ cs)) steadySends_nil
  rw [chunks_map_data] at alone
  have length : (exchanges ms).length = ms.length := List.length_map _
  have keeps' : ∀ e ∈ exchanges ms, P.keeps e.2 = true := by
    intro e mem
    obtain ⟨m, listed, rfl⟩ := List.mem_map.1 mem
    exact keeps m listed
  obtain ⟨front, answers, played⟩ := play_exchanges (k := 0) asks.brings keeps' (by rw [length]; omega) cs
  have bad : (({} : HttpParser).feedAll cs).1.verdict = .error c := by
    rw [feedAll_fresh spoils.noLimit, feed_faulty]
    exact spoils.faulty
  obtain ⟨read, -, last⟩ := play_error (P := P) (0 + (exchanges ms).length) spoils.nonempty fresh_running bad
  rw [exchanges_chunks, last, Nat.zero_add, length] at played
  change play P {} ((ms.map Prod.snd).flatten ++ cs) = _ at played
  rw [alone.bytes, alone.visible, played]
  constructor
  · rw [responses_append, List.flatten_append, answers, responses_append, responses_received]
    simp
  · simp

end

/-- **A faulty text is answered with its fault**, by the server that is deployed: behind the answers to the requests
before, the client reads a response with the status of the fault, and the connection is closed, whatever the
scheduler and the other clients do. -/
theorem fault_answered (cfg : Arguments.Config) {fs : FileSystem} (calm : Router.Calm fs) (w : Platform)
    {p : Program cfg.numWorkers.toNat} {notes : Program.Notes}
    (run : Program.Serving (cfg.policy fs w) cfg.numWorkers.toNat cfg.maxQueueSize.toNat (p, notes)) {j : Nat}
    {m : Minutes} (known : notes j = some m) (accepted : p.pool.enqueues j ≠ .returned false)
    {ms : List (Message × List Bytes)} (asks : Asks (cfg.policy fs w) ms)
    (keeps : ∀ m ∈ ms, (cfg.policy fs w).keeps m.1.request = true) (room : (ms.length : Int) < cfg.maxRequestsPerConn)
    {cs : List Bytes} {c : StatusCode} (spoils : Spoils cs c) (arrive : arrived m.log = (ms.map Prod.snd).flatten ++ cs)
    {method : Bytes} (other : method ≠ ascii "HEAD") :
    ∃ rest, readResponses (ms.map (·.1.method) ++ [method]) (bytesSent m.log ++ rest) =
        some (ms.map (fun m => Api.answer cfg fs m.1.request) ++ [⟨c.toNat, c.reasonPhrase⟩], []) ∧
      (m.broken = false →
        ((∃ parser served, (p.connections j).stage (cfg.policy fs w) = .reading parser served) ∨
          (p.connections j).stage (cfg.policy fs w) = .ended) → rest = [] ∧ .closed ∈ m.log) := by
  have limit : 1 ≤ (cfg.policy fs w).limit := by
    change 1 ≤ cfg.maxRequestsPerConn
    omega
  obtain ⟨rest, whole, settled⟩ := Program.serving_lacks (cfg.policy fs w) limit run known accepted
  obtain ⟨bytes, closes⟩ := handleConnection_spoiled asks keeps room spoils
  rw [arrive, bytes] at whole
  refine ⟨rest, ?_, fun healthy waits => ?_⟩
  · have before := stream_answers calm asks ((cfg.policy fs w).refusal ms.length c)
    have read := read_refusal (P := cfg.policy fs w) spoils.faulty other ms.length []
    rw [List.append_nil] at read
    rw [whole, readResponses_snoc method before, read]
    rfl
  · obtain ⟨done, seen⟩ := settled healthy waits
    rw [arrive] at seen
    exact ⟨done, List.mem_of_mem_filter (seen ▸ closes)⟩

/-- A client asks for an echo, and then with an unknown method. -/
def spoilingClient (now : Moment) : List (ProgramAct 0) :=
  [.accept (some 0), .recv 0 (.data echoHi.text) now, .send 0 (.sent 1000), .recv 0 (.data (putLine ++ crlf)) now,
    .send 0 (.sent 1000)]

theorem echoHi_asks : Asks (baseline.policy (Node.dir []).fileSystem .still) [(echoHi, [echoHi.text])] where
  wellFormed m mem := by
    rw [List.mem_singleton.1 mem]
    exact echoHi_wellFormed
  cut m mem := by
    rw [List.mem_singleton.1 mem]
    exact .single echoHi
  body m mem := by
    rw [List.mem_singleton.1 mem]
    decide
  keeps m mem := by cases mem
  within := by decide

theorem putLine_spoils : Spoils [putLine ++ crlf] .methodNotAllowed where
  nonempty x mem := by
    rw [List.mem_singleton.1 mem]
    decide
  noLimit := noLimitCut_of_short (by decide)
  faulty := .requestLine [] (by decide) putLine_fault

theorem fault_answered_put : ∃ (p : Program 0) (notes : Program.Notes) (m : Minutes),
    Program.Serving (baseline.policy (Node.dir []).fileSystem .still) 0 256 (p, notes) ∧ notes 0 = some m ∧
    readResponses [ascii "POST", ascii "PUT"] (bytesSent m.log) =
      some ([⟨200, ascii "hi"⟩, ⟨405, ascii "Method Not Allowed"⟩], []) ∧ .closed ∈ m.log := by
  have facts : (exec (fun s act => noted (Program.step (baseline.policy (Node.dir []).fileSystem .still).server.config)
        Program.note s (Program.fixed (baseline.policy (Node.dir []).fileSystem .still) act)) (fun _ _ => true)
      (Program.main 0 256, fun _ => none) (spoilingClient ⟨.still, fun _ => none⟩)).map
        (fun s => ((s.2 0).map fun m => (arrived m.log, m.broken), s.1.pool.enqueues 0, s.1.connections 0)) =
      some (some ([echoHi.text, putLine ++ crlf], false), .idle, .closed (some true)) := by decide +kernel
  obtain ⟨⟨p, notes⟩, ran, seen⟩ := Option.map_eq_some_iff.1 facts
  simp only [Prod.mk.injEq, Option.map_eq_some_iff] at seen
  obtain ⟨⟨m, known, arrive, healthy⟩, idle, closed⟩ := seen
  have run : Program.Serving (baseline.policy (Node.dir []).fileSystem .still) 0 256 (p, notes) :=
    (exec_run ran).simulate (f := id) (g := fun _ act => Program.fixed _ act)
      fun _ _ _ _ took => ⟨Program.fixed_fixed _ _, took⟩
  obtain ⟨rest, read, settled⟩ := fault_answered baseline (fileSystem_calm (Node.dir [])) .still run known
    (by rw [idle]; exact fun h => by cases h) echoHi_asks
    (fun m mem => by rw [List.mem_singleton.1 mem]; decide +kernel) (by decide) putLine_spoils arrive
    (by decide : ascii "PUT" ≠ ascii "HEAD")
  obtain ⟨rfl, ends⟩ := settled healthy (.inr (by rw [closed]; rfl))
  rw [List.append_nil] at read
  exact ⟨p, notes, m, run, known, read, ends⟩

end HttpServer
