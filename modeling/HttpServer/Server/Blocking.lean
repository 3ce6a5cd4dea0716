import HttpServer.Server.Session

/-!
# The blocking server

`handleConnection` is `Server::handle_connection`: an outer loop over the
requests and an inner one that reads until the parser has an outcome. It plays
the session of its policy (`handleConnection_play`).
-/

namespace HttpServer

open Connection

structure Config where
  maxRequestsPerConn : Int := 1000
  enableKeepalive : Bool := true

/-- How the loop that reads one request ends. -/
inductive Reading where
  | blocked
  | gone
  | failed (p : HttpParser)
  | complete (p : HttpParser)

/-- The events of that loop, how it ends and the reads not used. -/
structure ReadRun where
  events : List Event
  outcome : Reading
  reads : List ReadResult

/-- The loop `while (!request_complete)`. -/
def readRequest (p : HttpParser) : List ReadResult → ReadRun
  | [] => ⟨[], .blocked, []⟩
  | .error :: rest => ⟨[], .gone, rest⟩
  | .bytes c :: rest =>
    if c = [] then ⟨[.received c], .gone, rest⟩
    else
      match p.feed c with
      | (p, .complete) => ⟨[.received c], .complete p, rest⟩
      | (p, .error) => ⟨[.received c], .failed p, rest⟩
      | (p, .incomplete) =>
        let run := readRequest p rest
        { run with events := .received c :: run.events }

/-- The events of a `write_all`. -/
def writeEvents (data : Bytes) (w : Written) : List Event :=
  w.pieces.map .sent ++ if w.result = .success then [.responded data] else []

/-- `Server`; `route` gives none where an exception leaves `Router::route`. -/
structure Server where
  config : Config
  route : Request → Option Response
  platform : Platform

namespace Server

/-- The loop `while (request_count < max_requests_per_conn)` with `left` rounds to go. -/
def connectionLoop (s : Server) :
    Nat → Nat → HttpParser → List ReadResult → List SendOutcome → List Event
  | 0, _, _, _, _ => [.closed]
  | left + 1, requestCount, parser, reads, sends =>
    let run := readRequest parser.reset reads
    run.events ++
      match run.outcome with
      | .blocked => []
      | .gone => [.closed]
      | .failed p =>
        let res := { Response.error p.errorCode [] with keepAlive := false }
        let data := serialize s.platform requestCount res
        let w := writeAll data sends
        writeEvents data w ++ [if w.result = .killed then .killed else .closed]
      | .complete p =>
        let (req, p) := p.getRequest
        let keepAlive :=
          if !s.config.enableKeepalive || !req.shouldKeepAlive then false
          else s.config.enableKeepalive
        match s.route req with
        | none => [.threw]
        | some res =>
          let data := serialize s.platform requestCount { res with keepAlive }
          let w := writeAll data sends
          writeEvents data w ++
            match w.result with
            | .killed => [.killed]
            | .failure => [.closed]
            | .success =>
              if keepAlive then s.connectionLoop left (requestCount + 1) p run.reads w.sends
              else [.closed]

/-- `Server::handle_connection` on a socket with the given outcomes. -/
def handleConnection (s : Server) (recvs : List RecvOutcome) (sends : List SendOutcome) : List Event :=
  s.connectionLoop s.config.maxRequestsPerConn.toNat 0 {} (readSome recvs) sends

end Server

/-- The blocking server of a policy. -/
def Policy.server (P : Policy) : Server where
  config := { maxRequestsPerConn := P.limit, enableKeepalive := P.keepalive }
  route q := some (P.answer q)
  platform := P.platform

/-! ## Reading and writing without errors -/

/-- No time-out and no error on input. -/
def SteadyReads (recvs : List RecvOutcome) : Prop := ∀ o ∈ recvs, o ≠ .wouldBlock ∧ o ≠ .failed

/-- No time-out and no error on output. -/
def SteadySends (sends : List SendOutcome) : Prop :=
  ∀ o ∈ sends, o ≠ .wouldBlock ∧ o ≠ .failed ∧ o ≠ .broken

/-- Chunks of data are steady. -/
theorem steadyReads_data (cs : List Bytes) : SteadyReads (cs.map .data) := by
  intro o ho
  obtain ⟨c, -, rfl⟩ := List.mem_map.1 ho
  exact ⟨by simp, by simp⟩

theorem steadySends_nil : SteadySends [] := by
  rintro o ⟨⟩

/-- `read_some` passes steady reads on, without those that a signal interrupts. -/
theorem readSome_steady {recvs : List RecvOutcome} (h : SteadyReads recvs) :
    readSome recvs = (chunks recvs).map .bytes := by
  induction recvs with
  | nil => rfl
  | cons o recvs ih =>
    have rest := ih fun o' h' => h o' (List.mem_cons_of_mem o h')
    cases o with
    | data c => rw [readSome, chunks_data, List.map_cons, rest]
    | interrupted => rw [readSome, chunks_interrupted, rest]
    | wouldBlock => exact absurd rfl (h _ (by simp)).1
    | failed => exact absurd rfl (h _ (by simp)).2

/-- What is left of the data is written, in pieces. -/
theorem writeLoop_steady {data : Bytes} {sends : List SendOutcome} (h : SteadySends sends) :
    ∀ {total : Nat}, total ≤ data.length →
      let w := writeLoop data total (data.length - total) sends
      w.result = .success ∧ w.pieces.flatten = data.drop total ∧ SteadySends w.sends := by
  induction sends with
  | nil =>
    intro total le
    unfold writeLoop
    split
    · exact ⟨rfl, by simp, h⟩
    · have : total = data.length := by omega
      exact ⟨rfl, by simp [this], h⟩
  | cons o sends ih =>
    intro total le
    have steady : SteadySends sends := fun o' h' => h o' (List.mem_cons_of_mem o h')
    unfold writeLoop
    split
    · cases o with
      | sent n =>
        obtain ⟨result, pieces, rest⟩ := ih steady
          (show total + min n (data.length - total) ≤ data.length by omega)
        rw [show data.length - (total + min n (data.length - total)) =
          data.length - total - min n (data.length - total) by omega] at result pieces rest
        refine ⟨result, ?_, rest⟩
        rw [List.flatten_cons, pieces, ← List.drop_drop, List.take_append_drop]
      | interrupted => exact ih steady le
      | wouldBlock => exact absurd rfl (h _ (by simp)).1
      | failed => exact absurd rfl (h _ (by simp)).2.1
      | broken => exact absurd rfl (h _ (by simp)).2.2
    · have : total = data.length := by omega
      exact ⟨rfl, by simp [this], h⟩

/-- `write_all` sends everything where each `send` takes something. -/
theorem writeAll_steady {sends : List SendOutcome} (h : SteadySends sends) (data : Bytes) :
    (writeAll data sends).result = .success ∧ (writeAll data sends).pieces.flatten = data ∧
      SteadySends (writeAll data sends).sends := by
  simpa [writeAll] using writeLoop_steady h (Nat.zero_le data.length)

/-- What is traced of it delivers the response. -/
theorem writeEvents_steady {sends : List SendOutcome} (h : SteadySends sends) (data : Bytes) :
    Delivers (writeEvents data (writeAll data sends)) [.responded data] := by
  obtain ⟨result, pieces, -⟩ := writeAll_steady h data
  simpa [writeEvents, result] using Delivers.response pieces

/-! ## The session is played -/

/-- What a session does behind the reading of one request. -/
def Policy.after (P : Policy) (k : Nat) (rest : List Bytes) : Reading → List Event
  | .blocked => []
  | .gone => [.closed]
  | .failed p => [.responded (P.refusal k p.errorCode), .closed]
  | .complete p =>
    .responded (P.reply k p.request) ::
      if P.keeps p.request = true ∧ (k + 1 : Int) < P.limit then play P ⟨{}, k + 1⟩ rest
      else [.closed]

/-- Reading a request is the start of the session's events. -/
theorem readRequest_play (P : Policy) (k : Nat) (cs : List Bytes) (p : HttpParser) :
    ∃ rest, (readRequest p (cs.map .bytes)).reads = rest.map .bytes ∧
      Delivers (readRequest p (cs.map .bytes)).events (readRequest p (cs.map .bytes)).events ∧
      play P ⟨p, k⟩ cs = (readRequest p (cs.map .bytes)).events ++
        P.after k rest (readRequest p (cs.map .bytes)).outcome := by
  induction cs generalizing p with
  | nil => exact ⟨[], rfl, .nil, rfl⟩
  | cons c cs ih =>
    have one : Delivers [.received c] [.received c] := .cons rfl rfl .nil
    simp only [List.map_cons, readRequest, play]
    by_cases eof : c = []
    · subst eof
      exact ⟨cs, rfl, one, rfl⟩
    · simp only [if_neg eof]
      cases result : (p.feed c).2 with
      | incomplete =>
        obtain ⟨rest, reads, shown, played⟩ := ih (p.feed c).1
        rw [show p.feed c = ((p.feed c).1, .incomplete) by rw [← result]]
        simp only [feed_verdict_incomplete result]
        exact ⟨rest, reads, .cons rfl rfl shown, by rw [played]; rfl⟩
      | complete =>
        rw [show p.feed c = ((p.feed c).1, .complete) by rw [← result]]
        simp only [feed_verdict_complete result]
        exact ⟨cs, rfl, one, rfl⟩
      | error =>
        rw [show p.feed c = ((p.feed c).1, .error) by rw [← result]]
        simp only [feed_verdict_error result]
        exact ⟨cs, rfl, one, rfl⟩

theorem closed_delivers : Delivers [.closed] [.closed] := .cons rfl rfl .nil

/-- The two tests of `handle_connection` are the policy's one. -/
theorem keepAlive_eq (P : Policy) (q : Request) :
    (if !P.server.config.enableKeepalive || !q.shouldKeepAlive then false
      else P.server.config.enableKeepalive) = P.keeps q := by
  change (if !P.keepalive || !q.shouldKeepAlive then false else P.keepalive) = _
  unfold Policy.keeps
  cases P.keepalive <;> cases q.shouldKeepAlive <;> rfl

/-- One round of the outer loop, given what the rounds behind it do. -/
theorem connectionLoop_step (P : Policy) {left k : Nat}
    (next : ∀ p cs sends, SteadySends sends →
      Delivers (P.server.connectionLoop left (k + 1) p (cs.map .bytes) sends)
        (if (k + 1 : Int) < P.limit then play P ⟨{}, k + 1⟩ cs else [.closed]))
    (p : HttpParser) (cs : List Bytes) {sends : List SendOutcome} (steady : SteadySends sends) :
    Delivers (P.server.connectionLoop (left + 1) k p (cs.map .bytes) sends) (play P ⟨{}, k⟩ cs) := by
  obtain ⟨rest, reads, shown, played⟩ := readRequest_play P k cs p.reset
  have start : play P ⟨p.reset, k⟩ cs = play P ⟨{}, k⟩ cs := rfl
  rw [start] at played
  rw [played, Server.connectionLoop]
  apply shown.append
  cases (readRequest p.reset (cs.map .bytes)).outcome with
  | blocked => exact .nil
  | gone => exact closed_delivers
  | failed q =>
    obtain ⟨result, -, -⟩ := writeAll_steady steady (P.refusal k q.errorCode)
    have written := writeEvents_steady steady (P.refusal k q.errorCode)
    change Delivers (writeEvents (P.refusal k q.errorCode) (writeAll (P.refusal k q.errorCode) sends) ++
      [if (writeAll (P.refusal k q.errorCode) sends).result = .killed then .killed else .closed]) _
    rw [result]
    exact written.append closed_delivers
  | complete q =>
    obtain ⟨result, -, steady'⟩ := writeAll_steady steady (P.reply k q.request)
    have written := writeEvents_steady steady (P.reply k q.request)
    have behind : Delivers
        (if P.keeps q.request = true then
          P.server.connectionLoop left (k + 1) { q with request := {} } (rest.map .bytes)
            (writeAll (P.reply k q.request) sends).sends
        else [.closed])
        (if P.keeps q.request = true ∧ (k + 1 : Int) < P.limit then play P ⟨{}, k + 1⟩ rest
        else [.closed]) := by
      by_cases keeps : P.keeps q.request = true
      · simp only [keeps, true_and, if_true]
        exact next _ rest _ steady'
      · rw [if_neg keeps, if_neg fun h => keeps h.1]
        exact closed_delivers
    dsimp only [HttpParser.getRequest]
    rw [keepAlive_eq, reads]
    show Delivers (writeEvents (P.reply k q.request) (writeAll (P.reply k q.request) sends) ++
      match (writeAll (P.reply k q.request) sends).result with
      | .killed => [.killed]
      | .failure => [.closed]
      | .success =>
        if P.keeps q.request = true then
          P.server.connectionLoop left (k + 1) { q with request := {} } (rest.map .bytes)
            (writeAll (P.reply k q.request) sends).sends
        else [.closed]) _
    rw [result]
    exact written.append behind

/-- The loop over the requests plays the session from any request on, with a fresh parser. -/
theorem connectionLoop_play (P : Policy) (left k : Nat) (limit : P.limit = k + left + 1)
    (p : HttpParser) (cs : List Bytes) {sends : List SendOutcome} (steady : SteadySends sends) :
    Delivers (P.server.connectionLoop (left + 1) k p (cs.map .bytes) sends) (play P ⟨{}, k⟩ cs) := by
  induction left generalizing k p cs sends with
  | zero =>
    apply connectionLoop_step P _ p cs steady
    intro p cs sends _
    rw [if_neg (by omega)]
    exact closed_delivers
  | succ left ih =>
    apply connectionLoop_step P _ p cs steady
    intro p cs sends steady
    rw [if_pos (by omega)]
    exact ih (k + 1) (by push_cast; omega) p cs steady

/-- **The blocking server plays the session.** -/
theorem handleConnection_play (P : Policy) (limit : 1 ≤ P.limit) {recvs : List RecvOutcome}
    {sends : List SendOutcome} (reads : SteadyReads recvs) (steady : SteadySends sends) :
    Delivers (P.server.handleConnection recvs sends) (play P {} (chunks recvs)) := by
  obtain ⟨left, eq⟩ : ∃ left : Nat, P.limit.toNat = left + 1 := ⟨P.limit.toNat - 1, by omega⟩
  unfold Server.handleConnection
  rw [readSome_steady reads, show P.server.config.maxRequestsPerConn.toNat = left + 1 from eq]
  exact connectionLoop_play P left 0 (by omega) {} (chunks recvs) steady

end HttpServer
