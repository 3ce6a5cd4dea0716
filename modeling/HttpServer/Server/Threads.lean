import HttpServer.Server.Program

/-!
# The thread of a connection

`Server.handleConnection` takes the outcomes of all its calls at once; in the
program a connection's thread makes them one at a time. The thread plays the
events of the function (`handleConnection_plays`), and the program has a run that
ends as they do (`handleConnection_run`).
-/

namespace HttpServer

open Connection

/-- The events of a `recv`. -/
def RecvOutcome.events : RecvOutcome → List Event
  | .data c => [.received c]
  | _ => []

/-- The events of a `send`. -/
def SendOutcome.events (data : Bytes) (written : Nat) : SendOutcome → List Event
  | .sent n =>
    .sent ((data.drop written).take (min n (data.length - written))) ::
      if written + min n (data.length - written) < data.length then [] else [.responded data]
  | _ => []

/-- The clock and the router of the server. -/
def Server.moment (s : Server) : Moment := ⟨s.platform, s.route⟩

/-- The events of a connection behind a `write_all`. -/
def writeEnd (result : Connection.WriteResult) (success : List Event) : List Event :=
  match result with
  | .success => success
  | .failure => [.closed]
  | .killed => [.killed]

namespace ConnectionPc

/-- The events of a connection from a place on, until it waits for input or has ended. -/
inductive Plays (s : Server) : ConnectionPc → List Event → Prop where
  | waits (requestCount : Nat) (parser : HttpParser) : Plays s (.reading requestCount parser) []
  | recv {requestCount : Nat} {parser : HttpParser} {es : List Event} (o : RecvOutcome)
      (rest : Plays s (afterRecv s.config s.moment requestCount parser o) es) :
      Plays s (.reading requestCount parser) (o.events ++ es)
  | send {requestCount : Nat} {parser : HttpParser} {data : Bytes} {written : Nat} {after : AfterWrite}
      {es : List Event} (o : SendOutcome) (finds : o ≠ .broken)
      (rest : Plays s (afterSend s.config requestCount parser data written after o) es) :
      Plays s (.writing requestCount parser data written after) (o.events data written ++ es)
  | killed (requestCount : Nat) (parser : HttpParser) (data : Bytes) (written : Nat) (after : AfterWrite) :
      Plays s (.writing requestCount parser data written after) [.killed]
  | closed (result : Option Bool) : Plays s (.closed result) [.closed]
  | threw : Plays s .threw [.threw]

/-- A `send` that takes a part of what is left. -/
theorem sent_part {s : Server} {requestCount : Nat} {parser : HttpParser} {data : Bytes} {written : Nat}
    {after : AfterWrite} {es : List Event} (n : Nat) (more : written + min n (data.length - written) < data.length)
    (rest : Plays s (.writing requestCount parser data (written + min n (data.length - written)) after) es) :
    Plays s (.writing requestCount parser data written after)
      (.sent ((data.drop written).take (min n (data.length - written))) :: es) := by
  have plays := @Plays.send s requestCount parser data written after es (.sent n) (by simp)
    (by rw [afterSend, writeAll, if_pos more]; exact rest)
  rwa [SendOutcome.events, if_pos more] at plays

/-- A `send` that takes the rest. -/
theorem sent_rest {s : Server} {requestCount : Nat} {parser : HttpParser} {data : Bytes} {written : Nat}
    {after : AfterWrite} {es : List Event} (n : Nat) (full : ¬ written + min n (data.length - written) < data.length)
    (rest : Plays s (wrote s.config requestCount parser after true) es) :
    Plays s (.writing requestCount parser data written after)
      (.sent ((data.drop written).take (min n (data.length - written))) :: .responded data :: es) := by
  have plays := @Plays.send s requestCount parser data written after es (.sent n) (by simp)
    (by rw [afterSend, writeAll, if_neg full]; exact rest)
  rwa [SendOutcome.events, if_neg full] at plays

/-- The loop of `write_all`, with what follows where it succeeds and where it fails. -/
theorem writing_plays {s : Server} {requestCount : Nat} {parser : HttpParser} {data : Bytes} {after : AfterWrite}
    {behind : List SendOutcome → List Event}
    (success : ∀ sends, Plays s (wrote s.config requestCount parser after true) (behind sends))
    (failure : Plays s (wrote s.config requestCount parser after false) [.closed])
    (sends : List SendOutcome) {written : Nat} (more : written < data.length) :
    let w := writeLoop data written (data.length - written) sends
    Plays s (.writing requestCount parser data written after)
      (writeEvents data w ++ writeEnd w.result (behind w.sends)) := by
  induction sends generalizing written with
  | nil =>
    unfold writeLoop
    rw [if_pos (by omega)]
    have last := @sent_rest s requestCount parser data written after _ data.length (by omega) (success [])
    rwa [List.take_of_length_le (by rw [List.length_drop]; omega)] at last
  | cons o sends ih =>
    unfold writeLoop
    rw [if_pos (by omega)]
    cases o with
    | sent n =>
      dsimp only
      by_cases on : written + min n (data.length - written) < data.length
      · have rest := ih on
        rw [show data.length - (written + min n (data.length - written)) =
          data.length - written - min n (data.length - written) by omega] at rest
        exact sent_part n on rest
      · have done : data.length - written - min n (data.length - written) = 0 := by omega
        rw [done]
        unfold writeLoop
        exact sent_rest n on (success sends)
    | interrupted => exact .send .interrupted (by simp) (ih more)
    | wouldBlock => exact .send .wouldBlock (by simp) failure
    | failed => exact .send .failed (by simp) failure
    | broken => exact .killed _ _ _ _ _

/-- `write_all` from its start. -/
theorem writeAll_plays {s : Server} {requestCount : Nat} {parser : HttpParser} {data : Bytes} {after : AfterWrite}
    {behind : List SendOutcome → List Event}
    (success : ∀ sends, Plays s (wrote s.config requestCount parser after true) (behind sends))
    (failure : Plays s (wrote s.config requestCount parser after false) [.closed])
    (sends : List SendOutcome) (some_ : 0 < data.length) :
    let w := Connection.writeAll data sends
    Plays s (writeAll s.config requestCount parser data 0 after)
      (writeEvents data w ++ writeEnd w.result (behind w.sends)) := by
  rw [writeAll, if_pos some_]
  exact writing_plays success failure sends some_

/-- The loop that reads one request, with what follows it. -/
theorem reading_plays {s : Server} {requestCount : Nat} (reads : List ReadResult) {parser : HttpParser}
    {tail : List Event}
    (behind : match (readRequest parser reads).outcome with
      | .blocked => tail = []
      | .gone => tail = [.closed]
      | .failed p => Plays s (reject s.config s.moment requestCount p) tail
      | .complete p => Plays s (answer s.config s.moment requestCount p) tail) :
    Plays s (.reading requestCount parser) ((readRequest parser reads).events ++ tail) := by
  induction reads generalizing parser with
  | nil =>
    obtain rfl : tail = [] := behind
    exact .waits _ _
  | cons r reads ih =>
    cases r with
    | error =>
      obtain rfl : tail = [.closed] := behind
      exact .recv .wouldBlock (.closed none)
    | bytes c =>
      by_cases eof : c = []
      · simp only [readRequest, if_pos eof] at behind ⊢
        subst behind
        exact .recv (.data c) (by rw [afterRecv, if_pos eof]; exact .closed none)
      · obtain ⟨⟨p, result⟩, fed⟩ : ∃ r, parser.feed c = r := ⟨_, rfl⟩
        cases result with
        | incomplete =>
          simp only [readRequest, if_neg eof, fed] at behind ⊢
          exact .recv (.data c) (by simp only [afterRecv, if_neg eof, fed]; exact ih behind)
        | complete =>
          simp only [readRequest, if_neg eof, fed] at behind ⊢
          exact .recv (.data c) (by simp only [afterRecv, if_neg eof, fed]; exact behind)
        | error =>
          simp only [readRequest, if_neg eof, fed] at behind ⊢
          exact .recv (.data c) (by simp only [afterRecv, if_neg eof, fed]; exact behind)

/-- A connection behind a request that the parser refuses. -/
theorem reject_plays {s : Server} {requestCount : Nat} {parser : HttpParser} (sends : List SendOutcome) :
    let data := serialize s.platform requestCount { Response.error parser.errorCode [] with keepAlive := false }
    let w := Connection.writeAll data sends
    Plays s (reject s.config s.moment requestCount parser)
      (writeEvents data w ++ [if w.result = .killed then .killed else .closed]) := by
  intro data w
  have plays := @writeAll_plays s requestCount parser data .malformed (fun _ => [.closed])
    (fun _ => .closed _) (.closed _) sends (serialize_pos _ _ _)
  have ends : [if w.result = .killed then .killed else .closed] = writeEnd w.result [.closed] := by
    cases w.result <;> rfl
  rw [ends]
  exact plays

/-- A round of the outer loop behind a request, given what the rounds behind it do. -/
theorem answer_plays {s : Server} {left requestCount : Nat}
    (next : ∀ parser reads sends, Plays s (turn s.config (requestCount + 1) parser)
      (s.connectionLoop left (requestCount + 1) parser reads sends))
    {parser : HttpParser} (reads : List ReadResult) (sends : List SendOutcome) :
    let (req, p) := parser.getRequest
    let keepAlive :=
      if !s.config.enableKeepalive || !req.shouldKeepAlive then false else s.config.enableKeepalive
    Plays s (answer s.config s.moment requestCount parser)
      (match s.route req with
      | none => [.threw]
      | some res =>
        let data := serialize s.platform requestCount { res with keepAlive }
        let w := Connection.writeAll data sends
        writeEvents data w ++
          match w.result with
          | .killed => [.killed]
          | .failure => [.closed]
          | .success =>
            if keepAlive then s.connectionLoop left (requestCount + 1) p reads w.sends
            else [.closed]) := by
  dsimp only [HttpParser.getRequest]
  unfold answer
  dsimp only [HttpParser.getRequest, Server.moment]
  generalize (if !s.config.enableKeepalive || !parser.request.shouldKeepAlive then false
    else s.config.enableKeepalive) = keepAlive
  cases s.route parser.request with
  | none => exact .threw
  | some res =>
    have plays := @writeAll_plays s requestCount { parser with request := {} }
      (serialize s.platform requestCount { res with keepAlive }) (.responded keepAlive)
      (fun sends =>
        if keepAlive then s.connectionLoop left (requestCount + 1) { parser with request := {} } reads sends
        else [.closed])
      (by
        intro sends
        cases keepAlive with
        | false => exact .closed _
        | true => exact next _ reads sends)
      (.closed _) sends (serialize_pos _ _ _)
    dsimp only at plays ⊢
    revert plays
    cases (Connection.writeAll (serialize s.platform requestCount { res with keepAlive }) sends).result <;>
      exact id

theorem connectionLoop_plays (s : Server) {left requestCount : Nat}
    (limit : s.config.maxRequestsPerConn.toNat = requestCount + left) (parser : HttpParser)
    (reads : List ReadResult) (sends : List SendOutcome) :
    Plays s (turn s.config requestCount parser) (s.connectionLoop left requestCount parser reads sends) := by
  induction left generalizing requestCount parser reads sends with
  | zero =>
    rw [turn, if_neg (by omega)]
    exact .closed none
  | succ left ih =>
    rw [turn, if_pos (by omega), Server.connectionLoop]
    apply reading_plays reads
    cases (readRequest parser.reset reads).outcome with
    | blocked => rfl
    | gone => rfl
    | failed p => exact reject_plays sends
    | complete p => exact answer_plays (fun p reads sends => ih (by omega) p reads sends) _ sends

/-- **The two models of `handle_connection` agree.** -/
theorem handleConnection_plays (s : Server) (recvs : List RecvOutcome) (sends : List SendOutcome) :
    Plays s (start s.config) (s.handleConnection recvs sends) :=
  connectionLoop_plays s (by omega) {} (readSome recvs) sends

end ConnectionPc

/-! ## In the program -/

namespace Program

variable {n : Nat}

/-- What the events of connection `j` have done to the process. -/
structure Ends (j : Nat) (es : List Event) (p p' : Program n) : Prop where
  terminated : p'.terminated = true ↔ .killed ∈ es ∨ n = 0 ∧ .threw ∈ es
  closed : .closed ∈ es → ∃ result, p'.connections j = .closed result
  others : ∀ i, i ≠ j → p'.connections i = p.connections i

/-- The connection stands at `pc`, and its client is there. -/
structure At (j : Nat) (pc : ConnectionPc) (p : Program n) : Prop where
  conn : p.connections j = pc
  alive : p.terminated = false
  here : p.gone j = false
  sigpipe : p.disposition .sigpipe = .default_

theorem At.settle {j : Nat} {pc pc' : ConnectionPc} {p : Program n} (h : At j pc p) : At j pc' (p.settle j pc') :=
  ⟨Function.update_self .., h.alive, h.here, h.sigpipe⟩

theorem Ends.settle {j : Nat} {pc : ConnectionPc} {es front : List Event} {p p' : Program n}
    (quiet : .killed ∉ front ∧ .threw ∉ front ∧ .closed ∉ front) (ends : Ends j es (p.settle j pc) p') :
    Ends j (front ++ es) p p' := by
  obtain ⟨killed, threw, closed⟩ := quiet
  refine ⟨?_, ?_, fun i ne => (ends.others i ne).trans (Function.update_of_ne ne _ _)⟩
  · simpa [killed, threw] using ends.terminated
  · simpa [closed] using ends.closed

theorem recv_step {s : Server} {j requestCount : Nat} {parser : HttpParser} {p : Program n}
    (h : At j (.reading requestCount parser) p) (o : RecvOutcome) :
    let pc := ConnectionPc.afterRecv s.config s.moment requestCount parser o
    p.step s.config (.recv j o s.moment) =
      some { p.settle j pc with terminated := decide (n = 0 ∧ pc = .threw) } := by
  simp only [step, h.alive, recvStep, h.conn]
  rfl

theorem send_step {s : Server} {j requestCount : Nat} {parser : HttpParser} {data : Bytes} {written : Nat}
    {after : AfterWrite} {p : Program n} (h : At j (.writing requestCount parser data written after) p)
    {o : SendOutcome} (finds : o ≠ .broken) :
    p.step s.config (.send j o) =
      some (p.settle j (.afterSend s.config requestCount parser data written after o)) := by
  simp [step, h.alive, sendStep, h.conn, h.here, finds]

theorem afterSend_ne_threw (cfg : Config) (requestCount : Nat) (parser : HttpParser) (data : Bytes)
    (written : Nat) (after : AfterWrite) (o : SendOutcome) :
    ConnectionPc.afterSend cfg requestCount parser data written after o ≠ .threw := by
  cases o with
  | sent n => exact writeAll_ne_threw _ _ _ _ _ _
  | interrupted => exact nofun
  | wouldBlock | failed | broken => exact wrote_ne_threw _ _ _ _ _

/-- What a connection plays is a run of its thread; where it is killed the client leaves. -/
theorem plays_run {s : Server} {j : Nat} {pc : ConnectionPc} {es : List Event} (plays : ConnectionPc.Plays s pc es)
    {p : Program n} (h : At j pc p) (caught : n = 0 → pc ≠ .threw) :
    ∃ p', Runs.Reach (step s.config) p p' ∧ Ends j es p p' := by
  induction plays generalizing p with
  | waits => exact ⟨p, .start, by simp [h.alive], by simp, fun _ _ => rfl⟩
  | @recv requestCount parser es o rest ih =>
    have took := @recv_step n s j requestCount parser p h o
    have quiet : .killed ∉ o.events ∧ .threw ∉ o.events ∧ .closed ∉ o.events := by
      cases o <;> simp [RecvOutcome.events]
    by_cases ended : n = 0 ∧ ConnectionPc.afterRecv s.config s.moment requestCount parser o = .threw
    · -- nobody catches the exception
      rw [ended.2] at rest
      cases rest
      refine ⟨_, .next .start trivial took, ?_, ?_, fun i ne => Function.update_of_ne ne _ _⟩
      · simp [ended]
      · simp [quiet.2.2]
    · dsimp only at took
      rw [decide_eq_false ended, ← h.alive] at took
      obtain ⟨p', run, ends⟩ := ih h.settle fun none_ threw => ended ⟨none_, threw⟩
      exact ⟨p', Runs.Run.trans (.next .start trivial took) run, ends.settle quiet⟩
  | @send requestCount parser data written after es o finds rest ih =>
    have quiet : .killed ∉ o.events data written ∧ .threw ∉ o.events data written ∧
        .closed ∉ o.events data written := by
      unfold SendOutcome.events
      split
      · split <;> simp
      · simp
    obtain ⟨p', run, ends⟩ := ih h.settle (fun _ => afterSend_ne_threw _ _ _ _ _ _ _)
    exact ⟨p', Runs.Run.trans (.next .start trivial (send_step h finds)) run, ends.settle quiet⟩
  | killed requestCount parser data written after =>
    let left : Program n := { p with gone := Function.update p.gone j true }
    have leaves : p.step s.config (.leave j) = some left := by simp [step, h.alive, h.here, left]
    have kills : left.step s.config (.send j .broken) = some { left with terminated := true } := by
      simp [step, h.alive, sendStep, h.conn, h.sigpipe, left]
    exact ⟨_, .next (.next .start trivial leaves) trivial kills, by simp, by simp, fun _ _ => rfl⟩
  | closed result => exact ⟨p, .start, by simp [h.alive], fun _ => ⟨result, h.conn⟩, fun _ _ => rfl⟩
  | threw =>
    have pool : n ≠ 0 := fun none_ => caught none_ rfl
    exact ⟨p, .start, by simp [h.alive, pool], by simp, fun _ _ => rfl⟩

/-- **`handle_connection` in the program.** -/
theorem handleConnection_run (s : Server) {j : Nat} {p : Program n} (h : At j (.start s.config) p)
    (recvs : List RecvOutcome) (sends : List SendOutcome) :
    ∃ p', Runs.Reach (step s.config) p p' ∧ Ends j (s.handleConnection recvs sends) p p' :=
  plays_run (ConnectionPc.handleConnection_plays s recvs sends) h fun _ => turn_ne_threw _ _ _

end Program

end HttpServer
