import HttpServer.Server.Blocking
import HttpServer.Server.ThreadPool

/-!
# The program

The process that `main` starts, in thread-pool mode or with a thread for each
connection: its accept loop, the pool, the threads inside `handle_connection`
and the clients, any of which may close or reset its socket at any point. A step
is a call of one thread, with its outcome, and the code behind it. `write_all`
does not ask `send` to spare it the signal, and `main` leaves SIGPIPE as it is:
a run stays as it should just as long as no `send` meets a broken socket, and no
exception leaves a thread (`run_contained_iff`).
-/

namespace HttpServer

inductive Signal where
  | sigint
  | sigterm
  | sigpipe
  deriving DecidableEq

/-- What a signal does; the default of these three ends the process. -/
inductive Disposition where
  | default_
  | ignored
  | handler
  deriving DecidableEq

/-- The dispositions that `main` sets up. -/
def mainDisposition : Signal → Disposition
  | .sigint | .sigterm => .handler
  | .sigpipe => .default_

/-- What becomes of the response's bytes when `write_all` is through with them. -/
inductive AfterWrite where
  /-- The 503 of the accept loop. -/
  | refused
  /-- The answer to a request that the parser refuses. -/
  | malformed
  | responded (keepAlive : Bool)
  deriving DecidableEq

/-- A place in the life of a connection. -/
inductive ConnectionPc where
  /-- Not accepted yet. -/
  | waiting
  /-- Accepted, and not handled yet. -/
  | accepted
  /-- In `read_some`. -/
  | reading (requestCount : Nat) (parser : HttpParser)
  /-- In `write_all`. -/
  | writing (requestCount : Nat) (parser : HttpParser) (data : Bytes) (written : Nat) (after : AfterWrite)
  /-- Closed; the last call of `write_all` that ended the handling, if one did, has returned `result`. -/
  | closed (result : Option Bool)
  /-- Left by an exception. -/
  | threw
  deriving DecidableEq

namespace ConnectionPc

/-- The test of `while (request_count < max_requests_per_conn)`. -/
def turn (cfg : Config) (requestCount : Nat) (parser : HttpParser) : ConnectionPc :=
  if (requestCount : Int) < cfg.maxRequestsPerConn then .reading requestCount parser.reset else .closed none

/-- `handle_connection` from its start to the first call. -/
def start (cfg : Config) : ConnectionPc := turn cfg 0 {}

/-- Behind `write_all`. -/
def wrote (cfg : Config) (requestCount : Nat) (parser : HttpParser) (after : AfterWrite) (ok : Bool) :
    ConnectionPc :=
  match after with
  | .refused | .malformed => .closed (some ok)
  | .responded keepAlive =>
    if !ok then .closed (some false)
    else if !keepAlive then .closed (some true)
    else turn cfg (requestCount + 1) parser

/-- `write_all` from the test of its loop on. -/
def writeAll (cfg : Config) (requestCount : Nat) (parser : HttpParser) (data : Bytes) (written : Nat)
    (after : AfterWrite) : ConnectionPc :=
  if written < data.length then .writing requestCount parser data written after
  else wrote cfg requestCount parser after true

/-- `write_all` behind a `send` that the process survives. -/
def afterSend (cfg : Config) (requestCount : Nat) (parser : HttpParser) (data : Bytes) (written : Nat)
    (after : AfterWrite) : SendOutcome → ConnectionPc
  | .sent n => writeAll cfg requestCount parser data (written + min n (data.length - written)) after
  | .interrupted => .writing requestCount parser data written after
  | .wouldBlock | .failed | .broken => wrote cfg requestCount parser after false

/-- `handle_connection` behind a request. -/
def answer (cfg : Config) (now : Moment) (requestCount : Nat) (parser : HttpParser) : ConnectionPc :=
  let (req, parser) := parser.getRequest
  let keepAlive := if !cfg.enableKeepalive || !req.shouldKeepAlive then false else cfg.enableKeepalive
  match now.route req with
  | none => .threw
  | some res =>
    writeAll cfg requestCount parser (serialize now.platform requestCount { res with keepAlive }) 0
      (.responded keepAlive)

/-- `handle_connection` behind what is no request. -/
def reject (cfg : Config) (now : Moment) (requestCount : Nat) (parser : HttpParser) : ConnectionPc :=
  let res := { Response.error parser.errorCode [] with keepAlive := false }
  writeAll cfg requestCount parser (serialize now.platform requestCount res) 0 .malformed

/-- `handle_connection` behind a `recv`. -/
def afterRecv (cfg : Config) (now : Moment) (requestCount : Nat) (parser : HttpParser) :
    RecvOutcome → ConnectionPc
  | .interrupted => .reading requestCount parser
  | .wouldBlock | .failed => .closed none
  | .data c =>
    if c = [] then .closed none
    else
      match parser.feed c with
      | (parser, .complete) => answer cfg now requestCount parser
      | (parser, .error) => reject cfg now requestCount parser
      | (parser, .incomplete) => .reading requestCount parser

/-- The 503 that the accept loop writes. -/
def refuse (cfg : Config) (now : Moment) : ConnectionPc :=
  let res := { Response.makeResponse .serviceUnavailable with keepAlive := false }
  writeAll cfg 0 {} (serialize now.platform 0 res) 0 .refused

end ConnectionPc

/-- A place in the accept loop. -/
inductive AcceptorPc where
  | accepting
  /-- In the call of `enqueue` for a client. -/
  | enqueuing (j : Nat)
  /-- In the `write_all` of a 503. -/
  | refusing (j : Nat)
  | ended
  deriving DecidableEq

/-- The process; without workers every connection has a thread. Client number `j` has connection `j`
and brings task `j`. -/
structure Program (n : Nat) where
  pool : Pool n
  connections : Nat → ConnectionPc := fun _ => .waiting
  acceptor : AcceptorPc := .accepting
  running : Bool := true
  /-- The clients that have closed or reset their socket. -/
  gone : Nat → Bool := fun _ => false
  disposition : Signal → Disposition
  terminated : Bool := false

/-- A step of a thread, of a client, or of the signal handler. -/
inductive ProgramAct (n : Nat) where
  | leave (j : Nat)
  | accept (j : Option Nat)
  | pool (a : Pool.Action n) (now : Moment)
  | recv (j : Nat) (o : RecvOutcome) (now : Moment)
  | send (j : Nat) (o : SendOutcome)
  | stop

namespace Program

variable {n : Nat}

/-- The process behind the start of its accept loop. -/
def main (n maxQueueSize : Nat) : Program n where
  pool := .init n maxQueueSize
  disposition := mainDisposition

/-- The test of `while (running_)`. -/
def onward (p : Program n) : AcceptorPc := if p.running then .accepting else .ended

/-- A connection goes on, and with it the accept loop where it has written to it. -/
def settle (p : Program n) (j : Nat) (pc : ConnectionPc) : Program n :=
  { p with
    connections := Function.update p.connections j pc
    acceptor :=
      match p.acceptor, pc with
      | .refusing i, .closed _ => if i = j then p.onward else p.acceptor
      | acceptor, _ => acceptor }

/-- An iteration of `accept_loop` or of `accept_loop_baseline`, up to `enqueue`. -/
def acceptStep (cfg : Config) (p : Program n) (client : Option Nat) : Option (Program n) :=
  match p.acceptor, client with
  | .accepting, none => some { p with acceptor := p.onward }
  | .accepting, some j =>
    if p.connections j = .waiting then
      if n = 0 then
        some { p with connections := Function.update p.connections j (.start cfg), acceptor := p.onward }
      else
        some { p with connections := Function.update p.connections j .accepted, acceptor := .enqueuing j }
    else none
  | _, _ => none

/-- A step inside the pool. A task is a call of `handle_connection`, and it ends when that returns. -/
def poolStep (cfg : Config) (p : Program n) (now : Moment) : Pool.Action n → Option (Program n)
  | .worker i threw =>
    (p.pool.workerStep i threw).bind fun pool =>
      match p.pool.workers i with
      | .taken j => some { p with pool, connections := Function.update p.connections j (.start cfg) }
      | .running j =>
        match p.connections j, threw with
        | .closed _, false => some { p with pool }
        | .threw, true => some { p with pool }
        | _, _ => none
      | _ => some { p with pool }
  | .enqueue j woken =>
    if p.acceptor = .enqueuing j then
      (p.pool.enqueueStep j woken).map fun pool =>
        match pool.enqueues j with
        | .returned true => { p with pool, acceptor := p.onward }
        | .returned false => { p with pool, acceptor := .refusing j }.settle j (.refuse cfg now)
        | _ => { p with pool }
    else none
  | .shutdown k => (p.pool.shutdownStep k).map fun pool => { p with pool }

/-- A `recv` of a connection's thread. Without a pool nobody catches an exception. -/
def recvStep (cfg : Config) (p : Program n) (j : Nat) (o : RecvOutcome) (now : Moment) : Option (Program n) :=
  match p.connections j with
  | .reading requestCount parser =>
    let pc := ConnectionPc.afterRecv cfg now requestCount parser o
    some { p.settle j pc with terminated := decide (n = 0 ∧ pc = .threw) }
  | _ => none

/-- A `send` in `write_all`, which asks for no flags. It finds the socket broken when the client has
gone, and then SIGPIPE is raised. -/
def sendStep (cfg : Config) (p : Program n) (j : Nat) (o : SendOutcome) : Option (Program n) :=
  match p.connections j with
  | .writing requestCount parser data written after =>
    if decide (o = .broken) = p.gone j then
      if o = .broken ∧ p.disposition .sigpipe = .default_ then some { p with terminated := true }
      else some (p.settle j (.afterSend cfg requestCount parser data written after o))
    else none
  | _ => none

def step (cfg : Config) (p : Program n) (act : ProgramAct n) : Option (Program n) :=
  if p.terminated then none
  else
    match act with
    | .leave j => if p.gone j then none else some { p with gone := Function.update p.gone j true }
    | .accept client => p.acceptStep cfg client
    | .pool a now => p.poolStep cfg now a
    | .recv j o now => p.recvStep cfg j o now
    | .send j o => p.sendStep cfg j o
    | .stop => some { p with running := false }

/-- The connection to which a `send` is made although the client has gone. -/
def meets (p : Program n) : ProgramAct n → Option Nat
  | .send j _ => if p.gone j then some j else none
  | _ => none

/-- The step does not end the process, and where a `send` finds a broken socket `write_all` returns
false and nothing else happens: to no other connection, and not to `running_`. -/
structure Contained (p : Program n) (act : ProgramAct n) (p' : Program n) : Prop where
  survives : p'.terminated = false
  fails : ∀ j, p.meets act = some j → p'.connections j = .closed (some false)
  others : ∀ j, p.meets act = some j → ∀ i, i ≠ j → p'.connections i = p.connections i
  running : ∀ j, p.meets act = some j → p'.running = p.running

/-- The data that is received completes a request on which an exception leaves the router. -/
def Throws (p : Program n) : ProgramAct n → Prop
  | .recv j (.data c) now => ∃ requestCount parser, p.connections j = .reading requestCount parser ∧ c ≠ [] ∧
      (parser.feed c).2 = .complete ∧ now.route (parser.feed c).1.request = none
  | _ => False

/-- No `send` of the step finds a broken socket, and no exception leaves the thread of a connection. -/
structure Sound (p : Program n) (act : ProgramAct n) : Prop where
  sends : p.meets act = none
  returns : n = 0 → ¬ p.Throws act

/-! ## One step -/

theorem turn_ne_threw (cfg : Config) (requestCount : Nat) (parser : HttpParser) :
    ConnectionPc.turn cfg requestCount parser ≠ .threw := by
  unfold ConnectionPc.turn
  split <;> exact nofun

theorem wrote_ne_threw (cfg : Config) (requestCount : Nat) (parser : HttpParser) (after : AfterWrite) (ok : Bool) :
    ConnectionPc.wrote cfg requestCount parser after ok ≠ .threw := by
  unfold ConnectionPc.wrote
  cases after with
  | refused | malformed => exact nofun
  | responded keepAlive =>
    dsimp only
    split
    · exact nofun
    · split
      · exact nofun
      · exact turn_ne_threw _ _ _

theorem writeAll_ne_threw (cfg : Config) (requestCount : Nat) (parser : HttpParser) (data : Bytes) (written : Nat)
    (after : AfterWrite) : ConnectionPc.writeAll cfg requestCount parser data written after ≠ .threw := by
  unfold ConnectionPc.writeAll
  split
  · exact nofun
  · exact wrote_ne_threw _ _ _ _ _

/-- An exception leaves `handle_connection` where it leaves the router. -/
theorem afterRecv_threw {cfg : Config} {now : Moment} {requestCount : Nat} {parser : HttpParser}
    {o : RecvOutcome} : ConnectionPc.afterRecv cfg now requestCount parser o = .threw ↔
      ∃ c, o = .data c ∧ c ≠ [] ∧ (parser.feed c).2 = .complete ∧
        now.route (parser.feed c).1.request = none := by
  cases o with
  | data c =>
    simp only [ConnectionPc.afterRecv, RecvOutcome.data.injEq]
    split
    · rename_i eof
      exact iff_of_false nofun (by rintro ⟨_, rfl, more, -⟩; exact more eof)
    · rename_i more
      split
      · rename_i parser' fed
        unfold ConnectionPc.answer
        dsimp only
        split
        · rename_i routed
          exact iff_of_true rfl ⟨c, rfl, more, by rw [fed], by rw [fed]; exact routed⟩
        · rename_i res routed
          refine iff_of_false (writeAll_ne_threw _ _ _ _ _ _) ?_
          rintro ⟨_, rfl, -, -, none_⟩
          rw [fed] at none_
          cases routed.symm.trans none_
      · rename_i parser' fed
        refine iff_of_false (writeAll_ne_threw _ _ _ _ _ _) ?_
        rintro ⟨_, rfl, -, complete, -⟩
        rw [fed] at complete
        cases complete
      · rename_i parser' fed
        refine iff_of_false nofun ?_
        rintro ⟨_, rfl, -, complete, -⟩
        rw [fed] at complete
        cases complete
  | interrupted => exact iff_of_false nofun (by rintro ⟨_, ⟨⟩, -⟩)
  | wouldBlock => exact iff_of_false nofun (by rintro ⟨_, ⟨⟩, -⟩)
  | failed => exact iff_of_false nofun (by rintro ⟨_, ⟨⟩, -⟩)

/-- What a `send` does. -/
inductive SendStep (cfg : Config) (p : Program n) (j : Nat) (o : SendOutcome) : Program n → Prop where
  | killed (broken : p.gone j = true) (sigpipe : p.disposition .sigpipe = .default_) :
      SendStep cfg p j o { p with terminated := true }
  | on {requestCount : Nat} {parser : HttpParser} {data : Bytes} {written : Nat} {after : AfterWrite}
      (finds : decide (o = .broken) = p.gone j)
      (survives : p.gone j = true → p.disposition .sigpipe ≠ .default_) :
      SendStep cfg p j o (p.settle j (.afterSend cfg requestCount parser data written after o))

theorem sendStep_cases {cfg : Config} {p p' : Program n} {j : Nat} {o : SendOutcome}
    (took : p.sendStep cfg j o = some p') : SendStep cfg p j o p' := by
  unfold sendStep at took
  split at took
  · split at took
    · rename_i finds
      split at took
      · rename_i kills
        cases took
        exact .killed (by rw [← finds]; exact decide_eq_true kills.1) kills.2
      · rename_i survives
        cases took
        refine .on finds fun broken sigpipe => survives ⟨?_, sigpipe⟩
        exact of_decide_eq_true (finds.trans broken)
    · cases took
  · cases took

theorem recvStep_terminated {cfg : Config} {p p' : Program n} {j : Nat} {o : RecvOutcome} {now : Moment}
    (took : p.recvStep cfg j o now = some p') : p'.terminated = true ↔ n = 0 ∧ p.Throws (.recv j o now) := by
  unfold recvStep at took
  split at took
  · rename_i requestCount parser conn
    cases took
    refine decide_eq_true_iff.trans (and_congr_right fun _ => afterRecv_threw.trans ?_)
    constructor
    · rintro ⟨c, rfl, more, complete, threw⟩
      exact ⟨requestCount, parser, conn, more, complete, threw⟩
    · intro throws
      cases o with
      | data c =>
        obtain ⟨_, _, conn', rest⟩ := throws
        cases conn.symm.trans conn'
        exact ⟨c, rfl, rest⟩
      | interrupted | wouldBlock | failed => exact throws.elim
  · cases took

/-- What no step of the accept loop or of the pool changes. -/
structure Alive (p p' : Program n) : Prop where
  terminated : p'.terminated = p.terminated
  disposition : p'.disposition = p.disposition

theorem acceptStep_alive {cfg : Config} {p p' : Program n} {client : Option Nat}
    (took : p.acceptStep cfg client = some p') : Alive p p' ∧ p'.pool = p.pool := by
  unfold acceptStep at took
  split at took
  · cases took
    exact ⟨⟨rfl, rfl⟩, rfl⟩
  · split at took
    · split at took <;> cases took <;> exact ⟨⟨rfl, rfl⟩, rfl⟩
    · cases took
  · cases took

theorem poolStep_alive {cfg : Config} {p p' : Program n} {now : Moment} {a : Pool.Action n}
    (took : p.poolStep cfg now a = some p') : Alive p p' := by
  cases a with
  | worker i threw =>
    obtain ⟨pool, -, rest⟩ := Option.bind_eq_some_iff.1 took
    split at rest
    · cases rest
      exact ⟨rfl, rfl⟩
    · split at rest <;> cases rest <;> exact ⟨rfl, rfl⟩
    · cases rest
      exact ⟨rfl, rfl⟩
  | enqueue j woken =>
    simp only [poolStep] at took
    split at took
    · obtain ⟨pool, -, rfl⟩ := Option.map_eq_some_iff.1 took
      split <;> exact ⟨rfl, rfl⟩
    · cases took
  | shutdown k =>
    obtain ⟨pool, -, rfl⟩ := Option.map_eq_some_iff.1 took
    exact ⟨rfl, rfl⟩

theorem step_disposition {cfg : Config} {p p' : Program n} {act : ProgramAct n}
    (took : p.step cfg act = some p') : p'.disposition = p.disposition := by
  unfold step at took
  split at took
  · cases took
  · cases act with
    | leave j =>
      dsimp only at took
      split at took <;> cases took
      rfl
    | accept client => exact (acceptStep_alive took).1.disposition
    | pool a now => exact (poolStep_alive took).disposition
    | recv j o now =>
      simp only [recvStep] at took
      split at took <;> cases took
      rfl
    | send j o => cases sendStep_cases took <;> rfl
    | stop =>
      cases took
      rfl

/-- A step ends the process where it raises SIGPIPE, or lets an exception out of a thread. -/
theorem step_terminated {cfg : Config} {p p' : Program n} {act : ProgramAct n}
    (took : p.step cfg act = some p') :
    p'.terminated = true ↔
      (p.meets act ≠ none ∧ p.disposition .sigpipe = .default_) ∨ (n = 0 ∧ p.Throws act) := by
  unfold step at took
  split at took
  · cases took
  · rename_i alive
    have quiet (same : p'.terminated = p.terminated) (none_ : p.meets act = none) (returns : ¬ p.Throws act) :
        p'.terminated = true ↔
          (p.meets act ≠ none ∧ p.disposition .sigpipe = .default_) ∨ (n = 0 ∧ p.Throws act) := by
      refine iff_of_false (by rwa [same]) ?_
      rintro (⟨broken, -⟩ | ⟨-, throws⟩)
      · exact broken none_
      · exact returns throws
    cases act with
    | leave j =>
      dsimp only at took
      split at took <;> cases took
      exact quiet rfl rfl id
    | accept client => exact quiet (acceptStep_alive took).1.terminated rfl id
    | pool a now => exact quiet (poolStep_alive took).terminated rfl id
    | recv j o now =>
      refine (recvStep_terminated took).trans (or_iff_right ?_).symm
      exact fun broken => broken.1 rfl
    | send j o =>
      cases sendStep_cases took with
      | killed broken sigpipe => exact iff_of_true rfl (.inl ⟨by simp [meets, broken], sigpipe⟩)
      | on finds survives =>
        refine iff_of_false alive ?_
        rintro (⟨broken, sigpipe⟩ | ⟨-, throws⟩)
        · refine broken (if_neg fun gone => survives gone sigpipe)
        · exact throws
    | stop =>
      cases took
      exact quiet rfl rfl id

/-- Where the process survives, a `write_all` that finds the socket broken returns false. -/
theorem step_broken {cfg : Config} {p p' : Program n} {act : ProgramAct n} {j : Nat}
    (took : p.step cfg act = some p') (meet : p.meets act = some j) (alive : p'.terminated = false) :
    p' = p.settle j (.closed (some false)) := by
  unfold meets at meet
  split at meet
  · rename_i x o
    split at meet
    · rename_i gone
      cases meet
      unfold step at took
      split at took
      · cases took
      · cases sendStep_cases took with
        | killed => cases alive
        | @on requestCount parser data written after finds survives =>
          obtain rfl : o = .broken := of_decide_eq_true (finds.trans gone)
          cases after <;> rfl
    · cases meet
  · cases meet

/-- A step is contained unless it raises a SIGPIPE that ends the process, or lets an exception out. -/
theorem contained_step {cfg : Config} {p p' : Program n} {act : ProgramAct n}
    (took : p.step cfg act = some p') :
    Contained p act p' ↔
      (p.disposition .sigpipe = .default_ → p.meets act = none) ∧ (n = 0 → ¬ p.Throws act) := by
  have ends := step_terminated took
  constructor
  · intro ok
    rw [ok.survives] at ends
    have alive := (not_congr ends).1 (by decide)
    rw [not_or] at alive
    refine ⟨fun sigpipe => ?_, fun threads throws => alive.2 ⟨threads, throws⟩⟩
    by_contra broken
    exact alive.1 ⟨broken, sigpipe⟩
  · rintro ⟨sends, returns⟩
    have alive : p'.terminated = false := by
      rw [← Bool.not_eq_true, ends]
      rintro (⟨broken, sigpipe⟩ | ⟨threads, throws⟩)
      · exact broken (sends sigpipe)
      · exact returns threads throws
    have broken {j : Nat} (meet : p.meets act = some j) : p' = p.settle j (.closed (some false)) :=
      step_broken took meet alive
    refine ⟨alive, fun j meet => ?_, fun j meet i ne => ?_, fun j meet => ?_⟩
    · rw [broken meet]
      exact Function.update_self ..
    · rw [broken meet]
      exact Function.update_of_ne ne _ _
    · rw [broken meet]
      rfl

/-- **One client's disconnect**: every step of a run from `main` leaves the rest of the process alone
just when no `send` meets a broken socket and no exception leaves a connection's thread. -/
theorem run_contained_iff (cfg : Config) (n maxQueueSize : Nat) (acts : List (ProgramAct n)) :
    Runs.Along (step cfg) Contained (main n maxQueueSize) acts ↔
      Runs.Along (step cfg) (fun p act _ => Sound p act) (main n maxQueueSize) acts := by
  refine Runs.Along.congr (I := fun p => p.disposition .sigpipe = .default_) rfl
    (fun _ _ _ sigpipe took => by rw [step_disposition took, sigpipe]) ?_ acts
  intro p act p' sigpipe took
  rw [contained_step took]
  exact ⟨fun ⟨sends, returns⟩ => ⟨sends sigpipe, returns⟩, fun sound => ⟨fun _ => sound.sends, sound.returns⟩⟩

/-- A client that sends an empty line and has gone when the server answers. -/
def rudeClient (now : Moment) : List (ProgramAct 0) :=
  [.accept (some 0), .recv 0 (.data crlf) now, .leave 0, .send 0 .broken]

/-- A client that has gone when the accept loop writes the 503. -/
def refusedClient (now : Moment) : List (ProgramAct 1) :=
  [.accept (some 0), .pool (.enqueue 0 none) now, .pool (.enqueue 0 none) now, .pool (.enqueue 0 none) now,
    .pool (.enqueue 0 none) now, .leave 0, .send 0 .broken]

theorem rude_kills (now : Moment) : ¬ Runs.Along (step {}) Contained (main 0 256) (rudeClient now) := by
  intro run
  obtain ⟨-, run⟩ := run _ rfl
  obtain ⟨-, run⟩ := run _ rfl
  obtain ⟨-, run⟩ := run _ rfl
  obtain ⟨bad, -⟩ := run _ rfl
  cases bad.survives

theorem refused_kills (now : Moment) : ¬ Runs.Along (step {}) Contained (main 1 0) (refusedClient now) := by
  intro run
  obtain ⟨-, run⟩ := run _ rfl
  obtain ⟨-, run⟩ := run _ rfl
  obtain ⟨-, run⟩ := run _ rfl
  obtain ⟨-, run⟩ := run _ rfl
  obtain ⟨-, run⟩ := run _ rfl
  obtain ⟨-, run⟩ := run _ rfl
  obtain ⟨bad, -⟩ := run _ rfl
  cases bad.survives

/-- Both end the process, in the one mode and in the other. -/
theorem disconnect_kills :
    ¬ Runs.Along (step {}) Contained (main 0 256) (rudeClient ⟨.still, fun _ => none⟩) ∧
      ¬ Runs.Along (step {}) Contained (main 1 0) (refusedClient ⟨.still, fun _ => none⟩) :=
  ⟨rude_kills _, refused_kills _⟩

/-- With SIGPIPE ignored only an exception in a connection's thread is left. -/
theorem contained_ignored (cfg : Config) {p : Program n} (sigpipe : p.disposition .sigpipe ≠ .default_)
    (acts : List (ProgramAct n)) :
    Runs.Along (step cfg) Contained p acts ↔
      Runs.Along (step cfg) (fun p act _ => n = 0 → ¬ p.Throws act) p acts := by
  refine Runs.Along.congr (I := fun p => p.disposition .sigpipe ≠ .default_) sigpipe
    (fun _ _ _ sigpipe took => by rwa [step_disposition took]) ?_ acts
  intro p act p' sigpipe took
  rw [contained_step took]
  exact and_iff_right fun default_ => absurd default_ sigpipe

/-! ## The pool of the program -/

theorem poolStep_pool {cfg : Config} {p p' : Program n} {now : Moment} {a : Pool.Action n}
    (took : p.poolStep cfg now a = some p') : p.pool.step a = some p'.pool := by
  cases a with
  | worker i threw =>
    obtain ⟨pool, stepped, rest⟩ := Option.bind_eq_some_iff.1 took
    split at rest
    · cases rest
      exact stepped
    · split at rest <;> cases rest <;> exact stepped
    · cases rest
      exact stepped
  | enqueue j woken =>
    simp only [poolStep] at took
    split at took
    · obtain ⟨pool, stepped, rfl⟩ := Option.map_eq_some_iff.1 took
      split <;> exact stepped
    · cases took
  | shutdown k =>
    obtain ⟨pool, stepped, rfl⟩ := Option.map_eq_some_iff.1 took
    exact stepped

/-- A step of the program is one of the pool, or leaves the pool alone. -/
theorem step_pool {cfg : Config} {p p' : Program n} {act : ProgramAct n} (took : p.step cfg act = some p') :
    p'.pool = p.pool ∨ ∃ a, p.pool.step a = some p'.pool := by
  unfold step at took
  split at took
  · cases took
  · cases act with
    | leave j =>
      dsimp only at took
      split at took <;> cases took
      exact .inl rfl
    | accept client => exact .inl (acceptStep_alive took).2
    | pool a now => exact .inr ⟨a, poolStep_pool took⟩
    | recv j o now =>
      simp only [recvStep] at took
      split at took <;> cases took
      exact .inl rfl
    | send j o => cases sendStep_cases took <;> exact .inl rfl
    | stop =>
      cases took
      exact .inl rfl

/-- **The pool inside the program runs as a pool does.** -/
theorem reach_pool {cfg : Config} {maxQueueSize : Nat} {p : Program n}
    (run : Runs.Reach (step cfg) (main n maxQueueSize) p) :
    Runs.Reach Pool.step (.init n maxQueueSize) p.pool := by
  refine run.invariant (I := fun p => Runs.Reach Pool.step (.init n maxQueueSize) p.pool) .start
    fun p act p' inv _ took => ?_
  rcases step_pool took with same | ⟨a, stepped⟩
  · rw [same]
    exact inv
  · exact inv.next trivial stepped

end Program

end HttpServer
