import Mathlib.Data.Prod.Lex
import Mathlib.Order.WellFounded
import HttpServer.Http.Patience
import HttpServer.Server.Progress
import HttpServer.Server.Service

/-!
# Every client is attended to

The program deals with whoever it accepts, in either mode. A request is complete
or wrong before the patience of the parser is used up, a response has an end, and
there are so many requests on a connection; so every `handle_connection` returns,
and with it the task of a worker. The accept loop is never stuck in `enqueue` or
in a 503, and nobody is left in the queue. So in the end every connection that
has been accepted is closed (`attended`).
-/

namespace HttpServer

open Runs Parties HttpParser

namespace ConnectionPc

variable {cfg : Config}

/-! ## What is left of a connection -/

/-- A connection that reads has fed its parser all that has arrived of the request. -/
def Parses : ConnectionPc → Prop
  | .reading _ parser => parser.Fed
  | _ => True

/-- The loops that are still to be gone through, twice for each request. -/
def stages (cfg : Config) : ConnectionPc → Nat
  | .waiting => 2 * cfg.maxRequestsPerConn.toNat + 4
  | .accepted => 2 * cfg.maxRequestsPerConn.toNat + 3
  | .reading requestCount _ => 2 * (cfg.maxRequestsPerConn.toNat - requestCount) + 2
  | .writing requestCount _ _ _ _ => 2 * (cfg.maxRequestsPerConn.toNat - requestCount) + 1
  | .closed _ | .threw => 0

/-- The bytes that the loop may still read, or has to send. -/
def bytes : ConnectionPc → Nat
  | .reading _ parser => patience - parser.consumed
  | .writing _ _ data written _ => data.length - written
  | _ => 0

def left (cfg : Config) (pc : ConnectionPc) : Nat ×ₗ Nat := toLex (pc.stages cfg, pc.bytes)

/-- A connection has less left when it has fewer stages left, or as many and fewer bytes. -/
theorem left_lt {pc pc' : ConnectionPc} :
    pc'.left cfg < pc.left cfg ↔
      pc'.stages cfg < pc.stages cfg ∨ pc'.stages cfg = pc.stages cfg ∧ pc'.bytes < pc.bytes :=
  Prod.Lex.toLex_lt_toLex

/-- At the head of the loop the parser is fresh, or not read any more. -/
theorem turn_parses (requestCount : Nat) (parser : HttpParser) : (turn cfg requestCount parser).Parses := by
  unfold turn
  split
  · exact fed_fresh
  · trivial

/-- Behind a response as well. -/
theorem wrote_parses (requestCount : Nat) (parser : HttpParser) (after : AfterWrite) (ok : Bool) :
    (wrote cfg requestCount parser after ok).Parses := by
  unfold wrote
  cases after with
  | refused | malformed => trivial
  | responded keepAlive =>
    dsimp only
    split
    · trivial
    · split
      · trivial
      · exact turn_parses _ _

theorem writeAll_parses (requestCount : Nat) (parser : HttpParser) (data : Bytes) (written : Nat)
    (after : AfterWrite) : (writeAll cfg requestCount parser data written after).Parses := by
  unfold writeAll
  split
  · trivial
  · exact wrote_parses _ _ _ _

theorem afterSend_parses (requestCount : Nat) (parser : HttpParser) (data : Bytes) (written : Nat)
    (after : AfterWrite) (o : SendOutcome) : (afterSend cfg requestCount parser data written after o).Parses := by
  cases o with
  | sent n => exact writeAll_parses _ _ _ _ _
  | interrupted => trivial
  | wouldBlock | failed | broken => exact wrote_parses _ _ _ _

/-- Behind a `recv` the parser has been fed one chunk more, or there is something to write, or all is over. -/
theorem afterRecv_parses {now : Moment} {requestCount : Nat} {parser : HttpParser} (fed : parser.Fed)
    (o : RecvOutcome) : (afterRecv cfg now requestCount parser o).Parses := by
  cases o with
  | data c =>
    have result := feed_result parser c
    simp only [afterRecv]
    split
    · trivial
    · split
      · unfold answer
        dsimp only
        split
        · trivial
        · exact writeAll_parses _ _ _ _ _
      · exact writeAll_parses _ _ _ _ _
      · rename_i parser' verdict
        have more := fed.feed (d := c) (result_incomplete.1 (by rw [← result, verdict]))
        rw [verdict] at more
        exact more
  | interrupted => exact fed
  | wouldBlock | failed => trivial

/-- The next request comes behind the response. -/
theorem wrote_stages (requestCount : Nat) (parser : HttpParser) (after : AfterWrite) (ok : Bool) :
    (wrote cfg requestCount parser after ok).stages cfg <
      2 * (cfg.maxRequestsPerConn.toNat - requestCount) + 1 := by
  unfold wrote
  cases after with
  | refused | malformed => exact Nat.succ_pos _
  | responded keepAlive =>
    dsimp only
    split
    · exact Nat.succ_pos _
    · split
      · exact Nat.succ_pos _
      · unfold turn
        split
        · simp only [stages]
          omega
        · exact Nat.succ_pos _

/-- A response to write is one stage, with two for each request that the limit still allows. -/
theorem writeAll_stages (requestCount : Nat) (parser : HttpParser) (data : Bytes) (written : Nat)
    (after : AfterWrite) : (writeAll cfg requestCount parser data written after).stages cfg ≤
      2 * (cfg.maxRequestsPerConn.toNat - requestCount) + 1 := by
  unfold writeAll
  split
  · exact Nat.le_refl _
  · exact (wrote_stages _ _ _ _).le

/-- A connection that is handled has less left than one that waits for it. -/
theorem start_stages : (start cfg).stages cfg < stages cfg .accepted := by
  unfold start turn
  split <;> simp [stages]

/-- So has one that is turned away. -/
theorem refuse_stages (now : Moment) : (refuse cfg now).stages cfg < stages cfg .accepted :=
  (writeAll_stages _ _ _ _ _).trans_lt (by simp [stages])

/-- A `recv` that is not interrupted brings bytes that count, or it is the last one for the request. -/
theorem afterRecv_left {now : Moment} {requestCount : Nat} {parser : HttpParser} {o : RecvOutcome}
    (fed : parser.Fed) (quiet : o ≠ .interrupted) :
    (afterRecv cfg now requestCount parser o).left cfg < left cfg (.reading requestCount parser) := by
  have leaves {pc : ConnectionPc} (less : pc.stages cfg ≤ 2 * (cfg.maxRequestsPerConn.toNat - requestCount) + 1) :
      pc.left cfg < left cfg (.reading requestCount parser) := left_lt.2 (.inl (Nat.lt_succ_of_le less))
  cases o with
  | data c =>
    have result := feed_result parser c
    simp only [afterRecv]
    split
    · exact leaves (Nat.zero_le _)
    · rename_i some_
      split
      · unfold answer
        dsimp only
        split
        · exact leaves (Nat.zero_le _)
        · exact leaves (writeAll_stages _ _ _ _ _)
      · exact leaves (writeAll_stages _ _ _ _ _)
      · rename_i parser' verdict
        have wearies := fed.wearies some_ (result_incomplete.1 (by rw [← result, verdict]))
        rw [verdict] at wearies
        exact left_lt.2 (.inr ⟨rfl, wearies⟩)
  | interrupted => exact absurd rfl quiet
  | wouldBlock | failed => exact leaves (Nat.zero_le _)

/-- A `send` that is not interrupted takes something, or it is the last one of the response. -/
theorem afterSend_left {requestCount : Nat} {parser : HttpParser} {data : Bytes} {written : Nat}
    {after : AfterWrite} {o : SendOutcome} (quiet : o ≠ .interrupted ∧ o ≠ .sent 0) :
    (afterSend cfg requestCount parser data written after o).left cfg <
      left cfg (.writing requestCount parser data written after) := by
  cases o with
  | sent n =>
    have takes : n ≠ 0 := fun none_ => quiet.2 (by rw [none_])
    simp only [afterSend, writeAll]
    split
    · refine left_lt.2 (.inr ⟨rfl, ?_⟩)
      simp only [bytes]
      omega
    · exact left_lt.2 (.inl (wrote_stages _ _ _ _))
  | interrupted => exact absurd rfl quiet.1
  | wouldBlock | failed | broken => exact left_lt.2 (.inl (wrote_stages _ _ _ _))

end ConnectionPc

namespace Program

variable {n : Nat}

/-! ## Who is being attended to -/

/-- Where the accept loop and the connections belong together in both modes. -/
structure Placed (p : Program n) : Prop where
  /-- A call of `enqueue` that is under way is the accept loop's. -/
  calls : ∀ j, p.pool.enqueues j ≠ .idle → (∀ b, p.pool.enqueues j ≠ .returned b) → p.acceptor = .enqueuing j
  refusing : ∀ j, p.acceptor = .refusing j → (p.connections j).refused = true
  threads : n = 0 → ∀ j, p.connections j ≠ .accepted
  parses : ∀ j, (p.connections j).Parses

/-- Behind a `write_all` of the accept loop it goes on. -/
theorem settle_refused {p : Program n} {j : Nat} {pc : ConnectionPc} (within_ : pc.Within true) (returns : pc ≠ .threw)
    (refusing : (p.settle j pc).acceptor = .refusing j) : pc.refused = true := by
  cases within_ with
  | writing requestCount parser data written same => exact same
  | closed =>
    simp only [settle] at refusing
    split at refusing
    · split at refusing
      · exact absurd refusing (p.onward_free j).2
      · rename_i same _ ne
        rw [same] at refusing
        exact absurd (AcceptorPc.refusing.inj refusing) ne
    · rename_i other
      exact absurd rfl (other j _ refusing)
  | threw => exact absurd rfl returns

/-- Settling one connection does not start turning another one away. -/
theorem settle_refusing_of {p : Program n} {i j : Nat} {pc : ConnectionPc}
    (refusing : (p.settle j pc).acceptor = .refusing i) : p.acceptor = .refusing i := by
  simp only [settle] at refusing
  split at refusing
  · split at refusing
    · exact absurd refusing (p.onward_free i).2
    · exact refusing
  · exact refusing

/-- What the accept loop and the pool do to the connections of others. -/
theorem Placed.congr {p p' : Program n} (h : Placed p) (connections : p'.connections = p.connections)
    (calls : ∀ j, p'.pool.enqueues j ≠ .idle → (∀ b, p'.pool.enqueues j ≠ .returned b) → p'.acceptor = .enqueuing j)
    (refusing : ∀ j, p'.acceptor = .refusing j → p.acceptor = .refusing j) : Placed p' where
  calls := calls
  refusing j same := by
    rw [connections]
    exact h.refusing j (refusing j same)
  threads threads j := by
    rw [connections]
    exact h.threads threads j
  parses j := by
    rw [connections]
    exact h.parses j

/-- One connection goes on. -/
theorem Placed.update {p p' : Program n} {j : Nat} {pc : ConnectionPc} (h : Placed p)
    (connections : p'.connections = Function.update p.connections j pc)
    (calls : ∀ j, p'.pool.enqueues j ≠ .idle → (∀ b, p'.pool.enqueues j ≠ .returned b) → p'.acceptor = .enqueuing j)
    (own : p'.acceptor = .refusing j → pc.refused = true)
    (others : ∀ x, x ≠ j → p'.acceptor = .refusing x → p.acceptor = .refusing x)
    (threads : n = 0 → pc ≠ .accepted) (parses : pc.Parses) : Placed p' where
  calls := calls
  refusing x same := by
    rw [connections]
    by_cases eq : x = j
    · subst eq
      rw [Function.update_self]
      exact own same
    · rw [Function.update_of_ne eq]
      exact h.refusing x (others x eq same)
  threads zero x := by
    rw [connections]
    by_cases eq : x = j
    · subst eq
      rw [Function.update_self]
      exact threads zero
    · rw [Function.update_of_ne eq]
      exact h.threads zero x
  parses x := by
    rw [connections]
    by_cases eq : x = j
    · subst eq
      rwa [Function.update_self]
    · rw [Function.update_of_ne eq]
      exact h.parses x

/-- A connection that moves on keeps the accept loop and the connections together. -/
theorem Placed.settle {p : Program n} {j : Nat} {pc : ConnectionPc} (h : Placed p)
    (within_ : p.acceptor = .refusing j → pc.Within true ∧ pc ≠ .threw) (begun : pc ≠ .accepted) (parses : pc.Parses) :
    Placed (p.settle j pc) := by
  refine h.update rfl (fun x called going => settle_enqueuing.2 (h.calls x called going)) (fun refusing => ?_)
    (fun x _ => settle_refusing_of) (fun _ => begun) parses
  obtain ⟨refuses, returns⟩ := within_ (settle_refusing_of refusing)
  exact settle_refused refuses returns refusing

/-- The accept loop turns away only a connection that has been refused. -/
theorem begun_refuses {p : Program n} {j : Nat} (placed : Placed p) (idle : (p.connections j).refused = false) :
    p.acceptor ≠ .refusing j := by
  intro refusing
  rw [placed.refusing j refusing] at idle
  cases idle

/-- A call that is under way is the one that moves. -/
theorem calls_enqueue {p : Program n} {pool : Pool n} {j : Nat} (h : Placed p)
    (stepped : Pool.EnqueueStep p.pool j pool) (calling : p.acceptor = .enqueuing j) {x : Nat}
    (called : pool.enqueues x ≠ .idle) (going : ∀ b, pool.enqueues x ≠ .returned b) : x = j := by
  by_contra ne
  rw [stepped.others ne] at called going
  cases calling.symm.trans (h.calls x called going)
  exact ne rfl

/-- Every step keeps them together. -/
theorem placed_step {cfg : Config} {p p' : Program n} {act : ProgramAct n} (inv : Placed p)
    (waits : ∀ i j, p.pool.workers i = .taken j → p.connections j = .accepted) (moves : Moves cfg p act p') :
    Placed p' := by
  cases moves with
  | leave | killed | stop => exact inv.congr rfl inv.calls fun _ => id
  | nobody acceptor =>
    refine inv.congr rfl (fun j called going => ?_) fun j refusing => absurd refusing (p.onward_free j).2
    cases acceptor.symm.trans (inv.calls j called going)
  | thread acceptor waiting threads =>
    refine inv.update rfl (fun j called going => ?_) (fun refusing => absurd refusing (p.onward_free _).2)
      (fun x _ refusing => absurd refusing (p.onward_free x).2) (fun _ => (ConnectionPc.start_within cfg).begun.2)
      (ConnectionPc.turn_parses _ _)
    cases acceptor.symm.trans (inv.calls j called going)
  | accept acceptor waiting pooled =>
    refine inv.update rfl (fun j called going => ?_) (fun refusing => by cases refusing)
      (fun x _ refusing => by cases refusing) (fun threads => absurd threads pooled) trivial
    cases acceptor.symm.trans (inv.calls j called going)
  | @begin_ i b now j pool stepped taken =>
    refine inv.update rfl ?_ (fun refusing => ?_) (fun x _ => id)
      (fun _ => (ConnectionPc.start_within cfg).begun.2) (ConnectionPc.turn_parses _ _)
    · rw [stepped.same.1]
      exact inv.calls
    · have free : p.acceptor ≠ .refusing j := begun_refuses inv (by rw [waits i j taken]; rfl)
      exact absurd refusing free
  | finish stepped | work stepped =>
    refine inv.congr rfl ?_ fun _ => id
    rw [stepped.same.1]
    exact inv.calls
  | shutdown stepped =>
    refine inv.congr rfl ?_ fun _ => id
    rw [stepped.same.1]
    exact inv.calls
  | @admitted j woken now pool stepped calling returned =>
    refine inv.congr rfl (fun x called going => ?_) fun x refusing => absurd refusing (p.onward_free x).2
    obtain rfl := calls_enqueue inv stepped calling called going
    exact absurd returned (going true)
  | @enqueue j woken now pool stepped calling going =>
    refine inv.congr rfl (fun x called going => ?_) fun _ => id
    obtain rfl := calls_enqueue inv stepped calling called going
    exact calling
  | @refused j woken now pool stepped calling returned =>
    refine inv.update rfl (fun x called going => ?_) (fun refusing => ?_) (fun x ne refusing => ?_)
      (fun _ => (ConnectionPc.refuse_within cfg now).begun.2) (ConnectionPc.writeAll_parses ..)
    · obtain rfl := calls_enqueue inv stepped calling called going
      exact absurd returned (going false)
    · exact settle_refused (ConnectionPc.refuse_within cfg now) (writeAll_ne_threw _ _ _ _ _ _) refusing
    · cases settle_refusing_of refusing
      exact absurd rfl ne
  | @recv j requestCount parser o now terminated conn =>
    have fed : parser.Fed := by
      have parses := inv.parses j
      rwa [conn] at parses
    have on : Placed (p.settle j (.afterRecv cfg now requestCount parser o)) := by
      refine inv.settle (fun refusing => ?_) (ConnectionPc.afterRecv_within ..).begun.2
        (ConnectionPc.afterRecv_parses fed o)
      exact absurd refusing (begun_refuses inv (by rw [conn]; rfl))
    exact on.congr rfl on.calls fun _ => id
  | @send j requestCount parser data written after o conn =>
    refine inv.settle (fun refusing => ?_) (ConnectionPc.afterSend_within ..).begun.2
      (ConnectionPc.afterSend_parses ..)
    have refused := inv.refusing j refusing
    rw [conn] at refused
    have within_ := ConnectionPc.afterSend_within cfg requestCount parser data written after o
    rw [show decide (after = .refused) = true from refused] at within_
    exact ⟨within_, afterSend_ne_threw _ _ _ _ _ _ _⟩

/-- So it is in every run. -/
theorem reach_placed {cfg : Config} {maxQueueSize : Nat} {p : Program n}
    (run : Reach (step cfg) (main n maxQueueSize) p) : Placed p := by
  refine run.invariant_with (J := fun p => ∀ i j, p.pool.workers i = .taken j → p.connections j = .accepted)
    (I := Placed) (fun p run i j taken => ?_) ⟨?_, ?_, ?_, ?_⟩ ?_
  · exact (reach_held i.pos run j).waits (.inr ⟨i, taken⟩)
  · intro j called
    exact absurd rfl called
  · intro j refusing
    cases refusing
  · intro _ j accepted
    cases accepted
  · exact fun _ => trivial
  · intro p act p' waits inv _ took
    exact placed_step inv waits (step_moves took)

/-- Who has not been accepted has not been enqueued. -/
theorem reach_fresh {cfg : Config} {maxQueueSize : Nat} {p : Program n}
    (run : Reach (step cfg) (main n maxQueueSize) p) {j : Nat} (waiting : p.connections j = .waiting) :
    p.pool.enqueues j = .idle := by
  rcases Nat.eq_zero_or_pos n with threads | pooled
  · exact (reach_direct threads run).enqueues j
  · exact (reach_held pooled run j).fresh waiting

/-! ## Some step is left -/

/-- A step of a program that is not stopped and whose only clients are those in `S`, which may come, leave and send
what they like. No `accept` fails, and no `stop()` or `shutdown` is called. The calls on sockets come to an end
without an interruption, and a `send` that does not fail takes something. -/
def Orderly (S : Finset Nat) (p : Program n) : ProgramAct n → Prop
  | .leave j => j ∈ S
  | .accept client => ∃ j ∈ S, client = some j
  | .pool a _ => Pool.Undisturbed S ∅ p.pool a
  | .recv _ o _ => o ≠ .interrupted
  | .send _ o => o ≠ .interrupted ∧ o ≠ .sent 0
  | .stop => False

/-- Whoever has been accepted has been dealt with, and the accept loop is free: at `accept`, or ended. -/
structure Attended (p : Program n) : Prop where
  closed : ∀ j, (p.connections j).open_ = false
  free : ∀ j, p.acceptor ≠ .enqueuing j ∧ p.acceptor ≠ .refusing j
  rested : Pool.Rested p.pool

/-- A step that can be taken. -/
def Ready (cfg : Config) (S : Finset Nat) (p : Program n) : Prop :=
  ∃ act p', Orderly S p act ∧ p.step cfg act = some p'

variable {cfg : Config} {S : Finset Nat} {p p' : Program n}

/-- An enabled orderly step. -/
theorem ready_of (act : ProgramAct n) (ok : Orderly S p act) (enabled : p.step cfg act ≠ none) :
    Ready cfg S p := by
  obtain ⟨p', took⟩ := Option.ne_none_iff_exists'.1 enabled
  exact ⟨act, p', ok, took⟩

theorem recv_eq (alive : p.terminated = false) (j : Nat) (o : RecvOutcome) (now : Moment) :
    p.step cfg (.recv j o now) = p.recvStep cfg j o now := by simp [step, alive]

theorem send_eq (alive : p.terminated = false) (j : Nat) (o : SendOutcome) :
    p.step cfg (.send j o) = p.sendStep cfg j o := by simp [step, alive]

theorem pool_eq (alive : p.terminated = false) (a : Pool.Action n) (now : Moment) :
    p.step cfg (.pool a now) = p.poolStep cfg now a := by simp [step, alive]

/-- A connection that is read from or written to. -/
theorem ready_conn (alive : p.terminated = false) {j : Nat}
    (busy : (p.connections j).served = true ∨ (p.connections j).refused = true) : Ready cfg S p := by
  cases conn : p.connections j with
  | reading requestCount parser =>
    refine ready_of (.recv j .failed ⟨.still, fun _ => none⟩) (fun same => by cases same) ?_
    simp [recv_eq alive, recvStep, conn]
  | writing requestCount parser data written after =>
    refine ready_of (.send j (if p.gone j then .broken else .failed)) ?_ ?_
    · cases p.gone j <;> exact ⟨by decide, by decide⟩
    · rw [send_eq alive]
      cases gone : p.gone j with
      | false => simp [sendStep, conn, gone]
      | true =>
        simp only [sendStep, conn, gone, if_true, decide_true, true_and]
        split <;> exact Option.some_ne_none _
  | waiting | accepted | closed | threw => simp [conn, ConnectionPc.served, ConnectionPc.refused] at busy

/-- A step of the pool, when no connection is read from or written to. -/
theorem ready_pool (alive : p.terminated = false) (placed : Placed p)
    (begun : ∀ i j, p.pool.workers i = .running j → p.connections j ≠ .waiting ∧ p.connections j ≠ .accepted)
    (quiet : ∀ j, (p.connections j).served = false ∧ (p.connections j).refused = false) {a : Pool.Action n}
    {t : Pool n} (ok : Pool.Undisturbed S ∅ p.pool a)
    (called : ∀ j woken, a = .enqueue j woken → p.pool.enqueues j ≠ .idle)
    (took : p.pool.step a = some t) : Ready cfg S p := by
  cases a with
  | worker i threw =>
    by_cases running : ∃ j, p.pool.workers i = .running j
    · obtain ⟨j, running⟩ := running
      obtain ⟨waiting, accepted⟩ := begun i j running
      obtain ⟨served, refused⟩ := quiet j
      cases conn : p.connections j with
      | closed r =>
        refine ready_of (.pool (.worker i false) ⟨.still, fun _ => none⟩) ok ?_
        simp [pool_eq alive, poolStep, Pool.workerStep, running, conn]
      | threw =>
        refine ready_of (.pool (.worker i true) ⟨.still, fun _ => none⟩) ok ?_
        simp [pool_eq alive, poolStep, Pool.workerStep, running, conn]
      | waiting => exact absurd conn waiting
      | accepted => exact absurd conn accepted
      | reading => simp [conn, ConnectionPc.served] at served
      | writing requestCount parser data written after =>
        rw [conn] at served refused
        exact absurd (of_decide_eq_false refused) (of_decide_eq_false served)
    · refine ready_of (.pool (.worker i threw) ⟨.still, fun _ => none⟩) ok ?_
      have worked : p.pool.workerStep i threw = some t := took
      simp only [pool_eq alive, poolStep, worked, Option.bind_some]
      split
      · exact Option.some_ne_none _
      · rename_i j running'
        exact absurd ⟨j, running'⟩ running
      · exact Option.some_ne_none _
  | enqueue j woken =>
    have calls : p.pool.enqueueStep j woken = some t := took
    have mine : p.acceptor = .enqueuing j :=
      placed.calls j (called j woken rfl) (open_enqueue (Pool.enqueueStep_cases calls))
    refine ready_of (.pool (.enqueue j woken) ⟨.still, fun _ => none⟩) ok ?_
    simp [pool_eq alive, poolStep, mine, calls]
  | shutdown k => exact absurd ok.1 (Finset.notMem_empty k)

/-- The queue of a pool that has come to rest is empty, and no worker is about to begin a task. -/
theorem settled_waits {s : Pool n} (ledger : Pool.Ledger s) (settled : Pool.Settled s) (pooled : 0 < n)
    (running : s.stop = false) (j : Nat) : ¬ s.Waits j := by
  intro waits
  have pushed : (s.enqueues j).pushed = true := by
    by_contra none_
    exact (ledger.nowhere (Bool.eq_false_of_not_eq_true none_)).1 waits
  have once := settled.executed pooled running j (settled.returned pushed)
  exact ledger.begun (.inr (List.count_pos_iff.1 (by omega))) waits

/-- Where the pool has come to rest and no connection is read from or written to, the accept loop calls `enqueue`, or
everybody is attended to. -/
theorem attended_or_ready {maxQueueSize : Nat} (run : Reach (step cfg) (main n maxQueueSize) p)
    (alive : p.terminated = false) (running : p.pool.stop = false)
    (confined : ∀ j, j ∉ S → p.connections j = .waiting) : Attended p ∨ Ready cfg S p := by
  have placed := reach_placed run
  have pool := reach_pool run
  have ledger := Pool.reach_ledger pool
  by_cases busy : ∃ j, (p.connections j).served = true ∨ (p.connections j).refused = true
  · obtain ⟨j, busy⟩ := busy
    exact .inr (ready_conn alive busy)
  have quiet (j : Nat) : (p.connections j).served = false ∧ (p.connections j).refused = false := by
    have none_ := not_exists.1 busy j
    rw [not_or] at none_
    exact ⟨Bool.eq_false_of_not_eq_true none_.1, Bool.eq_false_of_not_eq_true none_.2⟩
  have member {j : Nat} (begun : p.connections j ≠ .waiting) : j ∈ S := by
    by_contra other
    exact begun (confined j other)
  -- The calls that have been made are those of the accept loop, so the pool can only wait for them.
  have known : Pool.Known (S.filter fun j => p.pool.enqueues j ≠ .idle) ∅ p.pool := by
    refine Pool.known_run (Pool.reach_heard pool running) ⟨fun j other => ?_, fun k _ => ?_⟩
    · by_contra called
      refine other (Finset.mem_filter.2 ⟨member fun waiting => ?_, called⟩)
      exact called (reach_fresh run waiting)
    · by_contra called
      cases running.symm.trans ((Pool.reach_stopFirst pool).called k called)
  rcases Pool.settled_or_ready known with settled | ⟨a, t, ok, took⟩
  case inr =>
    refine .inr (ready_pool alive placed (fun i j running => ?_) quiet (a := a) (t := t) ?_ ?_ took)
    · exact (reach_held i.pos run j).begun (.inl ⟨i, running⟩)
    · cases a with
      | worker i threw => exact ok
      | enqueue j woken => exact (Finset.mem_filter.1 ok).1
      | shutdown k => exact ok
    · rintro j woken rfl
      exact (Finset.mem_filter.1 ok).2
  by_cases calling : ∃ j, p.acceptor = .enqueuing j
  · obtain ⟨j, calling⟩ := calling
    have pooled : 0 < n := by
      by_contra threads
      exact (reach_direct (Nat.eq_zero_of_not_pos threads) run).acceptor j calling
    have held := reach_held pooled run j
    have idle : p.pool.enqueues j = .idle := by
      rcases settled.enqueues j with idle | ⟨b, returned⟩
      · exact idle
      · exact absurd returned ((held.calling calling).1 b)
    refine .inr (ready_of (.pool (.enqueue j none) ⟨.still, fun _ => none⟩) (member ?_) ?_)
    · exact held.called ledger calling
    · simp [pool_eq alive, poolStep, calling, Pool.enqueueStep, idle]
  · have free (j : Nat) : p.acceptor ≠ .enqueuing j ∧ p.acceptor ≠ .refusing j :=
      ⟨not_exists.1 calling j, begun_refuses placed (quiet j).2⟩
    refine .inl ⟨fun j => ?_, free, ?_⟩
    · rw [← Bool.not_eq_true]
      intro open_
      rcases ConnectionPc.open_cases open_ with accepted | served | refused
      · rcases Nat.eq_zero_or_pos n with threads | pooled
        · exact placed.threads threads j accepted
        · rcases (reach_held pooled run j).accepted accepted with enqueuing | waits
          · exact (free j).1 enqueuing
          · exact settled_waits ledger settled pooled running j waits
      · cases (quiet j).1.symm.trans served
      · cases (quiet j).2.symm.trans refused
    · rcases Nat.eq_zero_or_pos n with threads | pooled
      · refine ⟨settled.enqueues, fun j mem => ?_⟩
        have pushed := ledger.pushed mem
        rw [(reach_direct threads run).enqueues j] at pushed
        cases pushed
      · exact settled.rested ledger pooled running

/-! ## Every step is a step ahead -/

/-- What is left to do beside the loops that are still to come: in the loops, in the pool and by the clients. -/
def rest (S : Finset Nat) (p : Program n) : Nat :=
  (∑ j ∈ S, (p.connections j).bytes) + p.pool.rank S ∅ + (∑ j ∈ S, (!p.gone j).toNat) + (!p.terminated).toNat

def rank (cfg : Config) (S : Finset Nat) (p : Program n) : Nat ×ₗ Nat :=
  toLex (∑ j ∈ S, (p.connections j).stages cfg, p.rest S)

/-- The pool is not stopped, and nobody else has come. -/
structure Watched (S : Finset Nat) (p : Program n) : Prop where
  running : p.pool.stop = false
  confined : ∀ j, j ∉ S → p.connections j = .waiting

/-- A step of one of the clients' connections. -/
theorem Watched.update (inv : Watched S p) {j : Nat} {pc : ConnectionPc} (mem : j ∈ S)
    (connections : p'.connections = Function.update p.connections j pc) (stop : p'.pool.stop = p.pool.stop) :
    Watched S p' where
  running := stop.trans inv.running
  confined x other := by
    have ne : x ≠ j := by
      rintro rfl
      exact other mem
    rw [connections, Function.update_of_ne ne]
    exact inv.confined x other

/-- A connection that has a stage less outweighs the rest of the program. -/
theorem rank_stages {j : Nat} {pc : ConnectionPc} (mem : j ∈ S)
    (connections : p'.connections = Function.update p.connections j pc)
    (less : pc.stages cfg < (p.connections j).stages cfg) : p'.rank cfg S < p.rank cfg S := by
  have sums := sum_update_on mem (ConnectionPc.stages cfg) p.connections pc
  rw [← connections] at sums
  exact Prod.Lex.toLex_lt_toLex.2 (.inl (by omega))

/-- Where no connection moves, the rest counts. -/
theorem rank_rest (connections : p'.connections = p.connections) (less : p'.rest S < p.rest S) :
    p'.rank cfg S < p.rank cfg S :=
  Prod.Lex.toLex_lt_toLex.2 (.inr ⟨by rw [connections], less⟩)

/-- A `recv` or a `send` leaves less to do on its own connection and does not touch the rest. -/
theorem rank_left {j : Nat} {pc : ConnectionPc} (mem : j ∈ S)
    (connections : p'.connections = Function.update p.connections j pc)
    (less : pc.left cfg < (p.connections j).left cfg) (pool : p'.pool = p.pool) (gone : p'.gone = p.gone)
    (alive : p.terminated = false) : p'.rank cfg S < p.rank cfg S := by
  rcases ConnectionPc.left_lt.1 less with stage | ⟨same, fewer⟩
  · exact rank_stages mem connections stage
  · have stages := sum_update_on mem (ConnectionPc.stages cfg) p.connections pc
    have bytes := sum_update_on mem ConnectionPc.bytes p.connections pc
    rw [← connections] at stages bytes
    refine Prod.Lex.toLex_lt_toLex.2 (.inr ⟨by omega, ?_⟩)
    have most := Bool.toNat_le (!p'.terminated)
    simp only [rest, pool, gone, alive, Bool.not_false, Bool.toNat_true]
    omega

/-- A step inside the pool counts by the rank of the pool. -/
theorem rank_pool (connections : p'.connections = p.connections) (gone : p'.gone = p.gone)
    (terminated : p'.terminated = p.terminated) (less : p'.pool.rank S ∅ < p.pool.rank S ∅) :
    p'.rank cfg S < p.rank cfg S := by
  refine rank_rest connections ?_
  simp only [rest, connections, gone, terminated]
  omega

/-- Every orderly step leaves the program watched, and lowers the rank. -/
theorem orderly_step {maxQueueSize : Nat} {act : ProgramAct n} (run : Reach (step cfg) (main n maxQueueSize) p)
    (inv : Watched S p) (ok : Orderly S p act) (took : p.step cfg act = some p') :
    Watched S p' ∧ p'.rank cfg S < p.rank cfg S := by
  have alive := step_alive took
  have informed := Pool.reach_informed (reach_pool run)
  have placed := reach_placed run
  have member {j : Nat} (begun : p.connections j ≠ .waiting) : j ∈ S := by
    by_contra other
    exact begun (inv.confined j other)
  have lowers (a : Pool.Action n) (now : Moment) (here : act = .pool a now) :
      p'.pool.rank S ∅ < p.pool.rank S ∅ := by
    subst here
    rw [pool_eq alive] at took
    exact Pool.rank_step informed ok (poolStep_pool took)
  have present (j : Nat) (here : act = .leave j) : p.gone j = false := by
    rw [here] at took
    by_contra gone
    simp [step, alive, gone] at took
  cases step_moves took with
  | @leave j =>
    refine ⟨⟨inv.running, inv.confined⟩, rank_rest rfl ?_⟩
    have sums := sum_update_on (i := j) (S := S) ok (fun b => (!b).toNat) p.gone true
    simp only [present j rfl, Bool.not_false, Bool.not_true, Bool.toNat_true, Bool.toNat_false] at sums
    simp only [rest]
    omega
  | nobody => obtain ⟨j, -, none_⟩ := ok; cases none_
  | @thread j acceptor waiting threads =>
    obtain ⟨_, mem, ⟨⟩⟩ := ok
    refine ⟨inv.update mem rfl rfl, rank_stages mem rfl ?_⟩
    rw [waiting]
    exact ConnectionPc.start_stages.trans (Nat.lt_succ_self _)
  | @accept j acceptor waiting pooled =>
    obtain ⟨_, mem, ⟨⟩⟩ := ok
    refine ⟨inv.update mem rfl rfl, rank_stages mem rfl ?_⟩
    rw [waiting]
    exact Nat.lt_succ_self _
  | @begin_ i b now j pool stepped taken =>
    have accepted := (reach_held i.pos run j).waits (.inr ⟨i, taken⟩)
    have mem : j ∈ S := member (by simp [accepted])
    refine ⟨inv.update mem rfl stepped.same.2.2.2.1, rank_stages mem rfl ?_⟩
    rw [accepted]
    exact ConnectionPc.start_stages
  | @finish i b now j pool stepped | @work i b now pool stepped =>
    exact ⟨⟨stepped.same.2.2.2.1.trans inv.running, inv.confined⟩, rank_pool rfl rfl rfl (lowers _ _ rfl)⟩
  | @admitted j woken now pool stepped | @enqueue j woken now pool stepped =>
    exact ⟨⟨stepped.same.2.2.1.trans inv.running, inv.confined⟩, rank_pool rfl rfl rfl (lowers _ _ rfl)⟩
  | @refused j woken now pool stepped calling returned =>
    have accepted : p.connections j = .accepted :=
      (reach_known run).calling j calling (refused_unpushed stepped returned)
    have mem : j ∈ S := member (by simp [accepted])
    refine ⟨inv.update mem rfl stepped.same.2.2.1, rank_stages mem rfl ?_⟩
    rw [accepted]
    exact ConnectionPc.refuse_stages now
  | shutdown => exact absurd ok.1 (Finset.notMem_empty _)
  | @recv j requestCount parser o now terminated conn =>
    have mem : j ∈ S := member (by simp [conn])
    have fed : parser.Fed := by
      have parses := placed.parses j
      rwa [conn] at parses
    refine ⟨inv.update mem rfl rfl, rank_left mem rfl ?_ rfl rfl alive⟩
    rw [conn]
    exact ConnectionPc.afterRecv_left fed ok
  | killed =>
    refine ⟨⟨inv.running, inv.confined⟩, rank_rest rfl ?_⟩
    simp only [rest, alive]
    simp
  | @send j requestCount parser data written after o conn =>
    have mem : j ∈ S := member (by simp [conn])
    refine ⟨inv.update mem rfl rfl, rank_left mem rfl ?_ rfl rfl alive⟩
    rw [conn]
    exact ConnectionPc.afterSend_left ok
  | stop => exact ok.elim

/-- Orderly runs, some of them at least, come to an end. -/
theorem inevitably_attended {maxQueueSize : Nat} {allowed : Program n → ProgramAct n → Prop}
    (orderly : ∀ p act, allowed p act → Orderly S p act)
    (choice : ∀ p, Ready cfg S p → ∃ act p', allowed p act ∧ p.step cfg act = some p')
    (run : Reach (step cfg) (main n maxQueueSize) p) (watched : Watched S p) :
    Inevitable (step cfg) allowed (fun p => p.terminated = true ∨ Attended p) p := by
  refine Inevitable.of_wellFounded (I := fun p => Reach (step cfg) (main n maxQueueSize) p ∧ Watched S p)
    (r := (· < ·)) wellFounded_lt (rank cfg S) ?_ ?_ ⟨run, watched⟩
  · rintro p ⟨run, running, confined⟩
    cases alive : p.terminated with
    | true => exact .inl (.inl rfl)
    | false => exact (attended_or_ready run alive running confined).imp .inr (choice p)
  · rintro p act p' ⟨run, inv⟩ - ok took
    obtain ⟨inv', less⟩ := orderly_step run inv (orderly p act ok) took
    exact ⟨⟨run.next trivial took, inv'⟩, less⟩

/-- **Every client is attended to**, in either mode and whatever the scheduler does: from any state in which the pool
is not stopped, orderly steps come to close every connection that has been accepted, with every task run and the
accept loop back at `accept`, or ended, unless SIGPIPE or an exception ends the process before. -/
theorem attended {maxQueueSize : Nat} (run : Reach (step cfg) (main n maxQueueSize) p)
    (running : p.pool.stop = false) (confined : ∀ j, j ∉ S → p.connections j = .waiting) :
    Inevitable (step cfg) (Orderly S) (fun p => p.terminated = true ∨ Attended p) p :=
  inevitably_attended (fun _ _ => id) (fun _ => id) run ⟨running, confined⟩

instance (S : Finset Nat) (p : Program n) : (act : ProgramAct n) → Decidable (Orderly S p act)
  | .leave j => inferInstanceAs (Decidable (j ∈ S))
  | .accept client => inferInstanceAs (Decidable (∃ j ∈ S, client = some j))
  | .pool (.worker i _) _ => inferInstanceAs (Decidable (p.pool.workers i ≠ .blocked))
  | .pool (.enqueue j _) _ => inferInstanceAs (Decidable (j ∈ S))
  | .pool (.shutdown k) _ =>
    inferInstanceAs (Decidable (k ∈ (∅ : Finset Nat) ∧
      (p.pool.shutdowns k = .notifying → ∀ i, p.pool.workers i ≠ .parking)))
  | .recv _ o _ => inferInstanceAs (Decidable (o ≠ .interrupted))
  | .send _ o => inferInstanceAs (Decidable (o ≠ .interrupted ∧ o ≠ .sent 0))
  | .stop => inferInstanceAs (Decidable False)

/-- Whoever has only come to an orderly program. -/
theorem orderly_watched {maxQueueSize : Nat} (run : Run (step cfg) (Orderly S) (main n maxQueueSize) p) :
    Watched S p := by
  refine run.invariant_with (I := Watched S) (fun _ run => run.reach) ⟨rfl, fun _ _ => rfl⟩ ?_
  intro p act p' run inv ok took
  exact (orderly_step run inv ok took).1

set_option maxRecDepth 4000 in
/-- One client is served by the worker while another one is turned away, and both are attended to. -/
theorem attended_two : ∃ p : Program 1, (p.connections 0).served = true ∧ (p.connections 1).refused = true ∧
    Inevitable (step {}) (Orderly {0, 1}) (fun p => p.terminated = true ∨ Attended p) p := by
  obtain ⟨p, ran, served, refused⟩ : ∃ p : Program 1,
      exec (step {}) (fun p act => decide (Orderly {0, 1} p act)) (main 1 1) (twoClients 0 ⟨.still, fun _ => none⟩) =
        some p ∧ (p.connections 0).served = true ∧ (p.connections 1).refused = true := ⟨_, rfl, rfl, rfl⟩
  have run : Run (step {}) (Orderly {0, 1}) (main 1 1) p := (exec_run ran).mono fun _ _ => of_decide_eq_true
  have watched := orderly_watched run
  exact ⟨p, served, refused, attended run.reach watched.running watched.confined⟩

/-! ## Everybody gets an answer -/

/-- Whatever is handled is noted. -/
def Recorded (s : Program n × Notes) : Prop :=
  ∀ j, s.1.connections j ≠ .waiting → s.1.connections j ≠ .accepted → ∃ m, s.2 j = some m

/-- A step that is noted about the connection that it changes. -/
theorem Recorded.update {notes notes' : Notes} {j : Nat} {pc : ConnectionPc} (inv : Recorded (p, notes))
    (connections : p'.connections = Function.update p.connections j pc) (own : ∃ m, notes' j = some m)
    (same : ∀ x, x ≠ j → notes' x = notes x) : Recorded (p', notes') := by
  intro x waiting accepted
  by_cases eq : x = j
  · subst eq
    exact own
  · change p'.connections x ≠ _ at waiting accepted
    rw [connections, Function.update_of_ne eq] at waiting accepted
    change ∃ m, notes' x = some m
    rw [same x eq]
    exact inv x waiting accepted

theorem amend_recorded {notes : Notes} {j : Nat} {m : Minutes} (known : notes j = some m) (a b : List Event)
    (x y : Bool) : ∃ m', ((notes.amend j a x).amend j b y) j = some m' := by
  rw [amend_twice, known]
  exact ⟨_, rfl⟩

/-- Whatever is handled has its notes. -/
theorem recorded_step {act : ProgramAct n} {notes : Notes} (alive : p.terminated = false)
    (inv : Recorded (p, notes)) (moves : Moves cfg p act p') : Recorded (p', note p act p' notes) := by
  cases moves with
  | leave | stop | nobody | shutdown => exact inv
  | killed =>
    rw [note_killed notes rfl]
    exact inv
  | finish stepped running =>
    rw [note_work notes (by simp [running])]
    exact inv
  | work stepped free =>
    rw [note_work notes fun j => (free j).1]
    exact inv
  | admitted stepped calling returned =>
    rw [note_enqueue notes (by simp [returned])]
    exact inv
  | enqueue stepped calling going =>
    rw [note_enqueue notes (going false)]
    exact inv
  | @accept j acceptor waiting pooled =>
    simp only [note, if_neg pooled]
    intro x fresh accepted
    change Function.update p.connections j .accepted x ≠ _ at fresh accepted
    have ne : x ≠ j := by
      rintro rfl
      rw [Function.update_self] at accepted
      exact accepted rfl
    rw [Function.update_of_ne ne] at fresh accepted
    exact inv x fresh accepted
  | @thread j acceptor waiting threads =>
    simp only [note, if_pos threads]
    exact inv.update rfl ⟨_, Function.update_self ..⟩ fun x ne => Function.update_of_ne ne _ _
  | @begin_ i b now j pool stepped taken =>
    rw [note_begin notes taken]
    exact inv.update rfl ⟨_, Function.update_self ..⟩ fun x ne => Function.update_of_ne ne _ _
  | @refused j woken now pool stepped calling returned =>
    rw [note_refused notes returned]
    exact inv.update rfl ⟨_, Function.update_self ..⟩ fun x ne => Function.update_of_ne ne _ _
  | @recv j requestCount parser o now terminated conn =>
    obtain ⟨m, known⟩ := inv j (by simp [conn]) (by simp [conn])
    exact inv.update rfl (amend_recorded known _ _ _ _) fun x ne => (amend_other ne _ _).trans (amend_other ne _ _)
  | @send j requestCount parser data written after o conn =>
    have survives : (p.settle j (.afterSend cfg requestCount parser data written after o)).terminated = false := alive
    obtain ⟨m, known⟩ := inv j (by simp [conn]) (by simp [conn])
    rw [note_send notes conn survives]
    exact inv.update rfl (amend_recorded known _ _ _ _) fun x ne => (amend_other ne _ _).trans (amend_other ne _ _)

section

variable {P : Policy} {maxQueueSize : Nat}

/-- So it is in every run. -/
theorem serving_recorded {s : Program n × Notes} (run : Serving P n maxQueueSize s) : Recorded s := by
  refine run.invariant (I := Recorded) (fun j waiting => absurd rfl waiting) ?_
  rintro ⟨p, notes⟩ act ⟨p', notes'⟩ inv _ took
  obtain ⟨stepped, same⟩ := noted_eq_some.1 took
  dsimp only at stepped same
  subst same
  exact recorded_step (step_alive stepped) inv (step_moves stepped)

/-- The router of a policy throws nothing. -/
theorem serving_returns {s : Program n × Notes} (run : Serving P n maxQueueSize s) (j : Nat) :
    s.1.connections j ≠ .threw := by
  revert j
  refine run.invariant (I := fun s => ∀ j, s.1.connections j ≠ .threw) (fun _ threw => by cases threw) ?_
  rintro ⟨p, notes⟩ act ⟨p', notes'⟩ inv fixed took x
  have stepped := (noted_eq_some.1 took).1
  dsimp only at stepped inv ⊢
  have updated {j : Nat} {pc : ConnectionPc} (returns : pc ≠ .threw) :
      Function.update p.connections j pc x ≠ .threw := by
    by_cases eq : x = j
    · subst eq
      rwa [Function.update_self]
    · rw [Function.update_of_ne eq]
      exact inv x
  cases step_moves stepped with
  | leave | nobody | finish | work | admitted | enqueue | shutdown | killed | stop => exact inv x
  | thread | begin_ => exact updated (turn_ne_threw _ _ _)
  | accept => exact updated fun threw => by cases threw
  | refused => exact updated (writeAll_ne_threw _ _ _ _ _ _)
  | @recv j requestCount parser o now =>
    refine updated fun threw => ?_
    obtain ⟨c, -, -, -, none_⟩ := afterRecv_threw.1 threw
    rw [show now = P.server.moment from fixed] at none_
    cases none_
  | send => exact updated (afterSend_ne_threw _ _ _ _ _ _ _)

/-- The connection is closed, and what the client has got is all that is meant for it, unless its socket has
failed. -/
structure Answered (P : Policy) (p : Program n) (j : Nat) (m : Minutes) : Prop where
  closed : ∃ result, p.connections j = .closed result
  served : p.pool.enqueues j ≠ .returned false → m.broken = false →
    bytesSent m.log = bytesSent (P.server.handleConnection ((arrived m.log).map .data) []) ∧
      visible m.log = visible (P.server.handleConnection ((arrived m.log).map .data) [])
  refused : p.pool.enqueues j = .returned false → arrived m.log = [] ∧ (m.broken = false → bytesSent m.log = P.busy)

/-- At the end each client that was accepted has its answer. -/
theorem attended_answered {notes : Notes} (limit : 1 ≤ P.limit) (run : Serving P n maxQueueSize (p, notes))
    (done : Attended p) {j : Nat} (begun : p.connections j ≠ .waiting) :
    ∃ m, notes j = some m ∧ Answered P p j m := by
  have closed_ := done.closed j
  have closed : ∃ result, p.connections j = .closed result := by
    cases conn : p.connections j with
    | closed result => exact ⟨result, rfl⟩
    | waiting => exact absurd conn begun
    | threw => exact absurd conn (serving_returns run j)
    | accepted | reading | writing =>
      rw [conn] at closed_
      cases closed_
  obtain ⟨result, conn⟩ := closed
  obtain ⟨m, known⟩ := serving_recorded run j begun (by simp [conn])
  refine ⟨m, known, ⟨result, conn⟩, fun served healthy => ?_, fun refused => ?_⟩
  · exact (serving_matches limit run known served).settled healthy (.inr (by rw [conn]; rfl))
  · have sends := serving_sends limit run known refused
    exact ⟨sends.silent, fun healthy => sends.whole healthy conn⟩

/-- A step can be taken at the policy's moment too. -/
theorem fixed_enabled {act : ProgramAct n} (enabled : p.step P.server.config act ≠ none) :
    p.step P.server.config (fixed P act) ≠ none := by
  have alive : p.terminated = false := by
    obtain ⟨p', took⟩ := Option.ne_none_iff_exists'.1 enabled
    exact step_alive took
  cases act with
  | pool a now =>
    rw [pool_eq alive] at enabled
    change p.step P.server.config (.pool a P.server.moment) ≠ none
    rw [pool_eq alive]
    cases a with
    | enqueue j woken =>
      simp only [poolStep] at enabled ⊢
      split at enabled
      · rename_i calling
        rw [ne_eq, Option.map_eq_none_iff] at enabled
        rw [if_pos calling, ne_eq, Option.map_eq_none_iff]
        exact enabled
      · exact absurd rfl enabled
    | worker | shutdown => exact enabled
  | recv j o now =>
    rw [recv_eq alive] at enabled
    change p.step P.server.config (.recv j o P.server.moment) ≠ none
    rw [recv_eq alive]
    simp only [recvStep] at enabled ⊢
    split at enabled
    · exact Option.some_ne_none _
    · exact absurd rfl enabled
  | leave | accept | send | stop => exact enabled

/-- Putting in the policy's moment leaves a step orderly. -/
theorem fixed_orderly {act : ProgramAct n} (ok : Orderly S p act) : Orderly S p (fixed P act) := by
  cases act <;> exact ok

/-- **Everybody gets an answer** in the end: whoever is served gets all that `handle_connection` alone would send for
the same chunks, and whoever is turned away gets the whole 503. -/
theorem all_answered (limit : 1 ≤ P.limit) {notes : Notes} (run : Serving P n maxQueueSize (p, notes))
    (running : p.pool.stop = false) (confined : ∀ j, j ∉ S → p.connections j = .waiting) :
    Inevitable (noted (step P.server.config) note) (fun s act => Orderly S s.1 act ∧ Fixed P act)
      (fun s => s.1.terminated = true ∨
        Attended s.1 ∧ ∀ j, s.1.connections j ≠ .waiting → ∃ m, s.2 j = some m ∧ Answered P s.1 j m)
      (p, notes) := by
  have plain : Inevitable (step P.server.config) (fun p act => Orderly S p act ∧ Fixed P act)
      (fun p => p.terminated = true ∨ Attended p) p := by
    refine inevitably_attended (fun _ _ => And.left) ?_ (serving_reach run) ⟨running, confined⟩
    rintro p ⟨act, p', ok, took⟩
    have enabled : p.step P.server.config act ≠ none := by
      rw [took]
      exact Option.some_ne_none _
    obtain ⟨p'', took'⟩ := Option.ne_none_iff_exists'.1 (fixed_enabled (P := P) enabled)
    exact ⟨fixed P act, p'', ⟨fixed_orderly ok, fixed_fixed P act⟩, took'⟩
  refine (plain.noted notes).weaken ?_
  rintro ⟨p', notes'⟩ later (ended | done)
  · exact .inl ended
  · have whole : Serving P n maxQueueSize (p', notes') := run.trans (later.mono fun _ _ => And.right)
    exact .inr ⟨done, fun j => attended_answered limit whole done⟩

end

set_option maxRecDepth 4000 in
theorem all_answered_two : ∃ (p : Program 1) (notes : Notes), (p.connections 0).served = true ∧
    (p.connections 1).refused = true ∧
    Inevitable (noted (step (greeting 2).server.config) note)
      (fun s act => Orderly {0, 1} s.1 act ∧ Fixed (greeting 2) act)
      (fun s => s.1.terminated = true ∨ Attended s.1 ∧
        ∀ j, s.1.connections j ≠ .waiting → ∃ m, s.2 j = some m ∧ Answered (greeting 2) s.1 j m) (p, notes) := by
  obtain ⟨⟨p, notes⟩, ran, served, refused⟩ : ∃ s,
      exec (fun s act => noted (step (greeting 2).server.config) note s (fixed (greeting 2) act))
        (fun s act => decide (Orderly {0, 1} s.1 (fixed (greeting 2) act))) (main 1 1, fun _ => none)
        (twoClients 0 ⟨.still, fun _ => none⟩) = some s ∧
      (s.1.connections 0).served = true ∧ (s.1.connections 1).refused = true := ⟨_, rfl, rfl, rfl⟩
  have run : Run (noted (step (greeting 2).server.config) note)
      (fun s act => Orderly {0, 1} s.1 act ∧ Fixed (greeting 2) act) (main 1 1, fun _ => none) (p, notes) :=
    (exec_run ran).simulate (f := id) (g := fun _ act => fixed (greeting 2) act) fun _ _ _ ok took =>
      ⟨⟨of_decide_eq_true ok, fixed_fixed _ _⟩, took⟩
  have orderly : Run (step (greeting 2).server.config) (Orderly {0, 1}) (main 1 1) p :=
    (run.mono fun _ _ => And.left).forget
  have watched := orderly_watched orderly
  have serving : Serving (greeting 2) 1 1 (p, notes) := run.mono fun _ _ => And.right
  exact ⟨p, notes, served, refused, all_answered (by decide) serving watched.running watched.confined⟩

end Program

end HttpServer
