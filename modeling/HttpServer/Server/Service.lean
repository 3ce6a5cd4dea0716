import HttpServer.Server.Admission
import HttpServer.Server.Dialogue
import HttpServer.Server.Threads

/-!
# Many clients and many threads

The program serves each client as if it were the only one, whatever the
scheduler does with the accept loop, the workers and the other clients. A
connection for which `enqueue` returns false gets a part of the 503 and is not
read from; any other one is a dialogue of its own (`served_or_refused`).
-/

namespace HttpServer

open Runs

/-- The text of the 503. -/
def Policy.busy (P : Policy) : Bytes :=
  serialize P.platform 0 { Response.makeResponse .serviceUnavailable with keepAlive := false }

/-- The response behind the one that is written. -/
def AfterWrite.next (P : Policy) (served : Nat) : AfterWrite → Option Nat
  | .responded keepAlive => if keepAlive = true ∧ (served + 1 : Int) < P.limit then some (served + 1) else none
  | .refused | .malformed => none

/-- The stage when a connection that is to be closed has been. -/
def Stage.settled : Stage → Stage
  | .ending => .ended
  | s => s

def Stage.closing : Stage → List Event
  | .ending => [.closed]
  | _ => []

/-- The close that a stage asks for is a turn of the dialogue, or none. -/
theorem Minutes.closes (P : Policy) (m : Minutes) (s : Stage) :
    Reach (Dialogue.step P) (m.dialogue s) ((m.add s.closing false).dialogue s.settled) := by
  cases s with
  | ending =>
    refine .next .start (a := .close) trivial ?_
    simp [Dialogue.step, Minutes.dialogue, Minutes.add, Stage.closing, Stage.settled]
  | reading | writing | ended =>
    change Reach _ _ ((m.add [] false).dialogue _)
    rw [Minutes.add_nothing]
    exact .start

namespace ConnectionPc

/-- Where the server stands with the client. -/
def stage (P : Policy) : ConnectionPc → Stage
  | .reading served parser => .reading parser served
  | .writing served _ data written after => .writing data written (after.next P served)
  | .waiting | .accepted | .closed _ | .threw => .ended

def closing : ConnectionPc → List Event
  | .closed _ => [.closed]
  | _ => []

/-- The connection stands where a dialogue stands, and is closed where that is about to be. -/
structure Stands (P : Policy) (pc : ConnectionPc) (s : Stage) : Prop where
  stage : pc.stage P = s.settled
  closing : pc.closing = s.closing

/-- At the head of the loop over the requests the server waits for the next one, or is done at the limit. -/
theorem turn_stands (P : Policy) (served : Nat) (parser : HttpParser) :
    Stands P (turn P.server.config served parser)
      (if (served : Int) < P.limit then .reading {} served else .ending) := by
  unfold turn
  change Stands P (if (served : Int) < P.limit then _ else _) _
  split <;> exact ⟨rfl, rfl⟩

/-- Behind a whole response the connection stands where the dialogue does. -/
theorem wrote_stands (P : Policy) (served : Nat) (parser : HttpParser) (after : AfterWrite) :
    Stands P (wrote P.server.config served parser after true) (.behind (after.next P served)) := by
  cases after with
  | refused | malformed => exact ⟨rfl, rfl⟩
  | responded keepAlive =>
    cases keepAlive with
    | false => exact ⟨rfl, rfl⟩
    | true =>
      have on := turn_stands P (served + 1) parser
      simp only [AfterWrite.next, true_and]
      push_cast at on
      split at on <;> rename_i more
      · rw [if_pos more]
        exact on
      · rw [if_neg more]
        exact on

/-- A failed `write_all` ends the conversation, whatever was written. -/
theorem failed_stands (P : Policy) (served : Nat) (parser : HttpParser) (after : AfterWrite) :
    Stands P (wrote P.server.config served parser after false) .ending := by
  cases after <;> exact ⟨rfl, rfl⟩

/-- `write_all` has bytes left to send, or has come to the end of the response. -/
theorem writeAll_stands (P : Policy) (served : Nat) (parser : HttpParser) (data : Bytes) (written : Nat)
    (after : AfterWrite) : Stands P (writeAll P.server.config served parser data written after)
      (if written < data.length then .writing data written (after.next P served)
        else .behind (after.next P served)) := by
  unfold writeAll
  split
  · exact ⟨rfl, rfl⟩
  · exact wrote_stands P served parser after

/-- `handle_connection` behind data: the chunk is heard. -/
theorem afterRecv_stands (P : Policy) (served : Nat) (parser : HttpParser) (c : Bytes) :
    Stands P (afterRecv P.server.config P.server.moment served parser (.data c)) (P.heard parser served c) := by
  simp only [afterRecv]
  unfold Policy.heard
  by_cases eof : c = []
  · rw [if_pos eof, if_pos eof]
    exact ⟨rfl, rfl⟩
  · rw [if_neg eof, if_neg eof]
    split
    · rename_i parser' fed
      rw [feed_verdict_complete (by rw [fed]), fed]
      unfold answer
      dsimp only [HttpParser.getRequest]
      rw [keepAlive_eq]
      have on := writeAll_stands P served { parser' with request := {} } (P.reply served parser'.request) 0
        (.responded (P.keeps parser'.request))
      have some_ : 0 < (P.reply served parser'.request).length := serialize_pos _ _ _
      rw [if_pos some_] at on
      exact on
    · rename_i parser' fed
      rw [feed_verdict_error (by rw [fed]), fed]
      have on := writeAll_stands P served parser' (P.refusal served parser'.errorCode) 0 .malformed
      have some_ : 0 < (P.refusal served parser'.errorCode).length := serialize_pos _ _ _
      rw [if_pos some_] at on
      exact on
    · rename_i parser' fed
      rw [feed_verdict_incomplete (by rw [fed]), fed]
      exact ⟨rfl, rfl⟩

/-- A connection that is handled begins by waiting for its first request. -/
theorem start_stands (P : Policy) (limit : 1 ≤ P.limit) : (start P.server.config).stage P = .reading {} 0 := by
  have on := (turn_stands P 0 {}).stage
  rwa [if_pos (by push_cast; omega)] at on

/-- A connection that is turned away begins with the 503 to send. -/
theorem refuse_stands (P : Policy) :
    (refuse P.server.config P.server.moment).stage P = .writing P.busy 0 none := by
  have on := (writeAll_stands P 0 {} P.busy 0 .refused).stage
  have some_ : 0 < P.busy.length := serialize_pos _ _ _
  rwa [if_pos some_] at on

end ConnectionPc

/-- A turn of the dialogue, and the close behind it. -/
theorem follows_stands {P : Policy} {S : Dialogue → Prop} {m m' : Minutes} {before s : Stage} {pc : ConnectionPc}
    (turn : SocketEvent) (took : (m.dialogue before).step P turn = some (m'.dialogue s)) (stands : pc.Stands P s) :
    Follows (Dialogue.step P) S (some (m.dialogue before))
      (some ((m'.add pc.closing false).dialogue (pc.stage P))) := by
  rw [stands.closing, stands.stage]
  have first : Reach (Dialogue.step P) (m.dialogue before) (m'.dialogue s) := .next .start trivial took
  exact .moved (first.trans (m'.closes P s))

namespace Program

variable {n : Nat}

/-- What is noted about each connection. -/
abbrev Notes := Nat → Option Minutes

def Notes.amend (notes : Notes) (j : Nat) (events : List Event) (fails : Bool) : Notes :=
  Function.update notes j ((notes j).map fun m => m.add events fails)

/-- The notes on a step. -/
def note (p : Program n) (act : ProgramAct n) (p' : Program n) (notes : Notes) : Notes :=
  match act with
  | .accept (some j) => if n = 0 then Function.update notes j (some {}) else notes
  | .pool (.worker i _) _ =>
    match p.pool.workers i with
    | .taken j => Function.update notes j (some {})
    | _ => notes
  | .pool (.enqueue j _) _ =>
    if p'.pool.enqueues j = .returned false then Function.update notes j (some {}) else notes
  | .recv j o _ =>
    (notes.amend j o.events (decide (o = .wouldBlock ∨ o = .failed))).amend j (p'.connections j).closing false
  | .send j o =>
    match p.connections j with
    | .writing _ _ data written _ =>
      if p'.terminated then notes
      else
        (notes.amend j (o.events data written) (decide (o = .wouldBlock ∨ o = .failed ∨ o = .broken))).amend j
          (p'.connections j).closing false
    | _ => notes
  | _ => notes

/-- What is seen of connection `j`. -/
def view (P : Policy) (j : Nat) (s : Program n × Notes) : Option Dialogue :=
  (s.2 j).map fun m => m.dialogue ((s.1.connections j).stage P)

/-- The clock stands still, and the router is the policy's. -/
def Fixed (P : Policy) : ProgramAct n → Prop
  | .pool _ now | .recv _ _ now => now = P.server.moment
  | _ => True

/-! ## One step -/

section

variable {P : Policy} {S : Dialogue → Prop} {notes : Notes}

/-- Notes on one connection leave those on the others. -/
theorem amend_other {j x : Nat} (ne : x ≠ j) (events : List Event) (fails : Bool) :
    notes.amend j events fails x = notes x := Function.update_of_ne ne _ _

theorem amend_self (j : Nat) (events : List Event) (fails : Bool) :
    notes.amend j events fails j = (notes j).map fun m => m.add events fails := Function.update_self ..

/-- The events of a step and the close behind it are noted in one go. -/
theorem amend_twice (j : Nat) (a b : List Event) (x y : Bool) :
    ((notes.amend j a x).amend j b y) j = (notes j).map fun m => (m.add a x).add b y := by
  rw [amend_self, amend_self, Option.map_map]
  rfl

/-- A `recv`. -/
theorem recv_follows (served : Nat) (parser : HttpParser) (o : RecvOutcome) (m : Minutes) :
    let pc := ConnectionPc.afterRecv P.server.config P.server.moment served parser o
    Follows (Dialogue.step P) S (some (m.dialogue (.reading parser served)))
      (some (((m.add o.events (decide (o = .wouldBlock ∨ o = .failed))).add pc.closing false).dialogue
        (pc.stage P))) := by
  intro pc
  cases o with
  | data c =>
    refine follows_stands (.receive c) ?_ (ConnectionPc.afterRecv_stands P served parser c)
    simp [Dialogue.step, Minutes.dialogue, Minutes.add, RecvOutcome.events]
  | interrupted =>
    have still : (m.add [] false).add [] false = m := by rw [Minutes.add_nothing, Minutes.add_nothing]
    simp only [RecvOutcome.events, reduceCtorEq, or_self, decide_false]
    change Follows _ _ _ (some (((m.add [] false).add [] false).dialogue _))
    rw [still]
    exact .same _
  | wouldBlock | failed =>
    refine follows_stands (s := .ending) .fail ?_ ⟨rfl, rfl⟩
    simp [Dialogue.step, Minutes.dialogue, Minutes.add, RecvOutcome.events]

/-- A `send`. -/
theorem send_follows (served : Nat) (parser : HttpParser) (data : Bytes) (written : Nat) (after : AfterWrite)
    (o : SendOutcome) (m : Minutes) :
    let pc := ConnectionPc.afterSend P.server.config served parser data written after o
    Follows (Dialogue.step P) S (some (m.dialogue (.writing data written (after.next P served))))
      (some (((m.add (o.events data written) (decide (o = .wouldBlock ∨ o = .failed ∨ o = .broken))).add
        pc.closing false).dialogue (pc.stage P))) := by
  intro pc
  cases o with
  | sent n =>
    refine follows_stands (.take (min n (data.length - written))) ?_
      (ConnectionPc.writeAll_stands P served parser data _ after)
    simp only [Dialogue.step, Minutes.dialogue, Minutes.add, SendOutcome.events]
    split <;> simp
  | interrupted =>
    have still : (m.add [] false).add [] false = m := by rw [Minutes.add_nothing, Minutes.add_nothing]
    simp only [SendOutcome.events, reduceCtorEq, or_self, decide_false]
    change Follows _ _ _ (some (((m.add [] false).add [] false).dialogue _))
    rw [still]
    exact .same _
  | wouldBlock | failed | broken =>
    refine follows_stands .fail ?_ (ConnectionPc.failed_stands P served parser after)
    simp [Dialogue.step, Minutes.dialogue, Minutes.add, SendOutcome.events]

end

/-! ## Refused connections -/

/-- `enqueue` has returned false for the client. -/
def turnedAway (p : Program n) (j : Nat) : Bool := decide (p.pool.enqueues j = .returned false)

/-- How the conversation with a client starts. -/
def Starts (P : Policy) : Bool → Dialogue → Prop
  | false, d => d = {}
  | true, d => d = { stage := .writing P.busy 0 none }

/-- What is seen of connection `j`, if it is one of those that are turned away, or of the others. -/
def viewOf (P : Policy) (b : Bool) (j : Nat) (s : Program n × Notes) : Option Dialogue :=
  if s.1.turnedAway j = b then view P j s else none

/-- Nothing is noted of a connection before it is handled. -/
def Unnoted (s : Program n × Notes) : Prop :=
  ∀ j, s.1.connections j = .waiting ∨ s.1.connections j = .accepted → s.2 j = none

/-- Without workers `enqueue` is not called. -/
structure Direct (p : Program n) : Prop where
  acceptor : ∀ j, p.acceptor ≠ .enqueuing j
  enqueues : ∀ j, p.pool.enqueues j = .idle

/-- With a thread for each connection the accept loop has no use for the queue. -/
theorem direct_step {cfg : Config} {p p' : Program n} {act : ProgramAct n} (threads : n = 0) (inv : Direct p)
    (moves : Moves cfg p act p') : Direct p' := by
  cases moves with
  | leave | killed | stop => exact ⟨inv.acceptor, inv.enqueues⟩
  | nobody => exact ⟨fun j => (p.onward_free j).1, inv.enqueues⟩
  | thread => exact ⟨fun j => (p.onward_free j).1, inv.enqueues⟩
  | accept acceptor waiting pooled => exact absurd threads pooled
  | begin_ stepped | finish stepped | work stepped =>
    exact ⟨inv.acceptor, fun j => (congrFun stepped.same.1 j).trans (inv.enqueues j)⟩
  | admitted stepped calling | refused stepped calling | enqueue stepped calling =>
    exact absurd calling (inv.acceptor _)
  | shutdown stepped => exact ⟨inv.acceptor, fun j => (congrFun stepped.same.1 j).trans (inv.enqueues j)⟩
  | recv | send => exact ⟨fun j calling => inv.acceptor j (settle_enqueuing.1 calling), inv.enqueues⟩

/-- A program without workers never calls `enqueue`. -/
theorem reach_direct {cfg : Config} {maxQueueSize : Nat} {p : Program n} (threads : n = 0)
    (run : Reach (step cfg) (main n maxQueueSize) p) : Direct p := by
  refine run.invariant (I := Direct) ⟨?_, fun _ => rfl⟩ ?_
  · intro j calling
    cases calling
  · intro p act p' inv _ took
    exact direct_step threads inv (step_moves took)

/-- Where a step notes nothing. -/
theorem note_work {p p' : Program n} {i : Fin n} {b : Bool} {now : Moment} (notes : Notes)
    (free : ∀ j, p.pool.workers i ≠ .taken j) : note p (.pool (.worker i b) now) p' notes = notes := by
  unfold note
  dsimp only
  split
  · rename_i j taken
    exact absurd taken (free j)
  · rfl

/-- An `enqueue` that has not returned false opens no connection. -/
theorem note_enqueue {p p' : Program n} {j : Nat} {woken : Option (Fin n)} {now : Moment} (notes : Notes)
    (going : p'.pool.enqueues j ≠ .returned false) : note p (.pool (.enqueue j woken) now) p' notes = notes :=
  if_neg going

/-- Where a step opens a connection. -/
theorem note_begin {p p' : Program n} {i : Fin n} {b : Bool} {now : Moment} {j : Nat} (notes : Notes)
    (taken : p.pool.workers i = .taken j) :
    note p (.pool (.worker i b) now) p' notes = Function.update notes j (some {}) := by
  simp [note, taken]

/-- One that returns false opens the connection that is turned away. -/
theorem note_refused {p p' : Program n} {j : Nat} {woken : Option (Fin n)} {now : Moment} (notes : Notes)
    (returned : p'.pool.enqueues j = .returned false) :
    note p (.pool (.enqueue j woken) now) p' notes = Function.update notes j (some {}) := if_pos returned

/-- The process is gone, and nothing more is noted. -/
theorem note_killed {p p' : Program n} {j : Nat} {o : SendOutcome} (notes : Notes) (ended : p'.terminated = true) :
    note p (.send j o) p' notes = notes := by
  unfold note
  dsimp only
  split
  · rw [if_pos ended]
  · rfl

/-- A `send` that the process survives is noted with its bytes, its failure and the close behind it. -/
theorem note_send {p p' : Program n} {j requestCount : Nat} {parser : HttpParser} {data : Bytes} {written : Nat}
    {after : AfterWrite} {o : SendOutcome} (notes : Notes)
    (conn : p.connections j = .writing requestCount parser data written after) (alive : p'.terminated = false) :
    note p (.send j o) p' notes =
      (notes.amend j (o.events data written) (decide (o = .wouldBlock ∨ o = .failed ∨ o = .broken))).amend j
        (p'.connections j).closing false := by
  simp [note, conn, alive]

/-- A step that changes the connection `j` and its notes. -/
theorem Unnoted.update {p : Program n} {notes notes' : Notes} {j : Nat} {connections : Nat → ConnectionPc}
    {pc : ConnectionPc} (inv : Unnoted (p, notes)) (begun : pc ≠ .waiting ∧ pc ≠ .accepted)
    (self : connections j = pc) (others : ∀ x, x ≠ j → connections x = p.connections x)
    (same : ∀ x, x ≠ j → notes' x = notes x) (x : Nat)
    (idle : connections x = .waiting ∨ connections x = .accepted) : notes' x = none := by
  by_cases eq : x = j
  · subst eq
    rw [self] at idle
    rcases idle with waiting | accepted
    · exact absurd waiting begun.1
    · exact absurd accepted begun.2
  · rw [others x eq] at idle
    exact (same x eq).trans (inv x idle)

/-- Every step that notes something of a connection has begun to handle it. -/
theorem unnoted_step {cfg : Config} {p p' : Program n} {act : ProgramAct n} {notes : Notes}
    (alive : p.terminated = false) (inv : Unnoted (p, notes)) (moves : Moves cfg p act p') :
    Unnoted (p', note p act p' notes) := by
  cases moves with
  | leave | stop | nobody | shutdown => exact inv
  | killed =>
    rw [note_killed notes rfl]
    exact inv
  | finish stepped running =>
    rw [note_work notes (by rw [running]; exact nofun)]
    exact inv
  | work stepped free =>
    rw [note_work notes fun j => (free j).1]
    exact inv
  | admitted stepped calling returned =>
    rw [note_enqueue notes (by rw [returned]; exact nofun)]
    exact inv
  | enqueue stepped calling going =>
    rw [note_enqueue notes (going false)]
    exact inv
  | @accept j acceptor waiting pooled =>
    simp only [note, if_neg pooled]
    intro x idle
    by_cases eq : x = j
    · subst eq
      exact inv x (.inl waiting)
    · have same : Function.update p.connections j ConnectionPc.accepted x = p.connections x :=
        Function.update_of_ne eq _ _
      refine inv x ?_
      change p.connections x = _ ∨ p.connections x = _
      rw [← same]
      exact idle
  | @thread j acceptor waiting threads =>
    simp only [note, if_pos threads]
    exact inv.update (ConnectionPc.start_within cfg).begun (Function.update_self ..)
      (fun x ne => Function.update_of_ne ne _ _) fun x ne => Function.update_of_ne ne _ _
  | @begin_ i b now j pool stepped taken =>
    rw [note_begin notes taken]
    exact inv.update (ConnectionPc.start_within cfg).begun (Function.update_self ..)
      (fun x ne => Function.update_of_ne ne _ _) fun x ne => Function.update_of_ne ne _ _
  | @refused j woken now pool stepped calling returned =>
    rw [note_refused notes returned]
    exact inv.update (ConnectionPc.refuse_within cfg _).begun (Function.update_self ..)
      (fun x ne => Function.update_of_ne ne _ _) fun x ne => Function.update_of_ne ne _ _
  | @recv j requestCount parser o now terminated conn =>
    exact inv.update (ConnectionPc.afterRecv_within ..).begun (Function.update_self ..)
      (fun x ne => Function.update_of_ne ne _ _) fun x ne => (amend_other ne _ _).trans (amend_other ne _ _)
  | @send j requestCount parser data written after o conn =>
    have survives : (p.settle j (.afterSend cfg requestCount parser data written after o)).terminated = false := alive
    rw [note_send notes conn survives]
    exact inv.update (ConnectionPc.afterSend_within ..).begun (Function.update_self ..)
      (fun x ne => Function.update_of_ne ne _ _) fun x ne => (amend_other ne _ _).trans (amend_other ne _ _)

/-! ## One step, seen from one connection -/

/-- A client is turned away by the result of its own `enqueue` only. -/
theorem turnedAway_of {p p' : Program n} {j : Nat} (same : p'.pool.enqueues j = p.pool.enqueues j) :
    p'.turnedAway j = p.turnedAway j := by
  rw [turnedAway, turnedAway, same]

/-- A call that takes a step has not returned. -/
theorem open_enqueue {s s' : Pool n} {j : Nat} (h : Pool.EnqueueStep s j s') (b : Bool) :
    s.enqueues j ≠ .returned b := by
  cases h with
  | call place | lock place | stopped place | pass place | full place | push place | nobody place | wake place =>
    rw [place]
    exact nofun

/-- A step of `enqueue` that does not return false turns nobody away. -/
theorem turnedAway_enqueue {p p' : Program n} {j : Nat} (stepped : Pool.EnqueueStep p.pool j p'.pool)
    (going : p'.pool.enqueues j ≠ .returned false) (x : Nat) : p'.turnedAway x = p.turnedAway x := by
  by_cases eq : x = j
  · subst eq
    rw [turnedAway, turnedAway, decide_eq_decide]
    exact iff_of_false going (open_enqueue stepped false)
  · exact turnedAway_of (stepped.others eq)

/-- A client that `enqueue` refuses was not put in the queue. -/
theorem refused_unpushed {s s' : Pool n} {j : Nat} (h : Pool.EnqueueStep s j s')
    (returned : s'.enqueues j = .returned false) : (s.enqueues j).pushed = false := by
  cases h with
  | stopped place | full place =>
    rw [place]
    rfl
  | call | lock | pass | push | nobody | wake => simp at returned

/-- What is known of a state that is reached. -/
structure Known (p : Program n) : Prop where
  begins : ∀ i j, p.pool.workers i = .taken j → p.turnedAway j = false
  threads : n = 0 → ∀ j, p.turnedAway j = false
  calling : ∀ j, p.acceptor = .enqueuing j → (p.pool.enqueues j).pushed = false → p.connections j = .accepted

/-- A client that was turned away is in no worker's hands, and one that `enqueue` decides on is not handled yet. -/
theorem reach_known {cfg : Config} {maxQueueSize : Nat} {p : Program n}
    (run : Reach (step cfg) (main n maxQueueSize) p) : Known p := by
  have ledger := Pool.reach_ledger (reach_pool run)
  refine ⟨fun i j taken => decide_eq_false fun returned => ?_, fun threads j => decide_eq_false ?_,
    fun j calling unpushed => ?_⟩
  · exact (ledger.nowhere (by rw [returned]; rfl)).1 (.inr ⟨i, taken⟩)
  · rw [(reach_direct threads run).enqueues j]
    exact nofun
  · rcases Nat.eq_zero_or_pos n with threads | pooled
    · exact absurd calling ((reach_direct threads run).acceptor j)
    · exact ((reach_held pooled run j).calling calling).2 unpushed

/-- A worker, or a thread of its own, opens a conversation that starts from nothing. -/
theorem view_start {P : Policy} {p : Program n} {notes : Notes} {j : Nat} (limit : 1 ≤ P.limit)
    (conn : p.connections j = .start P.server.config) :
    view P j (p, Function.update notes j (some {})) = some {} := by
  unfold view
  dsimp only
  rw [Function.update_self, conn, ConnectionPc.start_stands P limit]
  rfl

/-- The accept loop opens one that starts with the 503. -/
theorem view_refuse {P : Policy} {p : Program n} {notes : Notes} {j : Nat}
    (conn : p.connections j = .refuse P.server.config P.server.moment) :
    view P j (p, Function.update notes j (some {})) = some { stage := .writing P.busy 0 none } := by
  unfold view
  dsimp only
  rw [Function.update_self, conn, ConnectionPc.refuse_stands P]
  rfl

/-- **A step, seen from one connection.** -/
theorem step_follows {P : Policy} {p p' : Program n} {act : ProgramAct n} {notes : Notes} (limit : 1 ≤ P.limit)
    (alive : p.terminated = false) (known : Known p) (unnoted : Unnoted (p, notes)) (fixed : Fixed P act)
    (moves : Moves P.server.config p act p') (b : Bool) (x : Nat) :
    Follows (Dialogue.step P) (Starts P b) (viewOf P b x (p, notes)) (viewOf P b x (p', note p act p' notes)) := by
  -- where `enqueue` has not returned false, and what is seen changes as it should
  have seen {p' : Program n} {notes' : Notes} (same : p'.turnedAway x = p.turnedAway x)
      (moves : p.turnedAway x = b →
        Follows (Dialogue.step P) (Starts P b) (view P x (p, notes)) (view P x (p', notes'))) :
      Follows (Dialogue.step P) (Starts P b) (viewOf P b x (p, notes)) (viewOf P b x (p', notes')) := by
    unfold viewOf
    dsimp only
    rw [same]
    split
    · exact moves ‹_›
    · exact .same none
  have still {p' : Program n} {notes' : Notes} (same : p'.turnedAway x = p.turnedAway x) (noted_ : notes' x = notes x)
      (stage : (p'.connections x).stage P = (p.connections x).stage P) :
      Follows (Dialogue.step P) (Starts P b) (viewOf P b x (p, notes)) (viewOf P b x (p', notes')) := by
    refine seen same fun _ => ?_
    have eq : view P x (p', notes') = view P x (p, notes) := by
      unfold view
      dsimp only
      rw [noted_, stage]
    rw [eq]
    exact .same _
  cases moves with
  | leave | stop | nobody => exact still rfl rfl rfl
  | killed => exact still rfl (by rw [note_killed notes rfl]) rfl
  | shutdown stepped => exact still (turnedAway_of (congrFun stepped.same.1 x)) rfl rfl
  | finish stepped running =>
    exact still (turnedAway_of (congrFun stepped.same.1 x)) (by rw [note_work notes (by rw [running]; exact nofun)]) rfl
  | work stepped free =>
    exact still (turnedAway_of (congrFun stepped.same.1 x)) (by rw [note_work notes fun j => (free j).1]) rfl
  | @admitted j woken now pool stepped calling returned =>
    have going : pool.enqueues j ≠ .returned false := by
      rw [returned]
      exact nofun
    exact still (turnedAway_enqueue stepped going x) (by rw [note_enqueue notes going]) rfl
  | enqueue stepped calling going =>
    exact still (turnedAway_enqueue stepped (going false) x) (by rw [note_enqueue notes (going false)]) rfl
  | @accept j acceptor waiting pooled =>
    refine still rfl (by simp only [note, if_neg pooled]) ?_
    by_cases eq : x = j
    · subst eq
      rw [waiting]
      dsimp only
      rw [Function.update_self]
      rfl
    · exact congrArg _ (Function.update_of_ne eq _ _)
  | @thread j acceptor waiting threads =>
    simp only [note, if_pos threads]
    by_cases eq : x = j
    · subst eq
      refine seen rfl fun here => ?_
      obtain rfl := (known.threads threads x).symm.trans here
      rw [view_start limit (Function.update_self ..)]
      exact .opened _ rfl
    · exact still rfl (Function.update_of_ne eq _ _) (congrArg _ (Function.update_of_ne eq _ _))
  | @begin_ i b' now j pool stepped taken =>
    rw [note_begin notes taken]
    by_cases eq : x = j
    · subst eq
      refine seen (turnedAway_of (congrFun stepped.same.1 x)) fun here => ?_
      obtain rfl := (known.begins i x taken).symm.trans here
      rw [view_start limit (Function.update_self ..)]
      exact .opened _ rfl
    · exact still (turnedAway_of (congrFun stepped.same.1 x)) (Function.update_of_ne eq _ _)
        (congrArg _ (Function.update_of_ne eq _ _))
  | @refused j woken now pool stepped calling returned =>
    rw [note_refused notes returned]
    by_cases eq : x = j
    · subst eq
      obtain rfl : now = P.server.moment := fixed
      have before : p.turnedAway x = false := decide_eq_false (open_enqueue stepped false)
      have unseen : notes x = none := unnoted x (.inr (known.calling x calling (refused_unpushed stepped returned)))
      have first : viewOf P b x (p, notes) = none := by
        unfold viewOf view
        dsimp only
        rw [unseen]
        split <;> rfl
      have after : ∀ p' : Program n, p'.pool = pool → p'.turnedAway x = true := by
        rintro p' rfl
        exact decide_eq_true returned
      rw [first]
      cases b with
      | false =>
        rw [viewOf, if_neg (by rw [after _ rfl]; exact nofun)]
        exact .same none
      | true =>
        rw [viewOf, if_pos (after _ rfl), view_refuse (Function.update_self ..)]
        exact .opened none rfl
    · exact still (turnedAway_of (stepped.others eq)) (Function.update_of_ne eq _ _)
        (congrArg _ (Function.update_of_ne eq _ _))
  | @recv j requestCount parser o now terminated conn =>
    by_cases eq : x = j
    · subst eq
      obtain rfl : now = P.server.moment := fixed
      refine seen rfl fun _ => ?_
      unfold view
      simp only [note, settle, amend_twice, Function.update_self, conn]
      exact Minutes.follows (recv_follows requestCount parser o) (notes x)
    · exact still rfl ((amend_other eq _ _).trans (amend_other eq _ _)) (congrArg _ (Function.update_of_ne eq _ _))
  | @send j requestCount parser data written after o conn =>
    have survives : (p.settle j (.afterSend P.server.config requestCount parser data written after o)).terminated =
      false := alive
    rw [note_send notes conn survives]
    by_cases eq : x = j
    · subst eq
      refine seen rfl fun _ => ?_
      unfold view
      simp only [settle, amend_twice, Function.update_self, conn]
      exact Minutes.follows (send_follows requestCount parser data written after o) (notes x)
    · exact still rfl ((amend_other eq _ _).trans (amend_other eq _ _)) (congrArg _ (Function.update_of_ne eq _ _))

/-! ## Runs -/

/-- The program with its notes, for a policy. -/
abbrev Serving (P : Policy) (n maxQueueSize : Nat) : Program n × Notes → Prop :=
  Run (noted (step P.server.config) note) (fun _ act => Fixed P act) (main n maxQueueSize, fun _ => none)

/-- The notes do not change what the program does. -/
theorem serving_reach {P : Policy} {maxQueueSize : Nat} {s : Program n × Notes} (run : Serving P n maxQueueSize s) :
    Reach (step P.server.config) (main n maxQueueSize) s.1 := by
  have plain : Run (step P.server.config) (fun _ act => Fixed P act) (main n maxQueueSize) s.1 := run.forget
  exact plain.reach

/-- Only a program that has not been terminated takes a step. -/
theorem step_alive {cfg : Config} {p p' : Program n} {act : ProgramAct n} (took : p.step cfg act = some p') :
    p.terminated = false := by
  unfold step at took
  split at took
  · cases took
  · rename_i alive
    simpa using alive

/-- In every run, nothing is noted of a connection before it is handled. -/
theorem serving_unnoted {P : Policy} {maxQueueSize : Nat} {s : Program n × Notes}
    (run : Serving P n maxQueueSize s) : Unnoted s := by
  refine run.invariant (I := Unnoted) (fun _ _ => rfl) ?_
  rintro ⟨p, notes⟩ act ⟨p', notes'⟩ inv _ took
  obtain ⟨stepped, same⟩ := noted_eq_some.1 took
  dsimp only at stepped same
  subst same
  exact unnoted_step (step_alive stepped) inv (step_moves stepped)

/-- From a connection the program looks like a dialogue. -/
theorem serving_dialogue {P : Policy} (limit : 1 ≤ P.limit) {maxQueueSize : Nat} {s : Program n × Notes}
    (run : Serving P n maxQueueSize s) {b : Bool} {j : Nat} {d : Dialogue} (seen : viewOf P b j s = some d) :
    ∃ d₀, Starts P b d₀ ∧ Reach (Dialogue.step P) d₀ d := by
  refine run.follows (v := viewOf P b j) ?_ ?_ seen
  · unfold viewOf view
    split <;> rfl
  · rintro ⟨p, notes⟩ act ⟨p', notes'⟩ run fixed took
    obtain ⟨stepped, same⟩ := noted_eq_some.1 took
    dsimp only at stepped same
    subst same
    exact step_follows limit (step_alive stepped) (reach_known (serving_reach run)) (serving_unnoted run) fixed
      (step_moves stepped) b j

/-- A dialogue that only sends `text`. -/
structure Sends (text : Bytes) (d : Dialogue) : Prop where
  silent : arrived d.log = []
  part : bytesSent d.log <+: text
  stage : (∃ written, d.stage = .writing text written none ∧ bytesSent d.log = text.take written) ∨
    (d.stage = .ending ∨ d.stage = .ended) ∧ (d.broken = false → bytesSent d.log = text)

/-- A conversation that only sends goes on sending, until the text is out or a call fails. -/
theorem sends_step {P : Policy} {text : Bytes} {d d' : Dialogue} (inv : Sends text d) (moves : Dialogue.Moves P d d') :
    Sends text d' := by
  obtain ⟨silent, part, stage⟩ := inv
  have writes {data : Bytes} {written : Nat} {next : Option Nat} (at_ : d.stage = .writing data written next) :
      data = text ∧ next = none ∧ bytesSent d.log = text.take written := by
    rcases stage with ⟨w, writing, bytes⟩ | ⟨ended | ended, -⟩
    · cases at_.symm.trans writing
      exact ⟨rfl, rfl, bytes⟩
    · cases at_.symm.trans ended
    · cases at_.symm.trans ended
  cases moves with
  | receive at_ =>
    rcases stage with ⟨w, writing, -⟩ | ⟨ended | ended, -⟩
    · cases at_.symm.trans writing
    · cases at_.symm.trans ended
    · cases at_.symm.trans ended
  | @part data written next at_ n more =>
    obtain ⟨rfl, rfl, bytes⟩ := writes at_
    have sent : bytesSent (d.log ++ [.sent ((data.drop written).take n)]) = data.take (written + n) := by
      simp [bytes, List.take_add]
    exact ⟨by simpa [arrived] using silent, by rw [sent]; exact List.take_prefix _ _, .inl ⟨_, rfl, sent⟩⟩
  | @rest data written next at_ =>
    obtain ⟨rfl, rfl, bytes⟩ := writes at_
    have sent : bytesSent (d.log ++ [.sent (data.drop written), .responded data]) = data := by
      simp [bytes]
    exact ⟨by simpa [arrived] using silent, by rw [sent], .inr ⟨.inl rfl, fun _ => sent⟩⟩
  | fail going => exact ⟨silent, part, .inr ⟨.inl rfl, fun healthy => by cases healthy⟩⟩
  | close at_ =>
    rcases stage with ⟨w, writing, -⟩ | ⟨-, whole⟩
    · cases at_.symm.trans writing
    · refine ⟨by simpa [arrived] using silent, by simpa using part, .inr ⟨.inr rfl, fun healthy => ?_⟩⟩
      simpa using whole healthy

/-- What is sent from the start of the text on is a part of it, and the whole of it unless a call has failed. -/
theorem reach_sends {P : Policy} {text : Bytes} {d : Dialogue}
    (run : Reach (Dialogue.step P) { stage := .writing text 0 none } d) : Sends text d := by
  have start : Sends text { stage := .writing text 0 none } := ⟨rfl, List.nil_prefix, .inl ⟨0, rfl, rfl⟩⟩
  refine run.invariant start ?_
  intro d turn d' inv _ took
  exact sends_step inv (Dialogue.step_moves took)

section

variable {P : Policy} {maxQueueSize : Nat} {p : Program n} {notes : Notes} {j : Nat} {m : Minutes}

/-- What a client has got that is not turned away. -/
theorem serving_matches (limit : 1 ≤ P.limit) (run : Serving P n maxQueueSize (p, notes)) (known : notes j = some m)
    (served : p.pool.enqueues j ≠ .returned false) : (m.dialogue ((p.connections j).stage P)).Matches P := by
  have seen : view P j (p, notes) = some (m.dialogue ((p.connections j).stage P)) := congrArg (Option.map _) known
  obtain ⟨_, rfl, reached⟩ := serving_dialogue limit run (b := false) (j := j)
    ((if_pos (decide_eq_false served)).trans seen)
  exact Dialogue.reach_matches limit reached

/-- What a client that is not turned away still lacks of what it would get alone: nothing, when the server waits for
it or has closed and no call has failed. -/
theorem serving_lacks (P : Policy) (limit : 1 ≤ P.limit) {p : Program n} {notes : Notes} {j : Nat} {m : Minutes}
    (run : Serving P n maxQueueSize (p, notes)) (known : notes j = some m)
    (served : p.pool.enqueues j ≠ .returned false) :
    ∃ rest, bytesSent m.log ++ rest = bytesSent (P.server.handleConnection ((arrived m.log).map .data) []) ∧
      (m.broken = false →
        ((∃ parser served, (p.connections j).stage P = .reading parser served) ∨
          (p.connections j).stage P = .ended) →
        rest = [] ∧ visible m.log = visible (P.server.handleConnection ((arrived m.log).map .data) [])) := by
  obtain ⟨⟨rest, whole⟩, -, settled⟩ := serving_matches limit run known served
  refine ⟨rest, whole, fun healthy waits => ?_⟩
  obtain ⟨same, seen⟩ := settled healthy waits
  exact ⟨List.append_right_eq_self.1 (whole.trans same.symm), seen⟩

/-- What a client has got that is turned away. -/
theorem serving_sends (limit : 1 ≤ P.limit) (run : Serving P n maxQueueSize (p, notes)) (known : notes j = some m)
    (refused : p.pool.enqueues j = .returned false) : Sends P.busy (m.dialogue ((p.connections j).stage P)) := by
  have seen : view P j (p, notes) = some (m.dialogue ((p.connections j).stage P)) := congrArg (Option.map _) known
  obtain ⟨_, rfl, reached⟩ := serving_dialogue limit run (b := true) (j := j)
    ((if_pos (decide_eq_true refused)).trans seen)
  exact reach_sends reached

/-- All of the 503, when the connection is closed. -/
theorem Sends.whole {text : Bytes} {result : Option Bool} (sends : Sends text (m.dialogue ((p.connections j).stage P)))
    (healthy : m.broken = false) (closed : p.connections j = .closed result) : bytesSent m.log = text := by
  rcases sends.stage with ⟨written, writing, -⟩ | ⟨-, whole⟩
  · rw [closed] at writing
    cases writing
  · exact whole healthy

end

/-- **Every client is served as if it were the only one, or turned away**, whatever the scheduler and the other
clients do. Unless `enqueue` has returned false for it, it has got a part of what `handle_connection` sends for the
chunks that it has sent itself, and while that waits for it, or has closed, all of it. Otherwise nothing is read
from it, and it gets a part of the 503, and all of that if its socket does not fail. -/
theorem served_or_refused (P : Policy) (limit : 1 ≤ P.limit) {n maxQueueSize : Nat} {p : Program n} {notes : Notes}
    (run : Serving P n maxQueueSize (p, notes)) {j : Nat} {m : Minutes} (known : notes j = some m) :
    (p.pool.enqueues j ≠ .returned false → (m.dialogue ((p.connections j).stage P)).Matches P) ∧
    (p.pool.enqueues j = .returned false → arrived m.log = [] ∧ bytesSent m.log <+: P.busy ∧
      (m.broken = false → (∃ result, p.connections j = .closed result) → bytesSent m.log = P.busy)) := by
  refine ⟨serving_matches limit run known, fun refused => ?_⟩
  have sends := serving_sends limit run known refused
  exact ⟨sends.silent, sends.part, fun healthy ⟨_, closed⟩ => sends.whole healthy closed⟩

/-- The action at the policy's moment. -/
def fixed (P : Policy) : ProgramAct n → ProgramAct n
  | .pool a _ => .pool a P.server.moment
  | .recv j o _ => .recv j o P.server.moment
  | act => act

/-- The moment that is put in is the policy's. -/
theorem fixed_fixed (P : Policy) (act : ProgramAct n) : Fixed P (fixed P act) := by
  cases act with
  | pool a now | recv j o now => rfl
  | _ => trivial

/-- One client is served by the worker while another one is turned away. -/
def twoClients (i : Fin 1) (now : Moment) : List (ProgramAct 1) :=
  .accept (some 0) :: List.replicate 5 (.pool (.enqueue 0 none) now) ++
  .accept (some 1) :: List.replicate 4 (.pool (.enqueue 1 none) now) ++
  List.replicate 5 (.pool (.worker i false) now) ++
  [.recv 0 (.data [13]) now, .send 1 (.sent 4), .recv 0 (.data [10]) now, .send 0 (.sent 3)]

set_option maxRecDepth 4000 in
theorem served_or_refused_two : ∃ (p : Program 1) (notes : Notes) (m m' : Minutes),
    Serving (greeting 2) 1 1 (p, notes) ∧ notes 0 = some m ∧ notes 1 = some m' ∧
    (bytesSent m.log).length = 3 ∧ (bytesSent m'.log).length = 4 ∧
    (m.dialogue ((p.connections 0).stage (greeting 2))).Matches (greeting 2) ∧
    bytesSent m'.log <+: (greeting 2).busy := by
  obtain ⟨⟨p, notes⟩, m, m', ran, known, known', sent, sent', accepted, refused⟩ : ∃ s m m',
      exec (fun s act => noted (step (greeting 2).server.config) note s (fixed (greeting 2) act)) (fun _ _ => true)
        (main 1 1, fun _ => none) (twoClients 0 ⟨.still, fun _ => none⟩) = some s ∧
      s.2 0 = some m ∧ s.2 1 = some m' ∧ (bytesSent m.log).length = 3 ∧ (bytesSent m'.log).length = 4 ∧
      s.1.pool.enqueues 0 = .returned true ∧ s.1.pool.enqueues 1 = .returned false :=
    ⟨_, _, _, rfl, rfl, rfl, rfl, rfl, rfl, rfl⟩
  have run : Serving (greeting 2) 1 1 (p, notes) :=
    (exec_run ran).simulate (f := id) (g := fun _ act => fixed (greeting 2) act) fun _ _ _ _ took =>
      ⟨fixed_fixed _ _, took⟩
  have served := (served_or_refused (greeting 2) (by decide) run known).1 (by rw [accepted]; decide)
  have turned := (served_or_refused (greeting 2) (by decide) run known').2 refused
  exact ⟨p, notes, m, m', run, known, known', sent, sent', served, turned.2.1⟩

end Program

end HttpServer
