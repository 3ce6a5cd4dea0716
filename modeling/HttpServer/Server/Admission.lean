import HttpServer.Server.Places
import HttpServer.Server.Program
import HttpServer.Server.Queue

/-!
# Admission

How the accept loop, the pool and the connections of the program belong together
in thread-pool mode (`Custody`): a connection that is accepted and not yet served
is in the call of `enqueue`, in the queue or with a worker about to begin; one
that is served has a worker to itself; one that is refused holds up the accept
loop. So the number of open connections is bounded, whatever the clients do
(`open_bounded`).
-/

namespace HttpServer

open Runs

namespace ConnectionPc

/-- Inside `handle_connection`. -/
def served : ConnectionPc → Bool
  | .reading _ _ => true
  | .writing _ _ _ _ after => decide (after ≠ .refused)
  | _ => false

/-- In the `write_all` of a 503. -/
def refused : ConnectionPc → Bool
  | .writing _ _ _ _ after => decide (after = .refused)
  | _ => false

/-- The places of a connection that is served, or refused. -/
inductive Within : Bool → ConnectionPc → Prop where
  | reading (requestCount : Nat) (parser : HttpParser) : Within false (.reading requestCount parser)
  | writing {b : Bool} (requestCount : Nat) (parser : HttpParser) (data : Bytes) (written : Nat) {after : AfterWrite}
      (same : decide (after = .refused) = b) : Within b (.writing requestCount parser data written after)
  | closed (b : Bool) (result : Option Bool) : Within b (.closed result)
  | threw (b : Bool) : Within b .threw

/-- A served connection waits for a request, or is closed at the limit. -/
theorem turn_within (cfg : Config) (requestCount : Nat) (parser : HttpParser) (b : Bool) (serves : b = false) :
    Within b (turn cfg requestCount parser) := by
  subst serves
  unfold turn
  split
  · exact .reading _ _
  · exact .closed _ _

/-- Behind the 503 a connection is closed; behind a response it may wait for the next request. -/
theorem wrote_within (cfg : Config) (requestCount : Nat) (parser : HttpParser) (after : AfterWrite) (ok : Bool) :
    Within (decide (after = .refused)) (wrote cfg requestCount parser after ok) := by
  unfold wrote
  cases after with
  | refused | malformed => exact .closed _ _
  | responded keepAlive =>
    dsimp only
    split
    · exact .closed _ _
    · split
      · exact .closed _ _
      · exact turn_within _ _ _ _ rfl

/-- A connection that sends the 503 goes on sending it until it is closed. -/
theorem writeAll_within (cfg : Config) (requestCount : Nat) (parser : HttpParser) (data : Bytes) (written : Nat)
    (after : AfterWrite) :
    Within (decide (after = .refused)) (writeAll cfg requestCount parser data written after) := by
  unfold writeAll
  split
  · exact .writing _ _ _ _ rfl
  · exact wrote_within _ _ _ _ _

/-- No `send` changes whether the client is served or turned away. -/
theorem afterSend_within (cfg : Config) (requestCount : Nat) (parser : HttpParser) (data : Bytes) (written : Nat)
    (after : AfterWrite) (o : SendOutcome) :
    Within (decide (after = .refused)) (afterSend cfg requestCount parser data written after o) := by
  cases o with
  | sent n => exact writeAll_within _ _ _ _ _ _
  | interrupted => exact .writing _ _ _ _ rfl
  | wouldBlock | failed | broken => exact wrote_within _ _ _ _ _

/-- Only served connections are read from, and they stay served. -/
theorem afterRecv_within (cfg : Config) (now : Moment) (requestCount : Nat) (parser : HttpParser) (o : RecvOutcome) :
    Within false (afterRecv cfg now requestCount parser o) := by
  cases o with
  | data c =>
    simp only [afterRecv]
    split
    · exact .closed _ _
    · split
      · unfold answer
        dsimp only
        split
        · exact .threw _
        · exact writeAll_within _ _ _ _ _ (.responded _)
      · exact writeAll_within _ _ _ _ _ .malformed
      · exact .reading _ _
  | interrupted => exact .reading _ _
  | wouldBlock | failed => exact .closed _ _

theorem start_within (cfg : Config) : Within false (start cfg) := turn_within _ _ _ _ rfl

/-- A connection that is turned away has the 503 to send. -/
theorem refuse_within (cfg : Config) (now : Moment) : Within true (refuse cfg now) := writeAll_within _ _ _ _ _ .refused

/-- Such a connection is in somebody's hands. -/
theorem Within.begun {b : Bool} {pc : ConnectionPc} (h : Within b pc) : pc ≠ .waiting ∧ pc ≠ .accepted := by
  cases h <;> exact ⟨nofun, nofun⟩

theorem Within.serves {b : Bool} {pc : ConnectionPc} (h : Within b pc) (served : pc.served = true) : b = false := by
  cases h with
  | reading => rfl
  | writing _ _ _ _ same => simpa [ConnectionPc.served, same] using served
  | closed | threw => cases served

theorem Within.refuses {b : Bool} {pc : ConnectionPc} (h : Within b pc) (refused : pc.refused = true) : b = true := by
  cases h with
  | writing _ _ _ _ same => exact same.symm.trans refused
  | reading | closed | threw => cases refused

end ConnectionPc

namespace Program

variable {n : Nat}

/-! ## What a step can do -/

inductive Moves (cfg : Config) (p : Program n) : ProgramAct n → Program n → Prop where
  | leave {j : Nat} : Moves cfg p (.leave j) { p with gone := Function.update p.gone j true }
  | nobody (acceptor : p.acceptor = .accepting) : Moves cfg p (.accept none) { p with acceptor := p.onward }
  | thread {j : Nat} (acceptor : p.acceptor = .accepting) (waiting : p.connections j = .waiting) (threads : n = 0) :
      Moves cfg p (.accept (some j))
        { p with connections := Function.update p.connections j (.start cfg), acceptor := p.onward }
  | accept {j : Nat} (acceptor : p.acceptor = .accepting) (waiting : p.connections j = .waiting) (pooled : n ≠ 0) :
      Moves cfg p (.accept (some j))
        { p with connections := Function.update p.connections j .accepted, acceptor := .enqueuing j }
  | begin_ {i : Fin n} {b : Bool} {now : Moment} {j : Nat} {pool : Pool n} (stepped : Pool.WorkerStep p.pool i pool)
      (taken : p.pool.workers i = .taken j) :
      Moves cfg p (.pool (.worker i b) now) { p with pool, connections := Function.update p.connections j (.start cfg) }
  | finish {i : Fin n} {b : Bool} {now : Moment} {j : Nat} {pool : Pool n} (stepped : Pool.WorkerStep p.pool i pool)
      (running : p.pool.workers i = .running j)
      (ended : (∃ r, p.connections j = .closed r) ∨ p.connections j = .threw) :
      Moves cfg p (.pool (.worker i b) now) { p with pool }
  | work {i : Fin n} {b : Bool} {now : Moment} {pool : Pool n} (stepped : Pool.WorkerStep p.pool i pool)
      (free : ∀ j, p.pool.workers i ≠ .taken j ∧ p.pool.workers i ≠ .running j) :
      Moves cfg p (.pool (.worker i b) now) { p with pool }
  | admitted {j : Nat} {woken : Option (Fin n)} {now : Moment} {pool : Pool n}
      (stepped : Pool.EnqueueStep p.pool j pool) (acceptor : p.acceptor = .enqueuing j)
      (returned : pool.enqueues j = .returned true) :
      Moves cfg p (.pool (.enqueue j woken) now) { p with pool, acceptor := p.onward }
  | refused {j : Nat} {woken : Option (Fin n)} {now : Moment} {pool : Pool n}
      (stepped : Pool.EnqueueStep p.pool j pool) (acceptor : p.acceptor = .enqueuing j)
      (returned : pool.enqueues j = .returned false) :
      Moves cfg p (.pool (.enqueue j woken) now)
        ({ p with pool, acceptor := .refusing j }.settle j (.refuse cfg now))
  | enqueue {j : Nat} {woken : Option (Fin n)} {now : Moment} {pool : Pool n}
      (stepped : Pool.EnqueueStep p.pool j pool) (acceptor : p.acceptor = .enqueuing j)
      (going : ∀ b, pool.enqueues j ≠ .returned b) : Moves cfg p (.pool (.enqueue j woken) now) { p with pool }
  | shutdown {k : Nat} {now : Moment} {pool : Pool n} (stepped : Pool.ShutdownStep p.pool k pool) :
      Moves cfg p (.pool (.shutdown k) now) { p with pool }
  | recv {j requestCount : Nat} {parser : HttpParser} {o : RecvOutcome} {now : Moment} {terminated : Bool}
      (conn : p.connections j = .reading requestCount parser) :
      Moves cfg p (.recv j o now)
        { p.settle j (.afterRecv cfg now requestCount parser o) with terminated }
  | killed {j requestCount : Nat} {parser : HttpParser} {data : Bytes} {written : Nat} {after : AfterWrite}
      {o : SendOutcome} (conn : p.connections j = .writing requestCount parser data written after) :
      Moves cfg p (.send j o) { p with terminated := true }
  | send {j requestCount : Nat} {parser : HttpParser} {data : Bytes} {written : Nat} {after : AfterWrite}
      {o : SendOutcome} (conn : p.connections j = .writing requestCount parser data written after) :
      Moves cfg p (.send j o) (p.settle j (.afterSend cfg requestCount parser data written after o))
  | stop : Moves cfg p .stop { p with running := false }

theorem poolStep_moves {cfg : Config} {p p' : Program n} {now : Moment} {a : Pool.Action n}
    (took : p.poolStep cfg now a = some p') : Moves cfg p (.pool a now) p' := by
  cases a with
  | worker i threw =>
    obtain ⟨pool, worked, rest⟩ := Option.bind_eq_some_iff.1 took
    have stepped := Pool.workerStep_cases worked
    split at rest
    · rename_i j taken
      cases rest
      exact .begin_ stepped taken
    · rename_i j running
      split at rest
      · rename_i closed
        cases rest
        exact .finish stepped running (.inl ⟨_, closed⟩)
      · rename_i threw
        cases rest
        exact .finish stepped running (.inr threw)
      · cases rest
    · rename_i taken running
      cases rest
      exact .work stepped fun j => ⟨taken j, running j⟩
  | enqueue j woken =>
    simp only [poolStep] at took
    split at took
    · rename_i acceptor
      obtain ⟨pool, called, rfl⟩ := Option.map_eq_some_iff.1 took
      have stepped := Pool.enqueueStep_cases called
      split
      · rename_i returned
        exact .admitted stepped acceptor returned
      · rename_i returned
        exact .refused stepped acceptor returned
      · rename_i yes no
        refine .enqueue stepped acceptor fun b => ?_
        cases b with
        | true => exact yes
        | false => exact no
    · cases took
  | shutdown k =>
    obtain ⟨pool, stepped, rfl⟩ := Option.map_eq_some_iff.1 took
    exact .shutdown (Pool.shutdownStep_cases stepped)

/-- Every step is one of the moves. -/
theorem step_moves {cfg : Config} {p p' : Program n} {act : ProgramAct n} (took : p.step cfg act = some p') :
    Moves cfg p act p' := by
  unfold step at took
  split at took
  · cases took
  · cases act with
    | leave j =>
      dsimp only at took
      split at took <;> cases took
      exact .leave
    | accept client =>
      simp only [acceptStep] at took
      split at took
      · rename_i acceptor
        cases took
        exact .nobody acceptor
      · rename_i j acceptor
        split at took
        · rename_i waiting
          split at took <;> rename_i threads <;> cases took
          · exact .thread acceptor waiting threads
          · exact .accept acceptor waiting threads
        · cases took
      · cases took
    | pool a now => exact poolStep_moves took
    | recv j o now =>
      simp only [recvStep] at took
      split at took <;> cases took
      rename_i conn
      exact .recv conn
    | send j o =>
      simp only [sendStep] at took
      split at took
      · rename_i conn
        split at took
        · split at took <;> cases took
          · exact .killed conn
          · exact .send conn
        · cases took
      · cases took
    | stop =>
      cases took
      exact .stop

/-! ## Who has a connection -/

/-- What holds of connection `j` in thread-pool mode. -/
structure Held (p : Program n) (j : Nat) : Prop where
  fresh : p.connections j = .waiting → p.pool.enqueues j = .idle
  calling : p.acceptor = .enqueuing j → (∀ b, p.pool.enqueues j ≠ .returned b) ∧
    ((p.pool.enqueues j).pushed = false → p.connections j = .accepted)
  accepted : p.connections j = .accepted → p.acceptor = .enqueuing j ∨ p.pool.Waits j
  waits : p.pool.Waits j → p.connections j = .accepted
  begun : p.pool.Begun j → p.connections j ≠ .waiting ∧ p.connections j ≠ .accepted
  served : (p.connections j).served = true → p.pool.Running j
  refused : (p.connections j).refused = true → p.acceptor = .refusing j

/-- A connection that is served, or refused. -/
theorem held_within {p : Program n} {j : Nat} {b : Bool} (within_ : (p.connections j).Within b)
    (calling : p.acceptor = .enqueuing j → (∀ b, p.pool.enqueues j ≠ .returned b) ∧ (p.pool.enqueues j).pushed = true)
    (waits : ¬ p.pool.Waits j) (serves : b = false → (p.connections j).served = true → p.pool.Running j)
    (refuses : b = true → (p.connections j).refused = true → p.acceptor = .refusing j) : Held p j where
  fresh waiting := absurd waiting within_.begun.1
  calling enqueuing := by
    obtain ⟨going, pushed⟩ := calling enqueuing
    exact ⟨going, fun unpushed => by cases pushed.symm.trans unpushed⟩
  accepted accepted := absurd accepted within_.begun.2
  waits h := absurd h waits
  begun _ := within_.begun
  served h := serves (within_.serves h) h
  refused h := refuses (within_.refuses h) h

/-- Only these matter. -/
theorem Held.congr {p p' : Program n} {x : Nat} (h : Held p x) (pool : p'.pool = p.pool)
    (conn : p'.connections x = p.connections x) (enqueuing : p'.acceptor = .enqueuing x ↔ p.acceptor = .enqueuing x)
    (refusing : p.acceptor = .refusing x → p'.acceptor = .refusing x) : Held p' x := by
  obtain ⟨fresh, calling, accepted, waits, begun, served, refused⟩ := h
  rw [← pool, ← conn] at fresh calling waits begun served
  rw [← pool, ← conn] at accepted
  rw [← conn] at refused
  exact ⟨fresh, fun h => calling (enqueuing.1 h), fun h => (accepted h).imp enqueuing.2 id, waits, begun, served,
    fun h => refusing (refused h)⟩

/-- Between two clients the accept loop holds none. -/
theorem onward_free (p : Program n) (j : Nat) : p.onward ≠ .enqueuing j ∧ p.onward ≠ .refusing j := by
  unfold onward
  split <;> exact ⟨nofun, nofun⟩

/-- A connection that moves on does not touch a call of `enqueue`. -/
theorem settle_enqueuing {p : Program n} {j x : Nat} {pc : ConnectionPc} :
    (p.settle j pc).acceptor = .enqueuing x ↔ p.acceptor = .enqueuing x := by
  unfold settle
  dsimp only
  split
  · rename_i i r refusing
    rw [refusing]
    refine iff_of_false ?_ nofun
    split
    · exact (p.onward_free x).1
    · exact nofun
  · rfl

/-- The accept loop goes on when the connection that it refuses is closed. -/
theorem settle_refusing {p : Program n} {j x : Nat} {pc : ConnectionPc} (refusing : p.acceptor = .refusing x)
    (other : x ≠ j ∨ pc.refused = true) : (p.settle j pc).acceptor = .refusing x := by
  unfold settle
  dsimp only
  rw [refusing]
  split
  · rename_i i r same
    cases same
    rcases other with ne | going
    · exact if_neg ne
    · cases going
  · rfl

/-- Another connection goes on. -/
theorem Held.settle {p : Program n} {j x : Nat} (h : Held p x) (ne : x ≠ j) (pc : ConnectionPc) :
    Held (p.settle j pc) x :=
  h.congr rfl (Function.update_of_ne ne _ _) settle_enqueuing fun refusing => settle_refusing refusing (.inl ne)

/-- The connection itself goes on. -/
theorem Held.settles {p : Program n} {j : Nat} (h : Held p j) (before : p.connections j ≠ .accepted)
    {pc : ConnectionPc} {b : Bool} (within_ : pc.Within b) (serves : b = false → p.pool.Running j)
    (refuses : b = true → p.acceptor = .refusing j) : Held (p.settle j pc) j := by
  have self : (p.settle j pc).connections j = pc := Function.update_self ..
  refine held_within (b := b) (by rwa [self]) (fun enqueuing => ?_) (fun waits => before (h.waits waits))
    (fun serving _ => serves serving) (fun refusing refused => ?_)
  · obtain ⟨going, unpushed⟩ := h.calling (settle_enqueuing.1 enqueuing)
    refine ⟨going, ?_⟩
    rw [← Bool.not_eq_false]
    exact fun none_ => before (unpushed none_)
  · rw [self] at refused
    exact settle_refusing (refuses refusing) (.inr refused)

/-- A worker's step that begins no task, and ends none whose connection is still served. -/
theorem Held.work {p : Program n} {i : Fin n} {pool : Pool n} {x : Nat} (h : Held p x)
    (stepped : Pool.WorkerStep p.pool i pool) (taken : p.pool.workers i ≠ .taken x)
    (done : p.pool.workers i = .running x → (p.connections x).served = false) : Held { p with pool } x where
  fresh waiting := by
    rw [stepped.same.1]
    exact h.fresh waiting
  calling enqueuing := by
    rw [stepped.same.1]
    exact h.calling enqueuing
  accepted accepted := (h.accepted accepted).imp_right fun waits => (stepped.waits waits).resolve_right taken
  waits waits := h.waits (stepped.waited waits)
  begun begun := h.begun ((stepped.begun begun).resolve_right taken)
  served served := by
    refine (stepped.running (h.served served)).resolve_right fun running => ?_
    cases served.symm.trans (done running)
  refused := h.refused

/-- The connection of a task that a worker begins. -/
theorem Held.begins {p : Program n} {cfg : Config} {i : Fin n} {pool : Pool n} {j : Nat} (h : Held p j)
    (stepped : Pool.WorkerStep p.pool i pool) (ledger : Pool.Ledger p.pool) (ledger' : Pool.Ledger pool)
    (taken : p.pool.workers i = .taken j) :
    Held { p with pool, connections := Function.update p.connections j (.start cfg) } j := by
  have running : pool.Running j := by
    cases stepped.handing with
    | call before after =>
      cases taken.symm.trans before
      exact ⟨i, after⟩
    | none_ before | take before => exact absurd taken (before j).1
    | done before => cases taken.symm.trans before
  refine held_within (b := false) (by simpa using ConnectionPc.start_within cfg)
    (fun enqueuing => ?_) (ledger'.begun (.inl running)) (fun _ _ => running) nofun
  refine ⟨by rw [stepped.same.1]; exact (h.calling enqueuing).1, ?_⟩
  rw [stepped.same.1, ← Bool.not_eq_false]
  exact fun unpushed => (ledger.nowhere unpushed).1 (.inr ⟨i, taken⟩)

/-- A call of `enqueue` for another client. -/
theorem Held.enqueue {p : Program n} {j x : Nat} {pool : Pool n} {acceptor : AcceptorPc} (h : Held p x) (ne : x ≠ j)
    (stepped : Pool.EnqueueStep p.pool j pool) (calling : p.acceptor = .enqueuing j)
    (other : acceptor ≠ .enqueuing x) : Held { p with pool, acceptor } x := by
  obtain ⟨begun, on, before⟩ := stepped.places x
  refine ⟨fun waiting => ?_, fun enqueuing => absurd enqueuing other, fun accepted => .inr ?_, fun waits => ?_,
    fun h' => h.begun (begun.1 h'), fun served => ?_, fun refused => ?_⟩
  · rw [stepped.others ne]
    exact h.fresh waiting
  · refine on ((h.accepted accepted).resolve_left fun enqueuing => ?_)
    cases calling.symm.trans enqueuing
    exact ne rfl
  · exact h.waits ((before waits).resolve_right fun mine => ne mine.1)
  · exact (Pool.taken_woken stepped.worker x).2.2 (h.served served)
  · cases calling.symm.trans (h.refused refused)

/-- A client that the accept loop has just got. -/
theorem Held.admits {p : Program n} {j : Nat} (h : Held p j) (ledger : Pool.Ledger p.pool)
    (waiting : p.connections j = .waiting) :
    Held { p with connections := Function.update p.connections j .accepted, acceptor := .enqueuing j } j := by
  have idle := h.fresh waiting
  obtain ⟨waits, begun⟩ := ledger.nowhere (by rw [idle]; rfl)
  have self : Function.update p.connections j ConnectionPc.accepted j = .accepted := Function.update_self ..
  refine ⟨fun _ => idle, fun _ => ⟨fun b => ?_, fun _ => self⟩, fun _ => .inl rfl, fun h => absurd h waits,
    fun h => absurd h begun, ?_, ?_⟩
  · dsimp only
    rw [idle]
    exact nofun
  · dsimp only
    rw [self]
    exact nofun
  · dsimp only
    rw [self]
    exact nofun

/-- A client for which `enqueue` is called has been accepted. -/
theorem Held.called {p : Program n} {j : Nat} (h : Held p j) (ledger : Pool.Ledger p.pool)
    (calling : p.acceptor = .enqueuing j) : p.connections j ≠ .waiting := by
  cases pushed : (p.pool.enqueues j).pushed with
  | false =>
    rw [(h.calling calling).2 pushed]
    exact nofun
  | true =>
    rcases ledger.somewhere pushed with waits | begun
    · rw [h.waits waits]
      exact nofun
    · exact (h.begun begun).1

/-- The call of `enqueue` goes on, or has accepted the client. -/
theorem Held.calls {p : Program n} {j : Nat} {pool : Pool n} {acceptor : AcceptorPc} (h : Held p j)
    (ledger : Pool.Ledger p.pool) (stepped : Pool.EnqueueStep p.pool j pool) (calling : p.acceptor = .enqueuing j)
    (on : acceptor = .enqueuing j → ∀ b, pool.enqueues j ≠ .returned b)
    (stays : p.connections j = .accepted → acceptor = .enqueuing j ∨ pool.Waits j) :
    Held { p with pool, acceptor } j := by
  obtain ⟨begun, -, before⟩ := stepped.places j
  refine ⟨fun waiting => absurd waiting (h.called ledger calling), fun enqueuing => ⟨on enqueuing, fun none_ => ?_⟩,
    stays, fun waits => ?_, fun h' => h.begun (begun.1 h'), fun served => ?_, fun refused => ?_⟩
  · refine (h.calling calling).2 ?_
    -- what is not pushed after the step has not been pushed before
    cases stepped with
    | push place | nobody place | wake place => simp [EnqueuePc.pushed] at none_
    | call place | lock place | stopped place | pass place | full place => simp [place, EnqueuePc.pushed]
  · rcases before waits with waits | ⟨-, unpushed⟩
    · exact h.waits waits
    · exact (h.calling calling).2 unpushed
  · exact (Pool.taken_woken stepped.worker j).2.2 (h.served served)
  · cases calling.symm.trans (h.refused refused)

/-- `enqueue` has accepted the client. -/
theorem Held.admitted {p : Program n} {j : Nat} {pool : Pool n} (h : Held p j) (ledger : Pool.Ledger p.pool)
    (ledger' : Pool.Ledger pool) (stepped : Pool.EnqueueStep p.pool j pool) (calling : p.acceptor = .enqueuing j)
    (returned : pool.enqueues j = .returned true) : Held { p with pool, acceptor := p.onward } j := by
  refine h.calls ledger stepped calling (fun on => absurd on (p.onward_free j).1) fun accepted => .inr ?_
  rcases ledger'.somewhere (by rw [returned]; rfl) with waits | begun
  · exact waits
  · exact absurd accepted (h.begun ((stepped.places j).1.1 begun)).2

/-- `enqueue` has not accepted the client. -/
theorem held_refused {p : Program n} {j : Nat} {pool : Pool n} {pc : ConnectionPc} (ledger' : Pool.Ledger pool)
    (returned : pool.enqueues j = .returned false) (within_ : pc.Within true) :
    Held ({ p with pool, acceptor := .refusing j }.settle j pc) j := by
  have self : ({ p with pool, acceptor := .refusing j }.settle j pc).connections j = pc := Function.update_self ..
  refine held_within (b := true) (by rwa [self]) (fun enqueuing => ?_) ?_ nofun fun _ refused => ?_
  · cases settle_enqueuing.1 enqueuing
  · exact (ledger'.nowhere (by rw [returned]; rfl)).1
  · rw [self] at refused
    exact settle_refusing rfl (.inr refused)

/-- A step of `shutdown` moves neither the connection nor its task. -/
theorem Held.shutdown {p : Program n} {k x : Nat} {pool : Pool n} (h : Held p x)
    (stepped : Pool.ShutdownStep p.pool k pool) : Held { p with pool } x := by
  obtain ⟨begun, waits⟩ := stepped.places x
  refine ⟨fun waiting => ?_, fun enqueuing => ?_, fun accepted => (h.accepted accepted).imp_right waits.2,
    fun h' => h.waits (waits.1 h'), fun h' => h.begun (begun.1 h'), fun served => ?_, h.refused⟩
  · rw [stepped.same.1]
    exact h.fresh waiting
  · rw [stepped.same.1]
    exact h.calling enqueuing
  · exact (Pool.taken_woken stepped.worker x).2.2 (h.served served)

/-- **Every step keeps the custody of every connection.** -/
theorem held_step {cfg : Config} {p p' : Program n} {act : ProgramAct n} (pooled : 0 < n)
    (ledger : Pool.Ledger p.pool) (ledger' : Pool.Ledger p'.pool) (inv : ∀ j, Held p j) (moves : Moves cfg p act p')
    (x : Nat) : Held p' x := by
  cases moves with
  | leave | killed | stop => exact (inv x).congr rfl rfl Iff.rfl id
  | nobody acceptor =>
    refine (inv x).congr rfl rfl (iff_of_false (p.onward_free x).1 ?_) fun refusing => ?_
    · rw [acceptor]
      exact nofun
    · cases acceptor.symm.trans refusing
  | thread acceptor waiting threads => omega
  | @accept j acceptor waiting =>
    by_cases eq : x = j
    · subst eq
      exact (inv x).admits ledger waiting
    · refine (inv x).congr rfl (Function.update_of_ne eq _ _) ?_ fun refusing => ?_
      · refine iff_of_false (fun same => eq ?_) ?_
        · cases same
          rfl
        · rw [acceptor]
          exact nofun
      · cases acceptor.symm.trans refusing
  | @begin_ i b now j pool stepped taken =>
    by_cases eq : x = j
    · subst eq
      exact (inv x).begins stepped ledger ledger' taken
    · have worked : Held { p with pool } x := by
        refine (inv x).work stepped (fun same => eq ?_) fun running => ?_
        · cases taken.symm.trans same
          rfl
        · cases taken.symm.trans running
      exact worked.congr rfl (Function.update_of_ne eq _ _) Iff.rfl id
  | @finish i b now j pool stepped running ended =>
    refine (inv x).work stepped (fun taken => ?_) fun same => ?_
    · cases running.symm.trans taken
    · cases running.symm.trans same
      rcases ended with ⟨r, closed⟩ | threw
      · rw [closed]
        rfl
      · rw [threw]
        rfl
  | work stepped free => exact (inv x).work stepped (free x).1 fun running => absurd running (free x).2
  | @admitted j woken now pool stepped calling returned =>
    by_cases eq : x = j
    · subst eq
      exact (inv x).admitted ledger ledger' stepped calling returned
    · exact (inv x).enqueue eq stepped calling (p.onward_free x).1
  | @refused j woken now pool stepped calling returned =>
    by_cases eq : x = j
    · subst eq
      exact held_refused ledger' returned (ConnectionPc.refuse_within cfg _)
    · have called : Held { p with pool, acceptor := .refusing j } x := (inv x).enqueue eq stepped calling nofun
      exact called.settle eq _
  | @enqueue j woken now pool stepped calling going =>
    by_cases eq : x = j
    · subst eq
      exact (inv x).calls ledger stepped calling (fun _ => going) fun _ => .inl calling
    · refine (inv x).enqueue eq stepped calling fun same => eq ?_
      cases calling.symm.trans same
      rfl
  | shutdown stepped => exact (inv x).shutdown stepped
  | @recv j requestCount parser o now terminated conn =>
    have on : Held (p.settle j (.afterRecv cfg now requestCount parser o)) x := by
      by_cases eq : x = j
      · subst eq
        refine (inv x).settles (by rw [conn]; exact nofun) (ConnectionPc.afterRecv_within ..) (fun _ => ?_) nofun
        exact (inv x).served (by rw [conn]; rfl)
      · exact (inv x).settle eq _
    exact on.congr rfl rfl Iff.rfl id
  | @send j requestCount parser data written after o conn =>
    by_cases eq : x = j
    · subst eq
      refine (inv x).settles (by rw [conn]; exact nofun) (ConnectionPc.afterSend_within ..) (fun serves => ?_)
        fun refuses => ?_
      · refine (inv x).served ?_
        rw [conn]
        simpa [ConnectionPc.served] using serves
      · refine (inv x).refused ?_
        rw [conn]
        exact refuses
    · exact (inv x).settle eq _

/-- In every run a connection is where its call of `enqueue`, its task and the accept loop say. -/
theorem reach_held {cfg : Config} {maxQueueSize : Nat} {p : Program n} (pooled : 0 < n)
    (run : Reach (step cfg) (main n maxQueueSize) p) (j : Nat) : Held p j := by
  induction run generalizing j with
  | start =>
    refine ⟨fun _ => rfl, nofun, nofun, ?_, ?_, nofun, nofun⟩
    · rintro (queued | ⟨i, taken⟩)
      · cases queued
      · cases taken
    · rintro (⟨i, running⟩ | run)
      · cases running
      · cases run
  | next run ok took ih =>
    have ledger := Pool.reach_ledger (reach_pool run)
    have ledger' := Pool.reach_ledger (reach_pool (run.next ok took))
    exact held_step pooled ledger ledger' ih (step_moves took) j

/-! ## The open connections -/

end Program

/-- Accepted and not closed. -/
def ConnectionPc.open_ : ConnectionPc → Bool
  | .accepted | .reading _ _ | .writing _ _ _ _ _ => true
  | _ => false

theorem ConnectionPc.open_cases {pc : ConnectionPc} (h : pc.open_ = true) :
    pc = .accepted ∨ pc.served = true ∨ pc.refused = true := by
  cases pc with
  | accepted => exact .inl rfl
  | reading => exact .inr (.inl rfl)
  | writing requestCount parser data written after =>
    by_cases refused : after = .refused
    · exact .inr (.inr (decide_eq_true refused))
    · exact .inr (.inl (decide_eq_true refused))
  | waiting | closed | threw => cases h

/-- The client that the accept loop is at. -/
def AcceptorPc.clients : AcceptorPc → Finset Nat
  | .enqueuing j | .refusing j => {j}
  | _ => ∅

/-- The task that the worker is at. -/
def WorkerPc.tasks : WorkerPc → Finset Nat
  | .taken j | .running j => {j}
  | _ => ∅

/-- The accept loop holds one connection at most. -/
theorem AcceptorPc.clients_card (a : AcceptorPc) : a.clients.card ≤ 1 := by
  cases a <;> simp [AcceptorPc.clients]

/-- So does each worker. -/
theorem WorkerPc.tasks_card (w : WorkerPc) : w.tasks.card ≤ 1 := by
  cases w <;> simp [WorkerPc.tasks]

namespace Program

variable {n : Nat}

/-- Whoever may have an open connection. -/
def holding (p : Program n) : Finset Nat :=
  p.acceptor.clients ∪ p.pool.tasks.toFinset ∪ Finset.univ.biUnion fun i => (p.pool.workers i).tasks

/-- The holders together: the accept loop, the queue and the workers. -/
theorem holding_card (p : Program n) : p.holding.card ≤ 1 + p.pool.tasks.length + n := by
  have workers : (Finset.univ.biUnion fun i => (p.pool.workers i).tasks).card ≤ n := by
    have each := Finset.card_biUnion_le_card_mul Finset.univ (fun i => (p.pool.workers i).tasks) 1
      fun i _ => (p.pool.workers i).tasks_card
    simpa using each
  calc p.holding.card
      ≤ (p.acceptor.clients ∪ p.pool.tasks.toFinset).card +
          (Finset.univ.biUnion fun i => (p.pool.workers i).tasks).card := Finset.card_union_le _ _
    _ ≤ p.acceptor.clients.card + p.pool.tasks.toFinset.card + n :=
        Nat.add_le_add (Finset.card_union_le _ _) workers
    _ ≤ 1 + p.pool.tasks.length + n :=
        Nat.add_le_add_right (Nat.add_le_add p.acceptor.clients_card (List.toFinset_card_le _)) n

/-- An open connection is one that somebody holds. -/
theorem Held.holding {p : Program n} {j : Nat} (h : Held p j) (open_ : (p.connections j).open_ = true) :
    j ∈ p.holding := by
  rw [Program.holding, Finset.mem_union, Finset.mem_union, Finset.mem_biUnion, List.mem_toFinset]
  rcases ConnectionPc.open_cases open_ with accepted | served | refused
  · rcases h.accepted accepted with calling | queued | ⟨i, taken⟩
    · exact .inl (.inl (by simp [calling, AcceptorPc.clients]))
    · exact .inl (.inr queued)
    · exact .inr ⟨i, Finset.mem_univ i, by simp [taken, WorkerPc.tasks]⟩
  · obtain ⟨i, running⟩ := h.served served
    exact .inr ⟨i, Finset.mem_univ i, by simp [running, WorkerPc.tasks]⟩
  · exact .inl (.inl (by simp [h.refused refused, AcceptorPc.clients]))

/-- **The pool bounds the open connections**: one for each worker, those in the queue, and the one that the accept
loop is at. -/
theorem open_bounded {cfg : Config} {maxQueueSize : Nat} {p : Program n} (pooled : 0 < n)
    (run : Reach (step cfg) (main n maxQueueSize) p) (S : Finset Nat)
    (open_ : ∀ j ∈ S, (p.connections j).open_ = true) : S.card ≤ n + maxQueueSize + 1 := by
  have sub : S ⊆ p.holding := fun j mem => (reach_held pooled run j).holding (open_ j mem)
  have size := Pool.reach_size (reach_pool run)
  have card := (Finset.card_le_card sub).trans p.holding_card
  omega

/-- One client for the worker, one for the queue, and one too many. -/
def threeClients (i : Fin 1) (now : Moment) : List (ProgramAct 1) :=
  .accept (some 0) :: List.replicate 5 (.pool (.enqueue 0 none) now) ++
  List.replicate 5 (.pool (.worker i false) now) ++ [.accept (some 1)] ++
  List.replicate 5 (.pool (.enqueue 1 none) now) ++ [.accept (some 2)] ++
  List.replicate 4 (.pool (.enqueue 2 none) now)

set_option maxRecDepth 2000 in
/-- As many as there may be. -/
theorem open_bounded_three : ∃ p : Program 1,
    (∀ j ∈ ({0, 1, 2} : Finset Nat), (p.connections j).open_ = true) ∧ (p.connections 2).refused = true ∧
      ({0, 1, 2} : Finset Nat).card ≤ 1 + 1 + 1 := by
  obtain ⟨p, ran, served, queued, refused, open_⟩ : ∃ p : Program 1,
      exec (step {}) (fun _ _ => true) (main 1 1) (threeClients 0 ⟨.still, fun _ => none⟩) = some p ∧
      (p.connections 0).open_ = true ∧ (p.connections 1).open_ = true ∧ (p.connections 2).refused = true ∧
      (p.connections 2).open_ = true := ⟨_, rfl, rfl, rfl, rfl, rfl⟩
  have all : ∀ j ∈ ({0, 1, 2} : Finset Nat), (p.connections j).open_ = true := by
    simp [served, queued, open_]
  exact ⟨p, all, refused, open_bounded (by decide) (exec_reach _ ran) _ all⟩

end Program

end HttpServer
