import HttpServer.Lib.StopFlag
import Mathlib.Data.Finset.Basic

/-!
# Starting and stopping

One call of `start()` and any number of calls of `stop()`, statement by
statement, for both servers. `start()` stores true in `running_` after it has
set up its listener, and does not look whether a stop has been requested since
it was entered. A request that stores false before that store is lost
(`stop_lost`), any other one is kept (`stop_kept`).
-/

namespace HttpServer

open Runs StopFlag

namespace Lifecycle

/-- Where a call of `stop()` is; `late` if it began behind the entry of `start()`. -/
inductive StopPc where
  | idle
  /-- In front of `running_ = false`. -/
  | storing (late : Bool)
  /-- In front of `listener_.stop()`. -/
  | closing (late : Bool)
  /-- In front of the shutdown of the pool, or of the removal of the connections. -/
  | releasing (late : Bool)
  | returned (late : Bool)
  deriving DecidableEq

/-- A late `stop()` has stored false. -/
def StopPc.lowered : StopPc → Bool
  | .closing late | .releasing late | .returned late => late
  | .idle | .storing _ => false

inductive Action (Outcome : Type) where
  /-- The next statement of `start()`, given the outcome of its system call. -/
  | start (outcome : Outcome)
  /-- The next statement of the `i`th `stop()`. -/
  | stop (i : Nat)

/-! ## The blocking server -/

/-- Where `Server::start` is. -/
inductive StartPc where
  | outside
  /-- In `listener_.start()`. -/
  | creating | binding | listening
  /-- In front of `running_ = true`. -/
  | storing
  | pooling
  /-- At the condition of the accept loop. -/
  | testing
  /-- In an iteration: in front of `::accept`, in it, and with a client. -/
  | accepting | waiting | serving
  | joining
  | returned
  deriving DecidableEq

structure Server where
  numWorkers : Nat
  running : Bool := false
  /-- `listener_` holds a socket. -/
  listener : Bool := false
  /-- Whether the pool, once it exists, has been shut down. -/
  pool : Option Bool := none
  start : StartPc := .outside
  iterations : Nat := 0
  stops : Nat → StopPc := fun _ => .idle

namespace Server

/-- `Server::start`; `ok` tells whether a system call succeeds. -/
def startStep (s : Server) (ok : Bool) : Option Server :=
  match s.start with
  | .outside => some { s with start := .creating }
  | .creating => some { s with listener := ok, start := if ok then .binding else .returned }
  | .binding => some { s with start := if ok && s.listener then .listening else .returned }
  | .listening => some { s with start := if ok && s.listener then .storing else .returned }
  | .storing => some { s with running := true, start := if 0 < s.numWorkers then .pooling else .testing }
  | .pooling => some { s with pool := some false, start := .testing }
  | .testing =>
    if s.running then some { s with start := .accepting, iterations := s.iterations + 1 }
    else some { s with start := if 0 < s.numWorkers then .returned else .joining }
  | .accepting => some { s with start := if s.listener then .waiting else .testing }
  | .waiting => some { s with start := if ok then .serving else .testing }
  | .serving => some { s with start := .testing }
  | .joining => some { s with start := .returned }
  | .returned => none

/-- `Server::stop`. -/
def stopStep (s : Server) (i : Nat) : Option Server :=
  match s.stops i with
  | .idle => some { s with stops := Function.update s.stops i (.storing (s.start != .outside)) }
  | .storing late => some { s with running := false, stops := Function.update s.stops i (.closing late) }
  | .closing late => some { s with listener := false, stops := Function.update s.stops i (.releasing late) }
  | .releasing late =>
    some { s with pool := s.pool.map fun _ => true, stops := Function.update s.stops i (.returned late) }
  | .returned _ => none

def step (s : Server) : Action Bool → Option Server
  | .start ok => s.startStep ok
  | .stop i => s.stopStep i

/-- `start()` stores true only while no late `stop()` has stored false. -/
def Timely (s : Server) : Action Bool → Prop
  | .start _ => s.start = .storing → ∀ i, (s.stops i).lowered = false
  | .stop _ => True

end Server

/-! ## The event-driven server -/

/-- Where `EpollServer::start` is. -/
inductive EpollStartPc where
  | outside
  /-- In `listener_.start()`. -/
  | creating | binding | listening
  | nonblocking
  /-- In front of `add_to_epoll`, with a descriptor that was valid or not. -/
  | adding (valid : Bool)
  /-- In front of `running_ = true`. -/
  | storing
  /-- At the condition of the event loop. -/
  | testing
  /-- In an iteration: in `epoll_wait`, and with events left. -/
  | polling | handling (left : Nat)
  | returned
  deriving DecidableEq

/-- What a system call returns, or which connections the handler of an event leaves. -/
inductive EpollOutcome where
  | failed
  | interrupted
  | ok
  | events (n : Nat)
  | handled (connections : Finset Nat)
  deriving DecidableEq

structure EpollServer where
  running : Bool := false
  /-- `listener_` holds a socket. -/
  listener : Bool := false
  connections : Finset Nat := ∅
  start : EpollStartPc := .outside
  iterations : Nat := 0
  stops : Nat → StopPc := fun _ => .idle

namespace EpollServer

/-- `EpollServer::start`. -/
def startStep (s : EpollServer) (o : EpollOutcome) : Option EpollServer :=
  match s.start with
  | .outside => some { s with start := .creating }
  | .creating => some { s with listener := o == .ok, start := if o == .ok then .binding else .returned }
  | .binding => some { s with start := if o == .ok && s.listener then .listening else .returned }
  | .listening => some { s with start := if o == .ok && s.listener then .nonblocking else .returned }
  | .nonblocking => some { s with start := .adding s.listener }
  | .adding valid => some { s with start := if o == .ok && valid then .storing else .returned }
  | .storing => some { s with running := true, start := .testing }
  | .testing =>
    if s.running then some { s with start := .polling, iterations := s.iterations + 1 }
    else some { s with start := .returned }
  | .polling =>
    match o with
    | .interrupted => some { s with start := .testing }
    | .events n => some { s with start := .handling n }
    | _ => some { s with start := .returned }
  | .handling 0 => some { s with start := .testing }
  | .handling (left + 1) =>
    match o with
    | .handled connections => some { s with connections, start := .handling left }
    | _ => none
  | .returned => none

/-- `EpollServer::stop`. -/
def stopStep (s : EpollServer) (i : Nat) : Option EpollServer :=
  match s.stops i with
  | .idle => some { s with stops := Function.update s.stops i (.storing (s.start != .outside)) }
  | .storing late => some { s with running := false, stops := Function.update s.stops i (.closing late) }
  | .closing late => some { s with listener := false, stops := Function.update s.stops i (.releasing late) }
  | .releasing late => some { s with connections := ∅, stops := Function.update s.stops i (.returned late) }
  | .returned _ => none

def step (s : EpollServer) : Action EpollOutcome → Option EpollServer
  | .start o => s.startStep o
  | .stop i => s.stopStep i

/-- `start()` stores true only while no late `stop()` has stored false. -/
def Timely (s : EpollServer) : Action EpollOutcome → Prop
  | .start _ => s.start = .storing → ∀ i, (s.stops i).lowered = false
  | .stop _ => True

end EpollServer

/-! ## Both servers follow the flag -/

def StopPc.request : StopPc → Phase
  | .idle => .idle
  | .storing late => .made late
  | .closing late | .releasing late => .lowered late
  | .returned late => .returned late

@[simp] theorem StopPc.request_holds (pc : StopPc) : pc.request.holds = pc.lowered := by
  cases pc <;> rfl

/-- What the next statement of a `stop()` does to the flag. -/
def StopPc.act (i : Nat) : StopPc → Act Nat
  | .idle => .request i
  | .storing _ => .lower i
  | .releasing _ => .done i
  | .closing _ | .returned _ => .other

def StopPc.next (entered : Bool) : StopPc → StopPc
  | .idle => .storing entered
  | .storing late => .closing late
  | .closing late => .releasing late
  | .releasing late | .returned late => .returned late

/-- The flag behind that statement. -/
def StopPc.behind (raised : Bool) : StopPc → Bool
  | .storing _ => false
  | _ => raised

/-- The statements of a `stop()` are steps of its request. -/
theorem stop_flag (raised entered : Bool) (stops : Nat → StopPc) (rounds i : Nat) :
    StopFlag.step ⟨raised, entered, fun j => (stops j).request, rounds⟩ ((stops i).act i) =
      some ⟨(stops i).behind raised, entered,
        fun j => (Function.update stops i ((stops i).next entered) j).request, rounds⟩ := by
  have moved (pc : StopPc) : (fun j => (Function.update stops i pc j).request) =
      Function.update (fun j => (stops j).request) i pc.request :=
    Function.comp_update StopPc.request stops i pc
  rw [moved]
  cases pc : stops i with
  | idle | storing late | releasing late =>
    simp only [StopFlag.step, StopPc.act, pc]
    rfl
  | closing late | returned late =>
    have same : Function.update (fun j => (stops j).request) i (stops i).request = fun j => (stops j).request :=
      Function.update_eq_self i fun j => (stops j).request
    rw [pc] at same
    simp only [StopFlag.step, StopPc.act, StopPc.next, StopPc.request] at same ⊢
    rw [same]
    rfl

/-- No step of `stop` raises the flag. -/
theorem heeded_stop (f : StopFlag.State Nat) (i : Nat) (pc : StopPc) : Heeded f (pc.act i) := by
  cases pc <;> trivial

namespace Server

def flag (s : Server) : StopFlag.State Nat where
  raised := s.running
  entered := s.start != .outside
  requests i := (s.stops i).request
  rounds := s.iterations

def startAct (s : Server) : Act Nat :=
  match s.start with
  | .outside => .enter
  | .storing => .raise
  | .testing => if s.running then .round else .other
  | _ => .other

def act (s : Server) : Action Bool → Act Nat
  | .start _ => s.startAct
  | .stop i => (s.stops i).act i

theorem startStep_flag {s t : Server} {ok : Bool} (took : s.startStep ok = some t) :
    StopFlag.step s.flag s.startAct = some t.flag := by
  unfold startStep at took
  unfold startAct flag
  cases pc : s.start with
  | testing =>
    simp only [pc] at took
    split at took
    · rename_i up
      cases took
      simp only [StopFlag.step, up, if_true]
      rfl
    · rename_i down
      cases took
      simp only [StopFlag.step, down, Bool.false_eq_true, if_false]
      split <;> rfl
  | returned => simp [pc] at took
  | _ =>
    simp only [pc, Option.some.injEq] at took
    subst took
    simp only [StopFlag.step]
    first
      | rfl
      | split <;> rfl

theorem stopStep_flag {s t : Server} {i : Nat} (took : s.stopStep i = some t) :
    StopFlag.step s.flag ((s.stops i).act i) = some t.flag := by
  have moved := stop_flag s.running (s.start != .outside) s.stops s.iterations i
  unfold stopStep at took
  cases pc : s.stops i with
  | returned late => simp [pc] at took
  | _ =>
    rw [pc] at moved
    simp only [pc, Option.some.injEq] at took
    subst took
    exact moved

/-- A timely step is a step of the flag that heeds the requests. -/
theorem step_flag {s t : Server} {a : Action Bool} (timely : s.Timely a) (took : s.step a = some t) :
    Heeded s.flag (s.act a) ∧ StopFlag.step s.flag (s.act a) = some t.flag := by
  cases a with
  | start ok =>
    refine ⟨?_, startStep_flag took⟩
    change Heeded s.flag s.startAct
    unfold startAct
    cases pc : s.start with
    | storing => exact fun i => (StopPc.request_holds _).trans (timely pc i)
    | testing =>
      dsimp only
      split <;> trivial
    | _ => trivial
  | stop i => exact ⟨heeded_stop _ i _, stopStep_flag took⟩

end Server

namespace EpollServer

def flag (s : EpollServer) : StopFlag.State Nat where
  raised := s.running
  entered := s.start != .outside
  requests i := (s.stops i).request
  rounds := s.iterations

def startAct (s : EpollServer) : Act Nat :=
  match s.start with
  | .outside => .enter
  | .storing => .raise
  | .testing => if s.running then .round else .other
  | _ => .other

def act (s : EpollServer) : Action EpollOutcome → Act Nat
  | .start _ => s.startAct
  | .stop i => (s.stops i).act i

theorem startStep_flag {s t : EpollServer} {o : EpollOutcome} (took : s.startStep o = some t) :
    StopFlag.step s.flag s.startAct = some t.flag := by
  unfold startStep at took
  unfold startAct flag
  cases pc : s.start with
  | testing =>
    simp only [pc] at took
    split at took
    · rename_i up
      cases took
      simp only [StopFlag.step, up, if_true]
      rfl
    · rename_i down
      cases took
      simp only [StopFlag.step, down, Bool.false_eq_true, if_false]
      rfl
  | returned => simp [pc] at took
  | polling =>
    simp only [pc] at took
    split at took <;> cases took <;> rfl
  | handling left =>
    cases left with
    | zero =>
      simp only [pc, Option.some.injEq] at took
      subst took
      rfl
    | succ left =>
      simp only [pc] at took
      split at took <;> cases took
      rfl
  | _ =>
    simp only [pc, Option.some.injEq] at took
    subst took
    simp only [StopFlag.step]
    first
      | rfl
      | split <;> rfl

theorem stopStep_flag {s t : EpollServer} {i : Nat} (took : s.stopStep i = some t) :
    StopFlag.step s.flag ((s.stops i).act i) = some t.flag := by
  have moved := stop_flag s.running (s.start != .outside) s.stops s.iterations i
  unfold stopStep at took
  cases pc : s.stops i with
  | returned late => simp [pc] at took
  | _ =>
    rw [pc] at moved
    simp only [pc, Option.some.injEq] at took
    subst took
    exact moved

/-- A timely step is a step of the flag that heeds the requests. -/
theorem step_flag {s t : EpollServer} {a : Action EpollOutcome} (timely : s.Timely a)
    (took : s.step a = some t) :
    Heeded s.flag (s.act a) ∧ StopFlag.step s.flag (s.act a) = some t.flag := by
  cases a with
  | start o =>
    refine ⟨?_, startStep_flag took⟩
    change Heeded s.flag s.startAct
    unfold startAct
    cases pc : s.start with
    | storing => exact fun i => (StopPc.request_holds _).trans (timely pc i)
    | testing =>
      dsimp only
      split <;> trivial
    | _ => trivial
  | stop i => exact ⟨heeded_stop _ i _, stopStep_flag took⟩

end EpollServer

/-- **A stop request is kept** by both servers in every run in which `start()` stores true only while no
`stop()` that began behind its entry has stored false. -/
theorem stop_kept (numWorkers i : Nat) :
    (∀ s t : Server, Run Server.step Server.Timely { numWorkers } s → s.stops i = .returned true →
      Run Server.step Server.Timely s t → t.running = false ∧ t.iterations = s.iterations) ∧
    ∀ s t : EpollServer, Run EpollServer.step EpollServer.Timely {} s → s.stops i = .returned true →
      Run EpollServer.step EpollServer.Timely s t → t.running = false ∧ t.iterations = s.iterations := by
  constructor
  · intro s t run returned later
    have init : Down (Server.flag { numWorkers }) := fun _ _ => rfl
    have late : s.flag.requests i = .returned true := congrArg StopPc.request returned
    exact lowered_stays init (run.simulate fun _ _ _ => Server.step_flag) late
      (later.simulate fun _ _ _ => Server.step_flag)
  · intro s t run returned later
    have init : Down (EpollServer.flag {}) := fun _ _ => rfl
    have late : s.flag.requests i = .returned true := congrArg StopPc.request returned
    exact lowered_stays init (run.simulate fun _ _ _ => EpollServer.step_flag) late
      (later.simulate fun _ _ _ => EpollServer.step_flag)

/-- Four statements of `stop()`. -/
def stopAll {Outcome : Type} : List (Action Outcome) := List.replicate 4 (.stop 0)

/-- Any statement but the store of true. -/
def Server.unstored (s : Server) : Action Bool → Bool
  | .start _ => s.start != .storing
  | .stop _ => true

def EpollServer.unstored (s : EpollServer) : Action EpollOutcome → Bool
  | .start _ => s.start != .storing
  | .stop _ => true

/-- A run without that store is timely. -/
theorem Server.run_of {s t : Server} (as : List (Action Bool))
    (h : exec Server.step Server.unstored s as = some t) : Run Server.step Server.Timely s t := by
  apply (exec_run h).mono
  rintro s (ok | i) fine
  · intro storing
    simp [unstored, storing] at fine
  · trivial

/-- A run that can be evaluated is one of those that the theorem is about. -/
theorem EpollServer.run_of {s t : EpollServer} (as : List (Action EpollOutcome))
    (h : exec EpollServer.step EpollServer.unstored s as = some t) :
    Run EpollServer.step EpollServer.Timely s t := by
  apply (exec_run h).mono
  rintro s (o | i) fine
  · intro storing
    simp [unstored, storing] at fine
  · trivial

/-- Before the first `stop` every step is in time. -/
theorem Server.timely_idle {s : Server} (idle : ∀ i, s.stops i = .idle) (a : Action Bool) : s.Timely a := by
  cases a with
  | start ok =>
    intro _ i
    rw [idle i]
    rfl
  | stop i => trivial

/-- So it is in the event-driven server. -/
theorem EpollServer.timely_idle {s : EpollServer} (idle : ∀ i, s.stops i = .idle) (a : Action EpollOutcome) :
    s.Timely a := by
  cases a with
  | start o =>
    intro _ i
    rw [idle i]
    rfl
  | stop i => trivial

theorem stop_kept_once :
    (∃ s t : Server, s.stops 0 = .returned true ∧ t.running = false ∧ t.iterations = s.iterations) ∧
      ∃ s t : EpollServer, s.stops 0 = .returned true ∧ t.running = false ∧ t.iterations = s.iterations := by
  constructor
  · let up : Server := { numWorkers := 4, listener := true, start := .storing }
    have stored : Run Server.step Server.Timely { numWorkers := 4 } { up with running := true, start := .pooling } :=
      .next (Server.run_of (List.replicate 4 (.start true)) rfl)
        (up.timely_idle (fun _ => rfl) (.start true)) rfl
    have stopped := stored.trans (Server.run_of (List.replicate 3 (.start true) ++ stopAll) rfl)
    exact ⟨_, _, rfl, (stop_kept 4 0).1 _ _ stopped rfl (Server.run_of [.start true, .start true] rfl)⟩
  · let up : EpollServer := { listener := true, start := .storing }
    have stored : Run EpollServer.step EpollServer.Timely {} { up with running := true, start := .testing } :=
      .next (EpollServer.run_of (List.replicate 6 (.start .ok)) rfl)
        (up.timely_idle (fun _ => rfl) (.start .ok)) rfl
    have stopped := stored.trans (EpollServer.run_of (.start .ok :: stopAll) rfl)
    exact ⟨_, _, rfl, (stop_kept 4 0).2 _ _ stopped rfl
      (EpollServer.run_of [.start (.events 0), .start .ok] rfl)⟩

/-- A `stop()` between the start of the listener and the store of true is undone, and the loop goes round. -/
theorem stop_lost :
    (∃ s t : Server, Reach Server.step { numWorkers := 4 } s ∧ s.stops 0 = .returned true ∧
      Reach Server.step s t ∧ t.running = true ∧ s.iterations < t.iterations) ∧
    ∃ s t : EpollServer, Reach EpollServer.step {} s ∧ s.stops 0 = .returned true ∧
      Reach EpollServer.step s t ∧ t.running = true ∧ s.iterations < t.iterations := by
  constructor
  · have stopped : Reach Server.step { numWorkers := 4 } _ :=
      exec_reach (List.replicate 4 (.start true) ++ stopAll) rfl
    exact ⟨_, _, stopped, rfl, exec_reach (List.replicate 3 (.start true)) rfl, rfl, Nat.lt_succ_self _⟩
  · have stopped : Reach EpollServer.step {} _ := exec_reach (List.replicate 6 (.start .ok) ++ stopAll) rfl
    exact ⟨_, _, stopped, rfl, exec_reach (List.replicate 2 (.start .ok)) rfl, rfl, Nat.lt_succ_self _⟩

end Lifecycle

end HttpServer
