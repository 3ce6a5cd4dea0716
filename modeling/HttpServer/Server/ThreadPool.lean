import HttpServer.Lib.Parties
import HttpServer.Lib.Runs

/-!
# The thread pool

`ThreadPool` with its workers, any number of threads that call `enqueue` and any
number that call `shutdown`, each at its place in the code. A step takes one
thread to the next place where another one can act. The condition variable wakes
one blocked worker for `notify_one`, all of them for `notify_all`, and may wake a
worker without a notification; `request_stop` wakes nobody.
-/

namespace HttpServer

/-- A place in `worker_loop`. -/
inductive WorkerPc where
  /-- At the test of the stop token. -/
  | top
  /-- About to lock the mutex. -/
  | locking
  /-- With the mutex, about to evaluate the predicate of `wait`. -/
  | testing
  /-- With the mutex, about to release it and block: the predicate was false. -/
  | parking
  /-- Blocked on the condition variable. -/
  | blocked
  /-- Woken, about to lock the mutex again. -/
  | waking
  /-- With the mutex, behind `wait`. -/
  | awake
  /-- With a task, about to increment the counter. -/
  | taken (task : Nat)
  /-- Inside `task()`. -/
  | running (task : Nat)
  /-- In the `catch` clause. -/
  | catching
  /-- About to decrement the counter. -/
  | finishing
  /-- The thread has ended. -/
  | exited
  deriving DecidableEq

/-- A place in `enqueue`. -/
inductive EnqueuePc where
  /-- Not called yet. -/
  | idle
  /-- About to lock the mutex. -/
  | locking
  /-- With the mutex, about to test `stop_`. -/
  | checking
  /-- With the mutex, about to test the size of the queue and to push. -/
  | pushing
  /-- About to call `notify_one`. -/
  | notifying
  | returned (result : Bool)
  deriving DecidableEq

/-- A place in `shutdown`, with the workers that `workers_.clear()` still has to destroy. -/
inductive ShutdownPc (n : Nat) where
  /-- Not called yet. -/
  | idle
  /-- About to call `notify_all`. -/
  | notifying
  /-- About to request the next worker's stop. -/
  | stopping (left : List (Fin n))
  /-- In `join` of a worker. -/
  | joining (i : Fin n) (left : List (Fin n))
  | returned
  deriving DecidableEq

/-- A thread that can hold the mutex. -/
inductive Holder (n : Nat) where
  | worker (i : Fin n)
  | enqueue (j : Nat)
  deriving DecidableEq

/-- A pool of `n` workers. Call number `j` of `enqueue` brings the task `j`. The last three fields
record the tasks pushed, popped and run, in order. -/
structure Pool (n : Nat) where
  workers : Fin n → WorkerPc := fun _ => .top
  enqueues : Nat → EnqueuePc := fun _ => .idle
  shutdowns : Nat → ShutdownPc n := fun _ => .idle
  stopRequested : Fin n → Bool := fun _ => false
  tasks : List Nat := []
  mutex : Option (Holder n) := none
  stop : Bool := false
  activeCount : UInt64 := 0
  maxQueueSize : Nat
  accepted : List Nat := []
  dequeued : List Nat := []
  executed : List Nat := []

namespace Pool

variable {n : Nat}

/-! ## Steps -/

@[simps] def moveWorker (s : Pool n) (i : Fin n) (pc : WorkerPc) : Pool n :=
  { s with workers := Function.update s.workers i pc }

@[simps] def moveEnqueue (s : Pool n) (j : Nat) (pc : EnqueuePc) : Pool n :=
  { s with enqueues := Function.update s.enqueues j pc }

@[simps] def moveShutdown (s : Pool n) (k : Nat) (pc : ShutdownPc n) : Pool n :=
  { s with shutdowns := Function.update s.shutdowns k pc }

@[simps] def acquire (s : Pool n) (h : Holder n) : Pool n := { s with mutex := some h }

@[simps] def release (s : Pool n) : Pool n := { s with mutex := none }

/-- Push the task, which the call `j` brings. -/
@[simps] def push (s : Pool n) (j : Nat) : Pool n :=
  { s with tasks := s.tasks ++ [j], accepted := s.accepted ++ [j] }

/-- Pop the front task `t`. -/
@[simps] def pop (s : Pool n) (t : Nat) (rest : List Nat) : Pool n :=
  { s with tasks := rest, dequeued := s.dequeued ++ [t] }

/-- `notify_all`. -/
@[simps] def wakeAll (s : Pool n) : Pool n :=
  { s with workers := fun i => if s.workers i == .blocked then .waking else s.workers i }

@[simps] def requestStop (s : Pool n) (i : Fin n) : Pool n :=
  { s with stopRequested := Function.update s.stopRequested i true }

/-- The predicate of `wait`. -/
def wakeable (s : Pool n) (i : Fin n) : Bool :=
  s.stop || !s.tasks.isEmpty || s.stopRequested i

/-- Some worker is blocked. -/
def anyBlocked (s : Pool n) : Bool := (List.finRange n).any fun i => s.workers i == .blocked

@[simps] def countUp (s : Pool n) : Pool n := { s with activeCount := s.activeCount + 1 }

@[simps] def countDown (s : Pool n) : Pool n := { s with activeCount := s.activeCount - 1 }

/-- The call `task()` ends. -/
@[simps] def execute (s : Pool n) (t : Nat) : Pool n := { s with executed := s.executed ++ [t] }

@[simps] def setStop (s : Pool n) : Pool n := { s with stop := true }

/-- A step of worker `i`; `threw` says whether a task that ends does so by an exception. A blocked
worker steps where it wakes without a notification. -/
def workerStep (s : Pool n) (i : Fin n) (threw : Bool) : Option (Pool n) :=
  match s.workers i with
  | .top => some (s.moveWorker i (if s.stopRequested i then .exited else .locking))
  | .locking | .waking =>
    if s.mutex.isNone then some ((s.acquire (.worker i)).moveWorker i .testing) else none
  | .testing => some (s.moveWorker i (if s.wakeable i then .awake else .parking))
  | .parking => some (s.release.moveWorker i .blocked)
  | .blocked => some (s.moveWorker i .waking)
  | .awake =>
    if (s.stop || s.stopRequested i) && s.tasks.isEmpty then some (s.release.moveWorker i .exited)
    else
      match s.tasks with
      | [] => some (s.release.moveWorker i .top)
      | t :: rest => some ((s.pop t rest).release.moveWorker i (.taken t))
  | .taken t => some (s.countUp.moveWorker i (.running t))
  | .running t =>
    some ((s.execute t).moveWorker i (if threw then .catching else .finishing))
  | .catching => some (s.moveWorker i .finishing)
  | .finishing => some (s.countDown.moveWorker i .top)
  | .exited => none

/-- A step of call `j` of `enqueue`; `woken` is the worker that `notify_one` wakes. -/
def enqueueStep (s : Pool n) (j : Nat) (woken : Option (Fin n)) : Option (Pool n) :=
  match s.enqueues j with
  | .idle => some (s.moveEnqueue j .locking)
  | .locking =>
    if s.mutex.isNone then some ((s.acquire (.enqueue j)).moveEnqueue j .checking) else none
  | .checking =>
    if s.stop then some (s.release.moveEnqueue j (.returned false)) else some (s.moveEnqueue j .pushing)
  | .pushing =>
    if s.maxQueueSize ≤ s.tasks.length then some (s.release.moveEnqueue j (.returned false))
    else some ((s.push j).release.moveEnqueue j .notifying)
  | .notifying =>
    match woken with
    | none => if s.anyBlocked then none else some (s.moveEnqueue j (.returned true))
    | some i =>
      if s.workers i == .blocked then some ((s.moveWorker i .waking).moveEnqueue j (.returned true))
      else none
  | .returned _ => none

/-- A step of call `k` of `shutdown`. -/
def shutdownStep (s : Pool n) (k : Nat) : Option (Pool n) :=
  match s.shutdowns k with
  | .idle =>
    if s.stop then some (s.moveShutdown k .returned)
    else some (s.setStop.moveShutdown k .notifying)
  | .notifying => some (s.wakeAll.moveShutdown k (.stopping (List.finRange n)))
  | .stopping [] => some (s.moveShutdown k .returned)
  | .stopping (i :: left) => some ((s.requestStop i).moveShutdown k (.joining i left))
  | .joining i left =>
    if s.workers i == .exited then some (s.moveShutdown k (.stopping left)) else none
  | .returned => none

/-- Whose turn it is. -/
inductive Action (n : Nat) where
  | worker (i : Fin n) (threw : Bool)
  | enqueue (j : Nat) (woken : Option (Fin n))
  | shutdown (k : Nat)

def step (s : Pool n) : Action n → Option (Pool n)
  | .worker i threw => s.workerStep i threw
  | .enqueue j woken => s.enqueueStep j woken
  | .shutdown k => s.shutdownStep k

/-! ## What a step can do -/

inductive WorkerStep (s : Pool n) (i : Fin n) : Pool n → Prop where
  | leave (place : s.workers i = .top) (requested : s.stopRequested i = true) :
      WorkerStep s i (s.moveWorker i .exited)
  | enter (place : s.workers i = .top) (requested : s.stopRequested i = false) :
      WorkerStep s i (s.moveWorker i .locking)
  | lock (place : s.workers i = .locking ∨ s.workers i = .waking) (free : s.mutex = none) :
      WorkerStep s i ((s.acquire (.worker i)).moveWorker i .testing)
  | pass (place : s.workers i = .testing) (wakeable : s.wakeable i = true) :
      WorkerStep s i (s.moveWorker i .awake)
  | park (place : s.workers i = .testing) (wakeable : s.wakeable i = false) :
      WorkerStep s i (s.moveWorker i .parking)
  | block (place : s.workers i = .parking) : WorkerStep s i (s.release.moveWorker i .blocked)
  | stir (place : s.workers i = .blocked) : WorkerStep s i (s.moveWorker i .waking)
  | drain (place : s.workers i = .awake) (stopped : s.stop = true ∨ s.stopRequested i = true)
      (empty : s.tasks = []) : WorkerStep s i (s.release.moveWorker i .exited)
  | again (place : s.workers i = .awake) (empty : s.tasks = []) :
      WorkerStep s i (s.release.moveWorker i .top)
  | take {t : Nat} {rest : List Nat} (place : s.workers i = .awake) (queue : s.tasks = t :: rest) :
      WorkerStep s i ((s.pop t rest).release.moveWorker i (.taken t))
  | call {t : Nat} (place : s.workers i = .taken t) :
      WorkerStep s i (s.countUp.moveWorker i (.running t))
  | done {t : Nat} {pc : WorkerPc} (place : s.workers i = .running t)
      (next : pc = .catching ∨ pc = .finishing) : WorkerStep s i ((s.execute t).moveWorker i pc)
  | caught (place : s.workers i = .catching) : WorkerStep s i (s.moveWorker i .finishing)
  | finish (place : s.workers i = .finishing) : WorkerStep s i (s.countDown.moveWorker i .top)

inductive EnqueueStep (s : Pool n) (j : Nat) : Pool n → Prop where
  | call (place : s.enqueues j = .idle) : EnqueueStep s j (s.moveEnqueue j .locking)
  | lock (place : s.enqueues j = .locking) (free : s.mutex = none) :
      EnqueueStep s j ((s.acquire (.enqueue j)).moveEnqueue j .checking)
  | stopped (place : s.enqueues j = .checking) (stop : s.stop = true) :
      EnqueueStep s j (s.release.moveEnqueue j (.returned false))
  | pass (place : s.enqueues j = .checking) (stop : s.stop = false) :
      EnqueueStep s j (s.moveEnqueue j .pushing)
  | full (place : s.enqueues j = .pushing) (size : s.maxQueueSize ≤ s.tasks.length) :
      EnqueueStep s j (s.release.moveEnqueue j (.returned false))
  | push (place : s.enqueues j = .pushing) (size : s.tasks.length < s.maxQueueSize) :
      EnqueueStep s j ((s.push j).release.moveEnqueue j .notifying)
  | nobody (place : s.enqueues j = .notifying) (none_ : s.anyBlocked = false) :
      EnqueueStep s j (s.moveEnqueue j (.returned true))
  | wake {i : Fin n} (place : s.enqueues j = .notifying) (blocked : s.workers i = .blocked) :
      EnqueueStep s j ((s.moveWorker i .waking).moveEnqueue j (.returned true))

inductive ShutdownStep (s : Pool n) (k : Nat) : Pool n → Prop where
  | second (place : s.shutdowns k = .idle) (stop : s.stop = true) :
      ShutdownStep s k (s.moveShutdown k .returned)
  | first (place : s.shutdowns k = .idle) (stop : s.stop = false) :
      ShutdownStep s k (s.setStop.moveShutdown k .notifying)
  | notify (place : s.shutdowns k = .notifying) :
      ShutdownStep s k (s.wakeAll.moveShutdown k (.stopping (List.finRange n)))
  | cleared (place : s.shutdowns k = .stopping []) : ShutdownStep s k (s.moveShutdown k .returned)
  | request {i : Fin n} {left : List (Fin n)} (place : s.shutdowns k = .stopping (i :: left)) :
      ShutdownStep s k ((s.requestStop i).moveShutdown k (.joining i left))
  | join {i : Fin n} {left : List (Fin n)} (place : s.shutdowns k = .joining i left)
      (exited : s.workers i = .exited) : ShutdownStep s k (s.moveShutdown k (.stopping left))

theorem workerStep_cases {s s' : Pool n} {i : Fin n} {threw : Bool}
    (h : s.workerStep i threw = some s') : WorkerStep s i s' := by
  unfold workerStep at h
  split at h
  · rename_i place
    cases h
    cases requested : s.stopRequested i with
    | true => exact .leave place requested
    | false => exact .enter place requested
  · rename_i place
    split at h
    · rename_i free
      cases h
      exact .lock (.inl place) (Option.isNone_iff_eq_none.1 free)
    · cases h
  · rename_i place
    split at h
    · rename_i free
      cases h
      exact .lock (.inr place) (Option.isNone_iff_eq_none.1 free)
    · cases h
  · rename_i place
    cases h
    cases wakeable : s.wakeable i with
    | true => exact .pass place wakeable
    | false => exact .park place wakeable
  · rename_i place
    cases h
    exact .block place
  · rename_i place
    cases h
    exact .stir place
  · rename_i place
    split at h
    · rename_i stopped
      cases h
      simp only [Bool.and_eq_true, Bool.or_eq_true, List.isEmpty_iff] at stopped
      exact .drain place stopped.1 stopped.2
    · split at h
      · rename_i empty
        cases h
        exact .again place empty
      · rename_i queue
        cases h
        exact .take place queue
  · rename_i place
    cases h
    exact .call place
  · rename_i place
    cases h
    cases threw with
    | true => exact .done place (.inl rfl)
    | false => exact .done place (.inr rfl)
  · rename_i place
    cases h
    exact .caught place
  · rename_i place
    cases h
    exact .finish place
  · cases h

theorem enqueueStep_cases {s s' : Pool n} {j : Nat} {woken : Option (Fin n)}
    (h : s.enqueueStep j woken = some s') : EnqueueStep s j s' := by
  unfold enqueueStep at h
  split at h
  · rename_i place
    cases h
    exact .call place
  · rename_i place
    split at h
    · rename_i free
      cases h
      exact .lock place (Option.isNone_iff_eq_none.1 free)
    · cases h
  · rename_i place
    split at h
    · rename_i stop
      cases h
      exact .stopped place stop
    · rename_i stop
      cases h
      exact .pass place (Bool.eq_false_of_not_eq_true stop)
  · rename_i place
    split at h
    · rename_i size
      cases h
      exact .full place size
    · rename_i size
      cases h
      exact .push place (Nat.lt_of_not_le size)
  · rename_i place
    split at h
    · split at h
      · cases h
      · rename_i none_
        cases h
        exact .nobody place (Bool.eq_false_of_not_eq_true none_)
    · split at h
      · rename_i blocked
        cases h
        exact .wake place (eq_of_beq blocked)
      · cases h
  · cases h

theorem shutdownStep_cases {s s' : Pool n} {k : Nat} (h : s.shutdownStep k = some s') :
    ShutdownStep s k s' := by
  unfold shutdownStep at h
  split at h
  · rename_i place
    split at h
    · rename_i stop
      cases h
      exact .second place stop
    · rename_i stop
      cases h
      exact .first place (Bool.eq_false_of_not_eq_true stop)
  · rename_i place
    cases h
    exact .notify place
  · rename_i place
    cases h
    exact .cleared place
  · rename_i place
    cases h
    exact .request place
  · rename_i place
    split at h
    · rename_i exited
      cases h
      exact .join place (eq_of_beq exited)
    · cases h
  · cases h

end Pool

/-- `ThreadPool(num_workers, max_queue_size)`, all threads started. -/
def Pool.init (n maxQueueSize : Nat) : Pool n := { maxQueueSize }

end HttpServer
