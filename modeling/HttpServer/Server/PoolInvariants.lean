import HttpServer.Server.ThreadPool

/-!
# Invariants of the thread pool

In every reachable state the mutex excludes the threads between its lock and its
unlock from each other (`reach_exclusive`), `stop_` is set before anything else
that stops the pool (`reach_stopFirst`), and each accepted task is in the queue,
with one worker, or has been run once (`reach_ledger`).
-/

namespace HttpServer

/-- Between the lock of the mutex and its unlock. -/
def WorkerPc.inside : WorkerPc → Bool
  | testing | parking | awake => true
  | _ => false

def EnqueuePc.inside : EnqueuePc → Bool
  | checking | pushing => true
  | _ => false

/-- How often the worker has the task. -/
def WorkerPc.has (j : Nat) : WorkerPc → Nat
  | taken t | running t => if t = j then 1 else 0
  | _ => 0

/-- The task has been pushed. -/
def EnqueuePc.pushed : EnqueuePc → Bool
  | notifying | returned true => true
  | _ => false

namespace Pool

open Runs Parties

variable {n : Nat} {s s' : Pool n}

/-! ## What a step leaves alone -/

/-- A worker's step moves no other worker. -/
theorem WorkerStep.others {i : Fin n} (h : WorkerStep s i s') {x : Fin n} (ne : x ≠ i) :
    s'.workers x = s.workers x := by
  cases h <;> simp [Function.update_of_ne ne]

/-- It leaves the calls, the stop flags and what was accepted. -/
theorem WorkerStep.same {i : Fin n} (h : WorkerStep s i s') :
    s'.enqueues = s.enqueues ∧ s'.shutdowns = s.shutdowns ∧ s'.stopRequested = s.stopRequested ∧
      s'.stop = s.stop ∧ s'.accepted = s.accepted := by
  cases h <;> exact ⟨rfl, rfl, rfl, rfl, rfl⟩

/-- A step of `enqueue` moves no other call. -/
theorem EnqueueStep.others {j : Nat} (h : EnqueueStep s j s') {x : Nat} (ne : x ≠ j) :
    s'.enqueues x = s.enqueues x := by
  cases h <;> simp [Function.update_of_ne ne]

/-- It leaves the `shutdown`s, the stop flags and what has been taken and run. -/
theorem EnqueueStep.same {j : Nat} (h : EnqueueStep s j s') :
    s'.shutdowns = s.shutdowns ∧ s'.stopRequested = s.stopRequested ∧ s'.stop = s.stop ∧
      s'.dequeued = s.dequeued ∧ s'.executed = s.executed := by
  cases h <;> exact ⟨rfl, rfl, rfl, rfl, rfl⟩

/-- A worker that an `enqueue` moves was blocked. -/
theorem EnqueueStep.worker {j : Nat} (h : EnqueueStep s j s') (i : Fin n) :
    s'.workers i = s.workers i ∨ s.workers i = .blocked ∧ s'.workers i = .waking := by
  cases h with
  | @wake x place blocked =>
    by_cases eq : i = x
    · subst eq
      exact .inr ⟨blocked, by simp⟩
    · exact .inl (by simp [Function.update_of_ne eq])
  | _ => exact .inl rfl

/-- A step of `shutdown` moves no other one. -/
theorem ShutdownStep.others {k : Nat} (h : ShutdownStep s k s') {x : Nat} (ne : x ≠ k) :
    s'.shutdowns x = s.shutdowns x := by
  cases h <;> simp [Function.update_of_ne ne]

/-- It leaves the calls of `enqueue`, the mutex, the queue and what was taken from it. -/
theorem ShutdownStep.same {k : Nat} (h : ShutdownStep s k s') :
    s'.enqueues = s.enqueues ∧ s'.mutex = s.mutex ∧ s'.tasks = s.tasks ∧ s'.accepted = s.accepted ∧
      s'.dequeued = s.dequeued ∧ s'.executed = s.executed := by
  cases h <;> exact ⟨rfl, rfl, rfl, rfl, rfl, rfl⟩

/-- A worker that a `shutdown` moves was blocked. -/
theorem ShutdownStep.worker {k : Nat} (h : ShutdownStep s k s') (i : Fin n) :
    s'.workers i = s.workers i ∨ s.workers i = .blocked ∧ s'.workers i = .waking := by
  cases h with
  | notify place =>
    by_cases blocked : s.workers i = .blocked
    · exact .inr ⟨blocked, by simp [blocked]⟩
    · exact .inl (by simp [blocked])
  | _ => exact .inl rfl

/-! ## Mutual exclusion -/

/-- The thread is between the lock of the mutex and its unlock. -/
def inside (s : Pool n) : Holder n → Bool
  | .worker i => (s.workers i).inside
  | .enqueue j => (s.enqueues j).inside

/-- For the mutex a worker's step locks, unlocks, or stays on its side. -/
theorem WorkerStep.lockStep {i : Fin n} (h : WorkerStep s i s') :
    LockStep (.worker i) s.mutex s'.mutex s.inside s'.inside := by
  cases h with
  | lock place free => exact .lock free rfl
  | block place | drain place | again place | take place =>
    exact .unlock (by simp [inside, place, WorkerPc.inside]) (by simp [inside, WorkerPc.inside])
  | done place next =>
    apply LockStep.keep rfl
    rcases next with rfl | rfl
    · simp [inside, place, WorkerPc.inside]
    · simp [inside, place, WorkerPc.inside]
  | leave place | enter place | pass place | park place | stir place | call place | caught place
  | finish place =>
    exact .keep rfl (by simp [inside, place, WorkerPc.inside])

/-- So does a step of `enqueue`. -/
theorem EnqueueStep.lockStep {j : Nat} (h : EnqueueStep s j s') :
    LockStep (.enqueue j) s.mutex s'.mutex s.inside s'.inside := by
  cases h with
  | lock place free => exact .lock free rfl
  | stopped place | full place | push place =>
    exact .unlock (by simp [inside, place, EnqueuePc.inside]) (by simp [inside, EnqueuePc.inside])
  | call place | pass place | nobody place | wake place =>
    exact .keep rfl (by simp [inside, place, EnqueuePc.inside])

/-- A worker that is notified is still outside: it has the mutex to lock. -/
theorem inside_woken {w w' : WorkerPc} (h : w' = w ∨ w = .blocked ∧ w' = .waking) : w'.inside = w.inside := by
  rcases h with rfl | ⟨rfl, rfl⟩
  · rfl
  · rfl

/-- Every step keeps the critical sections to one thread at a time. -/
theorem exclusive_step {a : Action n} (ex : Exclusive s.mutex s.inside) (h : s.step a = some s') :
    Exclusive s'.mutex s'.inside := by
  cases a with
  | worker i threw =>
    have took := workerStep_cases h
    apply ex.step ?_ took.lockStep
    rintro (x | j) ne
    · simp only [inside, took.others fun eq => ne (congrArg _ eq)]
    · simp only [inside, took.same.1]
  | enqueue j woken =>
    have took := enqueueStep_cases h
    apply ex.step ?_ took.lockStep
    rintro (i | x) ne
    · exact inside_woken (took.worker i)
    · simp only [inside, took.others fun eq => ne (congrArg _ eq)]
  | shutdown k =>
    have took := shutdownStep_cases h
    have same : s'.inside = s.inside := by
      funext x
      cases x with
      | worker i => exact inside_woken (took.worker i)
      | enqueue j => simp only [inside, took.same.1]
    rwa [took.same.2.1, same]

/-- The mutex excludes. -/
theorem reach_exclusive {limit : Nat} (run : Reach step (.init n limit) s) : Exclusive s.mutex s.inside := by
  apply run.invariant
  · rintro (i | j) hx
    · cases hx
    · cases hx
  · intro t a u ex _ took
    exact exclusive_step ex took

/-! ## The stop flag -/

/-- `stop_` is set before a `shutdown` goes on and before any worker is asked to stop. -/
structure StopFirst (s : Pool n) : Prop where
  requested : ∀ i, s.stopRequested i = true → s.stop = true
  called : ∀ k, s.shutdowns k ≠ .idle → s.stop = true

/-- `shutdown` sets `stop_` before it asks any thread to stop. -/
theorem ShutdownStep.stopFirst {k : Nat} (h : ShutdownStep s k s') (inv : StopFirst s) : StopFirst s' := by
  have set : s'.stop = true := by
    cases h with
    | second place stop => exact stop
    | first place stop => rfl
    | notify place | cleared place | request place | join place =>
      exact inv.called k (by simp [place])
  exact ⟨fun _ _ => set, fun _ _ => set⟩

/-- The other threads set neither flag. -/
theorem stopFirst_step {a : Action n} (inv : StopFirst s) (h : s.step a = some s') : StopFirst s' := by
  cases a with
  | worker i threw =>
    obtain ⟨-, shutdowns, requests, stop, -⟩ := (workerStep_cases h).same
    constructor
    · rw [requests, stop]
      exact inv.requested
    · rw [shutdowns, stop]
      exact inv.called
  | enqueue j woken =>
    obtain ⟨shutdowns, requests, stop, -, -⟩ := (enqueueStep_cases h).same
    constructor
    · rw [requests, stop]
      exact inv.requested
    · rw [shutdowns, stop]
      exact inv.called
  | shutdown k => exact (shutdownStep_cases h).stopFirst inv

/-- In every run a worker that is asked to stop finds `stop_` set. -/
theorem reach_stopFirst {limit : Nat} (run : Reach step (.init n limit) s) : StopFirst s := by
  apply run.invariant
  · exact ⟨by simp [init], by simp [init]⟩
  · intro t a u inv _ took
    exact stopFirst_step inv took

/-! ## The ledger -/

/-- Where the accepted tasks are. -/
structure Ledger (s : Pool n) : Prop where
  fifo : s.accepted = s.dequeued ++ s.tasks
  once : ∀ j, s.accepted.count j = if (s.enqueues j).pushed then 1 else 0
  held : ∀ j, s.dequeued.count j = (∑ i, (s.workers i).has j) + s.executed.count j

/-- A worker takes the front of the queue, or leaves the queue alone. -/
theorem WorkerStep.fifo {i : Fin n} (h : WorkerStep s i s') (fifo : s.accepted = s.dequeued ++ s.tasks) :
    s'.accepted = s'.dequeued ++ s'.tasks := by
  cases h with
  | take place queue =>
    rw [queue] at fifo
    simp [fifo]
  | _ => exact fifo

/-- A worker passes each task on from the queue to the log. -/
theorem WorkerStep.conserves {i : Fin n} (h : WorkerStep s i s') (j : Nat) :
    s'.dequeued.count j + (s.workers i).has j + s.executed.count j =
      s.dequeued.count j + (s'.workers i).has j + s'.executed.count j := by
  cases h with
  | lock place free =>
    rcases place with place | place
    · simp [place, WorkerPc.has]
    · simp [place, WorkerPc.has]
  | take place queue =>
    simp [place, WorkerPc.has, List.count_append, List.count_singleton]
  | done place next =>
    rcases next with rfl | rfl
    · simp [place, WorkerPc.has, List.count_append, List.count_singleton, Nat.add_comm, Nat.add_left_comm]
    · simp [place, WorkerPc.has, List.count_append, List.count_singleton, Nat.add_comm, Nat.add_left_comm]
  | leave place | enter place | pass place | park place | block place | stir place | drain place
  | again place | call place | caught place | finish place =>
    simp [place, WorkerPc.has]

/-- Of the workers a worker's step moves one. -/
theorem WorkerStep.moved {i : Fin n} (h : WorkerStep s i s') :
    s'.workers = Function.update s.workers i (s'.workers i) := by
  funext x
  by_cases eq : x = i
  · subst eq
    simp
  · rw [h.others eq, Function.update_of_ne eq]

/-- What the workers have changes by what the one that steps has. -/
theorem WorkerStep.has {i : Fin n} (h : WorkerStep s i s') (j : Nat) :
    (∑ x, (s'.workers x).has j) + (s.workers i).has j =
      (∑ x, (s.workers x).has j) + (s'.workers i).has j := by
  rw [h.moved, Function.update_self]
  exact sum_update (WorkerPc.has j) s.workers i (s'.workers i)

/-- The task that a worker takes from the queue is in its hands until it has been run. -/
theorem WorkerStep.ledger {i : Fin n} (h : WorkerStep s i s') (inv : Ledger s) : Ledger s' where
  fifo := h.fifo inv.fifo
  once j := by
    obtain ⟨enqueues, -, -, -, accepted⟩ := h.same
    rw [accepted, enqueues]
    exact inv.once j
  held j := by
    have before := inv.held j
    have conserves := h.conserves j
    have has := h.has j
    omega

/-- A worker that is notified has no task in its hands. -/
theorem has_woken {w w' : WorkerPc} (h : w' = w ∨ w = .blocked ∧ w' = .waking) (j : Nat) :
    w'.has j = w.has j := by
  rcases h with rfl | ⟨rfl, rfl⟩
  · rfl
  · rfl

/-- Notifications move no task from hand to hand. -/
theorem held_woken (woken : ∀ i, s'.workers i = s.workers i ∨ s.workers i = .blocked ∧ s'.workers i = .waking)
    (j : Nat) : (∑ i, (s'.workers i).has j) = ∑ i, (s.workers i).has j :=
  Finset.sum_congr rfl fun i _ => has_woken (woken i) j

/-- `enqueue` appends to the queue, or leaves it alone. -/
theorem EnqueueStep.fifo {j : Nat} (h : EnqueueStep s j s') (fifo : s.accepted = s.dequeued ++ s.tasks) :
    s'.accepted = s'.dequeued ++ s'.tasks := by
  cases h with
  | push place size => simp [fifo]
  | _ => exact fifo

/-- A call accepts its own task only, and with it the push is recorded. -/
theorem EnqueueStep.accepts {j : Nat} (h : EnqueueStep s j s') (x : Nat) :
    s'.accepted.count x + (if (s.enqueues x).pushed then 1 else 0) =
      s.accepted.count x + if (s'.enqueues x).pushed then 1 else 0 := by
  cases h with
  | push place size =>
    by_cases eq : x = j
    · subst eq
      simp [place, EnqueuePc.pushed]
    · simp [Function.update_of_ne eq, List.count_append, Ne.symm eq]
  | call place | lock place | stopped place | pass place | full place | nobody place | wake place =>
    by_cases eq : x = j
    · subst eq
      simp [place, EnqueuePc.pushed]
    · simp [Function.update_of_ne eq]

/-- A call that pushes has not pushed before, so the task is new to the ledger. -/
theorem EnqueueStep.ledger {j : Nat} (h : EnqueueStep s j s') (inv : Ledger s) : Ledger s' where
  fifo := h.fifo inv.fifo
  once x := by
    have before := inv.once x
    have accepts := h.accepts x
    omega
  held x := by
    obtain ⟨-, -, -, dequeued, executed⟩ := h.same
    rw [dequeued, executed, held_woken h.worker x]
    exact inv.held x

/-- `shutdown` moves no task. -/
theorem ShutdownStep.ledger {k : Nat} (h : ShutdownStep s k s') (inv : Ledger s) : Ledger s' := by
  obtain ⟨enqueues, -, tasks, accepted, dequeued, executed⟩ := h.same
  constructor
  · rw [accepted, dequeued, tasks]
    exact inv.fifo
  · rw [accepted, enqueues]
    exact inv.once
  · intro j
    rw [dequeued, executed, held_woken h.worker j]
    exact inv.held j

/-- No task is lost, doubled or run twice. -/
theorem reach_ledger {limit : Nat} (run : Reach step (.init n limit) s) : Ledger s := by
  apply run.invariant
  · exact ⟨rfl, by simp [init, EnqueuePc.pushed], by simp [init, WorkerPc.has]⟩
  · intro t a u inv _ took
    cases a with
    | worker i threw => exact (workerStep_cases took).ledger inv
    | enqueue j woken => exact (enqueueStep_cases took).ledger inv
    | shutdown k => exact (shutdownStep_cases took).ledger inv

end Pool

end HttpServer
