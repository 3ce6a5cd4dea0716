import Mathlib.Algebra.Order.BigOperators.Group.Finset
import HttpServer.Lib.Inevitable
import HttpServer.Server.Wakeup
import HttpServer.Server.Workload

/-!
# Progress of the thread pool

The pool comes to rest whatever the scheduler does, once only some given calls
are still made: their `enqueue`s and `shutdown`s return, and unless it is stopped
every accepted task is run (`settles`). A step counts as long as no worker wakes
without a notification and each `notify_all` is heard; behind one that is not, a
`shutdown` waits for ever (`wakeup_lost`).
-/

namespace HttpServer

/-- How far a worker is from its sleep or its end. -/
def WorkerPc.rank : WorkerPc → Nat
  | exited | blocked => 0
  | parking => 1
  | awake => 2
  | testing => 3
  | locking | waking => 4
  | top => 5
  | finishing => 6
  | catching => 7
  | running _ => 8
  | taken _ => 9

/-- How far an `enqueue` is from its return; the task that it pushes counts 20. -/
def EnqueuePc.rank : EnqueuePc → Nat
  | idle => 41
  | locking => 40
  | checking => 39
  | pushing => 38
  | notifying => 10
  | returned _ => 0

/-- How far a `shutdown` is from its return; each worker that it wakes counts 4. -/
def ShutdownPc.rank {n : Nat} : ShutdownPc n → Nat
  | idle => 6 * n + 3
  | notifying => 6 * n + 2
  | stopping left => 2 * left.length + 1
  | joining _ left => 2 * left.length + 2
  | returned => 0

namespace Pool

open Runs Parties

variable {n : Nat} {s s' : Pool n}

/-- A step of a pool that only the calls `S` of `enqueue` and `T` of `shutdown` still use; without any in `T` no
`shutdown` takes a step. No worker wakes without a notification, and each `notify_all` is heard. -/
def Undisturbed (S T : Finset Nat) (s : Pool n) : Action n → Prop
  | .worker i _ => s.workers i ≠ .blocked
  | .enqueue j _ => j ∈ S
  | .shutdown k => k ∈ T ∧ (s.shutdowns k = .notifying → ∀ i, s.workers i ≠ .parking)

/-- Every call has returned, and a pool with workers that is not stopped has run what it has accepted. -/
structure Settled (s : Pool n) : Prop where
  enqueues : ∀ j, s.enqueues j = .idle ∨ ∃ b, s.enqueues j = .returned b
  shutdowns : ∀ k, s.shutdowns k = .idle ∨ s.shutdowns k = .returned
  executed : 0 < n → s.stop = false → ∀ j, s.enqueues j = .returned true → s.executed.count j = 1

/-- The other calls have not been made. -/
structure Confined (S T : Finset Nat) (s : Pool n) : Prop where
  enqueues : ∀ j, j ∉ S → s.enqueues j = .idle
  shutdowns : ∀ k, k ∉ T → s.shutdowns k = .idle

/-- Whoever has the mutex is between its lock and its unlock. -/
def Held (s : Pool n) : Prop := ∀ h, s.mutex = some h → s.inside h = true

/-- What a worker has found out while it holds the mutex, or for good. -/
structure Informed (s : Pool n) : Prop where
  awake : ∀ i, s.workers i = .awake → s.stop = true ∨ s.tasks ≠ []
  exited : ∀ i, s.workers i = .exited → s.stop = true

/-! ## Invariants -/

/-- A worker's step leaves the mutex with a thread inside a critical section, or free. -/
theorem WorkerStep.held {i : Fin n} (h : WorkerStep s i s') (inv : Held s) : Held s' := by
  intro x mutex
  by_cases eq : x = .worker i
  · subst eq
    cases h with
    | lock place free => simp [inside, WorkerPc.inside]
    | block place | drain place | again place | take place => simp at mutex
    | done place next =>
      have mine := inv _ mutex
      simp [inside, place, WorkerPc.inside] at mine
    | leave place | enter place | stir place | call place | caught place | finish place =>
      have mine := inv _ mutex
      simp [inside, place, WorkerPc.inside] at mine
    | pass place | park place => simp [inside, WorkerPc.inside]
  · have before : s.inside x = true := by
      cases h with
      | lock place free => exact absurd (Option.some.inj mutex).symm eq
      | block place | drain place | again place | take place => simp at mutex
      | _ => exact inv x mutex
    rw [← before]
    cases x with
    | worker y => simp only [inside, h.others fun same => eq (congrArg _ same)]
    | enqueue j => simp only [inside, h.same.1]

/-- So does a step of `enqueue`, and the worker that it notifies is not the holder. -/
theorem EnqueueStep.held {j : Nat} (h : EnqueueStep s j s') (inv : Held s) : Held s' := by
  intro x mutex
  by_cases eq : x = .enqueue j
  · subst eq
    cases h with
    | lock place free => simp [inside, EnqueuePc.inside]
    | stopped place | full place | push place => simp at mutex
    | call place | nobody place | wake place =>
      have mine := inv _ mutex
      simp [inside, place, EnqueuePc.inside] at mine
    | pass place => simp [inside, EnqueuePc.inside]
  · have before : s.inside x = true := by
      cases h with
      | lock place free => exact absurd (Option.some.inj mutex).symm eq
      | stopped place | full place | push place => simp at mutex
      | _ => exact inv x mutex
    rw [← before]
    cases x with
    | worker i => exact inside_woken (h.worker i)
    | enqueue y => simp only [inside, h.others fun same => eq (congrArg _ same)]

/-- `shutdown` does not touch the mutex. -/
theorem ShutdownStep.held {k : Nat} (h : ShutdownStep s k s') (inv : Held s) : Held s' := by
  intro x mutex
  rw [h.same.2.1] at mutex
  rw [← inv x mutex]
  cases x with
  | worker i => exact inside_woken (h.worker i)
  | enqueue j => simp only [inside, h.same.1]

/-- In every run, whoever has the mutex can go on to its unlock. -/
theorem reach_held {limit : Nat} (run : Reach step (.init n limit) s) : Held s := by
  apply run.invariant
  · intro x mutex
    cases mutex
  · intro t a u inv _ took
    cases a with
    | worker i threw => exact (workerStep_cases took).held inv
    | enqueue j woken => exact (enqueueStep_cases took).held inv
    | shutdown k => exact (shutdownStep_cases took).held inv

/-- `stop_` is never taken back. -/
theorem stop_step {a : Action n} (h : s.step a = some s') (stop : s.stop = true) : s'.stop = true := by
  cases a with
  | worker i threw =>
    rw [(workerStep_cases h).same.2.2.2.1]
    exact stop
  | enqueue j woken =>
    rw [(enqueueStep_cases h).same.2.2.1]
    exact stop
  | shutdown k =>
    cases shutdownStep_cases h with
    | first place running => rfl
    | _ => exact stop

/-- What a worker has read under the mutex stays true until it unlocks: no other worker can take the task away. -/
theorem WorkerStep.informed {i : Fin n} (h : WorkerStep s i s') (ex : Exclusive s.mutex s.inside)
    (first : StopFirst s) (inv : Informed s) : Informed s' := by
  constructor
  · intro x awake
    rw [h.same.2.2.2.1]
    by_cases eq : x = i
    · subst eq
      cases h with
      | pass place wakeable =>
        simp only [Pool.wakeable, Bool.or_eq_true, Bool.not_eq_true', List.isEmpty_eq_false_iff] at wakeable
        rcases wakeable with (stop | some_) | requested
        · exact .inl stop
        · exact .inr some_
        · exact .inl (first.requested x requested)
      | done place next => rcases next with rfl | rfl <;> simp at awake
      | _ => simp at awake
    · rw [h.others eq] at awake
      cases h with
      | take place queue =>
        -- two workers would hold the mutex
        have same := ex.unique (x := .worker x) (y := .worker i) (by simp [inside, awake, WorkerPc.inside])
          (by simp [inside, place, WorkerPc.inside])
        cases same
        exact absurd rfl eq
      | _ => exact inv.awake x awake
  · intro x exited
    rw [h.same.2.2.2.1]
    by_cases eq : x = i
    · subst eq
      cases h with
      | leave place requested => exact first.requested x requested
      | drain place stopped empty => exact stopped.elim id (first.requested x)
      | done place next => rcases next with rfl | rfl <;> simp at exited
      | _ => simp at exited
    · rw [h.others eq] at exited
      exact inv.exited x exited

/-- A notification wakes only workers that are blocked, and these lock the mutex before they are awake. -/
theorem awake_woken {w w' : WorkerPc} (h : w' = w ∨ w = .blocked ∧ w' = .waking) (awake : w' = .awake) :
    w = .awake := by
  rcases h with rfl | ⟨rfl, rfl⟩
  · exact awake
  · cases awake

/-- An `enqueue` takes nothing from the queue. -/
theorem EnqueueStep.informed {j : Nat} (h : EnqueueStep s j s') (inv : Informed s) : Informed s' := by
  constructor
  · intro x awake
    have before := inv.awake x (awake_woken (h.worker x) awake)
    cases h with
    | push place size => exact .inr (by simp)
    | _ => exact before
  · intro x exited
    rw [h.same.2.2.1]
    exact inv.exited x ((woken_exited (h.worker x)).1 exited)

/-- In every run a worker behind the wait sees a task or the stop, and has ended only behind the stop. -/
theorem reach_informed {limit : Nat} (run : Reach step (.init n limit) s) : Informed s := by
  apply run.invariant_with (J := fun t => Exclusive t.mutex t.inside ∧ StopFirst t)
  · intro t run
    exact ⟨reach_exclusive run, reach_stopFirst run⟩
  · exact ⟨nofun, nofun⟩
  · intro t a u known inv _ took
    cases a with
    | worker i threw => exact (workerStep_cases took).informed known.1 known.2 inv
    | enqueue j woken => exact (enqueueStep_cases took).informed inv
    | shutdown k =>
      have stop := (shutdownStep_cases took).stops known.2
      exact ⟨fun _ _ => .inl stop, fun _ _ => stop⟩

/-! ## Some step is left -/

/-- A step that the scheduler can choose. -/
def Ready (S T : Finset Nat) (s : Pool n) : Prop := ∃ a t, Undisturbed S T s a ∧ s.step a = some t

/-- An enabled step of a party that still takes steps. -/
theorem ready_of {S T : Finset Nat} {a : Action n} (ok : Undisturbed S T s a) (enabled : s.step a ≠ none) :
    Ready S T s := by
  obtain ⟨t, took⟩ := Option.ne_none_iff_exists'.1 enabled
  exact ⟨a, t, ok, took⟩

/-- Between the lock and the unlock nobody waits. -/
theorem ready_inside {S T : Finset Nat} (confined : Confined S T s) {h : Holder n} (inside : s.inside h = true) :
    Ready S T s := by
  cases h with
  | worker i =>
    apply ready_of (a := .worker i false)
    · intro blocked
      simp [Pool.inside, blocked, WorkerPc.inside] at inside
    · cases pc : s.workers i with
      | testing | parking => simp [step, workerStep, pc]
      | awake =>
        simp only [step, workerStep, pc]
        split
        · simp
        · split <;> simp
      | _ => simp [Pool.inside, pc, WorkerPc.inside] at inside
  | enqueue j =>
    apply ready_of (a := .enqueue j none)
    · by_contra other
      simp [Pool.inside, confined.enqueues j other, EnqueuePc.inside] at inside
    · cases pc : s.enqueues j with
      | checking | pushing =>
        simp only [step, enqueueStep, pc]
        split <;> simp
      | _ => simp [Pool.inside, pc, EnqueuePc.inside] at inside

/-- A worker that neither sleeps nor has ended goes on, or whoever it waits for does. -/
theorem ready_worker {S T : Finset Nat} (confined : Confined S T s) (held : Held s) {i : Fin n}
    (up : s.workers i ≠ .blocked) (runs : s.workers i ≠ .exited) : Ready S T s := by
  cases mutex : s.mutex with
  | some h => exact ready_inside confined (held h mutex)
  | none =>
    apply ready_of (a := .worker i false) up
    cases pc : s.workers i with
    | blocked => exact absurd pc up
    | exited => exact absurd pc runs
    | awake =>
      simp only [step, workerStep, pc]
      split
      · simp
      · split <;> simp
    | _ => simp [step, workerStep, pc, mutex]

/-- A call of `enqueue` that has not returned goes on, or waits for the mutex and its holder goes on. -/
theorem ready_enqueue {S T : Finset Nat} (confined : Confined S T s) (held : Held s) {j : Nat}
    (called : s.enqueues j ≠ .idle) (open_ : ∀ b, s.enqueues j ≠ .returned b) : Ready S T s := by
  have mine : j ∈ S := by
    by_contra other
    exact called (confined.enqueues j other)
  cases mutex : s.mutex with
  | some h => exact ready_inside confined (held h mutex)
  | none =>
    cases pc : s.enqueues j with
    | idle => exact absurd pc called
    | returned b => exact absurd pc (open_ b)
    | locking => exact ready_of (a := .enqueue j none) mine (by simp [step, enqueueStep, pc, mutex])
    | checking | pushing => exact ready_inside confined (h := .enqueue j) (by simp [inside, pc, EnqueuePc.inside])
    | notifying =>
      cases any : s.anyBlocked with
      | false => exact ready_of (a := .enqueue j none) mine (by simp [step, enqueueStep, pc, any])
      | true =>
        obtain ⟨i, -, blocked⟩ := List.any_eq_true.1 any
        exact ready_of (a := .enqueue j (some i)) mine (by simp [step, enqueueStep, pc, eq_of_beq blocked])

/-- A `shutdown` that has not returned goes on, or waits for a worker to end: no worker sleeps behind `notify_all`, so
that one goes on. -/
theorem ready_shutdown {S T : Finset Nat} (confined : Confined S T s) (held : Held s) (woken : Woken s) {k : Nat}
    (called : s.shutdowns k ≠ .idle) (open_ : s.shutdowns k ≠ .returned) : Ready S T s := by
  have mine : k ∈ T := by
    by_contra other
    exact called (confined.shutdowns k other)
  cases pc : s.shutdowns k with
  | idle => exact absurd pc called
  | returned => exact absurd pc open_
  | notifying =>
    by_cases parking : ∃ i, s.workers i = .parking
    · obtain ⟨i, parking⟩ := parking
      exact ready_inside confined (h := .worker i) (by simp [inside, parking, WorkerPc.inside])
    · exact ready_of (a := .shutdown k) ⟨mine, fun _ i => not_exists.1 parking i⟩
        (by simp [step, shutdownStep, pc])
  | stopping left =>
    apply ready_of (a := .shutdown k) ⟨mine, by simp [pc]⟩
    cases left <;> simp [step, shutdownStep, pc]
  | joining i left =>
    by_cases exited : s.workers i = .exited
    · exact ready_of (a := .shutdown k) ⟨mine, by simp [pc]⟩ (by simp [step, shutdownStep, pc, exited])
    · refine ready_worker confined held (i := i) (fun blocked => ?_) exited
      have up := woken k (by simp [pc, ShutdownPc.notified]) i
      simp [blocked, WorkerPc.asleep] at up

/-- Where every worker sleeps and no call is under way, everything has been run. -/
theorem executed_asleep (ledger : Ledger s) (conserves : Conserves s) (pos : 0 < n)
    (asleep : ∀ i, s.workers i = .blocked)
    (quiet : ∀ j, s.enqueues j = .idle ∨ ∃ b, s.enqueues j = .returned b) {j : Nat}
    (accepted : s.enqueues j = .returned true) : s.executed.count j = 1 := by
  have few := conserves ⟨0, pos⟩ (asleep _) ∅ (by
    intro x notifying
    rcases quiet x with idle | ⟨b, returned⟩
    · cases idle.symm.trans notifying
    · cases returned.symm.trans notifying)
  have nobody : s.looking.card = 0 := by
    rw [looking_card]
    exact Finset.sum_eq_zero fun i _ => by rw [asleep i]; rfl
  have empty : s.tasks = [] := List.length_eq_zero_iff.1 (by rw [nobody, Finset.card_empty] at few; omega)
  have once := ledger.once j
  rw [ledger.fifo, empty, List.append_nil, ledger.held j, accepted] at once
  have none_ : (∑ i, (s.workers i).has j) = 0 := Finset.sum_eq_zero fun i _ => by rw [asleep i]; rfl
  rw [none_] at once
  simpa [EnqueuePc.pushed] using once

/-- What the argument needs to know of a state. -/
structure Known (S T : Finset Nat) (s : Pool n) : Prop where
  confined : Confined S T s
  exclusive : Exclusive s.mutex s.inside
  first : StopFirst s
  ledger : Ledger s
  held : Held s
  informed : Informed s
  woken : Woken s
  conserves : s.stop = false → Conserves s

/-- The pool is stuck only where it has come to rest. -/
theorem settled_or_ready {S T : Finset Nat} (known : Known S T s) : Settled s ∨ Ready S T s := by
  by_cases enqueues : ∀ j, s.enqueues j = .idle ∨ ∃ b, s.enqueues j = .returned b
  case neg =>
    obtain ⟨j, open_⟩ := not_forall.1 enqueues
    rw [not_or, not_exists] at open_
    exact .inr (ready_enqueue known.confined known.held open_.1 open_.2)
  by_cases shutdowns : ∀ k, s.shutdowns k = .idle ∨ s.shutdowns k = .returned
  case neg =>
    obtain ⟨k, open_⟩ := not_forall.1 shutdowns
    rw [not_or] at open_
    exact .inr (ready_shutdown known.confined known.held known.woken open_.1 open_.2)
  by_cases asleep : s.stop = false → ∀ i, s.workers i = .blocked
  case neg =>
    obtain ⟨running, up⟩ := Classical.not_imp.1 asleep
    obtain ⟨i, up⟩ := not_forall.1 up
    refine .inr (ready_worker known.confined known.held up fun exited => ?_)
    have stop := known.informed.exited i exited
    rw [running] at stop
    cases stop
  exact .inl ⟨enqueues, shutdowns, fun pos running j accepted =>
    executed_asleep known.ledger (known.conserves running) pos (asleep running) enqueues accepted⟩

/-! ## Every step is a step ahead -/

/-- What is left to do before the calls `S` and `T` have returned and the workers sleep. -/
def rank (S T : Finset Nat) (s : Pool n) : Nat :=
  20 * s.tasks.length + (∑ i, (s.workers i).rank) + (∑ j ∈ S, (s.enqueues j).rank) +
    ∑ k ∈ T, (s.shutdowns k).rank

/-- In a stopped pool an empty queue sends the worker home. -/
theorem worker_leaves {i : Fin n} {threw : Bool} (h : s.workerStep i threw = some s')
    (awake : s.workers i = .awake) (empty : s.tasks = []) (stop : s.stop = true) : s'.workers i = .exited := by
  simp only [workerStep, awake, stop, empty, Bool.true_or, List.isEmpty_nil, Bool.and_self, if_true] at h
  cases h
  simp

/-- A worker comes nearer to its sleep or its end with each step; a task that it takes is worth more than the way back
to the top. -/
theorem worker_lowers {i : Fin n} {threw : Bool} (informed : Informed s) (up : s.workers i ≠ .blocked)
    (h : s.workerStep i threw = some s') :
    20 * s'.tasks.length + (s'.workers i).rank < 20 * s.tasks.length + (s.workers i).rank := by
  cases workerStep_cases h with
  | stir place => exact absurd place up
  | again place empty =>
    have leaves := worker_leaves h place empty ((informed.awake i place).resolve_right (not_not.2 empty))
    simp at leaves
  | take place queue =>
    simp only [moveWorker_tasks, release_tasks, pop_tasks, moveWorker_workers, Function.update_self, place, queue,
      List.length_cons, WorkerPc.rank]
    omega
  | lock place free => rcases place with place | place <;> simp [place, WorkerPc.rank]
  | done place next => rcases next with rfl | rfl <;> simp [place, WorkerPc.rank]
  | leave place | enter place | pass place | park place | block place | drain place | call place | caught place
  | finish place =>
    simp [place, WorkerPc.rank]

/-- Of the calls of `enqueue` a step moves one. -/
theorem EnqueueStep.moved {j : Nat} (h : EnqueueStep s j s') :
    s'.enqueues = Function.update s.enqueues j (s'.enqueues j) := by
  funext x
  by_cases eq : x = j
  · subst eq
    simp
  · rw [h.others eq, Function.update_of_ne eq]

/-- Of the calls of `shutdown` a step moves one. -/
theorem ShutdownStep.moved {k : Nat} (h : ShutdownStep s k s') :
    s'.shutdowns = Function.update s.shutdowns k (s'.shutdowns k) := by
  funext x
  by_cases eq : x = k
  · subst eq
    simp
  · rw [h.others eq, Function.update_of_ne eq]

/-- The task that is pushed, and the worker that is notified, are paid for by the call. -/
theorem EnqueueStep.lowers {j : Nat} (h : EnqueueStep s j s') :
    20 * s'.tasks.length + (∑ i, (s'.workers i).rank) + (s'.enqueues j).rank <
      20 * s.tasks.length + (∑ i, (s.workers i).rank) + (s.enqueues j).rank := by
  cases h with
  | push place size =>
    simp [place, EnqueuePc.rank]
    omega
  | @wake i place blocked =>
    have ranks := sum_update WorkerPc.rank s.workers i .waking
    rw [blocked] at ranks
    change _ + 0 = _ + 4 at ranks
    simp only [moveEnqueue_tasks, moveWorker_tasks, moveEnqueue_workers, moveWorker_workers, moveEnqueue_enqueues,
      Function.update_self, place, EnqueuePc.rank]
    omega
  | call place | lock place | stopped place | pass place | full place | nobody place =>
    simp [place, EnqueuePc.rank]

/-- `notify_all` sends every worker back on its way at most. -/
theorem wakeAll_rank (s : Pool n) : (∑ i, (s.wakeAll.workers i).rank) ≤ (∑ i, (s.workers i).rank) + 4 * n := by
  have each (i : Fin n) : (s.wakeAll.workers i).rank ≤ (s.workers i).rank + 4 := by
    rw [wakeAll_workers]
    split
    · exact Nat.le_add_left _ _
    · exact Nat.le_add_right _ _
  calc (∑ i, (s.wakeAll.workers i).rank) ≤ ∑ i, ((s.workers i).rank + 4) := Finset.sum_le_sum fun i _ => each i
    _ = (∑ i, (s.workers i).rank) + 4 * n := by
      simp [Finset.sum_add_distrib, Nat.mul_comm]

/-- The workers that `notify_all` wakes are paid for by the `shutdown`. -/
theorem ShutdownStep.lowers {k : Nat} (h : ShutdownStep s k s') :
    (∑ i, (s'.workers i).rank) + (s'.shutdowns k).rank < (∑ i, (s.workers i).rank) + (s.shutdowns k).rank := by
  cases h with
  | notify place =>
    have woken := wakeAll_rank s
    simp only [moveShutdown_workers, moveShutdown_shutdowns, Function.update_self, place, ShutdownPc.rank,
      List.length_finRange]
    omega
  | request place =>
    simp only [moveShutdown_workers, requestStop_workers, moveShutdown_shutdowns, Function.update_self, place,
      ShutdownPc.rank, List.length_cons]
    omega
  | second place stop | first place stop | cleared place | join place => simp [place, ShutdownPc.rank]

/-- Every step of an undisturbed pool lowers the rank. -/
theorem rank_step {S T : Finset Nat} {a : Action n} (informed : Informed s) (ok : Undisturbed S T s a)
    (h : s.step a = some s') : rank S T s' < rank S T s := by
  unfold rank
  cases a with
  | worker i threw =>
    have took := workerStep_cases h
    have lowers := worker_lowers informed ok h
    have ranks := sum_update WorkerPc.rank s.workers i (s'.workers i)
    rw [← took.moved] at ranks
    rw [took.same.1, took.same.2.1]
    omega
  | enqueue j woken =>
    have took := enqueueStep_cases h
    have lowers := took.lowers
    have ranks := sum_update_on ok EnqueuePc.rank s.enqueues (s'.enqueues j)
    rw [← took.moved] at ranks
    rw [took.same.1]
    omega
  | shutdown k =>
    have took := shutdownStep_cases h
    have lowers := took.lowers
    have ranks := sum_update_on ok.1 ShutdownPc.rank s.shutdowns (s'.shutdowns k)
    rw [← took.moved] at ranks
    rw [took.same.1, took.same.2.2.1]
    omega

/-! ## The pool comes to rest -/

/-- Only the given calls are made. -/
theorem confined_step {S T : Finset Nat} {a : Action n} (inv : Confined S T s) (ok : Undisturbed S T s a)
    (h : s.step a = some s') : Confined S T s' := by
  constructor
  · intro j other
    cases a with
    | worker i threw =>
      rw [(workerStep_cases h).same.1]
      exact inv.enqueues j other
    | enqueue x woken =>
      have ne : j ≠ x := by
        rintro rfl
        exact other ok
      rw [(enqueueStep_cases h).others ne]
      exact inv.enqueues j other
    | shutdown k =>
      rw [(shutdownStep_cases h).same.1]
      exact inv.enqueues j other
  · intro k other
    cases a with
    | worker i threw =>
      rw [(workerStep_cases h).same.2.1]
      exact inv.shutdowns k other
    | enqueue j woken =>
      rw [(enqueueStep_cases h).same.1]
      exact inv.shutdowns k other
    | shutdown x =>
      have ne : k ≠ x := by
        rintro rfl
        exact other ok.1
      rw [(shutdownStep_cases h).others ne]
      exact inv.shutdowns k other

/-- Among the undisturbed steps every `notify_all` is heard. -/
theorem heard_undisturbed {S T : Finset Nat} {a : Action n} (ok : Undisturbed S T s a) : Heard s a := by
  cases a with
  | worker i threw => trivial
  | enqueue j woken => trivial
  | shutdown k => exact ok.2

/-- All of it holds in every run in which each `notify_all` was heard. -/
theorem known_run {S T : Finset Nat} {limit : Nat} (run : Run step Heard (.init n limit) s)
    (confined : Confined S T s) : Known S T s where
  confined := confined
  exclusive := reach_exclusive run.reach
  first := reach_stopFirst run.reach
  ledger := reach_ledger run.reach
  held := reach_held run.reach
  informed := reach_informed run.reach
  woken := woken_run run
  conserves := reach_conserves run.reach

/-- **The pool comes to rest**: whichever steps are taken, the calls return, and what a running pool has
accepted is run. -/
theorem settles {S T : Finset Nat} {limit : Nat} (run : Run step Heard (.init n limit) s)
    (confined : Confined S T s) : Inevitable step (Undisturbed S T) Settled s := by
  apply Inevitable.of_rank (I := fun t => Run step Heard (.init n limit) t ∧ Confined S T t) (rank S T)
  · intro t inv
    exact settled_or_ready (known_run inv.1 inv.2)
  · intro t a u inv ok took
    have next : Run step Heard (.init n limit) u := inv.1.next (heard_undisturbed ok) took
    exact ⟨⟨next, confined_step inv.2 ok took⟩, rank_step (reach_informed inv.1.reach) ok took⟩
  · exact ⟨run, confined⟩

/-- The steps of a pool that has not been stopped are heard. -/
theorem reach_heard {limit : Nat} (run : Reach step (.init n limit) s) (running : s.stop = false) :
    Run step Heard (.init n limit) s := by
  revert running
  induction run with
  | start => exact fun _ => .start
  | @next t u a run ok took ih =>
    intro running
    have before : t.stop = false := by
      by_contra stop
      rw [stop_step took (Bool.eq_true_of_not_eq_false stop)] at running
      cases running
    refine (ih before).next ?_ took
    cases a with
    | worker i threw => trivial
    | enqueue j woken => trivial
    | shutdown k =>
      have stop := (shutdownStep_cases took).stops (reach_stopFirst run)
      rw [running] at stop
      cases stop

/-- Without a call of `shutdown` the pool is not stopped. -/
theorem running_undisturbed {S : Finset Nat} (running : s.stop = false) (run : Run step (Undisturbed S ∅) s s') :
    s'.stop = false := by
  apply run.invariant (I := fun t => t.stop = false) running
  intro t a u running ok took
  cases a with
  | worker i threw =>
    rw [(workerStep_cases took).same.2.2.2.1]
    exact running
  | enqueue j woken =>
    rw [(enqueueStep_cases took).same.2.2.1]
    exact running
  | shutdown k => exact absurd ok.1 (Finset.notMem_empty k)

/-- Every call has returned, and each accepted task has been run once. -/
structure Rested (s : Pool n) : Prop where
  returned : ∀ j, s.enqueues j = .idle ∨ ∃ b, s.enqueues j = .returned b
  executed : ∀ j ∈ s.accepted, s.executed.count j = 1

/-- A task is accepted when it is pushed, not before. -/
theorem Ledger.pushed (ledger : Ledger s) {j : Nat} (mem : j ∈ s.accepted) : (s.enqueues j).pushed = true := by
  by_contra unpushed
  have once := ledger.once j
  rw [if_neg unpushed] at once
  have := List.count_pos_iff.2 mem
  omega

/-- A call that has pushed its task has returned true. -/
theorem Settled.returned (settled : Settled s) {j : Nat} (pushed : (s.enqueues j).pushed = true) :
    s.enqueues j = .returned true := by
  rcases settled.enqueues j with idle | ⟨b, returned⟩
  · rw [idle] at pushed
    cases pushed
  · cases b with
    | true => exact returned
    | false =>
      rw [returned] at pushed
      cases pushed

/-- A running pool that has settled has run everything that it accepted. -/
theorem Settled.rested (settled : Settled s) (ledger : Ledger s) (pos : 0 < n) (running : s.stop = false) :
    Rested s :=
  ⟨settled.enqueues, fun j mem => settled.executed pos running j (settled.returned (ledger.pushed mem))⟩

/-- **Every accepted task is run** while no `shutdown` is called, whatever finite number of calls of `enqueue` is
still made and however the threads take their turns. -/
theorem tasks_run (pos : 0 < n) {limit : Nat} (run : Reach step (.init n limit) s) (running : s.stop = false)
    {S : Finset Nat} (confined : Confined S ∅ s) : Inevitable step (Undisturbed S ∅) Rested s := by
  refine (settles (reach_heard run running) confined).weaken fun t later settled => ?_
  exact settled.rested (reach_ledger (run.trans later.reach)) pos (running_undisturbed running later)

/-- A task has been pushed beside a sleeping worker, and a second call is still to come. -/
theorem tasks_run_pushed :
    ∃ s : Pool 1, s.tasks = [0] ∧ s.workers 0 = .blocked ∧ Inevitable step (Undisturbed {0, 1} ∅) Rested s := by
  obtain ⟨s, ran, tasks, asleep, running, enqueues, shutdowns⟩ : ∃ s : Pool 1,
      exec step (fun _ _ => true) (.init 1 10)
        (List.replicate 4 (.worker 0 false) ++ List.replicate 4 (.enqueue 0 none)) = some s ∧
        s.tasks = [0] ∧ s.workers 0 = .blocked ∧ s.stop = false ∧ (∀ j, j ≠ 0 → s.enqueues j = .idle) ∧
        ∀ k, s.shutdowns k = .idle := by
    refine ⟨_, rfl, rfl, rfl, rfl, fun j ne => ?_, fun k => rfl⟩
    simp only [moveEnqueue, moveWorker, push, release, acquire, Function.update_of_ne ne]
    rfl
  refine ⟨s, tasks, asleep,
    tasks_run (by decide) (exec_reach _ ran) running ⟨fun j other => ?_, fun k _ => shutdowns k⟩⟩
  apply enqueues
  rintro rfl
  simp at other

/-- A `shutdown` that has begun is under way or has returned. -/
theorem called_stays {a : Action n} {k : Nat} (called : s.shutdowns k ≠ .idle) (h : s.step a = some s') :
    s'.shutdowns k ≠ .idle := by
  cases a with
  | worker i threw =>
    rw [(workerStep_cases h).same.2.1]
    exact called
  | enqueue j woken =>
    rw [(enqueueStep_cases h).same.1]
    exact called
  | shutdown x =>
    have took := shutdownStep_cases h
    by_cases eq : k = x
    · subst eq
      cases took <;> simp
    · rw [took.others eq]
      exact called

/-- **A `shutdown` returns** however the threads take their turns, when every `notify_all` is heard. -/
theorem shutdown_returns {limit : Nat} (run : Run step Heard (.init n limit) s) {S T : Finset Nat}
    (confined : Confined S T s) {k : Nat} (called : s.shutdowns k ≠ .idle) :
    Inevitable step (Undisturbed S T) (fun t => t.shutdowns k = .returned) s := by
  refine (settles run confined).weaken fun t later settled => ?_
  have still : t.shutdowns k ≠ .idle := by
    apply later.invariant (I := fun t => t.shutdowns k ≠ .idle) called
    intro t a u called _ took
    exact called_stays called took
  exact (settled.shutdowns k).resolve_left still

/-- A `shutdown` that has set the flag while the worker sleeps. -/
theorem shutdown_returns_asleep :
    ∃ s : Pool 1, s.workers 0 = .blocked ∧ s.shutdowns 0 = .notifying ∧
      Inevitable step (Undisturbed ∅ {0}) (fun t => t.shutdowns 0 = .returned) s := by
  obtain ⟨s, ran, asleep, notifying, enqueues, shutdowns⟩ : ∃ s : Pool 1,
      exec step hears (.init 1 10) (List.replicate 4 (.worker 0 false) ++ [.shutdown 0]) = some s ∧
        s.workers 0 = .blocked ∧ s.shutdowns 0 = .notifying ∧ (∀ j, s.enqueues j = .idle) ∧
        ∀ k, k ≠ 0 → s.shutdowns k = .idle := by
    refine ⟨_, rfl, rfl, rfl, fun j => rfl, fun k ne => ?_⟩
    simp only [moveShutdown, setStop, moveWorker, release, acquire, Function.update_of_ne ne]
    rfl
  have run : Run step Heard (.init 1 10) s := (exec_run ran).mono fun _ _ => heard_of_hears
  refine ⟨s, asleep, notifying, shutdown_returns run ⟨fun j _ => enqueues j, fun k other => ?_⟩ (by simp [notifying])⟩
  apply shutdowns
  rintro rfl
  simp at other

end Pool

end HttpServer
