import HttpServer.Server.Drain

/-!
# Sleeping workers and waiting tasks

`enqueue` notifies behind its critical section, and one worker at a time. Until
the pool is stopped no task waits beside a worker that sleeps for good: while
one is blocked, each queued task has a worker on its way to the queue, or a call
that is about to notify (`work_conserved`).
-/

namespace HttpServer

/-- On the way to the queue. -/
def WorkerPc.looking : WorkerPc → Bool
  | top | locking | testing | waking | awake => true
  | _ => false

/-- How much the worker adds to those on the way. -/
def WorkerPc.looks (w : WorkerPc) : Nat := if w.looking = true then 1 else 0

namespace Pool

open Runs Parties

variable {n : Nat} {s s' : Pool n}

/-- The workers on their way to the queue. -/
def looking (s : Pool n) : Finset (Fin n) := Finset.univ.filter fun i => (s.workers i).looking = true

/-- A worker that is about to block has seen the queue empty. -/
def Parked (s : Pool n) : Prop := ∀ i, s.workers i = .parking → s.tasks = []

/-- While a worker is blocked, there are no more tasks than workers on their way and calls that are about
to notify. -/
def Conserves (s : Pool n) : Prop :=
  ∀ i, s.workers i = .blocked → ∀ S : Finset Nat, (∀ j, s.enqueues j = .notifying → j ∈ S) →
    s.tasks.length ≤ s.looking.card + S.card

/-- The workers on their way to the queue, as a sum over all. -/
theorem looking_card (s : Pool n) : s.looking.card = ∑ i, (s.workers i).looks := Finset.card_filter _ _

/-! ## About to block -/

/-- A worker comes to block only where it has found the queue empty, and no worker fills it. -/
theorem WorkerStep.parked {i : Fin n} (h : WorkerStep s i s') (inv : Parked s) : Parked s' := by
  intro x parking
  by_cases eq : x = i
  · subst eq
    cases h with
    | park place quiet =>
      simp only [wakeable, Bool.or_eq_false_iff, Bool.not_eq_false', List.isEmpty_iff] at quiet
      exact quiet.1.2
    | done place next => rcases next with rfl | rfl <;> simp at parking
    | _ => simp at parking
  · rw [h.others eq] at parking
    exact h.tasks (inv x parking)

/-- A notification puts no worker between its test and its block. -/
theorem parking_woken {w w' : WorkerPc} (h : w' = w ∨ w = .blocked ∧ w' = .waking) (parking : w' = .parking) :
    w = .parking := by
  rcases h with rfl | ⟨rfl, rfl⟩
  · exact parking
  · cases parking

/-- `enqueue` pushes under the mutex, so no worker is between its test and its block. -/
theorem EnqueueStep.parked {j : Nat} (h : EnqueueStep s j s') (ex : Exclusive s.mutex s.inside)
    (inv : Parked s) : Parked s' := by
  intro x parking
  have before := parking_woken (h.worker x) parking
  have empty := inv x before
  cases h with
  | push place size =>
    -- the call and the worker would both hold the mutex
    have same := ex.unique (x := .worker x) (y := .enqueue j) (by simp [inside, before, WorkerPc.inside])
      (by simp [inside, place, EnqueuePc.inside])
    cases same
  | _ => exact empty

/-- Every step keeps this, for the mutex is held from the test to the block. -/
theorem parked_step {a : Action n} (ex : Exclusive s.mutex s.inside) (inv : Parked s) (h : s.step a = some s') :
    Parked s' := by
  cases a with
  | worker i threw => exact (workerStep_cases h).parked inv
  | enqueue j woken => exact (enqueueStep_cases h).parked ex inv
  | shutdown k =>
    have took := shutdownStep_cases h
    intro x parking
    rw [took.same.2.2.1]
    exact inv x (parking_woken (took.worker x) parking)

/-- This holds in every run. -/
theorem reach_parked {limit : Nat} (run : Reach step (.init n limit) s) : Parked s := by
  apply run.invariant_with (J := fun t => Exclusive t.mutex t.inside)
  · intro t run
    exact reach_exclusive run
  · intro i parking
    cases parking
  · intro t a u ex inv _ took
    exact parked_step ex inv took

/-! ## The balance -/

/-- A step of a worker takes a task with it when it leaves the way, unless the pool is stopped or the
queue is empty. -/
theorem WorkerStep.balance {i : Fin n} (h : WorkerStep s i s') (first : StopFirst s) (parked : Parked s)
    (running : s.stop = false) :
    s'.tasks = [] ∨ (s'.tasks.length + (s.workers i).looks ≤ s.tasks.length + (s'.workers i).looks ∧
      s'.workers i ≠ .blocked) := by
  have asked {b : Prop} (requested : s.stopRequested i = true) : b := by
    have stop := first.requested i requested
    rw [running] at stop
    cases stop
  cases h with
  | leave place requested => exact asked requested
  | drain place stopped empty => exact .inl empty
  | again place empty => exact .inl empty
  | park place quiet =>
    simp only [wakeable, Bool.or_eq_false_iff, Bool.not_eq_false', List.isEmpty_iff] at quiet
    exact .inl quiet.1.2
  | block place => exact .inl (parked i place)
  | lock place free =>
    right
    rcases place with place | place <;> simp [place, WorkerPc.looks, WorkerPc.looking]
  | take place queue =>
    right
    simp [place, queue, WorkerPc.looks, WorkerPc.looking]
  | done place next =>
    right
    rcases next with rfl | rfl <;> simp [place, WorkerPc.looks, WorkerPc.looking]
  | enter place | pass place | stir place | call place | caught place | finish place =>
    right
    simp [place, WorkerPc.looks, WorkerPc.looking]

/-- A worker that takes a task was on its way, so both numbers go down by one; one that goes to sleep has found no
task. -/
theorem WorkerStep.conserves_tasks {i : Fin n} (h : WorkerStep s i s') (first : StopFirst s) (parked : Parked s)
    (running : s.stop = false) (inv : Conserves s) : Conserves s' := by
  intro x blocked S notifying
  rcases h.balance first parked running with empty | ⟨less, awake⟩
  · rw [empty]
    exact Nat.zero_le _
  · have other : x ≠ i := by
      rintro rfl
      exact awake blocked
    rw [h.others other] at blocked
    rw [h.same.1] at notifying
    have before := inv x blocked S notifying
    have looks := sum_update WorkerPc.looks s.workers i (s'.workers i)
    rw [← h.moved, ← looking_card, ← looking_card] at looks
    omega

/-- A worker that is woken is on its way. -/
theorem looking_wake {i : Fin n} (blocked : s.workers i = .blocked) :
    (s.moveWorker i .waking).looking.card = s.looking.card + 1 := by
  have looks := sum_update WorkerPc.looks s.workers i .waking
  rw [blocked] at looks
  rw [looking_card, looking_card]
  exact looks

/-- A task that is pushed has its own call about to notify, and the notification sends a worker on its way. -/
theorem EnqueueStep.conserves_tasks {j : Nat} (h : EnqueueStep s j s') (inv : Conserves s) : Conserves s' := by
  intro x blocked S notifying
  cases h with
  | push place size =>
    have mine : j ∈ S := notifying j (by simp)
    have before := inv x blocked (S.erase j) (by
      intro k here
      have ne : k ≠ j := by
        rintro rfl
        cases place.symm.trans here
      exact Finset.mem_erase.2 ⟨ne, notifying k (by simpa [Function.update_of_ne ne] using here)⟩)
    have card := Finset.card_erase_add_one mine
    simp only [moveEnqueue_tasks, release_tasks, push_tasks, List.length_append, List.length_singleton]
    change _ ≤ s.looking.card + S.card
    omega
  | nobody place none_ =>
    have all := List.any_eq_false.1 none_ x (List.mem_finRange x)
    exact absurd (by simpa using blocked) all
  | @wake i place here =>
    have other : x ≠ i := by
      rintro rfl
      simp at blocked
    have before := inv x (by simpa [Function.update_of_ne other] using blocked) (insert j S) (by
      intro k here
      by_cases eq : k = j
      · exact Finset.mem_insert.2 (.inl eq)
      · exact Finset.mem_insert_of_mem (notifying k (by simpa [Function.update_of_ne eq] using here)))
    have card := Finset.card_insert_le j S
    have woken := looking_wake here
    change s.tasks.length ≤ (s.moveWorker i .waking).looking.card + S.card
    omega
  | call place | lock place | stopped place | pass place | full place =>
    apply inv x blocked S
    intro k here
    have ne : k ≠ j := by
      rintro rfl
      cases place.symm.trans here
    exact notifying k (by simpa [Function.update_of_ne ne] using here)

/-- What is running has not been stopped by the step of a `shutdown`. -/
theorem ShutdownStep.stops {k : Nat} (h : ShutdownStep s k s') (first : StopFirst s) : s'.stop = true := by
  cases h with
  | second place stop => exact stop
  | first place stop => rfl
  | notify place | cleared place | request place | join place =>
    exact first.called k (by simp [place])

/-- Every step before the stop keeps the balance of tasks and workers on their way. -/
theorem conserves_step {a : Action n} (first : StopFirst s) (parked : Parked s)
    (inv : s.stop = false → Conserves s) (h : s.step a = some s') (running : s'.stop = false) :
    Conserves s' := by
  cases a with
  | worker i threw =>
    have took := workerStep_cases h
    rw [took.same.2.2.2.1] at running
    exact took.conserves_tasks first parked running (inv running)
  | enqueue j woken =>
    have took := enqueueStep_cases h
    rw [took.same.2.2.1] at running
    exact took.conserves_tasks (inv running)
  | shutdown k =>
    have stop := (shutdownStep_cases h).stops first
    rw [running] at stop
    cases stop

/-- In every run before the stop no task waits for a worker that sleeps. -/
theorem reach_conserves {limit : Nat} (run : Reach step (.init n limit) s) : s.stop = false → Conserves s := by
  apply run.invariant_with (J := fun t => StopFirst t ∧ Parked t)
  · intro t run
    exact ⟨reach_stopFirst run, reach_parked run⟩
  · intro _ i blocked
    cases blocked
  · intro t a u known inv _ took
    exact conserves_step known.1 known.2 inv took

/-- **No task waits beside a sleeping worker** before the pool is stopped. -/
theorem work_conserved {limit : Nat} (run : Reach step (.init n limit) s) (running : s.stop = false) :
    Conserves s :=
  reach_conserves run running

/-- A worker sleeps, and a task has just been pushed. -/
theorem work_conserved_pushed :
    ∃ s : Pool 1, Reach step (.init 1 10) s ∧ s.workers 0 = .blocked ∧ s.tasks = [0] ∧ Conserves s := by
  have ends : (exec step (fun _ _ => true) (.init 1 10)
      (List.replicate 4 (.worker 0 false) ++ List.replicate 4 (.enqueue 0 none))).map
      (fun s : Pool 1 => (s.workers 0, s.tasks, s.stop)) = some (.blocked, [0], false) := by rfl
  obtain ⟨s, ran, same⟩ := Option.map_eq_some_iff.1 ends
  simp only [Prod.mk.injEq] at same
  have run := exec_reach _ ran
  exact ⟨s, run, same.1, same.2.1, work_conserved run same.2.2⟩

end Pool

end HttpServer
