import HttpServer.Server.PoolInvariants

/-!
# Shutdown and the queue

When `shutdown` has returned, every accepted task has been run once and no worker
is left, in every run of two kinds of orderly steps: the last worker to leave by
the stop token finds nothing to do, and a second `shutdown` comes when all
workers have ended (`drains`). Without the first a task stays in the queue
(`task_left`).
-/

namespace HttpServer

/-- The workers that the call has not seen end. -/
def ShutdownPc.left {n : Nat} : ShutdownPc n → List (Fin n)
  | idle | notifying => List.finRange n
  | stopping left => left
  | joining i left => i :: left
  | returned => []

namespace Pool

open Runs Parties

variable {n : Nat} {s s' : Pool n}

/-- Every worker has ended. -/
def AllOut (s : Pool n) : Prop := ∀ i, s.workers i = .exited

/-- Nothing is queued and nothing will be. -/
structure Quiet (s : Pool n) : Prop where
  stop : s.stop = true
  tasks : s.tasks = []
  pushing : 0 < s.maxQueueSize → ∀ j, s.enqueues j ≠ .pushing

/-- After a `shutdown` has returned no worker is left, and each task whose `enqueue` has returned or
will return true has been run exactly once. -/
def Drains (s : Pool n) : Prop :=
  ∀ k, s.shutdowns k = .returned → AllOut s ∧
    ∀ s', Reach step s s' → ∀ j, s'.enqueues j = .returned true → s.executed.count j = 1

/-- The last worker to leave by the stop token finds the queue empty and no call between its test of
`stop_` and its push (unless the queue takes nothing), and a `shutdown` that finds `stop_` set finds
every worker ended. -/
def Orderly (s : Pool n) : Action n → Prop
  | .worker i _ => s.workers i = .top → s.stopRequested i = true →
      (∀ x, x ≠ i → s.workers x = .exited) →
      s.tasks = [] ∧ (0 < s.maxQueueSize → ∀ j, s.enqueues j ≠ .pushing)
  | .enqueue _ _ => True
  | .shutdown k => s.shutdowns k = .idle → s.stop = true → AllOut s

/-! ## Ended workers -/

/-- A notification neither ends a worker nor brings one back. -/
theorem woken_exited {w w' : WorkerPc} (h : w' = w ∨ w = .blocked ∧ w' = .waking) :
    w' = .exited ↔ w = .exited := by
  rcases h with rfl | ⟨rfl, rfl⟩
  · rfl
  · simp

/-- A worker that has ended takes no step. -/
theorem WorkerStep.runs {i : Fin n} (h : WorkerStep s i s') : s.workers i ≠ .exited := by
  intro out
  cases h with
  | lock place =>
    rw [out] at place
    simp at place
  | leave place | enter place | pass place | park place | block place | stir place | drain place
  | again place | take place | call place | done place | caught place | finish place =>
    cases place.symm.trans out

/-- A worker that has ended stays so. -/
theorem exited_step {a : Action n} (h : s.step a = some s') {i : Fin n} (out : s.workers i = .exited) :
    s'.workers i = .exited := by
  cases a with
  | worker x threw =>
    have took := workerStep_cases h
    by_cases eq : i = x
    · subst eq
      exact absurd out took.runs
    · rw [took.others eq]
      exact out
  | enqueue j woken => exact (woken_exited ((enqueueStep_cases h).worker i)).2 out
  | shutdown k => exact (woken_exited ((shutdownStep_cases h).worker i)).2 out

/-- The other workers have ended. -/
def Joined (s : Pool n) : Prop := ∀ k i, i ∉ (s.shutdowns k).left → s.workers i = .exited

/-- `join` strikes only workers off the list that have ended. -/
theorem ShutdownStep.left {k : Nat} (h : ShutdownStep s k s')
    (orderly : s.shutdowns k = .idle → s.stop = true → AllOut s) {i : Fin n}
    (gone : i ∉ (s'.shutdowns k).left) :
    i ∉ (s.shutdowns k).left ∨ s.workers i = .exited := by
  cases h with
  | second place stop => exact .inr (orderly place stop i)
  | first place stop | notify place => simp [ShutdownPc.left] at gone
  | cleared place =>
    left
    simp [ShutdownPc.left, place]
  | request place =>
    left
    simpa [ShutdownPc.left, place] using gone
  | @join x left place exited =>
    by_cases eq : i = x
    · right
      rw [eq]
      exact exited
    · left
      simpa [ShutdownPc.left, place, eq] using gone

/-- While steps are orderly, a worker that a `shutdown` no longer waits for has ended. -/
theorem joined_step {a : Action n} (orderly : Orderly s a) (inv : Joined s) (h : s.step a = some s') :
    Joined s' := by
  intro k i gone
  apply exited_step h
  cases a with
  | worker x threw =>
    rw [(workerStep_cases h).same.2.1] at gone
    exact inv k i gone
  | enqueue j woken =>
    rw [(enqueueStep_cases h).same.1] at gone
    exact inv k i gone
  | shutdown x =>
    have took := shutdownStep_cases h
    by_cases eq : k = x
    · subst eq
      rcases took.left orderly gone with gone | out
      · exact inv k i gone
      · exact out
    · rw [took.others eq] at gone
      exact inv k i gone

/-! ## A quiet pool -/

/-- The bound of the queue is fixed. -/
theorem maxQueueSize_step {a : Action n} (h : s.step a = some s') : s'.maxQueueSize = s.maxQueueSize := by
  cases a with
  | worker i threw => cases workerStep_cases h <;> rfl
  | enqueue j woken => cases enqueueStep_cases h <;> rfl
  | shutdown k => cases shutdownStep_cases h <;> rfl

/-- A worker adds nothing to an empty queue. -/
theorem WorkerStep.tasks {i : Fin n} (h : WorkerStep s i s') (empty : s.tasks = []) : s'.tasks = [] := by
  cases h with
  | take place queue => cases queue.symm.trans empty
  | _ => exact empty

/-- Behind the stop no call comes to push. -/
theorem EnqueueStep.refused {j : Nat} (h : EnqueueStep s j s') (quiet : Quiet s) :
    (s'.enqueues j = .pushing → s.enqueues j = .pushing) ∧ s'.tasks = [] ∧ s'.accepted = s.accepted := by
  cases h with
  | pass place stop => cases stop.symm.trans quiet.stop
  | push place size =>
    rw [quiet.tasks] at size
    exact absurd place (quiet.pushing size j)
  | call place | lock place | stopped place | full place | nobody place | wake place =>
    simp [quiet.tasks]

/-- A quiet pool stays quiet and accepts nothing more. -/
theorem quiet_step {a : Action n} (quiet : Quiet s) (h : s.step a = some s') :
    Quiet s' ∧ s'.accepted = s.accepted := by
  have bound := maxQueueSize_step h
  cases a with
  | worker i threw =>
    have took := workerStep_cases h
    obtain ⟨enqueues, -, -, stop, accepted⟩ := took.same
    refine ⟨⟨?_, took.tasks quiet.tasks, ?_⟩, accepted⟩
    · rw [stop]
      exact quiet.stop
    · rw [enqueues, bound]
      exact quiet.pushing
  | enqueue j woken =>
    have took := enqueueStep_cases h
    obtain ⟨place, tasks, accepted⟩ := took.refused quiet
    refine ⟨⟨?_, tasks, ?_⟩, accepted⟩
    · rw [took.same.2.2.1]
      exact quiet.stop
    · rw [bound]
      intro pos x pushing
      apply quiet.pushing pos x
      by_cases eq : x = j
      · subst eq
        exact place pushing
      · rwa [← took.others eq]
  | shutdown k =>
    have took := shutdownStep_cases h
    obtain ⟨enqueues, -, tasks, accepted, -, -⟩ := took.same
    refine ⟨⟨?_, ?_, ?_⟩, accepted⟩
    · cases took with
      | first place stop => rfl
      | _ => exact quiet.stop
    · rw [tasks]
      exact quiet.tasks
    · rw [enqueues, bound]
      exact quiet.pushing

/-- Once all is quiet nothing is accepted any more. -/
theorem reach_quiet (quiet : Quiet s) (run : Reach step s s') : s'.accepted = s.accepted := by
  have both : Quiet s' ∧ s'.accepted = s.accepted := by
    apply run.invariant (I := fun t => Quiet t ∧ t.accepted = s.accepted)
    · exact ⟨quiet, rfl⟩
    · intro t a u inv _ took
      obtain ⟨quiet, same⟩ := quiet_step inv.1 took
      exact ⟨quiet, same.trans inv.2⟩
  exact both.2

/-! ## The last worker -/

/-- The worker with which the last one leaves finds a quiet pool. -/
theorem WorkerStep.last {i : Fin n} {threw : Bool} (h : WorkerStep s i s')
    (ex : Exclusive s.mutex s.inside) (first : StopFirst s) (orderly : Orderly s (.worker i threw))
    (out : AllOut s') : Quiet s := by
  have rest : ∀ x, x ≠ i → s.workers x = .exited := by
    intro x ne
    rw [← h.others ne]
    exact out x
  have mine := out i
  cases h with
  | leave place requested =>
    obtain ⟨tasks, pushing⟩ := orderly place requested rest
    exact ⟨first.requested i requested, tasks, pushing⟩
  | drain place stopped empty =>
    refine ⟨stopped.elim id (first.requested i), empty, ?_⟩
    -- the worker has the mutex, so no call is about to push
    intro _ j pushing
    have same := ex.unique (x := .worker i) (y := .enqueue j) (by simp [inside, place, WorkerPc.inside])
      (by simp [inside, pushing, EnqueuePc.inside])
    cases same
  | done place next =>
    rcases next with rfl | rfl
    · simp at mine
    · simp at mine
  | enter place | lock place | pass place | park place | block place | stir place | again place
  | take place | call place | caught place | finish place =>
    simp at mine

/-- When all workers have ended the pool is quiet. -/
theorem emptied_step {a : Action n} (ex : Exclusive s.mutex s.inside) (first : StopFirst s)
    (orderly : Orderly s a) (inv : AllOut s → Quiet s) (h : s.step a = some s') (out : AllOut s') :
    Quiet s' := by
  suffices before : Quiet s from (quiet_step before h).1
  cases a with
  | worker i threw => exact (workerStep_cases h).last ex first orderly out
  | enqueue j woken =>
    apply inv
    intro i
    exact (woken_exited ((enqueueStep_cases h).worker i)).1 (out i)
  | shutdown k =>
    apply inv
    intro i
    exact (woken_exited ((shutdownStep_cases h).worker i)).1 (out i)

/-- So it is in every run of orderly steps. -/
theorem joined_run {limit : Nat} (run : Run step Orderly (.init n limit) s) : Joined s := by
  apply run.invariant
  · intro k i gone
    simp [init, ShutdownPc.left] at gone
  · intro t a u inv orderly took
    exact joined_step orderly inv took

/-- In an orderly run the last worker to end has left the queue empty, and nothing is pushed behind it. -/
theorem emptied_run (pos : 0 < n) {limit : Nat} (run : Run step Orderly (.init n limit) s) :
    AllOut s → Quiet s := by
  apply run.invariant_with (J := fun t => Exclusive t.mutex t.inside ∧ StopFirst t)
  · intro t run
    exact ⟨reach_exclusive run.reach, reach_stopFirst run.reach⟩
  · intro out
    cases out ⟨0, pos⟩
  · intro t a u known inv orderly took out
    exact emptied_step known.1 known.2 orderly inv took out

/-- **Shutdown drains the pool** when every step is orderly. -/
theorem drains (pos : 0 < n) {limit : Nat} (run : Run step Orderly (.init n limit) s) : Drains s := by
  intro k returned
  have out : AllOut s := by
    intro i
    apply joined_run run k i
    simp [returned, ShutdownPc.left]
  have quiet := emptied_run pos run out
  refine ⟨out, ?_⟩
  intro s' later j accepted
  have ledger := reach_ledger run.reach
  have once := (reach_ledger (run.reach.trans later)).once j
  rw [reach_quiet quiet later, accepted] at once
  have fifo := ledger.fifo
  rw [quiet.tasks, List.append_nil] at fifo
  have held := ledger.held j
  have nobody : (∑ i, (s.workers i).has j) = 0 := Finset.sum_eq_zero fun i _ => by rw [out i]; rfl
  rw [← fifo, nobody] at held
  simp only [EnqueuePc.pushed, if_true] at once
  omega

/-- No worker leaves by the token, and there is one `shutdown`. -/
def plain (s : Pool n) : Action n → Bool
  | .worker i _ => !(s.workers i == .top && s.stopRequested i)
  | .enqueue _ _ => true
  | .shutdown k => !(s.shutdowns k == .idle && s.stop)

/-- The test that a run can be evaluated with finds orderly steps only. -/
theorem orderly_of_plain {a : Action n} (h : s.plain a = true) : Orderly s a := by
  cases a with
  | worker i threw =>
    intro place requested
    simp [plain, place, requested] at h
  | enqueue j woken => trivial
  | shutdown k =>
    intro place stop
    simp [plain, place, stop] at h

/-- One task is run by one worker, which then finds `stop_` set. -/
def oneTask : List (Action 1) :=
  List.replicate 5 (.enqueue 0 none) ++ List.replicate 7 (.worker 0 false) ++
    [.worker 0 false, .shutdown 0] ++ List.replicate 3 (.worker 0 false) ++
    List.replicate 4 (.shutdown 0)

theorem drains_oneTask : ∃ s, Run step Orderly (.init 1 10) s ∧ s.shutdowns 0 = .returned ∧ Drains s := by
  have ends : (exec step plain (.init 1 10) oneTask).map (·.shutdowns 0) = some .returned := by rfl
  obtain ⟨s, ran, returned⟩ := Option.map_eq_some_iff.1 ends
  have run : Run step Orderly (.init 1 10) s := (exec_run ran).mono fun _ _ => orderly_of_plain
  exact ⟨s, run, returned, drains (by decide) run⟩

/-- A worker that leaves at the top of its loop leaves an accepted task behind. -/
theorem task_left : ∃ s : Pool 1, Reach step (.init 1 10) s ∧ ¬ Drains s := by
  have ends : (exec step (fun _ _ => true) (.init 1 10)
      (List.replicate 5 (.enqueue 0 none) ++ List.replicate 3 (.shutdown 0) ++ [.worker 0 false] ++
        List.replicate 2 (.shutdown 0))).map
      (fun s : Pool 1 => (s.shutdowns 0, s.enqueues 0, s.executed)) =
        some (.returned, .returned true, []) := by rfl
  obtain ⟨s, ran, same⟩ := Option.map_eq_some_iff.1 ends
  simp only [Prod.mk.injEq] at same
  obtain ⟨returned, accepted, executed⟩ := same
  refine ⟨s, (exec_run ran).reach, fun drained => ?_⟩
  have once := (drained 0 returned).2 s .start 0 accepted
  rw [executed] at once
  cases once

end Pool

end HttpServer
