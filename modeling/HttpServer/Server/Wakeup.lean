import HttpServer.Server.PoolInvariants

/-!
# Shutdown and sleeping workers

A worker that has found its predicate false and has not blocked yet misses the
one `notify_all`, since `stop_` is set without the mutex. If no worker is at that
place when `notify_all` is called, none sleeps behind it (`never_stuck`);
otherwise `join` can wait for a worker that nobody wakes (`wakeup_lost`).
-/

namespace HttpServer

/-- About to block, or blocked. -/
def WorkerPc.asleep : WorkerPc → Bool
  | parking | blocked => true
  | _ => false

/-- Behind `notify_all`, before the return. -/
def ShutdownPc.notified {n : Nat} : ShutdownPc n → Bool
  | stopping _ | joining _ _ => true
  | _ => false

namespace Pool

open Runs

variable {n : Nat} {s s' : Pool n}

/-- A `shutdown` waits for a worker that is blocked, and no `enqueue` is about to notify. -/
def Stuck (s : Pool n) : Prop :=
  ∃ k i left, s.shutdowns k = .joining i left ∧ s.workers i = .blocked ∧
    ∀ j, s.enqueues j ≠ .notifying

/-- No worker is between its predicate and its sleep when `notify_all` is called. -/
def Heard (s : Pool n) : Action n → Prop
  | .shutdown k => s.shutdowns k = .notifying → ∀ i, s.workers i ≠ .parking
  | _ => True

/-- Nobody sleeps behind a `notify_all`. -/
def Woken (s : Pool n) : Prop :=
  ∀ k, (s.shutdowns k).notified = true → ∀ i, (s.workers i).asleep = false

/-- Where `stop_` is set no worker goes to sleep. -/
theorem WorkerStep.stays_awake {i : Fin n} (h : WorkerStep s i s') (stop : s.stop = true)
    (awake : (s.workers i).asleep = false) : (s'.workers i).asleep = false := by
  cases h with
  | park place quiet => simp [wakeable, stop] at quiet
  | block place => simp [place, WorkerPc.asleep] at awake
  | done place next =>
    rcases next with rfl | rfl
    · simp [WorkerPc.asleep]
    · simp [WorkerPc.asleep]
  | _ => simp [WorkerPc.asleep]

theorem asleep_woken {w w' : WorkerPc} (h : w' = w ∨ w = .blocked ∧ w' = .waking)
    (awake : w.asleep = false) : w'.asleep = false := by
  rcases h with rfl | ⟨rfl, rfl⟩
  · exact awake
  · rfl

theorem ShutdownStep.wakes {k : Nat} (h : ShutdownStep s k s')
    (heard : s.shutdowns k = .notifying → ∀ i, s.workers i ≠ .parking)
    (notified : (s'.shutdowns k).notified = true) :
    (s.shutdowns k).notified = true ∨ ∀ i, (s'.workers i).asleep = false := by
  cases h with
  | notify place =>
    right
    intro i
    have ready := heard place i
    simp only [moveShutdown_workers, wakeAll_workers]
    cases pc : s.workers i with
    | parking => exact absurd pc ready
    | _ => rfl
  | second place stop | first place stop | cleared place => simp [ShutdownPc.notified] at notified
  | request place | join place exited => exact .inl (by simp [place, ShutdownPc.notified])

theorem woken_step {a : Action n} (first : StopFirst s) (heard : Heard s a) (inv : Woken s)
    (h : s.step a = some s') : Woken s' := by
  intro k notified i
  cases a with
  | worker x threw =>
    have took := workerStep_cases h
    rw [took.same.2.1] at notified
    by_cases eq : i = x
    · subst eq
      apply took.stays_awake (first.called k ?_) (inv k notified i)
      intro idle
      simp [idle, ShutdownPc.notified] at notified
    · rw [took.others eq]
      exact inv k notified i
  | enqueue j woken =>
    have took := enqueueStep_cases h
    rw [took.same.1] at notified
    exact asleep_woken (took.worker i) (inv k notified i)
  | shutdown x =>
    have took := shutdownStep_cases h
    by_cases eq : k = x
    · subst eq
      rcases took.wakes heard notified with before | awake
      · exact asleep_woken (took.worker i) (inv k before i)
      · exact awake i
    · rw [took.others eq] at notified
      exact asleep_woken (took.worker i) (inv k notified i)

theorem woken_run {limit : Nat} (run : Run step Heard (.init n limit) s) : Woken s := by
  apply run.invariant_with (J := StopFirst)
  · intro t run
    exact reach_stopFirst run.reach
  · intro k notified
    cases notified
  · intro t a u first inv heard took
    exact woken_step first heard inv took

/-- **No `join` waits for a sleeping worker** when every `notify_all` is heard. -/
theorem never_stuck {limit : Nat} (run : Run step Heard (.init n limit) s) : ¬ Stuck s := by
  rintro ⟨k, i, left, joining, blocked, -⟩
  have awake := woken_run run k (by simp [joining, ShutdownPc.notified]) i
  simp [blocked, WorkerPc.asleep] at awake

/-- `Heard`, evaluated. -/
def hears (s : Pool n) : Action n → Bool
  | .shutdown k => !(s.shutdowns k == .notifying && (List.finRange n).any fun i => s.workers i == .parking)
  | _ => true

theorem heard_of_hears {a : Action n} (h : s.hears a = true) : Heard s a := by
  cases a with
  | worker i threw => trivial
  | enqueue j woken => trivial
  | shutdown k =>
    intro place i parking
    have some_ : ((List.finRange n).any fun i => s.workers i == .parking) = true :=
      List.any_eq_true.2 ⟨i, List.mem_finRange i, by simp [parking]⟩
    simp [hears, place, some_] at h

/-- A worker that sleeps when `notify_all` is called is woken. -/
theorem never_stuck_asleep :
    ∃ s, Run step Heard (.init 1 10) s ∧ s.shutdowns 0 = .joining 0 [] ∧ ¬ Stuck s := by
  have ends : (exec step hears (.init 1 10)
      (List.replicate 4 (.worker 0 false) ++ List.replicate 3 (.shutdown 0))).map (·.shutdowns 0) =
        some (.joining 0 []) := by rfl
  obtain ⟨s, ran, joining⟩ := Option.map_eq_some_iff.1 ends
  have run : Run step Heard (.init 1 10) s := (exec_run ran).mono fun _ _ => heard_of_hears
  exact ⟨s, run, joining, never_stuck run⟩

/-- The worker finds its predicate false, and blocks after `notify_all`. -/
theorem wakeup_lost : ∃ s : Pool 1, Reach step (.init 1 10) s ∧ Stuck s := by
  have ends : (exec step (fun _ _ => true) (.init 1 10)
      (List.replicate 3 (.worker 0 false) ++ List.replicate 2 (.shutdown 0) ++
        [.worker 0 false, .shutdown 0])).map
      (fun s : Pool 1 => (s.shutdowns 0, s.workers 0, s.enqueues)) =
        some (.joining 0 [], .blocked, fun _ => .idle) := by rfl
  obtain ⟨s, ran, same⟩ := Option.map_eq_some_iff.1 ends
  simp only [Prod.mk.injEq] at same
  obtain ⟨joining, blocked, idle⟩ := same
  refine ⟨s, (exec_run ran).reach, 0, 0, [], joining, blocked, fun j => ?_⟩
  rw [idle]
  simp

end Pool

end HttpServer
