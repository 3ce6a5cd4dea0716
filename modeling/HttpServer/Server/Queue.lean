import HttpServer.Server.Drain

/-!
# The work queue

In every reachable state of the pool the queue is a first-in first-out buffer of
bounded size that neither loses nor doubles a task, and the counter of active
workers is exact (`reach_queue`).
-/

namespace HttpServer

/-- Between the increment of the counter and its decrement. -/
def WorkerPc.active : WorkerPc → Bool
  | running _ | catching | finishing => true
  | _ => false

/-- How much the worker adds to the counter. -/
def WorkerPc.weight (w : WorkerPc) : Nat := if w.active = true then 1 else 0

namespace Pool

open Runs Parties

variable {n : Nat} {s s' : Pool n}

/-- The workers between the increment of the counter and its decrement. -/
def active (s : Pool n) : Finset (Fin n) := Finset.univ.filter fun i => (s.workers i).active = true

/-- Exactly one worker has the task, which has not been run, or none has it and it has been run once. -/
def HeldOrRun (s : Pool n) (j : Nat) : Prop :=
  (∃! i, (s.workers i).has j = 1) ∧ s.executed.count j = 0 ∨
    (∀ i, (s.workers i).has j = 0) ∧ s.executed.count j = 1

/-- What holds of the queue and the counter at any time. -/
structure QueueSound (limit : Nat) (s : Pool n) : Prop where
  order : s.dequeued ++ s.tasks = s.accepted
  size : s.tasks.length ≤ limit
  result : ∀ j b, s.enqueues j = .returned b → s.accepted.count j = if b then 1 else 0
  once : ∀ j ∈ s.dequeued, HeldOrRun s j
  count : s.activeCount.toNat = s.active.card
  most : s.activeCount.toNat ≤ n
  decrement : ∀ i, s.workers i = .finishing → 0 < s.activeCount.toNat
  idle : AllOut s → s.activeCount = 0

/-! ## The size of the queue -/

/-- The bound is never changed. -/
theorem maxQueueSize_reach {limit : Nat} (run : Reach step (.init n limit) s) : s.maxQueueSize = limit := by
  apply run.invariant
  · rfl
  · intro t a u same _ took
    rw [maxQueueSize_step took, same]

/-- `enqueue` pushes only below the bound. -/
theorem size_step {a : Action n} (h : s.step a = some s') (le : s.tasks.length ≤ s.maxQueueSize) :
    s'.tasks.length ≤ s'.maxQueueSize := by
  rw [maxQueueSize_step h]
  cases a with
  | worker i threw =>
    cases workerStep_cases h with
    | take place queue =>
      rw [queue] at le
      exact (Nat.le_succ _).trans le
    | _ => exact le
  | enqueue j woken =>
    cases enqueueStep_cases h with
    | push place size =>
      simp only [moveEnqueue_tasks, release_tasks, push_tasks, List.length_append, List.length_singleton]
      exact size
    | _ => exact le
  | shutdown k =>
    rw [(shutdownStep_cases h).same.2.2.1]
    exact le

/-- In every run the queue is within its bound. -/
theorem reach_size {limit : Nat} (run : Reach step (.init n limit) s) : s.tasks.length ≤ limit := by
  rw [← maxQueueSize_reach run]
  apply run.invariant
  · exact Nat.zero_le _
  · intro t a u le _ took
    exact size_step took le

/-! ## The counter -/

/-- The workers that `active_count_` counts, as a sum over all. -/
theorem active_card (s : Pool n) : s.active.card = ∑ i, WorkerPc.weight (s.workers i) :=
  Finset.card_filter _ _

/-- No more workers are active than there are. -/
theorem active_le (s : Pool n) : s.active.card ≤ n := by
  have := Finset.card_le_univ s.active
  rwa [Fintype.card_fin] at this

/-- A notification makes no worker active. -/
theorem weight_woken (woken : ∀ i, s'.workers i = s.workers i ∨ s.workers i = .blocked ∧ s'.workers i = .waking) :
    s'.active.card = s.active.card := by
  rw [active_card, active_card]
  apply Finset.sum_congr rfl
  intro i _
  rcases woken i with same | ⟨before, after⟩
  · rw [same]
  · rw [before, after]
    rfl

/-- The counter moves with the weight of the worker that steps. -/
theorem WorkerStep.weighs {i : Fin n} (h : WorkerStep s i s') :
    s'.activeCount = s.activeCount ∧ (s'.workers i).weight = (s.workers i).weight ∨
    s'.activeCount = s.activeCount + 1 ∧ (s.workers i).weight = 0 ∧ (s'.workers i).weight = 1 ∨
    s'.activeCount = s.activeCount - 1 ∧ (s.workers i).weight = 1 ∧ (s'.workers i).weight = 0 := by
  cases h with
  | call place => exact .inr (.inl ⟨rfl, by simp [place, WorkerPc.weight, WorkerPc.active]⟩)
  | finish place => exact .inr (.inr ⟨rfl, by simp [place, WorkerPc.weight, WorkerPc.active]⟩)
  | lock place free =>
    rcases place with place | place
    · exact .inl ⟨rfl, by simp [place, WorkerPc.weight, WorkerPc.active]⟩
    · exact .inl ⟨rfl, by simp [place, WorkerPc.weight, WorkerPc.active]⟩
  | done place next =>
    rcases next with rfl | rfl
    · exact .inl ⟨rfl, by simp [place, WorkerPc.weight, WorkerPc.active]⟩
    · exact .inl ⟨rfl, by simp [place, WorkerPc.weight, WorkerPc.active]⟩
  | leave place | enter place | pass place | park place | block place | stir place | drain place
  | again place | take place | caught place =>
    exact .inl ⟨rfl, by simp [place, WorkerPc.weight, WorkerPc.active]⟩

/-- The counter is exact, as there are fewer workers than it can count. -/
theorem WorkerStep.counts {i : Fin n} (h : WorkerStep s i s') (small : n < 2 ^ 64)
    (count : s.activeCount.toNat = s.active.card) : s'.activeCount.toNat = s'.active.card := by
  have weights := sum_update WorkerPc.weight s.workers i (s'.workers i)
  rw [← h.moved, ← active_card, ← active_card] at weights
  have most := active_le s'
  rcases h.weighs with ⟨same, still⟩ | ⟨up, before, after⟩ | ⟨down, before, after⟩
  · rw [same]
    omega
  · rw [up, UInt64.toNat_add, UInt64.toNat_one]
    omega
  · rw [down, UInt64.toNat_sub, UInt64.toNat_one]
    omega

/-- The counter is the number of active workers, and does not wrap. -/
theorem reach_count {limit : Nat} (small : n < 2 ^ 64) (run : Reach step (.init n limit) s) :
    s.activeCount.toNat = s.active.card := by
  apply run.invariant
  · simp [active, init, WorkerPc.active]
  · intro t a u count _ took
    cases a with
    | worker i threw => exact (workerStep_cases took).counts small count
    | enqueue j woken =>
      have took := enqueueStep_cases took
      rw [weight_woken took.worker, ← count]
      cases took <;> rfl
    | shutdown k =>
      have took := shutdownStep_cases took
      rw [weight_woken took.worker, ← count]
      cases took <;> rfl

/-! ## The queue -/

/-- A sum that is one has a single party with one. -/
theorem heldOrRun_of_sum {j : Nat} (h : 1 = (∑ i, (s.workers i).has j) + s.executed.count j) :
    HeldOrRun s j := by
  rcases Nat.eq_zero_or_pos (∑ i, (s.workers i).has j) with none_ | some_
  · right
    refine ⟨fun i => ?_, by omega⟩
    exact Finset.sum_eq_zero_iff.1 none_ i (Finset.mem_univ i)
  · left
    have one : (∑ i, (s.workers i).has j) = 1 := by omega
    obtain ⟨i, -, has⟩ := Finset.exists_ne_zero_of_sum_ne_zero (by omega : (∑ i, (s.workers i).has j) ≠ 0)
    have split := Finset.add_sum_erase Finset.univ (fun i => (s.workers i).has j) (Finset.mem_univ i)
    have others : ∑ x ∈ Finset.univ.erase i, (s.workers x).has j = 0 := by omega
    refine ⟨⟨i, by simp only; omega, ?_⟩, by omega⟩
    intro x held
    by_contra ne
    have := Finset.sum_eq_zero_iff.1 others x (Finset.mem_erase.2 ⟨ne, Finset.mem_univ x⟩)
    omega

/-- What has been taken from the queue is in one worker's hands or has been run. -/
theorem Ledger.heldOrRun (inv : Ledger s) {j : Nat} (mem : j ∈ s.dequeued) : HeldOrRun s j := by
  apply heldOrRun_of_sum
  have pos := List.count_pos_iff.2 mem
  have once := inv.once j
  rw [inv.fifo, List.count_append] at once
  have held := inv.held j
  split at once <;> omega

/-- **The queue is exact**, for any number of workers that the constructor takes. -/
theorem reach_queue (numWorkers : Int32) (maxQueueSize : Nat)
    {s : Pool numWorkers.toNatClampNeg} (run : Reach step (.init numWorkers.toNatClampNeg maxQueueSize) s) :
    QueueSound maxQueueSize s := by
  have small : numWorkers.toNatClampNeg < 2 ^ 64 := numWorkers.toNatClampNeg_lt.trans (by decide)
  have ledger := reach_ledger run
  have count := reach_count small run
  refine ⟨ledger.fifo.symm, reach_size run, ?_, fun j mem => ledger.heldOrRun mem, count,
    count.le.trans (active_le s), ?_, ?_⟩
  · intro j b returned
    rw [ledger.once j, returned]
    cases b <;> rfl
  · intro i finishing
    rw [count, Finset.card_pos]
    exact ⟨i, Finset.mem_filter.2 ⟨Finset.mem_univ i, by rw [finishing]; rfl⟩⟩
  · intro out
    have none_ : s.active = ∅ := by
      apply Finset.filter_false_of_mem
      intro i _
      rw [out i]
      decide
    rw [none_, Finset.card_empty] at count
    exact UInt64.toNat_inj.1 count

/-- One worker runs a task that throws. -/
theorem queue_at_work : ∃ s : Pool (1 : Int32).toNatClampNeg,
    Reach step (.init _ 1) s ∧ s.executed = [0] ∧ s.activeCount = 1 ∧ QueueSound 1 s := by
  have ends : (exec step (fun _ _ => true) (.init (1 : Int32).toNatClampNeg 1)
      (List.replicate 4 (.enqueue 0 none) ++
        List.replicate 7 (.worker ⟨0, by decide⟩ true))).map (fun s => (s.executed, s.activeCount)) =
        some ([0], 1) := by rfl
  obtain ⟨s, ran, same⟩ := Option.map_eq_some_iff.1 ends
  simp only [Prod.mk.injEq] at same
  have run := (exec_run ran).reach
  exact ⟨s, run, same.1, same.2, reach_queue 1 1 run⟩

end Pool

end HttpServer
