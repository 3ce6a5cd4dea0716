import Mathlib.Algebra.Order.BigOperators.Group.Finset
import HttpServer.Server.PoolInvariants

/-!
# Where the tasks are

Every task that has been pushed is in the queue, with a worker that is about to
begin it or is inside it, or in the log of those that have been run, and in one
of these places only (`Ledger.somewhere`, `Ledger.begun`). A step moves a task
on by one place or leaves it where it is.
-/

namespace HttpServer

open Runs

namespace Pool

variable {n : Nat} {s s' : Pool n}

/-- A worker is about to begin the task. -/
def Taken (s : Pool n) (j : Nat) : Prop := ∃ i, s.workers i = .taken j

/-- A worker is inside the task. -/
def Running (s : Pool n) (j : Nat) : Prop := ∃ i, s.workers i = .running j

/-- The task is accepted and not begun. -/
def Waits (s : Pool n) (j : Nat) : Prop := j ∈ s.tasks ∨ s.Taken j

def Begun (s : Pool n) (j : Nat) : Prop := s.Running j ∨ j ∈ s.executed

/-! ## A task is in one place -/

theorem has_le_sum (s : Pool n) (i : Fin n) (j : Nat) : (s.workers i).has j ≤ ∑ x, (s.workers x).has j :=
  Finset.single_le_sum (f := fun x => (s.workers x).has j) (fun _ _ => Nat.zero_le _) (Finset.mem_univ i)

theorem Taken.pos {j : Nat} (h : s.Taken j) : 1 ≤ ∑ x, (s.workers x).has j := by
  obtain ⟨i, place⟩ := h
  have le := s.has_le_sum i j
  simpa [place, WorkerPc.has] using le

theorem Running.pos {j : Nat} (h : s.Running j) : 1 ≤ ∑ x, (s.workers x).has j := by
  obtain ⟨i, place⟩ := h
  have le := s.has_le_sum i j
  simpa [place, WorkerPc.has] using le

/-- The task is in the queue, with a worker or in the log, if it has been pushed at all. -/
theorem Ledger.total (inv : Ledger s) (j : Nat) :
    s.tasks.count j + (∑ i, (s.workers i).has j) + s.executed.count j = if (s.enqueues j).pushed then 1 else 0 := by
  have once := inv.once j
  have held := inv.held j
  rw [inv.fifo, List.count_append] at once
  omega

/-- A task that is pushed is somewhere. -/
theorem Ledger.somewhere (inv : Ledger s) {j : Nat} (pushed : (s.enqueues j).pushed = true) :
    s.Waits j ∨ s.Begun j := by
  have total := inv.total j
  rw [if_pos pushed] at total
  by_cases queued : j ∈ s.tasks
  · exact .inl (.inl queued)
  · by_cases run : j ∈ s.executed
    · exact .inr (.inr run)
    · rw [List.count_eq_zero_of_not_mem queued, List.count_eq_zero_of_not_mem run] at total
      obtain ⟨i, -, has⟩ : ∃ i ∈ Finset.univ, (s.workers i).has j ≠ 0 := by
        apply Finset.exists_ne_zero_of_sum_ne_zero
        omega
      generalize place : s.workers i = w at has
      cases w with
      | taken t =>
        obtain rfl : t = j := by simpa [WorkerPc.has] using has
        exact .inl (.inr ⟨i, place⟩)
      | running t =>
        obtain rfl : t = j := by simpa [WorkerPc.has] using has
        exact .inr (.inl ⟨i, place⟩)
      | _ => simp [WorkerPc.has] at has

/-- A task that is begun does not wait. -/
theorem Ledger.begun (inv : Ledger s) {j : Nat} (begun : s.Begun j) : ¬ s.Waits j := by
  have total := inv.total j
  have small : (if (s.enqueues j).pushed = true then 1 else 0) ≤ 1 := by split <;> omega
  have place : 1 ≤ (∑ i, (s.workers i).has j) + s.executed.count j := by
    rcases begun with running | run
    · exact Nat.le_add_right_of_le running.pos
    · exact Nat.le_add_left_of_le (List.count_pos_iff.2 run)
  rintro (queued | taken)
  · have := List.count_pos_iff.2 queued
    omega
  · rcases begun with ⟨i, running⟩ | run
    · obtain ⟨x, taken⟩ := taken
      have ne : i ≠ x := by
        rintro rfl
        cases running.symm.trans taken
      have both : (s.workers i).has j + (s.workers x).has j ≤ ∑ y, (s.workers y).has j :=
        Finset.add_le_sum (f := fun y => (s.workers y).has j) (fun _ _ => Nat.zero_le _) (Finset.mem_univ i)
          (Finset.mem_univ x) ne
      have one : (s.workers i).has j = 1 := by simp [running, WorkerPc.has]
      have two : (s.workers x).has j = 1 := by simp [taken, WorkerPc.has]
      omega
    · have := taken.pos
      have := List.count_pos_iff.2 run
      omega

/-- A task that is not pushed is nowhere. -/
theorem Ledger.nowhere (inv : Ledger s) {j : Nat} (unpushed : (s.enqueues j).pushed = false) :
    ¬ s.Waits j ∧ ¬ s.Begun j := by
  have total := inv.total j
  rw [unpushed, if_neg Bool.false_ne_true] at total
  constructor
  · rintro (queued | taken)
    · have := List.count_pos_iff.2 queued
      omega
    · have := taken.pos
      omega
  · rintro (running | run)
    · have := running.pos
      omega
    · have := List.count_pos_iff.2 run
      omega

/-! ## What a step does to the tasks -/

/-- A worker's step, as far as it concerns the tasks. -/
inductive Handing (s s' : Pool n) (i : Fin n) : Prop where
  | none_ (before : ∀ t, s.workers i ≠ .taken t ∧ s.workers i ≠ .running t)
      (after : ∀ t, s'.workers i ≠ .taken t ∧ s'.workers i ≠ .running t) (tasks : s'.tasks = s.tasks)
      (executed : s'.executed = s.executed)
  | take {t : Nat} (before : ∀ t, s.workers i ≠ .taken t ∧ s.workers i ≠ .running t)
      (after : s'.workers i = .taken t) (tasks : s.tasks = t :: s'.tasks) (executed : s'.executed = s.executed)
  | call {t : Nat} (before : s.workers i = .taken t) (after : s'.workers i = .running t)
      (tasks : s'.tasks = s.tasks) (executed : s'.executed = s.executed)
  | done {t : Nat} (before : s.workers i = .running t)
      (after : ∀ t, s'.workers i ≠ .taken t ∧ s'.workers i ≠ .running t) (tasks : s'.tasks = s.tasks)
      (executed : s'.executed = s.executed ++ [t])

theorem WorkerStep.handing {i : Fin n} (h : WorkerStep s i s') : Handing s s' i := by
  cases h with
  | lock place free =>
    rcases place with place | place <;> exact .none_ (by simp [place]) (by simp) rfl rfl
  | take place queue => exact .take (by simp [place]) (by simp) queue rfl
  | call place => exact .call place (by simp) rfl rfl
  | done place next =>
    rcases next with rfl | rfl <;> exact .done place (by simp) rfl rfl
  | leave place | enter place | pass place | park place | block place | stir place | drain place
  | again place | caught place | finish place => exact .none_ (by simp [place]) (by simp) rfl rfl

/-- What waits has waited before. -/
theorem WorkerStep.waited {i : Fin n} (h : WorkerStep s i s') {j : Nat} (waits : s'.Waits j) : s.Waits j := by
  rcases waits with queued | ⟨x, taken⟩
  · cases h.handing with
    | take before after tasks => exact .inl (tasks ▸ .tail _ queued)
    | none_ before after tasks | call before after tasks | done before after tasks => exact .inl (tasks ▸ queued)
  · by_cases eq : x = i
    · subst eq
      cases h.handing with
      | take before after tasks =>
        cases after.symm.trans taken
        exact .inl (tasks ▸ .head _)
      | call before after => cases after.symm.trans taken
      | none_ before after | done before after => exact absurd taken (after j).1
    · exact .inr ⟨x, by rwa [h.others eq] at taken⟩

/-- What waits goes on waiting, or is begun. -/
theorem WorkerStep.waits {i : Fin n} (h : WorkerStep s i s') {j : Nat} (waits : s.Waits j) :
    s'.Waits j ∨ s.workers i = .taken j := by
  rcases waits with queued | ⟨x, taken⟩
  · cases h.handing with
    | take before after tasks =>
      rw [tasks] at queued
      cases queued with
      | head => exact .inl (.inr ⟨i, after⟩)
      | tail _ queued => exact .inl (.inl queued)
    | none_ before after tasks | call before after tasks | done before after tasks =>
      exact .inl (.inl (tasks ▸ queued))
  · by_cases eq : x = i
    · subst eq
      exact .inr taken
    · exact .inl (.inr ⟨x, by rwa [h.others eq]⟩)

/-- What is running goes on running, or is done. -/
theorem WorkerStep.running {i : Fin n} (h : WorkerStep s i s') {j : Nat} (running : s.Running j) :
    s'.Running j ∨ s.workers i = .running j := by
  obtain ⟨x, running⟩ := running
  by_cases eq : x = i
  · subst eq
    exact .inr running
  · exact .inl ⟨x, by rwa [h.others eq]⟩

/-- What is begun has been begun before, or is begun by this worker. -/
theorem WorkerStep.begun {i : Fin n} (h : WorkerStep s i s') {j : Nat} (begun : s'.Begun j) :
    s.Begun j ∨ s.workers i = .taken j := by
  rcases begun with ⟨x, running⟩ | run
  · by_cases eq : x = i
    · subst eq
      cases h.handing with
      | call before after =>
        cases after.symm.trans running
        exact .inr before
      | take before after => cases after.symm.trans running
      | none_ before after | done before after => exact absurd running (after j).2
    · exact .inl (.inl ⟨x, by rwa [h.others eq] at running⟩)
  · cases h.handing with
    | done before after tasks executed =>
      rw [executed, List.mem_append, List.mem_singleton] at run
      rcases run with run | rfl
      · exact .inl (.inr run)
      · exact .inl (.inl ⟨i, before⟩)
    | none_ before after tasks executed | take before after tasks executed | call before after tasks executed =>
      exact .inl (.inr (executed ▸ run))

/-- Waking a worker changes no task. -/
theorem taken_woken (woken : ∀ i, s'.workers i = s.workers i ∨ s.workers i = .blocked ∧ s'.workers i = .waking)
    (j : Nat) : (s'.Taken j ↔ s.Taken j) ∧ (s'.Running j ↔ s.Running j) := by
  have same (i : Fin n) (w : WorkerPc) (busy : w = .taken j ∨ w = .running j) : s'.workers i = w ↔ s.workers i = w := by
    rcases woken i with eq | ⟨blocked, waking⟩
    · rw [eq]
    · rw [blocked, waking]
      rcases busy with rfl | rfl <;> exact iff_of_false nofun nofun
  exact ⟨exists_congr fun i => same i _ (.inl rfl), exists_congr fun i => same i _ (.inr rfl)⟩

/-- `enqueue` begins nothing, and it pushes its own task only. -/
theorem EnqueueStep.places {j : Nat} (h : EnqueueStep s j s') (x : Nat) :
    (s'.Begun x ↔ s.Begun x) ∧ (s.Waits x → s'.Waits x) ∧
      (s'.Waits x → s.Waits x ∨ x = j ∧ (s.enqueues j).pushed = false) := by
  obtain ⟨taken, running⟩ := taken_woken h.worker x
  obtain ⟨-, -, -, -, executed⟩ := h.same
  refine ⟨or_congr running (by rw [executed]), ?_⟩
  have tasks : s'.tasks = s.tasks ∨ (s.enqueues j).pushed = false ∧ s'.tasks = s.tasks ++ [j] := by
    cases h with
    | push place size => exact .inr ⟨by rw [place]; rfl, rfl⟩
    | _ => exact .inl rfl
  rcases tasks with tasks | ⟨unpushed, tasks⟩
  · have same : s'.Waits x ↔ s.Waits x := or_congr (by rw [tasks]) taken
    exact ⟨same.2, fun waits => .inl (same.1 waits)⟩
  · refine ⟨Or.imp (fun queued => tasks ▸ List.mem_append_left _ queued) taken.2, ?_⟩
    rintro (queued | waits)
    · rw [tasks, List.mem_append, List.mem_singleton] at queued
      exact queued.imp .inl fun eq => ⟨eq, unpushed⟩
    · exact .inl (.inr (taken.1 waits))

theorem ShutdownStep.places {k : Nat} (h : ShutdownStep s k s') (x : Nat) :
    (s'.Begun x ↔ s.Begun x) ∧ (s'.Waits x ↔ s.Waits x) := by
  obtain ⟨taken, running⟩ := taken_woken h.worker x
  obtain ⟨-, -, tasks, -, -, executed⟩ := h.same
  exact ⟨or_congr running (by rw [executed]), or_congr (by rw [tasks]) taken⟩

end Pool

end HttpServer
