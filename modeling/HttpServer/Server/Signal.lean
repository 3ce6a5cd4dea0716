import HttpServer.Server.Drain

/-!
# A signal in the critical section

The handler that `main` installs calls `stop()`, and with it the pool's
`shutdown`, on the thread that the signal interrupts. Where this is the thread of
the accept loop between the lock of the mutex and its unlock in `enqueue`, a
worker that has yet to take the mutex can never end, and the handler joins it:
`stop()` does not return (`handler_hangs`).
-/

namespace HttpServer

/-- The worker needs the mutex before it can end. -/
def WorkerPc.needsMutex : WorkerPc → Bool
  | locking | waking | blocked => true
  | _ => false

namespace Pool

open Runs Parties

variable {n : Nat} {s s' : Pool n}

/-- The call `k` of `shutdown` runs in a handler that interrupts the call `j` of `enqueue`: this one goes on
when that one has returned. -/
def Interrupts (j k : Nat) (s : Pool n) : Action n → Prop
  | .enqueue x _ => x = j → s.shutdowns k = .returned
  | _ => True

/-- The interrupted call has the mutex, and `shutdown` has still to join a worker that needs it. -/
structure Hangs (j k : Nat) (i : Fin n) (s : Pool n) : Prop where
  inside : (s.enqueues j).inside = true
  needs : (s.workers i).needsMutex = true
  called : s.shutdowns k ≠ .idle
  left : i ∈ (s.shutdowns k).left

theorem Hangs.open_ {j k : Nat} {i : Fin n} (h : Hangs j k i s) : s.shutdowns k ≠ .returned := by
  intro returned
  have left := h.left
  simp [returned, ShutdownPc.left] at left

theorem needsMutex_woken {w w' : WorkerPc} (h : w' = w ∨ w = .blocked ∧ w' = .waking)
    (needs : w.needsMutex = true) : w'.needsMutex = true := by
  rcases h with rfl | ⟨rfl, rfl⟩
  · exact needs
  · rfl

/-- A worker that needs the mutex does not get it. -/
theorem WorkerStep.needsMutex {i : Fin n} (h : WorkerStep s i s') {owner : Holder n}
    (taken : s.mutex = some owner) (needs : (s.workers i).needsMutex = true) :
    (s'.workers i).needsMutex = true := by
  cases h with
  | lock place free => cases taken.symm.trans free
  | stir place => simp [WorkerPc.needsMutex]
  | leave place | enter place | pass place | park place | block place | drain place | again place | take place
  | call place | done place | caught place | finish place =>
    simp [place, WorkerPc.needsMutex] at needs

/-- The worker is not joined. -/
theorem ShutdownStep.hangs {k : Nat} {i : Fin n} (h : ShutdownStep s k s') (called : s.shutdowns k ≠ .idle)
    (needs : (s.workers i).needsMutex = true) (left : i ∈ (s.shutdowns k).left) :
    s'.shutdowns k ≠ .idle ∧ i ∈ (s'.shutdowns k).left := by
  cases h with
  | second place stop => exact absurd place called
  | first place stop => exact absurd place called
  | notify place => simp [ShutdownPc.left]
  | cleared place => simp [place, ShutdownPc.left] at left
  | request place => simpa [place, ShutdownPc.left] using left
  | @join x rest place exited =>
    have other : i ≠ x := by
      rintro rfl
      simp [exited, WorkerPc.needsMutex] at needs
    simpa [place, ShutdownPc.left, other] using left

theorem hangs_step {j k : Nat} {i : Fin n} {a : Action n} (ex : Exclusive s.mutex s.inside)
    (inv : Hangs j k i s) (ok : Interrupts j k s a) (h : s.step a = some s') : Hangs j k i s' := by
  have taken : s.mutex = some (.enqueue j) := ex (.enqueue j) inv.inside
  cases a with
  | worker x threw =>
    have took := workerStep_cases h
    obtain ⟨enqueues, shutdowns, -⟩ := took.same
    refine ⟨by rw [enqueues]; exact inv.inside, ?_, by rw [shutdowns]; exact inv.called,
      by rw [shutdowns]; exact inv.left⟩
    by_cases eq : i = x
    · subst eq
      exact took.needsMutex taken inv.needs
    · rw [took.others eq]
      exact inv.needs
  | enqueue x woken =>
    have took := enqueueStep_cases h
    have other : j ≠ x := fun eq => inv.open_ (ok eq.symm)
    refine ⟨by rw [took.others other]; exact inv.inside, needsMutex_woken (took.worker i) inv.needs, ?_, ?_⟩
    · rw [took.same.1]
      exact inv.called
    · rw [took.same.1]
      exact inv.left
  | shutdown x =>
    have took := shutdownStep_cases h
    have rest : s'.shutdowns k ≠ .idle ∧ i ∈ (s'.shutdowns k).left := by
      by_cases eq : k = x
      · subst eq
        exact took.hangs inv.called inv.needs inv.left
      · rw [took.others eq]
        exact ⟨inv.called, inv.left⟩
    exact ⟨by rw [took.same.1]; exact inv.inside, needsMutex_woken (took.worker i) inv.needs, rest.1, rest.2⟩

/-- **A handler that interrupts the critical section hangs** as soon as a worker needs the mutex: `shutdown`
never returns, and neither does the interrupted `enqueue`. -/
theorem handler_hangs {limit j k : Nat} {i : Fin n} (run : Reach step (.init n limit) s)
    (inside : (s.enqueues j).inside = true) (needs : (s.workers i).needsMutex = true)
    (notifying : s.shutdowns k = .notifying) (later : Run step (Interrupts j k) s s') :
    s'.shutdowns k ≠ .returned ∧ ∀ b, s'.enqueues j ≠ .returned b := by
  have hangs : Hangs j k i s' := by
    apply later.invariant_with (J := fun t => Exclusive t.mutex t.inside)
    · intro t later
      exact reach_exclusive (run.trans later.reach)
    · exact ⟨inside, needs, by simp [notifying], by simp [notifying, ShutdownPc.left]⟩
    · intro t a u ex inv ok took
      exact hangs_step ex inv ok took
  refine ⟨hangs.open_, fun b returned => ?_⟩
  have still := hangs.inside
  simp [returned, EnqueuePc.inside] at still

/-- Not a step of an `enqueue`. -/
def resting : Action n → Bool
  | .enqueue _ _ => false
  | _ => true

theorem interrupts_of_resting {j k : Nat} {a : Action n} (h : resting a = true) : Interrupts j k s a := by
  cases a with
  | enqueue x woken => cases h
  | _ => trivial

/-- The handler has come as far as the `join` of a worker that `notify_all` has woken. -/
theorem handler_hangs_asleep :
    ∃ s s' : Pool 1, s.workers 0 = .blocked ∧ s.enqueues 0 = .pushing ∧ s'.shutdowns 0 = .joining 0 [] ∧
      s'.shutdowns 0 ≠ .returned ∧ ∀ b, s'.enqueues 0 ≠ .returned b := by
  obtain ⟨s, s', ran, later, asleep, pushing, notifying, joining⟩ : ∃ s s' : Pool 1,
      exec step (fun _ _ => true) (.init 1 10)
        (List.replicate 4 (.worker 0 false) ++ List.replicate 3 (.enqueue 0 none) ++ [.shutdown 0]) = some s ∧
      exec step (fun _ a => resting a) s [.shutdown 0, .shutdown 0] = some s' ∧
      s.workers 0 = .blocked ∧ s.enqueues 0 = .pushing ∧ s.shutdowns 0 = .notifying ∧
      s'.shutdowns 0 = .joining 0 [] := ⟨_, _, rfl, rfl, rfl, rfl, rfl, rfl⟩
  have interrupted : Run step (Interrupts 0 0) s s' := (exec_run later).mono fun _ _ => interrupts_of_resting
  have hangs := handler_hangs (exec_reach _ ran) (by rw [pushing]; rfl) (i := 0) (by rw [asleep]; rfl) notifying
    interrupted
  exact ⟨s, s', asleep, pushing, joining, hangs⟩

end Pool

end HttpServer
