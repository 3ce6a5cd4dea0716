import HttpServer.Lib.Runs
import Mathlib.Logic.Function.Basic

/-!
# A flag that lets a loop run

A loop goes round while a flag is up. Whoever enters the loop raises the flag on
the way; whoever wants it to end makes a request, which lowers the flag and then
returns. A request that is made after the entry is heeded for good if the flag
is not raised behind its lowering (`lowered_stays`); a raise that
comes later undoes it.
-/

namespace StopFlag

variable {ι : Type*}

/-- Where a request is; `late` if it was made behind the entry. -/
inductive Phase where
  | idle
  | made (late : Bool)
  | lowered (late : Bool)
  | returned (late : Bool)
  deriving DecidableEq

/-- A late request that has lowered the flag. -/
def Phase.holds : Phase → Bool
  | .lowered late | .returned late => late
  | .idle | .made _ => false

structure State (ι : Type*) where
  raised : Bool
  entered : Bool
  requests : ι → Phase
  rounds : Nat

inductive Act (ι : Type*) where
  | enter
  | raise
  /-- The loop finds the flag up and goes round. -/
  | round
  | request (i : ι)
  | lower (i : ι)
  | done (i : ι)
  | other

variable [DecidableEq ι]

def step (s : State ι) : Act ι → Option (State ι)
  | .enter => some { s with entered := true }
  | .raise => some { s with raised := true }
  | .round => if s.raised then some { s with rounds := s.rounds + 1 } else none
  | .request i =>
    match s.requests i with
    | .idle => some { s with requests := Function.update s.requests i (.made s.entered) }
    | _ => none
  | .lower i =>
    match s.requests i with
    | .made late => some { s with raised := false, requests := Function.update s.requests i (.lowered late) }
    | _ => none
  | .done i =>
    match s.requests i with
    | .lowered late => some { s with requests := Function.update s.requests i (.returned late) }
    | _ => none
  | .other => some s

/-- The flag is not raised when a late request has lowered it. -/
def Heeded (s : State ι) : Act ι → Prop
  | .raise => ∀ i, (s.requests i).holds = false
  | _ => True

/-- A late request that has lowered the flag keeps it down. -/
def Down (s : State ι) : Prop := ∀ i, (s.requests i).holds = true → s.raised = false

omit [DecidableEq ι] in
theorem Down.raised {s : State ι} (h : Down s) {i : ι} (late : s.requests i = .returned true) :
    s.raised = false := h i (by rw [late]; rfl)

/-- A request that moves on, and had lowered the flag if it has now. -/
theorem Down.move {s : State ι} (h : Down s) {i : ι} {r : Phase}
    (held : r.holds = true → (s.requests i).holds = true ∨ s.raised = false) :
    Down { s with requests := Function.update s.requests i r } := by
  intro j holds
  change (Function.update s.requests i r j).holds = true at holds
  by_cases eq : j = i
  · subst eq
    rw [Function.update_self] at holds
    rcases held holds with before | down
    · exact h j before
    · exact down
  · rw [Function.update_of_ne eq] at holds
    exact h j holds

theorem down_step {s t : State ι} {a : Act ι} (h : Down s) (ok : Heeded s a) (took : step s a = some t) :
    Down t := by
  cases a with
  | enter | other =>
    cases took
    exact h
  | raise =>
    cases took
    intro i holds
    rw [ok i] at holds
    cases holds
  | round =>
    simp only [step] at took
    split at took
    · cases took
      exact h
    · cases took
  | request i =>
    simp only [step] at took
    split at took
    · cases took
      exact h.move fun holds => by cases holds
    · cases took
  | lower i =>
    simp only [step] at took
    split at took
    · cases took
      exact fun _ _ => rfl
    · cases took
  | done i =>
    simp only [step] at took
    split at took
    · rename_i late before
      cases took
      exact h.move fun holds => .inl (by rw [before]; exact holds)
    · cases took

/-- A returned request stays returned. -/
theorem returned_step {s t : State ι} {a : Act ι} {i : ι} {late : Bool} (h : s.requests i = .returned late)
    (took : step s a = some t) : t.requests i = .returned late := by
  have moved {j : ι} {r : Phase} (ne : s.requests j ≠ .returned late) :
      Function.update s.requests j r i = .returned late := by
    have other : i ≠ j := by
      rintro rfl
      exact ne h
    rw [Function.update_of_ne other, h]
  cases a with
  | enter | raise | other =>
    cases took
    exact h
  | round =>
    simp only [step] at took
    split at took
    · cases took
      exact h
    · cases took
  | request j | lower j | done j =>
    simp only [step] at took
    split at took
    · rename_i before
      cases took
      exact moved (by rw [before]; simp)
    · cases took

/-- The loop goes round only where the flag is up. -/
theorem rounds_step {s t : State ι} {a : Act ι} (down : s.raised = false) (took : step s a = some t) :
    t.rounds = s.rounds := by
  cases a with
  | enter | raise | other =>
    cases took
    rfl
  | round => simp [step, down] at took
  | request j | lower j | done j =>
    simp only [step] at took
    split at took
    · cases took
      rfl
    · cases took

open Runs

/-- **A heeded request is kept**: from its return on the flag is down and the loop does not go round. -/
theorem lowered_stays {s t u : State ι} (init : Down s) (run : Run step Heeded s t) {i : ι}
    (late : t.requests i = .returned true) (later : Run step Heeded t u) :
    u.raised = false ∧ u.rounds = t.rounds := by
  have down : Down t := run.invariant init fun _ _ _ h ok took => down_step h ok took
  suffices kept : (Down u ∧ u.requests i = .returned true) ∧ u.rounds = t.rounds from
    ⟨kept.1.1.raised kept.1.2, kept.2⟩
  apply later.invariant (I := fun v => (Down v ∧ v.requests i = .returned true) ∧ v.rounds = t.rounds)
  · exact ⟨⟨down, late⟩, rfl⟩
  · rintro v a w ⟨⟨h, returned⟩, same⟩ ok took
    refine ⟨⟨down_step h ok took, returned_step returned took⟩, ?_⟩
    rw [rounds_step (h.raised returned) took, same]

end StopFlag
