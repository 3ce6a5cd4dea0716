import Mathlib.Logic.Basic

/-!
# Runs of transition systems

A system is a partial step function; a run is a list of actions, each taken
where it is enabled and where the state allows it. What holds at the start and
survives every allowed step holds in every state of a run (`Run.invariant`). A
concrete run is evaluated by `exec`.
-/

namespace Runs

variable {σ α : Type*} {step : σ → α → Option σ}

/-- The states reached from `s` by allowed steps. -/
inductive Run (step : σ → α → Option σ) (allowed : σ → α → Prop) (s : σ) : σ → Prop where
  | start : Run step allowed s s
  | next {t u : σ} {a : α} (run : Run step allowed s t) (ok : allowed t a) (took : step t a = some u) :
      Run step allowed s u

/-- Runs in which every enabled step may be taken. -/
abbrev Reach (step : σ → α → Option σ) : σ → σ → Prop := Run step fun _ _ => True

namespace Run

variable {allowed : σ → α → Prop} {s t u : σ}

/-- The invariant rule. -/
theorem invariant {I : σ → Prop} (init : I s)
    (preserved : ∀ t a u, I t → allowed t a → step t a = some u → I u) (run : Run step allowed s t) :
    I t := by
  induction run with
  | start => exact init
  | next _ ok took ih => exact preserved _ _ _ ih ok took

/-- An invariant may use another one. -/
theorem invariant_with {I J : σ → Prop} (known : ∀ t, Run step allowed s t → J t) (init : I s)
    (preserved : ∀ t a u, J t → I t → allowed t a → step t a = some u → I u)
    (run : Run step allowed s t) : I t := by
  induction run with
  | start => exact init
  | next run ok took ih => exact preserved _ _ _ (known _ run) ih ok took

theorem mono {weaker : σ → α → Prop} (le : ∀ t a, allowed t a → weaker t a)
    (run : Run step allowed s t) : Run step weaker s t := by
  induction run with
  | start => exact .start
  | next _ ok took ih => exact .next ih (le _ _ ok) took

theorem reach (run : Run step allowed s t) : Reach step s t := run.mono fun _ _ _ => trivial

theorem trans (first : Run step allowed s t) (second : Run step allowed t u) : Run step allowed s u := by
  induction second with
  | start => exact first
  | next _ ok took ih => exact .next ih ok took

/-- A run of one system is a run of another that takes a step for each of its steps. -/
theorem simulate {τ β : Type*} {step' : τ → β → Option τ} {allowed' : τ → β → Prop} {f : σ → τ} {g : σ → α → β}
    (sim : ∀ t a u, allowed t a → step t a = some u →
      allowed' (f t) (g t a) ∧ step' (f t) (g t a) = some (f u))
    (run : Run step allowed s t) : Run step' allowed' (f s) (f t) := by
  induction run with
  | start => exact .start
  | next _ ok took ih =>
    obtain ⟨ok', took'⟩ := sim _ _ _ ok took
    exact .next ih ok' took'

end Run

/-- Every step of the run that the actions make is as `P` says. -/
def Along (step : σ → α → Option σ) (P : σ → α → σ → Prop) (s : σ) : List α → Prop
  | [] => True
  | a :: as => ∀ t, step s a = some t → P s a t ∧ Along step P t as

/-- Two properties of steps that agree where an invariant holds. -/
theorem Along.congr {I : σ → Prop} {P Q : σ → α → σ → Prop} {s : σ} (init : I s)
    (preserved : ∀ s a t, I s → step s a = some t → I t)
    (same : ∀ s a t, I s → step s a = some t → (P s a t ↔ Q s a t)) (as : List α) :
    Along step P s as ↔ Along step Q s as := by
  induction as generalizing s with
  | nil => rfl
  | cons a as ih =>
    refine forall_congr' fun t => imp_congr_right fun took => ?_
    rw [same s a t init took, ih (preserved s a t init took)]

/-- Take the actions in turn; none where one is not enabled or fails the check. -/
def exec (step : σ → α → Option σ) (check : σ → α → Bool) (s : σ) : List α → Option σ
  | [] => some s
  | a :: as => if check s a then (step s a).bind fun t => exec step check t as else none

theorem exec_run {check : σ → α → Bool} {s t : σ} {as : List α} (h : exec step check s as = some t) :
    Run step (fun s a => check s a = true) s t := by
  induction as generalizing s with
  | nil =>
    cases h
    exact .start
  | cons a as ih =>
    unfold exec at h
    split at h
    · rename_i ok
      obtain ⟨u, took, rest⟩ := Option.bind_eq_some_iff.1 h
      have first : Run step (fun s a => check s a = true) s u := .next .start ok took
      exact first.trans (ih rest)
    · cases h

theorem exec_reach {s t : σ} (as : List α) (h : exec step (fun _ _ => true) s as = some t) : Reach step s t :=
  (exec_run h).reach

end Runs
