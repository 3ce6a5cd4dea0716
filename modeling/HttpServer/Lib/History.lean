import HttpServer.Lib.Inevitable

/-!
# Notes and views

A system may keep notes of what it does, which no step depends on: a run with
them is a run without (`Run.forget`), and what cannot be avoided without them
cannot be avoided with them (`Inevitable.noted`). What is seen of one party of a
system, with the notes about it, may follow a system of its own: in each step of
the whole it stays as it is, makes a run of its own, or starts anew. Then it is
always in a state that its own system reaches (`Run.follows`).
-/

namespace Runs

variable {σ α η τ β : Type*}

/-- The system with its notes. -/
def noted (step : σ → α → Option σ) (note : σ → α → σ → η → η) (s : σ × η) (a : α) : Option (σ × η) :=
  (step s.1 a).map fun t => (t, note s.1 a t s.2)

theorem noted_eq_some {step : σ → α → Option σ} {note : σ → α → σ → η → η} {s t : σ × η} {a : α} :
    noted step note s a = some t ↔ step s.1 a = some t.1 ∧ t.2 = note s.1 a t.1 s.2 := by
  rw [noted, Option.map_eq_some_iff]
  constructor
  · rintro ⟨u, took, rfl⟩
    exact ⟨took, rfl⟩
  · rintro ⟨took, same⟩
    exact ⟨t.1, took, Prod.ext rfl same.symm⟩

theorem Run.forget {step : σ → α → Option σ} {note : σ → α → σ → η → η} {allowed : σ → α → Prop} {s : σ} {h : η}
    {t : σ × η} (run : Run (noted step note) (fun s a => allowed s.1 a) (s, h) t) : Run step allowed s t.1 := by
  induction run with
  | start => exact .start
  | next _ ok took ih => exact ih.next ok (noted_eq_some.1 took).1

/-- What cannot be avoided without the notes cannot be avoided with them. -/
theorem Inevitable.noted {step : σ → α → Option σ} {note : σ → α → σ → η → η} {allowed : σ → α → Prop} {Q : σ → Prop}
    {s : σ} (inevitable : Inevitable step allowed Q s) (h : η) :
    Inevitable (noted step note) (fun s a => allowed s.1 a) (fun s => Q s.1) (s, h) := by
  induction inevitable generalizing h with
  | now holds => exact .now holds
  | @later s enabled all ih =>
    obtain ⟨a, t, ok, took⟩ := enabled
    refine .later ⟨a, (t, note s a t h), ok, noted_eq_some.2 ⟨took, rfl⟩⟩ ?_
    rintro b ⟨u, h'⟩ ok took
    exact ih b u ok (noted_eq_some.1 took).1 h'

/-- What one step of the whole may do to the view of a party. -/
inductive Follows (step : τ → β → Option τ) (S : τ → Prop) : Option τ → Option τ → Prop where
  | same (v : Option τ) : Follows step S v v
  | opened (v : Option τ) {d : τ} (new : S d) : Follows step S v (some d)
  | moved {d d' : τ} (run : Reach step d d') : Follows step S (some d) (some d')

theorem Follows.turn {step : τ → β → Option τ} {S : τ → Prop} {d d' : τ} (b : β) (took : step d b = some d') :
    Follows step S (some d) (some d') :=
  .moved (.next .start trivial took)

/-- The rule for views. -/
theorem Run.follows {step : σ → α → Option σ} {allowed : σ → α → Prop} {step' : τ → β → Option τ} {S : τ → Prop}
    {v : σ → Option τ} {s t : σ} (init : v s = none)
    (each : ∀ t a u, Run step allowed s t → allowed t a → step t a = some u →
      Follows step' S (v t) (v u))
    (run : Run step allowed s t) {d : τ} (seen : v t = some d) : ∃ d₀, S d₀ ∧ Reach step' d₀ d := by
  induction run generalizing d with
  | start => cases init.symm.trans seen
  | @next t u a run ok took ih =>
    have follows := each t a u run ok took
    rw [seen] at follows
    generalize before : v t = seen' at follows
    cases follows with
    | same => exact ih before
    | opened _ new => exact ⟨d, new, .start⟩
    | moved own =>
      obtain ⟨d₀, new, reached⟩ := ih before
      exact ⟨d₀, new, reached.trans own⟩

end Runs
