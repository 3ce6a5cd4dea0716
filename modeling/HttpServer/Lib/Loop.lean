import Mathlib.Logic.Basic

/-!
# Loops that stop by returning

A loop body either leaves the loop (`.inl`) or goes round again (`.inr`).
`run body μ` iterates it with the fuel that the rank `μ` of the start state
allows. Where every further round lowers the rank the fuel never runs out:
`run` then satisfies the loop's own equations (`run_inl`, `run_inr`), and a
property kept by each round holds of what the loop returns (`run_induct`).
-/

namespace Loop

variable {σ : Type*}

/-- Iterate the body at most `fuel` times. -/
def iterate (body : σ → σ ⊕ σ) : Nat → σ → σ
  | 0, s => s
  | fuel + 1, s =>
    match body s with
    | .inl s' => s'
    | .inr s' => iterate body fuel s'

/-- The loop with the fuel its rank allows. -/
def run (body : σ → σ ⊕ σ) (μ : σ → Nat) (s : σ) : σ :=
  iterate body (μ s + 1) s

/-- Every round that goes on lowers the rank. -/
def Decreases (body : σ → σ ⊕ σ) (μ : σ → Nat) : Prop :=
  ∀ s s', body s = .inr s' → μ s' < μ s

variable {body : σ → σ ⊕ σ} {μ : σ → Nat}

/-- Any two sufficient amounts of fuel give the same result. -/
theorem iterate_fuel (dec : Decreases body μ) {m n : Nat} {s : σ}
    (hm : μ s < m) (hn : μ s < n) : iterate body m s = iterate body n s := by
  induction m generalizing n s with
  | zero => omega
  | succ m ih =>
    obtain ⟨n, rfl⟩ : ∃ k, n = k + 1 := ⟨n - 1, by omega⟩
    simp only [iterate]
    cases h : body s with
    | inl s' => rfl
    | inr s' =>
      have less := dec s s' h
      exact ih (by omega) (by omega)

/-- The loop's equation when the body leaves. -/
theorem run_inl {s s' : σ} (h : body s = .inl s') : run body μ s = s' := by
  simp [run, iterate, h]

/-- The loop's equation when the body goes round again. -/
theorem run_inr (dec : Decreases body μ) {s s' : σ} (h : body s = .inr s') :
    run body μ s = run body μ s' := by
  have less := dec s s' h
  have round : run body μ s = iterate body (μ s) s' := by
    simp only [run, iterate, h]
  rw [round]
  exact iterate_fuel dec (by omega) (by omega)

/-- Induction along the rounds of a loop. -/
theorem run_induct (dec : Decreases body μ) {motive : σ → Prop}
    (leave : ∀ s s', body s = .inl s' → motive s)
    (again : ∀ s s', body s = .inr s' → motive s' → motive s) (s : σ) : motive s := by
  generalize h : μ s = n
  induction n using Nat.strongRecOn generalizing s with
  | ind n ih =>
    cases hb : body s with
    | inl s' => exact leave s s' hb
    | inr s' => exact again s s' hb (ih (μ s') (h ▸ dec s s' hb) s' rfl)

/-- A property kept by every round, and turned into `Q` on leaving, gives `Q` of the result. -/
theorem run_rule (dec : Decreases body μ) {P Q : σ → Prop}
    (leave : ∀ s s', P s → body s = .inl s' → Q s')
    (again : ∀ s s', P s → body s = .inr s' → P s') {s : σ} (h : P s) : Q (run body μ s) := by
  induction s using run_induct dec with
  | leave s s' hb => rw [run_inl hb]; exact leave s s' h hb
  | again s s' hb ih => rw [run_inr dec hb]; exact ih (again s s' h hb)

end Loop
