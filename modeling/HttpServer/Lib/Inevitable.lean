import HttpServer.Lib.Runs

/-!
# What cannot be avoided

A property of states is inevitable when every run of allowed steps comes to it:
until it holds there is an allowed step, and whichever is taken it stays
inevitable. It is shown by a rank that every allowed step lowers, as long as an
allowed step is left (`Inevitable.of_wellFounded`). Steps that lower no rank may
come in between, as long as there are finitely many (`Inevitable.disturbed`).
-/

namespace Runs

variable {σ α : Type*} {step : σ → α → Option σ} {allowed : σ → α → Prop}

inductive Inevitable (step : σ → α → Option σ) (allowed : σ → α → Prop) (Q : σ → Prop) : σ → Prop where
  | now {s : σ} (holds : Q s) : Inevitable step allowed Q s
  | later {s : σ} (enabled : ∃ a t, allowed s a ∧ step s a = some t)
      (all : ∀ a t, allowed s a → step s a = some t → Inevitable step allowed Q t) :
      Inevitable step allowed Q s

namespace Inevitable

variable {I Q R : σ → Prop} {s : σ}

/-- The rule for ranks in a well-founded order. -/
theorem of_wellFounded {β : Type*} {r : β → β → Prop} (wf : WellFounded r) (rank : σ → β)
    (ready : ∀ t, I t → Q t ∨ ∃ a u, allowed t a ∧ step t a = some u)
    (lowers : ∀ t a u, I t → ¬ Q t → allowed t a → step t a = some u → I u ∧ r (rank u) (rank t)) (init : I s) :
    Inevitable step allowed Q s := by
  induction h : rank s using wf.induction generalizing s with
  | _ x ih =>
    subst h
    by_cases holds : Q s
    · exact .now holds
    · refine .later ((ready s init).resolve_left holds) fun a t ok took => ?_
      obtain ⟨inv, less⟩ := lowers s a t init holds ok took
      exact ih (rank t) less inv rfl

/-- What a rank shows: a system that is never stuck and always lowers it comes to the goal. -/
theorem of_rank (rank : σ → Nat) (ready : ∀ t, I t → Q t ∨ ∃ a u, allowed t a ∧ step t a = some u)
    (lowers : ∀ t a u, I t → allowed t a → step t a = some u → I u ∧ rank u < rank t) (init : I s) :
    Inevitable step allowed Q s :=
  of_wellFounded Nat.lt_wfRel.wf rank ready (fun t a u inv _ => lowers t a u inv) init

/-- What follows in every state that can be reached. -/
theorem weaken (le : ∀ t, Run step allowed s t → Q t → R t) (h : Inevitable step allowed Q s) :
    Inevitable step allowed R s := by
  induction h with
  | now holds => exact .now (le _ .start holds)
  | later enabled all ih =>
    refine .later enabled fun a t ok took => ih a t ok took fun u run => le u ?_
    have first : Run step allowed _ t := .next .start ok took
    exact first.trans run

end Inevitable

/-! ## Disturbances -/

variable {calm : σ → α → Prop} [∀ s a, Decidable (calm s a)]

/-- The system with the number of disturbances that may still come: a step that is not calm is one. -/
def disturbed (step : σ → α → Option σ) (calm : σ → α → Prop) [∀ s a, Decidable (calm s a)] (s : σ × Nat) (a : α) :
    Option (σ × Nat) :=
  if calm s.1 a then (step s.1 a).map fun t => (t, s.2)
  else
    match s.2 with
    | 0 => none
    | k + 1 => (step s.1 a).map fun t => (t, k)

/-- A step is one of the system, and is calm or uses up a disturbance. -/
theorem disturbed_eq_some {s : σ} {k : Nat} {a : α} {t : σ × Nat} (took : disturbed step calm (s, k) a = some t) :
    step s a = some t.1 ∧ (calm s a ∧ t.2 = k ∨ t.2 < k) := by
  unfold disturbed at took
  split at took
  · rename_i quiet
    obtain ⟨u, moved, rfl⟩ := Option.map_eq_some_iff.1 took
    exact ⟨moved, .inl ⟨quiet, rfl⟩⟩
  · split at took
    · cases took
    · rename_i k' count
      obtain ⟨u, moved, rfl⟩ := Option.map_eq_some_iff.1 took
      dsimp only at count
      exact ⟨moved, .inr (by rw [count]; exact Nat.lt_succ_self k')⟩

/-- What the calm steps alone come to from every state, the system comes to in spite of finitely many
disturbances. -/
theorem Inevitable.disturbed {I Q : σ → Prop} {s : σ}
    (settles : ∀ s, I s → Inevitable step (fun s a => allowed s a ∧ calm s a) Q s)
    (preserved : ∀ s a t, I s → allowed s a → step s a = some t → I t) (k : Nat) (init : I s) :
    Inevitable (disturbed step calm) (fun s a => allowed s.1 a) (fun s => Q s.1) (s, k) := by
  induction k using Nat.strongRecOn generalizing s with
  | _ k fewer =>
    have settled := settles s init
    induction settled with
    | now holds => exact .now holds
    | @later s enabled all ih =>
      obtain ⟨a, t, ⟨ok, quiet⟩, took⟩ := enabled
      refine .later ⟨a, (t, k), ok, by simp [Runs.disturbed, quiet, took]⟩ ?_
      rintro b ⟨u, k'⟩ ok took
      obtain ⟨moved, here⟩ := disturbed_eq_some took
      have inv := preserved s b u init ok moved
      rcases here with ⟨quiet, rfl⟩ | less
      · exact ih b u ⟨ok, quiet⟩ moved inv
      · exact fewer k' less inv

end Runs
