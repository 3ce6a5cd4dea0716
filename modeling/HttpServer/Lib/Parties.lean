import Mathlib.Algebra.BigOperators.Group.Finset.Basic
import Mathlib.Data.Fintype.BigOperators

/-!
# Many parties

Two rules for systems in which one party moves at a time: a lock that each party
takes only when it is free has one holder (`Exclusive.step`), and a measure summed
over the parties changes by what the moving one changes (`sum_update`,
`sum_update_on`).
-/

namespace Parties

variable {ι : Type*}

/-- Whoever is inside owns the lock. -/
def Exclusive (owner : Option ι) (inside : ι → Bool) : Prop := ∀ x, inside x = true → owner = some x

/-- What the step of party `x` does to the lock. -/
inductive LockStep (x : ι) (owner owner' : Option ι) (inside inside' : ι → Bool) : Prop where
  | keep (same : owner' = owner) (stays : inside' x = inside x)
  | lock (free : owner = none) (mine : owner' = some x)
  | unlock (mine : inside x = true) (out : inside' x = false)

theorem Exclusive.unique {owner : Option ι} {inside : ι → Bool} (h : Exclusive owner inside) {x y : ι}
    (hx : inside x = true) (hy : inside y = true) : x = y :=
  Option.some.inj ((h x hx).symm.trans (h y hy))

/-- One party's step keeps the lock exclusive. -/
theorem Exclusive.step {owner owner' : Option ι} {inside inside' : ι → Bool} {x : ι}
    (h : Exclusive owner inside) (others : ∀ y, y ≠ x → inside' y = inside y)
    (took : LockStep x owner owner' inside inside') : Exclusive owner' inside' := by
  intro y hy
  cases took with
  | keep same stays =>
    rw [same]
    apply h y
    by_cases eq : y = x
    · subst eq
      rwa [← stays]
    · rwa [← others y eq]
  | lock free mine =>
    by_cases eq : y = x
    · rw [mine, eq]
    · have before := h y (by rwa [← others y eq])
      rw [free] at before
      cases before
  | unlock mine out =>
    by_cases eq : y = x
    · subst eq
      rw [out] at hy
      cases hy
    · exact absurd (h.unique (by rwa [← others y eq]) mine) eq

theorem sum_update {β : Type*} [Fintype ι] [DecidableEq ι] (f : β → Nat) (w : ι → β) (i : ι) (b : β) :
    (∑ x, f (Function.update w i b x)) + f (w i) = (∑ x, f (w x)) + f b := by
  have others : ∑ x ∈ Finset.univ.erase i, f (Function.update w i b x) =
      ∑ x ∈ Finset.univ.erase i, f (w x) := by
    apply Finset.sum_congr rfl
    intro x hx
    rw [Function.update_of_ne (Finset.ne_of_mem_erase hx)]
  have before := Finset.add_sum_erase Finset.univ (fun x => f (w x)) (Finset.mem_univ i)
  have after := Finset.add_sum_erase Finset.univ (fun x => f (Function.update w i b x)) (Finset.mem_univ i)
  simp only [Function.update_self] at after
  omega

/-- The same for a measure summed over some of the parties. -/
theorem sum_update_on {β : Type*} [DecidableEq ι] {S : Finset ι} {i : ι} (mem : i ∈ S) (f : β → Nat) (w : ι → β)
    (b : β) : (∑ x ∈ S, f (Function.update w i b x)) + f (w i) = (∑ x ∈ S, f (w x)) + f b := by
  have others : ∑ x ∈ S.erase i, f (Function.update w i b x) = ∑ x ∈ S.erase i, f (w x) := by
    apply Finset.sum_congr rfl
    intro x hx
    rw [Function.update_of_ne (Finset.ne_of_mem_erase hx)]
  have before := Finset.add_sum_erase S (fun x => f (w x)) mem
  have after := Finset.add_sum_erase S (fun x => f (Function.update w i b x)) mem
  simp only [Function.update_self] at after
  omega

end Parties
