import Mathlib.Data.List.Nodup
import Mathlib.Logic.Relation

/-!
# Resources in custody

Holders acquire resources, give them to one another and release them. A resource
is acquired once; as long as it moves only from one who holds it, it has one
holder until it is released, and is released at most once (`Sound.moves`). Where
nobody holds anything any more, all that was acquired has been released
(`Sound.all_released`).
-/

namespace Custody

variable {ι ρ : Type*}

@[ext]
structure State (ι ρ : Type*) where
  holds : ι → ρ → Prop
  acquired : List ρ
  released : List ρ

inductive Move (s : State ι ρ) : State ι ρ → Prop where
  | acquire {x : ι} {r : ρ} (fresh : r ∉ s.acquired) :
    Move s ⟨fun z e => s.holds z e ∨ z = x ∧ e = r, s.acquired ++ [r], s.released⟩
  | release {x : ι} {r : ρ} (mine : s.holds x r) :
    Move s ⟨fun z e => s.holds z e ∧ ¬ (z = x ∧ e = r), s.acquired, s.released ++ [r]⟩
  | give {x y : ι} {r : ρ} (mine : s.holds y r) :
    Move s ⟨fun z e => s.holds z e ∧ ¬ (z = y ∧ e = r) ∨ z = x ∧ e = r, s.acquired, s.released⟩

abbrev Moves : State ι ρ → State ι ρ → Prop := Relation.ReflTransGen Move

/-- Each acquired resource is held by one holder, or has been released once. -/
structure Sound (s : State ι ρ) : Prop where
  held : ∀ x r, s.holds x r → r ∈ s.acquired ∧ r ∉ s.released
  one : ∀ x y r, s.holds x r → s.holds y r → x = y
  kept : ∀ r ∈ s.acquired, r ∉ s.released → ∃ x, s.holds x r
  acquiredOnce : s.acquired.Nodup
  releasedOnce : s.released.Nodup
  known : ∀ r ∈ s.released, r ∈ s.acquired

theorem Sound.init : Sound (⟨fun _ _ => False, [], []⟩ : State ι ρ) :=
  ⟨fun _ _ h => h.elim, fun _ _ _ h => h.elim, by simp, List.nodup_nil, List.nodup_nil, by simp⟩

theorem nodup_snoc {rs : List ρ} {r : ρ} (nodup : rs.Nodup) (fresh : r ∉ rs) : (rs ++ [r]).Nodup := by
  rw [← List.concat_eq_append]
  exact nodup.concat fresh

/-- A new resource has one holder. -/
theorem Sound.acquire {s : State ι ρ} (h : Sound s) {x : ι} {r : ρ} (fresh : r ∉ s.acquired) :
    Sound ⟨fun z e => s.holds z e ∨ z = x ∧ e = r, s.acquired ++ [r], s.released⟩ where
  held z e := by
    rintro (holds | ⟨-, rfl⟩)
    · obtain ⟨mem, out⟩ := h.held z e holds
      exact ⟨List.mem_append_left _ mem, out⟩
    · exact ⟨by simp, fun released => fresh (h.known e released)⟩
  one z w e := by
    have unheld (v : ι) (holds : s.holds v r) : False := fresh (h.held v r holds).1
    rintro (hz | ⟨rfl, rfl⟩) (hw | ⟨rfl, eq⟩)
    · exact h.one z w e hz hw
    · exact (unheld z (eq ▸ hz)).elim
    · exact (unheld w hw).elim
    · rfl
  kept e mem out := by
    rcases List.mem_append.1 mem with mem | mem
    · obtain ⟨z, holds⟩ := h.kept e mem out
      exact ⟨z, .inl holds⟩
    · exact ⟨x, .inr ⟨rfl, List.mem_singleton.1 mem⟩⟩
  acquiredOnce := nodup_snoc h.acquiredOnce fresh
  releasedOnce := h.releasedOnce
  known e mem := List.mem_append_left _ (h.known e mem)

/-- A resource that is released has none any more. -/
theorem Sound.release {s : State ι ρ} (h : Sound s) {x : ι} {r : ρ} (mine : s.holds x r) :
    Sound ⟨fun z e => s.holds z e ∧ ¬ (z = x ∧ e = r), s.acquired, s.released ++ [r]⟩ where
  held z e := by
    rintro ⟨holds, other⟩
    obtain ⟨mem, out⟩ := h.held z e holds
    refine ⟨mem, fun released => ?_⟩
    rcases List.mem_append.1 released with released | released
    · exact out released
    · rw [List.mem_singleton] at released
      subst released
      exact other ⟨h.one z x e holds mine, rfl⟩
  one z w e hz hw := h.one z w e hz.1 hw.1
  kept e mem out := by
    rw [List.mem_append, not_or, List.mem_singleton] at out
    obtain ⟨z, holds⟩ := h.kept e mem out.1
    exact ⟨z, holds, fun same => out.2 same.2⟩
  acquiredOnce := h.acquiredOnce
  releasedOnce := nodup_snoc h.releasedOnce (h.held x r mine).2
  known e mem := by
    rcases List.mem_append.1 mem with mem | mem
    · exact h.known e mem
    · rw [List.mem_singleton.1 mem]
      exact (h.held x r mine).1

/-- A resource that is handed over keeps having one. -/
theorem Sound.give {s : State ι ρ} (h : Sound s) {x y : ι} {r : ρ} (mine : s.holds y r) :
    Sound ⟨fun z e => s.holds z e ∧ ¬ (z = y ∧ e = r) ∨ z = x ∧ e = r, s.acquired, s.released⟩ where
  held z e := by
    rintro (⟨holds, -⟩ | ⟨-, rfl⟩)
    · exact h.held z e holds
    · exact h.held y e mine
  one z w e := by
    -- who holds `r` besides `x` would be `y`, which has given it away
    have gone (v : ι) (holds : s.holds v r) (other : ¬ (v = y ∧ r = r)) : False :=
      other ⟨h.one v y r holds mine, rfl⟩
    rintro (⟨hz, nz⟩ | ⟨rfl, rfl⟩) (⟨hw, nw⟩ | ⟨rfl, eq⟩)
    · exact h.one z w e hz hw
    · subst eq
      exact (gone z hz nz).elim
    · exact (gone w hw nw).elim
    · rfl
  kept e mem out := by
    obtain ⟨z, holds⟩ := h.kept e mem out
    by_cases moved : z = y ∧ e = r
    · exact ⟨x, .inr ⟨rfl, moved.2⟩⟩
    · exact ⟨z, .inl ⟨holds, moved⟩⟩
  acquiredOnce := h.acquiredOnce
  releasedOnce := h.releasedOnce
  known := h.known

/-- Every move keeps the custody sound. -/
theorem Sound.moves {s t : State ι ρ} (h : Sound s) (moves : Moves s t) : Sound t := by
  induction moves with
  | refl => exact h
  | tail _ move ih =>
    cases move with
    | acquire fresh => exact ih.acquire fresh
    | release mine => exact ih.release mine
    | give mine => exact ih.give mine

/-- Where nobody holds anything, all has been released. -/
theorem Sound.all_released {s : State ι ρ} (h : Sound s) (none_ : ∀ x r, ¬ s.holds x r) :
    s.released.Perm s.acquired := by
  rw [List.perm_ext_iff_of_nodup h.releasedOnce h.acquiredOnce]
  refine fun r => ⟨h.known r, fun mem => ?_⟩
  by_contra out
  obtain ⟨x, holds⟩ := h.kept r mem out
  exact none_ x r holds

end Custody
