import Mathlib.Data.List.Infix

/-!
# First occurrence of a pattern in a list

`find pat s` is the position of the first occurrence of `pat` in `s`, the
result of `std::string::find` on a list of characters. A non-empty pattern is
found at position `i` exactly when the list splits as `a ++ pat ++ b` with `a`
of length `i` and no occurrence of the pattern starts inside `a`
(`find_eq_some_iff`). Appending to the list never moves an occurrence that is
already there (`find_append`).
-/

namespace ListSearch

variable {α : Type*} [DecidableEq α]

/-- Position of the first occurrence of `pat`. -/
def find (pat : List α) : List α → Option Nat
  | [] => if pat.isPrefixOf [] then some 0 else none
  | c :: cs => if pat.isPrefixOf (c :: cs) then some 0 else (find pat cs).map (· + 1)

/-- The first occurrence at or after `from_`; none when `from_` lies past the end. -/
def findFrom (pat s : List α) (from_ : Nat) : Option Nat :=
  if from_ ≤ s.length then (find pat (s.drop from_)).map (· + from_) else none

theorem find_eq_zero {pat s : List α} (h : pat <+: s) : find pat s = some 0 := by
  cases s <;> simp [find, List.isPrefixOf_iff_prefix, h]

theorem find_cons {pat cs : List α} {c : α} (h : ¬ pat <+: c :: cs) :
    find pat (c :: cs) = (find pat cs).map (· + 1) := by
  simp [find, List.isPrefixOf_iff_prefix, h]

/-- Nothing is found exactly when the pattern does not occur. -/
theorem find_eq_none_iff {pat s : List α} : find pat s = none ↔ ¬ pat <:+: s := by
  induction s with
  | nil => simp [find, List.isPrefixOf_iff_prefix]
  | cons c cs ih =>
    by_cases h : pat <+: c :: cs
    · simp [find_eq_zero h, h.isInfix]
    · simp [find_cons h, ih, List.infix_cons_iff, h]

theorem find_isSome_iff {pat s : List α} : (find pat s).isSome ↔ pat <:+: s := by
  rw [← not_iff_not, ← find_eq_none_iff]
  simp

/-- No occurrence of the pattern starts inside `a` when it is followed by the pattern. -/
def Fresh (pat a : List α) : Prop := ¬ pat <:+: a ++ pat.dropLast

omit [DecidableEq α] in
/-- A prefix of `a ++ b` that is no longer than `a` is a prefix of `a`. -/
theorem prefix_of_prefix_append {pat a b : List α} (h : pat <+: a ++ b)
    (len : pat.length ≤ a.length) : pat <+: a :=
  List.prefix_of_prefix_length_le h (List.prefix_append a b) len

omit [DecidableEq α] in
/-- An occurrence at the head of `c :: a ++ pat ++ b` lies in `c :: a ++ pat.dropLast`. -/
theorem prefix_dropLast {pat a b : List α} {c : α} (h : pat <+: c :: a ++ pat ++ b) :
    pat <+: c :: a ++ pat.dropLast := by
  refine prefix_of_prefix_append (b := pat.drop (pat.length - 1) ++ b) ?_ ?_
  · have split : pat.dropLast ++ pat.drop (pat.length - 1) = pat := by
      rw [List.dropLast_eq_take, List.take_append_drop]
    rw [← List.append_assoc, List.append_assoc (c :: a), split]
    exact h
  · simp only [List.length_append, List.length_cons, List.length_dropLast]
    omega

/-- The pattern is found behind a part in which it does not start. -/
theorem find_append_pat {pat a b : List α} (fresh : Fresh pat a) :
    find pat (a ++ pat ++ b) = some a.length := by
  induction a with
  | nil => exact find_eq_zero (by simp)
  | cons c a ih =>
    have head : ¬ pat <+: c :: (a ++ pat ++ b) := fun h => fresh (prefix_dropLast h).isInfix
    have tail : Fresh pat a := fun h => fresh (List.infix_cons h)
    change find pat (c :: (a ++ pat ++ b)) = some (a.length + 1)
    rw [find_cons head, ih tail]
    rfl

/-- A successful search splits the list at the first occurrence. -/
theorem split_of_find {pat s : List α} {i : Nat} (ne : pat ≠ []) (h : find pat s = some i) :
    ∃ a b, s = a ++ pat ++ b ∧ a.length = i ∧ Fresh pat a := by
  induction s generalizing i with
  | nil => simp [find, List.isPrefixOf_iff_prefix, ne] at h
  | cons c cs ih =>
    by_cases hp : pat <+: c :: cs
    · rw [find_eq_zero hp] at h
      obtain ⟨b, hb⟩ := hp
      refine ⟨[], b, by simpa using hb.symm, by simpa using h, fun occ => ?_⟩
      have := occ.length_le
      have := List.length_pos_of_ne_nil ne
      simp only [List.nil_append, List.length_dropLast] at *
      omega
    · rw [find_cons hp, Option.map_eq_some_iff] at h
      obtain ⟨j, hj, rfl⟩ := h
      obtain ⟨a, b, rfl, rfl, fresh⟩ := ih hj
      refine ⟨c :: a, b, rfl, rfl, fun occ => ?_⟩
      rw [List.cons_append, List.infix_cons_iff] at occ
      rcases occ with occ | occ
      · apply hp
        refine occ.trans ⟨pat.drop (pat.length - 1) ++ b, ?_⟩
        rw [← List.append_assoc, List.cons_append, List.append_assoc a, List.dropLast_eq_take,
          List.take_append_drop]
        rfl
      · exact fresh occ

theorem find_eq_some_iff {pat s : List α} {i : Nat} (ne : pat ≠ []) :
    find pat s = some i ↔ ∃ a b, s = a ++ pat ++ b ∧ a.length = i ∧ Fresh pat a := by
  constructor
  · exact split_of_find ne
  · rintro ⟨a, b, rfl, rfl, fresh⟩
    exact find_append_pat fresh

/-- More input does not move an occurrence that is already complete. -/
theorem find_append {pat s t : List α} {i : Nat} (ne : pat ≠ []) (h : find pat s = some i) :
    find pat (s ++ t) = some i := by
  obtain ⟨a, b, rfl, rfl, fresh⟩ := split_of_find ne h
  rw [List.append_assoc]
  exact find_append_pat fresh

/-- The found occurrence lies inside the list. -/
theorem find_bound {pat s : List α} {i : Nat} (ne : pat ≠ []) (h : find pat s = some i) :
    i + pat.length ≤ s.length := by
  obtain ⟨a, b, rfl, rfl, -⟩ := split_of_find ne h
  simp only [List.length_append]
  omega

/-- What lies before the first occurrence need not be searched. -/
theorem find_skip {pat s : List α} {k : Nat} (inside : k ≤ s.length)
    (before : ∀ j < k, ¬ pat <+: s.drop j) : findFrom pat s k = find pat s := by
  rw [findFrom, if_pos inside]
  induction k generalizing s with
  | zero => simp
  | succ k ih =>
    cases s with
    | nil => cases inside
    | cons c s =>
      have head : ¬ pat <+: c :: s := before 0 (Nat.succ_pos k)
      have rest := @ih s (Nat.le_of_succ_le_succ inside) fun j lt => before (j + 1) (Nat.succ_lt_succ lt)
      rw [find_cons head, ← rest, List.drop_succ_cons, Option.map_map]
      rfl

/-- Behind a part without the pattern only the end of that part has to be searched again. -/
theorem findFrom_near {pat old : List α} (ne : pat ≠ []) (no : ¬ pat <:+: old) (new : List α) :
    findFrom pat (old ++ new) (if old.length ≥ pat.length then old.length - pat.length + 1 else 0) =
      find pat (old ++ new) := by
  have pos := List.length_pos_of_ne_nil ne
  split
  · rename_i long
    apply find_skip
    · rw [List.length_append]
      omega
    · intro j lt occurs
      rw [List.drop_append_of_le_length (by omega)] at occurs
      have short : pat.length ≤ (old.drop j).length := by
        rw [List.length_drop]
        omega
      exact no ((prefix_of_prefix_append occurs short).isInfix.trans (List.drop_suffix j old).isInfix)
  · exact find_skip (Nat.zero_le _) fun j lt => absurd lt (Nat.not_lt_zero j)

omit [DecidableEq α] in
/-- No occurrence ends before the first one does. -/
theorem Fresh.first {pat a b a' b' : List α} (fresh : Fresh pat a) (eq : a ++ pat ++ b = a' ++ pat ++ b') :
    a.length ≤ a'.length := by
  by_contra! before
  have front : a' ++ pat <+: a ++ pat.dropLast ++ (pat.drop (pat.length - 1) ++ b) := by
    have whole : pat.dropLast ++ pat.drop (pat.length - 1) = pat := by
      rw [List.dropLast_eq_take, List.take_append_drop]
    rw [List.append_assoc a, ← List.append_assoc pat.dropLast, whole, ← List.append_assoc, eq]
    exact List.prefix_append _ _
  have short : (a' ++ pat).length ≤ (a ++ pat.dropLast).length := by
    simp only [List.length_append, List.length_dropLast]
    omega
  exact fresh ((List.suffix_append a' pat).isInfix.trans (prefix_of_prefix_append front short).isInfix)

section Single

omit [DecidableEq α] in
/-- For one character the condition on the part before it is plain non-membership. -/
theorem fresh_singleton {c : α} {a : List α} : Fresh [c] a ↔ c ∉ a := by
  simp [Fresh, List.singleton_infix_iff]

theorem find_char {c : α} {a b : List α} (h : c ∉ a) : find [c] (a ++ c :: b) = some a.length := by
  simpa using find_append_pat (b := b) (fresh_singleton.2 h)

theorem find_char_none {c : α} {s : List α} : find [c] s = none ↔ c ∉ s := by
  rw [find_eq_none_iff, List.singleton_infix_iff]

theorem find_char_split {c : α} {s : List α} {i : Nat} (h : find [c] s = some i) :
    ∃ a b, s = a ++ c :: b ∧ a.length = i ∧ c ∉ a := by
  obtain ⟨a, b, hs, hi, fresh⟩ := split_of_find (by simp) h
  exact ⟨a, b, by simpa using hs, hi, fresh_singleton.1 fresh⟩

end Single

end ListSearch
