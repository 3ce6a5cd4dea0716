import Mathlib.Data.List.DropRight

/-!
# Separated lists

A text that lists elements between separators. `elements` cuts it at every
separator and takes the blanks off both ends of each part; `join` is the loop
that writes a delimiter in front of an element as soon as something stands there
already. Elements without separators and blanks are read back (`elements_join`);
only empty ones in front are lost (`join_eq`).
-/

namespace Separated

variable {α : Type*}

/-- Without the blanks at both ends. -/
def bare (blank : α → Bool) (s : List α) : List α := (s.dropWhile blank).rdropWhile blank

def elements [DecidableEq α] (sep : α) (blank : α → Bool) (s : List α) : List (List α) :=
  (s.splitOn sep).map (bare blank)

/-- What stands behind `s` when the elements have been appended. -/
def joinBehind (delimiter : List α) (s : List α) (es : List (List α)) : List α :=
  es.foldl (fun s e => (if s.isEmpty then s else s ++ delimiter) ++ e) s

def join (delimiter : List α) (es : List (List α)) : List α := joinBehind delimiter [] es

theorem joinBehind_cons (delimiter s e : List α) (es : List (List α)) :
    joinBehind delimiter s (e :: es) =
      joinBehind delimiter ((if s.isEmpty then s else s ++ delimiter) ++ e) es := rfl

/-- Behind a part that is not empty the delimiter is put before every element. -/
theorem joinBehind_ne (delimiter : List α) {s : List α} (ne : s ≠ []) (es : List (List α)) :
    joinBehind delimiter s es = delimiter.intercalate (s :: es) := by
  induction es generalizing s with
  | nil => simp [joinBehind]
  | cons e es ih =>
    have empty : s.isEmpty = false := by simpa using ne
    have more : s ++ delimiter ++ e ≠ [] := by simp [ne]
    rw [joinBehind_cons, empty, if_neg Bool.false_ne_true, ih more]
    cases es with
    | nil => simp [List.intercalate]
    | cons e' es => simp [List.intercalate]

/-- The elements are joined, but empty ones in front leave no delimiter behind. -/
theorem join_eq (delimiter : List α) (es : List (List α)) :
    join delimiter es = delimiter.intercalate (es.dropWhile List.isEmpty) := by
  induction es with
  | nil => rfl
  | cons e es ih =>
    unfold join at ih ⊢
    rw [joinBehind_cons]
    cases e with
    | nil => exact ih
    | cons c e => exact joinBehind_ne delimiter (List.cons_ne_nil c e) es

/-- Joining elements that are not empty is `List.intercalate`. -/
theorem join_ne {delimiter : List α} {es : List (List α)} (ne : ∀ e ∈ es, e ≠ []) :
    join delimiter es = delimiter.intercalate es := by
  rw [join_eq]
  cases es with
  | nil => rfl
  | cons e es => rw [List.dropWhile_cons_of_neg (by simpa using ne e (by simp))]

/-- An element that a separated list gives back. -/
structure Plain (sep : α) (blank : α → Bool) (e : List α) : Prop where
  ne : e ≠ []
  whole : sep ∉ e
  solid : ∀ c ∈ e, blank c = false

/-- An element without blanks is bare. -/
theorem bare_solid {blank : α → Bool} {e : List α} (solid : ∀ c ∈ e, blank c = false) : bare blank e = e := by
  have front : e.dropWhile blank = e := by
    cases e with
    | nil => rfl
    | cons c e => exact List.dropWhile_cons_of_neg (by simp [solid c (by simp)])
  unfold bare
  rw [front, List.rdropWhile_eq_self_iff]
  intro ne
  simp [solid _ (List.getLast_mem ne)]

/-- A blank in front does not count. -/
theorem bare_cons {blank : α → Bool} {c : α} (skip : blank c = true) (e : List α) :
    bare blank (c :: e) = bare blank e := by
  unfold bare
  rw [List.dropWhile_cons_of_pos skip]

theorem mem_dropWhile {blank : α → Bool} {s : List α} {c : α} (mem : c ∈ s) (solid : blank c = false) :
    c ∈ s.dropWhile blank := by
  rw [← List.takeWhile_append_dropWhile (p := blank) (l := s), List.mem_append] at mem
  refine mem.resolve_left fun skipped => ?_
  rw [List.mem_takeWhile_imp skipped] at solid
  cases solid

/-- What is not blank stays. -/
theorem mem_bare {blank : α → Bool} {s : List α} {c : α} (mem : c ∈ s) (solid : blank c = false) :
    c ∈ bare blank s :=
  List.mem_reverse.2 (mem_dropWhile (List.mem_reverse.2 (mem_dropWhile mem solid)) solid)

/-- A delimiter of a separator and a blank is a separator between elements with a blank in front. -/
theorem intercalate_gap (sep gap : α) (e : List α) (es : List (List α)) :
    [sep, gap].intercalate (e :: es) = [sep].intercalate (e :: es.map (gap :: ·)) := by
  induction es generalizing e with
  | nil => rfl
  | cons e' es ih =>
    rw [List.map_cons, List.intercalate_cons_cons, List.intercalate_cons_cons, List.intercalate_cons_cons_left, ih]
    simp

variable [DecidableEq α]

/-- A text without separators between its blanks is one element. -/
theorem elements_single {sep : α} {blank : α → Bool} {s : List α} (visible : blank sep = false)
    (whole : sep ∉ bare blank s) : elements sep blank s = [bare blank s] := by
  have none_ : ∀ l ∈ [s], sep ∉ l := fun l hl mem => by
    rw [List.mem_singleton.1 hl] at mem
    exact whole (mem_bare mem visible)
  have one := List.splitOn_intercalate sep none_ (List.cons_ne_nil _ _)
  rw [List.intercalate_singleton] at one
  rw [elements, one]
  rfl

/-- Plain elements are read back from the text that joins them. -/
theorem elements_join {sep gap : α} {blank : α → Bool} (skip : blank gap = true) (other : sep ≠ gap)
    {es : List (List α)} (some_ : es ≠ []) (plain : ∀ e ∈ es, Plain sep blank e) :
    elements sep blank (join [sep, gap] es) = es := by
  rw [join_ne fun e he => (plain e he).ne]
  cases es with
  | nil => exact absurd rfl some_
  | cons e es =>
    have first := plain e (by simp)
    have rest : ∀ f ∈ es, Plain sep blank f := fun f hf => plain f (List.mem_cons_of_mem e hf)
    have whole : ∀ l ∈ e :: es.map (gap :: ·), sep ∉ l := by
      intro l hl
      rcases List.mem_cons.1 hl with rfl | hl
      · exact first.whole
      · obtain ⟨f, hf, rfl⟩ := List.mem_map.1 hl
        simp [other, (rest f hf).whole]
    rw [intercalate_gap, elements, List.splitOn_intercalate sep whole (List.cons_ne_nil _ _), List.map_cons,
      bare_solid first.solid, List.map_map]
    congr 1
    refine (List.map_congr_left fun f hf => ?_).trans (List.map_id es)
    exact (bare_cons skip f).trans (bare_solid (rest f hf).solid)

end Separated
