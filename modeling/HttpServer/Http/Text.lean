import Mathlib.Data.List.DropRight
import Mathlib.Data.List.Infix
import Mathlib.Data.Nat.Digits.Defs
import Mathlib.Tactic.IntervalCases

/-!
# Bytes and the C text functions

A `std::string` is a list of bytes. The library functions the server uses on
text are modelled in the C locale: `isspace`, `tolower`, `std::stoull` (leading
white space, optional sign, longest digit prefix, an exception on no digits or
on a value of 2^64 and more) and `std::to_string`. `trim` and `toLower` are the
repository's own helpers; `trim` strips exactly the leading and trailing white
space (`trim_eq_strip`).
-/

namespace HttpServer

/-- The contents of a `std::string`. -/
abbrev Bytes := List UInt8

/-- The bytes of an ASCII string literal. -/
def ascii (s : String) : Bytes := s.toList.map fun c => c.toNat.toUInt8

/-- The line end `"\r\n"`. -/
def crlf : Bytes := [13, 10]

abbrev sp : UInt8 := 32
abbrev comma : UInt8 := 44
abbrev colon : UInt8 := 58
abbrev slash : UInt8 := 47

theorem crlf_ne_nil : crlf ≠ [] := by simp [crlf]

/-- `std::isspace` in the C locale. -/
def isspace (c : UInt8) : Bool := (9 ≤ c && c ≤ 13) || c == 32

/-- `std::tolower` in the C locale. -/
def tolower (c : UInt8) : UInt8 := if 65 ≤ c && c ≤ 90 then c + 32 else c

def isdigit (c : UInt8) : Bool := 48 ≤ c && c ≤ 57

def toLower (s : Bytes) : Bytes := s.map tolower

/-- The `do`-`while` of `trim`: `end` steps back over white space, no further than `start`. -/
def trimEnd (s : Bytes) (start : Nat) : Nat → Nat
  | 0 => 0
  | e + 1 => if start < e ∧ isspace (s.getD e 0) then trimEnd s start e else e

def trim (s : Bytes) : Bytes :=
  if s.isEmpty then []
  else
    let start := (s.takeWhile isspace).length
    if start = s.length then []
    else (s.drop start).take (trimEnd s start s.length + 1 - start)

/-- Leading and trailing white space removed. -/
def strip (s : Bytes) : Bytes := (s.dropWhile isspace).rdropWhile isspace

/-- The value of a digit string. -/
def decimal (ds : Bytes) : Nat := ds.foldl (fun n d => 10 * n + (d.toNat - 48)) 0

/-- The sign `strtoull` accepts: whether it is a minus, and the rest. -/
def sign : Bytes → Bool × Bytes
  | 45 :: s => (true, s)
  | 43 :: s => (false, s)
  | s => (false, s)

/-- `std::stoull(s)`; none stands for the exceptions `invalid_argument` and `out_of_range`. -/
def stoull (s : Bytes) : Option Nat :=
  let (negative, s) := sign (s.dropWhile isspace)
  let digits := s.takeWhile isdigit
  if digits.isEmpty then none
  else if 2 ^ 64 ≤ decimal digits then none
  else some (if negative then (2 ^ 64 - decimal digits) % 2 ^ 64 else decimal digits)

/-- `std::to_string` of an unsigned number. -/
def toString (n : Nat) : Bytes := (Nat.toDigits 10 n).map fun c => c.toNat.toUInt8

/-! ## White space and case -/

/-- What lies behind the longest prefix with a property is what is left without that prefix. -/
theorem takeWhile_length_drop (p : UInt8 → Bool) (s : Bytes) :
    s.drop (s.takeWhile p).length = s.dropWhile p := by
  induction s with
  | nil => rfl
  | cons c s ih => by_cases h : p c <;> simp [h, ih]

/-- Stepping back from `k` keeps exactly the part up to the last non-space. -/
theorem trimEnd_take {s : Bytes} {start : Nat} (head : isspace (s.getD start 0) = false) :
    ∀ k, start < k → k ≤ s.length →
      (s.drop start).take (trimEnd s start k + 1 - start) =
        ((s.drop start).take (k - start)).rdropWhile isspace := by
  intro k
  induction k with
  | zero => intro h; omega
  | succ e ih =>
    intro low high
    have bound : e - start < (s.drop start).length := by
      rw [List.length_drop]
      omega
    have get : (s.drop start)[e - start] = s.getD e 0 := by
      have inside : s[e]? = some s[e] := List.getElem?_eq_getElem (by omega)
      simp [List.getElem_drop, show start + (e - start) = e by omega, inside]
    have last : (s.drop start).take (e + 1 - start) =
        (s.drop start).take (e - start) ++ [s.getD e 0] := by
      rw [show e + 1 - start = (e - start) + 1 by omega,
        List.take_succ_eq_append_getElem bound, get]
    by_cases again : start < e ∧ isspace (s.getD e 0) = true
    · rw [trimEnd, if_pos again, last, List.rdropWhile_concat_pos _ _ _ again.2]
      exact ih again.1 (by omega)
    · have stop : ¬ isspace (s.getD e 0) = true := by
        intro sp
        have : start = e := by
          by_contra ne
          exact again ⟨by omega, sp⟩
        subst this
        rw [head] at sp
        cases sp
      rw [trimEnd, if_neg again, last, List.rdropWhile_concat_neg _ _ _ stop, ← last]

/-- `trim` takes the white space off both ends. -/
theorem trim_eq_strip (s : Bytes) : trim s = strip s := by
  unfold trim strip
  rw [← takeWhile_length_drop isspace s]
  by_cases empty : s = []
  · simp [empty]
  rw [if_neg (by simpa using empty)]
  by_cases all : (s.takeWhile isspace).length = s.length
  · simp [all]
  simp only [if_neg all]
  have lt : (s.takeWhile isspace).length < s.length :=
    lt_of_le_of_ne (List.takeWhile_prefix isspace).length_le all
  have ne : s.dropWhile isspace ≠ [] := by
    intro h
    have := congrArg List.length (List.takeWhile_append_dropWhile (p := isspace) (l := s))
    simp only [h, List.append_nil] at this
    exact all this
  have head : isspace (s.getD (s.takeWhile isspace).length 0) = false := by
    have first := List.head_dropWhile_not isspace ne
    simp only [← takeWhile_length_drop isspace s, List.head_drop] at first
    simpa [List.getElem?_eq_getElem lt] using first
  rw [trimEnd_take head s.length lt (Nat.le_refl _), ← List.length_drop, List.take_length]

@[simp] theorem toLower_append (a b : Bytes) : toLower (a ++ b) = toLower a ++ toLower b := by
  simp [toLower]

theorem tolower_tolower (c : UInt8) : tolower (tolower c) = tolower c := by
  unfold tolower
  split
  · rename_i h
    simp only [Bool.and_eq_true, decide_eq_true_eq, UInt8.le_iff_toNat_le] at h
    have : ¬ (65 ≤ c + 32 ∧ c + 32 ≤ 90) := by
      simp only [UInt8.le_iff_toNat_le, UInt8.toNat_add]
      simp at h ⊢
      omega
    simp [this]
  · rfl

@[simp] theorem toLower_toLower (s : Bytes) : toLower (toLower s) = toLower s := by
  simp [toLower, tolower_tolower]

/-- Lower case does not change what is a space. -/
theorem isspace_tolower (c : UInt8) : isspace (tolower c) = isspace c := by
  unfold tolower
  split
  · rename_i upper
    simp only [Bool.and_eq_true, decide_eq_true_eq, UInt8.le_iff_toNat_le] at upper
    have large : ∀ d : UInt8, 65 ≤ d.toNat → isspace d = false := by
      intro d le
      simp only [isspace, Bool.or_eq_false_iff, Bool.and_eq_false_iff, decide_eq_false_iff_not,
        beq_eq_false_iff_ne, ne_eq, UInt8.le_iff_toNat_le, ← UInt8.toNat_inj]
      simp
      omega
    have low : 65 ≤ c.toNat := by simpa using upper.1
    have high : c.toNat ≤ 90 := by simpa using upper.2
    rw [large c low, large (c + 32)]
    rw [UInt8.toNat_add]
    simp
    omega
  · rfl

/-! ## Numbers -/

/-- The byte of a digit. -/
theorem digitChar_byte {d : Nat} (h : d < 10) :
    isdigit (Nat.digitChar d).toNat.toUInt8 = true ∧ (Nat.digitChar d).toNat.toUInt8.toNat - 48 = d := by
  interval_cases d <;> decide

theorem isspace_digit {c : UInt8} (h : isdigit c = true) : isspace c = false := by
  simp only [isdigit, isspace, Bool.and_eq_true, decide_eq_true_eq, UInt8.le_iff_toNat_le,
    Bool.or_eq_false_iff, Bool.and_eq_false_iff, decide_eq_false_iff_not, beq_eq_false_iff_ne, ne_eq,
    ← UInt8.toNat_inj] at *
  simp at *
  omega

/-- `std::to_string` writes the last digit behind those of the quotient. -/
theorem toString_step (n : Nat) :
    toString n = (if n < 10 then [] else toString (n / 10)) ++ [(Nat.digitChar (n % 10)).toNat.toUInt8] := by
  unfold toString
  rw [Nat.toDigits_eq_if (by omega)]
  split
  · rename_i small
    simp [Nat.mod_eq_of_lt small]
  · simp

/-- A number is written in digits only. -/
theorem toString_digits (n : Nat) : ∀ c ∈ toString n, isdigit c = true := by
  induction n using Nat.strongRecOn with
  | ind n ih =>
    intro c hc
    rw [toString_step, List.mem_append, List.mem_singleton] at hc
    rcases hc with hc | rfl
    · split at hc
      · cases hc
      · exact ih (n / 10) (by omega) c hc
    · exact (digitChar_byte (Nat.mod_lt n (by omega))).1

/-- Even 0 has a digit. -/
theorem toString_ne_nil (n : Nat) : toString n ≠ [] := by
  rw [toString_step]
  simp

/-- `std::to_string` writes the number it is given. -/
theorem decimal_toString (n : Nat) : decimal (toString n) = n := by
  induction n using Nat.strongRecOn with
  | ind n ih =>
    have last := (digitChar_byte (Nat.mod_lt n (show 10 > 0 by omega))).2
    rw [toString_step]
    split
    · simp only [decimal, List.nil_append, List.foldl_cons, List.foldl_nil, last]
      omega
    · have front := ih (n / 10) (by omega)
      simp only [decimal] at front
      simp only [decimal, List.foldl_append, List.foldl_cons, List.foldl_nil, last, front]
      omega

end HttpServer
