import HttpServer.Http.BodyLimit

/-!
# The declared length

`content_length` promises 0 for an invalid header. `std::stoull` stops at the
first byte that is no digit and takes a sign, a minus modulo 2^64, so that a
value which only starts like a number is read as one: the promise is kept
exactly where that start is itself worth 0 or out of range (`lengthRead_iff`).
-/

namespace HttpServer

/-- The sign and the digits that `std::stoull` takes from the front of a text. -/
def numeral (s : Bytes) : Bool × Bytes :=
  ((sign (s.dropWhile isspace)).1, (sign (s.dropWhile isspace)).2.takeWhile isdigit)

/-- A well-formed length. -/
structure Length (s : Bytes) : Prop extends Digits s where
  range : decimal s < 2 ^ 64

/-- `content_length` is the number that the header denotes, and 0 when it denotes none. -/
structure LengthRead (r : Request) : Prop where
  valid : ∀ s, r.header (ascii "content-length") = some s → Length s → r.contentLength = decimal s
  invalid : (∀ s, r.header (ascii "content-length") = some s → ¬ Length s) → r.contentLength = 0

theorem stoull_eq (s : Bytes) :
    stoull s = if (numeral s).2 = [] ∨ 2 ^ 64 ≤ decimal (numeral s).2 then none
      else some (if (numeral s).1 then (2 ^ 64 - decimal (numeral s).2) % 2 ^ 64 else decimal (numeral s).2) := by
  unfold stoull
  change (if (numeral s).2.isEmpty = true then none
    else if 2 ^ 64 ≤ decimal (numeral s).2 then none else some _) = _
  by_cases empty : (numeral s).2 = []
  · rw [if_pos (List.isEmpty_iff.2 empty), if_pos (.inl empty)]
  rw [if_neg (mt List.isEmpty_iff.1 empty)]
  by_cases large : 2 ^ 64 ≤ decimal (numeral s).2
  · rw [if_pos large, if_pos (.inr large)]
  · rw [if_neg large, if_neg (not_or.2 ⟨empty, large⟩)]
    rfl

/-- 0 is read from a text whose number is 0 or out of range, and from no other. -/
theorem stoull_zero_iff (s : Bytes) :
    (stoull s).getD 0 = 0 ↔ decimal (numeral s).2 = 0 ∨ 2 ^ 64 ≤ decimal (numeral s).2 := by
  rw [stoull_eq]
  by_cases empty : (numeral s).2 = []
  · rw [if_pos (.inl empty), empty]
    exact iff_of_true rfl (.inl rfl)
  by_cases large : 2 ^ 64 ≤ decimal (numeral s).2
  · rw [if_pos (.inr large)]
    exact iff_of_true rfl (.inr large)
  rw [if_neg (not_or.2 ⟨empty, large⟩), Option.getD_some]
  cases (numeral s).1 with
  | false =>
    rw [if_neg Bool.false_ne_true]
    omega
  | true =>
    rw [if_pos rfl]
    omega

theorem contentLength_some {r : Request} {s : Bytes} (h : r.header (ascii "content-length") = some s) :
    r.contentLength = (stoull s).getD 0 := by
  rw [Request.contentLength, h]

theorem contentLength_none {r : Request} (h : r.header (ascii "content-length") = none) :
    r.contentLength = 0 := by
  rw [Request.contentLength, h]

/-- A digit string is read as the documentation says. -/
theorem contentLength_digits {r : Request} {s : Bytes} (h : r.header (ascii "content-length") = some s)
    (digits : Digits s) : LengthRead r := by
  have value : r.contentLength = if 2 ^ 64 ≤ decimal s then 0 else decimal s := by
    rw [contentLength_some h, stoull_digits digits]
    split <;> rfl
  constructor
  · intro s' h' length
    obtain rfl : s = s' := Option.some.inj (h.symm.trans h')
    rw [value, if_neg (Nat.not_le.2 length.range)]
  · intro none_
    have large : 2 ^ 64 ≤ decimal s := Nat.not_lt.1 fun range => none_ s h ⟨digits, range⟩
    rw [value, if_pos large]

/-- **Only well-formed lengths are read**, exactly where no other text starts with a number in range. -/
theorem lengthRead_iff (r : Request) :
    LengthRead r ↔ ∀ s, r.header (ascii "content-length") = some s →
      Digits s ∨ decimal (numeral s).2 = 0 ∨ 2 ^ 64 ≤ decimal (numeral s).2 := by
  constructor
  · intro read s h
    by_cases digits : Digits s
    · exact .inl digits
    right
    rw [← stoull_zero_iff, ← contentLength_some h]
    apply read.invalid
    intro s' h' length
    obtain rfl : s = s' := Option.some.inj (h.symm.trans h')
    exact digits length.toDigits
  · intro fine
    cases h : r.header (ascii "content-length") with
    | none => exact ⟨fun s h' => absurd (h.symm.trans h') (by simp), fun _ => contentLength_none h⟩
    | some s =>
      rcases fine s h with digits | zero
      · exact contentLength_digits h digits
      have value : r.contentLength = 0 := by rw [contentLength_some h, stoull_zero_iff s]; exact zero
      refine ⟨fun s' h' length => ?_, fun _ => value⟩
      exact (contentLength_digits h' length.toDigits).valid s' h' length

def withLength (s : Bytes) : Request := { headers := AList.insert (ascii "content-length") s ∅ }

theorem header_withLength (s : Bytes) : (withLength s).header (ascii "content-length") = some s := by
  rw [Request.header, lower_contentLength]
  exact AList.lookup_insert _

theorem not_lengthRead {s : Bytes} {c : UInt8} (mem : c ∈ s) (letter : isdigit c = false)
    (read : (stoull s).getD 0 ≠ 0) : ¬ LengthRead (withLength s) := by
  intro zero
  rw [← contentLength_some (header_withLength s)] at read
  refine read (zero.invalid fun s' h' length => ?_)
  obtain rfl : s = s' := Option.some.inj ((header_withLength s).symm.trans h')
  rw [length.digits c mem] at letter
  cases letter

/-- A length with other bytes behind it, one with a sign, and a negative one. -/
theorem malformed_read :
    ((withLength (ascii "12abc")).contentLength = 12 ∧ ¬ LengthRead (withLength (ascii "12abc"))) ∧
      ((withLength (ascii "+5")).contentLength = 5 ∧ ¬ LengthRead (withLength (ascii "+5"))) ∧
      (withLength (ascii "-1")).contentLength = 2 ^ 64 - 1 ∧ ¬ LengthRead (withLength (ascii "-1")) := by
  refine ⟨⟨by decide +kernel, ?_⟩, ⟨by decide +kernel, ?_⟩, by decide +kernel, ?_⟩
  · exact not_lengthRead (c := 97) (by decide) (by decide) (by decide +kernel)
  · exact not_lengthRead (c := 43) (by decide) (by decide) (by decide +kernel)
  · exact not_lengthRead (c := 45) (by decide) (by decide) (by decide +kernel)

end HttpServer
