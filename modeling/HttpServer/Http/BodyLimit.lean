import HttpServer.Http.Language

/-!
# The body limit

`content_length` reads the declared length with `std::stoull` and takes 0 when
that throws. A length of 2^64 or more is out of range, so it is taken as 0 and
passes the limit; below 2^64 the limit holds (`bodyLimit_iff`).
-/

namespace HttpServer

open HttpParser

/-- The digit strings, leading zeros allowed. -/
structure Digits (ds : Bytes) : Prop where
  ne : ds ≠ []
  digits : ∀ c ∈ ds, isdigit c = true

/-- Digits have no space in front. -/
theorem Digits.dropWhile {ds : Bytes} (h : Digits ds) : ds.dropWhile isspace = ds := by
  cases ds with
  | nil => rfl
  | cons c ds => simp [isspace_digit (h.digits c (by simp))]

/-- Digits have no sign in front. -/
theorem Digits.sign {ds : Bytes} (h : Digits ds) : sign ds = (false, ds) := by
  cases ds with
  | nil => rfl
  | cons c ds =>
    have digit := h.digits c (by simp)
    unfold HttpServer.sign
    split
    · rename_i eq
      cases eq
      exact absurd digit (by decide)
    · rename_i eq
      cases eq
      exact absurd digit (by decide)
    · rfl

/-- A digit string is read as its value, unless that needs more than 64 bits. -/
theorem stoull_digits {ds : Bytes} (h : Digits ds) :
    stoull ds = if 2 ^ 64 ≤ decimal ds then none else some (decimal ds) := by
  have all : ds.takeWhile isdigit = ds := List.takeWhile_eq_self_iff.2 h.digits
  simp [stoull, h.dropWhile, h.sign, all, h.ne]

/-- Every line of the head that is named content-length has the value `ds`, and there is one. -/
structure Declares (h : Head) (ds : Bytes) : Prop where
  present : ∃ f ∈ h.fields, toLower (fieldName f) = ascii "content-length"
  only : ∀ f ∈ h.fields, toLower (fieldName f) = ascii "content-length" → strip (fieldValue f) = ds

/-- Where all fields of a name have one value, that is the last one. -/
theorem lastValue_of_only {fs : List Bytes} {name value : Bytes}
    (present : ∃ f ∈ fs, toLower (fieldName f) = toLower name)
    (only : ∀ f ∈ fs, toLower (fieldName f) = toLower name → strip (fieldValue f) = value) :
    lastValue name fs = some value := by
  unfold lastValue
  cases last : (fs.filter fun f => toLower (fieldName f) == toLower name).getLast? with
  | none =>
    obtain ⟨f, hf, named⟩ := present
    rw [List.getLast?_eq_none_iff, List.filter_eq_nil_iff] at last
    exact absurd (by simpa using named) (last f hf)
  | some f =>
    have mem := List.mem_of_getLast? last
    simp only [List.mem_filter, beq_iff_eq] at mem
    simp [only f mem.1 mem.2]

theorem lower_contentLength : toLower (ascii "content-length") = ascii "content-length" := by decide

/-- The announced length is what `stoull` makes of the digits, and 0 where it throws. -/
theorem Declares.contentLength {h : Head} {ds : Bytes} (d : Declares h ds) :
    h.request.contentLength = (stoull ds).getD 0 := by
  have value : h.request.header (ascii "content-length") = some ds := by
    change (headerMap h.fields).lookup (toLower (ascii "content-length")) = some ds
    rw [headerMap_lookup]
    exact lastValue_of_only (by simpa only [lower_contentLength] using d.present)
      (by simpa only [lower_contentLength] using d.only)
  simp [Request.contentLength, value]

/-- A head that declares a length is refused only for the length. -/
theorem Declares.bodyVerdict {h : Head} {ds : Bytes} (d : Declares h ds) :
    bodyVerdict h.request = if maxBodySize < (stoull ds).getD 0 then .error .payloadTooLarge
      else .ok ((stoull ds).getD 0) := by
  have declared : h.request.hasHeader (ascii "content-length") = true := h.hasHeader_iff.2 d.present
  simp [HttpServer.bodyVerdict, d.contentLength, declared]

/-- What the limit asks of a request with head `h` that declares a body of `n` bytes, when `t`
follows the head. -/
def BodyLimit (h : Head) (n : Nat) (t : Bytes) : Prop :=
  let p := (({} : HttpParser).feed (h.text ++ t)).1
  let r := (({} : HttpParser).feed (h.text ++ t)).2
  (1048576 < n → r = .error ∧ p.errorCode = .payloadTooLarge) ∧
  (n ≤ 1048576 →
    (r = .complete ↔ n ≤ t.length) ∧
    (r = .complete → p.request.body = t.take n) ∧
    (t.length < n → r = .incomplete))

/-- Behind a valid head whose declared length is read as `n` the limit is enforced. -/
theorem bodyLimit_read {h : Head} {n : Nat} (v : h.Valid)
    (verdict : bodyVerdict h.request = if maxBodySize < n then .error .payloadTooLarge else .ok n)
    (t : Bytes) : BodyLimit h n t := by
  have steps := Head.steps_body v t
  unfold BodyLimit
  dsimp only
  rw [feed_result]
  constructor
  · intro large
    rw [if_pos (show maxBodySize < n from large)] at verdict
    have report := verdict_of_steps fresh_running steps (.refuses (.body rfl verdict))
    generalize (({} : HttpParser).feed (h.text ++ t)).1 = p at *
    obtain ⟨state, code⟩ := verdict_error.1 report
    exact ⟨result_error.2 state, code⟩
  · intro small
    rw [if_neg (show ¬ maxBodySize < n from Nat.not_lt.2 small)] at verdict
    by_cases enough : n ≤ t.length
    · rw [feed_of_steps fresh_running (steps.tail (.body rfl verdict enough)) (.inl rfl)]
      refine ⟨by simp [result, enough], fun _ => rfl, fun short => ?_⟩
      omega
    · have waits : Waits (h.bodyParser t) := .body n rfl verdict (Nat.not_le.1 enough)
      rw [feed_of_steps fresh_running steps (.inr waits)]
      have running : (h.bodyParser t).result = .incomplete := rfl
      simp [running, enough]

/-- **Body limit.** A declared length is enforced exactly when it is below 2^64. -/
theorem bodyLimit_iff {h : Head} {ds : Bytes} (v : h.Valid) (digits : Digits ds)
    (declares : Declares h ds) (t : Bytes) :
    BodyLimit h (decimal ds) t ↔ decimal ds < 2 ^ 64 := by
  have verdict := declares.bodyVerdict
  rw [stoull_digits digits] at verdict
  by_cases range : 2 ^ 64 ≤ decimal ds
  · refine iff_of_false (fun limit => ?_) (Nat.not_lt.2 range)
    rw [if_pos range] at verdict
    have steps := (Head.steps_body v t).tail (.body rfl verdict (Nat.zero_le _))
    have accepted := feed_of_steps fresh_running steps (.inl rfl)
    have refused := (limit.1 (by omega)).1
    rw [feed_result, accepted] at refused
    cases refused
  · rw [if_neg range] at verdict
    exact iff_of_true (bodyLimit_read v verdict t) (Nat.not_le.1 range)

/-- A head that declares 2^64 bytes. -/
def hugeHead : Head where
  method := ascii "POST"
  target := ascii "/"
  fields := [ascii "Content-Length: 18446744073709551616"]

theorem hugeHead_valid : hugeHead.Valid where
  method := by decide
  slash := rfl
  noSpace := by decide
  clean := by decide
  short := by decide
  few := by decide
  fields := by
    intro f hf
    simp only [hugeHead, List.mem_singleton] at hf
    subst hf
    exact ⟨by decide, by decide, by decide, by decide, by decide⟩
  total := by decide

theorem hugeHead_declares : Declares hugeHead (ascii "18446744073709551616") where
  present := ⟨_, List.mem_singleton_self _, by decide⟩
  only f hf _ := by
    simp only [hugeHead, List.mem_singleton] at hf
    subst hf
    decide

theorem bodyLimit_hugeHead :
    BodyLimit hugeHead (decimal (ascii "18446744073709551616")) (ascii "abc") ↔
      decimal (ascii "18446744073709551616") < 2 ^ 64 :=
  bodyLimit_iff hugeHead_valid ⟨by decide, by decide +kernel⟩ hugeHead_declares _

/-- A declared length of 2^64 is accepted as an empty body. -/
theorem hugeHead_accepted :
    decimal (ascii "18446744073709551616") = 2 ^ 64 ∧
    (({} : HttpParser).feed (hugeHead.text ++ ascii "abc")).2 = .complete ∧
    (({} : HttpParser).feed (hugeHead.text ++ ascii "abc")).1.request.body = [] ∧
    ¬ BodyLimit hugeHead (2 ^ 64) (ascii "abc") := by
  have accepted : (({} : HttpParser).feed (hugeHead.text ++ ascii "abc")).2 = .complete := by
    decide +kernel
  refine ⟨by decide, accepted, by decide +kernel, fun limit => ?_⟩
  have refused := (limit.1 (by decide)).1
  rw [accepted] at refused
  cases refused

end HttpServer
