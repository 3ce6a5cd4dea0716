import HttpServer.Http.Patience

/-!
# What the parser refuses

The other side of the request language. A text is faulty where its first lines
are good and then comes a line, or the end of the head, that breaks a rule
(`Faulty`); it is unfinished where its last line is still open, or its body
(`Unfinished`). Every rule has a code of its own and the first one that is
broken counts. The parser reports just these codes, and asks for more just for
these texts (`feedAll_language`).
-/

namespace HttpServer

open ListSearch HttpParser

/-- A line in three parts, cut at its first two spaces. -/
structure Parts (line method target version : Bytes) : Prop where
  text : line = method ++ sp :: target ++ sp :: version
  method : sp ∉ method
  target : sp ∉ target

/-- What may be wrong with a complete request line. -/
inductive LineFault (line : Bytes) : StatusCode → Prop where
  | long (long : maxRequestLine < line.length) : LineFault line .uriTooLong
  | unparted (short : line.length ≤ maxRequestLine) (none_ : ∀ m t v, ¬ Parts line m t v) :
      LineFault line .badRequest
  | method {m t v : Bytes} (short : line.length ≤ maxRequestLine) (parts : Parts line m t v) (unknown : m ∉ methods) :
      LineFault line .methodNotAllowed
  | rest {m t v : Bytes} (short : line.length ≤ maxRequestLine) (parts : Parts line m t v) (known : m ∈ methods)
      (bad : t.head? ≠ some slash ∨ v ≠ httpVersion) : LineFault line .badRequest

/-- The line is within the limits behind the head that has been read. -/
structure Fits (h : Head) (line : Bytes) : Prop where
  short : line.length ≤ maxHeaderSize
  few : h.fields.length < maxHeaderCount
  total : fieldsSize h.fields + (line.length + 2) ≤ maxTotalHeaders

/-- What may be wrong with a complete header line. -/
inductive FieldFault (h : Head) (line : Bytes) : StatusCode → Prop where
  | large (exceeds : ¬ Fits h line) : FieldFault h line .headerFieldsTooLarge
  | malformed (fits : Fits h line) (bad : colon ∉ line ∨ sp ∈ fieldName line) : FieldFault h line .badRequest

/-- What may be wrong with a body that a head announces. -/
inductive BodyFault (h : Head) : StatusCode → Prop where
  | large (large : maxBodySize < h.request.contentLength) : BodyFault h .payloadTooLarge
  | undeclared (small : h.request.contentLength ≤ maxBodySize) (post : h.method = ascii "POST")
      (none_ : ∀ f ∈ h.fields, toLower (fieldName f) ≠ ascii "content-length") : BodyFault h .badRequest

/-- The text breaks a rule, whatever follows. -/
inductive Faulty : Bytes → StatusCode → Prop where
  | requestLine {line : Bytes} (rest : Bytes) {c : StatusCode} (clean : NoCrlf line) (fault : LineFault line c) :
      Faulty (line ++ crlf ++ rest) c
  | openLine {s : Bytes} (open_ : NoCrlf s) (long : maxRequestLine < s.length) : Faulty s .uriTooLong
  | field {h : Head} {line : Bytes} (rest : Bytes) {c : StatusCode} (valid : h.Valid) (clean : NoCrlf line)
      (ne : line ≠ []) (fault : FieldFault h line c) : Faulty (h.lines ++ (line ++ crlf ++ rest)) c
  | openFields {h : Head} {s : Bytes} (valid : h.Valid) (open_ : NoCrlf s)
      (long : maxTotalHeaders < fieldsSize h.fields + s.length) : Faulty (h.lines ++ s) .headerFieldsTooLarge
  | body {h : Head} (rest : Bytes) {c : StatusCode} (valid : h.Valid) (fault : BodyFault h c) :
      Faulty (h.text ++ rest) c

/-- The text breaks no rule yet, and is no request yet. -/
inductive Unfinished : Bytes → Prop where
  | requestLine {s : Bytes} (open_ : NoCrlf s) (short : s.length ≤ maxRequestLine) : Unfinished s
  | fields {h : Head} {s : Bytes} (valid : h.Valid) (open_ : NoCrlf s)
      (short : fieldsSize h.fields + s.length ≤ maxTotalHeaders) : Unfinished (h.lines ++ s)
  | body {h : Head} {s : Bytes} (valid : h.Valid) (sound : ∀ c, ¬ BodyFault h c)
      (short : s.length < h.request.contentLength) : Unfinished (h.text ++ s)

/-! ## One line -/

/-- The verdict on a line in three parts. -/
theorem requestLineVerdict_parts {line m t v : Bytes} (short : line.length ≤ maxRequestLine)
    (parts : Parts line m t v) :
    requestLineVerdict line =
      if m ∉ methods then .error .methodNotAllowed
      else if t.head? ≠ some slash then .error .badRequest
      else if v ≠ httpVersion then .error .badRequest
      else .ok (m, t) := by
  obtain ⟨rfl, cleanM, cleanT⟩ := parts
  obtain ⟨hm, ht⟩ := find_spaces (v := v) cleanM cleanT
  obtain ⟨cutM, cutT, cutV⟩ := cut_parts m t v
  unfold requestLineVerdict
  rw [if_neg (Nat.not_lt.2 short)]
  simp only [hm, ht, cutM, cutT, cutV]

/-- A short line that does not have three parts is a bad request. -/
theorem requestLineVerdict_unparted {line : Bytes} (short : line.length ≤ maxRequestLine)
    (none_ : ∀ m t v, ¬ Parts line m t v) : requestLineVerdict line = .error .badRequest := by
  unfold requestLineVerdict
  rw [if_neg (Nat.not_lt.2 short)]
  cases hm : find [sp] line with
  | none => rfl
  | some mEnd =>
    cases ht : findFrom [sp] line (mEnd + 1) with
    | none => simp only [ht]
    | some tEnd =>
      obtain ⟨m, t, v, text, cleanM, cleanT, -, -⟩ := requestLine_parts hm ht
      exact absurd ⟨text, cleanM, cleanT⟩ (none_ m t v)

/-- The checks of `parse_request_line`, as faults of the line. -/
theorem lineFault_iff {line : Bytes} {c : StatusCode} : requestLineVerdict line = .error c ↔ LineFault line c := by
  constructor
  · intro bad
    by_cases long : maxRequestLine < line.length
    · rw [requestLineVerdict, if_pos long] at bad
      cases bad
      exact .long long
    · have short := Nat.not_lt.1 long
      by_cases parted : ∃ m t v, Parts line m t v
      · obtain ⟨m, t, v, parts⟩ := parted
        rw [requestLineVerdict_parts short parts] at bad
        split at bad
        · rename_i unknown
          cases bad
          exact .method short parts unknown
        · rename_i known
          rw [not_not] at known
          split at bad
          · rename_i first
            cases bad
            exact .rest short parts known (.inl first)
          · split at bad
            · rename_i version
              cases bad
              exact .rest short parts known (.inr version)
            · cases bad
      · have none_ : ∀ m t v, ¬ Parts line m t v := fun m t v parts => parted ⟨m, t, v, parts⟩
        rw [requestLineVerdict_unparted short none_] at bad
        cases bad
        exact .unparted short none_
  · intro fault
    cases fault with
    | long long => rw [requestLineVerdict, if_pos long]
    | unparted short none_ => exact requestLineVerdict_unparted short none_
    | method short parts unknown => rw [requestLineVerdict_parts short parts, if_pos unknown]
    | rest short parts known bad =>
      rw [requestLineVerdict_parts short parts, if_neg (not_not.2 known)]
      rcases bad with first | version
      · rw [if_pos first]
      · simp [version]

/-- The checks of `parse_headers`, as faults of a field behind a valid head. -/
theorem fieldFault_iff {h : Head} {line : Bytes} {c : StatusCode} :
    headerVerdict (fieldsSize h.fields) h.fields.length line = .error c ↔ FieldFault h line c := by
  by_cases fits : Fits h line
  · have within_ : headerVerdict (fieldsSize h.fields) h.fields.length line =
        if colon ∉ line then .error .badRequest
        else if sp ∈ fieldName line then .error .badRequest
        else .ok (toLower (fieldName line), strip (fieldValue line)) := by
      obtain ⟨short, few, total⟩ := fits
      rw [headerVerdict, if_neg (Nat.not_lt.2 short), if_neg (Nat.not_le.2 few), if_neg (Nat.not_lt.2 total)]
    rw [within_]
    constructor
    · intro bad
      split at bad
      · rename_i unnamed
        cases bad
        exact .malformed fits (.inl unnamed)
      · split at bad
        · rename_i spaced
          cases bad
          exact .malformed fits (.inr spaced)
        · cases bad
    · intro fault
      cases fault with
      | large exceeds => exact absurd fits exceeds
      | malformed _ bad =>
        split
        · rfl
        · rename_i named
          rw [if_pos (bad.resolve_left named)]
  · have beyond : headerVerdict (fieldsSize h.fields) h.fields.length line = .error .headerFieldsTooLarge := by
      unfold headerVerdict
      split
      · rfl
      · rename_i short
        split
        · rfl
        · rename_i few
          split
          · rfl
          · rename_i total
            exact absurd ⟨Nat.not_lt.1 short, Nat.not_le.1 few, Nat.not_lt.1 total⟩ fits
    rw [beyond]
    constructor
    · intro bad
      cases bad
      exact .large fits
    · intro fault
      cases fault with
      | large => rfl
      | malformed within_ => exact absurd within_ fits

/-- The checks of the announced length, as faults of the head. -/
theorem bodyFault_iff {h : Head} {c : StatusCode} : bodyVerdict h.request = .error c ↔ BodyFault h c := by
  have declared : ¬ h.request.hasHeader (ascii "content-length") = true ↔
      ∀ f ∈ h.fields, toLower (fieldName f) ≠ ascii "content-length" := by
    rw [h.hasHeader_iff]
    simp
  unfold bodyVerdict
  constructor
  · intro bad
    split at bad
    · rename_i large
      cases bad
      exact .large large
    · rename_i small
      split at bad
      · rename_i undeclared
        cases bad
        exact .undeclared (Nat.not_lt.1 small) undeclared.1 (declared.1 undeclared.2)
      · cases bad
  · intro fault
    cases fault with
    | large large => rw [if_pos large]
    | undeclared small post none_ => rw [if_neg (Nat.not_lt.2 small), if_pos ⟨post, declared.2 none_⟩]

/-- A body that breaks no rule is as long as the head says. -/
theorem bodyVerdict_sound {h : Head} (sound : ∀ c, ¬ BodyFault h c) :
    bodyVerdict h.request = .ok h.request.contentLength := by
  cases verdict : bodyVerdict h.request with
  | error c => exact absurd (bodyFault_iff.1 verdict) (sound c)
  | ok n => rw [(bodyVerdict_ok.1 verdict).1]

/-! ## Whole texts -/

variable {q : HttpParser} {s : Bytes} {c : StatusCode}

/-- What a parser refuses is a fault of the text that it has read. -/
theorem Reads.faulty (reads : Reads q s) (settles : Settles q (.error c)) : Faulty s c := by
  cases reads with
  | requestLine =>
    cases settles with
    | refuses bad =>
      cases bad with
      | requestLine line rest st buf clean bad =>
        obtain rfl : s = line ++ crlf ++ rest := buf
        exact .requestLine rest clean (lineFault_iff.1 bad)
      | header _ _ st | body st => cases st
    | overflows o =>
      cases o with
      | requestLine st open_ long => exact .openLine open_ long
      | headers st => cases st
  | @headers h valid buf =>
    cases settles with
    | refuses bad =>
      cases bad with
      | header line rest st text clean ne bad =>
        obtain rfl : buf = line ++ crlf ++ rest := text
        exact .field rest valid clean ne (fieldFault_iff.1 bad)
      | requestLine _ _ st | body st => cases st
    | overflows o =>
      cases o with
      | headers st open_ long => exact .openFields valid open_ long
      | requestLine st => cases st
  | @body h valid buf =>
    cases settles with
    | refuses bad =>
      cases bad with
      | body st bad => exact .body buf valid (bodyFault_iff.1 bad)
      | requestLine _ _ st | header _ _ st => cases st
    | overflows o => cases o with | requestLine st | headers st => cases st
  | complete =>
    cases settles with
    | refuses bad => exact absurd rfl bad.running.1
    | overflows o => exact absurd rfl o.running.1

/-- A parser that waits has read a text without a fault, whose last part is open. -/
theorem Reads.unfinished (reads : Reads q s) (waits : Waits q) : Unfinished s := by
  cases reads with
  | requestLine =>
    cases waits with
    | requestLine st open_ short => exact .requestLine open_ short
    | headers st | body n st => cases st
  | headers valid buf =>
    cases waits with
    | headers st open_ short => exact .fields valid open_ short
    | requestLine st | body n st => cases st
  | body valid buf =>
    cases waits with
    | body n st ok short =>
      obtain ⟨rfl, -, -⟩ := bodyVerdict_ok.1 ok
      refine .body valid (fun c fault => ?_) short
      cases ok.symm.trans (bodyFault_iff.2 fault)
    | requestLine st | headers st => cases st
  | complete => exact absurd rfl waits.running.1

/-- The parser comes to the fault. -/
theorem Faulty.settles (faulty : Faulty s c) :
    ∃ q, Steps (({} : HttpParser).append s) q ∧ Settles q (.error c) := by
  cases faulty with
  | requestLine rest clean fault =>
    exact ⟨_, .refl, .refuses (.requestLine _ rest rfl rfl clean (lineFault_iff.2 fault))⟩
  | openLine open_ long => exact ⟨_, .refl, .overflows (.requestLine rfl open_ long)⟩
  | field rest valid clean ne fault =>
    exact ⟨_, Head.steps valid _, .refuses (.header _ rest rfl rfl clean ne (fieldFault_iff.2 fault))⟩
  | openFields valid open_ long => exact ⟨_, Head.steps valid _, .overflows (.headers rfl open_ long)⟩
  | body rest valid fault => exact ⟨_, Head.steps_body valid rest, .refuses (.body rfl (bodyFault_iff.2 fault))⟩

/-- Behind such a text the parser waits. -/
theorem Unfinished.waits (unfinished : Unfinished s) :
    ∃ q, Steps (({} : HttpParser).append s) q ∧ Waits q := by
  cases unfinished with
  | requestLine open_ short => exact ⟨_, .refl, .requestLine rfl open_ short⟩
  | fields valid open_ short => exact ⟨_, Head.steps valid _, .headers rfl open_ short⟩
  | body valid sound short => exact ⟨_, Head.steps_body valid _, .body _ rfl (bodyVerdict_sound sound) short⟩

/-- A text that is fed whole is refused with the code of its first fault. -/
theorem feed_faulty : (({} : HttpParser).feed s).1.verdict = .error c ↔ Faulty s c := by
  constructor
  · intro verdict
    obtain ⟨q, steps, ends⟩ := feed_run fresh_running s
    have settles := ends.settles
    rw [verdict] at settles
    exact ((Reads.requestLine s).steps steps).faulty settles
  · intro faulty
    obtain ⟨q, steps, settles⟩ := faulty.settles
    exact verdict_of_steps fresh_running steps settles

/-- A text that is fed whole leaves the parser waiting exactly when it is open. -/
theorem feed_unfinished : (({} : HttpParser).feed s).1.verdict = .incomplete ↔ Unfinished s := by
  constructor
  · intro verdict
    obtain ⟨q, steps, ends⟩ := feed_run fresh_running s
    have settles := ends.settles
    rw [verdict] at settles
    cases settles with
    | waits waits => exact ((Reads.requestLine s).steps steps).unfinished waits
  · intro unfinished
    obtain ⟨q, steps, waits⟩ := unfinished.waits
    exact verdict_of_steps fresh_running steps (.waits waits)

/-- **The rest of the parser's language.** However a text arrives, a limit cut apart, the parser reports an error
exactly where the text is faulty, with the code of its first fault, and asks for more exactly where it is
unfinished. -/
theorem feedAll_language {chunks : List Bytes}
    (cut : ∀ front back, chunks = front ++ back → ¬ LimitCut front.flatten back.flatten) :
    (∀ c, (({} : HttpParser).feedAll chunks).2 = .error ∧ (({} : HttpParser).feedAll chunks).1.errorCode = c ↔
      Faulty chunks.flatten c) ∧
    ((({} : HttpParser).feedAll chunks).2 = .incomplete ↔ Unfinished chunks.flatten) := by
  have same := feedAll_fresh cut
  rw [feedAll_result]
  constructor
  · intro c
    rw [result_error, ← verdict_error, same, feed_faulty]
  · rw [result_incomplete, ← verdict_incomplete, same, feed_unfinished]

/-- Only behind a long first part is there a limit cut. -/
theorem LimitCut.long {a b : Bytes} (cut : LimitCut a b) : maxRequestLine < a.length := by
  cases cut with
  | requestLine line b clean full =>
    rw [List.length_append, full]
    exact Nat.lt_succ_self _
  | headers h b valid full =>
    rw [List.length_append, h.lines_length, full]
    simp only [maxTotalHeaders, maxRequestLine]
    omega

/-- A short text cannot be cut at a limit. -/
theorem noLimitCut_of_short {chunks : List Bytes} (short : chunks.flatten.length ≤ maxRequestLine)
    (front back : List Bytes) (eq : chunks = front ++ back) : ¬ LimitCut front.flatten back.flatten := by
  intro cut
  have long := cut.long
  rw [eq, List.flatten_append, List.length_append] at short
  omega

/-- A request line with an unknown method. -/
def putLine : Bytes := ascii "PUT / HTTP/1.1"

theorem putLine_fault : LineFault putLine .methodNotAllowed :=
  .method (by decide)
    ⟨show putLine = ascii "PUT" ++ sp :: ascii "/" ++ sp :: httpVersion by decide, by decide, by decide⟩
    (by decide)

theorem feedAll_language_put :
    (({} : HttpParser).feedAll [putLine, crlf]).1.errorCode = .methodNotAllowed ∧ Unfinished [putLine].flatten := by
  have whole := feedAll_language (@noLimitCut_of_short [putLine, crlf] (by decide))
  have part := feedAll_language (@noLimitCut_of_short [putLine] (by decide))
  exact ⟨((whole.1 _).2 (.requestLine [] (by decide) putLine_fault)).2, part.2.1 (by decide +kernel)⟩

end HttpServer
