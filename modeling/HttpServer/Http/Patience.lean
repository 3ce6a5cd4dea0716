import Mathlib.Order.Bounds.Defs
import HttpServer.Http.BodyLimit
import HttpServer.Http.Chunks

/-!
# How long the parser goes on asking for more

While a request is incomplete the parser keeps count of what it has read: the
fields it has filled in and its buffer together are as long as the bytes fed
(`Reads.consumed`). Each part has a limit of its own, so a client cannot keep a
request incomplete for ever: `patience` bounds the bytes fed before a verdict,
and one byte less would not do (`patience_exact`).
-/

namespace HttpServer

open ListSearch

namespace HttpParser

/-- The bytes an incomplete parser has taken, line ends and the spaces of the request line included. -/
def consumed (p : HttpParser) : Nat :=
  match p.state with
  | .requestLine => p.buffer.length
  | .headers => p.request.method.length + p.request.target.length + 12 + p.headersSize + p.buffer.length
  | .body => p.request.method.length + p.request.target.length + 14 + p.headersSize + p.buffer.length
  | .complete | .error => 0

/-- Request line, header lines, the two bare line ends and all but one byte of a body. -/
def patience : Nat := maxRequestLine + 2 + maxTotalHeaders + 2 + (maxBodySize - 1)

end HttpParser

open HttpParser

/-- The bytes of the header lines are what the parser counts. -/
theorem fieldsText_length (h : Head) : h.fieldsText.length = fieldsSize h.fields := by
  simp [Head.fieldsText, fieldsSize, crlf, Function.comp_def]

theorem requestLine_length (h : Head) : h.requestLine.length = h.method.length + h.target.length + 10 := by
  simp [Head.requestLine, httpVersion, ascii]
  omega

/-- The lines of a head, in bytes. -/
theorem Head.lines_length (h : Head) :
    h.lines.length = h.method.length + h.target.length + 12 + fieldsSize h.fields := by
  simp only [lines, List.length_append, requestLine_length, fieldsText_length]
  simp [crlf]

theorem Head.text_length (h : Head) : h.text.length = h.lines.length + 2 := by simp [text, crlf]

/-- A valid head fits its two limits. -/
theorem Head.Valid.lines_short {h : Head} (v : h.Valid) :
    h.lines.length ≤ maxRequestLine + 2 + maxTotalHeaders := by
  have short := v.short
  have total := v.total
  rw [requestLine_length] at short
  rw [h.lines_length]
  omega

/-- The parser knows how many bytes it has read. -/
theorem Reads.consumed {p : HttpParser} {a : Bytes} (r : Reads p a) (run : p.Running) : p.consumed = a.length := by
  cases r with
  | requestLine => simp [HttpParser.consumed]
  | @headers h v buf =>
    rw [List.length_append, h.lines_length]
    rfl
  | @body h v buf =>
    rw [List.length_append, h.text_length, h.lines_length]
    simp only [HttpParser.consumed, Head.bodyParser, Head.parser, Head.request]
    omega
  | complete => exact absurd rfl run.1

/-- A parser that waits for more has not read much. -/
theorem Reads.patient {p : HttpParser} {a : Bytes} (r : Reads p a) (w : Waits p) : a.length ≤ patience := by
  unfold patience
  cases w with
  | requestLine st open_ short =>
    cases r with
    | requestLine =>
      simp only [append_buffer, List.nil_append] at short
      omega
    | headers | body | complete => cases st
  | headers st open_ short =>
    cases r with
    | @headers h v buf =>
      have line := v.short
      simp only [Head.parser] at short
      rw [requestLine_length] at line
      rw [List.length_append, h.lines_length]
      omega
    | requestLine | body | complete => cases st
  | body n st ok short =>
    cases r with
    | @body h v buf =>
      obtain ⟨rfl, small, -⟩ := bodyVerdict_ok.1 ok
      have lines := v.lines_short
      change buf.length < _ at short
      rw [List.length_append, h.text_length]
      simp only [maxBodySize] at *
      omega
    | requestLine | headers | complete => cases st

namespace HttpParser

/-- A parser that waits keeps waiting and reading, or has its verdict. -/
theorem feedAll_reads {p : HttpParser} {a : Bytes} (w : Waits p) (r : Reads p a) (chunks : List Bytes)
    (more : (p.feedAll chunks).1.Running) :
    Waits (p.feedAll chunks).1 ∧ Reads (p.feedAll chunks).1 (a ++ chunks.flatten) := by
  induction chunks generalizing p a with
  | nil => exact ⟨w, by simpa using r⟩
  | cons c cs ih =>
    rw [feedAll_cons] at more ⊢
    by_cases on : (p.feed c).1.Running
    · obtain ⟨waits, reads⟩ := r.feed w.running c on
      rw [List.flatten_cons, ← List.append_assoc]
      exact ih waits reads more
    · rw [feedAll_done on] at more
      exact absurd more on

/-- A parser that has been fed all that has arrived of the request, and waits for more. -/
def Fed (p : HttpParser) : Prop := ∃ a, Reads p a ∧ Waits p

theorem fed_fresh : Fed {} := ⟨[], reads_fresh, waits_fresh⟩

/-- A parser that still runs behind a chunk has been fed with a text that it can wait behind. -/
theorem Fed.feed {p : HttpParser} (h : p.Fed) {d : Bytes} (more : (p.feed d).1.Running) : (p.feed d).1.Fed := by
  obtain ⟨a, reads, waits⟩ := h
  obtain ⟨waits', reads'⟩ := reads.feed waits.running d more
  exact ⟨a ++ d, reads', waits'⟩

/-- Every byte uses up some patience. -/
theorem Fed.wearies {p : HttpParser} (h : p.Fed) {d : Bytes} (some_ : d ≠ []) (more : (p.feed d).1.Running) :
    patience - (p.feed d).1.consumed < patience - p.consumed := by
  obtain ⟨a, reads, waits⟩ := h
  obtain ⟨waits', reads'⟩ := reads.feed waits.running d more
  have patient := reads'.patient waits'
  have new := List.length_pos_of_ne_nil some_
  rw [reads.consumed waits.running, reads'.consumed more]
  rw [List.length_append] at patient ⊢
  omega

/-! ## The bound is reached -/

/-- A head for a path of `n` letters with 8 long lines that announces the longest body. -/
def fullHead (n k : Nat) : Head where
  method := ascii "GET"
  target := slash :: List.replicate n 97
  fields := ascii "content-length:1048576" :: List.replicate 8 (97 :: colon :: List.replicate k 97)

variable {n k : Nat}

/-- The fields of the longest head are those of the body and of the padding. -/
theorem fullHead_fields {f : Bytes} (mem : f ∈ (fullHead n k).fields) :
    f = ascii "content-length:1048576" ∨ f = 97 :: colon :: List.replicate k 97 := by
  rcases List.mem_cons.1 mem with rfl | mem
  · exact .inl rfl
  · exact .inr (List.eq_of_mem_replicate mem)

/-- They come to the limit for all headers. -/
theorem fullHead_total (n k : Nat) : fieldsSize (fullHead n k).fields = 8 * k + 56 := by
  simp [fieldsSize, fullHead, ascii]
  omega

theorem fullHead_line (n k : Nat) : (fullHead n k).requestLine.length = n + 14 := by
  simp only [requestLine_length, fullHead, ascii, List.length_cons, List.length_replicate]
  simp
  omega

/-- The longest head passes every check. -/
theorem fullHead_valid (line : n = 8178) (fields : k = 8185) : (fullHead n k).Valid where
  method := by simp [fullHead, methods]
  slash := rfl
  noSpace := by simp [fullHead, sp, slash]
  clean := noCrlf_of_not_mem (by simp [fullHead, Head.requestLine, httpVersion, ascii, sp, slash])
  short := by rw [fullHead_line]; simp [line, maxRequestLine]
  few := by simp [fullHead, maxHeaderCount]
  fields f mem := by
    rcases fullHead_fields mem with rfl | rfl
    · exact ⟨by decide, by decide, by decide, by decide, by decide⟩
    · refine ⟨by simp, noCrlf_of_not_mem (by simp [colon]), ?_, by simp, ?_⟩
      · simp only [List.length_cons, List.length_replicate, maxHeaderSize]
        omega
      · rw [show fieldName (97 :: colon :: List.replicate k 97) = [97] from rfl]
        decide
  total := by rw [fullHead_total]; simp [fields, maxTotalHeaders]

/-- It announces the longest body. -/
theorem fullHead_declares (n k : Nat) : Declares (fullHead n k) (ascii "1048576") where
  present := ⟨_, List.mem_cons_self, by decide⟩
  only f mem named := by
    rcases fullHead_fields mem with rfl | rfl
    · decide
    · rw [show fieldName (97 :: colon :: List.replicate k 97) = [97] from rfl] at named
      exact absurd named (by decide)

/-- Short of one byte of that body the parser still waits. -/
theorem fullHead_waits {body : Bytes} (short : body.length < maxBodySize) :
    Waits ((fullHead n k).bodyParser body) := by
  have verdict := (fullHead_declares n k).bodyVerdict
  rw [show stoull (ascii "1048576") = some maxBodySize by decide] at verdict
  exact .body maxBodySize rfl verdict short

/-- A valid head with all its limits used up is followed by all but one byte of the longest body. -/
theorem fullHead_patient {body : Bytes} (line : n = 8178) (fields : k = 8185)
    (short : body.length + 1 = maxBodySize) :
    ((fullHead n k).text ++ body).length = patience ∧
      (({} : HttpParser).feed ((fullHead n k).text ++ body)).1.Running := by
  have waits : Waits ((fullHead n k).bodyParser body) := fullHead_waits (by omega)
  rw [feed_of_steps fresh_running (Head.steps_body (fullHead_valid line fields) body) (.inr waits)]
  refine ⟨?_, waits.running⟩
  have first := fullHead_line n k
  rw [requestLine_length] at first
  rw [List.length_append, Head.text_length, Head.lines_length, fullHead_total]
  simp only [patience, maxRequestLine, maxTotalHeaders]
  omega

/-- **Patience.** The most bytes that can be fed, in whatever chunks, before the parser has
found the request complete or wrong. -/
theorem patience_exact : IsGreatest
    {n | ∃ chunks : List Bytes, chunks.flatten.length = n ∧ (({} : HttpParser).feedAll chunks).2 = .incomplete}
    1122307 := by
  constructor
  · obtain ⟨body, short⟩ : ∃ body : Bytes, body.length + 1 = maxBodySize :=
      ⟨List.replicate (maxBodySize - 1) 0, by rw [List.length_replicate]; rfl⟩
    obtain ⟨n, line⟩ : ∃ n, n = 8178 := ⟨_, rfl⟩
    obtain ⟨k, fields⟩ : ∃ k, k = 8185 := ⟨_, rfl⟩
    obtain ⟨full, more⟩ := fullHead_patient line fields short
    refine ⟨[_], (congrArg List.length List.flatten_singleton).trans full, ?_⟩
    rw [feedAll_result, feedAll_cons, feedAll_nil]
    exact result_incomplete.2 more
  · rintro n ⟨chunks, rfl, more⟩
    rw [feedAll_result, result_incomplete] at more
    obtain ⟨waits, reads⟩ := feedAll_reads waits_fresh reads_fresh chunks more
    exact reads.patient waits

end HttpParser

end HttpServer
