import Mathlib.Logic.Relation
import HttpServer.Http.Lines

/-!
# The parser as a line-by-line machine

`Step` is one unit of work that `feed` does on its buffer: the request line, one
header line, the empty line, or the body. Where no step is possible the parser
waits for more bytes (`Waits`), refuses a complete line or header block
(`Refuses`), or finds the line it is still waiting for too long already
(`Overflows`). `feed` performs steps until one of these holds (`feed_run`), and
nothing but the last depends on bytes that have not arrived yet.
-/

namespace HttpServer

open ListSearch

namespace HttpParser

/-- The parser with more bytes in its buffer. -/
def append (p : HttpParser) (d : Bytes) : HttpParser := { p with buffer := p.buffer ++ d }

@[simp] theorem append_buffer (p : HttpParser) (d : Bytes) : (p.append d).buffer = p.buffer ++ d := rfl
@[simp] theorem append_state (p : HttpParser) (d : Bytes) : (p.append d).state = p.state := rfl
@[simp] theorem append_request (p : HttpParser) (d : Bytes) : (p.append d).request = p.request := rfl
@[simp] theorem append_headersSize (p : HttpParser) (d : Bytes) :
    (p.append d).headersSize = p.headersSize := rfl
@[simp] theorem append_headerCount (p : HttpParser) (d : Bytes) :
    (p.append d).headerCount = p.headerCount := rfl
@[simp] theorem append_append (p : HttpParser) (a b : Bytes) :
    (p.append a).append b = p.append (a ++ b) := by simp [append]
@[simp] theorem append_nil (p : HttpParser) : p.append [] = p := by simp [append]

@[simp] theorem fail_state (p : HttpParser) (c : StatusCode) : (p.fail c).state = .error := rfl
@[simp] theorem fail_errorCode (p : HttpParser) (c : StatusCode) : (p.fail c).errorCode = c := rfl

/-- The parser still takes bytes. -/
def Running (p : HttpParser) : Prop := p.state ≠ .complete ∧ p.state ≠ .error

/-- One unit of parsing work on bytes that have arrived. -/
inductive Step : HttpParser → HttpParser → Prop
  | requestLine {p : HttpParser} {line rest m t : Bytes} (st : p.state = .requestLine)
      (buf : p.buffer = line ++ crlf ++ rest) (clean : NoCrlf line)
      (ok : requestLineVerdict line = .ok (m, t)) :
      Step p { p with
        request := { p.request with method := m, target := t, version := httpVersion }
        buffer := rest
        state := .headers }
  | header {p : HttpParser} {line rest n v : Bytes} (st : p.state = .headers)
      (buf : p.buffer = line ++ crlf ++ rest) (clean : NoCrlf line) (ne : line ≠ [])
      (ok : headerVerdict p.headersSize p.headerCount line = .ok (n, v)) :
      Step p { p with
        request := { p.request with headers := p.request.headers.insert n v }
        headersSize := p.headersSize + (line.length + 2)
        headerCount := p.headerCount + 1
        buffer := rest }
  | blank {p : HttpParser} {rest : Bytes} (st : p.state = .headers) (buf : p.buffer = crlf ++ rest) :
      Step p { p with buffer := rest, state := .body }
  | body {p : HttpParser} {n : Nat} (st : p.state = .body) (ok : bodyVerdict p.request = .ok n)
      (enough : n ≤ p.buffer.length) :
      Step p { p with
        request := { p.request with body := p.buffer.take n }
        buffer := p.buffer.drop n
        state := .complete }

/-- A complete line or header block is refused with code `c`. -/
inductive Refuses (p : HttpParser) (c : StatusCode) : Prop
  | requestLine (line rest : Bytes) (st : p.state = .requestLine)
      (buf : p.buffer = line ++ crlf ++ rest) (clean : NoCrlf line)
      (bad : requestLineVerdict line = .error c)
  | header (line rest : Bytes) (st : p.state = .headers) (buf : p.buffer = line ++ crlf ++ rest)
      (clean : NoCrlf line) (ne : line ≠ [])
      (bad : headerVerdict p.headersSize p.headerCount line = .error c)
  | body (st : p.state = .body) (bad : bodyVerdict p.request = .error c)

/-- The line still to come is too long whatever it turns out to be. -/
inductive Overflows (p : HttpParser) : StatusCode → Prop
  | requestLine (st : p.state = .requestLine) (open_ : NoCrlf p.buffer)
      (long : maxRequestLine < p.buffer.length) : Overflows p .uriTooLong
  | headers (st : p.state = .headers) (open_ : NoCrlf p.buffer)
      (long : maxTotalHeaders < p.headersSize + p.buffer.length) : Overflows p .headerFieldsTooLarge

/-- Nothing can be done before more bytes arrive. -/
inductive Waits (p : HttpParser) : Prop
  | requestLine (st : p.state = .requestLine) (open_ : NoCrlf p.buffer)
      (short : p.buffer.length ≤ maxRequestLine)
  | headers (st : p.state = .headers) (open_ : NoCrlf p.buffer)
      (short : p.headersSize + p.buffer.length ≤ maxTotalHeaders)
  | body (n : Nat) (st : p.state = .body) (ok : bodyVerdict p.request = .ok n)
      (short : p.buffer.length < n)

abbrev Steps : HttpParser → HttpParser → Prop := Relation.ReflTransGen Step

/-- What a parse function leaves behind when it starts in `q` and makes no further step:
`q` itself while it waits, or an error with the code of the failed test. -/
inductive Halts (q : HttpParser) : HttpParser → Prop
  | waits (h : Waits q) : Halts q q
  | refuses {p : HttpParser} {c : StatusCode} (h : Refuses q c) (st : p.state = .error)
      (code : p.errorCode = c) : Halts q p
  | overflows {p : HttpParser} {c : StatusCode} (h : Overflows q c) (st : p.state = .error)
      (code : p.errorCode = c) : Halts q p

theorem Waits.running {p : HttpParser} (h : Waits p) : p.Running := by
  cases h with
  | requestLine st => simp [Running, st]
  | headers st => simp [Running, st]
  | body n st => simp [Running, st]

/-- Only a running parser takes steps. -/
theorem Step.running {p p' : HttpParser} (h : Step p p') : p.Running := by
  cases h with
  | requestLine st => simp [Running, st]
  | header st => simp [Running, st]
  | blank st => simp [Running, st]
  | body st => simp [Running, st]

/-! ## The parse functions -/

/-- The methods that are known are four. -/
theorem not_mem_methods {m : Bytes} : m ∉ methods ↔
    m ≠ ascii "GET" ∧ m ≠ ascii "HEAD" ∧ m ≠ ascii "POST" ∧ m ≠ ascii "DELETE" := by
  simp [methods]

/-- `parse_request_line` on a complete line follows its verdict. -/
theorem parseRequestLine_line {p : HttpParser} {line rest : Bytes}
    (buf : p.buffer = line ++ crlf ++ rest) (clean : NoCrlf line) :
    match requestLineVerdict line with
    | .error c => p.parseRequestLine.state = .error ∧ p.parseRequestLine.errorCode = c
    | .ok (m, t) => p.parseRequestLine = { p with
        request := { p.request with method := m, target := t, version := httpVersion }
        buffer := rest
        state := .headers } := by
  have front : p.buffer.take line.length = line := by simp [buf]
  have back : p.buffer.drop (line.length + 2) = rest := by
    rw [buf]; exact List.drop_left' (by simp [crlf])
  unfold parseRequestLine requestLineVerdict
  rw [show find crlf p.buffer = some line.length by rw [buf]; exact find_crlf clean]
  simp only [front, back]
  by_cases long : maxRequestLine < line.length
  · simp [long]
  simp only [if_neg long]
  cases find [sp] line with
  | none => simp
  | some mEnd =>
    dsimp only
    cases findFrom [sp] line (mEnd + 1) with
    | none => simp
    | some tEnd =>
      dsimp only
      simp only [← not_mem_methods]
      by_cases known : line.take mEnd ∉ methods
      · simp [known]
      simp only [if_neg known]
      by_cases first : ((line.drop (mEnd + 1)).take (tEnd - mEnd - 1)).head? ≠ some slash
      · simp [first]
      simp only [if_neg first]
      rw [show ascii "HTTP/1.1" = httpVersion from rfl]
      by_cases version : line.drop (tEnd + 1) = httpVersion
      · simp [version]
      · simp [version]

/-- `parse_request_line` takes the step over its line, or halts as it should. -/
theorem parseRequestLine_spec {p : HttpParser} (st : p.state = .requestLine) :
    Step p p.parseRequestLine ∧ p.parseRequestLine.state = .headers ∨ Halts p p.parseRequestLine := by
  cases h : find crlf p.buffer with
  | none =>
    have open_ := find_crlf_none.1 h
    right
    by_cases long : maxRequestLine < p.buffer.length
    · have code : p.parseRequestLine = p.fail .uriTooLong := by simp [parseRequestLine, h, long]
      rw [code]
      exact .overflows (.requestLine st open_ long) rfl rfl
    · have same : p.parseRequestLine = p := by simp [parseRequestLine, h, long]
      rw [same]
      exact .waits (.requestLine st open_ (Nat.not_lt.1 long))
  | some pos =>
    obtain ⟨line, rest, buf, -, clean⟩ := split_crlf h
    have spec := parseRequestLine_line buf clean
    cases v : requestLineVerdict line with
    | error c =>
      simp only [v] at spec
      exact .inr (.refuses (.requestLine line rest st buf clean v) spec.1 spec.2)
    | ok mt =>
      simp only [v] at spec
      rw [spec]
      exact .inl ⟨.requestLine st buf clean v, rfl⟩

/-- A name is refused for the same reason whether it is searched or listed. -/
theorem find_colon {line : Bytes} {k : Nat} (h : find [colon] line = some k) :
    line.take k = fieldName line ∧ line.drop (k + 1) = fieldValue line ∧ colon ∈ line := by
  obtain ⟨a, b, rfl, rfl, clean⟩ := find_char_split h
  have all : ∀ x ∈ a, (x != colon) = true := by
    intro x hx
    simp only [bne_iff_ne]
    rintro rfl
    exact clean hx
  refine ⟨?_, ?_, by simp⟩
  · simp [fieldName, List.takeWhile_append_of_pos all]
  · simp [fieldValue, List.dropWhile_append_of_pos all, List.drop_append]

/-- One round of `parse_headers` on a complete non-empty line follows its verdict. -/
theorem parseHeaderLine_line {p : HttpParser} {line rest : Bytes}
    (buf : p.buffer = line ++ crlf ++ rest) (clean : NoCrlf line) (ne : line ≠ []) :
    match headerVerdict p.headersSize p.headerCount line with
    | .error c => ∃ p', p.parseHeaderLine = .inl p' ∧ p'.state = .error ∧ p'.errorCode = c
    | .ok (n, v) => p.parseHeaderLine = .inr { p with
        request := { p.request with headers := p.request.headers.insert n v }
        headersSize := p.headersSize + (line.length + 2)
        headerCount := p.headerCount + 1
        buffer := rest } := by
  have front : p.buffer.take line.length = line := by simp [buf]
  have back : p.buffer.drop (line.length + 2) = rest := by
    rw [buf]; exact List.drop_left' (by simp [crlf])
  unfold parseHeaderLine headerVerdict
  rw [show find crlf p.buffer = some line.length by rw [buf]; exact find_crlf clean]
  simp only [front, back, List.length_eq_zero_iff, if_neg ne]
  by_cases long : maxHeaderSize < line.length
  · simp [long]
  simp only [if_neg long]
  by_cases many : maxHeaderCount ≤ p.headerCount
  · simp [many]
  simp only [if_neg many]
  by_cases total : maxTotalHeaders < p.headersSize + (line.length + 2)
  · simp [total]
  simp only [if_neg total]
  cases h : find [colon] line with
  | none => simp [find_char_none.1 h]
  | some k =>
    obtain ⟨name, value, mem⟩ := find_colon h
    simp only [name, value, mem, not_true_eq_false, if_false, trim_eq_strip]
    cases hs : find [sp] (fieldName line) with
    | none => simp [find_char_none.1 hs]
    | some j =>
      have space : sp ∈ fieldName line := by
        by_contra no
        rw [find_char_none.2 no] at hs
        cases hs
      simp [space]

/-- One turn of the loop in `parse_headers`: a field, the bare line end or a halt. -/
theorem parseHeaderLine_spec {p : HttpParser} (st : p.state = .headers) :
    (∃ p', p.parseHeaderLine = .inr p' ∧ Step p p' ∧ p'.state = .headers) ∨
    (∃ p', p.parseHeaderLine = .inl p' ∧ (Step p p' ∧ p'.state = .body ∨ Halts p p')) := by
  cases h : find crlf p.buffer with
  | none =>
    have open_ := find_crlf_none.1 h
    right
    by_cases long : maxTotalHeaders < p.headersSize + p.buffer.length
    · exact ⟨p.fail .headerFieldsTooLarge, by simp [parseHeaderLine, h, long],
        .inr (.overflows (.headers st open_ long) rfl rfl)⟩
    · exact ⟨p, by simp [parseHeaderLine, h, long],
        .inr (.waits (.headers st open_ (Nat.not_lt.1 long)))⟩
  | some pos =>
    obtain ⟨line, rest, buf, len, clean⟩ := split_crlf h
    by_cases empty : line = []
    · subst empty
      right
      refine ⟨{ p with buffer := rest, state := .body }, ?_, .inl ⟨.blank st (by simpa using buf), rfl⟩⟩
      have back : p.buffer.drop 2 = rest := by rw [buf]; rfl
      simp [parseHeaderLine, h, ← len, back]
    · have spec := parseHeaderLine_line buf clean empty
      cases v : headerVerdict p.headersSize p.headerCount line with
      | error c =>
        simp only [v] at spec
        obtain ⟨p', eq, err, code⟩ := spec
        exact .inr ⟨p', eq, .inr (.refuses (.header line rest st buf clean empty v) err code)⟩
      | ok nv =>
        simp only [v] at spec
        exact .inl ⟨_, spec, .header st buf clean empty v, st⟩

/-- A header round erases its line from the buffer. -/
theorem parseHeaderLine_decreases : Loop.Decreases parseHeaderLine fun p => p.buffer.length := by
  intro p p' h
  unfold parseHeaderLine at h
  cases found : find crlf p.buffer with
  | none =>
    simp only [found] at h
    split at h <;> cases h
  | some pos =>
    have bound := find_bound crlf_ne_nil found
    simp only [found] at h
    repeat' split at h
    all_goals cases h
    simp only [List.length_drop, crlf, List.length_cons, List.length_nil] at *
    omega

/-- `parse_headers` takes the steps over all fields that are there. -/
theorem parseHeaders_spec {p : HttpParser} (st : p.state = .headers) :
    ∃ q, Steps p q ∧ (q = p.parseHeaders ∧ q.state = .body ∨
      Halts q p.parseHeaders ∧ q.state = .headers) := by
  refine Loop.run_rule parseHeaderLine_decreases (P := fun s => Steps p s ∧ s.state = .headers)
    (Q := fun r => ∃ q, Steps p q ∧ (q = r ∧ q.state = .body ∨ Halts q r ∧ q.state = .headers))
    ?_ ?_ ⟨.refl, st⟩
  · rintro s s' ⟨run, hs⟩ leave
    rcases parseHeaderLine_spec hs with ⟨r, go, -, -⟩ | ⟨r, stop, ⟨step, body⟩ | halts⟩
    · rw [go] at leave; cases leave
    · rw [stop] at leave; cases leave
      exact ⟨_, run.tail step, .inl ⟨rfl, body⟩⟩
    · rw [stop] at leave; cases leave
      exact ⟨s, run, .inr ⟨halts, hs⟩⟩
  · rintro s s' ⟨run, hs⟩ again
    rcases parseHeaderLine_spec hs with ⟨r, go, step, hr⟩ | ⟨r, stop, -⟩
    · rw [go] at again; cases again
      exact ⟨run.tail step, hr⟩
    · rw [stop] at again; cases again

/-- `parse_body` takes the step over the whole body, or halts as it should. -/
theorem parseBody_spec {p : HttpParser} (st : p.state = .body) :
    Step p p.parseBody ∧ p.parseBody.state = .complete ∨ Halts p p.parseBody := by
  by_cases large : maxBodySize < p.request.contentLength
  · right
    have eq : p.parseBody = p.fail .payloadTooLarge := by simp [parseBody, large]
    rw [eq]
    exact .refuses (.body st (by simp [bodyVerdict, large])) rfl rfl
  by_cases undeclared :
      p.request.method = ascii "POST" ∧ ¬ p.request.hasHeader (ascii "content-length")
  · right
    have eq : p.parseBody = p.fail .badRequest := by
      simp only [parseBody, if_neg large, if_pos undeclared]
    rw [eq]
    have bad : bodyVerdict p.request = .error .badRequest := by
      simp only [bodyVerdict, if_neg large, if_pos undeclared]
    exact .refuses (.body st bad) rfl rfl
  have ok : bodyVerdict p.request = .ok p.request.contentLength := by
    simp only [bodyVerdict, if_neg large, if_neg undeclared]
  by_cases enough : p.request.contentLength ≤ p.buffer.length
  · left
    have eq : p.parseBody = { p with
        request := { p.request with body := p.buffer.take p.request.contentLength }
        buffer := p.buffer.drop p.request.contentLength
        state := .complete } := by
      simp only [parseBody, if_neg large, if_neg undeclared, if_pos enough]
    rw [eq]
    exact ⟨.body st ok enough, rfl⟩
  · right
    have eq : p.parseBody = p := by
      simp only [parseBody, if_neg large, if_neg undeclared, if_neg enough]
    rw [eq]
    exact .waits (.body _ st ok (Nat.not_le.1 enough))

/-- One dispatch of `feed`: steps into a later state, or a halt in the state it started from. -/
theorem parseStep_spec {p : HttpParser} (run : p.Running) :
    ∃ q, Steps p q ∧ (q = p.parseStep ∧ q.rank < p.rank ∧ q.state ≠ .error ∨
      Halts q p.parseStep ∧ q.state = p.state) := by
  cases st : p.state with
  | requestLine =>
    simp only [parseStep, st]
    rcases parseRequestLine_spec st with ⟨step, next⟩ | halts
    · exact ⟨_, .single step, .inl ⟨rfl, by simp [rank, st, next], by simp [next]⟩⟩
    · exact ⟨p, .refl, .inr ⟨halts, st⟩⟩
  | headers =>
    simp only [parseStep, st]
    obtain ⟨q, steps, ⟨eq, next⟩ | ⟨halts, same⟩⟩ := parseHeaders_spec st
    · exact ⟨q, steps, .inl ⟨eq, by simp [rank, st, next], by simp [next]⟩⟩
    · exact ⟨q, steps, .inr ⟨halts, same⟩⟩
  | body =>
    simp only [parseStep, st]
    rcases parseBody_spec st with ⟨step, next⟩ | halts
    · exact ⟨_, .single step, .inl ⟨rfl, by simp [rank, st, next], by simp [next]⟩⟩
    · exact ⟨p, .refl, .inr ⟨halts, st⟩⟩
  | complete => exact absurd st run.1
  | error => exact absurd st run.2

theorem rank_error {p : HttpParser} (h : p.state = .error) : p.rank = 0 := by simp [rank, h]

/-- A running parser has a phase ahead. -/
theorem Running.rank_pos {p : HttpParser} (h : p.Running) : 0 < p.rank := by
  unfold rank
  split
  all_goals simp_all [Running]

/-- A round of `feed` goes on exactly when the state has changed. -/
theorem feedRound_running {p : HttpParser} (run : p.Running) :
    p.feedRound = if p.parseStep.state = p.state then .inl p.parseStep else .inr p.parseStep := by
  unfold feedRound
  rw [if_neg (by rintro (h | h); exacts [run.1 h, run.2 h])]

/-- `feed` leaves its loop once there is a verdict. -/
theorem feedRound_done {p : HttpParser} (done : ¬ p.Running) : p.feedRound = .inl p := by
  unfold feedRound
  rw [if_pos]
  simp only [Running] at done
  tauto

/-- A round of `feed` that goes on has moved to a later state. -/
theorem feedRound_decreases : Loop.Decreases feedRound rank := by
  intro p p' h
  by_cases run : p.Running
  · rw [feedRound_running run] at h
    split at h
    · cases h
    rename_i moved
    cases h
    obtain ⟨q, -, ⟨rfl, less, -⟩ | ⟨halts, same⟩⟩ := parseStep_spec run
    · exact less
    · cases halts with
      | waits _ => exact absurd same moved
      | refuses _ err _ => rw [rank_error err]; exact run.rank_pos
      | overflows _ err _ => rw [rank_error err]; exact run.rank_pos
  · rw [feedRound_done run] at h
    cases h

/-- Where `feed` leaves the parser: it has made steps to `q` and then is `q`, with the request
complete, or halts at `q`. -/
def Ends (q r : HttpParser) : Prop := q = r ∧ q.state = .complete ∨ Halts q r

/-- `feed` makes the steps its bytes allow. -/
theorem feed_run {p : HttpParser} (run : p.Running) (d : Bytes) :
    ∃ q, Steps (p.append d) q ∧ Ends q (p.feed d).1 := by
  have eq : (p.feed d).1 = Loop.run feedRound rank (p.append d) := by
    simp only [feed, if_neg run.1, if_neg run.2]
    rfl
  rw [eq]
  refine Loop.run_rule feedRound_decreases
    (P := fun s => ∃ q, Steps (p.append d) q ∧
      (q = s ∧ s.state ≠ .error ∨ Halts q s ∧ s.state = .error))
    (Q := fun r => ∃ q, Steps (p.append d) q ∧ Ends q r) ?_ ?_ ⟨_, .refl, .inl ⟨rfl, run.2⟩⟩
  · rintro s s' ⟨q, steps, ⟨rfl, live⟩ | ⟨halts, err⟩⟩ leave
    · by_cases more : q.Running
      · rw [feedRound_running more] at leave
        split at leave
        · rename_i same
          cases leave
          obtain ⟨q', steps', ⟨rfl, less, -⟩ | ⟨halts, -⟩⟩ := parseStep_spec more
          · simp [rank, same] at less
          · exact ⟨q', steps.trans steps', .inr halts⟩
        · cases leave
      · rw [feedRound_done more] at leave
        cases leave
        refine ⟨_, steps, .inl ⟨rfl, ?_⟩⟩
        simp only [Running] at more
        tauto
    · rw [feedRound_done (fun h => h.2 err)] at leave
      cases leave
      exact ⟨q, steps, .inr halts⟩
  · rintro s s' ⟨q, steps, ⟨rfl, live⟩ | ⟨halts, err⟩⟩ again
    · by_cases more : q.Running
      · rw [feedRound_running more] at again
        split at again
        · cases again
        rename_i moved
        cases again
        obtain ⟨q', steps', ⟨rfl, -, ok⟩ | ⟨halts, same⟩⟩ := parseStep_spec more
        · exact ⟨_, steps.trans steps', .inl ⟨rfl, ok⟩⟩
        · refine ⟨q', steps.trans steps', .inr ⟨halts, ?_⟩⟩
          cases halts with
          | waits _ => exact absurd same moved
          | refuses _ err _ => exact err
          | overflows _ err _ => exact err
      · rw [feedRound_done more] at again
        cases again
    · rw [feedRound_done (fun h => h.2 err)] at again
      cases again

end HttpParser

end HttpServer
