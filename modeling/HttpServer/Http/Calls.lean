import HttpServer.Http.Chunks

/-!
# Any sequence of calls

A parser is driven by calls of `feed`, `reset` and `error_code` in any order.
`Represents p a` is its representation invariant, where `a` are the bytes fed
since the last reset: what the fields hold in each state, and how many bytes
they can hold (`replay_represents`). A parser that has an outcome keeps it until
it is reset (`replay_done`).
-/

namespace HttpServer

open ListSearch HttpParser

/-- A parser that has read without an error has the code OK. -/
theorem Reads.errorCode {p : HttpParser} {a : Bytes} (r : Reads p a) : p.errorCode = .ok := by
  cases r <;> rfl

namespace HttpParser

/-- A call of a public member function. -/
inductive Call where
  | feed (data : Bytes)
  | reset
  | errorCode

/-- What a call does to the parser. -/
def call (p : HttpParser) : Call → HttpParser
  | .feed data => (p.feed data).1
  | .reset => p.reset
  | .errorCode => p

/-- The parser behind a sequence of calls. -/
def replay (p : HttpParser) (calls : List Call) : HttpParser := calls.foldl call p

/-- The bytes that calls bring since the last reset, `a` before them. -/
def fed (a : Bytes) (calls : List Call) : Bytes :=
  calls.foldl (fun a c => match c with
    | .feed data => a ++ data
    | .reset => []
    | .errorCode => a) a

theorem replay_cons (p : HttpParser) (c : Call) (calls : List Call) :
    p.replay (c :: calls) = (p.call c).replay calls := rfl

/-- The representation invariant. In the header state the bytes are the lines of a head, of which
the fields hold the sizes, and then the buffer. -/
structure Represents (p : HttpParser) (a : Bytes) : Prop where
  requestLine : p.state = .requestLine →
    p.buffer = a ∧ NoCrlf p.buffer ∧ p.buffer.length ≤ 8192
  headers : p.state = .headers → NoCrlf p.buffer ∧
    (∃ h : Head, h.Valid ∧ h.lines ++ p.buffer = a ∧
      p.headersSize = (h.fields.map fun f => f.length + 2).sum ∧ p.headerCount = h.fields.length) ∧
    p.headerCount ≤ 100 ∧ p.request.headers.entries.length ≤ p.headerCount ∧
    p.headersSize + p.buffer.length ≤ 65536
  body : p.state = .body →
    p.buffer.length < p.request.contentLength ∧ p.request.contentLength ≤ 1048576
  errorCode : p.errorCode ≠ .ok ↔ p.state = .error
  done : p.state = .complete ∨ p.state = .error →
    ∀ more, Call.reset ∉ more → p.replay more = p ∧ ∀ data, ((p.replay more).feed data).2 = p.result

/-! ## Outcomes -/

/-- A parser that has an outcome ignores every call but `reset`. -/
theorem replay_done {p : HttpParser} (done : ¬ p.Running) {more : List Call} (no : Call.reset ∉ more) :
    p.replay more = p := by
  induction more with
  | nil => rfl
  | cons c more ih =>
    have rest := ih fun mem => no (List.mem_cons_of_mem c mem)
    rw [replay_cons]
    cases c with
    | feed data => rw [call, feed_done done, rest]
    | reset => exact absurd (List.mem_cons_self) no
    | errorCode => exact rest

/-- Refusing never has the code OK. -/
theorem Refuses.code {q : HttpParser} {c : StatusCode} (h : Refuses q c) : c ≠ .ok := by
  rintro rfl
  cases h with
  | requestLine line rest st buf clean bad =>
    unfold requestLineVerdict at bad
    dsimp only at bad
    repeat' split at bad
    all_goals cases bad
  | header line rest st buf clean ne bad =>
    unfold headerVerdict at bad
    repeat' split at bad
    all_goals cases bad
  | body st bad =>
    unfold bodyVerdict at bad
    repeat' split at bad
    all_goals cases bad

theorem Overflows.code {q : HttpParser} {c : StatusCode} (h : Overflows q c) : c ≠ .ok := by
  cases h with
  | requestLine => simp
  | headers => simp

/-! ## The invariant -/

/-- Where a sequence of calls leaves a fresh parser. -/
inductive Stands (p : HttpParser) (a : Bytes) : Prop
  | waits (w : Waits p) (r : Reads p a)
  | complete (st : p.state = .complete) (code : p.errorCode = .ok)
  | error (st : p.state = .error) (code : p.errorCode ≠ .ok)

theorem stands_fresh : Stands {} [] := .waits waits_fresh reads_fresh

/-- A feed of a waiting parser. -/
theorem stands_feed {p : HttpParser} {a : Bytes} (w : Waits p) (r : Reads p a) (d : Bytes) :
    Stands (p.feed d).1 (a ++ d) := by
  obtain ⟨q, steps, ends⟩ := feed_run w.running d
  have reads : Reads q (a ++ d) := (r.append w.running d).steps steps
  rcases ends with ⟨eq, st⟩ | halts
  · rw [← eq]
    exact .complete st reads.errorCode
  · generalize (p.feed d).1 = s at *
    cases halts with
    | waits w => exact .waits w reads
    | refuses bad err code => exact .error err (code ▸ bad.code)
    | overflows bad err code => exact .error err (code ▸ bad.code)

theorem Stands.call {p : HttpParser} {a : Bytes} (h : Stands p a) (c : Call) :
    Stands (p.call c) (fed a [c]) := by
  cases c with
  | reset => exact stands_fresh
  | errorCode => exact h
  | feed data =>
    cases h with
    | waits w r => exact stands_feed w r data
    | complete st code =>
      rw [HttpParser.call, feed_done (fun run => run.1 st)]
      exact .complete st code
    | error st code =>
      rw [HttpParser.call, feed_done (fun run => run.2 st)]
      exact .error st code

theorem Stands.replay {p : HttpParser} {a : Bytes} (h : Stands p a) (calls : List Call) :
    Stands (p.replay calls) (fed a calls) := by
  induction calls generalizing p a with
  | nil => exact h
  | cons c calls ih => exact ih (h.call c)

/-- Each line brings at most one new entry. -/
theorem entries_headerMap (fs : List Bytes) : (headerMap fs).entries.length ≤ fs.length := by
  induction fs using List.reverseRecOn with
  | nil => exact Nat.le_refl _
  | append_singleton fs f ih =>
    rw [headerMap_snoc, AList.entries_insert, List.length_cons, List.length_append, List.length_singleton]
    exact Nat.succ_le_succ ((List.kerase_sublist _ _).length_le.trans ih)

theorem Stands.represents {p : HttpParser} {a : Bytes} (h : Stands p a) : Represents p a := by
  cases h with
  | complete st code =>
    refine ⟨by simp [st], by simp [st], by simp [st], by simp [st, code], fun _ more no => ?_⟩
    have done : ¬ p.Running := fun run => run.1 st
    exact ⟨replay_done done no, fun data => by rw [replay_done done no, feed_result, feed_done done]⟩
  | error st code =>
    refine ⟨by simp [st], by simp [st], by simp [st], by simp [st, code], fun _ more no => ?_⟩
    have done : ¬ p.Running := fun run => run.2 st
    exact ⟨replay_done done no, fun data => by rw [replay_done done no, feed_result, feed_done done]⟩
  | waits w r =>
    have code := r.errorCode
    have run := w.running
    refine ⟨fun st => ?_, fun st => ?_, fun st => ?_, by simp [code, run.2], ?_⟩
    · cases r with
      | requestLine =>
        cases w with
        | requestLine _ open_ short => exact ⟨rfl, open_, short⟩
        | headers st' => cases st'
        | body n st' => cases st'
      | headers | body | complete => cases st
    · cases r with
      | @headers h v buf =>
        cases w with
        | headers _ open_ short =>
          exact ⟨open_, ⟨h, v, rfl, rfl, rfl⟩, v.few, entries_headerMap h.fields, short⟩
        | requestLine st' => cases st'
        | body n st' => cases st'
      | requestLine | body | complete => cases st
    · cases w with
      | body n _ ok short =>
        obtain ⟨rfl, small, -⟩ := bodyVerdict_ok.1 ok
        exact ⟨short, small⟩
      | requestLine st' => cases st.symm.trans st'
      | headers st' => cases st.symm.trans st'
    · rintro (st | st)
      · exact absurd st run.1
      · exact absurd st run.2

theorem Represents.small {p : HttpParser} {a : Bytes} (h : Represents p a) (run : p.Running) :
    p.buffer.length < 1048576 := by
  cases st : p.state with
  | requestLine =>
    have := (h.requestLine st).2.2
    omega
  | headers =>
    have := (h.headers st).2.2.2.2
    omega
  | body =>
    have := h.body st
    omega
  | complete => exact absurd st run.1
  | error => exact absurd st run.2

/-- **The representation invariant**, and the bound on what an incomplete request holds. -/
theorem replay_represents (calls : List Call) :
    Represents (({} : HttpParser).replay calls) (fed [] calls) ∧
    ∀ data, ((({} : HttpParser).replay calls).feed data).2 = .incomplete →
      ((({} : HttpParser).replay calls).feed data).1.buffer.length < 1048576 := by
  have stands := stands_fresh.replay calls
  refine ⟨stands.represents, fun data more => ?_⟩
  rw [feed_result] at more
  exact (stands.call (.feed data)).represents.small (result_incomplete.1 more)

/-- A request line that arrives in pieces, on a parser that has been reset. -/
theorem replay_midway :
    ((({} : HttpParser).replay [.feed (ascii "GET / "), .reset, .feed (ascii "GET /")]).feed
      (ascii " HT")).1.buffer.length < 1048576 :=
  (replay_represents _).2 _ (by decide +kernel)

end HttpParser

end HttpServer
