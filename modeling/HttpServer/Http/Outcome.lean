import HttpServer.Http.Steps

/-!
# The outcome of a feed

Steps are deterministic and a halting parser makes none, so the parser a run of
steps ends in is unique. Everything later modules need about `feed` follows
from `feed_of_steps` and `verdict_of_steps`: exhibit the steps and how the last
parser settles. A step, and a refusal, stays what it is when more bytes are
appended (`Step.append`, `Refuses.append`); an overflow need not.
-/

namespace HttpServer

open ListSearch

/-- What a parser has to report. -/
inductive Verdict where
  | incomplete
  | complete (r : Request)
  | error (c : StatusCode)
  deriving DecidableEq

namespace HttpParser

def verdict (p : HttpParser) : Verdict :=
  match p.state with
  | .complete => .complete p.request
  | .error => .error p.errorCode
  | _ => .incomplete

/-- How a parser without a further step settles. -/
inductive Settles (q : HttpParser) : Verdict → Prop
  | complete (st : q.state = .complete) : Settles q (.complete q.request)
  | waits (h : Waits q) : Settles q .incomplete
  | refuses {c : StatusCode} (h : Refuses q c) : Settles q (.error c)
  | overflows {c : StatusCode} (h : Overflows q c) : Settles q (.error c)

/-- The verdict is read off the state, with the request that has been parsed. -/
theorem verdict_complete {p : HttpParser} {q : Request} :
    p.verdict = .complete q ↔ p.state = .complete ∧ p.request = q := by
  unfold verdict
  split <;> simp_all

/-- The code is the one of the error state. -/
theorem verdict_error {p : HttpParser} {c : StatusCode} :
    p.verdict = .error c ↔ p.state = .error ∧ p.errorCode = c := by
  unfold verdict
  split <;> simp_all

/-- Nothing has been said while the parser runs. -/
theorem verdict_incomplete {p : HttpParser} : p.verdict = .incomplete ↔ p.Running := by
  unfold verdict
  split <;> simp_all [Running]

/-- Where `feed` leaves the parser tells how it settles. -/
theorem Ends.settles {q r : HttpParser} (h : Ends q r) : Settles q r.verdict := by
  rcases h with ⟨rfl, st⟩ | halts
  · rw [show q.verdict = .complete q.request by simp [verdict, st]]
    exact .complete st
  · cases halts with
    | waits w => rw [verdict_incomplete.2 w.running]; exact .waits w
    | refuses bad err code =>
      rw [show r.verdict = .error r.errorCode by simp [verdict, err], code]
      exact .refuses bad
    | overflows bad err code =>
      rw [show r.verdict = .error r.errorCode by simp [verdict, err], code]
      exact .overflows bad

/-! ## Uniqueness -/

/-- A text with a line end in it is not an open line. -/
theorem noCrlf_append_false {line rest : Bytes} (h : NoCrlf (line ++ crlf ++ rest)) : False :=
  h ⟨line, rest, by simp⟩

theorem noCrlf_crlf_false {rest : Bytes} (h : NoCrlf (crlf ++ rest)) : False :=
  h ⟨[], rest, by simp⟩

/-- A line before the line end of a buffer that starts with one is empty. -/
theorem blank_line {line rest rest' : Bytes} (clean : NoCrlf line)
    (eq : line ++ crlf ++ rest = crlf ++ rest') : line = [] ∧ rest = rest' :=
  crlf_split_unique clean (by decide) (by simpa using eq)

/-- The parser leaves no choice: a step is determined by the state and the buffer. -/
theorem Step.unique {p a b : HttpParser} (ha : Step p a) (hb : Step p b) : a = b := by
  cases ha with
  | requestLine st buf clean ok =>
    cases hb with
    | requestLine st' buf' clean' ok' =>
      obtain ⟨rfl, rfl⟩ := crlf_split_unique clean clean' (buf.symm.trans buf')
      rw [ok] at ok'; cases ok'; rfl
    | header st' | blank st' | body st' => cases st.symm.trans st'
  | header st buf clean ne ok =>
    cases hb with
    | requestLine st' => cases st.symm.trans st'
    | header st' buf' clean' ne' ok' =>
      obtain ⟨rfl, rfl⟩ := crlf_split_unique clean clean' (buf.symm.trans buf')
      rw [ok] at ok'; cases ok'; rfl
    | blank st' buf' => exact absurd (blank_line clean (buf.symm.trans buf')).1 ne
    | body st' => cases st.symm.trans st'
  | blank st buf =>
    cases hb with
    | requestLine st' => cases st.symm.trans st'
    | header st' buf' clean' ne' => exact absurd (blank_line clean' (buf'.symm.trans buf)).1 ne'
    | blank st' buf' =>
      have same := List.append_cancel_left (buf.symm.trans buf')
      rw [same]
    | body st' => cases st.symm.trans st'
  | body st ok enough =>
    cases hb with
    | requestLine st' | header st' | blank st' => cases st.symm.trans st'
    | body st' ok' => rw [ok] at ok'; cases ok'; rfl

/-- Before the body a step needs a whole line. -/
theorem Step.line_arrived {p p' : HttpParser} (h : Step p p') (st : p.state ≠ .body) :
    ¬ NoCrlf p.buffer := by
  intro clean
  cases h with
  | requestLine _ buf => exact noCrlf_append_false (buf ▸ clean)
  | header _ buf => exact noCrlf_append_false (buf ▸ clean)
  | blank _ buf => exact noCrlf_crlf_false (buf ▸ clean)
  | body st' => exact st st'

/-- The step over a request line is one over a line that passes every check. -/
theorem Step.requestLine_ok {p p' : HttpParser} {line rest : Bytes} (h : Step p p')
    (st : p.state = .requestLine) (buf : p.buffer = line ++ crlf ++ rest) (clean : NoCrlf line) :
    ∃ mt, requestLineVerdict line = .ok mt := by
  cases h with
  | requestLine _ buf' clean' ok =>
    obtain ⟨rfl, -⟩ := crlf_split_unique clean clean' (buf.symm.trans buf')
    exact ⟨_, ok⟩
  | header st' | blank st' | body st' => cases st.symm.trans st'

/-- So is the step over a header line. -/
theorem Step.header_ok {p p' : HttpParser} {line rest : Bytes} (h : Step p p')
    (st : p.state = .headers) (buf : p.buffer = line ++ crlf ++ rest) (clean : NoCrlf line)
    (ne : line ≠ []) : ∃ nv, headerVerdict p.headersSize p.headerCount line = .ok nv := by
  cases h with
  | requestLine st' => cases st.symm.trans st'
  | header _ buf' clean' _ ok =>
    obtain ⟨rfl, -⟩ := crlf_split_unique clean clean' (buf.symm.trans buf')
    exact ⟨_, ok⟩
  | blank _ buf' => exact absurd (blank_line clean (buf.symm.trans buf')).1 ne
  | body st' => cases st.symm.trans st'

/-- The step over a body finds a length that is allowed, and all of the body. -/
theorem Step.body_ok {p p' : HttpParser} (h : Step p p') (st : p.state = .body) :
    ∃ n, bodyVerdict p.request = .ok n ∧ n ≤ p.buffer.length := by
  cases h with
  | requestLine st' | header st' | blank st' => cases st.symm.trans st'
  | body _ ok enough => exact ⟨_, ok, enough⟩

/-- Whoever waits for more bytes takes no step. -/
theorem Waits.no_step {q p : HttpParser} (w : Waits q) (step : Step q p) : False := by
  cases w with
  | requestLine st open_ => exact step.line_arrived (by simp [st]) open_
  | headers st open_ => exact step.line_arrived (by simp [st]) open_
  | body n st ok short =>
    obtain ⟨m, ok', enough⟩ := step.body_ok st
    rw [ok] at ok'; cases ok'
    omega

/-- A line that is too long before it ends is not stepped over. -/
theorem Overflows.no_step {q p : HttpParser} {c : StatusCode} (o : Overflows q c)
    (step : Step q p) : False := by
  cases o with
  | requestLine st open_ => exact step.line_arrived (by simp [st]) open_
  | headers st open_ => exact step.line_arrived (by simp [st]) open_

/-- A line, or a body, that is refused is not stepped over. -/
theorem Refuses.no_step {q p : HttpParser} {c : StatusCode} (bad : Refuses q c)
    (step : Step q p) : False := by
  cases bad with
  | requestLine line rest st buf clean no =>
    obtain ⟨mt, ok⟩ := step.requestLine_ok st buf clean
    rw [ok] at no; cases no
  | header line rest st buf clean ne no =>
    obtain ⟨nv, ok⟩ := step.header_ok st buf clean ne
    rw [ok] at no; cases no
  | body st no =>
    obtain ⟨n, ok, -⟩ := step.body_ok st
    rw [ok] at no; cases no

/-- A parser that settles makes no step. -/
theorem Settles.no_step {q p : HttpParser} {v : Verdict} (h : Settles q v) : ¬ Step q p := by
  intro step
  cases h with
  | complete st => exact step.running.1 st
  | waits w => exact w.no_step step
  | refuses bad => exact bad.no_step step
  | overflows o => exact o.no_step step

/-- Only an open line can be too long before it ends. -/
theorem Overflows.noCrlf {q : HttpParser} {c : StatusCode} (h : Overflows q c) :
    NoCrlf q.buffer ∧ q.state ≠ .body := by
  cases h with
  | requestLine st open_ => exact ⟨open_, by simp [st]⟩
  | headers st open_ => exact ⟨open_, by simp [st]⟩

/-- A refused line is complete. -/
theorem Refuses.line_arrived {q : HttpParser} {c : StatusCode} (h : Refuses q c)
    (st : q.state ≠ .body) : ¬ NoCrlf q.buffer := by
  intro clean
  cases h with
  | requestLine line rest _ buf => exact noCrlf_append_false (buf ▸ clean)
  | header line rest _ buf => exact noCrlf_append_false (buf ▸ clean)
  | body st' => exact st st'

/-- A line is refused when it is whole, and overflows while it is open. -/
theorem Overflows.not_refuses {q : HttpParser} {c d : StatusCode} (h : Overflows q c)
    (bad : Refuses q d) : False :=
  bad.line_arrived h.noCrlf.2 h.noCrlf.1

/-- Whoever waits is below the limit. -/
theorem Waits.not_overflows {q : HttpParser} {c : StatusCode} (w : Waits q) (h : Overflows q c) :
    False := by
  cases w with
  | requestLine st open_ short => cases h with
    | requestLine _ _ long => omega
    | headers st' => cases st.symm.trans st'
  | headers st open_ short => cases h with
    | requestLine st' => cases st.symm.trans st'
    | headers _ _ long => omega
  | body n st => exact h.noCrlf.2 st

/-- Whoever waits has nothing whole in the buffer to refuse. -/
theorem Waits.not_refuses {q : HttpParser} {c : StatusCode} (w : Waits q) (h : Refuses q c) :
    False := by
  cases w with
  | requestLine st open_ => exact h.line_arrived (by simp [st]) open_
  | headers st open_ => exact h.line_arrived (by simp [st]) open_
  | body n st ok => cases h with
    | requestLine line rest st' | header line rest st' => cases st.symm.trans st'
    | body _ bad => rw [ok] at bad; cases bad

/-- The code of a refusal is determined. -/
theorem Refuses.unique {q : HttpParser} {c d : StatusCode} (h : Refuses q c) (h' : Refuses q d) :
    c = d := by
  cases h with
  | requestLine line rest st buf clean bad => cases h' with
    | requestLine line' rest' _ buf' clean' bad' =>
      obtain ⟨rfl, -⟩ := crlf_split_unique clean clean' (buf.symm.trans buf')
      rw [bad] at bad'; cases bad'; rfl
    | header line' rest' st' | body st' => cases st.symm.trans st'
  | header line rest st buf clean ne bad => cases h' with
    | requestLine line' rest' st' => cases st.symm.trans st'
    | header line' rest' _ buf' clean' _ bad' =>
      obtain ⟨rfl, -⟩ := crlf_split_unique clean clean' (buf.symm.trans buf')
      rw [bad] at bad'; cases bad'; rfl
    | body st' => cases st.symm.trans st'
  | body st bad => cases h' with
    | requestLine line' rest' st' | header line' rest' st' => cases st.symm.trans st'
    | body _ bad' => rw [bad] at bad'; cases bad'; rfl

/-- So is the code of an overflow. -/
theorem Overflows.unique {q : HttpParser} {c d : StatusCode} (h : Overflows q c)
    (h' : Overflows q d) : c = d := by
  cases h <;> cases h' <;> simp_all

theorem Refuses.running {q : HttpParser} {c : StatusCode} (h : Refuses q c) : q.Running := by
  cases h with
  | requestLine line rest st => simp [Running, st]
  | header line rest st => simp [Running, st]
  | body st => simp [Running, st]

theorem Overflows.running {q : HttpParser} {c : StatusCode} (h : Overflows q c) : q.Running := by
  cases h with
  | requestLine st => simp [Running, st]
  | headers st => simp [Running, st]

/-- There is one verdict to settle on. -/
theorem Settles.unique {q : HttpParser} {v w : Verdict} (hv : Settles q v) (hw : Settles q w) :
    v = w := by
  cases hv with
  | complete st => cases hw with
    | complete => rfl
    | waits h => exact absurd st h.running.1
    | refuses h => exact absurd st h.running.1
    | overflows h => exact absurd st h.running.1
  | waits h => cases hw with
    | complete st => exact absurd st h.running.1
    | waits => rfl
    | refuses h' => exact (h.not_refuses h').elim
    | overflows h' => exact (h.not_overflows h').elim
  | refuses h => cases hw with
    | complete st => exact absurd st h.running.1
    | waits h' => exact (h'.not_refuses h).elim
    | refuses h' => rw [h.unique h']
    | overflows h' => exact (h'.not_refuses h).elim
  | overflows h => cases hw with
    | complete st => exact absurd st h.running.1
    | waits h' => exact (h'.not_overflows h).elim
    | refuses h' => exact (h.not_refuses h').elim
    | overflows h' => rw [h.unique h']

/-- Two runs of steps that settle end in the same parser. -/
theorem settled_unique {p q q' : HttpParser} {v w : Verdict} (run : Steps p q) (run' : Steps p q')
    (hv : Settles q v) (hw : Settles q' w) : q = q' := by
  have single : Relator.RightUnique Step := fun _ _ _ => Step.unique
  rcases Relation.ReflTransGen.total_of_right_unique single run run' with more | more
  · rcases more.cases_head with rfl | ⟨r, step, -⟩
    · rfl
    · exact (hv.no_step step).elim
  · rcases more.cases_head with rfl | ⟨r, step, -⟩
    · rfl
    · exact (hw.no_step step).elim

/-! ## Reading off `feed` -/

/-- The verdict of a feed is that of the parser its steps settle in. -/
theorem verdict_of_steps {p q : HttpParser} {d : Bytes} {v : Verdict} (run : p.Running)
    (steps : Steps (p.append d) q) (h : Settles q v) : (p.feed d).1.verdict = v := by
  obtain ⟨q', steps', ends⟩ := feed_run run d
  have same := settled_unique steps steps' h ends.settles
  subst same
  exact ends.settles.unique h

/-- A feed that settles without an error leaves exactly the parser its steps end in. -/
theorem feed_of_steps {p q : HttpParser} {d : Bytes} (run : p.Running)
    (steps : Steps (p.append d) q) (h : q.state = .complete ∨ Waits q) : (p.feed d).1 = q := by
  obtain ⟨q', steps', ends⟩ := feed_run run d
  have settles : ∃ v, Settles q v := h.elim (fun st => ⟨_, .complete st⟩) fun w => ⟨_, .waits w⟩
  obtain ⟨v, hv⟩ := settles
  have same := settled_unique steps steps' hv ends.settles
  subst same
  rcases ends with ⟨eq, -⟩ | halts
  · exact eq.symm
  · cases halts with
    | waits w => rfl
    | refuses bad =>
      rcases h with st | w
      · exact absurd st bad.running.1
      · exact (w.not_refuses bad).elim
    | overflows o =>
      rcases h with st | w
      · exact absurd st o.running.1
      · exact (w.not_overflows o).elim

/-- What `feed` returns is what the parser it leaves reports. -/
theorem feed_result (p : HttpParser) (d : Bytes) : (p.feed d).2 = (p.feed d).1.result := by
  unfold feed
  by_cases err : p.state = .error
  · simp [err, result]
  by_cases done : p.state = .complete
  · simp [done, result]
  simp [err, done]

/-- A parser that has a verdict takes no more bytes. -/
theorem feed_done {p : HttpParser} (h : ¬ p.Running) (d : Bytes) : (p.feed d).1 = p := by
  unfold feed
  simp only [Running] at h
  by_cases err : p.state = .error
  · simp [err]
  · simp [show p.state = .complete by tauto]

/-! ## More bytes -/

/-- Bytes that come later do not disturb a step. -/
theorem Step.append {p p' : HttpParser} (h : Step p p') (b : Bytes) :
    Step (p.append b) (p'.append b) := by
  cases h with
  | @requestLine line rest m t st buf clean ok =>
    exact @Step.requestLine (p.append b) line (rest ++ b) m t st (by simp [buf]) clean ok
  | @header line rest n v st buf clean ne ok =>
    exact @Step.header (p.append b) line (rest ++ b) n v st (by simp [buf]) clean ne ok
  | @blank rest st buf => exact @Step.blank (p.append b) (rest ++ b) st (by simp [buf])
  | @body n st ok enough =>
    have step := Step.body (p := p.append b) st ok (by simp; omega)
    simp only [append_buffer, List.take_append_of_le_length enough,
      List.drop_append_of_le_length enough] at step
    exact step

/-- Nor do they disturb a run of steps. -/
theorem Steps.append {p q : HttpParser} (h : Steps p q) (b : Bytes) :
    Steps (p.append b) (q.append b) := by
  induction h with
  | refl => exact .refl
  | tail _ step ih => exact ih.tail (step.append b)

/-- What is refused stays refused when more bytes follow. -/
theorem Refuses.append {p : HttpParser} {c : StatusCode} (h : Refuses p c) (b : Bytes) :
    Refuses (p.append b) c := by
  cases h with
  | requestLine line rest st buf clean bad =>
    exact .requestLine line (rest ++ b) st (by simp [buf]) clean bad
  | header line rest st buf clean ne bad =>
    exact .header line (rest ++ b) st (by simp [buf]) clean ne bad
  | body st bad => exact .body st bad

end HttpParser

end HttpServer
