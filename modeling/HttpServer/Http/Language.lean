import HttpServer.Http.Grammar

/-!
# The parser accepts its language

Soundness follows the parser's steps (`Reads.step`), completeness the lines of
the message (`Head.steps`); both meet in `feed_complete_iff`.
-/

namespace HttpServer

open ListSearch HttpParser

/-- `p` has read the bytes `a` and found no error. -/
inductive Reads : HttpParser → Bytes → Prop
  | requestLine (a : Bytes) : Reads (({} : HttpParser).append a) a
  | headers {h : Head} (v : h.Valid) (buf : Bytes) : Reads (h.parser buf) (h.lines ++ buf)
  | body {h : Head} (v : h.Valid) (buf : Bytes) : Reads (h.bodyParser buf) (h.text ++ buf)
  | complete {m : Message} (v : m.toHead.Valid) (ok : bodyVerdict m.toHead.request = .ok m.body.length)
      (buf : Bytes) :
      Reads { m.toHead.parser buf with request := m.request, state := .complete } (m.text ++ buf)

theorem Head.lines_snoc (m t : Bytes) (fs : List Bytes) (f : Bytes) :
    (⟨m, t, fs ++ [f]⟩ : Head).lines = (⟨m, t, fs⟩ : Head).lines ++ (f ++ crlf) := by
  simp [lines, fieldsText, requestLine]

/-- The parser behind one more header line. -/
theorem Head.parser_snoc (m t : Bytes) (fs : List Bytes) (f rest : Bytes) :
    (⟨m, t, fs ++ [f]⟩ : Head).parser rest =
      let p := (⟨m, t, fs⟩ : Head).parser (f ++ crlf ++ rest)
      { p with
        request := { p.request with
          headers := p.request.headers.insert (toLower (fieldName f)) (strip (fieldValue f)) }
        headersSize := p.headersSize + (f.length + 2)
        headerCount := p.headerCount + 1
        buffer := rest } := by
  simp [parser, request]

/-- One more header line within the limits keeps a head valid. -/
theorem Head.Valid.snoc {m t : Bytes} {fs : List Bytes} {f : Bytes} (v : (⟨m, t, fs⟩ : Head).Valid)
    (line : FieldLine f) (few : fs.length < maxHeaderCount)
    (total : fieldsSize fs + (f.length + 2) ≤ maxTotalHeaders) :
    (⟨m, t, fs ++ [f]⟩ : Head).Valid where
  method := v.method
  slash := v.slash
  noSpace := v.noSpace
  clean := v.clean
  short := v.short
  few := by simpa using Nat.succ_le_of_lt few
  fields g hg := by
    rcases List.mem_append.1 hg with hg | hg
    · exact v.fields g hg
    · rw [List.mem_singleton] at hg
      rw [hg]
      exact line
  total := by simpa using total

theorem Head.Valid.init {m t : Bytes} {fs : List Bytes} {f : Bytes}
    (v : (⟨m, t, fs ++ [f]⟩ : Head).Valid) : (⟨m, t, fs⟩ : Head).Valid where
  method := v.method
  slash := v.slash
  noSpace := v.noSpace
  clean := v.clean
  short := v.short
  few := by
    have few := v.few
    simp only [List.length_append, List.length_singleton] at few
    exact Nat.le_of_succ_le few
  fields g hg := v.fields g (List.mem_append_left _ hg)
  total := by
    have total := v.total
    simp only [fieldsSize_snoc] at total
    exact Nat.le_of_add_right_le total

/-- Every step keeps the bytes read. -/
theorem Reads.step {p p' : HttpParser} {a : Bytes} (r : Reads p a) (step : Step p p') : Reads p' a := by
  cases r with
  | requestLine =>
    cases step with
    | @requestLine line rest m t st buf clean ok =>
      have accepted := requestLineVerdict_ok.1 ok
      have text : (⟨m, t, []⟩ : Head).requestLine = line := accepted.text.symm
      have valid : (⟨m, t, []⟩ : Head).Valid :=
        { method := accepted.method, slash := accepted.slash, noSpace := accepted.noSpace
          clean := by rw [text]; exact clean
          short := by rw [text]; exact accepted.short
          few := Nat.zero_le _, fields := by simp, total := Nat.zero_le _ }
      have spelled : a = (⟨m, t, []⟩ : Head).lines ++ rest := by
        simpa [Head.lines, Head.fieldsText, text] using buf
      rw [spelled]
      exact .headers valid rest
    | header st => cases st
    | blank st => cases st
    | body st => cases st
  | @headers h v buf =>
    obtain ⟨m, t, fs⟩ := h
    cases step with
    | requestLine st => cases st
    | @header line rest n v' st buf' clean ne ok =>
      obtain ⟨⟨short, few, total, named, noSpace⟩, rfl, rfl⟩ := headerVerdict_ok.1 ok
      change buf = line ++ crlf ++ rest at buf'
      subst buf'
      have spelled : (⟨m, t, fs⟩ : Head).lines ++ (line ++ crlf ++ rest) =
          (⟨m, t, fs ++ [line]⟩ : Head).lines ++ rest := by
        simp [Head.lines_snoc]
      rw [spelled]
      have next := Reads.headers (v.snoc ⟨ne, clean, short, named, noSpace⟩ few total) rest
      rw [Head.parser_snoc] at next
      exact next
    | @blank rest st buf' =>
      change buf = crlf ++ rest at buf'
      subst buf'
      rw [← List.append_assoc]
      exact .body v rest
    | body st => cases st
  | @body h v buf =>
    cases step with
    | requestLine st => cases st
    | header st => cases st
    | blank st => cases st
    | @body n st ok enough =>
      change n ≤ buf.length at enough
      have len : (buf.take n).length = n := List.length_take_of_le enough
      have done := @Reads.complete ⟨h, buf.take n⟩ v (by rw [len]; exact ok) (buf.drop n)
      rw [Message.text, List.append_assoc, List.take_append_drop] at done
      exact done
  | complete => exact absurd rfl step.running.1

theorem Reads.steps {p q : HttpParser} {a : Bytes} (r : Reads p a) (h : Steps p q) : Reads q a := by
  induction h with
  | refl => exact r
  | tail _ step ih => exact ih.step step

/-- A parser that still takes bytes goes on reading. -/
theorem Reads.append {p : HttpParser} {a : Bytes} (r : Reads p a) (run : p.Running) (d : Bytes) :
    Reads (p.append d) (a ++ d) := by
  cases r with
  | requestLine => rw [append_append]; exact .requestLine _
  | headers v buf => rw [List.append_assoc]; exact .headers v (buf ++ d)
  | body v buf => rw [List.append_assoc]; exact .body v (buf ++ d)
  | complete => exact absurd rfl run.1

/-- The lines of a valid head are consumed one by one. -/
theorem Head.steps {h : Head} (v : h.Valid) (rest : Bytes) :
    Steps (({} : HttpParser).append (h.lines ++ rest)) (h.parser rest) := by
  obtain ⟨m, t, fs⟩ := h
  induction fs using List.reverseRecOn generalizing rest with
  | nil =>
    have text : (⟨m, t, []⟩ : Head).lines ++ rest = (⟨m, t, []⟩ : Head).requestLine ++ crlf ++ rest := by
      simp [lines, fieldsText]
    rw [text]
    exact .single (.requestLine rfl rfl v.clean (requestLineVerdict_ok.2 v.requestLine))
  | append_singleton fs f ih =>
    have line : FieldLine f := v.fields f (by simp)
    have few := v.few
    have total := v.total
    simp only [List.length_append, List.length_singleton, fieldsSize_snoc] at few total
    have ok : headerVerdict (fieldsSize fs) fs.length f =
        .ok (toLower (fieldName f), strip (fieldValue f)) :=
      headerVerdict_ok.2 ⟨⟨line.short, by omega, total, line.named, line.noSpace⟩, rfl, rfl⟩
    rw [Head.lines_snoc, List.append_assoc, Head.parser_snoc]
    exact (ih (f ++ crlf ++ rest) v.init).tail
      (@Step.header ((⟨m, t, fs⟩ : Head).parser (f ++ crlf ++ rest)) f rest _ _ rfl rfl line.clean line.ne ok)

/-- The head and its empty line are consumed. -/
theorem Head.steps_body {h : Head} (v : h.Valid) (rest : Bytes) :
    Steps (({} : HttpParser).append (h.text ++ rest)) (h.bodyParser rest) := by
  rw [Head.text, List.append_assoc]
  exact (Head.steps v (crlf ++ rest)).tail (.blank rfl rfl)

/-- A well-formed message is consumed up to its last byte. -/
theorem Message.steps {m : Message} (w : m.WellFormed) (rest : Bytes) :
    Steps (({} : HttpParser).append (m.text ++ rest))
      { m.toHead.parser rest with request := m.request, state := .complete } := by
  rw [Message.text, List.append_assoc]
  have last := @Step.body (m.toHead.bodyParser (m.body ++ rest)) m.body.length rfl w.body
    (by simp [Head.bodyParser, Head.parser])
  simp only [Head.bodyParser, Head.parser, List.take_left', List.drop_left'] at last
  exact (Head.steps_body w.head (m.body ++ rest)).tail last

theorem fresh_running : ({} : HttpParser).Running := by simp [Running]

theorem result_complete {p : HttpParser} : p.result = .complete ↔ p.state = .complete := by
  unfold result
  split <;> simp_all

theorem result_error {p : HttpParser} : p.result = .error ↔ p.state = .error := by
  unfold result
  split <;> simp_all

theorem result_incomplete {p : HttpParser} : p.result = .incomplete ↔ p.Running := by
  unfold result
  split <;> simp_all [Running]

/-- A message followed by anything is accepted, and only the rest stays in the buffer. -/
theorem Message.feed {m : Message} (w : m.WellFormed) (rest : Bytes) :
    (({} : HttpParser).feed (m.text ++ rest)).1 =
      { m.toHead.parser rest with request := m.request, state := .complete } :=
  feed_of_steps fresh_running (Message.steps w rest) (.inl rfl)

/-- A parser that is complete has read a message. -/
theorem Reads.message {p : HttpParser} {a : Bytes} (r : Reads p a) (st : p.state = .complete) :
    ∃ m rest, Message.WellFormed m ∧ a = m.text ++ rest ∧ p.request = m.request := by
  cases r with
  | requestLine => cases st
  | headers => cases st
  | body => cases st
  | complete v ok buf => exact ⟨_, buf, Message.wellFormed_of v ok, rfl, rfl⟩

/-- What a parser that takes bytes accepts starts with a well-formed message. -/
theorem Reads.feed_message {p : HttpParser} {a : Bytes} (r : Reads p a) (run : p.Running) {c : Bytes}
    (st : (p.feed c).1.state = .complete) :
    ∃ m rest, Message.WellFormed m ∧ a ++ c = m.text ++ rest ∧ (p.feed c).1.request = m.request := by
  obtain ⟨q, steps, ⟨eq, done⟩ | halts⟩ := feed_run run c
  · rw [← eq]
    exact ((r.append run c).steps steps).message done
  · cases halts with
    | waits w => exact absurd st w.running.1
    | refuses _ err _ => rw [err] at st; cases st
    | overflows _ err _ => rw [err] at st; cases st

theorem message_of_complete {s : Bytes} (h : (({} : HttpParser).feed s).1.state = .complete) :
    ∃ m rest, Message.WellFormed m ∧ s = m.text ++ rest := by
  obtain ⟨m, rest, w, eq, -⟩ := (Reads.requestLine []).feed_message fresh_running h
  exact ⟨m, rest, w, eq⟩

/-- The request of a message depends on the bytes alone. -/
theorem Message.request_unique {m m' : Message} {rest rest' : Bytes} (w : m.WellFormed) (w' : m'.WellFormed)
    (eq : m.text ++ rest = m'.text ++ rest') : m.request = m'.request := by
  have here := Message.feed w rest
  rw [eq, Message.feed w' rest'] at here
  exact (congrArg HttpParser.request here).symm

/-- **The parser's language.** One feed is complete exactly on a well-formed message followed by
any surplus, and the request is the one written. -/
theorem feed_complete_iff (s : Bytes) :
    ((({} : HttpParser).feed s).2 = .complete ↔
      ∃ m rest, Message.WellFormed m ∧ s = m.text ++ rest) ∧
    ∀ m rest, Message.WellFormed m → s = m.text ++ rest →
      (({} : HttpParser).feed s).1.request.method = m.method ∧
      (({} : HttpParser).feed s).1.request.target = m.target ∧
      (({} : HttpParser).feed s).1.request.body = m.body ∧
      (({} : HttpParser).feed s).1.buffer = rest ∧
      ∀ name, (({} : HttpParser).feed s).1.request.header name = lastValue name m.fields := by
  rw [feed_result, result_complete]
  refine ⟨⟨message_of_complete, ?_⟩, ?_⟩
  · rintro ⟨m, rest, w, rfl⟩
    rw [Message.feed w rest]
  · rintro m rest w rfl
    rw [Message.feed w rest]
    exact ⟨rfl, rfl, rfl, rfl, fun name => headerMap_lookup m.fields name⟩

end HttpServer
