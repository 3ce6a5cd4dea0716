import HttpServer.Lib.Elements
import HttpServer.Server.KeepAlive
import HttpServer.Server.Pipeline

/-!
# The wish to close

A client asks for the end of the connection by the option `close` in the list of
a `Connection` line. The header map keeps only the last line of a name, and
`should_keep_alive` compares its whole value, so that the option is heard
exactly where it is the whole value of the last line (`honoured_iff`).
-/

namespace HttpServer

open Connection Separated

/-- The options that a Connection line lists, in lower case. -/
def connectionOptions (f : Bytes) : List Bytes := elements comma isspace (toLower (fieldValue f))

def AsksClose (m : Message) : Prop :=
  ∃ f ∈ m.fields, toLower (fieldName f) = ascii "connection" ∧ ascii "close" ∈ connectionOptions f

/-- Wherever `handle_connection` reads the request `q` in the chunks `cs`, it closes behind the response,
and the response says so. -/
def Server.ClosesBehind (s : Server) (cs : List Bytes) (q : Request) : Prop :=
  ∀ (left requestCount : Nat) (parser : HttpParser) (more : List ReadResult) (sends : List SendOutcome)
    (res : Response), s.route q = some res →
    let data := serialize s.platform requestCount { res with keepAlive := false }
    connectionField data = some (ascii "close") ∧
      s.connectionLoop (left + 1) requestCount parser (cs.map .bytes ++ more) sends =
        cs.map .received ++ (writeEvents data (writeAll data sends) ++
          [if (writeAll data sends).result = .killed then .killed else .closed])

/-- What the client of the message `m` gets, which has arrived as the request `q` in the chunks `cs`. -/
structure Honoured (m : Message) (cs : List Bytes) (q : Request) : Prop where
  closes : AsksClose m → q.shouldKeepAlive = false ∧ ∀ s : Server, s.ClosesBehind cs q
  keeps : ¬ AsksClose m → q.shouldKeepAlive = true

/-! ## Reading the request -/

/-- What a fresh parser accepts, in whatever chunks, is the message that stands at their front. -/
theorem Brings.message {p : HttpParser} {cs : List Bytes} {q : Request} (h : Brings p cs q) {a : Bytes}
    (r : Reads p a) (run : p.Running) :
    ∃ m rest, Message.WellFormed m ∧ a ++ cs.flatten = m.text ++ rest ∧ q = m.request := by
  induction h generalizing a with
  | @last p c q ne done =>
    obtain ⟨state, rfl⟩ := HttpParser.verdict_complete.1 done
    obtain ⟨m, rest, w, eq, request⟩ := r.feed_message run state
    exact ⟨m, rest, w, by rw [List.flatten_singleton, eq], request⟩
  | @more p c cs q ne open_ rest ih =>
    have running := HttpParser.verdict_incomplete.1 open_
    obtain ⟨-, reads⟩ := r.feed run c running
    rw [List.flatten_cons, ← List.append_assoc]
    exact ih reads running

theorem Brings.request {m : Message} {cs : List Bytes} {q : Request} {rest : Bytes} (h : Brings {} cs q)
    (w : m.WellFormed) (arrived : cs.flatten = m.text ++ rest) : q = m.request := by
  obtain ⟨m', rest', w', eq, request⟩ := h.message reads_fresh fresh_running
  rw [List.nil_append, arrived] at eq
  rw [request, Message.request_unique w w' eq]

/-- The inner loop reads the chunks of a request, and no others. -/
theorem readRequest_brings {p : HttpParser} {cs : List Bytes} {q : Request} (h : Brings p cs q)
    (more : List ReadResult) :
    ∃ p', p'.request = q ∧
      readRequest p (cs.map .bytes ++ more) = ⟨cs.map .received, .complete p', more⟩ := by
  induction h with
  | @last p c q ne done =>
    obtain ⟨state, request⟩ := HttpParser.verdict_complete.1 done
    have result : (p.feed c).2 = .complete := by rw [HttpParser.feed_result, result_complete, state]
    refine ⟨(p.feed c).1, request, ?_⟩
    rw [List.map_singleton, List.singleton_append, readRequest, if_neg ne,
      show p.feed c = ((p.feed c).1, .complete) by rw [← result]]
    rfl
  | @more p c cs q ne open_ rest ih =>
    obtain ⟨p', request, run⟩ := ih
    have result : (p.feed c).2 = .incomplete := by
      rw [HttpParser.feed_result, result_incomplete]
      exact HttpParser.verdict_incomplete.1 open_
    refine ⟨p', request, ?_⟩
    rw [List.map_cons, List.cons_append, readRequest, if_neg ne,
      show p.feed c = ((p.feed c).1, .incomplete) by rw [← result]]
    simp only [run, List.map_cons]

/-- A request that asks to close is answered and the connection is closed. -/
theorem closesBehind {cs : List Bytes} {q : Request} (h : Brings {} cs q) (asks : q.shouldKeepAlive = false)
    (s : Server) : s.ClosesBehind cs q := by
  intro left requestCount parser more sends res routed
  obtain ⟨p', rfl, run⟩ := readRequest_brings h more
  refine ⟨connectionField_serialize _ _ _, ?_⟩
  rw [Server.connectionLoop, show parser.reset = {} from rfl, run]
  simp only [HttpParser.getRequest, asks, routed, Bool.not_false, Bool.or_true, if_true]
  congr 2
  cases (writeAll (serialize s.platform requestCount { res with keepAlive := false }) sends).result <;> rfl

/-! ## The value of the header -/

theorem dropWhile_toLower (s : Bytes) : (toLower s).dropWhile isspace = toLower (s.dropWhile isspace) := by
  unfold toLower
  rw [List.dropWhile_map]
  congr 2
  funext c
  exact isspace_tolower c

theorem bare_toLower (s : Bytes) : bare isspace (toLower s) = toLower (strip s) := by
  have turn (t : Bytes) : (toLower t).reverse = toLower t.reverse := List.map_reverse.symm
  unfold bare strip List.rdropWhile
  rw [dropWhile_toLower, turn, dropWhile_toLower, turn]

/-- The whole value of the line is the option. -/
theorem options_close {f : Bytes} (h : toLower (strip (fieldValue f)) = ascii "close") :
    connectionOptions f = [ascii "close"] := by
  have value := bare_toLower (fieldValue f)
  rw [h] at value
  have whole : comma ∉ bare isspace (toLower (fieldValue f)) := by
    rw [value]
    decide
  rw [connectionOptions, elements_single (by decide) whole, value]

/-- The line whose value the header map has. -/
theorem lastValue_some {name value : Bytes} {fs : List Bytes} (h : lastValue name fs = some value) :
    ∃ f ∈ fs, toLower (fieldName f) = toLower name ∧ strip (fieldValue f) = value := by
  unfold lastValue at h
  obtain ⟨f, last, eq⟩ := Option.map_eq_some_iff.1 h
  have mem := List.mem_of_getLast? last
  simp only [List.mem_filter, beq_iff_eq] at mem
  exact ⟨f, mem.1, mem.2, eq⟩

theorem shouldKeepAlive_false {m : Message} : m.request.shouldKeepAlive = false ↔
    ∃ value, lastValue (ascii "connection") m.fields = some value ∧ toLower value = ascii "close" := by
  have lookup : m.request.header (ascii "connection") = lastValue (ascii "connection") m.fields :=
    headerMap_lookup m.fields _
  have version : (m.request.version == ascii "HTTP/1.1") = true := by
    exact beq_self_eq_true _
  rw [Request.shouldKeepAlive, lookup, version]
  cases lastValue (ascii "connection") m.fields with
  | none => simp
  | some value => simp

theorem asksClose_of_last {m : Message} (h : m.request.shouldKeepAlive = false) : AsksClose m := by
  obtain ⟨value, last, close⟩ := shouldKeepAlive_false.1 h
  obtain ⟨f, mem, name, eq⟩ := lastValue_some last
  refine ⟨f, mem, name.trans (by decide), ?_⟩
  rw [options_close (by rw [eq, close])]
  exact List.mem_singleton_self _

/-- **The wish to close is honoured** exactly where it is the whole value of the last Connection line. -/
theorem honoured_iff {m : Message} {cs : List Bytes} {q : Request} {rest : Bytes} (w : m.WellFormed)
    (arrived : cs.flatten = m.text ++ rest) (accepted : Brings {} cs q) :
    Honoured m cs q ↔ (AsksClose m →
      ∃ value, lastValue (ascii "connection") m.fields = some value ∧ toLower value = ascii "close") := by
  obtain rfl := accepted.request w arrived
  rw [← shouldKeepAlive_false]
  constructor
  · intro honoured asks
    exact (honoured.closes asks).1
  · intro heard
    refine ⟨fun asks => ⟨heard asks, closesBehind accepted (heard asks)⟩, fun quiet => ?_⟩
    cases kept : m.request.shouldKeepAlive with
    | true => rfl
    | false => exact absurd (asksClose_of_last kept) quiet

/-- A request without a body that has the given header lines. -/
def asking (fields : List Bytes) : Message where
  method := ascii "GET"
  target := ascii "/"
  fields
  body := []

theorem asking_wellFormed {fields : List Bytes} (few : fields.length ≤ 100)
    (lines : ∀ f ∈ fields, f ≠ [] ∧ NoCrlf f ∧ f.length ≤ 8192 ∧ colon ∈ f ∧ sp ∉ fieldName f)
    (total : (fields.map fun f => f.length + 2).sum ≤ 65536)
    (no : (asking fields).request.contentLength = 0) : (asking fields).WellFormed where
  method := by simp [asking]
  slash := rfl
  noSpace := show sp ∉ ascii "/" by decide
  lineClean := show NoCrlf (ascii "GET" ++ sp :: ascii "/" ++ sp :: httpVersion) by decide
  lineShort := show (ascii "GET" ++ sp :: ascii "/" ++ sp :: httpVersion).length ≤ 8192 by decide
  few := few
  fields := lines
  total := total
  small := by
    rw [no]
    omega
  length := no.symm
  declared post := absurd post (show ascii "GET" ≠ ascii "POST" by decide)

theorem asking_close : (asking [ascii "connection:  Close "]).WellFormed :=
  asking_wellFormed (by decide) (by decide) (by decide) (by decide)

theorem honoured_asking :
    Honoured (asking [ascii "connection:  Close "]) [(asking [ascii "connection:  Close "]).text]
        (asking [ascii "connection:  Close "]).request ↔
      (AsksClose (asking [ascii "connection:  Close "]) →
        ∃ value, lastValue (ascii "connection") (asking [ascii "connection:  Close "]).fields = some value ∧
          toLower value = ascii "close") :=
  @honoured_iff _ _ _ [] asking_close (by simp) ((Cut.single _).brings asking_close)

/-- The request stays kept although its client asks to close. -/
theorem not_honoured {m : Message} {cs : List Bytes} (asks : AsksClose m)
    (kept : m.request.shouldKeepAlive = true) : ¬ Honoured m cs m.request := by
  intro honoured
  rw [(honoured.closes asks).1] at kept
  cases kept

/-- The option behind another one, and a line that is followed by another. -/
theorem close_unheard :
    ∃ listed repeated : Message,
      listed.fields = [ascii "Connection: keep-alive, close"] ∧
      repeated.fields = [ascii "Connection: close", ascii "Connection: keep-alive"] ∧
      (listed.WellFormed ∧ Brings {} [listed.text] listed.request ∧
        ¬ Honoured listed [listed.text] listed.request) ∧
      repeated.WellFormed ∧ Brings {} [repeated.text] repeated.request ∧
        ¬ Honoured repeated [repeated.text] repeated.request := by
  have listed : (asking [ascii "Connection: keep-alive, close"]).WellFormed :=
    asking_wellFormed (by decide) (by decide) (by decide) (by decide)
  have repeated : (asking [ascii "Connection: close", ascii "Connection: keep-alive"]).WellFormed :=
    asking_wellFormed (by decide) (by decide) (by decide) (by decide)
  refine ⟨asking [ascii "Connection: keep-alive, close"],
    asking [ascii "Connection: close", ascii "Connection: keep-alive"], rfl, rfl,
    ⟨listed, (Cut.single _).brings listed, ?_⟩, repeated, (Cut.single _).brings repeated, ?_⟩
  · refine not_honoured ⟨_, List.mem_singleton_self _, by decide, by decide⟩ (by decide)
  · exact not_honoured ⟨_, List.mem_cons_self, by decide, by decide⟩ (by decide)

end HttpServer
