import HttpServer.Http.Language

/-!
# Feeding in chunks

Feeding a string in chunks ends like feeding it at once, except at one kind of
place. While a line is incomplete its length is compared with the limit
including a carriage return whose line feed has not arrived; once the line is
complete the line end no longer counts. `LimitCut` describes the cuts where
this shows: between the CR and LF of a request line of exactly 8192 bytes, or of
the empty line behind header lines of exactly 65536 bytes. Without such a cut
the chunks do not matter (`feedAll_verdict`), with one the outcomes differ
(`LimitCut.differs`).
-/

namespace HttpServer

open ListSearch HttpParser

namespace HttpParser

/-- The calls `feed(c)` for the chunks in turn, with the result of the last one. -/
def feedAll (p : HttpParser) (chunks : List Bytes) : HttpParser × ParseResult :=
  chunks.foldl (fun r c => r.1.feed c) (p, p.result)

@[simp] theorem feedAll_nil (p : HttpParser) : p.feedAll [] = (p, p.result) := rfl

theorem feedAll_cons (p : HttpParser) (c : Bytes) (cs : List Bytes) :
    p.feedAll (c :: cs) = (p.feed c).1.feedAll cs := by
  simp only [feedAll, List.foldl_cons]
  rw [show (p.feed c) = ((p.feed c).1, (p.feed c).1.result) by rw [← feed_result]]

theorem feedAll_append (p : HttpParser) (front back : List Bytes) :
    p.feedAll (front ++ back) = (p.feedAll front).1.feedAll back := by
  induction front generalizing p with
  | nil => rfl
  | cons c cs ih => rw [List.cons_append, feedAll_cons, feedAll_cons, ih]

theorem feedAll_result (p : HttpParser) (chunks : List Bytes) :
    (p.feedAll chunks).2 = (p.feedAll chunks).1.result := by
  induction chunks generalizing p with
  | nil => rfl
  | cons c cs ih => rw [feedAll_cons, ih]

/-- A parser that is done ignores further chunks. -/
theorem feedAll_done {p : HttpParser} (done : ¬ p.Running) (chunks : List Bytes) :
    (p.feedAll chunks).1 = p := by
  induction chunks with
  | nil => rfl
  | cons c cs ih => rw [feedAll_cons, feed_done done, ih]

end HttpParser

/-- A cut between `a` and `b` at which a limit is judged differently. -/
inductive LimitCut : Bytes → Bytes → Prop
  | requestLine (line b : Bytes) (clean : NoCrlf line) (full : line.length = maxRequestLine) :
      LimitCut (line ++ [13]) (10 :: b)
  | headers (h : Head) (b : Bytes) (v : h.Valid) (full : fieldsSize h.fields = maxTotalHeaders) :
      LimitCut (h.lines ++ [13]) (10 :: b)

/-- A line end that completes a line does not start inside the part that had none; it starts at
its last byte at the earliest. -/
theorem cut_line {a e line rest : Bytes} (open_ : NoCrlf a) (eq : a ++ e = line ++ crlf ++ rest) :
    a.length ≤ line.length ∨ a = line ++ [13] ∧ e = 10 :: rest := by
  rcases Nat.lt_or_ge line.length a.length with long | short
  · right
    rw [List.append_assoc, List.append_eq_append_iff] at eq
    rcases eq with ⟨x, hx, -⟩ | ⟨x, rfl, hx⟩
    · rw [hx, List.length_append] at long
      omega
    · match x, hx with
      | [], _ => simp at long
      | [c], hx =>
        simp only [crlf, List.cons_append, List.nil_append, List.cons.injEq] at hx
        exact ⟨by rw [← hx.1], hx.2.symm⟩
      | c :: d :: x, hx =>
        simp only [crlf, List.cons_append, List.nil_append, List.cons.injEq] at hx
        obtain ⟨rfl, rfl, -⟩ := hx
        exact (open_ ⟨line, x, by simp [crlf]⟩).elim
  · exact .inl short

/-- A request line that is too long before it ends is too long when it ends. -/
theorem requestLine_overflow {a e : Bytes} (open_ : NoCrlf a) (long : maxRequestLine < a.length)
    (no : ¬ LimitCut a e) :
    Settles (({ buffer := a } : HttpParser).append e) (.error .uriTooLong) := by
  cases h : find crlf (a ++ e) with
  | none =>
    apply Settles.overflows (.requestLine rfl (find_crlf_none.1 h) ?_)
    simp only [append_buffer, List.length_append]
    omega
  | some pos =>
    obtain ⟨line, rest, eq, -, clean⟩ := split_crlf h
    apply Settles.refuses (.requestLine line rest rfl eq clean ?_)
    rcases cut_line open_ eq with short | ⟨rfl, rfl⟩
    · simp [requestLineVerdict, show maxRequestLine < line.length by omega]
    · by_cases more : maxRequestLine < line.length
      · simp [requestLineVerdict, more]
      · simp only [List.length_append, List.length_singleton] at long
        exact absurd (.requestLine line rest clean (by omega)) no

/-- Header lines that are too long before they end are too long when they end. -/
theorem headers_overflow {h : Head} (v : h.Valid) {buf e : Bytes} (open_ : NoCrlf buf)
    (long : maxTotalHeaders < fieldsSize h.fields + buf.length) (no : ¬ LimitCut (h.lines ++ buf) e) :
    Settles ((h.parser buf).append e) (.error .headerFieldsTooLarge) := by
  cases found : find crlf (buf ++ e) with
  | none =>
    apply Settles.overflows (.headers rfl (find_crlf_none.1 found) ?_)
    simp only [append_buffer, append_headersSize, List.length_append, Head.parser]
    omega
  | some pos =>
    obtain ⟨line, rest, eq, -, clean⟩ := split_crlf found
    have total := v.total
    have past : maxTotalHeaders < fieldsSize h.fields + (line.length + 2) := by
      rcases cut_line open_ eq with short | ⟨rfl, rfl⟩
      · omega
      · simp only [List.length_append, List.length_singleton] at long
        omega
    by_cases empty : line = []
    · subst empty
      rcases cut_line open_ eq with short | ⟨rfl, rfl⟩
      · simp only [List.length_nil, Nat.le_zero] at short
        omega
      · simp only [List.nil_append, List.length_singleton] at long
        exact absurd (.headers h rest v (by omega)) no
    · apply Settles.refuses (.header line rest rfl eq clean empty ?_)
      change headerVerdict (fieldsSize h.fields) h.fields.length line = _
      unfold headerVerdict
      repeat' split
      all_goals rfl

/-- The verdict on an incomplete line that is too long stands, unless the cut is a limit cut. -/
theorem Overflows.append {q : HttpParser} {a e : Bytes} {c : StatusCode} (r : Reads q a)
    (o : Overflows q c) (no : ¬ LimitCut a e) : Settles (q.append e) (.error c) := by
  cases o with
  | requestLine st open_ long =>
    cases r with
    | requestLine => exact requestLine_overflow open_ long no
    | headers | body | complete => cases st
  | headers st open_ long =>
    cases r with
    | headers v => exact headers_overflow v open_ long no
    | requestLine | body | complete => cases st

/-- Two feeds end like one unless the cut between them is a limit cut. -/
theorem feed_split {p : HttpParser} {a : Bytes} (r : Reads p a) (run : p.Running) (d e : Bytes)
    (no : ¬ LimitCut (a ++ d) e) :
    ((p.feed d).1.feed e).1.verdict = (p.feed (d ++ e)).1.verdict := by
  obtain ⟨q, steps, ends⟩ := feed_run run d
  have reads : Reads q (a ++ d) := (r.append run d).steps steps
  have longer : Steps (p.append (d ++ e)) (q.append e) := by
    rw [← append_append]
    exact Steps.append steps e
  rcases ends with ⟨eq, st⟩ | halts
  · have done : ¬ q.Running := fun h => h.1 st
    rw [← eq, feed_done done, verdict_of_steps run longer (.complete st)]
    simp [verdict, st]
  · generalize hr : (p.feed d).1 = s at halts
    cases halts with
    | waits w =>
      obtain ⟨q', steps', ends'⟩ := feed_run w.running e
      rw [verdict_of_steps run (longer.trans steps') ends'.settles]
    | refuses bad err code =>
      rw [feed_done (fun h => h.2 err), verdict_of_steps run longer (.refuses (bad.append e))]
      simp [verdict, err, code]
    | overflows o err code =>
      rw [feed_done (fun h => h.2 err), verdict_of_steps run longer (Overflows.append reads o no)]
      simp [verdict, err, code]

/-- What a feed leaves still reads everything fed, while the parser waits for more. -/
theorem Reads.feed {p : HttpParser} {a : Bytes} (r : Reads p a) (run : p.Running) (d : Bytes)
    (more : (p.feed d).1.Running) : Waits (p.feed d).1 ∧ Reads (p.feed d).1 (a ++ d) := by
  obtain ⟨q, steps, ends⟩ := feed_run run d
  have reads : Reads q (a ++ d) := (r.append run d).steps steps
  rcases ends with ⟨eq, st⟩ | halts
  · exact absurd st (eq ▸ more.1)
  · generalize (p.feed d).1 = s at *
    cases halts with
    | waits w => exact ⟨w, reads⟩
    | refuses _ err _ => exact absurd err more.2
    | overflows _ err _ => exact absurd err more.2

theorem feed_nil {p : HttpParser} (w : Waits p) : (p.feed []).1 = p :=
  feed_of_steps w.running (by rw [append_nil]) (.inr w)

/-- Without a limit cut the chunks do not matter. -/
theorem feedAll_verdict {p : HttpParser} {a : Bytes} (r : Reads p a) (w : Waits p)
    (chunks : List Bytes)
    (no : ∀ front back, chunks = front ++ back → ¬ LimitCut (a ++ front.flatten) back.flatten) :
    (p.feedAll chunks).1.verdict = (p.feed chunks.flatten).1.verdict := by
  induction chunks generalizing p a with
  | nil => rw [List.flatten_nil, feed_nil w]; rfl
  | cons c cs ih =>
    have split := feed_split r w.running c cs.flatten (by simpa using no [c] cs rfl)
    rw [feedAll_cons, List.flatten_cons, ← split]
    by_cases more : (p.feed c).1.Running
    · obtain ⟨waits, reads⟩ := r.feed w.running c more
      refine ih reads waits fun front back eq => ?_
      simpa using no (c :: front) back (by rw [eq]; rfl)
    · rw [feedAll_done more, feed_done more]

theorem reads_fresh : Reads {} [] := .requestLine []

theorem waits_fresh : Waits {} := .requestLine rfl (by decide) (by decide)

theorem feedAll_fresh {chunks : List Bytes}
    (no : ∀ front back, chunks = front ++ back → ¬ LimitCut front.flatten back.flatten) :
    (({} : HttpParser).feedAll chunks).1.verdict = (({} : HttpParser).feed chunks.flatten).1.verdict :=
  feedAll_verdict reads_fresh waits_fresh chunks (by simpa using no)

/-! ## Limit cuts do matter -/

/-- A fresh parser finds a request line too long only in its first line. -/
theorem uriTooLong_line {s : Bytes}
    (h : (({} : HttpParser).feed s).1.verdict = .error .uriTooLong) :
    Settles (({} : HttpParser).append s) (.error .uriTooLong) := by
  obtain ⟨q, steps, ends⟩ := feed_run fresh_running s
  have settles := ends.settles
  rw [h] at settles
  have st : q.state = .requestLine := by
    cases settles with
    | refuses bad => cases bad with
      | requestLine _ _ st => exact st
      | header _ _ _ _ _ _ bad => rcases headerVerdict_error bad with h | h <;> cases h
      | body _ bad => rcases bodyVerdict_error bad with h | h <;> cases h
    | overflows o => cases o; assumption
  cases (Reads.requestLine s).steps steps with
  | requestLine => exact settles
  | headers => cases st
  | body => cases st
  | complete => cases st

/-- Fed up to a limit cut a fresh parser reports an error that the rest would have averted. -/
theorem LimitCut.differs {a b : Bytes} (cut : LimitCut a b) :
    ∃ c, (({} : HttpParser).feed a).1.verdict = .error c ∧
      (({} : HttpParser).feed (a ++ b)).1.verdict ≠ .error c := by
  cases cut with
  | requestLine line b clean full =>
    refine ⟨.uriTooLong, ?_, fun h => ?_⟩
    · refine verdict_of_steps fresh_running .refl (.overflows (.requestLine rfl ?_ ?_))
      · exact clean.fresh
      · simp [full]
    · have spelled : line ++ [13] ++ 10 :: b = line ++ crlf ++ b := by simp [crlf]
      rw [spelled] at h
      cases uriTooLong_line h with
      | refuses bad => cases bad with
        | requestLine line' rest _ buf clean' bad =>
          obtain ⟨rfl, -⟩ := crlf_split_unique clean clean' buf
          rcases requestLineVerdict_error bad with ⟨-, long⟩ | h | h
          · omega
          · cases h
          · cases h
        | header _ _ st => cases st
        | body st => cases st
      | overflows o => cases o with
        | requestLine _ open_ => exact noCrlf_append_false open_
  | headers h b v full =>
    refine ⟨.headerFieldsTooLarge, ?_, fun err => ?_⟩
    · exact verdict_of_steps fresh_running (Head.steps v [13])
        (.overflows (.headers rfl (show NoCrlf [13] by decide) (by simp [Head.parser, full])))
    · have spelled : h.lines ++ [13] ++ 10 :: b = h.text ++ b := by simp [Head.text, crlf]
      rw [spelled] at err
      have steps := Head.steps_body v b
      cases ok : bodyVerdict h.request with
      | error c =>
        have := verdict_of_steps fresh_running steps (.refuses (.body rfl ok))
        rw [err] at this
        rcases bodyVerdict_error ok with rfl | rfl <;> cases this
      | ok n =>
        by_cases enough : n ≤ b.length
        · have := verdict_of_steps fresh_running (steps.tail (.body rfl ok enough)) (.complete rfl)
          rw [err] at this
          cases this
        · have := verdict_of_steps fresh_running steps (.waits (.body n rfl ok (Nat.not_le.1 enough)))
          rw [err] at this
          cases this

/-- The line feed behind a limit cut may be followed by anything. -/
theorem LimitCut.extend {a b : Bytes} (cut : LimitCut a b) (t : Bytes) : LimitCut a (b ++ t) := by
  cases cut with
  | requestLine line b clean full => exact .requestLine line (b ++ t) clean full
  | headers h b v full => exact .headers h (b ++ t) v full

theorem LimitCut.ne_nil {a b : Bytes} (cut : LimitCut a b) : b ≠ [] := by
  cases cut <;> simp

theorem LimitCut.front_ne_nil {a b : Bytes} (cut : LimitCut a b) : a ≠ [] := by
  cases cut <;> simp

/-- With a limit cut among the chunks the outcomes differ: the first one decides. -/
theorem feedAll_differs {chunks : List Bytes} :
    ∀ n front back, front.length = n → chunks = front ++ back →
      LimitCut front.flatten back.flatten →
      (({} : HttpParser).feedAll chunks).1.verdict ≠
        (({} : HttpParser).feed chunks.flatten).1.verdict := by
  intro n
  induction n using Nat.strongRecOn with
  | ind n ih =>
    intro front back len eq cut
    by_cases earlier : ∃ x y, front = x ++ y ∧ LimitCut x.flatten y.flatten
    · obtain ⟨x, y, rfl, cut'⟩ := earlier
      have y_ne : y ≠ [] := by
        rintro rfl
        exact cut'.ne_nil rfl
      have := List.length_pos_of_ne_nil y_ne
      refine ih x.length ?_ x (y ++ back) rfl (by rw [eq, List.append_assoc]) ?_
      · rw [← len, List.length_append]
        omega
      · rw [List.flatten_append]
        exact cut'.extend back.flatten
    · have same := @feedAll_fresh front fun x y h c => earlier ⟨x, y, h, c⟩
      obtain ⟨c, err, differs⟩ := cut.differs
      rw [err] at same
      have stopped : ¬ (({} : HttpParser).feedAll front).1.Running := by
        intro h
        rw [verdict_incomplete.2 h] at same
        cases same
      rw [eq, feedAll_append, feedAll_done stopped, same, List.flatten_append]
      exact differs.symm

/-! ## The outcome as the caller sees it -/

theorem result_eq {p q : HttpParser} (h : p.verdict = q.verdict) : p.result = q.result := by
  unfold verdict at h
  unfold result
  split at h <;> split at h <;> simp_all

/-- Result, error code and request of the chunks are those of the whole string. -/
def ChunksAgree (chunks : List Bytes) : Prop :=
  let whole := ({} : HttpParser).feed chunks.flatten
  let parts := ({} : HttpParser).feedAll chunks
  parts.2 = whole.2 ∧
  (whole.2 = .error → parts.1.errorCode = whole.1.errorCode) ∧
  (whole.2 = .complete →
    parts.1.request.method = whole.1.request.method ∧
    parts.1.request.target = whole.1.request.target ∧
    parts.1.request.version = whole.1.request.version ∧
    parts.1.request.headers = whole.1.request.headers ∧
    parts.1.request.body = whole.1.request.body)

theorem chunksAgree_iff_verdict (chunks : List Bytes) :
    ChunksAgree chunks ↔ (({} : HttpParser).feedAll chunks).1.verdict =
      (({} : HttpParser).feed chunks.flatten).1.verdict := by
  unfold ChunksAgree
  simp only [feedAll_result, feed_result]
  generalize (({} : HttpParser).feedAll chunks).1 = p
  generalize (({} : HttpParser).feed chunks.flatten).1 = q
  constructor
  · rintro ⟨res, code, req⟩
    cases hp : p.state <;> cases hq : q.state <;> simp_all [result, verdict]
    exact Request.ext req.1 req.2.1 req.2.2.1 req.2.2.2.1 req.2.2.2.2
  · intro h
    refine ⟨result_eq h, fun err => ?_, fun done => ?_⟩
    · have hq : q.state = .error := by unfold result at err; split at err <;> simp_all
      have hp : p.state = .error := by rw [← result_eq h] at err; unfold result at err; split at err <;> simp_all
      simpa [verdict, hp, hq] using h
    · have hq := result_complete.1 done
      have hp := result_complete.1 ((result_eq h).trans done)
      have same : p.request = q.request := by simpa [verdict, hp, hq] using h
      simp [same]

/-- **Chunking.** Feeding in chunks ends like feeding the whole exactly when no chunk ends between
the CR and LF at which a length limit is reached. -/
theorem chunksAgree_iff (chunks : List Bytes) :
    ChunksAgree chunks ↔
      ∀ front back, chunks = front ++ back → ¬ LimitCut front.flatten back.flatten := by
  rw [chunksAgree_iff_verdict]
  constructor
  · intro same front back eq cut
    exact feedAll_differs front.length front back rfl eq cut same
  · exact feedAll_fresh

theorem noCrlf_of_not_mem {s : Bytes} (h : (13 : UInt8) ∉ s) : NoCrlf s :=
  fun occ => h (occ.subset (by simp [crlf]))

/-- A request for a path of `n` letters. -/
def longGet (n : Nat) : Message where
  method := ascii "GET"
  target := slash :: List.replicate n 97
  fields := []
  body := []

theorem longGet_length (n : Nat) : (longGet n).requestLine.length = n + 14 := by
  simp [longGet, Head.requestLine, httpVersion, ascii]

theorem longGet_wellFormed {n : Nat} (h : n ≤ 8178) : (longGet n).WellFormed where
  method := by simp [longGet]
  slash := rfl
  noSpace := by simp [longGet, sp, slash]
  lineClean := noCrlf_of_not_mem (by simp [longGet, Head.requestLine, httpVersion, ascii, sp, slash])
  lineShort := by rw [longGet_length]; omega
  few := Nat.zero_le _
  fields := by simp [longGet]
  total := Nat.zero_le _
  small := Nat.zero_le _
  length := rfl
  declared := fun h => absurd h (by simp [longGet, ascii])

theorem longGet_text (n : Nat) :
    [(longGet n).requestLine ++ [13], [10, 13, 10]].flatten = (longGet n).text ++ [] := by
  simp [Message.text, Head.text, Head.lines, Head.fieldsText, longGet, crlf]

/-- A request line of exactly 8192 bytes is refused when its CR and LF arrive apart. -/
theorem longGet_cut {n : Nat} (h : n = 8178) :
    (({} : HttpParser).feedAll [(longGet n).requestLine ++ [13], [10, 13, 10]]).2 = .error ∧
    (({} : HttpParser).feed [(longGet n).requestLine ++ [13], [10, 13, 10]].flatten).2 = .complete := by
  have wf := longGet_wellFormed (n := n) (by omega)
  have parts : (({} : HttpParser).feed ((longGet n).requestLine ++ [13])).1.verdict =
      .error .uriTooLong :=
    verdict_of_steps fresh_running .refl (.overflows (.requestLine rfl wf.lineClean.fresh (by
      simp only [append_buffer, List.nil_append, List.length_append, longGet_length,
        List.length_singleton, maxRequestLine]
      omega)))
  have stopped : ¬ (({} : HttpParser).feed ((longGet n).requestLine ++ [13])).1.Running := by
    intro run
    rw [verdict_incomplete.2 run] at parts
    cases parts
  constructor
  · rw [feedAll_result, feedAll_cons, feedAll_done stopped]
    exact @result_eq _ (({} : HttpParser).fail .uriTooLong) parts
  · rw [longGet_text, feed_result, result_complete, Message.feed wf []]

theorem not_chunksAgree_longGet :
    ¬ ChunksAgree [(longGet 8178).requestLine ++ [13], [10, 13, 10]] := by
  intro same
  obtain ⟨refused, accepted⟩ := longGet_cut (n := 8178) rfl
  exact absurd (refused.symm.trans (same.1.trans accepted)) (by simp)

end HttpServer
