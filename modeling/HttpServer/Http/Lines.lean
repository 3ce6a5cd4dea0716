import HttpServer.Http.Parser

/-!
# What the parser does with one line

`requestLineVerdict` and `headerVerdict` are the tests `parse_request_line` and
`parse_headers` make on a complete line, in the source's order, and
`bodyVerdict` those of `parse_body`. The accepted lines are described without
searches by `requestLineVerdict_ok` and `headerVerdict_ok`.
-/

namespace HttpServer

open ListSearch

/-- No line end inside. -/
def NoCrlf (s : Bytes) : Prop := ¬ crlf <:+: s

instance (s : Bytes) : Decidable (NoCrlf s) := inferInstanceAs (Decidable (¬ _))

theorem NoCrlf.fresh {line : Bytes} (h : NoCrlf line) : Fresh crlf line := by
  intro occ
  rcases List.infix_concat_iff.1 (by simpa [crlf] using occ) with suff | inside
  · have last := suff.getLast (by simp)
    simp at last
  · exact h inside

theorem find_crlf {line r : Bytes} (h : NoCrlf line) :
    find crlf (line ++ crlf ++ r) = some line.length :=
  find_append_pat h.fresh

theorem find_crlf_none {s : Bytes} : find crlf s = none ↔ NoCrlf s := find_eq_none_iff

theorem split_crlf {s : Bytes} {pos : Nat} (h : find crlf s = some pos) :
    ∃ line rest, s = line ++ crlf ++ rest ∧ line.length = pos ∧ NoCrlf line := by
  obtain ⟨line, rest, hs, len, fresh⟩ := split_of_find crlf_ne_nil h
  exact ⟨line, rest, hs, len, fun occ => fresh (occ.trans (List.infix_append_left))⟩

/-- The first line of a buffer is unique. -/
theorem crlf_split_unique {line line' rest rest' : Bytes} (h : NoCrlf line) (h' : NoCrlf line')
    (eq : line ++ crlf ++ rest = line' ++ crlf ++ rest') : line = line' ∧ rest = rest' := by
  have len : line.length = line'.length := by
    have := find_crlf (r := rest) h
    rw [eq, find_crlf h'] at this
    exact (Option.some.inj this).symm
  obtain ⟨front, back⟩ := List.append_inj eq (by simp [len])
  exact ⟨(List.append_inj front len).1, back⟩

/-- The name of a header line: what stands before the first colon. -/
def fieldName (line : Bytes) : Bytes := line.takeWhile (· != colon)

/-- The text of a header line after its first colon. -/
def fieldValue (line : Bytes) : Bytes := (line.dropWhile (· != colon)).drop 1

def methods : List Bytes := [ascii "GET", ascii "HEAD", ascii "POST", ascii "DELETE"]

def httpVersion : Bytes := ascii "HTTP/1.1"

/-- A request line `M SP T SP HTTP/1.1` the parser takes. -/
structure RequestLine (line method target : Bytes) : Prop where
  text : line = method ++ sp :: target ++ sp :: httpVersion
  method : method ∈ methods
  slash : target.head? = some slash
  noSpace : sp ∉ target
  short : line.length ≤ maxRequestLine

/-- The tests of `parse_request_line` on a complete line. -/
def requestLineVerdict (line : Bytes) : Except StatusCode (Bytes × Bytes) :=
  if maxRequestLine < line.length then .error .uriTooLong
  else
    match find [sp] line with
    | none => .error .badRequest
    | some mEnd =>
      match findFrom [sp] line (mEnd + 1) with
      | none => .error .badRequest
      | some tEnd =>
        let method := line.take mEnd
        let target := (line.drop (mEnd + 1)).take (tEnd - mEnd - 1)
        if method ∉ methods then .error .methodNotAllowed
        else if target.head? ≠ some slash then .error .badRequest
        else if line.drop (tEnd + 1) ≠ httpVersion then .error .badRequest
        else .ok (method, target)

/-- The tests of `parse_headers` on a complete non-empty line; `size` and `count` are those of
the lines before it. -/
def headerVerdict (size count : Nat) (line : Bytes) : Except StatusCode (Bytes × Bytes) :=
  if maxHeaderSize < line.length then .error .headerFieldsTooLarge
  else if maxHeaderCount ≤ count then .error .headerFieldsTooLarge
  else if maxTotalHeaders < size + (line.length + 2) then .error .headerFieldsTooLarge
  else if colon ∉ line then .error .badRequest
  else if sp ∈ fieldName line then .error .badRequest
  else .ok (toLower (fieldName line), strip (fieldValue line))

/-- The tests of `parse_body`, which only read the request line and the headers. -/
def bodyVerdict (r : Request) : Except StatusCode Nat :=
  if maxBodySize < r.contentLength then .error .payloadTooLarge
  else if r.method = ascii "POST" ∧ ¬ r.hasHeader (ascii "content-length") then .error .badRequest
  else .ok r.contentLength

theorem not_mem_method {m : Bytes} (h : m ∈ methods) : sp ∉ m := by
  simp only [methods, List.mem_cons, List.not_mem_nil, or_false] at h
  rcases h with rfl | rfl | rfl | rfl <;> decide

/-- The line splits at its first two spaces. -/
theorem find_spaces {m t v : Bytes} (hm : sp ∉ m) (ht : sp ∉ t) :
    find [sp] (m ++ sp :: t ++ sp :: v) = some m.length ∧
      findFrom [sp] (m ++ sp :: t ++ sp :: v) (m.length + 1) = some (m.length + 1 + t.length) := by
  have assoc : m ++ sp :: t ++ sp :: v = m ++ sp :: (t ++ sp :: v) := by simp
  have second : (m ++ sp :: (t ++ sp :: v)).drop (m.length + 1) = t ++ sp :: v := by
    simp [List.drop_append]
  refine ⟨by rw [assoc]; exact find_char hm, ?_⟩
  rw [assoc, findFrom, if_pos (by simp), second, find_char ht]
  simp [Nat.add_comm]

/-- A line with fewer than two spaces, or its three parts. -/
theorem requestLine_parts {line : Bytes} {mEnd tEnd : Nat} (hm : find [sp] line = some mEnd)
    (ht : findFrom [sp] line (mEnd + 1) = some tEnd) :
    ∃ m t v, line = m ++ sp :: t ++ sp :: v ∧ sp ∉ m ∧ sp ∉ t ∧
      m.length = mEnd ∧ m.length + 1 + t.length = tEnd := by
  obtain ⟨m, rest, rfl, rfl, cleanM⟩ := find_char_split hm
  have drop : (m ++ sp :: rest).drop (m.length + 1) = rest := by simp [List.drop_append]
  rw [findFrom, if_pos (by simp), drop, Option.map_eq_some_iff] at ht
  obtain ⟨k, hk, rfl⟩ := ht
  obtain ⟨t, v, rfl, rfl, cleanT⟩ := find_char_split hk
  exact ⟨m, t, v, by simp, cleanM, cleanT, rfl, by omega⟩

/-- The parts the parser cuts out of a line at its first two spaces. -/
theorem cut_parts (m t v : Bytes) :
    (m ++ sp :: t ++ sp :: v).take m.length = m ∧
      ((m ++ sp :: t ++ sp :: v).drop (m.length + 1)).take (m.length + 1 + t.length - m.length - 1) = t ∧
      (m ++ sp :: t ++ sp :: v).drop (m.length + 1 + t.length + 1) = v := by
  refine ⟨by simp, ?_, ?_⟩
  · rw [show m.length + 1 + t.length - m.length - 1 = t.length by omega,
      show m ++ sp :: t ++ sp :: v = (m ++ [sp]) ++ (t ++ sp :: v) by simp,
      List.drop_left' (by simp)]
    simp
  · rw [show m ++ sp :: t ++ sp :: v = (m ++ sp :: t ++ [sp]) ++ v by simp]
    exact List.drop_left' (by simp; omega)

/-- The parser takes exactly the lines of the grammar. -/
theorem requestLineVerdict_ok {line m t : Bytes} :
    requestLineVerdict line = .ok (m, t) ↔ RequestLine line m t := by
  constructor
  · intro h
    unfold requestLineVerdict at h
    split at h
    · cases h
    rename_i short
    cases hm : find [sp] line with
    | none => simp [hm] at h
    | some mEnd =>
      cases ht : findFrom [sp] line (mEnd + 1) with
      | none => simp [hm, ht] at h
      | some tEnd =>
        obtain ⟨m', t', v, rfl, cleanM, cleanT, rfl, rfl⟩ := requestLine_parts hm ht
        obtain ⟨cutM, cutT, cutV⟩ := cut_parts m' t' v
        simp only [hm, ht, cutM, cutT, cutV] at h
        split at h
        · cases h
        split at h
        · cases h
        split at h
        · cases h
        rename_i known first version
        simp only [Except.ok.injEq, Prod.mk.injEq] at h
        obtain ⟨rfl, rfl⟩ := h
        rw [not_not] at known first version
        exact ⟨by rw [version], known, first, cleanT, Nat.not_lt.1 short⟩
  · rintro ⟨rfl, known, first, clean, short⟩
    obtain ⟨hm, ht⟩ := find_spaces (v := httpVersion) (not_mem_method known) clean
    obtain ⟨cutM, cutT, cutV⟩ := cut_parts m t httpVersion
    unfold requestLineVerdict
    rw [if_neg (Nat.not_lt.2 short)]
    simp only [hm, ht, cutM, cutT, cutV, known, first]
    simp

/-- The codes a request line can be refused with. -/
theorem requestLineVerdict_error {line : Bytes} {c : StatusCode}
    (h : requestLineVerdict line = .error c) :
    (c = .uriTooLong ∧ maxRequestLine < line.length) ∨ c = .badRequest ∨ c = .methodNotAllowed := by
  unfold requestLineVerdict at h
  split at h
  · rename_i long
    exact .inl ⟨by simpa using h.symm, long⟩
  · right
    split at h
    · exact .inl (by simpa using h.symm)
    split at h
    · exact .inl (by simpa using h.symm)
    dsimp only at h
    split at h
    · exact .inr (by simpa using h.symm)
    split at h
    · exact .inl (by simpa using h.symm)
    split at h
    · exact .inl (by simpa using h.symm)
    · cases h

/-- A header line the parser takes after lines of total size `size` and number `count`. -/
theorem headerVerdict_ok {size count : Nat} {line n v : Bytes} :
    headerVerdict size count line = .ok (n, v) ↔
      (line.length ≤ maxHeaderSize ∧ count < maxHeaderCount ∧
        size + (line.length + 2) ≤ maxTotalHeaders ∧ colon ∈ line ∧ sp ∉ fieldName line) ∧
      n = toLower (fieldName line) ∧ v = strip (fieldValue line) := by
  constructor
  · intro h
    unfold headerVerdict at h
    repeat' split at h
    all_goals simp_all
  · rintro ⟨⟨short, few, total, named, clean⟩, rfl, rfl⟩
    unfold headerVerdict
    rw [if_neg (by omega), if_neg (by omega), if_neg (by omega), if_neg (not_not.2 named),
      if_neg clean]

/-- The codes a header line can be refused with. -/
theorem headerVerdict_error {size count : Nat} {line : Bytes} {c : StatusCode}
    (h : headerVerdict size count line = .error c) :
    c = .headerFieldsTooLarge ∨ c = .badRequest := by
  unfold headerVerdict at h
  repeat' split at h
  all_goals simp_all

theorem bodyVerdict_error {r : Request} {c : StatusCode} (h : bodyVerdict r = .error c) :
    c = .payloadTooLarge ∨ c = .badRequest := by
  unfold bodyVerdict at h
  repeat' split at h
  all_goals simp_all

theorem bodyVerdict_ok {r : Request} {n : Nat} :
    bodyVerdict r = .ok n ↔ n = r.contentLength ∧ r.contentLength ≤ maxBodySize ∧
      (r.method = ascii "POST" → r.hasHeader (ascii "content-length") = true) := by
  constructor
  · intro h
    unfold bodyVerdict at h
    repeat' split at h
    all_goals simp_all
  · rintro ⟨rfl, small, declared⟩
    unfold bodyVerdict
    rw [if_neg (by omega), if_neg (fun h => h.2 (declared h.1))]

end HttpServer
