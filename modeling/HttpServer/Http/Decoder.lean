import HttpServer.Http.Client

/-!
# Reading a serialized response back

`decode` cuts a text at its line ends: the first line is the status line, the
lines up to the first empty one are header fields, cut at their first `": "`, and
what follows is the body. It undoes `serialize` for responses whose header names
and values fit on a line (`decode_serialize`).
-/

namespace HttpServer

open ListSearch

/-- What `decode` makes of a response. -/
structure Decoded where
  status : Nat
  fields : List (Bytes × Bytes)
  body : Bytes
  deriving DecidableEq

namespace Decoded

/-- The values of the fields with a name, given in lower case. -/
def named (d : Decoded) (name : Bytes) : List Bytes :=
  (d.fields.filter fun f => toLower f.1 == name).map Prod.snd

/-- The fields the serializer does not write itself. -/
def others (d : Decoded) : List (Bytes × Bytes) :=
  d.fields.filter fun f => !ownNames.contains (toLower f.1)

end Decoded

/-- The text up to the first line end, and what follows it. -/
def cutLine (s : Bytes) : Option (Bytes × Bytes) :=
  (find crlf s).map fun pos => (s.take pos, s.drop (pos + 2))

/-- A header line, cut at its first `": "`. -/
def cutField (line : Bytes) : Option (Bytes × Bytes) :=
  (find (ascii ": ") line).map fun pos => (line.take pos, line.drop (pos + 2))

/-- At most `left` lines up to the first empty one as fields, and what follows it. -/
def readFields : Nat → Bytes → Option (List (Bytes × Bytes) × Bytes)
  | 0, _ => none
  | left + 1, s =>
    match cutLine s with
    | none => none
    | some ([], rest) => some ([], rest)
    | some (line, rest) =>
      match cutField line, readFields left rest with
      | some f, some (fs, body) => some (f :: fs, body)
      | _, _ => none

/-- The number in a status line. -/
def statusOf (line : Bytes) : Option Nat :=
  if ascii "HTTP/1.1 " <+: line then number ((line.drop 9).takeWhile (· ≠ sp)) else none

/-- A text has fewer lines than bytes. -/
def decode (s : Bytes) : Option Decoded :=
  match cutLine s with
  | none => none
  | some (line, rest) =>
    match statusOf line, readFields s.length rest with
    | some status, some (fields, body) => some ⟨status, fields, body⟩
    | _, _ => none

/-! ## Lines and fields -/

/-- The decoder cuts a line where the serializer ended it. -/
theorem cutLine_line {l : Bytes} (clean : NoCrlf l) (t : Bytes) : cutLine (l ++ crlf ++ t) = some (l, t) := by
  have behind : (l ++ crlf ++ t).drop (l.length + 2) = t := List.drop_left' (by simp [crlf])
  rw [cutLine, find_crlf clean, Option.map_some, behind]
  simp

/-- The text of a field. -/
def fieldText (f : Bytes × Bytes) : Bytes := f.1 ++ ascii ": " ++ f.2

/-- A field that fits on a line: a name without a colon, and no CR or LF. -/
structure FitsLine (f : Bytes × Bytes) : Prop where
  ne : f.1 ≠ []
  name : ∀ c ∈ f.1, c ≠ colon ∧ c ≠ 13 ∧ c ≠ 10
  value : ∀ c ∈ f.2, c ≠ 13 ∧ c ≠ 10

namespace FitsLine

variable {f : Bytes × Bytes}

theorem clean (h : FitsLine f) : NoCrlf (fieldText f) := by
  apply noCrlf_of_bytes
  intro c mem
  simp only [fieldText, List.mem_append] at mem
  rcases mem with (mem | mem) | mem
  · exact (h.name c mem).2.1
  · exact (show ∀ c ∈ ascii ": ", c ≠ 13 by decide +kernel) c mem
  · exact (h.value c mem).1

theorem ne_nil (h : FitsLine f) : fieldText f ≠ [] := by
  intro nil
  simp only [fieldText, List.append_eq_nil_iff] at nil
  exact h.ne nil.1.1

/-- The first `": "` of the line is the one behind the name. -/
theorem cut (h : FitsLine f) : cutField (fieldText f) = some f := by
  have fresh : Fresh (ascii ": ") f.1 := by
    intro occ
    rcases List.infix_concat_iff.1 (by simpa [ascii] using occ : ascii ": " <:+: f.1 ++ [58]) with
      suff | inside
    · have last := suff.getLast (by decide)
      rw [List.getLast_append_singleton] at last
      exact absurd last (by decide)
    · exact (h.name colon (inside.subset (by decide))).1 rfl
  have behind : (fieldText f).drop (f.1.length + 2) = f.2 := List.drop_left' (by simp; rfl)
  rw [cutField, fieldText, find_append_pat fresh, Option.map_some, ← fieldText, behind]
  simp [fieldText]

end FitsLine

/-- Fields on lines of their own are read back, and so is what follows the empty line. -/
theorem readFields_lines {fs : List (Bytes × Bytes)} (fits : ∀ f ∈ fs, FitsLine f) (body : Bytes) :
    ∀ {left : Nat}, fs.length < left →
      readFields left (joinLines (fs.map fieldText) ++ crlf ++ body) = some (fs, body) := by
  induction fs with
  | nil =>
    intro left more
    obtain ⟨left, rfl⟩ := Nat.exists_eq_succ_of_ne_zero (Nat.ne_of_gt more)
    have blank : cutLine (joinLines ([].map fieldText) ++ crlf ++ body) = some ([], body) :=
      cutLine_line (show NoCrlf [] by decide) body
    rw [readFields, blank]
  | cons f fs ih =>
    intro left more
    obtain ⟨left, rfl⟩ := Nat.exists_eq_succ_of_ne_zero (Nat.ne_of_gt (Nat.zero_lt_of_lt more))
    have fit := fits f (by simp)
    have first : cutLine (joinLines ((f :: fs).map fieldText) ++ crlf ++ body) =
        some (fieldText f, joinLines (fs.map fieldText) ++ crlf ++ body) := by
      rw [List.map_cons, joinLines_cons, List.append_assoc, List.append_assoc, cutLine_line fit.clean,
        List.append_assoc]
    have rest := @ih (fun g hg => fits g (List.mem_cons_of_mem f hg)) left
      (by simpa using Nat.lt_of_succ_lt_succ more)
    rw [readFields, first]
    split
    · rename_i eq
      cases eq
    · rename_i eq
      exact absurd (congrArg Prod.fst (Option.some.inj eq)) fit.ne_nil
    · rename_i eq
      obtain ⟨rfl, rfl⟩ := Prod.mk.inj (Option.some.inj eq)
      rw [fit.cut, rest]

/-! ## A serialized response -/

namespace Response

/-- The fields the serializer writes itself. -/
def ownFields (w : Platform) (k : Nat) (r : Response) : List (Bytes × Bytes) :=
  [(ascii "Server", ascii "httpserver/1.0"), (ascii "Date", w.formatDate k),
    (ascii "Content-Length", toString r.body.length),
    (ascii "Connection", if r.keepAlive then ascii "keep-alive" else ascii "close")]

/-- The fields it takes from the response. -/
def userFields (w : Platform) (r : Response) : List (Bytes × Bytes) :=
  (w.order r.headers).filter fun e => !ownNames.contains (toLower e.1)

/-- A response is written line by line, its own fields before the others. -/
theorem serialize_fields (w : Platform) (k : Nat) (r : Response) :
    serialize w k r = r.statusLine ++ crlf ++
      (joinLines ((r.ownFields w k ++ r.userFields w).map fieldText) ++ crlf ++ r.body) := by
  have own : r.fixedLines w k = r.statusLine :: (r.ownFields w k).map fieldText := by
    unfold fixedLines connectionLine ownFields
    cases r.keepAlive <;> rfl
  rw [serialize_head, headText, own, joinLines_cons, List.map_append, joinLines_append]
  simp only [List.append_assoc]
  rfl

/-- The fields that the serializer adds are lines that can be read back. -/
theorem ownFields_fit (w : Platform) (k : Nat) (r : Response) : ∀ f ∈ r.ownFields w k, FitsLine f := by
  have names : ∀ name ∈ [ascii "Server", ascii "Date", ascii "Content-Length", ascii "Connection"],
      name ≠ [] ∧ ∀ c ∈ name, c ≠ colon ∧ c ≠ 13 ∧ c ≠ 10 := by decide +kernel
  have values : ∀ value ∈ [ascii "httpserver/1.0", ascii "keep-alive", ascii "close"],
      ∀ c ∈ value, c ≠ 13 ∧ c ≠ 10 := by decide +kernel
  have digits : ∀ c ∈ (toString r.body.length : Bytes), c ≠ 13 ∧ c ≠ 10 := by
    intro c hc
    refine ⟨isdigit_ne_cr (toString_digits _ c hc), ?_⟩
    rintro rfl
    exact absurd (toString_digits _ _ hc) (by decide)
  have line : ∀ {name value : Bytes},
      name ∈ [ascii "Server", ascii "Date", ascii "Content-Length", ascii "Connection"] →
      (∀ c ∈ value, c ≠ 13 ∧ c ≠ 10) → FitsLine (name, value) :=
    fun own fits => ⟨(names _ own).1, (names _ own).2, fits⟩
  intro f hf
  simp only [ownFields, List.mem_cons, List.not_mem_nil, or_false] at hf
  rcases hf with rfl | rfl | rfl | rfl
  · exact line (by simp) (values _ (by simp))
  · exact line (by simp) (w.date_clean k)
  · exact line (by simp) digits
  · refine line (by simp) (values _ ?_)
    cases r.keepAlive <;> simp

/-- A header that is sent is one of the response, of a name that the serializer does not set itself. -/
theorem mem_userFields {w : Platform} {r : Response} {f : Bytes × Bytes} (hf : f ∈ r.userFields w) :
    toLower f.1 ∉ ownNames ∧ ∃ e ∈ r.headers.entries, (e.1, e.2) = f := by
  obtain ⟨mem, other⟩ := List.mem_filter.1 hf
  exact ⟨by simpa using other, List.mem_map.1 ((w.order_perm r.headers).mem_iff.1 mem)⟩

/-- The decoded text gives the response back. -/
structure ReadBack (w : Platform) (k : Nat) (r : Response) (d : Decoded) : Prop where
  status : d.status = r.status.toNat
  server : d.named (ascii "server") = [ascii "httpserver/1.0"]
  date : d.named (ascii "date") = [w.formatDate k]
  contentLength : (d.named (ascii "content-length")).map number = [some r.body.length]
  connection : d.named (ascii "connection") = [if r.keepAlive then ascii "keep-alive" else ascii "close"]
  others : d.others.Perm ((r.headers.entries.map fun e => (e.1, e.2)).filter fun e =>
    !ownNames.contains (toLower e.1))
  body : d.body = r.body

/-- A name the serializer writes itself is that of no other field. -/
theorem named_own {w : Platform} {r : Response} {name : Bytes} (own : name ∈ ownNames) :
    (r.userFields w).filter (fun f => toLower f.1 == name) = [] := by
  rw [List.filter_eq_nil_iff]
  intro f hf same
  exact (mem_userFields hf).1 (eq_of_beq same ▸ own)

/-- What is read back: the status, all fields that were sent, and the body. -/
theorem readBack_fields (w : Platform) (k : Nat) (r : Response) :
    ReadBack w k r ⟨r.status.toNat, r.ownFields w k ++ r.userFields w, r.body⟩ := by
  have named : ∀ name ∈ ownNames,
      Decoded.named ⟨r.status.toNat, r.ownFields w k ++ r.userFields w, r.body⟩ name =
        ((r.ownFields w k).filter fun f => toLower f.1 == name).map Prod.snd := by
    intro name own
    rw [Decoded.named, List.filter_append, named_own own, List.append_nil]
  refine ⟨rfl, ?_, ?_, ?_, ?_, ?_, rfl⟩
  · rw [named _ (by decide)]
    rfl
  · rw [named _ (by decide)]
    rfl
  · have one : ((r.ownFields w k).filter fun f => toLower f.1 == ascii "content-length").map Prod.snd =
        [toString r.body.length] := rfl
    rw [named _ (by decide), one, List.map_singleton, number_toString]
  · rw [named _ (by decide)]
    rfl
  · have none_ : (r.ownFields w k).filter (fun f => !ownNames.contains (toLower f.1)) = [] := rfl
    rw [Decoded.others, List.filter_append, none_, List.nil_append, userFields, List.filter_filter]
    simp only [Bool.and_self]
    exact (w.order_perm r.headers).filter _

end Response

/-- The status line tells the code. -/
theorem statusOf_statusLine (r : Response) : statusOf r.statusLine = some r.status.toNat := by
  unfold Response.statusLine
  cases r.status <;> decide +kernel

/-- No reason phrase breaks the status line. -/
theorem statusLine_clean (r : Response) : NoCrlf r.statusLine := by
  unfold Response.statusLine
  cases r.status <;> decide

/-- **Serialization can be undone** when every header name and value fits on its line. -/
theorem decode_serialize (w : Platform) (k : Nat) (r : Response)
    (fit : ∀ e ∈ r.headers.entries, FitsLine (e.1, e.2)) :
    ∃ d, decode (serialize w k r) = some d ∧ r.ReadBack w k d := by
  have fits : ∀ f ∈ r.ownFields w k ++ r.userFields w, FitsLine f := by
    intro f hf
    rcases List.mem_append.1 hf with hf | hf
    · exact r.ownFields_fit w k f hf
    · obtain ⟨-, e, he, rfl⟩ := Response.mem_userFields hf
      exact fit e he
  refine ⟨_, ?_, r.readBack_fields w k⟩
  have text := r.serialize_fields w k
  have left : (r.ownFields w k ++ r.userFields w).length < (serialize w k r).length := by
    have lines : ∀ ls : List (Bytes × Bytes), ls.length ≤ (joinLines (ls.map fieldText)).length := by
      intro ls
      induction ls with
      | nil => exact Nat.le_refl _
      | cons f ls ih =>
        simp only [List.map_cons, joinLines_cons, List.length_append, List.length_cons, crlf]
        omega
    have := lines (r.ownFields w k ++ r.userFields w)
    rw [text]
    simp only [List.length_append, crlf, List.length_cons] at this ⊢
    omega
  have read := readFields_lines fits r.body left
  unfold decode
  rw [text, cutLine_line (statusLine_clean r), ← text]
  simp only [statusOf_statusLine, read]

/-- A body that looks like a head, and a header that collides with one of the serializer's. -/
theorem decode_collision :
    let r : Response :=
      (Response.ok (ascii "a: b\r\n\r\nc")).setHeader (ascii "CONNECTION") (ascii "upgrade")
    ∃ d, decode (serialize .still 0 r) = some d ∧ r.ReadBack .still 0 d := by
  intro r
  apply decode_serialize
  have entries : r.headers.entries.map (fun e => (e.1, e.2)) =
      [(ascii "CONNECTION", ascii "upgrade"), (ascii "Content-Type", ascii "text/plain")] := by decide
  have fits : ∀ f ∈ [(ascii "CONNECTION", ascii "upgrade"), (ascii "Content-Type", ascii "text/plain")],
      f.1 ≠ [] ∧ (∀ c ∈ f.1, c ≠ colon ∧ c ≠ 13 ∧ c ≠ 10) ∧ ∀ c ∈ f.2, c ≠ 13 ∧ c ≠ 10 := by
    decide +kernel
  intro e he
  obtain ⟨ne, name, value⟩ := fits _ (entries ▸ List.mem_map.2 ⟨e, he, rfl⟩)
  exact ⟨ne, name, value⟩

end HttpServer
