import HttpServer.Http.Serializer

/-!
# A client

`readResponse` reads one response from a byte stream by the HTTP/1.1 rules: the
head ends at the first empty line, the first `Content-Length` field gives the
length of the body, and the answer to a HEAD request and a 204 have none.
`readResponse_serialize` says that a serialized response is read back when its
head has no empty line inside and a response the client expects no body for
has none; `readResponse_exact` that in no other case nothing is left over.
-/

namespace HttpServer

open ListSearch

/-- A text cut at its line ends; what follows the last one comes last. -/
def lines : Bytes → List Bytes
  | [] => [[]]
  | 13 :: 10 :: s => [] :: lines s
  | c :: s =>
    match lines s with
    | [] => [[c]]
    | l :: ls => (c :: l) :: ls

/-- The value of the first field with a name, given in lower case; fields end at an empty line. -/
def field (name : Bytes) : List Bytes → Option Bytes
  | [] => none
  | l :: ls =>
    if l = [] then none
    else if toLower (fieldName l) = name then some (strip (fieldValue l))
    else field name ls

/-- A header field of a response. -/
def responseField (name s : Bytes) : Option Bytes := field name (lines s).tail

/-- A decimal number. -/
def number (s : Bytes) : Option Nat :=
  if !s.isEmpty && s.all isdigit then some (decimal s) else none

/-- The status code of a response. -/
def responseStatus (s : Bytes) : Option Nat :=
  match (lines s).head? with
  | none => none
  | some l =>
    if ascii "HTTP/1.1 " <+: l then number ((l.drop 9).takeWhile (· ≠ sp)) else none

/-- What the client takes for the answer to a request. -/
structure Answer where
  status : Nat
  body : Bytes
  deriving DecidableEq

/-- Responses without a body. -/
def bodyless (method : Bytes) (status : Nat) : Prop := method = ascii "HEAD" ∨ status = 204

instance (method : Bytes) (status : Nat) : Decidable (bodyless method status) :=
  inferInstanceAs (Decidable (_ ∨ _))

/-- The length of the body the client expects. -/
def expectedLength (method s : Bytes) (status : Nat) : Option Nat :=
  if bodyless method status then some 0
  else (responseField (ascii "content-length") s).bind number

/-- One response to a request with the given method, and the stream behind it. -/
def readResponse (method s : Bytes) : Option (Answer × Bytes) :=
  match find (crlf ++ crlf) s, responseStatus s with
  | some pos, some status =>
    match expectedLength method s status with
    | none => none
    | some n =>
      let rest := s.drop (pos + 4)
      if n ≤ rest.length then some (⟨status, rest.take n⟩, rest.drop n) else none
  | _, _ => none

/-- The responses to a sequence of requests, and what is left over. -/
def readResponses : List Bytes → Bytes → Option (List Answer × Bytes)
  | [], s => some ([], s)
  | m :: ms, s =>
    match readResponse m s with
    | none => none
    | some (a, rest) => (readResponses ms rest).map fun (as, left) => (a :: as, left)

/-! ## Lines -/

theorem NoCrlf.tail {c : UInt8} {l : Bytes} (h : NoCrlf (c :: l)) : NoCrlf l :=
  fun occ => h (occ.trans (List.suffix_cons c l).isInfix)

theorem lines_cons {l : Bytes} (clean : NoCrlf l) (t : Bytes) :
    lines (l ++ crlf ++ t) = l :: lines t := by
  induction l with
  | nil => rfl
  | cons c l ih =>
    have rest := ih clean.tail
    have apart : ∀ s, (c :: l ++ crlf ++ t) ≠ 13 :: 10 :: s := by
      intro s eq
      simp only [List.cons_append, List.cons.injEq] at eq
      obtain ⟨rfl, eq⟩ := eq
      cases l with
      | nil => simp [crlf] at eq
      | cons d l =>
        simp only [List.cons_append, List.cons.injEq] at eq
        obtain ⟨rfl, -⟩ := eq
        exact clean ⟨[], l, rfl⟩
    rw [List.cons_append, List.cons_append] at apart ⊢
    rw [lines]
    · rw [rest]
    · intro s hc hs
      exact apart s (by rw [hc, hs])

/-- The lines of a head and of what follows it. -/
theorem lines_joinLines {ls : List Bytes} (clean : ∀ l ∈ ls, NoCrlf l) (t : Bytes) :
    lines (joinLines ls ++ t) = ls ++ lines t := by
  induction ls with
  | nil => rfl
  | cons l ls ih =>
    rw [joinLines_cons, List.append_assoc, lines_cons (clean l (by simp)),
      ih fun l hl => clean l (List.mem_cons_of_mem _ hl)]
    rfl

/-! ## Empty lines -/

/-- No line behind the first is empty. -/
def NoBlank (t : Bytes) : Prop := ¬ crlf ++ crlf <:+: t

instance (t : Bytes) : Decidable (NoBlank t) := inferInstanceAs (Decidable (¬ _))

theorem noBlank_append {a b : Bytes} (ha : NoBlank (a ++ crlf)) (hb : NoBlank b)
    (start : ¬ crlf <+: b) : NoBlank (a ++ crlf ++ b) := by
  rintro ⟨x, y, eq⟩
  have at_ : ∀ i : Nat, (x ++ (crlf ++ crlf) ++ y)[i]? = (a ++ crlf ++ b)[i]? := fun i => by rw [eq]
  have total := congrArg List.length eq
  simp only [List.length_append, crlf, List.length_cons, List.length_nil] at total
  -- the occurrence lies in the front, in the back, or across the line end
  rcases Nat.lt_or_ge (a.length + 2) (x.length + 4) with past | front
  · rcases Nat.lt_or_ge x.length (a.length + 2) with before | back
    · have cases_ : x.length + 1 = a.length ∨ x.length = a.length ∨ x.length = a.length + 1 := by omega
      rcases cases_ with h | h | h
      · have := at_ a.length
        simp [crlf, ← h] at this
      · have eq' : x ++ (crlf ++ (crlf ++ y)) = a ++ (crlf ++ b) := by simpa using eq
        obtain ⟨-, back⟩ := List.append_inj eq' h
        exact start ⟨y, List.append_cancel_left back⟩
      · have := at_ (a.length + 1)
        simp [crlf, h] at this
    · have whole : (crlf ++ crlf) ++ y <:+ a ++ crlf ++ b := ⟨x, by rw [← eq]; simp⟩
      have inside : (crlf ++ crlf) ++ y <:+ b := by
        apply List.suffix_of_suffix_length_le whole (List.suffix_append _ _)
        simp only [List.length_append, crlf, List.length_cons, List.length_nil]
        omega
      exact hb ((List.prefix_append _ _).isInfix.trans inside.isInfix)
  · have whole : x ++ (crlf ++ crlf) <+: a ++ crlf ++ b := ⟨y, eq⟩
    have inside : x ++ (crlf ++ crlf) <+: a ++ crlf := by
      apply List.prefix_of_prefix_length_le whole (List.prefix_append _ _)
      simp only [List.length_append, crlf, List.length_cons, List.length_nil]
      omega
    exact ha ((List.suffix_append _ _).isInfix.trans inside.isInfix)

theorem noBlank_line {l : Bytes} (clean : NoCrlf l) : NoBlank (l ++ crlf) := by
  rintro ⟨x, y, eq⟩
  have total := congrArg List.length eq
  simp only [List.length_append, crlf, List.length_cons, List.length_nil] at total
  have whole : x ++ crlf <+: l ++ crlf := ⟨crlf ++ y, by simpa using eq⟩
  have inside : x ++ crlf <+: l := by
    apply List.prefix_of_prefix_length_le whole (List.prefix_append _ _)
    simp only [List.length_append, crlf, List.length_cons, List.length_nil]
    omega
  exact clean ((List.suffix_append _ _).isInfix.trans inside.isInfix)

/-- Lines that do not start with a carriage return have no empty line among them when none has
one inside. -/
theorem noBlank_joinLines {ls : List Bytes} (start : ∀ l ∈ ls, ∃ c s, l = c :: s ∧ c ≠ 13) :
    NoBlank (joinLines ls) ↔ ∀ l ∈ ls, NoBlank (l ++ crlf) := by
  induction ls with
  | nil => exact iff_of_true (by decide) (by simp)
  | cons l ls ih =>
    have rest := ih fun l' hl => start l' (List.mem_cons_of_mem _ hl)
    rw [joinLines_cons, List.forall_mem_cons, ← rest]
    constructor
    · intro clean
      exact ⟨fun occ => clean (occ.trans List.infix_append_left),
        fun occ => clean (occ.trans List.infix_append_right)⟩
    · rintro ⟨first, back⟩
      apply noBlank_append first back
      cases ls with
      | nil => decide
      | cons l' ls =>
        obtain ⟨c, s, rfl, ne⟩ := start l' (by simp)
        rintro ⟨t, eq⟩
        simp only [crlf, joinLines_cons, List.cons_append, List.cons.injEq] at eq
        exact ne eq.1.symm

/-- Bytes other than a carriage return in front change nothing. -/
theorem noBlank_front {a : Bytes} (clean : (13 : UInt8) ∉ a) (b : Bytes) : NoBlank (a ++ b) ↔ NoBlank b := by
  induction a with
  | nil => rfl
  | cons c a ih =>
    rw [List.mem_cons, not_or] at clean
    have front : ¬ crlf ++ crlf <+: c :: (a ++ b) := by
      rintro ⟨t, eq⟩
      simp only [crlf, List.cons_append, List.cons.injEq] at eq
      exact clean.1 eq.1
    rw [← ih clean.2]
    simp only [NoBlank, List.cons_append, List.infix_cons_iff, front, false_or]

/-- The end of a head without an empty line is found where it is. -/
theorem find_blank {t : Bytes} (clean : NoBlank (t ++ crlf)) (rest : Bytes) :
    find (crlf ++ crlf) (t ++ crlf ++ crlf ++ rest) = some t.length := by
  have fresh : Fresh (crlf ++ crlf) t := by
    intro occ
    have last : t ++ (crlf ++ crlf).dropLast = t ++ crlf ++ [13] := by simp [crlf]
    rw [last] at occ
    rcases List.infix_concat_iff.1 occ with suff | inside
    · have := suff.getLast (by simp [crlf])
      simp [crlf] at this
    · exact clean inside
  rw [List.append_assoc t, find_append_pat fresh]

/-- An empty line inside is found too early. -/
theorem find_blank_early {t : Bytes} (blank : ¬ NoBlank t) (rest : Bytes) :
    ∃ pos, find (crlf ++ crlf) (t ++ rest) = some pos ∧ pos + 4 ≤ t.length := by
  have inside := find_isSome_iff.2 (not_not.1 blank)
  obtain ⟨pos, found⟩ := Option.isSome_iff_exists.1 inside
  refine ⟨pos, find_append (by simp [crlf]) found, ?_⟩
  have := find_bound (by simp [crlf]) found
  simpa [crlf] using this

/-! ## What a serialized response says -/

theorem noCrlf_of_bytes {s : Bytes} (h : ∀ c ∈ s, c ≠ 13) : NoCrlf s :=
  fun occ => h 13 (occ.subset (by simp [crlf])) rfl

theorem isdigit_ne_cr {c : UInt8} (h : isdigit c = true) : c ≠ 13 := by
  rintro rfl
  exact absurd h (by decide)

/-- The first lines are whole lines, whatever the response. -/
theorem fixedLines_clean (w : Platform) (k : Nat) (r : Response) :
    ∀ l ∈ r.fixedLines w k, NoCrlf l ∧ ∃ c s, l = c :: s ∧ c ≠ 13 := by
  intro l hl
  simp only [Response.fixedLines, List.mem_cons, List.not_mem_nil, or_false] at hl
  rcases hl with rfl | rfl | rfl | rfl | rfl
  · refine ⟨?_, _, _, rfl, by decide⟩
    unfold Response.statusLine
    generalize r.status = code
    cases code <;> decide
  · exact ⟨by decide, _, _, rfl, by decide⟩
  · refine ⟨noCrlf_of_bytes fun c hc => ?_, _, _, rfl, by decide⟩
    rcases List.mem_append.1 hc with hc | hc
    · exact (show ∀ c ∈ ascii "Date: ", c ≠ 13 by decide +kernel) c hc
    · exact (w.date_clean k c hc).1
  · refine ⟨noCrlf_of_bytes fun c hc => ?_, _, _, rfl, by decide⟩
    rcases List.mem_append.1 hc with hc | hc
    · exact (show ∀ c ∈ ascii "Content-Length: ", c ≠ 13 by decide +kernel) c hc
    · exact isdigit_ne_cr (toString_digits _ c hc)
  · unfold Response.connectionLine
    split
    · exact ⟨by decide, _, _, rfl, by decide⟩
    · exact ⟨by decide, _, _, rfl, by decide⟩

theorem mem_headerLines {w : Platform} {r : Response} {l : Bytes} :
    l ∈ r.headerLines w ↔
      ∃ e ∈ r.headers.entries, toLower e.1 ∉ ownNames ∧ e.1 ++ ascii ": " ++ e.2 = l := by
  simp only [Response.headerLines, List.mem_map, List.mem_filter, (w.order_perm r.headers).mem_iff]
  constructor
  · rintro ⟨e, ⟨⟨e', he', rfl⟩, other⟩, rfl⟩
    exact ⟨e', he', by simpa using other, rfl⟩
  · rintro ⟨e, he, other, rfl⟩
    exact ⟨(e.1, e.2), ⟨⟨e, he, rfl⟩, by simpa using other⟩, rfl⟩

/-- A header line does not start with a carriage return when its name has none. -/
theorem headerLine_start {name : Bytes} (clean : (13 : UInt8) ∉ name) (value : Bytes) :
    ∃ c s, name ++ ascii ": " ++ value = c :: s ∧ c ≠ 13 := by
  cases name with
  | nil => exact ⟨_, _, rfl, by decide⟩
  | cons c s =>
    refine ⟨c, s ++ ascii ": " ++ value, rfl, ?_⟩
    rintro rfl
    exact clean (by simp)

/-- The head has no empty line inside when no value of the response's headers has one. -/
theorem headText_noBlank {w : Platform} {k : Nat} {r : Response}
    (names : ∀ e ∈ r.headers.entries, (13 : UInt8) ∉ e.1) :
    NoBlank (r.headText w k) ↔
      ∀ e ∈ r.headers.entries, toLower e.1 ∉ ownNames → NoBlank (e.2 ++ crlf) := by
  have front : ∀ e ∈ r.headers.entries, (13 : UInt8) ∉ e.1 ++ ascii ": " := by
    intro e he
    rw [List.mem_append, not_or]
    exact ⟨names e he, by decide⟩
  rw [Response.headText, ← joinLines_append, noBlank_joinLines]
  · constructor
    · intro clean e he other
      have line := clean _ (List.mem_append_right _ (mem_headerLines.2 ⟨e, he, other, rfl⟩))
      rwa [List.append_assoc, noBlank_front (front e he)] at line
    · intro clean l hl
      rcases List.mem_append.1 hl with hl | hl
      · exact noBlank_line (fixedLines_clean w k r l hl).1
      · obtain ⟨e, he, other, rfl⟩ := mem_headerLines.1 hl
        rw [List.append_assoc, noBlank_front (front e he)]
        exact clean e he other
  · intro l hl
    rcases List.mem_append.1 hl with hl | hl
    · exact (fixedLines_clean w k r l hl).2
    · obtain ⟨e, he, -, rfl⟩ := mem_headerLines.1 hl
      exact headerLine_start (names e he) e.2

theorem lines_serialize (w : Platform) (k : Nat) (r : Response) (t : Bytes) :
    lines (serialize w k r ++ t) =
      r.fixedLines w k ++ lines (joinLines (r.headerLines w) ++ crlf ++ r.body ++ t) := by
  rw [serialize_head, Response.headText, ← lines_joinLines fun l hl => (fixedLines_clean w k r l hl).1]
  simp

theorem number_toString (n : Nat) : number (toString n) = some n := by
  have digits : (!(toString n).isEmpty && (toString n).all isdigit) = true := by
    simpa [toString_ne_nil] using toString_digits n
  rw [number, if_pos digits, decimal_toString]

theorem responseStatus_serialize (w : Platform) (k : Nat) (r : Response) (t : Bytes) :
    responseStatus (serialize w k r ++ t) = some r.status.toNat := by
  have first : (lines (serialize w k r ++ t)).head? = some r.statusLine := by
    rw [lines_serialize, Response.fixedLines, List.cons_append, List.head?_cons]
  rw [responseStatus, first]
  unfold Response.statusLine
  cases r.status <;> decide +kernel

/-- White space around a value that has none at its ends is stripped. -/
theorem strip_space {s : Bytes} (h : ∀ c ∈ s, isspace c = false) : strip (sp :: s) = s := by
  have front : (sp :: s).dropWhile isspace = s := by
    cases s with
    | nil => rfl
    | cons c s => simp [show isspace sp = true from rfl, h c]
  rw [strip, front, List.rdropWhile_eq_self_iff]
  intro ne
  simp [h _ (List.getLast_mem ne)]

theorem responseField_contentLength (w : Platform) (k : Nat) (r : Response) (t : Bytes) :
    responseField (ascii "content-length") (serialize w k r ++ t) = some (toString r.body.length) := by
  have value : strip (sp :: toString r.body.length) = toString r.body.length :=
    strip_space fun c hc => isspace_digit (toString_digits _ c hc)
  rw [responseField, lines_serialize, ← value]
  rfl

theorem responseField_connection (w : Platform) (k : Nat) (r : Response) (t : Bytes) :
    responseField (ascii "connection") (serialize w k r ++ t) =
      some (if r.keepAlive then ascii "keep-alive" else ascii "close") := by
  rw [responseField, lines_serialize]
  cases h : r.keepAlive <;> simp only [Response.fixedLines, Response.connectionLine, h] <;> rfl

/-- The length of the body the client expects of a serialized response. -/
def Response.expected (r : Response) (method : Bytes) : Nat :=
  if bodyless method r.status.toNat then 0 else r.body.length

theorem expectedLength_serialize (method : Bytes) (w : Platform) (k : Nat) (r : Response) (t : Bytes) :
    expectedLength method (serialize w k r ++ t) r.status.toNat = some (r.expected method) := by
  unfold expectedLength Response.expected
  split
  · rfl
  · rw [responseField_contentLength, Option.bind_some, number_toString]

theorem readResponse_eq {w : Platform} {k : Nat} {r : Response} {t : Bytes} {pos : Nat} (method : Bytes)
    (blank : find (crlf ++ crlf) (serialize w k r ++ t) = some pos) :
    readResponse method (serialize w k r ++ t) =
      let rest := (serialize w k r ++ t).drop (pos + 4)
      if r.expected method ≤ rest.length then
        some (⟨r.status.toNat, rest.take (r.expected method)⟩, rest.drop (r.expected method))
      else none := by
  simp only [readResponse, blank, responseStatus_serialize, expectedLength_serialize]

/-- A head ends with a line end. -/
theorem headText_end (w : Platform) (k : Nat) (r : Response) : ∃ t, r.headText w k = t ++ crlf := by
  have ne : r.fixedLines w k ++ r.headerLines w ≠ [] := by simp [Response.fixedLines]
  refine ⟨joinLines (r.fixedLines w k ++ r.headerLines w).dropLast ++
    (r.fixedLines w k ++ r.headerLines w).getLast ne, ?_⟩
  calc r.headText w k
      = joinLines (r.fixedLines w k ++ r.headerLines w) := by rw [joinLines_append]; rfl
    _ = joinLines ((r.fixedLines w k ++ r.headerLines w).dropLast ++
          [(r.fixedLines w k ++ r.headerLines w).getLast ne]) := by
        rw [List.dropLast_append_getLast ne]
    _ = _ := by simp

/-- A response whose head has no empty line inside, and no body the client does not expect, is
read back, whatever follows it. -/
theorem readResponse_serialize {w : Platform} {k : Nat} {r : Response} {method : Bytes}
    (clean : NoBlank (r.headText w k)) (body : bodyless method r.status.toNat → r.body = [])
    (t : Bytes) :
    readResponse method (serialize w k r ++ t) = some (⟨r.status.toNat, r.body⟩, t) := by
  obtain ⟨h, head⟩ := headText_end w k r
  have text : serialize w k r ++ t = h ++ crlf ++ crlf ++ (r.body ++ t) := by
    rw [serialize_head, head]
    simp
  have length : r.expected method = r.body.length := by
    unfold Response.expected
    split
    · rename_i none_
      rw [body none_]
      rfl
    · rfl
  have blank := find_blank (head ▸ clean) (r.body ++ t)
  have rest : (h ++ crlf ++ crlf ++ (r.body ++ t)).drop (h.length + 4) = r.body ++ t := by
    apply List.drop_left'
    simp [crlf]
  rw [← text] at blank rest
  rw [readResponse_eq method blank]
  simp [rest, length]

/-- A response that is read back with nothing left over has such a head and such a body. -/
theorem readResponse_exact {w : Platform} {k : Nat} {r : Response} {method : Bytes} {a : Answer}
    (h : readResponse method (serialize w k r) = some (a, [])) :
    NoBlank (r.headText w k) ∧ (bodyless method r.status.toNat → r.body = []) := by
  have text := serialize_head w k r
  rw [← List.append_nil (serialize w k r)] at h
  by_cases clean : NoBlank (r.headText w k)
  · refine ⟨clean, fun none_ => ?_⟩
    obtain ⟨t, head⟩ := headText_end w k r
    have blank := find_blank (head ▸ clean) r.body
    have rest : (t ++ crlf ++ crlf ++ r.body).drop (t.length + 4) = r.body := by
      apply List.drop_left'
      simp [crlf]
    rw [← head, ← text, ← List.append_nil (serialize w k r)] at blank rest
    rw [readResponse_eq method blank, rest] at h
    simp only [Response.expected, if_pos none_, Nat.zero_le, if_true, List.drop_zero,
      Option.some.injEq, Prod.mk.injEq] at h
    exact h.2
  · exfalso
    obtain ⟨pos, blank, early⟩ := find_blank_early clean (crlf ++ r.body)
    rw [← List.append_assoc, ← text, ← List.append_nil (serialize w k r)] at blank
    rw [readResponse_eq method blank, List.append_nil] at h
    have longer : r.expected method < ((serialize w k r).drop (pos + 4)).length := by
      have few : r.expected method ≤ r.body.length := by
        unfold Response.expected
        split <;> omega
      rw [List.length_drop, text]
      simp only [List.length_append, crlf, List.length_cons, List.length_nil]
      omega
    simp only [if_pos longer.le, Option.some.injEq, Prod.mk.injEq, List.drop_eq_nil_iff] at h
    omega

end HttpServer
