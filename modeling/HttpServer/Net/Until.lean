import HttpServer.Net.ByteStream

/-!
# Reading up to a delimiter

`read_until` cuts the stream behind every occurrence of its delimiter, however
the bytes arrive (`readUntil_splits`). The kernel brings the stream in pieces
(`arrivals`); a call takes all of them up to the first one behind which the
delimiter occurs (`Connection.received`). The loop keeps a buffer without the
delimiter, so that a search from shortly before the new bytes finds what a search
of the whole buffer would find (`Connection.readUntil_whole`).
-/

namespace HttpServer

open ListSearch

namespace Reading

/-- `read_until(buffer, delimiter, max_size)`: its result, `buffer` afterwards, and the connection. -/
def Connection.readUntilInto (c : Connection) (buffer delimiter : Bytes) (maxSize : Nat) :
    Bool × Bytes × Connection :=
  match c.readUntil delimiter maxSize with
  | (some text, c) => (true, text, c)
  | (none, c) => (false, buffer, c)

/-! ## What arrives -/

/-- The pieces that successive calls of `recv` bring when `size` bytes are buffered, until `max_size` bytes are, or a
call blocks, fails or meets the end of the stream. -/
def arrivals (maxSize size : Nat) (incoming : Bytes) : List Cut → List Bytes
  | .interrupted :: cuts => arrivals maxSize size incoming cuts
  | .upTo n :: cuts =>
    let piece := incoming.take (min n (min Connection.chunkSize (maxSize - size)))
    if piece = [] then []
    else piece :: arrivals maxSize (size + piece.length) (incoming.drop piece.length) cuts
  | _ => []

/-- The pieces up to the first one behind which the delimiter occurs. -/
def untilOccurs (delimiter : Bytes) : Bytes → List Bytes → List Bytes
  | _, [] => []
  | buffer, piece :: pieces =>
    if delimiter <:+: buffer ++ piece then [piece] else piece :: untilOccurs delimiter (buffer ++ piece) pieces

def Connection.arrivals (c : Connection) (maxSize : Nat) : List Bytes :=
  Reading.arrivals maxSize c.readBuffer.length c.socket.incoming c.cuts

/-- The bytes that a call of `read_until` receives before it stops: none if the delimiter is buffered. -/
def Connection.received (c : Connection) (delimiter : Bytes) (maxSize : Nat) : Bytes :=
  if delimiter <:+: c.readBuffer then [] else (untilOccurs delimiter c.readBuffer (c.arrivals maxSize)).flatten

/-- The loop of `read_until` with a search of the whole buffer behind each `recv`. -/
def Connection.readUntilLoopWhole (delimiter : Bytes) (maxSize : Nat) (socket : Socket) (readBuffer : Bytes)
    (cuts : List Cut) : Until :=
  if readBuffer.length < maxSize then
    match cuts with
    | [] => ⟨none, socket, [], readBuffer⟩
    | cut :: cuts =>
      match socket.recv (min chunkSize (maxSize - readBuffer.length)) cut with
      | (.interrupted, socket) => readUntilLoopWhole delimiter maxSize socket readBuffer cuts
      | (.wouldBlock, socket) | (.failed, socket) => ⟨none, socket, cuts, readBuffer⟩
      | (.data [], socket) => ⟨none, socket, cuts, readBuffer⟩
      | (.data (b :: bytes), socket) =>
        let readBuffer := readBuffer ++ b :: bytes
        match find delimiter readBuffer with
        | some pos =>
          ⟨some (readBuffer.take (pos + delimiter.length)), socket, cuts, readBuffer.drop (pos + delimiter.length)⟩
        | none => readUntilLoopWhole delimiter maxSize socket readBuffer cuts
  else ⟨none, socket, cuts, readBuffer⟩

/-- `read_until` with that loop. -/
def Connection.readUntilWhole (c : Connection) (delimiter : Bytes) (maxSize : Nat) : Option Bytes × Connection :=
  if !c.isOpen then (none, c)
  else
    match find delimiter c.readBuffer with
    | some pos =>
      (some (c.readBuffer.take (pos + delimiter.length)),
        { c with readBuffer := c.readBuffer.drop (pos + delimiter.length) })
    | none =>
      let u := readUntilLoopWhole delimiter maxSize c.socket c.readBuffer c.cuts
      (u.buffer, { c with socket := u.socket, cuts := u.cuts, readBuffer := u.readBuffer })

/-! ## What a call promises -/

/-- `text` is the front of `text ++ rest` that ends with the first occurrence of the delimiter. -/
structure Splits (delimiter text rest : Bytes) : Prop where
  ends : delimiter <:+ text
  first : ∀ a b, text ++ rest = a ++ delimiter ++ b → text.length ≤ (a ++ delimiter).length

/-- How `read_until` leaves its result and the internal buffer. -/
inductive Ended (delimiter : Bytes) (bound : Nat) : Option Bytes → Bytes → Prop
  | found {text rest : Bytes} (splits : Splits delimiter text rest) :
    Ended delimiter bound (some text) rest
  | stopped {rest : Bytes} (no : ¬ delimiter <:+: rest) (size : rest.length ≤ bound) :
    Ended delimiter bound none rest

/-- What a call of `read_until` promises of its result, of `buffer` and of the connection. It receives as much as is
said above, so it stops without the delimiter only where `recv` brings nothing more or the buffer is full. -/
structure UntilSpec (c : Connection) (buffer delimiter : Bytes) (maxSize : Nat) (r : Bool × Bytes × Connection) :
    Prop where
  takes : c.socket.Takes (c.received delimiter maxSize) r.2.2.socket
  result : r.1 = true ↔
    delimiter <:+: c.readBuffer ∨ delimiter <:+: c.readBuffer ++ c.received delimiter maxSize
  found : r.1 = true → r.2.1 ++ r.2.2.readBuffer = c.readBuffer ++ c.received delimiter maxSize ∧
    Splits delimiter r.2.1 r.2.2.readBuffer
  stopped : r.1 = false → r.2.1 = buffer ∧ c.received delimiter maxSize = (c.arrivals maxSize).flatten ∧
    r.2.2.readBuffer = c.readBuffer ++ c.received delimiter maxSize ∧
    r.2.2.readBuffer.length ≤ max maxSize c.readBuffer.length

/-- Cutting behind the position that `find` gives. -/
theorem splits_of_find {delimiter s : Bytes} (ne : delimiter ≠ []) {pos : Nat} (h : find delimiter s = some pos) :
    Splits delimiter (s.take (pos + delimiter.length)) (s.drop (pos + delimiter.length)) := by
  obtain ⟨a, b, rfl, rfl, fresh⟩ := split_of_find ne h
  have front : (a ++ delimiter ++ b).take (a.length + delimiter.length) = a ++ delimiter :=
    List.take_left' List.length_append
  refine ⟨?_, fun a' b' eq => ?_⟩
  · rw [front]
    exact List.suffix_append a delimiter
  · rw [List.take_append_drop] at eq
    have first := fresh.first eq
    rw [front, List.length_append, List.length_append]
    omega

/-- The restricted search makes no difference: what was buffered before has no delimiter. -/
theorem Connection.readUntilLoop_whole {delimiter : Bytes} (ne : delimiter ≠ []) (maxSize : Nat) (s : Socket)
    {readBuffer : Bytes} (no : ¬ delimiter <:+: readBuffer) (cuts : List Cut) :
    readUntilLoop delimiter maxSize s readBuffer cuts = readUntilLoopWhole delimiter maxSize s readBuffer cuts := by
  induction cuts generalizing s readBuffer with
  | nil => rfl
  | cons cut cuts ih =>
    unfold readUntilLoop readUntilLoopWhole
    split
    · cases cut with
      | upTo n =>
        simp only [Socket.recv]
        cases s.incoming.take (min n (min chunkSize (maxSize - readBuffer.length))) with
        | nil => rfl
        | cons b bytes =>
          dsimp only
          rw [findFrom_near ne no]
          cases found : find delimiter (readBuffer ++ b :: bytes) with
          | some pos => rfl
          | none => exact ih _ (find_eq_none_iff.1 found)
      | interrupted => exact ih s no
      | wouldBlock | failed => rfl
    · rfl

theorem Connection.readUntil_whole (c : Connection) {delimiter : Bytes} (ne : delimiter ≠ []) (maxSize : Nat) :
    c.readUntil delimiter maxSize = c.readUntilWhole delimiter maxSize := by
  unfold readUntil readUntilWhole
  split
  · rfl
  · cases found : find delimiter c.readBuffer with
    | some pos => rfl
    | none =>
      dsimp only
      rw [readUntilLoop_whole ne maxSize c.socket (find_eq_none_iff.1 found) c.cuts]

/-- A buffer without the delimiter is kept as one, until the delimiter comes. -/
theorem Connection.readUntilLoopWhole_ended {delimiter : Bytes} (ne : delimiter ≠ []) {maxSize bound : Nat}
    (large : maxSize ≤ bound) (s : Socket) {readBuffer : Bytes} (no : ¬ delimiter <:+: readBuffer)
    (size : readBuffer.length ≤ bound) (cuts : List Cut) :
    Ended delimiter bound (readUntilLoopWhole delimiter maxSize s readBuffer cuts).buffer
      (readUntilLoopWhole delimiter maxSize s readBuffer cuts).readBuffer := by
  induction cuts generalizing s readBuffer with
  | nil =>
    unfold readUntilLoopWhole
    split <;> exact .stopped no size
  | cons cut cuts ih =>
    unfold readUntilLoopWhole
    split
    · rename_i room
      cases cut with
      | upTo n =>
        simp only [Socket.recv]
        cases got : s.incoming.take (min n (min chunkSize (maxSize - readBuffer.length))) with
        | nil => exact .stopped no size
        | cons b bytes =>
          dsimp only
          cases found : find delimiter (readBuffer ++ b :: bytes) with
          | some pos => exact .found (splits_of_find ne found)
          | none =>
            apply ih _ (find_eq_none_iff.1 found)
            have taken := congrArg List.length got
            rw [List.length_take] at taken
            rw [List.length_append]
            omega
      | interrupted => exact ih s no size
      | wouldBlock => exact .stopped no size
      | failed => exact .stopped no size
    · exact .stopped no size

/-- A full buffer has no room for a piece. -/
theorem arrivals_full {maxSize size : Nat} (full : maxSize ≤ size) (incoming : Bytes) (cuts : List Cut) :
    arrivals maxSize size incoming cuts = [] := by
  induction cuts with
  | nil => rfl
  | cons cut cuts ih =>
    cases cut with
    | upTo n => simp [arrivals, Nat.sub_eq_zero_of_le full]
    | interrupted => exact ih
    | wouldBlock | failed => rfl

/-- What the loop has done with the pieces that can still arrive. -/
structure Receives (delimiter readBuffer : Bytes) (s : Socket) (pieces : List Bytes) (u : Connection.Until) :
    Prop where
  takes : s.Takes (untilOccurs delimiter readBuffer pieces).flatten u.socket
  whole : u.buffer.getD [] ++ u.readBuffer = readBuffer ++ (untilOccurs delimiter readBuffer pieces).flatten
  all : u.buffer = none → untilOccurs delimiter readBuffer pieces = pieces

theorem receives_nothing (delimiter readBuffer : Bytes) (s : Socket) (cuts : List Cut) :
    Receives delimiter readBuffer s [] ⟨none, s, cuts, readBuffer⟩ :=
  ⟨.refl s, (List.append_nil readBuffer).symm, fun _ => rfl⟩

/-- The loop receives the pieces up to the one behind which the delimiter occurs. -/
theorem Connection.readUntilLoopWhole_receives (delimiter : Bytes) (maxSize : Nat) (s : Socket) (readBuffer : Bytes)
    (cuts : List Cut) :
    Receives delimiter readBuffer s (Reading.arrivals maxSize readBuffer.length s.incoming cuts)
      (readUntilLoopWhole delimiter maxSize s readBuffer cuts) := by
  induction cuts generalizing s readBuffer with
  | nil =>
    unfold readUntilLoopWhole
    split <;> exact receives_nothing delimiter readBuffer s []
  | cons cut cuts ih =>
    unfold readUntilLoopWhole
    split
    · cases cut with
      | upTo n =>
        have takes := s.takes_upTo (min n (min chunkSize (maxSize - readBuffer.length)))
        simp only [Socket.recv, Reading.arrivals]
        cases got : s.incoming.take (min n (min chunkSize (maxSize - readBuffer.length))) with
        | nil =>
          rw [got] at takes
          exact ⟨takes, (List.append_nil readBuffer).symm, fun _ => rfl⟩
        | cons b bytes =>
          rw [got] at takes
          rw [if_neg (List.cons_ne_nil b bytes)]
          dsimp only
          cases found : find delimiter (readBuffer ++ b :: bytes) with
          | some pos =>
            have occurs : delimiter <:+: readBuffer ++ b :: bytes := find_isSome_iff.1 (by rw [found]; rfl)
            have one (pieces : List Bytes) :
                (untilOccurs delimiter readBuffer ((b :: bytes) :: pieces)).flatten = b :: bytes := by
              rw [untilOccurs, if_pos occurs, List.flatten_singleton]
            refine ⟨?_, ?_, fun none_ => by cases none_⟩
            · rw [one]
              exact takes
            · rw [one]
              exact List.take_append_drop _ _
          | none =>
            have rest : s.incoming.drop (b :: bytes).length =
                s.incoming.drop (min n (min chunkSize (maxSize - readBuffer.length))) := by
              rw [← got, List.length_take, ← List.drop_eq_drop_min]
            have more := ih ⟨s.incoming.drop (min n (min chunkSize (maxSize - readBuffer.length))),
              s.taken ++ b :: bytes⟩ (readBuffer ++ b :: bytes)
            rw [List.length_append] at more
            rw [rest]
            have goes (pieces : List Bytes) : untilOccurs delimiter readBuffer ((b :: bytes) :: pieces) =
                (b :: bytes) :: untilOccurs delimiter (readBuffer ++ b :: bytes) pieces := by
              rw [untilOccurs, if_neg (find_eq_none_iff.1 found)]
            refine ⟨?_, ?_, fun none_ => ?_⟩
            · rw [goes, List.flatten_cons]
              exact takes.trans more.takes
            · rw [goes, List.flatten_cons, ← List.append_assoc]
              exact more.whole
            · rw [goes, more.all none_]
      | interrupted => exact ih s readBuffer
      | wouldBlock | failed => exact receives_nothing delimiter readBuffer s cuts
    · rename_i full
      rw [arrivals_full (Nat.not_lt.1 full)]
      exact receives_nothing delimiter readBuffer s (cut :: cuts)

/-- A call receives what it says, and hands over and keeps all of it. -/
theorem Connection.readUntilWhole_receives (c : Connection) (open_ : c.isOpen = true) {delimiter : Bytes}
    (ne : delimiter ≠ []) (maxSize : Nat) :
    let r := c.readUntilWhole delimiter maxSize
    c.socket.Takes (c.received delimiter maxSize) r.2.socket ∧
      r.1.getD [] ++ r.2.readBuffer = c.readBuffer ++ c.received delimiter maxSize ∧
      Ended delimiter (max maxSize c.readBuffer.length) r.1 r.2.readBuffer ∧
      (r.1 = none → c.received delimiter maxSize = (c.arrivals maxSize).flatten) := by
  unfold readUntilWhole received
  rw [open_]
  cases found : find delimiter c.readBuffer with
  | some pos =>
    have occurs : delimiter <:+: c.readBuffer := find_isSome_iff.1 (by rw [found]; rfl)
    rw [if_pos occurs, List.append_nil]
    exact ⟨.refl _, List.take_append_drop _ _, .found (splits_of_find ne found), fun none_ => by cases none_⟩
  | none =>
    have no := find_eq_none_iff.1 found
    obtain ⟨takes, whole, all⟩ := readUntilLoopWhole_receives delimiter maxSize c.socket c.readBuffer c.cuts
    have ended := readUntilLoopWhole_ended ne (Nat.le_max_left maxSize c.readBuffer.length) c.socket no
      (Nat.le_max_right _ _) c.cuts
    rw [if_neg no]
    exact ⟨takes, whole, ended, fun none_ => congrArg List.flatten (all none_)⟩

/-- **The stream is split at every delimiter.** A call receives the pieces that arrive, up to the first one behind
which the delimiter occurs; and the search near the new bytes is a search of the whole buffer. -/
theorem readUntil_splits (c : Connection) (open_ : c.isOpen = true) (buffer : Bytes) {delimiter : Bytes}
    (ne : delimiter ≠ []) (maxSize : Nat) :
    UntilSpec c buffer delimiter maxSize (c.readUntilInto buffer delimiter maxSize) ∧
      c.readUntil delimiter maxSize = c.readUntilWhole delimiter maxSize := by
  refine ⟨?_, c.readUntil_whole ne maxSize⟩
  obtain ⟨takes, whole, ended, all⟩ := c.readUntilWhole_receives open_ ne maxSize
  unfold Connection.readUntilInto
  rw [c.readUntil_whole ne maxSize]
  cases run : c.readUntilWhole delimiter maxSize with
  | mk result c' =>
    rw [run] at takes whole ended all
    cases ended with
    | @found text _ splits =>
      have occurs : delimiter <:+: c.readBuffer ++ c.received delimiter maxSize := by
        rw [← whole]
        exact splits.ends.isInfix.trans (List.prefix_append _ _).isInfix
      constructor
      · exact takes
      · exact iff_of_true rfl (.inr occurs)
      · exact fun _ => ⟨whole, splits⟩
      · exact fun no => absurd no.symm Bool.false_ne_true
    | stopped no size =>
      have kept : c'.readBuffer = c.readBuffer ++ c.received delimiter maxSize := whole
      have absent : ¬ delimiter <:+: c.readBuffer ++ c.received delimiter maxSize := kept ▸ no
      constructor
      · exact takes
      · refine iff_of_false Bool.false_ne_true (not_or.2 ⟨fun early => ?_, absent⟩)
        exact absent (early.trans (List.prefix_append _ _).isInfix)
      · exact fun yes => absurd yes Bool.false_ne_true
      · exact fun _ => ⟨rfl, all rfl, kept, size⟩

/-- The delimiter comes in four pieces, of which one is buffered. -/
def straddling : Connection where
  isOpen := true
  socket := { incoming := ascii "\n\r\nrest" }
  cuts := [.upTo 1, .interrupted, .upTo 1, .upTo 3]
  readBuffer := ascii "ab\r"

/-- It is found behind the third `recv` that brings something, with two bytes of the rest. -/
theorem readUntil_straddling :
    (straddling.readUntilInto [] (ascii "\r\n\r\n") 64).1 = true ∧
      (straddling.readUntilInto [] (ascii "\r\n\r\n") 64).2.1 = ascii "ab\r\n\r\n" ∧
      (straddling.readUntilInto [] (ascii "\r\n\r\n") 64).2.2.readBuffer = ascii "re" ∧
      straddling.received (ascii "\r\n\r\n") 64 = ascii "\n\r\nre" ∧
      UntilSpec straddling [] (ascii "\r\n\r\n") 64 (straddling.readUntilInto [] (ascii "\r\n\r\n") 64) ∧
      straddling.readUntil (ascii "\r\n\r\n") 64 = straddling.readUntilWhole (ascii "\r\n\r\n") 64 :=
  ⟨by decide +kernel, by decide +kernel, by decide +kernel, by decide +kernel,
    readUntil_splits straddling rfl [] (by decide) 64⟩

end Reading

end HttpServer
