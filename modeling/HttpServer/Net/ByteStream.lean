import HttpServer.Lib.Search
import HttpServer.Net.Connection

/-!
# The read operations of a connection

`read_some`, `read_all` and `read_until` on one connection, call by call.
`read_until` reads ahead and keeps what it does not hand over in `read_buffer_`;
the other two do not look there. What the calls hand over is the stream in order
just when each of them finds nothing in the buffer that it should have handed
over first (`one_stream_iff`).
-/

namespace HttpServer

open ListSearch

namespace Reading

/-- What the kernel does at one `recv`; `upTo n` delivers at most `n` bytes. -/
inductive Cut where
  | upTo (n : Nat)
  | interrupted
  | wouldBlock
  | failed
  deriving DecidableEq

/-- A socket: the bytes that are still to be received, and those that were. -/
structure Socket where
  incoming : Bytes
  taken : Bytes := []

/-- `recv` with room for `size` bytes. -/
def Socket.recv (s : Socket) (size : Nat) : Cut → RecvOutcome × Socket
  | .upTo n =>
    (.data (s.incoming.take (min n size)),
      ⟨s.incoming.drop (min n size), s.taken ++ s.incoming.take (min n size)⟩)
  | .interrupted => (.interrupted, s)
  | .wouldBlock => (.wouldBlock, s)
  | .failed => (.failed, s)

/-- A connection, with what the kernel will do at its next calls of `recv`; behind the list they would block. -/
structure Connection where
  isOpen : Bool
  socket : Socket
  cuts : List Cut
  readBuffer : Bytes := []

namespace Connection

open HttpServer.Connection (ReadResult)

/-- The loop of `read_some`. -/
def readSomeLoop (socket : Socket) (maxSize : Nat) : List Cut → ReadResult × Socket × List Cut
  | [] => (.error, socket, [])
  | cut :: cuts =>
    match socket.recv maxSize cut with
    | (.interrupted, socket) => readSomeLoop socket maxSize cuts
    | (.wouldBlock, socket) | (.failed, socket) => (.error, socket, cuts)
    | (.data bytes, socket) => (.bytes bytes, socket, cuts)

def readSome (c : Connection) (maxSize : Nat) : ReadResult × Connection :=
  if !c.isOpen || maxSize == 0 then (.bytes [], c)
  else
    let (result, socket, cuts) := readSomeLoop c.socket maxSize c.cuts
    (result, { c with socket := socket, cuts := cuts })

/-- The loop of `read_all`; `total` is what stands in the caller's buffer. -/
def readAllLoop (socket : Socket) (total : Bytes) (remaining : Nat) (cuts : List Cut) :
    ReadResult × Socket × List Cut :=
  if 0 < remaining then
    match cuts with
    | [] => (.bytes total, socket, [])
    | cut :: cuts =>
      match socket.recv remaining cut with
      | (.interrupted, socket) => readAllLoop socket total remaining cuts
      | (.wouldBlock, socket) => (.bytes total, socket, cuts)
      | (.failed, socket) => (.error, socket, cuts)
      | (.data [], socket) => (.bytes total, socket, cuts)
      | (.data (b :: bytes), socket) =>
        readAllLoop socket (total ++ b :: bytes) (remaining - (b :: bytes).length) cuts
  else (.bytes total, socket, cuts)

def readAll (c : Connection) (maxSize : Nat) : ReadResult × Connection :=
  if !c.isOpen || maxSize == 0 then (.bytes [], c)
  else
    let (result, socket, cuts) := readAllLoop c.socket [] maxSize c.cuts
    (result, { c with socket := socket, cuts := cuts })

/-- `CHUNK_SIZE`. -/
def chunkSize : Nat := 4096

/-- How `read_until` ends: the bytes up to the delimiter if it returns true. -/
structure Until where
  buffer : Option Bytes
  socket : Socket
  cuts : List Cut
  readBuffer : Bytes

/-- The loop of `read_until`. -/
def readUntilLoop (delimiter : Bytes) (maxSize : Nat) (socket : Socket) (readBuffer : Bytes)
    (cuts : List Cut) : Until :=
  if readBuffer.length < maxSize then
    match cuts with
    | [] => ⟨none, socket, [], readBuffer⟩
    | cut :: cuts =>
      let toRead := min chunkSize (maxSize - readBuffer.length)
      match socket.recv toRead cut with
      | (.interrupted, socket) => readUntilLoop delimiter maxSize socket readBuffer cuts
      | (.wouldBlock, socket) | (.failed, socket) => ⟨none, socket, cuts, readBuffer⟩
      | (.data [], socket) => ⟨none, socket, cuts, readBuffer⟩
      | (.data (b :: bytes), socket) =>
        let oldSize := readBuffer.length
        let readBuffer := readBuffer ++ b :: bytes
        let startPos := if oldSize ≥ delimiter.length then oldSize - delimiter.length + 1 else 0
        match findFrom delimiter readBuffer startPos with
        | some pos =>
          ⟨some (readBuffer.take (pos + delimiter.length)), socket, cuts, readBuffer.drop (pos + delimiter.length)⟩
        | none => readUntilLoop delimiter maxSize socket readBuffer cuts
  else ⟨none, socket, cuts, readBuffer⟩

def readUntil (c : Connection) (delimiter : Bytes) (maxSize : Nat) : Option Bytes × Connection :=
  if !c.isOpen then (none, c)
  else
    match find delimiter c.readBuffer with
    | some pos =>
      (some (c.readBuffer.take (pos + delimiter.length)),
        { c with readBuffer := c.readBuffer.drop (pos + delimiter.length) })
    | none =>
      let u := readUntilLoop delimiter maxSize c.socket c.readBuffer c.cuts
      (u.buffer, { c with socket := u.socket, cuts := u.cuts, readBuffer := u.readBuffer })

end Connection

/-! ## Sequences of calls -/

inductive Call where
  | readSome (maxSize : Nat)
  | readAll (maxSize : Nat)
  | readUntil (delimiter : Bytes) (maxSize : Nat)

/-- The bytes that a result hands over. -/
def handed : HttpServer.Connection.ReadResult → Bytes
  | .error => []
  | .bytes bytes => bytes

/-- One call: the bytes that it hands to the caller, and the connection behind it. -/
def Connection.call (c : Connection) : Call → Bytes × Connection
  | .readSome maxSize => ((handed (c.readSome maxSize).1), (c.readSome maxSize).2)
  | .readAll maxSize => ((handed (c.readAll maxSize).1), (c.readAll maxSize).2)
  | .readUntil delimiter maxSize =>
    (((c.readUntil delimiter maxSize).1.getD []), (c.readUntil delimiter maxSize).2)

/-- What the calls so far have handed over, and the connection. -/
structure History where
  handed : Bytes
  conn : Connection

def History.call (h : History) (call : Call) : History :=
  ⟨h.handed ++ (h.conn.call call).1, (h.conn.call call).2⟩

/-- A new connection on which the stream is to arrive. -/
def opened (isOpen : Bool) (stream : Bytes) (cuts : List Cut) : Connection where
  isOpen := isOpen
  socket := { incoming := stream }
  cuts := cuts

def replay (c : Connection) (calls : List Call) : History := calls.foldl History.call ⟨[], c⟩

/-- What was handed over, and then what is buffered, is what was taken from the socket. -/
def History.Whole (h : History) : Prop := h.handed ++ h.conn.readBuffer = h.conn.socket.taken

/-! ## What the socket has for a call -/

/-- The number of bytes that the first `recv` may deliver. -/
def oneRecv (size : Nat) : List Cut → Nat
  | .interrupted :: cuts => oneRecv size cuts
  | .upTo n :: _ => min n size
  | _ => 0

/-- The number of bytes that `recv` may deliver until it has filled the room, or ends, or blocks. -/
def manyRecvs (size : Nat) : List Cut → Nat
  | .interrupted :: cuts => manyRecvs size cuts
  | .upTo n :: cuts =>
    if min n size = 0 then 0 else min n size + manyRecvs (size - min n size) cuts
  | _ => 0

/-- The bytes that stand next on the socket for a call of `read_some` or `read_all`. -/
def Connection.arriving (c : Connection) : Call → Bytes
  | .readSome maxSize => if c.isOpen then c.socket.incoming.take (oneRecv maxSize c.cuts) else []
  | .readAll maxSize => if c.isOpen then c.socket.incoming.take (manyRecvs maxSize c.cuts) else []
  | .readUntil _ _ => []

/-- What is buffered and what arrives give the same bytes in either order. -/
def Connection.InOrder (c : Connection) (call : Call) : Prop :=
  c.arriving call ++ c.readBuffer = c.readBuffer ++ c.arriving call

/-! ## One call -/

/-- Taking `bytes` leads from one socket to another. -/
structure Socket.Takes (s : Socket) (bytes : Bytes) (s' : Socket) : Prop where
  incoming : s.incoming = bytes ++ s'.incoming
  taken : s'.taken = s.taken ++ bytes

theorem Socket.Takes.refl (s : Socket) : s.Takes [] s := ⟨rfl, (List.append_nil _).symm⟩

theorem Socket.Takes.trans {s t u : Socket} {a b : Bytes} (first : s.Takes a t) (second : t.Takes b u) :
    s.Takes (a ++ b) u :=
  ⟨by rw [first.incoming, second.incoming, List.append_assoc],
    by rw [second.taken, first.taken, List.append_assoc]⟩

theorem Socket.takes_upTo (s : Socket) (k : Nat) :
    s.Takes (s.incoming.take k) ⟨s.incoming.drop k, s.taken ++ s.incoming.take k⟩ :=
  ⟨(List.take_append_drop k _).symm, rfl⟩

namespace Connection

/-- `read_some` hands over what one `recv` takes. -/
theorem readSomeLoop_spec (s : Socket) (maxSize : Nat) (cuts : List Cut) :
    let r := readSomeLoop s maxSize cuts
    handed r.1 = s.incoming.take (oneRecv maxSize cuts) ∧ s.Takes (handed r.1) r.2.1 ∧ r.2.2 <:+ cuts := by
  induction cuts with
  | nil => exact ⟨rfl, .refl s, List.suffix_rfl⟩
  | cons cut cuts ih =>
    cases cut with
    | upTo n => exact ⟨rfl, s.takes_upTo _, List.suffix_cons _ _⟩
    | interrupted =>
      obtain ⟨eq, takes, suffix⟩ := ih
      exact ⟨eq, takes, suffix.trans (List.suffix_cons _ _)⟩
    | wouldBlock => exact ⟨rfl, .refl s, List.suffix_cons _ _⟩
    | failed => exact ⟨rfl, .refl s, List.suffix_cons _ _⟩

/-- The kernel's answers to successive calls of `recv`. -/
def replies (maxSize : Nat) (s : Socket) : List Cut → List RecvOutcome
  | [] => []
  | cut :: cuts => (s.recv maxSize cut).1 :: replies maxSize (s.recv maxSize cut).2 cuts

/-- A call of `read_some` gives the next of the results that a session reads. -/
theorem readSome_replies (s : Socket) (maxSize : Nat) {cuts : List Cut}
    (more : ∃ cut ∈ cuts, cut ≠ .interrupted) :
    HttpServer.Connection.readSome (replies maxSize s cuts) =
      let r := readSomeLoop s maxSize cuts
      r.1 :: HttpServer.Connection.readSome (replies maxSize r.2.1 r.2.2) := by
  induction cuts with
  | nil => simp at more
  | cons cut cuts ih =>
    cases cut with
    | upTo n => rfl
    | interrupted => exact ih (by simpa using more)
    | wouldBlock => rfl
    | failed => rfl

theorem oneRecv_zero (cuts : List Cut) : oneRecv 0 cuts = 0 := by
  induction cuts with
  | nil => rfl
  | cons cut cuts ih =>
    cases cut with
    | upTo n => exact Nat.min_zero n
    | interrupted => exact ih
    | wouldBlock => rfl
    | failed => rfl

theorem manyRecvs_zero (cuts : List Cut) : manyRecvs 0 cuts = 0 := by
  induction cuts with
  | nil => rfl
  | cons cut cuts ih =>
    cases cut with
    | upTo n => rw [manyRecvs, Nat.min_zero, if_pos rfl]
    | interrupted => exact ih
    | wouldBlock => rfl
    | failed => rfl

/-- A second piece counts only where the first one was there in full. -/
theorem take_more {α : Type*} {l : List α} {k m m' : Nat} (same : k ≤ l.length → m = m') :
    l.take k ++ (l.drop k).take m = l.take (k + m') := by
  rcases Nat.le_total k l.length with enough | short
  · rw [same enough, List.take_add]
  · rw [List.drop_eq_nil_of_le short, List.take_nil, List.append_nil, List.take_of_length_le short,
      List.take_of_length_le (by omega)]

/-- Without an error `read_all` hands over, behind what it has, all that its calls of `recv` take. -/
theorem readAllLoop_spec (s : Socket) (total : Bytes) (remaining : Nat) (cuts : List Cut)
    (errors : Cut.failed ∉ cuts) :
    let r := readAllLoop s total remaining cuts
    let bytes := s.incoming.take (manyRecvs remaining cuts)
    handed r.1 = total ++ bytes ∧ s.Takes bytes r.2.1 ∧ r.2.2 <:+ cuts := by
  induction cuts generalizing s total remaining with
  | nil =>
    unfold readAllLoop
    split <;> exact ⟨(List.append_nil _).symm, .refl s, List.suffix_rfl⟩
  | cons cut cuts ih =>
    unfold readAllLoop
    split
    · cases cut with
      | upTo n =>
        have takes := s.takes_upTo (min n remaining)
        simp only [Socket.recv, manyRecvs]
        cases got : s.incoming.take (min n remaining) with
        | nil =>
          -- nothing was delivered: there is no room, or the stream has ended
          rw [got] at takes
          have none_ : s.incoming.take (if min n remaining = 0 then 0
              else min n remaining + manyRecvs (remaining - min n remaining) cuts) = [] := by
            rcases List.take_eq_nil_iff.1 got with room | ended
            · rw [if_pos room, List.take_zero]
            · rw [ended, List.take_nil]
          simp only [none_]
          exact ⟨(List.append_nil _).symm, takes, List.suffix_cons _ _⟩
        | cons b bytes =>
          rw [got] at takes
          obtain ⟨eq, more, suffix⟩ := ih ⟨s.incoming.drop (min n remaining), s.taken ++ b :: bytes⟩
            (total ++ b :: bytes) (remaining - (b :: bytes).length) (fun mem => errors (.tail _ mem))
          have both : b :: bytes ++ (s.incoming.drop (min n remaining)).take
              (manyRecvs (remaining - (b :: bytes).length) cuts) =
              s.incoming.take (if min n remaining = 0 then 0
                else min n remaining + manyRecvs (remaining - min n remaining) cuts) := by
            have room : min n remaining ≠ 0 := by
              intro zero
              rw [zero, List.take_zero] at got
              cases got
            rw [← got, if_neg room]
            refine take_more fun enough => ?_
            rw [List.length_take, Nat.min_eq_left enough]
          rw [← both]
          refine ⟨?_, takes.trans more, suffix.trans (List.suffix_cons _ _)⟩
          rw [eq, List.append_assoc]
      | interrupted =>
        obtain ⟨eq, takes, suffix⟩ := ih s total remaining fun mem => errors (.tail _ mem)
        exact ⟨eq, takes, suffix.trans (List.suffix_cons _ _)⟩
      | wouldBlock => exact ⟨(List.append_nil _).symm, .refl s, List.suffix_cons _ _⟩
      | failed => exact absurd List.mem_cons_self errors
    · rename_i full
      rw [Nat.eq_zero_of_not_pos full, manyRecvs_zero]
      exact ⟨by rw [List.take_zero, List.append_nil]; rfl, .refl s, List.suffix_rfl⟩

/-- `read_until` splits what was buffered and what it takes. -/
theorem readUntilLoop_spec (delimiter : Bytes) (maxSize : Nat) (s : Socket) (readBuffer : Bytes)
    (cuts : List Cut) :
    let u := readUntilLoop delimiter maxSize s readBuffer cuts
    ∃ bytes, u.buffer.getD [] ++ u.readBuffer = readBuffer ++ bytes ∧ s.Takes bytes u.socket ∧
      u.cuts <:+ cuts := by
  induction cuts generalizing s readBuffer with
  | nil =>
    unfold readUntilLoop
    split <;> exact ⟨[], by simp, .refl s, List.suffix_rfl⟩
  | cons cut cuts ih =>
    unfold readUntilLoop
    split
    · cases cut with
      | upTo n =>
        have takes := s.takes_upTo (min n (min chunkSize (maxSize - readBuffer.length)))
        simp only [Socket.recv]
        cases got : s.incoming.take (min n (min chunkSize (maxSize - readBuffer.length))) with
        | nil =>
          rw [got] at takes
          exact ⟨[], by simp, takes, List.suffix_cons _ _⟩
        | cons b bytes =>
          rw [got] at takes
          dsimp only
          split
          · exact ⟨b :: bytes, by simp, takes, List.suffix_cons _ _⟩
          · obtain ⟨more, eq, takes', suffix⟩ :=
              ih ⟨s.incoming.drop (min n (min chunkSize (maxSize - readBuffer.length))), s.taken ++ b :: bytes⟩
                (readBuffer ++ b :: bytes)
            exact ⟨b :: bytes ++ more, by rw [eq, List.append_assoc], takes.trans takes',
              suffix.trans (List.suffix_cons _ _)⟩
      | interrupted =>
        obtain ⟨bytes, eq, takes, suffix⟩ := ih s readBuffer
        exact ⟨bytes, eq, takes, suffix.trans (List.suffix_cons _ _)⟩
      | wouldBlock => exact ⟨[], by simp [Socket.recv], .refl s, List.suffix_cons _ _⟩
      | failed => exact ⟨[], by simp [Socket.recv], .refl s, List.suffix_cons _ _⟩
    · exact ⟨[], by simp, .refl s, List.suffix_rfl⟩

/-- `read_some` hands over what arrives, and leaves the buffer as it is. -/
theorem readSome_spec (c : Connection) (maxSize : Nat) :
    handed (c.readSome maxSize).1 = c.arriving (.readSome maxSize) ∧
      c.socket.Takes (c.arriving (.readSome maxSize)) (c.readSome maxSize).2.socket ∧
      (c.readSome maxSize).2.cuts <:+ c.cuts ∧ (c.readSome maxSize).2.readBuffer = c.readBuffer := by
  obtain ⟨eq, takes, suffix⟩ := readSomeLoop_spec c.socket maxSize c.cuts
  unfold readSome arriving
  cases c.isOpen with
  | false => exact ⟨rfl, .refl _, List.suffix_rfl, rfl⟩
  | true =>
    by_cases room : maxSize = 0
    · simp only [Bool.not_true, Bool.false_or, room, beq_self_eq_true, if_true, oneRecv_zero, List.take_zero]
      exact ⟨rfl, .refl _, List.suffix_rfl, trivial⟩
    · simp only [Bool.not_true, Bool.false_or, beq_eq_false_iff_ne.2 room, if_true, Bool.false_eq_true, if_false]
      exact ⟨eq, eq ▸ takes, suffix, trivial⟩

theorem readAll_spec (c : Connection) (maxSize : Nat) (errors : Cut.failed ∉ c.cuts) :
    handed (c.readAll maxSize).1 = c.arriving (.readAll maxSize) ∧
      c.socket.Takes (c.arriving (.readAll maxSize)) (c.readAll maxSize).2.socket ∧
      (c.readAll maxSize).2.cuts <:+ c.cuts ∧ (c.readAll maxSize).2.readBuffer = c.readBuffer := by
  obtain ⟨eq, takes, suffix⟩ := readAllLoop_spec c.socket [] maxSize c.cuts errors
  unfold readAll arriving
  cases c.isOpen with
  | false => exact ⟨rfl, .refl _, List.suffix_rfl, rfl⟩
  | true =>
    by_cases room : maxSize = 0
    · simp only [Bool.not_true, Bool.false_or, room, beq_self_eq_true, if_true, manyRecvs_zero, List.take_zero]
      exact ⟨rfl, .refl _, List.suffix_rfl, trivial⟩
    · simp only [Bool.not_true, Bool.false_or, beq_eq_false_iff_ne.2 room, if_true, Bool.false_eq_true, if_false]
      exact ⟨eq, takes, suffix, trivial⟩

/-- `read_until` hands over the front of what it has and what it takes, and keeps the rest. -/
theorem readUntil_spec (c : Connection) (delimiter : Bytes) (maxSize : Nat) :
    ∃ bytes, (c.readUntil delimiter maxSize).1.getD [] ++ (c.readUntil delimiter maxSize).2.readBuffer =
        c.readBuffer ++ bytes ∧
      c.socket.Takes bytes (c.readUntil delimiter maxSize).2.socket ∧
      (c.readUntil delimiter maxSize).2.cuts <:+ c.cuts := by
  unfold readUntil
  cases c.isOpen with
  | false => exact ⟨[], (List.append_nil _).symm, .refl _, List.suffix_rfl⟩
  | true =>
    cases find delimiter c.readBuffer with
    | some pos => exact ⟨[], by simp, .refl _, List.suffix_rfl⟩
    | none => exact readUntilLoop_spec delimiter maxSize c.socket c.readBuffer c.cuts

/-- A call keeps the script, and hands over what `InOrder` compares with the buffer. -/
theorem call_spec (c : Connection) (call : Call) (errors : Cut.failed ∉ c.cuts) :
    ∃ bytes, c.socket.Takes bytes (c.call call).2.socket ∧ (c.call call).2.cuts <:+ c.cuts ∧
      ((c.call call).1 ++ (c.call call).2.readBuffer = c.readBuffer ++ bytes ↔ c.InOrder call) := by
  cases call with
  | readSome maxSize =>
    obtain ⟨eq, takes, suffix, buffer⟩ := c.readSome_spec maxSize
    refine ⟨_, takes, suffix, ?_⟩
    unfold Connection.call InOrder
    dsimp only
    rw [eq, buffer]
  | readAll maxSize =>
    obtain ⟨eq, takes, suffix, buffer⟩ := c.readAll_spec maxSize errors
    refine ⟨_, takes, suffix, ?_⟩
    unfold Connection.call InOrder
    dsimp only
    rw [eq, buffer]
  | readUntil delimiter maxSize =>
    obtain ⟨bytes, eq, takes, suffix⟩ := c.readUntil_spec delimiter maxSize
    exact ⟨bytes, takes, suffix, iff_of_true eq (List.append_nil _).symm⟩

end Connection

/-! ## Runs -/

theorem replay_concat (c : Connection) (calls : List Call) (call : Call) :
    replay c (calls ++ [call]) = (replay c calls).call call := by
  simp [replay]

theorem replay_cuts (c : Connection) (calls : List Call) (errors : Cut.failed ∉ c.cuts) :
    Cut.failed ∉ (replay c calls).conn.cuts := by
  induction calls using List.reverseRecOn with
  | nil => exact errors
  | append_singleton calls call ih =>
    rw [replay_concat]
    obtain ⟨_, _, suffix, _⟩ := (replay c calls).conn.call_spec call ih
    exact fun mem => ih (suffix.subset mem)

/-- A call keeps the stream whole just when the buffer and what arrives are in order. -/
theorem History.call_whole {h : History} (call : Call) (errors : Cut.failed ∉ h.conn.cuts)
    (whole : h.Whole) : (h.call call).Whole ↔ h.conn.InOrder call := by
  obtain ⟨bytes, takes, -, order⟩ := h.conn.call_spec call errors
  rw [← order]
  unfold Whole History.call at *
  dsimp only
  rw [takes.taken, ← whole, List.append_assoc, List.append_assoc, List.append_cancel_left_eq]

/-- **One byte stream**: what is handed over is always the stream in order, as long as every call of
`read_some` and `read_all` finds the buffer and what arrives in order, and no longer. -/
theorem one_stream_iff (isOpen : Bool) (stream : Bytes) (cuts : List Cut) (calls : List Call)
    (errors : Cut.failed ∉ cuts) :
    (∀ front, front <+: calls → (replay (opened isOpen stream cuts) front).Whole) ↔
      ∀ front call, front ++ [call] <+: calls →
        (replay (opened isOpen stream cuts) front).conn.InOrder call := by
  have kept (front : List Call) : Cut.failed ∉ (replay (opened isOpen stream cuts) front).conn.cuts :=
    replay_cuts _ front errors
  constructor
  · intro whole front call next
    rw [← History.call_whole call (kept front) (whole front ((List.prefix_append _ _).trans next)), ← replay_concat]
    exact whole _ next
  · intro order front
    induction front using List.reverseRecOn with
    | nil => exact fun _ => rfl
    | append_singleton front call ih =>
      intro next
      rw [replay_concat, History.call_whole call (kept front) (ih ((List.prefix_append _ _).trans next))]
      exact order front call next

/-- The rest of the stream arrives behind the line. -/
theorem one_stream_line :
    (replay (opened true (ascii "a\r\nb") [.upTo 3, .upTo 1]) [.readUntil (ascii "\r\n") 100, .readSome 10]).Whole ∧
      (replay (opened true (ascii "a\r\nb") [.upTo 3, .upTo 1])
        [.readUntil (ascii "\r\n") 100, .readSome 10]).handed = ascii "a\r\nb" := by
  refine ⟨(one_stream_iff true (ascii "a\r\nb") [.upTo 3, .upTo 1]
    [.readUntil (ascii "\r\n") 100, .readSome 10] (by decide)).2 (fun front call next => ?_) _ List.prefix_rfl, rfl⟩
  match front, next with
  | [], next =>
    obtain ⟨rfl, -⟩ := List.cons_prefix_cons.1 next
    rfl
  | [first], next =>
    obtain ⟨rfl, second⟩ := List.cons_prefix_cons.1 next
    obtain ⟨rfl, -⟩ := List.cons_prefix_cons.1 second
    rfl
  | _ :: _ :: _, next =>
    have := next.length_le
    simp at this

/-- `read_some` passes over what `read_until` has read ahead. -/
theorem one_stream_overtaken :
    ¬ ∀ front, front <+: [Call.readUntil (ascii "\r\n") 100, .readSome 10] →
      (replay (opened true (ascii "a\r\nbc") [.upTo 4, .upTo 1]) front).Whole := by
  intro whole
  exact absurd (whole _ List.prefix_rfl) (by unfold History.Whole; decide)

end Reading

end HttpServer
