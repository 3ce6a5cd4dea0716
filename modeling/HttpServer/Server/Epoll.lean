import HttpServer.Server.Session

/-!
# The event-driven server

One connection of the epoll server: its state `EpollConnection`, the interest it
is registered with, and the handlers `handleRead` and `handleWrite`. A round of
the event loop reports an event in the registered direction. The run keeps the
invariant that the events so far and those the session still has to show make up
the session's trace (`Shows`), so in the end it has played the session
(`serve_play`).
-/

namespace HttpServer

/-- `EpollConnection::State`. -/
inductive ConnectionState where
  | reading
  | writing
  | closing
  deriving DecidableEq, Repr

structure EpollConnection where
  parser : HttpParser := {}
  writeBuffer : Bytes := []
  writeOffset : Nat := 0
  requestCount : Nat := 0
  keepAlive : Bool := true
  state : ConnectionState := .reading

/-- The direction a descriptor is registered for, edge-triggered. -/
inductive Interest where
  | epollin
  | epollout
  deriving DecidableEq, Repr

/-- A connection in the table and its registration. -/
structure Watched where
  conn : EpollConnection := {}
  interest : Interest := .epollin

/-- `EpollServer`; `router` gives none where an exception leaves `Router::route`. -/
structure EpollServer where
  router : Option (Request → Option Response) := none
  enableKeepalive : Bool := true
  maxRequestsPerConn : Int := 1000
  platform : Platform

/-- The event loop as far as it concerns one connection. The connection is gone once it is
closed, or when an exception ends the loop. -/
structure EventLoop where
  trace : List Event := []
  watched : Option Watched := some {}
  recvs : List RecvOutcome
  sends : List SendOutcome

/-- `econn.write_offset += bytes`. -/
def Watched.advance (w : Watched) (bytes : Nat) : Watched :=
  { w with conn := { w.conn with writeOffset := w.conn.writeOffset + bytes } }

namespace EventLoop

def log (l : EventLoop) (e : Event) : EventLoop := { l with trace := l.trace ++ [e] }

/-- `close_connection`. -/
def close (l : EventLoop) : EventLoop := { l.log .closed with watched := none }

@[simp] theorem log_trace (l : EventLoop) (e : Event) : (l.log e).trace = l.trace ++ [e] := rfl
@[simp] theorem log_watched (l : EventLoop) (e : Event) : (l.log e).watched = l.watched := rfl
@[simp] theorem log_recvs (l : EventLoop) (e : Event) : (l.log e).recvs = l.recvs := rfl
@[simp] theorem log_sends (l : EventLoop) (e : Event) : (l.log e).sends = l.sends := rfl
@[simp] theorem close_trace (l : EventLoop) : l.close.trace = l.trace ++ [.closed] := rfl
@[simp] theorem close_watched (l : EventLoop) : l.close.watched = none := rfl
@[simp] theorem close_recvs (l : EventLoop) : l.close.recvs = l.recvs := rfl
@[simp] theorem close_sends (l : EventLoop) : l.close.sends = l.sends := rfl

end EventLoop

namespace EpollServer

/-- The end of `handle_write`, when the buffer is written. -/
def finishWrite (s : EpollServer) (w : Watched) (l : EventLoop) : EventLoop :=
  let l := l.log (.responded w.conn.writeBuffer)
  if !w.conn.keepAlive ∨ s.maxRequestsPerConn ≤ w.conn.requestCount then l.close
  else
    { l with
      watched := some {
        conn := { w.conn with
          parser := w.conn.parser.reset
          writeBuffer := []
          writeOffset := 0
          state := .reading }
        interest := .epollin } }

/-- The loop of `handle_write`, on the given outcomes of `send`. -/
def writeLoop (s : EpollServer) (w : Watched) (l : EventLoop) (sends : List SendOutcome) : EventLoop :=
  if w.conn.writeOffset < w.conn.writeBuffer.length then
    let data := w.conn.writeBuffer.drop w.conn.writeOffset
    let remaining := w.conn.writeBuffer.length - w.conn.writeOffset
    match sends with
    | [] => s.finishWrite (w.advance remaining) { l.log (.sent data) with sends := [] }
    | .sent n :: sends =>
      let bytes := min n remaining
      s.writeLoop (w.advance bytes) (l.log (.sent (data.take bytes))) sends
    | .wouldBlock :: sends => { l with watched := some w, sends }
    | .interrupted :: sends => s.writeLoop w l sends
    | .failed :: sends | .broken :: sends => { l.close with sends }
  else s.finishWrite w { l with sends }

def handleWrite (s : EpollServer) (w : Watched) (l : EventLoop) : EventLoop := s.writeLoop w l l.sends

/-- The response of `handle_read` to a complete request. -/
def respond (s : EpollServer) (req : Request) : Option Response :=
  match s.router with
  | some route => route req
  | none => some (Response.error .internalServerError [])

/-- The loop of `handle_read`, on the given outcomes of `recv`. -/
def readLoop (s : EpollServer) (w : Watched) (l : EventLoop) : List RecvOutcome → EventLoop
  | [] => { l with watched := some w, recvs := [] }
  | .wouldBlock :: recvs => { l with watched := some w, recvs }
  | .interrupted :: recvs => s.readLoop w l recvs
  | .failed :: recvs => { l.close with recvs }
  | .data c :: recvs =>
    let l := l.log (.received c)
    if c = [] then { l.close with recvs }
    else
      match w.conn.parser.feed c with
      | (parser, .complete) =>
        let (req, parser) := parser.getRequest
        let keepAlive := s.enableKeepalive && req.shouldKeepAlive
        match s.respond req with
        | none => { l.log .threw with watched := none, recvs }
        | some res =>
          let w := {
            conn := { w.conn with
              parser
              writeBuffer := serialize s.platform w.conn.requestCount { res with keepAlive }
              writeOffset := 0
              keepAlive
              requestCount := w.conn.requestCount + 1
              state := .writing }
            interest := .epollout }
          s.handleWrite w { l with recvs }
      | (parser, .error) =>
        let res := { Response.error parser.errorCode [] with keepAlive := false }
        let w := {
          conn := { w.conn with
            parser
            writeBuffer := serialize s.platform w.conn.requestCount res
            writeOffset := 0
            keepAlive := false
            state := .writing }
          interest := .epollout }
        s.handleWrite w { l with recvs }
      | (parser, .incomplete) => s.readLoop { w with conn := { w.conn with parser } } l recvs

def handleRead (s : EpollServer) (w : Watched) (l : EventLoop) : EventLoop := s.readLoop w l l.recvs

/-- One event for the connection, in the direction it is registered for; none when it is gone
or waits for input that does not come. -/
def round (s : EpollServer) (l : EventLoop) : EventLoop ⊕ EventLoop :=
  match l.watched with
  | none => .inl l
  | some w =>
    match w.interest with
    | .epollin => if l.recvs = [] then .inl l else .inr (s.handleRead w l)
    | .epollout => .inr (s.handleWrite w l)

/-- An upper bound on the events still to come. -/
def rank (l : EventLoop) : Nat :=
  match l.watched with
  | none => 0
  | some w => 2 * l.recvs.length + l.sends.length + if w.interest = .epollout then 1 else 0

/-- The events of a connection on a socket with the given outcomes. -/
def serve (s : EpollServer) (recvs : List RecvOutcome) (sends : List SendOutcome) : List Event :=
  (Loop.run s.round rank { recvs, sends }).trace

/-! ## The loop ends -/

/-- A write handler leaves the input alone, and it uses an outcome unless it finishes. -/
theorem writeLoop_sizes (s : EpollServer) (sends : List SendOutcome) (w : Watched) (l : EventLoop) :
    (s.writeLoop w l sends).recvs = l.recvs ∧
    (s.writeLoop w l sends).sends.length ≤ sends.length ∧
    ∀ w', (s.writeLoop w l sends).watched = some w' → w'.interest = .epollin ∨
      (s.writeLoop w l sends).sends.length < sends.length := by
  have finish : ∀ w l, (s.finishWrite w l).recvs = l.recvs ∧ (s.finishWrite w l).sends = l.sends ∧
      ∀ w', (s.finishWrite w l).watched = some w' → w'.interest = .epollin := by
    intro w l
    unfold finishWrite
    dsimp only
    split
    · exact ⟨rfl, rfl, fun w' h => by cases h⟩
    · refine ⟨rfl, rfl, fun w' h => ?_⟩
      cases h
      rfl
  induction sends generalizing w l with
  | nil =>
    unfold writeLoop
    split
    · obtain ⟨recvs, sends, closed⟩ := finish (w.advance (w.conn.writeBuffer.length - w.conn.writeOffset))
        { l.log (.sent (w.conn.writeBuffer.drop w.conn.writeOffset)) with sends := [] }
      exact ⟨recvs, by rw [sends], fun w' h => .inl (closed w' h)⟩
    · obtain ⟨recvs, sends, closed⟩ := finish w { l with sends := [] }
      exact ⟨recvs, by rw [sends], fun w' h => .inl (closed w' h)⟩
  | cons o sends ih =>
    unfold writeLoop
    split
    · cases o with
      | sent n =>
        obtain ⟨recvs, fewer, closed⟩ := ih
          (w.advance (min n (w.conn.writeBuffer.length - w.conn.writeOffset)))
          (l.log (.sent ((w.conn.writeBuffer.drop w.conn.writeOffset).take
            (min n (w.conn.writeBuffer.length - w.conn.writeOffset)))))
        exact ⟨recvs, Nat.le_succ_of_le fewer, fun w' h => .inr (Nat.lt_succ_of_le fewer)⟩
      | interrupted =>
        obtain ⟨recvs, fewer, -⟩ := ih w l
        exact ⟨recvs, Nat.le_succ_of_le fewer, fun w' h => .inr (Nat.lt_succ_of_le fewer)⟩
      | wouldBlock => exact ⟨rfl, Nat.le_succ _, fun w' h => .inr (Nat.lt_succ_self _)⟩
      | failed => exact ⟨rfl, Nat.le_succ _, fun w' h => .inr (Nat.lt_succ_self _)⟩
      | broken => exact ⟨rfl, Nat.le_succ _, fun w' h => .inr (Nat.lt_succ_self _)⟩
    · obtain ⟨recvs, same, closed⟩ := finish w { l with sends := o :: sends }
      exact ⟨recvs, by rw [same], fun w' h => .inl (closed w' h)⟩

/-- A read handler uses at least one outcome of `recv`. -/
theorem readLoop_sizes (s : EpollServer) (recvs : List RecvOutcome) (w : Watched) (l : EventLoop) :
    (s.readLoop w l recvs).recvs.length ≤ recvs.length - 1 ∧
    (s.readLoop w l recvs).sends.length ≤ l.sends.length := by
  have written : ∀ w (l : EventLoop), (s.handleWrite w l).recvs.length ≤ l.recvs.length ∧
      (s.handleWrite w l).sends.length ≤ l.sends.length := fun w l =>
    ⟨(congrArg List.length (s.writeLoop_sizes l.sends w l).1).le, (s.writeLoop_sizes l.sends w l).2.1⟩
  induction recvs generalizing w l with
  | nil => exact ⟨Nat.le_refl _, Nat.le_refl _⟩
  | cons o recvs ih =>
    cases o with
    | wouldBlock => exact ⟨Nat.le_refl _, Nat.le_refl _⟩
    | failed => exact ⟨Nat.le_refl _, Nat.le_refl _⟩
    | interrupted =>
      obtain ⟨fewer, sends⟩ := ih w l
      exact ⟨fewer.trans (Nat.sub_le _ _), sends⟩
    | data c =>
      simp only [readLoop, List.length_cons, Nat.add_sub_cancel]
      by_cases eof : c = []
      · simp only [if_pos eof]
        exact ⟨Nat.le_refl _, Nat.le_refl _⟩
      · simp only [if_neg eof]
        split
        · split
          · exact ⟨Nat.le_refl _, Nat.le_refl _⟩
          · exact written _ _
        · exact written _ _
        · obtain ⟨fewer, sends⟩ := ih { w with conn := { w.conn with parser := _ } }
            (l.log (.received c))
          exact ⟨fewer.trans (Nat.sub_le _ _), sends⟩

theorem round_decreases (s : EpollServer) : Loop.Decreases s.round rank := by
  intro l l' h
  unfold round at h
  split at h
  · cases h
  · rename_i w watched
    split at h
    · rename_i interest
      split at h
      · cases h
      · rename_i more
        cases h
        have := List.length_pos_of_ne_nil more
        obtain ⟨fewer, sends⟩ := s.readLoop_sizes l.recvs w l
        change _ ≤ _ at fewer
        unfold rank
        simp only [watched, interest]
        unfold handleRead
        split
        · simp
          omega
        · split <;> simp <;> omega
    · rename_i interest
      cases h
      obtain ⟨recvs, fewer, open_⟩ := s.writeLoop_sizes l.sends w l
      unfold rank
      simp only [watched, interest]
      unfold handleWrite
      split
      · simp
      · rename_i w' watched'
        rw [recvs]
        rcases open_ w' watched' with input | less
        · simp [input]
          omega
        · split <;> simp <;> omega

end EpollServer

/-- The event-driven server of a policy. -/
def Policy.epollServer (P : Policy) : EpollServer where
  router := some fun q => some (P.answer q)
  enableKeepalive := P.keepalive
  maxRequestsPerConn := P.limit
  platform := P.platform

/-! ## The session is played -/

/-- No error on input. -/
def HealthyReads (recvs : List RecvOutcome) : Prop := ∀ o ∈ recvs, o ≠ .failed

/-- No error on output. -/
def HealthySends (sends : List SendOutcome) : Prop := ∀ o ∈ sends, o ≠ .failed ∧ o ≠ .broken

/-- What the session does behind the response in the buffer. -/
def Policy.behind (P : Policy) (c : EpollConnection) (cs : List Bytes) : List Event :=
  if c.keepAlive = true ∧ (c.requestCount : Int) < P.limit then play P ⟨{}, c.requestCount⟩ cs
  else [.closed]

/-- What the session of a connection still has to show. -/
def Policy.ahead (P : Policy) (l : EventLoop) : List Event :=
  match l.watched with
  | none => []
  | some w =>
    match w.interest with
    | .epollin => play P ⟨w.conn.parser, w.conn.requestCount⟩ (chunks l.recvs)
    | .epollout => .responded w.conn.writeBuffer :: P.behind w.conn (chunks l.recvs)

/-- The part of a response already sent. -/
def EventLoop.partly (l : EventLoop) : Bytes :=
  match l.watched with
  | none => []
  | some w =>
    match w.interest with
    | .epollin => []
    | .epollout => w.conn.writeBuffer.take w.conn.writeOffset

/-- The run so far and what the session still has to show make up the trace `goal`. -/
structure Shows (P : Policy) (goal : List Event) (l : EventLoop) : Prop where
  reads : HealthyReads l.recvs
  sends : HealthySends l.sends
  inside : ∀ w, l.watched = some w → w.conn.writeOffset ≤ w.conn.writeBuffer.length
  trace : visible l.trace ++ P.ahead l = goal
  bytes : bytesSent l.trace = (responses (visible l.trace)).flatten ++ l.partly

namespace EpollServer

theorem visible_sent_last (t : List Event) (p : Bytes) : visible (t ++ [.sent p]) = visible t := by
  simp

/-- The end of a response, seen by the session. -/
theorem finishWrite_shows {P : Policy} {goal : List Event} {w : Watched} {l : EventLoop}
    (reads : HealthyReads l.recvs) (sends : HealthySends l.sends)
    (trace : visible l.trace ++ .responded w.conn.writeBuffer :: P.behind w.conn (chunks l.recvs) = goal)
    (bytes : bytesSent l.trace = (responses (visible l.trace)).flatten ++ w.conn.writeBuffer) :
    Shows P goal (P.epollServer.finishWrite w l) := by
  unfold finishWrite
  dsimp only
  split
  · rename_i stop
    have closed : P.behind w.conn (chunks l.recvs) = [.closed] := by
      apply if_neg
      rintro ⟨keep, less⟩
      rcases stop with stop | stop
      · simp [keep] at stop
      · change P.limit ≤ _ at stop
        omega
    rw [closed] at trace
    refine ⟨reads, sends, by rintro w' ⟨⟩, ?_, ?_⟩
    · simpa [Policy.ahead] using trace
    · simpa [EventLoop.partly] using bytes
  · rename_i go
    have on : P.behind w.conn (chunks l.recvs) = play P ⟨{}, w.conn.requestCount⟩ (chunks l.recvs) := by
      apply if_pos
      rw [not_or] at go
      have less : ¬ P.limit ≤ w.conn.requestCount := go.2
      exact ⟨by simpa using go.1, by omega⟩
    rw [on] at trace
    refine ⟨reads, sends, ?_, ?_, ?_⟩
    · intro w' h
      cases h
      exact Nat.le_refl _
    · simpa [Policy.ahead, HttpParser.reset] using trace
    · simpa [EventLoop.partly] using bytes

/-- Writing goes on where it stopped. -/
theorem writeLoop_shows {P : Policy} {goal : List Event} {sends : List SendOutcome} {w : Watched}
    {l : EventLoop} (out : w.interest = .epollout) (inside : w.conn.writeOffset ≤ w.conn.writeBuffer.length)
    (reads : HealthyReads l.recvs) (healthy : HealthySends sends)
    (trace : visible l.trace ++ .responded w.conn.writeBuffer :: P.behind w.conn (chunks l.recvs) = goal)
    (bytes : bytesSent l.trace =
      (responses (visible l.trace)).flatten ++ w.conn.writeBuffer.take w.conn.writeOffset) :
    Shows P goal (P.epollServer.writeLoop w l sends) := by
  induction sends generalizing w l with
  | nil =>
    unfold writeLoop
    split
    · apply finishWrite_shows
      · exact reads
      · exact healthy
      · rw [EventLoop.log_trace, visible_sent_last]
        exact trace
      · simp [Watched.advance, bytes]
    · rw [List.take_of_length_le (by omega)] at bytes
      exact @finishWrite_shows P goal w { l with sends := [] } reads healthy trace bytes
  | cons o sends ih =>
    have rest : HealthySends sends := fun o' h => healthy o' (List.mem_cons_of_mem o h)
    unfold writeLoop
    split
    · cases o with
      | sent n =>
        dsimp only
        apply ih
        · exact out
        · simp only [Watched.advance]
          omega
        · exact reads
        · exact rest
        · rw [EventLoop.log_trace, visible_sent_last]
          exact trace
        · simp [Watched.advance, bytes, List.take_add]
      | interrupted => exact ih out inside reads rest trace bytes
      | wouldBlock =>
        refine ⟨reads, rest, ?_, ?_, ?_⟩
        · intro w' h
          cases h
          exact inside
        · simpa [Policy.ahead, out] using trace
        · simpa [EventLoop.partly, out] using bytes
      | failed => exact absurd rfl (healthy _ (by simp)).1
      | broken => exact absurd rfl (healthy _ (by simp)).2
    · rw [List.take_of_length_le (by omega)] at bytes
      exact @finishWrite_shows P goal w { l with sends := o :: sends } reads healthy trace bytes

theorem behind_closed {P : Policy} {c : EpollConnection} (h : c.keepAlive = false) (cs : List Bytes) :
    P.behind c cs = [.closed] := by
  simp [Policy.behind, h]

/-- Behind the answer to `q` the server goes on when the session does. -/
theorem behind_open {P : Policy} {c : EpollConnection} {q : Request} {k : Nat}
    (keeps : c.keepAlive = P.keeps q) (count : c.requestCount = k + 1) (cs : List Bytes) :
    P.behind c cs =
      if P.keeps q = true ∧ (k + 1 : Int) < P.limit then play P ⟨{}, k + 1⟩ cs else [.closed] := by
  unfold Policy.behind
  rw [keeps, count]
  push_cast
  rfl

/-- A read handler shows what the session does with the chunks it reads. -/
theorem readLoop_shows {P : Policy} {goal : List Event} {recvs : List RecvOutcome} {w : Watched}
    {l : EventLoop} (in_ : w.interest = .epollin) (inside : w.conn.writeOffset ≤ w.conn.writeBuffer.length)
    (healthy : HealthyReads recvs) (sends : HealthySends l.sends)
    (trace : visible l.trace ++ play P ⟨w.conn.parser, w.conn.requestCount⟩ (chunks recvs) = goal)
    (bytes : bytesSent l.trace = (responses (visible l.trace)).flatten) :
    Shows P goal (P.epollServer.readLoop w l recvs) := by
  induction recvs generalizing w l with
  | nil =>
    refine ⟨healthy, sends, ?_, ?_, ?_⟩
    · intro w' h
      cases h
      exact inside
    · simpa [Policy.ahead, readLoop, in_] using trace
    · simpa [EventLoop.partly, readLoop, in_] using bytes
  | cons o recvs ih =>
    have rest : HealthyReads recvs := fun o' h => healthy o' (List.mem_cons_of_mem o h)
    cases o with
    | failed => exact absurd rfl (healthy _ (by simp))
    | interrupted => exact ih in_ inside rest sends trace bytes
    | wouldBlock =>
      refine ⟨rest, sends, ?_, ?_, ?_⟩
      · intro w' h
        cases h
        exact inside
      · simpa [Policy.ahead, readLoop, in_] using trace
      · simpa [EventLoop.partly, readLoop, in_] using bytes
    | data c =>
      simp only [chunks_data, play] at trace
      simp only [readLoop]
      by_cases eof : c = []
      · simp only [if_pos eof] at trace ⊢
        refine ⟨rest, sends, by rintro w' ⟨⟩, ?_, ?_⟩
        · simpa [Policy.ahead, eof] using trace
        · simpa [EventLoop.partly] using bytes
      · simp only [if_neg eof] at trace ⊢
        have read : bytesSent (l.log (.received c)).trace =
            (responses (visible (l.log (.received c)).trace)).flatten := by simpa using bytes
        cases result : (w.conn.parser.feed c).2 with
        | incomplete =>
          rw [feed_verdict_incomplete result] at trace
          rw [show w.conn.parser.feed c = ((w.conn.parser.feed c).1, .incomplete) by rw [← result]]
          refine ih in_ inside rest sends ?_ read
          simpa using trace
        | complete =>
          rw [feed_verdict_complete result] at trace
          rw [show w.conn.parser.feed c = ((w.conn.parser.feed c).1, .complete) by rw [← result]]
          refine writeLoop_shows rfl (Nat.zero_le _) rest sends ?_ (by simpa using read)
          rw [@behind_open P _ (w.conn.parser.feed c).1.request w.conn.requestCount rfl rfl]
          rw [EventLoop.log_trace, visible_append, List.append_assoc]
          exact trace
        | error =>
          rw [feed_verdict_error result] at trace
          rw [show w.conn.parser.feed c = ((w.conn.parser.feed c).1, .error) by rw [← result]]
          refine writeLoop_shows rfl (Nat.zero_le _) rest sends ?_ (by simpa using read)
          rw [behind_closed rfl]
          rw [EventLoop.log_trace, visible_append, List.append_assoc]
          exact trace

/-- A round of the event loop keeps the invariant; when there is none the session is over. -/
theorem round_shows {P : Policy} {goal : List Event} {l : EventLoop} (h : Shows P goal l) :
    (∀ l', P.epollServer.round l = .inr l' → Shows P goal l') ∧
    (∀ l', P.epollServer.round l = .inl l' → Delivers l'.trace goal) := by
  obtain ⟨reads, sends, inside, trace, bytes⟩ := h
  unfold round
  cases watched : l.watched with
  | none =>
    refine ⟨by rintro l' ⟨⟩, ?_⟩
    rintro l' ⟨⟩
    simp only [Policy.ahead, EventLoop.partly, watched, List.append_nil] at trace bytes
    exact ⟨trace, trace ▸ bytes⟩
  | some w =>
    cases interest : w.interest with
    | epollin =>
      simp only [Policy.ahead, EventLoop.partly, watched, interest, List.append_nil] at trace bytes
      by_cases idle : l.recvs = []
      · refine ⟨by simp [interest, idle], ?_⟩
        intro l' h
        simp only [interest, idle, if_true, Sum.inl.injEq] at h
        subst h
        simp only [idle, chunks_nil, play, List.append_nil] at trace
        exact ⟨trace, trace ▸ bytes⟩
      · refine ⟨?_, by simp [interest, idle]⟩
        intro l' h
        simp only [interest, idle, if_false, Sum.inr.injEq] at h
        subst h
        exact readLoop_shows interest (inside w watched) reads sends trace bytes
    | epollout =>
      simp only [Policy.ahead, EventLoop.partly, watched, interest] at trace bytes
      refine ⟨?_, by simp [interest]⟩
      intro l' h
      simp only [interest, Sum.inr.injEq] at h
      subst h
      exact writeLoop_shows interest (inside w watched) reads sends trace bytes

/-- **The event-driven server plays the session.** -/
theorem serve_play (P : Policy) {recvs : List RecvOutcome} {sends : List SendOutcome}
    (reads : HealthyReads recvs) (healthy : HealthySends sends) :
    Delivers (P.epollServer.serve recvs sends) (play P {} (chunks recvs)) := by
  have start : Shows P (play P {} (chunks recvs)) { recvs, sends } :=
    ⟨reads, healthy, by rintro w ⟨⟩; exact Nat.le_refl _, rfl, rfl⟩
  exact @Loop.run_rule _ _ _ P.epollServer.round_decreases (Shows P _) (fun l => Delivers l.trace _)
    (fun l l' h => (round_shows h).2 l') (fun l l' h => (round_shows h).1 l') _ start

end EpollServer

end HttpServer
