import HttpServer.Lib.Runs
import HttpServer.Server.Equivalence

/-!
# Requests do not leak into each other

What a connection does behind a response does not depend on the requests before
it, whatever happens on its socket: two connections of one server that have each
answered all they have read go through the same events from there on, until one
of them reaches the limit of requests (`isolated`). For the blocking server the
place to compare is the top of its outer loop (`Turn`), for the event-driven one
a state between two events in which nothing is left unanswered (`Idle`).
-/

namespace HttpServer

open Connection

/-- A trace up to its `n`-th response, that one included. -/
def upTo : Nat → List Event → List Event
  | 0, _ => []
  | _, [] => []
  | n + 1, .responded r :: t => .responded r :: upTo n t
  | n + 1, e :: t => e :: upTo (n + 1) t

/-- The chunks read since the last response. -/
def unanswered (t : List Event) : List Bytes :=
  t.foldl (fun cs e => match e with
    | .received c => cs ++ [c]
    | .responded _ => []
    | _ => cs) []

/-- What is unanswered is what came behind the last response. -/
theorem unanswered_snoc (t : List Event) (e : Event) :
    unanswered (t ++ [e]) = match e with
      | .received c => unanswered t ++ [c]
      | .responded _ => []
      | _ => unanswered t := by
  cases e <;> exact List.foldl_append

/-- Two clocks and map orders that are the same from responses number `k₁` and `k₂` on. -/
structure SameFrom (w₁ w₂ : Platform) (k₁ k₂ : Nat) : Prop where
  order : w₁.order = w₂.order
  date : ∀ i, w₁.formatDate (k₁ + i) = w₂.formatDate (k₂ + i)

/-- Where the clocks agree the same response is the same text. -/
theorem SameFrom.serialize {w₁ w₂ : Platform} {k₁ k₂ : Nat} (same : SameFrom w₁ w₂ k₁ k₂) (i : Nat)
    (r : Response) : serialize w₁ (k₁ + i) r = HttpServer.serialize w₂ (k₂ + i) r := by
  unfold HttpServer.serialize
  rw [same.order, same.date]

/-! ## Traces up to a response -/

@[simp] theorem upTo_zero (t : List Event) : upTo 0 t = [] := by
  cases t <;> rfl

/-- Only complete responses count. -/
theorem upTo_step (n : Nat) {e : Event} (quiet : e.response = none) (t : List Event) :
    upTo (n + 1) (e :: t) = e :: upTo (n + 1) t := by
  cases e with
  | responded r => cases quiet
  | _ => rfl

/-- What two traces show together can be left out of the comparison. -/
theorem upTo_append (es : List Event) {n : Nat} {t u : List Event} (same : upTo n t = upTo n u) :
    upTo (n + (responses es).length) (es ++ t) = upTo (n + (responses es).length) (es ++ u) := by
  induction es with
  | nil => exact same
  | cons e es ih =>
    cases quiet : e.response with
    | none =>
      have count : (responses (e :: es)).length = (responses es).length := by
        rw [responses_cons, quiet]
        rfl
      rw [count, List.cons_append, List.cons_append]
      cases more : n + (responses es).length with
      | zero => simp
      | succ m =>
        rw [more] at ih
        rw [upTo_step m quiet, upTo_step m quiet, ih]
    | some r =>
      cases e with
      | responded r' =>
        rw [responses_cons, List.length_append]
        change upTo (n + (1 + (responses es).length)) _ = upTo (n + (1 + (responses es).length)) _
        rw [Nat.add_comm 1, ← Nat.add_assoc]
        exact congrArg (_ :: ·) ih
      | _ => cases quiet

/-- The shorter cut decides. -/
theorem upTo_upTo {n m : Nat} (le : n ≤ m) (t : List Event) : upTo n (upTo m t) = upTo n t := by
  induction t generalizing n m with
  | nil => cases m <;> cases n <;> rfl
  | cons e t ih =>
    cases n with
    | zero => simp
    | succ n =>
      obtain ⟨m, rfl⟩ := Nat.exists_eq_add_of_le' (Nat.le_trans (Nat.succ_pos n) le)
      cases quiet : e.response with
      | none => rw [upTo_step m quiet, upTo_step n quiet, upTo_step n quiet, ih le]
      | some r =>
        cases e with
        | responded r' => exact congrArg (_ :: ·) (ih (Nat.le_of_succ_le_succ le))
        | _ => cases quiet

/-- Traces that agree up to some response agree up to every earlier one. -/
theorem upTo_mono {n m : Nat} (le : n ≤ m) {t u : List Event} (same : upTo m t = upTo m u) :
    upTo n t = upTo n u := by
  rw [← upTo_upTo le t, same, upTo_upTo le u]

/-! ## The blocking server -/

/-- The variables of `handle_connection` at the top of its outer loop, and what the socket has
still to bring. -/
structure Turn where
  left : Nat
  requestCount : Nat
  parser : HttpParser
  reads : List ReadResult
  sends : List SendOutcome

namespace Server

/-- The loop from the top. -/
def loop (s : Server) (t : Turn) : List Event :=
  s.connectionLoop t.left t.requestCount t.parser t.reads t.sends

/-- A round that answers a request and goes on. -/
def turn (s : Server) (t : Turn) : Option (List Event × Turn) :=
  match t.left with
  | 0 => none
  | left + 1 =>
    let run := readRequest t.parser.reset t.reads
    match run.outcome with
    | .complete p =>
      let (req, p) := p.getRequest
      let keepAlive :=
        if !s.config.enableKeepalive || !req.shouldKeepAlive then false else s.config.enableKeepalive
      match s.route req with
      | none => none
      | some res =>
        let data := serialize s.platform t.requestCount { res with keepAlive }
        let w := writeAll data t.sends
        if w.result = .success ∧ keepAlive = true then
          some (run.events ++ writeEvents data w, ⟨left, t.requestCount + 1, p, run.reads, w.sends⟩)
        else none
    | _ => none

/-- A number of such rounds, with their events. -/
inductive Served (s : Server) : Turn → List Event → Turn → Prop
  | start (t : Turn) : Served s t [] t
  | next {t t' t'' : Turn} {es es' : List Event} (first : s.turn t = some (es, t'))
      (rest : Served s t' es' t'') : Served s t (es ++ es') t''

/-- The first turn of `handle_connection`. -/
def firstTurn (s : Server) (recvs : List RecvOutcome) (sends : List SendOutcome) : Turn :=
  ⟨s.config.maxRequestsPerConn.toNat, 0, {}, readSome recvs, sends⟩

/-- A turn of the loop is the first part of its trace. -/
theorem loop_turn {s : Server} {t t' : Turn} {es : List Event} (h : s.turn t = some (es, t')) :
    s.loop t = es ++ s.loop t' := by
  obtain ⟨left, k, parser, reads, sends⟩ := t
  unfold turn at h
  cases left with
  | zero => cases h
  | succ left =>
    unfold loop
    rw [connectionLoop]
    dsimp only at h ⊢
    split at h
    · rename_i p outcome
      rw [outcome]
      dsimp only at h ⊢
      generalize (if !s.config.enableKeepalive || !p.getRequest.1.shouldKeepAlive then false
        else s.config.enableKeepalive) = keepAlive at h ⊢
      cases routed : s.route p.getRequest.1 with
      | none =>
        rw [routed] at h
        cases h
      | some res =>
        rw [routed] at h
        dsimp only at h ⊢
        split at h
        · rename_i kept
          cases h
          rw [kept.1]
          simp only [kept.2, if_true, List.append_assoc]
        · cases h
    · cases h

/-- So are the turns that serve some requests. -/
theorem loop_served {s : Server} {t t' : Turn} {es : List Event} (h : s.Served t es t') :
    s.loop t = es ++ s.loop t' := by
  induction h with
  | start t => rfl
  | next first rest ih => rw [loop_turn first, ih, List.append_assoc]

/-- Every round counts a request. -/
theorem Served.count {s : Server} {t t' : Turn} {es : List Event} (h : s.Served t es t') :
    t.left + t.requestCount = t'.left + t'.requestCount := by
  induction h with
  | start t => rfl
  | @next t t' t'' es es' first rest ih =>
    rw [← ih]
    obtain ⟨left, k, parser, reads, sends⟩ := t
    unfold turn at first
    cases left with
    | zero => cases first
    | succ left =>
      dsimp only at first
      split at first
      · rename_i p outcome
        generalize (if !s.config.enableKeepalive || !p.getRequest.1.shouldKeepAlive then false
          else s.config.enableKeepalive) = keepAlive at first
        split at first
        · cases first
        · split at first
          · cases first
            dsimp only
            omega
          · cases first
      · cases first

/-- Reading a request completes no response. -/
theorem readRequest_quiet (p : HttpParser) (reads : List ReadResult) :
    responses (readRequest p reads).events = [] := by
  induction reads generalizing p with
  | nil => rfl
  | cons r reads ih =>
    cases r with
    | error => rfl
    | bytes c =>
      unfold readRequest
      split
      · rfl
      · split
        · rfl
        · rfl
        · exact ih _

/-- A response is complete when `write_all` succeeds. -/
theorem responses_written {data : Bytes} {w : Written} (success : w.result = .success) :
    responses (writeEvents data w) = [data] := by
  have pieces : responses (w.pieces.map .sent) = [] := by
    rw [← responses_visible, visible_sent]
    rfl
  rw [writeEvents, if_pos success, responses_append, pieces]
  rfl

/-- Two connections at the top of the loop, with the same still to come. -/
theorem connectionLoop_alike (s : Server) {w₁ w₂ : Platform} {k₁ k₂ : Nat}
    (same : SameFrom w₁ w₂ k₁ k₂) (left₁ left₂ i : Nat) (p₁ p₂ : HttpParser) (reads : List ReadResult)
    (sends : List SendOutcome) :
    upTo (min left₁ left₂)
      ({ s with platform := w₁ }.connectionLoop left₁ (k₁ + i) p₁ reads sends) =
    upTo (min left₁ left₂)
      ({ s with platform := w₂ }.connectionLoop left₂ (k₂ + i) p₂ reads sends) := by
  induction left₁ generalizing left₂ i p₁ p₂ reads sends with
  | zero => simp
  | succ left₁ ih =>
    cases left₂ with
    | zero => simp
    | succ left₂ =>
      rw [Nat.succ_min_succ, connectionLoop, connectionLoop]
      have reset : p₂.reset = p₁.reset := rfl
      rw [reset]
      -- both read the same request
      have quiet := readRequest_quiet p₁.reset reads
      generalize readRequest p₁.reset reads = run at quiet
      obtain ⟨events, outcome, rest⟩ := run
      have skip : ∀ {t u : List Event}, upTo (min left₁ left₂ + 1) t = upTo (min left₁ left₂ + 1) u →
          upTo (min left₁ left₂ + 1) (events ++ t) = upTo (min left₁ left₂ + 1) (events ++ u) := by
        intro t u eq
        have := upTo_append events eq
        rwa [show responses events = [] from quiet] at this
      apply skip
      cases outcome with
      | blocked => rfl
      | gone => rfl
      | failed p => simp only [same.serialize]
      | complete p =>
        dsimp only [HttpParser.getRequest]
        generalize (if !s.config.enableKeepalive || !p.request.shouldKeepAlive then false
          else s.config.enableKeepalive) = keepAlive
        cases s.route p.request with
        | none => rfl
        | some res =>
          simp only [same.serialize]
          generalize serialize w₂ (k₂ + i) _ = data
          cases written : (writeAll data sends).result with
          | killed => rfl
          | failure => rfl
          | success =>
            cases keepAlive with
            | false => rfl
            | true =>
              have next := ih left₂ (i + 1) { p with request := {} } { p with request := {} } rest
                (writeAll data sends).sends
              have := upTo_append (writeEvents data (writeAll data sends)) next
              rwa [responses_written written] at this

end Server

/-! ## The event-driven server -/

/-- The connection with another number of requests. -/
def Watched.counted (w : Watched) (k : Nat) : Watched :=
  { w with conn := { w.conn with requestCount := k } }

/-- A connection that waits for its next request. -/
def Watched.renewed (w : Watched) : Watched where
  conn := { w.conn with
    parser := w.conn.parser.reset
    writeBuffer := []
    writeOffset := 0
    state := .reading }
  interest := .epollin

/-- A connection that has a response to write. -/
def Watched.replying (w : Watched) (parser : HttpParser) (data : Bytes) (keepAlive : Bool) : Watched where
  conn := { w.conn with parser, writeBuffer := data, writeOffset := 0, keepAlive, state := .writing }
  interest := .epollout

/-- The responses that the limit `L` still allows behind `k` of them. -/
def room (L : Int) (k : Nat) : Nat := (L - k).toNat

/-- One more request takes at most one off the room. -/
theorem room_next (L : Int) (k : Nat) : room L k ≤ room L (k + 1) + 1 := by
  unfold room
  omega

/-- At the limit no room is left. -/
theorem room_full {L : Int} {k : Nat} (h : L ≤ k) : room L k = 0 := by
  unfold room
  omega

/-- Two connections that differ in the number of requests only, `left` responses away from the
limit `L`. -/
inductive Paired (L : Int) (k₁ k₂ left : Nat) : Option Watched → Option Watched → Prop
  | gone : Paired L k₁ k₂ left none none
  | reading (w : Watched) (i : Nat) (interest : w.interest = .epollin)
      (within₁ : left ≤ room L (k₁ + i)) (within₂ : left ≤ room L (k₂ + i)) :
      Paired L k₁ k₂ left (some (w.counted (k₁ + i))) (some (w.counted (k₂ + i)))
  | writing (w : Watched) (i : Nat) (interest : w.interest = .epollout)
      (within₁ : w.conn.keepAlive = true → left ≤ room L (k₁ + i) + 1)
      (within₂ : w.conn.keepAlive = true → left ≤ room L (k₂ + i) + 1) :
      Paired L k₁ k₂ left (some (w.counted (k₁ + i))) (some (w.counted (k₂ + i)))

structure Twin (L : Int) (k₁ k₂ left : Nat) (a b : EventLoop) : Prop where
  recvs : b.recvs = a.recvs
  sends : b.sends = a.sends
  watched : Paired L k₁ k₂ left a.watched b.watched

/-- Behind the traces `t₁` and `t₂` both loops have shown the same, up to `n` responses. -/
inductive Keeps (L : Int) (k₁ k₂ n : Nat) (t₁ t₂ : List Event) (a b : EventLoop) : Prop
  | along (es : List Event) (left : Nat) (fst : a.trace = t₁ ++ es) (snd : b.trace = t₂ ++ es)
      (twin : Twin L k₁ k₂ left a b) (enough : n ≤ left + (responses es).length)
  | limit (es x₁ x₂ : List Event) (fst : a.trace = t₁ ++ es ++ x₁) (snd : b.trace = t₂ ++ es ++ x₂)
      (enough : n ≤ (responses es).length)

/-- All the responses are still left. -/
theorem Keeps.steady {L : Int} {k₁ k₂ n : Nat} {t₁ t₂ : List Event} {a b : EventLoop} (es : List Event)
    (fst : a.trace = t₁ ++ es) (snd : b.trace = t₂ ++ es) (twin : Twin L k₁ k₂ n a b) :
    Keeps L k₁ k₂ n t₁ t₂ a b :=
  .along es n fst snd twin (Nat.le_add_right _ _)

/-- Equal events in front of both traces do not tell them apart. -/
theorem Keeps.front {L : Int} {k₁ k₂ n : Nat} {t₁ t₂ : List Event} {a b : EventLoop} {e : Event}
    (h : Keeps L k₁ k₂ n (t₁ ++ [e]) (t₂ ++ [e]) a b) : Keeps L k₁ k₂ n t₁ t₂ a b := by
  have more : ∀ es, (responses es).length ≤ (responses (e :: es)).length := by
    intro es
    rw [responses_cons, List.length_append]
    omega
  cases h with
  | along es left fst snd twin enough =>
    refine .along (e :: es) left (by simp [fst]) (by simp [snd]) twin ?_
    have := more es
    omega
  | limit es x₁ x₂ fst snd enough =>
    exact .limit (e :: es) x₁ x₂ (by simp [fst]) (by simp [snd]) (enough.trans (more es))

namespace EpollServer

section Twins

variable {s : EpollServer} {w₁ w₂ : Platform} {k₁ k₂ left : Nat} {a b : EventLoop}

/-- Behind a response the count decides only whether the connection goes on. -/
theorem finishWrite_counted (w : Watched) (k : Nat) (l : EventLoop) :
    s.finishWrite (w.counted k) l =
      if w.conn.keepAlive = false ∨ s.maxRequestsPerConn ≤ k then (l.log (.responded w.conn.writeBuffer)).close
      else { l.log (.responded w.conn.writeBuffer) with watched := some (w.renewed.counted k) } := by
  unfold finishWrite
  simp only [Watched.counted, Bool.not_eq_eq_eq_not, Bool.not_true]
  rfl

/-- The end of a response: both close, both go on, or one is at the limit. -/
theorem finishWrite_keeps (w : Watched) (i : Nat) (recvs : b.recvs = a.recvs) (sends : b.sends = a.sends)
    (within₁ : w.conn.keepAlive = true → left ≤ room s.maxRequestsPerConn (k₁ + i) + 1)
    (within₂ : w.conn.keepAlive = true → left ≤ room s.maxRequestsPerConn (k₂ + i) + 1) :
    Keeps s.maxRequestsPerConn k₁ k₂ left a.trace b.trace
      ({ s with platform := w₁ }.finishWrite (w.counted (k₁ + i)) a)
      ({ s with platform := w₂ }.finishWrite (w.counted (k₂ + i)) b) := by
  rw [finishWrite_counted, finishWrite_counted]
  by_cases keep : w.conn.keepAlive = false
  · simp only [keep, true_or, if_true]
    exact .steady [.responded w.conn.writeBuffer, .closed] (by simp) (by simp)
      ⟨recvs, sends, .gone⟩
  · have within₁ := within₁ (by simpa using keep)
    have within₂ := within₂ (by simpa using keep)
    simp only [keep, Bool.true_eq_false, false_or]
    by_cases stop₁ : s.maxRequestsPerConn ≤ ((k₁ + i : Nat) : Int)
    · rw [if_pos stop₁]
      rw [room_full stop₁] at within₁
      by_cases stop₂ : s.maxRequestsPerConn ≤ ((k₂ + i : Nat) : Int)
      · rw [if_pos stop₂]
        exact .steady [.responded w.conn.writeBuffer, .closed] (by simp) (by simp)
          ⟨recvs, sends, .gone⟩
      · rw [if_neg stop₂]
        exact .limit [.responded w.conn.writeBuffer] [.closed] [] (by simp) (by simp) within₁
    · rw [if_neg stop₁]
      by_cases stop₂ : s.maxRequestsPerConn ≤ ((k₂ + i : Nat) : Int)
      · rw [if_pos stop₂]
        rw [room_full stop₂] at within₂
        exact .limit [.responded w.conn.writeBuffer] [] [.closed] (by simp) (by simp) within₂
      · rw [if_neg stop₂]
        exact .along [.responded w.conn.writeBuffer] (left - 1) rfl rfl
          ⟨recvs, sends, .reading w.renewed i rfl (Nat.sub_le_of_le_add within₁)
            (Nat.sub_le_of_le_add within₂)⟩ (show left ≤ left - 1 + 1 by omega)

/-- The loop of `handle_write` ends at the end of the buffer. -/
theorem writeLoop_done {w : Watched} (done : ¬ w.conn.writeOffset < w.conn.writeBuffer.length) (l : EventLoop)
    (sends : List SendOutcome) : s.writeLoop w l sends = s.finishWrite w { l with sends } := by
  unfold writeLoop
  rw [if_neg done]

/-- From equal buffers and with enough room left the two servers write the same, whatever was served before. -/
theorem writeLoop_keeps (sends : List SendOutcome) (w : Watched) (i : Nat) (interest : w.interest = .epollout)
    (within₁ : w.conn.keepAlive = true → left ≤ room s.maxRequestsPerConn (k₁ + i) + 1)
    (within₂ : w.conn.keepAlive = true → left ≤ room s.maxRequestsPerConn (k₂ + i) + 1)
    (recvs : b.recvs = a.recvs) :
    Keeps s.maxRequestsPerConn k₁ k₂ left a.trace b.trace
      ({ s with platform := w₁ }.writeLoop (w.counted (k₁ + i)) a sends)
      ({ s with platform := w₂ }.writeLoop (w.counted (k₂ + i)) b sends) := by
  induction sends generalizing w a b with
  | nil =>
    by_cases more : w.conn.writeOffset < w.conn.writeBuffer.length
    · rw [writeLoop, writeLoop, if_pos (by exact more), if_pos (by exact more)]
      apply Keeps.front (e := .sent (w.conn.writeBuffer.drop w.conn.writeOffset))
      exact finishWrite_keeps (a := { a.log (.sent _) with sends := [] })
        (b := { b.log (.sent _) with sends := [] }) (w.advance _) i recvs rfl within₁ within₂
    · rw [writeLoop_done (by exact more), writeLoop_done (by exact more)]
      exact finishWrite_keeps (a := { a with sends := [] }) (b := { b with sends := [] }) w i recvs rfl
        within₁ within₂
  | cons o sends ih =>
    by_cases more : w.conn.writeOffset < w.conn.writeBuffer.length
    · rw [writeLoop, writeLoop, if_pos (by exact more), if_pos (by exact more)]
      cases o with
      | sent n =>
        apply Keeps.front
        exact ih (a := a.log (.sent _)) (b := b.log (.sent _)) (w.advance _) interest within₁ within₂ recvs
      | interrupted => exact ih w interest within₁ within₂ recvs
      | wouldBlock =>
        exact .steady [] (by simp) (by simp)
          ⟨recvs, rfl, .writing w i interest within₁ within₂⟩
      | failed | broken =>
        exact .steady [.closed] (by simp) (by simp) ⟨recvs, rfl, .gone⟩
    · rw [writeLoop_done (by exact more), writeLoop_done (by exact more)]
      exact finishWrite_keeps (a := { a with sends := o :: sends }) (b := { b with sends := o :: sends }) w i
        recvs rfl within₁ within₂

/-- From fresh parsers they read and answer the same, by an induction over the reads that both take. -/
theorem readLoop_keeps (same : SameFrom w₁ w₂ k₁ k₂) (recvs : List RecvOutcome) (w : Watched) (i : Nat)
    (interest : w.interest = .epollin) (within₁ : left ≤ room s.maxRequestsPerConn (k₁ + i))
    (within₂ : left ≤ room s.maxRequestsPerConn (k₂ + i)) (sends : b.sends = a.sends) :
    Keeps s.maxRequestsPerConn k₁ k₂ left a.trace b.trace
      ({ s with platform := w₁ }.readLoop (w.counted (k₁ + i)) a recvs)
      ({ s with platform := w₂ }.readLoop (w.counted (k₂ + i)) b recvs) := by
  induction recvs generalizing w a b with
  | nil =>
    exact .steady [] (by simp [readLoop]) (by simp [readLoop])
      ⟨rfl, sends, .reading w i interest within₁ within₂⟩
  | cons o recvs ih =>
    cases o with
    | wouldBlock =>
      exact .steady [] (by simp [readLoop]) (by simp [readLoop])
        ⟨rfl, sends, .reading w i interest within₁ within₂⟩
    | interrupted => exact ih w interest sends
    | failed =>
      exact .steady [.closed] (by simp [readLoop]) (by simp [readLoop])
        ⟨rfl, sends, .gone⟩
    | data c =>
      unfold readLoop
      apply Keeps.front (e := .received c)
      by_cases eof : c = []
      · simp only [if_pos eof]
        exact .steady [.closed] (by simp) (by simp) ⟨rfl, sends, .gone⟩
      · simp only [if_neg eof]
        have parser : ∀ k, (w.counted k).conn.parser = w.conn.parser := fun k => rfl
        have count : ∀ k, (w.counted k).conn.requestCount = k := fun k => rfl
        simp only [parser]
        split
        · rename_i p fed
          dsimp only [HttpParser.getRequest]
          have respond : ∀ w, { s with platform := w }.respond p.request = s.respond p.request := fun w => rfl
          rw [respond w₁, respond w₂]
          cases s.respond p.request with
          | none =>
            exact .steady [.threw] (by simp) (by simp) ⟨rfl, sends, .gone⟩
          | some res =>
            simp only [count, same.serialize, handleWrite, EventLoop.log_sends, sends]
            exact @writeLoop_keeps s w₁ w₂ k₁ k₂ left { a.log (.received c) with recvs }
              { b.log (.received c) with recvs, sends := a.sends } a.sends
              (w.replying { p with request := {} } (serialize w₂ (k₂ + i)
                { res with keepAlive := s.enableKeepalive && p.request.shouldKeepAlive })
                (s.enableKeepalive && p.request.shouldKeepAlive))
              (i + 1) rfl (fun _ => within₁.trans (room_next _ _)) (fun _ => within₂.trans (room_next _ _)) rfl
        · rename_i p fed
          simp only [count, same.serialize, handleWrite, EventLoop.log_sends, sends]
          exact @writeLoop_keeps s w₁ w₂ k₁ k₂ left { a.log (.received c) with recvs }
            { b.log (.received c) with recvs, sends := a.sends } a.sends
            (w.replying p (serialize w₂ (k₂ + i) { Response.error p.errorCode [] with keepAlive := false })
              false)
            i rfl (fun keep => by cases keep) (fun keep => by cases keep) rfl
        · rename_i p fed
          exact ih (a := a.log (.received c)) (b := b.log (.received c))
            { w with conn := { w.conn with parser := p } } interest sends

/-- One event of the loop, for two twins. -/
theorem round_keeps (same : SameFrom w₁ w₂ k₁ k₂) (twin : Twin s.maxRequestsPerConn k₁ k₂ left a b) :
    { s with platform := w₁ }.round a = .inl a ∧ { s with platform := w₂ }.round b = .inl b ∨
    ∃ a' b', { s with platform := w₁ }.round a = .inr a' ∧ { s with platform := w₂ }.round b = .inr b' ∧
      Keeps s.maxRequestsPerConn k₁ k₂ left a.trace b.trace a' b' := by
  obtain ⟨trace, watched, recvs, sends⟩ := a
  obtain ⟨trace', watched', recvs', sends'⟩ := b
  obtain ⟨sameRecvs, sameSends, paired⟩ := twin
  dsimp only at sameRecvs sameSends paired
  subst sameRecvs sameSends
  cases paired with
  | gone => exact .inl ⟨rfl, rfl⟩
  | reading w i interest within₁ within₂ =>
    have input : ∀ k, (w.counted k).interest = .epollin := fun k => interest
    unfold round
    simp only [input]
    by_cases idle : recvs' = []
    · exact .inl ⟨if_pos idle, if_pos idle⟩
    · exact .inr ⟨_, _, if_neg idle, if_neg idle,
        readLoop_keeps (a := ⟨trace, _, recvs', sends'⟩) (b := ⟨trace', _, recvs', sends'⟩) same recvs'
          w i interest within₁ within₂ rfl⟩
  | writing w i interest within₁ within₂ =>
    have output : ∀ k, (w.counted k).interest = .epollout := fun k => interest
    unfold round
    simp only [output]
    exact .inr ⟨_, _, rfl, rfl,
      writeLoop_keeps (a := ⟨trace, _, recvs', sends'⟩) (b := ⟨trace', _, recvs', sends'⟩) sends'
        w i interest within₁ within₂ rfl⟩

end Twins

/-- Every loop is its own twin. -/
theorem twin_self (L : Int) (l : EventLoop) : Twin L 0 0 0 l l := by
  refine ⟨rfl, rfl, ?_⟩
  cases l.watched with
  | none => exact .gone
  | some w =>
    have self : w.counted (0 + w.conn.requestCount) = w := by
      unfold Watched.counted
      rw [Nat.zero_add]
    rw [← self]
    cases interest : w.interest with
    | epollin => exact .reading w _ interest (Nat.zero_le _) (Nat.zero_le _)
    | epollout => exact .writing w _ interest (fun _ => Nat.zero_le _) (fun _ => Nat.zero_le _)

/-- A round only adds to the trace. -/
theorem round_extends (s : EpollServer) (l : EventLoop) :
    s.round l = .inl l ∨ ∃ l', s.round l = .inr l' ∧ l.trace <+: l'.trace := by
  have same : SameFrom s.platform s.platform 0 0 := ⟨rfl, fun _ => rfl⟩
  rcases round_keeps same (twin_self s.maxRequestsPerConn l) with ⟨stop, -⟩ | ⟨a, b, fst, -, keeps⟩
  · exact .inl stop
  · refine .inr ⟨a, fst, ?_⟩
    cases keeps with
    | along es left fst => exact ⟨es, fst.symm⟩
    | limit es x₁ x₂ fst => exact ⟨es ++ x₁, by rw [fst, List.append_assoc]⟩

/-- The loop only adds to its trace. -/
theorem run_extends (s : EpollServer) (l : EventLoop) : l.trace <+: (Loop.run s.round rank l).trace := by
  induction l using Loop.run_induct s.round_decreases with
  | leave l l' h =>
    rcases s.round_extends l with stop | ⟨a, goes, -⟩
    · rw [Loop.run_inl stop]
    · cases goes.symm.trans h
  | again l l' h ih =>
    rcases s.round_extends l with stop | ⟨a, goes, more⟩
    · cases stop.symm.trans h
    · cases goes.symm.trans h
      rw [Loop.run_inr s.round_decreases h]
      exact more.trans ih

/-- Two twins show the same, up to the responses that are left. -/
theorem run_alike (s : EpollServer) {w₁ w₂ : Platform} {k₁ k₂ : Nat} (same : SameFrom w₁ w₂ k₁ k₂)
    (a : EventLoop) : ∀ (b : EventLoop) (left : Nat), Twin s.maxRequestsPerConn k₁ k₂ left a b →
      ∃ e₁ e₂, (Loop.run { s with platform := w₁ }.round rank a).trace = a.trace ++ e₁ ∧
        (Loop.run { s with platform := w₂ }.round rank b).trace = b.trace ++ e₂ ∧
        upTo left e₁ = upTo left e₂ := by
  induction a using Loop.run_induct { s with platform := w₁ }.round_decreases with
  | leave a a' h =>
    intro b left twin
    rcases round_keeps same twin with ⟨stop₁, stop₂⟩ | ⟨a'', b', goes, -⟩
    · exact ⟨[], [], by rw [Loop.run_inl stop₁, List.append_nil],
        by rw [Loop.run_inl stop₂, List.append_nil], rfl⟩
    · cases goes.symm.trans h
  | again a a' h ih =>
    intro b left twin
    rcases round_keeps same twin with ⟨stop, -⟩ | ⟨a'', b', goes₁, goes₂, keeps⟩
    · cases stop.symm.trans h
    · cases goes₁.symm.trans h
      rw [Loop.run_inr { s with platform := w₁ }.round_decreases goes₁,
        Loop.run_inr { s with platform := w₂ }.round_decreases goes₂]
      cases keeps with
      | along es left' fst snd twin' enough =>
        obtain ⟨e₁, e₂, run₁, run₂, alike⟩ := ih b' left' twin'
        refine ⟨es ++ e₁, es ++ e₂, by rw [run₁, fst, List.append_assoc],
          by rw [run₂, snd, List.append_assoc], ?_⟩
        exact upTo_mono enough (upTo_append es alike)
      | limit es x₁ x₂ fst snd enough =>
        obtain ⟨y₁, run₁⟩ := { s with platform := w₁ }.run_extends a'
        obtain ⟨y₂, run₂⟩ := { s with platform := w₂ }.run_extends b'
        refine ⟨es ++ (x₁ ++ y₁), es ++ (x₂ ++ y₂), by rw [← run₁, fst]; simp,
          by rw [← run₂, snd]; simp, ?_⟩
        have none_ : upTo 0 (x₁ ++ y₁) = upTo 0 (x₂ ++ y₂) := by simp
        have := upTo_append es none_
        rw [Nat.zero_add] at this
        exact upTo_mono enough this

/-! ## What a connection remembers -/

/-- A connection that reads, as the trace has left it: it has been fed the chunks not answered yet, and
apart from the number of requests it is fresh. -/
def waiting (t : List Event) : EpollConnection where
  parser := (({} : HttpParser).feedAll (unanswered t)).1
  requestCount := (responses t).length

/-- What the trace says of the connection. -/
inductive Standing (t : List Event) : Option Watched → Prop
  | gone : Standing t none
  | reading (w : Watched) (interest : w.interest = .epollin)
      (conn : w.conn = waiting t) : Standing t (some w)
  | writing (w : Watched) (interest : w.interest = .epollout) (state : w.conn.state = .writing)
      (count : w.conn.keepAlive = true → w.conn.requestCount = (responses t).length + 1) :
      Standing t (some w)

/-- Behind a response the connection is closed, or fresh with one more request counted. -/
theorem finishWrite_standing (s : EpollServer) {w : Watched} {l : EventLoop}
    (count : w.conn.keepAlive = true → w.conn.requestCount = (responses l.trace).length + 1) :
    Standing (s.finishWrite w l).trace (s.finishWrite w l).watched := by
  unfold finishWrite
  dsimp only
  split
  · exact .gone
  · rename_i go
    rw [not_or] at go
    have keep : w.conn.keepAlive = true := by simpa using go.1
    refine .reading _ rfl ?_
    have answered : unanswered (l.trace ++ [.responded w.conn.writeBuffer]) = [] := unanswered_snoc _ _
    have counted : (responses (l.trace ++ [.responded w.conn.writeBuffer])).length = w.conn.requestCount := by
      rw [responses_append, List.length_append, count keep]
      rfl
    rw [EventLoop.log_trace, waiting, answered, counted, keep]
    rfl

/-- What `handle_write` leaves behind is what the trace says of the connection. -/
theorem writeLoop_standing (s : EpollServer) (sends : List SendOutcome) {w : Watched} {l : EventLoop}
    (interest : w.interest = .epollout) (state : w.conn.state = .writing)
    (count : w.conn.keepAlive = true → w.conn.requestCount = (responses l.trace).length + 1) :
    Standing (s.writeLoop w l sends).trace (s.writeLoop w l sends).watched := by
  induction sends generalizing w l with
  | nil =>
    unfold writeLoop
    split
    · apply finishWrite_standing
      intro keep
      rw [EventLoop.log_trace, responses_quiet _ rfl]
      exact count keep
    · exact s.finishWrite_standing count
  | cons o sends ih =>
    unfold writeLoop
    split
    · cases o with
      | sent n =>
        refine ih (w := w.advance _) (l := l.log (.sent _)) interest state fun keep => ?_
        rw [EventLoop.log_trace, responses_quiet _ rfl]
        exact count keep
      | interrupted => exact ih interest state count
      | wouldBlock => exact .writing w interest state count
      | failed | broken => exact .gone
    · exact s.finishWrite_standing count

/-- So is what `handle_read` leaves behind: the parser holds the chunks that are unanswered. -/
theorem readLoop_standing (s : EpollServer) (recvs : List RecvOutcome) {w : Watched} {l : EventLoop}
    (interest : w.interest = .epollin)
    (conn : w.conn = waiting l.trace) :
    Standing (s.readLoop w l recvs).trace (s.readLoop w l recvs).watched := by
  induction recvs generalizing w l with
  | nil => exact .reading w interest conn
  | cons o recvs ih =>
    cases o with
    | wouldBlock => exact .reading w interest conn
    | interrupted => exact ih interest conn
    | failed => exact .gone
    | data c =>
      have quiet : responses (l.trace ++ [.received c]) = responses l.trace := responses_quiet _ rfl
      have fed : (w.conn.parser.feed c).1 = (waiting (l.trace ++ [.received c])).parser := by
        rw [conn, waiting, waiting, unanswered_snoc, HttpParser.feedAll_append, HttpParser.feedAll_cons,
          HttpParser.feedAll_nil]
      have count : w.conn.requestCount = (responses l.trace).length := by rw [conn, waiting]
      unfold readLoop
      dsimp only
      split
      · exact .gone
      · split
        · split
          · exact .gone
          · apply writeLoop_standing s _ rfl rfl
            intro _
            dsimp only [EventLoop.log_trace]
            rw [quiet, count]
        · apply writeLoop_standing s _ rfl rfl
          rintro ⟨⟩
        · rename_i p more
          refine ih (w := { w with conn := { w.conn with parser := p } }) (l := l.log (.received c)) interest ?_
          rw [more] at fed
          dsimp only at fed ⊢
          rw [fed, conn]
          unfold waiting
          rw [EventLoop.log_trace, quiet]

/-- Every event keeps it. -/
theorem round_standing (s : EpollServer) {l l' : EventLoop} (h : s.round l = .inr l')
    (standing : Standing l.trace l.watched) : Standing l'.trace l'.watched := by
  unfold round at h
  cases watched : l.watched with
  | none => simp [watched] at h
  | some w =>
    rw [watched] at standing
    cases standing with
    | reading _ interest conn =>
      simp only [watched, interest] at h
      split at h
      · cases h
      · cases h
        exact s.readLoop_standing l.recvs interest conn
    | writing _ interest state count =>
      simp only [watched, interest] at h
      cases h
      exact s.writeLoop_standing l.sends interest state count

/-- The next event, if there is one. -/
def next (s : EpollServer) (l : EventLoop) (_ : Unit) : Option EventLoop := (s.round l).getRight?

/-- The states between two events. -/
abbrev Rounds (s : EpollServer) : EventLoop → EventLoop → Prop := Runs.Reach s.next

/-- The connection is open, all its responses have been written, and nothing has been read since. -/
def Idle (l : EventLoop) : Prop :=
  ∃ w, l.watched = some w ∧ w.conn.state = .reading ∧ unanswered l.trace = []

/-- Between any two rounds the connection stands as the trace says. -/
theorem rounds_standing {s : EpollServer} {l l' : EventLoop} (h : s.Rounds l l')
    (standing : Standing l.trace l.watched) : Standing l'.trace l'.watched := by
  apply Runs.Run.invariant (I := fun l => Standing l.trace l.watched) standing ?_ h
  intro t a u standing _ took
  exact s.round_standing (Sum.getRight?_eq_some_iff.1 took) standing

/-- A run goes on from every round that it comes through. -/
theorem rounds_run {s : EpollServer} {l l' : EventLoop} (h : s.Rounds l l') :
    Loop.run s.round rank l = Loop.run s.round rank l' := by
  apply Runs.Run.invariant (I := fun t => Loop.run s.round rank l = Loop.run s.round rank t) rfl ?_ h
  intro t a u same _ took
  rw [same, Loop.run_inr s.round_decreases (Sum.getRight?_eq_some_iff.1 took)]

/-- A connection that has answered all it has read is fresh, up to the number of requests. -/
theorem idle_fresh {s : EpollServer} {recvs : List RecvOutcome} {sends : List SendOutcome} {l : EventLoop}
    (run : s.Rounds { recvs, sends } l) (idle : Idle l) :
    l.watched = some (({} : Watched).counted (responses l.trace).length) := by
  have standing := rounds_standing run (.reading {} rfl rfl)
  obtain ⟨w, watched, state, answered⟩ := idle
  rw [watched] at standing
  cases standing with
  | reading _ interest conn =>
    unfold waiting at conn
    rw [answered] at conn
    obtain ⟨c, i⟩ := w
    dsimp only at interest conn
    subst interest conn
    exact watched
  | writing _ _ writes => cases state.symm.trans writes

end EpollServer

/-! ## Two histories -/

/-- **Requests do not leak into each other.** Two connections of a server that differ in the requests
they have answered, on sockets that bring and take the same from there on, show the same events until
one of them has used up the limit of requests. -/
theorem isolated {w₁ w₂ : Platform} {k₁ k₂ : Nat} (same : SameFrom w₁ w₂ k₁ k₂) :
    (∀ (s : Server) (recvs₁ recvs₂ : List RecvOutcome) (sends₁ sends₂ : List SendOutcome)
        (front₁ front₂ : List Event) (t₁ t₂ : Turn),
      { s with platform := w₁ }.Served ({ s with platform := w₁ }.firstTurn recvs₁ sends₁) front₁ t₁ →
      { s with platform := w₂ }.Served ({ s with platform := w₂ }.firstTurn recvs₂ sends₂) front₂ t₂ →
      t₁.requestCount = k₁ → t₂.requestCount = k₂ → t₁.reads = t₂.reads → t₁.sends = t₂.sends →
      ∃ e₁ e₂, { s with platform := w₁ }.handleConnection recvs₁ sends₁ = front₁ ++ e₁ ∧
        { s with platform := w₂ }.handleConnection recvs₂ sends₂ = front₂ ++ e₂ ∧
        upTo (min (room s.config.maxRequestsPerConn k₁) (room s.config.maxRequestsPerConn k₂)) e₁ =
          upTo (min (room s.config.maxRequestsPerConn k₁) (room s.config.maxRequestsPerConn k₂)) e₂) ∧
    (∀ (s : EpollServer) (recvs₁ recvs₂ : List RecvOutcome) (sends₁ sends₂ : List SendOutcome)
        (l₁ l₂ : EventLoop),
      { s with platform := w₁ }.Rounds ⟨[], some {}, recvs₁, sends₁⟩ l₁ →
      { s with platform := w₂ }.Rounds ⟨[], some {}, recvs₂, sends₂⟩ l₂ →
      EpollServer.Idle l₁ → EpollServer.Idle l₂ →
      (responses l₁.trace).length = k₁ → (responses l₂.trace).length = k₂ →
      l₁.recvs = l₂.recvs → l₁.sends = l₂.sends →
      ∃ e₁ e₂, { s with platform := w₁ }.serve recvs₁ sends₁ = l₁.trace ++ e₁ ∧
        { s with platform := w₂ }.serve recvs₂ sends₂ = l₂.trace ++ e₂ ∧
        upTo (min (room s.maxRequestsPerConn k₁) (room s.maxRequestsPerConn k₂)) e₁ =
          upTo (min (room s.maxRequestsPerConn k₁) (room s.maxRequestsPerConn k₂)) e₂) := by
  constructor
  · intro s recvs₁ recvs₂ sends₁ sends₂ front₁ front₂ t₁ t₂ run₁ run₂ count₁ count₂ reads sends
    refine ⟨_, _, Server.loop_served run₁, Server.loop_served run₂, ?_⟩
    have left₁ := run₁.count
    have left₂ := run₂.count
    simp only [Server.firstTurn, Nat.add_zero] at left₁ left₂
    have room₁ : room s.config.maxRequestsPerConn k₁ = t₁.left := by
      unfold room
      omega
    have room₂ : room s.config.maxRequestsPerConn k₂ = t₂.left := by
      unfold room
      omega
    unfold Server.loop
    rw [room₁, room₂, count₁, count₂, ← reads, ← sends]
    exact s.connectionLoop_alike same t₁.left t₂.left 0 t₁.parser t₂.parser t₁.reads t₁.sends
  · intro s recvs₁ recvs₂ sends₁ sends₂ l₁ l₂ run₁ run₂ idle₁ idle₂ count₁ count₂ recvs sends
    have fresh₁ := EpollServer.idle_fresh run₁ idle₁
    have fresh₂ := EpollServer.idle_fresh run₂ idle₂
    rw [count₁] at fresh₁
    rw [count₂] at fresh₂
    have twin : Twin s.maxRequestsPerConn k₁ k₂
        (min (room s.maxRequestsPerConn k₁) (room s.maxRequestsPerConn k₂)) l₁ l₂ := by
      refine ⟨recvs.symm, sends.symm, ?_⟩
      rw [fresh₁, fresh₂]
      exact .reading {} 0 rfl (Nat.min_le_left _ _) (Nat.min_le_right _ _)
    obtain ⟨e₁, e₂, trace₁, trace₂, alike⟩ := s.run_alike same l₁ l₂ _ twin
    refine ⟨e₁, e₂, ?_, ?_, alike⟩
    · rw [← trace₁, ← EpollServer.rounds_run run₁]
      rfl
    · rw [← trace₂, ← EpollServer.rounds_run run₂]
      rfl

/-- One request on the first connection, two on the second, the first of them with a header. -/
theorem isolated_greeting :
    let get : RecvOutcome := .data (ascii "GET / HTTP/1.1\r\n\r\n")
    let other : RecvOutcome := .data (ascii "GET /a HTTP/1.1\r\nConnection: x\r\n\r\n")
    (∃ front₁ front₂ e₁ e₂,
      (greeting 4).server.handleConnection [get, get, get, get] [] = front₁ ++ e₁ ∧
      (greeting 4).server.handleConnection [other, get, get, get, get] [] = front₂ ++ e₂ ∧
      upTo 2 e₁ = upTo 2 e₂) ∧
    (∃ front₁ front₂ e₁ e₂, (responses front₁).length = 1 ∧ (responses front₂).length = 2 ∧
      (greeting 4).epollServer.serve [get, get, get, get] [] = front₁ ++ e₁ ∧
      (greeting 4).epollServer.serve [other, get, get, get, get] [] = front₂ ++ e₂ ∧
      upTo 2 e₁ = upTo 2 e₂) := by
  intro get other
  have same : SameFrom (greeting 4).platform (greeting 4).platform 1 2 := ⟨rfl, fun _ => rfl⟩
  obtain ⟨blocking, epoll⟩ := isolated same
  constructor
  · have turn₁ : ((greeting 4).server.turn ((greeting 4).server.firstTurn [get, get, get, get] [])).map
        (fun r => (r.2.requestCount, r.2.reads, r.2.sends)) = some (1, readSome [get, get, get], []) := by
      decide +kernel
    have turn₂ : (((greeting 4).server.turn
          ((greeting 4).server.firstTurn [other, get, get, get, get] [])).bind fun r =>
          ((greeting 4).server.turn r.2)).map
        (fun r => (r.2.requestCount, r.2.reads, r.2.sends)) = some (2, readSome [get, get, get], []) := by
      decide +kernel
    obtain ⟨⟨front₁, t₁⟩, first₁, eq₁⟩ := Option.map_eq_some_iff.1 turn₁
    obtain ⟨⟨front₂, t₂⟩, both, eq₂⟩ := Option.map_eq_some_iff.1 turn₂
    obtain ⟨⟨front, t⟩, first₂, second₂⟩ := Option.bind_eq_some_iff.1 both
    simp only [Prod.mk.injEq] at eq₁ eq₂
    obtain ⟨e₁, e₂, trace₁, trace₂, alike⟩ := blocking (greeting 4).server _ _ _ _ _ _ _ _
      (.next first₁ (.start t₁)) (.next first₂ (.next second₂ (.start t₂))) eq₁.1 eq₂.1
      (eq₁.2.1.trans eq₂.2.1.symm) (eq₁.2.2.trans eq₂.2.2.symm)
    exact ⟨_, _, e₁, e₂, trace₁, trace₂, alike⟩
  · have run₁ : (Runs.exec (greeting 4).epollServer.next (fun _ _ => true)
          ⟨[], some {}, [get, get, get, get], []⟩ [()]).map
        (fun l => ((l.watched.map (·.conn.state), unanswered l.trace, (responses l.trace).length),
          l.recvs, l.sends)) = some ((some .reading, [], 1), [get, get, get], []) := by
      decide +kernel
    have run₂ : (Runs.exec (greeting 4).epollServer.next (fun _ _ => true)
          ⟨[], some {}, [other, get, get, get, get], []⟩ [(), ()]).map
        (fun l => ((l.watched.map (·.conn.state), unanswered l.trace, (responses l.trace).length),
          l.recvs, l.sends)) = some ((some .reading, [], 2), [get, get, get], []) := by
      decide +kernel
    obtain ⟨l₁, ran₁, eq₁⟩ := Option.map_eq_some_iff.1 run₁
    obtain ⟨l₂, ran₂, eq₂⟩ := Option.map_eq_some_iff.1 run₂
    simp only [Prod.mk.injEq] at eq₁ eq₂
    obtain ⟨⟨state₁, answered₁, count₁⟩, recvs₁, sends₁⟩ := eq₁
    obtain ⟨⟨state₂, answered₂, count₂⟩, recvs₂, sends₂⟩ := eq₂
    obtain ⟨v₁, watched₁, reading₁⟩ := Option.map_eq_some_iff.1 state₁
    obtain ⟨v₂, watched₂, reading₂⟩ := Option.map_eq_some_iff.1 state₂
    obtain ⟨e₁, e₂, trace₁, trace₂, alike⟩ := epoll (greeting 4).epollServer _ _ _ _ l₁ l₂
      (Runs.exec_run ran₁).reach (Runs.exec_run ran₂).reach ⟨v₁, watched₁, reading₁, answered₁⟩
      ⟨v₂, watched₂, reading₂, answered₂⟩ count₁ count₂ (recvs₁.trans recvs₂.symm)
      (sends₁.trans sends₂.symm)
    exact ⟨_, _, e₁, e₂, count₁, count₂, trace₁, trace₂, alike⟩

end HttpServer
