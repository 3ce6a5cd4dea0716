import HttpServer.Http.Chunks
import HttpServer.Http.Serializer
import HttpServer.Server.Trace

/-!
# Sessions

What a connection is for, whichever server runs it: a session feeds each chunk
to its parser and, where that finishes a request, answers it and either starts
over with an empty parser or closes. `play` is the visible trace of a session.
-/

namespace HttpServer

/-- What decides the answers on a connection. -/
structure Policy where
  keepalive : Bool
  limit : Int
  answer : Request → Response
  platform : Platform

namespace Policy

/-- Whether the connection stays open behind the answer to `q`, the limit apart. -/
def keeps (P : Policy) (q : Request) : Bool := P.keepalive && q.shouldKeepAlive

/-- Response number `k`, to the request `q`. -/
def reply (P : Policy) (k : Nat) (q : Request) : Bytes :=
  serialize P.platform k { P.answer q with keepAlive := P.keeps q }

/-- Response number `k`, to a malformed request. -/
def refusal (P : Policy) (k : Nat) (code : StatusCode) : Bytes :=
  serialize P.platform k { Response.error code [] with keepAlive := false }

end Policy

/-- A policy that greets. -/
def greeting (limit : Int) : Policy where
  keepalive := true
  limit
  answer _ := Response.ok (ascii "hello")
  platform := .still

/-- What the clock and the router give at one call; none where an exception leaves `Router::route`. -/
structure Moment where
  platform : Platform
  route : Request → Option Response

/-- Where a session is between two chunks. -/
structure Session where
  parser : HttpParser := {}
  served : Nat := 0

/-- The events of a session to which the given chunks arrive. -/
def play (P : Policy) : Session → List Bytes → List Event
  | _, [] => []
  | s, c :: cs =>
    if c = [] then [.received [], .closed]
    else
      .received c ::
        match (s.parser.feed c).1.verdict with
        | .incomplete => play P ⟨(s.parser.feed c).1, s.served⟩ cs
        | .error code => [.responded (P.refusal s.served code), .closed]
        | .complete q =>
          .responded (P.reply s.served q) ::
            if P.keeps q = true ∧ (s.served + 1 : Int) < P.limit then play P ⟨{}, s.served + 1⟩ cs
            else [.closed]

/-- The requests a parser accepts that starts over behind each of them. -/
def accepted : HttpParser → List Bytes → List Request
  | _, [] => []
  | p, c :: cs =>
    match (p.feed c).1.verdict with
    | .incomplete => accepted (p.feed c).1 cs
    | .error _ => []
    | .complete q => q :: accepted {} cs

/-- The chunks bring the parser to the end of the request `q`, and not before the last one. -/
inductive Brings : HttpParser → List Bytes → Request → Prop
  | last {p : HttpParser} {c : Bytes} {q : Request} (ne : c ≠ [])
      (done : (p.feed c).1.verdict = .complete q) : Brings p [c] q
  | more {p : HttpParser} {c : Bytes} {cs : List Bytes} {q : Request} (ne : c ≠ [])
      (open_ : (p.feed c).1.verdict = .incomplete) (rest : Brings (p.feed c).1 cs q) :
      Brings p (c :: cs) q

/-- A session reads the chunks of a request, answers it and goes on behind them. -/
theorem play_brings (P : Policy) {p : HttpParser} {cs : List Bytes} {q : Request}
    (h : Brings p cs q) (k : Nat) (more : List Bytes) :
    play P ⟨p, k⟩ (cs ++ more) =
      cs.map .received ++ .responded (P.reply k q) ::
        if P.keeps q = true ∧ (k + 1 : Int) < P.limit then play P ⟨{}, k + 1⟩ more else [.closed] := by
  induction h with
  | last ne done => simp [play, ne, done]
  | more ne open_ rest ih =>
    simp only [List.cons_append, play, ne, open_, if_false, List.map_cons]
    rw [ih]

theorem responses_received (cs : List Bytes) : responses (cs.map .received) = [] := by
  induction cs with
  | nil => rfl
  | cons c cs ih => simpa using ih

/-- The session answers a sequence of requests in order, if none before the last asks to close. -/
theorem play_requests (P : Policy) {ms : List (List Bytes × Request)} {k : Nat}
    (brings : ∀ m ∈ ms, Brings {} m.1 m.2) (keeps : ∀ m ∈ ms.dropLast, P.keeps m.2 = true)
    (within : (k + ms.length : Int) ≤ P.limit) :
    responses (play P ⟨{}, k⟩ (ms.map Prod.fst).flatten) = ms.mapIdx fun i m => P.reply (k + i) m.2 := by
  induction ms generalizing k with
  | nil => rfl
  | cons m ms ih =>
    have shift : (fun i m' => P.reply (k + (i + 1)) (m' : List Bytes × Request).2) =
        fun i m' => P.reply (k + 1 + i) m'.2 := by
      funext i m'
      rw [Nat.add_assoc, Nat.add_comm 1 i]
    rw [List.map_cons, List.flatten_cons, play_brings P (brings m (by simp)) k, responses_append,
      responses_received, List.nil_append, responses_cons, List.mapIdx_cons, shift]
    simp only [List.length_cons] at within
    push_cast at within
    cases ms with
    | nil =>
      split <;> rfl
    | cons m' ms =>
      rw [List.dropLast_cons_cons] at keeps
      rw [if_pos ⟨keeps m (by simp), by simp only [List.length_cons] at within; omega⟩,
        @ih (k + 1) (fun n hn => brings n (List.mem_cons_of_mem m hn))
          (fun n hn => keeps n (List.mem_cons_of_mem m hn)) (by push_cast at within ⊢; omega)]
      rfl

/-- What `feed` returns is the verdict of the state that it leaves behind. -/
theorem feed_verdict_complete {p : HttpParser} {c : Bytes} (h : (p.feed c).2 = .complete) :
    (p.feed c).1.verdict = .complete (p.feed c).1.request := by
  rw [HttpParser.feed_result, result_complete] at h
  exact HttpParser.verdict_complete.2 ⟨h, rfl⟩

theorem feed_verdict_error {p : HttpParser} {c : Bytes} (h : (p.feed c).2 = .error) :
    (p.feed c).1.verdict = .error (p.feed c).1.errorCode := by
  rw [HttpParser.feed_result, result_error] at h
  exact HttpParser.verdict_error.2 ⟨h, rfl⟩

theorem feed_verdict_incomplete {p : HttpParser} {c : Bytes} (h : (p.feed c).2 = .incomplete) :
    (p.feed c).1.verdict = .incomplete := by
  rw [HttpParser.feed_result, result_incomplete] at h
  exact HttpParser.verdict_incomplete.2 h

end HttpServer
