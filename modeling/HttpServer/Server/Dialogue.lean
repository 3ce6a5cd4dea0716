import HttpServer.Lib.History
import HttpServer.Server.Equivalence

/-!
# Dialogues

The conversation of a server with one client, apart from everything else that the
server does: a state machine whose steps are what the socket brings, whoever makes
the calls. Its log is what `play` shows for the chunks that have arrived
(`reach_told`), so at any time the client has got a part of what the function
`handle_connection` sends it for these chunks, and all of it when the server waits
(`reach_matches`).
-/

namespace HttpServer

open Runs

/-- Where a server stands with a client. -/
inductive Stage where
  /-- The parser has a part of a request, behind `served` responses. -/
  | reading (parser : HttpParser) (served : Nat)
  /-- A part of a response is written; the server goes on with response number `next`, if at all. -/
  | writing (data : Bytes) (written : Nat) (next : Option Nat)
  /-- The connection is about to be closed. -/
  | ending
  | ended
  deriving DecidableEq

structure Dialogue where
  stage : Stage := .reading {} 0
  log : List Event := []
  /-- A call has failed, or the socket has hung up. -/
  broken : Bool := false

/-- What the socket brings. -/
inductive SocketEvent where
  | receive (c : Bytes)
  | take (n : Nat)
  | fail
  | close

/-- The number of the response behind the answer to `q`. -/
def Policy.next (P : Policy) (q : Request) (served : Nat) : Option Nat :=
  if P.keeps q = true ∧ (served + 1 : Int) < P.limit then some (served + 1) else none

/-- What the server does with a chunk. -/
def Policy.heard (P : Policy) (parser : HttpParser) (served : Nat) (c : Bytes) : Stage :=
  if c = [] then .ending
  else
    match (parser.feed c).1.verdict with
    | .incomplete => .reading (parser.feed c).1 served
    | .error code => .writing (P.refusal served code) 0 none
    | .complete q => .writing (P.reply served q) 0 (P.next q served)

/-- What it does behind a response. -/
def Stage.behind : Option Nat → Stage
  | some k => .reading {} k
  | none => .ending

namespace Dialogue

def step (P : Policy) (d : Dialogue) (e : SocketEvent) : Option Dialogue :=
  match d.stage, e with
  | .reading parser served, .receive c =>
    some { d with stage := P.heard parser served c, log := d.log ++ [.received c] }
  | .writing data written next, .take n =>
    let piece := (data.drop written).take n
    if written + n < data.length then
      some { d with stage := .writing data (written + n) next, log := d.log ++ [.sent piece] }
    else some { d with stage := .behind next, log := d.log ++ [.sent piece, .responded data] }
  | .reading _ _, .fail | .writing _ _ _, .fail => some { d with stage := .ending, broken := true }
  | .ending, .close => some { d with stage := .ended, log := d.log ++ [.closed] }
  | _, _ => none

/-- What a step can do. -/
inductive Moves (P : Policy) (d : Dialogue) : Dialogue → Prop where
  | receive {parser : HttpParser} {served : Nat} (stage : d.stage = .reading parser served) (c : Bytes) :
      Moves P d { d with stage := P.heard parser served c, log := d.log ++ [.received c] }
  | part {data : Bytes} {written : Nat} {next : Option Nat} (stage : d.stage = .writing data written next) {n : Nat}
      (more : written + n < data.length) :
      Moves P d { d with
        stage := .writing data (written + n) next, log := d.log ++ [.sent ((data.drop written).take n)] }
  | rest {data : Bytes} {written : Nat} {next : Option Nat} (stage : d.stage = .writing data written next) :
      Moves P d { d with stage := .behind next, log := d.log ++ [.sent (data.drop written), .responded data] }
  | fail (going : d.stage ≠ .ending ∧ d.stage ≠ .ended) : Moves P d { d with stage := .ending, broken := true }
  | close (stage : d.stage = .ending) : Moves P d { d with stage := .ended, log := d.log ++ [.closed] }

/-- Every turn is one of the moves. -/
theorem step_moves {P : Policy} {d d' : Dialogue} {e : SocketEvent} (took : d.step P e = some d') : Moves P d d' := by
  unfold step at took
  split at took
  · rename_i stage
    cases took
    exact .receive stage _
  · rename_i data written next n stage
    dsimp only at took
    split at took
    · rename_i more
      cases took
      exact .part stage more
    · rename_i all
      cases took
      rw [List.take_of_length_le (by rw [List.length_drop]; omega)]
      exact .rest stage
  · rename_i stage
    cases took
    exact .fail (by simp [stage])
  · rename_i stage
    cases took
    exact .fail (by simp [stage])
  · rename_i stage
    cases took
    exact .close stage
  · cases took

end Dialogue

/-! ## What the session still has to show -/

/-- The events still to come when the chunks `cs` arrive. -/
def Stage.rest (P : Policy) (cs : List Bytes) : Stage → List Event
  | .reading parser served => play P ⟨parser, served⟩ cs
  | .writing data _ (some k) => .responded data :: play P ⟨{}, k⟩ cs
  | .writing data _ none => [.responded data, .closed]
  | .ending => [.closed]
  | .ended => []

/-- What is sent of a response. -/
def Stage.partly : Stage → Bytes
  | .writing data written _ => data.take written
  | _ => []

/-- The chunks that have arrived. -/
def arrived (log : List Event) : List Bytes :=
  log.filterMap fun
    | .received c => some c
    | _ => none

@[simp] theorem arrived_nil : arrived [] = [] := rfl

@[simp] theorem arrived_append (a b : List Event) : arrived (a ++ b) = arrived a ++ arrived b :=
  List.filterMap_append ..

/-- What is still to come, at a server that waits, begins with the next chunk. -/
theorem rest_heard (P : Policy) (parser : HttpParser) (served : Nat) (c : Bytes) (cs : List Bytes) :
    play P ⟨parser, served⟩ (c :: cs) = .received c :: (P.heard parser served c).rest P cs := by
  unfold play Policy.heard
  by_cases eof : c = []
  · simp [eof, Stage.rest]
  · simp only [if_neg eof]
    cases (parser.feed c).1.verdict with
    | incomplete => rfl
    | error code => rfl
    | complete q =>
      dsimp only [Policy.next]
      split <;> rfl

/-- At a server that writes it begins with the response. -/
theorem rest_behind (P : Policy) (data : Bytes) (written : Nat) (next : Option Nat) (cs : List Bytes) :
    (Stage.writing data written next).rest P cs = .responded data :: (Stage.behind next).rest P cs := by
  cases next <;> rfl

/-- A response that has just been made is not sent in part. -/
theorem partly_heard (P : Policy) (parser : HttpParser) (served : Nat) (c : Bytes) :
    (P.heard parser served c).partly = [] := by
  unfold Policy.heard
  split
  · rfl
  · split <;> rfl

theorem partly_behind (next : Option Nat) : (Stage.behind next).partly = [] := by
  cases next <;> rfl

/-- What is sent of a response is a part of those still to come. -/
theorem partly_prefix (P : Policy) (cs : List Bytes) (stage : Stage) :
    stage.partly <+: (responses (stage.rest P cs)).flatten := by
  cases stage with
  | writing data written next =>
    rw [rest_behind, responses_cons]
    exact (List.take_prefix written data).trans (List.prefix_append _ _)
  | reading | ending | ended => exact List.nil_prefix

namespace Dialogue

/-- The log is a part of what `play` shows, whatever else arrives, and as long as no call has failed the rest is
what the stage still has to show. -/
structure Told (P : Policy) (d : Dialogue) : Prop where
  answers : ∀ cs, responses d.log <+: responses (play P {} (arrived d.log ++ cs))
  bytes : ∀ cs, bytesSent d.log <+: (responses (play P {} (arrived d.log ++ cs))).flatten
  whole : d.broken = false → ∀ cs, visible d.log ++ d.stage.rest P cs = play P {} (arrived d.log ++ cs)
  sent : d.broken = false → bytesSent d.log = (responses d.log).flatten ++ d.stage.partly
  stuck : d.broken = true → d.stage = .ending ∨ d.stage = .ended

/-- As long as no call has failed the first two follow. -/
theorem told_of {P : Policy} {d : Dialogue} (healthy : d.broken = false)
    (whole : ∀ cs, visible d.log ++ d.stage.rest P cs = play P {} (arrived d.log ++ cs))
    (sent : bytesSent d.log = (responses d.log).flatten ++ d.stage.partly) : Told P d := by
  have split_ (cs : List Bytes) : responses (play P {} (arrived d.log ++ cs)) =
      responses d.log ++ responses (d.stage.rest P cs) := by
    rw [← whole cs, responses_append, responses_visible]
  refine ⟨fun cs => ?_, fun cs => ?_, fun _ => whole, fun _ => sent, fun broken => ?_⟩
  · rw [split_ cs]
    exact List.prefix_append _ _
  · rw [split_ cs, List.flatten_append, sent, List.prefix_append_right_inj]
    exact partly_prefix P cs d.stage
  · cases healthy.symm.trans broken

/-- A conversation that goes on has not failed. -/
theorem Told.healthy {P : Policy} {d : Dialogue} (inv : Told P d) (going : d.stage ≠ .ending ∧ d.stage ≠ .ended) :
    d.broken = false := by
  rw [← Bool.not_eq_true]
  intro broken
  rcases inv.stuck broken with stage | stage
  · exact going.1 stage
  · exact going.2 stage

/-- One turn: what has been said and what is still to come stay one play. -/
theorem told_step {P : Policy} {d d' : Dialogue} (inv : Told P d) (moves : Moves P d d') : Told P d' := by
  cases moves with
  | @receive parser served stage c =>
    have healthy := inv.healthy (by simp [stage])
    refine told_of healthy (fun cs => ?_) ?_
    · have whole := inv.whole healthy (c :: cs)
      rw [stage, Stage.rest, rest_heard] at whole
      simpa [arrived] using whole
    · have sent := inv.sent healthy
      rw [stage] at sent
      change _ = _ ++ [] at sent
      dsimp only
      rw [partly_heard]
      simpa using sent
  | @part data written next stage n more =>
    have healthy := inv.healthy (by simp [stage])
    refine told_of healthy (fun cs => ?_) ?_
    · have whole := inv.whole healthy cs
      rw [stage, rest_behind] at whole
      simpa [arrived, rest_behind] using whole
    · have sent := inv.sent healthy
      simp [sent, stage, Stage.partly, List.take_add]
  | @rest data written next stage =>
    have healthy := inv.healthy (by simp [stage])
    refine told_of healthy (fun cs => ?_) ?_
    · have whole := inv.whole healthy cs
      rw [stage, rest_behind] at whole
      simpa [arrived] using whole
    · have sent := inv.sent healthy
      dsimp only
      rw [partly_behind]
      simp [sent, stage, Stage.partly]
  | fail going => exact ⟨inv.answers, inv.bytes, nofun, nofun, fun _ => .inl rfl⟩
  | close stage =>
    by_cases healthy : d.broken = false
    · refine told_of healthy (fun cs => ?_) ?_
      · have whole := inv.whole healthy cs
        rw [stage] at whole
        simpa [arrived, Stage.rest] using whole
      · have sent := inv.sent healthy
        simpa [stage, Stage.partly] using sent
    · refine ⟨fun cs => ?_, fun cs => ?_, fun h => absurd h healthy, fun h => absurd h healthy, fun _ => .inr rfl⟩
      · simpa [arrived] using inv.answers cs
      · simpa [arrived] using inv.bytes cs

/-- **A dialogue shows what the session plays.** -/
theorem reach_told {P : Policy} {d : Dialogue} (run : Reach (step P) {} d) : Told P d := by
  refine run.invariant (told_of rfl (fun cs => rfl) rfl) ?_
  intro d turn d' inv _ took
  exact told_step inv (step_moves took)

/-- The client has got a part of what `handle_connection` sends for the chunks that have arrived, and unless a
call has failed the log of a server that waits or has closed is what `handle_connection` does with them. -/
structure Matches (P : Policy) (d : Dialogue) : Prop where
  bytes : bytesSent d.log <+: bytesSent (P.server.handleConnection ((arrived d.log).map .data) [])
  answers : responses d.log <+: responses (P.server.handleConnection ((arrived d.log).map .data) [])
  settled : d.broken = false → ((∃ parser served, d.stage = .reading parser served) ∨ d.stage = .ended) →
    bytesSent d.log = bytesSent (P.server.handleConnection ((arrived d.log).map .data) []) ∧
      visible d.log = visible (P.server.handleConnection ((arrived d.log).map .data) [])

/-- What has been told is a first part of what `handle_connection` sends, and all of it where nothing is under way. -/
theorem Told.matches {P : Policy} {d : Dialogue} (limit : 1 ≤ P.limit) (told : Told P d) : Matches P d := by
  have alone := @handleConnection_play P limit _ [] (steadyReads_data (arrived d.log)) steadySends_nil
  rw [chunks_map_data] at alone
  have answers := told.answers []
  have bytes := told.bytes []
  rw [List.append_nil] at answers bytes
  refine ⟨?_, ?_, fun healthy stage => ?_⟩
  · rw [alone.bytes]
    exact bytes
  · rw [← responses_visible (P.server.handleConnection _ _), alone.visible]
    exact answers
  · have whole := told.whole healthy []
    have sent := told.sent healthy
    have quiet : d.stage.rest P [] = [] ∧ d.stage.partly = [] := by
      rcases stage with ⟨parser, served, stage⟩ | stage <;> rw [stage] <;> exact ⟨rfl, rfl⟩
    rw [quiet.1, List.append_nil, List.append_nil] at whole
    rw [quiet.2, List.append_nil] at sent
    rw [alone.bytes, alone.visible, ← whole, sent, responses_visible]
    exact ⟨rfl, rfl⟩

/-- In every conversation from its start the two agree. -/
theorem reach_matches {P : Policy} {d : Dialogue} (limit : 1 ≤ P.limit) (run : Reach (step P) {} d) : Matches P d :=
  (reach_told run).matches limit

end Dialogue

/-! ## Notes about a connection -/

/-- What a server notes about a connection, apart from the state that it keeps itself. -/
structure Minutes where
  log : List Event := []
  broken : Bool := false

namespace Minutes

def add (m : Minutes) (events : List Event) (fails : Bool) : Minutes :=
  { log := m.log ++ events, broken := m.broken || fails }

def dialogue (m : Minutes) (stage : Stage) : Dialogue := { stage, log := m.log, broken := m.broken }

/-- A step that concerns the connection, where there is one. -/
theorem follows {P : Policy} {starts : Dialogue → Prop} {stage stage' : Stage} {f : Minutes → Minutes}
    (moves : ∀ m : Minutes, Follows (Dialogue.step P) starts (some (m.dialogue stage)) (some ((f m).dialogue stage')))
    (v : Option Minutes) : Follows (Dialogue.step P) starts (v.map fun m => m.dialogue stage)
      ((v.map f).map fun m => m.dialogue stage') := by
  cases v with
  | none => exact .same none
  | some m => exact moves m

theorem add_nothing (m : Minutes) : m.add [] false = m := by
  simp [add]

end Minutes

end HttpServer
