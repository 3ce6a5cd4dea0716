import HttpServer.Server.Dialogue
import HttpServer.Server.EventTable
import HttpServer.Server.Threads

/-!
# Many clients in one loop

The event loop serves each of its clients as if this were the only one. The loop
with its notes about every descriptor is seen, from one connection, as a dialogue
(`step_follows`): the other clients, the order of the reported events and the
outcomes of their calls do not show. So at any moment of any run a client has got
a part of what `handle_connection` would send it for the same chunks
(`served_alone`).
-/

namespace HttpServer

open Runs

def ClientCall.ends : ClientCall → Bool
  | .removing | .erasing => true
  | _ => false

/-- The handler is about to close the connection. -/
def EpollPc.ends (fd : Fd) : EpollPc → Bool
  | .client x call => decide (x = fd) && call.ends
  | _ => false

/-- The response behind the one in the buffer. -/
def EpollConnection.next (P : Policy) (c : EpollConnection) : Option Nat :=
  if c.keepAlive = true ∧ (c.requestCount : Int) < P.limit then some c.requestCount else none

def EpollConnection.stage (P : Policy) (c : EpollConnection) : Stage :=
  match c.state with
  | .reading => .reading c.parser c.requestCount
  | .writing => .writing c.writeBuffer c.writeOffset (c.next P)
  | .closing => .ending

namespace EpollState

/-- Where the server stands with the client of a descriptor. -/
def stage (P : Policy) (st : EpollState) (fd : Fd) : Stage :=
  match st.connections fd with
  | none => .ended
  | some c => if st.pc.ends fd then .ending else c.stage P

/-- What is noted for each descriptor: about the connection that has it, or has had it last. -/
abbrev Notes := Fd → Option Minutes

def Notes.amend (notes : Notes) (fd : Fd) (events : List Event) (fails : Bool) : Notes :=
  Function.update notes fd ((notes fd).map fun m => m.add events fails)

/-- The notes on a step. -/
def note (listenFd : Fd) (st : EpollState) (call : EpollCall) (_ : EpollState) (notes : Notes) : Notes :=
  match st.pc, call with
  | .idle, .next =>
    match st.events with
    | e :: _ => if e.fd ≠ listenFd ∧ e.hangup = true then notes.amend e.fd [] true else notes
    | [] => notes
  | .client fd .inserting, .insert => Function.update notes fd (some {})
  | .client fd .reading, .recv o _ => notes.amend fd o.events (decide (o = .failed))
  | .client fd .writing, .send o =>
    match st.connections fd with
    | some c => notes.amend fd (o.events c.writeBuffer c.writeOffset) (decide (o = .failed ∨ o = .broken))
    | none => notes
  | .client fd .erasing, .erase => if (st.connections fd).isSome then notes.amend fd [.closed] false else notes
  | _, _ => notes

/-- What is seen of the connection of a descriptor. -/
def view (P : Policy) (fd : Fd) (s : EpollState × Notes) : Option Dialogue :=
  (s.2 fd).map fun m => m.dialogue (s.1.stage P fd)

/-- The clock stands still, and the router is the policy's. -/
def Fixed (P : Policy) : EpollCall → Prop
  | .recv _ now => now = P.server.moment
  | _ => True

/-! ## One step -/

section

variable {P : Policy} {listenFd fd : Fd} {st st' : EpollState} {notes : Notes}

theorem ends_client (call : ClientCall) : (EpollPc.client fd call).ends fd = call.ends := by
  simp [EpollPc.ends]

theorem ends_open {call : ClientCall} (on : call.ends = false) (x : Fd) : (EpollPc.client fd call).ends x = false := by
  simp [EpollPc.ends, on]

theorem stage_some {c : EpollConnection} (conn : st.connections fd = some c) (on : st.pc.ends fd = false) :
    st.stage P fd = c.stage P := by
  rw [stage, conn]
  simp [on]

theorem stage_ending {c : EpollConnection} (conn : st.connections fd = some c) (ends : st.pc.ends fd = true) :
    st.stage P fd = .ending := by
  rw [stage, conn]
  simp [ends]

theorem goto_stage {c : EpollConnection} {call : ClientCall} (conn : st.connections fd = some c)
    (on : call.ends = false) : (st.goto fd call).stage P fd = c.stage P :=
  stage_some conn ((ends_client call).trans on)

theorem stage_none (gone : st.connections fd = none) : st.stage P fd = .ended := by
  rw [stage, gone]

theorem stage_same (connections : st'.connections fd = st.connections fd) (ends : st'.pc.ends fd = st.pc.ends fd) :
    st'.stage P fd = st.stage P fd := by
  rw [stage, stage, connections, ends]

theorem ends_handled {pc : EpollPc} (other : pc.handled ≠ some fd) : pc.ends fd = false := by
  cases pc with
  | client x call =>
    have ne : x ≠ fd := fun eq => other (congrArg some eq)
    simp [EpollPc.ends, ne]
  | idle | accepting => rfl

/-- Another client's step. -/
theorem Touches.stage {x : Fd} (touches : Touches fd st st') (free : st.pc.handled = some fd ∨ st.pc.handled = none)
    (ne : x ≠ fd) : st'.stage P x = st.stage P x := by
  have away {pc : EpollPc} (handled : pc.handled = some fd ∨ pc.handled = none) : pc.ends x = false := by
    apply ends_handled
    rcases handled with handled | handled <;> rw [handled]
    · exact fun eq => ne (Option.some.inj eq).symm
    · exact nofun
  exact stage_same (touches.connections x ne) ((away touches.handled).trans (away free).symm)

theorem amend_other {x : Fd} (ne : x ≠ fd) (events : List Event) (fails : Bool) :
    notes.amend fd events fails x = notes x := Function.update_of_ne ne _ _

theorem amend_self (events : List Event) (fails : Bool) :
    notes.amend fd events fails fd = (notes fd).map fun m => m.add events fails := Function.update_self ..

/-- The connection of a client for whom the socket still works. -/
theorem fail_turn {c : EpollConnection} (P : Policy) (state : c.state = .reading ∨ c.state = .writing) (m : Minutes) :
    (m.dialogue (c.stage P)).step P .fail = some ((m.add [] true).dialogue .ending) := by
  rcases state with state | state <;>
    simp [Dialogue.step, Minutes.dialogue, Minutes.add, EpollConnection.stage, state]

/-- A handler writes what it has to. -/
theorem handleWrite_more {s : EpollServer} {c : EpollConnection} (conn : st.connections fd = some c)
    (more : c.writeOffset < c.writeBuffer.length) : st.handleWrite s fd = st.goto fd .writing := by
  rw [handleWrite, conn]
  exact if_pos more

/-- `handle_read` behind data: the chunk is heard. -/
theorem received_stage {c : EpollConnection} {data : Bytes} (state : c.state = .reading) (more : data ≠ [])
    (pc : st.pc = .client fd .reading) (took : st.received P.epollServer fd c data = some st') :
    st'.stage P fd = P.heard c.parser c.requestCount data := by
  have put_stage (c' : EpollConnection) (call : ClientCall) (on : call.ends = false) :
      ((st.put fd c').goto fd call).stage P fd = c'.stage P :=
    goto_stage (Function.update_self ..) on
  unfold Policy.heard
  rw [if_neg more]
  unfold received at took
  split at took
  · rename_i parser verdict
    rw [feed_verdict_complete (by rw [verdict]), verdict]
    cases took
    rw [put_stage _ _ rfl]
    rfl
  · rename_i parser verdict
    rw [feed_verdict_error (by rw [verdict]), verdict]
    cases took
    rw [put_stage _ _ rfl]
    rfl
  · rename_i parser verdict
    rw [feed_verdict_incomplete (by rw [verdict]), verdict]
    cases took
    rw [stage_some (Function.update_self ..) (by rw [put, pc]; exact ends_client _), EpollConnection.stage, state]

/-- A `recv`. -/
theorem afterRecv_follows {starts : Dialogue → Prop} {c : EpollConnection} {o : RecvOutcome}
    (conn : st.connections fd = some c) (state : c.state = .reading) (pc : st.pc = .client fd .reading)
    (took : st.afterRecv P.epollServer fd c o = some st') (m : Minutes) :
    Follows (Dialogue.step P) starts (some (m.dialogue (st.stage P fd)))
      (some ((m.add o.events (decide (o = .failed))).dialogue (st'.stage P fd))) := by
  have stage : st.stage P fd = .reading c.parser c.requestCount := by
    rw [stage_some conn (by rw [pc]; exact ends_client _), EpollConnection.stage, state]
  have closing : (st.closeConnection fd).stage P fd = .ending :=
    stage_ending conn (ends_client .removing)
  cases o with
  | data d =>
    refine .turn (.receive d) ?_
    have heard : st'.stage P fd = P.heard c.parser c.requestCount d := by
      by_cases eof : d = []
      · simp only [afterRecv, if_pos eof] at took
        cases took
        rw [closing, Policy.heard, if_pos eof]
      · simp only [afterRecv, if_neg eof] at took
        exact received_stage state eof pc took
    rw [stage, heard]
    simp [Minutes.dialogue, Minutes.add, Dialogue.step, RecvOutcome.events]
  | interrupted =>
    cases took
    simp only [RecvOutcome.events, reduceCtorEq, decide_false, Minutes.add_nothing]
    exact .same _
  | wouldBlock =>
    cases took
    simp only [RecvOutcome.events, reduceCtorEq, decide_false, Minutes.add_nothing]
    have idle : ({ st with pc := .idle } : EpollState).stage P fd = st.stage P fd :=
      stage_same rfl (by rw [pc]; exact (ends_client .reading).symm)
    rw [idle]
    exact .same _
  | failed =>
    cases took
    rw [closing, stage_some conn (by rw [pc]; exact ends_client _)]
    exact .turn .fail (fail_turn P (.inl state) m)

/-- `handle_write` behind a `send` that has taken bytes. -/
theorem handleWrite_stage {c : EpollConnection} (conn : st.connections fd = some c) (state : c.state = .writing) :
    (st.handleWrite P.epollServer fd).stage P fd =
      if c.writeOffset < c.writeBuffer.length then .writing c.writeBuffer c.writeOffset (c.next P)
      else .behind (c.next P) := by
  rw [handleWrite, conn]
  dsimp only
  split
  · rw [goto_stage conn rfl, EpollConnection.stage, state]
  · have on : (c.keepAlive = true ∧ (c.requestCount : Int) < P.limit) ↔
        ¬ ((!c.keepAlive) = true ∨ P.epollServer.maxRequestsPerConn ≤ c.requestCount) := by
      rw [not_or, Bool.not_eq_true', Bool.not_eq_false, Int.not_le]
      rfl
    unfold EpollConnection.next
    split
    · rename_i stop
      rw [if_neg (fun go => on.1 go stop)]
      exact stage_ending conn (ends_client .removing)
    · rename_i go
      rw [if_pos (on.2 go)]
      rw [goto_stage (Function.update_self ..) (by rfl)]
      rfl

/-- A `send`. -/
theorem afterSend_follows {starts : Dialogue → Prop} {c : EpollConnection} (o : SendOutcome)
    (conn : st.connections fd = some c) (writing : c.Writing) (pc : st.pc = .client fd .writing) (m : Minutes) :
    Follows (Dialogue.step P) starts (some (m.dialogue (st.stage P fd)))
      (some ((m.add (o.events c.writeBuffer c.writeOffset) (decide (o = .failed ∨ o = .broken))).dialogue
        ((st.afterSend P.epollServer fd c o).stage P fd))) := by
  have stage : st.stage P fd = c.stage P := stage_some conn (by rw [pc]; exact ends_client _)
  have closing : (st.closeConnection fd).stage P fd = .ending := stage_ending conn (ends_client .removing)
  cases o with
  | sent n =>
    refine .turn (.take (min n (c.writeBuffer.length - c.writeOffset))) ?_
    have written := @handleWrite_stage P fd (st.put fd { c with
      writeOffset := c.writeOffset + min n (c.writeBuffer.length - c.writeOffset) }) _
      (Function.update_self ..) writing.state
    rw [stage, EpollConnection.stage, writing.state, afterSend, written]
    simp only [Minutes.dialogue, Minutes.add, Dialogue.step, SendOutcome.events]
    split <;> simp [EpollConnection.next]
  | interrupted =>
    simp only [SendOutcome.events, reduceCtorEq, or_self, decide_false, Minutes.add_nothing]
    exact .same _
  | wouldBlock =>
    simp only [SendOutcome.events, reduceCtorEq, or_self, decide_false, Minutes.add_nothing]
    have idle : (st.afterSend P.epollServer fd c .wouldBlock).stage P fd = st.stage P fd :=
      stage_same rfl (by rw [pc]; exact (ends_client .writing).symm)
    rw [idle]
    exact .same _
  | failed | broken =>
    rw [stage]
    exact .turn .fail ((fail_turn P (.inr writing.state) m).trans (by rw [afterSend, closing]; rfl))

/-- A socket that has hung up. -/
theorem hangup_follows {s : EpollServer} {starts : Dialogue → Prop} {e : EpollEvent} {events : List EpollEvent}
    (quiet : st.pc.ends e.fd = false) (agree : s.Agree (st.connections e.fd) (st.registered e.fd))
    (requested : e.Requested (st.registered e.fd)) (m : Minutes) :
    Follows (Dialogue.step P) starts (some (m.dialogue (st.stage P e.fd)))
      (some ((m.add [] true).dialogue ((({ st with events }).closeConnection e.fd).stage P e.fd))) := by
  have ending {c : EpollConnection} (conn : st.connections e.fd = some c) :
      (({ st with events }).closeConnection e.fd).stage P e.fd = .ending :=
    stage_ending conn (ends_client .removing)
  generalize conn : st.connections e.fd = c at agree
  generalize interest : st.registered e.fd = i at agree requested
  cases agree with
  | absent => exact absurd requested id
  | reading h =>
    rw [stage_some conn quiet, ending conn]
    exact .turn .fail (fail_turn P (.inl h.state) m)
  | writing h =>
    rw [stage_some conn quiet, ending conn]
    exact .turn .fail (fail_turn P (.inr h.state) m)

/-- An event for a client, unless its socket has hung up. -/
theorem dispatch_stage {s : EpollServer} {e : EpollEvent} (client : e.fd ≠ listenFd) (on : e.hangup = false)
    (free : st.pc.handled = none) (agree : s.Agree (st.connections e.fd) (st.registered e.fd))
    (requested : e.Requested (st.registered e.fd)) (x : Fd) :
    (st.dispatch s listenFd e).stage P x = st.stage P x := by
  have quiet : st.pc.ends x = false := ends_handled (by rw [free]; exact nofun)
  unfold dispatch
  rw [if_neg client, on, if_neg Bool.false_ne_true]
  generalize conn : st.connections e.fd = c at agree
  generalize interest : st.registered e.fd = i at agree requested
  cases agree with
  | absent => exact absurd requested id
  | @reading c h =>
    obtain ⟨-, output, flag⟩ := requested
    have input : e.input = true := by
      rcases flag with flag | flag | flag
      · exact flag
      · cases output flag
      · cases on.symm.trans flag
    rw [if_pos input, handleRead, conn]
    refine stage_same rfl ?_
    rw [quiet]
    simp [goto, EpollPc.ends, ClientCall.ends]
  | @writing c h =>
    obtain ⟨input, -, flag⟩ := requested
    have no_input : ¬ e.input = true := fun flag => by cases input flag
    have output : e.output = true := by
      rcases flag with flag | flag | flag
      · contradiction
      · exact flag
      · cases on.symm.trans flag
    rw [if_neg no_input, if_pos output, handleWrite_more conn h.offset]
    refine stage_same rfl ?_
    rw [quiet]
    simp [goto, EpollPc.ends, ClientCall.ends]

/-- **A step, seen from one connection.** -/
theorem step_follows {call : EpollCall} (inv : Consistent P.epollServer listenFd st) (fixed : Fixed P call)
    (took : st.step P.epollServer listenFd call = some st') (notes : Notes) (x : Fd) :
    Follows (Dialogue.step P) (· = {}) (view P x (st, notes))
      (view P x (st', note listenFd st call st' notes)) := by
  -- where neither the notes nor the stage change
  have still {st' : EpollState} {notes' : Notes} (same : notes' x = notes x) (stage : st'.stage P x = st.stage P x) :
      Follows (Dialogue.step P) (· = {}) (view P x (st, notes)) (view P x (st', notes')) := by
    have eq : view P x (st', notes') = view P x (st, notes) := by
      unfold view
      dsimp only
      rw [same, stage]
    rw [eq]
    exact .same _
  have other {fd : Fd} {place : ClientCall} (pc : st.pc = .client fd place) (ne : x ≠ fd) :
      st'.stage P x = st.stage P x :=
    (step_handles inv pc took).touches.stage (.inl (by rw [pc]; rfl)) ne
  have amended {fd : Fd} {events : List Event} {fails : Bool} {st' : EpollState}
      (moves : ∀ m : Minutes, Follows (Dialogue.step P) (· = {}) (some (m.dialogue (st.stage P fd)))
        (some ((m.add events fails).dialogue (st'.stage P fd)))) :
      Follows (Dialogue.step P) (· = {}) (view P fd (st, notes)) (view P fd (st', notes.amend fd events fails)) := by
    unfold view
    dsimp only
    rw [amend_self]
    exact Minutes.follows moves _
  have moves := step_moves took
  cases moves with
  | wait pc batch => exact still (by simp [note]) rfl
  | noClient pc => exact still (by simp [note]) (stage_same rfl (by rw [pc]; rfl))
  | accept pc => exact still (by simp [note]) (stage_same rfl ((ends_open rfl x).trans (by rw [pc]; rfl)))
  | refused pc => exact still (by simp [note]) (stage_same rfl (by rw [pc, ends_open rfl]; rfl))
  | add pc => exact still (by simp [note]) (stage_same rfl (by rw [pc, ends_open rfl]; exact ends_open rfl x))
  | rearm pc => exact still (by simp [note]) (stage_same rfl (by rw [pc, ends_open rfl]; rfl))
  | delete pc => exact still (by simp [note]) (stage_same rfl (by rw [pc]; rfl))
  | @switch fd pc =>
    obtain ⟨-, c, conn, writing⟩ := inv.slot pc
    have more : (st.register fd (some .epollout)).handleWrite P.epollServer fd =
        (st.register fd (some .epollout)).goto fd .writing := handleWrite_more conn writing.offset
    refine still (by simp [note, pc]) (stage_same ?_ ?_)
    · rw [more]
      rfl
    · rw [more, pc, ends_open rfl]
      exact ends_open rfl x
  | @next e events pc batch =>
    have free : st.pc.handled = none := by rw [pc]; rfl
    have quiet : st.pc.ends x = false := by rw [pc]; rfl
    by_cases listener : e.fd = listenFd
    · refine still (by simp [note, pc, batch, listener]) ?_
      rw [dispatch, if_pos listener]
      exact stage_same rfl (by rw [quiet]; rfl)
    · obtain ⟨requested, -⟩ := inv.event batch listener
      have agree := inv.agree free e.fd
      by_cases hangup : e.hangup = true
      · have close : ({ st with events }).dispatch P.epollServer listenFd e =
            ({ st with events }).closeConnection e.fd := by rw [dispatch, if_neg listener, if_pos hangup]
        have noted_ (st' : EpollState) : note listenFd st .next st' notes = notes.amend e.fd [] true := by
          simp [note, pc, batch, listener, hangup]
        rw [close, noted_]
        by_cases mine : x = e.fd
        · subst mine
          exact amended (hangup_follows quiet agree requested)
        · refine still (amend_other mine _ _) (stage_same rfl ?_)
          rw [quiet]
          exact ends_handled fun eq => mine (Option.some.inj eq).symm
      · have on : e.hangup = false := by simpa using hangup
        refine still (by simp [note, pc, batch, on]) ?_
        exact @dispatch_stage P listenFd { st with events } P.epollServer e listener on free agree requested x
  | @insert fd pc =>
    simp only [note, pc]
    by_cases mine : x = fd
    · subst mine
      have new : view P x ({ st.put x {} with pc := .accepting }, Function.update notes x (some {})) = some {} := by
        unfold view
        dsimp only
        rw [Function.update_self, Option.map_some, stage_some (Function.update_self ..) rfl]
        rfl
      rw [new]
      exact .opened _ rfl
    · exact still (Function.update_of_ne mine _ _) (other pc mine)
  | @recv fd c o now st' pc conn took' =>
    simp only [note, pc]
    by_cases mine : x = fd
    · subst mine
      obtain ⟨-, c', conn', h⟩ := inv.slot pc
      cases conn.symm.trans conn'
      subst fixed
      exact amended (afterRecv_follows conn h.state pc took')
    · exact still (amend_other mine _ _) (other pc mine)
  | @send fd c o pc conn =>
    simp only [note, pc, conn]
    by_cases mine : x = fd
    · subst mine
      obtain ⟨-, c', conn', writing⟩ := inv.slot pc
      cases conn.symm.trans conn'
      exact amended (afterSend_follows o conn writing pc)
    · exact still (amend_other mine _ _) (other pc mine)
  | @erase fd pc =>
    simp only [note, pc]
    by_cases mine : x = fd
    · subst mine
      cases conn : st.connections x with
      | none =>
        refine still rfl ?_
        rw [stage_none conn, stage_none (Function.update_self ..)]
      | some c =>
        refine amended fun m => ?_
        rw [stage_ending conn (by rw [pc]; exact ends_client _), stage_none (Function.update_self ..)]
        exact .turn .close (by simp [Dialogue.step, Minutes.dialogue, Minutes.add])
    · refine still ?_ (other pc mine)
      split
      · exact amend_other mine _ _
      · rfl

end

/-! ## Runs -/

/-- The event loop with its notes, for a policy. -/
abbrev Serving (P : Policy) (listenFd : Fd) : EpollState × Notes → Prop :=
  Run (noted (EpollState.step P.epollServer listenFd) (note listenFd))
    (fun s call => s.1.Legal listenFd call ∧ Fixed P call) ({}, fun _ => none)

/-- From a connection the loop looks like a dialogue. -/
theorem serving_dialogue {P : Policy} {listenFd : Fd} {s : EpollState × Notes} (run : Serving P listenFd s) (fd : Fd)
    {d : Dialogue} (seen : view P fd s = some d) : Reach (Dialogue.step P) {} d := by
  have each (t : EpollState × Notes) (call : EpollCall) (u : EpollState × Notes) (run : Serving P listenFd t)
      (ok : t.1.Legal listenFd call ∧ Fixed P call)
      (took : noted (EpollState.step P.epollServer listenFd) (note listenFd) t call = some u) :
      Follows (Dialogue.step P) (· = {}) (view P fd t) (view P fd u) := by
    obtain ⟨took, notes⟩ := noted_eq_some.1 took
    have plain : Run (EpollState.step P.epollServer listenFd) (fun st call => st.Legal listenFd call ∧ Fixed P call)
      {} t.1 := run.forget
    have inv := Reached.consistent (plain.mono fun _ _ ok => ok.1)
    have follows := step_follows inv ok.2 took t.2 fd
    rwa [← notes] at follows
  obtain ⟨d₀, rfl, reached⟩ := run.follows (v := view P fd) rfl each seen
  exact reached

/-- **Every client is served as if it were the only one**, whatever the others do: what it has got is a part of
what `handle_connection` sends for the chunks it has sent itself, and unless its socket has failed it is all of it
while the loop waits for the client, and once it has closed, which it does where `handle_connection` does. -/
theorem served_alone (P : Policy) (limit : 1 ≤ P.limit) (listenFd fd : Fd) {st : EpollState} {notes : Notes}
    (run : Serving P listenFd (st, notes)) {m : Minutes} (known : notes fd = some m) :
    (m.dialogue (st.stage P fd)).Matches P := by
  refine Dialogue.reach_matches limit (serving_dialogue run fd ?_)
  exact congrArg (Option.map _) known

/-- The call at the policy's moment. -/
def fixed (P : Policy) : EpollCall → EpollCall
  | .recv o _ => .recv o P.server.moment
  | call => call

theorem fixed_fixed (P : Policy) (call : EpollCall) : Fixed P (fixed P call) := by
  cases call with
  | recv o now => rfl
  | _ => trivial

set_option maxRecDepth 4000 in
/-- One client sends an empty line in two chunks and gets the answer in parts; another one resets its socket. -/
theorem served_alone_two : ∃ st notes m, Serving (greeting 2) 3 (st, notes) ∧ notes 5 = some m ∧
    m.broken = false ∧ (bytesSent m.log).length = 7 ∧ (notes 6).map (·.broken) = some true ∧
    (m.dialogue (st.stage (greeting 2) 5)).Matches (greeting 2) := by
  obtain ⟨⟨st, notes⟩, m, ran, known, healthy, sent, reset⟩ : ∃ s m,
      exec (fun s call => noted (step (greeting 2).epollServer 3) (note 3) s (fixed (greeting 2) call))
        (fun s call => decide (s.1.Legal 3 (fixed (greeting 2) call))) ({}, fun _ => none)
        [.wait [{ fd := 3, input := true }], .next, .accept (some 5), .add true, .insert, .accept (some 6),
          .add true, .insert, .accept none,
          .wait [{ fd := 5, input := true }, { fd := 6, hangup := true }], .next,
          .recv (.data [13]) ⟨.still, fun _ => none⟩, .recv .wouldBlock ⟨.still, fun _ => none⟩,
          .next, .delete, .erase, .wait [{ fd := 5, input := true }], .next,
          .recv (.data [10]) ⟨.still, fun _ => none⟩, .modify, .send (.sent 3), .send (.sent 4)] = some s ∧
      s.2 5 = some m ∧ m.broken = false ∧ (bytesSent m.log).length = 7 ∧ (s.2 6).map (·.broken) = some true :=
    ⟨_, _, rfl, rfl, rfl, rfl, rfl⟩
  have run : Serving (greeting 2) 3 (st, notes) :=
    (exec_run ran).simulate (f := id) (g := fun _ call => fixed (greeting 2) call) fun _ _ _ legal took =>
      ⟨⟨of_decide_eq_true legal, fixed_fixed _ _⟩, took⟩
  exact ⟨st, notes, m, run, known, healthy, sent, reset, served_alone (greeting 2) (by decide) 3 5 run known⟩

end EpollState

end HttpServer
