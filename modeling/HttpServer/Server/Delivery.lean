import HttpServer.Lib.History
import HttpServer.Server.Rest

/-!
# Everything that is sent to the event loop is answered

With the loop, its clients and the kernel in one system, no byte gets lost: what a
client has sent on its connection is what the connection has received and what
still waits in its socket (`Conveys`). So when the loop rests, as it comes to do,
it has sent to each client all that `handle_connection` alone would send for all
that the client has sent, or the client leaves no room for it (`all_kept`).
-/

namespace HttpServer

open Runs

/-- What is noted about the connections, and what each client has sent on its present one. -/
structure Records where
  notes : EpollState.Notes := fun _ => none
  said : Fd → Bytes := fun _ => []

def ClientAct.data : ClientAct → Bytes
  | .sends data => data
  | _ => []

namespace EpollState

variable {s : EpollServer} {listenFd fd : Fd} {st st' : EpollState} {c : EpollConnection}

theorem put_isSome (conn : st.connections fd = some c) (c' : EpollConnection) (x : Fd) :
    ((st.put fd c').connections x).isSome = (st.connections x).isSome := by
  change (Function.update st.connections fd (some c') x).isSome = _
  by_cases mine : x = fd
  · subst mine
    rw [Function.update_self, conn]
    rfl
  · rw [Function.update_of_ne mine]

/-- `handle_write` takes nobody out of the table. -/
theorem handleWrite_isSome (x : Fd) : ((st.handleWrite s fd).connections x).isSome = (st.connections x).isSome := by
  unfold handleWrite
  split
  · rfl
  · rename_i c conn
    split
    · rfl
    · split
      · rfl
      · exact put_isSome conn _ x

/-- Nor does handing over an event: only `close_connection` erases, behind `EPOLL_CTL_DEL`. -/
theorem dispatch_isSome (e : EpollEvent) (x : Fd) :
    ((st.dispatch s listenFd e).connections x).isSome = (st.connections x).isSome := by
  unfold dispatch handleRead
  repeat' split
  all_goals first | rfl | exact handleWrite_isSome x

/-- A `recv` leaves the entries of the table. -/
theorem afterRecv_isSome {o : RecvOutcome} (conn : st.connections fd = some c)
    (took : st.afterRecv s fd c o = some st') (x : Fd) : (st'.connections x).isSome = (st.connections x).isSome := by
  cases o with
  | data d =>
    dsimp only [afterRecv] at took
    split at took
    · cases took
      rfl
    · rcases received_cases took with ⟨c', -, rfl⟩ | ⟨-, rfl⟩
      · exact put_isSome conn c' x
      · exact put_isSome conn _ x
  | interrupted | wouldBlock | failed =>
    cases took
    rfl

/-- So does a `send`. -/
theorem afterSend_isSome (o : SendOutcome) (conn : st.connections fd = some c) (x : Fd) :
    ((st.afterSend s fd c o).connections x).isSome = (st.connections x).isSome := by
  cases o with
  | sent n => exact (handleWrite_isSome x).trans (put_isSome conn _ x)
  | interrupted | wouldBlock | failed | broken => rfl

end EpollState

namespace EpollSystem

/-- The records on a step. A descriptor that is closed is free for another client. -/
def record (listenFd : Fd) (sys : EpollSystem) (act : SystemAct) (sys' : EpollSystem) (r : Records) : Records :=
  match act with
  | .client fd act => { r with said := Function.update r.said fd (r.said fd ++ act.data) }
  | .server call =>
    { notes := EpollState.note listenFd sys.server call sys'.server r.notes
      said :=
        match sys.server.pc, call with
        | .client fd .adding, .add false | .client fd .erasing, .erase => Function.update r.said fd []
        | _, _ => r.said }

/-- The clock stands still, and the router is the policy's. -/
def Fixed (P : Policy) : SystemAct → Prop
  | .client _ _ => True
  | .server call => EpollState.Fixed P call

/-- The event loop with its clients and the records, for a policy. -/
abbrev Serving (P : Policy) (listenFd : Fd) : EpollSystem × Records → Prop :=
  Run (noted (step P.epollServer listenFd) (record listenFd))
    (fun s act => s.1.Legal listenFd act ∧ Fixed P act) ({}, {})

section

variable {P : Policy} {listenFd : Fd} {sys sys' : EpollSystem} {r : Records}

/-- The records do not change what the server does. -/
theorem serving_reached {s : EpollSystem × Records} (run : Serving P listenFd s) :
    Reached P.epollServer listenFd s.1 := by
  have plain : Run (step P.epollServer listenFd) (fun sys act => sys.Legal listenFd act ∧ Fixed P act) {} s.1 :=
    run.forget
  exact plain.mono fun _ _ ok => ok.1

/-- The server's part of such a run. -/
theorem serving_server {s : EpollSystem × Records} (run : Serving P listenFd s) :
    EpollState.Serving P listenFd (s.1.server, s.2.notes) := by
  induction run with
  | start => exact .start
  | @next s t act run ok took ih =>
    obtain ⟨moved, same⟩ := noted_eq_some.1 took
    rw [same]
    cases act with
    | client fd act =>
      rw [client_server moved]
      exact ih
    | server call =>
      obtain ⟨st', stepped, sys'⟩ := Option.map_eq_some_iff.1 moved
      rw [← sys']
      exact ih.next (a := call) ⟨ok.1.1, ok.2⟩ (noted_eq_some.2 ⟨stepped, rfl⟩)

/-! ## No byte gets lost -/

/-- What the client has sent has been received by its connection, or waits in the socket. -/
def Conveys (sys : EpollSystem) (r : Records) (fd : Fd) : Prop :=
  if (sys.server.connections fd).isSome then
    ∃ m, r.notes fd = some m ∧ (arrived m.log).flatten ++ (sys.socks fd).input = r.said fd
  else (sys.socks fd).input = r.said fd

/-- What has arrived from an open connection, with what is still in its socket, is what the client has said. -/
theorem Conveys.received {fd : Fd} {c : EpollConnection} (conveys : Conveys sys r fd)
    (conn : sys.server.connections fd = some c) :
    ∃ m, r.notes fd = some m ∧ (arrived m.log).flatten ++ (sys.socks fd).input = r.said fd := by
  rw [Conveys, conn] at conveys
  exact conveys

/-- A step that brings the connection nothing. -/
theorem Conveys.same {r' : Records} {fd : Fd} (conveys : Conveys sys r fd)
    (connections : (sys'.server.connections fd).isSome = (sys.server.connections fd).isSome)
    (notes : r'.notes fd = r.notes fd ∨ ∃ events fails, arrived events = [] ∧
      r'.notes fd = (r.notes fd).map fun m => m.add events fails)
    (input : (sys'.socks fd).input = (sys.socks fd).input) (said : r'.said fd = r.said fd) : Conveys sys' r' fd := by
  unfold Conveys at *
  rw [connections, input, said]
  split
  · rename_i open_
    rw [if_pos open_] at conveys
    obtain ⟨m, known, all⟩ := conveys
    rcases notes with same | ⟨events, fails, nothing, amended⟩
    · exact ⟨m, same.trans known, all⟩
    · exact ⟨m.add events fails, by rw [amended, known]; rfl, by simpa [Minutes.add, nothing] using all⟩
  · rename_i closed
    rwa [if_neg closed] at conveys

/-- What a client does shows in its own socket only. -/
theorem client_socks {fd : Fd} {act : ClientAct} (acts : sys.client fd act = some sys') :
    ∃ k, (sys.socks fd).client act = some k ∧ sys'.socks = Function.update sys.socks fd k := by
  obtain ⟨k, changed, rfl⟩ := Option.map_eq_some_iff.1 acts
  refine ⟨k, changed, ?_⟩
  dsimp only
  split <;> rfl

/-- What the client sends waits at the end of the input. -/
theorem client_input {k k' : Sock} {act : ClientAct} (changed : k.client act = some k') :
    k'.input = k.input ++ act.data := by
  cases act <;> simp only [Sock.client] at changed <;> split at changed <;> cases changed <;>
    simp [ClientAct.data]

/-- A client's act adds to what it has said and to what waits, and to nothing else. -/
theorem Conveys.client {x fd : Fd} {act : ClientAct} (conveys : Conveys sys r x)
    (acts : sys.client fd act = some sys') : Conveys sys' (record listenFd sys (.client fd act) sys' r) x := by
  have server := client_server acts
  obtain ⟨k, changed, socks⟩ := client_socks acts
  by_cases mine : x = fd
  · subst mine
    have input : (sys'.socks x).input = (sys.socks x).input ++ act.data := by
      rw [socks, Function.update_self]
      exact client_input changed
    have said : (record listenFd sys (.client x act) sys' r).said x = r.said x ++ act.data := Function.update_self ..
    unfold Conveys at *
    rw [server, input, said]
    split
    · rename_i open_
      rw [if_pos open_] at conveys
      obtain ⟨m, known, all⟩ := conveys
      exact ⟨m, known, by rw [← all, List.append_assoc]⟩
    · rename_i closed
      rw [if_neg closed] at conveys
      rw [conveys]
  · refine conveys.same (by rw [server]) (.inl rfl) ?_ (Function.update_of_ne mine _ _)
    rw [socks, Function.update_of_ne mine]

/-- The records of the other clients. -/
theorem record_other {fd x : Fd} {place : ClientCall} {call : EpollCall} (pc : sys.server.pc = .client fd place)
    (ne : x ≠ fd) : (record listenFd sys (.server call) sys' r).notes x = r.notes x ∧
      (record listenFd sys (.server call) sys' r).said x = r.said x := by
  have updated (b : Bytes) : Function.update r.said fd b x = r.said x := Function.update_of_ne ne _ _
  have noted_ (m : Option Minutes) : Function.update r.notes fd m x = r.notes x := Function.update_of_ne ne _ _
  constructor
  · dsimp only [record, EpollState.note]
    rw [pc]
    cases place <;> cases call <;> first
      | rfl
      | exact noted_ _
      | dsimp only
        cases sys.server.connections fd <;> first | rfl | exact noted_ _
  · dsimp only [record]
    rw [pc]
    cases place <;> cases call <;> first
      | rfl
      | exact updated _
      | cases ‹Bool› <;> first | rfl | exact updated _

/-- Only a `recv` with data brings anything. -/
theorem arrived_recv (o : RecvOutcome) : (arrived o.events).flatten = match o with | .data d => d | _ => [] := by
  cases o <;> simp [RecvOutcome.events, arrived]

/-- A `send` brings nothing in. -/
theorem arrived_send (data : Bytes) (written : Nat) (o : SendOutcome) : arrived (o.events data written) = [] := by
  cases o with
  | sent n =>
    simp only [SendOutcome.events]
    split <;> rfl
  | interrupted | wouldBlock | failed | broken => rfl

/-- A `recv` takes from the socket what it brings. -/
theorem recv_input {fd : Fd} {o : RecvOutcome} {now : Moment} (pc : sys.server.pc = .client fd .reading)
    (allows : sys.Allows listenFd (.recv o now)) :
    (arrived o.events).flatten ++ ((sys.kernel (.recv o now)).socks fd).input = (sys.socks fd).input := by
  rw [arrived_recv]
  cases o with
  | data d =>
    simp only [Allows, pc] at allows
    have rest : ((sys.kernel (.recv (.data d) now)).socks fd).input = (sys.socks fd).input.drop d.length := by
      simp [kernel, pc, setSock]
    rw [rest]
    by_cases eof : d = []
    · simp [eof]
    · rw [if_neg eof] at allows
      obtain ⟨behind, split_⟩ := allows.1
      dsimp only
      rw [← split_, List.drop_left]
  | interrupted | wouldBlock | failed => simp only [kernel, pc, List.nil_append]

/-- **A step of the server loses no byte.** -/
theorem Conveys.server {s : EpollServer} {call : EpollCall} {st' : EpollState} {x : Fd} (conveys : Conveys sys r x)
    (inv : EpollState.Consistent s listenFd sys.server) (allows : sys.Allows listenFd call)
    (took : sys.server.step s listenFd call = some st') :
    Conveys { sys.kernel call with server := st' }
      (record listenFd sys (.server call) { sys.kernel call with server := st' } r) x := by
  have other {fd : Fd} {place : ClientCall} (pc : sys.server.pc = .client fd place) (ne : x ≠ fd) :
      Conveys { sys.kernel call with server := st' }
        (record listenFd sys (.server call) { sys.kernel call with server := st' } r) x := by
    obtain ⟨notes, said⟩ := @record_other listenFd sys { sys.kernel call with server := st' } r fd x place call pc ne
    have connections := (EpollState.step_handles inv pc took).touches.connections x ne
    exact conveys.same (by rw [connections]) (.inl notes) (by rw [(kernel_others pc call ne).1]) said
  cases EpollState.step_moves took with
  | @wait events pc batch =>
    refine conveys.same rfl (.inl ?_) ?_ ?_ <;> simp [record, EpollState.note, kernel, pc]
  | @next e events pc batch =>
    refine conveys.same (@EpollState.dispatch_isSome s listenFd { sys.server with events } e x) ?_ ?_ ?_
    · simp only [record, EpollState.note, pc, batch]
      split
      · by_cases mine : x = e.fd
        · subst mine
          exact .inr ⟨[], true, rfl, EpollState.amend_self _ _⟩
        · exact .inl (EpollState.amend_other mine _ _)
      · exact .inl rfl
    · simp only [kernel, pc]
    · simp only [record, pc]
  | noClient pc =>
    refine conveys.same rfl (.inl ?_) ?_ ?_ <;> simp [record, EpollState.note, kernel, pc]
  | accept pc =>
    refine conveys.same rfl (.inl ?_) ?_ ?_ <;> simp [record, EpollState.note, kernel, pc]
  | @add fd pc =>
    refine conveys.same rfl (.inl ?_) ?_ ?_ <;> simp [record, EpollState.note, kernel, pc, setPending]
  | @refused fd pc =>
    by_cases mine : x = fd
    · subst mine
      obtain ⟨closed, -⟩ := inv.slot pc
      simp [Conveys, record, kernel, pc, setSock, closed]
    · exact other pc mine
  | @insert fd pc =>
    by_cases mine : x = fd
    · subst mine
      obtain ⟨closed, -⟩ := inv.slot pc
      simp only [Conveys, closed, Option.isSome_none] at conveys
      simpa [Conveys, record, EpollState.note, kernel, pc, EpollState.put] using conveys
    · exact other pc mine
  | @recv fd c o now st' pc conn moved =>
    by_cases mine : x = fd
    · subst mine
      obtain ⟨m, known, all⟩ := conveys.received conn
      have open_ : (st'.connections x).isSome = true := by
        rw [EpollState.afterRecv_isSome conn moved, conn]
        rfl
      refine (if_pos open_).mpr ⟨m.add o.events (decide (o = .failed)), ?_, ?_⟩
      · simp only [record, EpollState.note, pc, EpollState.amend_self, known, Option.map_some]
      · simp only [record, pc, Minutes.add, arrived_append, List.flatten_append]
        rw [List.append_assoc, recv_input pc allows, all]
    · exact other pc mine
  | @switch fd pc =>
    refine conveys.same (EpollState.handleWrite_isSome x) (.inl ?_) ?_ ?_ <;>
      simp [record, EpollState.note, kernel, pc, setPending]
  | @send fd c o pc conn =>
    by_cases mine : x = fd
    · subst mine
      refine conveys.same (EpollState.afterSend_isSome o conn x)
        (.inr ⟨o.events c.writeBuffer c.writeOffset, decide (o = .failed ∨ o = .broken), arrived_send _ _ o, ?_⟩) ?_ ?_
      · simp only [record, EpollState.note, pc, conn]
        exact EpollState.amend_self _ _
      · cases o <;> simp [kernel, pc, setSock]
      · simp only [record, pc]
    · exact other pc mine
  | @rearm fd pc =>
    refine conveys.same rfl (.inl ?_) ?_ ?_ <;> simp [record, EpollState.note, kernel, pc, setPending]
  | @delete fd pc =>
    refine conveys.same rfl (.inl ?_) ?_ ?_ <;> simp [record, EpollState.note, kernel, pc, setPending]
  | @erase fd pc =>
    by_cases mine : x = fd
    · subst mine
      simp [Conveys, record, kernel, pc, setSock]
    · exact other pc mine

/-- In every run nothing is lost between a client and the server's log, and nothing is added. -/
theorem serving_conveys {s : EpollSystem × Records} (run : Serving P listenFd s) (x : Fd) : Conveys s.1 s.2 x := by
  refine run.invariant_with (I := fun s => Conveys s.1 s.2 x)
    (J := fun s => EpollState.Consistent P.epollServer listenFd s.1.server)
    (fun s run => (Reached.server (serving_reached run)).consistent) (by simp [Conveys]) ?_
  rintro ⟨sys, r⟩ act ⟨sys', r'⟩ inv conveys ok took
  obtain ⟨moved, same⟩ := noted_eq_some.1 took
  dsimp only at moved same inv conveys ⊢
  subst same
  cases act with
  | client fd act => exact conveys.client moved
  | server call =>
    obtain ⟨st', stepped, rfl⟩ := Option.map_eq_some_iff.1 moved
    exact conveys.server inv ok.1.2 stepped

/-! ## Rest -/

/-- What has been done for a client who has sent `said` on a connection with this log. -/
inductive Kept (P : Policy) (k : Sock) (said : Bytes) (log : List Event) : Prop where
  /-- Everything has been received and answered. -/
  | all (received : (arrived log).flatten = said)
      (answered : bytesSent log = bytesSent (P.server.handleConnection ((arrived log).map .data) []))
  /-- The client leaves no room for the rest of a response. -/
  | rest (unsent : Bytes) (more : unsent ≠ []) (full : k.space = 0) (received : (arrived log).flatten <+: said)
      (answered : bytesSent log ++ unsent = bytesSent (P.server.handleConnection ((arrived log).map .data) []))

/-- The loop waits, and it has done for each client what the client lets it do. -/
structure Answers (P : Policy) (s : EpollSystem × Records) : Prop where
  rests : Rests s.1
  kept : ∀ fd c, s.1.server.connections fd = some c →
    ∃ m, s.2.notes fd = some m ∧ Kept P (s.1.socks fd) (s.2.said fd) m.log

end

end EpollSystem

/-- Behind the rest of a response the client has got what `handle_connection` sends for the chunks that have
arrived. -/
theorem Dialogue.Told.unsent {P : Policy} {d : Dialogue} (limit : 1 ≤ P.limit) (told : d.Told P) {data : Bytes}
    {written : Nat} {next : Option Nat} (stage : d.stage = .writing data written next) :
    bytesSent d.log ++ data.drop written = bytesSent (P.server.handleConnection ((arrived d.log).map .data) []) := by
  have healthy := told.healthy (by simp [stage])
  have alone := @handleConnection_play P limit _ [] (steadyReads_data (arrived d.log)) steadySends_nil
  rw [chunks_map_data] at alone
  have behind : responses ((Stage.behind next).rest P []) = [] := by
    cases next <;> rfl
  have whole := congrArg responses (told.whole healthy [])
  rw [responses_append, responses_visible, stage, rest_behind, responses_cons, behind, List.append_nil,
    List.append_nil] at whole
  rw [alone.bytes, told.sent healthy, stage, ← whole, List.flatten_append, List.append_assoc]
  exact congrArg _ ((List.take_append_drop written data).trans (List.append_nil data).symm)

namespace EpollSystem

section

variable {P : Policy} {listenFd : Fd} {sys sys' : EpollSystem} {r : Records}

/-- Where the system rests each open connection has been answered, or its client does not take the answer. -/
theorem rests_kept (limit : 1 ≤ P.limit) (run : Serving P listenFd (sys, r)) (rests : Rests sys) {fd : Fd}
    {c : EpollConnection} (conn : sys.server.connections fd = some c) :
    ∃ m, r.notes fd = some m ∧ Kept P (sys.socks fd) (r.said fd) m.log := by
  obtain ⟨m, known, all⟩ := (serving_conveys run fd).received conn
  have seen := EpollState.serving_dialogue (P := P) (serving_server run) fd (d := m.dialogue (sys.server.stage P fd))
    (congrArg (Option.map _) known)
  have told := Dialogue.reach_told seen
  have stage : sys.server.stage P fd = c.stage P := EpollState.stage_some conn (by rw [rests.idle]; rfl)
  refine ⟨m, known, ?_⟩
  cases rests.awaits fd c conn with
  | input state drained =>
    have reading : sys.server.stage P fd = .reading c.parser c.requestCount := by
      rw [stage, EpollConnection.stage, state]
    have healthy : m.broken = false := told.healthy (by simp [Minutes.dialogue, reading])
    rw [drained, List.append_nil] at all
    exact .all all ((told.matches limit).settled healthy (.inl ⟨_, _, reading⟩)).1
  | room state unsent full =>
    have writing : sys.server.stage P fd = .writing c.writeBuffer c.writeOffset (c.next P) := by
      rw [stage, EpollConnection.stage, state]
    refine .rest (c.writeBuffer.drop c.writeOffset) ?_ full ⟨_, all⟩ (told.unsent limit writing)
    rw [ne_eq, List.drop_eq_nil_iff, Nat.not_le]
    exact unsent

/-- **Everything that is sent to the event loop is answered**: from any state of the loop with its clients and the
kernel, whatever order of steps is taken and with any number `k` of disturbances still to come, the loop comes to
rest, and then each connection has received all that its client has sent and sent all that `handle_connection` alone
sends for it, or the client leaves no room for the rest of a response. -/
theorem all_kept (P : Policy) (limit : 1 ≤ P.limit) (listenFd : Fd) (k : Nat) (run : Serving P listenFd (sys, r)) :
    Inevitable (disturbed (noted (step P.epollServer listenFd) (record listenFd)) fun s act => s.1.Calm listenFd act)
      (fun s act => s.1.1.Legal listenFd act ∧ Fixed P act) (fun s => Answers P s.1) ((sys, r), k) := by
  have settled (s : EpollSystem × Records) (run : Serving P listenFd s) :
      Inevitable (noted (step P.epollServer listenFd) (record listenFd))
        (fun s act => (s.1.Legal listenFd act ∧ Fixed P act) ∧ s.1.Calm listenFd act) (Answers P) s := by
    have plain : Inevitable (step P.epollServer listenFd)
        (fun sys act => (sys.Legal listenFd act ∧ Fixed P act) ∧ sys.Calm listenFd act) Rests s.1 := by
      refine settles P.server.moment (fun t act ok => ⟨ok.1.1, ok.2⟩) (fun t act ok at_ => ⟨⟨ok.1, ?_⟩, ok.2⟩)
        (serving_reached run)
      cases act with
      | client fd act => trivial
      | server call =>
        cases call with
        | recv o now => exact at_
        | _ => trivial
    refine (plain.noted s.2).weaken ?_
    rintro ⟨sys', r'⟩ later rests
    have whole : Serving P listenFd (sys', r') := run.trans (later.mono fun _ _ ok => ok.1)
    exact ⟨rests, fun fd c conn => rests_kept limit whole rests conn⟩
  exact Inevitable.disturbed settled (fun s act t run ok took => run.next ok took) k run

/-- The step at the policy's moment. -/
def fixed (P : Policy) : SystemAct → SystemAct
  | .client fd act => .client fd act
  | .server call => .server (EpollState.fixed P call)

theorem fixed_fixed (P : Policy) (act : SystemAct) : Fixed P (fixed P act) := by
  cases act with
  | client fd act => trivial
  | server call => exact EpollState.fixed_fixed P call

set_option maxRecDepth 4000 in
/-- A client has sent a part of a line; four more disturbances may come. -/
theorem all_kept_one : ∃ sys r, Serving (greeting 2) 3 (sys, r) ∧ r.said 5 = [13] ∧
    Inevitable (disturbed (noted (step (greeting 2).epollServer 3) (record 3)) fun s act => s.1.Calm 3 act)
      (fun s act => s.1.1.Legal 3 act ∧ Fixed (greeting 2) act) (fun s => Answers (greeting 2) s.1) ((sys, r), 4) := by
  obtain ⟨⟨sys, r⟩, ran, said⟩ : ∃ s,
      exec (fun s act => noted (step (greeting 2).epollServer 3) (record 3) s (fixed (greeting 2) act))
        (fun s act => decide (s.1.Legal 3 (fixed (greeting 2) act))) ({}, {})
        [.client 5 (.sends [13]), .server (.wait [{ fd := 3, input := true }]), .server .next,
          .server (.accept (some 5)), .server (.add true), .server .insert, .server (.accept none),
          .server (.wait [{ fd := 5, input := true }]), .server .next,
          .server (.recv (.data [13]) ⟨.still, fun _ => none⟩)] = some s ∧ s.2.said 5 = [13] := ⟨_, rfl, rfl⟩
  have run : Serving (greeting 2) 3 (sys, r) :=
    (exec_run ran).simulate (f := id) (g := fun _ act => fixed (greeting 2) act) fun _ _ _ legal took =>
      ⟨⟨of_decide_eq_true legal, fixed_fixed _ _⟩, took⟩
  exact ⟨sys, r, run, said, all_kept (greeting 2) (by decide) 3 4 run⟩

end

end EpollSystem

end HttpServer
