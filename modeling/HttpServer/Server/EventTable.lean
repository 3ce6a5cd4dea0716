import Mathlib.Logic.Function.Basic
import HttpServer.Lib.Runs
import HttpServer.Server.Epoll

/-!
# The event loop with all its connections

`EpollState` is the event-driven server with its connection table, the
descriptors registered in epoll and the batch of reported events. One step is a
call of the kernel, with its outcome, and the code behind it up to the next
call; the clients and the kernel do what they like. Between two handled events
the table and the registrations agree with each other and with the states of the
connections (`table_consistent`); inside a handler this holds of all connections
but the handled one, of which the place in the handler tells what holds
(`ClientCall.Ok`).
-/

namespace HttpServer

open HttpParser

abbrev Fd := Nat

/-- One `epoll_event`. -/
structure EpollEvent where
  fd : Fd
  input : Bool := false
  output : Bool := false
  /-- `EPOLLERR` or `EPOLLHUP`. -/
  hangup : Bool := false
  deriving DecidableEq

/-- The calls that the handlers make for a client's descriptor. -/
inductive ClientCall where
  /-- `add_to_epoll` in `accept_connections`. -/
  | adding
  /-- The assignment to `connections_[fd]`. -/
  | inserting
  /-- `recv` in `handle_read`. -/
  | reading
  /-- `modify_epoll` in `handle_read`. -/
  | switching
  /-- `send` in `handle_write`. -/
  | writing
  /-- `modify_epoll` in `handle_write`. -/
  | rearming
  /-- `remove_from_epoll` in `close_connection`. -/
  | removing
  /-- `connections_.erase`, which closes the socket. -/
  | erasing
  deriving DecidableEq

/-- The call that the event loop makes next; `idle` is between two events. -/
inductive EpollPc where
  | idle
  | accepting
  | client (fd : Fd) (call : ClientCall)
  deriving DecidableEq

def EpollPc.handled : EpollPc → Option Fd
  | .client fd _ => some fd
  | _ => none

structure EpollState where
  connections : Fd → Option EpollConnection := fun _ => none
  /-- The clients' descriptors that are registered in epoll. -/
  registered : Fd → Option Interest := fun _ => none
  /-- The reported events that are not yet handled. -/
  events : List EpollEvent := []
  pc : EpollPc := .idle

/-- The outcome of a call; `next` goes on with the batch. -/
inductive EpollCall where
  | wait (events : List EpollEvent)
  | next
  | accept (client : Option Fd)
  | add (ok : Bool)
  | insert
  | recv (o : RecvOutcome) (now : Moment)
  | modify
  | send (o : SendOutcome)
  | delete
  | erase

def EpollServer.during (s : EpollServer) (now : Moment) : EpollServer :=
  { s with router := s.router.map fun _ => now.route, platform := now.platform }

namespace EpollState

def put (st : EpollState) (fd : Fd) (c : EpollConnection) : EpollState :=
  { st with connections := Function.update st.connections fd (some c) }

def goto (st : EpollState) (fd : Fd) (call : ClientCall) : EpollState := { st with pc := .client fd call }

def register (st : EpollState) (fd : Fd) (i : Option Interest) : EpollState :=
  { st with registered := Function.update st.registered fd i }

/-- `close_connection`. -/
def closeConnection (st : EpollState) (fd : Fd) : EpollState := st.goto fd .removing

/-- `handle_write` from the test of its loop on. -/
def handleWrite (s : EpollServer) (st : EpollState) (fd : Fd) : EpollState :=
  match st.connections fd with
  | none => { st with pc := .idle }
  | some c =>
    if c.writeOffset < c.writeBuffer.length then st.goto fd .writing
    else if !c.keepAlive ∨ s.maxRequestsPerConn ≤ c.requestCount then st.closeConnection fd
    else
      (st.put fd { c with
        parser := c.parser.reset
        writeBuffer := []
        writeOffset := 0
        state := .reading }).goto fd .rearming

def handleRead (st : EpollState) (fd : Fd) : EpollState :=
  match st.connections fd with
  | none => { st with pc := .idle }
  | some _ => st.goto fd .reading

/-- The body of the loop over the reported events. -/
def dispatch (s : EpollServer) (listenFd : Fd) (st : EpollState) (e : EpollEvent) : EpollState :=
  if e.fd = listenFd then { st with pc := .accepting }
  else if e.hangup then st.closeConnection e.fd
  else if e.input then st.handleRead e.fd
  else if e.output then st.handleWrite s e.fd
  else { st with pc := .idle }

/-- `handle_read` behind a `recv` that has brought data; none where an exception leaves the router. -/
def received (s : EpollServer) (st : EpollState) (fd : Fd) (c : EpollConnection) (data : Bytes) :
    Option EpollState :=
  match c.parser.feed data with
  | (parser, .complete) =>
    let (req, parser) := parser.getRequest
    let keepAlive := s.enableKeepalive && req.shouldKeepAlive
    match s.respond req with
    | none => none
    | some res =>
      some ((st.put fd { c with
        parser
        writeBuffer := serialize s.platform c.requestCount { res with keepAlive }
        writeOffset := 0
        keepAlive
        requestCount := c.requestCount + 1
        state := .writing }).goto fd .switching)
  | (parser, .error) =>
    let res := { Response.error parser.errorCode [] with keepAlive := false }
    some ((st.put fd { c with
      parser
      writeBuffer := serialize s.platform c.requestCount res
      writeOffset := 0
      keepAlive := false
      state := .writing }).goto fd .switching)
  | (parser, .incomplete) => some (st.put fd { c with parser })

/-- `handle_read` behind a `recv`. -/
def afterRecv (s : EpollServer) (st : EpollState) (fd : Fd) (c : EpollConnection) :
    RecvOutcome → Option EpollState
  | .data d => if d = [] then some (st.closeConnection fd) else st.received s fd c d
  | .interrupted => some st
  | .wouldBlock => some { st with pc := .idle }
  | .failed => some (st.closeConnection fd)

/-- `handle_write` behind a `send`. -/
def afterSend (s : EpollServer) (st : EpollState) (fd : Fd) (c : EpollConnection) : SendOutcome → EpollState
  | .sent n =>
    let bytes := min n (c.writeBuffer.length - c.writeOffset)
    (st.put fd { c with writeOffset := c.writeOffset + bytes }).handleWrite s fd
  | .interrupted => st
  | .wouldBlock => { st with pc := .idle }
  | .failed | .broken => st.closeConnection fd

/-- One step: a call and the code behind it; none where the loop makes another call. -/
def step (s : EpollServer) (listenFd : Fd) (st : EpollState) (call : EpollCall) : Option EpollState :=
  match st.pc, call with
  | .idle, .wait events => if st.events = [] then some { st with events } else none
  | .idle, .next =>
    match st.events with
    | [] => none
    | e :: events => some ({ st with events }.dispatch s listenFd e)
  | .accepting, .accept none => some { st with pc := .idle }
  | .accepting, .accept (some fd) => some (st.goto fd .adding)
  | .client fd .adding, .add true => some ((st.register fd (some .epollin)).goto fd .inserting)
  | .client _ .adding, .add false => some { st with pc := .accepting }
  | .client fd .inserting, .insert => some { st.put fd {} with pc := .accepting }
  | .client fd .reading, .recv o now =>
    match st.connections fd with
    | none => none
    | some c => st.afterRecv (s.during now) fd c o
  | .client fd .switching, .modify => some ((st.register fd (some .epollout)).handleWrite s fd)
  | .client fd .writing, .send o =>
    match st.connections fd with
    | none => none
    | some c => some (st.afterSend s fd c o)
  | .client fd .rearming, .modify => some { st.register fd (some .epollin) with pc := .idle }
  | .client fd .removing, .delete => some ((st.register fd none).goto fd .erasing)
  | .client fd .erasing, .erase =>
    some { st with connections := Function.update st.connections fd none, pc := .idle }
  | _, _ => none

end EpollState

/-- An event that epoll reports for a descriptor: in the direction asked for, or a hangup. -/
def EpollEvent.Requested (e : EpollEvent) : Option Interest → Prop
  | none => False
  | some i => (e.input = true → i = .epollin) ∧ (e.output = true → i = .epollout) ∧
      (e.input = true ∨ e.output = true ∨ e.hangup = true)

instance (e : EpollEvent) (i : Option Interest) : Decidable (e.Requested i) :=
  match i with
  | none => inferInstanceAs (Decidable False)
  | some _ => inferInstanceAs (Decidable (_ ∧ _ ∧ _))

/-- The kernel reports each descriptor once, with what was asked for, and `accept` returns a
descriptor that is not open. -/
def EpollState.Legal (listenFd : Fd) (st : EpollState) : EpollCall → Prop
  | .wait events => (events.map (·.fd)).Nodup ∧
      ∀ e ∈ events, e.fd = listenFd ∨ e.Requested (st.registered e.fd)
  | .accept (some fd) => fd ≠ listenFd ∧ (st.connections fd).isNone = true
  | _ => True

instance (listenFd : Fd) (st : EpollState) (call : EpollCall) : Decidable (st.Legal listenFd call) :=
  match call with
  | .wait _ => inferInstanceAs (Decidable (_ ∧ _))
  | .accept (some _) => inferInstanceAs (Decidable (_ ∧ _))
  | .accept none | .next | .add _ | .insert | .recv _ _ | .modify | .send _ | .delete | .erase =>
    inferInstanceAs (Decidable True)

/-- The states of a run of the event loop. -/
abbrev EpollState.Reached (s : EpollServer) (listenFd : Fd) : EpollState → Prop :=
  Runs.Run (EpollState.step s listenFd) (EpollState.Legal listenFd) {}

/-! ## The invariant -/

/-- A connection that waits for a request. -/
structure EpollServer.Reading (s : EpollServer) (c : EpollConnection) : Prop where
  state : c.state = .reading
  buffer : c.writeBuffer = []
  offset : c.writeOffset = 0
  running : c.parser.Running
  limit : 1 ≤ s.maxRequestsPerConn → (c.requestCount : Int) < s.maxRequestsPerConn

/-- A connection with a response to send. -/
structure EpollConnection.Writing (c : EpollConnection) : Prop where
  state : c.state = .writing
  offset : c.writeOffset < c.writeBuffer.length
  done : c.parser.state = .complete ∨ c.parser.state = .error

/-- An entry of the table and a registration that agree. -/
inductive EpollServer.Agree (s : EpollServer) : Option EpollConnection → Option Interest → Prop where
  | absent : Agree s none none
  | reading {c : EpollConnection} (h : s.Reading c) : Agree s (some c) (some .epollin)
  | writing {c : EpollConnection} (h : c.Writing) : Agree s (some c) (some .epollout)

/-- What holds of the handled descriptor before a call. -/
def ClientCall.Ok (s : EpollServer) (c : Option EpollConnection) (i : Option Interest) : ClientCall → Prop
  | .adding => c = none ∧ i = none
  | .inserting => c = none ∧ i = some .epollin
  | .reading => i = some .epollin ∧ ∃ conn, c = some conn ∧ s.Reading conn
  | .switching => i = some .epollin ∧ ∃ conn, c = some conn ∧ conn.Writing
  | .writing => i = some .epollout ∧ ∃ conn, c = some conn ∧ conn.Writing
  | .rearming => i = some .epollout ∧ ∃ conn, c = some conn ∧ s.Reading conn
  | .removing => c.isSome = i.isSome
  | .erasing => i = none

/-- What holds of a descriptor. -/
def EpollPc.Slot (s : EpollServer) (fd : Fd) (c : Option EpollConnection) (i : Option Interest) : EpollPc → Prop
  | .client x call => if fd = x then call.Ok s c i else s.Agree c i
  | _ => s.Agree c i

namespace EpollState

structure Consistent (s : EpollServer) (listenFd : Fd) (st : EpollState) : Prop where
  slots : ∀ fd, st.pc.Slot s fd (st.connections fd) (st.registered fd)
  client : st.pc.handled ≠ some listenFd
  listener : st.registered listenFd = none
  once : (st.events.map (·.fd)).Nodup
  events : ∀ e ∈ st.events, e.fd = listenFd ∨
    (e.Requested (st.registered e.fd) ∧ st.pc.handled ≠ some e.fd)

/-- A step that only concerns one descriptor. -/
structure Touches (fd : Fd) (st st' : EpollState) : Prop where
  connections : ∀ x, x ≠ fd → st'.connections x = st.connections x
  registered : ∀ x, x ≠ fd → st'.registered x = st.registered x
  events : st'.events = st.events
  handled : st'.pc.handled = some fd ∨ st'.pc.handled = none

theorem Touches.trans {fd : Fd} {st st' st'' : EpollState} (first : Touches fd st st')
    (second : Touches fd st' st'') : Touches fd st st'' where
  connections x ne := (second.connections x ne).trans (first.connections x ne)
  registered x ne := (second.registered x ne).trans (first.registered x ne)
  events := second.events.trans first.events
  handled := second.handled

/-- Such a step, of which what must hold of the descriptor is known again. -/
structure Handles (s : EpollServer) (fd : Fd) (st st' : EpollState) : Prop where
  touches : Touches fd st st'
  slot : st'.pc.Slot s fd (st'.connections fd) (st'.registered fd)

theorem touches_goto (st : EpollState) (fd : Fd) (call : ClientCall) : Touches fd st (st.goto fd call) :=
  ⟨fun _ _ => rfl, fun _ _ => rfl, rfl, .inl rfl⟩

theorem touches_idle (st : EpollState) (fd : Fd) : Touches fd st { st with pc := .idle } :=
  ⟨fun _ _ => rfl, fun _ _ => rfl, rfl, .inr rfl⟩

theorem slot_other {s : EpollServer} {fd : Fd} {c : Option EpollConnection}
    {i : Option Interest} {pc : EpollPc} (other : pc.handled ≠ some fd) : pc.Slot s fd c i ↔ s.Agree c i := by
  cases pc with
  | idle => rfl
  | accepting => rfl
  | client x call =>
    have ne : fd ≠ x := fun eq => other (congrArg some eq.symm)
    exact iff_of_eq (if_neg ne)

/-- A step that concerns one client keeps the invariant if it holds of this one again. -/
theorem Consistent.moved {s : EpollServer} {listenFd fd : Fd} {st st' : EpollState}
    (inv : Consistent s listenFd st) (free : st.pc.handled = some fd ∨ st.pc.handled = none)
    (client : fd ≠ listenFd) (gone : ∀ e ∈ st.events, e.fd ≠ fd) (step : Handles s fd st st') :
    Consistent s listenFd st' := by
  obtain ⟨step, slot⟩ := step
  have others {pc : EpollPc} {x : Fd} (ne : x ≠ fd) (handled : pc.handled = some fd ∨ pc.handled = none) :
      pc.handled ≠ some x := by
    rcases handled with handled | handled <;> rw [handled]
    · exact fun eq => ne (Option.some.inj eq).symm
    · exact nofun
  refine ⟨fun x => ?_, others client.symm step.handled, ?_, ?_, fun e mem => ?_⟩
  · by_cases eq : x = fd
    · exact eq ▸ slot
    · rw [slot_other (others eq step.handled), step.connections x eq, step.registered x eq]
      exact (slot_other (others eq free)).1 (inv.slots x)
  · rw [step.registered listenFd client.symm]
    exact inv.listener
  · rw [step.events]
    exact inv.once
  · rw [step.events] at mem
    have other := gone e mem
    refine (inv.events e mem).imp id fun ⟨requested, _⟩ => ⟨?_, others other step.handled⟩
    rwa [step.registered e.fd other]

/-- No event is left for the descriptor in the hands of a handler. -/
theorem Consistent.gone {s : EpollServer} {listenFd fd : Fd} {st : EpollState}
    (inv : Consistent s listenFd st) (mine : st.pc.handled = some fd) : ∀ e ∈ st.events, e.fd ≠ fd := by
  rintro e mem rfl
  rcases inv.events e mem with listener | ⟨-, other⟩
  · exact inv.client (mine.trans (congrArg some listener))
  · exact other mine

theorem Consistent.slot {s : EpollServer} {listenFd fd : Fd} {call : ClientCall} {st : EpollState}
    (inv : Consistent s listenFd st) (pc : st.pc = .client fd call) :
    call.Ok s (st.connections fd) (st.registered fd) := by
  have slot := inv.slots fd
  rw [pc] at slot
  exact (if_pos rfl).mp slot

theorem slot_client {s : EpollServer} {fd : Fd} {call : ClientCall} {c : Option EpollConnection}
    {i : Option Interest} (ok : call.Ok s c i) : (EpollPc.client fd call).Slot s fd c i :=
  (if_pos rfl).mpr ok

/-! ## The handlers -/

theorem reset_running (p : HttpParser) : p.reset.Running := ⟨nofun, nofun⟩

theorem closeConnection_ok {s : EpollServer} {st : EpollState} {fd : Fd}
    (agree : s.Agree (st.connections fd) (st.registered fd)) :
    Handles s fd st (st.closeConnection fd) := by
  refine ⟨touches_goto _ _ _, slot_client ?_⟩
  change (st.connections fd).isSome = (st.registered fd).isSome
  generalize st.connections fd = c at agree
  generalize st.registered fd = i at agree
  cases agree <;> rfl

/-- `handle_write` on a connection that has a response. -/
theorem handleWrite_ok {s : EpollServer} {st : EpollState} {fd : Fd} {c : EpollConnection}
    (conn : st.connections fd = some c) (interest : st.registered fd = some .epollout)
    (state : c.state = .writing) (done : c.parser.state = .complete ∨ c.parser.state = .error) :
    Handles s fd st (st.handleWrite s fd) := by
  unfold handleWrite
  rw [conn]
  dsimp only
  split
  · rename_i more
    exact ⟨touches_goto _ _ _, slot_client ⟨interest, c, conn, state, more, done⟩⟩
  · split
    · refine ⟨touches_goto _ _ _, slot_client ?_⟩
      change (st.connections fd).isSome = (st.registered fd).isSome
      rw [conn, interest]
      rfl
    · rename_i go
      refine ⟨⟨fun x ne => Function.update_of_ne ne _ _, fun _ _ => rfl, rfl, .inl rfl⟩,
        slot_client ⟨interest, _, Function.update_self .., rfl, rfl, rfl, reset_running c.parser, fun _ => ?_⟩⟩
      rw [not_or] at go
      exact Int.not_le.1 go.2

/-- An event for a client is passed on to its connection. -/
theorem dispatch_ok {s : EpollServer} {listenFd : Fd} {st : EpollState} {e : EpollEvent}
    (client : e.fd ≠ listenFd) (agree : s.Agree (st.connections e.fd) (st.registered e.fd))
    (requested : e.Requested (st.registered e.fd)) :
    Handles s e.fd st (st.dispatch s listenFd e) := by
  unfold dispatch
  rw [if_neg client]
  split
  · exact closeConnection_ok agree
  · generalize conn : st.connections e.fd = c at agree
    generalize interest : st.registered e.fd = i at agree requested
    cases agree with
    | absent => exact absurd requested id
    | @reading c h =>
      obtain ⟨-, output, flag⟩ := requested
      have input : e.input = true := by
        rcases flag with flag | flag | flag
        · exact flag
        · cases output flag
        · contradiction
      rw [if_pos input, handleRead, conn]
      exact ⟨touches_goto _ _ _, slot_client ⟨interest, c, conn, h⟩⟩
    | @writing c h =>
      obtain ⟨input, -, flag⟩ := requested
      have no_input : ¬ e.input = true := fun flag => by cases input flag
      have output : e.output = true := by
        rcases flag with flag | flag | flag
        · contradiction
        · exact flag
        · contradiction
      rw [if_neg no_input, if_pos output]
      exact handleWrite_ok conn interest h.state h.done

/-- What `handle_read` makes of the data it has received. -/
theorem received_ok {s : EpollServer} {st st' : EpollState} {fd : Fd} {c : EpollConnection} {data : Bytes}
    (now : Moment) (pc : st.pc = .client fd .reading) (interest : st.registered fd = some .epollin)
    (h : s.Reading c) (took : st.received (s.during now) fd c data = some st') :
    Handles s fd st st' := by
  have put_ (c' : EpollConnection) : Touches fd st (st.put fd c') :=
    ⟨fun x ne => Function.update_of_ne ne _ _, fun _ _ => rfl, rfl, .inl (by rw [put, pc]; rfl)⟩
  have result := feed_result c.parser data
  unfold received at took
  split at took
  · rename_i parser verdict
    dsimp only at took
    split at took
    · cases took
    · cases took
      rw [verdict] at result
      refine ⟨(put_ _).trans (touches_goto _ _ _),
        slot_client ⟨interest, _, Function.update_self .., rfl, serialize_pos _ _ _, .inl ?_⟩⟩
      exact result_complete.1 result.symm
  · rename_i parser verdict
    cases took
    rw [verdict] at result
    refine ⟨(put_ _).trans (touches_goto _ _ _),
      slot_client ⟨interest, _, Function.update_self .., rfl, serialize_pos _ _ _, .inr ?_⟩⟩
    exact result_error.1 result.symm
  · rename_i parser verdict
    cases took
    rw [verdict] at result
    refine ⟨put_ _, ?_⟩
    change st.pc.Slot s fd _ _
    rw [pc]
    refine slot_client ⟨interest, _, Function.update_self .., h.state, h.buffer, h.offset, ?_, h.limit⟩
    exact result_incomplete.1 result.symm

/-- What `handle_write` does behind a `send`. -/
theorem afterSend_ok {s : EpollServer} {st : EpollState} {fd : Fd} {c : EpollConnection} (o : SendOutcome)
    (pc : st.pc = .client fd .writing) (conn : st.connections fd = some c)
    (interest : st.registered fd = some .epollout) (h : c.Writing) :
    Handles s fd st (st.afterSend s fd c o) := by
  have agree : s.Agree (st.connections fd) (st.registered fd) := by
    rw [conn, interest]
    exact .writing h
  cases o with
  | sent n =>
    have put_ (c' : EpollConnection) : Touches fd st (st.put fd c') :=
      ⟨fun x ne => Function.update_of_ne ne _ _, fun _ _ => rfl, rfl, .inl (by rw [put, pc]; rfl)⟩
    obtain ⟨touches, slot⟩ := @handleWrite_ok s (st.put fd { c with
      writeOffset := c.writeOffset + min n (c.writeBuffer.length - c.writeOffset) }) fd _
      (Function.update_self ..) interest h.state h.done
    exact ⟨(put_ _).trans touches, slot⟩
  | interrupted =>
    refine ⟨⟨fun _ _ => rfl, fun _ _ => rfl, rfl, .inl (by rw [afterSend, pc]; rfl)⟩, ?_⟩
    change st.pc.Slot s fd _ _
    rw [pc]
    exact slot_client ⟨interest, c, conn, h⟩
  | wouldBlock =>
    exact ⟨touches_idle _ _, agree⟩
  | failed => exact closeConnection_ok agree
  | broken => exact closeConnection_ok agree

/-- What `handle_read` does behind a `recv`. -/
theorem afterRecv_ok {s : EpollServer} {st st' : EpollState} {fd : Fd} {c : EpollConnection}
    {o : RecvOutcome} {now : Moment} (pc : st.pc = .client fd .reading) (conn : st.connections fd = some c)
    (interest : st.registered fd = some .epollin) (h : s.Reading c)
    (took : st.afterRecv (s.during now) fd c o = some st') :
    Handles s fd st st' := by
  have agree : s.Agree (st.connections fd) (st.registered fd) := by
    rw [conn, interest]
    exact .reading h
  cases o with
  | data d =>
    simp only [afterRecv] at took
    split at took
    · cases took
      exact closeConnection_ok agree
    · exact received_ok now pc interest h took
  | interrupted =>
    cases took
    refine ⟨⟨fun _ _ => rfl, fun _ _ => rfl, rfl, .inl (by rw [pc]; rfl)⟩, ?_⟩
    rw [pc]
    exact slot_client ⟨interest, c, conn, h⟩
  | wouldBlock =>
    cases took
    exact ⟨touches_idle _ _, agree⟩
  | failed =>
    cases took
    exact closeConnection_ok agree

theorem reading_new {s : EpollServer} : s.Reading {} :=
  ⟨rfl, rfl, rfl, fresh_running, fun least => by simpa using Int.lt_of_lt_of_le Int.one_pos least⟩

theorem touches_register {st : EpollState} {fd : Fd} {call : ClientCall} (pc : st.pc = .client fd call)
    (i : Option Interest) : Touches fd st (st.register fd i) :=
  ⟨fun _ _ => rfl, fun x ne => Function.update_of_ne ne _ _, rfl, .inl (by rw [register, pc]; rfl)⟩

/-- What a step can do. -/
inductive Moves (s : EpollServer) (listenFd : Fd) (st : EpollState) : EpollCall → EpollState → Prop where
  | wait {events : List EpollEvent} (pc : st.pc = .idle) (batch : st.events = []) :
      Moves s listenFd st (.wait events) { st with events }
  | next {e : EpollEvent} {events : List EpollEvent} (pc : st.pc = .idle) (batch : st.events = e :: events) :
      Moves s listenFd st .next ({ st with events }.dispatch s listenFd e)
  | noClient (pc : st.pc = .accepting) : Moves s listenFd st (.accept none) { st with pc := .idle }
  | accept {fd : Fd} (pc : st.pc = .accepting) : Moves s listenFd st (.accept (some fd)) (st.goto fd .adding)
  | add {fd : Fd} (pc : st.pc = .client fd .adding) :
      Moves s listenFd st (.add true) ((st.register fd (some .epollin)).goto fd .inserting)
  | refused {fd : Fd} (pc : st.pc = .client fd .adding) :
      Moves s listenFd st (.add false) { st with pc := .accepting }
  | insert {fd : Fd} (pc : st.pc = .client fd .inserting) :
      Moves s listenFd st .insert { st.put fd {} with pc := .accepting }
  | recv {fd : Fd} {c : EpollConnection} {o : RecvOutcome} {now : Moment} {st' : EpollState}
      (pc : st.pc = .client fd .reading) (conn : st.connections fd = some c)
      (took : st.afterRecv (s.during now) fd c o = some st') : Moves s listenFd st (.recv o now) st'
  | switch {fd : Fd} (pc : st.pc = .client fd .switching) :
      Moves s listenFd st .modify ((st.register fd (some .epollout)).handleWrite s fd)
  | send {fd : Fd} {c : EpollConnection} {o : SendOutcome} (pc : st.pc = .client fd .writing)
      (conn : st.connections fd = some c) : Moves s listenFd st (.send o) (st.afterSend s fd c o)
  | rearm {fd : Fd} (pc : st.pc = .client fd .rearming) :
      Moves s listenFd st .modify { st.register fd (some .epollin) with pc := .idle }
  | delete {fd : Fd} (pc : st.pc = .client fd .removing) :
      Moves s listenFd st .delete ((st.register fd none).goto fd .erasing)
  | erase {fd : Fd} (pc : st.pc = .client fd .erasing) :
      Moves s listenFd st .erase { st with connections := Function.update st.connections fd none, pc := .idle }

theorem step_moves {s : EpollServer} {listenFd : Fd} {st st' : EpollState} {call : EpollCall}
    (took : st.step s listenFd call = some st') : Moves s listenFd st call st' := by
  unfold EpollState.step at took
  split at took
  case h_1 pc =>
    split at took
    · rename_i batch
      cases took
      exact .wait pc batch
    · cases took
  case h_2 pc =>
    split at took
    · cases took
    · rename_i batch
      cases took
      exact .next pc batch
  case h_3 pc => cases took; exact .noClient pc
  case h_4 pc => cases took; exact .accept pc
  case h_5 pc => cases took; exact .add pc
  case h_6 pc => cases took; exact .refused pc
  case h_7 pc => cases took; exact .insert pc
  case h_8 pc =>
    split at took
    · cases took
    · rename_i conn
      exact .recv pc conn took
  case h_9 pc => cases took; exact .switch pc
  case h_10 pc =>
    split at took
    · cases took
    · rename_i conn
      cases took
      exact .send pc conn
  case h_11 pc => cases took; exact .rearm pc
  case h_12 pc => cases took; exact .delete pc
  case h_13 pc => cases took; exact .erase pc
  case h_14 => cases took

/-- A step of a handler concerns its own client only. -/
theorem step_handles {s : EpollServer} {listenFd fd : Fd} {place : ClientCall} {st st' : EpollState}
    {call : EpollCall} (inv : Consistent s listenFd st) (at_ : st.pc = .client fd place)
    (took : st.step s listenFd call = some st') : Handles s fd st st' := by
  have slot := inv.slot at_
  cases step_moves took with
  | wait pc | next pc | noClient pc | accept pc => cases at_.symm.trans pc
  | add pc =>
    cases at_.symm.trans pc
    exact ⟨(touches_register pc _).trans (touches_goto _ _ _), slot_client ⟨slot.1, Function.update_self ..⟩⟩
  | refused pc =>
    cases at_.symm.trans pc
    refine ⟨⟨fun _ _ => rfl, fun _ _ => rfl, rfl, .inr rfl⟩, ?_⟩
    change s.Agree (st.connections fd) (st.registered fd)
    rw [slot.1, slot.2]
    exact .absent
  | insert pc =>
    cases at_.symm.trans pc
    refine ⟨⟨fun x ne => Function.update_of_ne ne _ _, fun _ _ => rfl, rfl, .inr rfl⟩, ?_⟩
    change s.Agree (Function.update st.connections fd (some {}) fd) (st.registered fd)
    rw [Function.update_self, slot.2]
    exact .reading reading_new
  | recv pc conn took =>
    cases at_.symm.trans pc
    obtain ⟨interest, c', conn', h⟩ := slot
    cases conn.symm.trans conn'
    exact afterRecv_ok pc conn interest h took
  | switch pc =>
    cases at_.symm.trans pc
    obtain ⟨-, c, conn, h⟩ := slot
    obtain ⟨touches, slot⟩ := @handleWrite_ok s (st.register fd (some .epollout)) fd c conn
      (Function.update_self ..) h.state h.done
    exact ⟨(touches_register pc _).trans touches, slot⟩
  | send pc conn =>
    cases at_.symm.trans pc
    obtain ⟨interest, c', conn', h⟩ := slot
    cases conn.symm.trans conn'
    exact afterSend_ok _ pc conn interest h
  | rearm pc =>
    cases at_.symm.trans pc
    obtain ⟨-, c, conn, h⟩ := slot
    refine ⟨⟨fun _ _ => rfl, fun x ne => Function.update_of_ne ne _ _, rfl, .inr rfl⟩, ?_⟩
    change s.Agree (st.connections fd) (Function.update st.registered fd (some .epollin) fd)
    rw [Function.update_self, conn]
    exact .reading h
  | delete pc =>
    cases at_.symm.trans pc
    exact ⟨(touches_register pc _).trans (touches_goto _ _ _), slot_client (Function.update_self ..)⟩
  | erase pc =>
    cases at_.symm.trans pc
    refine ⟨⟨fun x ne => Function.update_of_ne ne _ _, fun _ _ => rfl, rfl, .inr rfl⟩, ?_⟩
    change s.Agree (Function.update st.connections fd none fd) (st.registered fd)
    rw [Function.update_self, show st.registered fd = none from slot]
    exact .absent

/-! ## Runs -/

/-- A step of a handler. -/
theorem Consistent.handles {s : EpollServer} {listenFd fd : Fd} {place : ClientCall} {st st' : EpollState}
    (inv : Consistent s listenFd st) (pc : st.pc = .client fd place) (step : Handles s fd st st') :
    Consistent s listenFd st' := by
  have mine : st.pc.handled = some fd := by rw [pc]; rfl
  exact inv.moved (.inl mine) (fun eq => inv.client (mine.trans (congrArg some eq))) (inv.gone mine) step

/-- A step outside the handlers. -/
theorem Consistent.turn {s : EpollServer} {listenFd : Fd} {st : EpollState} (inv : Consistent s listenFd st)
    (free : st.pc.handled = none) {pc : EpollPc} (free' : pc.handled = none) :
    Consistent s listenFd { st with pc } := by
  refine ⟨fun fd => ?_, by rw [free']; exact nofun, inv.listener, inv.once, fun e mem => ?_⟩
  · rw [slot_other (by rw [free']; exact nofun)]
    exact (slot_other (by rw [free]; exact nofun)).1 (inv.slots fd)
  · exact (inv.events e mem).imp id fun ⟨requested, _⟩ => ⟨requested, by rw [free']; exact nofun⟩

theorem Consistent.agree {s : EpollServer} {listenFd : Fd} {st : EpollState} (inv : Consistent s listenFd st)
    (free : st.pc.handled = none) (fd : Fd) : s.Agree (st.connections fd) (st.registered fd) :=
  (slot_other (by rw [free]; exact nofun)).1 (inv.slots fd)

/-- The next event is for the listener, or for a client that has asked for it. -/
theorem Consistent.event {s : EpollServer} {listenFd : Fd} {st : EpollState} {e : EpollEvent}
    {events : List EpollEvent} (inv : Consistent s listenFd st) (batch : st.events = e :: events)
    (client : e.fd ≠ listenFd) : e.Requested (st.registered e.fd) ∧ ∀ e' ∈ events, e'.fd ≠ e.fd := by
  have once := inv.once
  rw [batch, List.map_cons, List.nodup_cons] at once
  refine ⟨?_, fun e' mem eq => once.1 (List.mem_map.2 ⟨e', mem, eq⟩)⟩
  rcases inv.events e (by rw [batch]; exact .head _) with listener | ⟨requested, -⟩
  · exact absurd listener client
  · exact requested

/-- The loop goes on to the next event. -/
theorem Consistent.next {s : EpollServer} {listenFd : Fd} {st : EpollState} {e : EpollEvent}
    {events : List EpollEvent} (inv : Consistent s listenFd st) (free : st.pc.handled = none)
    (batch : st.events = e :: events) : Consistent s listenFd ({ st with events }.dispatch s listenFd e) := by
  have once := inv.once
  rw [batch, List.map_cons, List.nodup_cons] at once
  have popped : Consistent s listenFd { st with events } := by
    refine ⟨inv.slots, inv.client, inv.listener, once.2, fun e' mem => inv.events e' ?_⟩
    rw [batch]
    exact .tail _ mem
  by_cases listener : e.fd = listenFd
  · rw [dispatch, if_pos listener]
    exact popped.turn free rfl
  · obtain ⟨requested, others⟩ := inv.event batch listener
    exact popped.moved (.inr free) listener others (dispatch_ok listener (inv.agree free e.fd) requested)

/-- Every step keeps the invariant. -/
theorem Consistent.step {s : EpollServer} {listenFd : Fd} {st st' : EpollState} {call : EpollCall}
    (inv : Consistent s listenFd st) (legal : st.Legal listenFd call)
    (took : st.step s listenFd call = some st') : Consistent s listenFd st' := by
  cases place : st.pc with
  | client fd place => exact inv.handles ‹_› (step_handles inv ‹_› took)
  | idle =>
    cases step_moves took with
    | wait pc =>
      refine ⟨inv.slots, inv.client, inv.listener, legal.1, fun e mem => ?_⟩
      refine (legal.2 e mem).imp id fun requested => ⟨requested, ?_⟩
      rw [pc]
      exact nofun
    | next pc batch => exact inv.next (by rw [pc]; rfl) batch
    | noClient pc | accept pc => cases place.symm.trans pc
    | add pc | refused pc | insert pc | recv pc | switch pc | send pc | rearm pc | delete pc | erase pc =>
      cases place.symm.trans pc
  | accepting =>
    have free : st.pc.handled = none := by rw [place]; rfl
    cases step_moves took with
    | noClient pc => exact inv.turn free rfl
    | @accept fd pc =>
      have closed : st.connections fd = none := Option.isNone_iff_eq_none.1 legal.2
      have unregistered : st.registered fd = none := by
        have agree := inv.agree free fd
        rw [closed] at agree
        generalize st.registered fd = i at agree
        cases agree
        rfl
      refine inv.moved (.inr free) legal.1 ?_ ⟨touches_goto _ _ _, slot_client ⟨closed, unregistered⟩⟩
      rintro e mem rfl
      rcases inv.events e mem with listener | ⟨requested, -⟩
      · exact legal.1 listener
      · rw [unregistered] at requested
        exact requested
    | wait pc | next pc => cases place.symm.trans pc
    | add pc | refused pc | insert pc | recv pc | switch pc | send pc | rearm pc | delete pc | erase pc =>
      cases place.symm.trans pc

theorem Reached.consistent {s : EpollServer} {listenFd : Fd} {st : EpollState} (run : Reached s listenFd st) :
    Consistent s listenFd st := by
  have start : Consistent s listenFd {} :=
    ⟨fun _ => EpollServer.Agree.absent, nofun, rfl, List.nodup_nil, fun _ mem => by cases mem⟩
  exact run.invariant start fun _ _ _ inv legal took => inv.step legal took

/-- The descriptor with which a step enters `handle_write`, out of the event loop or out of `handle_read`. -/
def entersWrite (listenFd : Fd) (st : EpollState) : EpollCall → Option Fd
  | .next =>
    match st.pc, st.events with
    | .idle, e :: _ =>
      if e.fd ≠ listenFd ∧ e.hangup = false ∧ e.input = false ∧ e.output = true then some e.fd else none
    | _, _ => none
  | .modify =>
    match st.pc with
    | .client fd .switching => some fd
    | _ => none
  | _ => none

/-- The table, the registrations and the states of the connections agree. -/
structure Settled (s : EpollServer) (st : EpollState) : Prop where
  keys : ∀ fd, st.registered fd ≠ none ↔ st.connections fd ≠ none
  state : ∀ fd c, st.connections fd = some c → c.state = .reading ∨ c.state = .writing
  reading : ∀ fd c, st.connections fd = some c → c.state = .reading →
    st.registered fd = some .epollin ∧ c.writeBuffer = [] ∧ c.writeOffset = 0 ∧
      c.parser.state ≠ .complete ∧ c.parser.state ≠ .error
  writing : ∀ fd c, st.connections fd = some c → c.state = .writing →
    st.registered fd = some .epollout ∧ c.writeOffset < c.writeBuffer.length ∧
      (c.parser.state = .complete ∨ c.parser.state = .error)
  limit : 1 ≤ s.maxRequestsPerConn → ∀ fd c, st.connections fd = some c → c.state = .reading →
    (c.requestCount : Int) < s.maxRequestsPerConn

theorem Consistent.settled {s : EpollServer} {listenFd : Fd} {st : EpollState}
    (inv : Consistent s listenFd st) (pc : st.pc = .idle) : Settled s st := by
  have agree (fd : Fd) : s.Agree (st.connections fd) (st.registered fd) := inv.agree (by rw [pc]; rfl) fd
  have entry {fd : Fd} {c : EpollConnection} (conn : st.connections fd = some c) :
      (st.registered fd = some .epollin ∧ s.Reading c) ∨ (st.registered fd = some .epollout ∧ c.Writing) := by
    have agree := agree fd
    rw [conn] at agree
    generalize st.registered fd = i at agree
    cases agree with
    | reading h => exact .inl ⟨rfl, h⟩
    | writing h => exact .inr ⟨rfl, h⟩
  refine ⟨fun fd => ?_, fun fd c conn => ?_, fun fd c conn state => ?_, fun fd c conn state => ?_,
    fun least fd c conn state => ?_⟩
  · have agree := agree fd
    generalize st.registered fd = i at agree
    generalize st.connections fd = c at agree
    cases agree <;> simp
  · exact (entry conn).imp (fun h => h.2.state) (fun h => h.2.state)
  · rcases entry conn with ⟨interest, h⟩ | ⟨-, h⟩
    · exact ⟨interest, h.buffer, h.offset, h.running⟩
    · cases state.symm.trans h.state
  · rcases entry conn with ⟨-, h⟩ | ⟨interest, h⟩
    · cases state.symm.trans h.state
    · exact ⟨interest, h.offset, h.done⟩
  · rcases entry conn with ⟨-, h⟩ | ⟨-, h⟩
    · exact h.limit least
    · cases state.symm.trans h.state

theorem Consistent.enters {s : EpollServer} {listenFd fd : Fd} {st : EpollState} {call : EpollCall}
    {c : EpollConnection} (inv : Consistent s listenFd st) (enters : st.entersWrite listenFd call = some fd)
    (conn : st.connections fd = some c) : c.Writing := by
  unfold entersWrite at enters
  split at enters
  · split at enters
    · rename_i e events pc batch
      split at enters
      · rename_i flags
        cases enters
        obtain ⟨client, hangup, input, output⟩ := flags
        -- only a descriptor registered for output is reported so
        have requested := (inv.event batch client).1
        have agree := inv.agree (by rw [pc]; rfl) e.fd
        rw [conn] at agree
        generalize st.registered e.fd = i at agree requested
        cases agree with
        | reading h => cases requested.2.1 output
        | writing h => exact h
      · cases enters
    · cases enters
  · split at enters
    · rename_i pc
      cases enters
      obtain ⟨-, c', conn', h⟩ := inv.slot pc
      cases conn.symm.trans conn'
      exact h
    · cases enters
  · cases enters

/-- **The table is consistent** after every handled event, and `handle_write` is only entered for
a connection that has a response. -/
theorem table_consistent (s : EpollServer) (listenFd : Fd) (st : EpollState) (run : Reached s listenFd st) :
    (st.pc = .idle → Settled s st) ∧
      ∀ call fd c, st.entersWrite listenFd call = some fd → st.connections fd = some c →
        c.state ≠ .reading ∧ (c.parser.state = .complete ∨ c.parser.state = .error) := by
  refine ⟨run.consistent.settled, fun call fd c enters conn => ?_⟩
  have h := run.consistent.enters enters conn
  exact ⟨by rw [h.state]; exact nofun, h.done⟩

/-- One client waits, and the answer to another one is partly sent. -/
theorem partly_sent (w : Platform) : ∃ st, Reached { platform := w } 3 st ∧ st.pc = .idle ∧
    (st.connections 5).map (·.state) = some .reading ∧ (st.connections 6).map (·.state) = some .writing := by
  obtain ⟨st, ran, idle, waits, sends⟩ : ∃ st,
      Runs.exec (step { platform := w } 3) (fun st call => decide (st.Legal 3 call)) {}
        [.wait [{ fd := 3, input := true }], .next, .accept (some 5), .add true, .insert, .accept (some 6),
          .add true, .insert, .accept none, .wait [{ fd := 6, input := true }], .next,
          .recv (.data crlf) ⟨w, fun _ => none⟩, .modify, .send (.sent 1), .send .wouldBlock] = some st ∧
        st.pc = .idle ∧ (st.connections 5).map (·.state) = some .reading ∧
        (st.connections 6).map (·.state) = some .writing := ⟨_, rfl, rfl, rfl, rfl⟩
  exact ⟨st, (Runs.exec_run ran).mono fun _ _ legal => of_decide_eq_true legal, idle, waits, sends⟩

theorem table_consistent_two :
    ∃ st, Reached { platform := .still } 3 st ∧ (st.connections 5).map (·.state) = some .reading ∧
      (st.connections 6).map (·.state) = some .writing ∧ Settled { platform := .still } st := by
  obtain ⟨st, run, idle, waits, sends⟩ := partly_sent .still
  exact ⟨st, run, waits, sends, (table_consistent _ _ st run).1 idle⟩

end EpollState

end HttpServer
