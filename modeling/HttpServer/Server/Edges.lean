import HttpServer.Server.EventTable

/-!
# Edges

The event loop together with the kernel's side of its sockets: input that has
arrived, room for output and, for each registered descriptor, whether an edge is
pending. Clients act between any two calls of the server. A descriptor that is
ready in the direction it is registered for has a pending edge, or its event is
still in the batch that is being handled, unless it is in the hands of a handler
(`Armed`); so nothing is missed when the server waits (`edges_pending`).
-/

namespace HttpServer

/-- The kernel's side of a client's socket. -/
structure Sock where
  input : Bytes := []
  eof : Bool := false
  /-- Room for output. -/
  space : Nat := 0

def Sock.ready (k : Sock) : Interest → Bool
  | .epollin => !k.input.isEmpty || k.eof
  | .epollout => decide (0 < k.space)

/-- What a client does; room for output appears where it reads. -/
inductive ClientAct where
  | sends (data : Bytes)
  | halfCloses
  | reads (n : Nat)

/-- The direction in which something new appears at the server. -/
def ClientAct.direction : ClientAct → Interest
  | .sends _ | .halfCloses => .epollin
  | .reads _ => .epollout

def Sock.client (k : Sock) : ClientAct → Option Sock
  | .sends data => if k.eof || data.isEmpty then none else some { k with input := k.input ++ data }
  | .halfCloses => if k.eof then none else some { k with eof := true }
  | .reads n => if n = 0 then none else some { k with space := k.space + n }

/-- The event loop and the kernel. The socket of a descriptor is there before `accept` returns it. -/
structure EpollSystem where
  server : EpollState := {}
  socks : Fd → Sock := fun _ => {}
  /-- The registered descriptors with a pending edge. -/
  pending : Fd → Bool := fun _ => false

inductive SystemAct where
  | client (fd : Fd) (act : ClientAct)
  | server (call : EpollCall)

/-- `sizeof(buf)` in `handle_read`. -/
def readSize : Nat := 4096

/-- What a response has left to send. -/
def EpollState.unsent (st : EpollState) (fd : Fd) : Nat :=
  match st.connections fd with
  | none => 0
  | some c => c.writeBuffer.length - c.writeOffset

/-- Whether an event is in the direction. -/
def EpollEvent.shows (e : EpollEvent) : Interest → Bool
  | .epollin => e.input
  | .epollout => e.output

namespace EpollSystem

def setSock (sys : EpollSystem) (fd : Fd) (k : Sock) : EpollSystem :=
  { sys with socks := Function.update sys.socks fd k }

def setPending (sys : EpollSystem) (fd : Fd) (b : Bool) : EpollSystem :=
  { sys with pending := Function.update sys.pending fd b }

/-- A client acts. Something new in the direction asked for makes an edge pending. -/
def client (sys : EpollSystem) (fd : Fd) (act : ClientAct) : Option EpollSystem :=
  ((sys.socks fd).client act).map fun k =>
    let sys := sys.setSock fd k
    if sys.server.registered fd = some act.direction then sys.setPending fd true else sys

/-- The outcomes that the kernel gives. Errors and interrupts may come at any time. -/
def Allows (listenFd : Fd) (sys : EpollSystem) (call : EpollCall) : Prop :=
  match sys.server.pc, call with
  | .client fd .reading, .recv (.data d) _ =>
    if d = [] then (sys.socks fd).input = [] ∧ (sys.socks fd).eof = true
    else d <+: (sys.socks fd).input ∧ d.length ≤ readSize
  | .client fd .reading, .recv .wouldBlock _ => (sys.socks fd).input = [] ∧ (sys.socks fd).eof = false
  | .client fd .writing, .send (.sent n) => 0 < n ∧ n ≤ (sys.socks fd).space ∧ n ≤ sys.server.unsent fd
  | .client fd .writing, .send .wouldBlock => (sys.socks fd).space = 0
  | .idle, .wait events => ∀ e ∈ events, e.fd = listenFd ∨ e.hangup = true ∨ sys.pending e.fd = true
  | _, _ => True

instance (listenFd : Fd) (sys : EpollSystem) (call : EpollCall) : Decidable (sys.Allows listenFd call) := by
  unfold Allows
  split <;> infer_instance

/-- What a call changes in the kernel. Registering a descriptor that is ready makes an edge pending,
reporting an event clears it. -/
def kernel (sys : EpollSystem) (call : EpollCall) : EpollSystem :=
  match sys.server.pc, call with
  | .client fd .reading, .recv (.data d) _ =>
    sys.setSock fd { sys.socks fd with input := (sys.socks fd).input.drop d.length }
  | .client fd .writing, .send (.sent n) =>
    sys.setSock fd { sys.socks fd with space := (sys.socks fd).space - n }
  | .client fd .adding, .add true => sys.setPending fd ((sys.socks fd).ready .epollin)
  | .client fd .adding, .add false => sys.setSock fd {}
  | .client fd .switching, .modify => sys.setPending fd ((sys.socks fd).ready .epollout)
  | .client fd .rearming, .modify => sys.setPending fd ((sys.socks fd).ready .epollin)
  | .client fd .removing, .delete => sys.setPending fd false
  | .client fd .erasing, .erase => sys.setSock fd {}
  | .idle, .wait events =>
    { sys with pending := fun fd => if fd ∈ events.map (·.fd) then false else sys.pending fd }
  | _, _ => sys

def step (s : EpollServer) (listenFd : Fd) (sys : EpollSystem) : SystemAct → Option EpollSystem
  | .client fd act => sys.client fd act
  | .server call => (sys.server.step s listenFd call).map fun server => { sys.kernel call with server }

def Legal (listenFd : Fd) (sys : EpollSystem) : SystemAct → Prop
  | .client _ _ => True
  | .server call => sys.server.Legal listenFd call ∧ sys.Allows listenFd call

instance (listenFd : Fd) (sys : EpollSystem) (act : SystemAct) : Decidable (sys.Legal listenFd act) :=
  match act with
  | .client _ _ => inferInstanceAs (Decidable True)
  | .server _ => inferInstanceAs (Decidable (_ ∧ _))

/-- The states of a run of the server with its clients. -/
abbrev Reached (s : EpollServer) (listenFd : Fd) : EpollSystem → Prop :=
  Runs.Run (step s listenFd) (Legal listenFd) {}

end EpollSystem

/-! ## The invariant -/

/-- The descriptor is in the hands of a handler that is going to look at it again, to register it
anew or to close it. -/
def EpollPc.Busy (fd : Fd) : EpollPc → Prop
  | .client _ .inserting => False
  | .client x _ => x = fd
  | _ => False

namespace EpollSystem

/-- A descriptor that is ready has a pending edge or a reported event. -/
def ArmedAt (sys : EpollSystem) (fd : Fd) : Prop :=
  ∀ i, sys.server.registered fd = some i → ¬ sys.server.pc.Busy fd → (sys.socks fd).ready i = true →
    sys.pending fd = true ∨ fd ∈ sys.server.events.map (·.fd)

def Armed (sys : EpollSystem) : Prop := ∀ fd, sys.ArmedAt fd

/-! ## Clients -/

/-- In the other direction a client changes nothing. -/
theorem ready_client {k k' : Sock} {act : ClientAct} {i : Interest} (acts : k.client act = some k')
    (other : i ≠ act.direction) : k'.ready i = k.ready i := by
  cases act with
  | sends data =>
    simp only [Sock.client] at acts
    split at acts
    · cases acts
    · cases acts
      cases i with
      | epollin => exact absurd rfl other
      | epollout => rfl
  | halfCloses =>
    simp only [Sock.client] at acts
    split at acts
    · cases acts
    · cases acts
      cases i with
      | epollin => exact absurd rfl other
      | epollout => rfl
  | reads n =>
    simp only [Sock.client] at acts
    split at acts
    · cases acts
    · cases acts
      cases i with
      | epollin => rfl
      | epollout => exact absurd rfl other

theorem client_server {sys sys' : EpollSystem} {fd : Fd} {act : ClientAct}
    (acts : sys.client fd act = some sys') : sys'.server = sys.server := by
  obtain ⟨k, -, rfl⟩ := Option.map_eq_some_iff.1 acts
  dsimp only
  split <;> rfl

theorem Armed.client {sys sys' : EpollSystem} {x : Fd} {act : ClientAct} (armed : Armed sys)
    (acts : sys.client x act = some sys') : Armed sys' := by
  have server := client_server acts
  obtain ⟨k, changed, rfl⟩ := Option.map_eq_some_iff.1 acts
  intro fd i registered free ready
  rw [server] at registered free ⊢
  by_cases eq : fd = x
  · subst eq
    by_cases asked : sys.server.registered fd = some act.direction
    · rw [if_pos (show (sys.setSock fd k).server.registered fd = some act.direction from asked)]
      exact .inl (Function.update_self ..)
    · rw [if_neg (show ¬ (sys.setSock fd k).server.registered fd = some act.direction from asked)] at ready ⊢
      have other : i ≠ act.direction := fun eq => asked (registered.trans (congrArg some eq))
      rw [show (sys.setSock fd k).socks fd = k from Function.update_self ..,
        ready_client changed other] at ready
      exact armed fd i registered free ready
  · have before := armed fd i registered free
    dsimp only at ready ⊢
    split at ready
    · rename_i asked
      rw [show ((sys.setSock x k).setPending x true).socks fd = sys.socks fd from
        Function.update_of_ne eq _ _] at ready
      rw [if_pos asked, show ((sys.setSock x k).setPending x true).pending fd = sys.pending fd from
        Function.update_of_ne eq _ _]
      exact before ready
    · rename_i asked
      rw [show (sys.setSock x k).socks fd = sys.socks fd from Function.update_of_ne eq _ _] at ready
      rw [if_neg asked]
      exact before ready

/-! ## The server -/

/-- A step of the server that leaves the other descriptors alone. -/
theorem Armed.handles {sys sys' : EpollSystem} {fd : Fd}
    (armed : ∀ x, x ≠ fd → sys.ArmedAt x) (touches : EpollState.Touches fd sys.server sys'.server)
    (free : sys.server.pc.handled = some fd ∨ sys.server.pc.handled = none)
    (socks : ∀ x, x ≠ fd → sys'.socks x = sys.socks x) (pending : ∀ x, x ≠ fd → sys'.pending x = sys.pending x)
    (own : sys'.ArmedAt fd) : Armed sys' := by
  have others {pc : EpollPc} {x : Fd} (ne : x ≠ fd) (handled : pc.handled = some fd ∨ pc.handled = none) :
      ¬ pc.Busy x := by
    cases pc with
    | idle => exact id
    | accepting => exact id
    | client y place =>
      have eq : y = fd := by simpa [EpollPc.handled] using handled
      subst eq
      cases place <;> first | exact id | exact fun same => ne same.symm
  intro x i registered idle ready
  by_cases eq : x = fd
  · subst eq
    exact own i registered idle ready
  · rw [touches.registered x eq] at registered
    rw [socks x eq] at ready
    rw [pending x eq, touches.events]
    exact armed x eq i registered (others eq free) ready

/-- Behind `handle_write` the descriptor is in its hands. -/
theorem handleWrite_busy {s : EpollServer} {st : EpollState} {fd : Fd} {c : EpollConnection}
    (conn : st.connections fd = some c) : (st.handleWrite s fd).pc.Busy fd := by
  unfold EpollState.handleWrite
  rw [conn]
  dsimp only
  split
  · rfl
  · split <;> rfl

theorem dispatch_busy {s : EpollServer} {listenFd : Fd} {st : EpollState} {e : EpollEvent}
    (client : e.fd ≠ listenFd) (agree : s.Agree (st.connections e.fd) (st.registered e.fd))
    (requested : e.Requested (st.registered e.fd)) : (st.dispatch s listenFd e).pc.Busy e.fd := by
  have conn : ∃ c, st.connections e.fd = some c := by
    generalize st.connections e.fd = c at agree
    generalize st.registered e.fd = i at agree requested
    cases agree with
    | absent => exact absurd requested id
    | reading h => exact ⟨_, rfl⟩
    | writing h => exact ⟨_, rfl⟩
  have flag : e.input = true ∨ e.output = true ∨ e.hangup = true := by
    generalize st.registered e.fd = i at requested
    cases i with
    | none => exact absurd requested id
    | some i => exact requested.2.2
  obtain ⟨c, conn⟩ := conn
  unfold EpollState.dispatch
  rw [if_neg client]
  split
  · rfl
  · split
    · rw [EpollState.handleRead, conn]
      rfl
    · split
      · exact handleWrite_busy conn
      · rcases flag with flag | flag | flag <;> contradiction

/-- Behind a `recv` the handler has the descriptor, unless nothing has come. -/
theorem afterRecv_busy {s : EpollServer} {st st' : EpollState} {fd : Fd} {c : EpollConnection} {o : RecvOutcome}
    (pc : st.pc = .client fd .reading) (took : st.afterRecv s fd c o = some st') (some_ : o ≠ .wouldBlock) :
    st'.pc.Busy fd := by
  cases o with
  | data d =>
    simp only [EpollState.afterRecv] at took
    split at took
    · cases took
      rfl
    · unfold EpollState.received at took
      split at took
      · dsimp only at took
        split at took
        · cases took
        · cases took
          rfl
      · cases took
        rfl
      · cases took
        change st.pc.Busy fd
        rw [pc]
        rfl
  | interrupted =>
    cases took
    rw [pc]
    rfl
  | wouldBlock => exact absurd rfl some_
  | failed =>
    cases took
    rfl

theorem afterSend_busy {s : EpollServer} {st : EpollState} {fd : Fd} {c : EpollConnection} {o : SendOutcome}
    (pc : st.pc = .client fd .writing) (some_ : o ≠ .wouldBlock) : (st.afterSend s fd c o).pc.Busy fd := by
  cases o with
  | sent n => exact handleWrite_busy (Function.update_self ..)
  | interrupted =>
    change st.pc.Busy fd
    rw [pc]
    rfl
  | wouldBlock => exact absurd rfl some_
  | failed => rfl
  | broken => rfl

/-- The calls of a handler concern its own descriptor. -/
theorem kernel_others {sys : EpollSystem} {fd x : Fd} {place : ClientCall} (pc : sys.server.pc = .client fd place)
    (call : EpollCall) (ne : x ≠ fd) :
    (sys.kernel call).socks x = sys.socks x ∧ (sys.kernel call).pending x = sys.pending x := by
  have sock (k : Sock) : (sys.setSock fd k).socks x = sys.socks x ∧ (sys.setSock fd k).pending x = sys.pending x :=
    ⟨Function.update_of_ne ne _ _, rfl⟩
  have edge (b : Bool) : (sys.setPending fd b).socks x = sys.socks x ∧
      (sys.setPending fd b).pending x = sys.pending x := ⟨rfl, Function.update_of_ne ne _ _⟩
  unfold kernel
  rw [pc]
  split <;> rename_i eq <;> first
    | exact ⟨rfl, rfl⟩
    | cases eq <;> first | exact sock _ | exact edge _

/-- `epoll_wait` takes an edge and reports its event. -/
theorem Armed.wait {sys : EpollSystem} {events : List EpollEvent} (armed : Armed sys)
    (pc : sys.server.pc = .idle) (batch : sys.server.events = []) :
    Armed { sys.kernel (.wait events) with server := { sys.server with events } } := by
  have kernel : sys.kernel (.wait events) =
      { sys with pending := fun fd => if fd ∈ events.map (·.fd) then false else sys.pending fd } := by
    simp only [EpollSystem.kernel, pc]
  rw [kernel]
  intro fd i registered idle ready
  by_cases mem : fd ∈ events.map (·.fd)
  · exact .inr mem
  · left
    rcases armed fd i registered (by rw [pc]; exact id) ready with edge | reported
    · exact (if_neg mem).trans edge
    · rw [batch] at reported
      cases reported

/-- A handler takes its event from the batch. -/
theorem Armed.next {s : EpollServer} {listenFd : Fd} {sys : EpollSystem} {e : EpollEvent}
    {events : List EpollEvent} (armed : Armed sys) (inv : EpollState.Consistent s listenFd sys.server)
    (pc : sys.server.pc = .idle) (batch : sys.server.events = e :: events) :
    Armed { sys with server := { sys.server with events }.dispatch s listenFd e } := by
  have popped : ∀ x, x ≠ e.fd → ArmedAt { sys with server := { sys.server with events } } x := by
    intro x ne i registered idle ready
    refine (armed x i registered idle ready).imp id fun reported => ?_
    rw [batch, List.map_cons, List.mem_cons] at reported
    exact reported.resolve_left ne
  by_cases client : e.fd = listenFd
  · rw [EpollState.dispatch, if_pos client]
    intro fd i registered idle ready
    have ne : fd ≠ e.fd := by
      -- the listener is no client
      rintro rfl
      rw [client] at registered
      cases inv.listener.symm.trans registered
    exact popped fd ne i registered (by rw [pc]; exact id) ready
  · obtain ⟨requested, -⟩ := inv.event batch client
    have agree := inv.agree (by rw [pc]; rfl) e.fd
    have handles := @EpollState.dispatch_ok s listenFd { sys.server with events } e client agree requested
    have busy := @dispatch_busy s listenFd { sys.server with events } e client agree requested
    exact Armed.handles popped handles.touches (.inr (by rw [pc]; rfl)) (fun _ _ => rfl) (fun _ _ => rfl)
      fun _ _ idle => absurd busy idle

/-- `epoll_ctl` makes an edge pending where the requested direction is ready. -/
theorem armedAt_register {sys : EpollSystem} {st' : EpollState} {fd : Fd} {i : Interest}
    (registered : st'.registered fd = some i) :
    ArmedAt { sys.setPending fd ((sys.socks fd).ready i) with server := st' } fd := by
  intro i' registered' _ ready
  cases registered.symm.trans registered'
  exact .inl ((Function.update_self ..).trans ready)

theorem armedAt_unregistered {sys : EpollSystem} {fd : Fd} (unregistered : sys.server.registered fd = none) :
    ArmedAt sys fd := by
  intro i registered
  cases unregistered.symm.trans registered

/-- A step of the server keeps the invariant. -/
theorem Armed.server {s : EpollServer} {listenFd : Fd} {sys : EpollSystem} {call : EpollCall} {st' : EpollState}
    (armed : Armed sys) (inv : EpollState.Consistent s listenFd sys.server)
    (allows : sys.Allows listenFd call) (took : sys.server.step s listenFd call = some st') :
    Armed { sys.kernel call with server := st' } := by
  have handler {fd : Fd} {place : ClientCall} (pc : sys.server.pc = .client fd place)
      (own : ArmedAt { sys.kernel call with server := st' } fd) : Armed { sys.kernel call with server := st' } :=
    Armed.handles (fun x _ => armed x) (EpollState.step_handles inv pc took).touches (.inl (by rw [pc]; rfl))
      (fun _ ne => (kernel_others pc call ne).1) (fun _ ne => (kernel_others pc call ne).2) own
  cases EpollState.step_moves took with
  | wait pc batch => exact armed.wait pc batch
  | @next e events pc batch =>
    have kernel : sys.kernel .next = sys := by simp only [EpollSystem.kernel, pc]
    rw [kernel]
    exact armed.next inv pc batch
  | noClient pc =>
    have kernel : sys.kernel (.accept none) = sys := by simp only [EpollSystem.kernel, pc]
    rw [kernel]
    intro fd i registered idle ready
    exact armed fd i registered (by rw [pc]; exact id) ready
  | @accept fd pc =>
    have kernel : sys.kernel (.accept (some fd)) = sys := by simp only [EpollSystem.kernel, pc]
    rw [kernel]
    exact Armed.handles (fun x _ => armed x) (EpollState.touches_goto _ _ _) (.inr (by rw [pc]; rfl))
      (fun _ _ => rfl) (fun _ _ => rfl) fun _ _ idle => absurd rfl idle
  | @add fd pc =>
    refine handler pc ?_
    simp only [EpollSystem.kernel, pc]
    exact armedAt_register (Function.update_self ..)
  | @refused fd pc => exact handler pc (armedAt_unregistered (inv.slot pc).2)
  | @insert fd pc =>
    have kernel : sys.kernel .insert = sys := by simp only [EpollSystem.kernel, pc]
    refine handler pc ?_
    rw [kernel]
    exact fun i registered _ ready => armed fd i registered (by rw [pc]; exact id) ready
  | @recv fd c o now st' pc conn took =>
    refine handler pc fun i registered idle ready => ?_
    by_cases blocked : o = .wouldBlock
    · subst blocked
      obtain ⟨interest, -⟩ := inv.slot pc
      cases took
      cases interest.symm.trans registered
      simp only [Allows, pc] at allows
      simp [EpollSystem.kernel, pc, Sock.ready, allows] at ready
    · exact absurd (afterRecv_busy pc took blocked) idle
  | @switch fd pc =>
    refine handler pc fun i registered idle ready => ?_
    obtain ⟨-, c, conn, -⟩ := inv.slot pc
    exact absurd (@handleWrite_busy s (sys.server.register fd (some .epollout)) fd c conn) idle
  | @send fd c o pc conn =>
    refine handler pc fun i registered idle ready => ?_
    by_cases blocked : o = .wouldBlock
    · subst blocked
      obtain ⟨interest, -⟩ := inv.slot pc
      cases interest.symm.trans registered
      simp only [Allows, pc] at allows
      simp [EpollSystem.kernel, pc, Sock.ready, allows] at ready
    · exact absurd (afterSend_busy pc blocked) idle
  | @rearm fd pc =>
    refine handler pc ?_
    simp only [EpollSystem.kernel, pc]
    exact armedAt_register (Function.update_self ..)
  | @delete fd pc => exact handler pc fun _ _ idle => absurd rfl idle
  | @erase fd pc => exact handler pc (armedAt_unregistered (inv.slot pc))

/-! ## Runs -/

theorem Reached.server {s : EpollServer} {listenFd : Fd} {sys : EpollSystem} (run : Reached s listenFd sys) :
    EpollState.Reached s listenFd sys.server := by
  induction run with
  | start => exact .start
  | @next sys sys' act run legal took ih =>
    cases act with
    | client fd act =>
      rw [client_server took]
      exact ih
    | server call =>
      obtain ⟨st', moved, rfl⟩ := Option.map_eq_some_iff.1 took
      exact .next ih legal.1 moved

theorem Reached.armed {s : EpollServer} {listenFd : Fd} {sys : EpollSystem} (run : Reached s listenFd sys) :
    Armed sys := by
  refine run.invariant_with (J := fun sys => EpollState.Consistent s listenFd sys.server)
    (fun sys run => (Reached.server run).consistent) (fun _ _ registered => by cases registered) ?_
  intro sys act sys' inv armed legal took
  cases act with
  | client fd act => exact armed.client took
  | server call =>
    obtain ⟨st', moved, rfl⟩ := Option.map_eq_some_iff.1 took
    exact armed.server inv legal.2 moved

/-- An edge is pending in the direction, or its event is reported and not yet handled. -/
structure Noticed (sys : EpollSystem) (fd : Fd) (i : Interest) : Prop where
  registered : sys.server.registered fd = some i
  edge : sys.pending fd = true ∨
    ∃ e ∈ sys.server.events, e.fd = fd ∧ (e.hangup = true ∨ e.shows i = true)

theorem hangup_or_shows {e : EpollEvent} {i : Interest} (requested : e.Requested (some i)) :
    e.hangup = true ∨ e.shows i = true := by
  obtain ⟨input, output, flag⟩ := requested
  rcases flag with flag | flag | flag
  · exact .inr (by rw [input flag]; exact flag)
  · exact .inr (by rw [output flag]; exact flag)
  · exact .inl flag

/-- **No edge is missed**: between two handled events every connection that the server could go on
with is noticed, and it has a pending edge when the server is going to wait. -/
theorem edges_pending (s : EpollServer) (listenFd : Fd) (sys : EpollSystem) (run : Reached s listenFd sys)
    (idle : sys.server.pc = .idle) (fd : Fd) (c : EpollConnection) (conn : sys.server.connections fd = some c) :
    (c.state = .reading → (sys.socks fd).input ≠ [] ∨ (sys.socks fd).eof = true →
      sys.Noticed fd .epollin ∧ (sys.server.events = [] → sys.pending fd = true)) ∧
    (c.state = .writing → 0 < (sys.socks fd).space →
      sys.Noticed fd .epollout ∧ (sys.server.events = [] → sys.pending fd = true)) := by
  have inv := (Reached.server run).consistent
  have noticed {i : Interest} (registered : sys.server.registered fd = some i)
      (ready : (sys.socks fd).ready i = true) :
      sys.Noticed fd i ∧ (sys.server.events = [] → sys.pending fd = true) := by
    rcases run.armed fd i registered (by rw [idle]; exact id) ready with edge | reported
    · exact ⟨⟨registered, .inl edge⟩, fun _ => edge⟩
    · obtain ⟨e, mem, eq⟩ := List.mem_map.1 reported
      refine ⟨⟨registered, .inr ⟨e, mem, eq, ?_⟩⟩, fun none_ => by rw [none_] at mem; cases mem⟩
      rcases inv.events e mem with listener | ⟨requested, -⟩
      · rw [← eq, listener] at registered
        cases inv.listener.symm.trans registered
      · rw [eq, registered] at requested
        exact hangup_or_shows requested
  have settled := inv.settled idle
  refine ⟨fun state ready => noticed (settled.reading fd c conn state).1 ?_,
    fun state ready => noticed (settled.writing fd c conn state).1 (decide_eq_true ready)⟩
  simpa [Sock.ready] using ready

/-- Two clients have sent something, and the first one's event is handled. -/
theorem one_handled : ∃ sys, Reached { platform := .still } 3 sys ∧ sys.server.pc = .idle ∧
    ((sys.server.connections 6).map (·.state) = some .reading) ∧ (sys.socks 6).input = ascii "G" ∧
    sys.pending 6 = false := by
  obtain ⟨sys, ran, idle, reads, input, edge⟩ : ∃ sys,
      Runs.exec (step { platform := .still } 3) (fun sys act => decide (sys.Legal 3 act)) {}
        [.client 5 (.sends (ascii "G")), .client 6 (.sends (ascii "G")),
          .server (.wait [{ fd := 3, input := true }]), .server .next, .server (.accept (some 5)),
          .server (.add true), .server .insert, .server (.accept (some 6)), .server (.add true), .server .insert,
          .server (.accept none), .server (.wait [{ fd := 5, input := true }, { fd := 6, input := true }]),
          .server .next, .server (.recv (.data (ascii "G")) ⟨.still, fun _ => none⟩),
          .server (.recv .wouldBlock ⟨.still, fun _ => none⟩)] = some sys ∧
        sys.server.pc = .idle ∧ (sys.server.connections 6).map (·.state) = some .reading ∧
        (sys.socks 6).input = ascii "G" ∧ sys.pending 6 = false := ⟨_, rfl, rfl, rfl, rfl, rfl⟩
  exact ⟨sys, (Runs.exec_run ran).mono fun _ _ legal => of_decide_eq_true legal, idle, reads, input, edge⟩

/-- The event of the second one is still in the batch. -/
theorem edges_pending_second : ∃ sys : EpollSystem, Reached { platform := .still } 3 sys ∧
    sys.pending 6 = false ∧ sys.Noticed 6 .epollin := by
  obtain ⟨sys, run, idle, reads, input, edge⟩ := one_handled
  obtain ⟨c, conn, state⟩ := Option.map_eq_some_iff.1 reads
  have ready : (sys.socks 6).input ≠ [] := by
    rw [input]
    decide
  exact ⟨sys, run, edge, ((edges_pending _ _ sys run idle 6 c conn).1 state (.inl ready)).1⟩

/-- While the first event of a batch is handled, the edge of the second is cleared already. -/
theorem edges_cleared :
    ¬ ∀ sys, Reached { platform := .still } 3 sys → sys.server.pc = .idle →
      ∀ fd c, sys.server.connections fd = some c → c.state = .reading →
        (sys.socks fd).input ≠ [] ∨ (sys.socks fd).eof = true → sys.pending fd = true := by
  intro all
  obtain ⟨sys, run, idle, reads, input, edge⟩ := one_handled
  obtain ⟨c, conn, state⟩ := Option.map_eq_some_iff.1 reads
  have ready : (sys.socks 6).input ≠ [] := by
    rw [input]
    decide
  cases edge.symm.trans (all sys run idle 6 c conn state (.inl ready))

end EpollSystem

end HttpServer
