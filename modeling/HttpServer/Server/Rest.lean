import Mathlib.Data.Prod.Lex
import Mathlib.Order.WellFounded
import HttpServer.Lib.Inevitable
import HttpServer.Lib.Parties
import HttpServer.Server.Edges
import HttpServer.Server.Multiplex
import HttpServer.Server.Turnaround

/-!
# The event loop comes to rest

Being edge-triggered, the loop must not wait while it could go on with a client.
With the kernel beside it: whatever the clients, signals and timeouts do, if they
do it finitely often the loop comes to a state in which it has read all that its
clients have sent, or has filled what they leave it for output (`comes_to_rest`).
Each calm step moves bytes, or leaves fewer edges, events and calls (`rank`); and
as long as an edge is pending the kernel has an event to report.
-/

namespace HttpServer

open Runs Parties

namespace EpollState

variable {s : EpollServer} {listenFd fd : Fd} {st st' : EpollState} {S : Finset Fd}

/-- Only these descriptors have been in use. -/
def Confined (S : Finset Fd) (st : EpollState) : Prop :=
  ∀ fd, fd ∉ S → st.registered fd = none ∧ st.pc.handled ≠ some fd

theorem Confined.mono {T : Finset Fd} (confined : Confined S st) (le : S ⊆ T) : Confined T st :=
  fun fd other => confined fd fun mem => other (le mem)

/-- A handler works for one of them. -/
theorem Confined.handled (confined : Confined S st) {call : ClientCall} (pc : st.pc = .client fd call) : fd ∈ S := by
  by_contra other
  exact (confined fd other).2 (by rw [pc]; rfl)

/-- So does the kernel when it reports an event of a client. -/
theorem Confined.requested (confined : Confined S st) {e : EpollEvent} (requested : e.Requested (st.registered e.fd)) :
    e.fd ∈ S := by
  by_contra other
  rw [(confined e.fd other).1] at requested
  exact requested

/-- A step of one client. -/
theorem Confined.touches (confined : Confined S st) (mem : fd ∈ S) (touches : Touches fd st st') : Confined S st' := by
  intro x other
  have ne : x ≠ fd := fun eq => other (eq ▸ mem)
  refine ⟨(touches.registered x ne).trans (confined x other).1, ?_⟩
  rcases touches.handled with handled | handled <;> rw [handled]
  · exact fun eq => ne (Option.some.inj eq).symm
  · exact Option.some_ne_none x ∘ Eq.symm

/-- Only `accept` brings a new descriptor into use. -/
theorem Confined.step {call : EpollCall} (confined : Confined S st) (inv : Consistent s listenFd st)
    (known : ∀ fd, call = .accept (some fd) → fd ∈ S) (took : st.step s listenFd call = some st') :
    Confined S st' := by
  cases place : st.pc with
  | client fd call => exact confined.touches (confined.handled place) (step_handles inv place took).touches
  | idle | accepting =>
    cases step_moves took with
    | wait pc batch => exact confined
    | @next e events pc batch =>
      have popped : Confined S { st with events } := confined
      by_cases listener : e.fd = listenFd
      · rw [dispatch, if_pos listener]
        exact fun x other => ⟨(confined x other).1, (Option.some_ne_none x).symm⟩
      · have requested := (inv.event batch listener).1
        have agree := inv.agree (by rw [pc]; rfl) e.fd
        have handles := @dispatch_ok s listenFd { st with events } e listener agree requested
        exact popped.touches (confined.requested requested) handles.touches
    | noClient pc => exact fun x other => ⟨(confined x other).1, (Option.some_ne_none x).symm⟩
    | @accept fd pc => exact confined.touches (known fd rfl) (touches_goto _ _ _)
    | add pc | refused pc | insert pc | recv pc | switch pc | send pc | rearm pc | delete pc | erase pc =>
      cases place.symm.trans pc

/-- A run has used finitely many. -/
theorem Reached.confined (run : Reached s listenFd st) : ∃ S, Confined S st := by
  refine run.invariant_with (I := fun st => ∃ S, Confined S st) (fun _ run => Reached.consistent run)
    ⟨∅, fun fd _ => ⟨rfl, (Option.some_ne_none fd).symm⟩⟩ ?_
  rintro st call st' inv ⟨S, confined⟩ - took
  by_cases new : ∃ fd, call = .accept (some fd)
  · obtain ⟨fd, rfl⟩ := new
    refine ⟨insert fd S, (confined.mono (Finset.subset_insert fd S)).step inv ?_ took⟩
    rintro x ⟨⟩
    exact Finset.mem_insert_self fd S
  · exact ⟨S, confined.step inv (fun fd here => absurd ⟨fd, here⟩ new) took⟩

end EpollState

/-! ## Calm and rest -/

/-- The client has to go on: all that it has sent is read, or it leaves no room for the response. -/
inductive Sock.Awaited (k : Sock) (c : EpollConnection) : Prop where
  | input (state : c.state = .reading) (drained : k.input = []) (more : k.eof = false)
  | room (state : c.state = .writing) (unsent : c.writeOffset < c.writeBuffer.length) (full : k.space = 0)

namespace EpollSystem

/-- There is nothing to do but to wait. -/
structure Rests (sys : EpollSystem) : Prop where
  idle : sys.server.pc = .idle
  batch : sys.server.events = []
  awaits : ∀ fd c, sys.server.connections fd = some c → (sys.socks fd).Awaited c

/-- The loop goes on with what is there: neither does a client act or connect, nor is a call interrupted, and
`epoll_wait` reports edges, neither a reset nor a timeout. -/
def Calm (listenFd : Fd) (sys : EpollSystem) : SystemAct → Prop
  | .client _ _ => False
  | .server (.wait events) => events ≠ [] ∧ ∀ e ∈ events, e.fd ≠ listenFd ∧ sys.pending e.fd = true
  | .server (.accept client) => client = none
  | .server (.recv o _) => o ≠ .interrupted
  | .server (.send o) => o ≠ .interrupted
  | .server _ => True

instance (listenFd : Fd) (sys : EpollSystem) (act : SystemAct) : Decidable (sys.Calm listenFd act) := by
  unfold Calm
  split <;> infer_instance

/-- The response is made at this moment. -/
def At (now : Moment) : SystemAct → Prop
  | .server (.recv _ t) => t = now
  | _ => True

variable {s : EpollServer} {listenFd : Fd} {sys sys' : EpollSystem} {S : Finset Fd}

/-- The kernel reports the edge of a client. -/
theorem edge_reported {fd : Fd} {i : Interest} (idle : sys.server.pc = .idle) (batch : sys.server.events = [])
    (client : fd ≠ listenFd) (registered : sys.server.registered fd = some i) (edge : sys.pending fd = true) :
    ∃ events sys', sys.Legal listenFd (.server (.wait events)) ∧ sys.Calm listenFd (.server (.wait events)) ∧
      sys.step s listenFd (.server (.wait events)) = some sys' := by
  obtain ⟨e, here, requested⟩ : ∃ e : EpollEvent, e.fd = fd ∧ e.Requested (some i) := by
    cases i with
    | epollin => exact ⟨{ fd, input := true }, rfl, by simp [EpollEvent.Requested]⟩
    | epollout => exact ⟨{ fd, output := true }, rfl, by simp [EpollEvent.Requested]⟩
  subst here
  refine ⟨[e], { sys.kernel (.wait [e]) with server := { sys.server with events := [e] } }, ⟨?_, ?_⟩, ⟨by simp, ?_⟩, ?_⟩
  · exact ⟨by simp, by simpa [registered] using .inr requested⟩
  · simp [Allows, idle, edge]
  · simpa using ⟨client, edge⟩
  · simp [step, EpollState.step, idle, batch]

/-- Without a pending edge there is nothing to go on with. -/
theorem rests_of_idle (inv : EpollState.Consistent s listenFd sys.server) (armed : Armed sys)
    (idle : sys.server.pc = .idle) (batch : sys.server.events = [])
    (quiet : ∀ fd i, sys.server.registered fd = some i → sys.pending fd ≠ true) : Rests sys := by
  refine ⟨idle, batch, fun fd c conn => ?_⟩
  have still {i : Interest} (registered : sys.server.registered fd = some i) : (sys.socks fd).ready i = false := by
    rw [← Bool.not_eq_true]
    intro ready
    rcases armed fd i registered (by rw [idle]; exact id) ready with edge | reported
    · exact quiet fd i registered edge
    · rw [batch] at reported
      cases reported
  have settled := inv.settled idle
  rcases settled.state fd c conn with state | state
  · have ready : (sys.socks fd).input = [] ∧ (sys.socks fd).eof = false := by
      simpa [Sock.ready] using still (settled.reading fd c conn state).1
    exact .input state ready.1 ready.2
  · obtain ⟨registered, unsent, -⟩ := settled.writing fd c conn state
    exact .room state unsent (by simpa [Sock.ready] using still registered)

/-- Until it rests the loop has a calm step to take. -/
theorem rests_or_ready (now : Moment) (inv : EpollState.Consistent s listenFd sys.server) (armed : Armed sys) :
    Rests sys ∨ ∃ act sys', (sys.Legal listenFd act ∧ sys.Calm listenFd act) ∧ At now act ∧
      sys.step s listenFd act = some sys' := by
  have ready (call : EpollCall) (legal : sys.Legal listenFd (.server call)) (calm : sys.Calm listenFd (.server call))
      (at_ : At now (.server call)) (enabled : sys.server.step s listenFd call ≠ none) :
      ∃ act sys', (sys.Legal listenFd act ∧ sys.Calm listenFd act) ∧ At now act ∧
        sys.step s listenFd act = some sys' := by
    obtain ⟨st', took⟩ := Option.ne_none_iff_exists'.1 enabled
    exact ⟨.server call, _, ⟨legal, calm⟩, at_, Option.map_eq_some_iff.2 ⟨st', took, rfl⟩⟩
  have plain {call : EpollCall} (legal : sys.server.Legal listenFd call) (allows : sys.Allows listenFd call) :
      sys.Legal listenFd (.server call) := ⟨legal, allows⟩
  cases place : sys.server.pc with
  | idle =>
    cases batch : sys.server.events with
    | nil =>
      by_cases quiet : ∀ fd i, sys.server.registered fd = some i → sys.pending fd ≠ true
      · exact .inl (rests_of_idle inv armed place batch quiet)
      · push Not at quiet
        obtain ⟨fd, i, registered, edge⟩ := quiet
        have client : fd ≠ listenFd := by
          rintro rfl
          cases inv.listener.symm.trans registered
        obtain ⟨events, sys', legal, calm, took⟩ := edge_reported place batch client registered edge
        exact .inr ⟨_, sys', ⟨legal, calm⟩, trivial, took⟩
    | cons e events =>
      exact .inr (ready .next (plain trivial (by simp [Allows, place])) trivial trivial
        (by simp [EpollState.step, place, batch]))
  | accepting =>
    exact .inr (ready (.accept none) (plain trivial (by simp [Allows, place])) rfl trivial
      (by simp [EpollState.step, place]))
  | client fd call =>
    have slot := inv.slot place
    right
    cases call with
    | adding =>
      exact ready (.add true) (plain trivial (by simp [Allows, place])) trivial trivial
        (by simp [EpollState.step, place])
    | inserting =>
      exact ready .insert (plain trivial (by simp [Allows, place])) trivial trivial
        (by simp [EpollState.step, place])
    | reading =>
      obtain ⟨-, c, conn, -⟩ := slot
      exact ready (.recv .failed now) (plain trivial (by simp [Allows, place])) (by simp [Calm]) rfl
        (by simp [EpollState.step, place, conn, EpollState.afterRecv])
    | switching | rearming =>
      exact ready .modify (plain trivial (by simp [Allows, place])) trivial trivial
        (by simp [EpollState.step, place])
    | writing =>
      obtain ⟨-, c, conn, -⟩ := slot
      exact ready (.send .failed) (plain trivial (by simp [Allows, place])) (by simp [Calm]) trivial
        (by simp [EpollState.step, place, conn])
    | removing =>
      exact ready .delete (plain trivial (by simp [Allows, place])) trivial trivial
        (by simp [EpollState.step, place])
    | erasing =>
      exact ready .erase (plain trivial (by simp [Allows, place])) trivial trivial
        (by simp [EpollState.step, place])

end EpollSystem

/-! ## The rank -/

/-- The bytes that may still move. -/
def Sock.traffic (k : Sock) : Nat := k.input.length + k.space

/-- What a place of the loop is worth; behind a registration an edge may be pending, which is worth 5. -/
def ClientCall.cost : ClientCall → Nat
  | .switching => 9
  | .adding => 8
  | .rearming => 6
  | .reading | .writing => 3
  | .inserting | .removing => 2
  | .erasing => 1

def EpollPc.cost : EpollPc → Nat
  | .idle => 0
  | .accepting => 1
  | .client _ call => call.cost

namespace EpollSystem

variable {s : EpollServer} {listenFd : Fd} {sys sys' : EpollSystem} {S : Finset Fd}

def traffic (S : Finset Fd) (sys : EpollSystem) : Nat := ∑ fd ∈ S, (sys.socks fd).traffic

def edges (S : Finset Fd) (sys : EpollSystem) : Nat := ∑ fd ∈ S, (sys.pending fd).toNat

/-- An edge is worth more than the event that it becomes, and this more than the handler that it calls. -/
def chores (S : Finset Fd) (sys : EpollSystem) : Nat :=
  5 * sys.edges S + 4 * sys.server.events.length + sys.server.pc.cost

def rank (S : Finset Fd) (sys : EpollSystem) : Nat ×ₗ Nat := toLex (sys.traffic S, sys.chores S)

/-- A step that moves bytes lowers the rank, whatever it leaves of the chores. -/
theorem rank_moves (less : sys'.traffic S < sys.traffic S) : sys'.rank S < sys.rank S :=
  Prod.Lex.toLex_lt_toLex.2 (.inl less)

/-- One that moves none has to leave fewer chores. -/
theorem rank_calls (le : sys'.traffic S ≤ sys.traffic S) (less : sys'.chores S < sys.chores S) :
    sys'.rank S < sys.rank S :=
  Prod.Lex.toLex_lt_toLex.2 (le.lt_or_eq.imp id fun same => ⟨same, less⟩)

/-- The traffic changes by that of the socket that is changed. -/
theorem traffic_setSock {fd : Fd} (mem : fd ∈ S) (k : Sock) :
    (sys.setSock fd k).traffic S + (sys.socks fd).traffic = sys.traffic S + k.traffic :=
  sum_update_on mem Sock.traffic sys.socks k

theorem traffic_lt {fd : Fd} (mem : fd ∈ S) {k : Sock} (less : k.traffic < (sys.socks fd).traffic) :
    (sys.setSock fd k).traffic S < sys.traffic S := by
  have sums : (sys.setSock fd k).traffic S + _ = _ := traffic_setSock mem k
  omega

theorem traffic_le {fd : Fd} (mem : fd ∈ S) {k : Sock} (le : k.traffic ≤ (sys.socks fd).traffic) :
    (sys.setSock fd k).traffic S ≤ sys.traffic S := by
  have sums : (sys.setSock fd k).traffic S + _ = _ := traffic_setSock mem k
  omega

/-- At most the edge that is set is new. -/
theorem edges_setPending {fd : Fd} (mem : fd ∈ S) (b : Bool) :
    (sys.setPending fd b).edges S ≤ sys.edges S + b.toNat := by
  have sums := sum_update_on mem Bool.toNat sys.pending b
  exact (Nat.le_add_right _ _).trans sums.le

/-- `epoll_wait` takes the edges that it reports. -/
theorem edges_wait {events : List EpollEvent} (idle : sys.server.pc = .idle) (once : (events.map (·.fd)).Nodup)
    (within : ∀ e ∈ events, e.fd ∈ S) (pending : ∀ e ∈ events, sys.pending e.fd = true) :
    (sys.kernel (.wait events)).edges S + events.length = sys.edges S := by
  have count : events.length = ∑ fd ∈ S, if fd ∈ events.map (·.fd) then 1 else 0 := by
    rw [← Finset.card_filter, ← List.length_map (·.fd), ← List.toFinset_card_of_nodup once]
    congr 1
    ext fd
    rw [List.mem_toFinset, Finset.mem_filter, and_iff_right_of_imp]
    intro reported
    obtain ⟨e, listed, rfl⟩ := List.mem_map.1 reported
    exact within e listed
  rw [count, edges, edges, ← Finset.sum_add_distrib]
  refine Finset.sum_congr rfl fun fd _ => ?_
  simp only [kernel, idle]
  by_cases reported : fd ∈ events.map (·.fd)
  · obtain ⟨e, listed, rfl⟩ := List.mem_map.1 reported
    rw [if_pos reported, if_pos reported, pending e listed]
    rfl
  · rw [if_neg reported, if_neg reported]
    rfl

/-- A handler that is called has more to do than to close at most. -/
theorem dispatch_cost {st : EpollState} {e : EpollEvent} (agree : s.Agree (st.connections e.fd) (st.registered e.fd))
    (requested : e.fd ≠ listenFd → e.Requested (st.registered e.fd)) : (st.dispatch s listenFd e).pc.cost ≤ 3 := by
  unfold EpollState.dispatch
  split
  · exact Nat.le_of_ble_eq_true rfl
  · rename_i client
    have requested := requested client
    split
    · exact Nat.le_of_ble_eq_true rfl
    · split
      · unfold EpollState.handleRead
        split <;> exact Nat.le_of_ble_eq_true rfl
      · split
        · generalize conn : st.connections e.fd = c at agree
          generalize st.registered e.fd = i at agree requested
          cases agree with
          | absent => exact absurd requested id
          | reading h => cases requested.2.1 ‹_›
          | writing h =>
            rw [EpollState.handleWrite_more conn h.offset]
            exact Nat.le_refl 3
        · exact Nat.zero_le 3

theorem edges_setPending_one {fd : Fd} (mem : fd ∈ S) (b : Bool) : (sys.setPending fd b).edges S ≤ sys.edges S + 1 :=
  (edges_setPending mem b).trans (Nat.add_le_add_left (Bool.toNat_le b) _)

/-- A call of a handler that may make `b` edges pending. -/
theorem rank_handler {fd : Fd} {place : ClientCall} {st' : EpollState} {b n : Nat}
    (pc : sys.server.pc = .client fd place) (events : st'.events = sys.server.events)
    (le : sys'.traffic S ≤ sys.traffic S) (edge : sys'.edges S ≤ sys.edges S + b) (behind : st'.pc.cost = n)
    (cost : 5 * b + n < place.cost) : rank S { sys' with server := st' } < sys.rank S := by
  refine rank_calls le ?_
  change 5 * sys'.edges S + 4 * st'.events.length + st'.pc.cost < _
  rw [chores, pc, events, behind]
  change _ < _ + place.cost
  omega

/-- A `recv` brings bytes, or it is the last one. -/
theorem recv_rank {fd : Fd} {c : EpollConnection} {o : RecvOutcome} {now : Moment} {st' : EpollState}
    (mem : fd ∈ S) (pc : sys.server.pc = .client fd .reading) (events : st'.events = sys.server.events)
    (allows : sys.Allows listenFd (.recv o now)) (quiet : o ≠ .interrupted)
    (took : sys.server.afterRecv s fd c o = some st') :
    rank S { sys.kernel (.recv o now) with server := st' } < sys.rank S := by
  have idle (other : ∀ d, o ≠ .data d) : sys.kernel (.recv o now) = sys := by
    cases o with
    | data d => exact absurd rfl (other d)
    | interrupted | wouldBlock | failed => simp only [kernel, pc]
  cases o with
  | data d =>
    have kernel : sys.kernel (.recv (.data d) now) =
        sys.setSock fd { sys.socks fd with input := (sys.socks fd).input.drop d.length } := by
      simp only [EpollSystem.kernel, pc]
    rw [kernel]
    by_cases eof : d = []
    · subst eof
      cases took
      exact rank_handler (b := 0) (n := 2) pc events (traffic_le mem (Nat.le_refl _)) (Nat.le_refl _) rfl (by decide)
    · refine rank_moves (traffic_lt mem ?_)
      simp only [Allows, pc, if_neg eof] at allows
      have brought := List.length_pos_of_ne_nil eof
      have within := allows.1.length_le
      simp only [Sock.traffic, List.length_drop]
      omega
  | interrupted => exact absurd rfl quiet
  | wouldBlock =>
    cases took
    rw [idle (by simp)]
    exact rank_handler (b := 0) (n := 0) pc rfl (Nat.le_refl _) (Nat.le_refl _) rfl (by decide)
  | failed =>
    cases took
    rw [idle (by simp)]
    exact rank_handler (b := 0) (n := 2) pc rfl (Nat.le_refl _) (Nat.le_refl _) rfl (by decide)

/-- A `send` takes bytes, or it is the last one. -/
theorem send_rank {fd : Fd} {c : EpollConnection} {o : SendOutcome} (mem : fd ∈ S)
    (pc : sys.server.pc = .client fd .writing) (allows : sys.Allows listenFd (.send o)) (quiet : o ≠ .interrupted) :
    rank S { sys.kernel (.send o) with server := sys.server.afterSend s fd c o } < sys.rank S := by
  have idle (other : ∀ n, o ≠ .sent n) : sys.kernel (.send o) = sys := by
    cases o with
    | sent n => exact absurd rfl (other n)
    | interrupted | wouldBlock | failed | broken => simp only [kernel, pc]
  cases o with
  | sent n =>
    have kernel : sys.kernel (.send (.sent n)) =
        sys.setSock fd { sys.socks fd with space := (sys.socks fd).space - n } := by
      simp only [EpollSystem.kernel, pc]
    rw [kernel]
    refine rank_moves (traffic_lt mem ?_)
    simp only [Allows, pc] at allows
    simp only [Sock.traffic]
    omega
  | interrupted => exact absurd rfl quiet
  | wouldBlock =>
    rw [idle (by simp)]
    exact rank_handler (b := 0) (n := 0) pc rfl (Nat.le_refl _) (Nat.le_refl _) rfl (by decide)
  | failed | broken =>
    rw [idle (by simp)]
    exact rank_handler (b := 0) (n := 2) pc rfl (Nat.le_refl _) (Nat.le_refl _) rfl (by decide)

/-- **Every calm step counts**: it moves bytes, or leaves fewer edges, events and calls. -/
theorem server_rank {call : EpollCall} {st' : EpollState} (inv : EpollState.Consistent s listenFd sys.server)
    (confined : sys.server.Confined S) (legal : sys.Legal listenFd (.server call))
    (calm : sys.Calm listenFd (.server call)) (took : sys.server.step s listenFd call = some st') :
    rank S { sys.kernel call with server := st' } < sys.rank S := by
  obtain ⟨legal, allows⟩ := legal
  cases EpollState.step_moves took with
  | @wait events pc batch =>
    obtain ⟨some_, edge⟩ := calm
    have within (e : EpollEvent) (mem : e ∈ events) : e.fd ∈ S :=
      confined.requested ((legal.2 e mem).resolve_left (edge e mem).1)
    have taken := edges_wait pc legal.1 within fun e mem => (edge e mem).2
    have reported := List.length_pos_of_ne_nil some_
    have same : (sys.kernel (.wait events)).traffic S = sys.traffic S := by simp [traffic, kernel, pc]
    refine rank_calls same.le ?_
    change 5 * (sys.kernel (.wait events)).edges S + 4 * events.length + _ < _
    simp only [chores, batch, List.length_nil]
    omega
  | @next e events pc batch =>
    have kernel : sys.kernel .next = sys := by simp only [EpollSystem.kernel, pc]
    have cost := @dispatch_cost s listenFd { sys.server with events } e (inv.agree (by rw [pc]; rfl) e.fd)
      fun client => (inv.event batch client).1
    rw [kernel]
    refine rank_calls (Nat.le_refl _) ?_
    change 5 * sys.edges S + 4 * _ + _ < 5 * sys.edges S + _ + _
    rw [EpollState.dispatch_events, batch, List.length_cons]
    dsimp only at cost ⊢
    omega
  | noClient pc =>
    have kernel : sys.kernel (.accept none) = sys := by simp only [EpollSystem.kernel, pc]
    rw [kernel]
    refine rank_calls (Nat.le_refl _) ?_
    simp [chores, edges, pc, EpollPc.cost]
  | accept pc => cases calm
  | @add fd pc =>
    simp only [kernel, pc]
    exact rank_handler (b := 1) (n := 2) pc rfl (Nat.le_refl _)
      (edges_setPending_one (confined.handled pc) _) rfl (by decide)
  | @refused fd pc =>
    simp only [kernel, pc]
    exact rank_handler (b := 0) (n := 1) pc rfl (traffic_le (confined.handled pc) (Nat.zero_le _))
      (Nat.le_refl _) rfl (by decide)
  | @insert fd pc =>
    simp only [kernel, pc]
    exact rank_handler (b := 0) (n := 1) pc rfl (Nat.le_refl _) (Nat.le_refl _) rfl (by decide)
  | recv pc conn moved =>
    exact recv_rank (confined.handled pc) pc (EpollState.step_handles inv pc took).touches.events allows calm moved
  | @switch fd pc =>
    obtain ⟨-, c, conn, writing⟩ := inv.slot pc
    have more : (sys.server.register fd (some .epollout)).handleWrite s fd =
        (sys.server.register fd (some .epollout)).goto fd .writing :=
      EpollState.handleWrite_more conn writing.offset
    rw [more]
    simp only [kernel, pc]
    exact rank_handler (b := 1) (n := 3) pc rfl (Nat.le_refl _)
      (edges_setPending_one (confined.handled pc) _) rfl (by decide)
  | send pc conn => exact send_rank (confined.handled pc) pc allows calm
  | @rearm fd pc =>
    simp only [kernel, pc]
    exact rank_handler (b := 1) (n := 0) pc rfl (Nat.le_refl _)
      (edges_setPending_one (confined.handled pc) _) rfl (by decide)
  | @delete fd pc =>
    simp only [kernel, pc]
    exact rank_handler (b := 0) (n := 1) pc rfl (Nat.le_refl _)
      (edges_setPending (confined.handled pc) false) rfl (by decide)
  | @erase fd pc =>
    simp only [kernel, pc]
    exact rank_handler (b := 0) (n := 0) pc rfl (traffic_le (confined.handled pc) (Nat.zero_le _))
      (Nat.le_refl _) rfl (by decide)

/-- Calm steps come to an end, and only where the loop rests; which of them are taken at what moment does not
matter. -/
theorem settles {allowed : EpollSystem → SystemAct → Prop} (now : Moment)
    (calm : ∀ t act, allowed t act → t.Legal listenFd act ∧ t.Calm listenFd act)
    (choice : ∀ t act, t.Legal listenFd act ∧ t.Calm listenFd act → At now act → allowed t act)
    (run : Reached s listenFd sys) : Inevitable (step s listenFd) allowed Rests sys := by
  obtain ⟨S, confined⟩ := (Reached.server run).confined
  refine Inevitable.of_wellFounded (I := fun t => Reached s listenFd t ∧ t.server.Confined S) wellFounded_lt
    (rank S) ?_ ?_ ⟨run, confined⟩
  · rintro t ⟨run, -⟩
    refine (rests_or_ready now (Reached.server run).consistent run.armed).imp id ?_
    rintro ⟨act, t', ok, at_, took⟩
    exact ⟨act, t', choice t act ok at_, took⟩
  · rintro t act t' ⟨run, confined⟩ - ok took
    obtain ⟨legal, quiet⟩ := calm t act ok
    cases act with
    | client fd act => exact quiet.elim
    | server call =>
      have inv := (Reached.server run).consistent
      obtain ⟨st', moved, rfl⟩ := Option.map_eq_some_iff.1 took
      refine ⟨⟨run.next legal took, confined.step inv ?_ moved⟩, server_rank inv confined legal quiet moved⟩
      rintro fd rfl
      cases quiet

/-- **The event loop comes to rest**: from any state that it reaches with its clients, and with any number `k` of
disturbances that are still to come, every run comes to a state in which the loop waits and could not go on with
any client: what has been sent to it is read, and what is left to send finds no room. -/
theorem comes_to_rest (s : EpollServer) (listenFd : Fd) (k : Nat) (run : Reached s listenFd sys) :
    Inevitable (disturbed (step s listenFd) (Calm listenFd)) (fun t act => t.1.Legal listenFd act)
      (fun t => Rests t.1) (sys, k) := by
  have settled (sys : EpollSystem) (run : Reached s listenFd sys) :
      Inevitable (step s listenFd) (fun t act => t.Legal listenFd act ∧ t.Calm listenFd act) Rests sys :=
    settles ⟨.still, fun _ => none⟩ (fun _ _ => id) (fun _ _ ok _ => ok) run
  exact Inevitable.disturbed settled (fun t act t' run legal took => run.next legal took) k run

/-- One client's line is read in part, and the other one's is not yet; five more disturbances may come. -/
theorem comes_to_rest_two : ∃ sys, Reached { platform := .still } 3 sys ∧ (sys.socks 6).input = ascii "G" ∧
    Inevitable (disturbed (step { platform := .still } 3) (Calm 3)) (fun t act => t.1.Legal 3 act)
      (fun t => Rests t.1) (sys, 5) := by
  obtain ⟨sys, run, -, -, input, -⟩ := one_handled
  exact ⟨sys, run, input, comes_to_rest { platform := .still } 3 5 run⟩

end EpollSystem

end HttpServer
