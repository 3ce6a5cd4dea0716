import Mathlib.Data.Finset.Card
import Mathlib.Data.Finset.Filter
import Mathlib.Data.Prod.Lex
import Mathlib.Order.WellFounded
import HttpServer.Http.Patience
import HttpServer.Lib.Inevitable
import HttpServer.Server.EventTable

/-!
# The event loop comes back to `epoll_wait`

Being edge-triggered, `handle_read` and `handle_write` go on until the kernel has
nothing more for them, and `accept_connections` until no client is left. None of
them can be kept up for ever: a handler that reads gets its verdict from the
parser in the end, since that has read what it waits behind (`Parsing`); one that
writes has less to write after each `send`; and every accepted client takes up a
descriptor. So every batch is handled to its end, whatever the clients do
(`batch_handled`).
-/

namespace HttpServer

open HttpParser Runs

/-- A connection that reads has fed its parser all that has arrived of the request. -/
def EpollConnection.Parses (c : EpollConnection) : Prop :=
  c.state = .reading → ∃ a, Reads c.parser a ∧ Waits c.parser

/-- What is left to send of the response. -/
def EpollConnection.left (c : EpollConnection) : Nat := c.writeBuffer.length - c.writeOffset

namespace EpollState

variable {s : EpollServer} {listenFd fd : Fd} {st st' : EpollState} {c : EpollConnection}

def Parsing (st : EpollState) : Prop := ∀ fd c, st.connections fd = some c → c.Parses

theorem parses_new : EpollConnection.Parses {} := fun _ => fed_fresh

theorem Parsing.put (inv : Parsing st) (parses : c.Parses) : Parsing (st.put fd c) := by
  intro x c' conn
  by_cases mine : x = fd
  · subst mine
    change Function.update st.connections x (some c) x = some c' at conn
    rw [Function.update_self] at conn
    cases conn
    exact parses
  · exact inv x c' ((Function.update_of_ne mine _ _).symm.trans conn)

theorem Parsing.handleWrite (inv : Parsing st) : Parsing (st.handleWrite s fd) := by
  unfold EpollState.handleWrite
  split
  · exact inv
  · rename_i c conn
    split
    · exact inv
    · split
      · exact inv
      · exact inv.put fun _ => fed_fresh

theorem Parsing.dispatch {e : EpollEvent} (inv : Parsing st) : Parsing (st.dispatch s listenFd e) := by
  unfold EpollState.dispatch EpollState.handleRead
  repeat' split
  all_goals first | exact inv | exact inv.handleWrite

/-- Behind data there is a response to write, or the parser waits for more. -/
theorem received_cases {data : Bytes} (took : st.received s fd c data = some st') :
    (∃ c', c'.state = .writing ∧ st' = (st.put fd c').goto fd .switching) ∨
      (c.parser.feed data).1.Running ∧ st' = st.put fd { c with parser := (c.parser.feed data).1 } := by
  have result := feed_result c.parser data
  unfold EpollState.received at took
  split at took
  · dsimp only at took
    split at took
    · cases took
    · cases took
      exact .inl ⟨_, rfl, rfl⟩
  · cases took
    exact .inl ⟨_, rfl, rfl⟩
  · rename_i parser fed
    cases took
    rw [fed] at result ⊢
    exact .inr ⟨result_incomplete.1 result.symm, rfl⟩

theorem Parsing.received {data : Bytes} (inv : Parsing st) (conn : st.connections fd = some c)
    (took : st.received s fd c data = some st') : Parsing st' := by
  rcases received_cases took with ⟨c', state, rfl⟩ | ⟨more, rfl⟩
  · exact inv.put fun reading => by cases state.symm.trans reading
  · exact inv.put fun state => Fed.feed (inv fd c conn state) more

theorem Parsing.step {call : EpollCall} (inv : Parsing st) (took : st.step s listenFd call = some st') :
    Parsing st' := by
  cases step_moves took with
  | wait | noClient | accept | add | refused | rearm | delete => exact inv
  | next => exact Parsing.dispatch inv
  | insert => exact inv.put parses_new
  | @recv fd c o now st' pc conn took =>
    cases o with
    | data d =>
      dsimp only [afterRecv] at took
      split at took
      · cases took
        exact inv
      · exact inv.received conn took
    | interrupted | wouldBlock | failed => cases took; exact inv
  | switch => exact Parsing.handleWrite inv
  | @send fd c o pc conn =>
    cases o with
    | sent n =>
      have parses : EpollConnection.Parses { c with
          writeOffset := c.writeOffset + min n (c.writeBuffer.length - c.writeOffset) } := inv fd c conn
      exact (inv.put parses).handleWrite
    | interrupted | wouldBlock | failed | broken => exact inv
  | @erase fd pc =>
    intro x c conn
    by_cases mine : x = fd
    · subst mine
      change Function.update st.connections x none x = some c at conn
      rw [Function.update_self] at conn
      cases conn
    · exact inv x c ((Function.update_of_ne mine _ _).symm.trans conn)

theorem Reached.parsing (run : Reached s listenFd st) : Parsing st := by
  refine run.invariant ?_ fun _ _ _ inv _ took => inv.step took
  intro fd c conn
  cases conn

/-! ## The rank -/

/-- The descriptors below `N` that are not open, nor about to be. -/
def vacant (N : Nat) (st : EpollState) : Nat :=
  ((Finset.range N).filter fun fd => (st.connections fd).isNone = true ∧ st.pc.handled ≠ some fd).card

/-- What is left to do for a connection before the loop goes on: the bytes that may still be read, and the calls
that remain otherwise. -/
def effort (c : EpollConnection) : ClientCall → Nat ×ₗ Nat
  | .reading => toLex (1, patience - c.parser.consumed)
  | .switching => toLex (0, c.left + 4)
  | .writing => toLex (0, c.left + 3)
  | .removing => toLex (0, 2)
  | _ => toLex (0, 1)

/-- What is left to do before the loop goes on to the next event. -/
def errand (N : Nat) (st : EpollState) : Nat ×ₗ Nat ×ₗ Nat :=
  match st.pc with
  | .idle => toLex (0, toLex (0, 0))
  | .accepting => toLex (st.vacant N, toLex (1, 0))
  | .client _ .adding => toLex (st.vacant N, toLex (3, 0))
  | .client _ .inserting => toLex (st.vacant N, toLex (2, 0))
  | .client fd call => toLex (0, effort ((st.connections fd).getD {}) call)

def rank (N : Nat) (st : EpollState) : Nat ×ₗ Nat ×ₗ Nat ×ₗ Nat := toLex (st.events.length, st.errand N)

/-- What the kernel may do while the batch is handled: a descriptor is below `N`, it can be registered, no signal
arrives, and a `send` that does not fail takes something. -/
def Brisk (N : Nat) (listenFd : Fd) (st : EpollState) (call : EpollCall) : Prop :=
  st.Legal listenFd call ∧
    match call with
    | .accept (some fd) => fd < N
    | .add ok => ok = true
    | .recv o _ => o ≠ .interrupted
    | .send o => o ≠ .interrupted ∧ o ≠ .sent 0
    | _ => True

theorem errand_done {N : Nat} (idle : st.pc = .idle) : st.errand N = toLex (0, toLex (0, 0)) := by
  rw [errand, idle]

/-- `handle_write` has more to send, or one or two calls to make. -/
theorem handleWrite_errand {N : Nat} (conn : st.connections fd = some c) :
    ∃ k ≤ c.left + 3, (st.handleWrite s fd).errand N = toLex (0, toLex (0, k)) := by
  unfold EpollState.handleWrite
  rw [conn]
  dsimp only
  split
  · refine ⟨c.left + 3, Nat.le_refl _, ?_⟩
    simp [errand, goto, effort, conn]
  · split
    · exact ⟨2, by omega, rfl⟩
    · exact ⟨1, by omega, rfl⟩

theorem errand_lt {x y : Nat ×ₗ Nat} (less : x < y) : (toLex (0, x) : Nat ×ₗ Nat ×ₗ Nat) < toLex (0, y) :=
  Prod.Lex.toLex_lt_toLex.2 (.inr ⟨rfl, less⟩)

theorem calls_lt {k m : Nat} (less : k < m) : (toLex (0, k) : Nat ×ₗ Nat) < toLex (0, m) :=
  Prod.Lex.toLex_lt_toLex.2 (.inr ⟨rfl, less⟩)

theorem phase_lt {v v' k m : Nat} (le : v' ≤ v) (less : k < m) :
    (toLex (v', toLex (k, 0)) : Nat ×ₗ Nat ×ₗ Nat) < toLex (v, toLex (m, 0)) :=
  Prod.Lex.toLex_lt_toLex.2 (le.lt_or_eq.imp id fun same => ⟨same, Prod.Lex.toLex_lt_toLex.2 (.inl less)⟩)

/-- A `recv` brings bytes that count, or the last ones that are read. -/
theorem afterRecv_errand {N : Nat} {o : RecvOutcome} (pc : st.pc = .client fd .reading)
    (conn : st.connections fd = some c) (parses : c.Parses) (state : c.state = .reading) (quiet : o ≠ .interrupted)
    (took : st.afterRecv s fd c o = some st') : st'.errand N < st.errand N := by
  have before : st.errand N = toLex (0, toLex (1, patience - c.parser.consumed)) := by
    simp [errand, pc, conn, effort]
  have leaves (k : Nat) : (toLex (0, k) : Nat ×ₗ Nat) < toLex (1, patience - c.parser.consumed) :=
    Prod.Lex.toLex_lt_toLex.2 (.inl Nat.zero_lt_one)
  rw [before]
  cases o with
  | data d =>
    dsimp only [afterRecv] at took
    split at took
    · cases took
      exact errand_lt (leaves 2)
    · rename_i some_
      rcases received_cases took with ⟨c', -, rfl⟩ | ⟨more, rfl⟩
      · exact errand_lt (leaves _)
      · have after : (st.put fd { c with parser := (c.parser.feed d).1 }).errand N =
            toLex (0, toLex (1, patience - (c.parser.feed d).1.consumed)) := by
          simp [errand, put, pc, effort]
        rw [after]
        exact errand_lt (Prod.Lex.toLex_lt_toLex.2 (.inr ⟨rfl, Fed.wearies (parses state) some_ more⟩))
  | interrupted => exact absurd rfl quiet
  | wouldBlock =>
    cases took
    exact errand_lt (leaves 0)
  | failed =>
    cases took
    exact errand_lt (leaves 2)

/-- A `send` takes something, or it is the last one. -/
theorem afterSend_errand {N : Nat} {o : SendOutcome} (pc : st.pc = .client fd .writing)
    (conn : st.connections fd = some c) (more : c.writeOffset < c.writeBuffer.length)
    (quiet : o ≠ .interrupted ∧ o ≠ .sent 0) : (st.afterSend s fd c o).errand N < st.errand N := by
  have before : st.errand N = toLex (0, toLex (0, c.left + 3)) := by simp [errand, pc, conn, effort]
  rw [before]
  cases o with
  | sent n =>
    have takes : n ≠ 0 := fun none_ => quiet.2 (by rw [none_])
    obtain ⟨k, few, after⟩ := @handleWrite_errand s fd (st.put fd { c with
      writeOffset := c.writeOffset + min n (c.writeBuffer.length - c.writeOffset) }) _ N (Function.update_self ..)
    dsimp only [EpollConnection.left] at few
    refine after.trans_lt (errand_lt (calls_lt ?_))
    unfold EpollConnection.left
    omega
  | interrupted => exact absurd rfl quiet.1
  | wouldBlock => exact (errand_done rfl).trans_lt (errand_lt (calls_lt (Nat.succ_pos _)))
  | failed => exact errand_lt (calls_lt (k := 2) (by omega))
  | broken => exact errand_lt (calls_lt (k := 2) (by omega))

/-- A client that is accepted takes up a descriptor. -/
theorem vacant_accept {N : Nat} (pc : st.pc = .accepting) (below : fd < N) (free : st.connections fd = none) :
    (st.goto fd .adding).vacant N < st.vacant N := by
  refine Finset.card_lt_card ((Finset.ssubset_iff_of_subset fun x mem => ?_).2 ⟨fd, ?_, ?_⟩)
  · obtain ⟨range, none_, -⟩ := Finset.mem_filter.1 mem
    exact Finset.mem_filter.2 ⟨range, none_, by simp [pc, EpollPc.handled]⟩
  · exact Finset.mem_filter.2 ⟨Finset.mem_range.2 below, by simp [free], by simp [pc, EpollPc.handled]⟩
  · simp [goto, EpollPc.handled]

/-- The table has no more room for others when it is inserted. -/
theorem vacant_insert {N : Nat} (pc : st.pc = .client fd .inserting) :
    ({ st.put fd c with pc := .accepting } : EpollState).vacant N ≤ st.vacant N := by
  refine Finset.card_le_card fun x mem => ?_
  obtain ⟨range, none_, -⟩ := Finset.mem_filter.1 mem
  change (Function.update st.connections fd (some c) x).isNone = true at none_
  have other : x ≠ fd := by
    rintro rfl
    simp at none_
  rw [Function.update_of_ne other] at none_
  refine Finset.mem_filter.2 ⟨range, none_, ?_⟩
  rw [pc]
  exact fun mine => other (Option.some.inj mine).symm

theorem dispatch_events (e : EpollEvent) : (st.dispatch s listenFd e).events = st.events := by
  unfold EpollState.dispatch EpollState.handleRead EpollState.handleWrite
  repeat' split
  all_goals rfl

/-- Every step inside a handler leaves less to do before the next event. -/
theorem handler_errand {N : Nat} {call : EpollCall} {place : ClientCall} (inv : Consistent s listenFd st)
    (parsing : Parsing st) (at_ : st.pc = .client fd place) (brisk : Brisk N listenFd st call)
    (took : st.step s listenFd call = some st') : st'.errand N < st.errand N := by
  have slot := inv.slot at_
  cases step_moves took with
  | wait pc | next pc | noClient pc | accept pc => cases at_.symm.trans pc
  | @add x pc =>
    have same : ((st.register x (some .epollin)).goto x .inserting).vacant N = st.vacant N := by
      simp [vacant, goto, register, pc, EpollPc.handled]
    simp only [errand, pc]
    exact phase_lt same.le (by decide)
  | refused pc => cases brisk.2
  | insert pc =>
    simp only [errand, pc]
    exact phase_lt (vacant_insert pc) (by decide)
  | recv pc conn took =>
    cases at_.symm.trans pc
    obtain ⟨-, c', conn', h⟩ := slot
    cases conn.symm.trans conn'
    exact afterRecv_errand pc conn (parsing _ _ conn) h.state brisk.2 took
  | switch pc =>
    cases at_.symm.trans pc
    obtain ⟨-, c, conn, -⟩ := slot
    obtain ⟨k, few, after⟩ := @handleWrite_errand s fd (st.register fd (some .epollout)) c N conn
    rw [after]
    simp only [errand, at_, conn, effort, Option.getD_some]
    exact errand_lt (calls_lt (by omega))
  | send pc conn =>
    cases at_.symm.trans pc
    obtain ⟨-, c', conn', h⟩ := slot
    cases conn.symm.trans conn'
    exact afterSend_errand pc conn h.offset brisk.2
  | rearm pc =>
    simp only [errand, pc]
    exact errand_lt (calls_lt Nat.zero_lt_one)
  | delete pc =>
    simp only [errand, pc]
    exact errand_lt (calls_lt Nat.one_lt_two)
  | erase pc =>
    simp only [errand, pc]
    exact errand_lt (calls_lt Nat.zero_lt_one)

/-- Every step leaves less to do, until the batch is handled. -/
theorem step_rank {N : Nat} {call : EpollCall} (inv : Consistent s listenFd st) (parsing : Parsing st)
    (going : ¬ (st.pc = .idle ∧ st.events = [])) (brisk : Brisk N listenFd st call)
    (took : st.step s listenFd call = some st') : st'.rank N < st.rank N := by
  have same (events : st'.events = st.events) (less : st'.errand N < st.errand N) : st'.rank N < st.rank N :=
    Prod.Lex.toLex_lt_toLex.2 (.inr ⟨congrArg List.length events, less⟩)
  cases place : st.pc with
  | client fd call =>
    exact same (step_handles inv place took).touches.events (handler_errand inv parsing place brisk took)
  | idle =>
    cases step_moves took with
    | wait pc batch => exact absurd ⟨pc, batch⟩ going
    | next pc batch =>
      refine Prod.Lex.toLex_lt_toLex.2 (.inl ?_)
      dsimp only
      rw [dispatch_events, batch]
      exact Nat.lt_succ_self _
    | noClient pc | accept pc => cases place.symm.trans pc
    | add pc | refused pc | insert pc | recv pc | switch pc | send pc | rearm pc | delete pc | erase pc =>
      cases place.symm.trans pc
  | accepting =>
    cases step_moves took with
    | noClient pc =>
      refine same rfl ?_
      simp only [errand, pc]
      exact phase_lt (Nat.zero_le _) (by decide)
    | @accept fd pc =>
      refine same rfl ?_
      have free : st.connections fd = none := Option.isNone_iff_eq_none.1 brisk.1.2
      simp only [errand, pc]
      exact Prod.Lex.toLex_lt_toLex.2 (.inl (vacant_accept pc brisk.2 free))
    | wait pc | next pc => cases place.symm.trans pc
    | add pc | refused pc | insert pc | recv pc | switch pc | send pc | rearm pc | delete pc | erase pc =>
      cases place.symm.trans pc

/-- Until then the kernel can do something that is not excluded. -/
theorem brisk_ready {N : Nat} (inv : Consistent s listenFd st) :
    (st.pc = .idle ∧ st.events = []) ∨
      ∃ call st', Brisk N listenFd st call ∧ st.step s listenFd call = some st' := by
  have ready (call : EpollCall) (ok : Brisk N listenFd st call) (enabled : st.step s listenFd call ≠ none) :
      ∃ call st', Brisk N listenFd st call ∧ st.step s listenFd call = some st' := by
    obtain ⟨st', took⟩ := Option.ne_none_iff_exists'.1 enabled
    exact ⟨call, st', ok, took⟩
  cases place : st.pc with
  | idle =>
    cases batch : st.events with
    | nil => exact .inl ⟨rfl, rfl⟩
    | cons e events => exact .inr (ready .next ⟨trivial, trivial⟩ (by simp [step, place, batch]))
  | accepting => exact .inr (ready (.accept none) ⟨trivial, trivial⟩ (by simp [step, place]))
  | client fd call =>
    have slot := inv.slot place
    right
    cases call with
    | adding => exact ready (.add true) ⟨trivial, rfl⟩ (by simp [step, place])
    | inserting => exact ready .insert ⟨trivial, trivial⟩ (by simp [step, place])
    | reading =>
      obtain ⟨-, c, conn, -⟩ := slot
      have quiet : RecvOutcome.wouldBlock ≠ .interrupted := by decide
      exact ready (.recv .wouldBlock ⟨s.platform, fun _ => none⟩) ⟨trivial, quiet⟩
        (by simp [step, place, conn, afterRecv])
    | switching | rearming => exact ready .modify ⟨trivial, trivial⟩ (by simp [step, place])
    | writing =>
      obtain ⟨-, c, conn, -⟩ := slot
      have quiet : SendOutcome.wouldBlock ≠ .interrupted ∧ SendOutcome.wouldBlock ≠ .sent 0 := by decide
      exact ready (.send .wouldBlock) ⟨trivial, quiet⟩ (by simp [step, place, conn])
    | removing => exact ready .delete ⟨trivial, trivial⟩ (by simp [step, place])
    | erasing => exact ready .erase ⟨trivial, trivial⟩ (by simp [step, place])

/-- **Every batch is handled to its end**, whatever the clients send and take, so the event loop comes back to
`epoll_wait`; no client keeps the others waiting for ever. -/
theorem batch_handled (s : EpollServer) (listenFd : Fd) (N : Nat) {st : EpollState} (run : Reached s listenFd st) :
    Inevitable (EpollState.step s listenFd) (Brisk N listenFd) (fun t => t.pc = .idle ∧ t.events = []) st := by
  apply Inevitable.of_wellFounded (I := fun t => Consistent s listenFd t ∧ Parsing t) wellFounded_lt (rank N)
  · exact fun t inv => brisk_ready inv.1
  · intro t call u inv going brisk took
    exact ⟨⟨inv.1.step brisk.1 took, inv.2.step took⟩, step_rank inv.1 inv.2 going brisk took⟩
  · exact ⟨run.consistent, run.parsing⟩

/-- One client has sent half a line, and the event of another one is still to be handled. -/
theorem batch_handled_reading : ∃ st, Reached { platform := .still } 3 st ∧ st.pc = .client 5 .reading ∧
    st.events.map (·.fd) = [6] ∧ Inevitable (EpollState.step { platform := .still } 3) (Brisk 1024 3)
      (fun t => t.pc = .idle ∧ t.events = []) st := by
  obtain ⟨st, ran, reading, batch⟩ : ∃ st,
      exec (step { platform := .still } 3) (fun st call => decide (st.Legal 3 call)) {}
        [.wait [{ fd := 3, input := true }], .next, .accept (some 5), .add true, .insert, .accept (some 6),
          .add true, .insert, .accept none, .wait [{ fd := 5, input := true }, { fd := 6, hangup := true }],
          .next, .recv (.data [71]) ⟨.still, fun _ => none⟩] = some st ∧
        st.pc = .client 5 .reading ∧ st.events.map (·.fd) = [6] := ⟨_, rfl, rfl, rfl⟩
  have run : Reached { platform := .still } 3 st := (exec_run ran).mono fun _ _ legal => of_decide_eq_true legal
  exact ⟨st, run, reading, batch, batch_handled { platform := .still } 3 1024 run⟩

end EpollState

end HttpServer
