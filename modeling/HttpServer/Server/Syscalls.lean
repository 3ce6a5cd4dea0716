import HttpServer.Lib.History
import HttpServer.Server.EventTable

/-!
# The system calls of the event loop

What the kernel allows with one descriptor is an automaton: a descriptor is
accepted, registered, watched for one direction at a time, taken out of epoll and
closed. The calls that a run of the event loop makes for a descriptor are a word
of it, and the state they lead to is the one that the table and the place in the
handler tell (`calls_follow`). So a descriptor is never used when it is closed,
registered twice or closed twice, and none is left behind.
-/

namespace HttpServer

open Runs

/-- A client's descriptor in the kernel. -/
inductive FdState where
  | closed
  | accepted
  /-- It could not be registered. -/
  | refused
  | watched (i : Interest)
  /-- Open, and no longer registered. -/
  | dropped
  deriving DecidableEq

inductive Syscall where
  | accept
  /-- `epoll_ctl` with `EPOLL_CTL_ADD`. -/
  | add (ok : Bool)
  /-- `EPOLL_CTL_MOD`. -/
  | modify (i : Interest)
  /-- `EPOLL_CTL_DEL`. -/
  | delete
  | recv
  | send
  | close
  deriving DecidableEq

/-- What may be done with a descriptor: it is read when it is watched for input, written when it is watched for
output, and a change of the direction is one. -/
def FdState.step : FdState → Syscall → Option FdState
  | .closed, .accept => some .accepted
  | .accepted, .add true => some (.watched .epollin)
  | .accepted, .add false => some .refused
  | .refused, .close => some .closed
  | .watched .epollin, .recv => some (.watched .epollin)
  | .watched .epollout, .send => some (.watched .epollout)
  | .watched i, .modify i' => if i' = i then none else some (.watched i')
  | .watched _, .delete => some .dropped
  | .dropped, .close => some .closed
  | _, _ => none

/-- The state behind a word of calls; none where one of them is not allowed. -/
def FdState.replay (q : FdState) (calls : List Syscall) : Option FdState := exec FdState.step (fun _ _ => true) q calls

namespace FdState

@[simp] theorem replay_nil (q : FdState) : q.replay [] = some q := rfl

@[simp] theorem replay_cons (q : FdState) (c : Syscall) (calls : List Syscall) :
    q.replay (c :: calls) = (q.step c).bind fun q' => q'.replay calls := rfl

/-- A word is replayed part by part. -/
theorem replay_append (q : FdState) (front back : List Syscall) :
    q.replay (front ++ back) = (q.replay front).bind fun q' => q'.replay back := by
  induction front generalizing q with
  | nil => rfl
  | cons c front ih =>
    rw [List.cons_append, replay_cons, replay_cons]
    cases q.step c with
    | none => rfl
    | some q' => exact ih q'

/-- 1 for a descriptor that is open. -/
def isOpen (q : FdState) : Nat := if q = .closed then 0 else 1

/-- A call opens the descriptor, closes it, or does neither. -/
theorem step_balance {q q' : FdState} {c : Syscall} (took : q.step c = some q') :
    q.isOpen + [c].count .accept = q'.isOpen + [c].count .close := by
  unfold step at took
  split at took
  case h_7 =>
    split at took
    · cases took
    · cases took
      rfl
  all_goals cases took <;> rfl

/-- What has been opened and is not open has been closed. -/
theorem replay_balance {q q' : FdState} {calls : List Syscall} (ran : q.replay calls = some q') :
    q.isOpen + calls.count .accept = q'.isOpen + calls.count .close := by
  induction calls generalizing q with
  | nil =>
    cases ran
    rfl
  | cons c calls ih =>
    obtain ⟨q₁, took, rest⟩ := Option.bind_eq_some_iff.1 ran
    have first := step_balance took
    have later := ih rest
    rw [← List.singleton_append, List.count_append, List.count_append]
    omega

end FdState

/-! ## The calls of a run -/

/-- What the place in a handler tells of a descriptor, where the registrations do not. -/
def EpollPc.between (fd : Fd) : EpollPc → Option FdState
  | .client x .adding => if x = fd then some .accepted else none
  | .client x .erasing => if x = fd then some .dropped else none
  | _ => none

namespace EpollState

/-- The descriptor as the server takes it to be. -/
def descriptor (st : EpollState) (fd : Fd) : FdState :=
  (st.pc.between fd).getD (match st.registered fd with | some i => .watched i | none => .closed)

/-- The calls so far, by descriptor. -/
abbrev Calls := Fd → List Syscall

end EpollState

/-- The calls of a step inside a handler; where a client cannot be registered its socket is destroyed. -/
def ClientCall.syscalls (place : ClientCall) : EpollCall → List Syscall
  | .add true => [.add true]
  | .add false => [.add false, .close]
  | .recv _ _ => [.recv]
  | .modify => [.modify (if place = .switching then .epollout else .epollin)]
  | .send _ => [.send]
  | .delete => [.delete]
  | .erase => [.close]
  | _ => []

namespace EpollState

/-- The calls of a step for one descriptor. -/
def syscalls (st : EpollState) (call : EpollCall) (x : Fd) : List Syscall :=
  match st.pc, call with
  | .accepting, .accept (some fd) => if x = fd then [.accept] else []
  | .client fd place, call => if x = fd then place.syscalls call else []
  | _, _ => []

def logged (st : EpollState) (call : EpollCall) (_ : EpollState) (calls : Calls) : Calls :=
  fun x => calls x ++ st.syscalls call x

/-- `EpollServer::stop` between two events, for one descriptor. -/
def stopCalls (st : EpollState) (fd : Fd) : List Syscall :=
  match st.connections fd with
  | some _ => [.delete, .close]
  | none => []

/-! ## One step -/

variable {s : EpollServer} {listenFd fd : Fd} {st st' : EpollState}

/-- The place in a handler tells only of the descriptor that the handler is at work on. -/
theorem between_other {pc : EpollPc} {x : Fd} (other : pc.handled ≠ some x) : pc.between x = none := by
  unfold EpollPc.between
  split
  · exact if_neg fun eq => other (congrArg some eq)
  · exact if_neg fun eq => other (congrArg some eq)
  · rfl

theorem register_self (st : EpollState) (fd : Fd) (i : Option Interest) : (st.register fd i).registered fd = i :=
  Function.update_self ..

/-- Between the calls of a handler, a registered descriptor is watched as `epoll_ctl` was told. -/
theorem descriptor_watched {i : Interest} (between : st.pc.between fd = none) (interest : st.registered fd = some i) :
    st.descriptor fd = .watched i := by
  rw [descriptor, between, interest]
  rfl

/-- One that is not registered is closed. -/
theorem descriptor_closed (between : st.pc.between fd = none) (none_ : st.registered fd = none) :
    st.descriptor fd = .closed := by
  rw [descriptor, between, none_]
  rfl

/-- Code that makes no call of `epoll_ctl`, and goes on to one that is neither the first nor the last. -/
structure Plain (fd : Fd) (st st' : EpollState) : Prop where
  registered : st'.registered = st.registered
  between : ∀ x, st'.pc.between x = none
  removing : ∀ x, st'.pc = .client x .removing → x = fd

theorem plain_idle (fd : Fd) (st : EpollState) : Plain fd st { st with pc := .idle } :=
  ⟨rfl, fun _ => rfl, fun _ h => by cases h⟩

/-- `close_connection` leaves the handler at `EPOLL_CTL_DEL`, and has called nothing yet. -/
theorem plain_close (fd : Fd) (st : EpollState) : Plain fd st (st.closeConnection fd) :=
  ⟨rfl, fun _ => rfl, fun _ h => by cases h; rfl⟩

/-- The head of the loop of `handle_write` calls nothing, whichever way it goes on. -/
theorem plain_handleWrite (s : EpollServer) (st : EpollState) (fd : Fd) : Plain fd st (st.handleWrite s fd) := by
  unfold handleWrite
  split
  · exact plain_idle fd st
  · split
    · exact ⟨rfl, fun _ => rfl, fun _ h => by cases h⟩
    · split
      · exact plain_close fd st
      · exact ⟨rfl, fun _ => rfl, fun _ h => by cases h⟩

/-- An event is handed to the accept loop, to `close_connection` or to a handler before any call is made for it. -/
theorem plain_dispatch (e : EpollEvent) : Plain e.fd st (st.dispatch s listenFd e) := by
  unfold dispatch handleRead
  split
  · exact ⟨rfl, fun _ => rfl, fun _ h => by cases h⟩
  · split
    · exact plain_close _ _
    · split
      · split
        · exact plain_idle _ _
        · exact ⟨rfl, fun _ => rfl, fun _ h => by cases h⟩
      · split
        · exact plain_handleWrite _ _ _
        · exact plain_idle _ _

/-- Behind a `send` the handler goes on to the next one, back to the loop of events or to `close_connection`. -/
theorem plain_afterSend {c : EpollConnection} (o : SendOutcome) (pc : st.pc = .client fd .writing) :
    Plain fd st (st.afterSend s fd c o) := by
  cases o with
  | sent n =>
    obtain ⟨registered, between, removing⟩ := plain_handleWrite s (st.put fd { c with
      writeOffset := c.writeOffset + min n (c.writeBuffer.length - c.writeOffset) }) fd
    exact ⟨registered, between, removing⟩
  | interrupted => exact ⟨rfl, fun _ => by rw [afterSend, pc]; rfl, fun _ h => by cases pc.symm.trans h⟩
  | wouldBlock => exact plain_idle _ _
  | failed => exact plain_close _ _
  | broken => exact plain_close _ _

/-- Behind a `recv` it goes on to the next one, to `EPOLL_CTL_MOD` for a response, back to the loop of events or to
`close_connection`. -/
theorem plain_afterRecv {c : EpollConnection} {o : RecvOutcome} (pc : st.pc = .client fd .reading)
    (took : st.afterRecv s fd c o = some st') : Plain fd st st' := by
  have same (c' : EpollConnection) : Plain fd st (st.put fd c') :=
    ⟨rfl, fun _ => by rw [put, pc]; rfl, fun _ h => by cases pc.symm.trans h⟩
  cases o with
  | data d =>
    dsimp only [afterRecv] at took
    split at took
    · cases took
      exact plain_close _ _
    · unfold received at took
      split at took
      · dsimp only at took
        split at took
        · cases took
        · cases took
          exact ⟨rfl, fun _ => rfl, fun _ h => by cases h⟩
      · cases took
        exact ⟨rfl, fun _ => rfl, fun _ h => by cases h⟩
      · cases took
        exact same _
  | interrupted =>
    cases took
    exact ⟨rfl, fun _ => by rw [pc]; rfl, fun _ h => by cases pc.symm.trans h⟩
  | wouldBlock =>
    cases took
    exact plain_idle _ _
  | failed =>
    cases took
    exact plain_close _ _

/-- A descriptor that is about to be taken out of epoll is registered. -/
def Removing (st : EpollState) : Prop := ∀ fd, st.pc = .client fd .removing → (st.registered fd).isSome = true

/-- A descriptor that was registered still is when plain code comes to take it out of epoll. -/
theorem Plain.keeps (plain : Plain fd st st') (registered : (st.registered fd).isSome = true) : Removing st' := by
  intro x pc
  rw [plain.registered, plain.removing x pc]
  exact registered

/-- Only a registered descriptor is taken out of epoll: an event is reported for none but these. -/
theorem removing_step {call : EpollCall} (inv : Consistent s listenFd st) (took : st.step s listenFd call = some st') :
    Removing st' := by
  cases step_moves took with
  | wait pc => exact fun x h => by cases pc.symm.trans h
  | noClient | accept | add | refused | insert | rearm | delete | erase => exact fun x h => by cases h
  | @next e events pc batch =>
    have plain : Plain e.fd st ({ st with events }.dispatch s listenFd e) := by
      obtain ⟨registered, between, removing⟩ := @plain_dispatch s listenFd { st with events } e
      exact ⟨registered, between, removing⟩
    by_cases listener : e.fd = listenFd
    · intro x h
      rw [dispatch, if_pos listener] at h
      cases h
    · have requested := (inv.event batch listener).1
      refine plain.keeps ?_
      generalize st.registered e.fd = i at requested ⊢
      cases i with
      | none => exact absurd requested id
      | some i => rfl
  | recv pc conn took =>
    refine (plain_afterRecv pc took).keeps ?_
    rw [(inv.slot pc).1]
    rfl
  | @switch x pc =>
    refine (plain_handleWrite s _ x).keeps ?_
    rw [register_self]
    rfl
  | send pc conn =>
    refine (plain_afterSend _ pc).keeps ?_
    rw [(inv.slot pc).1]
    rfl

/-- The calls of a handler's step for its descriptor are allowed and lead on. -/
theorem handler_calls {call : EpollCall} {place : ClientCall} (inv : Consistent s listenFd st) (removing : Removing st)
    (at_ : st.pc = .client fd place) (took : st.step s listenFd call = some st') :
    (st.descriptor fd).replay (place.syscalls call) = some (st'.descriptor fd) := by
  have slot := inv.slot at_
  cases step_moves took with
  | wait pc | next pc | noClient pc | accept pc => cases at_.symm.trans pc
  | add pc =>
    cases at_.symm.trans pc
    have before : st.descriptor fd = .accepted := by simp [descriptor, pc, EpollPc.between]
    have after : ((st.register fd (some .epollin)).goto fd .inserting).descriptor fd = .watched .epollin :=
      descriptor_watched rfl (register_self ..)
    rw [before, after]
    rfl
  | refused pc =>
    cases at_.symm.trans pc
    have before : st.descriptor fd = .accepted := by simp [descriptor, pc, EpollPc.between]
    have after : ({ st with pc := .accepting } : EpollState).descriptor fd = .closed := descriptor_closed rfl slot.2
    rw [before, after]
    rfl
  | insert pc =>
    cases at_.symm.trans pc
    have after : ({ st.put fd {} with pc := .accepting } : EpollState).descriptor fd = .watched .epollin :=
      descriptor_watched rfl slot.2
    rw [descriptor_watched (by rw [pc]; rfl) slot.2, after]
    rfl
  | recv pc conn took =>
    cases at_.symm.trans pc
    have plain := plain_afterRecv pc took
    rw [descriptor_watched (by rw [pc]; rfl) slot.1,
      descriptor_watched (plain.between fd) (by rw [plain.registered]; exact slot.1)]
    rfl
  | switch pc =>
    cases at_.symm.trans pc
    have plain := plain_handleWrite s (st.register fd (some .epollout)) fd
    rw [descriptor_watched (by rw [pc]; rfl) slot.1,
      descriptor_watched (plain.between fd) (by rw [plain.registered]; exact register_self ..)]
    rfl
  | @send x c o pc conn =>
    cases at_.symm.trans pc
    have plain := @plain_afterSend s fd st c o pc
    rw [descriptor_watched (by rw [pc]; rfl) slot.1,
      descriptor_watched (plain.between fd) (by rw [plain.registered]; exact slot.1)]
    rfl
  | rearm pc =>
    cases at_.symm.trans pc
    have after : ({ st.register fd (some .epollin) with pc := .idle } : EpollState).descriptor fd = .watched .epollin :=
      descriptor_watched rfl (register_self ..)
    rw [descriptor_watched (by rw [pc]; rfl) slot.1, after]
    rfl
  | delete pc =>
    cases at_.symm.trans pc
    obtain ⟨i, interest⟩ := Option.isSome_iff_exists.1 (removing fd pc)
    have after : ((st.register fd none).goto fd .erasing).descriptor fd = .dropped := by
      simp [descriptor, goto, EpollPc.between]
    rw [descriptor_watched (by rw [pc]; rfl) interest, after]
    cases i <;> rfl
  | erase pc =>
    cases at_.symm.trans pc
    have before : st.descriptor fd = .dropped := by simp [descriptor, pc, EpollPc.between]
    have after : ({ st with
        connections := Function.update st.connections fd none, pc := .idle } : EpollState).descriptor fd = .closed :=
      descriptor_closed rfl slot
    rw [before, after]
    rfl

/-- A step that leaves the registration of a descriptor, and what the place tells of it, leaves the descriptor. -/
theorem descriptor_same {x : Fd} (registered : st'.registered x = st.registered x)
    (between : st'.pc.between x = st.pc.between x) : st'.descriptor x = st.descriptor x := by
  rw [descriptor, descriptor, registered, between]

/-- **One step**: its calls for a descriptor are allowed, and lead to the state that the server takes it to be in. -/
theorem step_calls {call : EpollCall} (inv : Consistent s listenFd st) (removing : Removing st)
    (legal : st.Legal listenFd call) (took : st.step s listenFd call = some st') (x : Fd) :
    (st.descriptor x).replay (st.syscalls call x) = some (st'.descriptor x) := by
  cases place : st.pc with
  | client fd place_ =>
    have calls : st.syscalls call x = if x = fd then place_.syscalls call else [] := by simp only [syscalls, place]
    rw [calls]
    by_cases mine : x = fd
    · subst mine
      rw [if_pos rfl]
      exact handler_calls inv removing place took
    · obtain ⟨-, registered, -, handled⟩ := (step_handles inv place took).touches
      have before : st.pc.between x = none := by
        refine between_other ?_
        rw [place]
        exact fun h => mine (Option.some.inj h).symm
      have after : st'.pc.between x = none := by
        refine between_other fun h => ?_
        rcases handled with handled | handled
        · exact mine (Option.some.inj (h.symm.trans handled))
        · cases h.symm.trans handled
      rw [if_neg mine, descriptor_same (registered x mine) (after.trans before.symm)]
      rfl
  | idle =>
    have none_ : st.syscalls call x = [] := by simp only [syscalls, place]
    have before : st.pc.between x = none := by rw [place]; rfl
    rw [none_, FdState.replay_nil]
    cases step_moves took with
    | wait pc => rfl
    | @next e events pc batch =>
      have plain := @plain_dispatch s listenFd { st with events } e
      exact congrArg some (descriptor_same (congrFun plain.registered x) ((plain.between x).trans before.symm)).symm
    | noClient pc | accept pc => cases place.symm.trans pc
    | add pc | refused pc | insert pc | recv pc | switch pc | send pc | rearm pc | delete pc | erase pc =>
      cases place.symm.trans pc
  | accepting =>
    have before : st.pc.between x = none := by rw [place]; rfl
    cases step_moves took with
    | noClient pc =>
      have none_ : st.syscalls (.accept none) x = [] := by simp only [syscalls, place]
      have same : ({ st with pc := .idle } : EpollState).descriptor x = st.descriptor x :=
        descriptor_same rfl before.symm
      rw [none_, same, FdState.replay_nil]
    | @accept fd pc =>
      have calls : st.syscalls (.accept (some fd)) x = if x = fd then [.accept] else [] := by
        simp only [syscalls, place]
      rw [calls]
      by_cases mine : x = fd
      · subst mine
        have closed : st.registered x = none := by
          have agree := inv.agree (by rw [pc]; rfl) x
          rw [Option.isNone_iff_eq_none.1 legal.2] at agree
          generalize st.registered x = i at agree
          cases agree
          rfl
        have after : (st.goto x .adding).descriptor x = .accepted := by simp [descriptor, goto, EpollPc.between]
        rw [if_pos rfl, descriptor_closed before closed, after]
        rfl
      · have after : (st.goto fd .adding).pc.between x = none := if_neg fun eq => mine eq.symm
        have same : (st.goto fd .adding).descriptor x = st.descriptor x := descriptor_same rfl (after.trans before.symm)
        rw [if_neg mine, same, FdState.replay_nil]
    | wait pc | next pc => cases place.symm.trans pc
    | add pc | refused pc | insert pc | recv pc | switch pc | send pc | rearm pc | delete pc | erase pc =>
      cases place.symm.trans pc

/-! ## Runs -/

/-- The event loop with the calls that it has made. -/
abbrev Calling (s : EpollServer) (listenFd : Fd) : EpollState × Calls → Prop :=
  Run (noted (EpollState.step s listenFd) logged) (fun t call => t.1.Legal listenFd call) ({}, fun _ => [])

/-- `EPOLL_CTL_DEL` finds its descriptor registered in every run. -/
theorem Reached.removing (run : Reached s listenFd st) : Removing st := by
  refine run.invariant_with (fun t run => Reached.consistent run) (fun fd h => by cases h) ?_
  intro t call u inv _ _ took
  exact removing_step inv took

/-- Behind every run a descriptor is where its calls have led, and all of them were allowed. -/
theorem calling_word {t : EpollState × Calls} (run : Calling s listenFd t) (fd : Fd) :
    FdState.closed.replay (t.2 fd) = some (t.1.descriptor fd) := by
  have known (t : EpollState × Calls) (run : Calling s listenFd t) : Consistent s listenFd t.1 ∧ Removing t.1 := by
    have plain : Reached s listenFd t.1 := run.forget
    exact ⟨plain.consistent, plain.removing⟩
  apply run.invariant_with (I := fun t => FdState.closed.replay (t.2 fd) = some (t.1.descriptor fd)) known rfl
  intro t call u inv word legal took
  obtain ⟨took, logs⟩ := noted_eq_some.1 took
  rw [logs, logged, FdState.replay_append, word]
  exact step_calls inv.1 inv.2 legal took fd

/-- **The calls of a run are allowed**: for each descriptor they are a word of the automaton, which ends in the
state that the server takes the descriptor to be in. What it has accepted is closed once, or is still open; between
two events just the clients in the table are open, and a `stop` then closes them. -/
theorem calls_follow (s : EpollServer) (listenFd : Fd) {st : EpollState} {calls : Calls}
    (run : Calling s listenFd (st, calls)) (fd : Fd) :
    FdState.closed.replay (calls fd) = some (st.descriptor fd) ∧
    (calls fd).count .accept = (calls fd).count .close + (if st.descriptor fd = .closed then 0 else 1) ∧
    (st.pc = .idle → (st.descriptor fd = .closed ↔ st.connections fd = none) ∧
      FdState.closed.replay (calls fd ++ st.stopCalls fd) = some .closed) := by
  have word : FdState.closed.replay (calls fd) = some (st.descriptor fd) := calling_word run fd
  have plain : Reached s listenFd st := run.forget
  refine ⟨word, ?_, fun idle => ?_⟩
  · have balance := FdState.replay_balance word
    unfold FdState.isOpen at balance
    simpa [Nat.add_comm] using balance
  · have agree := plain.consistent.agree (by rw [idle]; rfl) fd
    have between : st.pc.between fd = none := by rw [idle]; rfl
    rw [FdState.replay_append, word, stopCalls]
    cases interest : st.registered fd with
    | none =>
      have closed := descriptor_closed between interest
      rw [interest] at agree
      generalize st.connections fd = c at agree ⊢
      cases agree
      exact ⟨iff_of_true closed rfl, by rw [closed]; rfl⟩
    | some i =>
      have watched := descriptor_watched between interest
      rw [interest] at agree
      generalize st.connections fd = c at agree ⊢
      cases c with
      | none => cases agree
      | some c =>
        refine ⟨iff_of_false (by rw [watched]; exact fun h => by cases h) (fun h => by cases h), ?_⟩
        rw [watched]
        cases i <;> rfl

set_option maxRecDepth 2000 in
/-- One client is answered, another one resets its socket, and a third one cannot be registered. -/
theorem calls_follow_three : ∃ st calls, Calling { platform := .still } 3 (st, calls) ∧
    calls 5 = [.accept, .add true, .recv, .modify .epollout, .send] ∧
    calls 6 = [.accept, .add true, .delete, .close] ∧ calls 7 = [.accept, .add false, .close] ∧
    FdState.closed.replay (calls 5) = some (.watched .epollout) := by
  obtain ⟨⟨st, calls⟩, ran, answered, reset, refused, watched⟩ : ∃ t,
      exec (noted (EpollState.step { platform := .still } 3) logged) (fun t call => decide (t.1.Legal 3 call))
        ({}, fun _ => [])
        [.wait [{ fd := 3, input := true }], .next, .accept (some 5), .add true, .insert, .accept (some 6), .add true,
          .insert, .accept (some 7), .add false, .accept none,
          .wait [{ fd := 5, input := true }, { fd := 6, hangup := true }], .next,
          .recv (.data crlf) ⟨.still, fun _ => none⟩, .modify, .send .wouldBlock, .next, .delete, .erase] = some t ∧
      t.2 5 = [.accept, .add true, .recv, .modify .epollout, .send] ∧ t.2 6 = [.accept, .add true, .delete, .close] ∧
      t.2 7 = [.accept, .add false, .close] ∧ t.1.descriptor 5 = .watched .epollout := ⟨_, rfl, rfl, rfl, rfl, rfl⟩
  have run : Calling { platform := .still } 3 (st, calls) :=
    (exec_run ran).mono fun _ _ legal => of_decide_eq_true legal
  have word := (calls_follow { platform := .still } 3 run 5).1
  rw [watched] at word
  exact ⟨st, calls, run, answered, reset, refused, word⟩

end EpollState

end HttpServer
