import HttpServer.Server.EventTable

/-!
# A handler in the event loop

`EpollServer.handleRead` and `EpollServer.handleWrite` take the outcomes of all
their calls at once; the event loop takes them call by call. Run to its end
either way, a handler leaves the same entry in the table and the same
registration, and it leaves the other connections alone (`handleRead_run`,
`handleWrite_run`). So what is known of the one connection's events holds of
each connection of the loop.
-/

namespace HttpServer

namespace EpollState

/-- The entry of a descriptor and its registration. -/
def watched (st : EpollState) (fd : Fd) : Option Watched :=
  match st.connections fd, st.registered fd with
  | some conn, some interest => some { conn, interest }
  | _, _ => none

/-- The handler runs to its end and leaves `w` behind. -/
def Ends (s : EpollServer) (listenFd fd : Fd) (st : EpollState) (w : Option Watched) : Prop :=
  ∃ st', Runs.Run (step s listenFd) (Legal listenFd) st st' ∧ st'.pc = .idle ∧ st'.watched fd = w ∧
    Touches fd st st'

theorem Ends.step {s : EpollServer} {listenFd fd : Fd} {st st' : EpollState} {w : Option Watched}
    (call : EpollCall) (legal : st.Legal listenFd call) (took : st.step s listenFd call = some st')
    (touches : Touches fd st st') (ends : Ends s listenFd fd st' w) : Ends s listenFd fd st w := by
  obtain ⟨st'', run, idle, eq, rest⟩ := ends
  have first : Runs.Run (EpollState.step s listenFd) (Legal listenFd) st st' := .next .start legal took
  exact ⟨st'', first.trans run, idle, eq, touches.trans rest⟩

theorem Ends.idle {s : EpollServer} {listenFd fd : Fd} {st : EpollState} {w : Option Watched}
    (pc : st.pc = .idle) (eq : st.watched fd = w) : Ends s listenFd fd st w :=
  ⟨st, .start, pc, eq, ⟨fun _ _ => rfl, fun _ _ => rfl, rfl, .inr (by rw [pc]; rfl)⟩⟩

theorem watched_some {st : EpollState} {fd : Fd} {w : Watched} (conn : st.connections fd = some w.conn)
    (interest : st.registered fd = some w.interest) : st.watched fd = some w := by
  unfold watched
  rw [conn, interest]

theorem watched_none {st : EpollState} {fd : Fd} (conn : st.connections fd = none) : st.watched fd = none := by
  unfold watched
  rw [conn]

/-- `close_connection` leaves nothing. -/
theorem close_ends (s : EpollServer) (listenFd fd : Fd) (st : EpollState) :
    Ends s listenFd fd (st.closeConnection fd) none := by
  refine .step .delete trivial rfl ((touches_register rfl none).trans (touches_goto _ _ _)) ?_
  refine .step .erase trivial rfl
    ⟨fun x ne => Function.update_of_ne ne _ _, fun _ _ => rfl, rfl, .inr rfl⟩ ?_
  exact .idle rfl (watched_none (Function.update_self ..))

/-- The end of `handle_write`. -/
theorem finishWrite_ends {s : EpollServer} {st : EpollState} {fd : Fd} {c : EpollConnection} (listenFd : Fd)
    (conn : st.connections fd = some c) (written : ¬ c.writeOffset < c.writeBuffer.length) (l : EventLoop) :
    Ends s listenFd fd (st.handleWrite s fd) (s.finishWrite ⟨c, .epollout⟩ l).watched := by
  unfold handleWrite EpollServer.finishWrite
  rw [conn]
  dsimp only
  rw [if_neg written]
  split
  · exact close_ends s listenFd fd st
  · refine .step .modify trivial rfl
      ⟨fun _ _ => rfl, fun x ne => Function.update_of_ne ne _ _, rfl, .inr rfl⟩ ?_
    exact .idle rfl (watched_some (Function.update_self ..) (Function.update_self ..))

theorem handleWrite_touches (s : EpollServer) (st : EpollState) (fd : Fd) :
    Touches fd st (st.handleWrite s fd) := by
  unfold handleWrite
  split
  · exact touches_idle st fd
  · split
    · exact touches_goto _ _ _
    · split
      · exact touches_goto _ _ _
      · exact ⟨fun x ne => Function.update_of_ne ne _ _, fun _ _ => rfl, rfl, .inl rfl⟩

/-- A call of `send` that takes `n` bytes. -/
theorem sent_ends {s : EpollServer} {listenFd fd : Fd} {st : EpollState} {c : EpollConnection}
    {w : Option Watched} (n : Nat) (pc : st.pc = .client fd .writing) (conn : st.connections fd = some c)
    (rest : Ends s listenFd fd ((st.put fd { c with
      writeOffset := c.writeOffset + min n (c.writeBuffer.length - c.writeOffset) }).handleWrite s fd) w) :
    Ends s listenFd fd st w := by
  have put_ (c' : EpollConnection) : Touches fd st (st.put fd c') :=
    ⟨fun x ne => Function.update_of_ne ne _ _, fun _ _ => rfl, rfl, .inl (by rw [put, pc]; rfl)⟩
  refine .step (.send (.sent n)) trivial ?_ ((put_ _).trans (handleWrite_touches s _ fd)) rest
  simp only [EpollState.step, pc, conn, afterSend]

/-- **The write handler.** -/
theorem handleWrite_run (s : EpollServer) (listenFd : Fd) (sends : List SendOutcome) {st : EpollState} {fd : Fd}
    {c : EpollConnection} (l : EventLoop) (conn : st.connections fd = some c)
    (interest : st.registered fd = some .epollout) :
    Ends s listenFd fd (st.handleWrite s fd) (s.writeLoop ⟨c, .epollout⟩ l sends).watched := by
  induction sends generalizing st c l with
  | nil =>
    unfold EpollServer.writeLoop
    split
    · rename_i more
      change c.writeOffset < c.writeBuffer.length at more
      rw [show st.handleWrite s fd = st.goto fd .writing by simp only [handleWrite, conn, if_pos more]]
      refine sent_ends (c.writeBuffer.length - c.writeOffset) rfl conn ?_
      rw [Nat.min_self]
      refine finishWrite_ends listenFd (Function.update_self ..) ?_ _
      dsimp only
      omega
    · rename_i written
      exact finishWrite_ends listenFd conn written _
  | cons o sends ih =>
    unfold EpollServer.writeLoop
    split
    · rename_i more
      change c.writeOffset < c.writeBuffer.length at more
      rw [show st.handleWrite s fd = st.goto fd .writing by simp only [handleWrite, conn, if_pos more]]
      cases o with
      | sent n => exact sent_ends n rfl conn (ih _ (Function.update_self ..) interest)
      | interrupted =>
        have again := ih l conn interest
        rwa [show st.handleWrite s fd = st.goto fd .writing by simp only [handleWrite, conn, if_pos more]] at again
      | wouldBlock =>
        refine .step (.send .wouldBlock) trivial ?_ (touches_idle _ fd)
          (.idle rfl (watched_some conn interest))
        simp only [EpollState.step, goto, conn, afterSend]
      | failed =>
        refine .step (.send .failed) trivial ?_ (touches_goto _ _ _) (close_ends s listenFd fd _)
        simp only [EpollState.step, goto, conn, afterSend]
        rfl
      | broken =>
        refine .step (.send .broken) trivial ?_ (touches_goto _ _ _) (close_ends s listenFd fd _)
        simp only [EpollState.step, goto, conn, afterSend]
        rfl
    · rename_i written
      exact finishWrite_ends listenFd conn written _

/-- The clock and the router of the server itself. -/
def moment (s : EpollServer) : Moment := ⟨s.platform, s.router.getD fun _ => none⟩

theorem during_moment (s : EpollServer) : s.during (moment s) = s := by
  obtain ⟨router, enableKeepalive, maxRequestsPerConn, platform⟩ := s
  cases router <;> rfl

/-- A response is sent in the direction that the handler switches to. -/
theorem switch_ends {s : EpollServer} {st : EpollState} {fd : Fd} {c : EpollConnection} (listenFd : Fd)
    (sends : List SendOutcome) (l : EventLoop) (pc : st.pc = .client fd .switching)
    (conn : st.connections fd = some c) :
    Ends s listenFd fd st (s.writeLoop ⟨c, .epollout⟩ l sends).watched := by
  refine .step .modify trivial ?_ ((touches_register pc (some .epollout)).trans (handleWrite_touches s _ fd))
    (handleWrite_run s listenFd sends l conn (Function.update_self ..))
  simp only [EpollState.step, pc]

theorem recv_step {s : EpollServer} {st : EpollState} {fd : Fd} {c : EpollConnection} (listenFd : Fd)
    (pc : st.pc = .client fd .reading) (conn : st.connections fd = some c) (o : RecvOutcome) :
    st.step s listenFd (.recv o (moment s)) = st.afterRecv s fd c o := by
  simp only [EpollState.step, pc, conn, during_moment]

/-- **The read handler**, where no exception leaves the router. -/
theorem handleRead_run (s : EpollServer) (listenFd : Fd) (responds : ∀ req, s.respond req ≠ none)
    (recvs : List RecvOutcome) {st : EpollState} {fd : Fd} {c : EpollConnection} (l : EventLoop)
    (pc : st.pc = .client fd .reading) (conn : st.connections fd = some c)
    (interest : st.registered fd = some .epollin) :
    Ends s listenFd fd st (s.readLoop ⟨c, .epollin⟩ l recvs).watched := by
  induction recvs generalizing st c l with
  | nil =>
    exact .step (.recv .wouldBlock (moment s)) trivial (recv_step listenFd pc conn _) (touches_idle _ fd)
      (.idle rfl (watched_some conn interest))
  | cons o recvs ih =>
    cases o with
    | wouldBlock =>
      exact .step (.recv .wouldBlock (moment s)) trivial (recv_step listenFd pc conn _) (touches_idle _ fd)
        (.idle rfl (watched_some conn interest))
    | interrupted => exact ih l pc conn interest
    | failed =>
      exact .step (.recv .failed (moment s)) trivial (recv_step listenFd pc conn _) (touches_goto _ _ _)
        (close_ends s listenFd fd _)
    | data d =>
      simp only [EpollServer.readLoop]
      split
      · rename_i eof
        exact .step (.recv (.data d) (moment s)) trivial ((recv_step listenFd pc conn _).trans (if_pos eof))
          (touches_goto _ _ _) (close_ends s listenFd fd _)
      · rename_i more
        have step : st.step s listenFd (.recv (.data d) (moment s)) = st.received s fd c d :=
          (recv_step listenFd pc conn _).trans (if_neg more)
        have put_ (c' : EpollConnection) : Touches fd st (st.put fd c') :=
          ⟨fun x ne => Function.update_of_ne ne _ _, fun _ _ => rfl, rfl, .inl (by rw [put, pc]; rfl)⟩
        unfold EpollState.received at step
        obtain ⟨⟨parser, result⟩, fed⟩ : ∃ r, c.parser.feed d = r := ⟨_, rfl⟩
        rw [fed] at step ⊢
        cases result with
        | complete =>
          dsimp only at step ⊢
          cases routed : s.respond parser.getRequest.1 with
          | none => exact absurd routed (responds _)
          | some res =>
            rw [routed] at step
            exact .step (.recv (.data d) (moment s)) trivial step ((put_ _).trans (touches_goto _ _ _))
              (switch_ends listenFd _ _ rfl (Function.update_self ..))
        | error =>
          exact .step (.recv (.data d) (moment s)) trivial step ((put_ _).trans (touches_goto _ _ _))
            (switch_ends listenFd _ _ rfl (Function.update_self ..))
        | incomplete =>
          exact .step (.recv (.data d) (moment s)) trivial step (put_ _)
            (ih _ pc (Function.update_self ..) interest)

end EpollState

end HttpServer
