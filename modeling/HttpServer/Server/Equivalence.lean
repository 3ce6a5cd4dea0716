import HttpServer.Server.Blocking
import HttpServer.Server.Epoll

/-!
# The two servers agree

Both servers play the session of their policy, so for the same chunks they send
the same bytes and close at the same point.
-/

namespace HttpServer

/-- A connection whose client closes is closed. -/
theorem play_closes (P : Policy) (s : Session) (cs : List Bytes) :
    ∃ read, closePoint (play P s (cs ++ [[]])) = some read := by
  induction cs generalizing s with
  | nil => exact ⟨[[]], by simp [play, closePoint]⟩
  | cons c cs ih =>
    simp only [List.cons_append, play]
    by_cases eof : c = []
    · exact ⟨[[]], by simp [eof, closePoint]⟩
    · simp only [if_neg eof]
      cases (s.parser.feed c).1.verdict with
      | incomplete =>
        obtain ⟨read, closes⟩ := ih ⟨(s.parser.feed c).1, s.served⟩
        exact ⟨c :: read, by simp [closePoint, closes]⟩
      | error code => exact ⟨[c], by simp [closePoint]⟩
      | complete q =>
        dsimp only
        split
        · obtain ⟨read, closes⟩ := ih ⟨{}, s.served + 1⟩
          exact ⟨c :: read, by simp [closePoint, closes]⟩
        · exact ⟨[c], by simp [closePoint]⟩

/-- **The servers agree.** Whatever interrupts the event-driven server and however its writes are
cut, it sends what the blocking server sends and closes where that closes. -/
theorem servers_agree (P : Policy) (limit : 1 ≤ P.limit) (cs : List Bytes)
    {recvs : List RecvOutcome} {sends : List SendOutcome} (arrive : chunks recvs = cs ++ [[]])
    (reads : HealthyReads recvs) (healthy : HealthySends sends) :
    bytesSent (P.epollServer.serve recvs sends) =
      bytesSent (P.server.handleConnection ((cs ++ [[]]).map .data) []) ∧
    ∃ read, closePoint (P.epollServer.serve recvs sends) = some read ∧
      closePoint (P.server.handleConnection ((cs ++ [[]]).map .data) []) = some read := by
  have blocking := @handleConnection_play P limit _ [] (steadyReads_data (cs ++ [[]])) steadySends_nil
  have epoll := EpollServer.serve_play P reads healthy
  rw [chunks_map_data] at blocking
  rw [arrive] at epoll
  obtain ⟨read, closes⟩ := play_closes P {} cs
  refine ⟨by rw [epoll.bytes, blocking.bytes], read, ?_, ?_⟩
  · rw [← closePoint_visible, epoll.visible, closes]
  · rw [← closePoint_visible, blocking.visible, closes]

theorem servers_agree_greeting :
    bytesSent ((greeting 2).epollServer.serve
      [.interrupted, .data (ascii "GET / HTTP/1.1\r\n"), .wouldBlock, .data (ascii "\r\n"), .data []]
      [.sent 3, .wouldBlock, .interrupted]) =
    bytesSent ((greeting 2).server.handleConnection
      (([ascii "GET / HTTP/1.1\r\n", ascii "\r\n"] ++ [[]]).map .data) []) ∧
    ∃ read, closePoint ((greeting 2).epollServer.serve
      [.interrupted, .data (ascii "GET / HTTP/1.1\r\n"), .wouldBlock, .data (ascii "\r\n"), .data []]
      [.sent 3, .wouldBlock, .interrupted]) = some read ∧
    closePoint ((greeting 2).server.handleConnection
      (([ascii "GET / HTTP/1.1\r\n", ascii "\r\n"] ++ [[]]).map .data) []) = some read :=
  servers_agree (greeting 2) (by decide) [ascii "GET / HTTP/1.1\r\n", ascii "\r\n"] rfl
    (by simp [HealthyReads]) (by simp [HealthySends])

end HttpServer
