import HttpServer.Http.Client
import HttpServer.Server.Blocking
import HttpServer.Server.Epoll

/-!
# The Connection header

Both servers decide the header before they count the request, and whether to
close after it. The header is the truth on every run except where the last
permitted request asks to stay connected (`truthful_iff`): its response says
`keep-alive` and the connection is closed.
-/

namespace HttpServer

/-- The connection is closed as soon as the response is written. -/
def ClosesNext (t : List Event) : Prop := t.head? = some .closed

instance (t : List Event) : Decidable (ClosesNext t) := inferInstanceAs (Decidable (_ = _))

/-- The value of the response's Connection field. -/
def connectionField (r : Bytes) : Option Bytes := responseField (ascii "connection") r

/-- Behind every response the connection is closed if the response says so, and only then; it stays
open if the response says so, and only then. -/
def Truthful : List Event → Prop
  | [] => True
  | .responded r :: t =>
    (ClosesNext t ↔ connectionField r = some (ascii "close")) ∧
    (¬ ClosesNext t ↔ connectionField r = some (ascii "keep-alive")) ∧ Truthful t
  | _ :: t => Truthful t

/-- The last permitted request arrives, and it and those before it ask to stay connected. -/
def LastKept (P : Policy) (left : Nat) (qs : List Request) : Prop :=
  P.keepalive = true ∧ left ≤ qs.length ∧ ∀ q ∈ qs.take left, q.shouldKeepAlive = true

theorem keepAlive_ne_close : ascii "keep-alive" ≠ ascii "close" := by decide

theorem connectionField_serialize (w : Platform) (k : Nat) (r : Response) :
    connectionField (serialize w k r) = some (if r.keepAlive then ascii "keep-alive" else ascii "close") := by
  have := responseField_connection w k r []
  rwa [List.append_nil] at this

/-- A response tells the truth when it says `keep-alive` exactly where the connection stays open. -/
theorem truthful_response {w : Platform} {k : Nat} {r : Response} {t : List Event} :
    Truthful (.responded (serialize w k r) :: t) ↔ (r.keepAlive = true ↔ ¬ ClosesNext t) ∧ Truthful t := by
  have ne := keepAlive_ne_close
  rw [Truthful, connectionField_serialize]
  cases r.keepAlive <;> simp [ne, ne.symm]

theorem lastKept_cons {P : Policy} {left : Nat} {q : Request} {qs : List Request} :
    LastKept P (left + 1) (q :: qs) ↔ q.shouldKeepAlive = true ∧ LastKept P left qs := by
  simp only [LastKept, List.length_cons, Nat.add_le_add_iff_right, List.take_succ_cons, List.mem_cons,
    forall_eq_or_imp]
  tauto

/-- What a session shows next is not that it closes, when the client sends no end. -/
theorem play_open (P : Policy) (s : Session) {cs : List Bytes} (ne : ∀ c ∈ cs, c ≠ []) :
    ¬ ClosesNext (play P s cs) := by
  cases cs with
  | nil => simp [ClosesNext, play]
  | cons c cs => simp [ClosesNext, play, ne c (by simp)]

/-- A session tells the truth unless the last permitted request asks to stay connected. -/
theorem play_truthful (P : Policy) (left : Nat) (p : HttpParser) {k : Nat} {cs : List Bytes}
    (ne : ∀ c ∈ cs, c ≠ []) (limit : P.limit = k + left + 1) :
    Truthful (play P ⟨p, k⟩ cs) ↔ ¬ LastKept P (left + 1) (accepted p cs) := by
  induction cs generalizing p k left with
  | nil => simp [play, accepted, Truthful, LastKept]
  | cons c cs ih =>
    have rest : ∀ c ∈ cs, c ≠ [] := fun d hd => ne d (List.mem_cons_of_mem c hd)
    simp only [play, accepted, if_neg (ne c (by simp)), Truthful]
    cases (p.feed c).1.verdict with
    | incomplete => exact ih left (p.feed c).1 rest limit
    | error code =>
      unfold Policy.refusal
      rw [truthful_response]
      simp [ClosesNext, Truthful, LastKept]
    | complete q =>
      dsimp only
      rw [Policy.reply, truthful_response, lastKept_cons]
      have keeps : P.keeps q = true ↔ P.keepalive = true ∧ q.shouldKeepAlive = true := by
        simp [Policy.keeps]
      by_cases stay : P.keeps q = true
      · obtain ⟨alive, asks⟩ := keeps.1 stay
        cases left with
        | zero =>
          rw [if_neg (by omega)]
          simp [ClosesNext, Truthful, LastKept, stay, alive, asks]
        | succ left =>
          rw [if_pos ⟨stay, by omega⟩]
          have next := @ih left {} (k + 1) rest (by push_cast at limit ⊢; omega)
          simp only [stay, asks, true_and, play_open P _ rest, not_false_eq_true]
          exact next
      · rw [if_neg fun h => stay h.1]
        have off : ¬ (q.shouldKeepAlive = true ∧ LastKept P left (accepted {} cs)) :=
          fun h => stay (keeps.2 ⟨h.2.1, h.1⟩)
        simp [ClosesNext, Truthful, stay, off]

/-- **The Connection header is the truth** on a run of either server exactly when the last
permitted request, if it arrives, does not ask to stay connected. -/
theorem truthful_iff (P : Policy) (limit : 1 ≤ P.limit) {recvs : List RecvOutcome}
    {sends : List SendOutcome} (open_ : ∀ c ∈ chunks recvs, c ≠ []) :
    (SteadyReads recvs → SteadySends sends →
      (Truthful (visible (P.server.handleConnection recvs sends)) ↔
        ¬ LastKept P P.limit.toNat (accepted {} (chunks recvs)))) ∧
    (HealthyReads recvs → HealthySends sends →
      (Truthful (visible (P.epollServer.serve recvs sends)) ↔
        ¬ LastKept P P.limit.toNat (accepted {} (chunks recvs)))) := by
  obtain ⟨left, eq⟩ : ∃ left : Nat, P.limit.toNat = left + 1 := ⟨P.limit.toNat - 1, by omega⟩
  have session := @play_truthful P left {} 0 _ open_ (by omega)
  rw [eq]
  constructor
  · intro reads steady
    rw [(handleConnection_play P limit reads steady).visible]
    exact session
  · intro reads healthy
    rw [(EpollServer.serve_play P reads healthy).visible]
    exact session

theorem truthful_greeting :
    (Truthful (visible ((greeting 2).server.handleConnection [.data (ascii "GET / HTTP/1.1\r\n\r\n")] [])) ↔
      ¬ LastKept (greeting 2) 2 (accepted {} [ascii "GET / HTTP/1.1\r\n\r\n"])) ∧
    (Truthful (visible ((greeting 2).epollServer.serve [.data (ascii "GET / HTTP/1.1\r\n\r\n")] [])) ↔
      ¬ LastKept (greeting 2) 2 (accepted {} [ascii "GET / HTTP/1.1\r\n\r\n"])) := by
  obtain ⟨blocking, epoll⟩ := @truthful_iff (greeting 2) (by decide)
    [.data (ascii "GET / HTTP/1.1\r\n\r\n")] [] (by simp [ascii])
  exact ⟨blocking (by simp [SteadyReads]) (by simp [SteadySends]),
    epoll (by simp [HealthyReads]) (by simp [HealthySends])⟩

/-- With one permitted request the response says `keep-alive` and the connection is closed. -/
theorem last_response_lies :
    ¬ Truthful (visible ((greeting 1).server.handleConnection
      [.data (ascii "GET / HTTP/1.1\r\n\r\n")] [])) ∧
    ¬ Truthful (visible ((greeting 1).epollServer.serve
      [.data (ascii "GET / HTTP/1.1\r\n\r\n")] [])) := by
  have session := @play_truthful (greeting 1) 0 {} 0 [ascii "GET / HTTP/1.1\r\n\r\n"] (by decide) rfl
  have kept : LastKept (greeting 1) 1 (accepted {} [ascii "GET / HTTP/1.1\r\n\r\n"]) :=
    ⟨rfl, by decide +kernel, by decide +kernel⟩
  have blocking := @handleConnection_play (greeting 1) (by decide)
    [.data (ascii "GET / HTTP/1.1\r\n\r\n")] [] (by simp [SteadyReads]) (by simp [SteadySends])
  have epoll := @EpollServer.serve_play (greeting 1)
    [.data (ascii "GET / HTTP/1.1\r\n\r\n")] [] (by simp [HealthyReads]) (by simp [HealthySends])
  rw [blocking.visible, epoll.visible]
  exact ⟨fun h => session.1 h kept, fun h => session.1 h kept⟩

end HttpServer
