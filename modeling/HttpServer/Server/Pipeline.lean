import HttpServer.Server.Blocking

/-!
# Requests on a persistent connection

`reset()` empties the parser's buffer before every request, so bytes that
arrived behind a request in the same read are lost. When every chunk lies inside
one request, and none ends at a limit cut, every request is answered in order
(`responses_eq`).
-/

namespace HttpServer

open HttpParser

/-- The chunks cut the message, none is empty and none ends at a limit cut. -/
structure Cut (m : Message) (cs : List Bytes) : Prop where
  text : cs.flatten = m.text
  nonempty : ∀ c ∈ cs, c ≠ []
  noLimit : ∀ front back, cs = front ++ back → ¬ LimitCut front.flatten back.flatten

/-- A proper part of a message is incomplete, unless it ends at a limit cut. -/
theorem feed_part {m : Message} (w : m.WellFormed) {s t : Bytes} (text : s ++ t = m.text) (ne : t ≠ [])
    (no : ¬ LimitCut s t) : (({} : HttpParser).feed s).1.verdict = .incomplete := by
  have whole : (({} : HttpParser).feed (s ++ t)).1.verdict = .complete m.request := by
    rw [text, ← List.append_nil m.text, Message.feed w []]
    rfl
  have split := feed_split reads_fresh fresh_running s t (by simpa using no)
  rw [whole] at split
  by_cases more : (({} : HttpParser).feed s).1.Running
  · exact verdict_incomplete.2 more
  · exfalso
    rw [feed_done more] at split
    have done : (({} : HttpParser).feed s).1.state = .complete := (verdict_complete.1 split).1
    obtain ⟨m', rest, w', eq⟩ := message_of_complete done
    -- the shorter message would leave the rest in the buffer
    have here := Message.feed w' (rest ++ t)
    rw [← List.append_assoc, ← eq, text, ← List.append_nil m.text, Message.feed w []] at here
    have left := congrArg HttpParser.buffer here
    simp only [Head.parser] at left
    exact ne (List.append_eq_nil_iff.1 left.symm).2

/-- Chunks that leave the parser open at every cut and finish it at the end bring the request. -/
theorem brings_of_feedAll {q : Request} {cs : List Bytes} {p : HttpParser} (ne : cs ≠ [])
    (nonempty : ∀ c ∈ cs, c ≠ [])
    (open_ : ∀ front back, cs = front ++ back → front ≠ [] → back ≠ [] →
      (p.feedAll front).1.verdict = .incomplete)
    (done : (p.feedAll cs).1.verdict = .complete q) : Brings p cs q := by
  induction cs generalizing p with
  | nil => exact absurd rfl ne
  | cons c cs ih =>
    have first := nonempty c (by simp)
    cases cs with
    | nil => exact .last first done
    | cons d cs =>
      rw [feedAll_cons] at done
      refine .more first (open_ [c] (d :: cs) rfl (by simp) (by simp)) (ih (by simp) ?_ ?_ done)
      · intro e he
        exact nonempty e (List.mem_cons_of_mem c he)
      · intro front back eq _ back_ne
        rw [← feedAll_cons]
        exact open_ (c :: front) back (by rw [eq]; rfl) (by simp) back_ne

theorem flatten_ne_nil {cs : List Bytes} (ne : cs ≠ []) (nonempty : ∀ c ∈ cs, c ≠ []) :
    cs.flatten ≠ [] := by
  cases cs with
  | nil => exact absurd rfl ne
  | cons c cs => simp [nonempty c (by simp)]

theorem Message.text_ne_nil (m : Message) : m.text ≠ [] := by
  simp [Message.text, Head.text, crlf]

/-- A message in one read. -/
theorem Cut.single (m : Message) : Cut m [m.text] where
  text := by simp
  nonempty c hc := by
    rw [List.mem_singleton.1 hc]
    exact m.text_ne_nil
  noLimit front back eq limit := by
    cases front with
    | nil => exact limit.front_ne_nil rfl
    | cons c front =>
      rw [List.cons_append, List.cons.injEq] at eq
      have last := (List.append_eq_nil_iff.1 eq.2.symm).2
      subst last
      exact limit.ne_nil rfl

/-- A cut message is brought to the parser. -/
theorem Cut.brings {m : Message} {cs : List Bytes} (w : m.WellFormed) (cut : Cut m cs) :
    Brings {} cs m.request := by
  have ne : cs ≠ [] := by
    rintro rfl
    exact m.text_ne_nil cut.text.symm
  apply brings_of_feedAll ne cut.nonempty
  · intro front back eq _ back_ne
    have inside : ∀ x y, front = x ++ y → ¬ LimitCut x.flatten y.flatten := by
      intro x y split limit
      refine cut.noLimit x (y ++ back) (by rw [eq, split, List.append_assoc]) ?_
      rw [List.flatten_append]
      exact limit.extend back.flatten
    rw [feedAll_fresh inside]
    refine feed_part w ?_ (flatten_ne_nil back_ne fun c hc => cut.nonempty c ?_) (cut.noLimit front back eq)
    · rw [← List.flatten_append, ← eq, cut.text]
    · rw [eq]
      exact List.mem_append_right front hc
  · rw [feedAll_fresh cut.noLimit, cut.text, ← List.append_nil m.text, Message.feed w []]
    rfl

/-- Response number `k` when the connection stays open. -/
def Policy.kept (P : Policy) (k : Nat) (q : Request) : Bytes :=
  serialize P.platform k { P.answer q with keepAlive := true }

/-- The request arrives cut into the chunks, asks to stay connected and is well-formed. -/
structure Sent (m : Message) (cs : List Bytes) : Prop where
  wellFormed : m.WellFormed
  keepAlive : m.request.shouldKeepAlive = true
  cut : Cut m cs

/-- The session answers the requests that were sent. -/
theorem play_sent (P : Policy) (keepalive : P.keepalive = true) (ms : List (Message × List Bytes))
    (sent : ∀ m ∈ ms, Sent m.1 m.2) (within : (ms.length : Int) ≤ P.limit) :
    responses (play P {} (ms.map Prod.snd).flatten) = ms.mapIdx fun k m => P.kept k m.1.request := by
  have kept : ∀ m ∈ ms, P.keeps m.1.request = true := by
    intro m hm
    simp [Policy.keeps, keepalive, (sent m hm).keepAlive]
  have answered := @play_requests P (ms.map fun m => (m.2, m.1.request)) 0
    (by
      intro m hm
      obtain ⟨m', hm', rfl⟩ := List.mem_map.1 hm
      exact (sent m' hm').cut.brings (sent m' hm').wellFormed)
    (by
      intro m hm
      obtain ⟨m', hm', rfl⟩ := List.mem_map.1 (List.dropLast_subset _ hm)
      exact kept m' hm')
    (by simpa using within)
  have fronts : (ms.map fun m => (m.2, m.1.request)).map Prod.fst = ms.map Prod.snd := by simp
  rw [fronts] at answered
  apply answered.trans
  apply List.ext_getElem?
  intro i
  simp only [List.getElem?_mapIdx, List.getElem?_map, Option.map_map, Nat.zero_add]
  cases at_ : ms[i]? with
  | none => rw [Option.map_none, Option.map_none]
  | some m => simp [Policy.reply, Policy.kept, kept m (List.mem_of_getElem? at_)]

/-- A connection without a permitted request is closed at once. -/
theorem handleConnection_zero (P : Policy) (limit : P.limit < 1) (recvs : List RecvOutcome)
    (sends : List SendOutcome) : P.server.handleConnection recvs sends = [.closed] := by
  have zero : P.server.config.maxRequestsPerConn.toNat = 0 := by
    change P.limit.toNat = 0
    omega
  simp [Server.handleConnection, zero, Server.connectionLoop]

/-- **No request is lost** when every chunk lies inside one request and none ends at a limit cut:
the responses are those to the requests, in order, and nothing else is sent. -/
theorem responses_eq (P : Policy) (keepalive : P.keepalive = true) (ms : List (Message × List Bytes))
    (sent : ∀ m ∈ ms, Sent m.1 m.2) (within : (ms.length : Int) ≤ P.limit) :
    let t := P.server.handleConnection ((ms.map Prod.snd).flatten.map .data) []
    responses t = ms.mapIdx (fun k m => P.kept k m.1.request) ∧
    bytesSent t = (responses t).flatten := by
  intro t
  rcases lt_or_ge P.limit 1 with none_ | limit
  · have empty : ms = [] := List.eq_nil_of_length_eq_zero (by omega)
    have nothing : t = [.closed] := handleConnection_zero P none_ _ _
    rw [nothing, empty]
    exact ⟨rfl, rfl⟩
  · have played : Delivers t (play P {} (chunks ((ms.map Prod.snd).flatten.map .data))) :=
      handleConnection_play P limit (steadyReads_data _) steadySends_nil
    rw [chunks_map_data] at played
    have same : responses t = responses (play P {} (ms.map Prod.snd).flatten) := by
      rw [← responses_visible, played.visible]
    rw [played.bytes, same]
    exact ⟨play_sent P keepalive ms sent within, rfl⟩

/-- What arrives behind a request in the same read is ignored. -/
theorem surplus_ignored (P : Policy) {p : HttpParser} {c : Bytes} {q : Request} (run : p.Running)
    (ne : c ≠ []) (done : (p.feed c).1.verdict = .complete q) (surplus : Bytes) (k : Nat)
    (cs : List Bytes) :
    responses (play P ⟨p, k⟩ ((c ++ surplus) :: cs)) = responses (play P ⟨p, k⟩ (c :: cs)) := by
  have more : (p.feed (c ++ surplus)).1.verdict = .complete q := by
    obtain ⟨r, steps, ends⟩ := feed_run run c
    have settles := ends.settles
    rw [done] at settles
    cases settles with
    | complete st =>
      have longer : Steps (p.append (c ++ surplus)) (r.append surplus) := by
        rw [← append_append]
        exact steps.append surplus
      exact verdict_of_steps run longer (.complete st)
  simp [play, ne, done, more]

/-- `GET / HTTP/1.1` without header lines. -/
def getRoot : Message where
  method := ascii "GET"
  target := ascii "/"
  fields := []
  body := []

theorem getRoot_wellFormed : getRoot.WellFormed where
  method := by decide
  slash := rfl
  noSpace := by decide
  lineClean := by decide
  lineShort := by decide
  few := Nat.zero_le _
  fields := by simp [getRoot]
  total := Nat.zero_le _
  small := by decide
  length := by decide
  declared := fun h => absurd h (by decide)

theorem getRoot_sent : Sent getRoot [getRoot.text] :=
  ⟨getRoot_wellFormed, by decide, .single getRoot⟩

theorem responses_getRoot :
    let t := (greeting 2).server.handleConnection
      ((([(getRoot, [getRoot.text]), (getRoot, [getRoot.text])]).map Prod.snd).flatten.map .data) []
    responses t = [(getRoot, [getRoot.text]), (getRoot, [getRoot.text])].mapIdx
      (fun k m => (greeting 2).kept k m.1.request) ∧
    bytesSent t = (responses t).flatten :=
  responses_eq (greeting 2) rfl [(getRoot, [getRoot.text]), (getRoot, [getRoot.text])]
    (by simp [getRoot_sent]) (by decide)

-- the converse fails: the end of a message can be a request that is answered alike
example :
    let echoed := { getRoot with fields := [ascii "X:GET / HTTP/1.1", ascii "X:a"] }
    let read := [getRoot.text ++ ascii "GET / HTTP/1.1\r\nX:", ascii "GET / HTTP/1.1\r\nX:a\r\n\r\n"]
    read.flatten = getRoot.text ++ echoed.text ∧
    responses ((greeting 2).server.handleConnection (read.map .data) []) =
      [getRoot, echoed].mapIdx fun k m => (greeting 2).kept k m.request := by
  decide +kernel

/-- Two requests in one read get one response. -/
theorem pipelined_request_lost :
    getRoot.WellFormed ∧ getRoot.request.shouldKeepAlive = true ∧
    (responses ((greeting 1000).server.handleConnection
      [.data (getRoot.text ++ getRoot.text)] [])).length = 1 ∧
    responses ((greeting 1000).server.handleConnection [.data (getRoot.text ++ getRoot.text)] []) ≠
      [getRoot, getRoot].mapIdx fun k m => (greeting 1000).kept k m.request := by
  have one : (responses ((greeting 1000).server.handleConnection
      [.data (getRoot.text ++ getRoot.text)] [])).length = 1 := by decide +kernel
  refine ⟨getRoot_wellFormed, by decide, one, fun two => ?_⟩
  rw [two] at one
  simp at one

end HttpServer
