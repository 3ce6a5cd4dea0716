import HttpServer.Http.Patience
import HttpServer.Server.Multiplex
import HttpServer.Server.Service

/-!
# How much a server reads from one client

Neither server reads from a client for ever: a request is answered or refused
after `patience` bytes at the latest, the rest of its last chunk is dropped, and
at most `limit` requests are answered. Of a dialogue this is an invariant that
relates the stage to the chunks that have arrived (`Intake`), for any weight of
chunks that the bytes in them bound: once the weight is the number of bytes, once
every chunk weighs 1 (`reach_intake`).
-/

namespace HttpServer

open Runs HttpParser

/-- What the chunks that have arrived weigh together. -/
def intake (weigh : Bytes → Nat) (log : List Event) : Nat := ((arrived log).map weigh).sum

section

variable {P : Policy} {weigh : Bytes → Nat} {most : Nat} {d d' : Dialogue}

/-- The weight that a stage allows, when a single chunk weighs at most `most`. -/
def Stage.Allows (P : Policy) (most total : Nat) : Stage → Prop
  | .reading parser served => (served : Int) < P.limit ∧
      ∃ a, Reads parser a ∧ Waits parser ∧ total ≤ served * (patience + most) + a.length
  | .writing _ _ (some served) => (served : Int) < P.limit ∧ total ≤ served * (patience + most)
  | .writing _ _ none | .ending | .ended => total ≤ P.limit.toNat * (patience + most)

/-- One more request is within the limit. -/
theorem request_within {served total : Nat} (open_ : (served : Int) < P.limit)
    (less : total ≤ (served + 1) * (patience + most)) : total ≤ P.limit.toNat * (patience + most) := by
  have room : served + 1 ≤ P.limit.toNat := by omega
  exact less.trans (Nat.mul_le_mul_right _ room)

/-- While nothing new arrives the weight stays within the whole limit. -/
theorem allows_any {total : Nat} {stage : Stage} (h : stage.Allows P most total) :
    total ≤ P.limit.toNat * (patience + most) := by
  cases stage with
  | reading parser served =>
    obtain ⟨open_, a, reads, waits, less⟩ := h
    have patient := reads.patient waits
    refine request_within open_ ?_
    rw [Nat.add_one_mul]
    omega
  | writing data written next =>
    cases next with
    | none => exact h
    | some served =>
      obtain ⟨open_, less⟩ := h
      refine request_within open_ ?_
      rw [Nat.add_one_mul]
      omega
  | ending => exact h
  | ended => exact h

/-- A chunk is added to a request that is still incomplete, or it is the last one that is read for the request. -/
theorem heard_allows {parser : HttpParser} {served total : Nat} {c : Bytes}
    (h : (Stage.reading parser served).Allows P most total) (light : c ≠ [] → weigh c ≤ c.length)
    (single : weigh c ≤ most) : (P.heard parser served c).Allows P most (total + weigh c) := by
  obtain ⟨open_, a, reads, waits, less⟩ := h
  have patient := reads.patient waits
  have last : total + weigh c ≤ (served + 1) * (patience + most) := by
    rw [Nat.add_one_mul]
    omega
  unfold Policy.heard
  split
  · exact request_within open_ last
  · rename_i more
    cases verdict : (parser.feed c).1.verdict with
    | incomplete =>
      obtain ⟨waits', reads'⟩ := reads.feed waits.running c (verdict_incomplete.1 verdict)
      refine ⟨open_, a ++ c, reads', waits', ?_⟩
      have := light more
      rw [List.length_append]
      omega
    | error code => exact request_within open_ last
    | complete q =>
      dsimp only [Policy.next]
      split
      · rename_i go
        have room := go.2
        exact ⟨by push_cast; omega, last⟩
      · exact request_within open_ last

theorem behind_allows {data : Bytes} {written total : Nat} {next : Option Nat}
    (h : (Stage.writing data written next).Allows P most total) : (Stage.behind next).Allows P most total := by
  cases next with
  | none => exact h
  | some served => exact ⟨h.1, [], reads_fresh, waits_fresh, h.2⟩

/-- The stage allows what has arrived, unless a chunk is heavier than the buffer allows. -/
def Dialogue.Intake (P : Policy) (weigh : Bytes → Nat) (most : Nat) (d : Dialogue) : Prop :=
  (∀ c ∈ arrived d.log, weigh c ≤ most) → d.stage.Allows P most (intake weigh d.log)

namespace Dialogue

theorem intake_step (light : ∀ c, c ≠ [] → weigh c ≤ c.length) (inv : Intake P weigh most d) (moves : Moves P d d') :
    Intake P weigh most d' := by
  intro single
  cases moves with
  | @receive parser served stage c =>
    have before : ∀ c ∈ arrived d.log, weigh c ≤ most := fun c mem => single c (by simp [mem])
    have allows := inv before
    rw [stage] at allows
    have weight : intake weigh (d.log ++ [.received c]) = intake weigh d.log + weigh c := by
      simp [intake, arrived]
    dsimp only
    rw [weight]
    exact heard_allows allows (light c) (single c (by simp [arrived]))
  | @part data written next stage n more =>
    have same : arrived (d.log ++ [.sent ((data.drop written).take n)]) = arrived d.log := by simp [arrived]
    dsimp only [intake] at single ⊢
    rw [same] at single ⊢
    have allows := inv single
    rw [stage] at allows
    cases next with
    | none => exact allows
    | some served => exact allows
  | @rest data written next stage =>
    have same : arrived (d.log ++ [.sent (data.drop written), .responded data]) = arrived d.log := by simp [arrived]
    dsimp only [intake] at single ⊢
    rw [same] at single ⊢
    have allows := inv single
    rw [stage] at allows
    exact behind_allows allows
  | fail going => exact allows_any (inv single)
  | close stage =>
    have same : arrived (d.log ++ [.closed]) = arrived d.log := by simp [arrived]
    dsimp only [intake] at single ⊢
    rw [same] at single ⊢
    exact allows_any (inv single)

/-- What weighs no more than its bytes is bounded over the whole dialogue. -/
theorem reach_intake (limit : 1 ≤ P.limit) (light : ∀ c, c ≠ [] → weigh c ≤ c.length) (run : Reach (step P) {} d)
    (single : ∀ c ∈ arrived d.log, weigh c ≤ most) : intake weigh d.log ≤ P.limit.toNat * (patience + most) := by
  have start : Intake P weigh most {} := fun _ => ⟨limit, [], reads_fresh, waits_fresh, Nat.zero_le _⟩
  have inv : Intake P weigh most d := run.invariant start fun d e d' inv _ took =>
    intake_step light inv (step_moves took)
  exact allows_any (inv single)

/-- At most `bytes` bytes have arrived, in at most `calls` chunks, the end of the input included. -/
structure Frugal (bytes calls : Nat) (log : List Event) : Prop where
  bytes : (arrived log).flatten.length ≤ bytes
  calls : (arrived log).length ≤ calls

theorem reach_frugal (limit : 1 ≤ P.limit) (run : Reach (step P) {} d) {buffer : Nat}
    (short : ∀ c ∈ arrived d.log, c.length ≤ buffer) :
    Frugal (P.limit.toNat * (patience + buffer)) (P.limit.toNat * (patience + 1)) d.log where
  bytes := by
    have bound := @reach_intake P List.length buffer d limit (fun _ _ => Nat.le_refl _) run short
    rwa [intake, ← List.length_flatten] at bound
  calls := by
    have bound := @reach_intake P (fun _ => 1) 1 d limit (fun _ more => List.length_pos_of_ne_nil more) run
      fun _ _ => Nat.le_refl _
    simpa [intake] using bound

end Dialogue

end

/-! ## Both servers -/

/-- **A client cannot keep a server reading**, whatever the scheduler and the other clients do: over the whole
life of a connection the event loop, and the program with its threads, read at most 1126403 bytes for each of the
`limit` requests, in at most 1122308 chunks, the end of the input included. -/
theorem read_bounded (P : Policy) (limit : 1 ≤ P.limit) :
    (∀ listenFd st notes, EpollState.Serving P listenFd (st, notes) → ∀ fd m, notes fd = some m →
      (∀ c ∈ arrived m.log, c.length ≤ 4096) →
      Dialogue.Frugal (P.limit.toNat * 1126403) (P.limit.toNat * 1122308) m.log) ∧
    (∀ n maxQueueSize (p : Program n) notes, Program.Serving P n maxQueueSize (p, notes) →
      ∀ j m, notes j = some m → (∀ c ∈ arrived m.log, c.length ≤ 4096) →
      Dialogue.Frugal (P.limit.toNat * 1126403) (P.limit.toNat * 1122308) m.log) := by
  constructor
  · intro listenFd st notes run fd m known short
    have seen : EpollState.view P fd (st, notes) = some (m.dialogue (st.stage P fd)) := congrArg (Option.map _) known
    exact Dialogue.reach_frugal limit (EpollState.serving_dialogue run fd seen) short
  · intro n maxQueueSize p notes run j m known short
    have seen : Program.view P j (p, notes) = some (m.dialogue ((p.connections j).stage P)) :=
      congrArg (Option.map _) known
    by_cases refused : p.pool.enqueues j = .returned false
    · -- Nothing is read from a client that is turned away.
      obtain ⟨_, rfl, reached⟩ := Program.serving_dialogue limit run (b := true) (j := j)
        ((if_pos (decide_eq_true refused)).trans seen)
      have silent : arrived m.log = [] := (Program.reach_sends reached).silent
      constructor <;> rw [silent] <;> exact Nat.zero_le _
    · obtain ⟨_, rfl, reached⟩ := Program.serving_dialogue limit run (b := false) (j := j)
        ((if_pos (decide_eq_false refused)).trans seen)
      exact Dialogue.reach_frugal limit reached short

set_option maxRecDepth 4000 in
/-- An empty line read by the event loop, and by a worker while another client is turned away. -/
theorem read_bounded_line : ∃ st notes m, EpollState.Serving (greeting 2) 3 (st, notes) ∧ notes 5 = some m ∧
    arrived m.log = [[13], [10]] ∧ Dialogue.Frugal 2252806 2244616 m.log ∧
    ∃ (p : Program 1) (notes' : Program.Notes) (m' : Minutes), Program.Serving (greeting 2) 1 1 (p, notes') ∧
      notes' 0 = some m' ∧ arrived m'.log = [[13], [10]] ∧ Dialogue.Frugal 2252806 2244616 m'.log := by
  obtain ⟨⟨st, notes⟩, m, ran, known, line⟩ : ∃ s m,
      exec (fun s call => noted (EpollState.step (greeting 2).epollServer 3) (EpollState.note 3) s
          (EpollState.fixed (greeting 2) call))
        (fun s call => decide (s.1.Legal 3 (EpollState.fixed (greeting 2) call))) ({}, fun _ => none)
        [.wait [{ fd := 3, input := true }], .next, .accept (some 5), .add true, .insert, .accept none,
          .wait [{ fd := 5, input := true }], .next, .recv (.data [13]) ⟨.still, fun _ => none⟩,
          .recv (.data [10]) ⟨.still, fun _ => none⟩] = some s ∧
      s.2 5 = some m ∧ arrived m.log = [[13], [10]] :=
    ⟨_, _, rfl, rfl, rfl⟩
  obtain ⟨⟨p, notes'⟩, m', ran', known', line'⟩ : ∃ s m',
      exec (fun s act => noted (Program.step (greeting 2).server.config) Program.note s
          (Program.fixed (greeting 2) act)) (fun _ _ => true)
        (Program.main 1 1, fun _ => none) (Program.twoClients 0 ⟨.still, fun _ => none⟩) = some s ∧
      s.2 0 = some m' ∧ arrived m'.log = [[13], [10]] :=
    ⟨_, _, rfl, rfl, rfl⟩
  have run : EpollState.Serving (greeting 2) 3 (st, notes) :=
    (exec_run ran).simulate (f := id) (g := fun _ call => EpollState.fixed (greeting 2) call)
      fun _ _ _ legal took => ⟨⟨of_decide_eq_true legal, EpollState.fixed_fixed _ _⟩, took⟩
  have run' : Program.Serving (greeting 2) 1 1 (p, notes') :=
    (exec_run ran').simulate (f := id) (g := fun _ act => Program.fixed (greeting 2) act)
      fun _ _ _ _ took => ⟨Program.fixed_fixed _ _, took⟩
  obtain ⟨loop, threads⟩ := read_bounded (greeting 2) (by decide)
  exact ⟨st, notes, m, run, known, line, loop 3 st notes run 5 m known (by rw [line]; decide),
    p, notes', m', run', known', line', threads 1 1 p notes' run' 0 m' known' (by rw [line']; decide)⟩

end HttpServer
