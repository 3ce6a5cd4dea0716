import HttpServer.Lib.Custody
import HttpServer.Lib.Runs

/-!
# Sockets and their descriptors

`Socket` owns a descriptor, or none, which is written -1. The objects of a
program are constructed, moved, closed and destroyed in any order. Every such
step is a sequence of moves of descriptors in custody (`step_moves`), so that no
descriptor has two owners and each is closed once (`one_owner`).
-/

namespace HttpServer

namespace Descriptors

open Custody

structure Socket where
  fd : Int := -1
  deriving DecidableEq

namespace Socket

def isValid (s : Socket) : Bool := s.fd != -1

/-- `close()`: the object behind it, and the arguments of `::close`. -/
def close (s : Socket) : Socket × List Int :=
  if s.isValid then ({ fd := -1 }, [s.fd]) else (s, [])

/-- `std::exchange(other.fd_, -1)`: its result, and the other object behind it. -/
def exchange (other : Socket) : Int × Socket := (other.fd, { fd := -1 })

end Socket

/-- The objects that live, the descriptors that were obtained, and the calls of `::close`. -/
structure State where
  objects : Nat → Option Socket := fun _ => none
  adopted : List Int := []
  closed : List Int := []

inductive Action where
  /-- `Socket()`. -/
  | construct (x : Nat)
  /-- `Socket(fd)` with the result of `::socket` or `::accept`. -/
  | adopt (x : Nat) (fd : Int)
  /-- `Socket x(std::move(y))`. -/
  | moveConstruct (x y : Nat)
  /-- `x = std::move(y)`. -/
  | moveAssign (x y : Nat)
  | close (x : Nat)
  | destroy (x : Nat)

namespace State

def set (s : State) (x : Nat) (o : Option Socket) : State :=
  { s with objects := Function.update s.objects x o }

/-- One operation on the objects; a descriptor that is adopted is a new one, or -1. -/
def step (s : State) : Action → Option State
  | .construct x =>
    match s.objects x with
    | none => some (s.set x (some {}))
    | some _ => none
  | .adopt x fd =>
    match s.objects x with
    | none =>
      if fd = -1 then some (s.set x (some { fd }))
      else if fd ∈ s.adopted then none
      else some { s.set x (some { fd }) with adopted := s.adopted ++ [fd] }
    | some _ => none
  | .moveConstruct x y =>
    match s.objects x, s.objects y with
    | none, some other =>
      let (fd, other) := other.exchange
      some ((s.set y (some other)).set x (some { fd }))
    | _, _ => none
  | .moveAssign x y =>
    match s.objects x, s.objects y with
    | some self, some other =>
      if x ≠ y then
        let (_, closed) := self.close
        let (fd, other) := other.exchange
        some { (s.set y (some other)).set x (some { fd }) with closed := s.closed ++ closed }
      else some s
    | _, _ => none
  | .close x =>
    match s.objects x with
    | some self =>
      let (self, closed) := self.close
      some { s.set x (some self) with closed := s.closed ++ closed }
    | none => none
  | .destroy x =>
    match s.objects x with
    | some self => some { s.set x none with closed := s.closed ++ self.close.2 }
    | none => none

/-- The object lives and holds the descriptor. -/
def Holds (s : State) (x : Nat) (fd : Int) : Prop := s.objects x = some { fd } ∧ fd ≠ -1

/-- Who holds which descriptor. -/
def custody (s : State) : Custody.State Nat Int := ⟨s.Holds, s.adopted, s.closed⟩

end State

/-! ## One object is changed -/

/-- What an object holds. -/
def Owns (o : Option Socket) (fd : Int) : Prop := o = some { fd } ∧ fd ≠ -1

/-- An object that holds nothing, or none at all. -/
def Vacant (o : Option Socket) : Prop := ∀ fd, ¬ Owns o fd

theorem vacant_none : Vacant none := by
  rintro fd ⟨eq, -⟩
  cases eq

theorem vacant_invalid : Vacant (some { fd := -1 }) := by
  rintro fd ⟨eq, ne⟩
  cases eq
  exact ne rfl

theorem vacant_of_invalid {a : Socket} (h : a.isValid = false) : Vacant (some a) := by
  have eq : a.fd = -1 := by simpa [Socket.isValid] using h
  obtain ⟨fd⟩ := a
  subst eq
  exact vacant_invalid

theorem owns_some {a : Socket} (h : a.isValid = true) (fd : Int) : Owns (some a) fd ↔ fd = a.fd := by
  have ne : a.fd ≠ -1 := by simpa [Socket.isValid] using h
  constructor
  · rintro ⟨eq, -⟩
    cases eq
    rfl
  · rintro rfl
    exact ⟨rfl, ne⟩

namespace State

theorem holds_set (s : State) (x : Nat) (o : Option Socket) (z : Nat) (fd : Int) :
    (s.set x o).Holds z fd ↔ if z = x then Owns o fd else s.Holds z fd := by
  change Function.update s.objects x o z = some { fd } ∧ fd ≠ -1 ↔ _
  by_cases eq : z = x
  · subst eq
    rw [if_pos rfl, Function.update_self]
    rfl
  · rw [if_neg eq, Function.update_of_ne eq]
    rfl

theorem custody_eq {s : State} {holds : Nat → Int → Prop} (same : ∀ z fd, s.Holds z fd ↔ holds z fd) :
    s.custody = ⟨holds, s.adopted, s.closed⟩ :=
  Custody.State.ext (funext fun z => funext fun fd => propext (same z fd)) rfl rfl

/-- An empty object is replaced by one. -/
theorem set_vacant {s : State} {x : Nat} {o : Option Socket} (before : Vacant (s.objects x)) (after : Vacant o) :
    (s.set x o).custody = s.custody := by
  refine custody_eq fun z fd => ?_
  rw [holds_set]
  split
  · rename_i eq
    subst eq
    exact iff_of_false (after fd) (before fd)
  · rfl

/-- An empty object is given a new descriptor. -/
theorem adopt_moves {s : State} {x : Nat} {fd : Int} (before : Vacant (s.objects x)) (ne : fd ≠ -1)
    (fresh : fd ∉ s.adopted) :
    Moves s.custody { s.set x (some { fd }) with adopted := s.adopted ++ [fd] }.custody := by
  suffices same : { s.set x (some { fd }) with adopted := s.adopted ++ [fd] }.custody =
      ⟨fun z e => s.Holds z e ∨ z = x ∧ e = fd, s.adopted ++ [fd], s.closed⟩ by
    rw [same]
    exact .single (.acquire fresh)
  refine custody_eq fun z e => (s.holds_set x (some { fd }) z e).trans ?_
  rw [owns_some (by simpa [Socket.isValid] using ne)]
  split
  · rename_i eq
    subst eq
    refine ⟨fun eq => .inr ⟨rfl, eq⟩, ?_⟩
    rintro (owns | ⟨-, eq⟩)
    · exact (before e owns).elim
    · exact eq
  · rename_i off
    refine ⟨.inl, ?_⟩
    rintro (owns | ⟨eq, -⟩)
    · exact owns
    · exact (off eq).elim

/-- What an object holds is closed, and the object becomes empty or is gone. -/
theorem close_moves {s : State} {x : Nat} {a : Socket} {o : Option Socket} (mine : s.objects x = some a)
    (after : Vacant o) : Moves s.custody { s.set x o with closed := s.closed ++ a.close.2 }.custody := by
  have holds (z : Nat) (fd : Int) : ({ s.set x o with closed := s.closed ++ a.close.2 } : State).Holds z fd ↔
      if z = x then Owns o fd else s.Holds z fd := s.holds_set x o z fd
  cases valid : a.isValid with
  | false =>
    have closed : a.close.2 = [] := by rw [Socket.close, valid, if_neg Bool.false_ne_true]
    have same : { s.set x o with closed := s.closed ++ a.close.2 }.custody = s.custody := by
      rw [closed, List.append_nil]
      exact set_vacant (by rw [mine]; exact vacant_of_invalid valid) after
    rw [same]
  | true =>
    have closed : a.close.2 = [a.fd] := by rw [Socket.close, valid, if_pos rfl]
    have held : s.custody.holds x a.fd := by
      change Owns (s.objects x) a.fd
      rw [mine, owns_some valid]
    suffices same : { s.set x o with closed := s.closed ++ a.close.2 }.custody =
        ⟨fun z fd => s.Holds z fd ∧ ¬ (z = x ∧ fd = a.fd), s.adopted, s.closed ++ [a.fd]⟩ by
      rw [same]
      exact .single (.release held)
    rw [closed] at holds ⊢
    refine custody_eq fun z fd => (holds z fd).trans ?_
    split
    · rename_i eq
      subst eq
      refine iff_of_false (after fd) (fun other => other.2 ⟨rfl, ?_⟩)
      have owns : Owns (s.objects z) fd := other.1
      rwa [mine, owns_some valid] at owns
    · rename_i ne
      exact ⟨fun h => ⟨h, fun same => ne same.1⟩, And.left⟩

/-- An empty object takes over what another one holds. -/
theorem give_moves {s : State} {x y : Nat} {other : Socket} (ne : x ≠ y) (mine : Vacant (s.objects x))
    (yours : s.objects y = some other) :
    Moves s.custody ((s.set y (some other.exchange.2)).set x (some { fd := other.exchange.1 })).custody := by
  have left : Vacant (some other.exchange.2) := vacant_invalid
  have holds (z : Nat) (fd : Int) :
      ((s.set y (some other.exchange.2)).set x (some { fd := other.exchange.1 })).Holds z fd ↔
        if z = x then Owns (some other) fd else if z = y then False else s.Holds z fd := by
    rw [holds_set, holds_set]
    split
    · rfl
    · split
      · exact iff_of_false (left fd) id
      · rfl
  cases valid : other.isValid with
  | false =>
    have empty := vacant_of_invalid valid
    suffices same : ((s.set y (some other.exchange.2)).set x (some { fd := other.exchange.1 })).custody =
        s.custody by
      rw [same]
    refine custody_eq fun z fd => (holds z fd).trans ?_
    split
    · rename_i eq
      subst eq
      exact iff_of_false (empty fd) (mine fd)
    · split
      · rename_i eq
        subst eq
        refine iff_of_false id fun owns => empty fd ?_
        rw [← yours]
        exact owns
      · rfl
  | true =>
    have held : s.custody.holds y other.fd := by
      change Owns (s.objects y) other.fd
      rw [yours, owns_some valid]
    suffices same : ((s.set y (some other.exchange.2)).set x (some { fd := other.exchange.1 })).custody =
        ⟨fun z fd => s.Holds z fd ∧ ¬ (z = y ∧ fd = other.fd) ∨ z = x ∧ fd = other.fd, s.adopted, s.closed⟩ by
      rw [same]
      exact .single (.give held)
    refine custody_eq fun z fd => (holds z fd).trans ?_
    rw [owns_some valid]
    split
    · rename_i eq
      subst eq
      refine ⟨fun eq => .inr ⟨rfl, eq⟩, ?_⟩
      rintro (⟨owns, -⟩ | ⟨-, eq⟩)
      · exact (mine fd owns).elim
      · exact eq
    · rename_i off
      split
      · rename_i eq
        subst eq
        refine iff_of_false id ?_
        rintro (⟨owns, out⟩ | ⟨eq, -⟩)
        · refine out ⟨rfl, ?_⟩
          have owns' : Owns (s.objects z) fd := owns
          rwa [yours, owns_some valid] at owns'
        · exact off eq
      · rename_i out
        refine ⟨fun owns => .inl ⟨owns, fun same => out same.1⟩, ?_⟩
        rintro (⟨owns, -⟩ | ⟨eq, -⟩)
        · exact owns
        · exact (off eq).elim

/-- Every operation moves descriptors in custody. -/
theorem step_moves {s t : State} {a : Action} (took : s.step a = some t) : Moves s.custody t.custody := by
  cases a with
  | construct x =>
    simp only [step] at took
    split at took
    · rename_i dead
      cases took
      rw [set_vacant (by rw [dead]; exact vacant_none) vacant_invalid]
    · cases took
  | adopt x fd =>
    simp only [step] at took
    split at took
    · rename_i dead
      have before : Vacant (s.objects x) := by
        rw [dead]
        exact vacant_none
      split at took
      · rename_i failed
        cases took
        rw [set_vacant before (by rw [failed]; exact vacant_invalid)]
      · rename_i ne
        split at took
        · cases took
        · rename_i fresh
          cases took
          exact adopt_moves before ne fresh
    · cases took
  | moveConstruct x y =>
    simp only [step] at took
    split at took
    · rename_i other dead yours
      cases took
      have ne : x ≠ y := by
        rintro rfl
        rw [dead] at yours
        cases yours
      exact give_moves ne (by rw [dead]; exact vacant_none) yours
    · cases took
  | moveAssign x y =>
    simp only [step] at took
    split at took
    · rename_i self other mine yours
      split at took
      · rename_i ne
        cases took
        -- first `close()`, then the exchange
        have closed := close_moves (o := some { fd := -1 }) mine vacant_invalid
        refine closed.trans ?_
        have still : Function.update s.objects x (some { fd := -1 }) y = some other := by
          rw [Function.update_of_ne (Ne.symm ne), yours]
        have empty : Vacant (Function.update s.objects x (some { fd := -1 }) x) := by
          rw [Function.update_self]
          exact vacant_invalid
        have given := @give_moves { s.set x (some { fd := -1 }) with closed := s.closed ++ self.close.2 }
          x y other ne empty still
        have twice : Function.update (Function.update (Function.update s.objects x (some { fd := -1 })) y
            (some other.exchange.2)) x (some { fd := other.exchange.1 }) =
            Function.update (Function.update s.objects y (some other.exchange.2)) x
              (some { fd := other.exchange.1 }) := by
          rw [Function.update_comm ne, Function.update_idem]
        unfold set at given
        dsimp only at given
        rw [twice] at given
        exact given
      · cases took
        exact .refl
    · cases took
  | close x =>
    simp only [step] at took
    split at took
    · rename_i self mine
      cases took
      apply close_moves mine
      unfold Socket.close
      split
      · exact vacant_invalid
      · rename_i invalid
        exact vacant_of_invalid (by simpa using invalid)
    · cases took
  | destroy x =>
    simp only [step] at took
    split at took
    · rename_i self mine
      cases took
      exact close_moves mine vacant_none
    · cases took

open Runs

theorem sound_reach {s : State} (run : Reach step {} s) : Sound s.custody := by
  apply run.invariant (I := fun s => Sound s.custody)
  · have none_ : ({} : State).custody = ⟨fun _ _ => False, [], []⟩ := by
      refine Custody.State.ext (funext fun z => funext fun fd => propext ?_) rfl rfl
      exact iff_of_false (vacant_none fd) id
    rw [none_]
    exact Sound.init
  · intro s a t sound _ took
    exact sound.moves (step_moves took)

end State

/-- **Descriptors have one owner** and are closed at most once; where no object lives any more, every
descriptor that was adopted has been closed exactly once. -/
theorem one_owner {s : State} (run : Runs.Reach State.step {} s) :
    (∀ x y fd, s.Holds x fd → s.Holds y fd → x = y) ∧ (∀ fd, s.closed.count fd ≤ 1) ∧
      ((∀ x, s.objects x = none) → ∀ fd ∈ s.adopted, s.closed.count fd = 1) := by
  have sound := State.sound_reach run
  refine ⟨sound.one, List.nodup_iff_count_le_one.1 sound.releasedOnce, fun dead fd mem => ?_⟩
  have all := sound.all_released fun x e holds => by
    have owns : Owns (s.objects x) e := holds
    rw [dead x] at owns
    exact vacant_none e owns
  exact List.count_eq_one_of_mem sound.releasedOnce (all.mem_iff.2 mem)

/-- Two sockets, an assignment of one onto the other, one onto itself, and a move into a third. -/
def moved : List Action :=
  [.adopt 0 5, .adopt 1 7, .moveAssign 0 1, .moveAssign 0 0, .moveConstruct 2 0, .close 1, .destroy 0,
    .destroy 1, .destroy 2]

theorem one_owner_moved :
    ∃ s : State, s.adopted = [5, 7] ∧ (∀ x y fd, s.Holds x fd → s.Holds y fd → x = y) ∧
      (∀ fd, s.closed.count fd ≤ 1) ∧ ∀ fd ∈ s.adopted, s.closed.count fd = 1 := by
  have run : Runs.Reach State.step {} _ := Runs.exec_reach moved rfl
  obtain ⟨one, once, all⟩ := one_owner run
  refine ⟨_, rfl, one, once, all fun x => ?_⟩
  simp only [State.set, Function.update_apply]
  split_ifs <;> rfl

end Descriptors

end HttpServer
