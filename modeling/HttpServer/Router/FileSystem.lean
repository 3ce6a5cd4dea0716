import HttpServer.Http.Text

/-!
# File systems

The router sees a file system through three calls. `canonical` fails or gives an
absolute path, which is a list of names; its text puts a slash before each. A
tree of directories, files and symbolic links is a file system (`Node.fileSystem`).

The text of one path can start with the text of another for two reasons: it lies
below it, or its name goes on where the other one's last name ends
(`text_prefix_iff`).
-/

namespace HttpServer

/-- A name in a canonical path. -/
structure IsName (c : Bytes) : Prop where
  ne : c ≠ []
  noSlash : slash ∉ c
  notDot : c ≠ ascii "."
  notDotDot : c ≠ ascii ".."

instance (c : Bytes) : Decidable (IsName c) :=
  decidable_of_iff (c ≠ [] ∧ slash ∉ c ∧ c ≠ ascii "." ∧ c ≠ ascii "..")
    ⟨fun ⟨a, b, d, e⟩ => ⟨a, b, d, e⟩, fun ⟨a, b, d, e⟩ => ⟨a, b, d, e⟩⟩

/-- An absolute path without `.`, `..` and repeated slashes. -/
structure CanonicalPath where
  names : List Bytes
  valid : ∀ c ∈ names, IsName c
  deriving DecidableEq

/-- Each name behind a slash. -/
def slashed (names : List Bytes) : Bytes := names.flatMap (slash :: ·)

/-- `path.string()`. -/
def CanonicalPath.text (p : CanonicalPath) : Bytes :=
  if p.names = [] then [slash] else slashed p.names

/-- The calls of `std::filesystem` and the file stream that the router makes. -/
structure FileSystem where
  /-- `canonical(path, ec)`; none where `ec` is set. -/
  canonical : Bytes → Option CanonicalPath
  /-- `is_regular_file(path)`; none where it throws. -/
  isRegularFile : CanonicalPath → Option Bool
  /-- The content of a file; none where it cannot be opened. -/
  read : CanonicalPath → Option Bytes

/-- `p.relative_path()`. -/
def relativePath (p : Bytes) : Bytes := p.dropWhile (· == slash)

/-- `a / b`. -/
def joinPath (a b : Bytes) : Bytes :=
  if b.head? = some slash then b
  else if a.isEmpty || a.getLast? = some slash then a ++ b
  else a ++ slash :: b

/-! ## Trees -/

inductive Node where
  | file (content : Bytes)
  | dir (entries : List (Bytes × Node))
  | symlink (target : Bytes)

namespace Node

/-- The node with a name in a directory. -/
def child (name : Bytes) : Node → Option Node
  | dir entries => (entries.find? fun e => e.1 == name).map Prod.snd
  | _ => none

/-- The node at a path, links not followed. -/
def at_ (root : Node) (names : List Bytes) : Option Node :=
  names.foldl (fun n name => n.bind (child name)) (some root)

/-- Follow the names `todo` from the canonical path `done`. -/
def resolve (root : Node) : Nat → CanonicalPath → List Bytes → Option CanonicalPath
  | _, done, [] => some done
  | 0, _, _ :: _ => none
  | fuel + 1, done, c :: todo =>
    match root.at_ done.names with
    | some (dir _) =>
      if c = ascii ".." then
        root.resolve fuel ⟨done.names.dropLast, fun d hd => done.valid d (List.dropLast_subset _ hd)⟩ todo
      else if h : IsName c then
        match root.at_ (done.names ++ [c]) with
        | none => none
        | some (symlink target) =>
          let start := if target.head? = some slash then ⟨[], by simp⟩ else done
          root.resolve fuel start (target.splitOn slash ++ todo)
        | some _ =>
          root.resolve fuel ⟨done.names ++ [c], by
            intro d hd
            rcases List.mem_append.1 hd with hd | hd
            · exact done.valid d hd
            · rw [List.mem_singleton.1 hd]
              exact h⟩ todo
      else root.resolve fuel done todo
    | _ => none

/-- A tree as a file system, for a process whose working directory is the root. -/
def fileSystem (root : Node) : FileSystem where
  canonical p := if p = [] then none else root.resolve 100 ⟨[], by simp⟩ (p.splitOn slash)
  isRegularFile p := some <|
    match root.at_ p.names with
    | some (file _) => true
    | _ => false
  read p :=
    match root.at_ p.names with
    | some (file content) => some content
    | _ => none

end Node

/-! ## Paths and their texts -/

@[simp] theorem slashed_nil : slashed [] = [] := rfl

@[simp] theorem slashed_cons (c : Bytes) (cs : List Bytes) :
    slashed (c :: cs) = slash :: (c ++ slashed cs) := rfl

@[simp] theorem slashed_append (a b : List Bytes) : slashed (a ++ b) = slashed a ++ slashed b := by
  simp [slashed]

/-- Empty, or another name follows. -/
def AtName (t : Bytes) : Prop := t = [] ∨ t.head? = some slash

theorem atName_slashed (cs : List Bytes) : AtName (slashed cs) := by
  cases cs with
  | nil => exact .inl rfl
  | cons c cs => exact .inr rfl

/-- The name in front is cut off at the next slash. -/
theorem takeWhile_name {c t : Bytes} (clean : slash ∉ c) (next : AtName t) :
    (c ++ t).takeWhile (· != slash) = c := by
  induction c with
  | nil =>
    rcases next with rfl | next
    · rfl
    · cases t with
      | nil => rfl
      | cons d t =>
        simp only [List.head?_cons, Option.some.injEq] at next
        simp [next]
  | cons d c ih =>
    rw [List.mem_cons, not_or] at clean
    simp only [List.cons_append, List.takeWhile_cons, bne_iff_ne, ne_eq]
    rw [if_pos (fun h => clean.1 h.symm), ih clean.2]

/-- Two paths that start with a name each start with the same one. -/
theorem name_unique {a b s t : Bytes} (ha : slash ∉ a) (hb : slash ∉ b) (hs : AtName s) (ht : AtName t)
    (eq : a ++ s = b ++ t) : a = b ∧ s = t := by
  have same : a = b := by
    rw [← takeWhile_name ha hs, eq, takeWhile_name hb ht]
  subst same
  exact ⟨rfl, List.append_cancel_left eq⟩

/-- Names in front of a text that ends between names are names of the path. -/
theorem names_front {r f : List Bytes} {t : Bytes} (hr : ∀ c ∈ r, IsName c) (hf : ∀ c ∈ f, IsName c)
    (next : AtName t) (eq : slashed f = slashed r ++ t) : r <+: f := by
  induction r generalizing f with
  | nil => exact List.nil_prefix
  | cons c r ih =>
    cases f with
    | nil => simp at eq
    | cons d f =>
      simp only [slashed_cons, List.cons_append, List.append_assoc, List.cons.injEq, true_and] at eq
      have behind : AtName (slashed r ++ t) := by
        cases r with
        | nil => exact next
        | cons => exact .inr rfl
      obtain ⟨rfl, tails⟩ := name_unique (hf d (by simp)).noSlash (hr c (by simp)).noSlash
        (atName_slashed f) behind eq
      obtain ⟨more, rfl⟩ := ih (fun c hc => hr c (List.mem_cons_of_mem _ hc))
        (fun c hc => hf c (List.mem_cons_of_mem _ hc)) tails
      exact ⟨more, rfl⟩

namespace CanonicalPath

/-- `f` lies in or below `root`. -/
def Below (root f : CanonicalPath) : Prop := root.names <+: f.names

/-- The text of `f` goes on inside the last name of `root`. -/
def Continues (root f : CanonicalPath) : Prop :=
  root.names ≠ [] ∧ ∃ c rest, f.text = root.text ++ c :: rest ∧ c ≠ slash

/-- A path that only continues the characters of the root is not below it. -/
theorem Continues.not_below {root f : CanonicalPath} (h : Continues root f) : ¬ Below root f := by
  obtain ⟨ne, c, rest, text, other⟩ := h
  rintro ⟨more, eq⟩
  have f_ne : f.names ≠ [] := by
    rw [← eq]
    simp [ne]
  rw [CanonicalPath.text, CanonicalPath.text, if_neg ne, if_neg f_ne, ← eq, slashed_append] at text
  have tail := List.append_cancel_left text
  cases more with
  | nil => simp at tail
  | cons d more =>
    rw [slashed_cons, List.cons.injEq] at tail
    exact other tail.1.symm

/-- A canonical path is absolute. -/
theorem text_slash (p : CanonicalPath) : ∃ t, p.text = slash :: t := by
  unfold CanonicalPath.text
  split
  · exact ⟨[], rfl⟩
  · cases h : p.names with
    | nil => contradiction
    | cons c cs => exact ⟨_, rfl⟩

/-- A path whose text starts with that of a proper directory has names, too. -/
theorem slashed_of_text {root f : CanonicalPath} {t : Bytes} (proper : root.names ≠ [])
    (eq : f.text = root.text ++ t) : slashed f.names = slashed root.names ++ t := by
  unfold CanonicalPath.text at eq
  rw [if_neg proper] at eq
  split at eq
  · exfalso
    cases names : root.names with
    | nil => exact proper names
    | cons c cs =>
      have ne := (root.valid c (by simp [names])).ne
      simp [names, ne] at eq
  · exact eq

/-- The comparison of texts that the router makes. -/
theorem text_prefix_iff (root f : CanonicalPath) :
    root.text <+: f.text ↔ Below root f ∨ Continues root f := by
  constructor
  · rintro ⟨t, eq⟩
    by_cases top : root.names = []
    · left
      rw [Below, top]
      exact List.nil_prefix
    · have spelled := slashed_of_text top eq.symm
      cases t with
      | nil => exact .inl (names_front root.valid f.valid (.inl rfl) spelled)
      | cons c t =>
        by_cases other : c = slash
        · subst other
          exact .inl (names_front root.valid f.valid (.inr rfl) spelled)
        · exact .inr ⟨top, c, t, eq.symm, other⟩
  · rintro (⟨more, eq⟩ | ⟨-, c, rest, eq, -⟩)
    · by_cases top : root.names = []
      · obtain ⟨t, text⟩ := f.text_slash
        rw [CanonicalPath.text, if_pos top, text]
        exact ⟨t, rfl⟩
      · have proper : f.names ≠ [] := by
          rw [← eq]
          simp [top]
        rw [CanonicalPath.text, CanonicalPath.text, if_neg top, if_neg proper, ← eq, slashed_append]
        exact List.prefix_append _ _
    · exact ⟨c :: rest, eq.symm⟩

end CanonicalPath

end HttpServer
