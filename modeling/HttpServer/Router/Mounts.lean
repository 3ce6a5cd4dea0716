import HttpServer.Router.Answers

/-!
# What a static mount changes

A mount takes every target whose text starts with its prefix, also one that goes
on inside the prefix's last component. For a target that is not below the mount,
adding it changes nothing just in the cases that the mount is not consulted, or
that another mount behind it gives the same answers (`unaffected_iff`).
-/

namespace HttpServer

namespace Router

/-- A sequence of calls of `add_static`. -/
def addMounts (r : Router) (mounts : List StaticMount) : Router :=
  mounts.foldl (fun r mount => r.addStatic mount.mountPrefix mount.directory) r

/-- The target is neither the prefix nor below it. -/
structure Foreign (mountPrefix target : Bytes) : Prop where
  proper : mountPrefix.getLast? ≠ some slash
  ne : target ≠ mountPrefix
  outside : ¬ mountPrefix ++ [slash] <+: target

/-- Whether the call of `add_static`, made behind those of `r` and before those of `later`, is there
or not, the request is answered alike on every file system. -/
def Unaffected (r : Router) (mount : StaticMount) (later : List StaticMount) (request : Request) : Prop :=
  ∀ fs, ((r.addStatic mount.mountPrefix mount.directory).addMounts later).route fs request =
    (r.addMounts later).route fs request

/-- No route has the request's path, no earlier mount takes the target, and the target goes on inside
the prefix's last component. -/
structure Captures (r : Router) (mountPrefix : Bytes) (request : Request) : Prop where
  path : r.hasPath request = false
  earlier : ∀ mount ∈ r.staticMounts, ¬ mount.mountPrefix <+: request.target
  inside : ∃ c rest, request.target = mountPrefix ++ c :: rest ∧ c ≠ slash

/-- Static files are answered with GET and HEAD. -/
def Served (request : Request) : Prop := request.method = ascii "GET" ∨ request.method = ascii "HEAD"

instance (request : Request) : Decidable (Served request) := inferInstanceAs (Decidable (_ ∨ _))

/-- Both mounts refuse the request, or both look for the same file in the same directory. -/
inductive Alike (mount other : StaticMount) (request : Request) : Prop where
  | refused (method : ¬ Served request)
  | filtered (method : Served request) (one : isPathSafe (relPath mount request.target) = false)
      (two : isPathSafe (relPath other request.target) = false)
  | same (method : Served request) (one : isPathSafe (relPath mount request.target) = true)
      (two : isPathSafe (relPath other request.target) = true)
      (file : fullPath mount request.target = fullPath other request.target)
      (directory : mount.directory = other.directory)

/-! ## The mount that answers -/

@[simp] theorem addMounts_routes (r : Router) (mounts : List StaticMount) :
    (r.addMounts mounts).routes = r.routes := by
  induction mounts generalizing r with
  | nil => rfl
  | cons mount mounts ih => exact ih _

@[simp] theorem addMounts_staticMounts (r : Router) (mounts : List StaticMount) :
    (r.addMounts mounts).staticMounts = r.staticMounts ++ mounts := by
  induction mounts generalizing r with
  | nil => exact (List.append_nil _).symm
  | cons mount mounts ih =>
    refine (ih _).trans ?_
    simp [addStatic]

/-- What a mount answers to a request it takes. -/
def answer (fs : FileSystem) (request : Request) (mount : StaticMount) : Option Response :=
  if Served request then serveStaticFile fs mount request.target
  else some (.methodNotAllowed (ascii "GET, HEAD"))

theorem findMount_eq (fs : FileSystem) (request : Request) (mounts : List StaticMount) :
    findMount fs request mounts =
      match mounts.find? fun mount => mount.mountPrefix.isPrefixOf request.target with
      | some mount => answer fs request mount
      | none => some .notFound := by
  induction mounts with
  | nil => rfl
  | cons mount mounts ih =>
    unfold findMount
    by_cases starts : mount.mountPrefix.isPrefixOf request.target = true
    · simp only [starts, if_true, List.find?_cons_of_pos]
      rfl
    · rw [if_neg starts, ih, List.find?_cons_of_neg (by simpa using starts)]

theorem routeFor_hasPath {r : Router} {request : Request} {route : Route}
    (found : r.routeFor request = some route) : r.hasPath request = true := by
  have := List.find?_some found
  simp only [Bool.and_eq_true] at this
  exact List.any_eq_true.2 ⟨route, List.mem_of_find?_eq_some found, this.1⟩

/-- A request whose path is registered does not come to the mounts. -/
theorem route_hasPath {r r' : Router} {request : Request} (routes : r'.routes = r.routes)
    (path : r.hasPath request = true) (fs : FileSystem) : r'.route fs request = r.route fs request := by
  have same : r'.routeFor request = r.routeFor request := by rw [routeFor, routeFor, routes]
  have known : r'.hasPath request = r.hasPath request := by rw [hasPath, hasPath, routes]
  rw [route_eq, route_eq, same, known, path, routes]
  rfl

theorem route_mounts {r : Router} {request : Request} (path : r.hasPath request = false)
    (fs : FileSystem) : r.route fs request = findMount fs request r.staticMounts := by
  have none_ : r.routeFor request = none := by
    cases found : r.routeFor request with
    | none => rfl
    | some route => cases (routeFor_hasPath found).symm.trans path
  rw [route_eq, none_, path]
  rfl

/-! ## File systems that tell two mounts apart -/

theorem no_names : ∀ c ∈ ([] : List Bytes), IsName c := fun _ mem => absurd mem List.not_mem_nil

/-- Every path but the missing ones leads to one and the same empty file. -/
def oneFile (missing : Bytes → Bool) : FileSystem where
  canonical p := if missing p then none else some ⟨[], no_names⟩
  isRegularFile _ := some true
  read _ := some []

/-- The status of an answer on that file system. -/
def oneFileStatus (missing : Bytes → Bool) (target : Bytes) (mount : StaticMount) : StatusCode :=
  if isPathSafe (relPath mount target) = false then .forbidden
  else if missing (fullPath mount target) then .notFound
  else if missing mount.directory then .internalServerError
  else .ok

theorem answer_oneFile (missing : Bytes → Bool) {mount : StaticMount} {request : Request}
    (method : Served request) (one : mount.mountPrefix <+: request.target) :
    (answer (oneFile missing) request mount).map Response.status =
      some (oneFileStatus missing request.target mount) := by
  rw [answer, if_pos method]
  unfold serveStaticFile oneFileStatus fullPath oneFile
  rw [if_neg (Nat.not_lt.2 one.length_le)]
  cases safe : isPathSafe (relPath mount request.target) with
  | false => simp only [safe, Bool.not_false, if_true, Option.map_some, Response.error_status]
  | true =>
    cases file : missing (joinPath mount.directory (relativePath (relPath mount request.target))) with
    | true =>
      simp only [safe, file, Bool.not_true, Bool.false_eq_true, if_false, if_true, Option.map_some,
        Response.notFound, Response.error_status, Bool.true_eq_false]
    | false =>
      cases root : missing mount.directory with
      | true =>
        simp only [safe, file, root, Bool.not_true, Bool.false_eq_true, if_false, if_true, Option.map_some,
          Response.error_status, Bool.true_eq_false]
      | false =>
        simp only [safe, file, root, Bool.not_true, Bool.false_eq_true, if_false, Bool.true_eq_false]
        rfl

/-- Two mounts with the same answers look for the same file, if they look for one. -/
theorem alike_of_status {mount other : StaticMount} {request : Request} (method : Served request)
    (same : ∀ missing, oneFileStatus missing request.target mount =
      oneFileStatus missing request.target other) : Alike mount other request := by
  have nothing := same fun _ => true
  unfold oneFileStatus at same nothing
  cases safe : isPathSafe (relPath mount request.target) with
  | false =>
    cases safe' : isPathSafe (relPath other request.target) with
    | false => exact .filtered method safe safe'
    | true => simp [safe, safe'] at nothing
  | true =>
    cases safe' : isPathSafe (relPath other request.target) with
    | false => simp [safe, safe'] at nothing
    | true =>
      simp only [safe, safe', Bool.true_eq_false, if_false] at same
      have file : fullPath mount request.target = fullPath other request.target := by
        by_contra apart
        have differ := same fun p => p == fullPath mount request.target
        simp only [beq_self_eq_true, if_true, beq_eq_false_iff_ne.2 (Ne.symm apart), Bool.false_eq_true,
          if_false] at differ
        split at differ <;> cases differ
      refine .same method safe safe' file ?_
      -- take away the one directory that is not the file itself
      by_contra apart
      by_cases top : fullPath mount request.target = mount.directory
      · have differ := same fun p => p == other.directory
        simp [← file, top, apart] at differ
      · have differ := same fun p => p == mount.directory
        simp [← file, top, Ne.symm apart] at differ

/-- Two mounts that take a target give the same answers everywhere just when they are alike. -/
theorem alike_iff {mount other : StaticMount} {request : Request}
    (one : mount.mountPrefix <+: request.target) (two : other.mountPrefix <+: request.target) :
    (∀ fs, answer fs request mount = answer fs request other) ↔ Alike mount other request := by
  constructor
  · intro same
    by_cases method : Served request
    · apply alike_of_status method
      intro missing
      have status := congrArg (Option.map Response.status) (same (oneFile missing))
      rw [answer_oneFile missing method one, answer_oneFile missing method two] at status
      exact Option.some.inj status
    · exact .refused method
  · intro alike fs
    unfold answer
    cases alike with
    | refused method => rw [if_neg method, if_neg method]
    | filtered method safe safe' =>
      rw [if_pos method, if_pos method, serveStaticFile, serveStaticFile,
        if_neg (Nat.not_lt.2 one.length_le), if_neg (Nat.not_lt.2 two.length_le)]
      simp only [safe, safe', Bool.not_false, if_true]
    | same method safe safe' file directory =>
      unfold fullPath at file
      rw [directory] at file
      rw [if_pos method, if_pos method, serveStaticFile, serveStaticFile,
        if_neg (Nat.not_lt.2 one.length_le), if_neg (Nat.not_lt.2 two.length_le)]
      simp only [safe, safe', Bool.not_true, Bool.false_eq_true, if_false, directory, file]

/-- A mount that takes a target has an answer of its own. -/
theorem answer_own {mount : StaticMount} {request : Request} (one : mount.mountPrefix <+: request.target) :
    ¬ ∀ fs, answer fs request mount = some .notFound := by
  intro same
  have status := congrArg (Option.map Response.status) (same (oneFile fun _ => false))
  by_cases method : Served request
  · rw [answer_oneFile _ method one, oneFileStatus] at status
    simp only [Bool.false_eq_true, if_false] at status
    split at status <;> cases status
  · rw [answer, if_neg method] at status
    cases status

/-! ## Targets that are not below the mount -/

theorem foreign_inside {mountPrefix target : Bytes} (foreign : Foreign mountPrefix target) :
    mountPrefix <+: target ↔ ∃ c rest, target = mountPrefix ++ c :: rest ∧ c ≠ slash := by
  constructor
  · rintro ⟨t, rfl⟩
    cases t with
    | nil => exact absurd (List.append_nil _) foreign.ne
    | cons c t =>
      refine ⟨c, t, rfl, ?_⟩
      rintro rfl
      exact foreign.outside ⟨t, by simp⟩
  · rintro ⟨c, rest, rfl, -⟩
    exact List.prefix_append _ _

/-- Where no earlier mount takes the target, the new one answers if its prefix does. -/
theorem findMount_insert {fs : FileSystem} {request : Request} {front later : List StaticMount}
    (earlier : ∀ m ∈ front, ¬ m.mountPrefix <+: request.target) (mount : StaticMount) :
    findMount fs request (front ++ mount :: later) =
      if mount.mountPrefix <+: request.target then answer fs request mount else findMount fs request later := by
  have none_ : front.find? (fun m => m.mountPrefix.isPrefixOf request.target) = none :=
    List.find?_eq_none.2 fun m hm => by simpa [List.isPrefixOf_iff_prefix] using earlier m hm
  rw [findMount_eq, findMount_eq, List.find?_append, none_, Option.none_or]
  by_cases takes : mount.mountPrefix <+: request.target
  · rw [if_pos takes, List.find?_cons_of_pos (by simpa [List.isPrefixOf_iff_prefix] using takes)]
  · rw [if_neg takes, List.find?_cons_of_neg (by simpa [List.isPrefixOf_iff_prefix] using takes)]

theorem findMount_skip {fs : FileSystem} {request : Request} {front : List StaticMount}
    (earlier : ∀ m ∈ front, ¬ m.mountPrefix <+: request.target) (later : List StaticMount) :
    findMount fs request (front ++ later) = findMount fs request later := by
  have none_ : front.find? (fun m => m.mountPrefix.isPrefixOf request.target) = none :=
    List.find?_eq_none.2 fun m hm => by simpa [List.isPrefixOf_iff_prefix] using earlier m hm
  rw [findMount_eq, findMount_eq, List.find?_append, none_, Option.none_or]

/-- Where an earlier mount takes the target, the later ones do not matter. -/
theorem findMount_front {fs : FileSystem} {request : Request} {front : List StaticMount} {m : StaticMount}
    (mem : m ∈ front) (takes : m.mountPrefix <+: request.target) (later later' : List StaticMount) :
    findMount fs request (front ++ later) = findMount fs request (front ++ later') := by
  have found : (front.find? fun m => m.mountPrefix.isPrefixOf request.target).isSome = true :=
    List.find?_isSome.2 ⟨m, mem, List.isPrefixOf_iff_prefix.2 takes⟩
  obtain ⟨first, eq⟩ := Option.isSome_iff_exists.1 found
  rw [findMount_eq, findMount_eq, List.find?_append, List.find?_append, eq, Option.some_or, Option.some_or]

/-- The answers behind the new mount, compared with its own. -/
theorem own_answer_iff {mount : StaticMount} {later : List StaticMount} {request : Request}
    (takes : mount.mountPrefix <+: request.target) :
    (∀ fs, answer fs request mount = findMount fs request later) ↔
      ∃ other, later.find? (fun m => m.mountPrefix.isPrefixOf request.target) = some other ∧
        Alike mount other request := by
  simp only [findMount_eq]
  cases found : later.find? fun m => m.mountPrefix.isPrefixOf request.target with
  | none =>
    refine iff_of_false (answer_own takes) ?_
    rintro ⟨other, ⟨⟩, -⟩
  | some other =>
    have two : other.mountPrefix <+: request.target := by
      simpa [List.isPrefixOf_iff_prefix] using List.find?_some found
    refine (alike_iff takes two).trans ⟨fun alike => ⟨other, rfl, alike⟩, ?_⟩
    rintro ⟨_, ⟨⟩, alike⟩
    exact alike

/-- **What a mount changes** for a target that is not below it. -/
theorem unaffected_iff (r : Router) (mount : StaticMount) (later : List StaticMount) (request : Request)
    (foreign : Foreign mount.mountPrefix request.target) :
    Unaffected r mount later request ↔
      ¬ Captures r mount.mountPrefix request ∨
      ∃ other, later.find? (fun m => m.mountPrefix.isPrefixOf request.target) = some other ∧
        Alike mount other request := by
  have routes : ((r.addStatic mount.mountPrefix mount.directory).addMounts later).routes =
      (r.addMounts later).routes := by simp [addStatic]
  have known : (r.addMounts later).hasPath request = r.hasPath request := by
    rw [hasPath, hasPath, addMounts_routes]
  cases path : r.hasPath request with
  | true =>
    exact iff_of_true (fun fs => route_hasPath routes (known.trans path) fs)
      (.inl fun captures => by cases path.symm.trans captures.path)
  | false =>
    rw [path] at known
    have known' : ((r.addStatic mount.mountPrefix mount.directory).addMounts later).hasPath request = false := by
      rw [← known, hasPath, hasPath, routes]
    have mounts : ((r.addStatic mount.mountPrefix mount.directory).addMounts later).staticMounts =
        r.staticMounts ++ mount :: later := by simp [addStatic]
    unfold Unaffected
    simp only [route_mounts known, route_mounts known', mounts, addMounts_staticMounts]
    by_cases earlier : ∀ m ∈ r.staticMounts, ¬ m.mountPrefix <+: request.target
    · simp only [findMount_insert earlier, findMount_skip earlier]
      by_cases takes : mount.mountPrefix <+: request.target
      · have captures : Captures r mount.mountPrefix request := ⟨path, earlier, (foreign_inside foreign).1 takes⟩
        simp only [if_pos takes, own_answer_iff takes, captures, not_true_eq_false, false_or]
      · refine iff_of_true (fun fs => if_neg takes) (.inl fun captures => takes ?_)
        exact (foreign_inside foreign).2 captures.inside
    · push Not at earlier
      obtain ⟨m, mem, takes⟩ := earlier
      exact iff_of_true (fun fs => findMount_front mem takes _ _) (.inl fun captures => captures.earlier m mem takes)

/-- A mount that is made twice. -/
theorem unaffected_twice :
    Unaffected {} ⟨ascii "/sta", ascii "/srv"⟩ [⟨ascii "/sta", ascii "/srv"⟩]
      { method := ascii "GET", target := ascii "/static" } := by
  refine (unaffected_iff _ _ _ _ ⟨by decide, by decide, by decide⟩).2 (.inr ⟨_, rfl, ?_⟩)
  exact .same (.inl rfl) (by decide) (by decide) rfl rfl

/-- A target that only starts like the prefix is served from the mount's directory. -/
theorem staticindex_captured :
    Foreign siblingMount.mountPrefix (ascii "/staticindex.html") ∧
    ¬ Unaffected {} siblingMount [] { method := ascii "GET", target := ascii "/staticindex.html" } := by
  refine ⟨⟨by decide, by decide, by decide⟩, fun same => ?_⟩
  have status := congrArg (Option.map Response.status) (same siblings.fileSystem)
  have served : (((({} : Router).addStatic siblingMount.mountPrefix siblingMount.directory).addMounts []).route
      siblings.fileSystem { method := ascii "GET", target := ascii "/staticindex.html" }).map Response.status =
        some .ok := by rfl
  rw [served] at status
  cases status

end Router

end HttpServer
