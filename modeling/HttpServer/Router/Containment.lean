import HttpServer.Router.Router

/-!
# Static files stay below the mount

`serve_static_file` compares the texts of two canonical paths, so it serves a
file below the mount, or one whose path goes on inside the mount's last name.
The second kind is the only way out (`contained_iff`).
-/

namespace HttpServer

namespace Router

/-- The path that is resolved for a target. -/
def fullPath (mount : StaticMount) (target : Bytes) : Bytes :=
  joinPath mount.directory (relativePath (relPath mount target))

/-- The target passes the filter and leads to a readable regular file. -/
structure Leads (fs : FileSystem) (mount : StaticMount) (target : Bytes) (root f : CanonicalPath)
    (content : Bytes) : Prop where
  long : mount.mountPrefix.length ≤ target.length
  safe : isPathSafe (relPath mount target) = true
  file : fs.canonical (fullPath mount target) = some f
  root : fs.canonical mount.directory = some root
  regular : fs.isRegularFile f = some true
  read : fs.read f = some content

theorem Leads.unique {fs : FileSystem} {mount : StaticMount} {target : Bytes}
    {root root' f f' : CanonicalPath} {content content' : Bytes}
    (h : Leads fs mount target root f content) (h' : Leads fs mount target root' f' content') :
    root = root' ∧ f = f' ∧ content = content' := by
  have file := h.file.symm.trans h'.file
  have root := h.root.symm.trans h'.root
  cases file
  cases root
  have read := h.read.symm.trans h'.read
  cases read
  exact ⟨rfl, rfl, rfl⟩

theorem take_eq_iff (a b : Bytes) : b.take a.length = a ↔ a <+: b := by
  rw [List.prefix_iff_eq_take]
  exact eq_comm

/-- Every answer is an error, or the file that the target leads to where the texts compare. -/
theorem serveStaticFile_cases {fs : FileSystem} {mount : StaticMount} {target : Bytes}
    {res : Response} (h : serveStaticFile fs mount target = some res) :
    (∃ code message, code ≠ .ok ∧ code ≠ .noContent ∧ res = .error code message) ∨
      ∃ root f content, Leads fs mount target root f content ∧ root.text <+: f.text ∧
        res = (Response.ok content).setHeader (ascii "Content-Type") (getMimeType f.text) := by
  unfold serveStaticFile at h
  split at h
  · cases h
  rename_i long
  dsimp only at h
  split at h
  · cases h
    exact .inl ⟨.forbidden, _, by decide, by decide, rfl⟩
  rename_i safe
  split at h
  · cases h
    exact .inl ⟨.notFound, _, by decide, by decide, rfl⟩
  rename_i f file
  split at h
  · cases h
    exact .inl ⟨.internalServerError, _, by decide, by decide, rfl⟩
  rename_i root found
  split at h
  · cases h
    exact .inl ⟨.forbidden, _, by decide, by decide, rfl⟩
  rename_i texts
  split at h
  · cases h
  · cases h
    exact .inl ⟨.notFound, _, by decide, by decide, rfl⟩
  rename_i regular
  split at h
  · cases h
    exact .inl ⟨.internalServerError, _, by decide, by decide, rfl⟩
  rename_i content read
  cases h
  refine .inr ⟨root, f, content, ⟨Nat.le_of_not_lt long, ?_, file, found, regular, read⟩, ?_, rfl⟩
  · simpa using safe
  · exact (take_eq_iff _ _).1 (not_not.1 texts)

/-- A 200 is the file that the target leads to, and the texts compare. -/
theorem serveStaticFile_ok {fs : FileSystem} {mount : StaticMount} {target : Bytes} {res : Response}
    (h : serveStaticFile fs mount target = some res) (ok : res.status = .ok) :
    ∃ root f, Leads fs mount target root f res.body ∧ root.text <+: f.text := by
  rcases serveStaticFile_cases h with ⟨code, message, other, -, rfl⟩ | ⟨root, f, content, leads, texts, rfl⟩
  · rw [Response.error_status] at ok
    exact absurd ok other
  · exact ⟨root, f, leads, texts⟩

/-- The file a target leads to is served when the texts compare. -/
theorem Leads.served {fs : FileSystem} {mount : StaticMount} {target : Bytes}
    {root f : CanonicalPath} {content : Bytes} (h : Leads fs mount target root f content)
    (texts : root.text <+: f.text) :
    serveStaticFile fs mount target =
      some ((Response.ok content).setHeader (ascii "Content-Type") (getMimeType f.text)) := by
  have file := h.file
  unfold fullPath at file
  unfold serveStaticFile
  rw [if_neg (Nat.not_lt.2 h.long)]
  simp only [h.safe, Bool.not_true, Bool.false_eq_true, if_false, file, h.root, h.regular, h.read,
    (take_eq_iff root.text f.text).2 texts, ne_eq, not_true_eq_false]

/-- A 200 carries the content of the resolved file, which is regular and below the mount's
directory. -/
def Contained (fs : FileSystem) (mount : StaticMount) (target : Bytes) : Prop :=
  ∀ res, serveStaticFile fs mount target = some res → res.status = .ok →
    ∃ root f, fs.canonical mount.directory = some root ∧ fs.canonical (fullPath mount target) = some f ∧
      fs.isRegularFile f = some true ∧ fs.read f = some res.body ∧ root.Below f

/-- **Containment.** Only a file whose path goes on inside the last name of the mount's directory
gets out. -/
theorem contained_iff (fs : FileSystem) (mount : StaticMount) (target : Bytes) :
    Contained fs mount target ↔
      ¬ ∃ root f content, Leads fs mount target root f content ∧ root.Continues f := by
  constructor
  · rintro contained ⟨root, f, content, leads, outside⟩
    have served := leads.served (root.text_prefix_iff f |>.2 (.inr outside))
    obtain ⟨root', f', found, file, -, -, below⟩ := contained _ served rfl
    have same := leads.root.symm.trans found
    have same' := leads.file.symm.trans file
    cases same
    cases same'
    exact outside.not_below below
  · intro inside res served ok
    obtain ⟨root, f, leads, texts⟩ := serveStaticFile_ok served ok
    rcases (root.text_prefix_iff f).1 texts with below | outside
    · exact ⟨root, f, leads.root, leads.file, leads.regular, leads.read, below⟩
    · exact absurd ⟨root, f, res.body, leads, outside⟩ inside

/-! ## A way out -/

/-- The directory `/srv/static`, with a link to a file next to it. -/
def staticDir : Node :=
  .dir [(ascii "index.html", .file (ascii "welcome")),
    (ascii "link", .symlink (ascii "../static-old/secret.txt"))]

def siblings : Node :=
  .dir [(ascii "srv", .dir [(ascii "static", staticDir),
    (ascii "static-old", .dir [(ascii "secret.txt", .file (ascii "secret"))])])]

def siblingMount : StaticMount where
  mountPrefix := ascii "/static"
  directory := ascii "/srv/static"

theorem child_of_none (names : List Bytes) :
    names.foldl (fun n name => n.bind (Node.child name)) (none : Option Node) = none := by
  induction names with
  | nil => rfl
  | cons name names ih => exact ih

/-- The only file in the directory is its index. -/
theorem staticDir_file {names : List Bytes} {content : Bytes}
    (h : staticDir.at_ names = some (.file content)) : content = ascii "welcome" := by
  match names with
  | [] => cases h
  | [name] =>
    simp only [staticDir, Node.at_, List.foldl_cons, List.foldl_nil, Option.bind_some, Node.child,
      List.find?_cons] at h
    repeat' split at h
    all_goals simp_all
  | name :: d :: names =>
    have closed : (Option.bind (some staticDir) (Node.child name)).bind (Node.child d) = none := by
      simp only [staticDir, Option.bind_some, Node.child, List.find?_cons]
      repeat' split
      all_goals rfl
    simp only [Node.at_, List.foldl_cons] at h
    rw [closed, child_of_none] at h
    cases h

/-- The link is served although no file below the mount has the content sent. -/
theorem sibling_served :
    ∃ res, serveStaticFile siblings.fileSystem siblingMount (ascii "/static/link") = some res ∧
      res.status = .ok ∧
      ¬ ∃ root f, siblings.fileSystem.canonical siblingMount.directory = some root ∧
        siblings.fileSystem.isRegularFile f = some true ∧
        siblings.fileSystem.read f = some res.body ∧ root.Below f := by
  have served : (serveStaticFile siblings.fileSystem siblingMount (ascii "/static/link")).map
      (fun res => (res.status, res.body)) = some (.ok, ascii "secret") := by rfl
  have mounted : (siblings.fileSystem.canonical siblingMount.directory).map (·.names) =
      some [ascii "srv", ascii "static"] := by rfl
  obtain ⟨res, found, same⟩ := Option.map_eq_some_iff.1 served
  obtain ⟨status, body⟩ := Prod.mk.inj same
  refine ⟨res, found, status, ?_⟩
  rintro ⟨root, f, dir, -, read, more, names⟩
  rw [dir, Option.map_some, Option.some.injEq] at mounted
  rw [mounted] at names
  have inside : siblings.at_ f.names = staticDir.at_ more := by
    rw [← names]
    rfl
  rw [body] at read
  simp only [Node.fileSystem, inside] at read
  split at read
  · rename_i content file
    have index := staticDir_file file
    rw [Option.some.injEq, index] at read
    exact absurd read (by decide)
  · cases read

end Router

end HttpServer
