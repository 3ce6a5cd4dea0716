import HttpServer.Router.Allow

/-!
# The order of registration

Routes with different methods or paths may be registered in any order: the
router gives the same answers, and only the `Allow` value of its own 405 follows
the order (`order_free`). The loop that builds the value takes an empty text for
the front of the list, so that an empty method name is left out where it comes
first, and not where it comes later (`order_shows`).
-/

namespace HttpServer

open Separated

namespace Router

/-- A sequence of calls of `add_route`. -/
def addRoutes (r : Router) (calls : List Route) : Router :=
  calls.foldl (fun r call => r.addRoute call.method call.path call.func) r

/-- No pair of a method and a path is registered twice. -/
def Distinct (calls : List Route) : Prop := (calls.map fun call => (call.method, call.path)).Nodup

/-- The answers are the same, or both are the router's own 405 with the text of a list of methods in
`Allow`, and the one list is a permutation of the other. -/
def SameAnswers (text : List Bytes → Bytes) (r r' : Router) (fs : FileSystem) (request : Request) : Prop :=
  r.route fs request = r'.route fs request ∨
    (.refused ∈ (r.routeActs fs request).1 ∧ .refused ∈ (r'.routeActs fs request).1 ∧
      ∃ ms ms' : List Bytes, ms.Perm ms' ∧
        r.route fs request = some (.methodNotAllowed (text ms)) ∧
        r'.route fs request = some (.methodNotAllowed (text ms')))

/-- The methods behind one another, whatever their names. -/
def plainText (ms : List Bytes) : Bytes := (ascii ", ").intercalate ms

/-- The same without the empty names in front. -/
def allowText (ms : List Bytes) : Bytes := (ascii ", ").intercalate (ms.dropWhile List.isEmpty)

@[simp] theorem addRoutes_routes (r : Router) (calls : List Route) :
    (r.addRoutes calls).routes = r.routes ++ calls := by
  induction calls generalizing r with
  | nil => exact (List.append_nil _).symm
  | cons call calls ih =>
    refine (ih _).trans ?_
    simp [addRoute]

@[simp] theorem addRoutes_staticMounts (r : Router) (calls : List Route) :
    (r.addRoutes calls).staticMounts = r.staticMounts := by
  induction calls generalizing r with
  | nil => rfl
  | cons call calls ih => exact ih _

/-- Where at most one element has the property, its place does not matter. -/
theorem find?_perm {α κ : Type} {key : α → κ} {p : α → Bool} {k : κ} (one : ∀ x, p x = true → key x = k)
    {xs ys : List α} (perm : xs.Perm ys) (nodup : (xs.map key).Nodup) : xs.find? p = ys.find? p := by
  rw [← List.head?_filter, ← List.head?_filter]
  have same : ((xs.filter p).map key) = List.replicate (xs.filter p).length k := by
    refine List.eq_replicate_iff.2 ⟨List.length_map _, fun x hx => ?_⟩
    obtain ⟨y, hy, rfl⟩ := List.mem_map.1 hx
    exact one y (List.mem_filter.1 hy).2
  have few : ((xs.filter p).map key).Nodup := nodup.sublist (List.filter_sublist.map key)
  rw [same, List.nodup_replicate] at few
  have moved : (xs.filter p).Perm (ys.filter p) := perm.filter p
  match found : xs.filter p, few with
  | [], _ =>
    rw [found] at moved
    rw [List.nil_perm.1 moved]
  | [x], _ =>
    rw [found] at moved
    rw [List.singleton_perm.1 moved]

theorem routeFor_perm {r r' : Router} (perm : r.routes.Perm r'.routes) (distinct : Distinct r.routes)
    (request : Request) : r.routeFor request = r'.routeFor request := by
  have nodup : (r.routes.map fun route => (route.method, route.path)).Nodup := distinct
  refine find?_perm (k := (request.method, request.target)) (fun route ok => ?_) perm nodup
  simp only [Bool.and_eq_true, beq_iff_eq] at ok
  rw [ok.1, ok.2]

theorem hasPath_perm {r r' : Router} (perm : r.routes.Perm r'.routes) (request : Request) :
    r.hasPath request = r'.hasPath request := by
  rw [Bool.eq_iff_iff, hasPath_iff, hasPath_iff]
  simp only [perm.mem_iff]

/-- Two orders of the same routes. -/
theorem route_perm {r r' : Router} (perm : r.routes.Perm r'.routes) (distinct : Distinct r.routes)
    (mounts : r.staticMounts = r'.staticMounts) (fs : FileSystem) (request : Request) :
    SameAnswers allowText r r' fs request := by
  have answer := r.route_eq fs request
  have answer' := r'.route_eq fs request
  have acts := congrArg Prod.fst (r.routeActs_eq fs request)
  have acts' := congrArg Prod.fst (r'.routeActs_eq fs request)
  rw [← routeFor_perm perm distinct request, ← hasPath_perm perm request] at answer' acts'
  cases found : r.routeFor request with
  | some route =>
    rw [found] at answer answer'
    exact .inl (answer.trans answer'.symm)
  | none =>
    cases path : r.hasPath request with
    | true =>
      simp only [found, path, if_true] at answer answer' acts acts'
      rw [allowMethods_eq, join_eq] at answer answer'
      exact .inr ⟨by simp [acts], by simp [acts'], _, _, (perm.filter _).map _, answer, answer'⟩
    | false =>
      simp only [found, path, Bool.false_eq_true, if_false] at answer answer'
      exact .inl (by rw [answer, answer', mounts])

/-- **The order of registration does not matter** for different routes, except in the `Allow` value. -/
theorem order_free (mounts : List StaticMount) {calls calls' : List Route} (perm : calls.Perm calls')
    (distinct : Distinct calls) (fs : FileSystem) (request : Request) :
    SameAnswers allowText (({ staticMounts := mounts } : Router).addRoutes calls)
      (({ staticMounts := mounts } : Router).addRoutes calls') fs request := by
  apply route_perm
  · simpa using perm
  · simpa using distinct
  · simp

/-- The length of a joined list counts the elements and the gaps. -/
theorem length_intercalate {α : Type} (d : List α) {xs : List (List α)} (ne : xs ≠ []) :
    (d.intercalate xs).length + d.length = (xs.map List.length).sum + xs.length * d.length := by
  induction xs with
  | nil => exact absurd rfl ne
  | cons x xs ih =>
    cases xs with
    | nil => simp [List.intercalate]
    | cons y ys =>
      have rest := ih (List.cons_ne_nil y ys)
      rw [List.intercalate_cons_cons, List.length_append, List.length_append, List.map_cons, List.sum_cons,
        List.length_cons, Nat.succ_mul]
      omega

theorem plainText_length {ms ms' : List Bytes} (perm : ms.Perm ms') :
    (plainText ms).length = (plainText ms').length := by
  cases ms with
  | nil => rw [List.nil_perm.1 perm]
  | cons m ms =>
    have ne' : ms' ≠ [] := fun eq => by
      rw [eq] at perm
      exact List.cons_ne_nil m ms (List.perm_nil.1 perm)
    have here := length_intercalate (ascii ", ") (List.cons_ne_nil m ms)
    have there := length_intercalate (ascii ", ") ne'
    rw [(perm.map List.length).sum_nat, perm.length_eq] at here
    unfold plainText
    omega

/-- An empty method name, and `GET` on the same path. -/
def emptyName : List Route := [⟨[], ascii "/a", fun _ => none⟩, ⟨ascii "GET", ascii "/a", fun _ => none⟩]

theorem order_free_emptyName :
    SameAnswers allowText (addRoutes {} emptyName) (addRoutes {} emptyName.reverse) (oneFile fun _ => false)
      { method := ascii "DELETE", target := ascii "/a" } :=
  order_free [] (List.reverse_perm _).symm (show (emptyName.map _).Nodup by decide) _ _

/-- The order shows: the empty name leaves a comma behind it only where it is not the first. -/
theorem order_shows :
    ∃ (calls calls' : List Route) (fs : FileSystem) (request : Request), calls.Perm calls' ∧ Distinct calls ∧
      ¬ SameAnswers plainText (addRoutes {} calls) (addRoutes {} calls') fs request := by
  refine ⟨emptyName, emptyName.reverse, oneFile fun _ => false,
    { method := ascii "DELETE", target := ascii "/a" }, (List.reverse_perm _).symm,
    show (emptyName.map _).Nodup by decide, ?_⟩
  have answer : route (addRoutes {} emptyName) (oneFile fun _ => false)
      { method := ascii "DELETE", target := ascii "/a" } = some (.methodNotAllowed (ascii "GET")) := rfl
  have answer' : route (addRoutes {} emptyName.reverse) (oneFile fun _ => false)
      { method := ascii "DELETE", target := ascii "/a" } = some (.methodNotAllowed (ascii "GET, ")) := rfl
  have text {a b : Bytes} (eq : some (Response.methodNotAllowed a) = some (.methodNotAllowed b)) : a = b := by
    have values := congrArg (fun r => r.headers.lookup (ascii "Allow")) (Option.some.inj eq)
    simpa using values
  rintro (same | ⟨-, -, ms, ms', perm, shown, shown'⟩)
  · rw [answer, answer'] at same
    exact absurd (text same) (by decide)
  · rw [answer] at shown
    rw [answer'] at shown'
    have lengths := plainText_length perm
    rw [← text shown, ← text shown'] at lengths
    exact absurd lengths (by decide)

end Router

end HttpServer
