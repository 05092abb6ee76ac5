import Assignability.Proofs.Fields
import Assignability.Proofs.Reentrance
import Assignability.Proofs.Succession

namespace Assignability

open Relation (ReflTransGen)

-- As long as no rule of a user kind is consulted, a query fails only where a site that it comes to
-- cannot be prepared, or where it nests too deep.

-- What rules and templates make up: nothing in it refers to anything, belongs to the user or is
-- indexed by numbers.
structure Schema.MadeUp (s : Schema) : Prop where
  anonymous : s.Anonymous
  notIndexed : ∀ t ∈ s.parts, Rule.isNumericRecord t = false
  notUser : ∀ t ∈ s.parts, ∀ name, t.kind ≠ .user name

theorem Schema.MadeUp.child {s c : Schema} (madeUp : s.MadeUp) (child : c ∈ s.children) :
    c.MadeUp :=
  ⟨madeUp.anonymous.child child, fun t part => madeUp.notIndexed t (child_parts child part),
    fun t part => madeUp.notUser t (child_parts child part)⟩

theorem Schema.MadeUp.of_template {s : Schema} {parts : List Part}
    (shape : s.shape = .template parts) (mark : Nat) : (s.resolved mark).1.MadeUp := by
  refine ⟨.of_template shape mark, fun t part => ?_, fun t part name own => ?_⟩ <;>
    rcases resolved_parts mark shape part with same | ⟨_, same⟩ | ⟨_, same⟩
  · simp [Rule.isNumericRecord, same]
  · simp [Rule.isNumericRecord, same]
  · simp [Rule.isNumericRecord, same]
  all_goals
    unfold Schema.kind at own
    rw [same] at own
    cases own

theorem Rule.made_madeUp (mark : Nat) (left right : Schema) : (made mark left right).MadeUp := by
  refine ⟨made_anonymous mark left right, fun t part => ?_, fun t part name own => ?_⟩ <;>
    rcases made_parts part with ⟨b, same⟩ | ⟨_, same⟩ | ⟨form, _, _, same⟩
  · simp [Rule.isNumericRecord, same]
  · simp [Rule.isNumericRecord, same]
  · simp [Rule.isNumericRecord, same]
  all_goals
    unfold Schema.kind at own
    rw [same] at own
  · cases b <;> cases own
  · cases own
  · cases form <;> cases own

namespace Place

-- The schema that a place comes to, and the children of that schema.
def Reaches (p q : Place) : Prop :=
  ∃ t, p.2.dereference p.1 = .ok (t, q.2) ∧ (q.1 = t ∨ q.1 ∈ t.children)

def Met (roots : List Place) (p : Place) : Prop := ∃ root ∈ roots, ReflTransGen Reaches root p

theorem Met.reaches {roots : List Place} {p q : Place} (met : Met roots p) (reaches : Reaches p q) :
    Met roots q := by
  obtain ⟨root, isRoot, path⟩ := met
  exact ⟨root, isRoot, path.tail reaches⟩

-- What a string looks at is met as well.
theorem Met.looks {roots : List Place} {p q : Place} (met : Met roots p)
    (path : ReflTransGen Looks p q) : Met roots q := by
  obtain ⟨root, isRoot, before⟩ := met
  refine ⟨root, isRoot, before.trans (ReflTransGen.mono (fun p q looks => ?_) _ _ path)⟩
  obtain ⟨t, reached, child⟩ := looks.child
  exact ⟨t, reached, .inr child⟩

-- What is kept from place to place holds of all that are met.
theorem Met.invariant {roots : List Place} {holds : Place → Prop}
    (start : ∀ root ∈ roots, holds root)
    (step : ∀ p q, Met roots p → holds p → Reaches p q → holds q) {p : Place}
    (met : Met roots p) : holds p := by
  obtain ⟨root, isRoot, path⟩ := met
  induction path with
  | refl => exact start root isRoot
  | tail earlier reaches ih => exact step _ _ ⟨root, isRoot, earlier⟩ ih reaches

-- Schemas and entries are those of the roots, and their parts.
theorem Met.among {roots : List Place} {ground : List Schema}
    (closed : ∀ s ∈ ground, ∀ c ∈ s.children, c ∈ ground)
    (start : ∀ root ∈ roots, root.1 ∈ ground ∧ ∀ e ∈ root.2, e ∈ ground) {p : Place}
    (met : Met roots p) : p.1 ∈ ground ∧ ∀ e ∈ p.2, e ∈ ground := by
  refine met.invariant start ?_
  rintro p q - ⟨schema, scope⟩ ⟨t, reached, same | child⟩ <;>
    obtain ⟨target, entries⟩ := Scope.dereference_among schema scope reached
  · exact ⟨same ▸ target, entries⟩
  · exact ⟨closed t target _ child, entries⟩

end Place

namespace Site

-- A site that a query can come to.
def Come (roots : List Place) (p : Site) : Prop :=
  Place.Met roots (p.schema, p.scope) ∨ p.schema.MadeUp

namespace Come

section
variable {roots : List Place} {p q : Site}

theorem prepared (come : p.Come roots) {w v : World} (prepared : Engine.prepare p w = (.ok q, v)) :
    q.Come roots := by
  rcases come with met | madeUp
  · obtain ⟨⟨t, reached, made⟩, -, -, -⟩ := Engine.prepare_ok prepared
    rcases template_cases t with ⟨parts, shape⟩ | expanded
    · have madeUp := Schema.MadeUp.of_template shape (Engine.scopeMarks p w.supply).2
      rw [made] at madeUp
      exact .inr madeUp
    · rw [resolved_self expanded] at made
      obtain ⟨rfl, -⟩ := Prod.mk.inj made
      exact .inl (met.reaches ⟨_, reached, .inl rfl⟩)
  · rw [Engine.prepare_anonymous madeUp.anonymous prepared]
    exact .inr madeUp

-- A prepared site comes to itself.
theorem met_moves {registry : Registry} (ready : p.Ready registry)
    (met : Place.Met roots (p.schema, p.scope)) (moves : p.Moves q) :
    Place.Met roots (q.schema, q.scope) := by
  cases moves with
  | stays => exact met
  | enters child =>
    refine met.reaches ⟨p.schema, ?_, .inr child⟩
    rw [Scope.dereference_concrete ready.concrete, ready.entered]
    rfl

theorem moves {registry : Registry} (ready : p.Ready registry) (come : p.Come roots)
    (moves : p.Moves q) : q.Come roots := by
  rcases come with met | madeUp
  · exact .inl (met_moves ready met moves)
  · cases moves with
    | stays => exact .inr madeUp
    | enters child => exact .inr (madeUp.child child)

theorem asks {registry : Registry} {mark : Nat} {x y : Site} (readyP : p.Ready registry)
    (onLeft : p.Come roots) (readyQ : q.Ready registry) (onRight : q.Come roots)
    (asks : Rule.Asks mark p q x y) : x.Come roots ∧ y.Come roots := by
  have made := Rule.made_madeUp mark p.schema q.schema
  cases asks with
  | onward first second _ => exact ⟨onLeft.moves readyP first, onRight.moves readyQ second⟩
  | swapped first second _ => exact ⟨onRight.moves readyQ second, onLeft.moves readyP first⟩
  | member _ second => exact ⟨.inr made, onRight.moves readyQ second⟩
  | item _ second => exact ⟨.inr made, onRight.moves readyQ second⟩

end

end Come

end Site

namespace Engine

-- Where a comparison itself fails: there is no depth left for it, or one of its sides cannot be
-- prepared.
def Falls (depth : Nat) (left right : Site) (w : World) (fault : Fault) : Prop :=
  (depth = 0 ∧ fault = .tooDeep) ∨ (∃ v, prepare left w = (.error fault, v)) ∨
    ∃ l v u, prepare left w = (.ok l, v) ∧ prepare right v = (.error fault, u)

-- Prepared pairs are worked through step by step, unless there is a rule for a user kind.
theorem goal_loop {left right : Site} {w : World} (ready : left.Ready w.registry)
    (noRule : ∀ kind, left.schema.kind = .user kind → w.registry.handler? kind = none) :
    (Rule.goal w.engine.settings w.registry w.supply left right).Loop := by
  rcases Rule.goal_cases w.engine.settings w.registry w.supply left right with
    loop | ⟨_, _, unprepared⟩ | ⟨kind, handler, own, found, -⟩
  · exact loop
  · simp [ready.concrete, ready.expanded] at unprepared
  · rw [noRule kind own] at found
    cases found

-- Such a pair fails only where a comparison does that it asks for.
theorem compareNew_nested {compare : Comparer} {left right : Site} {w : World}
    (new : w.engine.active.lookup (.of left right) = none)
    (loop : (Rule.goal w.engine.settings w.registry w.supply left right).Loop)
    (each : ∀ x y v, Rule.Asks w.supply left right x y → Follows (entering left right w) v →
      Follows v (compare x y v).2) :
    Follows w (compareNew compare left right w).2 ∧
      ∀ fault, (compareNew compare left right w).1 = .error fault →
        ∃ x y v, Rule.Asks w.supply left right x y ∧ Follows (entering left right w) v ∧
          (compare x y v).1 = .error fault := by
  have keeps : ∀ x y,
      .compare x y ∈ (Rule.goal w.engine.settings w.registry w.supply left right).steps →
      (since (entering left right w)).Keeps compare x y := by
    intro x y asked v later
    exact ⟨later.trans (each x y v (Rule.goal_asks asked) later), trivial, fun _ _ => trivial⟩
  have pursued := pursue_yields (since (entering left right w)) loop.settled keeps
    (w := entering left right w) (.refl _)
  refine ⟨compareNew_follows new rfl pursued.1, fun fault failed => ?_⟩
  obtain ⟨outcome, u, ran, returned, -⟩ := compareNew_spec compare left right w
  rcases pursue_fault (since (entering left right w)) loop.settled keeps
    (w := entering left right w) (.refl _)
    (congrArg Prod.fst (ran.trans (by rw [← returned, failed]))) with
    ⟨x, y, v, asked, later, -, faulty⟩ | refused | ⟨script, consulted, -⟩
  · exact ⟨x, y, v, Rule.goal_asks asked, later, faulty⟩
  · rw [refused] at loop
    exact loop.elim
  · rw [consulted] at loop
    exact loop.elim

-- Both sides of a comparison, once they are prepared.
theorem come_pair {roots : List Place} {left right l r : Site} {w v u : World}
    (onLeft : left.Come roots) (onRight : right.Come roots) (first : prepare left w = (.ok l, v))
    (second : prepare right v = (.ok r, u)) :
    Follows w u ∧ (l.Come roots ∧ l.Ready u.registry) ∧ r.Come roots ∧ r.Ready u.registry := by
  have before := prepare_follows first
  have after := prepare_follows second
  refine ⟨before.trans after, ⟨onLeft.prepared first, ?_⟩, onRight.prepared second, ?_⟩
  · rw [after.registry, before.registry]
    exact prepare_ready first
  · rw [after.registry]
    exact prepare_ready second

-- A comparison fails where it fails itself or where one inside it does, and all of them are at
-- sites that the query can come to.
theorem visit_fault {roots : List Place} {registry : Registry}
    (noRule : ∀ p : Site, p.Come roots → ∀ kind, p.schema.kind = .user kind →
      registry.handler? kind = none) {depth : Nat} {left right : Site} {w : World}
    (onLeft : left.Come roots) (onRight : right.Come roots) (same : w.registry = registry) :
    Follows w (visit depth left right w).2 ∧
      ∀ fault, (visit depth left right w).1 = .error fault →
        ∃ d x y v, x.Come roots ∧ y.Come roots ∧ v.registry = registry ∧ Falls d x y v fault := by
  induction depth generalizing left right w with
  | zero =>
    refine ⟨.refl w, fun fault failed => ?_⟩
    cases failed
    exact ⟨0, left, right, w, onLeft, onRight, same, .inl ⟨rfl, rfl⟩⟩
  | succ depth ih =>
    rcases visit_cases depth left right w with
      ⟨fault, v, ran, came⟩ | ⟨l, v, fault, u, ran, ran', came⟩ | ⟨l, v, r, u, ran, ran', came⟩ <;>
      rw [came]
    · refine ⟨prepare_follows ran, fun other failed => ?_⟩
      cases failed
      exact ⟨depth + 1, left, right, w, onLeft, onRight, same, .inr (.inl ⟨v, ran⟩)⟩
    · refine ⟨(prepare_follows ran).trans (prepare_follows ran'), fun other failed => ?_⟩
      cases failed
      exact ⟨depth + 1, left, right, w, onLeft, onRight, same, .inr (.inr ⟨l, v, u, ran, ran'⟩)⟩
    · obtain ⟨both, ⟨comeL, readyL⟩, comeR, readyR⟩ := come_pair onLeft onRight ran ran'
      rcases comparePrepared_cases (visit depth) l r u with
        ⟨b, -, came⟩ | ⟨d, event, -, came⟩ | ⟨new, came⟩ <;> rw [came]
      · exact ⟨both, fun fault failed => by cases failed⟩
      · exact ⟨both.trans (assume_follows u event d), fun fault failed => by cases failed⟩
      · have here : u.registry = registry := both.registry.trans same
        have inside : ∀ x y t, Rule.Asks u.supply l r x y → Follows (entering l r u) t →
            x.Come roots ∧ y.Come roots ∧ t.registry = registry := by
          intro x y t asks later
          obtain ⟨comeX, comeY⟩ := comeL.asks readyL readyR comeR asks
          exact ⟨comeX, comeY, later.registry.trans here⟩
        obtain ⟨follows, origin⟩ := @compareNew_nested (visit depth) l r u new
          (goal_loop readyL (here ▸ noRule l comeL)) fun x y t asks later =>
            (ih (inside x y t asks later).1 (inside x y t asks later).2.1
              (inside x y t asks later).2.2).1
        refine ⟨both.trans follows, fun fault failed => ?_⟩
        obtain ⟨x, y, t, asks, later, faulty⟩ := origin fault failed
        obtain ⟨comeX, comeY, after⟩ := inside x y t asks later
        exact (ih comeX comeY after).2 fault faulty

-- A query is a comparison of its two schemas, each in its scope.
theorem query_visits (depth : Nat) (left right : Schema) (leftScope rightScope : Scope)
    (w : World) : ∃ leftMark rightMark v, v.registry = w.registry ∧
      (query (compareSchemas depth left right leftScope rightScope) w).1 =
        (visit depth ⟨left, leftScope, leftMark⟩ ⟨right, rightScope, rightMark⟩ v).1 := by
  have opens : ∀ u : World, u.registry = w.registry → ∃ leftMark rightMark v,
      v.registry = w.registry ∧ (compareSchemas depth left right leftScope rightScope u).1 =
        (visit depth ⟨left, leftScope, leftMark⟩ ⟨right, rightScope, rightMark⟩ v).1 := by
    intro u same
    obtain ⟨leftMark, rightMark, supply, opened, -⟩ := opening_eq left right leftScope rightScope u
    refine ⟨leftMark, rightMark, { u with supply }, same, ?_⟩
    rw [compareSchemas_eq, opened]
  by_cases idle : w.engine.active = []
  · rw [query_idle _ idle]
    exact opens (w.setEngine reset) rfl
  · rw [query_busy _ idle]
    exact opens w rfl

section
variable (left right : Schema) (leftScope rightScope : Scope)

-- Where a query starts.
def roots : List Place := [(left, leftScope), (right, rightScope)]

theorem roots_come (leftMark rightMark : Nat) :
    Site.Come (roots left right leftScope rightScope) ⟨left, leftScope, leftMark⟩ ∧
      Site.Come (roots left right leftScope rightScope) ⟨right, rightScope, rightMark⟩ :=
  ⟨.inl ⟨_, by simp [roots], .refl⟩, .inl ⟨_, by simp [roots], .refl⟩⟩

end

-- A reference that leads to no schema, or a user kind that is not registered.
def Documented (fault : Fault) : Prop :=
  (∃ target, fault = .unresolved target ∨ fault = .endlessChain target) ∨
    ∃ kind, fault = .unknownKind kind

theorem prepare_documented {p : Site} {w v : World} {fault : Fault}
    (failed : prepare p w = (.error fault, v)) : Documented fault := by
  rcases prepare_fault failed with ⟨target, -, leads⟩ | ⟨t, -, -, -, same⟩
  · exact .inl ⟨target, leads⟩
  · exact .inr ⟨_, same⟩

-- Without rules of user kinds, a query that finishes has an answer or one of the documented faults.
-- A pair whose left side is prepared, as it is whenever the rules are asked, is read by the fields
-- that its kinds have, and the kinds that no rule is for are dealt with before the rules by kind.
theorem query_fails_as_documented {left right : Schema} {leftScope rightScope : Scope} {w : World}
    (noHandlers : ∀ kind, w.registry.handler? kind = none) :
    (∀ depth, (query (compareSchemas depth left right leftScope rightScope) w).1 = .error .tooDeep ∨
      (∃ b, (query (compareSchemas depth left right leftScope rightScope) w).1 = .ok b) ∨
      ∃ fault, (query (compareSchemas depth left right leftScope rightScope) w).1 = .error fault ∧
        Documented fault) ∧
    ∀ (settings : Settings) (mark : Nat) (p l r : Site) (u v : World),
      prepare p u = (.ok l, v) →
      Rule.Read.goal settings w.registry mark l r =
          .ok (Rule.goal settings w.registry mark l r) ∧
        (Rule.Read.early settings l r = .ok none → l.schema.kind ∉ Rule.Read.unruled) := by
  refine ⟨fun depth => ?_, fun settings mark p l r u v prepared => ?_⟩
  · obtain ⟨leftMark, rightMark, start, same, returned⟩ :=
      query_visits depth left right leftScope rightScope w
    obtain ⟨onLeft, onRight⟩ := roots_come left right leftScope rightScope leftMark rightMark
    rw [returned]
    cases outcome : (visit depth ⟨left, leftScope, leftMark⟩ ⟨right, rightScope, rightMark⟩
      start).1 with
    | ok b => exact .inr (.inl ⟨b, rfl⟩)
    | error fault =>
      obtain ⟨d, x, y, v, -, -, -, falls⟩ :=
        (visit_fault (fun _ _ kind _ => noHandlers kind) onLeft onRight same).2 fault outcome
      rcases falls with ⟨-, rfl⟩ | ⟨_, failed⟩ | ⟨_, _, _, -, failed⟩
      · exact .inl rfl
      · exact .inr (.inr ⟨fault, rfl, prepare_documented failed⟩)
      · exact .inr (.inr ⟨fault, rfl, prepare_documented failed⟩)
  · have ready := prepare_ready prepared
    exact ⟨Rule.Read.goal_reads ready.concrete ready.expanded,
      Rule.Read.ruled_of_early ready.concrete ready.expanded⟩

def dangling : Schema :=
  .plain (.object [("leaves", .plain (.array (.plain (.user ⟨"Leaf", rfl⟩ [])))),
    ("link", .plain (.reference .ref (.text "gone")))] .null)

-- A user kind is compared first, then a reference that no scope answers, which is a documented
-- fault.
theorem dangling_fails_as_documented :
    (query (compareSchemas 3 (dangling.place 5).1 (dangling.place 1).1 [] [])
      { supply := 9, registry := [("Leaf", none)] }).1 = .error (.unresolved (.text "gone")) ∧
    ∀ depth, (query (compareSchemas depth (dangling.place 5).1 (dangling.place 1).1 [] [])
        { supply := 9, registry := [("Leaf", none)] }).1 = .error .tooDeep ∨
      (∃ b, (query (compareSchemas depth (dangling.place 5).1 (dangling.place 1).1 [] [])
        { supply := 9, registry := [("Leaf", none)] }).1 = .ok b) ∨
      ∃ fault, (query (compareSchemas depth (dangling.place 5).1 (dangling.place 1).1 [] [])
        { supply := 9, registry := [("Leaf", none)] }).1 = .error fault ∧ Documented fault := by
  refine ⟨rfl, (query_fails_as_documented fun kind => ?_).1⟩
  cases leaf : kind == "Leaf" <;> simp [Registry.handler?, Registry.get?, List.lookup_cons, leaf]

end Engine

end Assignability
