import Assignability.Proofs.Reflexivity

namespace Assignability

open Relation (ReflTransGen)

-- An intersection is refused by `never` before its parts are asked, though a part may be `never`
-- itself.

namespace Site

-- Taking intersections apart, from a prepared site on, comes to `never`.
def HoldsNever (registry : Registry) (p : Site) : Prop :=
  ∃ q, ReflTransGen (Opens registry Schema.intersected?) p q ∧ q.schema.kind = .never

-- The same of a site that is still to be prepared.
def ComesToNever (registry : Registry) (start : Site) : Prop :=
  ∃ p, start.prepared? registry = some p ∧ p.HoldsNever registry

section
variable {registry : Registry} {p q : Site}

theorem Opens.ready {inside : Schema → Option (List Schema)} (opens : Opens registry inside p q) :
    q.Ready registry := by
  obtain ⟨_, -, _, -, prepared⟩ := opens
  exact (prepared_reached prepared).1

theorem ComesToNever.congr {other : Registry} (same : registry.SameKinds other) :
    ComesToNever other p ↔ ComesToNever registry p := by
  unfold ComesToNever HoldsNever
  rw [prepared_congr same, Opens.congr same]

theorem alike_prepared (found : p.prepared? registry = some q) : Alike registry p q := by
  unfold Alike
  rw [found, (prepared_reached found).1.prepared]
  exact .some (.refl q)

end

end Site

namespace Engine

section
variable {base : World} (pure : base.registry.Pure) {l m whole p q x y : Site} {v : Schema}
  {parts : List Schema}

-- What is settled is settled by the goal of the pair, from pairs that are settled.
theorem settled_yields (onLeft : l.Ready base.registry) (onRight : m.Ready base.registry)
    (member : (l, m) ∈ settled true base pure) (mark : Nat) :
    (Rule.goal base.engine.settings base.registry mark l m).Yields
      (fun x y _ => (x, y) ∈ settled true base pure) true := by
  have closed : Closed (PairsAlike base.registry) (settled true base pure) := settled_closed pure
  have unfolded : rules base pure (settled true base pure) = settled true base pure :=
    OrderHom.map_gfp _
  rw [← unfolded] at member
  have yields := (mem_rules_ready pure onLeft onRight closed mark).mp member
  exact Goal.yields_mono (fun x y _ known => known.mpr rfl) yields

theorem settled_prepared (member : (x, y) ∈ settled true base pure)
    (first : x.prepared? base.registry = some l) (second : y.prepared? base.registry = some m) :
    (l, m) ∈ settled true base pure :=
  settled_closed pure _ _ ⟨Site.alike_prepared first, Site.alike_prepared second⟩ member

-- What is settled about an intersection on the right: unions on the left come first.
theorem settled_intersection (onLeft : l.Ready base.registry) (onRight : m.Ready base.registry)
    (found : m.schema.intersected? = some parts) (member : (l, m) ∈ settled true base pure)
    (notNever : l.schema.kind ≠ .never) (notAny : l.schema.kind ≠ .any) :
    (∃ variants, l.schema.united? = some variants ∧
      ∀ u ∈ variants, (l.to u, m) ∈ settled true base pure) ∨
    l.schema.united? = none ∧ ∀ s ∈ parts, (l, m.to s) ∈ settled true base pure := by
  have yields := settled_yields pure onLeft onRight member 0
  have kind : m.schema.kind = .intersect := by
    simp [Schema.kind, intersected_shape.mp found, Shape.kind]
  simp only [Rule.goal_eq, kind, reduceCtorEq, or_self, if_false, notNever, notAny] at yields
  unfold Rule.distribute at yields
  rw [found] at yields
  cases united : l.schema.united? with
  | some variants =>
    rw [united] at yields
    refine .inl ⟨variants, rfl, fun u inside => ?_⟩
    exact Goal.all_yields.mp yields _ (List.mem_map.mpr ⟨u, inside, rfl⟩)
  | none =>
    rw [united] at yields
    refine .inr ⟨rfl, fun s inside => ?_⟩
    exact Goal.all_yields.mp yields _ (List.mem_map.mpr ⟨s, inside, rfl⟩)

-- An intersection is refused wherever `never` is met.
theorem settled_inhabited (onLeft : l.Ready base.registry) (onRight : m.Ready base.registry)
    (found : l.schema.intersected? = some parts) (member : (l, m) ∈ settled true base pure) :
    ¬ m.HoldsNever base.registry := by
  rintro ⟨q, path, never⟩
  have kind : l.schema.kind = .intersect := by
    simp [Schema.kind, intersected_shape.mp found, Shape.kind]
  have notUnion : l.schema.united? = none := by
    simp [Schema.united?, intersected_shape.mp found]
  induction path using ReflTransGen.head_induction_on with
  | refl =>
    have yields := settled_yields pure onLeft onRight member 0
    simp [Rule.goal_eq, kind, never] at yields
  | head opens rest ih =>
    have ready := opens.ready
    obtain ⟨others, theirs, s, inside, prepared⟩ := opens
    rcases settled_intersection pure onLeft onRight theirs member (by simp [kind]) (by simp [kind])
      with ⟨_, united, -⟩ | ⟨-, each⟩
    · rw [notUnion] at united
      cases united
    · exact ih ready (settled_prepared pure (each s inside) onLeft.prepared prepared)

-- One side of a settled pair, against what is met when the other side is taken apart.
def TakenApart (l m : Site) : Prop :=
  ∃ whole, whole.Ready base.registry ∧ (l, whole) ∈ settled true base pure ∧
    ReflTransGen (Site.Opens base.registry Schema.intersected?) whole m ∧
    (m.schema.kind = .never → whole = m)

-- Such pairs, and with them the intersections of which a part is on the left of one.
def liftedPairs : Set (Site × Site) :=
  {p | p.1.Ready base.registry ∧ p.2.Ready base.registry ∧ (TakenApart pure p.1 p.2 ∨
    ¬ p.2.HoldsNever base.registry ∧ ∃ parts, p.1.schema.intersected? = some parts ∧
      ∃ v ∈ parts, TakenApart pure (p.1.to v) p.2)}

theorem takenApart_held (apart : TakenApart pure x m) (ready : m.Ready base.registry) :
    (x, m) ∈ Held base.registry (liftedPairs pure) := by
  apply held_of_prepared
  intro l r first second
  cases ready.prepared.symm.trans second
  obtain ⟨whole, readyWhole, member, path, inhabited⟩ := apart
  have settledHere := settled_prepared pure member first readyWhole.prepared
  exact ⟨(Site.prepared_reached first).1, ready, .inl ⟨whole, readyWhole, settledHere, path,
    inhabited⟩⟩

theorem settled_held (member : (x, y) ∈ settled true base pure) :
    (x, y) ∈ Held base.registry (liftedPairs pure) := by
  apply held_of_prepared
  intro l r first second
  have onRight := (Site.prepared_reached second).1
  exact ⟨(Site.prepared_reached first).1, onRight,
    .inl ⟨r, onRight, settled_prepared pure member first second, .refl, fun _ => rfl⟩⟩

theorem settled_yields_held (onLeft : l.Ready base.registry) (onRight : m.Ready base.registry)
    (member : (l, m) ∈ settled true base pure) :
    (Rule.goal base.engine.settings base.registry 0 l m).Yields
      (fun x y _ => (x, y) ∈ Held base.registry (liftedPairs pure)) true :=
  Goal.yields_mono (fun _ _ _ known => settled_held pure known)
    (settled_yields pure onLeft onRight member 0)

-- The induction is on how far the right side has been taken apart: either the left side is a union,
-- and its variants are where it is, or it has been compared with the next part.
theorem takenApart_yields (anyLeft : base.engine.settings.anyLeftResult = true)
    (onLeft : l.Ready base.registry) (apart : TakenApart pure l m) :
    (Rule.goal base.engine.settings base.registry 0 l m).Yields
      (fun x y _ => (x, y) ∈ Held base.registry (liftedPairs pure)) true := by
  obtain ⟨whole, onRight, member, path, inhabited⟩ := apart
  induction path using ReflTransGen.head_induction_on with
  | refl => exact settled_yields_held pure onLeft onRight member
  | @head whole next opens rest ih =>
    have readyNext := opens.ready
    have readyLast : m.Ready base.registry := by
      rcases rest.cases_tail with same | ⟨_, -, last⟩
      · exact same ▸ readyNext
      · exact last.ready
    by_cases never : m.schema.kind = .never
    · cases inhabited never
      exact settled_yields_held pure onLeft onRight member
    by_cases leftNever : l.schema.kind = .never
    · simp [Rule.goal_eq, leftNever]
    by_cases leftAny : l.schema.kind = .any
    · simp [Rule.goal_eq, leftAny, never, anyLeft]
    have whole' := opens
    obtain ⟨parts, found, s, inside, prepared⟩ := opens
    rcases settled_intersection pure onLeft onRight found member leftNever leftAny with
      ⟨variants, united, each⟩ | ⟨notUnion, each⟩
    · rw [Rule.goal_eq]
      split_ifs
      · simp
      · unfold Rule.distribute
        rw [united]
        apply Goal.all_yields.mpr
        intro step asked
        obtain ⟨u, variant, rfl⟩ := List.mem_map.mp asked
        exact takenApart_held pure ⟨whole, onRight, each u variant, rest.head whole', inhabited⟩
          readyLast
    · have onward := settled_prepared pure (each s inside) onLeft.prepared prepared
      exact ih readyNext onward fun isNever => absurd isNever never

-- Where the right side is an intersection, its parts are asked of the whole left side; everywhere
-- else the part of the left side is asked.
theorem lifted_yields (onLeft : l.Ready base.registry) (onRight : m.Ready base.registry)
    (inhabited : ¬ m.HoldsNever base.registry) (found : l.schema.intersected? = some parts)
    (part : v ∈ parts) (apart : TakenApart pure (l.to v) m) :
    (Rule.goal base.engine.settings base.registry 0 l m).Yields
      (fun x y _ => (x, y) ∈ Held base.registry (liftedPairs pure)) true := by
  have kind : l.schema.kind = .intersect := by
    simp [Schema.kind, intersected_shape.mp found, Shape.kind]
  have notUnion : l.schema.united? = none := by
    simp [Schema.united?, intersected_shape.mp found]
  have notNever : m.schema.kind ≠ .never := fun never => inhabited ⟨m, .refl, never⟩
  have one : Step.compare (l.to v) m ∈ parts.map fun v => .compare (l.to v) m :=
    List.mem_map.mpr ⟨v, part, rfl⟩
  have asked := takenApart_held pure apart onRight
  simp only [Rule.goal_eq, kind, notNever, reduceCtorEq, if_false]
  by_cases absorbs : m.schema.kind = .any ∨ m.schema.kind = .unknown
  · simp [absorbs]
  simp only [absorbs, if_false]
  unfold Rule.distribute
  rw [found, notUnion]
  cases theirs : m.schema.intersected? with
  | some others =>
    apply Goal.all_yields.mpr
    intro step asked
    obtain ⟨s, inside, rfl⟩ := List.mem_map.mp asked
    apply held_of_prepared
    intro p q first second
    cases onLeft.prepared.symm.trans first
    have opens : Site.Opens base.registry Schema.intersected? m q :=
      ⟨others, theirs, s, inside, second⟩
    have inhabited' : ¬ q.HoldsNever base.registry := by
      intro holds
      obtain ⟨last, path, never⟩ := holds
      exact inhabited ⟨last, path.head opens, never⟩
    obtain ⟨whole, readyWhole, member, path, -⟩ := apart
    have apart' : TakenApart pure (l.to v) q := ⟨whole, readyWhole, member, path.tail opens,
      fun never => absurd ⟨q, .refl, never⟩ inhabited'⟩
    exact ⟨onLeft, opens.ready, .inr ⟨inhabited', parts, found, v, part, apart'⟩⟩
  | none =>
    cases m.schema.united? with
    | some variants => exact Goal.any_yields.mpr ⟨_, List.mem_append_right _ one, asked⟩
    | none => exact Goal.any_yields.mpr ⟨_, one, asked⟩

theorem lifted_consistent (cycle : base.engine.settings.cycleResult = true)
    (anyLeft : base.engine.settings.anyLeftResult = true) : Consistent base (liftedPairs pure) := by
  rintro ⟨l, m⟩ ⟨onLeft, onRight, lifted⟩
  refine ⟨0, ?_⟩
  rw [cycle]
  rcases lifted with apart | ⟨inhabited, parts, found, v, part, apart⟩
  · exact takenApart_yields pure anyLeft onLeft apart
  · exact lifted_yields pure onLeft onRight inhabited found part apart

end

-- With a part of an intersection, the intersection itself extends a schema, if and only if `never`
-- is not met when the schema is taken apart.
theorem query_intersection_of_part {w w' : World} (registry : w'.registry = w.registry)
    (cycle : w.engine.settings.cycleResult = true) (anyLeft : w.engine.settings.anyLeftResult = true)
    (cycle' : w'.engine.settings.cycleResult = true)
    (anyLeft' : w'.engine.settings.anyLeftResult = true) {i v r : Schema} {parts : List Schema}
    {leftScope rightScope : Scope} (shape : i.shape = .intersect parts)
    (unnamed : i.id.isNull = true) (part : v ∈ parts)
    (noRules : ∀ t ∈ (i :: r :: (leftScope ++ rightScope)).flatMap Schema.parts, ∀ kind,
      t.kind = .user kind → w.registry.handler? kind = none)
    (placed : Placed w.supply (i :: r :: (leftScope ++ rightScope)))
    (placed' : Placed w'.supply (i :: r :: (leftScope ++ rightScope)))
    (idle : w.engine.active = []) (idle' : w'.engine.active = []) {depth depth' : Nat} {b : Bool}
    (extended : (query (compareSchemas depth v r leftScope rightScope) w).1 = .ok true)
    (returned : (query (compareSchemas depth' i r leftScope rightScope) w').1 = .ok b) :
    b = true ↔ ¬ Site.ComesToNever w.registry ⟨r, rightScope, 0⟩ := by
  have pure := withoutRules_pure w
  have child : v ∈ i.children := by
    rw [intersected_children i parts (intersected_shape.mpr shape)]
    exact part
  -- Both queries are measured against one world, in which no kind has a rule.
  let users : Set String := {kind | w.registry.handler? kind = none}
  obtain ⟨ledger, sound, known⟩ :=
    Ledger.exists_of_placed users placed List.mem_cons_self noRules
  obtain ⟨ledger', sound', known'⟩ :=
    Ledger.exists_of_placed users placed' List.mem_cons_self noRules
  have serves : Serves (withoutRules w) users w := serves_withoutRules fun kind free => free
  have serves' : Serves (withoutRules w) users w' := by
    refine ⟨anyLeft'.trans anyLeft.symm, cycle'.trans cycle.symm, ?_, ?_⟩
    · rw [registry]
      exact serves.kinds
    · rw [registry]
      exact serves.handlers
  have knownPart : ∀ s ∈ v :: r :: (leftScope ++ rightScope), s ∈ ledger.schemas := by
    intro s member
    rcases List.mem_cons.mp member with rfl | other
    · exact sound.children i (known i List.mem_cons_self) s child
    · exact known s (List.mem_cons_of_mem _ other)
  have settledPart := (query_settled pure serves sound knownPart idle extended 0 0).mp cycle.symm
  have favoured : (withoutRules w).engine.settings.cycleResult = true := cycle
  rw [favoured] at settledPart
  have ready : Site.Ready (withoutRules w).registry ⟨i, leftScope, 0⟩ :=
    ⟨Scope.push_of_null unnamed, by simp [Schema.isReference, shape],
      by simp [Schema.isTemplate, shape], by simp [Schema.kind, shape, Shape.kind, Registry.knows]⟩
  have found : (⟨i, leftScope, 0⟩ : Site).schema.intersected? = some parts :=
    intersected_shape.mpr shape
  rw [← Site.ComesToNever.congr (withoutRules_kinds w)]
  constructor
  · rintro rfl ⟨p, prepared, holds⟩
    have member := (query_settled pure serves' sound' known' idle' returned 0 0).mp cycle.symm
    rw [favoured] at member
    exact settled_inhabited pure ready (Site.prepared_reached prepared).1 found
      (settled_prepared pure member ready.prepared prepared) holds
  · intro inhabited
    refine (query_held pure (lifted_consistent pure favoured anyLeft) serves' sound' known' idle' ?_
      returned).trans cycle
    apply held_of_prepared
    intro l m first second
    cases ready.prepared.symm.trans first
    have onRight := (Site.prepared_reached second).1
    have member : ((⟨v, leftScope, 0⟩ : Site), m) ∈ settled true (withoutRules w) pure :=
      settled_closed pure (_, ⟨r, rightScope, 0⟩) (_, m)
        ⟨.refl _ _, Site.alike_prepared second⟩ settledPart
    exact ⟨ready, onRight, .inr ⟨fun holds => inhabited ⟨m, second, holds⟩, parts, found, v, part,
      m, onRight, member, .refl, fun _ => rfl⟩⟩

-- An intersection over a reference to itself, and one over a reference to that.
def selfMeet : Schema :=
  .mk 0 (.text "self") false (.intersect
    [.plain (.union [.basic .null, .plain (.array (.basic .any))]),
      .plain (.reference .this (.text "self"))])

def overMeet : Schema :=
  .plain (.intersect [.plain (.reference .ref (.text "self")), .plain (.array (.basic .number))])

def numbers : Schema := .plain (.array (.basic .number))

def twoParts : Schema := .plain (.intersect [.basic .string, numbers])

theorem extends_through_one_part :
    (query (compareSchemas 6 (numbers.place 13).1 (overMeet.place 7).1 [] [(selfMeet.place 1).1])
      { supply := 15 }).1 = .ok true ∧
    (query (compareSchemas 6 (twoParts.place 11).1 (overMeet.place 7).1 [] [(selfMeet.place 1).1])
      { supply := 15 }).1 = .ok true ∧
    ¬ Site.ComesToNever [] ⟨(overMeet.place 7).1, [(selfMeet.place 1).1], 0⟩ := by
  have placed : Placed 15 [(twoParts.place 11).1, (overMeet.place 7).1, (selfMeet.place 1).1] :=
    (@Placed.two 1 selfMeet overMeet (by decide) (by decide)).placeNew twoParts (by decide)
  have extended : (query (compareSchemas 6 (numbers.place 13).1 (overMeet.place 7).1 []
      [(selfMeet.place 1).1]) { supply := 15 }).1 = .ok true := ok_of_toOption (by decide +kernel)
  have returned : (query (compareSchemas 6 (twoParts.place 11).1 (overMeet.place 7).1 []
      [(selfMeet.place 1).1]) { supply := 15 }).1 = .ok true := ok_of_toOption (by decide +kernel)
  refine ⟨extended, returned, ?_⟩
  exact (query_intersection_of_part rfl rfl rfl rfl rfl rfl rfl
    (List.mem_cons_of_mem _ List.mem_cons_self) (fun _ _ _ _ => rfl) placed placed rfl rfl extended
    returned).mp rfl

-- An intersection with the one part `never` does not extend `never`, though its part does.
def onlyNever : Schema := .plain (.intersect [.basic .never])

theorem onlyNever_refused :
    ((Schema.basic .never).place 3).1 ∈ (onlyNever.place 2).1.children ∧
    (query (compareSchemas 1 ((Schema.basic .never).place 3).1 ((Schema.basic .never).place 1).1
      [] []) { supply := 4 }).1 = .ok true ∧
    (query (compareSchemas 1 (onlyNever.place 2).1 ((Schema.basic .never).place 1).1 [] [])
      { supply := 4 }).1 = .ok false :=
  ⟨List.mem_cons_self, rfl, rfl⟩

end Engine

end Assignability
