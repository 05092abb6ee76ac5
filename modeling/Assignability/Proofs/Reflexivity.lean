import Assignability.Proofs.Consistency
import Mathlib.Logic.Relation

namespace Assignability

open Relation (ReflTransGen)

-- While a schema is compared with itself, a union may end up on the right of one of its own
-- variants, and an intersection on the left of one of its own.

theorem Binary64.same_self (x : Binary64) : x.same x = true := by
  cases x <;> simp [Binary64.same, Binary64.compare?]

theorem Scalar.sameLiteral_self (value : Scalar) : value.sameLiteral value = true := by
  cases value with
  | real x => exact x.same_self
  | _ => simp [Scalar.sameLiteral]

namespace Site

-- One schema inside `p` is prepared to `q`; `inside` says which are looked at.
def Opens (registry : Registry) (inside : Schema → Option (List Schema)) (p q : Site) : Prop :=
  ∃ schemas, inside p.schema = some schemas ∧ ∃ s ∈ schemas, (p.to s).prepared? registry = some q

-- What can be met from a site on, going from schemas to schemas inside them.
def Meets (registry : Registry) (start q : Site) : Prop :=
  ∃ p, start.prepared? registry = some p ∧
    ReflTransGen (Opens registry fun s => some s.children) p q

-- No intersection that is met has a variant that comes to `never`.
def AvoidsNever (registry : Registry) (start : Site) : Prop :=
  ∀ p q, Meets registry start p → Opens registry Schema.intersected? p q → q.schema.kind ≠ .never

-- Everything at a site comes from `ground`, up to templates that were expanded.
structure From (ground : List Schema) (p : Site) : Prop where
  scope : ∀ e ∈ p.scope, e ∈ ground
  schema : p.schema ∈ ground ∨ p.schema.Anonymous ∧ ∀ t ∈ p.schema.parts,
    t.shape = .basic .string ∨ (∃ text, t.shape = .literal (.text text)) ∨
      ∃ variants, t.shape = .union variants

section
variable {registry : Registry} {start p q : Site} {ground : List Schema}

theorem prepared_reached (found : p.prepared? registry = some q) :
    q.Ready registry ∧ ∃ t mark, p.scope.dereference p.schema = .ok (t, q.scope) ∧
      q.schema = (t.resolved mark).1 := by
  cases ran : Engine.prepare p { registry } with
  | mk outcome after =>
    rw [prepared?, ran] at found
    cases outcome with
    | error fault => cases found
    | ok site =>
      cases found
      obtain ⟨⟨t, reached, made⟩, -, -, -⟩ := Engine.prepare_ok ran
      exact ⟨Engine.prepare_ready ran, t, _, reached, (congrArg Prod.fst made).symm⟩

theorem From.prepared (origin : p.From ground) (found : p.prepared? registry = some q) :
    q.From ground := by
  obtain ⟨-, t, mark, reached, made⟩ := prepared_reached found
  have known : p.schema ∈ ground ∨ p.schema.Anonymous := origin.schema.imp_right fun made => made.1
  obtain ⟨entries, lies⟩ := Scope.dereference_origin known origin.scope reached mark
  refine ⟨entries, ?_⟩
  rw [made]
  rcases lies with inside | ⟨-, same⟩ | ⟨parts, shape⟩
  · exact .inl inside
  · rw [same]
    exact origin.schema
  · exact .inr ⟨.of_template shape mark, fun u part => resolved_parts mark shape part⟩

theorem From.child (origin : p.From ground)
    (closed : ∀ s ∈ ground, ∀ c ∈ s.children, c ∈ ground) {c : Schema}
    (member : c ∈ p.schema.children) : (p.to c).From ground := by
  refine ⟨origin.scope, ?_⟩
  rcases origin.schema with inside | ⟨anonymous, expanded⟩
  · exact .inl (closed _ inside c member)
  · exact .inr ⟨anonymous.child member, fun t part => expanded t (child_parts member part)⟩

theorem Meets.from (origin : start.From ground)
    (closed : ∀ s ∈ ground, ∀ c ∈ s.children, c ∈ ground) (meets : Meets registry start q) :
    q.From ground := by
  obtain ⟨p, found, path⟩ := meets
  induction path with
  | refl => exact origin.prepared found
  | tail _ opens ih =>
    obtain ⟨_, same, s, member, prepared⟩ := opens
    cases same
    exact (ih.child closed member).prepared prepared

theorem Opens.child {inside : Schema → Option (List Schema)}
    (children : ∀ s schemas, inside s = some schemas → s.children = schemas)
    (opens : Opens registry inside p q) : Opens registry (fun s => some s.children) p q := by
  obtain ⟨schemas, found, rest⟩ := opens
  exact ⟨schemas, congrArg some (children _ _ found), rest⟩

theorem Meets.later {inside : Schema → Option (List Schema)} (meets : Meets registry start p)
    (children : ∀ s schemas, inside s = some schemas → s.children = schemas)
    (path : ReflTransGen (Opens registry inside) p q) : Meets registry start q := by
  obtain ⟨first, found, before⟩ := meets
  have after := ReflTransGen.mono
    (fun _ _ (opens : Opens registry inside _ _) => opens.child children) _ _ path
  exact ⟨first, found, before.trans after⟩

theorem Meets.child (meets : Meets registry start p) {s : Schema} (member : s ∈ p.schema.children)
    (found : (p.to s).prepared? registry = some q) : Meets registry start q := by
  obtain ⟨first, start, before⟩ := meets
  exact ⟨first, start, before.tail ⟨_, rfl, s, member, found⟩⟩

theorem Meets.ready (meets : Meets registry start p) : p.Ready registry := by
  obtain ⟨first, found, path⟩ := meets
  rcases path.cases_tail with same | ⟨_, -, _, -, s, -, found'⟩
  · exact same ▸ (prepared_reached found).1
  · exact (prepared_reached found').1

-- Registries are looked at for the kinds they know.
theorem prepared_congr {other : Registry} (same : registry.SameKinds other) :
    prepared? other = prepared? registry := by
  funext p
  simp only [prepared?, Engine.prepare_outcome, same _]

theorem Opens.congr {other : Registry} (same : registry.SameKinds other) :
    Opens other = Opens registry := by
  funext inside p q
  simp only [Opens, prepared_congr same]

theorem AvoidsNever.congr {other : Registry} (avoids : AvoidsNever registry start)
    (same : registry.SameKinds other) : AvoidsNever other start := by
  have meets : Meets other start = Meets registry start := by
    funext q
    simp only [Meets, Opens.congr same, prepared_congr same]
  unfold AvoidsNever
  rw [meets, Opens.congr same]
  exact avoids

-- Variants that are no references and no templates are what they come to.
theorem avoidsNever_of_concrete (origin : start.From ground)
    (closed : ∀ s ∈ ground, ∀ c ∈ s.children, c ∈ ground)
    (concrete : ∀ s ∈ ground, ∀ v ∈ s.intersected?.getD [],
      v.isReference = false ∧ v.isTemplate = false ∧ v.kind ≠ .never) :
    AvoidsNever registry start := by
  rintro p q meets ⟨variants, found, v, member, prepared⟩
  rcases (meets.from origin closed).schema with inside | ⟨-, expanded⟩
  · obtain ⟨notReference, notTemplate, inhabited⟩ :=
      concrete p.schema inside v (by rw [found]; exact member)
    obtain ⟨-, t, mark, reached, made⟩ := prepared_reached prepared
    obtain ⟨same, -⟩ := Prod.mk.inj
      (Except.ok.inj ((Scope.dereference_concrete notReference).symm.trans reached))
    rw [made, ← same, resolved_self notTemplate]
    exact inhabited
  · simpa [intersected_shape.mp found] using expanded p.schema (self_mem_parts _)

-- Nothing that is met inside an intersection, variant by variant, is `never`.
theorem AvoidsNever.not_never (avoids : AvoidsNever registry start) (meets : Meets registry start p)
    {m : Site} (opens : Opens registry Schema.intersected? p m)
    (path : ReflTransGen (Opens registry Schema.intersected?) m q) : q.schema.kind ≠ .never := by
  obtain ⟨k, before, last⟩ := Relation.TransGen.tail'_iff.mp (Relation.TransGen.head' opens path)
  exact avoids k q (meets.later intersected_children before) last

end

end Site

namespace Rule

section
variable {registry : Registry} {mark : Nat} {p : Site} {evidence : Evidence}

theorem zip_self_mem {xs : List Schema} {a b : Schema} (member : (a, b) ∈ xs.zip xs) :
    a = b ∧ a ∈ xs := by
  induction xs with
  | nil => cases member
  | cons x rest ih =>
    rcases List.mem_cons.mp member with same | later
    · cases same
      exact ⟨rfl, List.mem_cons_self⟩
    · exact ⟨(ih later).1, List.mem_cons_of_mem _ (ih later).2⟩

theorem objectObject_self {properties : List (String × Schema)} {additional : Value}
    (distinct : (properties.map Prod.fst).Nodup)
    (children : ∀ q ∈ properties, evidence (p.to q.2) (p.to q.2) true) :
    (objectObject p p properties properties additional).Yields evidence true := by
  have found : ∀ q ∈ properties, properties.lookup q.1 = some q.2 :=
    fun q member => lookup_of_nodup distinct member
  have nothing : (properties.filter fun q => (properties.lookup q.1).isNone) = [] := by
    rw [List.filter_eq_nil_iff]
    intro q member
    simp [found q member]
  simp only [objectObject_eq, Goal.all_yields, List.mem_append, List.mem_flatMap, nothing,
    List.map_nil]
  rintro step (⟨q, member, asked⟩ | asked)
  · simp only [found q member, propertySteps, property, List.mem_cons, List.not_mem_nil,
      or_false] at asked
    rcases asked with rfl | rfl
    · exact children q member
    · simp [Step.Yields, Site.to]
  · cases additional <;> simp [additionalStep] at asked

-- What a schema that is not taken apart asks of itself: its children, each of itself.
theorem byKind_self (noHandlers : ∀ kind, registry.handler? kind = none)
    (ready : p.Ready registry)
    (named : p.schema.propertyNames.Nodup)
    (notAbsorbed : ∀ b ∈ [Basic.any, .unknown, .never], p.schema.shape ≠ .basic b)
    (notUnion : p.schema.united? = none) (notIntersect : p.schema.intersected? = none)
    (children : ∀ c ∈ p.schema.children, evidence (p.to c) (p.to c) true) :
    (byKind registry mark p p).Yields evidence true := by
  cases shape : p.schema.shape with
  | basic b => cases b <;> simp_all [byKind, primitive, accepted]
  | literal value => simp [byKind, literal, shape, Scalar.sameLiteral_self]
  | callable form parameters returns =>
    simp only [Schema.children, shape, List.mem_append, List.mem_singleton] at children
    simp only [byKind, callable, shape, le_refl, and_self, if_true, Goal.all_yields,
      List.mem_append, List.mem_map, List.mem_singleton]
    rintro step (⟨⟨a, b⟩, member, rfl⟩ | rfl)
    · obtain ⟨rfl, inside⟩ := zip_self_mem member
      exact children a (.inl inside)
    · exact children returns (.inr rfl)
  | promise item =>
    simp only [byKind, promise, shape, Goal.compare_yields]
    exact children item (by simp [Schema.children, shape])
  | array items =>
    simp only [byKind, array, shape, Goal.compare_yields]
    exact children items (by simp [Schema.children, shape])
  | tuple items =>
    simp only [byKind, tuple, shape, if_true, Goal.all_yields, List.mem_map]
    rintro step ⟨⟨a, b⟩, member, rfl⟩
    obtain ⟨rfl, inside⟩ := zip_self_mem member
    exact children a (by simpa [Schema.children, shape] using inside)
  | object properties additional =>
    simp only [byKind, object, shape]
    simp only [Schema.propertyNames, shape] at named
    exact objectObject_self named
      fun q member => children q.2 (property_child shape member)
  | record key value =>
    simp only [byKind, record, shape, true_or, if_true, Goal.compare_yields]
    exact children value (by simp [Schema.children, shape])
  | user kind fields => simp [byKind, user, shape, noHandlers, Schema.kind, Shape.kind]
  | template parts => simpa [Schema.isTemplate, shape] using ready.expanded
  | union variants => simp [Schema.united?, shape] at notUnion
  | intersect variants => simp [Schema.intersected?, shape] at notIntersect
  | reference form target => simpa [Schema.isReference, shape] using ready.concrete

end

end Rule

namespace Engine

-- The pairs that are met when a schema is compared with itself: what is met when a union is taken
-- apart, against the union, and an intersection against what is met when it is taken apart.
def selfPairs (registry : Registry) (start : Site) : Set (Site × Site) :=
  {p | start.Meets registry p.1 ∧ start.Meets registry p.2 ∧
    (ReflTransGen (Site.Opens registry Schema.united?) p.2 p.1 ∨
      ReflTransGen (Site.Opens registry Schema.intersected?) p.1 p.2)}

section
variable {base : World} {start l r m : Site} {s : Schema} {variants : List Schema}

theorem held_of_prepared {registry : Registry} {core : Set (Site × Site)} {x y : Site}
    (prepared : ∀ l r, x.prepared? registry = some l → y.prepared? registry = some r →
      (l, r) ∈ core) : (x, y) ∈ Held registry core :=
  fun l r first second => ⟨(l, r), prepared l r first second, .refl l, .refl r⟩

theorem self_held (meets : start.Meets base.registry l) (member : s ∈ l.schema.children) :
    (l.to s, l.to s) ∈ Held base.registry (selfPairs base.registry start) := by
  apply held_of_prepared
  intro p q first second
  cases first.symm.trans second
  have inside := meets.child member first
  exact ⟨inside, inside, .inl .refl⟩

section
variable (onLeft : start.Meets base.registry l) (onRight : start.Meets base.registry r)
include onLeft onRight

theorem variant_held (path : ReflTransGen (Site.Opens base.registry Schema.united?) r l)
    (found : l.schema.united? = some variants) (member : s ∈ variants) :
    (l.to s, r) ∈ Held base.registry (selfPairs base.registry start) := by
  apply held_of_prepared
  intro p q first second
  cases onRight.ready.prepared.symm.trans second
  have opens : Site.Opens base.registry Schema.united? l p := ⟨variants, found, s, member, first⟩
  exact ⟨onLeft.later united_children (.single opens), onRight, .inl (path.tail opens)⟩

theorem part_held (path : ReflTransGen (Site.Opens base.registry Schema.intersected?) l r)
    (found : r.schema.intersected? = some variants) (member : s ∈ variants) :
    (l, r.to s) ∈ Held base.registry (selfPairs base.registry start) := by
  apply held_of_prepared
  intro p q first second
  cases onLeft.ready.prepared.symm.trans first
  have opens : Site.Opens base.registry Schema.intersected? r q :=
    ⟨variants, found, s, member, second⟩
  exact ⟨onLeft, onRight.later intersected_children (.single opens), .inr (path.tail opens)⟩

end

-- A pair that is already met, with one side still to be prepared.
theorem rightward_held (member : (l, m) ∈ selfPairs base.registry start)
    (found : (r.to s).prepared? base.registry = some m) :
    (l, r.to s) ∈ Held base.registry (selfPairs base.registry start) := by
  apply held_of_prepared
  intro p q first second
  cases member.1.ready.prepared.symm.trans first
  cases found.symm.trans second
  exact member

theorem leftward_held (member : (m, r) ∈ selfPairs base.registry start)
    (found : (l.to s).prepared? base.registry = some m) :
    (l.to s, r) ∈ Held base.registry (selfPairs base.registry start) := by
  apply held_of_prepared
  intro p q first second
  cases found.symm.trans first
  cases member.2.1.ready.prepared.symm.trans second
  exact member

section
variable (anyLeft : base.engine.settings.anyLeftResult = true)
  (noHandlers : ∀ kind, base.registry.handler? kind = none)
  (named : ∀ p, start.Meets base.registry p → p.schema.propertyNames.Nodup)
  (avoids : start.AvoidsNever base.registry)
include anyLeft

theorem union_yields (onLeft : start.Meets base.registry l) (onRight : start.Meets base.registry r)
    (opens : Site.Opens base.registry Schema.united? r m)
    (path : ReflTransGen (Site.Opens base.registry Schema.united?) m l) :
    (Rule.goal base.engine.settings base.registry 0 l r).Yields
      (fun x y _ => (x, y) ∈ Held base.registry (selfPairs base.registry start)) true := by
  have whole := path.head opens
  obtain ⟨variants, found, s, member, prepared⟩ := opens
  have inner : (l, r.to s) ∈ Held base.registry (selfPairs base.registry start) :=
    rightward_held ⟨onLeft, onRight.later united_children (.single ⟨_, found, s, member, prepared⟩),
      .inl path⟩ prepared
  have shape := united_shape.mp found
  rw [Rule.goal_eq]
  split_ifs with absorbs never isNever isAny
  · simp
  · simp
  · simp [Schema.kind, shape, Shape.kind] at isNever
  · simp [anyLeft]
  · unfold Rule.distribute
    have notIntersect : r.schema.intersected? = none := by simp [Schema.intersected?, shape]
    rw [found, notIntersect]
    cases ours : l.schema.united? with
    | some us =>
      simp only [Goal.all_yields, List.mem_map]
      rintro step ⟨u, inside, rfl⟩
      exact variant_held onLeft onRight whole ours inside
    | none =>
      have one : Step.compare l (r.to s) ∈ variants.map fun v => .compare l (r.to v) :=
        List.mem_map.mpr ⟨s, member, rfl⟩
      cases l.schema.intersected? with
      | some parts => exact Goal.any_yields.mpr ⟨_, List.mem_append_left _ one, inner⟩
      | none => exact Goal.any_yields.mpr ⟨_, one, inner⟩

omit anyLeft
include avoids

theorem intersect_yields (onLeft : start.Meets base.registry l)
    (onRight : start.Meets base.registry r)
    (opens : Site.Opens base.registry Schema.intersected? l m)
    (path : ReflTransGen (Site.Opens base.registry Schema.intersected?) m r) :
    (Rule.goal base.engine.settings base.registry 0 l r).Yields
      (fun x y _ => (x, y) ∈ Held base.registry (selfPairs base.registry start)) true := by
  have whole := path.head opens
  have inhabited := avoids.not_never onLeft opens path
  obtain ⟨variants, found, s, member, prepared⟩ := opens
  have inner : (l.to s, r) ∈ Held base.registry (selfPairs base.registry start) :=
    leftward_held ⟨onLeft.later intersected_children
      (.single ⟨_, found, s, member, prepared⟩), onRight, .inr path⟩ prepared
  have shape := intersected_shape.mp found
  have notUnion : l.schema.united? = none := by simp [Schema.united?, shape]
  rw [Rule.goal_eq]
  split_ifs with absorbs never isAny
  · simp
  · simp
  · simp [Schema.kind, shape, Shape.kind] at isAny
  · unfold Rule.distribute
    rw [found, notUnion]
    have one : Step.compare (l.to s) r ∈ variants.map fun v => .compare (l.to v) r :=
      List.mem_map.mpr ⟨s, member, rfl⟩
    cases theirs : r.schema.intersected? with
    | some vs =>
      simp only [Goal.all_yields, List.mem_map]
      rintro step ⟨v, inside, rfl⟩
      exact part_held onLeft onRight whole theirs inside
    | none =>
      cases r.schema.united? with
      | some vs => exact Goal.any_yields.mpr ⟨_, List.mem_append_right _ one, inner⟩
      | none => exact Goal.any_yields.mpr ⟨_, one, inner⟩

omit avoids
include anyLeft noHandlers named

theorem self_yields (meets : start.Meets base.registry l) :
    (Rule.goal base.engine.settings base.registry 0 l l).Yields
      (fun x y _ => (x, y) ∈ Held base.registry (selfPairs base.registry start)) true := by
  rw [Rule.goal_eq]
  split_ifs with absorbs never isAny
  · simp
  · simp
  · simp [anyLeft]
  · unfold Rule.distribute
    cases united : l.schema.united? with
    | some variants =>
      simp only [Goal.all_yields, List.mem_map]
      rintro step ⟨v, inside, rfl⟩
      exact variant_held meets meets .refl united inside
    | none =>
      cases intersected : l.schema.intersected? with
      | some variants =>
        simp only [Goal.all_yields, List.mem_map]
        rintro step ⟨v, inside, rfl⟩
        exact part_held meets meets .refl intersected inside
      | none =>
        refine Rule.byKind_self noHandlers meets.ready (named l meets) ?_ united intersected ?_
        · intro b listed shape
          simp [Schema.kind, shape, Shape.kind] at absorbs never isAny
          cases b <;> simp_all [Basic.kind]
        · exact fun c member => self_held meets member

include avoids

theorem selfPairs_consistent (cycle : base.engine.settings.cycleResult = true) :
    Consistent base (selfPairs base.registry start) := by
  rintro ⟨l, r⟩ ⟨onLeft, onRight, related⟩
  refine ⟨0, ?_⟩
  rw [cycle]
  rcases related with path | path <;> rcases path.cases_head with same | ⟨m, opens, rest⟩
  · cases same
    exact self_yields anyLeft noHandlers named onRight
  · exact union_yields anyLeft onLeft onRight opens rest
  · cases same
    exact self_yields anyLeft noHandlers named onLeft
  · exact intersect_yields avoids onLeft onRight opens rest

end

end

-- Compared with itself in one scope, a schema is never found not to extend itself.
theorem query_reflexive {w : World} (cycle : w.engine.settings.cycleResult = true)
    (anyLeft : w.engine.settings.anyLeftResult = true) {s : Schema} {scope : Scope}
    (named : ∀ t ∈ (s :: scope).flatMap Schema.parts, t.propertyNames.Nodup)
    (noRules : ∀ t ∈ (s :: scope).flatMap Schema.parts, ∀ kind, t.kind = .user kind →
      w.registry.handler? kind = none)
    (avoids : Site.AvoidsNever w.registry ⟨s, scope, 0⟩) (placed : Placed w.supply (s :: scope))
    (idle : w.engine.active = []) {depth : Nat} {b : Bool}
    (returned : (query (compareSchemas depth s s scope scope) w).1 = .ok b) : b = true := by
  have inside : ∀ t ∈ s :: scope, t ∈ (s :: scope).flatMap Schema.parts :=
    fun t member => List.mem_flatMap.mpr ⟨t, member, self_mem_parts t⟩
  have origin : Site.From ((s :: scope).flatMap Schema.parts) ⟨s, scope, 0⟩ :=
    ⟨fun e entry => inside e (List.mem_cons_of_mem _ entry), .inl (inside s List.mem_cons_self)⟩
  have distinct : ∀ p, Site.Meets (withoutRules w).registry ⟨s, scope, 0⟩ p →
      p.schema.propertyNames.Nodup := by
    intro p meets
    rcases (meets.from origin placed.coherent.children).schema with member | ⟨-, expanded⟩
    · exact named p.schema member
    · rcases expanded p.schema (self_mem_parts _) with shape | ⟨_, shape⟩ | ⟨_, shape⟩ <;>
        simp [Schema.propertyNames, shape]
  have consistent :
      Consistent (withoutRules w) (selfPairs (withoutRules w).registry ⟨s, scope, 0⟩) :=
    selfPairs_consistent anyLeft (withoutRules_handler w) distinct
      (avoids.congr (withoutRules_kinds w)) cycle
  obtain ⟨ledger, sound, known⟩ := Ledger.exists_of_placed
    {kind | w.registry.handler? kind = none} placed List.mem_cons_self noRules
  have answer := query_held (withoutRules_pure w) consistent
    (serves_withoutRules fun kind free => free) sound (fun t member => known t ?_) idle ?_ returned
  · exact answer.trans cycle
  · simpa [or_assoc] using member
  · apply held_of_prepared
    intro l r first second
    cases first.symm.trans second
    have meets : Site.Meets (withoutRules w).registry ⟨s, scope, 0⟩ l := ⟨l, first, .refl⟩
    exact ⟨meets, meets, .inl .refl⟩

-- A union with a variant that is an intersection over the union itself, and one that refers to a
-- union which is its own variant.
def united : Schema :=
  .mk 0 (.int 1) false (.union
    [.plain (.intersect [.plain (.array (.plain (.reference .this (.int 1)))),
        .plain (.object [("next", .plain (.reference .ref (.int 1)))] .null)]),
      .plain (.literal (.real (.nan 7))), .plain (.template [.text "a", .schema (.basic .boolean)]),
      .plain (.reference .ref (.int 2))])

def ownVariant : Schema :=
  .mk 0 (.int 2) false (.union [.plain (.reference .this (.int 2)), .basic .string])

theorem united_reflexive :
    (query (compareSchemas 8 (united.place 4).1 (united.place 4).1 [(ownVariant.place 1).1]
      [(ownVariant.place 1).1]) { supply := 14 }).1.toOption = some true ∧
    ∀ depth b, (query (compareSchemas depth (united.place 4).1 (united.place 4).1
      [(ownVariant.place 1).1] [(ownVariant.place 1).1]) { supply := 14 }).1 = .ok b →
      b = true := by
  have placed : Placed 14 [(united.place 4).1, (ownVariant.place 1).1] :=
    @Placed.two 1 ownVariant united (by decide) (by decide)
  have origin : Site.From ([(united.place 4).1, (ownVariant.place 1).1].flatMap Schema.parts)
      ⟨(united.place 4).1, [(ownVariant.place 1).1], 0⟩ := by
    refine ⟨fun e entry => ?_, .inl ?_⟩
    · exact List.mem_flatMap.mpr ⟨e, List.mem_cons_of_mem _ entry, self_mem_parts e⟩
    · exact List.mem_flatMap.mpr ⟨_, List.mem_cons_self, self_mem_parts _⟩
  have avoids : Site.AvoidsNever [] ⟨(united.place 4).1, [(ownVariant.place 1).1], 0⟩ :=
    Site.avoidsNever_of_concrete origin placed.coherent.children (by decide)
  refine ⟨by decide +kernel, fun depth b returned => ?_⟩
  exact query_reflexive rfl rfl (by decide) (fun _ _ _ _ => rfl) avoids placed rfl returned

end Engine

end Assignability
