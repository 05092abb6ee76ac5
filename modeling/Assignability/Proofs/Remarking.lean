import Assignability.Proofs.Correspondence
import Assignability.Proofs.Preparation

namespace Assignability

-- Schemas that templates and rules make up have no ids and refer to nothing, so their marks decide
-- nothing.

-- A rule of a user kind that neither compares nor changes anything, and looks at what its schemas
-- hold and not at their identity.
def Handler.Pure (handler : Handler) : Prop :=
  ∃ f : Schema → Schema → Except Fault Bool,
    ∀ left right, (handler left right).outcome? = some (f left.erase right.erase)

def Registry.Pure (registry : Registry) : Prop :=
  ∀ kind handler, registry.handler? kind = some handler → handler.Pure

-- Registries that know the same kinds; their rules may differ.
def Registry.SameKinds (registry other : Registry) : Prop :=
  ∀ kind, registry.knows kind = other.knows kind

theorem erase_children (s : Schema) : s.erase.children = s.children.map Schema.erase := by
  obtain ⟨mark, id, optional, shape⟩ := s
  cases shape with
  | object properties additional =>
    cases additional <;>
      simp [Schema.erase, Schema.children, Schema.shape, Shape.erase, eraseProperties_eq,
        Value.erase, Value.schema?]
  | _ => simp [Schema.erase, Schema.children, Schema.shape, Shape.erase, eraseAll_eq]

-- Nothing inside has an id, refers to anything or waits to be expanded.
def Schema.Anonymous (s : Schema) : Prop :=
  ∀ t ∈ s.erase.parts, t.id.isNull = true ∧ t.isReference = false ∧ t.isTemplate = false

namespace Schema.Anonymous

section
variable {s : Schema} (anonymous : s.Anonymous)
include anonymous

theorem isNull : s.id.isNull = true := by
  have erased := (anonymous _ (self_mem_parts _)).1
  obtain ⟨mark, id, optional, shape⟩ := s
  cases id <;> simp_all [Schema.erase, Schema.id, Value.erase, Value.isNull]

theorem concrete : s.isReference = false := by
  have erased := (anonymous _ (self_mem_parts _)).2.1
  obtain ⟨mark, id, optional, shape⟩ := s
  cases shape <;> simp_all [Schema.erase, Schema.isReference, Schema.shape, Shape.erase]

theorem expanded : s.isTemplate = false := by
  have erased := (anonymous _ (self_mem_parts _)).2.2
  obtain ⟨mark, id, optional, shape⟩ := s
  cases shape <;> simp_all [Schema.erase, Schema.isTemplate, Schema.shape, Shape.erase]

theorem child {c : Schema} (member : c ∈ s.children) : c.Anonymous := by
  have inside : c.erase ∈ s.erase.children := by
    rw [erase_children]
    exact List.mem_map_of_mem member
  exact fun t part => anonymous t (child_parts inside part)

theorem congr {t : Schema} (same : s.erase = t.erase) : t.Anonymous := by
  unfold Schema.Anonymous
  rw [← same]
  exact anonymous

end

theorem of_basic (mark : Nat) (b : Basic) : (Rule.marked mark (.basic b)).Anonymous := by
  intro t member
  cases List.mem_singleton.mp member
  exact ⟨rfl, rfl, rfl⟩

theorem of_members {mark : Nat} {m : Schema} (member : m ∈ Rule.members mark) : m.Anonymous := by
  simp only [Rule.members, List.mem_cons, List.not_mem_nil, or_false] at member
  intro t inside
  rcases member with rfl | rfl | rfl <;>
    simp only [Rule.lengthMember, Rule.descriptionMember, Rule.thenMember, Rule.marked,
      Schema.erase, Shape.erase, Schema.eraseAll, Value.erase, Schema.parts, Shape.parts,
      Schema.partsOfAll, List.append_nil, List.cons_append, List.nil_append, List.mem_cons,
      List.not_mem_nil, or_false] at inside
  · subst inside
    exact ⟨rfl, rfl, rfl⟩
  all_goals rcases inside with rfl | rfl | rfl <;> exact ⟨rfl, rfl, rfl⟩

theorem of_resolve {s : Schema} {parts : List Part} (same : s.erase = Template.resolve parts) :
    s.Anonymous := by
  intro t inside
  rw [same] at inside
  unfold Template.resolve at inside
  split at inside
  · cases List.mem_singleton.mp inside
    exact ⟨rfl, rfl, rfl⟩
  · cases List.mem_singleton.mp inside
    exact ⟨rfl, rfl, rfl⟩
  · simp only [Schema.plain, Schema.parts, Shape.parts, partsOfAll_eq, List.mem_cons,
      List.mem_flatMap, List.mem_map] at inside
    rcases inside with rfl | ⟨_, ⟨text, _, rfl⟩, inside⟩
    · exact ⟨rfl, rfl, rfl⟩
    · cases List.mem_singleton.mp inside
      exact ⟨rfl, rfl, rfl⟩

end Schema.Anonymous

theorem numbered_erase (mark : Nat) (strings : List String) :
    Schema.eraseAll (Template.numbered mark strings) =
      strings.map fun s => Schema.plain (.literal (.text s)) := by
  induction strings generalizing mark with
  | nil => rfl
  | cons s rest ih =>
    simp only [Template.numbered, Schema.eraseAll, ih, List.map_cons]
    rfl

theorem place_resolve_erase (mark : Nat) (parts : List Part) :
    ((Template.resolve parts).place mark).1.erase = Template.resolve parts := by
  unfold Template.resolve
  split
  · rfl
  · rfl
  · rename_i strings _ _
    have placed := Template.placeAll_literals (mark + 1) strings
    simp only [Schema.plain] at placed
    simp only [Schema.plain, Schema.place, Value.place, Shape.place, if_true, placed, Schema.erase,
      Value.erase, Shape.erase, numbered_erase]

-- One schema, or two that were made up alike.
def Remarked (s t : Schema) : Prop :=
  s = t ∨ s.Anonymous ∧ s.erase = t.erase

namespace Remarked

theorem refl (s : Schema) : Remarked s s := .inl rfl

theorem symm {s t : Schema} (same : Remarked s t) : Remarked t s := by
  rcases same with rfl | ⟨anonymous, same⟩
  · exact refl _
  · exact .inr ⟨anonymous.congr same, same.symm⟩

theorem trans {s t u : Schema} (first : Remarked s t) (second : Remarked t u) : Remarked s u := by
  rcases first with rfl | ⟨anonymous, same⟩
  · exact second
  · rcases second with rfl | ⟨_, same'⟩
    · exact .inr ⟨anonymous, same⟩
    · exact .inr ⟨anonymous, same.trans same'⟩

theorem erase {s t : Schema} (same : Remarked s t) : s.erase = t.erase := by
  rcases same with rfl | ⟨_, same⟩
  · rfl
  · exact same

theorem optional {s t : Schema} (same : Remarked s t) : s.optional = t.optional := by
  rw [← erase_optional, same.erase, erase_optional]

theorem kind {s t : Schema} (same : Remarked s t) : s.kind = t.kind := by
  rw [← erase_kind, same.erase, erase_kind]

theorem like {s t : Schema} (same : Remarked s t) : Shape.Like Remarked s.shape t.shape := by
  rcases same with rfl | ⟨anonymous, same⟩
  · exact Shape.like_refl refl _
  · exact (like_of_erase same).refine fun a inside b _ equal => .inr ⟨anonymous.child inside, equal⟩

theorem resolved (mark mark' : Nat) (s : Schema) :
    Remarked (s.resolved mark).1 (s.resolved mark').1 := by
  rcases template_cases s with ⟨parts, shape⟩ | expanded
  · rw [resolved_template shape, resolved_template shape]
    have first := place_resolve_erase mark parts
    exact .inr ⟨.of_resolve first, first.trans (place_resolve_erase mark' parts).symm⟩
  · rw [resolved_self expanded, resolved_self expanded]
    exact refl s

end Remarked

theorem Schema.Anonymous.of_template {s : Schema} {parts : List Part}
    (shape : s.shape = .template parts) (mark : Nat) : (s.resolved mark).1.Anonymous := by
  rw [resolved_template shape]
  exact .of_resolve (place_resolve_erase mark parts)

-- What a schema comes to lies where the schema and its scope lie, unless it was made up: before, or
-- now from a template.
theorem Scope.dereference_origin {ground : List Schema} {scope after : Scope} {s t : Schema}
    (origin : s ∈ ground ∨ s.Anonymous) (entries : ∀ e ∈ scope, e ∈ ground)
    (reached : scope.dereference s = .ok (t, after)) (mark : Nat) :
    (∀ e ∈ after, e ∈ ground) ∧ ((t.resolved mark).1 ∈ ground ∨
      (s.Anonymous ∧ (t.resolved mark).1 = s) ∨ ∃ parts, t.shape = .template parts) := by
  rcases origin with member | anonymous
  · obtain ⟨target, entries⟩ := dereference_among member entries reached
    refine ⟨entries, ?_⟩
    rcases template_cases t with expanded | plain
    · exact .inr (.inr expanded)
    · rw [resolved_self plain]
      exact .inl target
  · rw [dereference_concrete anonymous.concrete, push_of_null anonymous.isNull] at reached
    obtain ⟨rfl, rfl⟩ := Prod.mk.inj (Except.ok.inj reached)
    refine ⟨entries, .inr (.inl ⟨anonymous, ?_⟩)⟩
    rw [resolved_self anonymous.expanded]

namespace Site

structure Twin (s t : Site) : Prop where
  scope : s.scope = t.scope
  schema : Remarked s.schema t.schema

theorem Twin.refl (s : Site) : Twin s s := ⟨rfl, .refl _⟩

theorem Twin.symm {s t : Site} (same : Twin s t) : Twin t s := ⟨same.scope.symm, same.schema.symm⟩

theorem Twin.trans {s t u : Site} (first : Twin s t) (second : Twin t u) : Twin s u :=
  ⟨first.scope.trans second.scope, first.schema.trans second.schema⟩

theorem optionTwin_symm {a b : Option Site} (same : Option.Rel Twin a b) : Option.Rel Twin b a := by
  cases same with
  | none => exact .none
  | some twins => exact .some twins.symm

theorem optionTwin_trans {a b c : Option Site} (first : Option.Rel Twin a b)
    (second : Option.Rel Twin b c) : Option.Rel Twin a c := by
  cases first with
  | none => exact second
  | some twins =>
    cases second with
    | some others => exact .some (twins.trans others)

-- What a site is prepared to, whatever marks are given out.
def prepared? (registry : Registry) (s : Site) : Option Site :=
  (Engine.prepare s { registry }).1.toOption

-- Sites that are prepared alike, or both not at all.
def Alike (registry : Registry) (s t : Site) : Prop :=
  Option.Rel Twin (s.prepared? registry) (t.prepared? registry)

end Site

namespace Engine

theorem prepare_outcome (site : Site) (w : World) :
    (prepare site w).1.toOption = match site.scope.dereference site.schema with
      | .error _ => none
      | .ok (t, scope) =>
        let marks := scopeMarks site w.supply
        if w.registry.knows (t.resolved marks.2).1.kind then
          some ⟨(t.resolved marks.2).1, scope, marks.1⟩ else none := by
  rw [prepare_eq]
  cases site.scope.dereference site.schema with
  | error fault => rfl
  | ok reached =>
    simp only [Registry.ensureKnown]
    split <;> split at * <;> simp_all [Except.toOption]

theorem prepare_twin {s t : Site} {v w : World} (same : s.Twin t)
    (kinds : v.registry.SameKinds w.registry) :
    Option.Rel Site.Twin (prepare s v).1.toOption (prepare t w).1.toOption := by
  -- What is reached on the two sides differs at most in marks.
  have finish : ∀ (a b : Schema) (scope : Scope) (m m' : Nat × Nat),
      Remarked (a.resolved m.2).1 (b.resolved m'.2).1 →
      Option.Rel Site.Twin
        (if v.registry.knows (a.resolved m.2).1.kind then
          some (⟨(a.resolved m.2).1, scope, m.1⟩ : Site) else none)
        (if w.registry.knows (b.resolved m'.2).1.kind then
          some (⟨(b.resolved m'.2).1, scope, m'.1⟩ : Site) else none) := by
    intro a b scope m m' remarked
    rw [kinds, remarked.kind]
    split
    · exact .some ⟨rfl, remarked⟩
    · exact .none
  obtain ⟨schema, scope, mark⟩ := s
  obtain ⟨schema', scope', mark'⟩ := t
  obtain ⟨scopes, schemas⟩ := same
  cases scopes
  rw [prepare_outcome, prepare_outcome]
  rcases schemas with equal | ⟨anonymous, equal⟩
  · cases equal
    cases scope.dereference schema with
    | error fault => exact .none
    | ok reached => exact finish _ _ _ _ _ (.resolved _ _ _)
  · have other := anonymous.congr equal
    simp only [Scope.dereference_concrete anonymous.concrete,
      Scope.dereference_concrete other.concrete, Scope.push_of_null anonymous.isNull,
      Scope.push_of_null other.isNull]
    refine finish _ _ _ _ _ ?_
    rw [resolved_self anonymous.expanded, resolved_self other.expanded]
    exact .inr ⟨anonymous, equal⟩

end Engine

namespace Site

section
variable {registry : Registry} {s t u p : Site} {v w v' w' : World}

theorem Alike.refl (registry : Registry) (s : Site) : Alike registry s s :=
  Engine.prepare_twin (.refl s) fun _ => rfl

theorem Alike.symm (same : Alike registry s t) : Alike registry t s :=
  optionTwin_symm same

theorem Alike.trans (first : Alike registry s t) (second : Alike registry t u) :
    Alike registry s u :=
  optionTwin_trans first second

theorem Twin.alike (same : Twin s t) : Alike registry s t :=
  Engine.prepare_twin same fun _ => rfl

-- What sites that are alike are prepared to, in any worlds that know the same kinds.
theorem Alike.prepared (same : Alike registry s t) (first : v.registry.SameKinds registry)
    (second : w.registry.SameKinds registry) (prepared : Engine.prepare s v = (.ok p, v')) :
    ∃ q w', Engine.prepare t w = (.ok q, w') ∧ p.Twin q := by
  have start : Option.Rel Twin (Engine.prepare s v).1.toOption (s.prepared? registry) :=
    Engine.prepare_twin (.refl s) first
  have last : Option.Rel Twin (t.prepared? registry) (Engine.prepare t w).1.toOption :=
    Engine.prepare_twin (.refl t) fun kind => (second kind).symm
  have outcomes := optionTwin_trans start (optionTwin_trans same last)
  rw [prepared] at outcomes
  cases ran : Engine.prepare t w with
  | mk outcome w' =>
    rw [ran] at outcomes
    cases outcome with
    | error fault => cases outcomes
    | ok q =>
      cases outcomes with
      | some twins => exact ⟨q, w', rfl, twins⟩

theorem Ready.congr (ready : p.Ready registry) {other : Registry}
    (same : registry.SameKinds other) :
    p.Ready other :=
  { ready with known := (same _).symm.trans ready.known }

theorem Alike.of_prepare (prepared : Engine.prepare s w = (.ok p, w'))
    (same : w.registry.SameKinds registry) : Alike registry s p := by
  have ready := (Engine.prepare_ready prepared).congr same
  have outcome : Option.Rel Twin (Engine.prepare s w).1.toOption (s.prepared? registry) :=
    Engine.prepare_twin (.refl s) same
  rw [prepared] at outcome
  unfold Alike
  rw [prepared?, prepared?, Engine.prepare_self (w := { registry }) ready]
  exact optionTwin_symm outcome

end

end Site

theorem Rule.made_cases (mark : Nat) (left right : Schema) :
    made mark left right ∈ members mark ∨ ∃ b, made mark left right = marked mark (.basic b) := by
  unfold made
  split
  · exact .inr ⟨_, rfl⟩
  · exact .inr ⟨_, rfl⟩
  all_goals exact .inl (by simp [members])

theorem Rule.made_anonymous (mark : Nat) (left right : Schema) :
    (made mark left right).Anonymous := by
  rcases made_cases mark left right with member | ⟨b, same⟩
  · exact .of_members member
  · rw [same]
    exact .of_basic mark b

theorem Rule.members_parts {mark : Nat} {m t : Schema} (member : m ∈ members mark)
    (part : t ∈ m.parts) :
    (∃ b, t.shape = .basic b) ∨ (∃ variants, t.shape = .union variants) ∨
      ∃ form parameters returns, t.shape = .callable form parameters returns := by
  simp only [members, List.mem_cons, List.not_mem_nil, or_false] at member
  rcases member with rfl | rfl | rfl <;>
    simp only [lengthMember, descriptionMember, thenMember, marked, Schema.parts, Shape.parts,
      Schema.partsOfAll, List.append_nil, List.cons_append, List.nil_append, List.mem_cons,
      List.not_mem_nil, or_false] at part
  · subst part
    exact .inl ⟨_, rfl⟩
  · rcases part with rfl | rfl | rfl
    · exact .inr (.inl ⟨_, rfl⟩)
    all_goals exact .inl ⟨_, rfl⟩
  · rcases part with rfl | rfl | rfl
    · exact .inr (.inr ⟨_, _, _, rfl⟩)
    all_goals exact .inl ⟨_, rfl⟩

theorem Rule.made_parts {mark : Nat} {left right t : Schema}
    (part : t ∈ (made mark left right).parts) :
    (∃ b, t.shape = .basic b) ∨ (∃ variants, t.shape = .union variants) ∨
      ∃ form parameters returns, t.shape = .callable form parameters returns := by
  rcases made_cases mark left right with member | ⟨b, same⟩
  · exact members_parts member part
  · rw [same] at part
    cases List.mem_singleton.mp part
    exact .inl ⟨b, rfl⟩

theorem Rule.twin_parallel (registry : Registry) (mark mark' : Nat) {left left' right right' : Site}
    (onLeft : left.Twin left') (onRight : right.Twin right') :
    Parallel Remarked (Site.Alike registry) mark mark' left left' right right' := by
  refine ⟨onLeft.alike, onRight.alike, onLeft.schema.like, onRight.schema.like, ?_, ?_, ?_, ?_, ?_⟩
  · exact fun same => Site.Twin.alike ⟨onLeft.scope, same⟩
  · exact fun same => Site.Twin.alike ⟨onRight.scope, same⟩
  · exact fun same => same.optional
  · intro m m' pair
    have anonymous := Schema.Anonymous.of_members (List.of_mem_zip pair).1
    refine Site.Twin.alike ⟨rfl, .inr ⟨anonymous, ?_⟩⟩
    simp only [members, List.zip_cons_cons, List.zip_nil_right, List.mem_cons, Prod.mk.injEq,
      List.not_mem_nil, or_false] at pair
    rcases pair with ⟨rfl, rfl⟩ | ⟨rfl, rfl⟩ | ⟨rfl, rfl⟩ <;> rfl
  · exact fun b => Site.Twin.alike ⟨onLeft.scope, .inr ⟨.of_basic mark b, rfl⟩⟩

-- Twins ask alike, with whatever marks their rules make up schemas.
theorem Rule.goal_twin {settings : Settings} {registry : Registry} (pure : registry.Pure)
    (mark mark' : Nat) {left left' right right' : Site} (onLeft : left.Twin left')
    (onRight : right.Twin right') :
    Goal.Matches (BothSides (Site.Alike registry)) (goal settings registry mark left right)
      (goal settings registry mark' left' right') := by
  refine goal_matches (twin_parallel registry mark mark' onLeft onRight) ?_
  intro kind handler _ found
  obtain ⟨f, answers⟩ := pure kind handler found
  rw [answers, answers, onLeft.schema.erase, onRight.schema.erase]

namespace Rule

theorem goal_settled (settings : Settings) {registry : Registry} (pure : registry.Pure)
    (mark : Nat) (left right : Site) : (goal settings registry mark left right).Settled := by
  rcases goal_cases settings registry mark left right with
    loop | ⟨fault, same, -⟩ | ⟨kind, handler, -, found, same⟩
  · exact loop.settled
  · rw [same]
    trivial
  · obtain ⟨f, answers⟩ := pure kind handler found
    simp [same, Goal.Settled, answers]

-- Goals look at the settings for one answer and at the registry for the rule of one kind.
theorem goal_congr {settings settings' : Settings} {registry registry' : Registry} (mark : Nat)
    {left right : Site} (anyLeft : settings.anyLeftResult = settings'.anyLeftResult)
    (handlers : ∀ kind, left.schema.kind = .user kind →
      registry.handler? kind = registry'.handler? kind) :
    goal settings registry mark left right = goal settings' registry' mark left right := by
  have kinds : byKind registry mark left right = byKind registry' mark left right := by
    unfold byKind
    cases shape : left.schema.shape with
    | user kind fields =>
      have same := handlers kind (by simp [Schema.kind, shape, Shape.kind])
      simp only [user, same]
    | basic b => cases b <;> rfl
    | _ => rfl
  rw [goal_eq, goal_eq, anyLeft]
  unfold distribute
  rw [kinds]

end Rule

end Assignability
