import Assignability.Proofs.Decision

namespace Assignability

-- What a schema without references extends depends neither on scopes nor on the marks that are
-- given out on the way.

-- Nothing inside refers to anything.
def Schema.Concrete (s : Schema) : Prop := ∀ t ∈ s.parts, t.isReference = false

namespace Schema.Concrete

theorem self {s : Schema} (concrete : s.Concrete) : s.isReference = false :=
  concrete s (self_mem_parts s)

theorem child {s c : Schema} (concrete : s.Concrete) (inside : c ∈ s.children) : c.Concrete :=
  fun t part => concrete t (child_parts inside part)

theorem resolved {s : Schema} (concrete : s.Concrete) (mark : Nat) :
    (s.resolved mark).1.Concrete := by
  intro t member
  rcases resolved_part mark member with inside | shape | ⟨_, shape⟩ | ⟨_, shape⟩
  · exact concrete t inside
  all_goals simp [Schema.isReference, shape]

theorem of_members {mark : Nat} {m : Schema} (member : m ∈ Rule.members mark) : m.Concrete := by
  simp only [Rule.members, List.mem_cons, List.not_mem_nil, or_false] at member
  intro t inside
  rcases member with rfl | rfl | rfl <;>
    simp only [Rule.lengthMember, Rule.descriptionMember, Rule.thenMember, Rule.marked,
      Schema.parts, Shape.parts, Schema.partsOfAll, List.append_nil, List.cons_append,
      List.nil_append, List.mem_cons, List.not_mem_nil, or_false] at inside
  · subst inside
    rfl
  all_goals rcases inside with rfl | rfl | rfl <;> rfl

theorem of_basic (mark : Nat) (b : Basic) : (Rule.marked mark (.basic b)).Concrete := by
  intro t inside
  cases List.mem_singleton.mp inside
  rfl

end Schema.Concrete

-- One schema without references, or two that were made up alike.
structure Schema.Level (s t : Schema) : Prop where
  left : s.Concrete
  right : t.Concrete
  same : Remarked s t

theorem Schema.Level.refl {s : Schema} (concrete : s.Concrete) : s.Level s :=
  ⟨concrete, concrete, .refl s⟩

-- Such schemas, in any scopes.
def Site.Level (s t : Site) : Prop := s.schema.Level t.schema

theorem Schema.Level.resolved {s t : Schema} (level : s.Level t) (mark mark' : Nat) :
    (s.resolved mark).1.Level (t.resolved mark').1 := by
  refine ⟨level.left.resolved mark, level.right.resolved mark', ?_⟩
  rcases level.same with same | ⟨anonymous, same⟩
  · rw [same]
    exact .resolved mark mark' t
  · rw [resolved_self anonymous.expanded, resolved_self (anonymous.congr same).expanded]
    exact .inr ⟨anonymous, same⟩

theorem Schema.Level.like {s t : Schema} (level : s.Level t) :
    Shape.Like Schema.Level s.shape t.shape :=
  level.same.like.refine fun _ inLeft _ inRight same =>
    ⟨level.left.child inLeft, level.right.child inRight, same⟩

theorem Rule.level_parallel (mark mark' : Nat) {left left' right right' : Site}
    (onLeft : left.Level left') (onRight : right.Level right') :
    Parallel Schema.Level Site.Level mark mark' left left' right right' := by
  refine ⟨onLeft, onRight, onLeft.like, onRight.like, id, id, fun level => level.same.optional,
    fun pair => ?_, fun b => ⟨.of_basic mark b, .of_basic mark' b, .inr ⟨.of_basic mark b, rfl⟩⟩⟩
  obtain ⟨first, second⟩ := List.of_mem_zip pair
  refine ⟨.of_members first, .of_members second, .inr ⟨.of_members first, ?_⟩⟩
  simp only [members, List.zip_cons_cons, List.zip_nil_right, List.mem_cons, Prod.mk.injEq,
    List.not_mem_nil, or_false] at pair
  rcases pair with ⟨rfl, rfl⟩ | ⟨rfl, rfl⟩ | ⟨rfl, rfl⟩ <;> rfl

theorem Rule.goal_level {settings : Settings} {registry : Registry}
    (noHandlers : ∀ kind, registry.handler? kind = none) (mark mark' : Nat)
    {left left' right right' : Site} (onLeft : left.Level left') (onRight : right.Level right') :
    Goal.Matches (BothSides Site.Level) (goal settings registry mark left right)
      (goal settings registry mark' left' right') := by
  refine goal_matches (level_parallel mark mark' onLeft onRight) ?_
  intro kind handler _ found
  rw [noHandlers] at found
  cases found

-- Data and callables: no records and nothing that no value has, every property is required, and
-- nothing is said of undeclared ones.
def Shape.tame : Shape → Bool
  | .basic b => b != .never
  | .object properties additional =>
    (properties.all fun p => !p.2.optional) && additional.schema?.isNone
  | .record _ _ => false
  | .reference _ _ => false
  | _ => true

-- Kinds that are known and have no rule of their own.
def Registry.plain (registry : Registry) : Kind → Bool
  | .user name => registry.has name && (registry.handler? name).isNone
  | _ => true

-- Everything inside is of that kind, and known without a rule.
def Schema.Tame (registry : Registry) (s : Schema) : Prop :=
  ∀ t ∈ s.parts, t.shape.tame = true ∧ t.propertyNames.Nodup ∧ registry.plain t.kind = true

instance (registry : Registry) (s : Schema) : Decidable (s.Tame registry) :=
  inferInstanceAs (Decidable (∀ t ∈ s.parts,
    t.shape.tame = true ∧ t.propertyNames.Nodup ∧ registry.plain t.kind = true))

namespace Schema.Tame

section
variable {registry : Registry} {s : Schema}

theorem child (tame : s.Tame registry) {c : Schema} (inside : c ∈ s.children) : c.Tame registry :=
  fun t part => tame t (child_parts inside part)

theorem resolved (tame : s.Tame registry) (mark : Nat) : (s.resolved mark).1.Tame registry := by
  intro t member
  rcases resolved_part mark member with inside | shape | ⟨_, shape⟩ | ⟨_, shape⟩
  · exact tame t inside
  all_goals
    simp [shape, Shape.tame, Schema.propertyNames, Schema.kind, Shape.kind, Basic.kind,
      Registry.plain]

theorem concrete (tame : s.Tame registry) : s.Concrete := by
  intro t member
  have allowed := (tame t member).1
  unfold Schema.isReference
  cases shape : t.shape with
  | reference form target => simp [shape, Shape.tame] at allowed
  | _ => rfl

theorem known (tame : s.Tame registry) : registry.knows s.kind = true := by
  have plain := (tame s (self_mem_parts s)).2.2
  cases kind : s.kind with
  | user name =>
    rw [kind] at plain
    exact (Bool.and_eq_true_iff.mp plain).1
  | _ => rfl

theorem no_rule (tame : s.Tame registry) {t : Schema} (part : t ∈ s.parts) {name : String}
    (isUser : t.kind = .user name) : registry.handler? name = none := by
  have plain := (tame t part).2.2
  rw [isUser] at plain
  exact Option.isNone_iff_eq_none.mp (Bool.and_eq_true_iff.mp plain).2

theorem named (tame : s.Tame registry) : s.propertyNames.Nodup := (tame s (self_mem_parts s)).2.1

theorem shape (tame : s.Tame registry) : s.shape.tame = true := (tame s (self_mem_parts s)).1

theorem not_never (tame : s.Tame registry) : s.kind ≠ .never := by
  intro isNever
  have shape := (kind_basic (b := .never)).mp isNever
  simpa [shape, Shape.tame] using tame.shape

end

end Schema.Tame

namespace Engine

-- Preparing a schema that refers to nothing expands it where it stands.
theorem prepare_concrete {site : Site} {w : World} (concrete : site.schema.isReference = false)
    (known : w.registry.knows site.schema.kind = true) :
    ∃ scope scopeMark mark supply, prepare site w =
      (.ok ⟨(site.schema.resolved mark).1, scope, scopeMark⟩, { w with supply }) := by
  obtain ⟨scopeMark, mark, supply, ran⟩ :=
    prepare_reached (Scope.dereference_concrete concrete) known
  exact ⟨_, scopeMark, mark, supply, ran⟩

theorem prepared_resolved {site p : Site} {w w' : World}
    (concrete : site.schema.isReference = false) (prepared : prepare site w = (.ok p, w')) :
    w.registry.knows site.schema.kind = true ∧
      ∃ mark, p.schema = (site.schema.resolved mark).1 := by
  obtain ⟨⟨t, reached, made⟩, -, known, -⟩ := prepare_ok prepared
  rw [Scope.dereference_concrete concrete] at reached
  obtain ⟨same, -⟩ := Prod.mk.inj (Except.ok.inj reached)
  subst same
  have schema : p.schema = (site.schema.resolved (scopeMarks site w.supply).2).1 := by rw [made]
  refine ⟨?_, _, schema⟩
  rcases template_cases site.schema with ⟨parts, shape⟩ | expanded
  · simp [Schema.kind, shape, Shape.kind, Registry.knows]
  · rwa [schema, resolved_self expanded] at known

theorem level_prepared {s t p : Site} {v w v' : World} (level : s.Level t)
    (kinds : v.registry.SameKinds w.registry) (prepared : prepare s v = (.ok p, v')) :
    ∃ q supply, prepare t w = (.ok q, { w with supply }) ∧ p.Level q := by
  obtain ⟨known, mark, schema⟩ := prepared_resolved level.left.self prepared
  rw [kinds, level.same.kind] at known
  obtain ⟨scope, scopeMark, mark', supply, ran⟩ := prepare_concrete level.right.self known
  refine ⟨_, supply, ran, ?_⟩
  unfold Site.Level
  rw [schema]
  exact level.resolved mark mark'

section
variable {base : World} (pure : base.registry.Pure)
  (noHandlers : ∀ kind, base.registry.handler? kind = none)

-- What a schema extends, both sides without a scope.
def Narrower (s t : Schema) : Prop := (Site.bare s, Site.bare t) ∈ (rules base pure).gfp

def narrowing : Evidence := fun x y _ => Narrower pure x.schema y.schema

variable {pure}
include noHandlers

theorem gfp_level : Closed (BothSides Site.Level) (rules base pure).gfp := by
  -- What is level with the fixed point is consistent too.
  let closure : Set (Site × Site) := {q | ∃ p ∈ (rules base pure).gfp, BothSides Site.Level p q}
  have consistent : closure ⊆ rules base pure closure := by
    rintro q ⟨p, member, onLeft, onRight⟩
    rw [← OrderHom.map_gfp] at member
    obtain ⟨l, v, r, u, first, second, yields⟩ := (mem_rules pure).mp member
    have kinds : v.registry.SameKinds base.registry := fun kind => by rw [(prepare_ok first).rest]
    obtain ⟨l', supply, first', levelLeft⟩ := level_prepared onLeft (fun _ => rfl) first
    obtain ⟨r', supply', second', levelRight⟩ :=
      level_prepared (w := { base with supply }) onRight kinds second
    refine (mem_rules pure).mpr ⟨l', _, r', _, first', second', ?_⟩
    refine Goal.yields_transfer (Rule.goal_level noHandlers _ _ levelLeft levelRight) ?_ yields
    exact fun x y same known => ⟨fun _ => rfl, fun _ => ⟨x, known.mpr rfl, same⟩⟩
  intro p q same member
  exact OrderHom.le_gfp _ consistent ⟨p, member, same⟩

-- One round of the rules, on schemas alone.
theorem narrower_iff {s t : Schema} (onLeft : s.Concrete) (onRight : t.Concrete)
    (knownLeft : base.registry.knows s.kind = true)
    (knownRight : base.registry.knows t.kind = true) :
    Narrower pure s t ↔ (Rule.goal base.engine.settings base.registry 0
      (.bare (s.resolved 0).1) (.bare (t.resolved 0).1)).Yields (narrowing pure) true := by
  obtain ⟨scope, scopeMark, mark, supply, first⟩ :=
    @prepare_concrete (.bare s) base onLeft.self knownLeft
  obtain ⟨scope', scopeMark', mark', supply', second⟩ :=
    @prepare_concrete (.bare t) { base with supply } onRight.self knownRight
  have levelLeft := (Schema.Level.refl onLeft).resolved
  have levelRight := (Schema.Level.refl onRight).resolved
  constructor
  · intro member
    unfold Narrower at member
    rw [← OrderHom.map_gfp] at member
    obtain ⟨l, v, r, u, ran, ran', yields⟩ := (mem_rules pure).mp member
    cases first.symm.trans ran
    cases second.symm.trans ran'
    refine Goal.yields_transfer (Rule.goal_level noHandlers _ _ ?_ ?_) ?_ yields
    · exact levelLeft mark 0
    · exact levelRight mark' 0
    · exact fun p q same known => gfp_level noHandlers p
        (.bare q.1.schema, .bare q.2.schema) same (known.mpr rfl)
  · intro yields
    unfold Narrower
    rw [← OrderHom.map_gfp]
    refine (mem_rules pure).mpr ⟨_, _, _, _, first, second, ?_⟩
    refine Goal.yields_transfer (Rule.goal_level noHandlers _ _ ?_ ?_) ?_ yields
    · exact levelLeft 0 mark
    · exact levelRight 0 mark'
    · exact fun p q same known => ⟨fun _ => rfl, fun _ => gfp_level noHandlers
        (.bare p.1.schema, .bare p.2.schema) q same known⟩

variable (anyLeft : base.engine.settings.anyLeftResult = true)
include anyLeft

section
variable {s t : Schema} (onLeft : s.Tame base.registry) (onRight : t.Tame base.registry)
include onLeft onRight

-- A template extends, and is extended by, whatever it expands to.
omit anyLeft in
theorem narrower_resolved :
    Narrower pure s t ↔ Narrower pure (s.resolved 0).1 (t.resolved 0).1 := by
  have expanded : ∀ u : Schema, u.Concrete → ((u.resolved 0).1.resolved 0).1 = (u.resolved 0).1 :=
    fun u concrete => by rw [resolved_self (resolved_ready 0 concrete.self).2.1]
  have left' := onLeft.resolved 0
  have right' := onRight.resolved 0
  rw [narrower_iff noHandlers onLeft.concrete onRight.concrete onLeft.known onRight.known,
    narrower_iff noHandlers left'.concrete right'.concrete left'.known right'.known,
    expanded s onLeft.concrete, expanded t onRight.concrete]

-- With templates expanded, the absorbing kinds come first.
theorem narrower_cases (plainLeft : s.isTemplate = false) (plainRight : t.isTemplate = false) :
    Narrower pure s t ↔ t.kind = .any ∨ t.kind = .unknown ∨ s.kind = .any ∨
      (Rule.distribute base.registry 0 (.bare s) (.bare t)).Yields (narrowing pure) true := by
  rw [narrower_iff noHandlers onLeft.concrete onRight.concrete onLeft.known onRight.known,
    resolved_self plainLeft, resolved_self plainRight, Rule.goal_eq, Site.bare_schema,
    Site.bare_schema]
  have left' := onLeft.not_never
  have right' := onRight.not_never
  split_ifs with absorbs isAny
  · rcases absorbs with isAny | isUnknown <;> simp [*]
  · simp [isAny, anyLeft]
  · obtain ⟨notAny, notUnknown⟩ := not_or.mp absorbs
    simp [isAny, notAny, notUnknown]

theorem narrower_absorbed (absorbs : t.kind = .any ∨ t.kind = .unknown ∨ s.kind = .any) :
    Narrower pure s t := by
  have kept : ∀ (u : Schema) (b : Basic), u.kind = b.kind → (u.resolved 0).1.kind = b.kind := by
    intro u b isBasic
    have shape := kind_basic.mp isBasic
    rwa [resolved_self (by simp [Schema.isTemplate, shape])]
  rw [narrower_resolved noHandlers onLeft onRight, narrower_cases noHandlers anyLeft
    (onLeft.resolved 0) (onRight.resolved 0) (resolved_ready 0 onLeft.concrete.self).2.1
    (resolved_ready 0 onRight.concrete.self).2.1]
  rcases absorbs with isAny | isUnknown | isAny
  · exact .inl (kept t .any isAny)
  · exact .inr (.inl (kept t .unknown isUnknown))
  · exact .inr (.inr (.inl (kept s .any isAny)))

omit anyLeft in
theorem narrower_expandLeft : Narrower pure s t ↔ Narrower pure (s.resolved 0).1 t := by
  rw [narrower_resolved noHandlers onLeft onRight,
    narrower_resolved noHandlers (onLeft.resolved 0) onRight,
    resolved_self (resolved_ready 0 onLeft.concrete.self).2.1]

omit anyLeft in
theorem narrower_expandRight : Narrower pure s t ↔ Narrower pure s (t.resolved 0).1 := by
  rw [narrower_resolved noHandlers onLeft onRight,
    narrower_resolved noHandlers onLeft (onRight.resolved 0),
    resolved_self (resolved_ready 0 onRight.concrete.self).2.1]

end

section
variable {s t : Schema} {variants : List Schema}

theorem union_left (found : s.united? = some variants) (onLeft : s.Tame base.registry)
    (onRight : t.Tame base.registry) :
    Narrower pure s t ↔ ∀ v ∈ variants, Narrower pure v t := by
  have shape := united_shape.mp found
  have inside : ∀ v ∈ variants, v.Tame base.registry :=
    fun v member => onLeft.child (united_children _ _ found ▸ member)
  -- A template on the right is expanded first.
  suffices plain : ∀ u : Schema, u.Tame base.registry → u.isTemplate = false →
      (Narrower pure s u ↔ ∀ v ∈ variants, Narrower pure v u) by
    rw [narrower_expandRight noHandlers onLeft onRight,
      plain _ (onRight.resolved 0) (resolved_ready 0 onRight.concrete.self).2.1]
    exact forall₂_congr fun v member =>
      (narrower_expandRight noHandlers (inside v member) onRight).symm
  intro u tame plain
  rw [narrower_cases noHandlers anyLeft onLeft tame (by simp [Schema.isTemplate, shape]) plain]
  have goal : Rule.distribute base.registry 0 (.bare s) (.bare u) =
      .all (variants.map fun v => .compare (.bare v) (.bare u)) := by
    unfold Rule.distribute
    simp only [Site.bare_schema, found]
    rfl
  rw [goal, Goal.all_yields]
  constructor
  · rintro (isAny | isUnknown | isAny | each) v member
    · exact narrower_absorbed noHandlers anyLeft (inside v member) tame (.inl isAny)
    · exact narrower_absorbed noHandlers anyLeft (inside v member) tame (.inr (.inl isUnknown))
    · simp [Schema.kind, shape, Shape.kind] at isAny
    · exact each _ (List.mem_map_of_mem member)
  · intro each
    refine .inr (.inr (.inr fun step member => ?_))
    obtain ⟨v, inVariants, rfl⟩ := List.mem_map.mp member
    exact each v inVariants

theorem intersect_right_intro (found : t.intersected? = some variants)
    (onLeft : s.Tame base.registry) (onRight : t.Tame base.registry)
    (plain : s.isTemplate = false) (notUnion : s.united? = none)
    (each : ∀ v ∈ variants, Narrower pure s v) : Narrower pure s t := by
  have shape := intersected_shape.mp found
  rw [narrower_cases noHandlers anyLeft onLeft onRight plain (by simp [Schema.isTemplate, shape])]
  refine .inr (.inr (.inr ?_))
  unfold Rule.distribute
  simp only [Site.bare_schema, notUnion, found]
  refine Goal.all_yields.mpr fun step member => ?_
  obtain ⟨v, inVariants, rfl⟩ := List.mem_map.mp member
  exact each v inVariants

theorem intersect_right_elim (found : t.intersected? = some variants)
    (onLeft : s.Tame base.registry) (onRight : t.Tame base.registry)
    (narrower : Narrower pure s t) {v : Schema} (member : v ∈ variants) : Narrower pure s v := by
  have shape := intersected_shape.mp found
  have inside : v.Tame base.registry := onRight.child (intersected_children _ _ found ▸ member)
  -- Down the left side: templates are expanded and unions taken apart before.
  induction weight : s.weight using Nat.strongRecOn generalizing s with
  | ind n ih =>
    subst weight
    rcases template_cases s with ⟨parts, isTemplate⟩ | plain
    · rw [narrower_expandLeft noHandlers onLeft inside]
      refine ih _ (resolved_weight 0 isTemplate) (onLeft.resolved 0) ?_ rfl
      exact (narrower_expandLeft noHandlers onLeft onRight).mp narrower
    · cases united : s.united? with
      | some us =>
        have parts : ∀ u ∈ us, u ∈ s.children :=
          fun u inUnion => united_children _ _ united ▸ inUnion
        rw [union_left noHandlers anyLeft united onLeft onRight] at narrower
        rw [union_left noHandlers anyLeft united onLeft inside]
        intro u inUnion
        exact ih _ (child_weight (parts u inUnion)) (onLeft.child (parts u inUnion))
          (narrower u inUnion) rfl
      | none =>
        rw [narrower_cases noHandlers anyLeft onLeft onRight plain
          (by simp [Schema.isTemplate, shape])] at narrower
        rcases narrower with isAny | isUnknown | isAny | yields
        · simp [Schema.kind, shape, Shape.kind] at isAny
        · simp [Schema.kind, shape, Shape.kind] at isUnknown
        · exact narrower_absorbed noHandlers anyLeft onLeft inside (.inr (.inr isAny))
        · unfold Rule.distribute at yields
          simp only [Site.bare_schema, united, found] at yields
          exact Goal.all_yields.mp yields _ (List.mem_map_of_mem member)

theorem intersect_left_intro (found : s.intersected? = some variants)
    (onLeft : s.Tame base.registry) (onRight : t.Tame base.registry) {v : Schema}
    (member : v ∈ variants) (narrower : Narrower pure v t) : Narrower pure s t := by
  have shape := intersected_shape.mp found
  have plain : s.isTemplate = false := by simp [Schema.isTemplate, shape]
  have notUnion : s.united? = none := by simp [Schema.united?, shape]
  have inside : v.Tame base.registry := onLeft.child (intersected_children _ _ found ▸ member)
  -- Down the right side, where intersections are taken apart before.
  induction weight : t.weight using Nat.strongRecOn generalizing t with
  | ind n ih =>
    subst weight
    rcases template_cases t with ⟨parts, isTemplate⟩ | plainRight
    · rw [narrower_expandRight noHandlers onLeft onRight]
      refine ih _ (resolved_weight 0 isTemplate) (onRight.resolved 0) ?_ rfl
      exact (narrower_expandRight noHandlers inside onRight).mp narrower
    · cases intersected : t.intersected? with
      | some ws =>
        refine intersect_right_intro noHandlers anyLeft intersected onLeft onRight plain notUnion ?_
        intro w inParts
        have part : w ∈ t.children := intersected_children _ _ intersected ▸ inParts
        refine ih _ (child_weight part) (onRight.child part) ?_ rfl
        exact intersect_right_elim noHandlers anyLeft intersected inside onRight narrower inParts
      | none =>
        rw [narrower_cases noHandlers anyLeft onLeft onRight plain plainRight]
        refine .inr (.inr (.inr ?_))
        have one : Step.compare (.bare v) (.bare t) ∈
            variants.map fun u => .compare ((Site.bare s).to u) (.bare t) :=
          List.mem_map.mpr ⟨v, member, rfl⟩
        unfold Rule.distribute
        simp only [Site.bare_schema, notUnion, found, intersected]
        cases t.united? with
        | some us => exact Goal.any_yields.mpr ⟨_, List.mem_append_right _ one, narrower⟩
        | none => exact Goal.any_yields.mpr ⟨_, one, narrower⟩

section
variable (onLeft : s.Tame base.registry) (onRight : t.Tame base.registry)
  (plainLeft : s.isTemplate = false) (notUnion : s.united? = none)
include onLeft onRight plainLeft notUnion

theorem union_right_intro (found : t.united? = some variants) {v : Schema}
    (member : v ∈ variants) (narrower : Narrower pure s v) : Narrower pure s t := by
  have shape := united_shape.mp found
  have notIntersect : t.intersected? = none := by simp [Schema.intersected?, shape]
  rw [narrower_cases noHandlers anyLeft onLeft onRight plainLeft
    (by simp [Schema.isTemplate, shape])]
  refine .inr (.inr (.inr ?_))
  have one : Step.compare (.bare s) (.bare v) ∈
      variants.map fun u => .compare (.bare s) ((Site.bare t).to u) :=
    List.mem_map.mpr ⟨v, member, rfl⟩
  unfold Rule.distribute
  simp only [Site.bare_schema, notUnion, notIntersect, found]
  cases s.intersected? with
  | some us => exact Goal.any_yields.mpr ⟨_, List.mem_append_left _ one, narrower⟩
  | none => exact Goal.any_yields.mpr ⟨_, one, narrower⟩

variable (plainRight : t.isTemplate = false) (notIntersect : t.intersected? = none)
  (notAbsorbed : ¬(t.kind = .any ∨ t.kind = .unknown ∨ s.kind = .any))
include plainRight notIntersect notAbsorbed

-- Against anything but an intersection: one variant on the right, one part on the left, or the
-- kinds of both decide.
theorem narrower_one (narrower : Narrower pure s t) :
    (∃ variants, t.united? = some variants ∧ ∃ v ∈ variants, Narrower pure s v) ∨
    (∃ parts, s.intersected? = some parts ∧ ∃ u ∈ parts, Narrower pure u t) ∨
    s.intersected? = none ∧ t.united? = none ∧
      (Rule.byKind base.registry 0 (.bare s) (.bare t)).Yields (narrowing pure) true := by
  rw [narrower_cases noHandlers anyLeft onLeft onRight plainLeft plainRight] at narrower
  have yields : (Rule.distribute base.registry 0 (.bare s) (.bare t)).Yields (narrowing pure)
      true := by
    rcases narrower with isAny | isUnknown | isAny | yields
    · exact absurd (.inl isAny) notAbsorbed
    · exact absurd (.inr (.inl isUnknown)) notAbsorbed
    · exact absurd (.inr (.inr isAny)) notAbsorbed
    · exact yields
  unfold Rule.distribute at yields
  simp only [Site.bare_schema, notUnion, notIntersect] at yields
  cases ours : s.intersected? with
  | some parts =>
    simp only [ours] at yields
    cases theirs : t.united? with
    | some variants =>
      simp only [theirs] at yields
      obtain ⟨step, member, holds⟩ := Goal.any_yields.mp yields
      rcases List.mem_append.mp member with inRight | inLeft
      · obtain ⟨v, inVariants, rfl⟩ := List.mem_map.mp inRight
        exact .inl ⟨variants, rfl, v, inVariants, holds⟩
      · obtain ⟨u, inParts, rfl⟩ := List.mem_map.mp inLeft
        exact .inr (.inl ⟨parts, rfl, u, inParts, holds⟩)
    | none =>
      simp only [theirs] at yields
      obtain ⟨step, member, holds⟩ := Goal.any_yields.mp yields
      obtain ⟨u, inParts, rfl⟩ := List.mem_map.mp member
      exact .inr (.inl ⟨parts, rfl, u, inParts, holds⟩)
  | none =>
    simp only [ours] at yields
    cases theirs : t.united? with
    | some variants =>
      simp only [theirs] at yields
      obtain ⟨step, member, holds⟩ := Goal.any_yields.mp yields
      obtain ⟨v, inVariants, rfl⟩ := List.mem_map.mp member
      exact .inl ⟨variants, rfl, v, inVariants, holds⟩
    | none =>
      simp only [theirs] at yields
      exact .inr (.inr ⟨rfl, rfl, yields⟩)

omit notAbsorbed in
theorem narrower_byKind (notParts : s.intersected? = none) (notVariants : t.united? = none)
    (yields : (Rule.byKind base.registry 0 (.bare s) (.bare t)).Yields (narrowing pure) true) :
    Narrower pure s t := by
  rw [narrower_cases noHandlers anyLeft onLeft onRight plainLeft plainRight]
  refine .inr (.inr (.inr ?_))
  unfold Rule.distribute
  simp only [Site.bare_schema, notUnion, notIntersect, notParts, notVariants]
  exact yields

end

end

end

end Engine

end Assignability
