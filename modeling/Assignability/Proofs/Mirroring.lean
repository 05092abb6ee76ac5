import Assignability.Proofs.Chains
import Assignability.Proofs.Decision

namespace Assignability

-- Sites that correspond, in scopes that find what corresponds, are prepared alike and ask alike.

section
variable {like : Schema → Schema → Prop}

theorem optionRel_flip {a b : Option Schema} (related : Option.Rel like a b) :
    Option.Rel (flip like) b a := by
  cases related with
  | none => exact .none
  | some same => exact .some same

theorem VariantsLike.flip {ours theirs : List Schema} (variants : VariantsLike like ours theirs) :
    VariantsLike (flip like) theirs ours :=
  ⟨variants.back, variants.forth⟩

theorem PropertiesLike.flip {ours theirs : List (String × Schema)}
    (properties : PropertiesLike like ours theirs) : PropertiesLike (flip like) theirs ours where
  count := properties.count.symm
  forth q member := by
    obtain ⟨p, found, names, same⟩ := properties.back q member
    exact ⟨p, found, names.symm, same⟩
  back p member := by
    obtain ⟨q, found, names, same⟩ := properties.forth p member
    exact ⟨q, found, names.symm, same⟩
  named name := optionRel_flip (properties.named name)

theorem Shape.Like.flip {shape shape' : Shape} (alike : Shape.Like like shape shape') :
    Shape.Like (flip like) shape' shape := by
  cases alike with
  | basic b => exact .basic b
  | literal value => exact .literal value
  | callable form parameters returns => exact .callable form parameters.flip returns
  | promise item => exact .promise item
  | template parts others => exact .template _ _
  | array items => exact .array items
  | tuple items => exact .tuple items.flip
  | object properties extra => exact .object properties.flip (optionRel_flip extra)
  | record keys value => exact .record keys.symm value
  | union variants => exact .union variants.flip
  | intersect variants => exact .intersect variants.flip
  | reference form target other => exact .reference form _ _
  | user kind fields others => exact .user kind _ _

end

-- A correspondence that keeps what comparisons look at. Schemas that are made up on both sides
-- correspond too. References have their targets, up to marks, among those given.
structure Mirroring (targets : Value → Prop) (like : Schema → Schema → Prop) : Prop where
  id : ∀ {s t}, like s t → s.id.erase = t.id.erase
  optional : ∀ {s t}, like s t → s.optional = t.optional
  shape : ∀ {s t}, like s t → Shape.Like like s.shape t.shape
  target : ∀ {s t form form' target target'}, like s t → s.shape = .reference form target →
    t.shape = .reference form' target' → targets target.erase ∧ target.erase = target'.erase
  expanded : ∀ {s t parts parts'}, like s t → s.shape = .template parts →
    t.shape = .template parts' → ∀ mark mark', like (s.resolved mark).1 (t.resolved mark').1
  basic : ∀ mark mark' b, like (Rule.marked mark (.basic b)) (Rule.marked mark' (.basic b))
  members : ∀ mark mark', List.Forall₂ like (Rule.members mark) (Rule.members mark')

namespace Mirroring

section
variable {targets : Value → Prop} {like : Schema → Schema → Prop}
  (mirroring : Mirroring targets like) {s t : Schema}
include mirroring

theorem flip : Mirroring targets (flip like) where
  id same := (mirroring.id same).symm
  optional same := (mirroring.optional same).symm
  shape same := (mirroring.shape same).flip
  target same shape shape' := by
    obtain ⟨occurs, equal⟩ := mirroring.target same shape' shape
    exact ⟨equal ▸ occurs, equal.symm⟩
  expanded same shape shape' mark mark' := mirroring.expanded same shape' shape mark' mark
  basic mark mark' b := mirroring.basic mark' mark b
  members mark mark' := (mirroring.members mark' mark).flip

theorem kind (same : like s t) : s.kind = t.kind := Rule.like_kind (mirroring.shape same)

theorem isReference (same : like s t) : s.isReference = t.isReference := by
  have alike := mirroring.shape same
  unfold Schema.isReference
  generalize s.shape = shape, t.shape = shape' at alike ⊢
  cases alike <;> rfl

theorem reference (same : like s t) {form : ReferenceForm} {target : Value}
    (shape : s.shape = .reference form target) :
    ∃ target', t.shape = .reference form target' ∧ targets target.erase ∧
      target.erase = target'.erase := by
  have alike := mirroring.shape same
  rw [shape] at alike
  cases shape' : t.shape <;> rw [shape'] at alike <;> cases alike
  exact ⟨_, rfl, mirroring.target same shape shape'⟩

theorem resolved (same : like s t) (mark mark' : Nat) :
    like (s.resolved mark).1 (t.resolved mark').1 := by
  have alike := mirroring.shape same
  rcases template_cases s with ⟨parts, shape⟩ | plain
  · rw [shape] at alike
    cases shape' : t.shape <;> rw [shape'] at alike <;> cases alike
    exact mirroring.expanded same shape shape' mark mark'
  · have plain' : t.isTemplate = false := by
      rw [← plain]
      unfold Schema.isTemplate
      generalize s.shape = shape, t.shape = shape' at alike ⊢
      cases alike <;> rfl
    rwa [resolved_self plain, resolved_self plain']

end

end Mirroring

namespace Scope

-- Scopes that find what corresponds.
def Mirrors (targets : Value → Prop) (like : Schema → Schema → Prop) (scope scope' : Scope) :
    Prop :=
  ∀ target target', targets target.erase → target.erase = target'.erase →
    Option.Rel like (scope.resolve? target) (scope'.resolve? target')

section
variable {targets : Value → Prop} {like : Schema → Schema → Prop} {scope scope' : Scope}
  {s s' t : Schema}

theorem Mirrors.flip (mirrors : Mirrors targets like scope scope') :
    Mirrors targets (flip like) scope' scope :=
  fun target target' occurs same =>
    optionRel_flip (mirrors target' target (same ▸ occurs) same.symm)

variable (mirroring : Mirroring targets like)
include mirroring

theorem Mirrors.of_forall₂ (entries : List.Forall₂ like scope scope') :
    Mirrors targets like scope scope' := by
  intro target target' _ same
  induction entries with
  | nil => exact .none
  | @cons e e' _ _ first _ ih =>
    simp only [resolve?, List.find?_cons]
    rw [Value.equal_congr (mirroring.id first) same]
    cases e'.id.equal target' with
    | true => exact .some first
    | false => exact ih

theorem answer_mirrors (same : like s s') {target target' : Value}
    (equal : target.erase = target'.erase) :
    Option.Rel like (answer? s target) (answer? s' target') := by
  unfold answer?
  rw [Value.equal_congr (mirroring.id same) equal, Value.isNull_congr (mirroring.id same)]
  split
  · exact .some same
  · exact .none

theorem Mirrors.push (mirrors : Mirrors targets like scope scope') (same : like s s')
    (apart : s.id.isNull = false → ∀ e ∈ scope, e.mark = s.mark → e = s)
    (apart' : s'.id.isNull = false → ∀ e ∈ scope', e.mark = s'.mark → e = s') :
    Mirrors targets like (scope.push s) (scope'.push s') := by
  intro target target' occurs equal
  rw [resolve_push apart, resolve_push apart']
  have earlier := mirrors target target' occurs equal
  cases found : scope.resolve? target <;> cases found' : scope'.resolve? target' <;>
    rw [found, found'] at earlier <;> cases earlier
  · exact answer_mirrors mirroring same equal
  · rename_i related
    exact .some related

-- Chains that start alike go on alike.
theorem Leads.mirrors {chain : List Schema} (leads : scope.Leads s chain t)
    (mirrors : Mirrors targets like scope scope') (same : like s s') :
    ∃ chain' t', scope'.Leads s' chain' t' ∧ like t t' := by
  induction leads generalizing s' with
  | here concrete => exact ⟨[], s', .here ((mirroring.isReference same).symm.trans concrete), same⟩
  | @next s n t form target chain shape found _ ih =>
    obtain ⟨target', shape', occurs, equal⟩ := mirroring.reference same shape
    have related := mirrors target target' occurs equal
    rw [found] at related
    cases found' : scope'.resolve? target' with
    | none =>
      rw [found'] at related
      cases related
    | some n' =>
      rw [found'] at related
      cases related with
      | some same' =>
        obtain ⟨chain', t', leads', ends⟩ := ih same'
        exact ⟨_, t', .next shape' found' leads', ends⟩

end

end Scope

namespace Site

-- Everything at a site comes from `ground`, up to what was made up.
structure Within (ground : List Schema) (p : Site) : Prop where
  scope : ∀ e ∈ p.scope, e ∈ ground
  schema : p.schema ∈ ground ∨ p.schema.Anonymous

namespace Within

theorem of_roots {roots : List Schema} {s : Schema} {scope : Scope} {scopeMark : Nat}
    (root : s ∈ roots) (entries : ∀ e ∈ scope, e ∈ roots) :
    Within (roots.flatMap Schema.parts) ⟨s, scope, scopeMark⟩ := by
  have inside : ∀ t ∈ roots, t ∈ roots.flatMap Schema.parts :=
    fun t member => List.mem_flatMap.mpr ⟨t, member, self_mem_parts t⟩
  exact ⟨fun e entry => inside e (entries e entry), .inl (inside s root)⟩

section
variable {ground : List Schema} {p q : Site} {supply : Nat} {w v : World}
  (coherent : Coherent {s | s ∈ ground} supply) (within : p.Within ground)
include coherent within

theorem apart_of_id (present : p.schema.id.isNull = false) :
    ∀ e ∈ p.scope, e.mark = p.schema.mark → e = p.schema := by
  rcases within.schema with member | anonymous
  · exact fun e entry => coherent.apart e (within.scope e entry) _ member
  · rw [anonymous.isNull] at present
    cases present

theorem apart_of_reference (isReference : p.schema.isReference = true) :
    ∀ u ∈ p.schema :: p.scope, ∀ v ∈ p.schema :: p.scope, u.mark = v.mark → u = v := by
  rcases within.schema with member | anonymous
  · have inside : ∀ u ∈ p.schema :: p.scope, u ∈ ground := by
      intro u listed
      rcases List.mem_cons.mp listed with rfl | entry
      · exact member
      · exact within.scope u entry
    exact fun u listed v listed' => coherent.apart u (inside u listed) v (inside v listed')
  · rw [anonymous.concrete] at isReference
    cases isReference

omit coherent in
theorem prepared (prepared : Engine.prepare p w = (.ok q, v)) : q.Within ground := by
  obtain ⟨⟨t, reached, made⟩, -, -, -⟩ := Engine.prepare_ok prepared
  obtain ⟨entries, lies⟩ := Scope.dereference_origin within.schema within.scope reached
    (Engine.scopeMarks p w.supply).2
  refine ⟨entries, ?_⟩
  rcases lies with inside | ⟨anonymous, same⟩ | ⟨parts, shape⟩
  · rw [made] at inside
    exact .inl inside
  · rw [made] at same
    rw [← same] at anonymous
    exact .inr anonymous
  · have anonymous := Schema.Anonymous.of_template shape (Engine.scopeMarks p w.supply).2
    rw [made] at anonymous
    exact .inr anonymous

theorem child {c : Schema} (member : c ∈ p.schema.children) : c ∈ ground ∨ c.Anonymous := by
  rcases within.schema with inside | anonymous
  · exact .inl (coherent.children _ inside c member)
  · exact .inr (anonymous.child member)

end

end Within

-- Sites of two queries that correspond.
structure Mirrors (targets : Value → Prop) (like : Schema → Schema → Prop)
    (ours theirs : List Schema) (p q : Site) : Prop where
  schema : like p.schema q.schema
  scope : Scope.Mirrors targets like p.scope q.scope
  inOurs : p.Within ours
  inTheirs : q.Within theirs

theorem Mirrors.flip {targets : Value → Prop} {like : Schema → Schema → Prop}
    {ours theirs : List Schema} {p q : Site} (mirrors : p.Mirrors targets like ours theirs q) :
    q.Mirrors targets (flip like) theirs ours p :=
  ⟨mirrors.schema, mirrors.scope.flip, mirrors.inTheirs, mirrors.inOurs⟩

end Site

section
variable {targets : Value → Prop} {like : Schema → Schema → Prop}
  (mirroring : Mirroring targets like) {ours theirs : List Schema} {supply supply' : Nat}
  (coherent : Coherent {s | s ∈ ours} supply)
  (coherent' : Coherent {s | s ∈ theirs} supply')
include mirroring coherent coherent'

-- Sites that correspond are prepared to sites that correspond.
theorem Site.Mirrors.prepared {p q l : Site} {v w v' : World}
    (mirrors : p.Mirrors targets like ours theirs q) (kinds : v.registry.SameKinds w.registry)
    (prepared : Engine.prepare p v = (.ok l, v')) :
    ∃ r w', Engine.prepare q w = (.ok r, w') ∧ l.Mirrors targets like ours theirs r := by
  obtain ⟨⟨t, reached, made⟩, -, known, -⟩ := Engine.prepare_ok prepared
  have scopes := mirrors.scope.push mirroring mirrors.schema
    (mirrors.inOurs.apart_of_id coherent) (mirrors.inTheirs.apart_of_id coherent')
  obtain ⟨entered, chain, leads⟩ :=
    (Scope.dereference_iff (mirrors.inOurs.apart_of_reference coherent)).mp reached
  obtain ⟨chain', t', leads', ends⟩ := leads.mirrors mirroring scopes mirrors.schema
  have reached' : q.scope.dereference q.schema = .ok (t', q.scope.push q.schema) :=
    (Scope.dereference_iff (mirrors.inTheirs.apart_of_reference coherent')).mpr
      ⟨rfl, chain', leads'⟩
  have made' : (t.resolved (Engine.scopeMarks p v.supply).2).1 = l.schema := by rw [made]
  have known' : w.registry.knows t'.kind = true := by
    rw [← made'] at known
    rw [← mirroring.kind ends, ← kinds]
    exact known_of_resolved known
  obtain ⟨scopeMark, mark, supply, prepared'⟩ := Engine.prepare_reached reached' known'
  refine ⟨_, _, prepared', ?_, ?_, mirrors.inOurs.prepared prepared,
    mirrors.inTheirs.prepared prepared'⟩
  · rw [← made']
    exact mirroring.resolved ends _ _
  · rw [entered]
    exact scopes

-- What is compared next corresponds again: children with children, and what rules make up.
theorem Rule.mirror_parallel (mark mark' : Nat) {left left' right right' : Site}
    (onLeft : left.Mirrors targets like ours theirs left')
    (onRight : right.Mirrors targets like ours theirs right') :
    Parallel (fun s t => like s t ∧ (s ∈ ours ∨ s.Anonymous) ∧ (t ∈ theirs ∨ t.Anonymous))
      (Site.Mirrors targets like ours theirs) mark mark' left left' right right' where
  onLeft := onLeft
  onRight := onRight
  leftShape := (mirroring.shape onLeft.schema).refine fun a inside b inside' same =>
    ⟨same, onLeft.inOurs.child coherent inside, onLeft.inTheirs.child coherent' inside'⟩
  rightShape := (mirroring.shape onRight.schema).refine fun a inside b inside' same =>
    ⟨same, onRight.inOurs.child coherent inside, onRight.inTheirs.child coherent' inside'⟩
  leftInto same := ⟨same.1, onLeft.scope, ⟨onLeft.inOurs.scope, same.2.1⟩,
    ⟨onLeft.inTheirs.scope, same.2.2⟩⟩
  rightInto same := ⟨same.1, onRight.scope, ⟨onRight.inOurs.scope, same.2.1⟩,
    ⟨onRight.inTheirs.scope, same.2.2⟩⟩
  optional same := mirroring.optional same.1
  member pair := by
    obtain ⟨inside, inside'⟩ := List.of_mem_zip pair
    have same := (List.forall₂_iff_zip.mp (mirroring.members mark mark')).2 pair
    exact ⟨same, fun _ _ _ _ => .none, ⟨by simp [Site.bare], .inr (.of_members inside)⟩,
      ⟨by simp [Site.bare], .inr (.of_members inside')⟩⟩
  item b := ⟨mirroring.basic mark mark' b, onLeft.scope,
    ⟨onLeft.inOurs.scope, .inr (.of_basic mark b)⟩,
    ⟨onLeft.inTheirs.scope, .inr (.of_basic mark' b)⟩⟩

namespace Engine

section
variable {base : World} (pure : base.registry.Pure)
  (noHandlers : ∀ kind, base.registry.handler? kind = none)
include noHandlers

theorem rules_mirrors {pairs others : Set (Site × Site)}
    (carries : ∀ p q, BothSides (Site.Mirrors targets like ours theirs) p q → p ∈ pairs →
      q ∈ others)
    {p q : Site × Site} (mirrors : BothSides (Site.Mirrors targets like ours theirs) p q)
    (member : p ∈ rules base pure pairs) : q ∈ rules base pure others := by
  obtain ⟨l, v, r, u, first, second, yields⟩ := (mem_rules pure).mp member
  obtain ⟨l', v', first', onLeft⟩ := mirrors.1.prepared mirroring coherent coherent'
    (fun _ => rfl) first
  have kinds : v.registry.SameKinds v'.registry := by
    intro kind
    rw [(prepare_ok first).rest, (prepare_ok first').rest]
  obtain ⟨r', u', second', onRight⟩ := mirrors.2.prepared mirroring coherent coherent' kinds second
  refine (mem_rules pure).mpr ⟨l', v', r', u', first', second', ?_⟩
  refine Goal.yields_transfer (Rule.goal_matches
    (Rule.mirror_parallel mirroring coherent coherent' u.supply u'.supply onLeft onRight) ?_)
    ?_ yields
  · intro kind handler _ found
    rw [noHandlers] at found
    cases found
  · exact fun x y same known => ⟨fun _ => rfl, fun _ => carries x y same (known.mpr rfl)⟩

-- What corresponds to settled pairs is consistent, so it is settled too.
theorem settled_mirrors {favoured : Bool} {p q : Site × Site}
    (mirrors : BothSides (Site.Mirrors targets like ours theirs) p q)
    (member : p ∈ settled favoured base pure) : q ∈ settled favoured base pure := by
  let mirrored : Set (Site × Site) :=
    {q | ∃ p ∈ settled favoured base pure, BothSides (Site.Mirrors targets like ours theirs) p q}
  have unfolded : favouring favoured base pure (settled favoured base pure) =
      settled favoured base pure := OrderHom.map_gfp _
  have consistent : mirrored ⊆ favouring favoured base pure mirrored := by
    rintro q ⟨p, member, mirrors⟩
    rw [← unfolded] at member
    cases favoured with
    | true =>
      have carries : ∀ x y, BothSides (Site.Mirrors targets like ours theirs) x y →
          x ∈ settled true base pure → y ∈ mirrored := fun x _ same inside => ⟨x, inside, same⟩
      exact rules_mirrors mirroring coherent coherent' pure noHandlers carries mirrors member
    | false =>
      -- A pair that the rules grant has a counterpart that they grant, the other way round.
      have carries : ∀ y x, BothSides (Site.Mirrors targets (flip like) theirs ours) y x →
          y ∈ mirroredᶜ → x ∈ (settled false base pure)ᶜ :=
        fun _ x same outside inside => outside ⟨x, inside, same.1.flip, same.2.flip⟩
      exact fun granted => member (rules_mirrors mirroring.flip coherent' coherent pure noHandlers
        carries ⟨mirrors.1.flip, mirrors.2.flip⟩ granted)
  exact OrderHom.le_gfp _ consistent ⟨p, member, mirrors⟩

end

end Engine

end

namespace Engine

-- Outermost queries that meet no rule of a user kind and come to an answer.
structure Answered (w : World) (left right : Schema) (leftScope rightScope : Scope) (b : Bool) :
    Prop where
  placed : Placed w.supply (left :: right :: (leftScope ++ rightScope))
  noRules : ∀ t ∈ (left :: right :: (leftScope ++ rightScope)).flatMap Schema.parts,
    ∀ kind, t.kind = .user kind → w.registry.handler? kind = none
  idle : w.engine.active = []
  returned : ∃ depth, (query (compareSchemas depth left right leftScope rightScope) w).1 = .ok b

section
variable {base w w' : World} {left right left' right' : Schema}
  {leftScope rightScope leftScope' rightScope' : Scope} {b b' : Bool}

-- Such a query says whether its pair is settled in any world without rules that it serves.
theorem Answered.iff_settled (answered : Answered w left right leftScope rightScope b)
    (pure : base.registry.Pure) (noHandlers : ∀ kind, base.registry.handler? kind = none)
    (anyLeft : w.engine.settings.anyLeftResult = base.engine.settings.anyLeftResult)
    (cycle : w.engine.settings.cycleResult = base.engine.settings.cycleResult)
    (kinds : w.registry.SameKinds base.registry) :
    b = base.engine.settings.cycleResult ↔ (⟨left, leftScope, 0⟩, ⟨right, rightScope, 0⟩) ∈
      settled base.engine.settings.cycleResult base pure := by
  obtain ⟨depth, returned⟩ := answered.returned
  obtain ⟨ledger, sound, known⟩ := Ledger.exists_of_placed {kind | w.registry.handler? kind = none}
    answered.placed List.mem_cons_self answered.noRules
  have serves : Serves base {kind | w.registry.handler? kind = none} w :=
    ⟨anyLeft, cycle, kinds, fun kind free => free.trans (noHandlers kind).symm⟩
  exact query_settled pure serves sound known answered.idle returned 0 0

section
variable {targets : Value → Prop} {like : Schema → Schema → Prop}
  (mirroring : Mirroring targets like) (one : Answered w left right leftScope rightScope b)
  (two : Answered w' left' right' leftScope' rightScope' b')
  (anyLeft : w'.engine.settings.anyLeftResult = w.engine.settings.anyLeftResult)
  (cycle : w'.engine.settings.cycleResult = w.engine.settings.cycleResult)
  (kinds : w'.registry.SameKinds w.registry) (onLeft : like left left')
  (onRight : like right right')
include mirroring one two anyLeft cycle kinds onLeft onRight

theorem Answered.mirrors_in_scopes (leftScopes : leftScope.Mirrors targets like leftScope')
    (rightScopes : rightScope.Mirrors targets like rightScope') : b = b' := by
  have pure := withoutRules_pure w
  have answer := one.iff_settled pure (withoutRules_handler w) rfl rfl (withoutRules_kinds w)
  have answer' := two.iff_settled pure (withoutRules_handler w) anyLeft cycle
    fun kind => (kinds kind).trans (withoutRules_kinds w kind)
  have starts : BothSides (Site.Mirrors targets like
      ((left :: right :: (leftScope ++ rightScope)).flatMap Schema.parts)
      ((left' :: right' :: (leftScope' ++ rightScope')).flatMap Schema.parts))
      (⟨left, leftScope, 0⟩, ⟨right, rightScope, 0⟩)
      (⟨left', leftScope', 0⟩, ⟨right', rightScope', 0⟩) :=
    ⟨⟨onLeft, leftScopes, .of_roots (by simp) (by simp +contextual),
        .of_roots (by simp) (by simp +contextual)⟩,
      ⟨onRight, rightScopes, .of_roots (by simp) (by simp +contextual),
        .of_roots (by simp) (by simp +contextual)⟩⟩
  have same : b = (withoutRules w).engine.settings.cycleResult ↔
      b' = (withoutRules w).engine.settings.cycleResult := by
    rw [answer, answer']
    constructor
    · exact settled_mirrors mirroring one.placed.coherent two.placed.coherent pure
        (withoutRules_handler w) starts
    · exact settled_mirrors mirroring.flip two.placed.coherent one.placed.coherent pure
        (withoutRules_handler w) ⟨starts.1.flip, starts.2.flip⟩
  generalize (withoutRules w).engine.settings.cycleResult = favoured at same
  cases b <;> cases b' <;> cases favoured <;> simp_all

theorem Answered.mirrors (leftScopes : List.Forall₂ like leftScope leftScope')
    (rightScopes : List.Forall₂ like rightScope rightScope') : b = b' :=
  one.mirrors_in_scopes mirroring two anyLeft cycle kinds onLeft onRight
    (.of_forall₂ mirroring leftScopes) (.of_forall₂ mirroring rightScopes)

end

end

end Engine

end Assignability
