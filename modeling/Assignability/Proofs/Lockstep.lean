import Assignability.Proofs.Assumptions
import Assignability.Proofs.Decision
import Assignability.Proofs.Renumbering
import Mathlib.Order.Interval.Set.Basic

namespace Assignability

open Set (Ico InjOn)

-- An engine that remembers answers leaves comparisons out. As long as what it remembers is what the
-- other finds, both stop at the same steps and meet the same faults.

-- Two runs side by side. `known` are the marks that one of them can still meet, and `f` takes them
-- to those of the other; what was placed before has the same marks for both.
structure Abreast (ground : List Schema) (known : Set Nat) (supply supply' : Nat)
    (f : Nat → Nat) : Prop extends Renumbers f supply supply' where
  parts : ∀ s ∈ ground, ∀ t ∈ s.parts, t ∈ ground
  fixes : ∀ s ∈ ground, f s.mark = s.mark
  marks : ∀ s ∈ ground, s.mark ∈ known
  bare : 0 ∈ known
  apart : InjOn f known
  below : ∀ k ∈ known, k < supply ∧ f k < supply'

section
variable {ground : List Schema} {known : Set Nat} {supply supply' : Nat} {f : Nat → Nat}

theorem Abreast.fixed (abreast : Abreast ground known supply supply' f) {s : Schema}
    (member : s ∈ ground) : s.renumber f = s :=
  renumber_fixed fun t inside => abreast.fixes t (abreast.parts s member t inside)

-- Marks that were given out before both runs stay, and those given out later follow each other.
theorem Abreast.start {roots : List Schema} {supply supply' : Nat} (inhabited : ∃ s, s ∈ roots)
    (placed : Placed supply roots) (placed' : Placed supply' roots) :
    ∃ known f, Abreast (roots.flatMap Schema.parts) known supply supply' f := by
  have inside : ∀ s ∈ roots.flatMap Schema.parts, ∀ t ∈ s.parts, t ∈ roots.flatMap Schema.parts :=
    fun s member t part => placed.coherent.parts member part
  obtain ⟨s, member⟩ := inhabited
  have part : s ∈ roots.flatMap Schema.parts :=
    List.mem_flatMap.mpr ⟨s, member, self_mem_parts s⟩
  have below : ∀ k ∈ {0} ∪ Schema.mark '' {t | t ∈ roots.flatMap Schema.parts},
      k < supply ∧ k < supply' := by
    rintro k (rfl | ⟨t, part, rfl⟩)
    · have := placed.below s part
      have := placed'.below s part
      omega
    · exact ⟨placed.below t part, placed'.below t part⟩
  have stays : ∀ k ∈ {0} ∪ Schema.mark '' {t | t ∈ roots.flatMap Schema.parts},
      (if k < supply then k else supply' + (k - supply)) = k :=
    fun k member => if_pos (below k member).1
  refine ⟨{0} ∪ Schema.mark '' {t | t ∈ roots.flatMap Schema.parts},
    fun k => if k < supply then k else supply' + (k - supply), ⟨stays 0 (.inl rfl), fun i => ?_⟩,
    inside, fun t part => stays _ (.inr ⟨t, part, rfl⟩), fun t part => .inr ⟨t, part, rfl⟩, .inl rfl,
    fun i first j second same => ?_, fun k member => ?_⟩
  · have beyond : ¬ supply + i < supply := by omega
    simp only [beyond, if_false, Nat.add_sub_cancel_left]
  · simp only [stays i first, stays j second] at same
    exact same
  · rw [stays k member]
    exact below k member

-- Both give out the same number of marks.
theorem Abreast.later (abreast : Abreast ground known supply supply' f) {n : Nat}
    (more : supply ≤ n) : Abreast ground (known ∪ Ico supply n) n (f n) f := by
  have given : ∀ k, supply ≤ k → f k = supply' + (k - supply) := by
    intro k from_
    obtain ⟨i, rfl⟩ := Nat.exists_eq_add_of_le from_
    rw [abreast.onward, Nat.add_sub_cancel_left]
  refine ⟨abreast.toRenumbers.later more, abreast.parts, abreast.fixes,
    fun s member => .inl (abreast.marks s member), .inl abreast.bare, ?_, ?_⟩
  · rintro i (old | new) j (old' | new') same
    · exact abreast.apart old old' same
    · have := (abreast.below i old).2
      have := given j new'.1
      omega
    · have := (abreast.below j old').2
      have := given i new.1
      omega
    · have := given i new.1
      have := given j new'.1
      have := new.1
      have := new'.1
      omega
  · rintro k (old | new)
    · have := abreast.below k old
      have := given n more
      omega
    · have := given n more
      have := given k new.1
      have := new.1
      have := new.2
      omega

-- Marks that were given out aside are no longer met.
theorem Abreast.jump (abreast : Abreast ground known supply supply' f) {n n' : Nat}
    (more : supply ≤ n) (more' : supply' ≤ n') :
    ∃ g, Abreast ground known n n' g ∧ ∀ k ∈ known, g k = f k := by
  have same : ∀ k ∈ known, (if k < supply then f k else n' + (k - n)) = f k :=
    fun k member => if_pos (abreast.below k member).1
  refine ⟨fun k => if k < supply then f k else n' + (k - n), ⟨⟨?_, fun i => ?_⟩, abreast.parts,
    fun s member => ?_, abreast.marks, abreast.bare, fun i first j second equal => ?_,
    fun k member => ?_⟩, same⟩
  · rw [same 0 abreast.bare, abreast.zero]
  · have beyond : ¬ n + i < supply := by omega
    simp only [beyond, if_false, Nat.add_sub_cancel_left]
  · rw [same _ (abreast.marks s member), abreast.fixes s member]
  · simp only [same i first, same j second] at equal
    exact abreast.apart first second equal
  · rw [same k member]
    have := abreast.below k member
    omega

end

-- Where a run can be: at what was placed before, or at what was made up on the way.
structure Site.Stands (ground : List Schema) (known : Set Nat) (x : Site) : Prop where
  scope : ∀ e ∈ x.scope, e ∈ ground
  schema : x.schema ∈ ground ∨ x.schema.Anonymous
  marks : ∀ t ∈ x.schema.parts, t.mark ∈ known
  scopeMark : x.scopeMark ∈ known

section
variable {ground : List Schema} {known : Set Nat} {supply supply' : Nat} {f : Nat → Nat}
  {x y : Site}

theorem Site.Stands.mono (stands : x.Stands ground known) {more : Set Nat} (sub : known ⊆ more) :
    x.Stands ground more :=
  ⟨stands.scope, stands.schema, fun t inside => sub (stands.marks t inside), sub stands.scopeMark⟩

theorem Site.Stands.congr (stands : x.Stands ground known) {g : Nat → Nat}
    (same : ∀ k ∈ known, g k = f k) : x.renumber g = x.renumber f := by
  unfold Site.renumber
  rw [renumber_congr x.schema fun t inside => same _ (stands.marks t inside),
    same _ stands.scopeMark]

theorem Site.Stands.twin (stands : x.Stands ground known)
    (abreast : Abreast ground known supply supply' f) : x.Twin (x.renumber f) := by
  refine ⟨rfl, ?_⟩
  rcases stands.schema with member | anonymous
  · exact .inl (abreast.fixed member).symm
  · exact .inr ⟨anonymous, (renumber_erase x.schema).symm⟩

-- A reference, or a schema that enters the scope, was placed before and keeps its marks.
theorem Site.Stands.push (stands : x.Stands ground known)
    (abreast : Abreast ground known supply supply' f) :
    x.scope.push (x.schema.renumber f) = x.scope.push x.schema := by
  rcases stands.schema with member | anonymous
  · rw [abreast.fixed member]
  · rw [Scope.push_of_null anonymous.isNull,
      Scope.push_of_null (by rw [renumber_id]; exact anonymous.isNull)]

theorem Site.Stands.dereference (stands : x.Stands ground known)
    (abreast : Abreast ground known supply supply' f) {t : Schema} {after : Scope}
    (reached : x.scope.dereference x.schema = .ok (t, after)) :
    x.scope.dereference (x.schema.renumber f) = .ok (t.renumber f, after) := by
  rcases stands.schema with member | anonymous
  · rw [abreast.fixed member, reached,
      abreast.fixed (Scope.dereference_among member stands.scope reached).1]
  · have concrete := anonymous.concrete
    rw [Scope.dereference_concrete concrete] at reached
    obtain ⟨rfl, rfl⟩ := Prod.mk.inj (Except.ok.inj reached)
    rw [Scope.dereference_concrete (by rw [renumber_isReference]; exact concrete),
      stands.push abreast]

theorem Made.parts {first last : Nat} {new : List Schema} (made : Made first last new)
    {s t : Schema} (member : s ∈ new) (inside : t ∈ s.parts) : t ∈ new := by
  have coherent : Coherent {u | u ∈ new} last :=
    ⟨made.children, made.apart, fun u part => (made.between u part).2⟩
  exact coherent.parts member inside

end

namespace Engine

section
variable {ground : List Schema} {known : Set Nat} {supply supply' : Nat} {f : Nat → Nat}
  {x y l r : Site} {c v m : World}

theorem scopeMarks_renumber (stands : x.Stands ground known)
    (abreast : Abreast ground known supply supply' f) :
    scopeMarks (x.renumber f) supply' =
      (f (scopeMarks x supply).1, f (scopeMarks x supply).2) := by
  have first : f supply = supply' := abreast.onward 0
  have second : f (supply + 1) = supply' + 1 := abreast.onward 1
  have pushed : (x.renumber f).scope.push (x.renumber f).schema = x.scope.push x.schema :=
    stands.push abreast
  unfold scopeMarks
  rw [pushed, show (x.renumber f).scope = x.scope from rfl]
  by_cases same : (x.scope.push x.schema).length = x.scope.length
  · rw [if_pos same, if_pos same, first]
    rfl
  · rw [if_neg same, if_neg same, first, second]

-- Preparing goes along.
theorem prepare_renumber (stands : x.Stands ground known)
    (abreast : Abreast ground known c.supply m.supply f)
    (kinds : m.registry.SameKinds c.registry) (prepared : prepare x c = (.ok l, v)) :
    prepare (x.renumber f) m = (.ok (l.renumber f), { m with supply := f v.supply }) := by
  obtain ⟨⟨t, reached, made⟩, scopeMark, isKnown, -⟩ := prepare_ok prepared
  have marks := scopeMarks_renumber stands abreast
  have made' := resolved_renumber (abreast.toRenumbers.later (scopeMarks_le x c.supply)) t
  rw [made] at made'
  have reached' : (x.renumber f).scope.dereference (x.renumber f).schema =
      .ok (t.renumber f, l.scope) := stands.dereference abreast reached
  have isKnown' : m.registry.knows (l.schema.renumber f).kind = true := by
    rw [renumber_kind, kinds, isKnown]
  rw [prepare_eq, reached']
  simp only [marks, made', Registry.ensureKnown, isKnown', if_true]
  rw [← scopeMark]
  rfl

-- What is prepared can be met, with the marks that were given out for it.
theorem prepare_stands (parts : ∀ s ∈ ground, ∀ t ∈ s.parts, t ∈ ground)
    (marks : ∀ s ∈ ground, s.mark ∈ known) (stands : x.Stands ground known)
    (prepared : prepare x c = (.ok l, v)) :
    c.supply ≤ v.supply ∧ l.Stands ground (known ∪ Ico c.supply v.supply) := by
  obtain ⟨⟨t, reached, made⟩, -, -, -⟩ := prepare_ok prepared
  have more : c.supply ≤ v.supply := by
    obtain ⟨supply, more, rest⟩ := prepare_supply x c
    rw [prepared] at rest
    cases rest
    exact more
  obtain ⟨entries, origin⟩ := Scope.dereference_origin stands.schema stands.scope reached
    (scopeMarks x c.supply).2
  have inGround : ∀ {s}, s ∈ ground → ∀ u ∈ s.parts, u.mark ∈ known ∪ Ico c.supply v.supply :=
    fun member u inside => .inl (marks u (parts _ member u inside))
  have scope : l.scopeMark ∈ known ∪ Ico c.supply v.supply := by
    rcases prepare_scope prepared with ⟨-, same, -⟩ | ⟨same, grown⟩
    · exact .inl (same ▸ stands.scopeMark)
    · exact .inr ⟨Nat.le_of_eq same.symm, same ▸ grown⟩
  have schema : (t.resolved (scopeMarks x c.supply).2).1 = l.schema := congrArg Prod.fst made
  have last : (t.resolved (scopeMarks x c.supply).2).2 = v.supply := congrArg Prod.snd made
  refine ⟨more, entries, ?_, ?_, scope⟩
  all_goals rw [← schema]
  all_goals rcases origin with member | ⟨anonymous, same⟩ | ⟨pieces, shape⟩
  · exact .inl member
  · exact .inr (same ▸ anonymous)
  · exact .inr (.of_template shape _)
  · exact inGround member
  · rw [same]
    exact fun u inside => .inl (stands.marks u inside)
  · rw [resolved_template shape] at last ⊢
    obtain ⟨new, given, member⟩ := made_resolve (scopeMarks x c.supply).2 pieces
    intro u inside
    obtain ⟨from_, upto⟩ := given.between u (given.parts member inside)
    exact .inr ⟨Nat.le_trans (scopeMarks_le x c.supply) from_, last ▸ upto⟩

end

end Engine

section
variable {ground : List Schema} {known : Set Nat} {x y : Site}
  (parts : ∀ s ∈ ground, ∀ t ∈ s.parts, t ∈ ground)
include parts

theorem Site.Stands.moves (stands : x.Stands ground known) (moves : x.Moves y) :
    y.Stands ground known := by
  cases moves with
  | stays => exact stands
  | enters child =>
    refine ⟨stands.scope, ?_, fun t inside => stands.marks t (child_parts child inside),
      stands.scopeMark⟩
    rcases stands.schema with member | anonymous
    · exact .inl (parts _ member _ (parts_children (self_mem_parts _) child))
    · exact .inr (anonymous.child child)

-- What a pair asks for has no other marks than the pair and what may be made up for it.
theorem Site.Stands.asks {left right : Site} {mark : Nat} (bare : 0 ∈ known)
    (onLeft : left.Stands ground known) (onRight : right.Stands ground known)
    (asks : Rule.Asks mark left right x y) :
    x.Stands ground (known ∪ Ico mark (mark + Rule.marksUsed)) ∧
      y.Stands ground (known ∪ Ico mark (mark + Rule.marksUsed)) := by
  have more : known ⊆ known ∪ Ico mark (mark + Rule.marksUsed) := Set.subset_union_left
  obtain ⟨new, given, member⟩ := made_made mark left.schema right.schema
  have marks : ∀ t ∈ (Rule.made mark left.schema right.schema).parts,
      t.mark ∈ known ∪ Ico mark (mark + Rule.marksUsed) :=
    fun t inside => .inr (given.between t (given.parts member inside))
  have anonymous := Rule.made_anonymous mark left.schema right.schema
  cases asks with
  | onward first second _ =>
    exact ⟨(onLeft.moves parts first).mono more, (onRight.moves parts second).mono more⟩
  | swapped first second _ =>
    exact ⟨(onRight.moves parts second).mono more, (onLeft.moves parts first).mono more⟩
  | member _ second =>
    exact ⟨⟨fun _ none => (List.not_mem_nil none).elim, .inr anonymous, marks, .inl bare⟩,
      (onRight.moves parts second).mono more⟩
  | item _ second =>
    exact ⟨⟨onLeft.scope, .inr anonymous, marks, .inl onLeft.scopeMark⟩,
      (onRight.moves parts second).mono more⟩

end

-- A site that both runs come to, each under its own marks.
structure Site.Matched (ledger ledger' : Ledger) (ground : List Schema) (known : Set Nat)
    (f : Nat → Nat) (x : Site) : Prop where
  stands : x.Stands ground known
  here : ledger.Knows x
  there : ledger'.Knows (x.renumber f)

-- All marks of a key.
structure PairKey.Among (known : Set Nat) (key : PairKey) : Prop where
  left : key.left ∈ known
  right : key.right ∈ known
  leftScope : key.leftScope ∈ known
  rightScope : key.rightScope ∈ known

section
variable {known : Set Nat} {f g : Nat → Nat} {key other : PairKey}

theorem PairKey.Among.mono (among : key.Among known) {more : Set Nat} (sub : known ⊆ more) :
    key.Among more :=
  ⟨sub among.left, sub among.right, sub among.leftScope, sub among.rightScope⟩

theorem PairKey.Among.congr (among : key.Among known) (same : ∀ k ∈ known, g k = f k) :
    key.renumber g = key.renumber f := by
  simp only [PairKey.renumber, same _ among.left, same _ among.right, same _ among.leftScope,
    same _ among.rightScope]

theorem PairKey.Among.renumber_inj (among : key.Among known) (among' : other.Among known)
    (apart : InjOn f known) (same : key.renumber f = other.renumber f) : key = other := by
  obtain ⟨left, right, leftScope, rightScope⟩ := key
  obtain ⟨left', right', leftScope', rightScope'⟩ := other
  simp only [PairKey.renumber, PairKey.mk.injEq] at same
  obtain ⟨onLeft, onRight, onLeftScope, onRightScope⟩ := same
  cases apart among.left among'.left onLeft
  cases apart among.right among'.right onRight
  cases apart among.leftScope among'.leftScope onLeftScope
  cases apart among.rightScope among'.rightScope onRightScope
  rfl

theorem Site.Stands.among {ground : List Schema} {left right : Site}
    (onLeft : left.Stands ground known) (onRight : right.Stands ground known) :
    (PairKey.of left right).Among known :=
  ⟨onLeft.marks _ (self_mem_parts _), onRight.marks _ (self_mem_parts _), onLeft.scopeMark,
    onRight.scopeMark⟩

theorem Goal.renumber_steps (g : Goal) : (g.renumber f).steps = g.steps.map (Step.renumber f) := by
  cases g <;> rfl

end

theorem Site.Matched.later {ledger ledger' after after' : Ledger} {ground : List Schema}
    {known : Set Nat} {f g : Nat → Nat} {x : Site} (matched : x.Matched ledger ledger' ground known f)
    (grown : ledger.Le after) (grown' : ledger'.Le after') (same : ∀ k ∈ known, g k = f k) :
    x.Matched after after' ground known g := by
  refine ⟨matched.stands, matched.here.later grown, ?_⟩
  rw [matched.stands.congr same]
  exact matched.there.later grown'

theorem steps_congr {ledger ledger' : Ledger} {ground : List Schema} {known : Set Nat}
    {f g : Nat → Nat} {steps : List Step}
    (matched : ∀ x y, .compare x y ∈ steps →
      x.Matched ledger ledger' ground known f ∧ y.Matched ledger ledger' ground known f)
    (same : ∀ k ∈ known, g k = f k) :
    steps.map (Step.renumber g) = steps.map (Step.renumber f) := by
  refine List.map_congr_left fun step inside => ?_
  cases step with
  | holds b => rfl
  | compare x y =>
    obtain ⟨onLeft, onRight⟩ := matched x y inside
    simp only [Step.renumber, onLeft.stands.congr same, onRight.stands.congr same]

namespace Engine

-- The two runs at corresponding moments: one remembers nothing, the other may.
structure Alongside (base : World) (pure : base.registry.Pure) (users : Set String)
    (ledger ledger' : Ledger) (ground : List Schema) (known : Set Nat) (f : Nat → Nat)
    (c m : World) : Prop where
  abreast : Abreast ground known c.supply m.supply f
  order : InOrder base pure users ledger c
  order' : InOrder base pure users ledger' m
  active : m.engine.active.map Prod.fst =
    (c.engine.active.map Prod.fst).map (PairKey.renumber f)
  keys : ∀ key ∈ c.engine.active.map Prod.fst, key.Among known
  forgetful : Forgetful c.engine

section
variable {base : World} {pure : base.registry.Pure} {users : Set String} {ledger ledger' : Ledger}
  {ground : List Schema} {known : Set Nat} {f : Nat → Nat} {c m : World} {x y l r : Site}

-- A pair is being compared in one run if it is in the other.
theorem Alongside.lookup (along : Alongside base pure users ledger ledger' ground known f c m)
    (onLeft : l.Stands ground known) (onRight : r.Stands ground known) :
    m.engine.active.lookup (.of (l.renumber f) (r.renumber f)) = none ↔
      c.engine.active.lookup (.of l r) = none := by
  rw [lookup_none, lookup_none, along.active, PairKey.of_renumber]
  refine not_congr ⟨fun member => ?_, List.mem_map_of_mem⟩
  obtain ⟨key, isActive, same⟩ := List.mem_map.mp member
  cases (along.keys key isActive).renumber_inj (onLeft.among onRight) along.abreast.apart same
  exact isActive

-- The goals of a pair ask for the same, under other marks.
theorem Alongside.goal_eq (along : Alongside base pure users ledger ledger' ground known f c m)
    (noHandlers : ∀ kind, base.registry.handler? kind = none) (here : ledger.Knows l)
    (there : ledger'.Knows (l.renumber f)) :
    Rule.goal m.engine.settings m.registry m.supply (l.renumber f) (r.renumber f) =
      (Rule.goal c.engine.settings c.registry c.supply l r).renumber f := by
  rw [along.order.goal_eq here, along.order'.goal_eq there]
  exact Rule.goal_renumber along.abreast.toRenumbers l r noHandlers _

theorem Alongside.kinds (along : Alongside base pure users ledger ledger' ground known f c m) :
    m.registry.SameKinds c.registry :=
  fun kind => (along.order'.serves.kinds kind).trans (along.order.serves.kinds kind).symm

theorem Alongside.later (along : Alongside base pure users ledger ledger' ground known f c m)
    {u v : World} {after after' : Ledger} (advances : Advances c u) (advances' : Advances m v)
    (order : InOrder base pure users after u) (order' : InOrder base pure users after' v)
    {more : Set Nat} (sub : known ⊆ more) {g : Nat → Nat} (same : ∀ k ∈ known, g k = f k)
    (abreast : Abreast ground more u.supply v.supply g) :
    Alongside base pure users after after' ground more g u v := by
  refine ⟨abreast, order, order', ?_, ?_, advances.forgets along.forgetful⟩
  · rw [advances'.active, advances.active, along.active]
    exact List.map_congr_left fun key isActive => ((along.keys key isActive).congr same).symm
  · rw [advances.active]
    exact fun key isActive => (along.keys key isActive).mono sub

-- Both prepare a pair alike.
theorem Alongside.prepare (along : Alongside base pure users ledger ledger' ground known f c m)
    (onLeft : x.Matched ledger ledger' ground known f)
    (onRight : y.Matched ledger ledger' ground known f) {u v : World}
    (first : prepare x c = (.ok l, v)) (second : prepare y v = (.ok r, u)) :
    ∃ v' u' more after after', Engine.prepare (x.renumber f) m = (.ok (l.renumber f), v') ∧
      Engine.prepare (y.renumber f) v' = (.ok (r.renumber f), u') ∧
      Alongside base pure users after after' ground more f u u' ∧
      l.Stands ground more ∧ r.Stands ground more ∧
      Met base.registry after (l, r) ∧ Met base.registry after' (l.renumber f, r.renumber f) ∧
      Advances m u' := by
  have abreast := along.abreast
  have first' := prepare_renumber onLeft.stands abreast along.kinds first
  obtain ⟨more, onLeft'⟩ := prepare_stands abreast.parts abreast.marks onLeft.stands first
  have abreast₁ := abreast.later more
  have kinds : ({ m with supply := f v.supply } : World).registry.SameKinds v.registry := by
    rw [(prepare_follows first).registry]
    exact along.kinds
  have second' := prepare_renumber (m := { m with supply := f v.supply })
    (onRight.stands.mono Set.subset_union_left) abreast₁ kinds second
  obtain ⟨more', onRight'⟩ := prepare_stands abreast₁.parts abreast₁.marks
    (onRight.stands.mono Set.subset_union_left) second
  obtain ⟨after, -, order, follows, met, -, -⟩ :=
    prepare_both onLeft.here onRight.here (.refl _) along.order first second
  obtain ⟨after', -, order', follows', met', -, -⟩ :=
    prepare_both onLeft.there onRight.there (.refl _) along.order' first' second'
  have advances := (prepare_advances first).trans (prepare_advances second)
  have advances' := (prepare_advances first').trans (prepare_advances second')
  refine ⟨_, _, _, after, after', first', second', ?_, onLeft'.mono Set.subset_union_left, onRight',
    met, met', advances'⟩
  exact along.later advances advances' order order'
    (Set.subset_union_left.trans Set.subset_union_left) (fun _ _ => rfl) (abreast₁.later more')

-- Both enter a pair, and what its goal asks for is matched.
theorem Alongside.enter (along : Alongside base pure users ledger ledger' ground known f c m)
    (noHandlers : ∀ kind, base.registry.handler? kind = none)
    (onLeft : l.Stands ground known) (onRight : r.Stands ground known)
    (met : Met base.registry ledger (l, r))
    (met' : Met base.registry ledger' (l.renumber f, r.renumber f)) :
    ∃ more after after',
      Alongside base pure users after after' ground more f (entering l r c)
        (entering (l.renumber f) (r.renumber f) m) ∧
      ∀ x y, .compare x y ∈ (Rule.goal c.engine.settings c.registry c.supply l r).steps →
        x.Matched after after' ground more f ∧ y.Matched after after' ground more f := by
  have abreast := along.abreast
  obtain ⟨after, -, entered, asked⟩ := entering_ready along.order met
  obtain ⟨after', -, entered', asked'⟩ := entering_ready along.order' met'
  refine ⟨known ∪ Ico c.supply (c.supply + Rule.marksUsed), after, after', ?_, ?_⟩
  · have later := abreast.later (Nat.le_add_right c.supply Rule.marksUsed)
    rw [abreast.onward] at later
    refine ⟨later, entered, entered', ?_, ?_, ⟨along.forgetful.memoize, along.forgetful.results⟩⟩
    · simp only [entering, World.setEngine, Engine.enter, List.map_cons, along.active,
        PairKey.of_renumber]
    · intro key isActive
      rcases List.mem_cons.mp isActive with rfl | outer
      · exact (onLeft.among onRight).mono Set.subset_union_left
      · exact (along.keys key outer).mono Set.subset_union_left
  · intro x y inside
    have inside' : .compare (x.renumber f) (y.renumber f) ∈
        (Rule.goal m.engine.settings m.registry m.supply (l.renumber f) (r.renumber f)).steps := by
      rw [along.goal_eq noHandlers met.knowsLeft met'.knowsLeft, Goal.renumber_steps]
      exact List.mem_map_of_mem inside
    obtain ⟨standsX, standsY⟩ :=
      onLeft.asks abreast.parts abreast.bare onRight (Rule.goal_asks inside)
    exact ⟨⟨standsX, (asked x y inside).1, (asked' _ _ inside').1⟩,
      ⟨standsY, (asked x y inside).2, (asked' _ _ inside').2⟩⟩

-- After a comparison both are where they were, whatever marks they have given out meanwhile.
theorem Alongside.step (along : Alongside base pure users ledger ledger' ground known f c m)
    (onLeft : x.Matched ledger ledger' ground known f)
    (onRight : y.Matched ledger ledger' ground known f) (depth : Nat) :
    ∃ g after after', ledger.Le after ∧ ledger'.Le after' ∧ (∀ k ∈ known, g k = f k) ∧
      Advances c (visit depth x y c).2 ∧
      Advances m (visit depth (x.renumber f) (y.renumber f) m).2 ∧
      Alongside base pure users after after' ground known g (visit depth x y c).2
        (visit depth (x.renumber f) (y.renumber f) m).2 := by
  obtain ⟨⟨after, grown, order⟩, advances, -⟩ := visit_advances depth ledger x y onLeft.here
    onRight.here c ⟨ledger, .refl _, along.order⟩
  obtain ⟨⟨after', grown', order'⟩, advances', -⟩ := visit_advances depth ledger' _ _ onLeft.there
    onRight.there m ⟨ledger', .refl _, along.order'⟩
  obtain ⟨g, abreast, same⟩ := along.abreast.jump advances.supply advances'.supply
  exact ⟨g, after, after', grown, grown', same, advances, advances',
    along.later advances advances' order order' subset_rfl same abreast⟩

end

-- What the second run remembers, if anything, is what the first finds in the end.
def Trusts (base : World) (pure : base.registry.Pure) (c m c' : World) : Prop :=
  Forgetful m.engine ∨ c.engine.settings.trace = true ∧ Final base pure c'

-- A comparison that comes to an answer comes to it in the second run as well.
def Repeats (base : World) (pure : base.registry.Pure) (users : Set String)
    (ground : List Schema) (depth : Nat) : Prop :=
  ∀ {ledger ledger' known f c m x y b c'},
    Alongside base pure users ledger ledger' ground known f c m →
    Site.Matched ledger ledger' ground known f x → Site.Matched ledger ledger' ground known f y →
    visit depth x y c = (.ok b, c') → Trusts base pure c m c' →
    (visit depth (x.renumber f) (y.renumber f) m).1 = .ok b

section
variable {base : World} {pure : base.registry.Pure} {users : Set String} {ledger ledger' : Ledger}
  {ground : List Schema} {known : Set Nat} {f : Nat → Nat} {c c' m : World} {x y l r : Site}
  {depth : Nat} {b : Bool}

theorem Trusts.step (trusts : Trusts base pure c m c') {v u : World} (advances : Advances c v)
    (advances' : Advances m u) : Trusts base pure v u c' := by
  refine trusts.imp advances'.forgets fun recorded => ⟨?_, recorded.2⟩
  rw [advances.settings]
  exact recorded.1

theorem Trusts.earlier {v : World} (trusts : Trusts base pure c m c')
    (begun : ∀ p ∈ v.engine.begun, p ∈ c'.engine.begun) (log : ∀ event ∈ v.log, event ∈ c'.log) :
    Trusts base pure c m v :=
  trusts.imp_right fun recorded => ⟨recorded.1, recorded.2.earlier begun log⟩

theorem run_alongside (repeats : Repeats base pure users ground depth) {go : Bool} {steps : List Step}
    (along : Alongside base pure users ledger ledger' ground known f c m)
    (matched : ∀ x y, .compare x y ∈ steps →
      x.Matched ledger ledger' ground known f ∧ y.Matched ledger ledger' ground known f)
    (ran : Goal.run go (visit depth) steps c = (.ok b, c')) (trusts : Trusts base pure c m c') :
    (Goal.run go (visit depth) (steps.map (Step.renumber f)) m).1 = .ok b := by
  induction steps generalizing f ledger ledger' c m with
  | nil =>
    cases ran
    rfl
  | cons step rest ih =>
    have others : ∀ x y, .compare x y ∈ rest →
        x.Matched ledger ledger' ground known f ∧ y.Matched ledger ledger' ground known f :=
      fun x y inside => matched x y (List.mem_cons_of_mem _ inside)
    cases step with
    | holds answer =>
      simp only [List.map_cons, Step.renumber, Goal.run] at ran ⊢
      by_cases same : answer = go
      · rw [if_pos same] at ran ⊢
        exact ih along others ran trusts
      · rw [if_neg same] at ran ⊢
        cases ran
        rfl
    | compare x y =>
      obtain ⟨onLeft, onRight⟩ := matched x y List.mem_cons_self
      obtain ⟨g, after, after', grown, grown', same, advances, advances', next⟩ :=
        along.step onLeft onRight depth
      simp only [List.map_cons, Step.renumber, Goal.run] at ran ⊢
      cases visited : visit depth x y c with
      | mk outcome v =>
        rw [visited] at ran next advances
        cases outcome with
        | error fault => cases ran
        | ok answer =>
          dsimp only at ran next advances
          -- What the log says after this step, it still says in the end.
          have onward : Advances v c' := by
            split at ran
            · have went := run_advances depth go next.order fun x y inside =>
                ⟨(others x y inside).1.here.later grown, (others x y inside).2.here.later grown⟩
              rw [ran] at went
              exact went
            · cases ran
              exact .refl _
          have answered := repeats along onLeft onRight visited
            (trusts.earlier onward.begun onward.log)
          cases visited' : visit depth (x.renumber f) (y.renumber f) m with
          | mk outcome' u =>
            rw [visited'] at answered next advances'
            cases answered
            dsimp only
            by_cases goes : answer = go
            · rw [if_pos goes] at ran ⊢
              rw [← steps_congr others same]
              refine ih next (fun x y inside => ?_) ran (trusts.step advances advances')
              obtain ⟨onLeft, onRight⟩ := others x y inside
              exact ⟨onLeft.later grown grown' same, onRight.later grown grown' same⟩
            · rw [if_neg goes] at ran ⊢
              cases ran
              rfl

theorem pursue_alongside (repeats : Repeats base pure users ground depth) {g : Goal} (loop : g.Loop)
    (along : Alongside base pure users ledger ledger' ground known f c m)
    (matched : ∀ x y, .compare x y ∈ g.steps →
      x.Matched ledger ledger' ground known f ∧ y.Matched ledger ledger' ground known f)
    (ran : pursue (visit depth) g c = (.ok b, c')) (trusts : Trusts base pure c m c') :
    (pursue (visit depth) (g.renumber f) m).1 = .ok b := by
  cases g with
  | all steps =>
    simp only [pursue, Goal.renumber, Goal.runAll_eq] at ran ⊢
    exact run_alongside repeats along matched ran trusts
  | any steps =>
    simp only [pursue, Goal.renumber, Goal.runAny_eq] at ran ⊢
    exact run_alongside repeats along matched ran trusts
  | consult script => exact loop.elim
  | refuse fault => exact loop.elim

theorem compareNew_alongside (noHandlers : ∀ kind, base.registry.handler? kind = none)
    (repeats : Repeats base pure users ground depth)
    (along : Alongside base pure users ledger ledger' ground known f c m)
    (onLeft : l.Stands ground known) (onRight : r.Stands ground known)
    (met : Met base.registry ledger (l, r))
    (met' : Met base.registry ledger' (l.renumber f, r.renumber f))
    (ran : compareNew (visit depth) l r c = (.ok b, c')) (trusts : Trusts base pure c m c') :
    (compareNew (visit depth) (l.renumber f) (r.renumber f) m).1 = .ok b := by
  rw [compareNew_eq] at ran ⊢
  dsimp only at ran ⊢
  obtain ⟨more, after, after', entered, matched⟩ :=
    along.enter noHandlers onLeft onRight met met'
  rw [along.goal_eq noHandlers met.knowsLeft met'.knowsLeft]
  have loop : (Rule.goal c.engine.settings c.registry c.supply l r).Loop := by
    rcases Rule.goal_cases c.engine.settings c.registry c.supply l r with
      loop | ⟨fault, refused, -⟩ | ⟨kind, handler, isUser, found, -⟩
    · exact loop
    · rw [refused] at ran
      cases (Prod.mk.inj ran).1
    · have met := along.order.sound.kinds _ met.knowsLeft.schema kind isUser
      rw [along.order.serves.handlers kind met, noHandlers] at found
      cases found
  cases came : pursue (visit depth) (Rule.goal c.engine.settings c.registry c.supply l r)
    (entering l r c) with
  | mk outcome u =>
    rw [came] at ran
    obtain ⟨answered, left⟩ := Prod.mk.inj ran
    cases answered
    subst left
    have begun : ∀ p ∈ u.engine.begun, p ∈ (leaving l r c (.ok b) u).engine.begun := by
      rw [leaving_begun]
      exact fun _ member => member
    have inside : Trusts base pure (entering l r c) (entering (l.renumber f) (r.renumber f) m) u :=
      (trusts.earlier begun fun _ logged => leaving_log logged).imp_left
        fun forgetful => ⟨forgetful.memoize, forgetful.results⟩
    exact pursue_alongside repeats loop entered matched came inside

-- An answer that the second run remembers is the one that the first finds, if that is final.
theorem Alongside.remembered (along : Alongside base pure users ledger ledger' ground known f c m)
    (onLeft : l.Stands ground known) (onRight : r.Stands ground known)
    (met' : Met base.registry ledger' (l.renumber f, r.renumber f)) {answer : Bool}
    (hit : (.of (l.renumber f) (r.renumber f), answer) ∈ m.engine.results)
    (final : b = base.engine.settings.cycleResult ↔
      (l, r) ∈ settled base.engine.settings.cycleResult base pure) : answer = b := by
  obtain ⟨p, begun, key, settles⟩ := along.order'.results _ _ hit
  cases along.order'.same met' begun key
  have alike : PairsAlike base.registry (l, r) (l.renumber f, r.renumber f) :=
    ⟨(onLeft.twin along.abreast).alike, (onRight.twin along.abreast).alike⟩
  have same : (l.renumber f, r.renumber f) ∈ settled base.engine.settings.cycleResult base pure ↔
      (l, r) ∈ settled base.engine.settings.cycleResult base pure :=
    ⟨settled_closed pure _ _ ((pairsAlike_equivalence _).symm alike),
      settled_closed pure _ _ alike⟩
  have both := (settles.trans same).trans final.symm
  cases answer <;> cases b <;> cases cycle : base.engine.settings.cycleResult <;> simp_all

theorem comparePrepared_alongside (noHandlers : ∀ kind, base.registry.handler? kind = none)
    (repeats : Repeats base pure users ground depth)
    (along : Alongside base pure users ledger ledger' ground known f c m)
    (onLeft : l.Stands ground known) (onRight : r.Stands ground known)
    (met : Met base.registry ledger (l, r))
    (met' : Met base.registry ledger' (l.renumber f, r.renumber f))
    (ran : comparePrepared (visit depth) l r c = (.ok b, c')) (trusts : Trusts base pure c m c') :
    (comparePrepared (visit depth) (l.renumber f) (r.renumber f) m).1 = .ok b := by
  have lookup := along.lookup onLeft onRight
  -- If anything is remembered, the answer is in the log of the first run, and final.
  have agrees : (c.engine.settings.trace = true → (l, r) ∈ c'.engine.begun ∧
        (Found c'.log (l, r) b ∨ Supposed c'.log (l, r) b)) →
      ∀ answer, (.of (l.renumber f) (r.renumber f), answer) ∈ m.engine.results → answer = b := by
    intro told answer hit
    rcases trusts with forgetful | ⟨traced, final⟩
    · rw [forgetful.results] at hit
      cases hit
    · obtain ⟨begun, answered⟩ := told traced
      exact along.remembered onLeft onRight met' hit (final _ begun b answered)
  rcases comparePrepared_forgetful (visit depth) l r along.forgetful with
    ⟨d, active, same⟩ | ⟨new, same⟩
  · rw [same] at ran
    cases ran
    obtain ⟨p, begun, key⟩ := along.order.active _ _ active
    rw [along.order.same met begun key] at begun
    rcases comparePrepared_cases (visit depth) (l.renumber f) (r.renumber f) m with
      ⟨answer, hit, same⟩ | ⟨_, _, _, same⟩ | ⟨new, same⟩ <;> rw [same]
    · rw [agrees (fun _ => ⟨begun, .inr List.mem_cons_self⟩) answer hit]
    · rw [along.order'.serves.cycle, along.order.serves.cycle]
    · exact absurd (List.mem_map_of_mem active) (lookup_none.mp (lookup.mp new))
  · rw [same] at ran
    rcases comparePrepared_cases (visit depth) (l.renumber f) (r.renumber f) m with
      ⟨answer, hit, same⟩ | ⟨_, _, active, same⟩ | ⟨_, same⟩ <;> rw [same]
    · have found : c.engine.settings.trace = true → (l, r) ∈ c'.engine.begun ∧
          Found c'.log (l, r) b := by
        intro traced
        have found := compareNew_found along.order met traced (congrArg Prod.fst ran)
        rw [ran] at found
        exact found
      rw [agrees (fun traced => (found traced).imp_right .inl) answer hit]
    · exact absurd (List.mem_map_of_mem active) (lookup_none.mp (lookup.mpr new))
    · exact compareNew_alongside noHandlers repeats along onLeft onRight met met' ran trusts

theorem visit_repeats (noHandlers : ∀ kind, base.registry.handler? kind = none) (depth : Nat) :
    Repeats base pure users ground depth := by
  induction depth with
  | zero =>
    intro _ _ _ _ _ _ _ _ _ _ _ _ _ ran _
    cases ran
  | succ depth ih =>
    intro ledger ledger' known f c m x y b c' along onLeft onRight ran trusts
    rcases visit_cases depth x y c with
      ⟨fault, v, -, same⟩ | ⟨l, v, fault, u, -, -, same⟩ | ⟨l, v, r, u, first, second, same⟩
    · rw [same] at ran
      cases ran
    · rw [same] at ran
      cases ran
    · rw [same] at ran
      obtain ⟨v', u', more, after, after', first', second', along, standsL, standsR, met, met',
        advances'⟩ := along.prepare onLeft onRight first second
      have advances := (prepare_advances first).trans (prepare_advances second)
      have goes : visit (depth + 1) (x.renumber f) (y.renumber f) m =
          comparePrepared (visit depth) (l.renumber f) (r.renumber f) u' := by
        simp only [visit, first', second']
      rw [goes]
      exact comparePrepared_alongside noHandlers ih along standsL standsR met met' ran
        (trusts.step advances advances')

end

section
variable {ground : List Schema} {known : Set Nat} {f : Nat → Nat} {c m : World}

theorem site_alongside (abreast : Abreast ground known c.supply m.supply f) {s : Schema}
    (scope : Scope) (member : s ∈ ground) (entries : ∀ e ∈ scope, e ∈ ground) :
    ∃ x supply, c.site s scope = (x, { c with supply }) ∧ c.supply ≤ supply ∧
      m.site s scope = (x.renumber f, { m with supply := f supply }) ∧
      x.Stands ground (known ∪ Ico c.supply supply) := by
  have first : f c.supply = m.supply := abreast.onward 0
  have marks : ∀ t ∈ s.parts, t.mark ∈ known :=
    fun t inside => abreast.marks t (abreast.parts s member t inside)
  cases scope with
  | nil =>
    refine ⟨.bare s, c.supply, rfl, Nat.le_refl _, ?_,
      ⟨entries, .inl member, fun t inside => .inl (marks t inside), .inl abreast.bare⟩⟩
    rw [Rule.renumber_bare abreast.toRenumbers, abreast.fixed member, first]
    rfl
  | cons e rest =>
    refine ⟨⟨s, e :: rest, c.supply⟩, c.supply + 1, rfl, Nat.le_succ _, ?_,
      ⟨entries, .inl member, fun t inside => .inl (marks t inside),
        .inr ⟨Nat.le_refl _, Nat.lt_succ_self _⟩⟩⟩
    simp only [Site.renumber, abreast.fixed member, first, abreast.onward]
    rfl

-- Queries about schemas that were placed before both runs start alike.
theorem opening_alongside (abreast : Abreast ground known c.supply m.supply f)
    {left right : Schema} {leftScope rightScope : Scope}
    (placed : ∀ s ∈ left :: right :: (leftScope ++ rightScope), s ∈ ground) :
    ∃ x y supply more, opening left right leftScope rightScope c = (x, y, { c with supply }) ∧
      opening left right leftScope rightScope m =
        (x.renumber f, y.renumber f, { m with supply := f supply }) ∧
      Abreast ground more supply (f supply) f ∧ x.Stands ground more ∧ y.Stands ground more := by
  obtain ⟨x, supply, first, more, first', standsX⟩ :=
    site_alongside abreast leftScope (placed left (by simp))
      fun e member => placed e (by simp [member])
  have later := abreast.later more
  obtain ⟨y, supply', second, more', second', standsY⟩ :=
    site_alongside (c := { c with supply }) (m := { m with supply := f supply }) later rightScope
      (placed right (by simp)) fun e member => placed e (by simp [member])
  refine ⟨x, y, supply', _, ?_, ?_, later.later more', standsX.mono Set.subset_union_left, standsY⟩
  · simp only [opening, first, second]
  · simp only [opening, first', second']

end

section
variable {base : World} {pure : base.registry.Pure} {users : Set String} {c m : World}
  {left right : Schema} {leftScope rightScope : Scope} {depth : Nat} {b : Bool}

-- A query starts in order, at sites that are known.
variable (pure) in
theorem opening_inOrder (serves : Serves base users c)
    (placed : Placed c.supply (left :: right :: (leftScope ++ rightScope)))
    (kinds : ∀ t ∈ (left :: right :: (leftScope ++ rightScope)).flatMap Schema.parts, ∀ kind,
      t.kind = .user kind → kind ∈ users) {x y : Site} {u : World}
    (opened : opening left right leftScope rightScope (c.setEngine reset) = (x, y, u)) :
    ∃ ledger, InOrder base pure users ledger u ∧ ledger.Knows x ∧ ledger.Knows y := by
  obtain ⟨ledger, sound, known⟩ :=
    Ledger.exists_of_placed users placed List.mem_cons_self kinds
  obtain ⟨after, _, _, _, same, order, -, knowsX, knowsY⟩ :=
    opening_ready (InOrder.start pure serves sound) known
  cases opened.symm.trans same
  exact ⟨after, order, knowsX, knowsY⟩

-- A query that comes to an answer without remembering anything comes to it on another engine as
-- well, if that one remembers nothing either or everything in the log is final.
theorem query_repeats (noHandlers : ∀ kind, base.registry.handler? kind = none)
    (kinds : ∀ t ∈ (left :: right :: (leftScope ++ rightScope)).flatMap Schema.parts, ∀ kind,
      t.kind = .user kind → kind ∈ users)
    (serves : Serves base users c) (serves' : Serves base users m)
    (placed : Placed c.supply (left :: right :: (leftScope ++ rightScope)))
    (placed' : Placed m.supply (left :: right :: (leftScope ++ rightScope)))
    (idle : c.engine.active = []) (idle' : m.engine.active = [])
    (forgetful : c.engine.settings.memoize = false)
    (trusts : m.engine.settings.memoize = false ∨ c.engine.settings.trace = true ∧ Final base pure
      (compareSchemas depth left right leftScope rightScope (c.setEngine reset)).2)
    (returned : (query (compareSchemas depth left right leftScope rightScope) c).1 = .ok b) :
    (query (compareSchemas depth left right leftScope rightScope) m).1 = .ok b := by
  obtain ⟨known, f, abreast⟩ := Abreast.start ⟨left, List.mem_cons_self⟩ placed placed'
  have inside : ∀ s ∈ left :: right :: (leftScope ++ rightScope),
      s ∈ (left :: right :: (leftScope ++ rightScope)).flatMap Schema.parts :=
    fun s member => List.mem_flatMap.mpr ⟨s, member, self_mem_parts s⟩
  obtain ⟨x, y, supply, more, opened, opened', later, standsX, standsY⟩ :=
    opening_alongside (c := c.setEngine reset) (m := m.setEngine reset) abreast inside
  obtain ⟨ledger, order, knowsX, knowsY⟩ := opening_inOrder pure serves placed kinds opened
  obtain ⟨ledger', order', knowsX', knowsY'⟩ := opening_inOrder pure serves' placed' kinds opened'
  have along : Alongside base pure users ledger ledger' _ more f
      { c.setEngine reset with supply } { m.setEngine reset with supply := f supply } :=
    ⟨later, order, order', rfl, fun key none => (List.not_mem_nil none).elim, forgetful, rfl⟩
  rw [query_idle _ idle, compareSchemas_eq, opened] at returned
  rw [query_idle _ idle', compareSchemas_eq, opened']
  rw [compareSchemas_eq, opened] at trusts
  dsimp only at returned trusts ⊢
  exact visit_repeats noHandlers depth along ⟨standsX, knowsX, knowsX'⟩
    ⟨standsY, knowsY, knowsY'⟩ (Prod.ext returned rfl) (trusts.imp_left fun off => ⟨off, rfl⟩)

-- An empty log in which every comparison is to be recorded.
def tracing (w : World) : World :=
  { w with engine.settings.trace := true, log := [] }

def queryLog (depth : Nat) (left right : Schema) (leftScope rightScope : Scope) (w : World) :
    List Event :=
  (query (compareSchemas depth left right leftScope rightScope) (tracing w)).2.log

theorem final_of_log (serves : Serves base users c)
    (kinds : ∀ t ∈ (left :: right :: (leftScope ++ rightScope)).flatMap Schema.parts, ∀ kind,
      t.kind = .user kind → kind ∈ users)
    (placed : Placed c.supply (left :: right :: (leftScope ++ rightScope)))
    (idle : c.engine.active = []) (forgetful : c.engine.settings.memoize = false)
    (borneOut : BorneOut (queryLog depth left right leftScope rightScope c)) :
    Final base pure
      (compareSchemas depth left right leftScope rightScope ((tracing c).setEngine reset)).2 := by
  have serves' : Serves base users (tracing c) :=
    ⟨serves.anyLeft, serves.cycle, serves.kinds, serves.handlers⟩
  obtain ⟨leftMark, rightMark, supply, opened, -, -⟩ :=
    opening_eq left right leftScope rightScope ((tracing c).setEngine reset)
  obtain ⟨ledger, order, knowsLeft, knowsRight⟩ :=
    opening_inOrder pure serves' placed kinds opened
  have start : Recording base pure users ledger { (tracing c).setEngine reset with supply } :=
    ⟨⟨ledger, .refl _, order⟩, ⟨forgetful, rfl⟩, rfl,
      fun _ _ _ _ none => (List.not_mem_nil none).elim⟩
  obtain ⟨recorded, -, -⟩ := visit_records depth ledger _ _ knowsLeft knowsRight _ start
  obtain ⟨after, -, order⟩ := recorded.ready
  have idle' : (tracing c).engine.active = [] := idle
  rw [queryLog, query_idle _ idle', compareSchemas_eq, opened] at borneOut
  rw [compareSchemas_eq, opened]
  exact final_of_borneOut order recorded.accounted borneOut

end

-- Whatever an engine that remembers answers comes to, it is the answer of an engine that remembers
-- nothing. It does come to it if every answer that the other assumes is borne out.
theorem remembering_keeps_answer {w w' : World} (registry : w'.registry = w.registry)
    (anyLeft : w'.engine.settings.anyLeftResult = w.engine.settings.anyLeftResult)
    (cycle : w'.engine.settings.cycleResult = w.engine.settings.cycleResult)
    (forgetful : w.engine.settings.memoize = false) {left right : Schema}
    {leftScope rightScope : Scope}
    (noRules : ∀ t ∈ (left :: right :: (leftScope ++ rightScope)).flatMap Schema.parts, ∀ kind,
      t.kind = .user kind → w.registry.handler? kind = none)
    (placed : Placed w.supply (left :: right :: (leftScope ++ rightScope)))
    (placed' : Placed w'.supply (left :: right :: (leftScope ++ rightScope)))
    (idle : w.engine.active = []) (idle' : w'.engine.active = []) {depth : Nat} {b : Bool}
    (returned : (query (compareSchemas depth left right leftScope rightScope) w).1 = .ok b) :
    (∀ depth' b', (query (compareSchemas depth' left right leftScope rightScope) w').1 = .ok b' →
      b' = b) ∧
    (BorneOut (queryLog depth left right leftScope rightScope w) →
      (query (compareSchemas depth left right leftScope rightScope) w').1 = .ok b) := by
  let users := {kind | w.registry.handler? kind = none}
  have serves : Serves (withoutRules w) users w := serves_withoutRules fun _ none => none
  have serves' : Serves (withoutRules w) users w' :=
    ⟨anyLeft, cycle, registry ▸ serves.kinds, registry ▸ serves.handlers⟩
  have pure := withoutRules_pure w
  refine ⟨fun depth' b' other => ?_, fun borneOut => ?_⟩
  · obtain ⟨ledger, sound, known⟩ :=
      Ledger.exists_of_placed users placed List.mem_cons_self noRules
    obtain ⟨ledger', sound', known'⟩ :=
      Ledger.exists_of_placed users placed' List.mem_cons_self noRules
    have both := (query_settled pure serves' sound' known' idle' other 0 0).trans
      (query_settled pure serves sound known idle returned 0 0).symm
    cases b <;> cases b' <;> cases favoured : (withoutRules w).engine.settings.cycleResult <;>
      simp_all
  · have recorded : Serves (withoutRules w) users (tracing w) :=
      ⟨serves.anyLeft, serves.cycle, serves.kinds, serves.handlers⟩
    have none := withoutRules_handler w
    have final : Final (withoutRules w) pure _ :=
      final_of_log serves noRules placed idle forgetful borneOut
    -- First with the log, and from there to the engine that remembers.
    have told : (query (compareSchemas depth left right leftScope rightScope) (tracing w)).1 =
        .ok b :=
      query_repeats none noRules serves recorded placed placed idle idle forgetful
        (.inl forgetful : _ ∨ _ ∧ Final (withoutRules w) pure _) returned
    exact query_repeats none noRules recorded serves' placed placed' idle idle' forgetful
      (.inr ⟨rfl, final⟩) told

def toEntry (name : String) : Schema := .plain (.reference .ref (.text name))

-- Two entries that refer to each other. On the right one of them may also be a reference that no
-- entry answers.
def arrayEntry : Schema := .mk 0 (.text "p") false (.array (toEntry "q"))

def tupleEntry (first : Schema) (last : Basic) : Schema :=
  .mk 0 (.text "q") false (.tuple [first, .basic last])

def orDangling : Schema := .plain (.union [toEntry "p", toEntry "gone"])

def both : Schema := .plain (.tuple [toEntry "p", toEntry "q"])

def either : Schema :=
  .plain (.union [.plain (.tuple [toEntry "p", .basic .any]),
    .plain (.tuple [.basic .any, toEntry "q"])])

def leftEntries : Scope := [(arrayEntry.place 11).1, ((tupleEntry (toEntry "p") .number).place 8).1]

def rightEntries (last : Basic) : Scope :=
  [(arrayEntry.place 6).1, ((tupleEntry orDangling last).place 1).1]

def withoutMemory (supply : Nat) : World :=
  { supply, engine := { settings := { memoize := false } } }

theorem entries_placed (last : Basic) (goal : Schema) (new : ∀ p ∈ goal.parts, p.mark = 0) :
    Placed (both.place (goal.place 13).2).2
      ((both.place (goal.place 13).2).1 :: (goal.place 13).1 ::
        (leftEntries ++ rightEntries last)) := by
  have back := (Placed.nil 1).placeNew (tupleEntry orDangling last) (by cases last <;> decide)
  have four := ((back.placeNew arrayEntry (by decide)).placeNew (tupleEntry (toEntry "p") .number)
    (by decide)).placeNew arrayEntry (by decide)
  exact (four.placeNew goal new).placeNew both (by decide)

-- Every answer that is assumed is found as well, so the dangling variant is never tried.
theorem borneOut_repeated :
    (query (compareSchemas 7 (both.place 16).1 (both.place 13).1 leftEntries
      (rightEntries .number)) (withoutMemory 19)).1 = .ok true ∧
    BorneOut (queryLog 7 (both.place 16).1 (both.place 13).1 leftEntries (rightEntries .number)
      (withoutMemory 19)) ∧
    (query (compareSchemas 7 (both.place 16).1 (both.place 13).1 leftEntries
      (rightEntries .number)) { supply := 19 }).1 = .ok true := by
  have returned : (query (compareSchemas 7 (both.place 16).1 (both.place 13).1 leftEntries
      (rightEntries .number)) (withoutMemory 19)).1 = .ok true := rfl
  have borneOut : BorneOut (queryLog 7 (both.place 16).1 (both.place 13).1 leftEntries
      (rightEntries .number) (withoutMemory 19)) := by decide +kernel
  have placed := entries_placed .number both (by decide)
  exact ⟨returned, borneOut, (remembering_keeps_answer rfl rfl rfl rfl (fun _ _ _ _ => rfl) placed
    placed rfl rfl returned).2 borneOut⟩

-- With another last item an assumed answer is refused later. The engine that remembers the refusal
-- goes on to the dangling variant.
theorem remembered_refusal_fails :
    (query (compareSchemas 9 (both.place 20).1 (either.place 13).1 leftEntries
      (rightEntries .string)) (withoutMemory 23)).1 = .ok false ∧
    (query (compareSchemas 9 (both.place 20).1 (either.place 13).1 leftEntries
      (rightEntries .string)) { supply := 23 }).1 = .error (.unresolved (.text "gone")) :=
  ⟨rfl, rfl⟩

end Engine

end Assignability
