import Assignability.Proofs.Frames
import Assignability.Proofs.Placement
import Mathlib.Data.Finset.Prod
import Mathlib.Tactic.Ring

namespace Assignability

-- Along nested comparisons a side stays among the schemas a query starts with, in a scope that can
-- grow only so often, or turns to schemas made up on the way, which only get lighter.

-- Schemas among which a query moves: closed under children, without records indexed by numbers.
structure Ground (ground : List Schema) : Prop where
  children : ∀ s ∈ ground, ∀ c ∈ s.children, c ∈ ground
  notIndexed : ∀ s ∈ ground, Rule.isNumericRecord s = false

namespace Engine

def groundMarks (ground : List Schema) : Finset Nat := (ground.map Schema.mark).toFinset

-- How many more schemas a scope could take in.
def room (ground : List Schema) (scope : Scope) : Nat :=
  (groundMarks ground \ (scope.map Schema.mark).toFinset).card

theorem room_le (ground : List Schema) (scope : Scope) : room ground scope ≤ ground.length := by
  refine (Finset.card_le_card Finset.sdiff_subset).trans ((List.toFinset_card_le _).trans ?_)
  rw [List.length_map]

theorem room_push {ground : List Schema} {scope : Scope} {s : Schema} (member : s ∈ ground)
    (grown : scope.push s ≠ scope) : room ground (scope.push s) < room ground scope := by
  have absent : scope.holds s = false := by
    by_contra held
    exact grown (by simp [Scope.push, Bool.eq_true_of_not_eq_false held])
  have added : scope.push s = scope ++ [s] := (Scope.push_cases scope s).resolve_left grown
  refine Finset.card_lt_card ⟨?_, fun sub => ?_⟩
  · refine Finset.sdiff_subset_sdiff (Finset.Subset.refl _) ?_
    rw [added]
    intro m
    simp only [List.map_append, List.mem_toFinset, List.mem_append]
    exact .inl
  · have here : s.mark ∈ groundMarks ground \ (scope.map Schema.mark).toFinset := by
      refine Finset.mem_sdiff.mpr
        ⟨List.mem_toFinset.mpr (List.mem_map_of_mem member), fun held => ?_⟩
      obtain ⟨e, entry, same⟩ := List.mem_map.mp (List.mem_toFinset.mp held)
      have : scope.holds s = true := List.any_eq_true.mpr ⟨e, entry, by simp [same]⟩
      rw [absent] at this
      cases this
    have outside := (Finset.mem_sdiff.mp (sub here)).2
    rw [added] at outside
    exact outside (by simp)

-- Sides of comparisons, and how far they are from their end.
inductive Ranked (ground : List Schema) : Site → Nat → Prop
  | met {site : Site} : site.schema ∈ ground → (∀ e ∈ site.scope, e ∈ ground) →
    Ranked ground site (Schema.weightOfAll ground + 1 + room ground site.scope)
  | made {site : Site} : site.schema.Anonymous →
    (∀ t ∈ site.schema.parts, Rule.isNumericRecord t = false) →
    site.schema.weight ≤ Schema.weightOfAll ground → Ranked ground site site.schema.weight

-- One side later on: nearer to its end, or still in its scope and either where it was or among the
-- schemas of the ground.
def Descends (ground : List Schema) (s : Site) (m : Nat) (t : Site) (n : Nat) : Prop :=
  n < m ∨ n = m ∧ t.scopeMark = s.scopeMark ∧
    (t.schema.mark ∈ groundMarks ground ∨ t.schema.mark = s.schema.mark)

section
variable {ground : List Schema}

theorem Descends.refl (s : Site) (m : Nat) : Descends ground s m s m := .inr ⟨rfl, rfl, .inr rfl⟩

theorem mem_groundMarks {s : Schema} (member : s ∈ ground) : s.mark ∈ groundMarks ground :=
  List.mem_toFinset.mpr (List.mem_map_of_mem member)

theorem prepare_anonymous {s p : Site} {w w' : World} (anonymous : s.schema.Anonymous)
    (prepared : prepare s w = (.ok p, w')) : p = s := by
  obtain ⟨⟨t, reached, resolved⟩, scopeMark, -, -⟩ := prepare_ok prepared
  have same : s.scope.push s.schema = s.scope := Scope.push_of_null anonymous.isNull
  rw [Scope.dereference_concrete anonymous.concrete, same] at reached
  obtain ⟨rfl, scope⟩ := Prod.mk.inj (Except.ok.inj reached)
  rw [resolved_self anonymous.expanded] at resolved
  obtain ⟨schema, -⟩ := Prod.mk.inj resolved
  simp only [scopeMarks, same, if_true] at scopeMark
  cases p
  cases s
  simp_all

-- Preparing a side: it may enter its scope or turn to an expanded template, but never goes back.
theorem prepare_descends {s p : Site} {w w' : World} {m : Nat}
    (ranked : Ranked ground s m) (prepared : prepare s w = (.ok p, w')) :
    ∃ n, Ranked ground p n ∧ Descends ground s m p n := by
  cases ranked with
  | made anonymous plain light =>
    rw [prepare_anonymous anonymous prepared]
    exact ⟨_, .made anonymous plain light, .refl _ _⟩
  | met member entries =>
    obtain ⟨⟨t, reached, resolved⟩, scopeMark, -, -⟩ := prepare_ok prepared
    obtain ⟨scope, concrete, -⟩ := Scope.dereference_ok reached
    obtain ⟨target, entries'⟩ := Scope.dereference_among member entries reached
    rcases template_cases t with ⟨parts, shape⟩ | expanded
    · have lighter := resolved_weight (scopeMarks s w.supply).2 shape
      have plain : ∀ p ∈ (t.resolved (scopeMarks s w.supply).2).1.parts,
          Rule.isNumericRecord p = false := by
        intro p member
        rcases resolved_parts _ shape member with same | ⟨_, same⟩ | ⟨_, same⟩ <;>
          simp [Rule.isNumericRecord, same]
      have anonymous : (t.resolved (scopeMarks s w.supply).2).1.Anonymous := by
        rw [resolved_template shape]
        exact .of_resolve (place_resolve_erase _ _)
      simp only [resolved] at lighter plain anonymous
      have bound := weight_le_all target
      exact ⟨_, .made anonymous plain (by omega), .inl (by omega)⟩
    · rw [resolved_self expanded] at resolved
      obtain ⟨rfl, -⟩ := Prod.mk.inj resolved
      refine ⟨_, .met target entries', ?_⟩
      by_cases same : s.scope.push s.schema = s.scope
      · refine .inr ⟨by rw [scope, same], ?_, .inl (mem_groundMarks target)⟩
        simpa [scopeMarks, same] using scopeMark
      · have less := room_push member same
        rw [← scope] at less
        exact .inl (by omega)

theorem moves_descends (closed : ∀ s ∈ ground, ∀ c ∈ s.children, c ∈ ground) {s t : Site} {m : Nat}
    (ranked : Ranked ground s m) (moves : s.Moves t) :
    ∃ n, Ranked ground t n ∧ Descends ground s m t n := by
  cases moves with
  | stays => exact ⟨m, ranked, .refl _ _⟩
  | @enters c child =>
    cases ranked with
    | met member entries =>
      have inside := closed _ member _ child
      exact ⟨_, .met inside entries, .inr ⟨rfl, rfl, .inl (mem_groundMarks inside)⟩⟩
    | made anonymous plain light =>
      have lighter := child_weight child
      have bound : c.weight ≤ Schema.weightOfAll ground := by omega
      have ranked : Ranked ground (s.to c) c.weight := .made (anonymous.child child)
        (fun t part => plain t (child_parts child part)) bound
      exact ⟨_, ranked, .inl lighter⟩

theorem member_descends {l : Site} {m : Nat} (rankedLeft : Ranked ground l m) {mark : Nat}
    {r : Schema} (lighter : (Rule.made mark l.schema r).weight < l.schema.weight) :
    ∃ n, Ranked ground (.bare (Rule.made mark l.schema r)) n ∧ n < m := by
  have plain : ∀ t ∈ (Rule.made mark l.schema r).parts, Rule.isNumericRecord t = false := by
    intro t part
    rcases Rule.made_parts part with ⟨_, same⟩ | ⟨_, same⟩ | ⟨_, _, _, same⟩ <;>
      simp [Rule.isNumericRecord, same]
  have anonymous := Rule.made_anonymous mark l.schema r
  have ranked : (Rule.made mark l.schema r).weight ≤ Schema.weightOfAll ground →
      Ranked ground (.bare (Rule.made mark l.schema r)) (Rule.made mark l.schema r).weight :=
    fun light => .made anonymous plain light
  cases rankedLeft with
  | met member entries =>
    have bound := weight_le_all member
    exact ⟨_, ranked (by omega), by omega⟩
  | made _ _ light => exact ⟨_, ranked (by omega), lighter⟩

-- Keys that comparisons of these sides could have while neither side gets nearer to its end.
def candidates (ground : List Schema) (left right : Site) : Finset PairKey :=
  let marks := groundMarks ground ∪ {left.schema.mark, right.schema.mark}
  let scopes : Finset Nat := {left.scopeMark, right.scopeMark}
  ((marks ×ˢ marks) ×ˢ (scopes ×ˢ scopes)).image fun k => ⟨k.1.1, k.1.2, k.2.1, k.2.2⟩

def keyBound (ground : List Schema) : Nat := 4 * (ground.length + 2) ^ 2

theorem candidates_card (ground : List Schema) (left right : Site) :
    (candidates ground left right).card ≤ keyBound ground := by
  have marks : (groundMarks ground ∪ {left.schema.mark, right.schema.mark}).card ≤
      ground.length + 2 := by
    refine (Finset.card_union_le _ _).trans (Nat.add_le_add ?_ Finset.card_le_two)
    exact (List.toFinset_card_le _).trans (by simp)
  have scopes : ({left.scopeMark, right.scopeMark} : Finset Nat).card ≤ 2 := Finset.card_le_two
  refine Finset.card_image_le.trans ?_
  rw [Finset.card_product, Finset.card_product, Finset.card_product, keyBound]
  calc _ ≤ ((ground.length + 2) * (ground.length + 2)) * (2 * 2) :=
        Nat.mul_le_mul (Nat.mul_le_mul marks marks) (Nat.mul_le_mul scopes scopes)
    _ = 4 * (ground.length + 2) ^ 2 := by ring

theorem mem_candidates {left right : Site} {key : PairKey} :
    key ∈ candidates ground left right ↔
      key.left ∈ groundMarks ground ∪ {left.schema.mark, right.schema.mark} ∧
      key.right ∈ groundMarks ground ∪ {left.schema.mark, right.schema.mark} ∧
      key.leftScope ∈ ({left.scopeMark, right.scopeMark} : Finset Nat) ∧
      key.rightScope ∈ ({left.scopeMark, right.scopeMark} : Finset Nat) := by
  obtain ⟨a, b, c, d⟩ := key
  simp only [candidates, Finset.mem_image, Finset.mem_product, Prod.exists, PairKey.mk.injEq]
  constructor
  · rintro ⟨a, b, c, d, ⟨⟨ha, hb⟩, hc, hd⟩, rfl, rfl, rfl, rfl⟩
    exact ⟨ha, hb, hc, hd⟩
  · rintro ⟨ha, hb, hc, hd⟩
    exact ⟨a, b, c, d, ⟨⟨ha, hb⟩, hc, hd⟩, rfl, rfl, rfl, rfl⟩

-- Both sides later on.
def PairDescends (ground : List Schema) (p : Site × Site) (m : Nat) (q : Site × Site) (n : Nat) :
    Prop :=
  n < m ∨ n = m ∧ candidates ground q.1 q.2 ⊆ candidates ground p.1 p.2

theorem PairDescends.trans {p q r : Site × Site} {m n k : Nat}
    (first : PairDescends ground p m q n) (second : PairDescends ground q n r k) :
    PairDescends ground p m r k := by
  rcases first with less | ⟨rfl, sub⟩
  · rcases second with less' | ⟨rfl, -⟩
    · exact .inl (Nat.lt_trans less' less)
    · exact .inl less
  · rcases second with less | ⟨rfl, sub'⟩
    · exact .inl less
    · exact .inr ⟨rfl, sub'.trans sub⟩

theorem PairDescends.swap {p : Site × Site} {x y : Site} {m n : Nat}
    (descends : PairDescends ground p m (x, y) n) : PairDescends ground p m (y, x) n := by
  have same : candidates ground y x = candidates ground x y := by
    unfold candidates
    rw [Finset.pair_comm y.schema.mark, Finset.pair_comm y.scopeMark]
  rcases descends with less | ⟨equal, sub⟩
  · exact .inl less
  · exact .inr ⟨equal, same ▸ sub⟩

theorem Descends.pair {left right l r : Site} {m m' n n' : Nat}
    (onLeft : Descends ground left m l m') (onRight : Descends ground right n r n') :
    PairDescends ground (left, right) (m + n) (l, r) (m' + n') := by
  rcases onLeft with less | ⟨rfl, leftScope, leftMark⟩
  · rcases onRight with less' | ⟨rfl, -, -⟩ <;> exact .inl (by omega)
  · rcases onRight with less' | ⟨rfl, rightScope, rightMark⟩
    · exact .inl (by omega)
    · refine .inr ⟨rfl, fun key member => ?_⟩
      have marks : groundMarks ground ∪ {l.schema.mark, r.schema.mark} ⊆
          groundMarks ground ∪ {left.schema.mark, right.schema.mark} := by
        intro k inside
        simp only [Finset.mem_union, Finset.mem_insert, Finset.mem_singleton] at inside ⊢
        rcases inside with inside | rfl | rfl
        · exact .inl inside
        · exact leftMark.imp id .inl
        · exact rightMark.imp id .inr
      rw [mem_candidates] at member ⊢
      obtain ⟨first, second, scopes⟩ := member
      rw [leftScope, rightScope] at scopes
      exact ⟨marks first, marks second, scopes⟩

theorem Ranked.notIndexed (grounded : Ground ground) {s : Site} {m : Nat}
    (ranked : Ranked ground s m) : Rule.isNumericRecord s.schema = false := by
  cases ranked with
  | met member entries => exact grounded.notIndexed _ member
  | made anonymous plain light => exact plain _ (self_mem_parts _)

-- Whatever a pair asks for lies further down, except for the items of a record indexed by numbers.
theorem asks_descends_or_item (closed : ∀ s ∈ ground, ∀ c ∈ s.children, c ∈ ground) {l r x y : Site}
    {m n mark : Nat} (onLeft : Ranked ground l m) (onRight : Ranked ground r n)
    (asks : Rule.Asks mark l r x y) :
    (∃ m' n', Ranked ground x m' ∧ Ranked ground y n' ∧
      PairDescends ground (l, r) (m + n) (x, y) (m' + n')) ∨
    Rule.isNumericRecord r.schema = true ∧ r.Moves y ∧
      x = l.to (Rule.made mark l.schema r.schema) := by
  cases asks with
  | onward first second _ =>
    obtain ⟨m', rankedX, descendsX⟩ := moves_descends closed onLeft first
    obtain ⟨n', rankedY, descendsY⟩ := moves_descends closed onRight second
    exact .inl ⟨m', n', rankedX, rankedY, descendsX.pair descendsY⟩
  | swapped first second _ =>
    obtain ⟨m', rankedX, descendsX⟩ := moves_descends closed onLeft first
    obtain ⟨n', rankedY, descendsY⟩ := moves_descends closed onRight second
    refine .inl ⟨n', m', rankedY, rankedX, ?_⟩
    rw [Nat.add_comm n' m']
    exact (descendsX.pair descendsY).swap
  | member lighter second =>
    obtain ⟨m', rankedX, less⟩ := member_descends onLeft lighter
    obtain ⟨n', rankedY, descendsY⟩ := moves_descends closed onRight second
    refine .inl ⟨m', n', rankedX, rankedY, .inl ?_⟩
    rcases descendsY with less' | ⟨rfl, -, -⟩ <;> omega
  | item indexed second => exact .inr ⟨indexed, second, rfl⟩

theorem asks_descends (grounded : Ground ground) {l r x y : Site} {m n mark : Nat}
    (onLeft : Ranked ground l m) (onRight : Ranked ground r n) (asks : Rule.Asks mark l r x y) :
    ∃ m' n', Ranked ground x m' ∧ Ranked ground y n' ∧
      PairDescends ground (l, r) (m + n) (x, y) (m' + n') := by
  rcases asks_descends_or_item grounded.children onLeft onRight asks with descends | ⟨indexed, -, -⟩
  · exact descends
  · rw [onRight.notIndexed grounded] at indexed
    cases indexed

-- Keys that are left for nested comparisons.
def unused (ground : List Schema) (p : Site × Site) (active : List (PairKey × Nat)) : Nat :=
  (candidates ground p.1 p.2 \ (active.map Prod.fst).toFinset).card

theorem unused_le (ground : List Schema) (p : Site × Site) (active : List (PairKey × Nat)) :
    unused ground p active ≤ keyBound ground :=
  (Finset.card_le_card Finset.sdiff_subset).trans (candidates_card ground p.1 p.2)

theorem unused_enter {p q : Site × Site} {active : List (PairKey × Nat)} {key : PairKey}
    (depth : Nat) (sub : candidates ground q.1 q.2 ⊆ candidates ground p.1 p.2)
    (candidate : key ∈ candidates ground p.1 p.2) (new : active.lookup key = none) :
    unused ground q ((key, depth) :: active) < unused ground p active := by
  refine Finset.card_lt_card ⟨?_, fun back => ?_⟩
  · refine Finset.sdiff_subset_sdiff sub fun k member => ?_
    simp only [List.map_cons, List.toFinset_cons]
    exact Finset.mem_insert_of_mem member
  · have here : key ∈ candidates ground p.1 p.2 \ (active.map Prod.fst).toFinset := by
      refine Finset.mem_sdiff.mpr ⟨candidate, fun member => ?_⟩
      obtain ⟨entry, found, same⟩ := List.mem_map.mp (List.mem_toFinset.mp member)
      have differs := List.lookup_eq_none_iff.mp new entry found
      rw [same] at differs
      simp at differs
    have outside := (Finset.mem_sdiff.mp (back here)).2
    simp at outside

-- The measure of a comparison bounds how deep it nests.
def deepest (ground : List Schema) (p : Site × Site) (rank : Nat) (active : List (PairKey × Nat)) :
    Nat :=
  rank * (keyBound ground + 1) + unused ground p active

theorem deepest_le (p : Site × Site) (active : List (PairKey × Nat)) {rank most : Nat}
    (bound : rank ≤ most) :
    deepest ground p rank active ≤ most * (keyBound ground + 1) + keyBound ground :=
  Nat.add_le_add (Nat.mul_le_mul_right _ bound) (unused_le ground p active)

theorem deepest_lt {p l q : Site × Site} {m n k : Nat} {active : List (PairKey × Nat)} (depth : Nat)
    (first : PairDescends ground p m l n) (second : PairDescends ground l n q k)
    (new : active.lookup (PairKey.of l.1 l.2) = none) :
    deepest ground q k ((.of l.1 l.2, depth) :: active) < deepest ground p m active := by
  have few := unused_le ground q ((.of l.1 l.2, depth) :: active)
  have drop : k < m → deepest ground q k ((.of l.1 l.2, depth) :: active) <
      deepest ground p m active := by
    intro less
    have step : k * (keyBound ground + 1) + (keyBound ground + 1) ≤ m * (keyBound ground + 1) := by
      rw [← Nat.succ_mul]
      exact Nat.mul_le_mul_right _ less
    unfold deepest
    omega
  rcases first.trans second with less | ⟨rfl, sub⟩
  · exact drop less
  · rcases first with less | ⟨rfl, sub'⟩
    · rcases second with less' | ⟨rfl, -⟩
      · exact drop (Nat.lt_trans less' less)
      · exact absurd less (Nat.lt_irrefl _)
    · have candidate : PairKey.of l.1 l.2 ∈ candidates ground l.1 l.2 := by
        rw [mem_candidates]
        simp [PairKey.of]
      have less := unused_enter depth sub (sub' candidate) new
      unfold deepest
      omega

-- Comparisons that are allowed to nest deeper than their measure never nest too deep.
theorem visit_finishes (grounded : Ground ground) {depth : Nat} {left right : Site} {w : World}
    {m n : Nat} (noHandlers : ∀ kind, w.registry.handler? kind = none)
    (onLeft : Ranked ground left m) (onRight : Ranked ground right n)
    (deep : deepest ground (left, right) (m + n) w.engine.active < depth) :
    (visit depth left right w).1 ≠ .error .tooDeep := by
  induction depth generalizing left right w m n with
  | zero => exact absurd deep (Nat.not_lt_zero _)
  | succ depth ih =>
    rcases visit_cases depth left right w with
      ⟨fault, v, ran, same⟩ | ⟨l, v, fault, u, ran, ran', same⟩ | ⟨l, v, r, u, ran, ran', same⟩ <;>
      rw [same]
    · exact fun same => prepare_finishes ran (Except.error.inj same)
    · exact fun same => prepare_finishes ran' (Except.error.inj same)
    · have first := prepare_follows ran
      have both := first.trans (prepare_follows ran')
      rcases comparePrepared_cases (visit depth) l r u with
        ⟨b, -, same⟩ | ⟨d, event, -, same⟩ | ⟨new, same⟩ <;> rw [same]
      · rintro ⟨⟩
      · rintro ⟨⟩
      · intro failed
        rw [← both.registry] at noHandlers
        obtain ⟨x, y, t, asks, moved, faulty⟩ := compareNew_fault noHandlers
          (both.registry ▸ prepare_ready ran) failed
        obtain ⟨m', rankedL, descendsL⟩ := prepare_descends onLeft ran
        obtain ⟨n', rankedR, descendsR⟩ := prepare_descends onRight ran'
        obtain ⟨mx, ny, rankedX, rankedY, descends⟩ := asks_descends grounded rankedL rankedR asks
        refine ih (moved.registry ▸ noHandlers) rankedX rankedY ?_ faulty
        rw [moved.active]
        have less := deepest_lt u.engine.active.length (descendsL.pair descendsR) descends new
        rw [← both.active] at deep
        exact Nat.lt_of_lt_of_le less (Nat.le_of_lt_succ deep)

end

-- Everything that a query can reach from its two schemas and the entries of their scopes.
def reachable (left right : Schema) (leftScope rightScope : Scope) : List Schema :=
  (left :: right :: (leftScope ++ rightScope)).flatMap Schema.parts

-- How deep a query can nest, whatever the settings and whatever else is being compared.
def depthBound (left right : Schema) (leftScope rightScope : Scope) : Nat :=
  let ground := reachable left right leftScope rightScope
  2 * (Schema.weightOfAll ground + 1 + ground.length) * (keyBound ground + 1) + keyBound ground + 1

theorem query_finishes {left right : Schema} {leftScope rightScope : Scope}
    (notIndexed : ∀ s ∈ reachable left right leftScope rightScope, Rule.isNumericRecord s = false)
    {w : World} (noHandlers : ∀ kind, w.registry.handler? kind = none) {depth : Nat}
    (deep : depthBound left right leftScope rightScope ≤ depth) :
    (query (compareSchemas depth left right leftScope rightScope) w).1 ≠ .error .tooDeep := by
  have inside : ∀ s ∈ left :: right :: (leftScope ++ rightScope),
      s ∈ reachable left right leftScope rightScope :=
    fun s member => List.mem_flatMap.mpr ⟨s, member, self_mem_parts s⟩
  have grounded : Ground (reachable left right leftScope rightScope) := by
    refine ⟨fun s member c child => ?_, notIndexed⟩
    obtain ⟨root, isRoot, part⟩ := List.mem_flatMap.mp member
    exact List.mem_flatMap.mpr ⟨root, isRoot, parts_children part child⟩
  have finishes : ∀ v : World, v.registry = w.registry →
      (compareSchemas depth left right leftScope rightScope v).1 ≠ .error .tooDeep := by
    intro v registry
    obtain ⟨leftMark, rightMark, supply, opened, -⟩ := opening_eq left right leftScope rightScope v
    rw [compareSchemas_eq, opened]
    have onLeft : Ranked _ ⟨left, leftScope, leftMark⟩ _ := .met (inside left (by simp))
      fun e entry => inside e (by simp [entry])
    have onRight : Ranked _ ⟨right, rightScope, rightMark⟩ _ := .met (inside right (by simp))
      fun e entry => inside e (by simp [entry])
    refine visit_finishes grounded (registry ▸ noHandlers) onLeft onRight
      (Nat.lt_of_lt_of_le (Nat.lt_succ_of_le (deepest_le _ _ ?_)) deep)
    have leftRoom := room_le (reachable left right leftScope rightScope) leftScope
    have rightRoom := room_le (reachable left right leftScope rightScope) rightScope
    simp only
    omega
  unfold query
  split
  · exact finishes _ rfl
  · exact finishes _ rfl

-- A union that has itself as a variant.
def looped : Schema :=
  .mk 1 (.int 1) false (.union [.mk 2 .null false (.reference .ref (.int 1)), Schema.endless])

theorem looped_finishes :
    (∀ s ∈ reachable looped looped [] [Schema.endless], Rule.isNumericRecord s = false) ∧
    (query (compareSchemas (depthBound looped looped [] [Schema.endless]) looped looped []
      [Schema.endless]) {}).1 ≠ .error .tooDeep :=
  ⟨by decide, query_finishes (by decide) (fun _ => rfl) (Nat.le_refl _)⟩

end Engine

end Assignability
