import Assignability.Proofs.Answers
import Assignability.Proofs.Composition

namespace Assignability

-- Unions and intersections are taken apart in an order in which the three schemas get smaller,
-- until the rules by kind decide on either side of the one in the middle.

-- Nothing inside is `any`.
def Schema.NoAny (s : Schema) : Prop := ∀ t ∈ s.parts, t.kind ≠ .any

instance (s : Schema) : Decidable s.NoAny :=
  inferInstanceAs (Decidable (∀ t ∈ s.parts, t.kind ≠ .any))

theorem Schema.NoAny.child {s c : Schema} (noAny : s.NoAny) (inside : c ∈ s.children) : c.NoAny :=
  fun t part => noAny t (child_parts inside part)

theorem Schema.NoAny.resolved {s : Schema} (noAny : s.NoAny) (mark : Nat) :
    (s.resolved mark).1.NoAny := by
  intro t member
  rcases resolved_part mark member with inside | shape | ⟨_, shape⟩ | ⟨_, shape⟩
  · exact noAny t inside
  all_goals simp [Schema.kind, shape, Shape.kind, Basic.kind]

theorem members_tame (registry : Registry) {mark : Nat} {m : Schema}
    (member : m ∈ Rule.members mark) : m.Tame registry := by
  simp only [Rule.members, List.mem_cons, List.not_mem_nil, or_false] at member
  intro t inside
  rcases member with rfl | rfl | rfl <;>
    simp only [Rule.lengthMember, Rule.descriptionMember, Rule.thenMember, Rule.marked,
      Schema.parts, Shape.parts, Schema.partsOfAll, List.append_nil, List.cons_append,
      List.nil_append, List.mem_cons, List.not_mem_nil, or_false] at inside
  · subst inside
    exact ⟨rfl, .nil, rfl⟩
  all_goals rcases inside with rfl | rfl | rfl <;> exact ⟨rfl, .nil, rfl⟩

namespace Engine

-- Transitivity for everything that weighs less.
def Composes {base : World} (pure : base.registry.Pure) (n : Nat) : Prop :=
  ∀ a b c : Schema, a.weight + b.weight + c.weight < n → a.Tame base.registry →
    b.Tame base.registry → b.NoAny → c.Tame base.registry → Narrower pure a b →
    Narrower pure b c → Narrower pure a c

section
variable {base : World} {pure : base.registry.Pure}
  (noHandlers : ∀ kind, base.registry.handler? kind = none) {a b c : Schema}
  (ih : Composes pure (a.weight + b.weight + c.weight)) (onLeft : a.Tame base.registry)
  (between : b.Tame base.registry) (noAny : b.NoAny) (onRight : c.Tame base.registry)
include noHandlers ih onLeft between noAny onRight

theorem apart_trans (left : Rule.Apart base.registry a) (middle : Rule.Apart base.registry b)
    (first : (Rule.byKind base.registry 0 (.bare a) (.bare b)).Yields (narrowing pure) true)
    (second : (Rule.byKind base.registry 0 (.bare b) (.bare c)).Yields (narrowing pure) true) :
    (Rule.byKind base.registry 0 (.bare a) (.bare c)).Yields (narrowing pure) true := by
  refine Rule.byKind_trans noHandlers left middle onRight ?_ ?_ ?_ first second
  · intro x inLeft y inMiddle z inRight
    have lighter := child_weight inLeft
    have lighter' := child_weight inMiddle
    have lighter'' := child_weight inRight
    exact ih x y z (by omega) (onLeft.child inLeft) (between.child inMiddle)
      (noAny.child inMiddle) (onRight.child inRight)
  · intro x inLeft y inMiddle z inRight
    have lighter := child_weight inLeft
    have lighter' := child_weight inMiddle
    have lighter'' := child_weight inRight
    exact ih z y x (by omega) (onRight.child inRight) (between.child inMiddle)
      (noAny.child inMiddle) (onLeft.child inLeft)
  · intro m isMember lighter y inMiddle z inRight
    have lighter' := child_weight inMiddle
    have lighter'' := child_weight inRight
    exact ih m y z (by omega) (members_tame _ isMember) (between.child inMiddle)
      (noAny.child inMiddle) (onRight.child inRight)

variable (anyLeft : base.engine.settings.anyLeftResult = true) (plainLeft : a.isTemplate = false)
  (plain : b.isTemplate = false) (notUnion : a.united? = none)
  (notAbsorbed : ¬(c.kind = .any ∨ c.kind = .unknown ∨ a.kind = .any))
  (first : Narrower pure a b) (second : Narrower pure b c)
include anyLeft plainLeft plain notUnion notAbsorbed first second

-- With a union in the middle, what is on the left was compared with one variant, or one part of it
-- with the whole.
theorem trans_union {variants : List Schema} (united : b.united? = some variants) :
    Narrower pure a c := by
  have shape := united_shape.mp united
  have notParts : b.intersected? = none := by simp [Schema.intersected?, shape]
  have stays : ¬(b.kind = .any ∨ b.kind = .unknown ∨ a.kind = .any) := by
    simp_all [Schema.kind, Shape.kind]
  rcases narrower_one noHandlers anyLeft onLeft between plainLeft notUnion plain notParts stays
    first with ⟨variants', found, v, member, holds⟩ | ⟨parts, found, u, member, holds⟩ |
      ⟨-, none, -⟩
  · have inside : v ∈ b.children := united_children _ _ found ▸ member
    have lighter := child_weight inside
    rw [union_left noHandlers anyLeft found between onRight] at second
    exact ih a v c (by omega) onLeft (between.child inside) (noAny.child inside) onRight holds
      (second v member)
  · have inside : u ∈ a.children := intersected_children _ _ found ▸ member
    have lighter := child_weight inside
    exact intersect_left_intro noHandlers anyLeft found onLeft onRight member
      (ih u b c (by omega) (onLeft.child inside) between noAny onRight holds second)
  · rw [none] at united
    cases united

variable (plainRight : c.isTemplate = false) (notIntersect : c.intersected? = none)
include plainRight notIntersect

-- With an intersection in the middle, one part of it was compared with what is on the right, or the
-- whole with one variant.
theorem trans_intersect {parts : List Schema} (intersected : b.intersected? = some parts) :
    Narrower pure a c := by
  have shape := intersected_shape.mp intersected
  have notUnited : b.united? = none := by simp [Schema.united?, shape]
  have stays : ¬(c.kind = .any ∨ c.kind = .unknown ∨ b.kind = .any) := by
    simp_all [Schema.kind, Shape.kind]
  rcases narrower_one noHandlers anyLeft between onRight plain notUnited plainRight notIntersect
    stays second with ⟨variants, found, v, member, holds⟩ | ⟨parts', found, u, member, holds⟩ |
      ⟨none, -, -⟩
  · have inside : v ∈ c.children := united_children _ _ found ▸ member
    have lighter := child_weight inside
    exact union_right_intro noHandlers anyLeft onLeft onRight plainLeft notUnion found member
      (ih a b v (by omega) onLeft between noAny (onRight.child inside) first holds)
  · have inside : u ∈ b.children := intersected_children _ _ found ▸ member
    have lighter := child_weight inside
    exact ih a u c (by omega) onLeft (between.child inside) (noAny.child inside) onRight
      (intersect_right_elim noHandlers anyLeft found onLeft between first member) holds
  · rw [none] at intersected
    cases intersected

-- With neither, what is on the right is a union or the kinds decide; then the same on the left.
theorem trans_kinds (notUnited : b.united? = none) (notParts : b.intersected? = none) :
    Narrower pure a c := by
  have isAny := noAny b (self_mem_parts b)
  have stays : ¬(c.kind = .any ∨ c.kind = .unknown ∨ b.kind = .any) := by simp_all
  rcases narrower_one noHandlers anyLeft between onRight plain notUnited plainRight notIntersect
    stays second with ⟨variants, found, v, member, holds⟩ | ⟨parts, found, -⟩ |
      ⟨-, notVariants, yields⟩
  · have inside : v ∈ c.children := united_children _ _ found ▸ member
    have lighter := child_weight inside
    exact union_right_intro noHandlers anyLeft onLeft onRight plainLeft notUnion found member
      (ih a b v (by omega) onLeft between noAny (onRight.child inside) first holds)
  · rw [notParts] at found
    cases found
  · -- What extends nothing by kind is not what anything is compared with.
    have isKnown : b.kind ≠ .unknown := by
      intro isUnknown
      have shape := (kind_basic (b := .unknown)).mp isUnknown
      simp [Rule.byKind, shape] at yields
    have stays' : ¬(b.kind = .any ∨ b.kind = .unknown ∨ a.kind = .any) := by simp_all
    rcases narrower_one noHandlers anyLeft onLeft between plainLeft notUnion plain notParts stays'
      first with ⟨variants, found, -⟩ | ⟨parts, found, u, member, holds⟩ | ⟨notParts', -, yields'⟩
    · rw [notUnited] at found
      cases found
    · have inside : u ∈ a.children := intersected_children _ _ found ▸ member
      have lighter := child_weight inside
      exact intersect_left_intro noHandlers anyLeft found onLeft onRight member
        (ih u b c (by omega) (onLeft.child inside) between noAny onRight holds second)
    · refine narrower_byKind noHandlers anyLeft onLeft onRight plainLeft notUnion plainRight
        notIntersect notParts' notVariants ?_
      exact apart_trans noHandlers ih onLeft between noAny onRight
        ⟨onLeft, plainLeft, notUnion, notParts', by simp_all⟩
        ⟨between, plain, notUnited, notParts, isAny⟩ yields' yields

end

-- By induction on the weight of all three: templates are expanded, unions on the left and
-- intersections on the right are taken apart, and then it depends on what is in the middle.
theorem narrower_trans {base : World} {pure : base.registry.Pure}
    (noHandlers : ∀ kind, base.registry.handler? kind = none)
    (anyLeft : base.engine.settings.anyLeftResult = true) (n : Nat) : Composes pure n := by
  induction n with
  | zero => exact fun a b c lighter => absurd lighter (Nat.not_lt_zero _)
  | succ n ih =>
    intro a b c lighter onLeft between noAny onRight first second
    have ih : Composes pure (a.weight + b.weight + c.weight) :=
      fun x y z less => ih x y z (by omega)
    rcases template_cases a with ⟨_, template⟩ | plainLeft
    · have lighter := resolved_weight 0 template
      rw [narrower_expandLeft noHandlers onLeft between] at first
      rw [narrower_expandLeft noHandlers onLeft onRight]
      exact ih _ b c (by omega) (onLeft.resolved 0) between noAny onRight first second
    rcases template_cases b with ⟨_, template⟩ | plain
    · have lighter := resolved_weight 0 template
      rw [narrower_expandRight noHandlers onLeft between] at first
      rw [narrower_expandLeft noHandlers between onRight] at second
      exact ih a _ c (by omega) onLeft (between.resolved 0) (noAny.resolved 0) onRight first second
    rcases template_cases c with ⟨_, template⟩ | plainRight
    · have lighter := resolved_weight 0 template
      rw [narrower_expandRight noHandlers between onRight] at second
      rw [narrower_expandRight noHandlers onLeft onRight]
      exact ih a b _ (by omega) onLeft between noAny (onRight.resolved 0) first second
    by_cases absorbs : c.kind = .any ∨ c.kind = .unknown ∨ a.kind = .any
    · exact narrower_absorbed noHandlers anyLeft onLeft onRight absorbs
    cases united : a.united? with
    | some variants =>
      rw [union_left noHandlers anyLeft united onLeft between] at first
      rw [union_left noHandlers anyLeft united onLeft onRight]
      intro v member
      have inside : v ∈ a.children := united_children _ _ united ▸ member
      have lighter := child_weight inside
      exact ih v b c (by omega) (onLeft.child inside) between noAny onRight (first v member) second
    | none =>
      cases intersected : c.intersected? with
      | some parts =>
        refine intersect_right_intro noHandlers anyLeft intersected onLeft onRight plainLeft united
          fun v member => ?_
        have inside : v ∈ c.children := intersected_children _ _ intersected ▸ member
        have lighter := child_weight inside
        exact ih a b v (by omega) onLeft between noAny (onRight.child inside) first
          (intersect_right_elim noHandlers anyLeft intersected between onRight second member)
      | none =>
        cases middle : b.united? with
        | some variants =>
          exact trans_union noHandlers ih onLeft between noAny onRight anyLeft plainLeft plain
            united absorbs first second middle
        | none =>
          cases parts : b.intersected? with
          | some _ =>
            exact trans_intersect noHandlers ih onLeft between noAny onRight anyLeft plainLeft plain
              united absorbs first second plainRight intersected parts
          | none =>
            exact trans_kinds noHandlers ih onLeft between noAny onRight anyLeft plainLeft plain
              united absorbs first second plainRight intersected middle parts

theorem notIndexed_of_tame {registry : Registry} {s : Schema} (tame : s.Tame registry) :
    Rule.isNumericRecord s = false := by
  have allowed := tame.shape
  unfold Rule.isNumericRecord
  split
  · rename_i shape
    simp [shape, Shape.tame] at allowed
  · rfl

theorem made_tame {registry : Registry} (mark : Nat) {s t : Schema} (tame : t.Tame registry) :
    (Rule.made mark s t).Tame registry := by
  have allowed := tame.shape
  refine @members_tame registry mark _ ?_
  unfold Rule.made
  split
  · rename_i shape _
    simp [shape, Shape.tame] at allowed
  · rename_i shape _
    simp [shape, Shape.tame] at allowed
  all_goals simp [Rule.members]

-- Goals of tame schemas that are prepared are worked through step by step.
theorem tame_loop {settings : Settings} {registry : Registry} {mark : Nat} {left right : Site}
    (tame : left.schema.Tame registry) (plain : left.schema.isTemplate = false) :
    (Rule.goal settings registry mark left right).Loop := by
  rcases Rule.goal_cases settings registry mark left right with
    loop | ⟨_, _, unprepared⟩ | ⟨kind, handler, isUser, found, -⟩
  · exact loop
  · simp [plain, tame.concrete.self] at unprepared
  · rw [tame.no_rule (self_mem_parts _) isUser] at found
    cases found

-- Without references, comparisons get lighter all the way down, so they come to an answer.
theorem tame_settles {registry : Registry} {depth : Nat} {left right : Site} {w : World}
    (same : w.registry = registry) (onLeft : left.schema.Tame registry)
    (onRight : right.schema.Tame registry)
    (deep : left.schema.weight + right.schema.weight < depth) :
    Settles (visit depth) left right w := by
  induction depth generalizing left right w with
  | zero => exact absurd deep (Nat.not_lt_zero _)
  | succ depth ih =>
    subst same
    obtain ⟨scope, scopeMark, mark, supply, first⟩ :=
      prepare_concrete onLeft.concrete.self onLeft.known
    obtain ⟨scope', scopeMark', mark', supply', second⟩ :=
      @prepare_concrete right { w with supply } onRight.concrete.self onRight.known
    have tameLeft := onLeft.resolved mark
    have tameRight := onRight.resolved mark'
    refine visit_settles first second
      (tame_loop tameLeft (resolved_ready mark onLeft.concrete.self).2.1) ?_
    intro x y v _ inside follows
    have asks := Rule.goal_asks inside
    obtain ⟨tameX, tameY⟩ := asks.keeps (fun tame => tame.child) (made_tame _ tameRight) tameLeft
      tameRight
    refine ih follows.registry tameX tameY ?_
    have lighter := asks.lighter (notIndexed_of_tame tameRight)
    have weightLeft := resolved_weight_le mark left.schema
    have weightRight := resolved_weight_le mark' right.schema
    simp only at lighter
    omega

-- Worlds in which a query starts, with the settings that are the default.
structure Standard (registry : Registry) (w : World) : Prop where
  registry : w.registry = registry
  cycle : w.engine.settings.cycleResult = true
  anyLeft : w.engine.settings.anyLeftResult = true
  idle : w.engine.active = []

theorem query_answers {registry : Registry} {w : World} (standard : Standard registry w)
    {s t : Schema} (onLeft : s.Tame registry) (onRight : t.Tame registry) {depth : Nat}
    (deep : s.weight + t.weight < depth) :
    ∃ b, (query (compareSchemas depth s t [] []) w).1 = .ok b := by
  simp only [query, standard.idle, List.isEmpty_nil, if_true]
  exact (@tame_settles registry depth _ _ (w.setEngine reset) standard.registry onLeft onRight
    deep).answers

theorem Standard.serves {registry : Registry} {w : World} (standard : Standard registry w) :
    Serves (withoutRules { registry := registry }) {kind | registry.handler? kind = none} w := by
  refine ⟨standard.anyLeft, standard.cycle, ?_, ?_⟩
  · intro kind
    rw [standard.registry]
    exact withoutRules_kinds { registry := registry } kind
  · intro kind free
    rw [standard.registry, withoutRules_handler]
    exact free

theorem tame_withoutRules {w : World} {s : Schema} (tame : s.Tame w.registry) :
    s.Tame (withoutRules w).registry := by
  intro t part
  obtain ⟨allowed, distinct, plain⟩ := tame t part
  refine ⟨allowed, distinct, ?_⟩
  have known := withoutRules_kinds w t.kind
  cases kind : t.kind with
  | user name =>
    rw [kind] at known plain
    simp only [Registry.plain, Bool.and_eq_true, Registry.knows] at plain known ⊢
    exact ⟨known ▸ plain.1, by rw [withoutRules_handler]; rfl⟩
  | _ => rfl

-- An answer of yes is a fact about the two schemas alone, and all of them are facts under the same
-- rules.
theorem query_narrower {registry : Registry} {w : World} (standard : Standard registry w)
    {s t : Schema} (onLeft : s.Tame registry) (onRight : t.Tame registry)
    (placed : Placed w.supply [s, t]) {depth : Nat} {b : Bool}
    (returned : (query (compareSchemas depth s t [] []) w).1 = .ok b) :
    b = true ↔ Narrower (withoutRules_pure { registry := registry }) s t := by
  obtain ⟨ledger, sound, known⟩ := Ledger.exists_of_placed {kind | registry.handler? kind = none}
    placed List.mem_cons_self (by
      intro p part kind isUser
      rcases List.mem_append.mp (by simpa using part) with inside | inside
      · exact onLeft.no_rule inside isUser
      · exact onRight.no_rule inside isUser)
  have answer := query_settled (withoutRules_pure _) standard.serves sound known standard.idle
    returned 0 0
  have cycle : (withoutRules { registry := registry }).engine.settings.cycleResult = true := rfl
  rw [cycle, settled_true] at answer
  exact answer

-- If the answers are that one schema extends a second and the second a third, the answer for the
-- first and the third comes, and is that the first extends the third.
theorem query_transitive {registry : Registry} {a b c : Schema} (onLeft : a.Tame registry)
    (between : b.Tame registry) (onRight : c.Tame registry) (noAny : b.NoAny) {u v w : World}
    (standard : Standard registry u) (standard' : Standard registry v)
    (standard'' : Standard registry w) (placed : Placed u.supply [a, b])
    (placed' : Placed v.supply [b, c]) (placed'' : Placed w.supply [a, c]) {depth depth' : Nat}
    (first : (query (compareSchemas depth a b [] []) u).1 = .ok true)
    (second : (query (compareSchemas depth' b c [] []) v).1 = .ok true) {depth'' : Nat}
    (deep : a.weight + c.weight < depth'') :
    (query (compareSchemas depth'' a c [] []) w).1 = .ok true := by
  obtain ⟨answer, returned⟩ := query_answers standard'' onLeft onRight deep
  have below := (query_narrower standard onLeft between placed first).mp rfl
  have above := (query_narrower standard' between onRight placed' second).mp rfl
  have through := narrower_trans (withoutRules_handler { registry := registry }) rfl _ a b c
    (Nat.lt_succ_self _) (tame_withoutRules onLeft) (tame_withoutRules between) noAny
    (tame_withoutRules onRight) below above
  rw [returned, (query_narrower standard'' onLeft onRight placed'' returned).mpr through]

-- An object, an intersection of objects and a union, with a template, a user kind and functions
-- inside.
def lower : Schema :=
  .plain (.object [("label", .plain (.template [.text "no ", .schema (.basic .boolean)])),
    ("code", .plain (.user ⟨"Code", rfl⟩ [])),
    ("call", .plain (.callable .function [.basic .number] (.plain (.literal (.int 3)))))] .null)

def middle : Schema :=
  .plain (.intersect [.plain (.object [("code", .plain (.user ⟨"Code", rfl⟩ [])),
      ("call", .plain (.callable .function [.basic .integer] (.basic .integer)))] .null),
    .plain (.object [("label", .basic .string)] .null)])

def upper : Schema :=
  .plain (.union [.basic .boolean, .plain (.object [("call", .plain (.callable .function
    [.plain (.literal (.int 2))] (.basic .number)))] .null)])

def codeWorld : World := { supply := 22, registry := [("Code", none)] }

theorem lower_below_upper :
    (query (compareSchemas 21 (lower.place 15).1 (middle.place 7).1 [] [])
      codeWorld).1.toOption = some true ∧
    (query (compareSchemas 21 (middle.place 7).1 (upper.place 1).1 [] [])
      codeWorld).1.toOption = some true ∧
    (query (compareSchemas 21 (lower.place 15).1 (upper.place 1).1 [] []) codeWorld).1 =
      .ok true := by
  have apart : Placed 22 [(lower.place 15).1, (middle.place 7).1, (upper.place 1).1] :=
    (@Placed.two 1 upper middle (by decide) (by decide)).place
      fun p part marked => absurd ((by decide : ∀ p ∈ lower.parts, p.mark = 0) p part) marked
  have placed : ∀ {roots : List Schema}, roots ⊆
      [(lower.place 15).1, (middle.place 7).1, (upper.place 1).1] → Placed 22 roots :=
    fun sub => apart.coherent.placed fun s member =>
      List.mem_flatMap.mpr ⟨s, sub member, self_mem_parts s⟩
  have standard : Standard [("Code", none)] codeWorld := ⟨rfl, rfl, rfl, rfl⟩
  have first : (query (compareSchemas 21 (lower.place 15).1 (middle.place 7).1 [] [])
    codeWorld).1.toOption = some true := by decide +kernel
  have second : (query (compareSchemas 21 (middle.place 7).1 (upper.place 1).1 [] [])
    codeWorld).1.toOption = some true := by decide +kernel
  refine ⟨first, second, ?_⟩
  exact query_transitive (by decide) (by decide) (by decide) (by decide) standard standard standard
    (placed (by simp)) (placed (by simp)) (placed (by simp)) (ok_of_toOption first)
    (ok_of_toOption second) (by decide)

end Engine

end Assignability
