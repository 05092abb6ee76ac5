import Assignability.Proofs.Agreement
import Assignability.Proofs.Reordering
import Mathlib.Data.Set.Finite.Basic

namespace Assignability

-- A part that is drawn from no finite set makes the language of a template all strings.

-- Some leaf, through unions and nested templates, is neither fixed text nor a literal nor boolean.
inductive Shape.Unbounded : Shape → Prop
  | leaf {shape : Shape} : shape.kind ∉ [.literal, .boolean, .union, .templateLiteral] →
    Unbounded shape
  | variant {v : Schema} {variants : List Schema} : v ∈ variants → Unbounded v.shape →
    Unbounded (.union variants)
  | part {v : Schema} {parts : List Part} : .schema v ∈ parts → Unbounded v.shape →
    Unbounded (.template parts)

mutual

-- The strings that a schema stands for inside a template.
inductive Shape.Renders : Shape → String → Prop
  | literal (value : Scalar) : Shape.Renders (.literal value) value.interpolated
  | boolean (b : Bool) : Shape.Renders (.basic .boolean) (if b then "true" else "false")
  | variant {v : Schema} {variants : List Schema} {x : String} : v ∈ variants →
    Shape.Renders v.shape x → Shape.Renders (.union variants) x
  | template {parts : List Part} {x : String} : Template.Renders parts x →
    Shape.Renders (.template parts) x

-- One choice for each part, in order.
inductive Template.Renders : List Part → String → Prop
  | nil : Template.Renders [] ""
  | text {s x : String} {rest : List Part} : Template.Renders rest x →
    Template.Renders (.text s :: rest) (s ++ x)
  | schema {v : Schema} {x y : String} {rest : List Part} : Shape.Renders v.shape x →
    Template.Renders rest y → Template.Renders (.schema v :: rest) (x ++ y)

end

namespace Template

def Unbounded (parts : List Part) : Prop := ∃ v, .schema v ∈ parts ∧ v.shape.Unbounded

def language (parts : List Part) : Set String := {x | Unbounded parts ∨ Renders parts x}

-- A list of all strings, and none if there are too many.
structure Lists (listed : Option (List String)) (unbounded : Prop) (renders : String → Prop) :
    Prop where
  none_iff : listed = none ↔ unbounded
  mem_iff : ∀ strings, listed = some strings → ∀ x, x ∈ strings ↔ renders x

section
variable {unbounded : Prop} {renders : String → Prop}

theorem Lists.all (infinite : unbounded) : Lists none unbounded renders :=
  ⟨iff_of_true rfl infinite, fun _ listed => by cases listed⟩

theorem Lists.these {strings : List String} (finite : ¬unbounded)
    (members : ∀ x, x ∈ strings ↔ renders x) : Lists (some strings) unbounded renders := by
  refine ⟨iff_of_false (by simp) finite, fun others listed => ?_⟩
  cases listed
  exact members

end

theorem mem_joinAll {heads tails : List String} {x : String} :
    x ∈ joinAll heads tails ↔ ∃ head ∈ heads, ∃ tail ∈ tails, head ++ tail = x := by
  simp [joinAll]

theorem not_unbounded_leaf {shape : Shape}
    (known : shape.kind = .literal ∨ shape.kind = .boolean) : ¬shape.Unbounded := by
  intro unbounded
  cases unbounded with
  | leaf other => rcases known with same | same <;> simp [same] at other
  | variant _ _ => rcases known with same | same <;> cases same
  | part _ _ => rcases known with same | same <;> cases same

mutual

theorem expand_lists : ∀ s : Schema, Lists (expand s) s.shape.Unbounded s.shape.Renders
  | .mk _ _ _ shape => by
    rw [expand]
    exact expandShape_lists shape

theorem expandShape_lists : ∀ shape : Shape,
    Lists (expandShape shape) shape.Unbounded shape.Renders
  | .literal value => by
    refine .these (not_unbounded_leaf (.inl rfl)) fun x => ?_
    rw [List.mem_singleton]
    constructor
    · rintro rfl
      exact .literal value
    · intro renders
      cases renders
      rfl
  | .basic b => by
    cases b with
    | boolean =>
      refine .these (not_unbounded_leaf (.inr rfl)) fun x => ?_
      constructor
      · intro member
        simp only [List.mem_cons, List.not_mem_nil, or_false] at member
        rcases member with rfl | rfl
        · exact .boolean true
        · exact .boolean false
      · intro renders
        cases renders with
        | boolean b => cases b <;> simp
    | _ => exact .all (.leaf (by simp [Shape.kind, Basic.kind]))
  | .union variants => by
    obtain ⟨none_iff, mem_iff⟩ := expandVariants_lists [] variants
    rw [expandShape]
    refine ⟨none_iff.trans ?_, fun strings listed x => (mem_iff strings listed x).trans ?_⟩
    · constructor
      · rintro ⟨v, member, unbounded⟩
        exact .variant member unbounded
      · intro unbounded
        cases unbounded with
        | leaf other => simp [Shape.kind] at other
        | variant member unbounded => exact ⟨_, member, unbounded⟩
    · constructor
      · rintro (nothing | ⟨v, member, renders⟩)
        · cases nothing
        · exact .variant member renders
      · intro renders
        cases renders with
        | variant member renders => exact .inr ⟨_, member, renders⟩
  | .template parts => by
    obtain ⟨none_iff, mem_iff⟩ := expandParts_lists parts
    rw [expandShape]
    refine ⟨none_iff.trans ?_, fun strings listed x => (mem_iff strings listed x).trans ?_⟩
    · constructor
      · rintro ⟨v, member, unbounded⟩
        exact .part member unbounded
      · intro unbounded
        cases unbounded with
        | leaf other => simp [Shape.kind] at other
        | part member unbounded => exact ⟨_, member, unbounded⟩
    · constructor
      · exact .template
      · intro renders
        cases renders with
        | template renders => exact renders
  | .callable form _ _ => by
    cases form <;> exact .all (.leaf (by simp [Shape.kind, CallForm.kind]))
  | .reference form _ => by
    cases form <;> exact .all (.leaf (by simp [Shape.kind, ReferenceForm.kind]))
  | .promise _ | .array _ | .tuple _ | .object _ _ | .record _ _ | .intersect _ | .user _ _ =>
    .all (.leaf (by simp [Shape.kind]))

theorem expandVariants_lists : ∀ (known : List String) (variants : List Schema),
    Lists (expandVariants known variants) (∃ v ∈ variants, v.shape.Unbounded)
      fun x => x ∈ known ∨ ∃ v ∈ variants, v.shape.Renders x
  | known, [] => .these (by simp) (by simp)
  | known, v :: vs => by
    have first := expand_lists v
    rw [expandVariants]
    cases expanded : expand v with
    | none => exact .all ⟨v, List.mem_cons_self, first.none_iff.mp expanded⟩
    | some strings =>
      have bounded : ¬v.shape.Unbounded := by
        rw [← first.none_iff, expanded]
        simp
      obtain ⟨none_iff, mem_iff⟩ := expandVariants_lists (addNew known strings) vs
      refine ⟨none_iff.trans ?_, fun others listed x => (mem_iff others listed x).trans ?_⟩
      · simp [bounded]
      · simp [mem_addNew, first.mem_iff strings expanded x, or_assoc]

theorem expandParts_lists : ∀ parts : List Part,
    Lists (expandParts parts) (Unbounded parts) (Renders parts)
  | [] => by
    refine .these (by simp [Unbounded]) fun x => ?_
    rw [List.mem_singleton]
    constructor
    · rintro rfl
      exact .nil
    · intro renders
      cases renders
      rfl
  | .text s :: rest => by
    have later := expandParts_lists rest
    have same : Unbounded (.text s :: rest) ↔ Unbounded rest := by simp [Unbounded]
    rw [expandParts]
    cases expanded : expandParts rest with
    | none => exact .all (same.mpr (later.none_iff.mp expanded))
    | some tails =>
      refine .these ?_ fun x => ?_
      · rw [same, ← later.none_iff, expanded]
        simp
      · simp only [mem_joinAll, List.mem_singleton, exists_eq_left, later.mem_iff tails expanded]
        constructor
        · rintro ⟨tail, renders, rfl⟩
          exact .text renders
        · intro renders
          cases renders with
          | text renders => exact ⟨_, renders, rfl⟩
  | .schema v :: rest => by
    have first := expand_lists v
    have later := expandParts_lists rest
    have either : Unbounded (.schema v :: rest) ↔ v.shape.Unbounded ∨ Unbounded rest := by
      simp [Unbounded, or_and_right, exists_or]
    rw [expandParts]
    cases expanded : expand v with
    | none => exact .all (either.mpr (.inl (first.none_iff.mp expanded)))
    | some heads =>
      cases expanded' : expandParts rest with
      | none => exact .all (either.mpr (.inr (later.none_iff.mp expanded')))
      | some tails =>
        refine .these ?_ fun x => ?_
        · rw [either, ← first.none_iff, ← later.none_iff, expanded, expanded']
          simp
        · simp only [mem_joinAll, first.mem_iff heads expanded, later.mem_iff tails expanded']
          constructor
          · rintro ⟨head, renders, tail, renders', rfl⟩
            exact .schema renders renders'
          · intro renders
            cases renders with
            | schema renders renders' => exact ⟨_, renders, _, renders', rfl⟩

end

def word (x : String) : Schema := .plain (.literal (.text x))

-- The schemas that templates are equivalent to, with what they stand for.
inductive Stands : Schema → Set String → Prop
  | all : Stands (.basic .string) Set.univ
  | one (x : String) : Stands (word x) {x}
  | several (strings : List String) :
    Stands (.plain (.union (strings.map word))) {x | x ∈ strings}

theorem resolve_stands (parts : List Part) : Stands (resolve parts) (language parts) := by
  have lists := expandParts_lists parts
  unfold resolve
  cases expanded : expandParts parts with
  | none =>
    have all : language parts = Set.univ :=
      Set.eq_univ_of_forall fun x => .inl (lists.none_iff.mp expanded)
    rw [all]
    exact .all
  | some strings =>
    have bounded : ¬Unbounded parts := by
      rw [← lists.none_iff, expanded]
      simp
    have listed : language parts = {x | x ∈ strings} := by
      ext x
      simp [language, bounded, lists.mem_iff strings expanded x]
    rw [listed]
    split
    · rename_i nothing
      cases nothing
    · rename_i x single
      cases single
      simpa [word] using Stands.one x
    · rename_i others _ same
      cases same
      exact .several strings

section
variable {s : Schema} {strings : Set String} (stands : Stands s strings)
include stands

theorem Stands.erase : s.erase = s := by
  cases stands with
  | all => rfl
  | one x => rfl
  | several words =>
    have each : Schema.eraseAll (words.map word) = words.map word := by
      rw [eraseAll_eq, List.map_map]
      rfl
    simp [Schema.plain, Schema.erase, Shape.erase, Value.erase, each]

theorem Stands.expanded : s.expanded = s := by
  cases stands <;> rfl

theorem Stands.known (registry : Registry) : registry.knows s.kind = true := by
  cases stands <;> rfl

-- Only a template without bounds stands for all strings.
theorem Stands.all_strings (every : Set.univ ⊆ strings) : s = .basic .string := by
  cases stands with
  | all => rfl
  | one x => exact absurd ((Set.finite_singleton x).subset every) Set.infinite_univ
  | several words => exact absurd ((List.finite_toSet words).subset every) Set.infinite_univ

end

end Template

-- There is an answer, and it says whether the property holds.
def Decides (answer : Option Bool) (property : Prop) : Prop :=
  ∃ b, answer = some b ∧ (b = true ↔ property)

theorem Decides.congr {answer : Option Bool} {property other : Prop}
    (decides : Decides answer property) (same : property ↔ other) : Decides answer other := by
  rwa [← propext same]

section
variable {α : Type} {ask : Site → Site → Option Bool} {left right : α → Site} {holds : α → Prop}
  {xs : List α}

theorem decides_all (each : ∀ a ∈ xs, Decides (ask (left a) (right a)) (holds a)) :
    Decides ((Goal.all (xs.map fun a => .compare (left a) (right a))).value ask)
      (∀ a ∈ xs, holds a) := by
  induction xs with
  | nil => exact ⟨true, rfl, by simp⟩
  | cons a rest ih =>
    obtain ⟨b, answered, first⟩ := each a List.mem_cons_self
    obtain ⟨c, found, later⟩ := ih fun a member => each a (List.mem_cons_of_mem _ member)
    simp only [Goal.value] at found ⊢
    cases b with
    | false => exact ⟨false, by simp [Goal.valueOf, answered], by simp [← first]⟩
    | true => exact ⟨c, by simp [Goal.valueOf, answered, found], by simp [← first, later]⟩

theorem decides_any (each : ∀ a ∈ xs, Decides (ask (left a) (right a)) (holds a)) :
    Decides ((Goal.any (xs.map fun a => .compare (left a) (right a))).value ask)
      (∃ a ∈ xs, holds a) := by
  induction xs with
  | nil => exact ⟨false, rfl, by simp⟩
  | cons a rest ih =>
    obtain ⟨b, answered, first⟩ := each a List.mem_cons_self
    obtain ⟨c, found, later⟩ := ih fun a member => each a (List.mem_cons_of_mem _ member)
    simp only [Goal.value] at found ⊢
    cases b with
    | true => exact ⟨true, by simp [Goal.valueOf, answered], by simp [← first]⟩
    | false => exact ⟨c, by simp [Goal.valueOf, answered, found], by simp [← first, later]⟩

end

namespace Template

section
variable {settings : Settings} {registry : Registry} {s t : Schema} {ours theirs : Set String}

theorem evaluate_stands (onLeft : Stands s ours) (onRight : Stands t theirs) (fuel : Nat) :
    evaluate settings registry (fuel + 1) s t =
      (Rule.goal settings registry 0 (.bare s) (.bare t)).value
        fun x y => evaluate settings registry fuel x.schema.erase y.schema.erase := by
  rw [evaluate, if_pos ⟨onLeft.known registry, onRight.known registry⟩, onLeft.expanded,
    onRight.expanded]

-- All words on the left are compared with the right side,
theorem evaluate_left_words {words : List String} {holds : String → Prop}
    (onRight : Stands t theirs) {fuel : Nat}
    (each : ∀ x, Decides (evaluate settings registry fuel (word x) t) (holds x)) :
    Decides (evaluate settings registry (fuel + 1) (.plain (.union (words.map word))) t)
      (∀ x ∈ words, holds x) := by
  have asked : Rule.goal settings registry 0 (.bare (.plain (.union (words.map word)))) (.bare t) =
      .all (words.map fun x => .compare (.bare (word x)) (.bare t)) := by
    cases onRight <;> exact congrArg Goal.all List.map_map
  rw [evaluate_stands (.several words) onRight, asked]
  refine decides_all fun x _ => ?_
  rw [Site.bare_schema, Site.bare_schema, onRight.erase]
  exact each x

-- and anything else on the left with the words on the right until one fits.
theorem evaluate_right_words {words : List String} {holds : String → Prop}
    (onLeft : Stands s ours) (whole : s.united? = none) {fuel : Nat}
    (each : ∀ y, Decides (evaluate settings registry fuel s (word y)) (holds y)) :
    Decides (evaluate settings registry (fuel + 1) s (.plain (.union (words.map word))))
      (∃ y ∈ words, holds y) := by
  have asked : Rule.goal settings registry 0 (.bare s) (.bare (.plain (.union (words.map word)))) =
      .any (words.map fun y => .compare (.bare s) (.bare (word y))) := by
    cases onLeft with
    | several _ => cases whole
    | _ => exact congrArg Goal.any List.map_map
  rw [evaluate_stands onLeft (.several words), asked]
  refine decides_any fun y _ => ?_
  rw [Site.bare_schema, Site.bare_schema, onLeft.erase]
  exact each y

theorem evaluate_words (x y : String) (fuel : Nat) :
    Decides (evaluate settings registry (fuel + 1) (word x) (word y)) (x = y) := by
  have value : evaluate settings registry (fuel + 1) (word x) (word y) =
      (Goal.answer (x == y)).value fun x y =>
        evaluate settings registry fuel x.schema.erase y.schema.erase :=
    evaluate_stands (.one x) (.one y) fuel
  exact ⟨x == y, by rw [value, Goal.value_answer], beq_iff_eq⟩

theorem evaluate_word (x : String) (onRight : Stands t theirs) (fuel : Nat) :
    Decides (evaluate settings registry (fuel + 2) (word x) t) (x ∈ theirs) := by
  cases onRight with
  | all => exact ⟨true, rfl, by simp⟩
  | one y => exact evaluate_words x y (fuel + 1)
  | several words =>
    refine (evaluate_right_words (.one x) rfl fun y => evaluate_words x y fuel).congr ?_
    simp

theorem evaluate_string (onRight : Stands t theirs) (fuel : Nat) :
    Decides (evaluate settings registry (fuel + 2) (.basic .string) t) (Set.univ ⊆ theirs) := by
  have never : ∀ y fuel,
      Decides (evaluate settings registry (fuel + 1) (.basic .string) (word y)) False :=
    fun y fuel => ⟨false, rfl, by simp⟩
  have bounded : t ≠ .basic .string → (False ↔ Set.univ ⊆ theirs) := fun differs =>
    iff_of_false id fun every => differs (onRight.all_strings every)
  cases onRight with
  | all => exact ⟨true, rfl, by simp⟩
  | one y => exact (never y (fuel + 1)).congr (bounded (by simp [word, Schema.plain, Schema.basic]))
  | several words =>
    refine (evaluate_right_words .all rfl fun y => never y fuel).congr ?_
    simpa using bounded (by simp [Schema.plain, Schema.basic])

-- Comparing the schemas that two templates are equivalent to decides inclusion.
theorem evaluate_inclusion (onLeft : Stands s ours) (onRight : Stands t theirs) (fuel : Nat) :
    Decides (evaluate settings registry (fuel + 3) s t) (ours ⊆ theirs) := by
  cases onLeft with
  | all => exact evaluate_string onRight (fuel + 1)
  | one x =>
    rw [Set.singleton_subset_iff]
    exact evaluate_word x onRight (fuel + 1)
  | several words =>
    exact evaluate_left_words onRight fun x => evaluate_word x onRight fuel

-- Copies of templates are compared by what they are equivalent to.
theorem evaluate_templates {left right : Schema} {parts parts' : List Part}
    (onLeft : left.shape = .template parts) (onRight : right.shape = .template parts')
    (fuel : Nat) :
    Decides (evaluate settings registry (fuel + 3) left.erase right.erase)
      (language parts ⊆ language parts') := by
  have stands := resolve_stands parts
  have stands' := resolve_stands parts'
  have known : registry.knows left.erase.kind ∧ registry.knows right.erase.kind := by
    simp [Schema.kind, erase_shape, onLeft, onRight, Shape.erase, Shape.kind, Registry.knows]
  have same : evaluate settings registry (fuel + 3) left.erase right.erase =
      evaluate settings registry (fuel + 3) (resolve parts) (resolve parts') := by
    rw [evaluate_stands stands stands', evaluate, if_pos known, expanded_template onLeft,
      expanded_template onRight]
  rw [same]
  exact evaluate_inclusion stands stands' fuel

end

theorem parts_template {s : Schema} {parts : List Part} (shape : s.shape = .template parts) :
    s.parts = [s] := by
  obtain ⟨mark, id, optional, inner⟩ := s
  cases shape
  rfl

end Template

namespace Engine

-- Two templates have an answer, and it says whether all strings of one are strings of the other.
theorem templates_compare_as_languages {w : World} {left right : Schema} {parts parts' : List Part}
    {leftScope rightScope : Scope} (onLeft : left.shape = .template parts)
    (onRight : right.shape = .template parts')
    (placed : Placed w.supply (left :: right :: (leftScope ++ rightScope)))
    (noRules : ∀ t ∈ (leftScope ++ rightScope).flatMap Schema.parts,
      ∀ kind, t.kind = .user kind → w.registry.handler? kind = none)
    (idle : w.engine.active = []) :
    (∀ depth ≥ 3, ∃ b,
      (query (compareSchemas depth left right leftScope rightScope) w).1 = .ok b) ∧
    ∀ depth b, (query (compareSchemas depth left right leftScope rightScope) w).1 = .ok b →
      (b = true ↔ Template.language parts ⊆ Template.language parts') := by
  have ours := Template.parts_template onLeft
  have theirs := Template.parts_template onRight
  have concrete : left.Concrete ∧ right.Concrete := by
    simp [Schema.Concrete, ours, theirs, Schema.isReference, onLeft, onRight]
  have kinds : ∀ t ∈ (left :: right :: (leftScope ++ rightScope)).flatMap Schema.parts,
      ∀ kind, t.kind = .user kind → kind ∈ {name | w.registry.handler? name = none} := by
    intro t inside kind user
    have builtIn : t ≠ left ∧ t ≠ right := by
      constructor <;> rintro rfl <;> simp [Schema.kind, onLeft, onRight, Shape.kind] at user
    simp only [List.flatMap_cons, ours, theirs, List.mem_append, List.mem_singleton, builtIn,
      false_or] at inside
    exact noRules t inside kind user
  obtain ⟨ledger, sound, known⟩ := Ledger.exists_of_placed _ placed List.mem_cons_self kinds
  have agrees := query_agrees (withoutRules_pure w) (serves_withoutRules fun _ none => none)
    sound known idle concrete.1 concrete.2
  obtain ⟨b, found, decides⟩ := Template.evaluate_templates onLeft onRight 0
  refine ⟨fun depth deep => ⟨b, (agrees depth).reached b (evaluate_grows deep found)⟩, ?_⟩
  intro depth c returned
  obtain ⟨fuel, other⟩ := (agrees depth).fuelled c returned
  rw [evaluate_unique other found]
  exact decides

-- A nested template with a union behind a boolean, and the same strings cut at another place, with
-- further ones.
def narrow : List Part :=
  [.text "is-", .schema (.basic .boolean),
    .schema (.plain (.template [.text "-", .schema (.plain (.union
      [.plain (.literal (.text "on")), .plain (.literal (.text "off"))]))]))]

def wide : List Part :=
  [.schema (.plain (.union [.plain (.literal (.int 7)),
      .plain (.template [.text "is-", .schema (.basic .boolean), .text "-o"])])),
    .schema (.plain (.union [.plain (.literal (.text "n")), .plain (.literal (.text "ff")),
      .plain (.literal (.text ""))]))]

theorem narrow_within_wide :
    (∀ depth ≥ 3, (query (compareSchemas depth (Rule.marked 1 (.template narrow))
      (Rule.marked 2 (.template wide)) [] []) { supply := 3 }).1 = .ok true) ∧
    Template.language narrow ⊆ Template.language wide ∧
      ¬Template.language wide ⊆ Template.language narrow := by
  have parts : [Rule.marked 1 (.template narrow), Rule.marked 2 (.template wide)].flatMap
      Schema.parts = [Rule.marked 1 (.template narrow), Rule.marked 2 (.template wide)] := rfl
  have placed : Placed 3 [Rule.marked 1 (.template narrow), Rule.marked 2 (.template wide)] := by
    refine ⟨by decide, fun s first t second same => ?_⟩
    simp only [parts, List.mem_cons, List.not_mem_nil, or_false] at first second
    rcases first with rfl | rfl <;> rcases second with rfl | rfl
    · rfl
    · cases same
    · cases same
    · rfl
  have turned : Placed 3 [Rule.marked 2 (.template wide), Rule.marked 1 (.template narrow)] :=
    placed.subset (by simp)
  have forth : (query (compareSchemas 3 (Rule.marked 1 (.template narrow))
      (Rule.marked 2 (.template wide)) [] []) { supply := 3 }).1.toOption = some true := by
    decide +kernel
  have back : (query (compareSchemas 3 (Rule.marked 2 (.template wide))
      (Rule.marked 1 (.template narrow)) [] []) { supply := 3 }).1.toOption = some false := by
    decide +kernel
  have noRules : ∀ t ∈ (([] : Scope) ++ []).flatMap Schema.parts, ∀ kind, t.kind = .user kind →
      ({ supply := 3 } : World).registry.handler? kind = none := fun _ _ _ _ => rfl
  obtain ⟨answers, decides⟩ := templates_compare_as_languages rfl rfl placed noRules rfl
  obtain ⟨-, decides'⟩ := templates_compare_as_languages rfl rfl turned noRules rfl
  have inside := (decides 3 true (ok_of_toOption forth)).mp rfl
  refine ⟨fun depth deep => ?_, inside, fun other => ?_⟩
  · obtain ⟨b, returned⟩ := answers depth deep
    rw [returned, (decides depth b returned).mpr inside]
  · cases (decides' 3 false (ok_of_toOption back)).mpr other

end Engine

end Assignability
