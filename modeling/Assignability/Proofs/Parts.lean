import Assignability.Engine.Visit
import Mathlib.Data.List.Basic

namespace Assignability

-- Comparisons only ever go from a schema to its children, and get lighter by it.

-- Keys of records, pieces of templates and fields of user kinds are never compared.
def Schema.children (s : Schema) : List Schema :=
  match s.shape with
  | .callable _ parameters returns => parameters ++ [returns]
  | .promise item => [item]
  | .array items => [items]
  | .tuple items => items
  | .object properties additional => properties.map (·.2) ++ additional.schema?.toList
  | .record _ value => [value]
  | .union variants => variants
  | .intersect variants => variants
  | _ => []

-- The names of an object's properties.
def Schema.propertyNames (s : Schema) : List String :=
  match s.shape with
  | .object properties _ => properties.map Prod.fst
  | _ => []

mutual

-- The schema itself comes first.
def Schema.parts : Schema → List Schema
  | .mk mark id optional shape => .mk mark id optional shape :: Shape.parts shape

def Schema.partsOfAll : List Schema → List Schema
  | [] => []
  | s :: rest => Schema.parts s ++ Schema.partsOfAll rest

def Schema.partsOfProperties : List (String × Schema) → List Schema
  | [] => []
  | (_, s) :: rest => Schema.parts s ++ Schema.partsOfProperties rest

def Value.parts : Value → List Schema
  | .schema s => Schema.parts s
  | _ => []

def Shape.parts : Shape → List Schema
  | .callable _ parameters returns => Schema.partsOfAll parameters ++ Schema.parts returns
  | .promise item => Schema.parts item
  | .array items => Schema.parts items
  | .tuple items => Schema.partsOfAll items
  | .object properties additional => Schema.partsOfProperties properties ++ Value.parts additional
  | .record _ value => Schema.parts value
  | .union variants => Schema.partsOfAll variants
  | .intersect variants => Schema.partsOfAll variants
  | _ => []

end

theorem partsOfAll_eq (schemas : List Schema) :
    Schema.partsOfAll schemas = schemas.flatMap Schema.parts := by
  induction schemas with
  | nil => rfl
  | cons s rest ih => simp [Schema.partsOfAll, ih]

theorem partsOfProperties_eq (properties : List (String × Schema)) :
    Schema.partsOfProperties properties = (properties.map (·.2)).flatMap Schema.parts := by
  induction properties with
  | nil => rfl
  | cons p rest ih =>
    obtain ⟨name, s⟩ := p
    simp [Schema.partsOfProperties, ih]

theorem valueParts_eq (v : Value) : v.parts = v.schema?.toList.flatMap Schema.parts := by
  cases v <;> simp [Value.parts, Value.schema?]

theorem parts_eq (s : Schema) : s.parts = s :: s.children.flatMap Schema.parts := by
  obtain ⟨mark, id, optional, shape⟩ := s
  cases shape <;>
    simp [Schema.parts, Shape.parts, Schema.children, Schema.shape, partsOfAll_eq,
      partsOfProperties_eq, valueParts_eq]

theorem self_mem_parts (s : Schema) : s ∈ s.parts := by
  rw [parts_eq]
  exact List.mem_cons_self

theorem child_parts {s c t : Schema} (child : c ∈ s.children) (inside : t ∈ c.parts) :
    t ∈ s.parts := by
  rw [parts_eq]
  exact List.mem_cons_of_mem _ (List.mem_flatMap.mpr ⟨c, child, inside⟩)

mutual

-- Going to a child lowers the weight, and so does going to a member of the schema that is made up
-- for it. A template weighs more than what it resolves to.
def Schema.weight : Schema → Nat
  | .mk _ _ _ shape => Shape.weight shape

def Schema.weightOfAll : List Schema → Nat
  | [] => 0
  | s :: rest => Schema.weight s + Schema.weightOfAll rest

def Schema.weightOfProperties : List (String × Schema) → Nat
  | [] => 0
  | (_, s) :: rest => Schema.weight s + Schema.weightOfProperties rest

def Value.weight : Value → Nat
  | .schema s => Schema.weight s
  | _ => 0

def Shape.weight : Shape → Nat
  | .basic .string => 2
  | .basic .uint8Array => 2
  | .basic .symbol => 5
  | .basic _ => 1
  | .literal _ => 2
  | .callable _ parameters returns => 1 + Schema.weightOfAll parameters + Schema.weight returns
  | .promise item => 3 + Schema.weight item
  | .template parts => 3 + 2 * ((Template.expandParts parts).getD []).length
  | .array items => 1 + Schema.weight items
  | .tuple items => 2 + Schema.weightOfAll items
  | .object properties additional =>
    1 + Schema.weightOfProperties properties + Value.weight additional
  | .record _ value => 1 + Schema.weight value
  | .union variants => 1 + Schema.weightOfAll variants
  | .intersect variants => 1 + Schema.weightOfAll variants
  | .reference _ _ => 1
  | .user _ _ => 1

end

theorem weight_le_all {s : Schema} {schemas : List Schema} (member : s ∈ schemas) :
    s.weight ≤ Schema.weightOfAll schemas := by
  induction schemas with
  | nil => cases member
  | cons t rest ih =>
    rcases List.mem_cons.mp member with rfl | later
    · exact Nat.le_add_right _ _
    · exact Nat.le_trans (ih later) (Nat.le_add_left _ _)

theorem weight_le_properties {name : String} {s : Schema} {properties : List (String × Schema)}
    (member : (name, s) ∈ properties) : s.weight ≤ Schema.weightOfProperties properties := by
  induction properties with
  | nil => cases member
  | cons p rest ih =>
    obtain ⟨other, t⟩ := p
    rcases List.mem_cons.mp member with same | later
    · cases same
      exact Nat.le_add_right _ _
    · exact Nat.le_trans (ih later) (Nat.le_add_left _ _)

theorem weight_of_shape {s : Schema} {shape : Shape} (same : s.shape = shape) :
    s.weight = shape.weight := by
  cases s
  cases same
  rfl

theorem weight_pos (s : Schema) : 0 < s.weight := by
  obtain ⟨mark, id, optional, shape⟩ := s
  cases shape with
  | basic b => cases b <;> simp [Schema.weight, Shape.weight]
  | _ => simp only [Schema.weight, Shape.weight]; omega

theorem child_weight {s c : Schema} (child : c ∈ s.children) : c.weight < s.weight := by
  obtain ⟨mark, id, optional, shape⟩ := s
  cases shape with
  | callable form parameters returns =>
    simp only [Schema.children, Schema.shape, List.mem_append, List.mem_singleton] at child
    simp only [Schema.weight, Shape.weight]
    rcases child with parameter | rfl
    · have bound := weight_le_all parameter
      omega
    · omega
  | promise item | array items | record key items =>
    simp only [Schema.children, Schema.shape, List.mem_singleton] at child
    subst child
    simp only [Schema.weight, Shape.weight]
    omega
  | tuple items | union items | intersect items =>
    have bound : c.weight ≤ Schema.weightOfAll items := weight_le_all child
    simp only [Schema.weight, Shape.weight]
    omega
  | object properties additional =>
    simp only [Schema.children, Schema.shape, List.mem_append, List.mem_map] at child
    simp only [Schema.weight, Shape.weight]
    rcases child with ⟨⟨name, t⟩, member, same⟩ | extra
    · have bound := weight_le_properties member
      cases same
      change t.weight < _
      omega
    · cases additional <;> simp [Value.schema?] at extra
      subst extra
      simp only [Value.weight]
      omega
  | _ => simp [Schema.children, Schema.shape] at child

theorem parts_children {s t c : Schema} (inside : t ∈ s.parts) (child : c ∈ t.children) :
    c ∈ s.parts := by
  -- Induction on the weight of the whole: the part is the whole, or lies in one of its children.
  induction weight : s.weight using Nat.strongRecOn generalizing s with
  | ind n ih =>
    subst weight
    rw [parts_eq] at inside
    rcases List.mem_cons.mp inside with rfl | deeper
    · exact child_parts child (self_mem_parts c)
    · obtain ⟨d, between, inside⟩ := List.mem_flatMap.mp deeper
      exact child_parts between (ih d.weight (child_weight between) inside rfl)

namespace Template

-- Text literals with marks in a row, which is how a finite template is placed.
def numbered (mark : Nat) : List String → List Schema
  | [] => []
  | s :: rest => Rule.marked mark (.literal (.text s)) :: numbered (mark + 1) rest

theorem placeAll_literals (mark : Nat) (strings : List String) :
    Schema.placeAll mark (strings.map fun s => Schema.plain (.literal (.text s))) =
      (numbered mark strings, mark + strings.length) := by
  induction strings generalizing mark with
  | nil => rfl
  | cons s rest ih =>
    have first : (Schema.plain (.literal (.text s))).place mark =
        (Rule.marked mark (.literal (.text s)), mark + 1) := rfl
    simp only [List.map_cons, Schema.placeAll, first, ih, numbered, List.length_cons]
    rw [Nat.add_right_comm, Nat.add_assoc]

theorem mem_numbered {mark : Nat} {strings : List String} {s : Schema}
    (member : s ∈ numbered mark strings) :
    ∃ i text, i < strings.length ∧ strings[i]? = some text ∧
      s = Rule.marked (mark + i) (.literal (.text text)) := by
  induction strings generalizing mark with
  | nil => cases member
  | cons text rest ih =>
    rcases List.mem_cons.mp member with rfl | later
    · exact ⟨0, text, by simp, by simp, rfl⟩
    · obtain ⟨i, other, bound, found, rfl⟩ := ih later
      refine ⟨i + 1, other, by simpa using bound, by simpa using found, ?_⟩
      rw [Nat.add_assoc, Nat.add_comm 1 i]

theorem numbered_weight (mark : Nat) (strings : List String) :
    Schema.weightOfAll (numbered mark strings) = 2 * strings.length := by
  induction strings generalizing mark with
  | nil => rfl
  | cons text rest ih =>
    simp only [numbered, Schema.weightOfAll, ih, Schema.weight, Rule.marked, Shape.weight,
      List.length_cons]
    omega

-- What a template resolves to, and how many marks it takes.
theorem place_resolve (mark : Nat) (parts : List Part) :
    ((Template.resolve parts).place mark = (Rule.marked mark (.basic .string), mark + 1) ∧
      expandParts parts = none) ∨
    (∃ s, (Template.resolve parts).place mark =
      (Rule.marked mark (.literal (.text s)), mark + 1) ∧ expandParts parts = some [s]) ∨
    ∃ strings, (Template.resolve parts).place mark =
      (Rule.marked mark (.union (numbered (mark + 1) strings)), mark + 1 + strings.length) ∧
      expandParts parts = some strings := by
  unfold Template.resolve
  split
  · rename_i unbounded
    exact .inl ⟨rfl, unbounded⟩
  · rename_i s expanded
    exact .inr (.inl ⟨s, rfl, expanded⟩)
  · rename_i strings _ expanded
    refine .inr (.inr ⟨strings, ?_, expanded⟩)
    have placed := placeAll_literals (mark + 1) strings
    simp only [Schema.plain] at placed
    simp only [Schema.plain, Schema.place, Value.place, Shape.place, if_true, placed, Rule.marked]

end Template

end Assignability
