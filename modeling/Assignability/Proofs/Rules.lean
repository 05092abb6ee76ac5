import Assignability.Proofs.Goals
import Assignability.Proofs.Likeness
import Assignability.Proofs.Preparation

namespace Assignability

-- Whatever holds along a run because of where comparisons go is derived from `goal_asks`.

-- One side of a pair stays where it is or goes to a child, in the same scope.
inductive Site.Moves (site : Site) : Site → Prop
  | stays : Moves site site
  | enters {c : Schema} : c ∈ site.schema.children → Moves site (site.to c)

@[simp] theorem Site.bare_schema (s : Schema) : (Site.bare s).schema = s := rfl

def Schema.united? (s : Schema) : Option (List Schema) :=
  match s.shape with
  | .union variants => some variants
  | _ => none

def Schema.intersected? (s : Schema) : Option (List Schema) :=
  match s.shape with
  | .intersect variants => some variants
  | _ => none

theorem united_shape {s : Schema} {variants : List Schema} :
    s.united? = some variants ↔ s.shape = .union variants := by
  unfold Schema.united?
  split <;> simp_all

theorem intersected_shape {s : Schema} {variants : List Schema} :
    s.intersected? = some variants ↔ s.shape = .intersect variants := by
  unfold Schema.intersected?
  split <;> simp_all

theorem united_children (s : Schema) (variants : List Schema) (found : s.united? = some variants) :
    s.children = variants := by
  simp [Schema.children, united_shape.mp found]

theorem intersected_children (s : Schema) (variants : List Schema)
    (found : s.intersected? = some variants) : s.children = variants := by
  simp [Schema.children, intersected_shape.mp found]

theorem kind_basic {s : Schema} {b : Basic} : s.kind = b.kind ↔ s.shape = .basic b := by
  unfold Schema.kind
  cases s.shape with
  | basic c => cases b <;> cases c <;> simp [Shape.kind, Basic.kind]
  | callable form _ _ => cases b <;> cases form <;> simp [Shape.kind, CallForm.kind, Basic.kind]
  | reference form _ => cases b <;> cases form <;> simp [Shape.kind, ReferenceForm.kind, Basic.kind]
  | _ => cases b <;> simp [Shape.kind, Basic.kind]

namespace Rule

-- Unions and intersections are taken apart; what is left goes by the kind of the left side.
def distribute (registry : Registry) (mark : Nat) (left right : Site) : Goal :=
  match left.schema.united?, right.schema.intersected?, left.schema.intersected?,
    right.schema.united? with
  | some variants, _, _, _ => .all (variants.map fun v => .compare (left.to v) right)
  | none, some variants, _, _ => .all (variants.map fun v => .compare left (right.to v))
  | none, none, some parts, some variants =>
    .any (variants.map (fun v => .compare left (right.to v)) ++
      parts.map fun v => .compare (left.to v) right)
  | none, none, none, some variants => .any (variants.map fun v => .compare left (right.to v))
  | none, none, some parts, none => .any (parts.map fun v => .compare (left.to v) right)
  | none, none, none, none => byKind registry mark left right

-- The absorbing kinds in the order in which they are tried.
theorem goal_eq (settings : Settings) (registry : Registry) (mark : Nat) (left right : Site) :
    goal settings registry mark left right =
      if right.schema.kind = .any ∨ right.schema.kind = .unknown then .answer true
      else if left.schema.kind = .never then .answer true
      else if right.schema.kind = .never then .answer false
      else if left.schema.kind = .any then .answer settings.anyLeftResult
      else distribute registry mark left right := by
  have any : ∀ s : Schema, s.kind = .any ↔ s.shape = .basic .any := fun _ => kind_basic (b := .any)
  have unknown : ∀ s : Schema, s.kind = .unknown ↔ s.shape = .basic .unknown :=
    fun _ => kind_basic (b := .unknown)
  have never : ∀ s : Schema, s.kind = .never ↔ s.shape = .basic .never :=
    fun _ => kind_basic (b := .never)
  classical
  simp only [any, unknown, never]
  unfold goal
  split <;> simp_all [distribute, Schema.united?, Schema.intersected?]

-- One property of the right object, against what the left one has by its name.
def propertySteps (left right : Site) (s : Schema) : Option Schema → List Step
  | none => [.holds s.optional]
  | some t => property (left.to t) (right.to s)

theorem objectObject_eq (left right : Site) (ours theirs : List (String × Schema))
    (additional : Value) :
    objectObject left right ours theirs additional =
      .all ((theirs.flatMap fun p => propertySteps left right p.2 (ours.lookup p.1)) ++
        additionalStep additional fun extra =>
          (ours.filter fun p => (theirs.lookup p.1).isNone).map fun p =>
            .compare (left.to p.2) (right.to extra)) :=
  rfl

-- Members that rules make up for the left side.
def members (mark : Nat) : List Schema :=
  [lengthMember mark, descriptionMember mark, thenMember mark]

def isNumericRecord (s : Schema) : Bool :=
  match s.shape with
  | .record key _ => key.isNumericKey
  | _ => false

-- The one schema that the goal of a pair may make up for the left side: an item of a string or of a
-- byte array against a record, a member otherwise.
def made (mark : Nat) (left right : Schema) : Schema :=
  match right.shape, left.shape with
  | .record _ _, .basic .uint8Array => marked mark (.basic .number)
  | .record _ _, _ => marked mark (.basic .string)
  | _, .basic .symbol => descriptionMember mark
  | _, .promise _ => thenMember mark
  | _, _ => lengthMember mark

inductive Asks (mark : Nat) (left right : Site) : Site → Site → Prop
  | onward {x y : Site} : left.Moves x → right.Moves y →
    x.schema.weight + y.schema.weight < left.schema.weight + right.schema.weight →
    Asks mark left right x y
  -- Parameters change sides.
  | swapped {x y : Site} : left.Moves x → right.Moves y →
    x.schema.weight + y.schema.weight < left.schema.weight + right.schema.weight →
    Asks mark left right y x
  | member {y : Site} : (made mark left.schema right.schema).weight < left.schema.weight →
    right.Moves y → Asks mark left right (.bare (made mark left.schema right.schema)) y
  | item {y : Site} : isNumericRecord right.schema = true → right.Moves y →
    Asks mark left right (left.to (made mark left.schema right.schema)) y

@[simp] theorem lengthMember_weight (mark : Nat) : (lengthMember mark).weight = 1 := rfl

@[simp] theorem descriptionMember_weight (mark : Nat) : (descriptionMember mark).weight = 4 := rfl

@[simp] theorem thenMember_weight (mark : Nat) : (thenMember mark).weight = 3 := rfl

section
variable {mark : Nat} {left right x y : Site}

@[simp] theorem compare_not_mem_answer (b : Bool) : .compare x y ∉ (Goal.answer b).steps := by
  simp [Goal.answer, Goal.steps]

@[simp] theorem compare_mem_compare {x' y' : Site} :
    .compare x y ∈ (Goal.compare x' y').steps ↔ x = x' ∧ y = y' := by
  simp [Goal.compare, Goal.steps]

section
variable {a b : Schema} (inLeft : a ∈ left.schema.children) (inRight : b ∈ right.schema.children)
include inLeft

theorem Asks.onLeft : Asks mark left right (left.to a) right :=
  .onward (.enters inLeft) .stays (Nat.add_lt_add_right (child_weight inLeft) _)

include inRight

theorem Asks.onBoth : Asks mark left right (left.to a) (right.to b) :=
  .onward (.enters inLeft) (.enters inRight)
    (Nat.add_lt_add (child_weight inLeft) (child_weight inRight))

theorem Asks.exchanged : Asks mark left right (right.to b) (left.to a) :=
  .swapped (.enters inLeft) (.enters inRight)
    (Nat.add_lt_add (child_weight inLeft) (child_weight inRight))

omit inLeft

theorem Asks.onRight : Asks mark left right left (right.to b) :=
  .onward .stays (.enters inRight) (Nat.add_lt_add_left (child_weight inRight) _)

end

theorem property_child {properties : List (String × Schema)} {additional : Value} {name : String}
    {s t : Schema} (shape : s.shape = .object properties additional)
    (member : (name, t) ∈ properties) : t ∈ s.children := by
  simp only [Schema.children, shape, List.mem_append, List.mem_map]
  exact .inl ⟨(name, t), member, rfl⟩

theorem additional_child {properties : List (String × Schema)} {s t : Schema}
    (shape : s.shape = .object properties (.schema t)) : t ∈ s.children := by
  simp [Schema.children, shape, Value.schema?]

theorem hasOnly_asks {properties : List (String × Schema)} {additional : Value} {name : String}
    {m : Schema} (shape : right.schema.shape = .object properties additional)
    (one : made mark left.schema right.schema = m) (lighter : m.weight < left.schema.weight)
    (asked : .compare x y ∈ (hasOnly properties right name m).steps) :
    Asks mark left right x y := by
  subst one
  unfold hasOnly at asked
  split at asked
  · simp at asked
  · split at asked
    · obtain ⟨rfl, rfl⟩ := compare_mem_compare.mp asked
      exact .member lighter (.enters (property_child shape List.mem_cons_self))
    · simp at asked
  · simp at asked

theorem objectRight_asks {properties : List (String × Schema)} {additional : Value}
    (shape : right.schema.shape = .object properties additional)
    (asked : .compare x y ∈ (objectRight mark left right properties).steps) :
    Asks mark left right x y := by
  cases leftShape : left.schema.shape with
  | basic b =>
    have weight := weight_of_shape leftShape
    cases b <;> simp only [objectRight, leftShape] at asked
    case string | uint8Array =>
      exact hasOnly_asks shape (by simp [made, shape, leftShape])
        (by simp [weight, Shape.weight]) asked
    case symbol =>
      exact hasOnly_asks shape (by simp [made, shape, leftShape])
        (by simp [weight, Shape.weight]) asked
    all_goals simp at asked
  | literal value =>
    cases value <;> simp only [objectRight, leftShape] at asked
    case text =>
      have weight := weight_of_shape leftShape
      exact hasOnly_asks shape (by simp [made, shape, leftShape])
        (by simp [weight, Shape.weight]) asked
    all_goals simp at asked
  | callable form parameters returns =>
    cases form <;> simp only [objectRight, leftShape] at asked
    case function =>
      have weight := weight_of_shape leftShape
      have positive := weight_pos returns
      refine hasOnly_asks shape (by simp [made, shape, leftShape]) ?_ asked
      simp only [weight, Shape.weight, lengthMember_weight]
      omega
    · simp at asked
  | promise item =>
    simp only [objectRight, leftShape] at asked
    have weight := weight_of_shape leftShape
    have positive := weight_pos item
    refine hasOnly_asks shape (by simp [made, shape, leftShape]) ?_ asked
    simp only [weight, Shape.weight, thenMember_weight]
    omega
  | record key value =>
    simp only [objectRight, leftShape] at asked
    split at asked
    · simp at asked
    · split at asked
      · simp at asked
      · simp only [Goal.steps, List.mem_flatMap, List.mem_cons, reduceCtorEq, false_or,
          List.not_mem_nil, or_false, Step.compare.injEq] at asked
        obtain ⟨⟨name, s⟩, member, rfl, rfl⟩ := asked
        refine .onBoth ?_ (property_child shape member)
        simp [Schema.children, leftShape]
  | _ => simp [objectRight, leftShape] at asked

theorem recordRight_asks {key value : Schema} (shape : right.schema.shape = .record key value)
    (asked : .compare x y ∈ (recordRight mark left right key value).steps) :
    Asks mark left right x y := by
  have inside : value ∈ right.schema.children := by simp [Schema.children, shape]
  have numeric : key.isNumericKey = true → isNumericRecord right.schema = true := by
    simp [isNumericRecord, shape]
  have item : ∀ m, made mark left.schema right.schema = m → .compare x y ∈ (if key.isNumericKey then
      Goal.compare (left.to m) (right.to value) else .answer false).steps →
      Asks mark left right x y := by
    intro m one asked
    subst one
    split at asked
    · rename_i isNumeric
      obtain ⟨rfl, rfl⟩ := compare_mem_compare.mp asked
      exact .item (numeric isNumeric) (.enters inside)
    · simp at asked
  cases leftShape : left.schema.shape with
  | basic b =>
    cases b <;> simp only [recordRight, leftShape] at asked
    case string | uint8Array => exact item _ (by simp [made, shape, leftShape]) asked
    all_goals simp at asked
  | literal scalar =>
    cases scalar <;> simp only [recordRight, leftShape] at asked
    case text => exact item _ (by simp [made, shape, leftShape]) asked
    all_goals simp at asked
  | object properties additional =>
    simp only [recordRight, leftShape, Goal.steps, List.mem_append, List.mem_map] at asked
    rcases asked with ⟨⟨name, s⟩, member, same⟩ | extra
    · cases same
      exact .onBoth (property_child leftShape (List.mem_filter.mp member).1) inside
    · split at extra
      · simp at extra
      · cases additional <;> simp only [additionalStep, List.not_mem_nil, List.mem_singleton,
          Step.compare.injEq] at extra
        obtain ⟨rfl, rfl⟩ := extra
        exact .onBoth (additional_child leftShape) inside
  | _ => simp [recordRight, leftShape] at asked

theorem objectObject_asks {ours theirs : List (String × Schema)} {additional policy : Value}
    (leftShape : left.schema.shape = .object ours policy)
    (rightShape : right.schema.shape = .object theirs additional)
    (asked : .compare x y ∈ (objectObject left right ours theirs additional).steps) :
    Asks mark left right x y := by
  simp only [objectObject_eq, Goal.steps, List.mem_append, List.mem_flatMap] at asked
  rcases asked with ⟨⟨name, s⟩, member, step⟩ | extra
  · cases found : ours.lookup name with
    | none => simp [found, propertySteps] at step
    | some t =>
      simp only [found, propertySteps, property, List.mem_cons, Step.compare.injEq, reduceCtorEq,
        List.not_mem_nil, or_self, or_false] at step
      obtain ⟨rfl, rfl⟩ := step
      exact .onBoth (property_child leftShape (lookup_mem found)) (property_child rightShape member)
  · cases additional <;> simp only [additionalStep, List.not_mem_nil, List.mem_map] at extra
    obtain ⟨⟨name, s⟩, member, same⟩ := extra
    cases same
    exact .onBoth (property_child leftShape (List.mem_filter.mp member).1)
      (additional_child rightShape)

theorem literal_asks {value : Scalar}
    (asked : .compare x y ∈ (literal mark left right value).steps) : Asks mark left right x y := by
  cases rightShape : right.schema.shape with
  | object properties additional =>
    simp only [literal, rightShape] at asked
    exact objectRight_asks rightShape asked
  | record key item =>
    simp only [literal, rightShape] at asked
    exact recordRight_asks rightShape asked
  | basic b => cases b <;> simp [literal, rightShape] at asked
  | _ => simp [literal, rightShape] at asked

theorem primitive_asks {b : Basic}
    (asked : .compare x y ∈ (primitive mark left right b).steps) : Asks mark left right x y := by
  cases rightShape : right.schema.shape with
  | object properties additional =>
    simp only [primitive, rightShape] at asked
    exact objectRight_asks rightShape asked
  | record key item =>
    simp only [primitive, rightShape] at asked
    exact recordRight_asks rightShape asked
  | _ => simp [primitive, rightShape] at asked

theorem callable_asks {form : CallForm} {ours : List Schema} {returns : Schema}
    (leftShape : left.schema.shape = .callable form ours returns)
    (asked : .compare x y ∈ (callable mark left right form ours returns).steps) :
    Asks mark left right x y := by
  cases rightShape : right.schema.shape with
  | object properties additional =>
    simp only [callable, rightShape] at asked
    exact objectRight_asks rightShape asked
  | callable other theirs result =>
    simp only [callable, rightShape] at asked
    split at asked
    · simp only [Goal.steps, List.mem_append, List.mem_map, List.mem_singleton,
        Step.compare.injEq] at asked
      rcases asked with ⟨⟨p, q⟩, member, same⟩ | ⟨rfl, rfl⟩
      · obtain ⟨rfl, rfl⟩ := same
        obtain ⟨inOurs, inTheirs⟩ := List.of_mem_zip member
        refine .exchanged ?_ ?_
        · simp [Schema.children, leftShape, inOurs]
        · simp [Schema.children, rightShape, inTheirs]
      · refine .onBoth ?_ ?_
        · simp [Schema.children, leftShape]
        · simp [Schema.children, rightShape]
    · simp at asked
  | _ => simp [callable, rightShape] at asked

theorem promise_asks {item : Schema} (leftShape : left.schema.shape = .promise item)
    (asked : .compare x y ∈ (promise mark left right item).steps) : Asks mark left right x y := by
  cases rightShape : right.schema.shape with
  | object properties additional =>
    simp only [promise, rightShape] at asked
    exact objectRight_asks rightShape asked
  | promise other =>
    simp only [promise, rightShape, compare_mem_compare] at asked
    obtain ⟨rfl, rfl⟩ := asked
    refine .onBoth ?_ ?_
    · simp [Schema.children, leftShape]
    · simp [Schema.children, rightShape]
  | _ => simp [promise, rightShape] at asked

theorem array_asks {items : Schema} (leftShape : left.schema.shape = .array items)
    (asked : .compare x y ∈ (array mark left right items).steps) : Asks mark left right x y := by
  have inside : items ∈ left.schema.children := by simp [Schema.children, leftShape]
  cases rightShape : right.schema.shape with
  | object properties additional =>
    simp only [array, rightShape] at asked
    refine hasOnly_asks rightShape (by simp [made, rightShape, leftShape]) ?_ asked
    have positive := weight_pos items
    simp only [weight_of_shape leftShape, Shape.weight, lengthMember_weight]
    omega
  | array other =>
    simp only [array, rightShape, compare_mem_compare] at asked
    obtain ⟨rfl, rfl⟩ := asked
    exact .onBoth inside (by simp [Schema.children, rightShape])
  | record key value =>
    simp only [array, rightShape] at asked
    split at asked
    · obtain ⟨rfl, rfl⟩ := compare_mem_compare.mp asked
      exact .onBoth inside (by simp [Schema.children, rightShape])
    · simp at asked
  | _ => simp [array, rightShape] at asked

theorem tuple_asks {items : List Schema} (leftShape : left.schema.shape = .tuple items)
    (asked : .compare x y ∈ (tuple mark left right items).steps) : Asks mark left right x y := by
  have inside : ∀ s ∈ items, s ∈ left.schema.children := fun s member => by
    simpa [Schema.children, leftShape] using member
  cases rightShape : right.schema.shape with
  | object properties additional =>
    simp only [tuple, rightShape] at asked
    refine hasOnly_asks rightShape (by simp [made, rightShape, leftShape]) ?_ asked
    simp only [weight_of_shape leftShape, Shape.weight, lengthMember_weight]
    omega
  | tuple others =>
    simp only [tuple, rightShape] at asked
    split at asked
    · simp only [Goal.steps, List.mem_map, Prod.exists, Step.compare.injEq] at asked
      obtain ⟨s, t, member, rfl, rfl⟩ := asked
      obtain ⟨inItems, inOthers⟩ := List.of_mem_zip member
      exact .onBoth (inside s inItems) (by simp [Schema.children, rightShape, inOthers])
    · simp at asked
  | array other =>
    simp only [tuple, rightShape, Goal.steps, List.mem_map, Step.compare.injEq] at asked
    obtain ⟨s, member, rfl, rfl⟩ := asked
    exact .onBoth (inside s member) (by simp [Schema.children, rightShape])
  | record key value =>
    simp only [tuple, rightShape] at asked
    split at asked
    · simp only [Goal.steps, List.mem_map, Step.compare.injEq] at asked
      obtain ⟨s, member, rfl, rfl⟩ := asked
      exact .onBoth (inside s member) (by simp [Schema.children, rightShape])
    · simp at asked
  | _ => simp [tuple, rightShape] at asked

theorem record_asks {key value : Schema} (leftShape : left.schema.shape = .record key value)
    (asked : .compare x y ∈ (record mark left right key value).steps) :
    Asks mark left right x y := by
  cases rightShape : right.schema.shape with
  | object properties additional =>
    simp only [record, rightShape] at asked
    exact objectRight_asks rightShape asked
  | record otherKey otherValue =>
    simp only [record, rightShape] at asked
    split at asked
    · obtain ⟨rfl, rfl⟩ := compare_mem_compare.mp asked
      refine .onBoth ?_ ?_
      · simp [Schema.children, leftShape]
      · simp [Schema.children, rightShape]
    · simp at asked
  | _ => simp [record, rightShape] at asked

theorem byKind_asks {registry : Registry}
    (asked : .compare x y ∈ (byKind registry mark left right).steps) :
    Asks mark left right x y := by
  cases leftShape : left.schema.shape with
  | basic b =>
    cases b <;> simp only [byKind, leftShape] at asked
    case unknown => simp at asked
    case any | never => simp [Goal.steps] at asked
    all_goals exact primitive_asks asked
  | literal value =>
    simp only [byKind, leftShape] at asked
    exact literal_asks asked
  | callable form parameters returns =>
    simp only [byKind, leftShape] at asked
    exact callable_asks leftShape asked
  | promise item =>
    simp only [byKind, leftShape] at asked
    exact promise_asks leftShape asked
  | array items =>
    simp only [byKind, leftShape] at asked
    exact array_asks leftShape asked
  | tuple items =>
    simp only [byKind, leftShape] at asked
    exact tuple_asks leftShape asked
  | object properties additional =>
    simp only [byKind, leftShape, object] at asked
    split at asked
    · rename_i rightShape
      exact objectObject_asks leftShape rightShape asked
    · rename_i rightShape
      exact recordRight_asks rightShape asked
    · simp at asked
  | record key value =>
    simp only [byKind, leftShape] at asked
    exact record_asks leftShape asked
  | user kind fields =>
    simp only [byKind, leftShape, user] at asked
    split at asked
    · simp [Goal.steps] at asked
    · simp at asked
  | template _ | union _ | intersect _ | reference _ _ =>
    simp [byKind, leftShape, Goal.steps] at asked

theorem distribute_asks {registry : Registry}
    (asked : .compare x y ∈ (distribute registry mark left right).steps) :
    Asks mark left right x y := by
  have ofUnion : ∀ {site : Site} {variants : List Schema} {v : Schema},
      site.schema.united? = some variants → v ∈ variants → v ∈ site.schema.children :=
    fun found member => united_children _ _ found ▸ member
  have ofIntersect : ∀ {site : Site} {variants : List Schema} {v : Schema},
      site.schema.intersected? = some variants → v ∈ variants → v ∈ site.schema.children :=
    fun found member => intersected_children _ _ found ▸ member
  unfold distribute at asked
  split at asked
  · simp only [Goal.steps, List.mem_map, Step.compare.injEq] at asked
    obtain ⟨v, member, rfl, rfl⟩ := asked
    exact .onLeft (ofUnion (by assumption) member)
  · simp only [Goal.steps, List.mem_map, Step.compare.injEq] at asked
    obtain ⟨v, member, rfl, rfl⟩ := asked
    exact .onRight (ofIntersect (by assumption) member)
  · simp only [Goal.steps, List.mem_append, List.mem_map, Step.compare.injEq] at asked
    rcases asked with ⟨v, member, rfl, rfl⟩ | ⟨v, member, rfl, rfl⟩
    · exact .onRight (ofUnion (by assumption) member)
    · exact .onLeft (ofIntersect (by assumption) member)
  · simp only [Goal.steps, List.mem_map, Step.compare.injEq] at asked
    obtain ⟨v, member, rfl, rfl⟩ := asked
    exact .onRight (ofUnion (by assumption) member)
  · simp only [Goal.steps, List.mem_map, Step.compare.injEq] at asked
    obtain ⟨v, member, rfl, rfl⟩ := asked
    exact .onLeft (ofIntersect (by assumption) member)
  · exact byKind_asks asked

-- Comparisons get lighter, except that the items made up for a numeric record weigh as much as
-- before.
theorem Asks.lighter (asks : Asks mark left right x y)
    (notIndexed : isNumericRecord right.schema = false) :
    x.schema.weight + y.schema.weight < left.schema.weight + right.schema.weight := by
  cases asks with
  | onward _ _ lighter => exact lighter
  | swapped _ _ lighter => rwa [Nat.add_comm]
  | member lighter moves =>
    refine Nat.add_lt_add_of_lt_of_le lighter ?_
    cases moves with
    | stays => exact Nat.le_refl _
    | enters child => exact Nat.le_of_lt (child_weight child)
  | item indexed _ =>
    rw [notIndexed] at indexed
    cases indexed

-- What holds of both sides and of what the rules make up, and passes on to children, holds of
-- everything that is asked for.
theorem Asks.keeps {holds : Schema → Prop} (child : ∀ {s c}, holds s → c ∈ s.children → holds c)
    (one : holds (made mark left.schema right.schema)) (onLeft : holds left.schema)
    (onRight : holds right.schema) (asks : Asks mark left right x y) :
    holds x.schema ∧ holds y.schema := by
  have moves : ∀ {site z : Site}, holds site.schema → site.Moves z → holds z.schema := by
    intro site z before moved
    cases moved with
    | stays => exact before
    | enters inside => exact child before inside
  cases asks with
  | onward first second _ => exact ⟨moves onLeft first, moves onRight second⟩
  | swapped first second _ => exact ⟨moves onRight second, moves onLeft first⟩
  | member _ second => exact ⟨one, moves onRight second⟩
  | item _ second => exact ⟨one, moves onRight second⟩

-- Every comparison that a pair asks for.
theorem goal_asks {settings : Settings} {registry : Registry}
    (asked : .compare x y ∈ (goal settings registry mark left right).steps) :
    Asks mark left right x y := by
  rw [goal_eq] at asked
  split_ifs at asked
  case neg => exact distribute_asks asked
  all_goals simp at asked

end

-- Every rule is worked through step by step, except for those of user kinds.
theorem hasOnly_loop (properties : List (String × Schema)) (right : Site) (name : String)
    (m : Schema) : (hasOnly properties right name m).Loop := by
  unfold hasOnly
  split
  · trivial
  · split <;> trivial
  · trivial

theorem objectRight_loop (mark : Nat) (left right : Site) (properties : List (String × Schema)) :
    (objectRight mark left right properties).Loop := by
  have member := hasOnly_loop properties right
  unfold objectRight
  cases left.schema.shape with
  | basic b => cases b <;> first | exact member _ _ | trivial
  | literal value => cases value <;> first | exact member _ _ | trivial
  | callable form _ _ => cases form <;> first | exact member _ _ | trivial
  | promise item => exact member _ _
  | record key value =>
    simp only
    split_ifs <;> trivial
  | _ => trivial

theorem recordRight_loop (mark : Nat) (left right : Site) (key value : Schema) :
    (recordRight mark left right key value).Loop := by
  unfold recordRight
  cases left.schema.shape with
  | basic b => cases b <;> first | trivial | (simp only; split <;> trivial)
  | literal scalar => cases scalar <;> first | trivial | (simp only; split <;> trivial)
  | _ => trivial

theorem byKind_cases (registry : Registry) (mark : Nat) (left right : Site) :
    (byKind registry mark left right).Loop ∨
    (∃ fault, byKind registry mark left right = .refuse fault ∧
      (left.schema.kind = .any ∨ left.schema.kind = .never ∨ left.schema.united?.isSome ∨
        left.schema.intersected?.isSome ∨ left.schema.isTemplate ∨ left.schema.isReference)) ∨
    ∃ kind handler, left.schema.kind = .user kind ∧ registry.handler? kind = some handler ∧
      byKind registry mark left right = .consult (handler left.schema right.schema) := by
  have byObject := objectRight_loop mark left right
  have byRecord := recordRight_loop mark left right
  unfold byKind
  cases shape : left.schema.shape with
  | basic b =>
    have simple : ∀ b, (primitive mark left right b).Loop := by
      intro b
      unfold primitive
      split <;> first | exact byObject _ | exact byRecord _ _ | trivial
    cases b
    case any | never =>
      exact .inr (.inl ⟨_, rfl, by simp [Schema.kind, shape, Shape.kind, Basic.kind]⟩)
    case unknown => exact .inl trivial
    all_goals exact .inl (simple _)
  | literal value =>
    simp only [literal]
    split <;> first | exact .inl (byObject _) | exact .inl (byRecord _ _) | exact .inl trivial
  | callable form parameters returns =>
    simp only [callable]
    split
    · exact .inl (byObject _)
    · split <;> exact .inl trivial
    · exact .inl trivial
  | promise item =>
    simp only [promise]
    split <;> first | exact .inl (byObject _) | exact .inl trivial
  | array items =>
    simp only [array]
    split
    · exact .inl trivial
    · exact .inl (hasOnly_loop _ _ _ _)
    · split <;> exact .inl trivial
    · exact .inl trivial
  | tuple items =>
    simp only [tuple]
    split
    · split <;> exact .inl trivial
    · exact .inl trivial
    · exact .inl (hasOnly_loop _ _ _ _)
    · split <;> exact .inl trivial
    · exact .inl trivial
  | object properties additional =>
    simp only [object]
    split <;> first | exact .inl (byRecord _ _) | exact .inl trivial
  | record key value =>
    simp only [record]
    split
    · split <;> exact .inl trivial
    · exact .inl (byObject _)
    · exact .inl trivial
  | user kind fields =>
    simp only [user]
    cases found : registry.handler? kind with
    | none => exact .inl trivial
    | some handler =>
      exact .inr (.inr ⟨kind, handler, by simp [Schema.kind, shape, Shape.kind], found, rfl⟩)
  | template _ => exact .inr (.inl ⟨_, rfl, by simp [Schema.isTemplate, shape]⟩)
  | union _ => exact .inr (.inl ⟨_, rfl, by simp [Schema.united?, shape]⟩)
  | intersect _ => exact .inr (.inl ⟨_, rfl, by simp [Schema.intersected?, shape]⟩)
  | reference _ _ => exact .inr (.inl ⟨_, rfl, by simp [Schema.isReference, shape]⟩)

-- A goal is worked through step by step, or is the script of a user kind. It is refused only on the
-- left of what should have been prepared.
theorem goal_cases (settings : Settings) (registry : Registry) (mark : Nat) (left right : Site) :
    (goal settings registry mark left right).Loop ∨
    (∃ fault, goal settings registry mark left right = .refuse fault ∧
      (left.schema.isTemplate ∨ left.schema.isReference)) ∨
    ∃ kind handler, left.schema.kind = .user kind ∧ registry.handler? kind = some handler ∧
      goal settings registry mark left right = .consult (handler left.schema right.schema) := by
  rw [goal_eq]
  split_ifs with absorbs never isNever isAny
  case neg =>
    unfold distribute
    split
    case h_6 notUnited _ notIntersected _ =>
      rcases byKind_cases registry mark left right with loop | ⟨fault, same, reason⟩ | script
      · exact .inl loop
      · refine .inr (.inl ⟨fault, same, ?_⟩)
        simpa [never, isAny, notUnited, notIntersected] using reason
      · exact .inr (.inr script)
    all_goals exact .inl trivial
  all_goals exact .inl trivial

end Rule

end Assignability
