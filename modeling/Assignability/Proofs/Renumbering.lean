import Assignability.Proofs.Remarking

namespace Assignability

-- Rules only pass marks on: the goal of a pair with other marks is the goal of the pair with other
-- marks.

mutual

-- Other marks for a schema and everything inside it that can be compared.
@[simp] def Schema.renumber (f : Nat → Nat) : Schema → Schema
  | .mk mark id optional shape => .mk (f mark) id optional (Shape.renumber f shape)
termination_by structural x => x

@[simp] def Schema.renumberAll (f : Nat → Nat) : List Schema → List Schema
  | [] => []
  | s :: rest => Schema.renumber f s :: Schema.renumberAll f rest
termination_by structural x => x

@[simp] def Schema.renumberProperties (f : Nat → Nat) : List (String × Schema) → List (String × Schema)
  | [] => []
  | (name, s) :: rest => (name, Schema.renumber f s) :: Schema.renumberProperties f rest
termination_by structural x => x

@[simp] def Value.renumber (f : Nat → Nat) : Value → Value
  | .schema s => .schema (Schema.renumber f s)
  | v => v
termination_by structural x => x

@[simp] def Shape.renumber (f : Nat → Nat) : Shape → Shape
  | .callable form parameters returns =>
    .callable form (Schema.renumberAll f parameters) (Schema.renumber f returns)
  | .promise item => .promise (Schema.renumber f item)
  | .array items => .array (Schema.renumber f items)
  | .tuple items => .tuple (Schema.renumberAll f items)
  | .object properties additional =>
    .object (Schema.renumberProperties f properties) (Value.renumber f additional)
  | .record key value => .record key (Schema.renumber f value)
  | .union variants => .union (Schema.renumberAll f variants)
  | .intersect variants => .intersect (Schema.renumberAll f variants)
  | shape => shape
termination_by structural x => x

end

-- Entries of scopes were placed before anything was made up, and keep their marks.
def Site.renumber (f : Nat → Nat) (site : Site) : Site :=
  ⟨site.schema.renumber f, site.scope, f site.scopeMark⟩

def Step.renumber (f : Nat → Nat) : Step → Step
  | .holds b => .holds b
  | .compare left right => .compare (left.renumber f) (right.renumber f)

def Goal.renumber (f : Nat → Nat) : Goal → Goal
  | .all steps => .all (steps.map (Step.renumber f))
  | .any steps => .any (steps.map (Step.renumber f))
  | .consult script => .consult script
  | .refuse fault => .refuse fault

def PairKey.renumber (f : Nat → Nat) (key : PairKey) : PairKey :=
  ⟨f key.left, f key.right, f key.leftScope, f key.rightScope⟩

section
variable (f : Nat → Nat)

theorem renumberAll_eq (schemas : List Schema) :
    Schema.renumberAll f schemas = schemas.map (Schema.renumber f) := by
  induction schemas with
  | nil => rfl
  | cons s rest ih => rw [Schema.renumberAll, ih, List.map_cons]

theorem renumberProperties_eq (properties : List (String × Schema)) :
    Schema.renumberProperties f properties =
      properties.map fun p => (p.1, p.2.renumber f) := by
  induction properties with
  | nil => rfl
  | cons p rest ih => rw [Schema.renumberProperties, ih, List.map_cons]

variable (s : Schema) (site left right : Site)

@[simp] theorem renumber_mark : (s.renumber f).mark = f s.mark := by
  cases s
  rfl

@[simp] theorem renumber_id : (s.renumber f).id = s.id := by
  cases s
  rfl

@[simp] theorem renumber_optional : (s.renumber f).optional = s.optional := by
  cases s
  rfl

@[simp] theorem renumber_shape : (s.renumber f).shape = s.shape.renumber f := by
  cases s
  rfl

@[simp] theorem renumber_kind : (s.renumber f).kind = s.kind := by
  obtain ⟨mark, id, optional, shape⟩ := s
  cases shape <;> rfl

@[simp] theorem renumber_isReference : (s.renumber f).isReference = s.isReference := by
  obtain ⟨mark, id, optional, shape⟩ := s
  cases shape <;> rfl

@[simp] theorem Site.renumber_schema : (site.renumber f).schema = site.schema.renumber f := rfl

@[simp] theorem Site.renumber_to : (site.renumber f).to (s.renumber f) = (site.to s).renumber f :=
  rfl

@[simp] theorem PairKey.of_renumber :
    PairKey.of (left.renumber f) (right.renumber f) = (PairKey.of left right).renumber f := by
  simp [PairKey.of, PairKey.renumber, Site.renumber]

@[simp] theorem Goal.renumber_all (steps : List Step) :
    (Goal.all steps).renumber f = .all (steps.map (Step.renumber f)) := rfl

@[simp] theorem Goal.renumber_answer (b : Bool) : (Goal.answer b).renumber f = .answer b := rfl

@[simp] theorem Goal.renumber_compare :
    (Goal.compare left right).renumber f = .compare (left.renumber f) (right.renumber f) := rfl

@[simp] theorem Goal.renumber_ite {p : Prop} [Decidable p] (g h : Goal) :
    (if p then g else h).renumber f = if p then g.renumber f else h.renumber f := by
  split <;> rfl

@[simp] theorem renumberProperties_isEmpty (properties : List (String × Schema)) :
    (Schema.renumberProperties f properties).isEmpty = properties.isEmpty := by
  rw [renumberProperties_eq, List.isEmpty_map]

theorem renumberProperties_filter (chosen : String → Bool) (properties : List (String × Schema)) :
    (Schema.renumberProperties f properties).filter (fun p => chosen p.1) =
      Schema.renumberProperties f (properties.filter fun p => chosen p.1) := by
  rw [renumberProperties_eq, renumberProperties_eq, List.filter_map]
  rfl

theorem renumberProperties_lookup (properties : List (String × Schema)) (name : String) :
    (Schema.renumberProperties f properties).lookup name =
      (properties.lookup name).map (Schema.renumber f) := by
  induction properties with
  | nil => rfl
  | cons p rest ih =>
    rw [Schema.renumberProperties, List.lookup_cons, List.lookup_cons, ih]
    split <;> rfl

end

-- Marks given out from `mark` on become those given out from `mark'` on; the empty scope keeps its
-- own.
structure Renumbers (f : Nat → Nat) (mark mark' : Nat) : Prop where
  zero : f 0 = 0
  onward : ∀ i, f (mark + i) = mark' + i

namespace Rule

section
variable {f : Nat → Nat} {mark mark' : Nat} (fits : Renumbers f mark mark') (left right : Site)
include fits

theorem renumber_marked (shape : Shape) :
    (marked mark shape).renumber f = marked mark' (shape.renumber f) := by
  rw [marked, Schema.renumber, show f mark = mark' from fits.onward 0]
  rfl

theorem renumber_bare (s : Schema) : (Site.bare s).renumber f = .bare (s.renumber f) := by
  simp only [Site.renumber, Site.bare, fits.zero]

theorem renumber_length : (lengthMember mark).renumber f = lengthMember mark' :=
  renumber_marked fits _

theorem renumber_description : (descriptionMember mark).renumber f = descriptionMember mark' := by
  rw [descriptionMember, renumber_marked fits]
  simp only [Shape.renumber, Schema.renumberAll, marked, Schema.renumber, fits.onward]
  rfl

theorem renumber_then : (thenMember mark).renumber f = thenMember mark' := by
  rw [thenMember, renumber_marked fits]
  simp only [Shape.renumber, Schema.renumberAll, marked, Schema.renumber, fits.onward]
  rfl

theorem hasOnly_renumber (properties : List (String × Schema)) (name : String) (m : Schema) :
    hasOnly (Schema.renumberProperties f properties) (right.renumber f) name (m.renumber f) =
      (hasOnly properties right name m).renumber f := by
  rcases properties with _ | ⟨⟨only, s⟩, _ | ⟨p, rest⟩⟩
  · rfl
  · simp [hasOnly, Schema.renumberProperties, renumber_bare fits]
  · rfl

theorem objectRight_renumber (properties : List (String × Schema)) :
    objectRight mark' (left.renumber f) (right.renumber f)
        (Schema.renumberProperties f properties) =
      (objectRight mark left right properties).renumber f := by
  have length := hasOnly_renumber fits right properties "length" (lengthMember mark)
  have description := hasOnly_renumber fits right properties "description" (descriptionMember mark)
  have promised := hasOnly_renumber fits right properties "then" (thenMember mark)
  rw [renumber_length fits] at length
  rw [renumber_description fits] at description
  rw [renumber_then fits] at promised
  cases shape : left.schema.shape with
  | basic b =>
    cases b <;> simp only [objectRight, Site.renumber_schema, renumber_shape, shape,
      Shape.renumber, renumberProperties_isEmpty, Goal.renumber_answer, length, description]
  | literal value =>
    cases value <;> simp only [objectRight, Site.renumber_schema, renumber_shape, shape,
      Shape.renumber, renumberProperties_isEmpty, Goal.renumber_answer, length]
  | callable form _ _ =>
    cases form <;> simp only [objectRight, Site.renumber_schema, renumber_shape, shape,
      Shape.renumber, renumberProperties_isEmpty, Goal.renumber_answer, length]
  | promise item =>
    simp only [objectRight, Site.renumber_schema, renumber_shape, shape, Shape.renumber, promised]
  | record key value =>
    simp only [objectRight, Site.renumber_schema, renumber_shape, shape, Shape.renumber,
      renumberProperties_isEmpty, Goal.renumber_ite, Goal.renumber_answer]
    simp [Goal.renumber, List.map_flatMap, renumberProperties_eq, List.flatMap_map, Step.renumber]
  | _ =>
    simp only [objectRight, Site.renumber_schema, renumber_shape, shape, Shape.renumber,
      Goal.renumber_answer]

omit fits in
theorem additionalStep_renumber (additional : Value) {step other : Schema → List Step}
    (same : ∀ s, other (s.renumber f) = (step s).map (Step.renumber f)) :
    additionalStep (additional.renumber f) other =
      (additionalStep additional step).map (Step.renumber f) := by
  cases additional <;> simp [additionalStep, Value.renumber, same]

theorem recordRight_renumber (key value : Schema) :
    recordRight mark' (left.renumber f) (right.renumber f) key (value.renumber f) =
      (recordRight mark left right key value).renumber f := by
  have item : ∀ b, (left.renumber f).to (marked mark' (.basic b)) =
      (left.to (marked mark (.basic b))).renumber f := by
    intro b
    rw [← Site.renumber_to, renumber_marked fits]
    rfl
  cases shape : left.schema.shape with
  | basic b => cases b <;> simp [recordRight, shape, Shape.renumber, item]
  | literal scalar => cases scalar <;> simp [recordRight, shape, Shape.renumber, item]
  | object properties additional =>
    simp only [recordRight, Site.renumber_schema, renumber_shape, shape, Shape.renumber,
      Goal.renumber, List.map_append, List.map_map]
    congr 2
    · rw [renumberProperties_filter f (coversName key), renumberProperties_eq, List.map_map]
      rfl
    · split
      · rfl
      · exact additionalStep_renumber additional fun s => rfl
  | _ => simp [recordRight, shape, Shape.renumber]

omit fits in
theorem objectObject_renumber (ours theirs : List (String × Schema)) (additional : Value) :
    objectObject (left.renumber f) (right.renumber f) (Schema.renumberProperties f ours)
        (Schema.renumberProperties f theirs) (additional.renumber f) =
      (objectObject left right ours theirs additional).renumber f := by
  rw [objectObject_eq, objectObject_eq]
  simp only [Goal.renumber, List.map_append, List.map_flatMap, renumberProperties_lookup]
  congr 2
  · rw [renumberProperties_eq f theirs, List.flatMap_map]
    congr 1
    funext p
    cases ours.lookup p.1 with
    | none => simp [propertySteps, Step.renumber]
    | some t => simp [propertySteps, property, Step.renumber, Site.to, Site.renumber]
  · refine additionalStep_renumber additional fun s => ?_
    simp only [Option.isNone_map]
    rw [renumberProperties_filter f (fun name => (theirs.lookup name).isNone),
      renumberProperties_eq, List.map_map, List.map_map]
    rfl

theorem literal_renumber (value : Scalar) :
    literal mark' (left.renumber f) (right.renumber f) value =
      (literal mark left right value).renumber f := by
  cases shape : right.schema.shape with
  | basic b => cases b <;> simp [literal, shape, Shape.renumber]
  | object properties additional =>
    simp only [literal, Site.renumber_schema, renumber_shape, shape, Shape.renumber]
    exact objectRight_renumber fits left right properties
  | record key item =>
    simp only [literal, Site.renumber_schema, renumber_shape, shape, Shape.renumber]
    exact recordRight_renumber fits left right key item
  | _ => simp [literal, shape, Shape.renumber]

theorem primitive_renumber (b : Basic) :
    primitive mark' (left.renumber f) (right.renumber f) b =
      (primitive mark left right b).renumber f := by
  cases shape : right.schema.shape with
  | object properties additional =>
    simp only [primitive, Site.renumber_schema, renumber_shape, shape, Shape.renumber]
    exact objectRight_renumber fits left right properties
  | record key item =>
    simp only [primitive, Site.renumber_schema, renumber_shape, shape, Shape.renumber]
    exact recordRight_renumber fits left right key item
  | _ => simp [primitive, shape, Shape.renumber]

omit fits in
theorem zip_renumber (step : Schema × Schema → Step) (other : Schema × Schema → Step)
    (ours theirs : List Schema)
    (same : ∀ s t, other (s.renumber f, t.renumber f) = (step (s, t)).renumber f) :
    ((Schema.renumberAll f ours).zip (Schema.renumberAll f theirs)).map other =
      ((ours.zip theirs).map step).map (Step.renumber f) := by
  rw [renumberAll_eq, renumberAll_eq, List.zip_map, List.map_map, List.map_map]
  exact List.map_congr_left fun p _ => same p.1 p.2

omit fits in
theorem map_renumber (step other : Schema → Step) (items : List Schema)
    (same : ∀ s, other (s.renumber f) = (step s).renumber f) :
    (Schema.renumberAll f items).map other = (items.map step).map (Step.renumber f) := by
  rw [renumberAll_eq, List.map_map, List.map_map]
  exact List.map_congr_left fun s _ => same s

theorem callable_renumber (form : CallForm) (ours : List Schema) (returns : Schema) :
    callable mark' (left.renumber f) (right.renumber f) form (Schema.renumberAll f ours)
        (returns.renumber f) =
      (callable mark left right form ours returns).renumber f := by
  cases shape : right.schema.shape with
  | object properties additional =>
    simp only [callable, Site.renumber_schema, renumber_shape, shape, Shape.renumber]
    exact objectRight_renumber fits left right properties
  | callable other theirs result =>
    have lengths : (Schema.renumberAll f ours).length ≤ (Schema.renumberAll f theirs).length ↔
        ours.length ≤ theirs.length := by simp [renumberAll_eq]
    have parameters := zip_renumber (fun p => .compare (right.to p.2) (left.to p.1))
      (fun p => .compare ((right.renumber f).to p.2) ((left.renumber f).to p.1)) ours theirs
      fun s t => rfl
    simp only [callable, Site.renumber_schema, renumber_shape, shape, Shape.renumber, lengths,
      Goal.renumber_ite, Goal.renumber_all, List.map_append, parameters]
    rfl
  | _ => simp [callable, shape, Shape.renumber]

theorem promise_renumber (item : Schema) :
    promise mark' (left.renumber f) (right.renumber f) (item.renumber f) =
      (promise mark left right item).renumber f := by
  cases shape : right.schema.shape with
  | object properties additional =>
    simp only [promise, Site.renumber_schema, renumber_shape, shape, Shape.renumber]
    exact objectRight_renumber fits left right properties
  | _ => simp [promise, shape, Shape.renumber]

theorem length_renumber (properties : List (String × Schema)) :
    hasOnly (Schema.renumberProperties f properties) (right.renumber f) "length"
        (lengthMember mark') =
      (hasOnly properties right "length" (lengthMember mark)).renumber f := by
  rw [← renumber_length fits]
  exact hasOnly_renumber fits right properties "length" (lengthMember mark)

theorem array_renumber (items : Schema) :
    array mark' (left.renumber f) (right.renumber f) (items.renumber f) =
      (array mark left right items).renumber f := by
  cases shape : right.schema.shape with
  | object properties additional =>
    simp only [array, Site.renumber_schema, renumber_shape, shape, Shape.renumber]
    exact length_renumber fits right properties
  | _ => simp [array, shape, Shape.renumber]

theorem tuple_renumber (items : List Schema) :
    tuple mark' (left.renumber f) (right.renumber f) (Schema.renumberAll f items) =
      (tuple mark left right items).renumber f := by
  have each : ∀ t : Schema, ((Schema.renumberAll f items).map fun s =>
        Step.compare ((left.renumber f).to s) ((right.renumber f).to (t.renumber f))) =
      (items.map fun s => Step.compare (left.to s) (right.to t)).map (Step.renumber f) :=
    fun t => map_renumber _ _ items fun s => rfl
  cases shape : right.schema.shape with
  | object properties additional =>
    simp only [tuple, Site.renumber_schema, renumber_shape, shape, Shape.renumber]
    exact length_renumber fits right properties
  | tuple others =>
    have lengths : (Schema.renumberAll f items).length = (Schema.renumberAll f others).length ↔
        items.length = others.length := by simp [renumberAll_eq]
    have pairs := zip_renumber (fun p => .compare (left.to p.1) (right.to p.2))
      (fun p => .compare ((left.renumber f).to p.1) ((right.renumber f).to p.2)) items others
      fun s t => rfl
    simp only [tuple, Site.renumber_schema, renumber_shape, shape, Shape.renumber, lengths,
      Goal.renumber_ite, Goal.renumber_all, Goal.renumber_answer, pairs]
  | array other =>
    simp only [tuple, Site.renumber_schema, renumber_shape, shape, Shape.renumber, Goal.renumber,
      each]
  | record key value =>
    simp only [tuple, Site.renumber_schema, renumber_shape, shape, Shape.renumber,
      Goal.renumber_ite, Goal.renumber_all, Goal.renumber_answer, each]
  | _ => simp [tuple, shape, Shape.renumber]

theorem object_renumber (properties : List (String × Schema)) :
    object mark' (left.renumber f) (right.renumber f) (Schema.renumberProperties f properties) =
      (object mark left right properties).renumber f := by
  cases shape : right.schema.shape with
  | object theirs additional =>
    simp only [object, Site.renumber_schema, renumber_shape, shape, Shape.renumber]
    exact objectObject_renumber left right properties theirs additional
  | record key item =>
    simp only [object, Site.renumber_schema, renumber_shape, shape, Shape.renumber]
    exact recordRight_renumber fits left right key item
  | _ => simp [object, shape, Shape.renumber]

theorem record_renumber (key value : Schema) :
    record mark' (left.renumber f) (right.renumber f) key (value.renumber f) =
      (record mark left right key value).renumber f := by
  cases shape : right.schema.shape with
  | object properties additional =>
    simp only [record, Site.renumber_schema, renumber_shape, shape, Shape.renumber]
    exact objectRight_renumber fits left right properties
  | _ => simp [record, shape, Shape.renumber]

variable {registry : Registry} (noHandlers : ∀ kind, registry.handler? kind = none)
include noHandlers

theorem byKind_renumber : byKind registry mark' (left.renumber f) (right.renumber f) =
    (byKind registry mark left right).renumber f := by
  cases shape : left.schema.shape with
  | basic b =>
    cases b <;> simp only [byKind, Site.renumber_schema, renumber_shape, shape, Shape.renumber]
    case any | never | unknown => rfl
    all_goals exact primitive_renumber fits left right _
  | literal value =>
    simp only [byKind, Site.renumber_schema, renumber_shape, shape, Shape.renumber]
    exact literal_renumber fits left right value
  | callable form parameters returns =>
    simp only [byKind, Site.renumber_schema, renumber_shape, shape, Shape.renumber]
    exact callable_renumber fits left right form parameters returns
  | promise item =>
    simp only [byKind, Site.renumber_schema, renumber_shape, shape, Shape.renumber]
    exact promise_renumber fits left right item
  | array items =>
    simp only [byKind, Site.renumber_schema, renumber_shape, shape, Shape.renumber]
    exact array_renumber fits left right items
  | tuple items =>
    simp only [byKind, Site.renumber_schema, renumber_shape, shape, Shape.renumber]
    exact tuple_renumber fits left right items
  | object properties additional =>
    simp only [byKind, Site.renumber_schema, renumber_shape, shape, Shape.renumber]
    exact object_renumber fits left right properties
  | record key value =>
    simp only [byKind, Site.renumber_schema, renumber_shape, shape, Shape.renumber]
    exact record_renumber fits left right key value
  | user kind fields =>
    simp only [byKind, Site.renumber_schema, renumber_shape, shape, Shape.renumber, user,
      noHandlers, renumber_kind, Goal.renumber_answer]
  | template _ | union _ | intersect _ | reference _ _ =>
    simp only [byKind, Site.renumber_schema, renumber_shape, shape, Shape.renumber, Goal.renumber]

theorem distribute_renumber : distribute registry mark' (left.renumber f) (right.renumber f) =
    (distribute registry mark left right).renumber f := by
  have united : ∀ site : Site, (site.renumber f).schema.united? =
      site.schema.united?.map (Schema.renumberAll f) := by
    intro site
    cases shape : site.schema.shape <;> simp [Schema.united?, shape, Shape.renumber]
  have intersected : ∀ site : Site, (site.renumber f).schema.intersected? =
      site.schema.intersected?.map (Schema.renumberAll f) := by
    intro site
    cases shape : site.schema.shape <;> simp [Schema.intersected?, shape, Shape.renumber]
  have onLeft : ∀ variants : List Schema, ((Schema.renumberAll f variants).map fun v =>
        Step.compare ((left.renumber f).to v) (right.renumber f)) =
      (variants.map fun v => Step.compare (left.to v) right).map (Step.renumber f) :=
    fun variants => map_renumber _ _ variants fun s => rfl
  have onRight : ∀ variants : List Schema, ((Schema.renumberAll f variants).map fun v =>
        Step.compare (left.renumber f) ((right.renumber f).to v)) =
      (variants.map fun v => Step.compare left (right.to v)).map (Step.renumber f) :=
    fun variants => map_renumber _ _ variants fun s => rfl
  unfold distribute
  rw [united, united, intersected, intersected]
  cases left.schema.united? with
  | some variants => simp only [Option.map_some, Goal.renumber, onLeft]
  | none =>
    cases right.schema.intersected? with
    | some variants => simp only [Option.map_some, Option.map_none, Goal.renumber, onRight]
    | none =>
      cases left.schema.intersected? with
      | some parts =>
        cases right.schema.united? with
        | some variants =>
          simp only [Option.map_some, Option.map_none, Goal.renumber, List.map_append, onLeft,
            onRight]
        | none => simp only [Option.map_some, Option.map_none, Goal.renumber, onLeft]
      | none =>
        cases right.schema.united? with
        | some variants => simp only [Option.map_some, Option.map_none, Goal.renumber, onRight]
        | none =>
          simp only [Option.map_none]
          exact byKind_renumber fits left right noHandlers

-- The same comparisons in the same order, with other marks.
theorem goal_renumber (settings : Settings) :
    goal settings registry mark' (left.renumber f) (right.renumber f) =
      (goal settings registry mark left right).renumber f := by
  rw [goal_eq, goal_eq]
  simp only [Site.renumber_schema, renumber_kind, Goal.renumber_ite, Goal.renumber_answer,
    distribute_renumber fits left right noHandlers]

end

end Rule

section
variable {f g : Nat → Nat}

mutual

-- Only the marks that occur matter.
theorem renumber_congr : (s : Schema) → (∀ t ∈ s.parts, f t.mark = g t.mark) →
    s.renumber f = s.renumber g
  | .mk mark id optional shape, agree => by
    have here : f mark = g mark := agree _ List.mem_cons_self
    rw [Schema.renumber, Schema.renumber, here,
      renumberShape_congr shape fun t inside => agree t (List.mem_cons_of_mem _ inside)]
termination_by structural x => x

theorem renumberAll_congr : (schemas : List Schema) →
    (∀ t ∈ Schema.partsOfAll schemas, f t.mark = g t.mark) →
    Schema.renumberAll f schemas = Schema.renumberAll g schemas
  | [], _ => rfl
  | s :: rest, agree => by
    rw [Schema.renumberAll, Schema.renumberAll,
      renumber_congr s fun t inside => agree t (List.mem_append_left _ inside),
      renumberAll_congr rest fun t inside => agree t (List.mem_append_right _ inside)]
termination_by structural x => x

theorem renumberProperties_congr : (properties : List (String × Schema)) →
    (∀ t ∈ Schema.partsOfProperties properties, f t.mark = g t.mark) →
    Schema.renumberProperties f properties = Schema.renumberProperties g properties
  | [], _ => rfl
  | (name, s) :: rest, agree => by
    rw [Schema.renumberProperties, Schema.renumberProperties,
      renumber_congr s fun t inside => agree t (List.mem_append_left _ inside),
      renumberProperties_congr rest fun t inside => agree t (List.mem_append_right _ inside)]
termination_by structural x => x

theorem renumberValue_congr : (v : Value) → (∀ t ∈ v.parts, f t.mark = g t.mark) →
    v.renumber f = v.renumber g
  | .schema s, agree => by rw [Value.renumber, Value.renumber, renumber_congr s agree]
  | .null, _ => rfl
  | .scalar _, _ => rfl
  | .list _, _ => rfl
  | .tuple _, _ => rfl
  | .table _, _ => rfl
termination_by structural x => x

theorem renumberShape_congr : (shape : Shape) → (∀ t ∈ shape.parts, f t.mark = g t.mark) →
    shape.renumber f = shape.renumber g
  | .callable form parameters returns, agree => by
    rw [Shape.renumber, Shape.renumber,
      renumberAll_congr parameters fun t inside => agree t (List.mem_append_left _ inside),
      renumber_congr returns fun t inside => agree t (List.mem_append_right _ inside)]
  | .promise item, agree => by rw [Shape.renumber, Shape.renumber, renumber_congr item agree]
  | .array items, agree => by rw [Shape.renumber, Shape.renumber, renumber_congr items agree]
  | .tuple items, agree => by rw [Shape.renumber, Shape.renumber, renumberAll_congr items agree]
  | .object properties additional, agree => by
    rw [Shape.renumber, Shape.renumber,
      renumberProperties_congr properties fun t inside => agree t (List.mem_append_left _ inside),
      renumberValue_congr additional fun t inside => agree t (List.mem_append_right _ inside)]
  | .record key value, agree => by rw [Shape.renumber, Shape.renumber, renumber_congr value agree]
  | .union variants, agree => by
    rw [Shape.renumber, Shape.renumber, renumberAll_congr variants agree]
  | .intersect variants, agree => by
    rw [Shape.renumber, Shape.renumber, renumberAll_congr variants agree]
  | .basic _, _ => rfl
  | .literal _, _ => rfl
  | .template _, _ => rfl
  | .reference _ _, _ => rfl
  | .user _ _, _ => rfl
termination_by structural x => x

end

mutual

theorem renumber_self : (s : Schema) → s.renumber (fun k => k) = s
  | .mk mark id optional shape => by rw [Schema.renumber, renumberShape_self shape]
termination_by structural x => x

theorem renumberAll_self : (schemas : List Schema) →
    Schema.renumberAll (fun k => k) schemas = schemas
  | [] => rfl
  | s :: rest => by rw [Schema.renumberAll, renumber_self s, renumberAll_self rest]
termination_by structural x => x

theorem renumberProperties_self : (properties : List (String × Schema)) →
    Schema.renumberProperties (fun k => k) properties = properties
  | [] => rfl
  | (name, s) :: rest => by
    rw [Schema.renumberProperties, renumber_self s, renumberProperties_self rest]
termination_by structural x => x

theorem renumberValue_self : (v : Value) → v.renumber (fun k => k) = v
  | .schema s => by rw [Value.renumber, renumber_self s]
  | .null => rfl
  | .scalar _ => rfl
  | .list _ => rfl
  | .tuple _ => rfl
  | .table _ => rfl
termination_by structural x => x

theorem renumberShape_self : (shape : Shape) → shape.renumber (fun k => k) = shape
  | .callable form parameters returns => by
    rw [Shape.renumber, renumberAll_self parameters, renumber_self returns]
  | .promise item => by rw [Shape.renumber, renumber_self item]
  | .array items => by rw [Shape.renumber, renumber_self items]
  | .tuple items => by rw [Shape.renumber, renumberAll_self items]
  | .object properties additional => by
    rw [Shape.renumber, renumberProperties_self properties, renumberValue_self additional]
  | .record key value => by rw [Shape.renumber, renumber_self value]
  | .union variants => by rw [Shape.renumber, renumberAll_self variants]
  | .intersect variants => by rw [Shape.renumber, renumberAll_self variants]
  | .basic _ => rfl
  | .literal _ => rfl
  | .template _ => rfl
  | .reference _ _ => rfl
  | .user _ _ => rfl
termination_by structural x => x

end

theorem renumber_fixed {s : Schema} (fixed : ∀ t ∈ s.parts, f t.mark = t.mark) :
    s.renumber f = s :=
  (renumber_congr s fixed).trans (renumber_self s)

mutual

theorem renumber_erase : (s : Schema) → (s.renumber f).erase = s.erase
  | .mk mark id optional shape => by
    rw [Schema.renumber, Schema.erase, Schema.erase, renumberShape_erase shape]
termination_by structural x => x

theorem renumberAll_erase : (schemas : List Schema) →
    Schema.eraseAll (Schema.renumberAll f schemas) = Schema.eraseAll schemas
  | [] => rfl
  | s :: rest => by
    rw [Schema.renumberAll, Schema.eraseAll, Schema.eraseAll, renumber_erase s,
      renumberAll_erase rest]
termination_by structural x => x

theorem renumberProperties_erase : (properties : List (String × Schema)) →
    Schema.eraseProperties (Schema.renumberProperties f properties) =
      Schema.eraseProperties properties
  | [] => rfl
  | (name, s) :: rest => by
    rw [Schema.renumberProperties, Schema.eraseProperties, Schema.eraseProperties,
      renumber_erase s, renumberProperties_erase rest]
termination_by structural x => x

theorem renumberValue_erase : (v : Value) → (v.renumber f).erase = v.erase
  | .schema s => by rw [Value.renumber, Value.erase, Value.erase, renumber_erase s]
  | .null => rfl
  | .scalar _ => rfl
  | .list _ => rfl
  | .tuple _ => rfl
  | .table _ => rfl
termination_by structural x => x

theorem renumberShape_erase : (shape : Shape) → (shape.renumber f).erase = shape.erase
  | .callable form parameters returns => by
    rw [Shape.renumber, Shape.erase, Shape.erase, renumberAll_erase parameters,
      renumber_erase returns]
  | .promise item => by rw [Shape.renumber, Shape.erase, Shape.erase, renumber_erase item]
  | .array items => by rw [Shape.renumber, Shape.erase, Shape.erase, renumber_erase items]
  | .tuple items => by rw [Shape.renumber, Shape.erase, Shape.erase, renumberAll_erase items]
  | .object properties additional => by
    rw [Shape.renumber, Shape.erase, Shape.erase, renumberProperties_erase properties,
      renumberValue_erase additional]
  | .record key value => by rw [Shape.renumber, Shape.erase, Shape.erase, renumber_erase value]
  | .union variants => by rw [Shape.renumber, Shape.erase, Shape.erase, renumberAll_erase variants]
  | .intersect variants => by
    rw [Shape.renumber, Shape.erase, Shape.erase, renumberAll_erase variants]
  | .basic _ => rfl
  | .literal _ => rfl
  | .template _ => rfl
  | .reference _ _ => rfl
  | .user _ _ => rfl
termination_by structural x => x

end

theorem Renumbers.later {mark mark' : Nat} (fits : Renumbers f mark mark') {n : Nat}
    (more : mark ≤ n) : Renumbers f n (f n) := by
  obtain ⟨k, rfl⟩ := Nat.exists_eq_add_of_le more
  refine ⟨fits.zero, fun i => ?_⟩
  rw [Nat.add_assoc, fits.onward, fits.onward, Nat.add_assoc]

theorem Renumbers.next {mark mark' : Nat} (fits : Renumbers f mark mark') :
    Renumbers f (mark + 1) (mark' + 1) := by
  have later := fits.later (Nat.le_succ mark)
  rwa [fits.onward 1] at later

theorem numbered_renumber {mark mark' : Nat} (fits : Renumbers f mark mark')
    (strings : List String) :
    Schema.renumberAll f (Template.numbered mark strings) = Template.numbered mark' strings := by
  induction strings generalizing mark mark' with
  | nil => rfl
  | cons text rest ih =>
    rw [Template.numbered, Template.numbered, Schema.renumberAll, ih fits.next,
      Rule.renumber_marked fits]
    rfl

theorem place_strings (mark : Nat) (strings : List String) :
    (Schema.plain (.union (strings.map fun s => Schema.plain (.literal (.text s))))).place mark =
      (Rule.marked mark (.union (Template.numbered (mark + 1) strings)),
        mark + 1 + strings.length) := by
  have placed := Template.placeAll_literals (mark + 1) strings
  simp only [Schema.plain] at placed
  simp only [Schema.plain, Schema.place, Value.place, Shape.place, if_true, placed, Rule.marked]

-- What a template stands for is made up anew, with the marks that are free.
theorem place_resolve_renumber {mark mark' : Nat} (fits : Renumbers f mark mark')
    (parts : List Part) :
    (Template.resolve parts).place mark' =
      (((Template.resolve parts).place mark).1.renumber f,
        f ((Template.resolve parts).place mark).2) := by
  have leaf : ∀ shape : Shape, shape.renumber f = shape →
      (Rule.marked mark' shape, mark' + 1) = ((Rule.marked mark shape).renumber f, f (mark + 1)) := by
    intro shape same
    rw [Rule.renumber_marked fits, same, fits.onward]
  unfold Template.resolve
  split
  · exact leaf (.basic .string) rfl
  · exact leaf _ rfl
  · rename_i strings _ _
    rw [place_strings, place_strings, Rule.renumber_marked fits, Shape.renumber,
      numbered_renumber fits.next, Nat.add_assoc, Nat.add_assoc, fits.onward]

theorem resolved_renumber {mark mark' : Nat} (fits : Renumbers f mark mark') (s : Schema) :
    (s.renumber f).resolved mark' = ((s.resolved mark).1.renumber f, f (s.resolved mark).2) := by
  rcases template_cases s with ⟨parts, shape⟩ | expanded
  · have shape' : (s.renumber f).shape = .template parts := by
      rw [renumber_shape, shape]
      rfl
    rw [resolved_template shape, resolved_template shape']
    exact place_resolve_renumber fits parts
  · have expanded' : (s.renumber f).isTemplate = false := by
      obtain ⟨mark, id, optional, shape⟩ := s
      cases shape <;> first | rfl | cases expanded
    rw [resolved_self expanded, resolved_self expanded']
    exact Prod.ext rfl (fits.onward 0).symm

end

end Assignability
