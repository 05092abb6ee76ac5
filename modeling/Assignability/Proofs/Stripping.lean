import Assignability.Proofs.Narrowing
import Assignability.Proofs.Copies

namespace Assignability

-- Rules look at marks and scopes only to pass them on.

mutual

theorem Value.erase_erase : ∀ v : Value, v.erase.erase = v.erase
  | .list items => by rw [Value.erase, Value.erase, Value.eraseAll_eraseAll items]
  | .tuple items => by rw [Value.erase, Value.erase, Value.eraseAll_eraseAll items]
  | .table entries => by rw [Value.erase, Value.erase, Value.eraseEntries_eraseEntries entries]
  | .schema s => by rw [Value.erase, Value.erase, Schema.erase_erase s]
  | .null | .scalar _ => rfl

theorem Value.eraseAll_eraseAll : ∀ items : List Value,
    Value.eraseAll (Value.eraseAll items) = Value.eraseAll items
  | [] => rfl
  | v :: rest => by
    rw [Value.eraseAll, Value.eraseAll, Value.erase_erase v, Value.eraseAll_eraseAll rest]

theorem Value.eraseEntries_eraseEntries : ∀ entries : List (Value × Value),
    Value.eraseEntries (Value.eraseEntries entries) = Value.eraseEntries entries
  | [] => rfl
  | (k, v) :: rest => by
    rw [Value.eraseEntries, Value.eraseEntries, Value.erase_erase k, Value.erase_erase v,
      Value.eraseEntries_eraseEntries rest]

@[simp] theorem Schema.erase_erase : ∀ s : Schema, s.erase.erase = s.erase
  | .mk _ id optional shape => by
    rw [Schema.erase, Schema.erase, Value.erase_erase id, Shape.erase_erase shape]

theorem Schema.eraseAll_eraseAll : ∀ schemas : List Schema,
    Schema.eraseAll (Schema.eraseAll schemas) = Schema.eraseAll schemas
  | [] => rfl
  | s :: rest => by
    rw [Schema.eraseAll, Schema.eraseAll, Schema.erase_erase s, Schema.eraseAll_eraseAll rest]

theorem Part.eraseAll_eraseAll : ∀ parts : List Part,
    Part.eraseAll (Part.eraseAll parts) = Part.eraseAll parts
  | [] => rfl
  | .text s :: rest => by rw [Part.eraseAll, Part.eraseAll, Part.eraseAll_eraseAll rest]
  | .schema s :: rest => by
    rw [Part.eraseAll, Part.eraseAll, Schema.erase_erase s, Part.eraseAll_eraseAll rest]

theorem Schema.eraseProperties_eraseProperties : ∀ properties : List (String × Schema),
    Schema.eraseProperties (Schema.eraseProperties properties) = Schema.eraseProperties properties
  | [] => rfl
  | (name, s) :: rest => by
    rw [Schema.eraseProperties, Schema.eraseProperties, Schema.erase_erase s,
      Schema.eraseProperties_eraseProperties rest]

theorem Value.eraseFields_eraseFields : ∀ fields : List (String × Value),
    Value.eraseFields (Value.eraseFields fields) = Value.eraseFields fields
  | [] => rfl
  | (name, v) :: rest => by
    rw [Value.eraseFields, Value.eraseFields, Value.erase_erase v,
      Value.eraseFields_eraseFields rest]

theorem Shape.erase_erase : ∀ shape : Shape, shape.erase.erase = shape.erase
  | .basic _ | .literal _ => rfl
  | .callable form parameters returns => by
    rw [Shape.erase, Shape.erase, Schema.eraseAll_eraseAll parameters, Schema.erase_erase returns]
  | .promise item => by rw [Shape.erase, Shape.erase, Schema.erase_erase item]
  | .template parts => by rw [Shape.erase, Shape.erase, Part.eraseAll_eraseAll parts]
  | .array items => by rw [Shape.erase, Shape.erase, Schema.erase_erase items]
  | .tuple items => by rw [Shape.erase, Shape.erase, Schema.eraseAll_eraseAll items]
  | .object properties additional => by
    rw [Shape.erase, Shape.erase, Schema.eraseProperties_eraseProperties properties,
      Value.erase_erase additional]
  | .record key value => by
    rw [Shape.erase, Shape.erase, Schema.erase_erase key, Schema.erase_erase value]
  | .union variants => by rw [Shape.erase, Shape.erase, Schema.eraseAll_eraseAll variants]
  | .intersect variants => by rw [Shape.erase, Shape.erase, Schema.eraseAll_eraseAll variants]
  | .reference form target => by rw [Shape.erase, Shape.erase, Value.erase_erase target]
  | .user kind fields => by
    rw [Shape.erase, Shape.erase, Value.eraseFields_eraseFields fields]

end

-- What is left of a site without its marks and its scope.
def Site.stripped (site : Site) : Site := .bare site.schema.erase

def Step.stripped : Step → Step
  | .holds b => .holds b
  | .compare left right => .compare left.stripped right.stripped

-- A script that settles itself counts as its outcome.
def Goal.stripped : Goal → Goal
  | .all steps => .all (steps.map Step.stripped)
  | .any steps => .any (steps.map Step.stripped)
  | .consult script =>
    match script.outcome? with
    | some (.ok b) => .answer b
    | some (.error fault) => .refuse fault
    | none => .consult script
  | .refuse fault => .refuse fault

section
variable (site left right : Site) (s : Schema)

@[simp] theorem Site.stripped_to : (site.to s).stripped = .bare s.erase := rfl

@[simp] theorem Site.stripped_bare : (Site.bare s).stripped = .bare s.erase := rfl

@[simp] theorem Site.stripped_stripped : site.stripped.stripped = site.stripped := by
  simp [Site.stripped, Site.bare]

@[simp] theorem Site.stripped_shape : site.stripped.schema.shape = site.schema.shape.erase :=
  erase_shape site.schema

@[simp] theorem Site.stripped_kind : site.stripped.schema.kind = site.schema.kind :=
  erase_kind site.schema

@[simp] theorem Goal.stripped_all (steps : List Step) :
    (Goal.all steps).stripped = .all (steps.map Step.stripped) := rfl

@[simp] theorem Goal.stripped_answer (b : Bool) : (Goal.answer b).stripped = .answer b := rfl

@[simp] theorem Goal.stripped_compare :
    (Goal.compare left right).stripped = .compare left.stripped right.stripped := rfl

@[simp] theorem Goal.stripped_ite {p : Prop} [Decidable p] (g h : Goal) :
    (if p then g else h).stripped = if p then g.stripped else h.stripped := by
  split <;> rfl

end

@[simp] theorem eraseProperties_isEmpty (properties : List (String × Schema)) :
    (Schema.eraseProperties properties).isEmpty = properties.isEmpty := by
  rw [eraseProperties_eq, List.isEmpty_map]

theorem eraseProperties_filter (chosen : String → Bool) (properties : List (String × Schema)) :
    (Schema.eraseProperties properties).filter (fun p => chosen p.1) =
      Schema.eraseProperties (properties.filter fun p => chosen p.1) := by
  rw [eraseProperties_eq, eraseProperties_eq, List.filter_map]
  rfl

theorem eraseProperties_lookup (properties : List (String × Schema)) (name : String) :
    (Schema.eraseProperties properties).lookup name =
      (properties.lookup name).map Schema.erase := by
  induction properties with
  | nil => rfl
  | cons p rest ih =>
    rw [Schema.eraseProperties, List.lookup_cons, List.lookup_cons, ih]
    split <;> rfl

namespace Rule

@[simp] theorem marked_erase (mark : Nat) (b : Basic) :
    (marked mark (.basic b)).erase = marked 0 (.basic b) := rfl

variable (mark : Nat) (left right : Site)

theorem hasOnly_stripped (properties : List (String × Schema)) (name : String) {m m' : Schema}
    (same : m.erase = m'.erase) : (hasOnly properties right name m).stripped =
      (hasOnly (Schema.eraseProperties properties) right.stripped name m').stripped := by
  rcases properties with _ | ⟨⟨only, s⟩, _ | ⟨p, rest⟩⟩
  · rfl
  · simp [hasOnly, Schema.eraseProperties, same]
  · rfl

theorem objectRight_stripped (properties : List (String × Schema)) :
    (objectRight mark left right properties).stripped =
      (objectRight 0 left.stripped right.stripped
        (Schema.eraseProperties properties)).stripped := by
  have member := hasOnly_stripped right properties
  cases shape : left.schema.shape with
  | basic b =>
    cases b <;> simp only [objectRight, Site.stripped_shape, shape, Shape.erase,
      eraseProperties_isEmpty, Goal.stripped_answer]
    all_goals exact member _ rfl
  | literal value =>
    cases value <;> simp only [objectRight, Site.stripped_shape, shape, Shape.erase,
      eraseProperties_isEmpty, Goal.stripped_answer]
    exact member _ rfl
  | callable form _ _ =>
    cases form <;> simp only [objectRight, Site.stripped_shape, shape, Shape.erase,
      eraseProperties_isEmpty, Goal.stripped_answer]
    exact member _ rfl
  | promise item =>
    simp only [objectRight, Site.stripped_shape, shape, Shape.erase]
    exact member _ rfl
  | record key value =>
    simp only [objectRight, Site.stripped_shape, shape, Shape.erase, eraseProperties_isEmpty,
      erase_isNumericKey, Goal.stripped_ite, Goal.stripped_answer]
    simp [Goal.stripped, List.map_flatMap, eraseProperties_eq, List.flatMap_map, Step.stripped]
  | _ => simp only [objectRight, Site.stripped_shape, shape, Shape.erase, Goal.stripped_answer]

theorem additionalStep_stripped (additional : Value) {step other : Schema → List Step}
    (same : ∀ s, (step s).map Step.stripped = (other s.erase).map Step.stripped) :
    (additionalStep additional step).map Step.stripped =
      (additionalStep additional.erase other).map Step.stripped := by
  cases additional <;> simp [additionalStep, Value.erase, same]

theorem recordRight_stripped (key value : Schema) :
    (recordRight mark left right key value).stripped =
      (recordRight 0 left.stripped right.stripped key.erase value.erase).stripped := by
  cases shape : left.schema.shape with
  | basic b => cases b <;> simp [recordRight, shape, Shape.erase]
  | literal scalar => cases scalar <;> simp [recordRight, shape, Shape.erase]
  | object properties additional =>
    have covers : coversName key.erase = coversName key := by
      funext name
      simp [coversName]
    simp only [recordRight, Site.stripped_shape, shape, Shape.erase, covers, erase_isNumericKey,
      Goal.stripped, List.map_append, List.map_map]
    congr 2
    · rw [eraseProperties_filter (coversName key), eraseProperties_eq, List.map_map]
      refine List.map_congr_left fun p _ => ?_
      simp [Step.stripped]
    · split
      · rfl
      · refine additionalStep_stripped additional fun s => ?_
        simp [Step.stripped]
  | _ => simp [recordRight, shape, Shape.erase]

theorem objectObject_stripped (ours theirs : List (String × Schema)) (additional : Value) :
    (objectObject left right ours theirs additional).stripped =
      (objectObject left.stripped right.stripped (Schema.eraseProperties ours)
        (Schema.eraseProperties theirs) additional.erase).stripped := by
  rw [objectObject_eq, objectObject_eq]
  simp only [Goal.stripped, List.map_append, List.map_flatMap, eraseProperties_lookup]
  congr 2
  · rw [eraseProperties_eq theirs, List.flatMap_map]
    congr 1
    funext p
    cases ours.lookup p.1 with
    | none => simp [propertySteps, Step.stripped]
    | some t => simp [propertySteps, property, Step.stripped, Site.to, Site.stripped]
  · refine additionalStep_stripped additional fun s => ?_
    simp only [Option.isNone_map]
    rw [eraseProperties_filter (fun name => (theirs.lookup name).isNone), eraseProperties_eq,
      List.map_map, List.map_map, List.map_map]
    refine List.map_congr_left fun p _ => ?_
    simp [Step.stripped]

theorem literal_stripped (value : Scalar) :
    (literal mark left right value).stripped =
      (literal 0 left.stripped right.stripped value).stripped := by
  cases shape : right.schema.shape with
  | basic b => cases b <;> simp [literal, shape, Shape.erase]
  | object properties additional =>
    simp only [literal, Site.stripped_shape, shape, Shape.erase]
    exact objectRight_stripped mark left right properties
  | record key item =>
    simp only [literal, Site.stripped_shape, shape, Shape.erase]
    exact recordRight_stripped mark left right key item
  | _ => simp [literal, shape, Shape.erase]

theorem primitive_stripped (b : Basic) :
    (primitive mark left right b).stripped =
      (primitive 0 left.stripped right.stripped b).stripped := by
  cases shape : right.schema.shape with
  | object properties additional =>
    simp only [primitive, Site.stripped_shape, shape, Shape.erase]
    exact objectRight_stripped mark left right properties
  | record key item =>
    simp only [primitive, Site.stripped_shape, shape, Shape.erase]
    exact recordRight_stripped mark left right key item
  | _ => simp [primitive, shape, Shape.erase]

theorem zip_stripped (step other : Schema × Schema → Step) (ours theirs : List Schema)
    (same : ∀ s t, (step (s, t)).stripped = (other (s.erase, t.erase)).stripped) :
    ((ours.zip theirs).map step).map Step.stripped =
      (((Schema.eraseAll ours).zip (Schema.eraseAll theirs)).map other).map Step.stripped := by
  rw [eraseAll_eq, eraseAll_eq, List.zip_map, List.map_map, List.map_map, List.map_map]
  exact List.map_congr_left fun p _ => same p.1 p.2

theorem callable_stripped (form : CallForm) (ours : List Schema) (returns : Schema) :
    (callable mark left right form ours returns).stripped =
      (callable 0 left.stripped right.stripped form (Schema.eraseAll ours)
        returns.erase).stripped := by
  cases shape : right.schema.shape with
  | object properties additional =>
    simp only [callable, Site.stripped_shape, shape, Shape.erase]
    exact objectRight_stripped mark left right properties
  | callable other theirs result =>
    have lengths : (Schema.eraseAll ours).length ≤ (Schema.eraseAll theirs).length ↔
        ours.length ≤ theirs.length := by simp [eraseAll_eq]
    have parameters := zip_stripped (fun p => .compare (right.to p.2) (left.to p.1))
      (fun p => .compare (right.stripped.to p.2) (left.stripped.to p.1)) ours theirs
      fun s t => by simp [Step.stripped]
    simp only [callable, Site.stripped_shape, shape, Shape.erase, lengths, Goal.stripped_ite,
      Goal.stripped_all, List.map_append, parameters]
    simp [Step.stripped]
  | _ => simp [callable, shape, Shape.erase]

theorem promise_stripped (item : Schema) :
    (promise mark left right item).stripped =
      (promise 0 left.stripped right.stripped item.erase).stripped := by
  cases shape : right.schema.shape with
  | object properties additional =>
    simp only [promise, Site.stripped_shape, shape, Shape.erase]
    exact objectRight_stripped mark left right properties
  | _ => simp [promise, shape, Shape.erase]

theorem array_stripped (items : Schema) :
    (array mark left right items).stripped =
      (array 0 left.stripped right.stripped items.erase).stripped := by
  cases shape : right.schema.shape with
  | object properties additional =>
    simp only [array, Site.stripped_shape, shape, Shape.erase]
    exact hasOnly_stripped right properties "length" rfl
  | _ => simp [array, shape, Shape.erase]

theorem map_stripped (step other : Schema → Step) (items : List Schema)
    (same : ∀ s, (step s).stripped = (other s.erase).stripped) :
    (items.map step).map Step.stripped =
      ((Schema.eraseAll items).map other).map Step.stripped := by
  rw [eraseAll_eq, List.map_map, List.map_map, List.map_map]
  exact List.map_congr_left fun s _ => same s

theorem tuple_stripped (items : List Schema) :
    (tuple mark left right items).stripped =
      (tuple 0 left.stripped right.stripped (Schema.eraseAll items)).stripped := by
  have each : ∀ t : Schema,
      (items.map fun s => Step.compare (left.to s) (right.to t)).map Step.stripped =
        ((Schema.eraseAll items).map fun s =>
          Step.compare (left.stripped.to s) (right.stripped.to t.erase)).map Step.stripped :=
    fun t => map_stripped _ _ items fun s => by simp [Step.stripped]
  cases shape : right.schema.shape with
  | object properties additional =>
    simp only [tuple, Site.stripped_shape, shape, Shape.erase]
    exact hasOnly_stripped right properties "length" rfl
  | tuple others =>
    have lengths : (Schema.eraseAll items).length = (Schema.eraseAll others).length ↔
        items.length = others.length := by simp [eraseAll_eq]
    have pairs := zip_stripped (fun p => .compare (left.to p.1) (right.to p.2))
      (fun p => .compare (left.stripped.to p.1) (right.stripped.to p.2)) items others
      fun s t => by simp [Step.stripped]
    simp only [tuple, Site.stripped_shape, shape, Shape.erase, lengths, Goal.stripped_ite,
      Goal.stripped_all, Goal.stripped_answer, pairs]
  | array other =>
    simp only [tuple, Site.stripped_shape, shape, Shape.erase, Goal.stripped_all, each]
  | record key value =>
    simp only [tuple, Site.stripped_shape, shape, Shape.erase, erase_isNumericKey,
      Goal.stripped_ite, Goal.stripped_all, Goal.stripped_answer, each]
  | _ => simp [tuple, shape, Shape.erase]

theorem object_stripped (properties : List (String × Schema)) :
    (object mark left right properties).stripped =
      (object 0 left.stripped right.stripped (Schema.eraseProperties properties)).stripped := by
  cases shape : right.schema.shape with
  | object theirs additional =>
    simp only [object, Site.stripped_shape, shape, Shape.erase]
    exact objectObject_stripped left right properties theirs additional
  | record key item =>
    simp only [object, Site.stripped_shape, shape, Shape.erase]
    exact recordRight_stripped mark left right key item
  | _ => simp [object, shape, Shape.erase]

theorem record_stripped (key value : Schema) :
    (record mark left right key value).stripped =
      (record 0 left.stripped right.stripped key.erase value.erase).stripped := by
  cases shape : right.schema.shape with
  | object properties additional =>
    simp only [record, Site.stripped_shape, shape, Shape.erase]
    exact objectRight_stripped mark left right properties
  | _ => simp [record, shape, Shape.erase]

section
variable {registry : Registry} (pure : registry.Pure)
include pure

theorem user_stripped (kind : String) :
    (user registry left right kind).stripped =
      (user registry left.stripped right.stripped kind).stripped := by
  unfold user
  cases found : registry.handler? kind with
  | none => simp
  | some handler =>
    obtain ⟨f, answers⟩ := pure kind handler found
    simp only [Goal.stripped, answers, Site.stripped, Site.bare_schema, Schema.erase_erase]
    cases f left.schema.erase right.schema.erase <;> rfl

theorem byKind_stripped : (byKind registry mark left right).stripped =
    (byKind registry 0 left.stripped right.stripped).stripped := by
  cases shape : left.schema.shape with
  | basic b =>
    cases b <;> simp only [byKind, Site.stripped_shape, shape, Shape.erase]
    all_goals exact primitive_stripped mark left right _
  | literal value =>
    simp only [byKind, Site.stripped_shape, shape, Shape.erase]
    exact literal_stripped mark left right value
  | callable form parameters returns =>
    simp only [byKind, Site.stripped_shape, shape, Shape.erase]
    exact callable_stripped mark left right form parameters returns
  | promise item =>
    simp only [byKind, Site.stripped_shape, shape, Shape.erase]
    exact promise_stripped mark left right item
  | array items =>
    simp only [byKind, Site.stripped_shape, shape, Shape.erase]
    exact array_stripped mark left right items
  | tuple items =>
    simp only [byKind, Site.stripped_shape, shape, Shape.erase]
    exact tuple_stripped mark left right items
  | object properties additional =>
    simp only [byKind, Site.stripped_shape, shape, Shape.erase]
    exact object_stripped mark left right properties
  | record key value =>
    simp only [byKind, Site.stripped_shape, shape, Shape.erase]
    exact record_stripped mark left right key value
  | user kind fields =>
    simp only [byKind, Site.stripped_shape, shape, Shape.erase]
    exact user_stripped left right pure kind
  | template _ | union _ | intersect _ | reference _ _ =>
    simp only [byKind, Site.stripped_shape, shape, Shape.erase]

theorem distribute_stripped : (distribute registry mark left right).stripped =
    (distribute registry 0 left.stripped right.stripped).stripped := by
  have united : ∀ site : Site, site.stripped.schema.united? =
      site.schema.united?.map Schema.eraseAll := by
    intro site
    cases shape : site.schema.shape <;> simp [Schema.united?, shape, Shape.erase]
  have intersected : ∀ site : Site, site.stripped.schema.intersected? =
      site.schema.intersected?.map Schema.eraseAll := by
    intro site
    cases shape : site.schema.shape <;> simp [Schema.intersected?, shape, Shape.erase]
  have onLeft : ∀ variants : List Schema,
      (variants.map fun v => Step.compare (left.to v) right).map Step.stripped =
        ((Schema.eraseAll variants).map fun v =>
          Step.compare (left.stripped.to v) right.stripped).map Step.stripped :=
    fun variants => map_stripped _ _ variants fun s => by simp [Step.stripped]
  have onRight : ∀ variants : List Schema,
      (variants.map fun v => Step.compare left (right.to v)).map Step.stripped =
        ((Schema.eraseAll variants).map fun v =>
          Step.compare left.stripped (right.stripped.to v)).map Step.stripped :=
    fun variants => map_stripped _ _ variants fun s => by simp [Step.stripped]
  unfold distribute
  rw [united, united, intersected, intersected]
  cases left.schema.united? with
  | some variants => simp only [Option.map_some, Goal.stripped, onLeft]
  | none =>
    cases right.schema.intersected? with
    | some variants => simp only [Option.map_some, Option.map_none, Goal.stripped, onRight]
    | none =>
      cases left.schema.intersected? with
      | some parts =>
        cases right.schema.united? with
        | some variants =>
          simp only [Option.map_some, Option.map_none, Goal.stripped, List.map_append, onLeft,
            onRight]
        | none => simp only [Option.map_some, Option.map_none, Goal.stripped, onLeft]
      | none =>
        cases right.schema.united? with
        | some variants => simp only [Option.map_some, Option.map_none, Goal.stripped, onRight]
        | none =>
          simp only [Option.map_none]
          exact byKind_stripped mark left right pure

-- Only what is compared matters, not by which marks and in which scopes it is known.
theorem goal_stripped (settings : Settings) :
    (goal settings registry mark left right).stripped =
      (goal settings registry 0 left.stripped right.stripped).stripped := by
  rw [goal_eq, goal_eq]
  simp only [Site.stripped_kind, Goal.stripped_ite, Goal.stripped_answer,
    distribute_stripped mark left right pure]

end

end Rule

end Assignability
