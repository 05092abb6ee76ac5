import Assignability.Proofs.Rules

namespace Assignability

-- What it means for sites to correspond is left open: the schemas may differ in marks, in the order
-- of their variants, or stand in different scopes.

def BothSides (corresponds : Site → Site → Prop) (p q : Site × Site) : Prop :=
  corresponds p.1 q.1 ∧ corresponds p.2 q.2

section
variable {related : Site × Site → Site × Site → Prop} {α β : Type}

theorem StepsMatch.append {ours ours' theirs theirs' : List Step}
    (first : StepsMatch related ours theirs) (second : StepsMatch related ours' theirs') :
    StepsMatch related (ours ++ ours') (theirs ++ theirs') := by
  refine ⟨fun step member => ?_, fun step member => ?_⟩
  · rcases List.mem_append.mp member with member | member
    · obtain ⟨other, found, same⟩ := first.forth step member
      exact ⟨other, List.mem_append_left _ found, same⟩
    · obtain ⟨other, found, same⟩ := second.forth step member
      exact ⟨other, List.mem_append_right _ found, same⟩
  · rcases List.mem_append.mp member with member | member
    · obtain ⟨other, found, same⟩ := first.back step member
      exact ⟨other, List.mem_append_left _ found, same⟩
    · obtain ⟨other, found, same⟩ := second.back step member
      exact ⟨other, List.mem_append_right _ found, same⟩

theorem StepsMatch.nil : StepsMatch related [] [] := ⟨by simp, by simp⟩

theorem StepsMatch.cons {step step' : Step} {rest rest' : List Step}
    (first : step.Matches related step') (later : StepsMatch related rest rest') :
    StepsMatch related (step :: rest) (step' :: rest') := by
  have alone : StepsMatch related [step] [step'] := ⟨by simpa using first, by simpa using first⟩
  exact alone.append later

theorem StepsMatch.flatMap {xs : List α} {ys : List β} {f : α → List Step} {g : β → List Step}
    (forth : ∀ x ∈ xs, ∃ y ∈ ys, StepsMatch related (f x) (g y))
    (back : ∀ y ∈ ys, ∃ x ∈ xs, StepsMatch related (f x) (g y)) :
    StepsMatch related (xs.flatMap f) (ys.flatMap g) := by
  refine ⟨fun step member => ?_, fun step member => ?_⟩
  · obtain ⟨x, inXs, inside⟩ := List.mem_flatMap.mp member
    obtain ⟨y, inYs, steps⟩ := forth x inXs
    obtain ⟨other, found, same⟩ := steps.forth step inside
    exact ⟨other, List.mem_flatMap.mpr ⟨y, inYs, found⟩, same⟩
  · obtain ⟨y, inYs, inside⟩ := List.mem_flatMap.mp member
    obtain ⟨x, inXs, steps⟩ := back y inYs
    obtain ⟨other, found, same⟩ := steps.back step inside
    exact ⟨other, List.mem_flatMap.mpr ⟨x, inXs, found⟩, same⟩

theorem StepsMatch.map {xs : List α} {ys : List β} {f : α → Step} {g : β → Step}
    (forth : ∀ x ∈ xs, ∃ y ∈ ys, (f x).Matches related (g y))
    (back : ∀ y ∈ ys, ∃ x ∈ xs, (f x).Matches related (g y)) :
    StepsMatch related (xs.map f) (ys.map g) := by
  have single : ∀ x y, (f x).Matches related (g y) → StepsMatch related [f x] [g y] :=
    fun _ _ same => .cons same .nil
  rw [List.map_eq_flatMap, List.map_eq_flatMap]
  refine .flatMap (fun x member => ?_) (fun y member => ?_)
  · obtain ⟨y, found, same⟩ := forth x member
    exact ⟨y, found, single x y same⟩
  · obtain ⟨x, found, same⟩ := back y member
    exact ⟨x, found, single x y same⟩

theorem StepsMatch.of_forall₂ {xs : List α} {ys : List β} {f : α → Step} {g : β → Step}
    {relation : α → β → Prop} (pairs : List.Forall₂ relation xs ys)
    (each : ∀ x y, relation x y → (f x).Matches related (g y)) :
    StepsMatch related (xs.map f) (ys.map g) := by
  induction pairs with
  | nil => exact .nil
  | cons first _ ih => exact .cons (each _ _ first) ih

theorem forall₂_zip {like : Schema → Schema → Prop} {ours ours' theirs theirs' : List Schema}
    (first : List.Forall₂ like ours ours') (second : List.Forall₂ like theirs theirs') :
    List.Forall₂ (fun p q => like p.1 q.1 ∧ like p.2 q.2) (ours.zip theirs)
      (ours'.zip theirs') := by
  induction first generalizing theirs theirs' with
  | nil => simp
  | cons head _ ih =>
    cases second with
    | nil => simp
    | cons other rest => exact .cons ⟨head, other⟩ (ih rest)

end

namespace Rule

-- Two pairs whose goals are to be compared, with marks for what their rules make up.
structure Parallel (like : Schema → Schema → Prop) (corresponds : Site → Site → Prop)
    (mark mark' : Nat) (left left' right right' : Site) : Prop where
  onLeft : corresponds left left'
  onRight : corresponds right right'
  leftShape : Shape.Like like left.schema.shape left'.schema.shape
  rightShape : Shape.Like like right.schema.shape right'.schema.shape
  leftInto : ∀ {s t}, like s t → corresponds (left.to s) (left'.to t)
  rightInto : ∀ {s t}, like s t → corresponds (right.to s) (right'.to t)
  optional : ∀ {s t}, like s t → s.optional = t.optional
  member : ∀ {m m'}, (m, m') ∈ (members mark).zip (members mark') →
    corresponds (.bare m) (.bare m')
  item : ∀ b, corresponds (left.to (marked mark (.basic b))) (left'.to (marked mark' (.basic b)))

section
variable {like : Schema → Schema → Prop} {corresponds : Site → Site → Prop} {mark mark' : Nat}
  {left left' right right' : Site}

theorem isEmpty_of_count {ours theirs : List (String × Schema)}
    (count : ours.length = theirs.length) : ours.isEmpty = theirs.isEmpty := by
  cases ours <;> cases theirs <;> simp_all

theorem coversName_eq {key key' : Schema} (keys : key.isNumericKey = key'.isNumericKey) :
    coversName key = coversName key' := by
  funext name
  simp [coversName, keys]

theorem additionalStep_matches {related : Site × Site → Site × Site → Prop}
    {additional other : Value} (extra : Option.Rel like additional.schema? other.schema?)
    {f g : Schema → List Step}
    (each : ∀ s t, like s t → StepsMatch related (f s) (g t)) :
    StepsMatch related (additionalStep additional f) (additionalStep other g) := by
  cases additional <;> cases other <;> simp only [Value.schema?] at extra <;> cases extra
  case schema.schema.some same => exact each _ _ same
  all_goals exact .nil

theorem like_kind {shape shape' : Shape} (alike : Shape.Like like shape shape') :
    shape.kind = shape'.kind := by
  cases alike <;> rfl

theorem united_like {s t : Schema} (alike : Shape.Like like s.shape t.shape) :
    Option.Rel (VariantsLike like) s.united? t.united? := by
  unfold Schema.united?
  generalize s.shape = shape, t.shape = shape' at alike ⊢
  cases alike with
  | union variants => exact .some variants
  | _ => exact .none

theorem intersected_like {s t : Schema} (alike : Shape.Like like s.shape t.shape) :
    Option.Rel (VariantsLike like) s.intersected? t.intersected? := by
  unfold Schema.intersected?
  generalize s.shape = shape, t.shape = shape' at alike ⊢
  cases alike with
  | intersect variants => exact .some variants
  | _ => exact .none

-- Rules of user kinds are consulted with both schemas, so they must agree on both pairs.
def ScriptsAgree (registry : Registry) (left left' right right' : Site) : Prop :=
  ∀ kind handler, left.schema.kind = .user kind → registry.handler? kind = some handler →
    (handler left.schema right.schema).outcome? = (handler left'.schema right'.schema).outcome?

variable (pairs : Parallel like corresponds mark mark' left left' right right')
include pairs

theorem Parallel.length :
    corresponds (.bare (lengthMember mark)) (.bare (lengthMember mark')) :=
  pairs.member (by simp [members])

theorem hasOnly_matches {ours theirs : List (String × Schema)}
    (properties : PropertiesLike like ours theirs) (name : String) {m m' : Schema}
    (made : corresponds (.bare m) (.bare m')) :
    Goal.Matches (BothSides corresponds) (hasOnly ours right name m)
      (hasOnly theirs right' name m') := by
  have count := properties.count
  match ours, theirs with
  | [], [] => exact Goal.answer_matches true
  | [], _ :: _ => simp at count
  | _ :: _, [] => simp at count
  | [(only, s)], [(other, t)] =>
    obtain ⟨q, found, names, same⟩ := properties.forth _ List.mem_cons_self
    cases List.mem_singleton.mp found
    cases names
    simp only [hasOnly]
    split
    · exact Goal.compare_matches ⟨made, pairs.rightInto same⟩
    · exact Goal.answer_matches false
  | [_], _ :: _ :: _ => simp at count
  | _ :: _ :: _, [_] => simp at count
  | _ :: _ :: _, _ :: _ :: _ => exact Goal.answer_matches false

theorem objectRight_matches {ours theirs : List (String × Schema)}
    (properties : PropertiesLike like ours theirs) :
    Goal.Matches (BothSides corresponds) (objectRight mark left right ours)
      (objectRight mark' left' right' theirs) := by
  have empty := isEmpty_of_count properties.count
  have length := hasOnly_matches pairs properties "length" pairs.length
  have alike := pairs.leftShape
  unfold objectRight
  generalize left.schema.shape = shape, left'.schema.shape = shape' at alike ⊢
  cases alike with
  | basic b =>
    cases b
    case string | uint8Array => exact length
    case symbol =>
      exact hasOnly_matches pairs properties _ (pairs.member (by simp [members]))
    case number | integer | boolean | bigint | date =>
      simp only [empty]
      exact Goal.answer_matches _
    all_goals exact Goal.answer_matches false
  | literal value =>
    cases value
    case text => exact length
    all_goals
      simp only [empty]
      exact Goal.answer_matches _
  | callable form parameters returns =>
    cases form
    · exact length
    · simp only [empty]
      exact Goal.answer_matches _
  | promise item => exact hasOnly_matches pairs properties _ (pairs.member (by simp [members]))
  | record keys values =>
    simp only [empty, keys]
    split
    · exact Goal.answer_matches true
    · split
      · exact Goal.answer_matches false
      · have step : ∀ p q : String × Schema, like p.2 q.2 →
            StepsMatch (BothSides corresponds)
              [.holds p.2.optional, .compare (left.to _) (right.to p.2)]
              [.holds q.2.optional, .compare (left'.to _) (right'.to q.2)] :=
          fun p q same => .cons (pairs.optional same)
            (.cons ⟨pairs.leftInto values, pairs.rightInto same⟩ .nil)
        refine .all (.flatMap (fun p member => ?_) (fun q member => ?_))
        · obtain ⟨q, found, _, same⟩ := properties.forth p member
          exact ⟨q, found, step p q same⟩
        · obtain ⟨p, found, _, same⟩ := properties.back q member
          exact ⟨p, found, step p q same⟩
  | _ => exact Goal.answer_matches false

theorem recordRight_matches {key key' value value' : Schema}
    (keys : key.isNumericKey = key'.isNumericKey) (values : like value value') :
    Goal.Matches (BothSides corresponds) (recordRight mark left right key value)
      (recordRight mark' left' right' key' value') := by
  have items : ∀ b, Goal.Matches (BothSides corresponds)
      (if key'.isNumericKey = true then
        .compare (left.to (marked mark (.basic b))) (right.to value) else .answer false)
      (if key'.isNumericKey = true then
        .compare (left'.to (marked mark' (.basic b))) (right'.to value') else .answer false) := by
    intro b
    split
    · exact Goal.compare_matches ⟨pairs.item b, pairs.rightInto values⟩
    · exact Goal.answer_matches false
  have alike := pairs.leftShape
  unfold recordRight
  generalize left.schema.shape = shape, left'.schema.shape = shape' at alike ⊢
  cases alike with
  | basic b =>
    cases b <;> simp only [keys]
    case string => exact items .string
    case uint8Array => exact items .number
    all_goals exact Goal.answer_matches false
  | literal scalar =>
    cases scalar <;> simp only [keys]
    case text => exact items .string
    all_goals exact Goal.answer_matches false
  | object properties extra =>
    simp only [keys, coversName_eq keys]
    refine .all (.append (.map (fun p member => ?_) (fun q member => ?_)) ?_)
    · obtain ⟨inOurs, covers⟩ := List.mem_filter.mp member
      obtain ⟨q, found, names, same⟩ := properties.forth p inOurs
      refine ⟨q, List.mem_filter.mpr ⟨found, ?_⟩, pairs.leftInto same, pairs.rightInto values⟩
      simpa only [names] using covers
    · obtain ⟨inTheirs, covers⟩ := List.mem_filter.mp member
      obtain ⟨p, found, names, same⟩ := properties.back q inTheirs
      refine ⟨p, List.mem_filter.mpr ⟨found, ?_⟩, pairs.leftInto same, pairs.rightInto values⟩
      simpa only [names] using covers
    · split
      · exact .nil
      · exact additionalStep_matches extra fun s t same =>
          .cons ⟨pairs.leftInto same, pairs.rightInto values⟩ .nil
  | _ => exact Goal.answer_matches false

theorem objectObject_matches {ours ours' theirs theirs' : List (String × Schema)}
    {additional other : Value} (first : PropertiesLike like ours ours')
    (second : PropertiesLike like theirs theirs')
    (extra : Option.Rel like additional.schema? other.schema?) :
    Goal.Matches (BothSides corresponds) (objectObject left right ours theirs additional)
      (objectObject left' right' ours' theirs' other) := by
  have step : ∀ p q : String × Schema, p.1 = q.1 → like p.2 q.2 →
      StepsMatch (BothSides corresponds) (propertySteps left right p.2 (ours.lookup p.1))
        (propertySteps left' right' q.2 (ours'.lookup q.1)) := by
    intro p q names same
    have named := first.named p.1
    rw [← names]
    generalize ours.lookup p.1 = found, ours'.lookup p.1 = found' at named ⊢
    cases named with
    | none => exact .cons (pairs.optional same) .nil
    | some found =>
      refine .cons ⟨pairs.leftInto found, pairs.rightInto same⟩ (.cons ?_ .nil)
      simp only [Step.Matches, Site.to, pairs.optional found, pairs.optional same]
  rw [objectObject_eq, objectObject_eq]
  refine .all (.append (.flatMap (fun p member => ?_) (fun q member => ?_)) ?_)
  · obtain ⟨q, found, names, same⟩ := second.forth p member
    exact ⟨q, found, step p q names same⟩
  · obtain ⟨p, found, names, same⟩ := second.back q member
    exact ⟨p, found, step p q names same⟩
  · refine additionalStep_matches extra fun s t same => ?_
    have absent : ∀ name, (theirs.lookup name).isNone = (theirs'.lookup name).isNone := by
      intro name
      have named := second.named name
      generalize theirs.lookup name = found, theirs'.lookup name = found' at named ⊢
      cases named <;> rfl
    refine .map (fun p member => ?_) (fun q member => ?_)
    · obtain ⟨inOurs, undeclared⟩ := List.mem_filter.mp member
      obtain ⟨q, found, names, found'⟩ := first.forth p inOurs
      refine ⟨q, List.mem_filter.mpr ⟨found, ?_⟩, pairs.leftInto found', pairs.rightInto same⟩
      simpa only [names, absent] using undeclared
    · obtain ⟨inOurs, undeclared⟩ := List.mem_filter.mp member
      obtain ⟨p, found, names, found'⟩ := first.back q inOurs
      refine ⟨p, List.mem_filter.mpr ⟨found, ?_⟩, pairs.leftInto found', pairs.rightInto same⟩
      simpa only [names, absent] using undeclared

theorem literal_matches (value : Scalar) :
    Goal.Matches (BothSides corresponds) (literal mark left right value)
      (literal mark' left' right' value) := by
  have alike := pairs.rightShape
  unfold literal
  generalize right.schema.shape = shape, right'.schema.shape = shape' at alike ⊢
  cases alike with
  | object properties extra => exact objectRight_matches pairs properties
  | record keys values => exact recordRight_matches pairs keys values
  | basic b => cases b <;> exact Goal.answer_matches _
  | _ => exact Goal.answer_matches _

theorem primitive_matches (b : Basic) :
    Goal.Matches (BothSides corresponds) (primitive mark left right b)
      (primitive mark' left' right' b) := by
  have alike := pairs.rightShape
  unfold primitive
  generalize right.schema.shape = shape, right'.schema.shape = shape' at alike ⊢
  cases alike with
  | object properties extra => exact objectRight_matches pairs properties
  | record keys values => exact recordRight_matches pairs keys values
  | _ => exact Goal.answer_matches _

theorem callable_matches (form : CallForm) {ours ours' : List Schema} {returns returns' : Schema}
    (parameters : List.Forall₂ like ours ours') (results : like returns returns') :
    Goal.Matches (BothSides corresponds) (callable mark left right form ours returns)
      (callable mark' left' right' form ours' returns') := by
  have alike := pairs.rightShape
  unfold callable
  generalize right.schema.shape = shape, right'.schema.shape = shape' at alike ⊢
  cases alike with
  | object properties extra => exact objectRight_matches pairs properties
  | callable other theirs result =>
    simp only [parameters.length_eq, theirs.length_eq]
    split
    · refine .all (.append (.of_forall₂ (forall₂_zip parameters theirs) ?_) (.cons ?_ .nil))
      · exact fun _ _ same => ⟨pairs.rightInto same.2, pairs.leftInto same.1⟩
      · exact ⟨pairs.leftInto results, pairs.rightInto result⟩
    · exact Goal.answer_matches false
  | _ => exact Goal.answer_matches false

theorem promise_matches {item item' : Schema} (items : like item item') :
    Goal.Matches (BothSides corresponds) (promise mark left right item)
      (promise mark' left' right' item') := by
  have alike := pairs.rightShape
  unfold promise
  generalize right.schema.shape = shape, right'.schema.shape = shape' at alike ⊢
  cases alike with
  | promise others => exact Goal.compare_matches ⟨pairs.leftInto items, pairs.rightInto others⟩
  | object properties extra => exact objectRight_matches pairs properties
  | _ => exact Goal.answer_matches false

theorem array_matches {item item' : Schema} (items : like item item') :
    Goal.Matches (BothSides corresponds) (array mark left right item)
      (array mark' left' right' item') := by
  have alike := pairs.rightShape
  unfold array
  generalize right.schema.shape = shape, right'.schema.shape = shape' at alike ⊢
  cases alike with
  | array others => exact Goal.compare_matches ⟨pairs.leftInto items, pairs.rightInto others⟩
  | object properties extra => exact hasOnly_matches pairs properties _ pairs.length
  | record keys values =>
    simp only [keys]
    split
    · exact Goal.compare_matches ⟨pairs.leftInto items, pairs.rightInto values⟩
    · exact Goal.answer_matches false
  | _ => exact Goal.answer_matches false

theorem tuple_matches {items items' : List Schema} (each : List.Forall₂ like items items') :
    Goal.Matches (BothSides corresponds) (tuple mark left right items)
      (tuple mark' left' right' items') := by
  have alike := pairs.rightShape
  unfold tuple
  generalize right.schema.shape = shape, right'.schema.shape = shape' at alike ⊢
  cases alike with
  | tuple others =>
    simp only [each.length_eq, others.length_eq]
    split
    · exact .all (.of_forall₂ (forall₂_zip each others) fun _ _ same =>
        ⟨pairs.leftInto same.1, pairs.rightInto same.2⟩)
    · exact Goal.answer_matches false
  | array others =>
    exact .all (.of_forall₂ each fun _ _ same => ⟨pairs.leftInto same, pairs.rightInto others⟩)
  | object properties extra => exact hasOnly_matches pairs properties _ pairs.length
  | record keys values =>
    simp only [keys]
    split
    · exact .all (.of_forall₂ each fun _ _ same => ⟨pairs.leftInto same, pairs.rightInto values⟩)
    · exact Goal.answer_matches false
  | _ => exact Goal.answer_matches false

theorem object_matches {ours ours' : List (String × Schema)}
    (properties : PropertiesLike like ours ours') :
    Goal.Matches (BothSides corresponds) (object mark left right ours)
      (object mark' left' right' ours') := by
  have alike := pairs.rightShape
  unfold object
  generalize right.schema.shape = shape, right'.schema.shape = shape' at alike ⊢
  cases alike with
  | object others extra => exact objectObject_matches pairs properties others extra
  | record keys values => exact recordRight_matches pairs keys values
  | _ => exact Goal.answer_matches false

theorem record_matches {key key' value value' : Schema}
    (keys : key.isNumericKey = key'.isNumericKey) (values : like value value') :
    Goal.Matches (BothSides corresponds) (record mark left right key value)
      (record mark' left' right' key' value') := by
  have alike := pairs.rightShape
  unfold record
  generalize right.schema.shape = shape, right'.schema.shape = shape' at alike ⊢
  cases alike with
  | record others results =>
    simp only [keys, others]
    split
    · exact Goal.compare_matches ⟨pairs.leftInto values, pairs.rightInto results⟩
    · exact Goal.answer_matches false
  | object properties extra => exact objectRight_matches pairs properties
  | _ => exact Goal.answer_matches false

theorem byKind_matches {registry : Registry}
    (agree : ScriptsAgree registry left left' right right') :
    Goal.Matches (BothSides corresponds) (byKind registry mark left right)
      (byKind registry mark' left' right') := by
  have rightKind : right.schema.kind = right'.schema.kind := like_kind pairs.rightShape
  have scripts : ∀ kind fields, left.schema.shape = .user kind fields →
      Goal.Matches (BothSides corresponds) (user registry left right kind)
        (user registry left' right' kind) := by
    intro kind fields shape
    have leftKind : left.schema.kind = .user kind := by simp [Schema.kind, shape, Shape.kind]
    unfold user
    cases found : registry.handler? kind with
    | none =>
      simp only [rightKind]
      exact Goal.answer_matches _
    | some handler => exact .consult (agree kind handler leftKind found)
  have alike := pairs.leftShape
  unfold byKind
  generalize left.schema.shape = shape, left'.schema.shape = shape' at alike scripts ⊢
  cases alike with
  | basic b =>
    cases b
    case unknown => exact Goal.answer_matches false
    case any | never => exact .refuse
    all_goals exact primitive_matches pairs _
  | literal value => exact literal_matches pairs value
  | callable form parameters results => exact callable_matches pairs form parameters results
  | promise item => exact promise_matches pairs item
  | array items => exact array_matches pairs items
  | tuple items => exact tuple_matches pairs items
  | object properties extra => exact object_matches pairs properties
  | record keys values => exact record_matches pairs keys values
  | user kind fields others => exact scripts kind fields rfl
  | template _ _ | union _ | intersect _ | reference _ _ _ => exact .refuse

theorem distribute_matches {registry : Registry}
    (agree : ScriptsAgree registry left left' right right') :
    Goal.Matches (BothSides corresponds) (distribute registry mark left right)
      (distribute registry mark' left' right') := by
  have onLeft : ∀ {ours theirs : List Schema}, VariantsLike like ours theirs →
      StepsMatch (BothSides corresponds) (ours.map fun v => .compare (left.to v) right)
        (theirs.map fun v => .compare (left'.to v) right') := by
    intro ours theirs variants
    refine .map (fun s member => ?_) (fun t member => ?_)
    · obtain ⟨t, found, same⟩ := variants.forth s member
      exact ⟨t, found, pairs.leftInto same, pairs.onRight⟩
    · obtain ⟨s, found, same⟩ := variants.back t member
      exact ⟨s, found, pairs.leftInto same, pairs.onRight⟩
  have onRight : ∀ {ours theirs : List Schema}, VariantsLike like ours theirs →
      StepsMatch (BothSides corresponds) (ours.map fun v => .compare left (right.to v))
        (theirs.map fun v => .compare left' (right'.to v)) := by
    intro ours theirs variants
    refine .map (fun s member => ?_) (fun t member => ?_)
    · obtain ⟨t, found, same⟩ := variants.forth s member
      exact ⟨t, found, pairs.onLeft, pairs.rightInto same⟩
    · obtain ⟨s, found, same⟩ := variants.back t member
      exact ⟨s, found, pairs.onLeft, pairs.rightInto same⟩
  have leftUnion := united_like pairs.leftShape
  have rightUnion := united_like pairs.rightShape
  have leftParts := intersected_like pairs.leftShape
  have rightParts := intersected_like pairs.rightShape
  have kinds := byKind_matches pairs agree
  unfold distribute
  generalize left.schema.united? = a, left'.schema.united? = a' at leftUnion ⊢
  generalize right.schema.intersected? = b, right'.schema.intersected? = b' at rightParts ⊢
  generalize left.schema.intersected? = c, left'.schema.intersected? = c' at leftParts ⊢
  generalize right.schema.united? = d, right'.schema.united? = d' at rightUnion ⊢
  cases leftUnion with
  | some variants => exact .all (onLeft variants)
  | none =>
    cases rightParts with
    | some variants => exact .all (onRight variants)
    | none =>
      cases leftParts with
      | some parts =>
        cases rightUnion with
        | some variants => exact .any (.append (onRight variants) (onLeft parts))
        | none => exact .any (onLeft parts)
      | none =>
        cases rightUnion with
        | some variants => exact .any (onRight variants)
        | none => exact kinds

-- Pairs that correspond ask for comparisons that correspond.
theorem goal_matches {settings : Settings} {registry : Registry}
    (agree : ScriptsAgree registry left left' right right') :
    Goal.Matches (BothSides corresponds) (goal settings registry mark left right)
      (goal settings registry mark' left' right') := by
  have leftKind : left.schema.kind = left'.schema.kind := like_kind pairs.leftShape
  have rightKind : right.schema.kind = right'.schema.kind := like_kind pairs.rightShape
  rw [goal_eq, goal_eq, leftKind, rightKind]
  split_ifs
  case neg => exact distribute_matches pairs agree
  all_goals exact Goal.answer_matches _

end

end Rule

end Assignability
