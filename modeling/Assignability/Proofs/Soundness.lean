import Assignability.Proofs.Data
import Assignability.Proofs.Decision

namespace Assignability

-- Each rule is right as long as the comparisons it asks for are. Without references and numeric
-- records comparisons only get lighter.

-- Every datum of the one is a datum of the other.
def Schema.Within (s t : Schema) : Prop := ∀ v, s.admits v = true → t.admits v = true

-- A comparison that succeeds is right about data.
def faithful : Evidence := fun left right answer =>
  answer = true → left.schema.Within right.schema

namespace Rule

section
variable {mark : Nat} {left right : Site}

theorem object_admits {s : Schema} {properties : List (String × Schema)} {additional : Value}
    (shape : s.shape = .object properties additional) {v : Datum} :
    s.admits v = true ↔ v.isAbsent = false ∧ ∀ name t, (name, t) ∈ properties →
      ∃ u, v.member? name = some u ∧ t.admits u = true := by
  simp only [admits_eq, shape, Shape.admits, Bool.and_eq_true, Bool.not_eq_true',
    propertiesAdmit_iff]

theorem hasOnly_within {properties : List (String × Schema)} {additional : Value}
    (shape : right.schema.shape = .object properties additional) {name : String} {m : Schema}
    (yields : (hasOnly properties right name m).Yields faithful true) {v u : Datum}
    (present : v.isAbsent = false) (found : v.member? name = some u)
    (described : m.admits u = true) :
    right.schema.admits v = true := by
  refine (object_admits shape).mpr ⟨present, fun other s member => ?_⟩
  unfold hasOnly at yields
  split at yields
  · cases member
  · cases List.mem_singleton.mp member
    split at yields
    · rename_i same
      simp only [beq_iff_eq] at same
      simp only [Goal.compare_yields] at yields
      exact ⟨u, same ▸ found, yields rfl u described⟩
    · simp at yields
  · simp at yields

theorem isEmpty_within {properties : List (String × Schema)} {additional : Value}
    (shape : right.schema.shape = .object properties additional)
    (yields : (Goal.answer properties.isEmpty).Yields faithful true) {v : Datum}
    (present : v.isAbsent = false) : right.schema.admits v = true := by
  refine (object_admits shape).mpr ⟨present, fun name s member => ?_⟩
  simp only [Goal.answer_yields, List.isEmpty_iff] at yields
  rw [yields] at member
  cases member

-- What is not an object has at most one member, and the schema made up for the member describes it.
theorem objectRight_within {properties : List (String × Schema)} {additional : Value}
    (shape : right.schema.shape = .object properties additional) (ofData : left.schema.OfData)
    (yields : (objectRight mark left right properties).Yields faithful true) :
    left.schema.Within right.schema := by
  intro v admitted
  rw [admits_eq] at admitted
  have allowed := ofData.self
  have length : ∀ n : Nat, (lengthMember mark).admits (.int n) = true := fun _ => rfl
  cases leftShape : left.schema.shape with
  | basic b =>
    simp only [leftShape, Shape.admits] at admitted
    cases b <;> simp only [objectRight, leftShape] at yields
    case string | uint8Array =>
      cases v <;> simp only [Basic.admits, Bool.false_eq_true] at admitted
      exact hasOnly_within shape yields rfl rfl (length _)
    case symbol =>
      cases v <;> simp only [Basic.admits, Bool.false_eq_true] at admitted
      rename_i description
      refine hasOnly_within shape yields rfl rfl ?_
      cases description <;> rfl
    case number | integer | boolean | bigint | date =>
      cases v <;> simp only [Basic.admits, Bool.false_eq_true] at admitted <;>
        exact isEmpty_within shape yields rfl
    all_goals simp at yields
  | literal value =>
    simp only [leftShape, Shape.admits] at admitted
    cases value <;> simp only [objectRight, leftShape] at yields <;>
      cases v <;> simp only [Scalar.admits, Bool.false_eq_true] at admitted
    case text => exact hasOnly_within shape yields rfl rfl (length _)
    all_goals exact isEmpty_within shape yields rfl
  | callable _ _ _ | promise _ | record _ _ => simp [leftShape, Shape.ofData] at allowed
  | _ => simp [objectRight, leftShape] at yields

theorem objectObject_within {ours theirs : List (String × Schema)} {additional policy : Value}
    (leftShape : left.schema.shape = .object ours policy)
    (rightShape : right.schema.shape = .object theirs additional) (ofData : right.schema.OfData)
    (yields : (objectObject left right ours theirs additional).Yields faithful true) :
    left.schema.Within right.schema := by
  intro v admitted
  obtain ⟨present, listed⟩ := (object_admits leftShape).mp admitted
  refine (object_admits rightShape).mpr ⟨present, fun name s member => ?_⟩
  simp only [objectObject_eq, Goal.all_yields, List.mem_append, List.mem_flatMap] at yields
  have steps := fun step inside => yields step (.inl ⟨(name, s), member, inside⟩)
  cases found : ours.lookup name with
  | none =>
    -- Without a property of this name the right one would have to be optional.
    simp only [found, propertySteps, List.mem_singleton, forall_eq, Step.Yields] at steps
    have required := ofData.self
    simp only [rightShape, Shape.ofData, List.all_eq_true] at required
    have needed := required _ member
    simp [steps] at needed
  | some t =>
    simp only [found, propertySteps, property] at steps
    have narrower := steps _ List.mem_cons_self rfl
    obtain ⟨u, has, described⟩ := listed name t (lookup_mem found)
    exact ⟨u, has, narrower u described⟩

theorem literal_within {value : Scalar} (leftShape : left.schema.shape = .literal value)
    (leftData : left.schema.OfData) (rightData : right.schema.OfData)
    (yields : (literal mark left right value).Yields faithful true) :
    left.schema.Within right.schema := by
  have allowed := rightData.self
  cases rightShape : right.schema.shape with
  | object properties additional =>
    simp only [literal, rightShape] at yields
    exact objectRight_within rightShape leftData yields
  | record key item => simp [rightShape, Shape.ofData] at allowed
  | literal other =>
    simp only [literal, rightShape, Goal.answer_yields] at yields
    intro v admitted
    rw [admits_eq, leftShape] at admitted
    rw [admits_eq, rightShape]
    exact sameLiteral_admits yields admitted
  | basic b =>
    intro v admitted
    rw [admits_eq, leftShape] at admitted
    rw [admits_eq, rightShape]
    simp only [Shape.admits] at admitted ⊢
    cases b <;>
      simp only [literal, rightShape, Goal.answer_yields, Bool.false_eq_true] at yields <;>
      cases value <;> cases v <;> simp_all [Scalar.admits, Basic.admits, Scalar.isText,
        Scalar.isNumber, Scalar.isWhole, Scalar.isBool]
    rw [← compare_eq_toInt admitted]
    exact yields
  | _ => simp [literal, rightShape] at yields

-- `undefined` is void, and integers are numbers.
theorem accepted_admits {b other : Basic} (listed : (accepted b).contains other = true) {v : Datum}
    (admitted : b.admits v = true) : other.admits v = true := by
  cases b <;> simp only [accepted, List.contains_cons, List.contains_nil, Bool.or_false,
    Bool.or_eq_true, beq_iff_eq] at listed
  case undefined | integer =>
    rcases listed with rfl | rfl
    · exact admitted
    · cases v <;> simp_all [Basic.admits]
  all_goals exact listed ▸ admitted

theorem primitive_within {b : Basic} (leftShape : left.schema.shape = .basic b)
    (leftData : left.schema.OfData) (rightData : right.schema.OfData)
    (yields : (primitive mark left right b).Yields faithful true) :
    left.schema.Within right.schema := by
  have allowed := rightData.self
  cases rightShape : right.schema.shape with
  | object properties additional =>
    simp only [primitive, rightShape] at yields
    exact objectRight_within rightShape leftData yields
  | record key item => simp [rightShape, Shape.ofData] at allowed
  | basic other =>
    simp only [primitive, rightShape, Goal.answer_yields] at yields
    intro v admitted
    rw [admits_eq, leftShape] at admitted
    rw [admits_eq, rightShape]
    exact accepted_admits yields admitted
  | _ => simp [primitive, rightShape] at yields

theorem array_within {items : Schema} (leftShape : left.schema.shape = .array items)
    (rightData : right.schema.OfData)
    (yields : (array mark left right items).Yields faithful true) :
    left.schema.Within right.schema := by
  intro v admitted
  rw [admits_eq, leftShape] at admitted
  cases v <;> simp only [Shape.admits, Bool.false_eq_true, List.all_eq_true] at admitted
  have allowed := rightData.self
  cases rightShape : right.schema.shape with
  | object properties additional =>
    simp only [array, rightShape] at yields
    exact hasOnly_within rightShape yields rfl rfl rfl
  | array other =>
    simp only [array, rightShape, Goal.compare_yields] at yields
    rw [admits_eq, rightShape]
    exact List.all_eq_true.mpr fun u member => yields rfl u (admitted u member)
  | record key value => simp [rightShape, Shape.ofData] at allowed
  | _ => simp [array, rightShape] at yields

-- Items of a tuple one by one, against those of another tuple or all against the same schema.
theorem eachAdmits_within {items others : List Schema} {content : List Datum}
    (within : List.Forall₂ Schema.Within items others)
    (admitted : List.Forall₂ (fun s v => s.admits v = true) items content) :
    List.Forall₂ (fun s v => s.admits v = true) others content := by
  induction within generalizing content with
  | nil => exact admitted
  | cons narrower _ ih =>
    cases admitted with
    | cons first later => exact .cons (narrower _ first) (ih later)

theorem allAdmits_within {items : List Schema} {other : Schema} {content : List Datum}
    (within : ∀ s ∈ items, s.Within other)
    (admitted : List.Forall₂ (fun s v => s.admits v = true) items content) :
    ∀ v ∈ content, other.admits v = true := by
  induction admitted with
  | nil => simp
  | cons first _ ih =>
    rintro v member
    rcases List.mem_cons.mp member with rfl | later
    · exact within _ List.mem_cons_self _ first
    · exact ih (fun s inside => within s (List.mem_cons_of_mem _ inside)) v later

theorem tuple_within {items : List Schema} (leftShape : left.schema.shape = .tuple items)
    (rightData : right.schema.OfData)
    (yields : (tuple mark left right items).Yields faithful true) :
    left.schema.Within right.schema := by
  intro v admitted
  rw [admits_eq, leftShape] at admitted
  cases v <;> simp only [Shape.admits, Bool.false_eq_true, eachAdmits_iff] at admitted
  rename_i content
  have allowed := rightData.self
  cases rightShape : right.schema.shape with
  | object properties additional =>
    simp only [tuple, rightShape] at yields
    exact hasOnly_within rightShape yields rfl rfl rfl
  | tuple others =>
    simp only [tuple, rightShape] at yields
    split at yields
    · rename_i sameLength
      rw [admits_eq, rightShape]
      simp only [Goal.all_yields, List.mem_map] at yields
      have within : List.Forall₂ Schema.Within items others :=
        List.forall₂_iff_zip.mpr
          ⟨sameLength, fun {s t} member => yields _ ⟨(s, t), member, rfl⟩ rfl⟩
      exact eachAdmits_iff.mpr (eachAdmits_within within admitted)
    · simp at yields
  | array other =>
    simp only [tuple, rightShape, Goal.all_yields, List.mem_map] at yields
    rw [admits_eq, rightShape]
    have within : ∀ s ∈ items, s.Within other := fun s member => yields _ ⟨s, member, rfl⟩ rfl
    exact List.all_eq_true.mpr (allAdmits_within within admitted)
  | record key value => simp [rightShape, Shape.ofData] at allowed
  | _ => simp [tuple, rightShape] at yields

theorem byKind_within {registry : Registry} (leftData : left.schema.OfData)
    (rightData : right.schema.OfData)
    (yields : (byKind registry mark left right).Yields faithful true) :
    left.schema.Within right.schema := by
  have allowed := leftData.self
  cases leftShape : left.schema.shape with
  | basic b =>
    have primitive : ∀ b, left.schema.shape = .basic b →
        (primitive mark left right b).Yields faithful true → left.schema.Within right.schema :=
      fun b shape => primitive_within shape leftData rightData
    cases b <;> simp only [byKind, leftShape] at yields
    case unknown => simp at yields
    case any | never => exact yields.elim
    all_goals exact primitive _ leftShape yields
  | literal value =>
    simp only [byKind, leftShape] at yields
    exact literal_within leftShape leftData rightData yields
  | array items =>
    simp only [byKind, leftShape] at yields
    exact array_within leftShape rightData yields
  | tuple items =>
    simp only [byKind, leftShape] at yields
    exact tuple_within leftShape rightData yields
  | object properties additional =>
    simp only [byKind, leftShape, object] at yields
    split at yields
    · rename_i rightShape
      exact objectObject_within leftShape rightShape rightData yields
    · rename_i rightShape
      have refused := rightData.self
      simp [rightShape, Shape.ofData] at refused
    · simp at yields
  | callable _ _ _ | promise _ | record _ _ | user _ _ | reference _ _ =>
    simp [leftShape, Shape.ofData] at allowed
  | template _ | union _ | intersect _ =>
    simp only [byKind, leftShape] at yields
    exact yields.elim

theorem union_admits {s : Schema} {variants : List Schema} (found : s.united? = some variants)
    {v : Datum} : s.admits v = true ↔ ∃ t ∈ variants, t.admits v = true := by
  rw [admits_eq, united_shape.mp found]
  exact someAdmits_iff

theorem intersect_admits {s : Schema} {variants : List Schema}
    (found : s.intersected? = some variants) {v : Datum} :
    s.admits v = true ↔ ∀ t ∈ variants, t.admits v = true := by
  rw [admits_eq, intersected_shape.mp found]
  exact allAdmit_iff

theorem distribute_within {registry : Registry} (leftData : left.schema.OfData)
    (rightData : right.schema.OfData)
    (yields : (distribute registry mark left right).Yields faithful true) :
    left.schema.Within right.schema := by
  have some_part : ∀ {parts t v}, left.schema.intersected? = some parts → t ∈ parts →
      t.Within right.schema → left.schema.admits v = true → right.schema.admits v = true :=
    fun found member narrower admitted => narrower _ ((intersect_admits found).mp admitted _ member)
  have some_variant : ∀ {variants t v}, right.schema.united? = some variants → t ∈ variants →
      left.schema.Within t → left.schema.admits v = true → right.schema.admits v = true :=
    fun found member narrower admitted =>
      (union_admits found).mpr ⟨_, member, narrower _ admitted⟩
  intro v admitted
  unfold distribute at yields
  split at yields
  · rename_i variants _ _ _ found
    simp only [Goal.all_yields, List.mem_map] at yields
    obtain ⟨t, member, described⟩ := (union_admits found).mp admitted
    exact yields _ ⟨t, member, rfl⟩ rfl v described
  · rename_i variants _ _ _ found
    simp only [Goal.all_yields, List.mem_map] at yields
    exact (intersect_admits found).mpr fun t member => yields _ ⟨t, member, rfl⟩ rfl v admitted
  · rename_i parts variants _ _ inLeft inRight
    simp only [Goal.any_yields, List.mem_append, List.mem_map] at yields
    obtain ⟨_, ⟨t, member, rfl⟩ | ⟨t, member, rfl⟩, narrower⟩ := yields
    · exact some_variant inRight member (narrower rfl) admitted
    · exact some_part inLeft member (narrower rfl) admitted
  · rename_i variants _ _ _ found
    simp only [Goal.any_yields, List.mem_map] at yields
    obtain ⟨_, ⟨t, member, rfl⟩, narrower⟩ := yields
    exact some_variant found member (narrower rfl) admitted
  · rename_i parts _ _ found _
    simp only [Goal.any_yields, List.mem_map] at yields
    obtain ⟨_, ⟨t, member, rfl⟩, narrower⟩ := yields
    exact some_part found member (narrower rfl) admitted
  · exact byKind_within leftData rightData yields v admitted

-- A goal that is met is right about data if the comparisons it asks for are.
theorem goal_within {settings : Settings} {registry : Registry} (leftData : left.schema.OfData)
    (rightData : right.schema.OfData)
    (yields : (goal settings registry mark left right).Yields faithful true) :
    left.schema.Within right.schema := by
  have basic : ∀ {s : Schema} {b : Basic} {v : Datum}, s.kind = b.kind →
      (s.admits v = true ↔ b.admits v = true) := by
    intro s b v kind
    rw [admits_eq, kind_basic.mp kind]
    rfl
  rw [goal_eq] at yields
  split_ifs at yields with absorbs never _ any
  · intro v _
    rcases absorbs with any | unknown
    · exact (basic (b := .any) any).mpr rfl
    · exact (basic (b := .unknown) unknown).mpr rfl
  · intro v admitted
    rw [basic (b := .never) never] at admitted
    cases v <;> cases admitted
  · simp at yields
  · have allowed := leftData.self
    rw [kind_basic (b := .any) |>.mp any] at allowed
    cases allowed
  · exact distribute_within leftData rightData yields

theorem lengthMember_ofData (mark : Nat) : (lengthMember mark).OfData := by
  intro t part
  cases List.mem_singleton.mp part
  rfl

theorem descriptionMember_ofData (mark : Nat) : (descriptionMember mark).OfData := by
  intro t part
  simp only [descriptionMember, marked, Schema.parts, Shape.parts, Schema.partsOfAll,
    List.append_nil, List.cons_append, List.nil_append, List.mem_cons, List.not_mem_nil,
    or_false] at part
  rcases part with rfl | rfl | rfl <;> rfl

-- What is made up for data speaks of data: only records and promises ask for anything else.
theorem made_ofData (mark : Nat) {s t : Schema} (leftData : s.OfData) (rightData : t.OfData) :
    (made mark s t).OfData := by
  have allowed := leftData.self
  have allowed' := rightData.self
  unfold made
  split
  · rename_i shape _
    simp [shape, Shape.ofData] at allowed'
  · rename_i shape _
    simp [shape, Shape.ofData] at allowed'
  · exact descriptionMember_ofData mark
  · rename_i shape _
    simp [shape, Shape.ofData] at allowed
  · exact lengthMember_ofData mark

theorem notIndexed_of_data {s : Schema} (ofData : s.OfData) : isNumericRecord s = false := by
  have allowed := ofData.self
  unfold isNumericRecord
  split
  · rename_i shape
    simp [shape, Shape.ofData] at allowed
  · rfl

end

end Rule

namespace Engine

theorem prepare_data {site p : Site} {w w' : World} (ofData : site.schema.OfData)
    (prepared : prepare site w = (.ok p, w')) :
    p.schema.OfData ∧ p.schema.weight ≤ site.schema.weight ∧
      ∀ v, p.schema.admits v = true ↔ site.schema.admits v = true := by
  obtain ⟨⟨t, reached, resolved⟩, -, -, -⟩ := prepare_ok prepared
  rw [Scope.dereference_concrete ofData.isReference] at reached
  obtain ⟨rfl, -⟩ := Prod.mk.inj (Except.ok.inj reached)
  have same : p.schema = (site.schema.resolved (scopeMarks site w.supply).2).1 := by rw [resolved]
  rw [same]
  exact ⟨resolved_ofData _ ofData, resolved_weight_le _ _, resolved_admits _ _⟩

-- Consistent pairs are right about data, by induction on their weight.
theorem gfp_within {base : World} (pure : base.registry.Pure) {left right : Site}
    (leftData : left.schema.OfData) (rightData : right.schema.OfData)
    (member : (left, right) ∈ (rules base pure).gfp) : left.schema.Within right.schema := by
  induction weight : left.schema.weight + right.schema.weight using Nat.strongRecOn
    generalizing left right with
  | ind n ih =>
    subst weight
    rw [← OrderHom.map_gfp] at member
    obtain ⟨l, v, r, u, first, second, yields⟩ := (mem_rules pure).mp member
    obtain ⟨onLeft, lighterLeft, sameLeft⟩ := prepare_data leftData first
    obtain ⟨onRight, lighterRight, sameRight⟩ := prepare_data rightData second
    have within : l.schema.Within r.schema := by
      refine Rule.goal_within onLeft onRight (Goal.yields_mono (fun x y asked known _ => ?_) yields)
      have asks := Rule.goal_asks asked
      have lighter := asks.lighter (Rule.notIndexed_of_data onRight)
      obtain ⟨inX, inY⟩ := asks.keeps Schema.OfData.child (Rule.made_ofData _ onLeft onRight) onLeft
        onRight
      exact ih _ (by omega) inX inY (known.mpr rfl) rfl
    intro d admitted
    exact (sameRight d).mp (within d ((sameLeft d).mpr admitted))

-- If the answer is that one schema extends another, every datum of the first is one of the second.
theorem query_sound_for_data {w : World} {left right : Schema} (leftData : left.OfData)
    (rightData : right.OfData) (placed : Placed w.supply [left, right])
    (idle : w.engine.active = []) {depth : Nat}
    (returned : (query (compareSchemas depth left right [] []) w).1 = .ok true) (v : Datum)
    (admitted : left.admits v = true) : right.admits v = true := by
  have pure := withoutRules_pure w
  obtain ⟨ledger, sound, known⟩ := Ledger.exists_of_placed ∅ placed List.mem_cons_self (by
    intro t part kind isUser
    have allowed : t.shape.ofData = true := by
      rcases List.mem_append.mp (by simpa using part) with inside | inside
      · exact leftData t inside
      · exact rightData t inside
    exact absurd isUser (ofData_kind allowed kind))
  have serves : Serves (withoutRules w) ∅ w := serves_withoutRules fun _ none => none.elim
  have answer := query_settled pure serves sound known idle returned 0 0
  have member : (⟨left, [], 0⟩, ⟨right, [], 0⟩) ∈ (rules (withoutRules w) pure).gfp := by
    cases cycle : (withoutRules w).engine.settings.cycleResult with
    | true =>
      rw [cycle, settled_true] at answer
      exact answer.mp rfl
    | false =>
      rw [cycle, settled_false] at answer
      have least : (⟨left, [], 0⟩, ⟨right, [], 0⟩) ∈ (rules (withoutRules w) pure).lfp :=
        Classical.byContradiction fun outside => by simpa using answer.mpr outside
      have below : (rules (withoutRules w) pure).lfp ⊆ (rules (withoutRules w) pure).gfp :=
        OrderHom.lfp_le_gfp _
      exact below least
  exact gfp_within pure leftData rightData member v admitted

-- A tuple against an intersection: it is an array of its items and has a length.
def twoItems : Schema := .plain (.tuple [.basic .integer, .basic .string])

def arrayLike : Schema :=
  .plain (.intersect [.plain (.array (.plain (.union [.basic .number, .basic .string]))),
    .plain (.object [("length", .basic .number)] .null)])

theorem twoItems_arrayLike :
    (query (compareSchemas 6 (twoItems.place 8).1 (arrayLike.place 1).1 [] []) { supply := 11 }).1 =
      .ok true ∧
    (twoItems.place 8).1.admits (.list [.int 7, .text "once"]) = true ∧
    (arrayLike.place 1).1.admits (.list [.int 7, .text "once"]) = true := by
  have placed : Placed 11 [(twoItems.place 8).1, (arrayLike.place 1).1] :=
    @Placed.two 1 arrayLike twoItems (by decide) (by decide)
  have answer : (query (compareSchemas 6 (twoItems.place 8).1 (arrayLike.place 1).1 [] [])
      { supply := 11 }).1 = .ok true := rfl
  have described : (twoItems.place 8).1.admits (.list [.int 7, .text "once"]) = true := by decide
  exact ⟨answer, described,
    query_sound_for_data (by decide) (by decide) placed rfl answer _ described⟩

end Engine

end Assignability
