import Assignability.Proofs.Affirmation
import Assignability.Proofs.Agreement

namespace Assignability

-- A key that is not numeric covers every name of one line, in particular the names that a numeric
-- one covers. Names with a line break are passed over.

-- A record for any name, and one for numbers with the same values. Neither has an identifier.
structure Schema.Loosens (strings numbers key other value : Schema) : Prop where
  keyed : strings.shape = .record key value
  indexed : numbers.shape = .record other value
  any : key.isNumericKey = false
  numeric : other.isNumericKey = true
  anonymous : strings.id.isNull = true ∧ numbers.id.isNull = true

section
variable {strings numbers key other value : Schema}
  (loosens : strings.Loosens numbers key other value)
include loosens

theorem Schema.Loosens.covers {name : String} (covers : coversName other name = true) :
    coversName key name = true := by
  have digits : isIndexName name = true := by simpa [coversName, loosens.numeric] using covers
  suffices oneLine : '\n' ∉ name.toList by simp [coversName, loosens.any, oneLine]
  intro inside
  unfold isIndexName at digits
  split at digits
  · rename_i zero
    simp [zero] at inside
  · rename_i c cs _ same
    simp only [Bool.and_eq_true, List.all_eq_true] at digits
    rw [same] at inside
    rcases List.mem_cons.mp inside with rfl | later
    · exact absurd digits.1.1 (by decide)
    · exact absurd (digits.2 _ later) (by decide)
  · cases digits

namespace Rule

variable {mark scopeMark : Nat} {scope : Scope} {left : Site} {evidence : Evidence}

theorem recordRight_loosens
    (yields : (recordRight mark left ⟨strings, scope, scopeMark⟩ key value).Yields evidence true) :
    (recordRight mark left ⟨numbers, scope, scopeMark⟩ other value).Yields evidence true := by
  cases shape : left.schema.shape with
  | basic b => cases b <;> simp [recordRight, shape, loosens.any] at yields
  | literal scalar => cases scalar <;> simp [recordRight, shape, loosens.any] at yields
  | object properties additional =>
    simp only [recordRight, shape, loosens.numeric, if_true, List.append_nil, Goal.all_yields,
      List.forall_mem_map, List.mem_filter] at yields ⊢
    rintro ⟨name, s⟩ ⟨member, covers⟩
    apply yields
    apply List.mem_append_left
    exact List.mem_map.mpr ⟨(name, s), List.mem_filter.mpr ⟨member, loosens.covers covers⟩, rfl⟩
  | _ => simp [recordRight, shape] at yields

theorem byKind_loosens {registry : Registry} (noHandlers : ∀ kind, registry.handler? kind = none)
    (yields : (byKind registry mark left ⟨strings, scope, scopeMark⟩).Yields evidence true) :
    (byKind registry mark left ⟨numbers, scope, scopeMark⟩).Yields evidence true := by
  have through :
      (recordRight mark left ⟨strings, scope, scopeMark⟩ key value).Yields evidence true →
        (recordRight mark left ⟨numbers, scope, scopeMark⟩ other value).Yields evidence true :=
    recordRight_loosens loosens
  have shapes := And.intro loosens.keyed loosens.indexed
  cases shape : left.schema.shape with
  | basic b =>
    cases b <;> simp only [byKind, shape, primitive, shapes] at yields ⊢
    case any | unknown | never => exact yields
    all_goals exact through yields
  | literal scalar =>
    simp only [byKind, shape, literal, shapes] at yields ⊢
    exact through yields
  | object properties additional =>
    simp only [byKind, shape, object, shapes] at yields ⊢
    exact through yields
  | record ours item =>
    simp only [byKind, shape, record, shapes, loosens.any, loosens.numeric, or_self] at yields ⊢
    split at yields
    · rename_i any
      rwa [if_pos (.inr any)]
    · simp at yields
  | array items => simp [byKind, shape, array, shapes, loosens.any] at yields
  | tuple items => simp [byKind, shape, tuple, shapes, loosens.any] at yields
  | callable form ours returns => simp [byKind, shape, callable, shapes] at yields
  | promise item => simp [byKind, shape, promise, shapes] at yields
  | user kind fields =>
    simp [byKind, shape, user, noHandlers, Schema.kind, shapes, Shape.kind] at yields
  | template _ | union _ | intersect _ | reference _ _ =>
    simp [byKind, shape, Goal.Yields] at yields

end Rule

end

-- A pair, and the pair itself or one with the looser record on the right.
inductive Loosened : Site × Site → Site × Site → Prop
  | same (p : Site × Site) : Loosened p p
  | record {left : Site} {strings numbers key other value : Schema} {scope : Scope} {mark : Nat} :
    strings.Loosens numbers key other value →
    Loosened (left, ⟨strings, scope, mark⟩) (left, ⟨numbers, scope, mark⟩)

theorem Rule.goal_loosens {settings : Settings} {registry : Registry}
    (noHandlers : ∀ kind, registry.handler? kind = none)
    {strings numbers key other value : Schema} (loosens : strings.Loosens numbers key other value)
    {mark scopeMark : Nat} {scope : Scope} {left : Site} {evidence more : Evidence}
    (carries : ∀ p q, Loosened p q → evidence p.1 p.2 true → more q.1 q.2 true)
    (yields : (goal settings registry mark left ⟨strings, scope, scopeMark⟩).Yields evidence true) :
    (goal settings registry mark left ⟨numbers, scope, scopeMark⟩).Yields more true := by
  have kinds : strings.kind = .record ∧ numbers.kind = .record := by
    simp [Schema.kind, loosens.keyed, loosens.indexed, Shape.kind]
  have apart : strings.united? = none ∧ strings.intersected? = none ∧ numbers.united? = none ∧
      numbers.intersected? = none := by
    simp [Schema.united?, Schema.intersected?, loosens.keyed, loosens.indexed]
  have mono : ∀ {g : Goal}, g.Yields evidence true → g.Yields more true :=
    Goal.yields_mono fun x y _ known => carries (x, y) (x, y) (.same _) known
  have variant : ∀ v : Schema, evidence (left.to v) ⟨strings, scope, scopeMark⟩ true →
      more (left.to v) ⟨numbers, scope, scopeMark⟩ true :=
    fun v known => carries _ _ (.record loosens) known
  rw [goal_eq] at yields ⊢
  simp only [kinds, reduceCtorEq, or_self, if_false] at yields ⊢
  split_ifs at yields ⊢
  case neg =>
    unfold distribute at yields ⊢
    cases united : left.schema.united? with
    | some variants =>
      simp only [united, Goal.all_yields, List.forall_mem_map] at yields ⊢
      exact fun v member => variant v (yields v member)
    | none =>
      cases intersected : left.schema.intersected? with
      | some parts =>
        simp only [united, intersected, apart, Goal.any_yields, List.mem_map] at yields ⊢
        obtain ⟨_, ⟨v, member, rfl⟩, known⟩ := yields
        exact ⟨_, ⟨v, member, rfl⟩, variant v known⟩
      | none =>
        simp only [united, intersected, apart] at yields ⊢
        exact mono (byKind_loosens loosens noHandlers yields)
  all_goals exact mono yields

-- What a record for any name looks at in an object.
inductive Checked (properties : List (String × Schema)) (additional : Value) (s : Schema) : Prop
  | property {name : String} : (name, s) ∈ properties → '\n' ∉ name.toList →
    Checked properties additional s
  | additional : additional = .schema s → Checked properties additional s

section
variable {properties : List (String × Schema)} {additional : Value} {key value s : Schema}

theorem Checked.child (checked : Checked properties additional s) {object : Schema}
    (shape : object.shape = .object properties additional) : s ∈ object.children := by
  cases checked with
  | property member oneLine => exact Rule.property_child shape member
  | additional same =>
    subst same
    exact Rule.additional_child shape

namespace Rule

def checks (left right : Site) (properties : List (String × Schema)) (additional : Value)
    (key value : Schema) : List Step :=
  ((properties.filter fun p => coversName key p.1).map fun p =>
      .compare (left.to p.2) (right.to value)) ++
    additionalStep additional fun s => [.compare (left.to s) (right.to value)]

theorem goal_object_record {left right : Site}
    (shape : left.schema.shape = .object properties additional)
    (keyed : right.schema.shape = .record key value) (any : key.isNumericKey = false)
    (settings : Settings) (registry : Registry) (mark : Nat) :
    goal settings registry mark left right =
      .all (checks left right properties additional key value) := by
  simp [goal, shape, keyed, byKind, object, recordRight, any, checks]

theorem mem_checks (any : key.isNumericKey = false) (left right : Site)
    (checked : Checked properties additional s) :
    .compare (left.to s) (right.to value) ∈ checks left right properties additional key value := by
  cases checked with
  | @property name member oneLine =>
    apply List.mem_append_left
    refine List.mem_map.mpr ⟨(name, s), List.mem_filter.mpr ⟨member, ?_⟩, rfl⟩
    simp [coversName, any, oneLine]
  | additional same =>
    apply List.mem_append_right
    simp [same, additionalStep]

end Rule

end

namespace Engine

theorem record_ready {registry : Registry} {s key value : Schema} {scope : Scope} {mark : Nat}
    (shape : s.shape = .record key value) (absent : s.id.isNull = true) :
    Site.Ready registry ⟨s, scope, mark⟩ :=
  ⟨Scope.push_of_null absent, by simp [Schema.isReference, shape],
    by simp [Schema.isTemplate, shape],
    by simp [Schema.kind, shape, Shape.kind, Registry.knows]⟩

theorem rules_loosened {w : World} (pure : w.registry.Pure)
    (noHandlers : ∀ kind, w.registry.handler? kind = none) (pairs others : Set (Site × Site))
    (carries : ∀ p q, Loosened p q → p ∈ pairs → q ∈ others) (p q : Site × Site)
    (loosened : Loosened p q) (member : p ∈ rules w pure pairs) : q ∈ rules w pure others := by
  cases loosened with
  | same p => exact (rules w pure).monotone (fun p member => carries p p (.same p) member) member
  | record loosens =>
    obtain ⟨l, v, r, u, first, second, yields⟩ := (mem_rules pure).mp member
    rw [prepare_self (record_ready loosens.keyed loosens.anonymous.1)] at second
    cases second
    refine (mem_rules pure).mpr ⟨l, v, _, v, first,
      prepare_self (record_ready loosens.indexed loosens.anonymous.2), ?_⟩
    refine Rule.goal_loosens noHandlers loosens ?_ yields
    exact fun p q below known => ⟨fun _ => rfl, fun _ => carries p q below (known.mpr rfl)⟩

-- Whatever extends a record for any name extends the one for numbers, in any scopes and through any
-- references.
theorem string_record_demands_more {w w' : World} {left strings numbers key other value : Schema}
    {leftScope rightScope : Scope} {b : Bool}
    (loosens : strings.Loosens numbers key other value)
    (one : Answered w left strings leftScope rightScope true)
    (two : Answered w' left numbers leftScope rightScope b)
    (anyLeft : w'.engine.settings.anyLeftResult = w.engine.settings.anyLeftResult)
    (cycle : w'.engine.settings.cycleResult = w.engine.settings.cycleResult)
    (kinds : w'.registry.SameKinds w.registry) : b = true := by
  have pure := withoutRules_pure w
  have noHandlers := withoutRules_handler w
  have first := mem_affirmed (one.iff_settled pure noHandlers rfl rfl (withoutRules_kinds w))
  have second := mem_affirmed (two.iff_settled pure noHandlers anyLeft cycle
    fun kind => (kinds kind).trans (withoutRules_kinds w kind))
  exact second.mpr (affirmed_carries (rules_loosened pure noHandlers) (Bool.le_refl _)
    (.record loosens) (first.mp rfl))

-- Recursive on both sides, with numeric names and another one.
def cyclic : Schema :=
  .mk 0 (.text "object") false (.object [("0", .basic .number),
    ("12", .plain (.reference .this (.text "object"))),
    ("name", .plain (.reference .this (.text "object")))] .null)

def linked : Schema :=
  .mk 0 (.text "entry") false (.object [("12", .plain (.reference .ref (.text "entry")))] .null)

def keyed (key : Schema) : Schema :=
  .plain (.record key (.plain (.union [.basic .number, .plain (.reference .ref (.text "entry"))])))

theorem cyclic_extends_both_records :
    (query (compareSchemas 4 (cyclic.place 8).1 ((keyed (.basic .string)).place 3).1 []
      [(linked.place 1).1]) { supply := 12 }).1.toOption = some true ∧
    ∀ depth b, (query (compareSchemas depth (cyclic.place 8).1
      ((keyed (.basic .integer)).place 3).1 [] [(linked.place 1).1])
      { supply := 12, engine := { settings := { memoize := false } } }).1 = .ok b → b = true := by
  have placed : ∀ b : Basic, (∀ p ∈ (keyed (.basic b)).parts, p.mark = 0) →
      Placed 12 [(cyclic.place 8).1, ((keyed (.basic b)).place 3).1, (linked.place 1).1] :=
    fun b unmarked =>
      (@Placed.two 1 linked (keyed (.basic b)) (by decide) unmarked).placeNew cyclic (by decide)
  have first : (query (compareSchemas 4 (cyclic.place 8).1 ((keyed (.basic .string)).place 3).1 []
      [(linked.place 1).1]) { supply := 12 }).1.toOption = some true := by decide +kernel
  refine ⟨first, fun depth b returned => ?_⟩
  have one : Answered { supply := 12 } (cyclic.place 8).1 ((keyed (.basic .string)).place 3).1 []
      [(linked.place 1).1] true :=
    ⟨placed .string (by decide), fun _ _ _ _ => rfl, rfl, 4, ok_of_toOption first⟩
  have two : Answered { supply := 12, engine := { settings := { memoize := false } } }
      (cyclic.place 8).1 ((keyed (.basic .integer)).place 3).1 [] [(linked.place 1).1] b :=
    ⟨placed .integer (by decide), fun _ _ _ _ => rfl, rfl, depth, returned⟩
  exact string_record_demands_more ⟨rfl, rfl, rfl, rfl, rfl, rfl⟩ one two rfl rfl fun _ => rfl

theorem evaluate_checked {settings : Settings} {registry : Registry} (pure : registry.Pure)
    {object record key value s : Schema} {properties : List (String × Schema)} {additional : Value}
    (shape : object.shape = .object properties additional)
    (keyed : record.shape = .record key value) (any : key.isNumericKey = false)
    (checked : Checked properties additional s) {fuel : Nat}
    (found : evaluate settings registry fuel object.erase record.erase = some true) :
    ∃ less, evaluate settings registry less s.erase value.erase = some true := by
  have kinds := known_of_evaluate found
  rw [erase_kind, erase_kind] at kinds
  cases fuel with
  | zero => cases found
  | succ fuel =>
    have resolved : (Site.bare object).schema = (object.resolved 0).1 := by
      rw [resolved_self (by simp [Schema.isTemplate, shape]), Site.bare_schema]
    have resolved' : (Site.bare record).schema = (record.resolved 0).1 := by
      rw [resolved_self (by simp [Schema.isTemplate, keyed]), Site.bare_schema]
    rw [evaluate_goal pure fuel 0 0 kinds resolved resolved' 0,
      Rule.goal_object_record shape keyed any] at found
    exact ⟨fuel, Goal.value_all found (Rule.mem_checks any _ _ checked)⟩

-- An object without references that extends a record for any name has the values of the record in
-- all its properties by names of one line and in its additional ones: comparing them succeeds as
-- soon as comparisons may nest deep enough.
theorem string_record_checks_properties {w : World} (pure : w.registry.Pure)
    {object record key value : Schema} {properties : List (String × Schema)} {additional : Value}
    {leftScope rightScope : Scope} (shape : object.shape = .object properties additional)
    (keyed : record.shape = .record key value) (any : key.isNumericKey = false)
    (onLeft : object.Concrete) (onRight : record.Concrete)
    (placed : Placed w.supply (object :: record :: (leftScope ++ rightScope)))
    (idle : w.engine.active = []) {depth : Nat}
    (returned : (query (compareSchemas depth object record leftScope rightScope) w).1 = .ok true)
    {s : Schema} (checked : Checked properties additional s) :
    ∃ bound, ∀ {w' : World} {leftScope' rightScope' : Scope}, w'.registry = w.registry →
      w'.engine.settings.anyLeftResult = w.engine.settings.anyLeftResult →
      w'.engine.settings.cycleResult = w.engine.settings.cycleResult →
      Placed w'.supply (s :: value :: (leftScope' ++ rightScope')) → w'.engine.active = [] →
      ∀ depth' ≥ bound,
        (query (compareSchemas depth' s value leftScope' rightScope') w').1 = .ok true := by
  obtain ⟨fuel, found⟩ := (query_agrees_alike pure rfl rfl rfl placed idle onLeft onRight
    depth).fuelled true returned
  obtain ⟨fuel, inside⟩ := evaluate_checked pure shape keyed any checked found
  refine ⟨fuel, ?_⟩
  intro w' leftScope' rightScope' registry anyLeft cycle placed' idle' depth' deep
  have part : value ∈ record.children := by simp [Schema.children, keyed]
  exact (query_agrees_alike pure registry anyLeft cycle placed' idle'
    (onLeft.child (checked.child shape)) (onRight.child part) depth').reached true
    (evaluate_grows deep inside)

-- Two names of one line, whose properties are checked, one with a line break, whose property is
-- not, and a policy, which is.
def checkedTuple : Schema := .plain (.tuple [.basic .integer])

def mixedNames : Schema :=
  .plain (.object [("name", .plain (.literal (.text "x"))), ("side\nnote", .basic .date),
    ("total", checkedTuple)] (.schema (.basic .boolean)))

def recordValue : Schema :=
  .plain (.union [.basic .string, .basic .boolean, .plain (.array (.basic .number))])

def stringKeyed : Schema := .plain (.record (.basic .string) recordValue)

theorem mixedNames_tuple_checked :
    (query (compareSchemas 4 (mixedNames.place 8).1 (stringKeyed.place 1).1 [] [])
      { supply := 14 }).1.toOption = some true ∧
    ∃ bound, ∀ depth ≥ bound,
      (query (compareSchemas depth (checkedTuple.place 11).1 (recordValue.place 3).1 [] [])
        { supply := 14, engine := { settings := { memoize := false } } }).1 = .ok true := by
  have placed : Placed 14 [(mixedNames.place 8).1, (stringKeyed.place 1).1] :=
    @Placed.two 1 stringKeyed mixedNames (by decide) (by decide)
  have first : (query (compareSchemas 4 (mixedNames.place 8).1 (stringKeyed.place 1).1 [] [])
      { supply := 14 }).1.toOption = some true := by decide +kernel
  have concrete : (mixedNames.place 8).1.Concrete ∧ (stringKeyed.place 1).1.Concrete := by
    unfold Schema.Concrete
    decide
  refine ⟨first, ?_⟩
  obtain ⟨bound, holds⟩ := string_record_checks_properties nil_pure rfl rfl rfl concrete.1
    concrete.2 placed rfl (ok_of_toOption first)
    (@Checked.property _ _ (checkedTuple.place 11).1 "total" (.tail _ (.tail _ (.head _)))
      (by decide))
  have within : Placed 14 [(checkedTuple.place 11).1, (recordValue.place 3).1] := by
    have inTotal : (checkedTuple.place 11).1 ∈ (mixedNames.place 8).1.children :=
      Rule.property_child rfl (.tail _ (.tail _ (.head _)))
    have inEntry : (recordValue.place 3).1 ∈ (stringKeyed.place 1).1.children :=
      List.mem_singleton_self _
    refine placed.coherent.placed fun s root => List.mem_flatMap.mpr ?_
    rcases List.mem_cons.mp root with rfl | other
    · exact ⟨_, List.mem_cons_self, parts_children (self_mem_parts _) inTotal⟩
    · rw [List.mem_singleton.mp other]
      exact ⟨_, List.mem_cons_of_mem _ List.mem_cons_self,
        parts_children (self_mem_parts _) inEntry⟩
  refine ⟨bound, fun depth deep => holds ?_ ?_ ?_ within ?_ depth deep⟩ <;> rfl

def lineBreakName : Schema := .plain (.object [("side\nnote", .basic .number)] .null)

def ofStrings : Schema := .plain (.record (.basic .string) (.basic .string))

-- A number in a property whose name has a line break passes for a record of strings.
theorem lineBreakName_unchecked :
    (lineBreakName.place 1).1.shape =
      .object [("side\nnote", ((Schema.basic .number).place 2).1)] .null ∧
    (query (compareSchemas 1 (lineBreakName.place 1).1 (ofStrings.place 3).1 [] [])
      { supply := 6 }).1.toOption = some true ∧
    (query (compareSchemas 1 ((Schema.basic .number).place 2).1 ((Schema.basic .string).place 5).1
      [] []) { supply := 6 }).1.toOption = some false :=
  ⟨rfl, by decide +kernel, by decide +kernel⟩

end Engine

end Assignability
