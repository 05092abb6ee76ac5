import Assignability.Proofs.Stripping

namespace Assignability

namespace Goal

-- What the steps of a loop come to, where a comparison may have no answer.
def valueOf (go : Bool) (ask : Site → Site → Option Bool) : List Step → Option Bool
  | [] => some go
  | .holds b :: rest => if b = go then valueOf go ask rest else some b
  | .compare left right :: rest =>
    (ask left right).bind fun b => if b = go then valueOf go ask rest else some b

def value (ask : Site → Site → Option Bool) : Goal → Option Bool
  | .all steps => valueOf true ask steps
  | .any steps => valueOf false ask steps
  | .consult script => script.outcome?.bind Except.toOption
  | .refuse _ => none

theorem value_answer (ask : Site → Site → Option Bool) (b : Bool) :
    (Goal.answer b).value ask = some b := by
  cases b <;> rfl

section
variable {ask more : Site → Site → Option Bool}
  (grows : ∀ left right b, ask left right = some b → more left right = some b)
include grows

theorem valueOf_grows {go b : Bool} {steps : List Step} (found : valueOf go ask steps = some b) :
    valueOf go more steps = some b := by
  induction steps with
  | nil => exact found
  | cons step rest ih =>
    cases step with
    | holds c =>
      simp only [valueOf] at found ⊢
      split at found
      · rename_i same
        rw [if_pos same]
        exact ih found
      · rename_i differs
        rwa [if_neg differs]
    | compare left right =>
      simp only [valueOf, Option.bind_eq_some_iff] at found ⊢
      obtain ⟨c, answered, found⟩ := found
      refine ⟨c, grows left right c answered, ?_⟩
      split at found
      · rename_i same
        rw [if_pos same]
        exact ih found
      · rename_i differs
        rwa [if_neg differs]

theorem value_grows {g : Goal} {b : Bool} (found : g.value ask = some b) :
    g.value more = some b := by
  cases g with
  | all steps => exact valueOf_grows grows found
  | any steps => exact valueOf_grows grows found
  | consult script => exact found
  | refuse fault => exact found

end

-- What holds of all steps holds of each.
theorem value_all {ask : Site → Site → Option Bool} {steps : List Step}
    (found : (Goal.all steps).value ask = some true) {left right : Site}
    (member : .compare left right ∈ steps) : ask left right = some true := by
  simp only [value] at found
  induction steps with
  | nil => cases member
  | cons step rest ih =>
    cases step with
    | holds b =>
      have later : .compare left right ∈ rest := by simpa using member
      simp only [valueOf] at found
      split at found
      · exact ih found later
      · rename_i differs
        exact absurd (Option.some.inj found) differs
    | compare x y =>
      simp only [valueOf, Option.bind_eq_some_iff] at found
      obtain ⟨b, answered, found⟩ := found
      have holds : b = true ∧ valueOf true ask rest = some true := by
        split at found
        · rename_i same
          exact ⟨same, found⟩
        · rename_i differs
          exact absurd (Option.some.inj found) differs
      rcases List.mem_cons.mp member with here | later
      · cases here
        rw [answered, holds.1]
      · exact ih holds.2 later

theorem value_stripped (ask : Schema → Schema → Option Bool) (g : Goal) :
    g.stripped.value (fun x y => ask x.schema y.schema) =
      g.value fun x y => ask x.schema.erase y.schema.erase := by
  have loop : ∀ go steps, valueOf go (fun x y => ask x.schema y.schema)
      (steps.map Step.stripped) =
        valueOf go (fun x y => ask x.schema.erase y.schema.erase) steps := by
    intro go steps
    induction steps with
    | nil => rfl
    | cons step rest ih =>
      cases step with
      | holds b => simp only [List.map_cons, Step.stripped, valueOf, ih]
      | compare left right =>
        simp only [List.map_cons, Step.stripped, valueOf, ih, Site.stripped, Site.bare_schema]
  cases g with
  | all steps => exact loop true steps
  | any steps => exact loop false steps
  | refuse fault => rfl
  | consult script =>
    cases outcome : script.outcome? with
    | none => simp [Goal.stripped, outcome, value]
    | some result =>
      cases result with
      | ok b =>
        simp only [Goal.stripped, outcome, value_answer]
        simp [value, outcome, Except.toOption]
      | error fault => simp [Goal.stripped, outcome, value, Except.toOption]

end Goal

-- Templates are expanded; nothing is placed.
def Schema.expanded (s : Schema) : Schema :=
  match s.shape with
  | .template parts => Template.resolve parts
  | _ => s

theorem expanded_template {s : Schema} {parts : List Part} (shape : s.shape = .template parts) :
    s.erase.expanded = Template.resolve parts := by
  simp only [Schema.expanded, erase_shape, shape, Shape.erase, Template.resolve,
    Template.expandParts_erase]

theorem resolved_erase (mark : Nat) (s : Schema) :
    (s.resolved mark).1.erase = s.erase.expanded := by
  rcases template_cases s with ⟨parts, shape⟩ | plain
  · rw [resolved_template shape, place_resolve_erase, expanded_template shape]
  · rw [resolved_self plain]
    unfold Schema.expanded
    rw [erase_shape]
    cases shape : s.shape with
    | template parts => simp [Schema.isTemplate, shape] at plain
    | _ => rfl

-- The answer for two schemas without references, as far as the fuel goes.
def evaluate (settings : Settings) (registry : Registry) : Nat → Schema → Schema → Option Bool
  | 0, _, _ => none
  | fuel + 1, left, right =>
    if registry.knows left.kind ∧ registry.knows right.kind then
      (Rule.goal settings registry 0 (.bare left.expanded) (.bare right.expanded)).value
        fun x y => evaluate settings registry fuel x.schema.erase y.schema.erase
    else none

section
variable {settings : Settings} {registry : Registry}

theorem evaluate_grows {fuel more : Nat} (enough : fuel ≤ more) {left right : Schema} {b : Bool}
    (found : evaluate settings registry fuel left right = some b) :
    evaluate settings registry more left right = some b := by
  induction fuel generalizing more left right b with
  | zero => cases found
  | succ fuel ih =>
    obtain ⟨more, rfl⟩ : ∃ n, more = n + 1 := ⟨more - 1, by omega⟩
    simp only [evaluate] at found ⊢
    split at found
    · rename_i known
      rw [if_pos known]
      have within : fuel ≤ more := Nat.le_of_succ_le_succ enough
      exact Goal.value_grows (fun _ _ _ answered => ih within answered) found
    · cases found

theorem evaluate_unique {fuel more : Nat} {left right : Schema} {b c : Bool}
    (one : evaluate settings registry fuel left right = some b)
    (two : evaluate settings registry more left right = some c) : b = c := by
  have first := evaluate_grows (Nat.le_max_left fuel more) one
  have second := evaluate_grows (Nat.le_max_right fuel more) two
  exact Option.some.inj (first.symm.trans second)

theorem known_of_evaluate {fuel : Nat} {left right : Schema} {b : Bool}
    (found : evaluate settings registry fuel left right = some b) :
    registry.knows left.kind = true ∧ registry.knows right.kind = true := by
  cases fuel with
  | zero => cases found
  | succ fuel =>
    rw [evaluate] at found
    split at found
    · assumption
    · cases found

-- A prepared pair, under any marks and in any scopes.
theorem evaluate_goal (pure : registry.Pure) (fuel mark mark' : Nat) {left right : Site}
    {s t : Schema} (known : registry.knows s.kind ∧ registry.knows t.kind)
    (onLeft : left.schema = (s.resolved mark).1) (onRight : right.schema = (t.resolved mark').1)
    (supply : Nat) :
    evaluate settings registry (fuel + 1) s.erase t.erase =
      (Rule.goal settings registry supply left right).value
        fun x y => evaluate settings registry fuel x.schema.erase y.schema.erase := by
  rw [evaluate, erase_kind, erase_kind, if_pos known, ← resolved_erase mark,
    ← resolved_erase mark', ← onLeft, ← onRight]
  have same := Rule.goal_stripped supply left right pure settings
  have first := Goal.value_stripped (evaluate settings registry fuel)
    (Rule.goal settings registry supply left right)
  rw [same, Goal.value_stripped] at first
  exact first

end

namespace Rule

section
variable {mark : Nat} {left right x y : Site} {key value : Schema}
  (shape : right.schema.shape = .record key value)
include shape

-- Items that are made up weigh no more than what has them, and the values less than the record.
theorem recordRight_lighter
    (asked : .compare x y ∈ (recordRight mark left right key value).steps) :
    x.schema.weight + y.schema.weight < left.schema.weight + right.schema.weight := by
  have inside : value ∈ right.schema.children := by simp [Schema.children, shape]
  have lighter := child_weight inside
  have item : ∀ b, (marked mark (.basic b)).weight ≤ left.schema.weight → .compare x y ∈
      (if key.isNumericKey then Goal.compare (left.to (marked mark (.basic b))) (right.to value)
        else .answer false).steps →
      x.schema.weight + y.schema.weight < left.schema.weight + right.schema.weight := by
    intro b bound asked
    split at asked
    · obtain ⟨rfl, rfl⟩ := compare_mem_compare.mp asked
      exact Nat.add_lt_add_of_le_of_lt bound lighter
    · simp at asked
  cases leftShape : left.schema.shape with
  | basic b =>
    have weight := weight_of_shape leftShape
    cases b <;> simp only [recordRight, leftShape] at asked
    case string | uint8Array =>
      exact item _ (by simp [weight, marked, Schema.weight, Shape.weight]) asked
    all_goals simp at asked
  | literal scalar =>
    have weight := weight_of_shape leftShape
    cases scalar <;> simp only [recordRight, leftShape] at asked
    case text => exact item _ (by simp [weight, marked, Schema.weight, Shape.weight]) asked
    all_goals simp at asked
  | object properties additional =>
    simp only [recordRight, leftShape, Goal.steps, List.mem_append, List.mem_map] at asked
    rcases asked with ⟨⟨name, s⟩, member, same⟩ | extra
    · cases same
      have part := child_weight (property_child leftShape (List.mem_filter.mp member).1)
      exact Nat.add_lt_add part lighter
    · split at extra
      · simp at extra
      · cases additional <;> simp only [additionalStep, List.not_mem_nil, List.mem_singleton,
          Step.compare.injEq] at extra
        obtain ⟨rfl, rfl⟩ := extra
        exact Nat.add_lt_add (child_weight (additional_child leftShape)) lighter
  | _ => simp [recordRight, leftShape] at asked

theorem byKind_record_lighter {registry : Registry}
    (asked : .compare x y ∈ (byKind registry mark left right).steps) :
    x.schema.weight + y.schema.weight < left.schema.weight + right.schema.weight := by
  have inside : value ∈ right.schema.children := by simp [Schema.children, shape]
  have both : ∀ c ∈ left.schema.children,
      c.weight + value.weight < left.schema.weight + right.schema.weight :=
    fun c child => Nat.add_lt_add (child_weight child) (child_weight inside)
  cases leftShape : left.schema.shape with
  | basic b =>
    cases b <;> simp only [byKind, leftShape, primitive, shape] at asked
    case unknown => simp at asked
    case any | never => simp [Goal.steps] at asked
    all_goals exact recordRight_lighter shape asked
  | literal scalar =>
    simp only [byKind, leftShape, literal, shape] at asked
    exact recordRight_lighter shape asked
  | object properties additional =>
    simp only [byKind, leftShape, object, shape] at asked
    exact recordRight_lighter shape asked
  | array items =>
    simp only [byKind, leftShape, array, shape] at asked
    split at asked
    · obtain ⟨rfl, rfl⟩ := compare_mem_compare.mp asked
      exact both items (by simp [Schema.children, leftShape])
    · simp at asked
  | tuple items =>
    simp only [byKind, leftShape, tuple, shape] at asked
    split at asked
    · simp only [Goal.steps, List.mem_map, Step.compare.injEq] at asked
      obtain ⟨s, member, rfl, rfl⟩ := asked
      exact both s (by simpa [Schema.children, leftShape] using member)
    · simp at asked
  | record ours item =>
    simp only [byKind, leftShape, record, shape] at asked
    split at asked
    · obtain ⟨rfl, rfl⟩ := compare_mem_compare.mp asked
      exact both item (by simp [Schema.children, leftShape])
    · simp at asked
  | user kind fields =>
    simp only [byKind, leftShape, user] at asked
    split at asked
    · simp [Goal.steps] at asked
    · simp at asked
  | callable _ _ _ => simp [byKind, leftShape, callable, shape] at asked
  | promise _ => simp [byKind, leftShape, promise, shape] at asked
  | template _ | union _ | intersect _ | reference _ _ =>
    simp [byKind, leftShape, Goal.steps] at asked

end

-- Every comparison that a pair asks for is lighter than the pair.
theorem goal_lighter {settings : Settings} {registry : Registry} {mark : Nat}
    {left right x y : Site}
    (asked : .compare x y ∈ (goal settings registry mark left right).steps) :
    x.schema.weight + y.schema.weight < left.schema.weight + right.schema.weight := by
  cases shape : right.schema.shape with
  | record key value =>
    have part : ∀ c ∈ left.schema.children,
        c.weight + right.schema.weight < left.schema.weight + right.schema.weight :=
      fun c child => Nat.add_lt_add_right (child_weight child) _
    rw [goal_eq] at asked
    split_ifs at asked
    case neg =>
      have apart : right.schema.united? = none ∧ right.schema.intersected? = none := by
        simp [Schema.united?, Schema.intersected?, shape]
      unfold distribute at asked
      cases united : left.schema.united? with
      | some variants =>
        simp only [united, Goal.steps, List.mem_map, Step.compare.injEq] at asked
        obtain ⟨v, member, rfl, rfl⟩ := asked
        exact part v (united_children _ _ united ▸ member)
      | none =>
        cases intersected : left.schema.intersected? with
        | some parts =>
          simp only [united, intersected, apart, Goal.steps, List.mem_map,
            Step.compare.injEq] at asked
          obtain ⟨v, member, rfl, rfl⟩ := asked
          exact part v (intersected_children _ _ intersected ▸ member)
        | none =>
          simp only [united, intersected, apart] at asked
          exact byKind_record_lighter shape asked
    all_goals simp at asked
  | _ => exact (goal_asks asked).lighter (by simp [isNumericRecord, shape])

end Rule

end Assignability
