import Assignability.Proofs.Languages

namespace Assignability

-- Different ways of choosing one string for each part may come to the same string, but never all of
-- them, unless there is only one.

namespace Template

-- How many ways there are to choose one string from each list.
def ways : List (List String) → Nat
  | [] => 1
  | strings :: rest => strings.length * ways rest

-- The string that the n-th way comes to. Counting on, the last list is gone through first, and the
-- first list once in all.
def way : List (List String) → Nat → String
  | [], _ => ""
  | strings :: rest, n => strings.getD (n / ways rest) "" ++ way rest (n % ways rest)

def arranged (lists : List (List String)) : List String :=
  (List.range (ways lists)).map (way lists)

end Template

mutual

-- The strings that a schema offers inside a template.
def Schema.choices : Schema → List String
  | .mk _ _ _ shape => shape.choices

def Shape.choices : Shape → List String
  | .literal value => [value.interpolated]
  | .basic .boolean => ["true", "false"]
  | .union variants => (Schema.choicesOfEach variants).flatten.eraseDups
  | .template parts => Template.arranged (Part.choicesOfEach parts)
  | _ => []

def Schema.choicesOfEach : List Schema → List (List String)
  | [] => []
  | v :: vs => v.choices :: Schema.choicesOfEach vs

def Part.choicesOfEach : List Part → List (List String)
  | [] => []
  | .text s :: rest => [s] :: Part.choicesOfEach rest
  | .schema v :: rest => v.choices :: Part.choicesOfEach rest

end

namespace Template

-- The strings of a template that is not unbounded.
def choices (parts : List Part) : List String := arranged (Part.choicesOfEach parts)

theorem ways_cons (strings : List String) (rest : List (List String)) :
    ways (strings :: rest) = strings.length * ways rest := rfl

-- A further list in front is gone through in steps of what the others take.
theorem arranged_cons (strings : List String) (rest : List (List String)) :
    arranged (strings :: rest) = joinAll strings (arranged rest) := by
  induction strings with
  | nil => simp [arranged, ways_cons, joinAll]
  | cons first others ih =>
    have count : ways ((first :: others) :: rest) = ways rest + ways (others :: rest) := by
      rw [ways_cons, ways_cons, List.length_cons, Nat.succ_mul, Nat.add_comm]
    have early : (List.range (ways rest)).map (way ((first :: others) :: rest)) =
        (arranged rest).map (first ++ ·) := by
      rw [arranged, List.map_map]
      apply List.map_congr_left
      intro n listed
      have small : n < ways rest := List.mem_range.mp listed
      simp [way, Nat.div_eq_of_lt small, Nat.mod_eq_of_lt small]
    have late : (List.range (ways (others :: rest))).map
        (way ((first :: others) :: rest) ∘ (ways rest + ·)) = arranged (others :: rest) := by
      apply List.map_congr_left
      intro n listed
      have positive : 0 < ways rest := by
        apply Nat.pos_of_ne_zero
        intro zero
        rw [ways_cons, zero] at listed
        simp at listed
      simp [way, Nat.add_div_left n positive]
    rw [arranged, count, List.range_add, List.map_append, early, List.map_map, late, ih]
    rfl

-- What is known already, each at its first place, and then what is new.
theorem addNew_eraseDups (known strings : List String) :
    addNew known.eraseDups strings = (known ++ strings).eraseDups := by
  induction strings generalizing known with
  | nil => simp [addNew]
  | cons s rest ih =>
    have added : (if known.eraseDups.contains s then known.eraseDups
        else known.eraseDups ++ [s]) = (known ++ [s]).eraseDups := by
      by_cases held : s ∈ known <;>
        simp [List.eraseDups_append, List.removeAll, held, List.eraseDups_cons]
    rw [addNew, added, ih, List.append_assoc, List.singleton_append]

mutual

-- Expansion lists the choices in their order, as often as they come up.
theorem expand_choices : ∀ (s : Schema) {strings : List String}, expand s = some strings →
    strings = s.choices
  | .mk _ _ _ shape, strings, expanded => by
    rw [expand] at expanded
    rw [Schema.choices]
    exact expandShape_choices shape expanded

theorem expandShape_choices : ∀ (shape : Shape) {strings : List String},
    expandShape shape = some strings → strings = shape.choices
  | .literal value, strings, expanded => by
    cases expanded
    rfl
  | .basic b, strings, expanded => by
    cases b <;> cases expanded
    rfl
  | .union variants, strings, expanded => by
    rw [expandShape, ← List.eraseDups_nil] at expanded
    exact expandVariants_choices [] variants expanded
  | .template parts, strings, expanded => by
    rw [expandShape] at expanded
    rw [Shape.choices]
    exact expandParts_choices parts expanded
  | .callable _ _ _, _, expanded | .promise _, _, expanded | .array _, _, expanded
  | .tuple _, _, expanded | .object _ _, _, expanded | .record _ _, _, expanded
  | .intersect _, _, expanded | .reference _ _, _, expanded | .user _ _, _, expanded => by
    cases expanded

theorem expandVariants_choices : ∀ (known : List String) (variants : List Schema)
    {strings : List String}, expandVariants known.eraseDups variants = some strings →
    strings = (known ++ (Schema.choicesOfEach variants).flatten).eraseDups
  | known, [], strings, expanded => by
    cases expanded
    simp [Schema.choicesOfEach]
  | known, v :: vs, strings, expanded => by
    rw [expandVariants] at expanded
    cases here : expand v with
    | none => simp [here] at expanded
    | some new =>
      simp only [here, addNew_eraseDups] at expanded
      have later := expandVariants_choices (known ++ new) vs expanded
      rw [later, expand_choices v here, Schema.choicesOfEach, List.flatten_cons, List.append_assoc]

theorem expandParts_choices : ∀ (parts : List Part) {strings : List String},
    expandParts parts = some strings → strings = choices parts
  | [], strings, expanded => by
    cases expanded
    rfl
  | .text s :: rest, strings, expanded => by
    rw [expandParts] at expanded
    obtain ⟨tails, later, rfl⟩ := Option.map_eq_some_iff.mp expanded
    rw [choices, Part.choicesOfEach, arranged_cons, expandParts_choices rest later, choices]
  | .schema v :: rest, strings, expanded => by
    rw [expandParts] at expanded
    cases here : expand v with
    | none => simp [here] at expanded
    | some heads =>
      simp only [here] at expanded
      obtain ⟨tails, later, rfl⟩ := Option.map_eq_some_iff.mp expanded
      rw [choices, Part.choicesOfEach, arranged_cons, expandParts_choices rest later,
        expand_choices v here, choices]

end

-- Strings that are not all the same, unless there is only one.
def Spread (strings : List String) : Prop := ∀ x, (∀ y ∈ strings, y = x) → strings.length ≤ 1

theorem spread_nil : Spread [] := fun _ _ => Nat.zero_le _

theorem spread_one (x : String) : Spread [x] := fun _ _ => Nat.le_refl _

theorem spread_eraseDups (strings : List String) : Spread strings.eraseDups := by
  intro x same
  cases strings with
  | nil => simp
  | cons first rest =>
    rw [List.eraseDups_cons] at same ⊢
    have others : (rest.filter fun y => !y == first).eraseDups = [] := by
      rw [List.eq_nil_iff_forall_not_mem]
      intro y listed
      have differs : y ≠ first := by
        rw [List.mem_eraseDups, List.mem_filter] at listed
        simpa using listed.2
      apply differs
      rw [same y (List.mem_cons_of_mem _ listed), same first List.mem_cons_self]
    simp [others]

theorem length_joinAll (heads tails : List String) :
    (joinAll heads tails).length = heads.length * tails.length := by
  simp [joinAll, List.length_flatMap]

-- What differs in one part differs in the whole, whatever stands in the other parts.
theorem Spread.joinAll {heads tails : List String} (first : Spread heads) (second : Spread tails) :
    Spread (joinAll heads tails) := by
  intro x same
  have whole : ∀ head ∈ heads, ∀ tail ∈ tails, head ++ tail = x := by
    intro head listed tail listed'
    exact same _ (mem_joinAll.mpr ⟨head, listed, tail, listed', rfl⟩)
  rw [length_joinAll]
  cases heads with
  | nil => simp
  | cons head others =>
    cases tails with
    | nil => simp
    | cons tail others' =>
      have one : (head :: others).length ≤ 1 := by
        apply first head
        intro y listed
        have here := whole head List.mem_cons_self tail List.mem_cons_self
        rw [← whole y listed tail List.mem_cons_self] at here
        exact ((String.append_left_inj tail).mp here).symm
      have one' : (tail :: others').length ≤ 1 := by
        apply second tail
        intro y listed
        have here := whole head List.mem_cons_self tail List.mem_cons_self
        rw [← whole head List.mem_cons_self y listed] at here
        exact ((String.append_right_inj head).mp here).symm
      exact Nat.mul_le_mul one one'

mutual

theorem choices_spread : ∀ s : Schema, Spread s.choices
  | .mk _ _ _ shape => by
    rw [Schema.choices]
    exact shapeChoices_spread shape

theorem shapeChoices_spread : ∀ shape : Shape, Spread shape.choices
  | .literal value => spread_one _
  | .basic b => by
    cases b with
    | boolean =>
      intro x same
      have differ : "true" = "false" := by
        rw [same "true" (by simp [Shape.choices]), same "false" (by simp [Shape.choices])]
      simp at differ
    | _ => exact spread_nil
  | .union variants => by
    rw [Shape.choices]
    exact spread_eraseDups _
  | .template parts => by
    rw [Shape.choices]
    exact partChoices_spread parts
  | .callable _ _ _ | .promise _ | .array _ | .tuple _ | .object _ _ | .record _ _
  | .intersect _ | .reference _ _ | .user _ _ => spread_nil

theorem partChoices_spread : ∀ parts : List Part, Spread (choices parts)
  | [] => spread_one ""
  | .text s :: rest => by
    rw [choices, Part.choicesOfEach, arranged_cons]
    exact (spread_one s).joinAll (partChoices_spread rest)
  | .schema v :: rest => by
    rw [choices, Part.choicesOfEach, arranged_cons]
    exact (choices_spread v).joinAll (partChoices_spread rest)

end

theorem Spread.single_iff {strings : List String} (spread : Spread strings) :
    strings.length = 1 ↔ ∃! x, x ∈ strings := by
  constructor
  · intro one
    obtain ⟨x, rfl⟩ := List.length_eq_one_iff.mp one
    exact ⟨x, List.mem_singleton_self x, fun y listed => List.mem_singleton.mp listed⟩
  · rintro ⟨x, listed, only⟩
    have most := spread x only
    have least := List.length_pos_of_mem listed
    omega

-- What a template resolves to, by what its strings are.
theorem resolve_cases (parts : List Part) :
    (Unbounded parts ∧ resolve parts = .basic .string) ∨
    ¬Unbounded parts ∧ (∀ x, x ∈ choices parts ↔ Renders parts x) ∧
      ((∃ x, choices parts = [x] ∧ resolve parts = word x) ∨
        (choices parts).length ≠ 1 ∧
          resolve parts = .plain (.union ((choices parts).map word))) := by
  obtain ⟨none_iff, mem_iff⟩ := expandParts_lists parts
  unfold resolve
  cases expanded : expandParts parts with
  | none => exact .inl ⟨none_iff.mp expanded, rfl⟩
  | some strings =>
    have bounded : ¬Unbounded parts := by
      rw [← none_iff, expanded]
      simp
    have listed := expandParts_choices parts expanded
    rw [← listed]
    refine .inr ⟨bounded, mem_iff strings expanded, ?_⟩
    rcases strings with _ | ⟨x, _ | ⟨y, rest⟩⟩
    · exact .inr ⟨by simp, rfl⟩
    · exact .inl ⟨x, rfl, rfl⟩
    · exact .inr ⟨by simp, rfl⟩

-- Expansion is exact. A template is any string if some part is; otherwise its strings are those
-- that come from one choice for each part, in the order of the choices. It is one literal if there
-- is one such string, and a union of none or of several, though these may be listed repeatedly.
theorem resolve_as_choices (parts : List Part) :
    ((resolve parts).kind = .string ↔ Unbounded parts) ∧
    (¬Unbounded parts → (∀ x, x ∈ choices parts ↔ Renders parts x) ∧
      (∀ x, choices parts = [x] → resolve parts = word x) ∧
      ((choices parts).length ≠ 1 →
        resolve parts = .plain (.union ((choices parts).map word)))) ∧
    ((resolve parts).kind = .literal ↔ ¬Unbounded parts ∧ ∃! x, Renders parts x) ∧
    ((resolve parts).kind = .union → (∀ x, ¬Renders parts x) ∨
      ∃ x y, x ≠ y ∧ Renders parts x ∧ Renders parts y) := by
  have single := (partChoices_spread parts).single_iff
  rcases resolve_cases parts with ⟨unbounded, string⟩ | ⟨bounded, listed, literal | union⟩
  · rw [string]
    refine ⟨iff_of_true rfl unbounded, fun bounded => absurd unbounded bounded, ?_, ?_⟩
    · exact iff_of_false (by decide) fun both => both.1 unbounded
    · exact fun union => by cases union
  · obtain ⟨x, one, literal⟩ := literal
    simp only [listed] at single
    have unique := single.mp (by rw [one]; rfl)
    rw [literal]
    refine ⟨iff_of_false (fun string => by cases string) bounded, fun _ => ⟨listed, ?_, ?_⟩, ?_, ?_⟩
    · intro y same
      cases one.symm.trans same
      rfl
    · exact fun several => absurd (by rw [one]; rfl) several
    · exact iff_of_true rfl ⟨bounded, unique⟩
    · exact fun union => by cases union
  · obtain ⟨several, union⟩ := union
    simp only [listed] at single
    rw [union]
    refine ⟨iff_of_false (fun string => by cases string) bounded, fun _ => ⟨listed, ?_, ?_⟩, ?_, ?_⟩
    · exact fun x same => absurd (by rw [same]; rfl) several
    · exact fun _ => rfl
    · exact iff_of_false (fun literal => by cases literal) fun both => several (single.mpr both.2)
    · intro _
      by_cases inhabited : ∃ x, Renders parts x
      · obtain ⟨x, renders⟩ := inhabited
        refine .inr (Classical.byContradiction fun same => several (single.mpr ⟨x, renders, ?_⟩))
        intro y renders'
        refine Classical.byContradiction fun differs => same ⟨y, x, differs, renders', renders⟩
      · exact .inl (not_exists.mp inhabited)

-- Two ways of choosing come to the same string and are both listed; the variant that stands twice
-- in one union is listed once.
def overlapping : List Part :=
  [.schema (.plain (.union [.plain (.literal (.text "a")), .plain (.literal (.text "aa"))])),
    .schema (.plain (.template [.text "", .schema (.plain (.union
      [.plain (.literal (.text "a")), .plain (.literal (.text "aa")),
        .plain (.literal (.text "a"))]))]))]

theorem overlapping_resolves :
    resolve overlapping = .plain (.union (["aa", "aaa", "aaa", "aaaa"].map word)) ∧
      ¬Unbounded overlapping ∧
      ∃ x y, x ≠ y ∧ Renders overlapping x ∧ Renders overlapping y := by
  have listed : choices overlapping = ["aa", "aaa", "aaa", "aaaa"] := by decide
  obtain ⟨string, listing, -, several⟩ := resolve_as_choices overlapping
  have bounded : ¬Unbounded overlapping := by
    rw [← string]
    decide
  have union : resolve overlapping = .plain (.union ((choices overlapping).map word)) :=
    (listing bounded).2.2 (by rw [listed]; decide)
  refine ⟨listed ▸ union, bounded, ?_⟩
  rcases several (by rw [union]; rfl) with empty | two
  · exact absurd (((listing bounded).1 "aa").mp (by rw [listed]; simp)) (empty "aa")
  · exact two

end Template

end Assignability
