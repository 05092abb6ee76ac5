import Assignability.Proofs.Languages
import Mathlib.Logic.Relation

namespace Assignability

-- Concatenation of string lists is associative with the empty text as its unit, and one unbounded
-- part makes it unbounded wherever it stands.

namespace Template

-- The strings of some parts, followed by those of others.
def followed (first second : Option (List String)) : Option (List String) :=
  first.bind fun heads => second.map (joinAll heads)

theorem joinAll_assoc (a b c : List String) :
    joinAll (joinAll a b) c = joinAll a (joinAll b c) := by
  simp only [joinAll, List.flatMap_assoc, List.flatMap_map, List.map_flatMap, List.map_map,
    Function.comp_def, String.append_assoc]

theorem joinAll_empty (strings : List String) :
    joinAll [""] strings = strings ∧ joinAll strings [""] = strings := by
  simp [joinAll]

theorem joinAll_texts (s t : String) : joinAll [s] [t] = [s ++ t] := rfl

theorem followed_assoc (a b c : Option (List String)) :
    followed (followed a b) c = followed a (followed b c) := by
  cases a with
  | none => rfl
  | some heads =>
    cases b with
    | none => rfl
    | some middles =>
      cases c with
      | none => rfl
      | some tails => exact congrArg some (joinAll_assoc heads middles tails)

theorem empty_followed (strings : Option (List String)) :
    followed (some [""]) strings = strings := by
  cases strings with
  | none => rfl
  | some tails => exact congrArg some (joinAll_empty tails).1

theorem followed_empty (strings : Option (List String)) :
    followed strings (some [""]) = strings := by
  cases strings with
  | none => rfl
  | some heads => exact congrArg some (joinAll_empty heads).2

def expandPart : Part → Option (List String)
  | .text s => some [s]
  | .schema v => expand v

theorem expandParts_cons (p : Part) (rest : List Part) :
    expandParts (p :: rest) = followed (expandPart p) (expandParts rest) := by
  cases p with
  | text s => rw [expandParts, expandPart, followed, Option.bind_some]
  | schema v =>
    rw [expandParts, expandPart]
    cases expand v <;> rfl

theorem expandParts_append (xs ys : List Part) :
    expandParts (xs ++ ys) = followed (expandParts xs) (expandParts ys) := by
  induction xs with
  | nil => rw [List.nil_append, expandParts, empty_followed]
  | cons p rest ih =>
    rw [List.cons_append, expandParts_cons, ih, expandParts_cons, followed_assoc]

theorem expandParts_one (p : Part) : expandParts [p] = expandPart p := by
  rw [expandParts_cons, expandParts, followed_empty]

-- One stretch of the parts may be exchanged for another that has the same strings.
theorem expandParts_within (xs ys : List Part) {parts parts' : List Part}
    (same : expandParts parts = expandParts parts') :
    expandParts (xs ++ (parts ++ ys)) = expandParts (xs ++ (parts' ++ ys)) := by
  simp only [expandParts_append, same]

theorem expandParts_exchange (xs ys : List Part) {p p' : Part}
    (same : expandPart p = expandPart p') :
    expandParts (xs ++ (p :: ys)) = expandParts (xs ++ (p' :: ys)) := by
  simp only [expandParts_append, expandParts_cons, same]

theorem expand_shape (s : Schema) : expand s = expandShape s.shape := by
  obtain ⟨mark, id, optional, shape⟩ := s
  rw [expand, Schema.shape]

theorem expand_template {s : Schema} {parts : List Part} (shape : s.shape = .template parts) :
    expand s = expandParts parts := by
  rw [expand_shape, shape, expandShape]

theorem expandVariants_within (known : List String) (vs ws : List Schema) {v v' : Schema}
    (same : expand v = expand v') :
    expandVariants known (vs ++ v :: ws) = expandVariants known (vs ++ v' :: ws) := by
  induction vs generalizing known with
  | nil => simp only [List.nil_append, expandVariants, same]
  | cons u rest ih => simp only [List.cons_append, expandVariants, ih]

-- Kinds that a template lists the strings of; any other stands for every string.
def listedKinds : List Kind := [.literal, .boolean, .union, .templateLiteral]

theorem expand_unlisted {s : Schema} (unlisted : s.kind ∉ listedKinds) : expand s = none := by
  rw [expand_shape]
  unfold Schema.kind at unlisted
  cases shape : s.shape with
  | literal value | union variants | template parts =>
    rw [shape] at unlisted
    exact absurd (by simp [listedKinds, Shape.kind]) unlisted
  | basic b =>
    rw [shape] at unlisted
    cases b with
    | boolean => exact absurd (by simp [listedKinds, Shape.kind, Basic.kind]) unlisted
    | _ => rfl
  | _ => rfl

-- Parts before and after one change, at the top or further inside. Identities, ids and whether a
-- schema may be absent do not matter to a template, so those around a change may be others.
inductive Regroups : List Part → List Part → Prop
  | splice (xs ys : List Part) {s : Schema} {inner : List Part} : s.shape = .template inner →
    Regroups (xs ++ (.schema s :: ys)) (xs ++ (inner ++ ys))
  | merge (xs ys : List Part) (s t : String) :
    Regroups (xs ++ (.text s :: .text t :: ys)) (xs ++ (.text (s ++ t) :: ys))
  | drop (xs ys : List Part) : Regroups (xs ++ (.text "" :: ys)) (xs ++ ys)
  | nested (xs ys : List Part) {s s' : Schema} {inner inner' : List Part} :
    s.shape = .template inner → s'.shape = .template inner' → Regroups inner inner' →
    Regroups (xs ++ (.schema s :: ys)) (xs ++ (.schema s' :: ys))
  | variant (xs ys : List Part) (vs ws : List Schema) {s s' v v' : Schema} :
    s.shape = .union (vs ++ v :: ws) → s'.shape = .union (vs ++ v' :: ws) →
    Regroups [.schema v] [.schema v'] →
    Regroups (xs ++ (.schema s :: ys)) (xs ++ (.schema s' :: ys))
  -- What lies inside a schema that stands for every string is never looked at.
  | unlisted (xs ys : List Part) {s s' : Schema} : s.kind = s'.kind → s.kind ∉ listedKinds →
    Regroups (xs ++ (.schema s :: ys)) (xs ++ (.schema s' :: ys))

theorem Regroups.expandParts_eq {parts parts' : List Part} (regroups : Regroups parts parts') :
    expandParts parts = expandParts parts' := by
  induction regroups with
  | @splice xs ys s inner shape =>
    have listed : expandParts [.schema s] = expandParts inner :=
      (expandParts_one _).trans (expand_template shape)
    exact expandParts_within xs ys listed
  | merge xs ys s t =>
    have texts : expandParts [.text s, .text t] = expandParts [.text (s ++ t)] := by
      rw [expandParts_cons, expandParts_one, expandParts_one]
      exact congrArg some (joinAll_texts s t)
    exact expandParts_within xs ys texts
  | drop xs ys =>
    have nothing : expandParts [.text ""] = expandParts [] := expandParts_one _
    exact expandParts_within xs ys nothing
  | nested xs ys shape shape' _ ih =>
    apply expandParts_exchange
    rw [expandPart, expandPart, expand_template shape, expand_template shape', ih]
  | variant xs ys vs ws shape shape' _ ih =>
    rw [expandParts_one, expandParts_one] at ih
    apply expandParts_exchange
    rw [expandPart, expandPart, expand_shape, expand_shape, shape, shape', expandShape, expandShape,
      expandVariants_within [] vs ws ih]
  | unlisted xs ys same unlisted =>
    apply expandParts_exchange
    rw [expandPart, expandPart, expand_unlisted unlisted, expand_unlisted (same ▸ unlisted)]

-- However the parts of a template are grouped, it resolves to the same schema: the same literals in
-- the same order, as often as before, or any string.
theorem resolve_regrouped {parts parts' : List Part}
    (regrouped : Relation.EqvGen Regroups parts parts') : resolve parts = resolve parts' := by
  induction regrouped with
  | rel _ _ regroups => rw [resolve, resolve, regroups.expandParts_eq]
  | refl _ => rfl
  | symm _ _ _ ih => exact ih.symm
  | trans _ _ _ _ _ first second => exact first.trans second

-- An empty text is dropped, a nested template spliced, two texts merged, and a variant regrouped.
-- Two ways of choosing come to the same string.
def orNothing (inner : List Part) : Schema := .plain (.union [word "", .plain (.template inner)])

def groupedParts : List Part :=
  [.text "", .schema (.plain (.template [.text "a", .text "b",
    .schema (orNothing [.text "c", .text ""])])), .schema (orNothing [.text "c"])]

def flatParts : List Part :=
  [.text "ab", .schema (orNothing [.text "c"]), .schema (orNothing [.text "c"])]

theorem groupedParts_regroup : Relation.EqvGen Regroups groupedParts flatParts := by
  let last : Part := .schema (orNothing [.text "c"])
  let middle : Part := .schema (orNothing [.text "c", .text ""])
  let group : Schema := .plain (.template [.text "a", .text "b", middle])
  have first : Regroups groupedParts [.schema group, last] := .drop [] [.schema group, last]
  have second : Regroups [.schema group, last] [.text "a", .text "b", middle, last] :=
    @Regroups.splice [] [last] group [.text "a", .text "b", middle] rfl
  have third : Regroups [.text "a", .text "b", middle, last] [.text "ab", middle, last] :=
    .merge [] [middle, last] "a" "b"
  have inside : Regroups [.schema (.plain (.template [.text "c", .text ""]))]
      [.schema (.plain (.template [.text "c"]))] := .nested [] [] rfl rfl (.drop [.text "c"] [])
  have fourth : Regroups [.text "ab", middle, last] flatParts :=
    .variant [.text "ab"] [last] [word ""] [] rfl rfl inside
  exact .trans _ _ _ (.rel _ _ first) (.trans _ _ _ (.rel _ _ second)
    (.trans _ _ _ (.rel _ _ third) (.rel _ _ fourth)))

theorem groupedParts_resolve_alike : Relation.EqvGen Regroups groupedParts flatParts ∧
    resolve groupedParts = resolve flatParts ∧
    resolve flatParts = .plain (.union (["ab", "abc", "abc", "abcc"].map word)) :=
  ⟨groupedParts_regroup, resolve_regrouped groupedParts_regroup, rfl⟩

end Template

end Assignability
