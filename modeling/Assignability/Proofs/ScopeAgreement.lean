import Assignability.Proofs.Copies

namespace Assignability

-- A query looks into its scopes only through the references that it meets.

def Schema.target? (s : Schema) : Option Value :=
  match s.shape with
  | .reference _ target => some target
  | _ => none

-- The targets of the references among some schemas.
def Schema.targets (ground : List Schema) : List Value := ground.filterMap Schema.target?

theorem Schema.mem_targets {ground : List Schema} {s : Schema} {form : ReferenceForm}
    {target : Value} (member : s ∈ ground) (shape : s.shape = .reference form target) :
    target ∈ Schema.targets ground :=
  List.mem_filterMap.mpr ⟨s, member, by simp [Schema.target?, shape]⟩

theorem Scope.resolve_erase {scope : Scope} {target target' : Value}
    (same : target.erase = target'.erase) : scope.resolve? target = scope.resolve? target' := by
  unfold Scope.resolve?
  congr 1
  funext e
  exact Value.equal_congr rfl same

-- Schemas mirror themselves, and so do copies of what was made up.
theorem remarked_mirroring {ground : List Schema}
    (closed : ∀ s ∈ ground, ∀ c ∈ s.children, c ∈ ground) :
    Mirroring (· ∈ (Schema.targets ground).map Value.erase)
      fun s t => Remarked s t ∧ (s ∈ ground ∨ s.Anonymous) where
  id same := erase_mirroring.id same.1.erase
  optional same := same.1.optional
  shape := by
    rintro s t ⟨remarked, origin⟩
    refine remarked.like.refine fun c inside _ _ same => ⟨same, ?_⟩
    rcases origin with member | anonymous
    · exact .inl (closed s member c inside)
    · exact .inr (anonymous.child inside)
  target := by
    rintro s t form form' target target' ⟨remarked, origin⟩ shape shape'
    refine ⟨?_, (erase_mirroring.target remarked.erase shape shape').2⟩
    rcases origin with member | anonymous
    · exact List.mem_map_of_mem (Schema.mem_targets member shape)
    · exact absurd anonymous.concrete (Scope.not_reference shape)
  expanded := by
    rintro s t parts parts' ⟨remarked, -⟩ shape shape' mark mark'
    refine ⟨?_, .inr (.of_template shape mark)⟩
    exact .inr ⟨.of_template shape mark, erase_mirroring.expanded remarked.erase shape shape' _ _⟩
  basic mark mark' b := ⟨.inr ⟨.of_basic mark b, rfl⟩, .inr (.of_basic mark b)⟩
  members mark mark' := by
    have made : ∀ m ∈ Rule.members mark, m.Anonymous := fun m => .of_members
    simp only [Rule.members, List.forall_mem_cons] at made
    obtain ⟨length, description, andThen, -⟩ := made
    exact .cons ⟨.inr ⟨length, rfl⟩, .inr length⟩ (.cons ⟨.inr ⟨description, rfl⟩, .inr description⟩
      (.cons ⟨.inr ⟨andThen, rfl⟩, .inr andThen⟩ .nil))

-- Scopes that find the same for the references among some schemas.
theorem Scope.mirrors_of_agree {ground : List Schema} {scope scope' : Scope}
    (entries : ∀ e ∈ scope, e ∈ ground)
    (agree : ∀ target ∈ Schema.targets ground,
      scope.resolve? target = scope'.resolve? target) :
    scope.Mirrors (· ∈ (Schema.targets ground).map Value.erase)
      (fun s t => Remarked s t ∧ (s ∈ ground ∨ s.Anonymous)) scope' := by
  intro target target' occurs equal
  obtain ⟨original, listed, same⟩ := List.mem_map.mp occurs
  have found : scope'.resolve? target' = scope.resolve? target := by
    rw [resolve_erase same.symm, agree original listed]
    exact resolve_erase (equal.symm.trans same.symm)
  rw [found]
  cases first : scope.resolve? target with
  | none => exact .none
  | some n => exact .some ⟨.refl n, .inl (entries n (resolve_mem first))⟩

namespace Engine

-- Only what the references of a query find in its scopes matters: not the order of entries, not
-- those that come too late to be found, and not those that nobody looks for.
theorem scopes_answer_alike {w w' : World} {left right : Schema}
    {leftScope rightScope leftScope' rightScope' : Scope} {b b' : Bool}
    (one : Answered w left right leftScope rightScope b)
    (two : Answered w' left right leftScope' rightScope' b')
    (anyLeft : w'.engine.settings.anyLeftResult = w.engine.settings.anyLeftResult)
    (cycle : w'.engine.settings.cycleResult = w.engine.settings.cycleResult)
    (kinds : w'.registry.SameKinds w.registry)
    (agree : ∀ target ∈
        Schema.targets ((left :: right :: (leftScope ++ rightScope)).flatMap Schema.parts),
      leftScope.resolve? target = leftScope'.resolve? target ∧
        rightScope.resolve? target = rightScope'.resolve? target) : b = b' := by
  have inside : ∀ t ∈ left :: right :: (leftScope ++ rightScope),
      t ∈ (left :: right :: (leftScope ++ rightScope)).flatMap Schema.parts :=
    fun t root => List.mem_flatMap.mpr ⟨t, root, self_mem_parts t⟩
  have closed : ∀ s ∈ (left :: right :: (leftScope ++ rightScope)).flatMap Schema.parts,
      ∀ c ∈ s.children, c ∈ (left :: right :: (leftScope ++ rightScope)).flatMap Schema.parts :=
    one.placed.coherent.children
  apply one.mirrors_in_scopes (remarked_mirroring closed) two anyLeft cycle kinds
  · exact ⟨.refl left, .inl (inside left (by simp))⟩
  · exact ⟨.refl right, .inl (inside right (by simp))⟩
  · exact Scope.mirrors_of_agree (fun e entry => inside e (by simp [entry]))
      fun target occurs => (agree target occurs).1
  · exact Scope.mirrors_of_agree (fun e entry => inside e (by simp [entry]))
      fun target occurs => (agree target occurs).2

-- Two entries that refer to each other.
def mutualPair : Schema :=
  .plain (.tuple [.plain (.reference .ref (.text "one")),
    .plain (.reference .this (.text "other"))])

def entryA : Schema :=
  .mk 0 (.text "one") false (.tuple [.plain (.reference .ref (.text "other"))])

def entryB : Schema :=
  .mk 0 (.text "other") false (.array (.plain (.reference .ref (.text "one"))))

def hiddenB : Schema := .mk 0 (.text "other") false (.basic .number)

def notAsked : Schema := .mk 0 (.text "unused") false (.basic .string)

-- The entries change places, another entry of one id stands behind the first, and one is never
-- asked for.
theorem mutualPair_in_other_scopes :
    (query (compareSchemas 6 (mutualPair.place 7).1 (mutualPair.place 7).1
      [(entryA.place 3).1, (entryB.place 5).1] [(entryB.place 5).1, (entryA.place 3).1])
      { supply := 10 }).1.toOption = some true ∧
    ∀ depth b, (query (compareSchemas depth (mutualPair.place 7).1 (mutualPair.place 7).1
      [(notAsked.place 1).1, (entryB.place 5).1, (hiddenB.place 2).1, (entryA.place 3).1]
      [(entryA.place 3).1, (entryB.place 5).1, (notAsked.place 1).1])
      { supply := 10, engine := { settings := { memoize := false } } }).1 = .ok b → b = true := by
  have placed : Placed 10 [(mutualPair.place 7).1, (entryB.place 5).1, (entryA.place 3).1,
      (hiddenB.place 2).1, (notAsked.place 1).1] :=
    (((@Placed.two 1 notAsked hiddenB (by decide) (by decide)).placeNew entryA
      (by decide)).placeNew entryB (by decide)).placeNew mutualPair (by decide)
  have first : (query (compareSchemas 6 (mutualPair.place 7).1 (mutualPair.place 7).1
      [(entryA.place 3).1, (entryB.place 5).1] [(entryB.place 5).1, (entryA.place 3).1])
      { supply := 10 }).1.toOption = some true := by decide +kernel
  refine ⟨first, fun depth b returned => ?_⟩
  have one : Answered { supply := 10 } (mutualPair.place 7).1 (mutualPair.place 7).1
      [(entryA.place 3).1, (entryB.place 5).1] [(entryB.place 5).1, (entryA.place 3).1] true :=
    ⟨placed.subset (by simp), fun _ _ _ _ => rfl, rfl, 6, ok_of_toOption first⟩
  have two : Answered { supply := 10, engine := { settings := { memoize := false } } }
      (mutualPair.place 7).1 (mutualPair.place 7).1
      [(notAsked.place 1).1, (entryB.place 5).1, (hiddenB.place 2).1, (entryA.place 3).1]
      [(entryA.place 3).1, (entryB.place 5).1, (notAsked.place 1).1] b :=
    ⟨placed.subset (by simp), fun _ _ _ _ => rfl, rfl, depth, returned⟩
  refine (scopes_answer_alike one two rfl rfl (fun _ => rfl) ?_).symm
  have targets : Schema.targets (((mutualPair.place 7).1 :: (mutualPair.place 7).1 ::
      ([(entryA.place 3).1, (entryB.place 5).1] ++
        [(entryB.place 5).1, (entryA.place 3).1])).flatMap Schema.parts) =
        [.text "one", .text "other", .text "one", .text "other",
          .text "other", .text "one", .text "one", .text "other"] := rfl
  intro target occurs
  have either : target = .text "one" ∨ target = .text "other" := by
    simp only [targets, List.mem_cons, List.not_mem_nil, or_false] at occurs
    tauto
  rcases either with rfl | rfl <;> exact ⟨rfl, rfl⟩

end Engine

end Assignability
