import Assignability.Proofs.Mirroring

namespace Assignability

-- Marks decide which pairs are recognised, which schemas enter a scope and where a chain of
-- references is given up, but not what is answered.

namespace Template

mutual

theorem expand_erase : ∀ s : Schema, expand s.erase = expand s
  | .mk _ _ _ shape => by rw [Schema.erase, expand, expand, expandShape_erase shape]

theorem expandShape_erase : ∀ shape : Shape, expandShape shape.erase = expandShape shape
  | .union variants => by
    rw [Shape.erase, expandShape, expandShape, expandVariants_erase [] variants]
  | .template parts => by rw [Shape.erase, expandShape, expandShape, expandParts_erase parts]
  | .basic b => rfl
  | .literal value => rfl
  | .callable _ _ _ | .promise _ | .array _ | .tuple _ | .object _ _ | .record _ _ | .intersect _
  | .reference _ _ | .user _ _ => by simp only [Shape.erase, expandShape]

theorem expandVariants_erase : ∀ (known : List String) (variants : List Schema),
    expandVariants known (Schema.eraseAll variants) = expandVariants known variants
  | _, [] => rfl
  | known, v :: vs => by
    rw [Schema.eraseAll, expandVariants, expandVariants, expand_erase v]
    cases expand v with
    | none => rfl
    | some strings => exact expandVariants_erase (addNew known strings) vs

theorem expandParts_erase : ∀ parts : List Part,
    expandParts (Part.eraseAll parts) = expandParts parts
  | [] => rfl
  | .text s :: rest => by rw [Part.eraseAll, expandParts, expandParts, expandParts_erase rest]
  | .schema v :: rest => by
    rw [Part.eraseAll, expandParts, expandParts, expand_erase v, expandParts_erase rest]

end

theorem resolve_congr {parts parts' : List Part}
    (same : Part.eraseAll parts = Part.eraseAll parts') :
    resolve parts = resolve parts' := by
  unfold resolve
  rw [← expandParts_erase parts, same, expandParts_erase]

end Template

theorem erase_id (s : Schema) : s.erase.id = s.id.erase := by
  cases s
  simp [Schema.erase, Schema.id]

theorem erase_shape (s : Schema) : s.erase.shape = s.shape.erase := by
  cases s
  simp [Schema.erase, Schema.shape]

-- Schemas that differ in their marks only mirror each other.
theorem erase_mirroring : Mirroring (fun _ => True) fun s t => s.erase = t.erase where
  id same := by rw [← erase_id, same, erase_id]
  optional same := by rw [← erase_optional, same, erase_optional]
  shape same := like_of_erase same
  target := by
    intro s t form form' target target' same shape shape'
    have shapes := congrArg Schema.shape same
    rw [erase_shape, erase_shape, shape, shape', Shape.erase, Shape.erase] at shapes
    exact ⟨trivial, (Shape.reference.inj shapes).2⟩
  expanded := by
    intro s t parts parts' same shape shape' mark mark'
    have shapes := congrArg Schema.shape same
    rw [erase_shape, erase_shape, shape, shape', Shape.erase, Shape.erase] at shapes
    have strings := Template.resolve_congr (Shape.template.inj shapes)
    rw [resolved_template shape, resolved_template shape', place_resolve_erase,
      place_resolve_erase, strings]
  basic _ _ _ := rfl
  members _ _ := .cons rfl (.cons rfl (.cons rfl .nil))

namespace Engine

-- Two queries whose schemas and scopes are built alike come to the same answer, whatever is shared
-- in them and whether finished pairs are remembered. Literals that are not a number keep their
-- occurrence in copies.
theorem copies_answer_alike {w w' : World} {left right left' right' : Schema}
    {leftScope rightScope leftScope' rightScope' : Scope} {b b' : Bool}
    (one : Answered w left right leftScope rightScope b)
    (two : Answered w' left' right' leftScope' rightScope' b')
    (anyLeft : w'.engine.settings.anyLeftResult = w.engine.settings.anyLeftResult)
    (cycle : w'.engine.settings.cycleResult = w.engine.settings.cycleResult)
    (kinds : w'.registry.SameKinds w.registry) (onLeft : left.erase = left'.erase)
    (onRight : right.erase = right'.erase)
    (leftScopes : leftScope.map Schema.erase = leftScope'.map Schema.erase)
    (rightScopes : rightScope.map Schema.erase = rightScope'.map Schema.erase) : b = b' := by
  rw [← eraseAll_eq, ← eraseAll_eq] at leftScopes rightScopes
  exact one.mirrors erase_mirroring two anyLeft cycle kinds onLeft onRight
    (eraseAll_forall₂ leftScopes) (eraseAll_forall₂ rightScopes)

-- Refers to itself and to an entry, and has a template, for which a schema is made up.
def tree : Schema :=
  .mk 0 (.int 1) false (.union
    [.plain (.object [("left", .plain (.reference .this (.int 1))),
        ("right", .plain (.reference .ref (.int 2)))] .null),
      .plain (.template [.text "leaf", .schema (.basic .boolean)])])

def backEntry : Schema := .mk 0 (.int 2) false (.array (.plain (.reference .ref (.int 1))))

def twice (s : Schema) : Schema := .plain (.tuple [s, s])

theorem twice_parts {a t : Schema} (part : t ∈ (twice a).parts) : t = twice a ∨ t ∈ a.parts := by
  rw [parts_eq] at part
  simpa [twice, Schema.plain, Schema.children, Schema.shape] using part

-- One schema that is used four times on the one hand, four copies on the other.
theorem shared_and_copied_alike :
    (query (compareSchemas 8 ((twice (tree.place 3).1).place 9).1
      ((twice (tree.place 3).1).place 9).1 [(backEntry.place 1).1] [(backEntry.place 1).1])
      { supply := 10 }).1.toOption = some true ∧
    ∀ depth b, (query (compareSchemas depth ((twice tree).place 18).1 ((twice tree).place 5).1
      [(backEntry.place 3).1] [(backEntry.place 1).1])
      { supply := 31, engine := { settings := { memoize := false } } }).1 = .ok b → b = true := by
  have apart : Placed 9 [(tree.place 3).1, (backEntry.place 1).1] :=
    @Placed.two 1 backEntry tree (by decide) (by decide)
  have inside : ∀ t ∈ (twice (tree.place 3).1).parts, t.mark ≠ 0 →
      t ∈ [(tree.place 3).1, (backEntry.place 1).1].flatMap Schema.parts := by
    intro t part marked
    rcases twice_parts part with rfl | earlier
    · exact absurd rfl marked
    · exact List.mem_flatMap.mpr ⟨_, List.mem_cons_self, earlier⟩
  have shared : Placed 10 [((twice (tree.place 3).1).place 9).1, (tree.place 3).1,
    (backEntry.place 1).1] := apart.place inside
  have copied : Placed 31 [((twice tree).place 18).1, ((twice tree).place 5).1,
      (backEntry.place 3).1, (backEntry.place 1).1] :=
    ((@Placed.two 1 backEntry backEntry (by decide) (by decide)).placeNew (twice tree)
      (by decide)).placeNew (twice tree) (by decide)
  have first : (query (compareSchemas 8 ((twice (tree.place 3).1).place 9).1
      ((twice (tree.place 3).1).place 9).1 [(backEntry.place 1).1] [(backEntry.place 1).1])
      { supply := 10 }).1.toOption = some true := by decide +kernel
  refine ⟨first, fun depth b returned => ?_⟩
  have one : Answered { supply := 10 } ((twice (tree.place 3).1).place 9).1
      ((twice (tree.place 3).1).place 9).1 [(backEntry.place 1).1] [(backEntry.place 1).1] true :=
    ⟨shared.subset (by simp), fun _ _ _ _ => rfl, rfl, 8, ok_of_toOption first⟩
  have two : Answered { supply := 31, engine := { settings := { memoize := false } } }
      ((twice tree).place 18).1 ((twice tree).place 5).1 [(backEntry.place 3).1]
      [(backEntry.place 1).1] b :=
    ⟨copied.subset (by simp), fun _ _ _ _ => rfl, rfl, depth, returned⟩
  exact (copies_answer_alike one two rfl rfl (fun _ => rfl) rfl rfl rfl rfl).symm

end Engine

end Assignability
