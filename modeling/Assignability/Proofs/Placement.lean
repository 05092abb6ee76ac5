import Assignability.Proofs.Marks

namespace Assignability

-- Whoever hands schemas to an engine places them first, so `Placed` holds of all that a session
-- ever compares.

theorem Scalar.place_le (n : Nat) (s : Scalar) : n ≤ (s.place n).2 := by
  unfold Scalar.place
  split <;> simp

mutual

theorem Value.place_le (n : Nat) : ∀ v : Value, n ≤ (v.place n).2
  | .null => Nat.le_refl _
  | .scalar s => s.place_le n
  | .list vs => Value.placeAll_le n vs
  | .tuple vs => Value.placeAll_le n vs
  | .table es => Value.placeEntries_le n es
  | .schema s => Schema.place_le n s

theorem Value.placeAll_le (n : Nat) : ∀ vs : List Value, n ≤ (Value.placeAll n vs).2
  | [] => Nat.le_refl _
  | v :: vs => Nat.le_trans (Value.place_le n v) (Value.placeAll_le _ vs)

theorem Value.placeEntries_le (n : Nat) :
    ∀ es : List (Value × Value), n ≤ (Value.placeEntries n es).2
  | [] => Nat.le_refl _
  | (k, v) :: es =>
    Nat.le_trans (Value.place_le n k)
      (Nat.le_trans (Value.place_le _ v) (Value.placeEntries_le _ es))

theorem Schema.place_le (n : Nat) : ∀ s : Schema, n ≤ (s.place n).2
  | .mk mark id optional shape => by
    unfold Schema.place
    split
    · exact Nat.le_trans (Nat.le_succ n)
        (Nat.le_trans (Value.place_le (n + 1) id) (Shape.place_le _ shape))
    · exact Nat.le_refl _

theorem Schema.placeAll_le (n : Nat) : ∀ ss : List Schema, n ≤ (Schema.placeAll n ss).2
  | [] => Nat.le_refl _
  | s :: ss => Nat.le_trans (Schema.place_le n s) (Schema.placeAll_le _ ss)

theorem Part.placeAll_le (n : Nat) : ∀ ps : List Part, n ≤ (Part.placeAll n ps).2
  | [] => Nat.le_refl _
  | .text _ :: ps => Part.placeAll_le n ps
  | .schema s :: ps => Nat.le_trans (Schema.place_le n s) (Part.placeAll_le _ ps)

theorem Schema.placeProperties_le (n : Nat) :
    ∀ ps : List (String × Schema), n ≤ (Schema.placeProperties n ps).2
  | [] => Nat.le_refl _
  | (_, s) :: ps => Nat.le_trans (Schema.place_le n s) (Schema.placeProperties_le _ ps)

theorem Value.placeFields_le (n : Nat) :
    ∀ fs : List (String × Value), n ≤ (Value.placeFields n fs).2
  | [] => Nat.le_refl _
  | (_, v) :: fs => Nat.le_trans (Value.place_le n v) (Value.placeFields_le _ fs)

theorem Shape.place_le (n : Nat) : ∀ s : Shape, n ≤ (s.place n).2
  | .basic _ => Nat.le_refl _
  | .literal s => s.place_le n
  | .callable _ ps r => Nat.le_trans (Schema.placeAll_le n ps) (Schema.place_le _ r)
  | .promise s => Schema.place_le n s
  | .template ps => Part.placeAll_le n ps
  | .array s => Schema.place_le n s
  | .tuple ss => Schema.placeAll_le n ss
  | .object ps a => Nat.le_trans (Schema.placeProperties_le n ps) (Value.place_le _ a)
  | .record k v => Nat.le_trans (Schema.place_le n k) (Schema.place_le _ v)
  | .union ss => Schema.placeAll_le n ss
  | .intersect ss => Schema.placeAll_le n ss
  | .reference _ t => Value.place_le n t
  | .user _ fs => Value.placeFields_le n fs

end

-- What placing adds to the schemas known before.
structure Grows (first last : Nat) (before after : Set Schema) : Prop where
  sub : before ⊆ after
  coherent : Coherent after last
  new : ∀ s ∈ after, s ∈ before ∨ first ≤ s.mark

theorem Grows.of_le {first last : Nat} {known : Set Schema} (coherent : Coherent known first)
    (more : first ≤ last) : Grows first last known known :=
  ⟨subset_rfl, coherent.widen more, fun _ member => .inl member⟩

theorem Grows.trans {a b c : Nat} {before middle after : Set Schema}
    (first : Grows a b before middle) (second : Grows b c middle after) (more : a ≤ b) :
    Grows a c before after := by
  refine ⟨first.sub.trans second.sub, second.coherent, fun s member => ?_⟩
  rcases second.new s member with earlier | late
  · exact first.new s earlier
  · exact .inr (Nat.le_trans more late)

-- The parts that have a mark already are known.
def Built (known : Set Schema) (parts : List Schema) : Prop :=
  ∀ t ∈ parts, t.mark ≠ 0 → t ∈ known

theorem Built.mono {known more : Set Schema} {parts others : List Schema}
    (built : Built known parts) (sub : known ⊆ more) (fewer : ∀ t ∈ others, t ∈ parts) :
    Built more others :=
  fun t member marked => sub (built t (fewer t member) marked)

-- A schema that takes the first mark, on top of children that take later ones.
theorem Grows.cons {n k last : Nat} {before after : Set Schema} {id : Value} {optional : Bool}
    {shape : Shape} (coherent : Coherent before n) (grows : Grows k last before after)
    (later : n < k) (more : k ≤ last)
    (children : ∀ c ∈ (Schema.mk n id optional shape).children, c ∈ after) :
    Grows n last before (after ∪ {.mk n id optional shape}) := by
  have distinct : ∀ s ∈ after, s.mark ≠ n := by
    intro s member same
    rcases grows.new s member with old | new
    · exact absurd (coherent.below s old) (by omega)
    · omega
  refine ⟨grows.sub.trans Set.subset_union_left, ⟨?_, ?_, ?_⟩, ?_⟩
  · intro s member c child
    rcases member with member | rfl
    · exact .inl (grows.coherent.children s member c child)
    · exact .inl (children c child)
  · intro s member t member' same
    rcases member with member | rfl <;> rcases member' with member' | rfl
    · exact grows.coherent.apart s member t member' same
    · exact absurd same (distinct s member)
    · exact absurd same.symm (distinct t member')
    · rfl
  · intro s member
    rcases member with member | rfl
    · exact grows.coherent.below s member
    · exact Nat.lt_of_lt_of_le later more
  · intro s member
    rcases member with member | rfl
    · rcases grows.new s member with old | new
      · exact .inl old
      · exact .inr (by omega)
    · exact .inr (Nat.le_refl _)

mutual

theorem Schema.place_grows {n : Nat} {known : Set Schema} (coherent : Coherent known n) :
    ∀ s : Schema, Built known s.parts →
      ∃ after, Grows n (s.place n).2 known after ∧ (s.place n).1 ∈ after
  | .mk mark id optional shape, built => by
    unfold Schema.place
    split
    · have more := Value.place_le (n + 1) id
      have wider := coherent.widen (Nat.le_trans (Nat.le_succ n) more)
      obtain ⟨after, grows, children⟩ := Shape.place_grows wider shape
        (built.mono subset_rfl fun t member => List.mem_cons_of_mem _ member)
      exact ⟨_, grows.cons coherent more (Shape.place_le _ shape) (children n _ optional), .inr rfl⟩
    · rename_i marked
      exact ⟨known, .of_le coherent (Nat.le_refl _), built _ List.mem_cons_self marked⟩

theorem Schema.placeAll_grows {n : Nat} {known : Set Schema} (coherent : Coherent known n) :
    ∀ ss : List Schema, Built known (Schema.partsOfAll ss) →
      ∃ after, Grows n (Schema.placeAll n ss).2 known after ∧
        ∀ s ∈ (Schema.placeAll n ss).1, s ∈ after
  | [], _ => ⟨known, .of_le coherent (Nat.le_refl _), by simp [Schema.placeAll]⟩
  | s :: ss, built => by
    obtain ⟨middle, first, head⟩ := Schema.place_grows coherent s
      (built.mono subset_rfl fun t member => List.mem_append_left _ member)
    obtain ⟨after, second, tail⟩ := Schema.placeAll_grows first.coherent ss
      (built.mono first.sub fun t member => List.mem_append_right _ member)
    refine ⟨after, first.trans second (Schema.place_le n s), fun t member => ?_⟩
    rcases List.mem_cons.mp member with rfl | member
    · exact second.sub head
    · exact tail t member

theorem Schema.placeProperties_grows {n : Nat} {known : Set Schema} (coherent : Coherent known n) :
    ∀ ps : List (String × Schema), Built known (Schema.partsOfProperties ps) →
      ∃ after, Grows n (Schema.placeProperties n ps).2 known after ∧
        ∀ p ∈ (Schema.placeProperties n ps).1, p.2 ∈ after
  | [], _ => ⟨known, .of_le coherent (Nat.le_refl _), by simp [Schema.placeProperties]⟩
  | (_, s) :: ps, built => by
    obtain ⟨middle, first, head⟩ := Schema.place_grows coherent s
      (built.mono subset_rfl fun t member => List.mem_append_left _ member)
    obtain ⟨after, second, tail⟩ := Schema.placeProperties_grows first.coherent ps
      (built.mono first.sub fun t member => List.mem_append_right _ member)
    refine ⟨after, first.trans second (Schema.place_le n s), fun t member => ?_⟩
    rcases List.mem_cons.mp member with rfl | member
    · exact second.sub head
    · exact tail t member

theorem Value.place_grows {n : Nat} {known : Set Schema} (coherent : Coherent known n) :
    ∀ v : Value, Built known v.parts →
      ∃ after, Grows n (v.place n).2 known after ∧ ∀ s ∈ (v.place n).1.schema?.toList, s ∈ after
  | .schema s, built => by
    obtain ⟨after, grows, member⟩ := Schema.place_grows coherent s built
    exact ⟨after, grows, by simpa [Value.place, Value.schema?] using member⟩
  | .null, _ => ⟨known, .of_le coherent (Nat.le_refl _), by simp [Value.place, Value.schema?]⟩
  | .scalar s, _ =>
    ⟨known, .of_le coherent (s.place_le n), by simp [Value.place, Value.schema?]⟩
  | .list vs, _ =>
    ⟨known, .of_le coherent (Value.placeAll_le n vs), by simp [Value.place, Value.schema?]⟩
  | .tuple vs, _ =>
    ⟨known, .of_le coherent (Value.placeAll_le n vs), by simp [Value.place, Value.schema?]⟩
  | .table es, _ =>
    ⟨known, .of_le coherent (Value.placeEntries_le n es), by simp [Value.place, Value.schema?]⟩

theorem Shape.place_grows {n : Nat} {known : Set Schema} (coherent : Coherent known n) :
    ∀ shape : Shape, Built known shape.parts →
      ∃ after, Grows n (shape.place n).2 known after ∧
        ∀ mark id optional, ∀ c ∈ (Schema.mk mark id optional (shape.place n).1).children, c ∈ after
  | .callable form ps r, built => by
    obtain ⟨middle, first, parameters⟩ := Schema.placeAll_grows coherent ps
      (built.mono subset_rfl fun t member => List.mem_append_left _ member)
    obtain ⟨after, second, result⟩ := Schema.place_grows first.coherent r
      (built.mono first.sub fun t member => List.mem_append_right _ member)
    refine ⟨after, first.trans second (Schema.placeAll_le n ps), fun _ _ _ c child => ?_⟩
    rcases List.mem_append.mp child with member | member
    · exact second.sub (parameters c member)
    · cases List.mem_singleton.mp member
      exact result
  | .object ps a, built => by
    obtain ⟨middle, first, properties⟩ := Schema.placeProperties_grows coherent ps
      (built.mono subset_rfl fun t member => List.mem_append_left _ member)
    obtain ⟨after, second, extra⟩ := Value.place_grows first.coherent a
      (built.mono first.sub fun t member => List.mem_append_right _ member)
    refine ⟨after, first.trans second (Schema.placeProperties_le n ps), fun _ _ _ c child => ?_⟩
    rcases List.mem_append.mp child with member | member
    · obtain ⟨p, found, rfl⟩ := List.mem_map.mp member
      exact second.sub (properties p found)
    · exact extra c member
  | .record k v, built => by
    have more := Schema.place_le n k
    obtain ⟨after, grows, member⟩ := Schema.place_grows (coherent.widen more) v built
    refine ⟨after, (Grows.of_le coherent more).trans grows more, fun _ _ _ c child => ?_⟩
    cases List.mem_singleton.mp child
    exact member
  | .promise s, built | .array s, built => by
    obtain ⟨after, grows, member⟩ := Schema.place_grows coherent s built
    refine ⟨after, grows, fun _ _ _ c child => ?_⟩
    cases List.mem_singleton.mp child
    exact member
  | .tuple ss, built | .union ss, built | .intersect ss, built => by
    obtain ⟨after, grows, member⟩ := Schema.placeAll_grows coherent ss built
    exact ⟨after, grows, fun _ _ _ c child => member c child⟩
  | .basic b, _ => ⟨known, .of_le coherent (Nat.le_refl _), fun _ _ _ c child => by cases child⟩
  | .literal s, _ => ⟨known, .of_le coherent (s.place_le n), fun _ _ _ c child => by cases child⟩
  | .template ps, _ =>
    ⟨known, .of_le coherent (Part.placeAll_le n ps), fun _ _ _ c child => by cases child⟩
  | .reference _ t, _ =>
    ⟨known, .of_le coherent (Value.place_le n t), fun _ _ _ c child => by cases child⟩
  | .user _ fs, _ =>
    ⟨known, .of_le coherent (Value.placeFields_le n fs), fun _ _ _ c child => by cases child⟩

end

-- Placing one more schema, which may contain schemas placed before.
theorem Placed.place {supply : Nat} {roots : List Schema} (placed : Placed supply roots)
    {s : Schema} (built : ∀ t ∈ s.parts, t.mark ≠ 0 → t ∈ roots.flatMap Schema.parts) :
    Placed (s.place supply).2 ((s.place supply).1 :: roots) := by
  obtain ⟨after, grows, member⟩ := Schema.place_grows placed.coherent s built
  refine grows.coherent.placed fun t inside => ?_
  rcases List.mem_cons.mp inside with rfl | earlier
  · exact member
  · exact grows.sub (List.mem_flatMap.mpr ⟨t, earlier, self_mem_parts t⟩)

theorem Placed.nil (supply : Nat) : Placed supply [] := ⟨by simp, by simp⟩

theorem Placed.placeNew {supply : Nat} {roots : List Schema} (placed : Placed supply roots)
    (s : Schema) (new : ∀ p ∈ s.parts, p.mark = 0) :
    Placed (s.place supply).2 ((s.place supply).1 :: roots) :=
  placed.place fun p part marked => absurd (new p part) marked

-- Two new schemas, placed one after the other.
theorem Placed.two (supply : Nat) {s t : Schema} (first : ∀ p ∈ s.parts, p.mark = 0)
    (second : ∀ p ∈ t.parts, p.mark = 0) :
    Placed (t.place (s.place supply).2).2 [(t.place (s.place supply).2).1, (s.place supply).1] :=
  ((Placed.nil supply).placeNew s first).placeNew t second

-- Arrays whose items are such arrays again.
def Schema.endless : Schema :=
  .mk 0 (.int 1) false (.array (.mk 0 .null false (.reference .this (.int 1))))

theorem endless_placed : Placed 5 [(Schema.endless.place 3).1, (Schema.endless.place 1).1] :=
  @Placed.two 1 .endless .endless (by decide) (by decide)

end Assignability
