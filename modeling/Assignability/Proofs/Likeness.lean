import Assignability.Proofs.Parts
import Mathlib.Data.List.Forall2

namespace Assignability

-- Two schemas with equal erasures differ in identity only.

mutual

def Value.erase : Value → Value
  | .list items => .list (Value.eraseAll items)
  | .tuple items => .tuple (Value.eraseAll items)
  | .table entries => .table (Value.eraseEntries entries)
  | .schema s => .schema (Schema.erase s)
  | .null => .null
  | .scalar s => .scalar s

def Value.eraseAll : List Value → List Value
  | [] => []
  | v :: rest => Value.erase v :: Value.eraseAll rest

def Value.eraseEntries : List (Value × Value) → List (Value × Value)
  | [] => []
  | (k, v) :: rest => (Value.erase k, Value.erase v) :: Value.eraseEntries rest

def Schema.erase : Schema → Schema
  | .mk _ id optional shape => .mk 0 (Value.erase id) optional (Shape.erase shape)

def Schema.eraseAll : List Schema → List Schema
  | [] => []
  | s :: rest => Schema.erase s :: Schema.eraseAll rest

def Part.eraseAll : List Part → List Part
  | [] => []
  | .text s :: rest => .text s :: Part.eraseAll rest
  | .schema s :: rest => .schema (Schema.erase s) :: Part.eraseAll rest

def Schema.eraseProperties : List (String × Schema) → List (String × Schema)
  | [] => []
  | (name, s) :: rest => (name, Schema.erase s) :: Schema.eraseProperties rest

def Value.eraseFields : List (String × Value) → List (String × Value)
  | [] => []
  | (name, v) :: rest => (name, Value.erase v) :: Value.eraseFields rest

def Shape.erase : Shape → Shape
  | .basic b => .basic b
  | .literal value => .literal value
  | .callable form parameters returns =>
    .callable form (Schema.eraseAll parameters) (Schema.erase returns)
  | .promise item => .promise (Schema.erase item)
  | .template parts => .template (Part.eraseAll parts)
  | .array items => .array (Schema.erase items)
  | .tuple items => .tuple (Schema.eraseAll items)
  | .object properties additional =>
    .object (Schema.eraseProperties properties) (Value.erase additional)
  | .record key value => .record (Schema.erase key) (Schema.erase value)
  | .union variants => .union (Schema.eraseAll variants)
  | .intersect variants => .intersect (Schema.eraseAll variants)
  | .reference form target => .reference form (Value.erase target)
  | .user kind fields => .user kind (Value.eraseFields fields)

end

theorem eraseAll_eq (schemas : List Schema) :
    Schema.eraseAll schemas = schemas.map Schema.erase := by
  induction schemas with
  | nil => rfl
  | cons s rest ih => simp [Schema.eraseAll, ih]

theorem eraseProperties_eq (properties : List (String × Schema)) :
    Schema.eraseProperties properties = properties.map fun p => (p.1, p.2.erase) := by
  induction properties with
  | nil => rfl
  | cons p rest ih => simp [Schema.eraseProperties, ih]

@[simp] theorem erase_optional (s : Schema) : s.erase.optional = s.optional := by
  cases s
  simp [Schema.erase, Schema.optional]

@[simp] theorem erase_isNumericKey (s : Schema) : s.erase.isNumericKey = s.isNumericKey := by
  obtain ⟨mark, id, optional, shape⟩ := s
  cases shape <;> simp [Schema.erase, Schema.isNumericKey, Schema.shape, Shape.erase]

@[simp] theorem erase_kind (s : Schema) : s.erase.kind = s.kind := by
  obtain ⟨mark, id, optional, shape⟩ := s
  cases shape <;> simp [Schema.erase, Schema.kind, Schema.shape, Shape.erase, Shape.kind]

-- The variants of one are those of the other.
structure VariantsLike (like : Schema → Schema → Prop) (ours theirs : List Schema) : Prop where
  forth : ∀ s ∈ ours, ∃ t ∈ theirs, like s t
  back : ∀ t ∈ theirs, ∃ s ∈ ours, like s t

structure PropertiesLike (like : Schema → Schema → Prop) (ours theirs : List (String × Schema)) :
    Prop where
  count : ours.length = theirs.length
  forth : ∀ p ∈ ours, ∃ q ∈ theirs, p.1 = q.1 ∧ like p.2 q.2
  back : ∀ q ∈ theirs, ∃ p ∈ ours, p.1 = q.1 ∧ like p.2 q.2
  named : ∀ name, Option.Rel like (ours.lookup name) (theirs.lookup name)

inductive Shape.Like (like : Schema → Schema → Prop) : Shape → Shape → Prop
  | basic (b : Basic) : Like like (.basic b) (.basic b)
  | literal (value : Scalar) : Like like (.literal value) (.literal value)
  | callable (form : CallForm) {ours theirs : List Schema} {returns result : Schema} :
    List.Forall₂ like ours theirs → like returns result →
    Like like (.callable form ours returns) (.callable form theirs result)
  | promise {s t : Schema} : like s t → Like like (.promise s) (.promise t)
  | template (parts others : List Part) : Like like (.template parts) (.template others)
  | array {s t : Schema} : like s t → Like like (.array s) (.array t)
  | tuple {ours theirs : List Schema} : List.Forall₂ like ours theirs →
    Like like (.tuple ours) (.tuple theirs)
  | object {ours theirs : List (String × Schema)} {additional other : Value} :
    PropertiesLike like ours theirs → Option.Rel like additional.schema? other.schema? →
    Like like (.object ours additional) (.object theirs other)
  | record {key key' value value' : Schema} : key.isNumericKey = key'.isNumericKey →
    like value value' → Like like (.record key value) (.record key' value')
  | union {ours theirs : List Schema} : VariantsLike like ours theirs →
    Like like (.union ours) (.union theirs)
  | intersect {ours theirs : List Schema} : VariantsLike like ours theirs →
    Like like (.intersect ours) (.intersect theirs)
  | reference (form : ReferenceForm) (target other : Value) :
    Like like (.reference form target) (.reference form other)
  | user (kind : UserKind) (fields others : List (String × Value)) :
    Like like (.user kind fields) (.user kind others)

section
variable {like : Schema → Schema → Prop}

theorem VariantsLike.of_forall₂ {ours theirs : List Schema}
    (pairs : List.Forall₂ like ours theirs) :
    VariantsLike like ours theirs := by
  induction pairs with
  | nil => exact ⟨by simp, by simp⟩
  | @cons s t _ _ first _ ih =>
    refine ⟨fun u member => ?_, fun u member => ?_⟩
    · rcases List.mem_cons.mp member with rfl | later
      · exact ⟨t, List.mem_cons_self, first⟩
      · obtain ⟨v, found, same⟩ := ih.forth u later
        exact ⟨v, List.mem_cons_of_mem _ found, same⟩
    · rcases List.mem_cons.mp member with rfl | later
      · exact ⟨s, List.mem_cons_self, first⟩
      · obtain ⟨v, found, same⟩ := ih.back u later
        exact ⟨v, List.mem_cons_of_mem _ found, same⟩

theorem PropertiesLike.of_forall₂ {ours theirs : List (String × Schema)}
    (pairs : List.Forall₂ (fun p q => p.1 = q.1 ∧ like p.2 q.2) ours theirs) :
    PropertiesLike like ours theirs := by
  induction pairs with
  | nil => exact ⟨rfl, by simp, by simp, fun _ => .none⟩
  | @cons p q rest rest' first _ ih =>
    refine ⟨by simp [ih.count], fun u member => ?_, fun u member => ?_, fun name => ?_⟩
    · rcases List.mem_cons.mp member with rfl | later
      · exact ⟨q, List.mem_cons_self, first⟩
      · obtain ⟨v, found, same⟩ := ih.forth u later
        exact ⟨v, List.mem_cons_of_mem _ found, same⟩
    · rcases List.mem_cons.mp member with rfl | later
      · exact ⟨p, List.mem_cons_self, first⟩
      · obtain ⟨v, found, same⟩ := ih.back u later
        exact ⟨v, List.mem_cons_of_mem _ found, same⟩
    · obtain ⟨ourName, s⟩ := p
      obtain ⟨theirName, t⟩ := q
      obtain ⟨names, same⟩ := first
      cases names
      by_cases here : name = ourName
      · subst here
        simpa [List.lookup_cons] using same
      · have miss : (name == ourName) = false := by simpa using here
        simpa [List.lookup_cons, miss] using ih.named name

theorem optionRel_refl (refl : ∀ s, like s s) (o : Option Schema) : Option.Rel like o o := by
  cases o with
  | none => exact .none
  | some s => exact .some (refl s)

theorem Shape.like_refl (refl : ∀ s, like s s) (shape : Shape) : Shape.Like like shape shape := by
  have lists : ∀ schemas : List Schema, List.Forall₂ like schemas schemas :=
    fun schemas => List.forall₂_same.mpr fun s _ => refl s
  cases shape with
  | basic b => exact .basic b
  | literal value => exact .literal value
  | callable form parameters returns => exact .callable form (lists _) (refl _)
  | promise item => exact .promise (refl _)
  | template parts => exact .template _ _
  | array items => exact .array (refl _)
  | tuple items => exact .tuple (lists _)
  | object properties additional =>
    exact .object (.of_forall₂ (List.forall₂_same.mpr fun p _ => ⟨rfl, refl p.2⟩))
      (optionRel_refl refl _)
  | record key value => exact .record rfl (refl _)
  | union variants => exact .union (.of_forall₂ (lists _))
  | intersect variants => exact .intersect (.of_forall₂ (lists _))
  | reference form target => exact .reference form _ _
  | user kind fields => exact .user kind _ _

end

theorem eraseAll_forall₂ {ours theirs : List Schema}
    (same : Schema.eraseAll ours = Schema.eraseAll theirs) :
    List.Forall₂ (fun s t : Schema => s.erase = t.erase) ours theirs := by
  rw [eraseAll_eq, eraseAll_eq] at same
  exact List.forall₂_map_left_iff.mp (List.forall₂_map_right_iff.mp (same ▸ List.forall₂_refl _))

theorem eraseProperties_forall₂ {ours theirs : List (String × Schema)}
    (same : Schema.eraseProperties ours = Schema.eraseProperties theirs) :
    List.Forall₂ (fun p q : String × Schema => p.1 = q.1 ∧ p.2.erase = q.2.erase) ours theirs := by
  rw [eraseProperties_eq, eraseProperties_eq] at same
  have pairs : List.Forall₂ (fun p q : String × Schema => (p.1, p.2.erase) = (q.1, q.2.erase))
      ours theirs :=
    List.forall₂_map_left_iff.mp (List.forall₂_map_right_iff.mp (same ▸ List.forall₂_refl _))
  exact pairs.imp fun _ _ equal => Prod.mk.inj equal

theorem erase_schema? {v v' : Value} (same : v.erase = v'.erase) :
    Option.Rel (fun s t : Schema => s.erase = t.erase) v.schema? v'.schema? := by
  cases v <;> cases v' <;> simp_all [Value.erase, Value.schema?]

theorem like_of_erase {s t : Schema} (same : s.erase = t.erase) :
    Shape.Like (fun a b => a.erase = b.erase) s.shape t.shape := by
  obtain ⟨_, _, _, shape⟩ := s
  obtain ⟨_, _, _, shape'⟩ := t
  simp only [Schema.erase, Schema.mk.injEq] at same
  obtain ⟨-, -, -, same⟩ := same
  simp only [Schema.shape]
  cases shape with
  | basic b =>
    cases shape' <;> simp only [Shape.erase, Shape.basic.injEq, reduceCtorEq] at same
    subst same
    exact .basic b
  | literal value =>
    cases shape' <;> simp only [Shape.erase, Shape.literal.injEq, reduceCtorEq] at same
    subst same
    exact .literal value
  | callable form parameters returns =>
    cases shape' <;> simp only [Shape.erase, Shape.callable.injEq, reduceCtorEq] at same
    obtain ⟨rfl, parameters, returns⟩ := same
    exact .callable form (eraseAll_forall₂ parameters) returns
  | promise item =>
    cases shape' <;> simp only [Shape.erase, Shape.promise.injEq, reduceCtorEq] at same
    exact .promise same
  | template parts =>
    cases shape' <;> simp only [Shape.erase, reduceCtorEq] at same
    exact .template _ _
  | array items =>
    cases shape' <;> simp only [Shape.erase, Shape.array.injEq, reduceCtorEq] at same
    exact .array same
  | tuple items =>
    cases shape' <;> simp only [Shape.erase, Shape.tuple.injEq, reduceCtorEq] at same
    exact .tuple (eraseAll_forall₂ same)
  | object properties additional =>
    cases shape' <;> simp only [Shape.erase, Shape.object.injEq, reduceCtorEq] at same
    exact .object (.of_forall₂ (eraseProperties_forall₂ same.1)) (erase_schema? same.2)
  | record key value =>
    cases shape' <;> simp only [Shape.erase, Shape.record.injEq, reduceCtorEq] at same
    refine .record ?_ same.2
    rw [← erase_isNumericKey key, same.1, erase_isNumericKey]
  | union variants =>
    cases shape' <;> simp only [Shape.erase, Shape.union.injEq, reduceCtorEq] at same
    exact .union (.of_forall₂ (eraseAll_forall₂ same))
  | intersect variants =>
    cases shape' <;> simp only [Shape.erase, Shape.intersect.injEq, reduceCtorEq] at same
    exact .intersect (.of_forall₂ (eraseAll_forall₂ same))
  | reference form target =>
    cases shape' <;> simp only [Shape.erase, Shape.reference.injEq, reduceCtorEq] at same
    obtain ⟨rfl, _⟩ := same
    exact .reference form _ _
  | user kind fields =>
    cases shape' <;> simp only [Shape.erase, Shape.user.injEq, reduceCtorEq] at same
    obtain ⟨rfl, _⟩ := same
    exact .user kind _ _

section
variable {like finer : Schema → Schema → Prop}

theorem forall₂_refine {ours theirs : List Schema} (pairs : List.Forall₂ like ours theirs)
    (narrow : ∀ a ∈ ours, ∀ b ∈ theirs, like a b → finer a b) :
    List.Forall₂ finer ours theirs := by
  induction pairs with
  | nil => exact .nil
  | cons first _ ih =>
    refine .cons (narrow _ List.mem_cons_self _ List.mem_cons_self first) (ih ?_)
    exact fun a inOurs b inTheirs =>
      narrow a (List.mem_cons_of_mem _ inOurs) b (List.mem_cons_of_mem _ inTheirs)

theorem VariantsLike.refine {ours theirs : List Schema} (variants : VariantsLike like ours theirs)
    (narrow : ∀ a ∈ ours, ∀ b ∈ theirs, like a b → finer a b) :
    VariantsLike finer ours theirs := by
  refine ⟨fun s member => ?_, fun t member => ?_⟩
  · obtain ⟨t, found, same⟩ := variants.forth s member
    exact ⟨t, found, narrow s member t found same⟩
  · obtain ⟨s, found, same⟩ := variants.back t member
    exact ⟨s, found, narrow s found t member same⟩

theorem lookup_mem {α β : Type} [BEq α] [LawfulBEq α] {key : α} {value : β}
    {entries : List (α × β)} (found : entries.lookup key = some value) :
    (key, value) ∈ entries := by
  obtain ⟨before, after, rfl, -⟩ := List.lookup_eq_some_iff.mp found
  simp

theorem lookup_none {α β : Type} [BEq α] [LawfulBEq α] {key : α} {entries : List (α × β)} :
    entries.lookup key = none ↔ key ∉ entries.map Prod.fst := by
  rw [List.lookup_eq_none_iff]
  simp only [List.mem_map, bne_iff_ne, not_exists, not_and]
  constructor
  · exact fun apart entry member same => apart entry member same.symm
  · exact fun apart entry member same => apart entry member same.symm

-- With one entry of each name, every entry is found by its name.
theorem lookup_of_nodup {β : Type} {name : String} {value : β} {entries : List (String × β)}
    (distinct : (entries.map Prod.fst).Nodup) (member : (name, value) ∈ entries) :
    entries.lookup name = some value := by
  induction entries with
  | nil => cases member
  | cons p rest ih =>
    obtain ⟨absent, distinct⟩ := List.nodup_cons.mp distinct
    rw [List.lookup_cons]
    rcases List.mem_cons.mp member with rfl | later
    · simp
    · have differs : name ≠ p.1 := by
        rintro rfl
        exact absent (List.mem_map.mpr ⟨_, later, rfl⟩)
      rw [beq_false_of_ne differs]
      exact ih distinct later

-- Likeness of shapes only ever speaks of children, so it may use that they are.
theorem Shape.Like.refine {s t : Schema} (alike : Shape.Like like s.shape t.shape)
    (narrow : ∀ a ∈ s.children, ∀ b ∈ t.children, like a b → finer a b) :
    Shape.Like finer s.shape t.shape := by
  obtain ⟨_, _, _, shape⟩ := s
  obtain ⟨_, _, _, shape'⟩ := t
  simp only [Schema.shape] at alike ⊢
  simp only [Schema.children, Schema.shape] at narrow
  cases alike with
  | basic b => exact .basic b
  | literal value => exact .literal value
  | callable form parameters returns =>
    refine .callable form (forall₂_refine parameters fun a inOurs b inTheirs => ?_) ?_
    · exact narrow a (by simp [inOurs]) b (by simp [inTheirs])
    · exact narrow _ (by simp) _ (by simp) returns
  | promise item => exact .promise (narrow _ (by simp) _ (by simp) item)
  | template parts others => exact .template _ _
  | array items => exact .array (narrow _ (by simp) _ (by simp) items)
  | tuple items => exact .tuple (forall₂_refine items narrow)
  | @object ours theirs additional other properties extra =>
    have named : ∀ {p q : String × Schema}, p ∈ ours → q ∈ theirs → like p.2 q.2 →
        finer p.2 q.2 := fun {p q} inOurs inTheirs =>
      narrow p.2 (List.mem_append_left _ (List.mem_map_of_mem inOurs)) q.2
        (List.mem_append_left _ (List.mem_map_of_mem inTheirs))
    refine .object ⟨properties.count, fun p member => ?_, fun q member => ?_, fun name => ?_⟩ ?_
    · obtain ⟨q, found, same, related⟩ := properties.forth p member
      exact ⟨q, found, same, named member found related⟩
    · obtain ⟨p, found, same, related⟩ := properties.back q member
      exact ⟨p, found, same, named found member related⟩
    · have related := properties.named name
      cases inOurs : ours.lookup name <;> cases inTheirs : theirs.lookup name <;>
        rw [inOurs, inTheirs] at related <;> cases related
      · exact .none
      · rename_i related
        exact .some (named (lookup_mem inOurs) (lookup_mem inTheirs) related)
    · cases inOurs : additional.schema? <;> cases inTheirs : other.schema? <;>
        rw [inOurs, inTheirs] at extra <;> cases extra
      · exact .none
      · rename_i related
        exact .some (narrow _ (by simp [inOurs]) _ (by simp [inTheirs]) related)
  | record key value => exact .record key (narrow _ (by simp) _ (by simp) value)
  | union variants => exact .union (variants.refine narrow)
  | intersect variants => exact .intersect (variants.refine narrow)
  | reference form target other => exact .reference form _ _
  | user kind fields others => exact .user kind _ _

end

end Assignability
