import Assignability.Document.Encode
import Mathlib.Data.List.Basic

namespace Assignability

-- Writing fails at the first schema whose kind is not registered, and at nothing else: references
-- are written as they stand, whether or not they lead anywhere.

mutual

-- The schema itself comes first.
def Schema.written : Schema → List Schema
  | .mk mark id optional shape => .mk mark id optional shape :: Shape.written shape
termination_by structural x => x

def Schema.writtenOfAll : List Schema → List Schema
  | [] => []
  | s :: rest => Schema.written s ++ Schema.writtenOfAll rest
termination_by structural x => x

def Part.writtenOfAll : List Part → List Schema
  | [] => []
  | .text _ :: rest => Part.writtenOfAll rest
  | .schema s :: rest => Schema.written s ++ Part.writtenOfAll rest
termination_by structural x => x

def Schema.writtenOfProperties : List (String × Schema) → List Schema
  | [] => []
  | (_, s) :: rest => Schema.written s ++ Schema.writtenOfProperties rest
termination_by structural x => x

-- Of a policy for undeclared properties, only a schema is looked into.
def Value.writtenOfPolicy : Value → List Schema
  | .schema s => Schema.written s
  | _ => []
termination_by structural x => x

-- Tables in the fields of user kinds are kept as they are.
def Value.written : Value → List Schema
  | .schema s => Schema.written s
  | .list items => Value.writtenOfAll items
  | .tuple items => Value.writtenOfAll items
  | _ => []
termination_by structural x => x

def Value.writtenOfAll : List Value → List Schema
  | [] => []
  | v :: rest => Value.written v ++ Value.writtenOfAll rest
termination_by structural x => x

def Value.writtenOfFields : List (String × Value) → List Schema
  | [] => []
  | (_, v) :: rest => Value.written v ++ Value.writtenOfFields rest
termination_by structural x => x

def Shape.written : Shape → List Schema
  | .callable _ parameters returns => Schema.writtenOfAll parameters ++ Schema.written returns
  | .promise item => Schema.written item
  | .template parts => Part.writtenOfAll parts
  | .array items => Schema.written items
  | .tuple items => Schema.writtenOfAll items
  | .object properties additional =>
    Schema.writtenOfProperties properties ++ Value.writtenOfPolicy additional
  | .record key value => Schema.written key ++ Schema.written value
  | .union variants => Schema.writtenOfAll variants
  | .intersect variants => Schema.writtenOfAll variants
  | .user _ fields => Value.writtenOfFields fields
  | _ => []
termination_by structural x => x

end

-- The fault of an outcome that has one.
def Except.fault? {α : Type} : Except Fault α → Option Fault
  | .ok _ => none
  | .error fault => some fault

section
variable {α β : Type} {x : Except Fault α}

-- What comes after a step fails in its own way, unless the step failed before it.
theorem fault?_bind {next : α → Except Fault β} {later : Option Fault}
    (after : ∀ a, Except.fault? (next a) = later) :
    Except.fault? (x >>= next) = (Except.fault? x).or later := by
  cases x with
  | error fault => rfl
  | ok a => exact after a

theorem fault?_map {next : α → β} :
    Except.fault? (x >>= fun a => pure (next a)) = Except.fault? x := by
  cases x <;> rfl

theorem exists_ok_of_fault? (faultless : Except.fault? x = none) : ∃ a, x = .ok a := by
  cases x with
  | error fault => cases faultless
  | ok a => exact ⟨a, rfl⟩

theorem eq_error_of_fault? {fault : Fault} (failed : Except.fault? x = some fault) :
    x = .error fault := by
  cases x with
  | error other => exact congrArg _ (Option.some.inj failed)
  | ok a => cases failed

end

namespace Document

-- The fault of a shape itself, whatever lies inside it.
def refusedShape? (r : Registry) : Shape → Option Fault
  | .user kind _ => if r.has kind then none else some (.unknownKind (.text kind))
  | _ => none

def refused? (r : Registry) (s : Schema) : Option Fault := refusedShape? r s.shape

-- The fault of the first schema in a list that has one.
def firstRefused? (r : Registry) (schemas : List Schema) : Option Fault :=
  schemas.findSome? (refused? r)

section
variable (r : Registry)

theorem firstRefused_append (xs ys : List Schema) :
    firstRefused? r (xs ++ ys) = (firstRefused? r xs).or (firstRefused? r ys) :=
  List.findSome?_append

theorem firstRefused_cons (s : Schema) (rest : List Schema) :
    firstRefused? r (s :: rest) = (refused? r s).or (firstRefused? r rest) := by
  rw [firstRefused?, List.findSome?_cons]
  cases refused? r s <;> rfl

mutual

-- Writing comes to the schemas of a document one after the other, and stops at the first that is
-- refused. One case for each way in which schemas lie inside others.
theorem encode_fault : (s : Schema) → (scope : Scope) →
    Except.fault? (encode r scope s) = firstRefused? r s.written
  | .mk mark id optional shape, scope => by
    rw [encode, fault?_map, encodeShape_fault shape, Schema.written, firstRefused_cons]
    rfl
termination_by structural x => x

theorem encodeShape_fault : (shape : Shape) → (scope : Scope) →
    Except.fault? (encodeShape r scope shape) =
      (refusedShape? r shape).or (firstRefused? r shape.written)
  | .basic _, _ => rfl
  | .literal _, _ => rfl
  | .callable form parameters returns, scope => by
    rw [encodeShape, fault?_bind fun _ => fault?_map, encodeAll_fault parameters,
      encode_fault returns, Shape.written, firstRefused_append]
    rfl
  | .promise item, scope => by
    rw [encodeShape, fault?_map, encode_fault item]
    rfl
  | .template parts, scope => by
    rw [encodeShape, fault?_map, encodeParts_fault parts]
    rfl
  | .array items, scope => by
    rw [encodeShape, fault?_map, encode_fault items]
    rfl
  | .tuple items, scope => by
    rw [encodeShape, fault?_map, encodeAll_fault items]
    rfl
  | .object properties additional, scope => by
    rw [encodeShape, fault?_bind fun _ => fault?_map, encodeProperties_fault properties,
      encodeAdditional_fault additional, Shape.written, firstRefused_append]
    rfl
  | .record key value, scope => by
    rw [encodeShape, fault?_bind fun _ => fault?_map, encode_fault key, encode_fault value,
      Shape.written, firstRefused_append]
    rfl
  | .union variants, scope => by
    rw [encodeShape, fault?_map, encodeAll_fault variants]
    rfl
  | .intersect variants, scope => by
    rw [encodeShape, fault?_map, encodeAll_fault variants]
    rfl
  | .reference _ _, _ => rfl
  | .user kind fields, scope => by
    rw [encodeShape, refusedShape?]
    by_cases registered : r.has kind = true
    · rw [if_pos registered, if_pos registered, encodeFields_fault fields]
      rfl
    · rw [if_neg registered, if_neg registered]
      rfl
termination_by structural x => x

theorem encodeAll_fault : (schemas : List Schema) → (scope : Scope) →
    Except.fault? (encodeAll r scope schemas) = firstRefused? r (Schema.writtenOfAll schemas)
  | [], _ => rfl
  | s :: rest, scope => by
    rw [encodeAll, fault?_bind fun _ => fault?_map, encode_fault s, encodeAll_fault rest,
      Schema.writtenOfAll, firstRefused_append]
termination_by structural x => x

theorem encodeParts_fault : (parts : List Part) → (scope : Scope) →
    Except.fault? (encodeParts r scope parts) = firstRefused? r (Part.writtenOfAll parts)
  | [], _ => rfl
  | .text _ :: rest, scope => by
    rw [encodeParts, fault?_map, encodeParts_fault rest, Part.writtenOfAll]
  | .schema s :: rest, scope => by
    rw [encodeParts, fault?_bind fun _ => fault?_map, encode_fault s, encodeParts_fault rest,
      Part.writtenOfAll, firstRefused_append]
termination_by structural x => x

theorem encodeProperties_fault : (properties : List (String × Schema)) → (scope : Scope) →
    Except.fault? (encodeProperties r scope properties) =
      firstRefused? r (Schema.writtenOfProperties properties)
  | [], _ => rfl
  | (_, s) :: rest, scope => by
    rw [encodeProperties, fault?_bind fun _ => fault?_map, encode_fault s,
      encodeProperties_fault rest, Schema.writtenOfProperties, firstRefused_append]
termination_by structural x => x

theorem encodeAdditional_fault : (additional : Value) → (scope : Scope) →
    Except.fault? (encodeAdditional r scope additional) =
      firstRefused? r additional.writtenOfPolicy
  | .schema s, scope => by
    rw [encodeAdditional, fault?_map, encode_fault s, Value.writtenOfPolicy]
  | .null, _ => rfl
  | .scalar _, _ => rfl
  | .list _, _ => rfl
  | .tuple _, _ => rfl
  | .table _, _ => rfl
termination_by structural x => x

theorem encodeFields_fault : (fields : List (String × Value)) → (scope : Scope) →
    Except.fault? (encodeFields r scope fields) = firstRefused? r (Value.writtenOfFields fields)
  | [], _ => rfl
  | (_, v) :: rest, scope => by
    rw [encodeFields, fault?_bind fun _ => fault?_map, encodeField_fault v,
      encodeFields_fault rest, Value.writtenOfFields, firstRefused_append]
termination_by structural x => x

theorem encodeField_fault : (v : Value) → (scope : Scope) →
    Except.fault? (encodeField r scope v) = firstRefused? r v.written
  | .schema s, scope => by rw [encodeField, encode_fault s, Value.written]
  | .list items, scope => by
    rw [encodeField, fault?_map, encodeFieldItems_fault items, Value.written]
  | .tuple items, scope => by
    rw [encodeField, fault?_map, encodeFieldItems_fault items, Value.written]
  | .null, _ => rfl
  | .scalar _, _ => rfl
  | .table _, _ => rfl
termination_by structural x => x

theorem encodeFieldItems_fault : (items : List Value) → (scope : Scope) →
    Except.fault? (encodeFieldItems r scope items) = firstRefused? r (Value.writtenOfAll items)
  | [], _ => rfl
  | v :: rest, scope => by
    rw [encodeFieldItems, fault?_bind fun _ => fault?_map, encodeField_fault v,
      encodeFieldItems_fault rest, Value.writtenOfAll, firstRefused_append]
termination_by structural x => x

end

mutual

-- The scope is carried down and never looked at.
theorem encode_scope : (s : Schema) → (scope other : Scope) →
    encode r scope s = encode r other s
  | .mk mark id optional shape, scope, other => by
    rw [encode, encode, encodeShape_scope shape]
termination_by structural x => x

theorem encodeShape_scope : (shape : Shape) → (scope other : Scope) →
    encodeShape r scope shape = encodeShape r other shape
  | .basic _, _, _ => rfl
  | .literal _, _, _ => rfl
  | .callable form parameters returns, scope, other => by
    rw [encodeShape, encodeShape, encodeAll_scope parameters scope other,
      encode_scope returns scope other]
  | .promise item, scope, other => by
    rw [encodeShape, encodeShape, encode_scope item scope other]
  | .template parts, scope, other => by
    rw [encodeShape, encodeShape, encodeParts_scope parts scope other]
  | .array items, scope, other => by
    rw [encodeShape, encodeShape, encode_scope items scope other]
  | .tuple items, scope, other => by
    rw [encodeShape, encodeShape, encodeAll_scope items scope other]
  | .object properties additional, scope, other => by
    rw [encodeShape, encodeShape, encodeProperties_scope properties scope other,
      encodeAdditional_scope additional scope other]
  | .record key value, scope, other => by
    rw [encodeShape, encodeShape, encode_scope key scope other, encode_scope value scope other]
  | .union variants, scope, other => by
    rw [encodeShape, encodeShape, encodeAll_scope variants scope other]
  | .intersect variants, scope, other => by
    rw [encodeShape, encodeShape, encodeAll_scope variants scope other]
  | .reference _ _, _, _ => rfl
  | .user kind fields, scope, other => by
    rw [encodeShape, encodeShape, encodeFields_scope fields scope other]
termination_by structural x => x

theorem encodeAll_scope : (schemas : List Schema) → (scope other : Scope) →
    encodeAll r scope schemas = encodeAll r other schemas
  | [], _, _ => rfl
  | s :: rest, scope, other => by
    rw [encodeAll, encodeAll, encode_scope s scope other, encodeAll_scope rest scope other]
termination_by structural x => x

theorem encodeParts_scope : (parts : List Part) → (scope other : Scope) →
    encodeParts r scope parts = encodeParts r other parts
  | [], _, _ => rfl
  | .text _ :: rest, scope, other => by
    rw [encodeParts, encodeParts, encodeParts_scope rest scope other]
  | .schema s :: rest, scope, other => by
    rw [encodeParts, encodeParts, encode_scope s scope other, encodeParts_scope rest scope other]
termination_by structural x => x

theorem encodeProperties_scope : (properties : List (String × Schema)) → (scope other : Scope) →
    encodeProperties r scope properties = encodeProperties r other properties
  | [], _, _ => rfl
  | (_, s) :: rest, scope, other => by
    rw [encodeProperties, encodeProperties, encode_scope s scope other,
      encodeProperties_scope rest scope other]
termination_by structural x => x

theorem encodeAdditional_scope : (additional : Value) → (scope other : Scope) →
    encodeAdditional r scope additional = encodeAdditional r other additional
  | .schema s, scope, other => by
    rw [encodeAdditional, encodeAdditional, encode_scope s scope other]
  | .null, _, _ => rfl
  | .scalar _, _, _ => rfl
  | .list _, _, _ => rfl
  | .tuple _, _, _ => rfl
  | .table _, _, _ => rfl
termination_by structural x => x

theorem encodeFields_scope : (fields : List (String × Value)) → (scope other : Scope) →
    encodeFields r scope fields = encodeFields r other fields
  | [], _, _ => rfl
  | (_, v) :: rest, scope, other => by
    rw [encodeFields, encodeFields, encodeField_scope v scope other,
      encodeFields_scope rest scope other]
termination_by structural x => x

theorem encodeField_scope : (v : Value) → (scope other : Scope) →
    encodeField r scope v = encodeField r other v
  | .schema s, scope, other => by rw [encodeField, encodeField, encode_scope s scope other]
  | .list items, scope, other => by
    rw [encodeField, encodeField, encodeFieldItems_scope items scope other]
  | .tuple items, scope, other => by
    rw [encodeField, encodeField, encodeFieldItems_scope items scope other]
  | .null, _, _ => rfl
  | .scalar _, _, _ => rfl
  | .table _, _, _ => rfl
termination_by structural x => x

theorem encodeFieldItems_scope : (items : List Value) → (scope other : Scope) →
    encodeFieldItems r scope items = encodeFieldItems r other items
  | [], _, _ => rfl
  | v :: rest, scope, other => by
    rw [encodeFieldItems, encodeFieldItems, encodeField_scope v scope other,
      encodeFieldItems_scope rest scope other]
termination_by structural x => x

end

-- What is written is a table.
theorem encode_table {s : Schema} {scope : Scope} {document : Value}
    (written : encode r scope s = .ok document) : ∃ entries, document = .table entries := by
  obtain ⟨mark, id, optional, shape⟩ := s
  rw [encode] at written
  cases body : encodeShape r (scope.push (.mk mark id optional shape)) shape with
  | error fault =>
    rw [body] at written
    cases written
  | ok entries =>
    rw [body] at written
    cases written
    exact ⟨_, rfl⟩

-- What is refused is a kind that is not known.
theorem refused_eq (s : Schema) : refused? r s =
    if r.knows s.kind = true then none else some (.unknownKind (.text s.kind.name)) := by
  obtain ⟨mark, id, optional, shape⟩ := s
  cases shape with
  | basic b => cases b <;> rfl
  | callable form _ _ => cases form <;> rfl
  | reference form _ => cases form <;> rfl
  | _ => rfl

theorem firstRefused_eq (schemas : List Schema) : firstRefused? r schemas =
    (schemas.find? fun t => !r.knows t.kind).map fun t => .unknownKind (.text t.kind.name) := by
  induction schemas with
  | nil => rfl
  | cons s rest ih =>
    rw [firstRefused_cons, refused_eq, ih, List.find?_cons]
    cases r.knows s.kind <;> rfl

end

-- Writing does not depend on the scope. It fails where a kind that is not registered comes first,
-- and gives a table if there is none.
theorem encode_refuses_unregistered (r : Registry) (s : Schema) :
    (∀ scope other, encode r scope s = encode r other s) ∧
    ∀ scope,
      ((∃ fault, encode r scope s = .error fault) ↔ ∃ t ∈ s.written, r.knows t.kind = false) ∧
      (∀ t, s.written.find? (fun u => !r.knows u.kind) = some t →
        encode r scope s = .error (.unknownKind (.text t.kind.name))) ∧
      ((∀ t ∈ s.written, r.knows t.kind = true) →
        ∃ entries, encode r scope s = .ok (.table entries)) := by
  refine ⟨encode_scope r s, fun scope => ?_⟩
  have outcome := (encode_fault r s scope).trans (firstRefused_eq r _)
  have refused : ∀ t, s.written.find? (fun u => !r.knows u.kind) = some t →
      encode r scope s = .error (.unknownKind (.text t.kind.name)) := by
    intro t first
    rw [first] at outcome
    exact eq_error_of_fault? outcome
  have accepted : (∀ t ∈ s.written, r.knows t.kind = true) →
      ∃ entries, encode r scope s = .ok (.table entries) := by
    intro known
    have nothing : s.written.find? (fun u => !r.knows u.kind) = none :=
      List.find?_eq_none.mpr fun t member => by simp [known t member]
    rw [nothing] at outcome
    obtain ⟨document, written⟩ := exists_ok_of_fault? outcome
    obtain ⟨entries, rfl⟩ := encode_table r written
    exact ⟨entries, written⟩
  refine ⟨⟨?_, ?_⟩, refused, accepted⟩
  · rintro ⟨fault, failed⟩
    by_contra none
    push Not at none
    obtain ⟨entries, written⟩ := accepted fun t member => by
      simpa using none t member
    rw [failed] at written
    cases written
  · rintro ⟨t, member, unknown⟩
    have found : (s.written.find? fun u => !r.knows u.kind).isSome = true :=
      List.find?_isSome.mpr ⟨t, member, by simp [unknown]⟩
    obtain ⟨first, same⟩ := Option.isSome_iff_exists.mp found
    exact ⟨_, refused first same⟩

-- Unregistered kinds: one in a list inside a tuple of a user field, behind a reference that leads
-- nowhere, one inside that and one behind it.
def unregistered : Schema :=
  .plain (.object
    [("nested", .plain (.user ⟨"Known", rfl⟩ [("content", .tuple [.text "text", .list
        [.schema (.plain (.reference .ref (.text "gone"))),
          .schema (.plain (.user ⟨"First", rfl⟩
            [("inner", .schema (.plain (.user ⟨"Second", rfl⟩ [])))]))]])])),
      ("behind", .plain (.user ⟨"Second", rfl⟩ []))] .null)

-- Of two kinds that are not registered, the one that comes first is refused, also before what is
-- inside it. Once all are registered a table is written, whatever the reference leads to.
theorem first_unregistered_refused :
    encode [("Known", none)] [] unregistered = .error (.unknownKind (.text "First")) ∧
    (∃ entries, encode [("Second", none), ("Known", none), ("First", none)] [] unregistered =
      .ok (.table entries)) ∧
    encode [("Known", none)] [unregistered, .basic .any] unregistered =
      encode [("Known", none)] [] unregistered := by
  obtain ⟨anyScope, outcome⟩ := encode_refuses_unregistered [("Known", none)] unregistered
  obtain ⟨-, outcome'⟩ := encode_refuses_unregistered
    [("Second", none), ("Known", none), ("First", none)] unregistered
  exact ⟨(outcome []).2.1 (.plain (.user ⟨"First", rfl⟩
      [("inner", .schema (.plain (.user ⟨"Second", rfl⟩ [])))])) rfl,
    (outcome' []).2.2 (by decide), anyScope _ _⟩

end Document

end Assignability
