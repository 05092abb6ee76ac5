import Assignability.Proofs.Declarations
import Assignability.Proofs.Documents

namespace Assignability

-- Documents tell which properties must be present, and nothing else about optionality. Everything
-- else comes back, so long as no field of a user kind stands in the place of the kind.

mutual

-- A schema as it is read back: whether it may be absent is given from outside.
def Schema.reread (optional : Bool) : Schema → Schema
  | .mk _ id _ shape => .mk 0 id optional (Shape.reread shape)
termination_by structural x => x

def Schema.rereadAll : List Schema → List Schema
  | [] => []
  | s :: rest => Schema.reread false s :: Schema.rereadAll rest
termination_by structural x => x

def Part.rereadAll : List Part → List Part
  | [] => []
  | .text s :: rest => .text s :: Part.rereadAll rest
  | .schema s :: rest => .schema (Schema.reread false s) :: Part.rereadAll rest
termination_by structural x => x

-- Properties keep their own flag.
def Schema.rereadProperties : List (String × Schema) → List (String × Schema)
  | [] => []
  | (name, s) :: rest => (name, Schema.reread s.optional s) :: Schema.rereadProperties rest
termination_by structural x => x

def Value.reread : Value → Value
  | .schema s => .schema (Schema.reread false s)
  | .tuple items => .tuple (Value.rereadAll items)
  | v => v
termination_by structural x => x

def Value.rereadAll : List Value → List Value
  | [] => []
  | v :: rest => Value.reread v :: Value.rereadAll rest
termination_by structural x => x

def Value.rereadFields : List (String × Value) → List (String × Value)
  | [] => []
  | (name, v) :: rest => (name, Value.reread v) :: Value.rereadFields rest
termination_by structural x => x

def Shape.reread : Shape → Shape
  | .basic b => .basic b
  | .literal value => .literal value
  | .callable form parameters returns =>
    .callable form (Schema.rereadAll parameters) (Schema.reread false returns)
  | .promise item => .promise (Schema.reread false item)
  | .template parts => .template (Part.rereadAll parts)
  | .array items => .array (Schema.reread false items)
  | .tuple items => .tuple (Schema.rereadAll items)
  | .object properties additional =>
    .object (Schema.rereadProperties properties) (Value.reread additional)
  | .record key value => .record (Schema.reread false key) (Schema.reread false value)
  | .union variants => .union (Schema.rereadAll variants)
  | .intersect variants => .intersect (Schema.rereadAll variants)
  | .reference form target => .reference form target
  | .user kind fields => .user kind (Value.rereadFields fields)
termination_by structural x => x

end

mutual

-- Every schema that a document of this one goes through, with whether it is a property.
def Schema.nodes (property : Bool) : Schema → List (Bool × Schema)
  | .mk mark id optional shape => (property, .mk mark id optional shape) :: Shape.nodes shape
termination_by structural x => x

def Schema.nodesOfAll : List Schema → List (Bool × Schema)
  | [] => []
  | s :: rest => Schema.nodes false s ++ Schema.nodesOfAll rest
termination_by structural x => x

def Part.nodesOfAll : List Part → List (Bool × Schema)
  | [] => []
  | .text _ :: rest => Part.nodesOfAll rest
  | .schema s :: rest => Schema.nodes false s ++ Part.nodesOfAll rest
termination_by structural x => x

def Schema.nodesOfProperties : List (String × Schema) → List (Bool × Schema)
  | [] => []
  | (_, s) :: rest => Schema.nodes true s ++ Schema.nodesOfProperties rest
termination_by structural x => x

def Value.nodes : Value → List (Bool × Schema)
  | .schema s => Schema.nodes false s
  | .tuple items => Value.nodesOfAll items
  | _ => []
termination_by structural x => x

def Value.nodesOfAll : List Value → List (Bool × Schema)
  | [] => []
  | v :: rest => Value.nodes v ++ Value.nodesOfAll rest
termination_by structural x => x

def Value.nodesOfFields : List (String × Value) → List (Bool × Schema)
  | [] => []
  | (_, v) :: rest => Value.nodes v ++ Value.nodesOfFields rest
termination_by structural x => x

def Shape.nodes : Shape → List (Bool × Schema)
  | .callable _ parameters returns => Schema.nodesOfAll parameters ++ Schema.nodes false returns
  | .promise item => Schema.nodes false item
  | .template parts => Part.nodesOfAll parts
  | .array items => Schema.nodes false items
  | .tuple items => Schema.nodesOfAll items
  | .object properties additional =>
    Schema.nodesOfProperties properties ++ Value.nodes additional
  | .record key value => Schema.nodes false key ++ Schema.nodes false value
  | .union variants => Schema.nodesOfAll variants
  | .intersect variants => Schema.nodesOfAll variants
  | .user _ fields => Value.nodesOfFields fields
  | _ => []
termination_by structural x => x

end

mutual

-- Data that a field of a user kind can hold: scalars, schemas, and tuples of these.
def Value.isContent : Value → Bool
  | .null => true
  | .scalar _ => true
  | .schema _ => true
  | .tuple items => Value.areContent items
  | _ => false
termination_by structural x => x

def Value.areContent : List Value → Bool
  | [] => true
  | v :: rest => Value.isContent v && Value.areContent rest
termination_by structural x => x

end

-- Policies for undeclared properties: none, a truth value or a schema.
def Value.isPolicy : Value → Bool
  | .null => true
  | .scalar (.bool _) => true
  | .schema _ => true
  | _ => false

-- Shapes as the constructors of their kinds make them. A user kind is registered, and the class
-- that was declared for it makes the shape of some arguments.
def Shape.Proper (r : Registry) (c : Catalog) : Shape → Prop
  | .object properties additional =>
    (properties.map Prod.fst).Nodup ∧ additional.isPolicy = true
  | .user kind fields => r.has kind = true ∧ (∀ f ∈ fields, f.2.isContent = true) ∧
    ∃ d given, c.find? kind = some d ∧ d.shape given = .ok (.user kind fields)
  | _ => True

-- A field called `kind` is no field in a document, so it has to be left at its default, which is
-- the kind.
def Shape.NamesKind (c : Catalog) : Shape → Prop
  | .user kind fields => ∀ v, fields.lookup "kind" = some v → v = .text kind ∧
    ∀ d, c.find? kind = some d → d.fields.lookup "kind" = some (.value v)
  | _ => True

mutual

-- Data that a field gives back after it was written: tables are kept as they are, so long as they
-- name no kind.
def Value.isKept : Value → Bool
  | .null => true
  | .scalar _ => true
  | .schema _ => true
  | .tuple items => Value.areKept items
  | .table entries => (Entries.find? entries "kind").isNone
  | .list _ => false
termination_by structural x => x

def Value.areKept : List Value → Bool
  | [] => true
  | v :: rest => Value.isKept v && Value.areKept rest
termination_by structural x => x

end

-- Policies that come back: a table would be read as a document.
def Value.isKeptPolicy : Value → Bool
  | .tuple _ => false
  | .table _ => false
  | _ => true

-- Shapes of which documents keep everything.
def Shape.Kept (r : Registry) (c : Catalog) : Shape → Prop
  | .object properties additional =>
    (properties.map Prod.fst).Nodup ∧ additional.isKeptPolicy = true
  | .user kind fields => (r.has kind = true ∧ (∀ f ∈ fields, f.2.isKept = true) ∧
      ∃ d given, c.find? kind = some d ∧ d.shape given = .ok (.user kind fields)) ∧
    (Shape.user kind fields).NamesKind c
  | _ => True

mutual

theorem Value.isContent_kept : (v : Value) → v.isContent = true → v.isKept = true
  | .null, _ => rfl
  | .scalar _, _ => rfl
  | .schema _, _ => rfl
  | .tuple items, content => Value.areContent_kept items content
termination_by structural x => x

theorem Value.areContent_kept : (items : List Value) → Value.areContent items = true →
    Value.areKept items = true
  | [], _ => rfl
  | v :: rest, content => by
    obtain ⟨first, following⟩ := Bool.and_eq_true_iff.mp content
    simp only [Value.areKept, Value.isContent_kept v first, Value.areContent_kept rest following,
      Bool.and_self]
termination_by structural x => x

end

theorem Shape.Proper.kept {r : Registry} {c : Catalog} {shape : Shape} (proper : shape.Proper r c)
    (namesKind : shape.NamesKind c) : shape.Kept r c := by
  cases shape with
  | object properties additional =>
    obtain ⟨distinct, policy⟩ := proper
    refine ⟨distinct, ?_⟩
    cases additional with
    | null | scalar _ | schema _ => rfl
    | list _ | tuple _ | table _ => cases policy
  | user kind fields =>
    obtain ⟨registered, content, made⟩ := proper
    exact ⟨⟨registered, fun f member => Value.isContent_kept f.2 (content f member), made⟩,
      namesKind⟩
  | _ => trivial

theorem rereadFields_eq (fields : List (String × Value)) :
    Value.rereadFields fields = fields.map fun f => (f.1, f.2.reread) := by
  induction fields with
  | nil => rfl
  | cons f rest ih => simp [Value.rereadFields, ih]

theorem kindOf_reread (d : Declaration) (fields : List (String × Value)) :
    d.kindOf? (Value.rereadFields fields) = d.kindOf? fields := by
  have found : ∀ name, (Value.rereadFields fields).lookup name =
      (fields.lookup name).map Value.reread := by
    intro name
    induction fields with
    | nil => rfl
    | cons f rest ih =>
      obtain ⟨other, v⟩ := f
      rw [Value.rereadFields, List.lookup_cons, List.lookup_cons]
      split
      · rfl
      · exact ih
  unfold Declaration.kindOf?
  rw [found, found, ← Option.map_or]
  cases (fields.lookup "kind").or (fields.lookup "_kind") with
  | none => rfl
  | some v => cases v <;> rfl

-- Only properties may be absent.
def Flagged (nodes : List (Bool × Schema)) : Prop := ∀ p ∈ nodes, p.2.optional = true → p.1 = true

instance (nodes : List (Bool × Schema)) : Decidable (Flagged nodes) :=
  inferInstanceAs (Decidable (∀ p ∈ nodes, p.2.optional = true → p.1 = true))

theorem flagged_append {nodes others : List (Bool × Schema)} :
    Flagged (nodes ++ others) ↔ Flagged nodes ∧ Flagged others := by
  unfold Flagged
  exact List.forall_mem_append

theorem Flagged.self {s : Schema} (flagged : Flagged (s.nodes false)) : s.optional = false := by
  obtain ⟨mark, id, optional, shape⟩ := s
  have here := flagged _ List.mem_cons_self
  cases optional with
  | false => rfl
  | true => cases here rfl

mutual

-- Then nothing changes but marks.
theorem reread_erase {property : Bool} : (s : Schema) → Flagged (s.nodes property) →
    (s.reread s.optional).erase = s.erase
  | .mk mark id optional shape, flagged => by
    have inside := shape_reread_erase shape fun p member =>
      flagged p (List.mem_cons_of_mem _ member)
    simp only [Schema.reread, Schema.erase, Schema.optional, inside]
termination_by structural x => x

theorem reread_erase_false : (s : Schema) → Flagged (s.nodes false) →
    (s.reread false).erase = s.erase
  | .mk mark id optional shape, flagged => by
    have inside := shape_reread_erase shape fun p member =>
      flagged p (List.mem_cons_of_mem _ member)
    have absent : optional = false := flagged.self
    simp only [Schema.reread, Schema.erase, inside, absent]
termination_by structural x => x

theorem rereadAll_erase : (schemas : List Schema) → Flagged (Schema.nodesOfAll schemas) →
    Schema.eraseAll (Schema.rereadAll schemas) = Schema.eraseAll schemas
  | [], _ => rfl
  | s :: rest, flagged => by
    obtain ⟨here, others⟩ := flagged_append.mp flagged
    simp only [Schema.rereadAll, Schema.eraseAll, reread_erase_false s here,
      rereadAll_erase rest others]
termination_by structural x => x

theorem parts_reread_erase : (parts : List Part) → Flagged (Part.nodesOfAll parts) →
    Part.eraseAll (Part.rereadAll parts) = Part.eraseAll parts
  | [], _ => rfl
  | .text s :: rest, flagged => by
    simp only [Part.rereadAll, Part.eraseAll, parts_reread_erase rest flagged]
  | .schema s :: rest, flagged => by
    obtain ⟨here, others⟩ := flagged_append.mp flagged
    simp only [Part.rereadAll, Part.eraseAll, reread_erase_false s here,
      parts_reread_erase rest others]
termination_by structural x => x

theorem properties_reread_erase : (properties : List (String × Schema)) →
    Flagged (Schema.nodesOfProperties properties) →
    Schema.eraseProperties (Schema.rereadProperties properties) = Schema.eraseProperties properties
  | [], _ => rfl
  | (name, s) :: rest, flagged => by
    obtain ⟨here, others⟩ := flagged_append.mp flagged
    simp only [Schema.rereadProperties, Schema.eraseProperties, reread_erase s here,
      properties_reread_erase rest others]
termination_by structural x => x

theorem value_reread_erase : (v : Value) → Flagged v.nodes → v.reread.erase = v.erase
  | .null, _ => rfl
  | .scalar _, _ => rfl
  | .list _, _ => rfl
  | .table _, _ => rfl
  | .tuple items, flagged => by
    simp only [Value.reread, Value.erase, values_reread_erase items flagged]
  | .schema s, flagged => by
    simp only [Value.reread, Value.erase, reread_erase_false s flagged]
termination_by structural x => x

theorem values_reread_erase : (items : List Value) → Flagged (Value.nodesOfAll items) →
    Value.eraseAll (Value.rereadAll items) = Value.eraseAll items
  | [], _ => rfl
  | v :: rest, flagged => by
    obtain ⟨here, others⟩ := flagged_append.mp flagged
    simp only [Value.rereadAll, Value.eraseAll, value_reread_erase v here,
      values_reread_erase rest others]
termination_by structural x => x

theorem fields_reread_erase : (fields : List (String × Value)) →
    Flagged (Value.nodesOfFields fields) →
    Value.eraseFields (Value.rereadFields fields) = Value.eraseFields fields
  | [], _ => rfl
  | (name, v) :: rest, flagged => by
    obtain ⟨here, others⟩ := flagged_append.mp flagged
    simp only [Value.rereadFields, Value.eraseFields, value_reread_erase v here,
      fields_reread_erase rest others]
termination_by structural x => x

theorem shape_reread_erase : (shape : Shape) → Flagged shape.nodes →
    shape.reread.erase = shape.erase
  | .basic _, _ => rfl
  | .literal _, _ => rfl
  | .reference _ _, _ => rfl
  | .callable form parameters returns, flagged => by
    obtain ⟨first, second⟩ := flagged_append.mp flagged
    simp only [Shape.reread, Shape.erase, rereadAll_erase parameters first,
      reread_erase_false returns second]
  | .promise item, flagged => by
    simp only [Shape.reread, Shape.erase, reread_erase_false item flagged]
  | .template parts, flagged => by
    simp only [Shape.reread, Shape.erase, parts_reread_erase parts flagged]
  | .array items, flagged => by
    simp only [Shape.reread, Shape.erase, reread_erase_false items flagged]
  | .tuple items, flagged => by
    simp only [Shape.reread, Shape.erase, rereadAll_erase items flagged]
  | .object properties additional, flagged => by
    obtain ⟨first, second⟩ := flagged_append.mp flagged
    simp only [Shape.reread, Shape.erase, properties_reread_erase properties first,
      value_reread_erase additional second]
  | .record key value, flagged => by
    obtain ⟨first, second⟩ := flagged_append.mp flagged
    simp only [Shape.reread, Shape.erase, reread_erase_false key first,
      reread_erase_false value second]
  | .union variants, flagged => by
    simp only [Shape.reread, Shape.erase, rereadAll_erase variants flagged]
  | .intersect variants, flagged => by
    simp only [Shape.reread, Shape.erase, rereadAll_erase variants flagged]
  | .user kind fields, flagged => by
    simp only [Shape.reread, Shape.erase, fields_reread_erase fields flagged]
termination_by structural x => x

end

namespace Document

open Entries (entry named find?)

section
variable {r : Registry} {c : Catalog}

-- Content that is read back, behind any id.
def Reads (r : Registry) (c : Catalog) (shape : Shape) (body : Entries) : Prop :=
  ∀ id optional, ∃ entries, assemble shape.kind id body = .table entries ∧
    (find? entries "kind").isSome = true ∧
    decode r c optional (.table entries) = .ok (.mk 0 id optional shape.reread)

-- An assembled document has the content under every name that is not taken.
def Holds (fields : List (String × Value)) (entries : Entries) : Prop :=
  ∀ name, name ∉ ["kind", "$id"] → find? entries name = fields.lookup name

theorem reads_of_shape {shape : Shape} {fields : List (String × Value)}
    (fits : Fits shape.kind fields)
    (read : ∀ id entries,
      entries = header shape.kind id ++ named (fields.filter fun f => f.1 != "kind") →
      Holds fields entries →
      shapeOf r c (view r c entries) (.text shape.kind.name) = .ok shape.reread) :
    Reads r c shape (named fields) := by
  intro id optional
  have isKind : find? (header shape.kind id ++ named (fields.filter fun f => f.1 != "kind"))
      "kind" = some (.text shape.kind.name) := by
    rw [Entries.find?_append, header_kind, Option.some_or]
  have isId : (find? (header shape.kind id ++ named (fields.filter fun f => f.1 != "kind"))
      "$id").getD .null = id := by
    rw [Entries.find?_append]
    have absent : find? (named (fields.filter fun f => f.1 != "kind")) "$id" = none := by
      rw [Entries.find?_named, List.lookup_eq_none_iff]
      intro f member
      have inside := List.mem_map_of_mem (f := Prod.fst) (List.mem_filter.mp member).1
      simpa using fun same : "$id" = f.1 => fits.noId (same ▸ inside)
    rw [absent, Option.or_none, header_id]
  refine ⟨_, assemble_named fits id, by rw [isKind]; rfl, ?_⟩
  have holds : Holds fields
      (header shape.kind id ++ named (fields.filter fun f => f.1 != "kind")) := by
    intro name free
    simp only [List.mem_cons, List.not_mem_nil, or_false, not_or] at free
    exact find?_content free.1 free.2
  rw [decode_table isKind, isId, read id _ rfl holds]
  rfl

namespace Holds

variable {fields : List (String × Value)} {entries : Entries}
  (holds : Holds fields entries) (name : String) (free : name ∉ ["kind", "$id"])
include holds free

theorem value {v : Value} (there : fields.lookup name = some v) :
    (view r c entries).value? name = some v :=
  (holds name free).trans there

theorem schema {v : Value} {s : Schema} (there : fields.lookup name = some v)
    (read : decode r c false v = .ok s) : (view r c entries).schema? name = some (.ok s) := by
  show schemaAt r c name entries = _
  rw [schemaAt_eq, holds name free, there, Option.map_some, read]

theorem schemas {documents : List Value} {schemas : List Schema}
    (there : fields.lookup name = some (.list documents))
    (read : decodeItems r c documents = .ok schemas) :
    (view r c entries).schemas? name = some (.ok schemas) := by
  show schemasAt r c name entries = _
  rw [schemasAt_eq, holds name free, there, Option.map_some, decodeEach, read]

theorem parts {documents : List Value} {parts : List Part}
    (there : fields.lookup name = some (.list documents))
    (read : decodePartItems r c documents = .ok parts) :
    (view r c entries).parts? name = some (.ok parts) := by
  show partsAt r c name entries = _
  rw [partsAt_eq, holds name free, there, Option.map_some, decodeParts, read]

end Holds

-- Content of a built-in kind.
theorem reads_builtin {shape : Shape} {fields : List (String × Value)}
    (builtin : Kind.ofName? shape.kind.name = some shape.kind)
    (distinct : (fields.map Prod.fst).Nodup) (noId : "$id" ∉ fields.map Prod.fst)
    (noKind : "kind" ∉ fields.map Prod.fst)
    (read : ∀ entries, Holds fields entries →
      builtinShape c (view r c entries) shape.kind = .ok shape.reread) :
    Reads r c shape (named fields) := by
  refine reads_of_shape ⟨distinct, noId, fun v found => ?_⟩ fun id entries _ holds => ?_
  · exact absurd (List.mem_map.mpr ⟨("kind", v), lookup_mem found, rfl⟩) noKind
  · simp only [shapeOf, builtin, read entries holds]

theorem basicBody_named (b : Basic) : ∃ fields : List (String × Value),
    basicBody b = named fields ∧ (fields.map Prod.fst).Nodup ∧
      fields.map Prod.fst ⊆ ["not", "type"] := by
  cases b
  case any | unknown => exact ⟨[], rfl, by simp⟩
  case never => exact ⟨[("not", _)], rfl, by simp⟩
  all_goals exact ⟨[("type", _)], rfl, by simp⟩

theorem reads_basic (b : Basic) : Reads r c (.basic b) (basicBody b) := by
  obtain ⟨fields, body, distinct, names⟩ := basicBody_named b
  rw [body]
  refine reads_builtin ?_ distinct (fun isId => ?_) (fun isKind => ?_) fun entries _ => ?_
  · cases b <;> rfl
  · exact absurd (names isId) (by decide)
  · exact absurd (names isKind) (by decide)
  · cases b <;> rfl

theorem reads_literal (value : Scalar) : Reads r c (.literal value)
    (named [("const", .scalar value), ("type", .text (literalType value))]) := by
  refine reads_builtin rfl (by simp) (by simp) (by simp) fun entries holds => ?_
  simp only [Shape.kind, builtinShape, demandValue, holds.value "const" (by decide) rfl]
  rfl

theorem reads_callable {form : CallForm} {parameters : List Schema} {returns : Schema}
    {documents : List Value} {document : Value}
    (each : decodeItems r c documents = .ok (Schema.rereadAll parameters))
    (one : decode r c false document = .ok (returns.reread false)) :
    Reads r c (.callable form parameters returns) (named [("type", .text form.kind.name),
      ("parameters", .list documents), ("returns", document)]) := by
  refine reads_builtin (by cases form <;> rfl) (by simp) (by simp) (by simp)
    fun entries holds => ?_
  have first := holds.schemas "parameters" (by decide) rfl each
  have second := holds.schema "returns" (by decide) rfl one
  cases form <;> simp only [Shape.kind, CallForm.kind, builtinShape, first, second] <;> rfl

theorem reads_promise {item : Schema} {document : Value}
    (one : decode r c false document = .ok (item.reread false)) :
    Reads r c (.promise item) (named [("type", .text "Promise"), ("item", document)]) := by
  refine reads_builtin rfl (by simp) (by simp) (by simp) fun entries holds => ?_
  simp only [Shape.kind, builtinShape, holds.schema "item" (by decide) rfl one]
  rfl

theorem reads_template {parts : List Part} {documents : List Value}
    (each : decodePartItems r c documents = .ok (Part.rereadAll parts)) :
    Reads r c (.template parts) (named [("type", .text "string"), ("parts", .list documents)]) := by
  refine reads_builtin rfl (by simp) (by simp) (by simp) fun entries holds => ?_
  simp only [Shape.kind, builtinShape, holds.parts "parts" (by decide) rfl each]
  rfl

theorem reads_array {items : Schema} {document : Value}
    (one : decode r c false document = .ok (items.reread false)) :
    Reads r c (.array items) (named [("type", .text "array"), ("items", document)]) := by
  refine reads_builtin rfl (by simp) (by simp) (by simp) fun entries holds => ?_
  simp only [Shape.kind, builtinShape, holds.schema "items" (by decide) rfl one]
  rfl

-- Without items, none are written.
theorem reads_tuple {items : List Schema} {documents : List Value} (count : Value)
    (each : decodeItems r c documents = .ok (Schema.rereadAll items)) :
    Reads r c (.tuple items) (named ([("type", .text "array"), ("minItems", count),
      ("maxItems", count)] ++ if items.isEmpty then [] else [("items", .list documents)])) := by
  refine reads_builtin rfl ?_ ?_ ?_ fun entries holds => ?_
  · cases items <;> simp
  · cases items <;> simp
  · cases items <;> simp
  · cases items with
    | nil =>
      have absent : (view r c entries).schemas? "items" = none := by
        show schemasAt r c "items" entries = none
        rw [schemasAt_eq, holds "items" (by decide)]
        rfl
      simp only [Shape.kind, builtinShape, absent]
      rfl
    | cons s rest =>
      simp only [Shape.kind, builtinShape, holds.schemas "items" (by decide) rfl each]
      rfl

theorem reads_record {key value : Schema} {document document' : Value}
    (first : decode r c false document = .ok (key.reread false))
    (second : decode r c false document' = .ok (value.reread false)) :
    Reads r c (.record key value) (named [("type", .text "object"), ("key", document),
      ("patternProperties", .table [entry (patternOf key) document'])]) := by
  refine reads_builtin rfl (by simp) (by simp) (by simp) fun entries holds => ?_
  have pattern : (view r c entries).pattern? "patternProperties" =
      some (.ok (.text (patternOf key), decode r c false document')) :=
    patternAt_table (holds "patternProperties" (by decide))
  simp only [Shape.kind, builtinShape, pattern, second, holds.schema "key" (by decide) rfl first]
  rfl

theorem reads_union {variants : List Schema} {documents : List Value}
    (each : decodeItems r c documents = .ok (Schema.rereadAll variants)) :
    Reads r c (.union variants) (named [("anyOf", .list documents)]) := by
  refine reads_builtin rfl (by simp) (by simp) (by simp) fun entries holds => ?_
  simp only [Shape.kind, builtinShape, holds.schemas "anyOf" (by decide) rfl each]
  rfl

theorem reads_intersect {variants : List Schema} {documents : List Value}
    (each : decodeItems r c documents = .ok (Schema.rereadAll variants)) :
    Reads r c (.intersect variants) (named [("allOf", .list documents)]) := by
  refine reads_builtin rfl (by simp) (by simp) (by simp) fun entries holds => ?_
  simp only [Shape.kind, builtinShape, holds.schemas "allOf" (by decide) rfl each]
  rfl

theorem reads_reference (form : ReferenceForm) (target : Value) :
    Reads r c (.reference form target) (named [("$ref", target)]) := by
  refine reads_builtin (by cases form <;> rfl) (by simp) (by simp) (by simp)
    fun entries holds => ?_
  have there := @Holds.value r c _ _ holds "$ref" (by decide) _ rfl
  cases form <;>
    simp only [Shape.kind, ReferenceForm.kind, builtinShape, demandValue, there] <;> rfl

-- With one property of each name, a name is required exactly if its property is not optional.
theorem required_any {properties : List (String × Schema)}
    (distinct : (properties.map Prod.fst).Nodup) {p : String × Schema} (member : p ∈ properties) :
    ((requiredNames properties).map Value.text).any (·.isText p.1) = !p.2.optional := by
  rw [Bool.eq_iff_iff]
  simp only [requiredNames, List.map_map, List.any_eq_true, List.mem_map, List.mem_filter,
    Bool.not_eq_true', Function.comp_apply, isText_iff]
  constructor
  · rintro ⟨_, ⟨q, ⟨inside, present⟩, rfl⟩, same⟩
    have name : q.1 = p.1 := by simpa using same
    have first := lookup_of_nodup distinct (show (p.1, q.2) ∈ properties from name ▸ inside)
    have second := lookup_of_nodup distinct (show (p.1, p.2) ∈ properties from member)
    rw [← Option.some.inj (first.symm.trans second)]
    exact present
  · exact fun present => ⟨_, ⟨p, ⟨member, present⟩, rfl⟩, rfl⟩

theorem requiredSet_texts (names : List String) :
    requiredSet (if names.isEmpty then none else some (.list (names.map Value.text))) =
      .ok (names.map Value.text) := by
  have keys : Value.areKeys (names.map Value.text) = true := by
    induction names with
    | nil => rfl
    | cons name rest ih => exact ih
  cases names with
  | nil => rfl
  | cons name rest => simp only [List.isEmpty_cons, Bool.false_eq_true, if_false, requiredSet,
      Value.items?, keys, if_true]

-- The content of an object: the required names only if there are any, then the policy.
def objectContent (required : List String) (properties : Entries) (policy : Option Value) :
    List (String × Value) :=
  [("type", .text "object"), ("properties", .table properties)] ++
    (if required.isEmpty then [] else [("required", .list (required.map Value.text))]) ++
    policy.toList.map fun v => ("additionalProperties", v)

theorem objectContent_names (required : List String) (properties : Entries)
    (policy : Option Value) : ((objectContent required properties policy).map Prod.fst).Nodup ∧
      "$id" ∉ (objectContent required properties policy).map Prod.fst ∧
      "kind" ∉ (objectContent required properties policy).map Prod.fst := by
  unfold objectContent
  cases required <;> cases policy <;> simp

theorem objectContent_required (required : List String) (properties : Entries)
    (policy : Option Value) : (objectContent required properties policy).lookup "required" =
      if required.isEmpty then none else some (.list (required.map Value.text)) := by
  unfold objectContent
  cases required <;> cases policy <;> rfl

theorem objectContent_policy (required : List String) (properties : Entries)
    (policy : Option Value) :
    (objectContent required properties policy).lookup "additionalProperties" = policy := by
  unfold objectContent
  cases required <;> cases policy <;> rfl

theorem reads_object {properties : List (String × Schema)} {additional : Value}
    {documents : List (String × Value)} {policy : Option Value}
    (distinct : (properties.map Prod.fst).Nodup)
    (each : ∀ required, (∀ p ∈ properties, required.any (·.isText p.1) = !p.2.optional) →
      decodeProperties r c required (named documents) = .ok (Schema.rereadProperties properties))
    (other : (policy.map fun v => additionalOf (decode r c false v) v).getD (.ok .null) =
      .ok additional.reread) :
    Reads r c (.object properties additional)
      (named (objectContent (requiredNames properties) (named documents) policy)) := by
  obtain ⟨differ, noId, noKind⟩ :=
    objectContent_names (requiredNames properties) (named documents) policy
  refine reads_builtin rfl differ noId noKind fun entries holds => ?_
  have required : (view r c entries).value? "required" = _ :=
    (holds "required" (by decide)).trans (objectContent_required _ _ _)
  have inside : (view r c entries).properties? ((requiredNames properties).map Value.text)
      "properties" = some (.ok (Schema.rereadProperties properties)) := by
    have found := propertiesAt_table (r := r) (c := c) (holds "properties" (by decide))
      ((requiredNames properties).map Value.text)
    rw [each _ fun p member => required_any distinct member] at found
    exact found
  have extra : (view r c entries).additional? "additionalProperties" =
      policy.map fun v => additionalOf (decode r c false v) v := by
    show additionalAt r c "additionalProperties" entries = _
    rw [additionalAt_eq, holds "additionalProperties" (by decide), objectContent_policy]
  simp only [Shape.kind, builtinShape, required, requiredSet_texts, extra]
  show (((view r c entries).properties? ((requiredNames properties).map Value.text)
    "properties").getD (.ok []) >>= _) = _
  rw [inside, other]
  rfl

-- A document that a field is read back from. Scalars are their own documents.
structure Restores (r : Registry) (c : Catalog) (v document : Value) : Prop where
  read : decodeField r c (decode r c false document) document = .ok v.reread
  scalar : ∀ s, v = .scalar s → document = .scalar s

-- Fields with the documents they are read back from.
def RestoresAll (r : Registry) (c : Catalog) :
    List (String × Value) → List (String × Value) → Prop :=
  List.Forall₂ fun f g => f.1 = g.1 ∧ Restores r c f.2 g.2

theorem RestoresAll.names {fields documents : List (String × Value)}
    (all : RestoresAll r c fields documents) : documents.map Prod.fst = fields.map Prod.fst := by
  induction all with
  | nil => rfl
  | cons one _ ih => rw [List.map_cons, List.map_cons, ih, one.1]

theorem RestoresAll.scalar {fields documents : List (String × Value)}
    (all : RestoresAll r c fields documents) {name : String} {s : Scalar}
    (found : fields.lookup name = some (.scalar s)) :
    documents.lookup name = some (.scalar s) := by
  induction all with
  | nil => cases found
  | @cons f g _ _ one _ ih =>
    obtain ⟨other, v⟩ := f
    obtain ⟨_, document⟩ := g
    obtain ⟨rfl, restores⟩ := one
    rw [List.lookup_cons] at found ⊢
    cases same : name == other with
    | true =>
      simp only [same] at found ⊢
      exact congrArg some (restores.scalar s (Option.some.inj found))
    | false =>
      simp only [same] at found ⊢
      exact ih found

-- Every field but the kind is read back.
theorem RestoresAll.read {fields documents : List (String × Value)}
    (all : RestoresAll r c fields documents) (noId : "$id" ∉ fields.map Prod.fst) :
    decodeFields r c ["kind", "$id"] (named (documents.filter fun f => f.1 != "kind")) =
      .ok ((Value.rereadFields fields).filter fun f => f.1 != "kind") := by
  induction all with
  | nil => rfl
  | @cons f g _ _ one _ ih =>
    obtain ⟨name, v⟩ := f
    obtain ⟨_, document⟩ := g
    obtain ⟨rfl, restores⟩ := one
    simp only [List.map_cons, List.mem_cons, not_or] at noId
    rw [Value.rereadFields]
    by_cases isKind : name = "kind"
    · rw [List.filter_cons_of_neg (by simp [isKind]), List.filter_cons_of_neg (by simp [isKind])]
      exact ih noId.2
    · have listed : ["kind", "$id"].contains name = false := by
        simpa [isKind] using fun same => noId.1 same.symm
      rw [List.filter_cons_of_pos (by simpa using isKind),
        List.filter_cons_of_pos (by simpa using isKind), Entries.named_cons, entry, decodeFields,
        listed, restores.read, ih noId.2]
      rfl

theorem decodeFields_header (kind : Kind) (id : Value) (rest : Entries) :
    decodeFields r c ["kind", "$id"] (header kind id ++ rest) =
      decodeFields r c ["kind", "$id"] rest := by
  unfold header
  cases id <;> simp [entry, decodeFields, Value.isNull]

-- The class of the kind makes the same schema again, with the field called `kind` left to its
-- default.
theorem remade {kind : UserKind} {fields : List (String × Value)} {d : Declaration}
    {given : List (String × Value)} (proper : Catalog.Proper d)
    (made : d.shape given = .ok (.user kind fields))
    (default : ∀ v, fields.lookup "kind" = some v → v = .text kind ∧
      d.fields.lookup "kind" = some (.value v)) :
    d.shape ((Value.rereadFields fields).filter fun f => f.1 != "kind") =
      .ok (.user kind (Value.rereadFields fields)) := by
  obtain ⟨names, settable, own⟩ := Declaration.shape_spec made
  have sameNames : (Value.rereadFields fields).map Prod.fst = fields.map Prod.fst := by
    simp [rereadFields_eq, Function.comp_def]
  have distinct : ((Value.rereadFields fields).map Prod.fst).Nodup := by
    rw [sameNames, names]
    exact proper.distinct
  rw [← kindOf_reread] at own
  refine Declaration.shape_of_given (sameNames.trans names) settable own ?_ ?_
  · exact fun name member => (List.filter_sublist.map Prod.fst).subset member
  · intro f member g declared same
    by_cases isKind : f.1 = "kind"
    · right
      rw [rereadFields_eq] at member
      obtain ⟨⟨name, v⟩, inside, rfl⟩ := List.mem_map.mp member
      simp only at isKind same ⊢
      subst isKind
      obtain ⟨rfl, left⟩ := default v (lookup_of_nodup (names ▸ proper.distinct) inside)
      have here : d.fields.lookup "kind" = some g.2 :=
        lookup_of_nodup proper.distinct (same ▸ declared)
      refine ⟨?_, Option.some.inj (here.symm.trans left)⟩
      rw [List.lookup_eq_none_iff]
      intro other kept
      simpa using Ne.symm (by simpa using (List.mem_filter.mp kept).2)
    · left
      refine lookup_of_nodup ((List.filter_sublist.map Prod.fst).nodup distinct) ?_
      exact List.mem_filter.mpr ⟨member, by simpa using isKind⟩

theorem reads_user {kind : UserKind} {fields documents : List (String × Value)}
    (declared : c.Declared) (kept : (Shape.user kind fields).Kept r c)
    (all : RestoresAll r c fields documents) : Reads r c (.user kind fields) (named documents) := by
  obtain ⟨⟨registered, -, d, given, found, made⟩, namesKind⟩ := kept
  have classProper := declared.proper d (Catalog.find?_spec found).1
  have names := (Declaration.shape_spec made).1
  have noId : "$id" ∉ fields.map Prod.fst := names ▸ classProper.noId
  have fits : Fits (.user kind) documents := by
    refine ⟨by rw [all.names, names]; exact classProper.distinct, by rwa [all.names], ?_⟩
    intro v found
    have present : "kind" ∈ fields.map Prod.fst :=
      all.names ▸ List.mem_map.mpr ⟨_, lookup_mem found, rfl⟩
    obtain ⟨f, inside, same⟩ := List.mem_map.mp present
    have there : fields.lookup "kind" = some f.2 :=
      lookup_of_nodup (names ▸ classProper.distinct) (same ▸ inside)
    rw [(namesKind f.2 there).1] at there
    exact Option.some.inj (found.symm.trans (all.scalar there))
  refine reads_of_shape fits fun id entries whole holds => ?_
  have read : (view r c entries).fields ["kind", "$id"] =
      .ok ((Value.rereadFields fields).filter fun f => f.1 != "kind") := by
    show decodeFields r c ["kind", "$id"] entries = _
    rw [whole, decodeFields_header, all.read noId]
  have remade := remade classProper made fun v there =>
    ⟨(namesKind v there).1, (namesKind v there).2 d found⟩
  simp only [shapeOf, Shape.kind, Kind.name, kind.ofName_name, userShape, found, registered,
    if_true, read]
  exact remade

-- Everything inside is kept.
def AllKept (r : Registry) (c : Catalog) (nodes : List (Bool × Schema)) : Prop :=
  ∀ p ∈ nodes, p.2.shape.Kept r c

theorem allKept_append {nodes others : List (Bool × Schema)} :
    AllKept r c (nodes ++ others) ↔ AllKept r c nodes ∧ AllKept r c others := by
  unfold AllKept
  exact List.forall_mem_append

-- Everything inside is as it should be to be read back.
def Readable (r : Registry) (c : Catalog) (nodes : List (Bool × Schema)) : Prop :=
  ∀ p ∈ nodes, p.2.shape.Proper r c ∧ p.2.shape.NamesKind c

theorem Readable.allKept {nodes : List (Bool × Schema)} (readable : Readable r c nodes) :
    AllKept r c nodes :=
  fun p member => (readable p member).1.kept (readable p member).2

-- A schema is written as a table that tells its kind, from which it is read back.
def Returns (r : Registry) (c : Catalog) (scope : Scope) (s : Schema) : Prop :=
  ∀ optional, ∃ entries, encode r scope s = .ok (.table entries) ∧
    (find? entries "kind").isSome = true ∧
    decode r c optional (.table entries) = .ok (s.reread optional)

mutual

theorem returns_kept (declared : c.Declared) {property : Bool} : (s : Schema) →
    AllKept r c (s.nodes property) → (scope : Scope) → Returns r c scope s
  | .mk mark id optional shape, kept, scope => by
    obtain ⟨body, written, reads⟩ := returns_shape declared shape (kept _ List.mem_cons_self)
      (fun p member => kept p (List.mem_cons_of_mem _ member))
      (scope.push (.mk mark id optional shape))
    intro optional'
    obtain ⟨entries, assembled, tells, read⟩ := reads id optional'
    refine ⟨entries, ?_, tells, read⟩
    rw [encode, written, ← assembled]
    rfl
termination_by structural x => x

theorem returns_all (declared : c.Declared) : (schemas : List Schema) →
    AllKept r c (Schema.nodesOfAll schemas) → (scope : Scope) →
    ∃ documents, encodeAll r scope schemas = .ok documents ∧
      decodeItems r c documents = .ok (Schema.rereadAll schemas)
  | [], _, _ => ⟨[], rfl, rfl⟩
  | s :: rest, kept, scope => by
    obtain ⟨here, others⟩ := allKept_append.mp kept
    obtain ⟨entries, written, -, read⟩ := returns_kept declared s here scope false
    obtain ⟨documents, writtenAll, readAll⟩ := returns_all declared rest others scope
    refine ⟨.table entries :: documents, ?_, ?_⟩
    · rw [encodeAll, written, writtenAll]
      rfl
    · rw [decodeItems, read, readAll]
      rfl
termination_by structural x => x

theorem returns_parts (declared : c.Declared) : (parts : List Part) →
    AllKept r c (Part.nodesOfAll parts) → (scope : Scope) →
    ∃ documents, encodeParts r scope parts = .ok documents ∧
      decodePartItems r c documents = .ok (Part.rereadAll parts)
  | [], _, _ => ⟨[], rfl, rfl⟩
  | .text s :: rest, kept, scope => by
    obtain ⟨documents, writtenAll, readAll⟩ := returns_parts declared rest kept scope
    refine ⟨.text s :: documents, ?_, ?_⟩
    · rw [encodeParts, writtenAll]
      rfl
    · rw [decodePartItems, readAll]
      rfl
  | .schema s :: rest, kept, scope => by
    obtain ⟨here, others⟩ := allKept_append.mp kept
    obtain ⟨entries, written, -, read⟩ := returns_kept declared s here scope false
    obtain ⟨documents, writtenAll, readAll⟩ := returns_parts declared rest others scope
    refine ⟨.table entries :: documents, ?_, ?_⟩
    · rw [encodeParts, written, writtenAll]
      rfl
    · rw [decodePartItems, read, readAll]
      rfl
termination_by structural x => x

theorem returns_properties (declared : c.Declared) : (properties : List (String × Schema)) →
    AllKept r c (Schema.nodesOfProperties properties) → (scope : Scope) →
    ∃ documents, encodeProperties r scope properties = .ok (named documents) ∧
      ∀ required, (∀ p ∈ properties, required.any (·.isText p.1) = !p.2.optional) →
        decodeProperties r c required (named documents) = .ok (Schema.rereadProperties properties)
  | [], _, _ => ⟨[], rfl, fun _ _ => rfl⟩
  | (name, s) :: rest, kept, scope => by
    obtain ⟨here, others⟩ := allKept_append.mp kept
    obtain ⟨entries, written, -, read⟩ := returns_kept declared s here scope s.optional
    obtain ⟨documents, writtenAll, readAll⟩ := returns_properties declared rest others scope
    refine ⟨(name, .table entries) :: documents, ?_, fun required flags => ?_⟩
    · rw [encodeProperties, written, writtenAll]
      rfl
    · have flag := flags _ List.mem_cons_self
      simp only at flag
      rw [Entries.named_cons, entry, decodeProperties, flag, Bool.not_not, read,
        readAll required fun p member => flags p (List.mem_cons_of_mem _ member)]
      rfl
termination_by structural x => x

theorem returns_policy (declared : c.Declared) : (additional : Value) →
    additional.isKeptPolicy = true → AllKept r c additional.nodes → (scope : Scope) →
    ∃ policy : Option Value, encodeAdditional r scope additional =
        .ok (policy.toList.map fun v => entry "additionalProperties" v) ∧
      (policy.map fun v => additionalOf (decode r c false v) v).getD (.ok .null) =
        .ok additional.reread
  | .null, _, _, _ => ⟨none, rfl, rfl⟩
  | .scalar s, _, _, _ => ⟨some (.scalar s), rfl, rfl⟩
  | .list items, _, _, _ => ⟨some (.list items), rfl, rfl⟩
  | .schema s, _, kept, scope => by
    obtain ⟨entries, written, -, read⟩ := returns_kept declared s kept scope false
    refine ⟨some (.table entries), ?_, ?_⟩
    · rw [encodeAdditional, written]
      rfl
    · rw [Option.map_some, Option.getD_some, additionalOf, read]
      rfl
termination_by structural x => x

theorem returns_field (declared : c.Declared) : (v : Value) → v.isKept = true →
    AllKept r c v.nodes → (scope : Scope) →
    ∃ document, encodeField r scope v = .ok document ∧ Restores r c v document
  | .null, _, _, _ => ⟨.null, rfl, rfl, fun _ same => nomatch same⟩
  | .scalar s, _, _, _ => ⟨.scalar s, rfl, rfl, fun _ same => same⟩
  | .table entries, isKept, _, _ => by
    refine ⟨.table entries, rfl, ?_, fun _ same => nomatch same⟩
    rw [decodeField, Option.isNone_iff_eq_none.mp isKept]
    rfl
  | .schema s, _, kept, scope => by
    obtain ⟨entries, written, tells, read⟩ := returns_kept declared s kept scope false
    refine ⟨.table entries, written, ?_, fun _ same => nomatch same⟩
    rw [decodeField, tells, read]
    rfl
  | .tuple items, content, kept, scope => by
    obtain ⟨documents, written, read⟩ := returns_items declared items content kept scope
    refine ⟨.list documents, ?_, ?_, fun _ same => nomatch same⟩
    · rw [encodeField, written]
      rfl
    · rw [decodeField, read]
      rfl
termination_by structural x => x

theorem returns_items (declared : c.Declared) : (items : List Value) →
    Value.areKept items = true → AllKept r c (Value.nodesOfAll items) → (scope : Scope) →
    ∃ documents, encodeFieldItems r scope items = .ok documents ∧
      decodeFieldItems r c documents = .ok (Value.rereadAll items)
  | [], _, _, _ => ⟨[], rfl, rfl⟩
  | v :: rest, content, kept, scope => by
    obtain ⟨here, others⟩ := allKept_append.mp kept
    obtain ⟨first, following⟩ := Bool.and_eq_true_iff.mp content
    obtain ⟨document, written, restores⟩ := returns_field declared v first here scope
    obtain ⟨documents, writtenAll, readAll⟩ := returns_items declared rest following others scope
    refine ⟨document :: documents, ?_, ?_⟩
    · rw [encodeFieldItems, written, writtenAll]
      rfl
    · rw [decodeFieldItems, restores.read, readAll]
      rfl
termination_by structural x => x

theorem returns_fields (declared : c.Declared) : (fields : List (String × Value)) →
    (∀ f ∈ fields, f.2.isKept = true) → AllKept r c (Value.nodesOfFields fields) →
    (scope : Scope) → ∃ documents, encodeFields r scope fields = .ok (named documents) ∧
      RestoresAll r c fields documents
  | [], _, _, _ => ⟨[], rfl, .nil⟩
  | (name, v) :: rest, content, kept, scope => by
    obtain ⟨here, others⟩ := allKept_append.mp kept
    obtain ⟨document, written, restores⟩ :=
      returns_field declared v (content _ List.mem_cons_self) here scope
    obtain ⟨documents, writtenAll, all⟩ := returns_fields declared rest
      (fun f member => content f (List.mem_cons_of_mem _ member)) others scope
    refine ⟨(name, document) :: documents, ?_, .cons ⟨rfl, restores⟩ all⟩
    rw [encodeFields, written, writtenAll]
    rfl
termination_by structural x => x

theorem returns_shape (declared : c.Declared) : (shape : Shape) → shape.Kept r c →
    AllKept r c shape.nodes → (scope : Scope) →
    ∃ body, encodeShape r scope shape = .ok body ∧ Reads r c shape body
  | .basic b, _, _, _ => ⟨_, rfl, reads_basic b⟩
  | .literal value, _, _, _ => ⟨_, rfl, reads_literal value⟩
  | .callable form parameters returns, _, kept, scope => by
    obtain ⟨first, second⟩ := allKept_append.mp kept
    obtain ⟨documents, writtenAll, readAll⟩ := returns_all declared parameters first scope
    obtain ⟨entries, written, -, read⟩ := returns_kept declared returns second scope false
    refine ⟨_, ?_, reads_callable readAll read⟩
    rw [encodeShape, writtenAll, written]
    rfl
  | .promise item, _, kept, scope => by
    obtain ⟨entries, written, -, read⟩ := returns_kept declared item kept scope false
    refine ⟨_, ?_, reads_promise read⟩
    rw [encodeShape, written]
    rfl
  | .template parts, _, kept, scope => by
    obtain ⟨documents, writtenAll, readAll⟩ := returns_parts declared parts kept scope
    refine ⟨_, ?_, reads_template readAll⟩
    rw [encodeShape, writtenAll]
    rfl
  | .array items, _, kept, scope => by
    obtain ⟨entries, written, -, read⟩ := returns_kept declared items kept scope false
    refine ⟨_, ?_, reads_array read⟩
    rw [encodeShape, written]
    rfl
  | .tuple items, _, kept, scope => by
    obtain ⟨documents, writtenAll, readAll⟩ := returns_all declared items kept scope
    refine ⟨_, ?_, reads_tuple (.int items.length) readAll⟩
    rw [encodeShape, writtenAll]
    cases items <;> rfl
  | .object properties additional, whole, kept, scope => by
    obtain ⟨first, second⟩ := allKept_append.mp kept
    obtain ⟨documents, writtenAll, readAll⟩ := returns_properties declared properties first scope
    obtain ⟨policy, written, read⟩ := returns_policy declared additional whole.2 second scope
    refine ⟨_, ?_, reads_object whole.1 readAll read⟩
    rw [encodeShape, writtenAll, written]
    cases requiredNames properties <;> cases policy <;> rfl
  | .record key value, _, kept, scope => by
    obtain ⟨first, second⟩ := allKept_append.mp kept
    obtain ⟨entries, written, -, read⟩ := returns_kept declared key first scope false
    obtain ⟨entries', written', -, read'⟩ := returns_kept declared value second scope false
    refine ⟨_, ?_, reads_record read read'⟩
    rw [encodeShape, written, written']
    rfl
  | .union variants, _, kept, scope => by
    obtain ⟨documents, writtenAll, readAll⟩ := returns_all declared variants kept scope
    refine ⟨_, ?_, reads_union readAll⟩
    rw [encodeShape, writtenAll]
    rfl
  | .intersect variants, _, kept, scope => by
    obtain ⟨documents, writtenAll, readAll⟩ := returns_all declared variants kept scope
    refine ⟨_, ?_, reads_intersect readAll⟩
    rw [encodeShape, writtenAll]
    rfl
  | .reference form target, _, _, _ => ⟨_, rfl, reads_reference form target⟩
  | .user kind fields, whole, kept, scope => by
    obtain ⟨documents, writtenAll, all⟩ := returns_fields declared fields whole.1.2.1 kept scope
    refine ⟨_, ?_, reads_user declared whole all⟩
    rw [encodeShape, if_pos whole.1.1, writtenAll]
termination_by structural x => x

end

theorem returns_schema (declared : c.Declared) {property : Bool} (s : Schema)
    (readable : Readable r c (s.nodes property)) (scope : Scope) : Returns r c scope s :=
  returns_kept declared s readable.allKept scope

-- Written and read back, a schema is what it was, with marks gone and only properties keeping
-- whether they may be absent.
theorem decode_encode_reread (declared : c.Declared) {s : Schema}
    (proper : ∀ p ∈ s.nodes false, p.2.shape.Proper r c)
    (namesKind : ∀ p ∈ s.nodes false, p.2.shape.NamesKind c) (scope : Scope) :
    ∃ document, encode r scope s = .ok document ∧
      decode r c false document = .ok (s.reread false) ∧
      (Flagged (s.nodes false) → (s.reread false).erase = s.erase) := by
  have readable : Readable r c (s.nodes false) :=
    fun p member => ⟨proper p member, namesKind p member⟩
  obtain ⟨entries, written, -, read⟩ := returns_schema declared s readable scope false
  exact ⟨.table entries, written, read, reread_erase_false s⟩

end

-- A class with a field that must be given and one with a default. A schema of this class stands as
-- an optional property, and its field is a tuple with a schema inside.
def itemClass : Catalog :=
  [⟨"ItemType", "Item", [("content", .missing), ("count", .value (.int 1))]⟩]

def itemKind : UserKind := ⟨"Item", rfl⟩

def item : Schema :=
  .mk 0 .null true (.user itemKind
    [("content", .tuple [.null, .tuple [.schema (.basic .string)]]), ("count", .real (.nan 3))])

def itemObject : Schema :=
  .mk 0 (.text "object") false
    (.object [("item", item), ("sides", .plain (.tuple []))] (.bool false))

theorem itemClass_declared : itemClass.Declared :=
  .declare .nil (show Catalog.declare [] "ItemType" none
    [⟨"content", none⟩, ⟨"count", some (.int 1)⟩] = .ok (itemClass, "Item") from rfl)

theorem itemObject_comes_back :
    itemClass.Declared ∧ Flagged (itemObject.nodes false) ∧
    ∃ document, encode [("Item", none)] [] itemObject = .ok document ∧
      decode [("Item", none)] itemClass false document = .ok (itemObject.reread false) ∧
      (itemObject.reread false).erase = itemObject.erase := by
  have nodes : itemObject.nodes false = [(false, itemObject), (true, item), (false, .basic .string),
    (true, .plain (.tuple []))] := rfl
  have proper : ∀ p ∈ itemObject.nodes false, p.2.shape.Proper [("Item", none)] itemClass := by
    simp only [nodes, List.forall_mem_cons]
    refine ⟨⟨by decide, rfl⟩, ⟨rfl, by decide, ?_⟩, trivial, trivial, by simp⟩
    exact ⟨_, [("content", .tuple [.null, .tuple [.schema (.basic .string)]]),
      ("count", .real (.nan 3))], rfl, rfl⟩
  have namesKind : ∀ p ∈ itemObject.nodes false, p.2.shape.NamesKind itemClass := by
    simp only [nodes, List.forall_mem_cons]
    exact ⟨trivial, fun _ found => (nomatch found), trivial, trivial, by simp⟩
  have flagged : Flagged (itemObject.nodes false) := by decide
  obtain ⟨document, written, read, same⟩ :=
    decode_encode_reread itemClass_declared proper namesKind []
  exact ⟨itemClass_declared, flagged, document, written, read, same flagged⟩

-- A class with a field called `kind` whose default is another kind.
def tags : Catalog := [⟨"Tag", "K", [("kind", .value (.text "X"))]⟩]

def tag (kind : UserKind) : Schema := .plain (.user kind [("kind", .text kind)])

-- A schema of this class whose field holds the kind comes back as one of the other kind.
theorem tag_changes_kind :
    tags.Declared ∧
    (∀ p ∈ (tag ⟨"K", rfl⟩).nodes false, p.2.shape.Proper [("K", none), ("X", none)] tags) ∧
    ∃ document, encode [("K", none), ("X", none)] [] (tag ⟨"K", rfl⟩) = .ok document ∧
      decode [("K", none), ("X", none)] tags false document = .ok (tag ⟨"X", rfl⟩) ∧
      (tag ⟨"X", rfl⟩).kind ≠ ((tag ⟨"K", rfl⟩).reread false).kind := by
  have declared : tags.Declared :=
    .declare .nil (show Catalog.declare [] "Tag" (some "K") [⟨"kind", some (.text "X")⟩] =
      .ok (tags, "K") from rfl)
  refine ⟨declared, List.forall_mem_cons.mpr ⟨?_, by simp [Shape.nodes, Value.nodesOfFields,
    Value.nodes]⟩, _, rfl, rfl, by decide⟩
  exact ⟨rfl, by decide, _, [("kind", .text "K")], rfl, rfl⟩

end Document

end Assignability
