import Assignability.Proofs.JsonText
import Assignability.Proofs.RoundTrip
import Assignability.Session

namespace Assignability

-- A text tells data exactly, so long as nothing in it is a fraction and its ids and targets are
-- names.

mutual

-- Data of a field that a text tells exactly: no fractions, no tables.
def Value.isExact : Value → Bool
  | .null => true
  | .scalar s => Json.isExact s
  | .schema _ => true
  | .tuple items => Value.areExact items
  | _ => false
termination_by structural x => x

def Value.areExact : List Value → Bool
  | [] => true
  | v :: rest => Value.isExact v && Value.areExact rest
termination_by structural x => x

end

def Value.isName : Value → Bool
  | .scalar (.text _) => true
  | _ => false

def Shape.Exact (r : Registry) : Shape → Prop
  | .literal value => Json.isExact value = true
  | .object properties additional =>
    (properties.map Prod.fst).Nodup ∧ additional.isPolicy = true
  | .reference _ target => target.isName = true
  | .user kind fields => r.has kind = true ∧ ∀ f ∈ fields, f.2.isExact = true
  | _ => True

-- A schema that a text tells exactly, apart from the schemas inside it.
def Schema.Exact (r : Registry) (s : Schema) : Prop :=
  (s.id.isNull = true ∨ s.id.isName = true) ∧ s.shape.Exact r

namespace Document

open Entries (entry named find?)

-- Data that a text tells exactly.
def IsExact (v : Value) : Prop := v.isData Json.isExact = true

@[simp]
theorem isExact_text (s : String) : IsExact (.text s) := rfl

@[simp]
theorem isExact_int (n : Int) : IsExact (.int n) := rfl

theorem isExact_name {v : Value} (isName : v.isName = true) : IsExact v := by
  unfold Value.isName at isName
  split at isName
  · rfl
  · cases isName

theorem areData_of_all {items : List Value} (all : ∀ v ∈ items, IsExact v) :
    Value.areData Json.isExact items = true := by
  induction items with
  | nil => rfl
  | cons v rest ih =>
    obtain ⟨here, others⟩ := List.forall_mem_cons.mp all
    exact Bool.and_eq_true_iff.mpr ⟨here, ih others⟩

theorem find?_insert {entries : Entries} {name other : String} (differs : other ≠ name)
    (v : Value) : find? (entries.insert (.text name) v) other = find? entries other := by
  induction entries with
  | nil => simp [Entries.insert, Assoc.insertBy, find?, Value.isText, differs.symm]
  | cons e rest ih =>
    obtain ⟨key, w⟩ := e
    unfold Entries.insert at ih ⊢
    rw [Assoc.insertBy, same_text]
    split
    · rename_i isName
      cases isText_iff.mp isName
      simp [Entries.find?_cons, Value.isText, differs.symm]
    · rw [Entries.find?_cons, Entries.find?_cons, ih]

-- An entry that is put in or replaced leaves the names apart.
theorem insert_data {entries : Entries} (data : Value.entriesData Json.isExact entries = true)
    (name : String) {v : Value} (exact : IsExact v) :
    Value.entriesData Json.isExact (entries.insert (.text name) v) = true := by
  induction entries with
  | nil => exact entriesData_cons.mpr ⟨rfl, exact, rfl⟩
  | cons e rest ih =>
    obtain ⟨key, w⟩ := e
    obtain ⟨fresh, here, others⟩ := entriesData_cons.mp data
    have unfolded : Entries.insert ((key, w) :: rest) (.text name) v =
        if key.isText name then (key, v) :: rest
        else (key, w) :: Entries.insert rest (.text name) v := by
      unfold Entries.insert
      rw [Assoc.insertBy, same_text]
    rw [unfolded]
    split
    · exact entriesData_cons.mpr ⟨fresh, exact, others⟩
    · rename_i differs
      have stays : key.isFreshName (Entries.insert rest (.text name) v) = true := by
        unfold Value.isFreshName at fresh ⊢
        split at fresh
        · rename_i other
          have apart : other ≠ name := by
            rintro rfl
            exact differs (isText_iff.mpr rfl)
          rw [find?_insert apart]
          exact fresh
        · cases fresh
      exact entriesData_cons.mpr ⟨stays, here, ih others⟩

theorem update_data {entries : Entries} (data : Value.entriesData Json.isExact entries = true)
    {fields : List (String × Value)} (exact : ∀ f ∈ fields, IsExact f.2) :
    Value.entriesData Json.isExact (Entries.update entries (named fields)) = true := by
  induction fields generalizing entries with
  | nil => exact data
  | cons f rest ih =>
    obtain ⟨here, others⟩ := List.forall_mem_cons.mp exact
    exact ih (insert_data data f.1 here) others

theorem assemble_data (kind : Kind) {id : Value} (idExact : id.isNull = true ∨ id.isName = true)
    {fields : List (String × Value)} (exact : ∀ f ∈ fields, IsExact f.2) :
    IsExact (assemble kind id (named fields)) := by
  have front : Value.entriesData Json.isExact (header kind id) = true := by
    unfold header
    split
    · rfl
    · rename_i present
      have exactId := isExact_name (idExact.resolve_left present)
      exact entriesData_cons.mpr ⟨rfl, rfl, entriesData_cons.mpr ⟨rfl, exactId, rfl⟩⟩
  exact update_data front exact

-- Names that differ make a table.
theorem named_data {fields : List (String × Value)} (distinct : (fields.map Prod.fst).Nodup)
    (exact : ∀ f ∈ fields, IsExact f.2) :
    IsExact (.table (named fields)) := by
  have settled : Value.entriesData Json.isExact (Entries.update [] (named fields)) = true :=
    update_data rfl exact
  rw [Json.update_nil distinct] at settled
  exact settled

-- Everything inside is exact.
def AllExact (r : Registry) (nodes : List (Bool × Schema)) : Prop := ∀ p ∈ nodes, p.2.Exact r

variable {r : Registry}

theorem allExact_append {nodes others : List (Bool × Schema)} :
    AllExact r (nodes ++ others) ↔ AllExact r nodes ∧ AllExact r others := by
  unfold AllExact
  exact List.forall_mem_append

-- The content of a schema, as far as it is written by name.
def WritesExactly (r : Registry) (scope : Scope) (shape : Shape) : Prop :=
  ∃ fields, encodeShape r scope shape = .ok (named fields) ∧ ∀ f ∈ fields, IsExact f.2

mutual

theorem encode_exact {property : Bool} : (s : Schema) → AllExact r (s.nodes property) →
    (scope : Scope) → ∃ document, encode r scope s = .ok document ∧ IsExact document
  | .mk mark id optional shape, exact, scope => by
    have here := exact _ List.mem_cons_self
    obtain ⟨fields, written, inside⟩ := encodeShape_exact shape here.2
      (fun p member => exact p (List.mem_cons_of_mem _ member))
      (scope.push (.mk mark id optional shape))
    refine ⟨_, ?_, assemble_data shape.kind here.1 inside⟩
    rw [encode, written]
    rfl
termination_by structural x => x

theorem encodeAll_exact : (schemas : List Schema) → AllExact r (Schema.nodesOfAll schemas) →
    (scope : Scope) → ∃ documents, encodeAll r scope schemas = .ok documents ∧
      IsExact (.list documents)
  | [], _, _ => ⟨[], rfl, rfl⟩
  | s :: rest, exact, scope => by
    obtain ⟨here, others⟩ := allExact_append.mp exact
    obtain ⟨document, written, first⟩ := encode_exact s here scope
    obtain ⟨documents, writtenAll, following⟩ := encodeAll_exact rest others scope
    refine ⟨document :: documents, ?_, Bool.and_eq_true_iff.mpr ⟨first, following⟩⟩
    rw [encodeAll, written, writtenAll]
    rfl
termination_by structural x => x

theorem encodeParts_exact : (parts : List Part) → AllExact r (Part.nodesOfAll parts) →
    (scope : Scope) → ∃ documents, encodeParts r scope parts = .ok documents ∧
      IsExact (.list documents)
  | [], _, _ => ⟨[], rfl, rfl⟩
  | .text s :: rest, exact, scope => by
    obtain ⟨documents, writtenAll, following⟩ := encodeParts_exact rest exact scope
    refine ⟨.text s :: documents, ?_, following⟩
    rw [encodeParts, writtenAll]
    rfl
  | .schema s :: rest, exact, scope => by
    obtain ⟨here, others⟩ := allExact_append.mp exact
    obtain ⟨document, written, first⟩ := encode_exact s here scope
    obtain ⟨documents, writtenAll, following⟩ := encodeParts_exact rest others scope
    refine ⟨document :: documents, ?_, Bool.and_eq_true_iff.mpr ⟨first, following⟩⟩
    rw [encodeParts, written, writtenAll]
    rfl
termination_by structural x => x

theorem encodeProperties_exact : (properties : List (String × Schema)) →
    AllExact r (Schema.nodesOfProperties properties) → (scope : Scope) →
    ∃ fields, encodeProperties r scope properties = .ok (named fields) ∧
      fields.map Prod.fst = properties.map Prod.fst ∧ ∀ f ∈ fields, IsExact f.2
  | [], _, _ => ⟨[], rfl, rfl, fun _ member => nomatch member⟩
  | (name, s) :: rest, exact, scope => by
    obtain ⟨here, others⟩ := allExact_append.mp exact
    obtain ⟨document, written, first⟩ := encode_exact s here scope
    obtain ⟨fields, writtenAll, names, following⟩ := encodeProperties_exact rest others scope
    refine ⟨(name, document) :: fields, ?_, by rw [List.map_cons, names, List.map_cons],
      List.forall_mem_cons.mpr ⟨first, following⟩⟩
    rw [encodeProperties, written, writtenAll]
    rfl
termination_by structural x => x

theorem encodeAdditional_exact : (additional : Value) → additional.isPolicy = true →
    AllExact r additional.nodes → (scope : Scope) →
    ∃ fields, encodeAdditional r scope additional = .ok (named fields) ∧ ∀ f ∈ fields, IsExact f.2
  | .null, _, _, _ => ⟨[], rfl, fun _ member => nomatch member⟩
  | .scalar (.bool b), _, _, _ =>
    ⟨[("additionalProperties", .bool b)], rfl, List.forall_mem_singleton.mpr rfl⟩
  | .schema s, _, exact, scope => by
    obtain ⟨document, written, first⟩ := encode_exact s exact scope
    refine ⟨[("additionalProperties", document)], ?_, List.forall_mem_singleton.mpr first⟩
    rw [encodeAdditional, written]
    rfl
termination_by structural x => x

theorem encodeField_exact : (v : Value) → v.isExact = true → AllExact r v.nodes →
    (scope : Scope) → ∃ document, encodeField r scope v = .ok document ∧ IsExact document
  | .null, _, _, _ => ⟨.null, rfl, rfl⟩
  | .scalar s, exact, _, _ => ⟨.scalar s, rfl, exact⟩
  | .schema s, _, exact, scope => encode_exact s exact scope
  | .tuple items, exactItems, exact, scope => by
    obtain ⟨documents, written, all⟩ := encodeFieldItems_exact items exactItems exact scope
    refine ⟨.list documents, ?_, all⟩
    rw [encodeField, written]
    rfl
termination_by structural x => x

theorem encodeFieldItems_exact : (items : List Value) → Value.areExact items = true →
    AllExact r (Value.nodesOfAll items) → (scope : Scope) →
    ∃ documents, encodeFieldItems r scope items = .ok documents ∧ IsExact (.list documents)
  | [], _, _, _ => ⟨[], rfl, rfl⟩
  | v :: rest, exactItems, exact, scope => by
    obtain ⟨here, others⟩ := allExact_append.mp exact
    obtain ⟨exactHere, exactOthers⟩ := Bool.and_eq_true_iff.mp exactItems
    obtain ⟨document, written, first⟩ := encodeField_exact v exactHere here scope
    obtain ⟨documents, writtenAll, following⟩ :=
      encodeFieldItems_exact rest exactOthers others scope
    refine ⟨document :: documents, ?_, Bool.and_eq_true_iff.mpr ⟨first, following⟩⟩
    rw [encodeFieldItems, written, writtenAll]
    rfl
termination_by structural x => x

theorem encodeFields_exact : (fields : List (String × Value)) →
    (∀ f ∈ fields, f.2.isExact = true) → AllExact r (Value.nodesOfFields fields) →
    (scope : Scope) →
    ∃ documents, encodeFields r scope fields = .ok (named documents) ∧ ∀ f ∈ documents, IsExact f.2
  | [], _, _, _ => ⟨[], rfl, fun _ member => nomatch member⟩
  | (name, v) :: rest, exactFields, exact, scope => by
    obtain ⟨here, others⟩ := allExact_append.mp exact
    obtain ⟨exactHere, exactOthers⟩ := List.forall_mem_cons.mp exactFields
    obtain ⟨document, written, first⟩ := encodeField_exact v exactHere here scope
    obtain ⟨documents, writtenAll, following⟩ := encodeFields_exact rest exactOthers others scope
    refine ⟨(name, document) :: documents, ?_, List.forall_mem_cons.mpr ⟨first, following⟩⟩
    rw [encodeFields, written, writtenAll]
    rfl
termination_by structural x => x

theorem encodeShape_exact : (shape : Shape) → shape.Exact r → AllExact r shape.nodes →
    (scope : Scope) → WritesExactly r scope shape
  | .basic b, _, _, _ => by
    cases b with
    | any | unknown => exact ⟨[], rfl, fun _ member => nomatch member⟩
    | never => exact ⟨[("not", .table [])], rfl, List.forall_mem_singleton.mpr rfl⟩
    | _ => exact ⟨[("type", .text _)], rfl, List.forall_mem_singleton.mpr rfl⟩
  | .literal value, exact, _, _ =>
    ⟨[("const", .scalar value), ("type", .text (literalType value))], rfl,
      List.forall_mem_cons.mpr ⟨exact, List.forall_mem_singleton.mpr rfl⟩⟩
  | .callable form parameters returns, _, exact, scope => by
    obtain ⟨first, second⟩ := allExact_append.mp exact
    obtain ⟨documents, writtenAll, all⟩ := encodeAll_exact parameters first scope
    obtain ⟨document, written, one⟩ := encode_exact returns second scope
    refine ⟨[("type", .text form.kind.name), ("parameters", .list documents),
      ("returns", document)], ?_, by simp [all, one]⟩
    rw [encodeShape, writtenAll, written]
    rfl
  | .promise item, _, exact, scope => by
    obtain ⟨document, written, one⟩ := encode_exact item exact scope
    refine ⟨[("type", .text "Promise"), ("item", document)], ?_, by simp [one]⟩
    rw [encodeShape, written]
    rfl
  | .template parts, _, exact, scope => by
    obtain ⟨documents, writtenAll, all⟩ := encodeParts_exact parts exact scope
    refine ⟨[("type", .text "string"), ("parts", .list documents)], ?_, by simp [all]⟩
    rw [encodeShape, writtenAll]
    rfl
  | .array items, _, exact, scope => by
    obtain ⟨document, written, one⟩ := encode_exact items exact scope
    refine ⟨[("type", .text "array"), ("items", document)], ?_, by simp [one]⟩
    rw [encodeShape, written]
    rfl
  | .tuple items, _, exact, scope => by
    obtain ⟨documents, writtenAll, all⟩ := encodeAll_exact items exact scope
    refine ⟨[("type", .text "array"), ("minItems", .int items.length),
      ("maxItems", .int items.length)] ++
        if items.isEmpty then [] else [("items", .list documents)], ?_, ?_⟩
    · rw [encodeShape, writtenAll]
      cases items <;> rfl
    · cases items <;> simp [all]
  | .object properties additional, whole, exact, scope => by
    obtain ⟨first, second⟩ := allExact_append.mp exact
    obtain ⟨documents, writtenAll, names, all⟩ := encodeProperties_exact properties first scope
    obtain ⟨policy, written, allowed⟩ := encodeAdditional_exact additional whole.2 second scope
    have table : IsExact (.table (named documents)) := named_data (names ▸ whole.1) all
    have required : IsExact (.list ((requiredNames properties).map Value.text)) :=
      areData_of_all fun v member => by
        obtain ⟨name, -, rfl⟩ := List.mem_map.mp member
        rfl
    refine ⟨[("type", .text "object"), ("properties", .table (named documents))] ++
      (if (requiredNames properties).isEmpty then []
        else [("required", .list ((requiredNames properties).map Value.text))]) ++ policy, ?_, ?_⟩
    · rw [encodeShape, writtenAll, written]
      cases requiredNames properties <;> rfl
    · refine List.forall_mem_append.mpr ⟨List.forall_mem_append.mpr ⟨by simp [table], ?_⟩, allowed⟩
      split
      · exact fun _ member => nomatch member
      · exact List.forall_mem_singleton.mpr required
  | .record key value, _, exact, scope => by
    obtain ⟨first, second⟩ := allExact_append.mp exact
    obtain ⟨document, written, one⟩ := encode_exact key first scope
    obtain ⟨document', written', two⟩ := encode_exact value second scope
    have pattern : IsExact (.table (named [(patternOf key, document')])) :=
      named_data (List.pairwise_singleton _ _) (List.forall_mem_singleton.mpr two)
    refine ⟨[("type", .text "object"), ("key", document),
      ("patternProperties", .table (named [(patternOf key, document')]))], ?_,
      by simp [one, pattern]⟩
    rw [encodeShape, written, written']
    rfl
  | .union variants, _, exact, scope => by
    obtain ⟨documents, writtenAll, all⟩ := encodeAll_exact variants exact scope
    refine ⟨[("anyOf", .list documents)], ?_, by simp [all]⟩
    rw [encodeShape, writtenAll]
    rfl
  | .intersect variants, _, exact, scope => by
    obtain ⟨documents, writtenAll, all⟩ := encodeAll_exact variants exact scope
    refine ⟨[("allOf", .list documents)], ?_, by simp [all]⟩
    rw [encodeShape, writtenAll]
    rfl
  | .reference form target, isName, _, _ =>
    ⟨[("$ref", target)], rfl, List.forall_mem_singleton.mpr (isExact_name isName)⟩
  | .user kind fields, whole, exact, scope => by
    obtain ⟨documents, written, all⟩ := encodeFields_exact fields whole.2 exact scope
    refine ⟨documents, ?_, all⟩
    rw [encodeShape, if_pos whole.1, written]
termination_by structural x => x

end

end Document

namespace Session

-- The text of a schema is read as its document is.
theorem text_reads_as_document (s : Session) {schema : Schema}
    (exact : ∀ p ∈ schema.nodes false, p.2.Exact s.world.registry) :
    ∃ document text, s.encode [] schema = .ok document ∧ s.render schema [] = .ok text ∧
      ∀ optional, s.parse optional text = s.decode optional document := by
  obtain ⟨document, written, data⟩ := Document.encode_exact schema exact []
  obtain ⟨text, rendered, parsed⟩ := Json.parse_render data
  have encoded : s.encode [] schema = .ok document := written
  have plain : Json.Format.ofOptions [] = .ok {} := rfl
  refine ⟨document, text, encoded, ?_, fun optional => ?_⟩
  · rw [Session.render, encoded]
    show (Json.Format.ofOptions [] >>= fun format => Json.render format document) = _
    rw [plain]
    exact rendered
  · rw [Session.parse, parsed]
    rfl

-- Names and texts that need escapes of every sort, and an integer beyond any word.
def itemSession : Session :=
  { world := { registry := [("Item", none)] }, catalog := Document.itemClass }

def escapedNames : Schema :=
  .mk 0 (.text "\"𝄞\\\x7f") false (.object
    [("first\n", .mk 0 .null true (.user Document.itemKind
        [("content", .tuple [.text "é\u2028",
            .tuple [.schema (.plain (.reference .this (.text "")))]]),
          ("count", .int (-98765432109876543210))])),
      ("", .plain (.template [.text "\t\x01", .schema (.plain (.literal (.int 0)))]))]
    (.bool false))

theorem escapedNames_read_as_document :
    (∀ p ∈ escapedNames.nodes false, p.2.Exact itemSession.world.registry) ∧
    ∃ document text, itemSession.encode [] escapedNames = .ok document ∧
      itemSession.render escapedNames [] = .ok text ∧
      itemSession.parse false text = itemSession.decode false document ∧
      itemSession.decode false document = .ok (escapedNames.reread false) := by
  have exact : ∀ p ∈ escapedNames.nodes false, p.2.Exact itemSession.world.registry := by
    refine List.forall_mem_cons.mpr ⟨⟨.inr rfl, by decide, rfl⟩, ?_⟩
    refine List.forall_mem_cons.mpr ⟨⟨.inl rfl, rfl, by decide⟩, ?_⟩
    refine List.forall_mem_cons.mpr ⟨⟨.inl rfl, rfl⟩, ?_⟩
    refine List.forall_mem_cons.mpr ⟨⟨.inl rfl, trivial⟩, ?_⟩
    exact List.forall_mem_singleton.mpr ⟨.inl rfl, rfl⟩
  obtain ⟨document, text, encoded, rendered, same⟩ := text_reads_as_document itemSession exact
  have decoded : (itemSession.encode [] escapedNames >>= itemSession.decode false) =
    .ok (escapedNames.reread false) := rfl
  rw [encoded] at decoded
  exact ⟨exact, document, text, encoded, rendered, same false, decoded⟩

end Session

end Assignability
