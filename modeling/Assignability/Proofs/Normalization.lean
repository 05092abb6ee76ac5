import Assignability.Proofs.RoundTrip

namespace Assignability

-- Reading accepts far more than writing gives. What is read is stable all the same: nothing but
-- properties may be absent, lists have become tuples, and data stands only where it comes back as
-- it is.

-- The ways in which a document reads what it holds: as a document, as a list or a table of
-- documents, or as a field of a user kind.
inductive Reading where
  | document | each | members | field
deriving DecidableEq

-- How a document of this kind reads what stands under a key, if schemas are read there.
def Kind.reading? : Kind → String → Option Reading
  | .function, "parameters" => some .each
  | .function, "returns" => some .document
  | .constructor, "parameters" => some .each
  | .constructor, "returns" => some .document
  | .promise, "item" => some .document
  | .templateLiteral, "parts" => some .each
  | .array, "items" => some .document
  | .tuple, "items" => some .each
  | .object, "properties" => some .members
  | .object, "additionalProperties" => some .document
  | .record, "key" => some .document
  | .record, "patternProperties" => some .members
  | .union, "anyOf" => some .each
  | .intersect, "allOf" => some .each
  | .user _, key => if key = "kind" ∨ key = "$id" then none else some .field
  | _, _ => none

-- The kind that a document names.
def Entries.kind? (entries : Entries) : Option Kind :=
  match Entries.find? entries "kind" with
  | some (.scalar (.text name)) => some ((Kind.ofName? name).getD (.user name))
  | _ => none

def Entries.reading? (entries : Entries) (key : String) : Option Reading :=
  (Entries.kind? entries).bind (·.reading? key)

mutual

-- The tables that reading comes to as documents.
def Value.visited : Reading → Value → List Entries
  | .document, .table entries => entries :: Value.visitedAt (Entries.reading? entries) entries
  | .field, .table entries => entries :: Value.visitedAt (Entries.reading? entries) entries
  | .members, .table entries => Value.visitedAt (fun _ => some .document) entries
  | .each, .list items => Value.visitedAll .document items
  | .field, .list items => Value.visitedAll .field items
  | _, _ => []
termination_by structural _ x => x

def Value.visitedAll (reading : Reading) : List Value → List Entries
  | [] => []
  | v :: rest => Value.visited reading v ++ Value.visitedAll reading rest
termination_by structural x => x

def Value.visitedAt (reading? : String → Option Reading) : List (Value × Value) → List Entries
  | [] => []
  | (.scalar (.text key), v) :: rest =>
    (match reading? key with
      | some reading => Value.visited reading v
      | none => []) ++ Value.visitedAt reading? rest
  | _ :: rest => Value.visitedAt reading? rest
termination_by structural x => x

end

-- What a field of a user kind holds as the kind.
def Shape.kindField? : Shape → Option Value
  | .user _ fields => (fields.lookup "kind").or (fields.lookup "_kind")
  | _ => none

-- Defaults that are data are scalars.
def Fallback.isScalar : Fallback → Bool
  | .value .null => true
  | .value (.scalar _) => true
  | .value _ => false
  | _ => true

namespace Document

open Entries (entry named find?)

variable {r : Registry} {c : Catalog}

-- Where a document is read as a schema of a class that has its kind as a field, the field holds
-- the kind that the document names.
def OwnKind (r : Registry) (c : Catalog) (entries : Entries) : Prop :=
  ∀ n, decode r c false (.table entries) = .ok n →
    ∀ v, n.shape.kindField? = some v → find? entries "kind" = some v

def Owned (r : Registry) (c : Catalog) (reading : Reading) (v : Value) : Prop :=
  ∀ entries ∈ v.visited reading, OwnKind r c entries

theorem visitedAll_eq (reading : Reading) (items : List Value) :
    Value.visitedAll reading items = items.flatMap (Value.visited reading) := by
  induction items with
  | nil => rfl
  | cons v rest ih => rw [Value.visitedAll, ih, List.flatMap_cons]

theorem visitedAt_named {reading? : String → Option Reading} {fields : List (String × Value)}
    {f : String × Value} (member : f ∈ fields) {reading : Reading}
    (asked : reading? f.1 = some reading) :
    f.2.visited reading ⊆ Value.visitedAt reading? (named fields) := by
  induction fields with
  | nil => cases member
  | cons g rest ih =>
    rw [Entries.named_cons, entry, Value.visitedAt]
    rcases List.mem_cons.mp member with rfl | later
    · rw [asked]
      exact List.subset_append_left _ _
    · exact List.Subset.trans (ih later) (List.subset_append_right _ _)

theorem Owned.of_each {reading inner : Reading} {items : List Value}
    (all : Value.visited reading (.list items) = Value.visitedAll inner items)
    (own : Owned r c reading (.list items)) : ∀ v ∈ items, Owned r c inner v := by
  intro v member entries inside
  rw [Owned, all, visitedAll_eq] at own
  exact own entries (List.mem_flatMap.mpr ⟨v, member, inside⟩)

theorem Owned.of_members {fields : List (String × Value)}
    (own : Owned r c .members (.table (named fields))) : ∀ f ∈ fields, Owned r c .document f.2 :=
  fun _ member entries inside => own entries (visitedAt_named member rfl inside)

theorem Owned.of_document {fields : List (String × Value)} {kind : Kind}
    (isKind : Entries.kind? (named fields) = some kind)
    (own : Owned r c .document (.table (named fields))) : ∀ f ∈ fields, ∀ reading,
      kind.reading? f.1 = some reading → Owned r c reading f.2 := by
  intro f member reading asked entries inside
  refine own entries (List.mem_cons_of_mem _ (visitedAt_named member ?_ inside))
  rw [Entries.reading?, isKind]
  exact asked

theorem bind_ok {α β : Type} {first : Except Fault α} {next : α → Except Fault β} {b : β}
    (done : (first >>= next) = .ok b) : ∃ a, first = .ok a ∧ next a = .ok b := by
  cases first with
  | error fault => cases done
  | ok a => exact ⟨a, rfl, done⟩

theorem map_ok {α β : Type} {first : Except Fault α} {f : α → β} {b : β}
    (done : first.map f = .ok b) : ∃ a, first = .ok a ∧ f a = b := by
  cases first with
  | error fault => cases done
  | ok a => exact ⟨a, rfl, Except.ok.inj done⟩

theorem demand_ok {α : Type} {key : String} {found : Option (Except Fault α)} {a : α}
    (done : demand key found = .ok a) : found = some (.ok a) := by
  cases found with
  | none => cases done
  | some result => exact congrArg some done

theorem getD_ok {α : Type} {found : Option (Except Fault α)} {default a : α}
    (done : found.getD (.ok default) = .ok a) : found = some (.ok a) ∨ a = default := by
  cases found with
  | none => exact .inr (Except.ok.inj done).symm
  | some result => exact .inl (congrArg some done)

-- What writing and reading again does not change.
structure SchemaStable (r : Registry) (c : Catalog) (optional : Bool) (s : Schema) : Prop where
  reread : s.reread optional = s
  kept : ∀ property, AllKept r c (s.nodes property)

structure ValueStable (r : Registry) (c : Catalog) (v : Value) : Prop where
  reread : v.reread = v
  kept : AllKept r c v.nodes

structure ShapeStable (r : Registry) (c : Catalog) (shape : Shape) : Prop where
  reread : shape.reread = shape
  whole : shape.Kept r c
  kept : AllKept r c shape.nodes

theorem allKept_nil : AllKept r c [] := fun _ member => nomatch member

theorem SchemaStable.of_shape {shape : Shape} (stable : ShapeStable r c shape) (id : Value)
    (optional : Bool) : SchemaStable r c optional (.mk 0 id optional shape) where
  reread := by rw [Schema.reread, stable.reread]
  kept _ := List.forall_mem_cons.mpr ⟨stable.whole, stable.kept⟩

theorem SchemaStable.optional_eq {optional : Bool} {s : Schema}
    (stable : SchemaStable r c optional s) : s.optional = optional := by
  rw [← stable.reread]
  cases s
  rfl

theorem SchemaStable.value {s : Schema} (stable : SchemaStable r c false s) :
    ValueStable r c (.schema s) :=
  ⟨congrArg Value.schema stable.reread, stable.kept false⟩

theorem stable_all {schemas : List Schema} (all : ∀ s ∈ schemas, SchemaStable r c false s) :
    Schema.rereadAll schemas = schemas ∧ AllKept r c (Schema.nodesOfAll schemas) := by
  induction schemas with
  | nil => exact ⟨rfl, allKept_nil⟩
  | cons s rest ih =>
    obtain ⟨here, others⟩ := List.forall_mem_cons.mp all
    obtain ⟨same, kept⟩ := ih others
    exact ⟨by rw [Schema.rereadAll, here.reread, same],
      allKept_append.mpr ⟨here.kept false, kept⟩⟩

theorem stable_parts {parts : List Part}
    (all : ∀ s, Part.schema s ∈ parts → SchemaStable r c false s) :
    Part.rereadAll parts = parts ∧ AllKept r c (Part.nodesOfAll parts) := by
  induction parts with
  | nil => exact ⟨rfl, allKept_nil⟩
  | cons p rest ih =>
    obtain ⟨same, kept⟩ := ih fun s member => all s (List.mem_cons_of_mem _ member)
    cases p with
    | text s => exact ⟨by rw [Part.rereadAll, same], kept⟩
    | schema s =>
      have here := all s List.mem_cons_self
      exact ⟨by rw [Part.rereadAll, here.reread, same],
        allKept_append.mpr ⟨here.kept false, kept⟩⟩

theorem stable_properties {properties : List (String × Schema)}
    (all : ∀ p ∈ properties, SchemaStable r c p.2.optional p.2) :
    Schema.rereadProperties properties = properties ∧
      AllKept r c (Schema.nodesOfProperties properties) := by
  induction properties with
  | nil => exact ⟨rfl, allKept_nil⟩
  | cons p rest ih =>
    obtain ⟨name, s⟩ := p
    obtain ⟨here, others⟩ := List.forall_mem_cons.mp all
    obtain ⟨same, kept⟩ := ih others
    exact ⟨by rw [Schema.rereadProperties, here.reread, same],
      allKept_append.mpr ⟨here.kept true, kept⟩⟩

theorem stable_items {items : List Value} (all : ∀ v ∈ items, ValueStable r c v) :
    Value.rereadAll items = items ∧ AllKept r c (Value.nodesOfAll items) := by
  induction items with
  | nil => exact ⟨rfl, allKept_nil⟩
  | cons v rest ih =>
    obtain ⟨here, others⟩ := List.forall_mem_cons.mp all
    obtain ⟨same, kept⟩ := ih others
    exact ⟨by rw [Value.rereadAll, here.reread, same], allKept_append.mpr ⟨here.kept, kept⟩⟩

theorem stable_fields {fields : List (String × Value)}
    (all : ∀ f ∈ fields, ValueStable r c f.2) :
    Value.rereadFields fields = fields ∧ AllKept r c (Value.nodesOfFields fields) := by
  induction fields with
  | nil => exact ⟨rfl, allKept_nil⟩
  | cons f rest ih =>
    obtain ⟨name, v⟩ := f
    obtain ⟨here, others⟩ := List.forall_mem_cons.mp all
    obtain ⟨same, kept⟩ := ih others
    exact ⟨by rw [Value.rereadFields, here.reread, same],
      allKept_append.mpr ⟨here.kept, kept⟩⟩

-- Data of a field, which comes back from a document as it is.
def FieldStable (r : Registry) (c : Catalog) (v : Value) : Prop :=
  ValueStable r c v ∧ v.isKept = true

theorem fieldStable_scalar {v : Value} (scalar : (Fallback.value v).isScalar = true) :
    FieldStable r c v := by
  cases v with
  | null | scalar _ => exact ⟨⟨rfl, allKept_nil⟩, rfl⟩
  | _ => cases scalar

theorem areKept_of_all {items : List Value} (all : ∀ v ∈ items, FieldStable r c v) :
    Value.areKept items = true := by
  induction items with
  | nil => rfl
  | cons v rest ih =>
    obtain ⟨here, others⟩ := List.forall_mem_cons.mp all
    simp only [Value.areKept, here.2, ih others, Bool.and_self]

-- In whichever way data is read, the result is stable.
structure Settles (r : Registry) (c : Catalog) (v : Value) : Prop where
  schema : Owned r c .document v → ∀ optional s, decode r c optional v = .ok s →
    SchemaStable r c optional s
  each : Owned r c .each v → ∀ schemas, decodeEach r c v = .ok schemas →
    ∀ s ∈ schemas, SchemaStable r c false s
  parts : Owned r c .each v → ∀ parts, decodeParts r c v = .ok parts →
    ∀ s, Part.schema s ∈ parts → SchemaStable r c false s
  properties : Owned r c .members v → ∀ entries, v = .table entries → ∀ required properties,
    decodeProperties r c required entries = .ok properties →
      (properties.map Prod.fst).Nodup ∧ ∀ p ∈ properties, SchemaStable r c p.2.optional p.2
  pattern : Owned r c .members v → ∀ p w, v = .table [(p, w)] → ∀ s,
    decode r c false w = .ok s → SchemaStable r c false s
  policy : Owned r c .document v → ∀ a, additionalOf (decode r c false v) v = .ok a →
    ValueStable r c a ∧ a.isKeptPolicy = true
  field : Owned r c .field v → ∀ w, decodeField r c (decode r c false v) v = .ok w →
    FieldStable r c w

theorem settles_null : Settles r c .null where
  schema _ _ _ read := nomatch read
  each _ _ read := nomatch read
  parts _ _ read := nomatch read
  properties _ _ same := nomatch same
  pattern _ _ _ same := nomatch same
  policy _ a read := by
    cases read
    exact ⟨⟨rfl, allKept_nil⟩, rfl⟩
  field _ w read := by
    cases read
    exact fieldStable_scalar rfl

theorem settles_scalar (value : Scalar) : Settles r c (.scalar value) where
  schema _ _ _ read := by cases value <;> cases read
  each _ schemas read := by
    cases value with
    | text s =>
      rw [decodeEach, textItems] at read
      split at read
      · cases read
        intro s member
        cases member
      · cases read
    | _ => cases read
  parts _ parts read := by
    cases value with
    | text s =>
      rw [decodeParts] at read
      cases read
      intro s member
      obtain ⟨_, -, same⟩ := List.mem_map.mp member
      cases same
    | _ => cases read
  properties _ _ same := by cases same
  pattern _ _ _ same := by cases same
  policy _ a read := by
    cases read
    exact ⟨⟨rfl, allKept_nil⟩, rfl⟩
  field _ w read := by
    cases read
    exact fieldStable_scalar rfl

section
variable {items : List Value} (inside : ∀ v ∈ items, Settles r c v)
include inside

theorem decodeItems_stable (own : ∀ v ∈ items, Owned r c .document v)
    {schemas : List Schema}
    (read : decodeItems r c items = .ok schemas) : ∀ s ∈ schemas, SchemaStable r c false s := by
  induction items generalizing schemas with
  | nil =>
    cases read
    exact fun _ member => nomatch member
  | cons v rest ih =>
    rw [decodeItems] at read
    obtain ⟨first, readFirst, read⟩ := bind_ok read
    obtain ⟨others, readOthers, read⟩ := bind_ok read
    cases read
    obtain ⟨here, there⟩ := List.forall_mem_cons.mp inside
    obtain ⟨ownHere, ownThere⟩ := List.forall_mem_cons.mp own
    exact List.forall_mem_cons.mpr ⟨here.schema ownHere _ _ readFirst, ih there ownThere readOthers⟩

theorem decodePartItems_stable (own : ∀ v ∈ items, Owned r c .document v)
    {parts : List Part}
    (read : decodePartItems r c items = .ok parts) :
    ∀ s, Part.schema s ∈ parts → SchemaStable r c false s := by
  induction items generalizing parts with
  | nil =>
    cases read
    exact fun _ member => nomatch member
  | cons v rest ih =>
    rw [decodePartItems] at read
    obtain ⟨first, readFirst, read⟩ := bind_ok read
    obtain ⟨others, readOthers, read⟩ := bind_ok read
    cases read
    obtain ⟨here, there⟩ := List.forall_mem_cons.mp inside
    obtain ⟨ownHere, ownThere⟩ := List.forall_mem_cons.mp own
    intro s member
    rcases List.mem_cons.mp member with rfl | later
    · unfold partOf at readFirst
      split at readFirst
      · cases readFirst
      · obtain ⟨t, readSchema, same⟩ := map_ok readFirst
        cases same
        exact here.schema ownHere _ _ readSchema
    · exact ih there ownThere readOthers s later

theorem decodeFieldItems_stable (own : ∀ v ∈ items, Owned r c .field v)
    {values : List Value}
    (read : decodeFieldItems r c items = .ok values) : ∀ v ∈ values, FieldStable r c v := by
  induction items generalizing values with
  | nil =>
    cases read
    exact fun _ member => nomatch member
  | cons v rest ih =>
    rw [decodeFieldItems] at read
    obtain ⟨first, readFirst, read⟩ := bind_ok read
    obtain ⟨others, readOthers, read⟩ := bind_ok read
    cases read
    obtain ⟨here, there⟩ := List.forall_mem_cons.mp inside
    obtain ⟨ownHere, ownThere⟩ := List.forall_mem_cons.mp own
    exact List.forall_mem_cons.mpr ⟨here.field ownHere _ readFirst, ih there ownThere readOthers⟩

theorem settles_list : Settles r c (.list items) where
  schema _ _ _ read := nomatch read
  each own schemas read := decodeItems_stable inside (own.of_each rfl) read
  parts own parts read := decodePartItems_stable inside (own.of_each rfl) read
  properties _ _ same := nomatch same
  pattern _ _ _ same := nomatch same
  policy _ a read := by
    cases read
    exact ⟨⟨rfl, allKept_nil⟩, rfl⟩
  field own w read := by
    rw [decodeField] at read
    obtain ⟨values, readAll, read⟩ := bind_ok read
    cases read
    have all := decodeFieldItems_stable inside (own.of_each rfl) readAll
    obtain ⟨same, kept⟩ := stable_items fun v member => (all v member).1
    exact ⟨⟨congrArg Value.tuple same, kept⟩, areKept_of_all all⟩

end

-- Properties and patterns are looked for in tables only.
theorem propertiesAt_ok {required : List Value} {key : String} {entries : Entries}
    {properties : List (String × Schema)}
    (read : propertiesAt r c required key entries = some (.ok properties)) :
    ∃ inner, find? entries key = some (.table inner) ∧
      decodeProperties r c required inner = .ok properties := by
  induction entries with
  | nil => cases read
  | cons e rest ih =>
    obtain ⟨k, v⟩ := e
    rw [Entries.find?_cons]
    by_cases isKey : k.isText key = true
    · rw [if_pos isKey]
      cases v with
      | table inner =>
        rw [propertiesAt, if_pos isKey] at read
        exact ⟨inner, rfl, Option.some.inj read⟩
      | _ => simp [propertiesAt, isKey] at read
    · rw [if_neg isKey]
      apply ih
      cases v <;> simpa [propertiesAt, isKey] using read

theorem patternAt_ok {key : String} {entries : Entries} {pattern : Value}
    {decoded : Except Fault Schema}
    (read : patternAt r c key entries = some (.ok (pattern, decoded))) :
    ∃ w, find? entries key = some (.table [(pattern, w)]) ∧ decoded = decode r c false w := by
  induction entries with
  | nil => cases read
  | cons e rest ih =>
    obtain ⟨k, v⟩ := e
    rw [Entries.find?_cons]
    by_cases isKey : k.isText key = true
    · rw [if_pos isKey]
      rcases v with _ | _ | _ | _ | (_ | ⟨⟨p, w⟩, _ | _⟩) | _ <;>
        simp only [patternAt, isKey, if_true, Option.some.injEq, Except.ok.injEq, Prod.mk.injEq,
          reduceCtorEq] at read
      exact ⟨w, by rw [read.1], read.2.symm⟩
    · rw [if_neg isKey]
      apply ih
      rcases v with _ | _ | _ | _ | (_ | ⟨_, _ | _⟩) | _ <;> simpa [patternAt, isKey] using read

section
variable {fields : List (String × Value)} (inside : ∀ f ∈ fields, Settles r c f.2)

-- A name is no document.
theorem decodeKeys_stable {schemas : List Schema}
    (read : decodeKeys r c (named fields) = .ok schemas) : schemas = [] := by
  cases fields with
  | nil =>
    cases read
    rfl
  | cons f rest =>
    rw [named, List.map_cons, entry, decodeKeys] at read
    obtain ⟨first, readFirst, -⟩ := bind_ok read
    cases readFirst

theorem decodePartKeys_stable {parts : List Part}
    (read : decodePartKeys r c (named fields) = .ok parts) (s : Schema) :
    Part.schema s ∉ parts := by
  induction fields generalizing parts with
  | nil =>
    cases read
    exact List.not_mem_nil
  | cons f rest ih =>
    rw [named, List.map_cons, entry, decodePartKeys] at read
    obtain ⟨first, readFirst, read⟩ := bind_ok read
    obtain ⟨others, readOthers, read⟩ := bind_ok read
    cases read
    cases readFirst
    intro member
    rcases List.mem_cons.mp member with same | later
    · cases same
    · exact ih readOthers later

include inside

theorem decodeProperties_stable (own : ∀ f ∈ fields, Owned r c .document f.2)
    {required : List Value} {properties : List (String × Schema)}
    (read : decodeProperties r c required (named fields) = .ok properties) :
    properties.map Prod.fst = fields.map Prod.fst ∧
      ∀ p ∈ properties, SchemaStable r c p.2.optional p.2 := by
  induction fields generalizing properties with
  | nil =>
    cases read
    exact ⟨rfl, fun _ member => nomatch member⟩
  | cons f rest ih =>
    rw [named, List.map_cons, entry, decodeProperties] at read
    obtain ⟨first, readFirst, read⟩ := bind_ok read
    obtain ⟨others, readOthers, read⟩ := bind_ok read
    cases read
    obtain ⟨here, there⟩ := List.forall_mem_cons.mp inside
    obtain ⟨ownHere, ownThere⟩ := List.forall_mem_cons.mp own
    obtain ⟨names, stable⟩ := ih there ownThere readOthers
    have stableFirst := here.schema ownHere _ _ readFirst
    refine ⟨by rw [List.map_cons, List.map_cons, names], List.forall_mem_cons.mpr ⟨?_, stable⟩⟩
    rw [← stableFirst.optional_eq] at stableFirst
    exact stableFirst

-- Fields that are passed over are not given.
theorem decodeFields_stable {skipped : List String}
    (own : ∀ f ∈ fields, f.1 ∉ skipped → Owned r c .field f.2) {given : List (String × Value)}
    (read : decodeFields r c skipped (named fields) = .ok given) :
    ∀ g ∈ given, FieldStable r c g.2 ∧ g.1 ∉ skipped := by
  induction fields generalizing given with
  | nil =>
    cases read
    exact fun _ member => nomatch member
  | cons f rest ih =>
    obtain ⟨here, there⟩ := List.forall_mem_cons.mp inside
    obtain ⟨ownHere, ownThere⟩ := List.forall_mem_cons.mp own
    rw [named, List.map_cons, entry, decodeFields] at read
    split at read
    · exact ih there ownThere read
    · rename_i new
      have new : f.1 ∉ skipped := by simpa using new
      obtain ⟨first, readFirst, read⟩ := bind_ok read
      obtain ⟨others, readOthers, read⟩ := bind_ok read
      cases read
      exact List.forall_mem_cons.mpr
        ⟨⟨here.field (ownHere new) _ readFirst, new⟩, ih there ownThere readOthers⟩

theorem found_settles {key : String} {v : Value} (found : find? (named fields) key = some v) :
    (key, v) ∈ fields ∧ Settles r c v := by
  rw [Entries.find?_named] at found
  exact ⟨lookup_mem found, inside _ (lookup_mem found)⟩

end

-- A document of a kind: what it holds settles, and reading it comes to no schema of another kind.
structure Sound (r : Registry) (c : Catalog) (kind : Kind) (fields : List (String × Value)) :
    Prop where
  inside : ∀ f ∈ fields, Settles r c f.2
  own : ∀ f ∈ fields, ∀ reading, kind.reading? f.1 = some reading → Owned r c reading f.2

section
variable {fields : List (String × Value)} {kind : Kind} (sound : Sound r c kind fields)
include sound

theorem Sound.found {key : String} {reading : Reading} {v : Value}
    (asked : kind.reading? key = some reading) (found : find? (named fields) key = some v) :
    Settles r c v ∧ Owned r c reading v := by
  obtain ⟨member, settles⟩ := found_settles sound.inside found
  exact ⟨settles, sound.own _ member _ asked⟩

theorem schemaAt_stable {key : String} {s : Schema} (asked : kind.reading? key = some .document)
    (read : schemaAt r c key (named fields) = some (.ok s)) : SchemaStable r c false s := by
  rw [schemaAt_eq] at read
  obtain ⟨v, found, decoded⟩ := Option.map_eq_some_iff.mp read
  obtain ⟨settles, own⟩ := sound.found asked found
  exact settles.schema own _ _ decoded

theorem schemasAt_stable {key : String} {schemas : List Schema}
    (asked : kind.reading? key = some .each)
    (read : schemasAt r c key (named fields) = some (.ok schemas)) :
    ∀ s ∈ schemas, SchemaStable r c false s := by
  rw [schemasAt_eq] at read
  obtain ⟨v, found, decoded⟩ := Option.map_eq_some_iff.mp read
  obtain ⟨settles, own⟩ := sound.found asked found
  exact settles.each own _ decoded

theorem partsAt_stable {key : String} {parts : List Part} (asked : kind.reading? key = some .each)
    (read : partsAt r c key (named fields) = some (.ok parts)) :
    ∀ s, Part.schema s ∈ parts → SchemaStable r c false s := by
  rw [partsAt_eq] at read
  obtain ⟨v, found, decoded⟩ := Option.map_eq_some_iff.mp read
  obtain ⟨settles, own⟩ := sound.found asked found
  exact settles.parts own _ decoded

theorem additionalAt_stable {key : String} {a : Value}
    (asked : kind.reading? key = some .document)
    (read : additionalAt r c key (named fields) = some (.ok a)) :
    ValueStable r c a ∧ a.isKeptPolicy = true := by
  rw [additionalAt_eq] at read
  obtain ⟨v, found, decoded⟩ := Option.map_eq_some_iff.mp read
  obtain ⟨settles, own⟩ := sound.found asked found
  exact settles.policy own _ decoded

theorem propertiesAt_stable {required : List Value} {key : String}
    {properties : List (String × Schema)} (asked : kind.reading? key = some .members)
    (read : propertiesAt r c required key (named fields) = some (.ok properties)) :
    (properties.map Prod.fst).Nodup ∧ ∀ p ∈ properties, SchemaStable r c p.2.optional p.2 := by
  obtain ⟨inner, found, decoded⟩ := propertiesAt_ok read
  obtain ⟨settles, own⟩ := sound.found asked found
  exact settles.properties own inner rfl required properties decoded

theorem patternAt_stable {key : String} {pattern : Value} {s : Schema}
    (asked : kind.reading? key = some .members)
    (read : patternAt r c key (named fields) = some (.ok (pattern, .ok s))) :
    SchemaStable r c false s := by
  obtain ⟨w, found, decoded⟩ := patternAt_ok read
  obtain ⟨settles, own⟩ := sound.found asked found
  exact settles.pattern own pattern w rfl s decoded.symm

end

theorem basic_stable (b : Basic) : ShapeStable r c (.basic b) := ⟨rfl, trivial, allKept_nil⟩

theorem keyOfPattern_stable (pattern : Value) : SchemaStable r c false (keyOfPattern pattern) := by
  unfold keyOfPattern
  split <;> exact .of_shape (basic_stable _) .null false

section
variable {fields : List (String × Value)}

theorem callable_stable {form : CallForm} {shape : Shape} (sound : Sound r c form.kind fields)
    (read : (do
      let parameters ← demand "parameters" ((view r c (named fields)).schemas? "parameters")
      let returns ← demand "returns" ((view r c (named fields)).schema? "returns")
      return Shape.callable form parameters returns) = .ok shape) : ShapeStable r c shape := by
  obtain ⟨parameters, readAll, read⟩ := bind_ok read
  obtain ⟨returns, readReturns, read⟩ := bind_ok read
  cases read
  obtain ⟨same, kept⟩ :=
    stable_all (schemasAt_stable sound (by cases form <;> rfl) (demand_ok readAll))
  have stable := schemaAt_stable sound (by cases form <;> rfl) (demand_ok readReturns)
  exact ⟨by rw [Shape.reread, same, stable.reread], trivial,
    allKept_append.mpr ⟨kept, stable.kept false⟩⟩

-- One case for each kind that is built in.
theorem builtinShape_stable {k : Kind} {shape : Shape} (sound : Sound r c k fields)
    (read : builtinShape c (view r c (named fields)) k = .ok shape) : ShapeStable r c shape := by
  cases k with
  | literal =>
    obtain ⟨value, -, read⟩ := bind_ok read
    unfold Catalog.literal at read
    split at read
    · cases read
      exact ⟨rfl, trivial, allKept_nil⟩
    · cases read
  | function => exact @callable_stable r c fields .function shape sound read
  | constructor => exact @callable_stable r c fields .constructor shape sound read
  | promise =>
    obtain ⟨item, readItem, read⟩ := bind_ok read
    cases read
    have stable := schemaAt_stable sound rfl (demand_ok readItem)
    exact ⟨congrArg Shape.promise stable.reread, trivial, stable.kept false⟩
  | templateLiteral =>
    obtain ⟨parts, readAll, read⟩ := bind_ok read
    cases read
    obtain ⟨same, kept⟩ := stable_parts (partsAt_stable sound rfl (demand_ok readAll))
    exact ⟨congrArg Shape.template same, trivial, kept⟩
  | array =>
    obtain ⟨items, readItems, read⟩ := bind_ok read
    cases read
    have stable := schemaAt_stable sound rfl (demand_ok readItems)
    exact ⟨congrArg Shape.array stable.reread, trivial, stable.kept false⟩
  | tuple =>
    obtain ⟨items, readAll, read⟩ := bind_ok read
    cases read
    have all : ∀ s ∈ items, SchemaStable r c false s := by
      rcases getD_ok readAll with found | rfl
      · exact schemasAt_stable sound rfl found
      · exact fun _ member => nomatch member
    obtain ⟨same, kept⟩ := stable_all all
    exact ⟨congrArg Shape.tuple same, trivial, kept⟩
  | object =>
    obtain ⟨required, -, read⟩ := bind_ok read
    obtain ⟨properties, readAll, read⟩ := bind_ok read
    obtain ⟨additional, readPolicy, read⟩ := bind_ok read
    cases read
    have all : (properties.map Prod.fst).Nodup ∧
        ∀ p ∈ properties, SchemaStable r c p.2.optional p.2 := by
      rcases getD_ok readAll with found | rfl
      · exact propertiesAt_stable sound rfl found
      · exact ⟨.nil, fun _ member => nomatch member⟩
    have policy : ValueStable r c additional ∧ additional.isKeptPolicy = true := by
      rcases getD_ok readPolicy with found | rfl
      · exact additionalAt_stable sound rfl found
      · exact ⟨⟨rfl, allKept_nil⟩, rfl⟩
    obtain ⟨same, kept⟩ := stable_properties all.2
    exact ⟨by rw [Shape.reread, same, policy.1.reread], ⟨all.1, policy.2⟩,
      allKept_append.mpr ⟨kept, policy.1.kept⟩⟩
  | record =>
    obtain ⟨⟨pattern, decoded⟩, readPattern, read⟩ := bind_ok read
    obtain ⟨key, readKey, read⟩ := bind_ok read
    obtain ⟨value, rfl, read⟩ := bind_ok read
    cases read
    have stableKey : SchemaStable r c false key := by
      rcases getD_ok readKey with found | rfl
      · exact schemaAt_stable sound rfl found
      · exact keyOfPattern_stable pattern
    have stableValue := patternAt_stable sound rfl (demand_ok readPattern)
    exact ⟨by rw [Shape.reread, stableKey.reread, stableValue.reread], trivial,
      allKept_append.mpr ⟨stableKey.kept false, stableValue.kept false⟩⟩
  | union =>
    obtain ⟨variants, readAll, read⟩ := bind_ok read
    cases read
    obtain ⟨same, kept⟩ := stable_all (schemasAt_stable sound rfl (demand_ok readAll))
    exact ⟨congrArg Shape.union same, trivial, kept⟩
  | intersect =>
    obtain ⟨variants, readAll, read⟩ := bind_ok read
    cases read
    obtain ⟨same, kept⟩ := stable_all (schemasAt_stable sound rfl (demand_ok readAll))
    exact ⟨congrArg Shape.intersect same, trivial, kept⟩
  | ref | this =>
    obtain ⟨target, -, read⟩ := bind_ok read
    cases read
    exact ⟨rfl, trivial, allKept_nil⟩
  | user kind => cases read
  | _ =>
    cases read
    exact basic_stable _

theorem userShape_stable (declared : c.Declared)
    (scalars : ∀ d ∈ c, ∀ f ∈ d.fields, f.2.isScalar = true) {kind : String} {shape : Shape}
    (sound : Sound r c (.user kind) fields)
    (read : userShape r c (view r c (named fields)) kind = .ok shape)
    (own : ∀ v, shape.kindField? = some v → v = .text kind) : ShapeStable r c shape := by
  unfold userShape at read
  split at read
  · rename_i d found
    split at read
    · rename_i registered
      obtain ⟨given, readGiven, made⟩ := bind_ok read
      obtain ⟨-, userKind, values, done, made', rfl⟩ := Declaration.shape_ok made
      obtain ⟨member, isKind⟩ := Catalog.find?_spec found
      have stableGiven := decodeFields_stable sound.inside (fun f inFields new =>
        sound.own f inFields .field (by simpa [Kind.reading?] using new)) readGiven
      have stable : ∀ f ∈ values, FieldStable r c f.2 := by
        intro f inFields
        rcases Declaration.complete_values done f inFields with present | ⟨-, default⟩
        · exact (stableGiven _ (lookup_mem present)).1
        · exact fieldStable_scalar (scalars d member _ default)
      obtain rfl : userKind.name = kind :=
        isKind ▸ Declaration.kindOf_name made' fun v field => isKind.symm ▸ own v field
      obtain ⟨same, kept⟩ := stable_fields fun f inFields => (stable f inFields).1
      have data := fun f inFields => (stable f inFields).2
      refine ⟨congrArg (Shape.user userKind) same, ⟨⟨registered, data, d, given, found, made⟩,
        fun v there => ⟨own v (by simp [Shape.kindField?, there]), ?_⟩⟩, kept⟩
      -- The kind of a document is none of the fields given, so the field has its default.
      intro d' found'
      cases found.symm.trans found'
      rcases Declaration.complete_values done _ (lookup_mem there) with present | ⟨-, default⟩
      · exact absurd (by simp) (stableGiven _ (lookup_mem present)).2
      · exact lookup_of_nodup (declared.proper d member).distinct default
    · cases read
  · cases read

theorem decode_table_stable (declared : c.Declared)
    (scalars : ∀ d ∈ c, ∀ f ∈ d.fields, f.2.isScalar = true)
    (inside : ∀ f ∈ fields, Settles r c f.2) (own : Owned r c .document (.table (named fields)))
    {optional : Bool} {s : Schema} (read : decode r c optional (.table (named fields)) = .ok s) :
    SchemaStable r c optional s := by
  cases found : find? (named fields) "kind" with
  | none =>
    rw [decode, found] at read
    cases read
  | some kind =>
    rw [decode_table found] at read
    obtain ⟨shape, readShape, rfl⟩ := map_ok read
    refine .of_shape ?_ _ _
    have ownKind : ∀ v, shape.kindField? = some v → kind = v := by
      intro v field
      have first : decode r c false (.table (named fields)) =
          .ok (.mk 0 ((find? (named fields) "$id").getD .null) false shape) := by
        rw [decode_table found, readShape]
        rfl
      exact Option.some.inj (found.symm.trans (own _ List.mem_cons_self _ first v field))
    unfold shapeOf at readShape
    split at readShape
    · rename_i name
      have sound : ∀ k, (Kind.ofName? name).getD (.user name) = k → Sound r c k fields :=
        fun k same => ⟨inside, own.of_document (by rw [Entries.kind?, found, ← same])⟩
      split at readShape
      · rename_i k builtin
        exact builtinShape_stable (sound k (by rw [builtin]; rfl)) readShape
      · rename_i foreign
        exact userShape_stable declared scalars (sound (.user name) (by rw [foreign]; rfl))
          readShape fun v field => (ownKind v field).symm
    · cases readShape
    · cases readShape
    · cases readShape

theorem settles_table (declared : c.Declared)
    (scalars : ∀ d ∈ c, ∀ f ∈ d.fields, f.2.isScalar = true)
    (inside : ∀ f ∈ fields, Settles r c f.2) (distinct : (fields.map Prod.fst).Nodup) :
    Settles r c (.table (named fields)) where
  schema own _ _ read := decode_table_stable declared scalars inside own read
  each _ schemas read := by
    rw [decodeKeys_stable read]
    exact fun _ member => nomatch member
  parts _ parts read s member := absurd member (decodePartKeys_stable read s)
  properties own entries same required properties read := by
    cases same
    obtain ⟨names, stable⟩ := decodeProperties_stable inside own.of_members read
    exact ⟨names ▸ distinct, stable⟩
  pattern own p w same s read := by
    have member : (p, w) ∈ named fields := (Value.table.inj same) ▸ List.mem_singleton_self _
    obtain ⟨f, there, isEntry⟩ := List.mem_map.mp member
    cases isEntry
    exact (inside f there).schema (own.of_members f there) _ _ read
  policy own a read := by
    obtain ⟨s, decoded, rfl⟩ := map_ok read
    exact ⟨(decode_table_stable declared scalars inside own decoded).value, rfl⟩
  field own w read := by
    rw [decodeField] at read
    split at read
    · obtain ⟨s, decoded, rfl⟩ := map_ok read
      exact ⟨(decode_table_stable declared scalars inside own decoded).value, rfl⟩
    · rename_i noKind
      cases read
      exact ⟨⟨rfl, allKept_nil⟩, by simpa [Value.isKept] using noKind⟩

end

mutual

theorem settles (declared : c.Declared) (scalars : ∀ d ∈ c, ∀ f ∈ d.fields, f.2.isScalar = true) :
    (v : Value) → v.isData (fun _ => true) = true → Settles r c v
  | .null, _ => settles_null
  | .scalar value, _ => settles_scalar value
  | .list items, plain => settles_list (settles_all declared scalars items plain)
  | .table entries, plain => by
    have inside := settles_entries declared scalars entries plain
    obtain ⟨fields, rfl, distinct⟩ := entriesData_named plain
    exact settles_table declared scalars
      (fun f member => inside (entry f.1 f.2) (List.mem_map_of_mem member)) distinct
termination_by structural x => x

theorem settles_all (declared : c.Declared)
    (scalars : ∀ d ∈ c, ∀ f ∈ d.fields, f.2.isScalar = true) : (items : List Value) →
    Value.areData (fun _ => true) items = true → ∀ v ∈ items, Settles r c v
  | [], _ => fun _ member => nomatch member
  | v :: rest, plain => by
    obtain ⟨here, others⟩ := Bool.and_eq_true_iff.mp plain
    exact List.forall_mem_cons.mpr
      ⟨settles declared scalars v here, settles_all declared scalars rest others⟩
termination_by structural x => x

theorem settles_entries (declared : c.Declared)
    (scalars : ∀ d ∈ c, ∀ f ∈ d.fields, f.2.isScalar = true) : (entries : List (Value × Value)) →
    Value.entriesData (fun _ => true) entries = true → ∀ e ∈ entries, Settles r c e.2
  | [], _ => fun _ member => nomatch member
  | (key, v) :: rest, plain => by
    obtain ⟨-, here, others⟩ := entriesData_cons.mp plain
    exact List.forall_mem_cons.mpr
      ⟨settles declared scalars v here, settles_entries declared scalars rest others⟩
termination_by structural x => x

end

-- Whatever was read is written, and what is written is read as the same and written the same again.
theorem decode_normalizes (declared : c.Declared)
    (scalars : ∀ d ∈ c, ∀ f ∈ d.fields, f.2.isScalar = true) {data : Value}
    (plain : data.isData (fun _ => true) = true)
    (own : ∀ entries ∈ data.visited .document, OwnKind r c entries) {s : Schema}
    (read : decode r c false data = .ok s) (scope : Scope) :
    ∃ document, encode r scope s = .ok document ∧ decode r c false document = .ok s ∧
      (decode r c false document >>= encode r scope) = .ok document := by
  have stable := (settles declared scalars data plain).schema own false s read
  obtain ⟨entries, written, -, again⟩ := returns_kept declared s (stable.kept false) scope false
  rw [stable.reread] at again
  exact ⟨.table entries, written, again, by rw [again]; exact written⟩

-- The kind is no field of most classes.
theorem ownKind_of_free {entries : Entries} (free : (decode r c false (.table entries)).toOption.all
    (·.shape.kindField?.isNone) = true) : OwnKind r c entries := by
  intro s read v field
  rw [read] at free
  simp [Except.toOption, field] at free

-- An object in disorder: names that are required but missing, a pattern of no known key, texts and
-- keys for lists, a policy that is a list, and a user kind with data of all sorts.
def untidyItem : Entries :=
  [entry "content" (.list [.table [entry "kind" (.text "Tuple"), entry "items" (.text "")],
      .list [.table [entry "more" (.list [])]]]),
    entry "kind" (.text "Item")]

def untidy : Value :=
  .table [entry "required" (.text "ab"), entry "kind" (.text "Object"), entry "$id" (.list [.null]),
    entry "properties" (.table
      [entry "b" (.table [entry "kind" (.text "Record"),
          entry "patternProperties" (.table [entry "^b$" (.table untidyItem)])]),
        entry "kind" (.table [entry "kind" (.text "TemplateLiteral"),
          entry "parts" (.table [entry "x" .null])])]),
    entry "additionalProperties" (.list [.table []]), entry "more" (.int 1)]

def tidied : Schema :=
  .mk 0 (.list [.null]) false (.object
    [("b", .plain (.record (.basic .string) (.plain (.user itemKind
        [("content", .tuple [.schema (.plain (.tuple [])),
            .tuple [.table [entry "more" (.list [])]]]),
          ("count", .int 1)])))),
      ("kind", .mk 0 .null true (.template [.text "x"]))]
    (.list [.table []]))

theorem untidy_settles :
    itemClass.Declared ∧ untidy.isData (fun _ => true) = true ∧
    decode [("Item", none)] itemClass false untidy = .ok tidied ∧
    ∃ document, encode [("Item", none)] [] tidied = .ok document ∧
      decode [("Item", none)] itemClass false document = .ok tidied := by
  have plain : untidy.isData (fun _ => true) = true := by decide
  have own : ∀ entries ∈ untidy.visited .document, OwnKind [("Item", none)] itemClass entries := by
    have free : ∀ entries ∈ untidy.visited .document, (decode [("Item", none)] itemClass false
        (.table entries)).toOption.all (·.shape.kindField?.isNone) = true := by decide
    exact fun entries member => ownKind_of_free (free entries member)
  have read : decode [("Item", none)] itemClass false untidy = .ok tidied := rfl
  obtain ⟨document, written, again, -⟩ :=
    decode_normalizes itemClass_declared (by decide) plain own read []
  exact ⟨itemClass_declared, plain, read, document, written, again⟩

-- A class whose field `kind` has another kind as its default: what is read from a document of its
-- own kind cannot be written.
theorem tag_unwritable :
    tags.Declared ∧ (∀ d ∈ tags, ∀ f ∈ d.fields, f.2.isScalar = true) ∧
    (Value.table [entry "kind" (.text "K")]).isData (fun _ => true) = true ∧
    decode [("K", none)] tags false (.table [entry "kind" (.text "K")]) = .ok (tag ⟨"X", rfl⟩) ∧
    encode [("K", none)] [] (tag ⟨"X", rfl⟩) = .error (.unknownKind (.text "X")) := by
  have declared : tags.Declared :=
    .declare .nil (show Catalog.declare [] "Tag" (some "K") [⟨"kind", some (.text "X")⟩] =
      .ok (tags, "K") from rfl)
  exact ⟨declared, by decide, by decide, rfl, rfl⟩

end Document

end Assignability
