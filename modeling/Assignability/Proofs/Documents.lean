import Assignability.Document.Decode
import Assignability.Proofs.Likeness

namespace Assignability

-- Reading looks entries up by name, so content is read back from the content alone.

theorem isText_iff {name : String} {v : Value} : v.isText name = true ↔ v = .text name := by
  unfold Value.isText
  split <;> simp_all

theorem same_text (key : Value) (name : String) : key.same (.text name) = key.isText name := by
  cases key with
  | scalar s => cases s <;> rfl
  | _ => rfl

namespace Entries

-- Entries whose keys are names.
def named (fields : List (String × Value)) : Entries := fields.map fun f => entry f.1 f.2

theorem named_cons (name : String) (v : Value) (rest : List (String × Value)) :
    named ((name, v) :: rest) = entry name v :: named rest := rfl

theorem find?_cons (key v : Value) (rest : Entries) (name : String) :
    find? ((key, v) :: rest) name = if key.isText name then some v else find? rest name := by
  unfold find?
  rw [List.find?_cons]
  split <;> simp_all

theorem find?_append (entries added : Entries) (name : String) :
    find? (entries ++ added) name = (find? entries name).or (find? added name) := by
  unfold find?
  rw [List.find?_append]
  cases List.find? (fun e => e.1.isText name) entries <;> rfl

theorem find?_named (fields : List (String × Value)) (name : String) :
    find? (named fields) name = fields.lookup name := by
  induction fields with
  | nil => rfl
  | cons f rest ih =>
    obtain ⟨other, v⟩ := f
    rw [named_cons, entry, find?_cons, ih, List.lookup_cons]
    by_cases same : other = name
    · simp [Value.isText, same]
    · have differs : (name == other) = false := by simpa using fun equal => same equal.symm
      simp [Value.isText, same, differs]

theorem insert_absent {entries : Entries} {name : String} (absent : find? entries name = none)
    (v : Value) : entries.insert (.text name) v = entries ++ [entry name v] := by
  induction entries with
  | nil => rfl
  | cons e rest ih =>
    obtain ⟨key, other⟩ := e
    rw [find?_cons] at absent
    unfold insert at ih ⊢
    rw [Assoc.insertBy, same_text]
    split at absent
    · cases absent
    · rename_i differs
      rw [if_neg differs, ih absent]
      rfl

theorem insert_present {entries : Entries} {name : String} {v : Value}
    (present : find? entries name = some v) : entries.insert (.text name) v = entries := by
  induction entries with
  | nil => cases present
  | cons e rest ih =>
    obtain ⟨key, other⟩ := e
    rw [find?_cons] at present
    unfold insert at ih ⊢
    rw [Assoc.insertBy, same_text]
    split at present
    · rename_i same
      rw [if_pos same, Option.some.inj present]
    · rename_i differs
      rw [if_neg differs, ih present]

-- Names that are there already keep their place; new ones come behind in their order.
theorem update_named {entries : Entries} {fields : List (String × Value)}
    (distinct : (fields.map Prod.fst).Nodup)
    (agrees : ∀ f ∈ fields, ∀ v, find? entries f.1 = some v → v = f.2) :
    update entries (named fields) =
      entries ++ named (fields.filter fun f => (find? entries f.1).isNone) := by
  induction fields generalizing entries with
  | nil => simp [update, named]
  | cons f rest ih =>
    obtain ⟨absent, distinct⟩ := List.nodup_cons.mp distinct
    have next : update entries (named (f :: rest)) =
        update (entries.insert (.text f.1) f.2) (named rest) := rfl
    rw [next]
    cases found : find? entries f.1 with
    | some v =>
      have same := agrees f List.mem_cons_self v found
      rw [insert_present (same ▸ found),
        ih distinct fun g member => agrees g (List.mem_cons_of_mem _ member),
        List.filter_cons_of_neg (by simp [found])]
    | none =>
      -- No later name is this one, so whether a later name is new stays the same.
      have others : ∀ g ∈ rest, find? (entries ++ [entry f.1 f.2]) g.1 = find? entries g.1 := by
        intro g member
        have differs : f.1 ≠ g.1 := fun same => absent (same ▸ List.mem_map_of_mem member)
        simp [entry, Value.isText, differs, find?]
      have kept : (rest.filter fun g => (find? (entries ++ [entry f.1 f.2]) g.1).isNone) =
          rest.filter fun g => (find? entries g.1).isNone :=
        List.filter_congr fun g member => by rw [others g member]
      rw [insert_absent found, ih distinct ?_, kept, List.filter_cons_of_pos (by simp [found])]
      · simp [named]
      · intro g member v present
        exact agrees g (List.mem_cons_of_mem _ member) v (others g member ▸ present)

end Entries

-- A name that no later entry has.
def Value.isFreshName (rest : Entries) : Value → Bool
  | .scalar (.text name) => (Entries.find? rest name).isNone
  | _ => false

mutual

-- Data as a text can hold it, with scalars that pass a test: the keys of a table are names, no two
-- alike.
def Value.isData (holds : Scalar → Bool) : Value → Bool
  | .null => true
  | .scalar s => holds s
  | .list items => Value.areData holds items
  | .table entries => Value.entriesData holds entries
  | .tuple _ => false
  | .schema _ => false
termination_by structural x => x

def Value.areData (holds : Scalar → Bool) : List Value → Bool
  | [] => true
  | v :: rest => Value.isData holds v && Value.areData holds rest
termination_by structural x => x

def Value.entriesData (holds : Scalar → Bool) : List (Value × Value) → Bool
  | [] => true
  | (key, v) :: rest => key.isFreshName rest && Value.isData holds v && Value.entriesData holds rest
termination_by structural x => x

end

theorem entriesData_cons {holds : Scalar → Bool} {key v : Value} {rest : Entries} :
    Value.entriesData holds ((key, v) :: rest) = true ↔
      key.isFreshName rest = true ∧ v.isData holds = true ∧
        Value.entriesData holds rest = true := by
  rw [Value.entriesData, Bool.and_eq_true, Bool.and_eq_true, and_assoc]

theorem entriesData_named {holds : Scalar → Bool} {entries : Entries}
    (data : Value.entriesData holds entries = true) :
    ∃ fields, entries = Entries.named fields ∧ (fields.map Prod.fst).Nodup := by
  induction entries with
  | nil => exact ⟨[], rfl, .nil⟩
  | cons e rest ih =>
    obtain ⟨key, v⟩ := e
    obtain ⟨fresh, -, others⟩ := entriesData_cons.mp data
    obtain ⟨fields, rfl, distinct⟩ := ih others
    unfold Value.isFreshName at fresh
    split at fresh
    · rename_i name
      refine ⟨(name, v) :: fields, rfl, List.nodup_cons.mpr ⟨?_, distinct⟩⟩
      intro member
      rw [Entries.find?_named, Option.isNone_iff_eq_none, List.lookup_eq_none_iff] at fresh
      obtain ⟨f, there, same⟩ := List.mem_map.mp member
      simpa [same] using fresh f there
    · cases fresh

namespace Document

open Entries (entry named find?)

-- What stands in front of the content.
def header (kind : Kind) (id : Value) : Entries :=
  entry "kind" (.text kind.name) :: if id.isNull then [] else [entry "$id" id]

theorem header_kind (kind : Kind) (id : Value) :
    find? (header kind id) "kind" = some (.text kind.name) := by
  simp [header, entry, Entries.find?_cons, Value.isText]

theorem header_id (kind : Kind) (id : Value) : (find? (header kind id) "$id").getD .null = id := by
  unfold header
  cases id <;> simp [entry, Value.isText, Value.isNull, find?]

theorem header_other (kind : Kind) (id : Value) {name : String} (notKind : name ≠ "kind")
    (notId : name ≠ "$id") : find? (header kind id) name = none := by
  unfold header
  cases id <;> simp [entry, Value.isText, Value.isNull, find?, notKind.symm, notId.symm]

-- Content that can stand behind the kind and the id: its names differ, none is that of the id, and
-- what it has as its kind is the kind.
structure Fits (kind : Kind) (fields : List (String × Value)) : Prop where
  distinct : (fields.map Prod.fst).Nodup
  noId : "$id" ∉ fields.map Prod.fst
  ownKind : ∀ v, fields.lookup "kind" = some v → v = .text kind.name

theorem assemble_named {kind : Kind} {fields : List (String × Value)} (fits : Fits kind fields)
    (id : Value) : assemble kind id (named fields) =
      .table (header kind id ++ named (fields.filter fun f => f.1 != "kind")) := by
  have notId : ∀ f ∈ fields, f.1 ≠ "$id" :=
    fun f member same => fits.noId (same ▸ List.mem_map_of_mem member)
  have isNew : ∀ f ∈ fields, (find? (header kind id) f.1).isNone = (f.1 != "kind") := by
    intro f member
    by_cases isKind : f.1 = "kind"
    · simp [isKind, header_kind]
    · simp [header_other kind id isKind (notId f member), isKind]
  show Value.table (Entries.update (header kind id) (named fields)) = _
  rw [Entries.update_named fits.distinct, List.filter_congr isNew]
  intro f member v found
  by_cases isKind : f.1 = "kind"
  · rw [isKind, header_kind] at found
    have own := fits.ownKind f.2 (isKind ▸ lookup_of_nodup fits.distinct member)
    rw [own, ← Option.some.inj found]
  · rw [header_other kind id isKind (notId f member)] at found
    cases found

-- What a table holds under a name, read in each of the ways.
def view (r : Registry) (c : Catalog) (entries : Entries) : View where
  value? := find? entries
  schema? key := schemaAt r c key entries
  schemas? key := schemasAt r c key entries
  parts? key := partsAt r c key entries
  properties? required key := propertiesAt r c required key entries
  additional? key := additionalAt r c key entries
  pattern? key := patternAt r c key entries
  fields skipped := decodeFields r c skipped entries

theorem decode_table {r : Registry} {c : Catalog} {entries : Entries} {kind : Value}
    (found : find? entries "kind" = some kind) (optional : Bool) :
    decode r c optional (.table entries) =
      (shapeOf r c (view r c entries) kind).map
        (.mk 0 ((find? entries "$id").getD .null) optional) := by
  rw [decode, found]
  rfl

-- All of them take the first entry of that name.
theorem found_at {α : Type} {key : String} {readAt : Entries → Option α} {read : Value → α}
    (nil : readAt [] = none)
    (cons : ∀ k v rest, readAt ((k, v) :: rest) =
      if k.isText key then some (read v) else readAt rest) (entries : Entries) :
    readAt entries = (find? entries key).map read := by
  induction entries with
  | nil => exact nil
  | cons e rest ih =>
    obtain ⟨k, v⟩ := e
    rw [cons, Entries.find?_cons, ih]
    split <;> rfl

-- Two of them go by the form of the value too.
theorem found_first {α : Type} {key : String} {readAt : Entries → Option α} {v : Value} {answer : α}
    (here : ∀ k rest, k.isText key = true → readAt ((k, v) :: rest) = some answer)
    (later : ∀ k w rest, ¬ k.isText key = true → readAt ((k, w) :: rest) = readAt rest)
    {entries : Entries} (found : find? entries key = some v) : readAt entries = some answer := by
  induction entries with
  | nil => cases found
  | cons e rest ih =>
    obtain ⟨k, w⟩ := e
    rw [Entries.find?_cons] at found
    by_cases isKey : k.isText key = true
    · rw [if_pos isKey] at found
      cases found
      exact here k rest isKey
    · rw [if_neg isKey] at found
      rw [later k w rest isKey, ih found]

section
variable (r : Registry) (c : Catalog) (key : String) (entries : Entries)

theorem schemaAt_eq : schemaAt r c key entries = (find? entries key).map (decode r c false) :=
  found_at rfl (fun _ _ _ => rfl) entries

theorem schemasAt_eq : schemasAt r c key entries = (find? entries key).map (decodeEach r c) :=
  found_at rfl (fun _ _ _ => rfl) entries

theorem partsAt_eq : partsAt r c key entries = (find? entries key).map (decodeParts r c) :=
  found_at rfl (fun _ _ _ => rfl) entries

theorem additionalAt_eq : additionalAt r c key entries =
    (find? entries key).map fun v => additionalOf (decode r c false v) v :=
  found_at rfl (fun _ _ _ => rfl) entries

variable {r c key entries}

theorem propertiesAt_table {inside : Entries} (found : find? entries key = some (.table inside))
    (required : List Value) : propertiesAt r c required key entries =
      some (decodeProperties r c required inside) :=
  found_first (fun _ _ here => if_pos here)
    (fun _ w _ other => by cases w <;> exact if_neg other) found

theorem patternAt_table {pattern value : Value}
    (found : find? entries key = some (.table [(pattern, value)])) :
    patternAt r c key entries = some (.ok (pattern, decode r c false value)) :=
  found_first (fun _ _ here => if_pos here)
    (fun _ w _ other => by
      rcases w with _ | _ | _ | _ | (_ | ⟨_, _ | _⟩) | _ <;> exact if_neg other) found

end

-- The part of an assembled document that is content.
theorem find?_content {kind : Kind} {id : Value} {fields : List (String × Value)} {name : String}
    (notKind : name ≠ "kind") (notId : name ≠ "$id") :
    find? (header kind id ++ named (fields.filter fun f => f.1 != "kind")) name =
      fields.lookup name := by
  rw [Entries.find?_append, header_other kind id notKind notId, Option.none_or,
    Entries.find?_named]
  induction fields with
  | nil => rfl
  | cons f rest ih =>
    obtain ⟨other, v⟩ := f
    by_cases isKind : other = "kind"
    · rw [List.filter_cons_of_neg (by simp [isKind]), ih, List.lookup_cons]
      have differs : (name == other) = false := by simpa [isKind] using notKind
      rw [differs]
    · rw [List.filter_cons_of_pos (by simpa using isKind), List.lookup_cons, List.lookup_cons, ih]

end Document

end Assignability
