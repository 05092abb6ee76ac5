import Assignability.Proofs.Preparation
import Mathlib.Data.List.Forall2

namespace Assignability

-- Which data a schema describes is said here without reference to the rules of comparison.

-- Of entries of an object with the same key the first one counts.
inductive Datum where
  | null
  | undefined
  | bool (b : Bool)
  | int (n : Int)
  | real (x : Binary64)
  | bigint (n : Int)
  | text (s : String)
  | symbol (description : Option String)
  | date (time : Int)
  | bytes (content : List UInt8)
  | list (items : List Datum)
  | object (entries : List (String × Datum))

namespace Datum

def member? : Datum → String → Option Datum
  | .text s, name => if name == "length" then some (.int s.length) else none
  | .bytes content, name => if name == "length" then some (.int content.length) else none
  | .list items, name => if name == "length" then some (.int items.length) else none
  | .symbol description, name =>
    if name == "description" then some ((description.map Datum.text).getD .undefined) else none
  | .object entries, name => entries.lookup name
  | _, _ => none

def isAbsent : Datum → Bool
  | .null => true
  | .undefined => true
  | _ => false

end Datum

def Basic.admits : Basic → Datum → Bool
  | .any, _ => true
  | .unknown, _ => true
  | .void, .undefined => true
  | .null, .null => true
  | .undefined, .undefined => true
  | .boolean, .bool _ => true
  | .number, .int _ => true
  | .number, .real _ => true
  | .integer, .int _ => true
  | .integer, .real x => x.toInt?.isSome
  | .bigint, .bigint _ => true
  | .string, .text _ => true
  | .symbol, .symbol _ => true
  | .date, .date _ => true
  | .uint8Array, .bytes _ => true
  | _, _ => false

-- Data of the literal's own type that are equal to it: a number that is none equals nothing.
def Scalar.admits : Scalar → Datum → Bool
  | .bool a, .bool b => a == b
  | .int m, .int n => m == n
  | .real x, .real y => x.compare? y == some .eq
  | .text a, .text b => a == b
  | _, _ => false

-- The strings of a template are those of its finite expansion, and all strings if it has none.
def Template.admits (parts : List Part) (v : Datum) : Bool :=
  match v, Template.expandParts parts with
  | .text s, some strings => strings.contains s
  | .text _, none => true
  | _, _ => false

mutual

def Schema.admits : Schema → Datum → Bool
  | .mk _ _ _ shape, v => Shape.admits shape v

def Schema.eachAdmits : List Schema → List Datum → Bool
  | [], [] => true
  | s :: rest, v :: others => Schema.admits s v && Schema.eachAdmits rest others
  | _, _ => false

def Schema.someAdmits : List Schema → Datum → Bool
  | [], _ => false
  | s :: rest, v => Schema.admits s v || Schema.someAdmits rest v

def Schema.allAdmit : List Schema → Datum → Bool
  | [], _ => true
  | s :: rest, v => Schema.admits s v && Schema.allAdmit rest v

def Schema.propertiesAdmit : List (String × Schema) → Datum → Bool
  | [], _ => true
  | (name, s) :: rest, v => (v.member? name).any (Schema.admits s) && Schema.propertiesAdmit rest v

def Shape.admits : Shape → Datum → Bool
  | .basic b, v => b.admits v
  | .literal value, v => value.admits v
  | .template parts, v => Template.admits parts v
  | .array items, .list content => content.all (Schema.admits items)
  | .tuple items, .list content => Schema.eachAdmits items content
  | .object properties _, v => !v.isAbsent && Schema.propertiesAdmit properties v
  | .union variants, v => Schema.someAdmits variants v
  | .intersect variants, v => Schema.allAdmit variants v
  | _, _ => false

end

-- Nothing is said of policies for undeclared properties, which leave the listed ones as they are.
def Shape.ofData : Shape → Bool
  | .basic b => b != .any
  | .literal _ => true
  | .template _ => true
  | .array _ => true
  | .tuple _ => true
  | .object properties _ => properties.all fun p => !p.2.optional
  | .union _ => true
  | .intersect _ => true
  | _ => false

def Schema.OfData (s : Schema) : Prop := ∀ t ∈ s.parts, t.shape.ofData = true

instance (s : Schema) : Decidable s.OfData :=
  inferInstanceAs (Decidable (∀ t ∈ s.parts, t.shape.ofData = true))

theorem admits_eq (s : Schema) (v : Datum) : s.admits v = s.shape.admits v := by
  cases s
  rfl

theorem eachAdmits_iff {items : List Schema} {content : List Datum} :
    Schema.eachAdmits items content = true ↔
      List.Forall₂ (fun s v => s.admits v = true) items content := by
  induction items generalizing content with
  | nil => cases content <;> simp [Schema.eachAdmits, List.forall₂_nil_left_iff]
  | cons s rest ih => cases content <;> simp [Schema.eachAdmits, List.forall₂_nil_right_iff, ih]

theorem someAdmits_iff {variants : List Schema} {v : Datum} :
    Schema.someAdmits variants v = true ↔ ∃ s ∈ variants, s.admits v = true := by
  induction variants with
  | nil => simp [Schema.someAdmits]
  | cons s rest ih => simp [Schema.someAdmits, ih]

theorem allAdmit_iff {variants : List Schema} {v : Datum} :
    Schema.allAdmit variants v = true ↔ ∀ s ∈ variants, s.admits v = true := by
  induction variants with
  | nil => simp [Schema.allAdmit]
  | cons s rest ih => simp [Schema.allAdmit, ih]

theorem propertiesAdmit_iff {properties : List (String × Schema)} {v : Datum} :
    Schema.propertiesAdmit properties v = true ↔
      ∀ name s, (name, s) ∈ properties → ∃ u, v.member? name = some u ∧ s.admits u = true := by
  induction properties with
  | nil => simp [Schema.propertiesAdmit]
  | cons p rest ih =>
    obtain ⟨name, s⟩ := p
    simp only [Schema.propertiesAdmit, Bool.and_eq_true, Option.any_eq_true, ih, List.mem_cons,
      Prod.mk.injEq]
    constructor
    · rintro ⟨first, later⟩ other t (⟨rfl, rfl⟩ | member)
      · exact first
      · exact later other t member
    · intro every
      exact ⟨every name s (.inl ⟨rfl, rfl⟩), fun other t member => every other t (.inr member)⟩

theorem ofData_kind {s : Schema} (allowed : s.shape.ofData = true) (kind : String) :
    s.kind ≠ .user kind := by
  unfold Schema.kind
  cases shape : s.shape with
  | basic b => cases b <;> simp [Shape.kind, Basic.kind]
  | _ => simp_all [Shape.ofData, Shape.kind]

namespace Schema.OfData

variable {s : Schema}

theorem self (ofData : s.OfData) : s.shape.ofData = true := ofData s (self_mem_parts s)

theorem child {c : Schema} (ofData : s.OfData) (inside : c ∈ s.children) : c.OfData :=
  fun t part => ofData t (child_parts inside part)

theorem isReference (ofData : s.OfData) : s.isReference = false := by
  have allowed := ofData.self
  cases shape : s.shape <;> simp_all [Schema.isReference, Shape.ofData]

end Schema.OfData

-- Equal numbers have the same sign if they are infinite, and the same amount if they are finite.
theorem compare_eq_iff {x y : Binary64} : x.compare? y = some .eq ↔
    (∃ a, x = .infinite a ∧ y = .infinite a) ∨ ∃ a m e b n f, x = .finite a m e ∧
      y = .finite b n f ∧ Binary64.scaled a m e = Binary64.scaled b n f := by
  cases x with
  | nan k => simp [Binary64.compare?]
  | infinite a =>
    cases y with
    | infinite b => cases a <;> cases b <;> simp [Binary64.compare?]
    | _ => cases a <;> simp [Binary64.compare?]
  | finite a m e =>
    cases y with
    | infinite b => cases b <;> simp [Binary64.compare?]
    | nan k => simp [Binary64.compare?]
    | finite b n f => simp [Binary64.compare?]

theorem compare_eq_toInt {x y : Binary64} (equal : x.compare? y = some .eq) :
    x.toInt? = y.toInt? := by
  rcases compare_eq_iff.mp equal with ⟨a, rfl, rfl⟩ | ⟨a, m, e, b, n, f, rfl, rfl, amount⟩
  · rfl
  · simp only [Binary64.toInt?, amount]

theorem same_compare {x y z : Binary64} (same : x.same y = true) (equal : x.compare? z = some .eq) :
    y.compare? z = some .eq := by
  have alike : x.compare? y = some .eq := by
    cases x with
    | nan k => simp [Binary64.compare?] at equal
    | _ => simpa [Binary64.same] using same
  rcases compare_eq_iff.mp alike with ⟨a, rfl, rfl⟩ | ⟨a, m, e, b, n, f, rfl, rfl, amount⟩
  · exact equal
  · cases z <;> simp_all [Binary64.compare?]

theorem sameLiteral_admits {value other : Scalar} {v : Datum}
    (same : value.sameLiteral other = true) (admitted : value.admits v = true) :
    other.admits v = true := by
  cases value <;> cases other <;> cases v <;> simp_all [Scalar.sameLiteral, Scalar.admits]
  exact same_compare same admitted

theorem text_admits {text : String} {v : Datum} :
    (Scalar.text text).admits v = true ↔ v = .text text := by
  cases v with
  | text s => simpa [Scalar.admits] using eq_comm
  | _ => simp [Scalar.admits]

theorem finite_admits {parts : List Part} {strings : List String} {v : Datum}
    (expanded : Template.expandParts parts = some strings) :
    Template.admits parts v = true ↔ ∃ text ∈ strings, v = .text text := by
  cases v <;> simp [Template.admits, expanded]

theorem numbered_admits {mark : Nat} {strings : List String} {v : Datum} :
    Schema.someAdmits (Template.numbered mark strings) v = true ↔
      ∃ text ∈ strings, v = .text text := by
  induction strings generalizing mark with
  | nil => simp [Template.numbered, Schema.someAdmits]
  | cons text rest ih =>
    simp [Template.numbered, Schema.someAdmits, Rule.marked, Schema.admits, Shape.admits, ih,
      text_admits]

-- A template describes the same data as what it resolves to.
theorem resolved_admits (mark : Nat) (s : Schema) (v : Datum) :
    (s.resolved mark).1.admits v = true ↔ s.admits v = true := by
  rcases template_cases s with ⟨parts, shape⟩ | expanded
  · rw [resolved_template shape, admits_eq s, shape]
    rcases Template.place_resolve mark parts with ⟨same, unbounded⟩ | ⟨text, same, expanded⟩ |
      ⟨strings, same, expanded⟩ <;>
      simp only [same, Rule.marked, Schema.admits, Shape.admits]
    · cases v <;> simp [Basic.admits, Template.admits, unbounded]
    · simp [text_admits, finite_admits expanded]
    · rw [numbered_admits, finite_admits expanded]
  · rw [resolved_self expanded]

theorem resolved_ofData (mark : Nat) {s : Schema} (ofData : s.OfData) :
    (s.resolved mark).1.OfData := by
  rcases template_cases s with ⟨parts, shape⟩ | expanded
  · intro t part
    rcases resolved_parts mark shape part with same | ⟨text, same⟩ | ⟨variants, same⟩ <;>
      simp [same, Shape.ofData]
  · rwa [resolved_self expanded]

end Assignability
