import Assignability.Proofs.Rules

namespace Assignability

-- A rule may look at the kinds of both schemas only, and then ask a schema for a part that its kind
-- has. A part that it lacks is a fault, and so is a kind that no rule is for.

namespace Shape

def variants? : Shape → Option (List Schema)
  | .union variants => some variants
  | .intersect variants => some variants
  | _ => none

def value? : Shape → Option Scalar
  | .literal value => some value
  | _ => none

def parameters? : Shape → Option (List Schema)
  | .callable _ parameters _ => some parameters
  | _ => none

def returns? : Shape → Option Schema
  | .callable _ _ returns => some returns
  | _ => none

def item? : Shape → Option Schema
  | .promise item => some item
  | _ => none

def items? : Shape → Option Schema
  | .array items => some items
  | _ => none

def elements? : Shape → Option (List Schema)
  | .tuple items => some items
  | _ => none

def properties? : Shape → Option (List (String × Schema))
  | .object properties _ => some properties
  | _ => none

def additional? : Shape → Option Value
  | .object _ additional => some additional
  | _ => none

def key? : Shape → Option Schema
  | .record key _ => some key
  | _ => none

def indexed? : Shape → Option Schema
  | .record _ value => some value
  | _ => none

end Shape

-- A part that only some kinds have.
def Schema.ask {α : Type} (part : Shape → Option α) (s : Schema) : Except Fault α :=
  match part s.shape with
  | some a => .ok a
  | none => .error .noAttribute

theorem Schema.ask_eq {α : Type} (part : Shape → Option α) {s : Schema} {shape : Shape} {a : α}
    (own : s.shape = shape) (found : part shape = some a) : s.ask part = .ok a := by
  simp only [Schema.ask, own, found]

namespace Rule.Read

def hasOnly (right : Site) (name : String) (member : Schema) : Except Fault Goal := do
  return Rule.hasOnly (← right.schema.ask Shape.properties?) right name member

def noProperties (right : Site) : Except Fault Goal := do
  return .answer (← right.schema.ask Shape.properties?).isEmpty

-- The value of a literal is asked for only where it decides.
def objectRight (mark : Nat) (left right : Site) : Except Fault Goal :=
  match left.schema.kind with
  | .string => hasOnly right "length" (lengthMember mark)
  | .uint8Array => hasOnly right "length" (lengthMember mark)
  | .function => hasOnly right "length" (lengthMember mark)
  | .literal => do
    let value ← left.schema.ask Shape.value?
    if value.isText then hasOnly right "length" (lengthMember mark) else noProperties right
  | .number => noProperties right
  | .integer => noProperties right
  | .boolean => noProperties right
  | .bigint => noProperties right
  | .date => noProperties right
  | .constructor => noProperties right
  | .symbol => hasOnly right "description" (descriptionMember mark)
  | .promise => hasOnly right "then" (thenMember mark)
  | .record => do
    let properties ← right.schema.ask Shape.properties?
    if properties.isEmpty then return .answer true
    else if (← left.schema.ask Shape.key?).isNumericKey then return .answer false
    else
      let value ← left.schema.ask Shape.indexed?
      return .all (properties.flatMap fun p =>
        [.holds p.2.optional, .compare (left.to value) (right.to p.2)])
  | _ => return .answer false

-- Text against an index by numbers.
def itemRight (mark : Nat) (left right : Site) (b : Basic) : Except Fault Goal := do
  if (← right.schema.ask Shape.key?).isNumericKey then
    return .compare (left.to (marked mark (.basic b)))
      (right.to (← right.schema.ask Shape.indexed?))
  else return .answer false

def recordRight (mark : Nat) (left right : Site) : Except Fault Goal :=
  match left.schema.kind with
  | .string => itemRight mark left right .string
  | .literal => do
    let value ← left.schema.ask Shape.value?
    if value.isText then itemRight mark left right .string else return .answer false
  | .uint8Array => itemRight mark left right .number
  | .object => do
    let properties ← left.schema.ask Shape.properties?
    let additional ← left.schema.ask Shape.additional?
    let key ← right.schema.ask Shape.key?
    let value ← right.schema.ask Shape.indexed?
    return .all (((properties.filter fun p => coversName key p.1).map fun p =>
        .compare (left.to p.2) (right.to value)) ++
      if key.isNumericKey then []
      else additionalStep additional fun s => [.compare (left.to s) (right.to value)])
  | _ => return .answer false

def literal (mark : Nat) (left right : Site) : Except Fault Goal := do
  let value ← left.schema.ask Shape.value?
  match right.schema.kind with
  | .literal => return .answer (value.sameLiteral (← right.schema.ask Shape.value?))
  | .string => return .answer value.isText
  | .number => return .answer value.isNumber
  | .integer => return .answer value.isWhole
  | .boolean => return .answer value.isBool
  | .object => objectRight mark left right
  | .record => recordRight mark left right
  | _ => return .answer false

def primitive (mark : Nat) (left right : Site) (b : Basic) : Except Fault Goal :=
  match right.schema.kind with
  | .object => objectRight mark left right
  | .record => recordRight mark left right
  | kind => return .answer (((accepted b).map Basic.kind).contains kind)

def callable (mark : Nat) (left right : Site) : Except Fault Goal := do
  if right.schema.kind = .object then objectRight mark left right
  else if right.schema.kind = left.schema.kind then
    let ours ← left.schema.ask Shape.parameters?
    let theirs ← right.schema.ask Shape.parameters?
    let returns ← left.schema.ask Shape.returns?
    let result ← right.schema.ask Shape.returns?
    if ours.length ≤ theirs.length then
      return .all ((ours.zip theirs).map (fun p => .compare (right.to p.2) (left.to p.1)) ++
        [.compare (left.to returns) (right.to result)])
    else return .answer false
  else return .answer false

def promise (mark : Nat) (left right : Site) : Except Fault Goal :=
  match right.schema.kind with
  | .promise => do
    return .compare (left.to (← left.schema.ask Shape.item?))
      (right.to (← right.schema.ask Shape.item?))
  | .object => objectRight mark left right
  | _ => return .answer false

def array (mark : Nat) (left right : Site) : Except Fault Goal :=
  match right.schema.kind with
  | .array => do
    return .compare (left.to (← left.schema.ask Shape.items?))
      (right.to (← right.schema.ask Shape.items?))
  | .object => hasOnly right "length" (lengthMember mark)
  | .record => do
    if (← right.schema.ask Shape.key?).isNumericKey then
      return .compare (left.to (← left.schema.ask Shape.items?))
        (right.to (← right.schema.ask Shape.indexed?))
    else return .answer false
  | _ => return .answer false

def tuple (mark : Nat) (left right : Site) : Except Fault Goal := do
  let items ← left.schema.ask Shape.elements?
  match right.schema.kind with
  | .tuple =>
    let others ← right.schema.ask Shape.elements?
    if items.length = others.length then
      return .all ((items.zip others).map fun p => .compare (left.to p.1) (right.to p.2))
    else return .answer false
  | .array =>
    let other ← right.schema.ask Shape.items?
    return .all (items.map fun s => .compare (left.to s) (right.to other))
  | .object => hasOnly right "length" (lengthMember mark)
  | .record =>
    if (← right.schema.ask Shape.key?).isNumericKey then
      let value ← right.schema.ask Shape.indexed?
      return .all (items.map fun s => .compare (left.to s) (right.to value))
    else return .answer false
  | _ => return .answer false

def object (mark : Nat) (left right : Site) : Except Fault Goal :=
  match right.schema.kind with
  | .object => do
    return objectObject left right (← left.schema.ask Shape.properties?)
      (← right.schema.ask Shape.properties?) (← right.schema.ask Shape.additional?)
  | .record => recordRight mark left right
  | _ => return .answer false

def record (mark : Nat) (left right : Site) : Except Fault Goal :=
  match right.schema.kind with
  | .record => do
    let key ← left.schema.ask Shape.key?
    let otherKey ← right.schema.ask Shape.key?
    if key.isNumericKey = otherKey.isNumericKey ∨ key.isNumericKey = false then
      return .compare (left.to (← left.schema.ask Shape.indexed?))
        (right.to (← right.schema.ask Shape.indexed?))
    else return .answer false
  | .object => objectRight mark left right
  | _ => return .answer false

-- Kinds on the left that no rule is for.
def unruled : List Kind := [.any, .never, .union, .intersect, .templateLiteral, .ref, .this]

def byKind (registry : Registry) (mark : Nat) (left right : Site) : Except Fault Goal :=
  match left.schema.kind with
  | .unknown => return .answer false
  | .void => primitive mark left right .void
  | .null => primitive mark left right .null
  | .undefined => primitive mark left right .undefined
  | .boolean => primitive mark left right .boolean
  | .number => primitive mark left right .number
  | .integer => primitive mark left right .integer
  | .bigint => primitive mark left right .bigint
  | .string => primitive mark left right .string
  | .symbol => primitive mark left right .symbol
  | .date => primitive mark left right .date
  | .uint8Array => primitive mark left right .uint8Array
  | .literal => literal mark left right
  | .function => callable mark left right
  | .constructor => callable mark left right
  | .promise => promise mark left right
  | .array => array mark left right
  | .tuple => tuple mark left right
  | .object => object mark left right
  | .record => record mark left right
  | .user kind => return user registry left right kind
  | kind => .error (.unhandledKind "Comparison" kind)

-- Kinds that absorb others, in the order in which they are tried.
def absorbed (settings : Settings) (left right : Kind) : Option Goal :=
  if right = .any ∨ right = .unknown then some (.answer true)
  else if left = .never then some (.answer true)
  else if right = .never then some (.answer false)
  else if left = .any then some (.answer settings.anyLeftResult)
  else none

-- Unions and intersections are taken apart.
def apart (left right : Site) : Except Fault (Option Goal) :=
  if left.schema.kind = .union then do
    let variants ← left.schema.ask Shape.variants?
    return some (.all (variants.map fun v => .compare (left.to v) right))
  else if right.schema.kind = .intersect then do
    let variants ← right.schema.ask Shape.variants?
    return some (.all (variants.map fun v => .compare left (right.to v)))
  else if right.schema.kind = .union then
    if left.schema.kind = .intersect then do
      let variants ← right.schema.ask Shape.variants?
      let parts ← left.schema.ask Shape.variants?
      return some (.any (variants.map (fun v => .compare left (right.to v)) ++
        parts.map fun v => .compare (left.to v) right))
    else do
      let variants ← right.schema.ask Shape.variants?
      return some (.any (variants.map fun v => .compare left (right.to v)))
  else if left.schema.kind = .intersect then do
    let parts ← left.schema.ask Shape.variants?
    return some (.any (parts.map fun v => .compare (left.to v) right))
  else return none

-- What a pair asks before the kind of its left side decides, if anything.
def early (settings : Settings) (left right : Site) : Except Fault (Option Goal) :=
  match absorbed settings left.schema.kind right.schema.kind with
  | some g => return some g
  | none => apart left right

def goal (settings : Settings) (registry : Registry) (mark : Nat) (left right : Site) :
    Except Fault Goal := do
  match ← early settings left right with
  | some g => return g
  | none => byKind registry mark left right

section
variable {mark : Nat} {left right : Site}

theorem objectRight_reads {properties : List (String × Schema)} {additional : Value}
    (shape : right.schema.shape = .object properties additional) :
    objectRight mark left right = .ok (Rule.objectRight mark left right properties) := by
  have theirs := Schema.ask_eq Shape.properties? shape rfl
  unfold objectRight Rule.objectRight Schema.kind
  cases own : left.schema.shape with
  | basic b => cases b <;> simp only [Shape.kind, Basic.kind, hasOnly, noProperties, theirs] <;> rfl
  | literal value =>
    have ours := Schema.ask_eq Shape.value? own rfl
    cases value <;> simp only [Shape.kind, hasOnly, noProperties, theirs, ours] <;> rfl
  | callable form parameters returns =>
    cases form <;> simp only [Shape.kind, CallForm.kind, hasOnly, noProperties, theirs] <;> rfl
  | promise item =>
    simp only [Shape.kind, hasOnly, theirs]
    rfl
  | record key value =>
    have keys := Schema.ask_eq Shape.key? own rfl
    have values := Schema.ask_eq Shape.indexed? own rfl
    simp only [Shape.kind, theirs, keys, values, bind, Except.bind, pure, Except.pure]
    split
    · rfl
    · split <;> rfl
  | reference form target => cases form <;> rfl
  | template parts | array items | tuple items | object ours extra | union variants
  | intersect variants | user kind fields => rfl

theorem recordRight_reads {key value : Schema} (shape : right.schema.shape = .record key value) :
    recordRight mark left right = .ok (Rule.recordRight mark left right key value) := by
  have keys := Schema.ask_eq Shape.key? shape rfl
  have values := Schema.ask_eq Shape.indexed? shape rfl
  have items : ∀ b, itemRight mark left right b = .ok (if key.isNumericKey then
      .compare (left.to (marked mark (.basic b))) (right.to value) else .answer false) := by
    intro b
    simp only [itemRight, keys, values, bind, Except.bind, pure, Except.pure]
    split <;> rfl
  unfold recordRight Rule.recordRight Schema.kind
  cases own : left.schema.shape with
  | basic b => cases b <;> simp only [Shape.kind, Basic.kind, items] <;> rfl
  | literal scalar =>
    have ours := Schema.ask_eq Shape.value? own rfl
    cases scalar <;> simp only [Shape.kind, ours, items] <;> rfl
  | object properties additional =>
    have ours := Schema.ask_eq Shape.properties? own rfl
    have extra := Schema.ask_eq Shape.additional? own rfl
    simp only [Shape.kind, ours, extra, keys, values]
    rfl
  | callable form parameters returns => cases form <;> rfl
  | reference form target => cases form <;> rfl
  | promise item | template parts | array items | tuple items | record ours theirs
  | union variants | intersect variants | user kind fields => rfl

theorem literal_reads {value : Scalar} (shape : left.schema.shape = .literal value) :
    literal mark left right = .ok (Rule.literal mark left right value) := by
  have ours := Schema.ask_eq Shape.value? shape rfl
  unfold literal Rule.literal Schema.kind
  simp only [ours]
  cases own : right.schema.shape with
  | literal other =>
    have theirs := Schema.ask_eq Shape.value? own rfl
    simp only [Shape.kind, theirs]
    rfl
  | object properties additional => exact objectRight_reads own
  | record key value => exact recordRight_reads own
  | basic b => cases b <;> rfl
  | callable form parameters returns => cases form <;> rfl
  | reference form target => cases form <;> rfl
  | promise item | template parts | array items | tuple items | union variants
  | intersect variants | user kind fields => rfl

theorem primitive_reads (b : Basic) :
    primitive mark left right b = .ok (Rule.primitive mark left right b) := by
  unfold primitive Rule.primitive Schema.kind
  cases own : right.schema.shape with
  | object properties additional => exact objectRight_reads own
  | record key value => exact recordRight_reads own
  | basic other => cases b <;> cases other <;> rfl
  | callable form parameters returns => cases b <;> cases form <;> rfl
  | reference form target => cases b <;> cases form <;> rfl
  | user kind fields => cases b <;> simp [Shape.kind, accepted, Basic.kind, pure, Except.pure]
  | literal value | promise item | template parts | array items | tuple items | union variants
  | intersect variants => cases b <;> rfl

theorem callable_reads {form : CallForm} {parameters : List Schema} {returns : Schema}
    (shape : left.schema.shape = .callable form parameters returns) :
    callable mark left right = .ok (Rule.callable mark left right form parameters returns) := by
  have ours := Schema.ask_eq Shape.parameters? shape rfl
  have result := Schema.ask_eq Shape.returns? shape rfl
  unfold callable Rule.callable Schema.kind
  rw [shape]
  cases own : right.schema.shape with
  | object properties additional => exact objectRight_reads own
  | callable other others otherReturns =>
    have theirs := Schema.ask_eq Shape.parameters? own rfl
    have otherResult := Schema.ask_eq Shape.returns? own rfl
    simp only [ours, result, theirs, otherResult, Shape.kind, bind, Except.bind, pure, Except.pure]
    by_cases few : parameters.length ≤ others.length <;>
      cases form <;> cases other <;> simp [few, CallForm.kind]
  | basic b => cases b <;> cases form <;> rfl
  | reference other target => cases other <;> cases form <;> rfl
  | user kind fields => cases form <;> rfl
  | literal value | promise item | template parts | array items | tuple items | record key value
  | union variants | intersect variants => cases form <;> rfl

theorem promise_reads {item : Schema} (shape : left.schema.shape = .promise item) :
    promise mark left right = .ok (Rule.promise mark left right item) := by
  have ours := Schema.ask_eq Shape.item? shape rfl
  unfold promise Rule.promise Schema.kind
  cases own : right.schema.shape with
  | promise other =>
    have theirs := Schema.ask_eq Shape.item? own rfl
    simp only [Shape.kind, ours, theirs]
    rfl
  | object properties additional => exact objectRight_reads own
  | basic b => cases b <;> rfl
  | callable form parameters returns => cases form <;> rfl
  | reference form target => cases form <;> rfl
  | literal value | template parts | array items | tuple items | record key value
  | union variants | intersect variants | user kind fields => rfl

theorem array_reads {items : Schema} (shape : left.schema.shape = .array items) :
    array mark left right = .ok (Rule.array mark left right items) := by
  have ours := Schema.ask_eq Shape.items? shape rfl
  unfold array Rule.array Schema.kind
  cases own : right.schema.shape with
  | array other =>
    have theirs := Schema.ask_eq Shape.items? own rfl
    simp only [Shape.kind, ours, theirs]
    rfl
  | object properties additional =>
    have theirs := Schema.ask_eq Shape.properties? own rfl
    simp only [Shape.kind, hasOnly, theirs]
    rfl
  | record key value =>
    have keys := Schema.ask_eq Shape.key? own rfl
    have values := Schema.ask_eq Shape.indexed? own rfl
    simp only [Shape.kind, ours, keys, values, bind, Except.bind, pure, Except.pure]
    split <;> rfl
  | basic b => cases b <;> rfl
  | callable form parameters returns => cases form <;> rfl
  | reference form target => cases form <;> rfl
  | literal value | promise item | template parts | tuple items | union variants
  | intersect variants | user kind fields => rfl

theorem tuple_reads {items : List Schema} (shape : left.schema.shape = .tuple items) :
    tuple mark left right = .ok (Rule.tuple mark left right items) := by
  have ours := Schema.ask_eq Shape.elements? shape rfl
  unfold tuple Rule.tuple Schema.kind
  simp only [ours, bind, Except.bind, pure, Except.pure]
  cases own : right.schema.shape with
  | tuple others =>
    have theirs := Schema.ask_eq Shape.elements? own rfl
    simp only [Shape.kind, theirs]
    split <;> rfl
  | array other =>
    have theirs := Schema.ask_eq Shape.items? own rfl
    simp only [Shape.kind, theirs]
  | object properties additional =>
    have theirs := Schema.ask_eq Shape.properties? own rfl
    simp only [Shape.kind, hasOnly, theirs]
    rfl
  | record key value =>
    have keys := Schema.ask_eq Shape.key? own rfl
    have values := Schema.ask_eq Shape.indexed? own rfl
    simp only [Shape.kind, keys, values]
    split <;> rfl
  | basic b => cases b <;> rfl
  | callable form parameters returns => cases form <;> rfl
  | reference form target => cases form <;> rfl
  | literal value | promise item | template parts | union variants | intersect variants
  | user kind fields => rfl

theorem object_reads {properties : List (String × Schema)} {additional : Value}
    (shape : left.schema.shape = .object properties additional) :
    object mark left right = .ok (Rule.object mark left right properties) := by
  have ours := Schema.ask_eq Shape.properties? shape rfl
  unfold object Rule.object Schema.kind
  cases own : right.schema.shape with
  | object others extra =>
    have theirs := Schema.ask_eq Shape.properties? own rfl
    have policy := Schema.ask_eq Shape.additional? own rfl
    simp only [Shape.kind, ours, theirs, policy]
    rfl
  | record key value => exact recordRight_reads own
  | basic b => cases b <;> rfl
  | callable form parameters returns => cases form <;> rfl
  | reference form target => cases form <;> rfl
  | literal value | promise item | template parts | array items | tuple items | union variants
  | intersect variants | user kind fields => rfl

theorem record_reads {key value : Schema} (shape : left.schema.shape = .record key value) :
    record mark left right = .ok (Rule.record mark left right key value) := by
  have keys := Schema.ask_eq Shape.key? shape rfl
  have values := Schema.ask_eq Shape.indexed? shape rfl
  unfold record Rule.record Schema.kind
  cases own : right.schema.shape with
  | record otherKey otherValue =>
    have otherKeys := Schema.ask_eq Shape.key? own rfl
    have otherValues := Schema.ask_eq Shape.indexed? own rfl
    simp only [Shape.kind, keys, values, otherKeys, otherValues, bind, Except.bind, pure,
      Except.pure]
    split <;> rfl
  | object properties additional => exact objectRight_reads own
  | basic b => cases b <;> rfl
  | callable form parameters returns => cases form <;> rfl
  | reference form target => cases form <;> rfl
  | literal value | promise item | template parts | array items | tuple items | union variants
  | intersect variants | user kind fields => rfl

-- A rule for the kind on the left reads what it asks for.
theorem byKind_reads {registry : Registry} (ruled : left.schema.kind ∉ unruled) :
    byKind registry mark left right = .ok (Rule.byKind registry mark left right) := by
  unfold byKind Rule.byKind
  unfold Schema.kind at ruled ⊢
  cases own : left.schema.shape with
  | basic b =>
    rw [own] at ruled
    cases b with
    | any | never => simp [unruled, Shape.kind, Basic.kind] at ruled
    | unknown => rfl
    | _ => exact primitive_reads _
  | literal value => exact literal_reads own
  | callable form parameters returns => cases form <;> exact callable_reads own
  | promise item => exact promise_reads own
  | array items => exact array_reads own
  | tuple items => exact tuple_reads own
  | object properties additional => exact object_reads own
  | record key value => exact record_reads own
  | user kind fields => rfl
  | reference form target =>
    rw [own] at ruled
    cases form <;> simp [unruled, Shape.kind, ReferenceForm.kind] at ruled
  | template parts | union variants | intersect variants =>
    rw [own] at ruled
    simp [unruled, Shape.kind] at ruled

theorem variants_of_union {s : Schema} (kind : s.kind = .union) :
    ∃ variants, s.united? = some variants ∧ s.intersected? = none ∧
      s.ask Shape.variants? = .ok variants := by
  unfold Schema.kind at kind
  cases own : s.shape with
  | union variants =>
    exact ⟨variants, by simp [Schema.united?, own], by simp [Schema.intersected?, own],
      Schema.ask_eq _ own rfl⟩
  | basic b => cases b <;> simp [own, Shape.kind, Basic.kind] at kind
  | callable form _ _ => cases form <;> simp [own, Shape.kind, CallForm.kind] at kind
  | reference form _ => cases form <;> simp [own, Shape.kind, ReferenceForm.kind] at kind
  | _ => simp [own, Shape.kind] at kind

theorem variants_of_intersect {s : Schema} (kind : s.kind = .intersect) :
    ∃ variants, s.intersected? = some variants ∧ s.united? = none ∧
      s.ask Shape.variants? = .ok variants := by
  unfold Schema.kind at kind
  cases own : s.shape with
  | intersect variants =>
    exact ⟨variants, by simp [Schema.intersected?, own], by simp [Schema.united?, own],
      Schema.ask_eq _ own rfl⟩
  | basic b => cases b <;> simp [own, Shape.kind, Basic.kind] at kind
  | callable form _ _ => cases form <;> simp [own, Shape.kind, CallForm.kind] at kind
  | reference form _ => cases form <;> simp [own, Shape.kind, ReferenceForm.kind] at kind
  | _ => simp [own, Shape.kind] at kind

theorem united_none {s : Schema} (other : s.kind ≠ .union) : s.united? = none := by
  cases found : s.united? with
  | none => rfl
  | some variants => exact absurd (by simp [Schema.kind, united_shape.mp found, Shape.kind]) other

theorem intersected_none {s : Schema} (other : s.kind ≠ .intersect) : s.intersected? = none := by
  cases found : s.intersected? with
  | none => rfl
  | some variants =>
    exact absurd (by simp [Schema.kind, intersected_shape.mp found, Shape.kind]) other

theorem apart_cases (registry : Registry) (mark : Nat) (left right : Site) :
    apart left right = .ok (some (distribute registry mark left right)) ∨
    apart left right = .ok none ∧
      distribute registry mark left right = Rule.byKind registry mark left right ∧
      left.schema.kind ≠ .union ∧ left.schema.kind ≠ .intersect := by
  unfold apart distribute
  by_cases union : left.schema.kind = .union
  · obtain ⟨variants, united, -, read⟩ := variants_of_union union
    rw [if_pos union, united, read]
    exact .inl rfl
  rw [if_neg union, united_none union]
  by_cases both : right.schema.kind = .intersect
  · obtain ⟨variants, intersected, -, read⟩ := variants_of_intersect both
    rw [if_pos both, intersected, read]
    exact .inl rfl
  rw [if_neg both, intersected_none both]
  by_cases either : right.schema.kind = .union
  · obtain ⟨variants, united, -, read⟩ := variants_of_union either
    rw [if_pos either, united]
    by_cases parts : left.schema.kind = .intersect
    · obtain ⟨ours, intersected, -, read'⟩ := variants_of_intersect parts
      rw [if_pos parts, intersected, read, read']
      exact .inl rfl
    · rw [if_neg parts, intersected_none parts, read]
      exact .inl rfl
  rw [if_neg either, united_none either]
  by_cases parts : left.schema.kind = .intersect
  · obtain ⟨ours, intersected, -, read⟩ := variants_of_intersect parts
    rw [if_pos parts, intersected, read]
    exact .inl rfl
  · rw [if_neg parts, intersected_none parts]
    exact .inr ⟨rfl, rfl, union, parts⟩

theorem goal_absorbed (settings : Settings) (registry : Registry) (mark : Nat)
    (left right : Site) : Rule.goal settings registry mark left right =
      (absorbed settings left.schema.kind right.schema.kind).getD
        (distribute registry mark left right) := by
  rw [goal_eq]
  unfold absorbed
  split_ifs <;> rfl

theorem absorbed_none {settings : Settings} {left right : Kind}
    (none : absorbed settings left right = none) : left ≠ .never ∧ left ≠ .any := by
  unfold absorbed at none
  split_ifs at none with _ never _ isAny
  exact ⟨never, isAny⟩

-- A pair is absorbed or taken apart, or it goes by the kind of the left side.
theorem early_cases (settings : Settings) (registry : Registry) (mark : Nat) (left right : Site) :
    early settings left right = .ok (some (Rule.goal settings registry mark left right)) ∨
    early settings left right = .ok none ∧
      Rule.goal settings registry mark left right = Rule.byKind registry mark left right ∧
      left.schema.kind ∉ [.any, .never, .union, .intersect] := by
  rw [goal_absorbed]
  unfold early
  cases first : absorbed settings left.schema.kind right.schema.kind with
  | some g => exact .inl rfl
  | none =>
    obtain ⟨never, isAny⟩ := absorbed_none first
    rcases apart_cases registry mark left right with same | ⟨late, same, union, parts⟩
    · exact .inl same
    · exact .inr ⟨late, same, by simp [isAny, never, union, parts]⟩

-- Where nothing was absorbed or taken apart, there is a rule for the left side.
theorem ruled_of_early {settings : Settings} (concrete : left.schema.isReference = false)
    (expanded : left.schema.isTemplate = false)
    (late : early settings left right = .ok none) : left.schema.kind ∉ unruled := by
  rcases early_cases settings [] 0 left right with same | ⟨-, -, other⟩
  · rw [late] at same
    cases same
  · intro listed
    have either : left.schema.kind = .templateLiteral ∨ left.schema.kind = .ref ∨
        left.schema.kind = .this := by
      simp only [unruled, List.mem_cons, List.not_mem_nil, or_false] at listed other
      tauto
    unfold Schema.kind at either
    cases own : left.schema.shape with
    | template parts => simp [Schema.isTemplate, own] at expanded
    | reference form target => simp [Schema.isReference, own] at concrete
    | basic b => cases b <;> simp [own, Shape.kind, Basic.kind] at either
    | callable form _ _ => cases form <;> simp [own, Shape.kind, CallForm.kind] at either
    | _ => simp [own, Shape.kind] at either

-- Rules ask for nothing that a schema lacks, and come to the goal of the pair.
theorem goal_reads {settings : Settings} {registry : Registry}
    (concrete : left.schema.isReference = false) (expanded : left.schema.isTemplate = false) :
    goal settings registry mark left right =
      .ok (Rule.goal settings registry mark left right) := by
  unfold goal
  rcases early_cases settings registry mark left right with same | ⟨late, same, -⟩
  · rw [same]
    rfl
  · rw [same, late]
    exact byKind_reads (ruled_of_early concrete expanded late)

end

end Rule.Read

end Assignability
