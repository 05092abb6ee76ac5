import Assignability.Registry
import Assignability.Scope
import Assignability.Settings

namespace Assignability

-- Goals only ever ask for comparisons to succeed, never to fail, in the order they are tried.

-- A schema in its scope. The scope has an identity of its own; 0 is the empty scope.
structure Site where
  schema : Schema
  scope : Scope
  scopeMark : Nat

def Site.to (site : Site) (s : Schema) : Site := { site with schema := s }

def Site.bare (s : Schema) : Site := ⟨s, [], 0⟩

inductive Step where
  | holds (b : Bool)
  | compare (left right : Site)

inductive Goal where
  | all (steps : List Step)
  | any (steps : List Step)
  | consult (script : Script)
  | refuse (fault : Fault)

namespace Goal

def answer (b : Bool) : Goal := .all [.holds b]

def compare (left right : Site) : Goal := .all [.compare left right]

end Goal

-- Property names that a numeric index covers: 0, or digits that do not start with 0.
def isIndexName (name : String) : Bool :=
  match name.toList with
  | ['0'] => true
  | c :: cs => c.isDigit && c != '0' && cs.all Char.isDigit
  | [] => false

-- Property names that the key of a record covers. A key that is not numeric covers every name of
-- one line.
def coversName (key : Schema) (name : String) : Bool :=
  if key.isNumericKey then isIndexName name else !name.toList.contains '\n'

namespace Rule

-- Kinds that a kind without content extends besides the absorbing ones.
def accepted : Basic → List Basic
  | .undefined => [.undefined, .void]
  | .integer => [.integer, .number]
  | b => [b]

def marksUsed : Nat := 3

def marked (mark : Nat) (shape : Shape) : Schema := .mk mark .null false shape

def lengthMember (mark : Nat) : Schema := marked mark (.basic .number)

def descriptionMember (mark : Nat) : Schema :=
  marked mark (.union [marked (mark + 1) (.basic .string), marked (mark + 2) (.basic .undefined)])

def thenMember (mark : Nat) : Schema :=
  marked mark
    (.callable .function [marked (mark + 1) (.basic .any)] (marked (mark + 2) (.basic .any)))

-- Something whose one member is `name` against an object: no properties, or that one alone.
def hasOnly (properties : List (String × Schema)) (right : Site) (name : String)
    (member : Schema) : Goal :=
  match properties with
  | [] => .answer true
  | [(only, s)] => if only == name then .compare (.bare member) (right.to s) else .answer false
  | _ => .answer false

def objectRight (mark : Nat) (left right : Site) (properties : List (String × Schema)) : Goal :=
  match left.schema.shape with
  | .basic .string => hasOnly properties right "length" (lengthMember mark)
  | .basic .uint8Array => hasOnly properties right "length" (lengthMember mark)
  | .callable .function _ _ => hasOnly properties right "length" (lengthMember mark)
  | .literal (.text _) => hasOnly properties right "length" (lengthMember mark)
  | .literal _ => .answer properties.isEmpty
  | .basic .number => .answer properties.isEmpty
  | .basic .integer => .answer properties.isEmpty
  | .basic .boolean => .answer properties.isEmpty
  | .basic .bigint => .answer properties.isEmpty
  | .basic .date => .answer properties.isEmpty
  | .callable .constructor _ _ => .answer properties.isEmpty
  | .basic .symbol => hasOnly properties right "description" (descriptionMember mark)
  | .promise _ => hasOnly properties right "then" (thenMember mark)
  | .record key value =>
    if properties.isEmpty then .answer true
    else if key.isNumericKey then .answer false
    else .all (properties.flatMap fun (_, s) =>
      [.holds s.optional, .compare (left.to value) (right.to s)])
  | _ => .answer false

def additionalStep (additional : Value) (step : Schema → List Step) : List Step :=
  match additional with
  | .schema s => step s
  | _ => []

def recordRight (mark : Nat) (left right : Site) (key value : Schema) : Goal :=
  match left.schema.shape with
  | .basic .string =>
    if key.isNumericKey then .compare (left.to (marked mark (.basic .string))) (right.to value)
    else .answer false
  | .literal (.text _) =>
    if key.isNumericKey then .compare (left.to (marked mark (.basic .string))) (right.to value)
    else .answer false
  | .basic .uint8Array =>
    if key.isNumericKey then .compare (left.to (marked mark (.basic .number))) (right.to value)
    else .answer false
  | .object properties additional =>
    .all (((properties.filter fun (name, _) => coversName key name).map fun (_, s) =>
        .compare (left.to s) (right.to value)) ++
      if key.isNumericKey then []
      else additionalStep additional fun s => [.compare (left.to s) (right.to value)])
  | _ => .answer false

-- A property that may be absent does not satisfy one that must be present.
def property (left right : Site) : List Step :=
  [.compare left right, .holds (!(left.schema.optional && !right.schema.optional))]

def objectObject (left right : Site) (ours theirs : List (String × Schema)) (additional : Value) :
    Goal :=
  .all ((theirs.flatMap fun (name, s) =>
      match ours.lookup name with
      | none => [.holds s.optional]
      | some t => property (left.to t) (right.to s)) ++
    additionalStep additional fun extra =>
      (ours.filter fun (name, _) => (theirs.lookup name).isNone).map fun (_, s) =>
        .compare (left.to s) (right.to extra))

def literal (mark : Nat) (left right : Site) (value : Scalar) : Goal :=
  match right.schema.shape with
  | .literal other => .answer (value.sameLiteral other)
  | .basic .string => .answer value.isText
  | .basic .number => .answer value.isNumber
  | .basic .integer => .answer value.isWhole
  | .basic .boolean => .answer value.isBool
  | .object properties _ => objectRight mark left right properties
  | .record key item => recordRight mark left right key item
  | _ => .answer false

def primitive (mark : Nat) (left right : Site) (b : Basic) : Goal :=
  match right.schema.shape with
  | .object properties _ => objectRight mark left right properties
  | .record key value => recordRight mark left right key value
  | .basic other => .answer ((accepted b).contains other)
  | _ => .answer false

-- Parameters are compared from right to left, results from left to right.
def callable (mark : Nat) (left right : Site) (form : CallForm) (ours : List Schema)
    (returns : Schema) : Goal :=
  match right.schema.shape with
  | .object properties _ => objectRight mark left right properties
  | .callable other theirs result =>
    if form = other ∧ ours.length ≤ theirs.length then
      .all ((ours.zip theirs).map (fun (p, q) => .compare (right.to q) (left.to p)) ++
        [.compare (left.to returns) (right.to result)])
    else .answer false
  | _ => .answer false

def promise (mark : Nat) (left right : Site) (item : Schema) : Goal :=
  match right.schema.shape with
  | .promise other => .compare (left.to item) (right.to other)
  | .object properties _ => objectRight mark left right properties
  | _ => .answer false

def array (mark : Nat) (left right : Site) (items : Schema) : Goal :=
  match right.schema.shape with
  | .array other => .compare (left.to items) (right.to other)
  | .object properties _ => hasOnly properties right "length" (lengthMember mark)
  | .record key value =>
    if key.isNumericKey then .compare (left.to items) (right.to value) else .answer false
  | _ => .answer false

def tuple (mark : Nat) (left right : Site) (items : List Schema) : Goal :=
  match right.schema.shape with
  | .tuple others =>
    if items.length = others.length then
      .all ((items.zip others).map fun (s, t) => .compare (left.to s) (right.to t))
    else .answer false
  | .array other => .all (items.map fun s => .compare (left.to s) (right.to other))
  | .object properties _ => hasOnly properties right "length" (lengthMember mark)
  | .record key value =>
    if key.isNumericKey then .all (items.map fun s => .compare (left.to s) (right.to value))
    else .answer false
  | _ => .answer false

def object (mark : Nat) (left right : Site) (properties : List (String × Schema)) : Goal :=
  match right.schema.shape with
  | .object theirs additional => objectObject left right properties theirs additional
  | .record key value => recordRight mark left right key value
  | _ => .answer false

-- An index by any name also covers numeric names.
def record (mark : Nat) (left right : Site) (key value : Schema) : Goal :=
  match right.schema.shape with
  | .record otherKey otherValue =>
    if key.isNumericKey = otherKey.isNumericKey ∨ key.isNumericKey = false then
      .compare (left.to value) (right.to otherValue)
    else .answer false
  | .object properties _ => objectRight mark left right properties
  | _ => .answer false

def user (registry : Registry) (left right : Site) (kind : String) : Goal :=
  match registry.handler? kind with
  | some handler => .consult (handler left.schema right.schema)
  | none => .answer (right.schema.kind == .user kind)

-- Kinds that were absorbed, distributed, followed or expanded before have no rule.
def byKind (registry : Registry) (mark : Nat) (left right : Site) : Goal :=
  match left.schema.shape with
  | .basic .unknown => .answer false
  | .basic .any => .refuse (.unhandledKind "Comparison" .any)
  | .basic .never => .refuse (.unhandledKind "Comparison" .never)
  | .basic b => primitive mark left right b
  | .literal value => literal mark left right value
  | .callable form parameters returns => callable mark left right form parameters returns
  | .promise item => promise mark left right item
  | .array items => array mark left right items
  | .tuple items => tuple mark left right items
  | .object properties _ => object mark left right properties
  | .record key value => record mark left right key value
  | .user kind _ => user registry left right kind
  | .template _ => .refuse (.unhandledKind "Comparison" .templateLiteral)
  | .union _ => .refuse (.unhandledKind "Comparison" .union)
  | .intersect _ => .refuse (.unhandledKind "Comparison" .intersect)
  | .reference form _ => .refuse (.unhandledKind "Comparison" form.kind)

-- Absorbing kinds come first, then unions and intersections are taken apart, then the kind of the
-- left side decides. A part of a left intersection may match a right union as a whole, so both are
-- tried.
def goal (settings : Settings) (registry : Registry) (mark : Nat) (left right : Site) : Goal :=
  match left.schema.shape, right.schema.shape with
  | _, .basic .any => .answer true
  | _, .basic .unknown => .answer true
  | .basic .never, _ => .answer true
  | _, .basic .never => .answer false
  | .basic .any, _ => .answer settings.anyLeftResult
  | .union variants, _ => .all (variants.map fun v => .compare (left.to v) right)
  | _, .intersect variants => .all (variants.map fun v => .compare left (right.to v))
  | .intersect parts, .union variants =>
    .any (variants.map (fun v => .compare left (right.to v)) ++
      parts.map fun v => .compare (left.to v) right)
  | _, .union variants => .any (variants.map fun v => .compare left (right.to v))
  | .intersect parts, _ => .any (parts.map fun v => .compare (left.to v) right)
  | _, _ => byKind registry mark left right

end Rule

end Assignability
