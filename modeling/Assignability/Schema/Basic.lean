import Assignability.Number.Binary64
import Assignability.Schema.Kind

namespace Assignability

-- A mark tells two schemas apart that are built alike, and is 0 while a schema has not been placed.

-- Kinds that carry nothing beyond their name.
inductive Basic where
  | any | unknown | never | void | null | undefined | boolean | number | integer | bigint
  | string | symbol | date | uint8Array
deriving DecidableEq, Repr

def Basic.kind : Basic → Kind
  | .any => .any
  | .unknown => .unknown
  | .never => .never
  | .void => .void
  | .null => .null
  | .undefined => .undefined
  | .boolean => .boolean
  | .number => .number
  | .integer => .integer
  | .bigint => .bigint
  | .string => .string
  | .symbol => .symbol
  | .date => .date
  | .uint8Array => .uint8Array

inductive Scalar where
  | bool (b : Bool)
  | int (n : Int)
  | real (x : Binary64)
  | text (s : String)
deriving DecidableEq, Repr

namespace Scalar

def isNumber : Scalar → Bool
  | .int _ => true
  | .real _ => true
  | _ => false

def isWhole : Scalar → Bool
  | .int _ => true
  | .real x => x.toInt?.isSome
  | _ => false

def isText : Scalar → Bool
  | .text _ => true
  | _ => false

def isBool : Scalar → Bool
  | .bool _ => true
  | _ => false

end Scalar

inductive CallForm where
  | function | constructor
deriving DecidableEq, Repr

inductive ReferenceForm where
  | ref | this
deriving DecidableEq, Repr

mutual

inductive Value where
  | null
  | scalar (s : Scalar)
  | list (items : List Value)
  | tuple (items : List Value)
  | table (entries : List (Value × Value))
  | schema (s : Schema)

inductive Schema where
  | mk (mark : Nat) (id : Value) (optional : Bool) (shape : Shape)

-- A piece of a template: fixed text, or whatever a schema describes.
inductive Part where
  | text (s : String)
  | schema (s : Schema)

inductive Shape where
  | basic (b : Basic)
  | literal (value : Scalar)
  | callable (form : CallForm) (parameters : List Schema) (returns : Schema)
  | promise (item : Schema)
  | template (parts : List Part)
  | array (items : Schema)
  | tuple (items : List Schema)
  | object (properties : List (String × Schema)) (additional : Value)
  | record (key value : Schema)
  | union (variants : List Schema)
  | intersect (variants : List Schema)
  | reference (form : ReferenceForm) (target : Value)
  | user (kind : UserKind) (fields : List (String × Value))

end

instance : Inhabited Value := ⟨.null⟩

instance : Inhabited Shape := ⟨.basic .any⟩

instance : Inhabited Schema := ⟨.mk 0 .null false default⟩

namespace Value

abbrev bool (b : Bool) : Value := .scalar (.bool b)

abbrev int (n : Int) : Value := .scalar (.int n)

abbrev real (x : Binary64) : Value := .scalar (.real x)

abbrev text (s : String) : Value := .scalar (.text s)

def isNull : Value → Bool
  | .null => true
  | _ => false

def schema? : Value → Option Schema
  | .schema s => some s
  | _ => none

-- False are the absent value, zero, and everything empty.
def truth : Value → Bool
  | .null => false
  | .scalar (.bool b) => b
  | .scalar (.int n) => n != 0
  | .scalar (.real x) => !x.same (.zero false)
  | .scalar (.text s) => !s.isEmpty
  | .list items => !items.isEmpty
  | .tuple items => !items.isEmpty
  | .table entries => !entries.isEmpty
  | .schema _ => true

-- What a value gives when it is gone through item by item: a text its characters, a table its keys.
def items? : Value → Option (List Value)
  | .list items => some items
  | .tuple items => some items
  | .table entries => some (entries.map (·.1))
  | .scalar (.text s) => some (s.toList.map fun c => .text c.toString)
  | _ => none

-- Is this the text of that name? Keys of documents are compared so.
def isText (name : String) : Value → Bool
  | .scalar (.text s) => s == name
  | _ => false

end Value

def CallForm.kind : CallForm → Kind
  | .function => .function
  | .constructor => .constructor

def ReferenceForm.kind : ReferenceForm → Kind
  | .ref => .ref
  | .this => .this

def Shape.kind : Shape → Kind
  | .basic b => b.kind
  | .literal _ => .literal
  | .callable form _ _ => form.kind
  | .promise _ => .promise
  | .template _ => .templateLiteral
  | .array _ => .array
  | .tuple _ => .tuple
  | .object _ _ => .object
  | .record _ _ => .record
  | .union _ => .union
  | .intersect _ => .intersect
  | .reference form _ => form.kind
  | .user kind _ => .user kind

namespace Schema

def mark : Schema → Nat
  | .mk mark _ _ _ => mark

-- The absent value when the schema has no id.
def id : Schema → Value
  | .mk _ id _ _ => id

def optional : Schema → Bool
  | .mk _ _ optional _ => optional

def shape : Schema → Shape
  | .mk _ _ _ shape => shape

def kind (s : Schema) : Kind := s.shape.kind

def plain (shape : Shape) : Schema := .mk 0 .null false shape

def basic (b : Basic) : Schema := plain (.basic b)

def isReference (s : Schema) : Bool :=
  match s.shape with
  | .reference _ _ => true
  | _ => false

def isNumericKey (key : Schema) : Bool :=
  match key.shape with
  | .basic .number => true
  | .basic .integer => true
  | _ => false

end Schema

def requiredNames (properties : List (String × Schema)) : List String :=
  (properties.filter fun (_, s) => !s.optional).map (·.1)

end Assignability
