namespace Assignability

inductive Kind where
  | any | unknown | never | void | null | undefined | boolean | number | integer | bigint
  | string | symbol | literal | date | uint8Array | function | constructor | promise
  | templateLiteral | array | tuple | object | record | union | intersect | ref | this
  | user (name : String)
deriving DecidableEq, Repr

namespace Kind

def name : Kind → String
  | .any => "Any"
  | .unknown => "Unknown"
  | .never => "Never"
  | .void => "Void"
  | .null => "Null"
  | .undefined => "Undefined"
  | .boolean => "Boolean"
  | .number => "Number"
  | .integer => "Integer"
  | .bigint => "BigInt"
  | .string => "String"
  | .symbol => "Symbol"
  | .literal => "Literal"
  | .date => "Date"
  | .uint8Array => "Uint8Array"
  | .function => "Function"
  | .constructor => "Constructor"
  | .promise => "Promise"
  | .templateLiteral => "TemplateLiteral"
  | .array => "Array"
  | .tuple => "Tuple"
  | .object => "Object"
  | .record => "Record"
  | .union => "Union"
  | .intersect => "Intersect"
  | .ref => "Ref"
  | .this => "This"
  | .user name => name

def builtin : List Kind :=
  [.any, .unknown, .never, .void, .null, .undefined, .boolean, .number, .integer, .bigint,
   .string, .symbol, .literal, .date, .uint8Array, .function, .constructor, .promise,
   .templateLiteral, .array, .tuple, .object, .record, .union, .intersect, .ref, .this]

def ofName? (name : String) : Option Kind := builtin.find? (·.name == name)

def isBuiltinName (name : String) : Bool := (ofName? name).isSome

end Kind

-- User kinds are texts outside the names above, so a schema never goes by a kind that it is not
-- built as.
@[ext]
structure UserKind where
  name : String
  foreign : Kind.isBuiltinName name = false
deriving DecidableEq

namespace UserKind

instance : Coe UserKind String := ⟨name⟩

def ofName? (name : String) : Option UserKind :=
  if foreign : Kind.isBuiltinName name = false then some ⟨name, foreign⟩ else none

end UserKind

end Assignability
