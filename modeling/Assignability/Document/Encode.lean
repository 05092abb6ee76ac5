import Assignability.Document.Entries
import Assignability.Registry
import Assignability.Scope

namespace Assignability

-- References are written by target and never followed, so the scope that is carried down does not
-- show.

def numericPattern : String := "^(0|[1-9][0-9]*)$"

def textPattern : String := "^.*$"

def patternOf (key : Schema) : String := if key.isNumericKey then numericPattern else textPattern

namespace Document

open Entries (entry)

def basicBody : Basic → Entries
  | .any => []
  | .unknown => []
  | .never => [entry "not" (.table [])]
  | .void => [entry "type" (.text "void")]
  | .null => [entry "type" (.text "null")]
  | .undefined => [entry "type" (.text "undefined")]
  | .boolean => [entry "type" (.text "boolean")]
  | .number => [entry "type" (.text "number")]
  | .integer => [entry "type" (.text "integer")]
  | .bigint => [entry "type" (.text "bigint")]
  | .string => [entry "type" (.text "string")]
  | .symbol => [entry "type" (.text "symbol")]
  | .date => [entry "type" (.text "Date")]
  | .uint8Array => [entry "type" (.text "Uint8Array")]

def literalType : Scalar → String
  | .bool _ => "boolean"
  | .int _ => "number"
  | .real _ => "number"
  | .text _ => "string"

-- Kind and id stand first; content may replace them.
def assemble (kind : Kind) (id : Value) (body : Entries) : Value :=
  let head := entry "kind" (.text kind.name) :: if id.isNull then [] else [entry "$id" id]
  .table (Entries.update head body)

mutual

def encode (r : Registry) (scope : Scope) : Schema → Except Fault Value
  | .mk mark id optional shape => do
    let body ← encodeShape r (scope.push (.mk mark id optional shape)) shape
    return assemble shape.kind id body
termination_by structural x => x

def encodeShape (r : Registry) (scope : Scope) : Shape → Except Fault Entries
  | .basic b => return basicBody b
  | .literal value =>
    return [entry "const" (.scalar value), entry "type" (.text (literalType value))]
  | .callable form parameters returns => do
    let parameters ← encodeAll r scope parameters
    let returns ← encode r scope returns
    return [entry "type" (.text form.kind.name), entry "parameters" (.list parameters),
      entry "returns" returns]
  | .promise item => do
    let item ← encode r scope item
    return [entry "type" (.text "Promise"), entry "item" item]
  | .template parts => do
    let parts ← encodeParts r scope parts
    return [entry "type" (.text "string"), entry "parts" (.list parts)]
  | .array items => do
    let items ← encode r scope items
    return [entry "type" (.text "array"), entry "items" items]
  | .tuple items => do
    let count : Value := .int items.length
    let encoded ← encodeAll r scope items
    return [entry "type" (.text "array"), entry "minItems" count, entry "maxItems" count] ++
      if items.isEmpty then [] else [entry "items" (.list encoded)]
  | .object properties additional => do
    let required := requiredNames properties
    let encoded ← encodeProperties r scope properties
    let extra ← encodeAdditional r scope additional
    return [entry "type" (.text "object"), entry "properties" (.table encoded)] ++
      (if required.isEmpty then [] else [entry "required" (.list (required.map Value.text))]) ++
      extra
  | .record key value => do
    let encodedKey ← encode r scope key
    let value ← encode r scope value
    return [entry "type" (.text "object"), entry "key" encodedKey,
      entry "patternProperties" (.table [entry (patternOf key) value])]
  | .union variants => do
    let variants ← encodeAll r scope variants
    return [entry "anyOf" (.list variants)]
  | .intersect variants => do
    let variants ← encodeAll r scope variants
    return [entry "allOf" (.list variants)]
  | .reference _ target => return [entry "$ref" target]
  | .user kind fields =>
    if r.has kind then encodeFields r scope fields else .error (.unknownKind (.text kind))
termination_by structural x => x

def encodeAll (r : Registry) (scope : Scope) : List Schema → Except Fault (List Value)
  | [] => return []
  | s :: rest => do
    let first ← encode r scope s
    let rest ← encodeAll r scope rest
    return first :: rest
termination_by structural x => x

def encodeParts (r : Registry) (scope : Scope) : List Part → Except Fault (List Value)
  | [] => return []
  | .text s :: rest => do
    let rest ← encodeParts r scope rest
    return .text s :: rest
  | .schema s :: rest => do
    let first ← encode r scope s
    let rest ← encodeParts r scope rest
    return first :: rest
termination_by structural x => x

def encodeProperties (r : Registry) (scope : Scope) :
    List (String × Schema) → Except Fault Entries
  | [] => return []
  | (name, s) :: rest => do
    let first ← encode r scope s
    let rest ← encodeProperties r scope rest
    return entry name first :: rest
termination_by structural x => x

-- Data that is no schema is kept as it is, and left out when absent.
def encodeAdditional (r : Registry) (scope : Scope) : Value → Except Fault Entries
  | .schema s => do
    let encoded ← encode r scope s
    return [entry "additionalProperties" encoded]
  | .null => return []
  | v => return [entry "additionalProperties" v]
termination_by structural x => x

def encodeFields (r : Registry) (scope : Scope) : List (String × Value) → Except Fault Entries
  | [] => return []
  | (name, v) :: rest => do
    let first ← encodeField r scope v
    let rest ← encodeFields r scope rest
    return entry name first :: rest
termination_by structural x => x

-- Tuples become lists; tables are kept as they are.
def encodeField (r : Registry) (scope : Scope) : Value → Except Fault Value
  | .schema s => encode r scope s
  | .list items => do
    let items ← encodeFieldItems r scope items
    return .list items
  | .tuple items => do
    let items ← encodeFieldItems r scope items
    return .list items
  | v => return v
termination_by structural x => x

def encodeFieldItems (r : Registry) (scope : Scope) : List Value → Except Fault (List Value)
  | [] => return []
  | v :: rest => do
    let first ← encodeField r scope v
    let rest ← encodeFieldItems r scope rest
    return first :: rest
termination_by structural x => x

end

end Document

end Assignability
