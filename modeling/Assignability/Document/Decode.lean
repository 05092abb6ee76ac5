import Assignability.Catalog
import Assignability.Document.Encode

namespace Assignability

-- Reading is lenient: a list may be any data that can be gone through item by item, and keys that
-- no rule asks for are passed over.

def Kind.basic? : Kind → Option Basic
  | .any => some .any
  | .unknown => some .unknown
  | .never => some .never
  | .void => some .void
  | .null => some .null
  | .undefined => some .undefined
  | .boolean => some .boolean
  | .number => some .number
  | .integer => some .integer
  | .bigint => some .bigint
  | .string => some .string
  | .symbol => some .symbol
  | .date => some .date
  | .uint8Array => some .uint8Array
  | _ => none

namespace Document

-- An absent result means that the key is not there.
structure View where
  value? : String → Option Value
  schema? : String → Option (Except Fault Schema)
  schemas? : String → Option (Except Fault (List Schema))
  parts? : String → Option (Except Fault (List Part))
  properties? : List Value → String → Option (Except Fault (List (String × Schema)))
  additional? : String → Option (Except Fault Value)
  pattern? : String → Option (Except Fault (Value × Except Fault Schema))
  fields : List String → Except Fault (List (String × Value))

def demand {α : Type} (key : String) : Option (Except Fault α) → Except Fault α
  | some found => found
  | none => .error (.missingKey key)

def demandValue (view : View) (key : String) : Except Fault Value :=
  demand key ((view.value? key).map .ok)

-- Anything that can be gone through, if its items can be kept in a set.
def requiredSet : Option Value → Except Fault (List Value)
  | none => .ok []
  | some v => match v.items? with
    | none => .error .wrongType
    | some items => if Value.areKeys items then .ok items else .error .wrongType

-- The key of a record that names none follows from its pattern.
def keyOfPattern (pattern : Value) : Schema :=
  if pattern.isText numericPattern then Schema.basic .number else Schema.basic .string

def builtinShape (c : Catalog) (view : View) : Kind → Except Fault Shape
  | .literal => do
    let value ← demandValue view "const"
    c.literal value
  | .function => do
    let parameters ← demand "parameters" (view.schemas? "parameters")
    let returns ← demand "returns" (view.schema? "returns")
    return .callable .function parameters returns
  | .constructor => do
    let parameters ← demand "parameters" (view.schemas? "parameters")
    let returns ← demand "returns" (view.schema? "returns")
    return .callable .constructor parameters returns
  | .promise => do
    let item ← demand "item" (view.schema? "item")
    return .promise item
  | .templateLiteral => do
    let parts ← demand "parts" (view.parts? "parts")
    return .template parts
  | .array => do
    let items ← demand "items" (view.schema? "items")
    return .array items
  | .tuple => do
    let items ← (view.schemas? "items").getD (.ok [])
    return .tuple items
  | .object => do
    let required ← requiredSet (view.value? "required")
    let properties ← (view.properties? required "properties").getD (.ok [])
    let additional ← (view.additional? "additionalProperties").getD (.ok .null)
    return .object properties additional
  | .record => do
    let (pattern, value) ← demand "patternProperties" (view.pattern? "patternProperties")
    let key ← (view.schema? "key").getD (.ok (keyOfPattern pattern))
    let value ← value
    return .record key value
  | .union => do
    let variants ← demand "anyOf" (view.schemas? "anyOf")
    return .union variants
  | .intersect => do
    let variants ← demand "allOf" (view.schemas? "allOf")
    return .intersect variants
  | .ref => do
    let target ← demandValue view "$ref"
    return .reference .ref target
  | .this => do
    let target ← demandValue view "$ref"
    return .reference .this target
  | k => match k.basic? with
    | some b => return .basic b
    | none => .error (.unknownKind (.text k.name))

def userShape (r : Registry) (c : Catalog) (view : View) (kind : String) : Except Fault Shape :=
  match c.find? kind with
  | some d =>
    if r.has kind then do
      let fields ← view.fields ["kind", "$id"]
      d.shape fields
    else .error (.unknownKind (.text kind))
  | none => .error (.unknownKind (.text kind))

-- A kind that is no text is never known.
def shapeOf (r : Registry) (c : Catalog) (view : View) (kind : Value) : Except Fault Shape :=
  match kind with
  | .scalar (.text name) => match Kind.ofName? name with
    | some k => builtinShape c view k
    | none => userShape r c view name
  | .list _ => .error .wrongType
  | .table _ => .error .wrongType
  | other => .error (.unknownKind other)

def contains (word : List Char) : List Char → Bool
  | [] => word.isEmpty
  | c :: cs => word.isPrefixOf (c :: cs) || contains word cs

-- A text is no document: it either does not mention the kind, or cannot be asked for it.
def textFault (s : String) : Fault :=
  if contains "kind".toList s.toList then .wrongType else .missingKind (.text s)

def sequenceFault (items : List Value) (whole : Value) : Fault :=
  if items.any (·.isText "kind") then .wrongType else .missingKind whole

def textItems (s : String) : Except Fault (List Schema) :=
  match s.toList with
  | [] => .ok []
  | c :: _ => .error (textFault c.toString)

def partOf (decoded : Except Fault Schema) : Value → Except Fault Part
  | .scalar (.text s) => .ok (.text s)
  | _ => decoded.map .schema

-- The policy for undeclared properties. Only a table is read as a document here.
def additionalOf (decoded : Except Fault Schema) : Value → Except Fault Value
  | .table _ => decoded.map .schema
  | v => .ok v

mutual

def decode (r : Registry) (c : Catalog) (optional : Bool) : Value → Except Fault Schema
  | .table entries =>
    match Entries.find? entries "kind" with
    | none => .error (.missingKind (.table entries))
    | some kind => do
      let shape ← shapeOf r c
        { value? := Entries.find? entries
          schema? := fun key => schemaAt r c key entries
          schemas? := fun key => schemasAt r c key entries
          parts? := fun key => partsAt r c key entries
          properties? := fun required key => propertiesAt r c required key entries
          additional? := fun key => additionalAt r c key entries
          pattern? := fun key => patternAt r c key entries
          fields := fun skipped => decodeFields r c skipped entries } kind
      return .mk 0 ((Entries.find? entries "$id").getD .null) optional shape
  | .scalar (.text s) => .error (textFault s)
  | .list items => .error (sequenceFault items (.list items))
  | .tuple items => .error (sequenceFault items (.tuple items))
  | _ => .error .wrongType

-- Goes through data as a list of documents.
def decodeEach (r : Registry) (c : Catalog) : Value → Except Fault (List Schema)
  | .list items => decodeItems r c items
  | .tuple items => decodeItems r c items
  | .scalar (.text s) => textItems s
  | .table entries => decodeKeys r c entries
  | _ => .error .wrongType

def decodeItems (r : Registry) (c : Catalog) : List Value → Except Fault (List Schema)
  | [] => return []
  | v :: rest => do
    let first ← decode r c false v
    let rest ← decodeItems r c rest
    return first :: rest

def decodeKeys (r : Registry) (c : Catalog) : Entries → Except Fault (List Schema)
  | [] => return []
  | (k, _) :: rest => do
    let first ← decode r c false k
    let rest ← decodeKeys r c rest
    return first :: rest

-- Goes through data as the parts of a template.
def decodeParts (r : Registry) (c : Catalog) : Value → Except Fault (List Part)
  | .list items => decodePartItems r c items
  | .tuple items => decodePartItems r c items
  | .scalar (.text s) => return s.toList.map fun c => .text c.toString
  | .table entries => decodePartKeys r c entries
  | _ => .error .wrongType

def decodePartItems (r : Registry) (c : Catalog) : List Value → Except Fault (List Part)
  | [] => return []
  | v :: rest => do
    let first ← partOf (decode r c false v) v
    let rest ← decodePartItems r c rest
    return first :: rest

def decodePartKeys (r : Registry) (c : Catalog) : Entries → Except Fault (List Part)
  | [] => return []
  | (k, _) :: rest => do
    let first ← partOf (decode r c false k) k
    let rest ← decodePartKeys r c rest
    return first :: rest

def decodeProperties (r : Registry) (c : Catalog) (required : List Value) :
    Entries → Except Fault (List (String × Schema))
  | [] => return []
  | (.scalar (.text name), v) :: rest => do
    let first ← decode r c (!required.any (·.isText name)) v
    let rest ← decodeProperties r c required rest
    return (name, first) :: rest
  | _ :: _ => .error .wrongType

-- A table with a kind is a schema, a list a tuple; other data is kept as it is. What the
-- field is as a document is given.
def decodeField (r : Registry) (c : Catalog) (decoded : Except Fault Schema) :
    Value → Except Fault Value
  | .table entries =>
    if (Entries.find? entries "kind").isSome then decoded.map .schema else return .table entries
  | .list items => do
    let items ← decodeFieldItems r c items
    return .tuple items
  | v => return v

def decodeFieldItems (r : Registry) (c : Catalog) : List Value → Except Fault (List Value)
  | [] => return []
  | v :: rest => do
    let first ← decodeField r c (decode r c false v) v
    let rest ← decodeFieldItems r c rest
    return first :: rest

-- Every key that is not skipped is a field.
def decodeFields (r : Registry) (c : Catalog) (skipped : List String) :
    Entries → Except Fault (List (String × Value))
  | [] => return []
  | (.scalar (.text name), v) :: rest =>
    if skipped.contains name then decodeFields r c skipped rest
    else do
      let first ← decodeField r c (decode r c false v) v
      let rest ← decodeFields r c skipped rest
      return (name, first) :: rest
  | _ :: _ => .error .wrongType

def schemaAt (r : Registry) (c : Catalog) (key : String) : Entries → Option (Except Fault Schema)
  | [] => none
  | (k, v) :: rest => if k.isText key then some (decode r c false v) else schemaAt r c key rest

def schemasAt (r : Registry) (c : Catalog) (key : String) :
    Entries → Option (Except Fault (List Schema))
  | [] => none
  | (k, v) :: rest => if k.isText key then some (decodeEach r c v) else schemasAt r c key rest

def partsAt (r : Registry) (c : Catalog) (key : String) :
    Entries → Option (Except Fault (List Part))
  | [] => none
  | (k, v) :: rest => if k.isText key then some (decodeParts r c v) else partsAt r c key rest

def propertiesAt (r : Registry) (c : Catalog) (required : List Value) (key : String) :
    Entries → Option (Except Fault (List (String × Schema)))
  | [] => none
  | (k, v) :: rest =>
    if k.isText key then
      match v with
      | .table entries => some (decodeProperties r c required entries)
      | _ => some (.error .noAttribute)
    else propertiesAt r c required key rest

def additionalAt (r : Registry) (c : Catalog) (key : String) :
    Entries → Option (Except Fault Value)
  | [] => none
  | (k, v) :: rest =>
    if k.isText key then some (additionalOf (decode r c false v) v)
    else additionalAt r c key rest

def patternAt (r : Registry) (c : Catalog) (key : String) :
    Entries → Option (Except Fault (Value × Except Fault Schema))
  | [] => none
  | (k, v) :: rest =>
    if k.isText key then
      match v with
      | .table [(pattern, value)] => some (.ok (pattern, decode r c false value))
      | .table _ => some (.error .wrongValue)
      | _ => some (.error .noAttribute)
    else patternAt r c key rest

end

end Document

end Assignability
