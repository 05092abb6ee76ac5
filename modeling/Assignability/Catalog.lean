import Assignability.Assoc
import Assignability.Fault
import Assignability.Text.Name

namespace Assignability

-- A field may bear a name that every class has already. Then it takes over what the class has
-- there, and stands in front of all others.

structure Field where
  name : String
  default? : Option Value

-- What a field takes when no argument is given for it.
inductive Fallback where
  | missing
  | value (v : Value)
  | operation
  -- Can be declared but not be set.
  | computed

structure Declaration where
  className : String
  kind : String
  fields : List (String × Fallback)

abbrev Catalog := List Declaration

def Kind.className (k : Kind) : String := k.name ++ "Type"

namespace Catalog

def builtinModule : String := "structype.types"

def userModule : String := "user"

def find? (c : Catalog) (kind : String) : Option Declaration := List.find? (·.kind == kind) c

def classFor? (c : Catalog) (kind : String) : Option String :=
  match Kind.ofName? kind with
  | some k => some k.className
  | none => (c.find? kind).map (·.className)

def qualified? (c : Catalog) (kind : String) : Option String :=
  match Kind.ofName? kind with
  | some k => some (builtinModule ++ "." ++ k.className)
  | none => (c.find? kind).map fun d => userModule ++ "." ++ d.className

def typeName (c : Catalog) : Value → String
  | .null => "NoneType"
  | .scalar (.bool _) => "bool"
  | .scalar (.int _) => "int"
  | .scalar (.real _) => "float"
  | .scalar (.text _) => "str"
  | .list _ => "list"
  | .tuple _ => "tuple"
  | .table _ => "dict"
  | .schema s => (c.qualified? s.kind.name).getD s.kind.name

def kindOfClass (className : String) : String :=
  let cs := className.toList
  let suffix := "Type".toList
  if suffix.isSuffixOf cs then String.ofList (cs.take (cs.length - suffix.length)) else className

-- What every class has under a name, before it declares fields.
def inherited : String → Fallback
  | "id" => .value .null
  | "optional" => .value (.bool false)
  | "kind" => .computed
  | "_registry" => .value (.table [])
  | "class_for" => .operation
  | "_freeze" => .operation
  | _ => .missing

def leadingNames : List String := ["_kind", "_registry", "id", "optional"]

-- A field declared again keeps its place, and its default unless it is given another.
def mergeField (fields : List (String × Fallback)) (f : Field) : List (String × Fallback) :=
  match f.default?, fields.lookup f.name with
  | some v, _ => Assoc.insert f.name (.value v) fields
  | none, some _ => fields
  | none, none => Assoc.insert f.name (inherited f.name) fields

def arrange (fields : List Field) : List (String × Fallback) :=
  let merged := fields.foldl mergeField []
  leadingNames.filterMap (fun name => (merged.lookup name).map fun fallback => (name, fallback)) ++
    merged.filter fun f => !leadingNames.contains f.1

-- Lists and tables cannot be defaults: every schema would share them.
def mutableDefault : Fallback → Bool
  | .value (.list _) => true
  | .value (.table _) => true
  | _ => false

def isMissing : Fallback → Bool
  | .missing => true
  | _ => false

def misplacedDefault : List (String × Fallback) → Bool
  | [] => false
  | f :: rest =>
    (!isMissing f.2 && rest.any fun other => isMissing other.2) || misplacedDefault rest

def areNames : List String → Bool
  | [] => true
  | name :: rest => Text.isName name && !rest.contains name && areNames rest

-- Fields are checked before the kind. Id and optionality are no fields of their own: every schema
-- has them.
def declare (c : Catalog) (className : String) (kind? : Option String) (fields : List Field) :
    Except Fault (Catalog × String) :=
  let kind := kind?.getD (kindOfClass className)
  let fields := arrange fields
  if fields.any (mutableDefault ·.2) then .error .wrongValue
  else if misplacedDefault fields then .error .wrongType
  else if !areNames (fields.map fun f => Text.trimEnd f.1) then .error .badName
  else if fields.any (fun f => Text.trimEnd f.1 != f.1) then .error .wrongType
  else
    match c.qualified? kind with
    | some holder => .error (.kindTaken kind holder)
    | none =>
      let own := fields.filter fun f => f.1 != "id" && f.1 != "optional"
      .ok (c ++ [⟨className, kind, own⟩], kind)

def literal (c : Catalog) : Value → Except Fault Shape
  | .scalar s => .ok (.literal s)
  | v => .error (.notLiteral (c.typeName v))

end Catalog

namespace Declaration

def accepts (d : Declaration) (arguments : List (String × Value)) : Bool :=
  (arguments.all fun a => d.fields.any (·.1 == a.1)) &&
    d.fields.all fun f => !Catalog.isMissing f.2 || (arguments.lookup f.1).isSome

-- In the order of the declaration: what is given, else the defaults, which must be data.
def complete (arguments : List (String × Value)) :
    List (String × Fallback) → Except Fault (List (String × Value))
  | [] => .ok []
  | (name, fallback) :: rest =>
    match arguments.lookup name, fallback with
    | some v, _ => (complete arguments rest).map ((name, v) :: ·)
    | none, .value v => (complete arguments rest).map ((name, v) :: ·)
    | none, _ => .error .wrongType

def isComputed : Fallback → Bool
  | .computed => true
  | _ => false

-- What a field of the schema's own holds as its kind, else the kind of the class. Only a text that
-- names no built-in kind is the kind of a user schema.
def kindOf? (d : Declaration) (fields : List (String × Value)) : Option UserKind :=
  match (fields.lookup "kind").or (fields.lookup "_kind") with
  | some (.scalar (.text name)) => UserKind.ofName? name
  | some _ => none
  | none => UserKind.ofName? d.kind

-- What every schema computes for itself cannot be set, so a class that declares it has no schemas.
-- Nor has a class one whose field would make its kind anything but a user kind.
def shape (d : Declaration) (arguments : List (String × Value)) : Except Fault Shape :=
  if !d.accepts arguments then .error .wrongType
  else if d.fields.any (isComputed ·.2) then .error .noAttribute
  else do
    let fields ← complete arguments d.fields
    match d.kindOf? fields with
    | some kind => return .user kind fields
    | none => .error .wrongValue

end Declaration

end Assignability
