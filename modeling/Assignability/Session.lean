import Assignability.Document.Decode
import Assignability.Engine.Visit
import Assignability.Json.Reader
import Assignability.Json.Writer
import Assignability.Traversal

namespace Assignability

-- What was logged before a fault stays logged.

structure Session where
  world : World := {}
  catalog : Catalog := []
  definitions : List (String × Schema) := []

def nestingLimit : Nat := 10000

structure RoundTrip where
  text : String
  again : Schema
  equal : Bool
  stable : Bool

namespace Session

def start (environment : Environment) : Session := { world := { environment } }

def settings (s : Session) (arguments : List (String × Value)) : Except Fault Settings :=
  Settings.build s.world.environment arguments

def renew (s : Session) (arguments : List (String × Value)) : Except Fault Session := do
  let settings ← s.settings arguments
  return { s with world := { s.world with engine := { settings } } }

def place (s : Session) (schema : Schema) : Schema × Session :=
  let (schema, world) := s.world.place schema
  (schema, { s with world })

def placeValue (s : Session) (v : Value) : Value × Session :=
  let (v, world) := s.world.placeValue v
  (v, { s with world })

def define (s : Session) (name : String) (schema : Schema) : Session :=
  { s with definitions := Assoc.insert name schema s.definitions }

def clearLog (s : Session) : Session := { s with world := { s.world with log := [] } }

def log (s : Session) : List String := s.world.log.reverse.map Event.message

def query (s : Session) (left right : Schema) (leftScope rightScope : Scope) :
    Except Fault Bool × Session :=
  let (outcome, world) :=
    Engine.queryShared (Engine.compareSchemas nestingLimit left right leftScope rightScope) s.world
  (outcome, { s with world })

def compare (s : Session) (arguments : List (String × Value)) (left right : Schema)
    (leftScope rightScope : Scope) : Except Fault Bool × Session :=
  match s.settings arguments with
  | .error fault => (.error fault, s)
  | .ok settings =>
    let (outcome, world) :=
      Engine.queryFresh settings
        (Engine.compareSchemas nestingLimit left right leftScope rightScope) s.world
    (outcome, { s with world })

def declare (s : Session) (className : String) (kind? : Option String) (fields : List Field) :
    Except Fault (String × Session) := do
  let (catalog, kind) ← s.catalog.declare className kind? fields
  return (kind, { s with catalog })

def register (s : Session) (kind : String) (handler : Option Handler) :
    Except Fault Unit × Session :=
  let (outcome, world) := s.world.register kind handler
  (outcome, { s with world })

def unregister (s : Session) (kind : String) : Bool × Session :=
  let (removed, world) := s.world.unregister kind
  (removed, { s with world })

def clearRegistry (s : Session) : Session :=
  { s with world := { s.world with registry := [] } }

def userShape (s : Session) (kind : String) (arguments : List (String × Value)) :
    Except Fault Shape :=
  match s.catalog.find? kind with
  | some d => d.shape arguments
  | none => .error .wrongType

def refer (target : Schema) (options : List (String × Value)) : Except Fault Schema :=
  if target.id.isNull then .error .noId
  else if options.all fun o => o.1 == "id" || o.1 == "optional" then
    .ok (.mk 0 ((options.lookup "id").getD .null)
      ((options.lookup "optional").map Value.truth |>.getD false) (.reference .ref target.id))
  else .error .wrongType

def encode (s : Session) (scope : Scope) (schema : Schema) : Except Fault Value :=
  Document.encode s.world.registry scope schema

def decode (s : Session) (optional : Bool) (v : Value) : Except Fault Schema :=
  Document.decode s.world.registry s.catalog optional v

def render (s : Session) (schema : Schema) (options : List (String × Value)) :
    Except Fault String := do
  let document ← s.encode [] schema
  let format ← Json.Format.ofOptions options
  Json.render format document

def parse (s : Session) (optional : Bool) (text : String) : Except Fault Schema := do
  let v ← Json.parse text
  s.decode optional v

def roundTrip (s : Session) (schema : Schema) : Except Fault RoundTrip := do
  let text ← s.render schema []
  let again ← s.parse false text
  let second ← s.render again []
  return { text, again, equal := again.same schema, stable := second == text }

def resolveTemplate (schema : Schema) : Except Fault Schema :=
  match schema.shape with
  | .template parts => .ok (Template.resolve parts)
  | _ => .error .noAttribute

-- What a schema refers to: the target of a reference, or the field of that name of a user kind.
def target? (schema : Schema) : Option Value :=
  match schema.shape with
  | .reference _ target => some target
  | .user _ fields => fields.lookup "target"
  | _ => none

def resolve (scope : Scope) (schema : Schema) : Except Fault (Schema × Nat) :=
  match target? schema with
  | some target =>
    match scope.findIdx? (fun entry => entry.id.equal target), scope.resolve? target with
    | some index, some entry => .ok (entry, index)
    | _, _ => .error (.unresolved target)
  | none => .error .noAttribute

def visitBase (s : Session) (schema : Schema) (scope : Scope) (arguments : List String) :
    Except Fault Path :=
  Traversal.visit s.world.registry Traversal.base nestingLimit schema scope arguments

def visitPaths (s : Session) (schema : Schema) (scope : Scope) (arguments : List String) :
    Except Fault Path :=
  Traversal.visit s.world.registry Path.traversal nestingLimit schema scope arguments

end Session

end Assignability
