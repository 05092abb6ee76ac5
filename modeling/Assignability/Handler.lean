import Assignability.Scope

namespace Assignability

-- A comparison that fails is a reply too, from which a script may go on.

inductive EngineChoice where
  | shared | fresh
deriving DecidableEq, Repr

structure Question where
  engine : EngineChoice
  left : Value
  right : Value
  leftScope : Scope := []
  rightScope : Scope := []

inductive Script where
  | answer (value : Value)
  | fail (fault : Fault)
  | unregister (kind : String) (next : Bool → Script)
  | compare (question : Question) (next : Except Fault Bool → Script)

def Script.pass : Except Fault Bool → Script
  | .ok b => .answer (.bool b)
  | .error fault => .fail fault

abbrev Handler := Schema → Schema → Script

-- A part of a schema by name: a field of a user kind, or one that every schema has.
def Schema.attribute? (s : Schema) (name : String) : Option Value :=
  let common := if name == "id" then some s.id
    else if name == "optional" then some (.bool s.optional)
    else if name == "kind" then some (.text s.kind.name)
    else none
  match s.shape with
  | .user _ fields => (fields.lookup name).or common
  | _ => common

namespace Handler

def constant (value : Value) : Handler := fun _ _ => .answer value

def atLeast (field : String) : Handler := fun left right =>
  if left.kind = right.kind then
    match left.attribute? field, right.attribute? field with
    | some a, some b => match a.atLeast? b with
      | some answer => .answer (.bool answer)
      | none => .fail .wrongType
    | _, _ => .fail .noAttribute
  else .answer (.bool false)

def rightKindIn (kinds : List String) : Handler := fun _ right =>
  .answer (.bool (kinds.contains right.kind.name))

def byField (field : String) (engine : EngineChoice) : Handler := fun left right =>
  if left.kind = right.kind then
    match left.attribute? field, right.attribute? field with
    | some a, some b => .compare { engine, left := a, right := b } .pass
    | _, _ => .fail .noAttribute
  else .answer (.bool false)

def raising (message : String) : Handler := fun _ _ => .fail (.raised message)

def unregistering (kind : String) : Handler := fun _ _ =>
  .unregister kind fun removed => .answer (.bool removed)

end Handler

end Assignability
