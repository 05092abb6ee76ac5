import Assignability.Schema.Basic

namespace Assignability

-- Lists and tables can change in place, so neither they nor anything that holds one can be a key.
-- The properties of an object are a table.

mutual

def Value.isKey : Value → Bool
  | .null => true
  | .scalar _ => true
  | .list _ => false
  | .tuple items => Value.areKeys items
  | .table _ => false
  | .schema s => Schema.isKey s

def Value.areKeys : List Value → Bool
  | [] => true
  | v :: rest => Value.isKey v && Value.areKeys rest

def Schema.isKey : Schema → Bool
  | .mk _ id _ shape => Value.isKey id && Shape.isKey shape

def Schema.areKeys : List Schema → Bool
  | [] => true
  | s :: rest => Schema.isKey s && Schema.areKeys rest

def Part.areKeys : List Part → Bool
  | [] => true
  | .text _ :: rest => Part.areKeys rest
  | .schema s :: rest => Schema.isKey s && Part.areKeys rest

def Value.fieldsAreKeys : List (String × Value) → Bool
  | [] => true
  | (_, v) :: rest => Value.isKey v && Value.fieldsAreKeys rest

def Shape.isKey : Shape → Bool
  | .basic _ => true
  | .literal _ => true
  | .callable _ parameters returns => Schema.areKeys parameters && Schema.isKey returns
  | .promise item => Schema.isKey item
  | .template parts => Part.areKeys parts
  | .array items => Schema.isKey items
  | .tuple items => Schema.areKeys items
  | .object _ _ => false
  | .record key value => Schema.isKey key && Schema.isKey value
  | .union variants => Schema.areKeys variants
  | .intersect variants => Schema.areKeys variants
  | .reference _ target => Value.isKey target
  | .user _ fields => Value.fieldsAreKeys fields

end

end Assignability
