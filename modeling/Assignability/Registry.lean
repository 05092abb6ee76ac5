import Assignability.Assoc
import Assignability.Handler

namespace Assignability

abbrev Registry := List (String × Option Handler)

namespace Registry

def has (r : Registry) (kind : String) : Bool := r.any (·.1 == kind)

def get? (r : Registry) (kind : String) : Option (Option Handler) := r.lookup kind

def handler? (r : Registry) (kind : String) : Option Handler := (r.get? kind).join

-- Registering a kind again replaces its record and keeps its place.
def insert (r : Registry) (kind : String) (handler : Option Handler) : Registry :=
  Assoc.insert kind handler r

def erase (r : Registry) (kind : String) : Registry := r.filter (·.1 != kind)

def knows (r : Registry) : Kind → Bool
  | .user name => r.has name
  | _ => true

def ensureKnown (r : Registry) (s : Schema) : Except Fault Unit :=
  if r.knows s.kind then .ok () else .error (.unknownKind (.text s.kind.name))

end Registry

end Assignability
