import Assignability.Registry
import Assignability.Scope

namespace Assignability

-- What a traversal does with a schema that is no reference, given how to visit others. The extra
-- arguments are passed on as they are.
abbrev Traversal (α β : Type) :=
  (Schema → Scope → β → Except Fault α) → Schema → Scope → β → Except Fault α

namespace Traversal

def dispatch {α β : Type} (r : Registry) (t : Traversal α β)
    (visit : Schema → Scope → β → Except Fault α) (s : Schema) (scope : Scope) (arguments : β) :
    Except Fault α :=
  match s.shape with
  | .reference _ target =>
    match scope.resolve? target with
    | none => .error (.unresolved target)
    | some entry => visit entry scope arguments
  | _ =>
    match r.ensureKnown s with
    | .error fault => .error fault
    | .ok _ => t visit s scope arguments

def visit {α β : Type} (r : Registry) (t : Traversal α β) :
    (depth : Nat) → Schema → Scope → β → Except Fault α
  | 0, _, _, _ => .error .tooDeep
  | depth + 1, s, scope, arguments =>
    dispatch r t (visit r t depth) s (scope.push s) arguments

def base {α β : Type} : Traversal α β := fun _ s _ _ =>
  .error (.unhandledKind "SchemaVisitor" s.kind)

end Traversal

inductive Path where
  | node (kind : Kind) (scope : List Value) (arguments : List String) (children : List Path)

namespace Path

def children (s : Schema) : List Schema :=
  match s.shape with
  | .array items => [items]
  | .promise item => [item]
  | .tuple items => items
  | .union variants => variants
  | .object properties _ => properties.map (·.2)
  | _ => []

def visitAll (visit : Schema → Except Fault Path) : List Schema → Except Fault (List Path)
  | [] => .ok []
  | s :: rest => do
    let first ← visit s
    let rest ← visitAll visit rest
    return first :: rest

def traversal : Traversal Path (List String) := fun visit s scope arguments => do
  let below ← visitAll (fun child => visit child scope arguments) (children s)
  return .node s.kind (scope.map (·.id)) arguments below

end Path

end Assignability
