import Assignability.Fault
import Assignability.Schema.Same

namespace Assignability

-- Scopes only grow, and a schema enters at most once.

abbrev Scope := List Schema

namespace Scope

def holds (scope : Scope) (s : Schema) : Bool := scope.any (·.mark == s.mark)

def push (scope : Scope) (s : Schema) : Scope :=
  if s.id.isNull || scope.holds s then scope else scope ++ [s]

def resolve? (scope : Scope) (target : Value) : Option Schema :=
  scope.find? fun entry => entry.id.equal target

-- One step per reference. Every reference passed is the first schema or an entry of the scope, so a
-- chain longer than the scope passes one of them twice, which is found before the steps run out.
def follow (scope : Scope) :
    (steps : Nat) → (passed : List Nat) → Schema → Except Fault (Schema × Scope)
  | steps, passed, s =>
    match s.shape with
    | .reference _ target =>
      if passed.contains s.mark then .error (.endlessChain target)
      else
        match steps with
        | 0 => .error (.endlessChain target)
        | steps + 1 =>
          match scope.resolve? target with
          | none => .error (.unresolved target)
          | some next => follow (scope.push next) steps (s.mark :: passed) next
    | _ => .ok (s, scope)

def dereference (scope : Scope) (s : Schema) : Except Fault (Schema × Scope) :=
  let entered := scope.push s
  follow entered (entered.length + 2) [] s

end Scope

end Assignability
