import Assignability.Engine.Goal
import Assignability.Schema.Placement

namespace Assignability

-- What an engine remembers lasts for one query. The rest of the world outlives it.

structure PairKey where
  left : Nat
  right : Nat
  leftScope : Nat
  rightScope : Nat
deriving DecidableEq, Repr

def PairKey.of (left right : Site) : PairKey :=
  ⟨left.schema.mark, right.schema.mark, left.scopeMark, right.scopeMark⟩

inductive Event where
  | cycle (key : PairKey) (left right : Kind) (assumed : Bool)
  | compared (key : PairKey) (left right : Kind) (result : Bool)
  | registered (kind : String)
  | removed (kind : String)
deriving DecidableEq, Repr

def truthName (b : Bool) : String := if b then "True" else "False"

def Event.message : Event → String
  | .cycle _ left right assumed =>
    "Cycle re-entered on " ++ left.name ++ " extends " ++ right.name ++ ", assuming " ++
      truthName assumed
  | .compared _ left right result =>
    left.name ++ " extends " ++ right.name ++ " -> " ++ truthName result
  | .registered kind => "Registered user kind " ++ Text.quote kind
  | .removed kind => "Removed user kind " ++ Text.quote kind

-- A depth that may be missing; a missing one lies below every other.
def shallower : Option Nat → Option Nat → Option Nat
  | none, b => b
  | a, none => a
  | some a, some b => some (min a b)

structure Engine where
  settings : Settings
  results : List (PairKey × Bool) := []
  -- The innermost first, with the depth at which each was entered.
  active : List (PairKey × Nat) := []
  -- The shallowest pair being compared whose assumed answer was used since the innermost pair was
  -- entered.
  assumed : Option Nat := none
  -- The latest first.
  begun : List (Site × Site) := []

def Engine.reset (e : Engine) : Engine := { settings := e.settings }

structure World where
  supply : Nat := firstMark
  registry : Registry := []
  environment : Environment := []
  engine : Engine := { settings := {} }
  -- The session's engine while another one answers in its place.
  waiting : Option Engine := none
  log : List Event := []

namespace World

def record (w : World) (e : Event) : World := { w with log := e :: w.log }

def setEngine (w : World) (f : Engine → Engine) : World := { w with engine := f w.engine }

def fresh (w : World) : Nat × World := (w.supply, { w with supply := w.supply + 1 })

def place (w : World) (s : Schema) : Schema × World :=
  let (s, supply) := s.place w.supply
  (s, { w with supply })

def placeValue (w : World) (v : Value) : Value × World :=
  let (v, supply) := v.place w.supply
  (v, { w with supply })

-- Scopes are given as lists, and a list becomes a new scope each time, also when it is given again.
-- A scope handed over twice as it stands would keep its identity; handlers get none to hand over.
-- The empty scope is one and the same.
def site (w : World) (s : Schema) (scope : Scope) : Site × World :=
  if scope.isEmpty then (.bare s, w)
  else
    let (mark, w) := w.fresh
    (⟨s, scope, mark⟩, w)

def register (w : World) (kind : String) (handler : Option Handler) : Except Fault Unit × World :=
  if Kind.isBuiltinName kind then (.error (.kindBuiltin kind), w)
  else
    (.ok (), { w with registry := w.registry.insert kind handler }.record (.registered kind))

def unregister (w : World) (kind : String) : Bool × World :=
  if w.registry.has kind then
    (true, { w with registry := w.registry.erase kind }.record (.removed kind))
  else (false, w)

end World

-- A computation that may fail and leaves the world changed in either case.
abbrev Run (α : Type) := World → Except Fault α × World

end Assignability
