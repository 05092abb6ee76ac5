import Assignability.Assoc
import Assignability.Fault
import Assignability.Number.Word

namespace Assignability

-- Arguments come before environment variables, and these before defaults.

structure Settings where
  -- Answer for a pair that is still being compared.
  cycleResult : Bool := true
  -- Answer for `Any` on the left of a side that does not absorb it.
  anyLeftResult : Bool := true
  memoize : Bool := true
  trace : Bool := false
deriving DecidableEq, Repr

abbrev Environment := List (String × String)

namespace Environment

def set (env : Environment) (name value : String) : Environment :=
  Assoc.insert name value env

-- Letters beyond ASCII are left alone: none of them is a small form of a letter in a name looked
-- for here.
def lower (s : String) : String := String.ofList (s.toList.map Char.toLower)

-- A variable by its name in small letters; of several that differ in case only, the last.
def get? (env : Environment) (name : String) : Option String :=
  (env.reverse.find? fun e => lower e.1 == name).map (·.2)

end Environment

namespace Settings

def trueWords : List String := ["1", "on", "t", "true", "y", "yes"]

def falseWords : List String := ["0", "off", "f", "false", "n", "no"]

def truthOfText (s : String) : Except SettingProblem Bool :=
  let word := Environment.lower s
  if trueWords.contains word then .ok true
  else if falseWords.contains word then .ok false
  else .error .notTruth

def truthOfInt (n : Int) : Except SettingProblem Bool :=
  if n = 0 then .ok false
  else if n = 1 then .ok true
  else .error .notTruth

-- A truth value, a word for one, or the numbers 0 and 1. Numbers beyond 64 bits are not looked at,
-- nor is the least one that 64 bits hold when it comes with a point.
def truthOf : Value → Except SettingProblem Bool
  | .scalar (.bool b) => .ok b
  | .scalar (.text s) => truthOfText s
  | .scalar (.int n) => if fitsWord n then truthOfInt n else .error .notWord
  | .scalar (.real x) => match x.toInt? with
    | some n => if fitsWord n && n != -wordBound then truthOfInt n else .error .notWord
    | none => .error .notWord
  | _ => .error .notWord

def variablePrefix : String := "structype_"

def fieldNames : List String := ["cycle_result", "any_left_result", "memoize", "trace"]

-- The argument for a field. Names count in any case; of several that differ in case only, the first
-- given does.
def argument? (arguments : List (String × Value)) (name : String) : Option Value :=
  (arguments.find? fun a => Environment.lower a.1 == name).map (·.2)

def field (env : Environment) (arguments : List (String × Value)) (name : String)
    (default : Bool) : Except SettingProblem Bool :=
  match argument? arguments name with
  | some v => truthOf v
  | none => match env.get? (variablePrefix ++ name) with
    | some s => truthOfText s
    | none => .ok default

def problem (name : String) : Except SettingProblem Bool → List (String × SettingProblem)
  | .ok _ => []
  | .error p => [(name, p)]

def unknown (arguments : List (String × Value)) : List (String × Value) :=
  arguments.filter fun a => !fieldNames.contains (Environment.lower a.1)

-- All problems are reported: those of the fields in their order, then the unknown names.
def build (env : Environment) (arguments : List (String × Value)) : Except Fault Settings :=
  let cycle := field env arguments "cycle_result" true
  let anyLeft := field env arguments "any_left_result" true
  let memoize := field env arguments "memoize" true
  let trace := field env arguments "trace" false
  match cycle, anyLeft, memoize, trace, unknown arguments with
  | .ok cycleResult, .ok anyLeftResult, .ok memoize, .ok trace, [] =>
    .ok { cycleResult, anyLeftResult, memoize, trace }
  | _, _, _, _, extra =>
    .error (.invalidSettings (problem "cycle_result" cycle ++ problem "any_left_result" anyLeft ++
      problem "memoize" memoize ++ problem "trace" trace ++
      extra.map fun a => (a.1, .unexpected)))

end Settings

end Assignability
