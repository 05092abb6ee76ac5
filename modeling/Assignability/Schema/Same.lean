import Assignability.Schema.Basic

namespace Assignability

-- Numbers agree by value, so 1, 1.0 and true agree. A not-a-number value agrees with its own
-- occurrence inside other data, but is never equal to anything on its own.

namespace Scalar

def int? : Scalar → Option Int
  | .bool b => some (if b then 1 else 0)
  | .int n => some n
  | _ => none

-- Order of two numbers, exact between whole and fractional ones.
def compareNumbers? (a b : Scalar) : Option Ordering :=
  match a, b with
  | .real x, .real y => x.compare? y
  | .real x, b => b.int?.bind fun n => x.compareInt? n
  | a, .real y => a.int?.bind fun n => (y.compareInt? n).map Ordering.swap
  | a, b => a.int?.bind fun m => b.int?.map fun n => compare m n

def same : Scalar → Scalar → Bool
  | .text a, .text b => a == b
  | .real x, .real y => x.same y
  | a, b => compareNumbers? a b == some .eq

-- Equality of literals: no number agrees with one of another type.
def sameLiteral : Scalar → Scalar → Bool
  | .bool a, .bool b => a == b
  | .int a, .int b => a == b
  | .real x, .real y => x.same y
  | .text a, .text b => a == b
  | _, _ => false

end Scalar

mutual

def Value.same : Value → Value → Bool
  | .null, .null => true
  | .scalar a, .scalar b => a.same b
  | .list xs, .list ys => Value.sameAll xs ys
  | .tuple xs, .tuple ys => Value.sameAll xs ys
  | .table xs, .table ys => xs.length == ys.length && Value.sameEntries xs ys
  | .schema a, .schema b => Schema.same a b
  | _, _ => false
termination_by structural x => x

def Value.sameAll : List Value → List Value → Bool
  | [], [] => true
  | x :: xs, y :: ys => Value.same x y && Value.sameAll xs ys
  | _, _ => false
termination_by structural x => x

def Value.sameEntries : List (Value × Value) → List (Value × Value) → Bool
  | [], _ => true
  | (k, v) :: rest, ys =>
    (match ys.find? fun (other, _) => Value.same k other with
      | some (_, w) => Value.same v w
      | none => false) && Value.sameEntries rest ys
termination_by structural x => x

def Schema.same : Schema → Schema → Bool
  | .mk _ id optional shape, .mk _ otherId otherOptional otherShape =>
    optional == otherOptional && Value.same id otherId && Shape.same shape otherShape
termination_by structural x => x

def Schema.sameAll : List Schema → List Schema → Bool
  | [], [] => true
  | x :: xs, y :: ys => Schema.same x y && Schema.sameAll xs ys
  | _, _ => false
termination_by structural x => x

def Part.sameAll : List Part → List Part → Bool
  | [], [] => true
  | .text a :: xs, .text b :: ys => a == b && Part.sameAll xs ys
  | .schema a :: xs, .schema b :: ys => Schema.same a b && Part.sameAll xs ys
  | _, _ => false
termination_by structural x => x

def Schema.sameProperties : List (String × Schema) → List (String × Schema) → Bool
  | [], _ => true
  | (name, s) :: rest, ys =>
    (match ys.lookup name with
      | some t => Schema.same s t
      | none => false) && Schema.sameProperties rest ys
termination_by structural x => x

def Value.sameFields : List (String × Value) → List (String × Value) → Bool
  | [], [] => true
  | (name, v) :: rest, (other, w) :: rest' =>
    name == other && Value.same v w && Value.sameFields rest rest'
  | _, _ => false
termination_by structural x => x

def Shape.same : Shape → Shape → Bool
  | .basic a, .basic b => a == b
  | .literal a, .literal b => a.same b
  | .callable form ps r, .callable form' ps' r' =>
    form == form' && Schema.sameAll ps ps' && Schema.same r r'
  | .promise a, .promise b => Schema.same a b
  | .template ps, .template qs => Part.sameAll ps qs
  | .array a, .array b => Schema.same a b
  | .tuple xs, .tuple ys => Schema.sameAll xs ys
  | .object ps a, .object qs b =>
    ps.length == qs.length && Schema.sameProperties ps qs && Value.same a b
  | .record k v, .record k' v' => Schema.same k k' && Schema.same v v'
  | .union xs, .union ys => Schema.sameAll xs ys
  | .intersect xs, .intersect ys => Schema.sameAll xs ys
  | .reference form a, .reference form' b => form == form' && Value.same a b
  | .user kind xs, .user kind' ys => kind == kind' && Value.sameFields xs ys
  | _, _ => false
termination_by structural x => x

end

namespace Value

def equal : Value → Value → Bool
  | .scalar (.real (.nan _)), _ => false
  | a, b => a.same b

mutual

-- Does the order of two values satisfy a condition? None when the two have no order; a not-a-number
-- value satisfies no condition.
def ordered? (condition : Ordering → Bool) : Value → Value → Option Bool
  | .scalar (.text a), .scalar (.text b) => some (condition (compare a b))
  | .scalar (.text _), .scalar _ => none
  | .scalar _, .scalar (.text _) => none
  | .scalar a, .scalar b => some ((a.compareNumbers? b).any condition)
  | .list xs, .list ys => orderedAll? condition xs ys
  | .tuple xs, .tuple ys => orderedAll? condition xs ys
  | _, _ => none
termination_by structural x => x

-- The first two items that differ decide; with none, the lengths do.
def orderedAll? (condition : Ordering → Bool) : List Value → List Value → Option Bool
  | [], [] => some (condition .eq)
  | [], _ :: _ => some (condition .lt)
  | _ :: _, [] => some (condition .gt)
  | x :: xs, y :: ys => if x.same y then orderedAll? condition xs ys else ordered? condition x y
termination_by structural x => x

end

def atLeast? (a b : Value) : Option Bool := ordered? Ordering.isGE a b

def below? (a b : Value) : Option Bool := ordered? Ordering.isLT a b

end Value

end Assignability
