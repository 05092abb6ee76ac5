namespace Assignability

-- A finite number is a sign, a mantissa and an exponent of two, so comparison and rounding are
-- arithmetic on integers.

-- Not-a-number values are told apart by occurrence: each one equals only itself.
inductive Binary64 where
  | nan (occurrence : Nat)
  | infinite (negative : Bool)
  | finite (negative : Bool) (mantissa : Nat) (exponent : Int)
deriving DecidableEq, Repr

namespace Binary64

-- The least exponent of two: every finite number is a whole multiple of `2 ^ leastExponent`.
def leastExponent : Int := -1074

def greatestExponent : Int := 971

def mantissaBits : Nat := 53

def twoPower (k : Int) : Nat := Nat.pow 2 k.toNat

def tenPower (k : Int) : Nat := Nat.pow 10 k.toNat

def zero (negative : Bool) : Binary64 := .finite negative 0 leastExponent

-- The `k` with `2 ^ k ≤ num / den < 2 ^ (k + 1)`, for positive `num` and `den`.
def magnitude (num den : Nat) : Int :=
  let estimate : Int := (num.log2 : Int) - den.log2
  if den * twoPower estimate ≤ num * twoPower (-estimate) then estimate else estimate - 1

-- The whole number nearest to `num / den`, the even one of two equally near.
def roundHalfEven (num den : Nat) : Nat :=
  let quotient := num / den
  let remainder := num % den
  if den < 2 * remainder ∨ (den = 2 * remainder ∧ quotient % 2 = 1) then quotient + 1
  else quotient

-- A mantissa that rounding carried to the next power of two gives way to a larger exponent, and
-- what lies beyond the largest exponent is infinite.
def pack (negative : Bool) (mantissa : Nat) (exponent : Int) : Binary64 :=
  let carried := mantissa = twoPower mantissaBits
  let mantissa := if carried then twoPower (mantissaBits - 1 : Nat) else mantissa
  let exponent := if carried then exponent + 1 else exponent
  if greatestExponent < exponent then .infinite negative else .finite negative mantissa exponent

-- `round negative num den` is the representable number nearest to `num / den`, for `den > 0`.
def round (negative : Bool) (num den : Nat) : Binary64 :=
  if num = 0 then zero negative
  else
    let exponent := max (magnitude num den - (mantissaBits - 1 : Nat)) leastExponent
    pack negative (roundHalfEven (num * twoPower (-exponent)) (den * twoPower exponent)) exponent

-- The number nearest to `digits * 10 ^ exponent`. Exponents far outside the range are decided
-- without computing the power.
def ofDecimal (negative : Bool) (digits : Nat) (exponent : Int) : Binary64 :=
  let magnitude := exponent + (Nat.toDigits 10 digits).length
  if digits = 0 ∨ magnitude < -400 then zero negative
  else if 400 < magnitude then .infinite negative
  else round negative (digits * tenPower exponent) (tenPower (-exponent))

-- A finite number times `2 ^ 1074`, which is whole.
def scaled (negative : Bool) (mantissa : Nat) (exponent : Int) : Int :=
  let magnitude : Int := (mantissa * twoPower (exponent - leastExponent) : Nat)
  if negative then -magnitude else magnitude

def unit : Int := twoPower (-leastExponent)

def toInt? : Binary64 → Option Int
  | .finite negative mantissa exponent =>
    let s := scaled negative mantissa exponent
    if s % unit = 0 then some (s / unit) else none
  | _ => none

def compare? : Binary64 → Binary64 → Option Ordering
  | .nan _, _ => none
  | _, .nan _ => none
  | .infinite a, .infinite b => some (compare (!a) (!b))
  | .infinite a, .finite .. => some (if a then .lt else .gt)
  | .finite .., .infinite b => some (if b then .gt else .lt)
  | .finite a m e, .finite b n f => some (compare (scaled a m e) (scaled b n f))

def compareInt? : Binary64 → Int → Option Ordering
  | .nan _, _ => none
  | .infinite a, _ => some (if a then .lt else .gt)
  | .finite a m e, n => some (compare (scaled a m e) (n * unit))

-- Equality of values: the two zeros agree, and a not-a-number value agrees with its own occurrence
-- only.
def same : Binary64 → Binary64 → Bool
  | .nan a, .nan b => a == b
  | a, b => compare? a b == some .eq

end Binary64

end Assignability
