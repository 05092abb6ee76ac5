import Assignability.Number.Binary64

namespace Assignability.Binary64

-- The digits written are the fewest that read back as the same number; of several such texts the
-- nearest to it, and the even one of two equally near.

def belowPower (num den : Nat) (k : Int) : Bool :=
  decide (num * tenPower (-k) < den * tenPower k)

-- The `k` with `10 ^ (k - 1) ≤ num / den < 10 ^ k`, from an estimate that is off by one at most.
def decimalMagnitude (num den : Nat) : Int :=
  let estimate := (((num.log2 : Int) - den.log2) * 30103) / 100000
  if belowPower num den (estimate - 1) then estimate - 1
  else if belowPower num den estimate then estimate
  else if belowPower num den (estimate + 1) then estimate + 1
  else estimate + 2

-- The numbers that round to a given one: between `low / den` and `high / den`, the ends included or
-- not.
structure Interval where
  low : Nat
  high : Nat
  den : Nat
  closed : Bool

namespace Interval

def holds (i : Interval) (count : Nat) (exponent : Int) : Bool :=
  let point := count * tenPower exponent * i.den
  let low := i.low * tenPower (-exponent)
  let high := i.high * tenPower (-exponent)
  if i.closed then decide (low ≤ point ∧ point ≤ high)
  else decide (low < point ∧ point < high)

end Interval

-- The multiple of `10 ^ exponent` next to `num / den` that lies in the interval, if one does.
def nearestOnGrid (i : Interval) (num den : Nat) (exponent : Int) : Option Nat :=
  let n := num * tenPower (-exponent)
  let d := den * tenPower exponent
  let below := n / d
  let remainder := n % d
  match i.holds below exponent, i.holds (below + 1) exponent with
  | true, false => some below
  | false, true => some (below + 1)
  | false, false => none
  | true, true =>
    if 2 * remainder < d ∨ (2 * remainder = d ∧ below % 2 = 0) then some below
    else some (below + 1)

def searchDigits (i : Interval) (num den : Nat) (magnitude : Int) :
    (left tried : Nat) → Nat × Int
  | 0, tried => (num * tenPower tried / den, magnitude - tried)
  | left + 1, tried =>
    let exponent := magnitude - (tried + 1 : Nat)
    match nearestOnGrid i num den exponent with
    | some count => (count, exponent)
    | none => searchDigits i num den magnitude left (tried + 1)

def shortest (mantissa : Nat) (exponent : Int) : Nat × Int :=
  let narrow := mantissa = twoPower (mantissaBits - 1 : Nat) ∧ leastExponent < exponent
  let up := twoPower exponent
  let den := 4 * twoPower (-exponent)
  let num := 4 * mantissa * up
  let interval : Interval :=
    { low := (4 * mantissa - if narrow then 1 else 2) * up
      high := (4 * mantissa + 2) * up
      den := den
      closed := mantissa % 2 = 0 }
  searchDigits interval num den (decimalMagnitude num den) 17 0

-- How a number is laid out: positional while the decimal exponent lies between the two bounds,
-- otherwise with an exponent of at least two digits and a sign.
structure Layout where
  leastPositional : Int
  greatestPositional : Int
  nan : String
  infinity : String

def Layout.standard : Layout := ⟨-4, 15, "nan", "inf"⟩

def zeros (n : Nat) : List Char := List.replicate n '0'

def trimZeros (digits : List Char) : List Char :=
  (digits.reverse.dropWhile (· == '0')).reverse

def positional (digits : List Char) (point : Int) : List Char :=
  if point ≤ 0 then '0' :: '.' :: (zeros (-point).toNat ++ digits)
  else if digits.length ≤ point.toNat then
    digits ++ zeros (point.toNat - digits.length) ++ ['.', '0']
  else digits.take point.toNat ++ '.' :: digits.drop point.toNat

def scientific (digits : List Char) (exponent : Int) : List Char :=
  let tail := digits.drop 1
  let magnitude := Nat.toDigits 10 exponent.natAbs
  digits.take 1 ++ (if tail.isEmpty then [] else '.' :: tail) ++
    'e' :: (if exponent < 0 then '-' else '+') ::
      (if magnitude.length < 2 then '0' :: magnitude else magnitude)

-- Digits laid out with the decimal point after the first `point` of them.
def Layout.digits (layout : Layout) (digits : List Char) (point : Int) : List Char :=
  if layout.leastPositional ≤ point - 1 ∧ point - 1 ≤ layout.greatestPositional then
    positional digits point
  else scientific digits (point - 1)

def Layout.text (layout : Layout) : Binary64 → String
  | .nan _ => layout.nan
  | .infinite negative => if negative then "-" ++ layout.infinity else layout.infinity
  | .finite negative mantissa exponent =>
    let sign := if negative then ['-'] else []
    let body :=
      if mantissa = 0 then ['0', '.', '0']
      else
        let (count, place) := shortest mantissa exponent
        let all := Nat.toDigits 10 count
        layout.digits (trimZeros all) (place + all.length)
    String.ofList (sign ++ body)

def text (x : Binary64) : String := Layout.standard.text x

end Assignability.Binary64
