import Assignability.Number.Binary64

namespace Assignability

inductive Numeral where
  | whole (value : Int)
  | scaled (value : Binary64)
deriving DecidableEq, Repr

namespace Decimal

def digits (cs : List Char) : List Char × List Char :=
  (cs.takeWhile Char.isDigit, cs.dropWhile Char.isDigit)

def value (ds : List Char) : Nat := Nat.ofDigitChars 10 ds 0

def fraction : List Char → List Char × List Char
  | '.' :: d :: rest => if d.isDigit then digits (d :: rest) else ([], '.' :: d :: rest)
  | cs => ([], cs)

def signedDigits? (cs : List Char) : Option (Int × List Char) :=
  let (negative, body) : Bool × List Char := match cs with
    | '-' :: r => (true, r)
    | '+' :: r => (false, r)
    | r => (false, r)
  match digits body with
  | ([], _) => none
  | (ds, rest) => some (if negative then -(value ds : Int) else value ds, rest)

def exponent? : List Char → Option (Int × List Char)
  | 'e' :: rest => signedDigits? rest
  | 'E' :: rest => signedDigits? rest
  | _ => none

def wholePart? : List Char → Option (List Char × List Char)
  | '0' :: rest => some (['0'], rest)
  | c :: rest => if c.isDigit then some (digits (c :: rest)) else none
  | [] => none

def signed (negative : Bool) (n : Nat) : Int := if negative then -(n : Int) else n

def scanTail (negative : Bool) (whole rest : List Char) : Numeral × List Char :=
  let (frac, afterFraction) := fraction rest
  match exponent? afterFraction with
  | some (e, after) =>
    (.scaled (Binary64.ofDecimal negative (value (whole ++ frac)) (e - frac.length)), after)
  | none =>
    if frac.isEmpty then (.whole (signed negative (value whole)), afterFraction)
    else
      (.scaled (Binary64.ofDecimal negative (value (whole ++ frac)) (-(frac.length : Int))),
        afterFraction)

def scan (cs : List Char) : Option (Numeral × List Char) :=
  let (negative, body) : Bool × List Char := match cs with
    | '-' :: r => (true, r)
    | r => (false, r)
  (wholePart? body).map fun (whole, rest) => scanTail negative whole rest

end Decimal

namespace Binary64

def isSpace (c : Char) : Bool := c == ' ' || ('\t' ≤ c && c ≤ '\r')

def trim (cs : List Char) : List Char :=
  ((cs.dropWhile isSpace).reverse.dropWhile isSpace).reverse

def ofDigits? (negative : Bool) (cs : List Char) : Option Binary64 :=
  let (whole, rest) := Decimal.digits cs
  let (frac, rest) := match rest with
    | '.' :: r => Decimal.digits r
    | r => ([], r)
  if whole.isEmpty && frac.isEmpty then none
  else
    let mantissa := Decimal.value (whole ++ frac)
    match rest with
    | [] => some (ofDecimal negative mantissa (-(frac.length : Int)))
    | _ => match Decimal.exponent? rest with
      | some (e, []) => some (ofDecimal negative mantissa (e - frac.length))
      | _ => none

-- Reads a decimal text, `nan`, `inf` or `infinity` in any case, with an optional sign and blanks
-- around it. The occurrence numbers a not-a-number value.
def ofText? (occurrence : Nat) (s : String) : Option Binary64 :=
  let cs := trim s.toList
  let (negative, body) : Bool × List Char := match cs with
    | '-' :: r => (true, r)
    | '+' :: r => (false, r)
    | r => (false, r)
  let word := String.ofList (body.map Char.toLower)
  if word == "nan" then some (.nan occurrence)
  else if word == "inf" || word == "infinity" then some (.infinite negative)
  else ofDigits? negative body

end Binary64

end Assignability
