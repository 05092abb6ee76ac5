namespace Assignability.Sorting

-- Some keys have no order and some cannot be compared at all, so what a sort gives shows which
-- pairs it compared: its steps are part of the rule.

abbrev Below (α : Type) := α → α → Option Bool

def bisect (before : Nat → Option Bool) : (steps low high : Nat) → Option Nat
  | 0, _, high => some high
  | steps + 1, low, high =>
    if low < high then
      let middle := low + (high - low) / 2
      match before middle with
      | none => none
      | some true => bisect before steps (middle + 1) high
      | some false => bisect before steps low middle
    else some high

-- Looks at the offsets 1, 3, 7, ... below the limit for as long as `goesOn`: the last at which it
-- did, and the one at which it stopped.
def stride (goesOn : Nat → Option Bool) (limit : Nat) :
    (steps last offset : Nat) → Option (Nat × Nat)
  | 0, last, offset => some (last, min offset limit)
  | steps + 1, last, offset =>
    if offset < limit then
      match goesOn offset with
      | none => none
      | some true => stride goesOn limit steps offset (2 * offset + 1)
      | some false => some (last, offset)
    else some (last, min offset limit)

def boundary (before : Nat → Option Bool) (size hint : Nat) : Option Nat :=
  match before hint with
  | none => none
  | some true => do
    let (last, offset) ← stride (fun i => before (hint + i)) (size - hint) size 0 1
    bisect before size (hint + last + 1) (hint + offset)
  | some false => do
    let (last, offset) ← stride (fun i => (before (hint - i)).map (!·)) (hint + 1) size 0 1
    bisect before size (hint + 1 - offset) (hint - last)

section

variable {α : Type} (below : Below α)

-- Does the item at a place stay in front of one that comes from its right? On a tie it does.
def staysBefore (items : List α) (x : α) (i : Nat) : Option Bool :=
  (items[i]?.bind (below x)).map (!·)

def goesBefore (items : List α) (x : α) (i : Nat) : Option Bool :=
  items[i]?.bind fun y => below y x

def spanFrom (falling : Bool) : α → List α → Option (List α × List α)
  | _, [] => some ([], [])
  | previous, x :: rest =>
    match below x previous with
    | none => none
    | some falls =>
      if falls == falling then
        (spanFrom falling x rest).map fun (run, rest) => (x :: run, rest)
      else some ([], x :: rest)

def firstRun : List α → Option (List α × List α)
  | x :: y :: rest => do
    let falling ← below y x
    let (run, rest) ← spanFrom below falling y rest
    return (if falling then (x :: y :: run).reverse else x :: y :: run, rest)
  | items => some (items, [])

-- Puts an item behind all that it is not below.
def insert (sorted : List α) (x : α) : Option (List α) := do
  let place ← bisect (staysBefore below sorted x) sorted.length 0 sorted.length
  return sorted.take place ++ x :: sorted.drop place

def insertAll (sorted : List α) : List α → Option (List α)
  | [] => some sorted
  | x :: rest => do
    let sorted ← insert below sorted x
    insertAll sorted rest

-- The least length of a run: the size halved until it is below 64, one more if a halving left a
-- remainder.
def leastRun : (steps : Nat) → (odd : Bool) → (size : Nat) → Nat
  | 0, odd, size => size + odd.toNat
  | steps + 1, odd, size =>
    if size < 64 then size + odd.toNat else leastRun steps (odd || size % 2 == 1) (size / 2)

def runs (least : Nat) : (steps : Nat) → List α → Option (List (List α))
  | 0, _ => some []
  | _ + 1, [] => some []
  | steps + 1, items => do
    let (run, rest) ← firstRun below items
    let missing := least - run.length
    let run ← insertAll below run (rest.take missing)
    let others ← runs least steps (rest.drop missing)
    return run :: others

end

end Assignability.Sorting
