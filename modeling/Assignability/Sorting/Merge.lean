import Assignability.Sorting.Runs

namespace Assignability.Sorting

-- A merge goes item by item, and in strides while one side keeps winning; how often it has to win
-- for that is the patience, which merges hand on.

-- How a merge goes on: item by item, with the number of times in a row that each side has won, or
-- in strides.
inductive Pace where
  | steps (left right : Nat)
  | strides

def longStride : Nat := 7

def paceOfWins (patience left right : Nat) : Pace :=
  if patience ≤ left || patience ≤ right then .strides else .steps left right

-- Long strides go on and cost patience; short ones end in single steps and give some back. A merge
-- that ends with its strides leaves the patience as it is.
def paceOfStrides (patience left right : Nat) : Pace × Nat :=
  if longStride ≤ left || longStride ≤ right then (.strides, max 1 (patience - 1))
  else (.steps 0 0, patience + 1)

section

variable {α : Type} (below : Below α)

-- The latest merged comes first. The last item on the left goes behind all others.
def mergeFront : (fuel : Nat) → Pace → (patience : Nat) → (merged left right : List α) →
    Option (List α × Nat)
  | _, _, patience, merged, [], right => some (merged.reverse ++ right, patience)
  | _, _, patience, merged, left, [] => some (merged.reverse ++ left, patience)
  | _, _, patience, merged, [x], right => some (merged.reverse ++ right ++ [x], patience)
  | 0, _, patience, merged, left, right => some (merged.reverse ++ left ++ right, patience)
  | fuel + 1, .steps leftWins rightWins, patience, merged, x :: left, y :: right =>
    match below y x with
    | none => none
    | some true =>
      mergeFront fuel (paceOfWins patience 0 (rightWins + 1)) patience
        (y :: merged) (x :: left) right
    | some false =>
      mergeFront fuel (paceOfWins patience (leftWins + 1) 0) patience
        (x :: merged) left (y :: right)
  | fuel + 1, .strides, patience, merged, left, y :: right => do
    let leftCount ← boundary (staysBefore below left y) left.length 0
    let merged := (left.take leftCount).reverse ++ merged
    match left.drop leftCount, right with
    | [], right => return (merged.reverse ++ y :: right, patience)
    | [x], right => return (merged.reverse ++ y :: right ++ [x], patience)
    | left, [] => return (merged.reverse ++ y :: left, patience)
    | x :: left, right =>
      let rightCount ← boundary (goesBefore below right x) right.length 0
      let merged := (right.take rightCount).reverse ++ y :: merged
      match left, right.drop rightCount with
      | left, [] => return (merged.reverse ++ x :: left, patience)
      | [z], right => return (merged.reverse ++ x :: right ++ [z], patience)
      | left, right =>
        let (pace, patience) := paceOfStrides patience leftCount rightCount
        mergeFront fuel pace patience (x :: merged) left right

-- The same from the back. The first item on the right goes in front of all others.
def mergeBack : (fuel : Nat) → Pace → (patience : Nat) → (merged left right : List α) →
    Option (List α × Nat)
  | _, _, patience, merged, [], right => some (right.reverse ++ merged, patience)
  | _, _, patience, merged, left, [] => some (left.reverse ++ merged, patience)
  | _, _, patience, merged, left, [y] => some (y :: left.reverse ++ merged, patience)
  | 0, _, patience, merged, left, right => some (left.reverse ++ right.reverse ++ merged, patience)
  | fuel + 1, .steps leftWins rightWins, patience, merged, x :: left, y :: right =>
    match below y x with
    | none => none
    | some true =>
      mergeBack fuel (paceOfWins patience (leftWins + 1) 0) patience
        (x :: merged) left (y :: right)
    | some false =>
      mergeBack fuel (paceOfWins patience 0 (rightWins + 1)) patience
        (y :: merged) (x :: left) right
  | fuel + 1, .strides, patience, merged, left, y :: right => do
    let leftStay ← boundary (staysBefore below left.reverse y) left.length (left.length - 1)
    let leftCount := left.length - leftStay
    let merged := (left.take leftCount).reverse ++ merged
    match left.drop leftCount, right with
    | [], right => return (right.reverse ++ y :: merged, patience)
    | left, [] => return (left.reverse ++ y :: merged, patience)
    | left, [z] => return (z :: left.reverse ++ y :: merged, patience)
    | x :: left, right =>
      let rightStay ← boundary (goesBefore below right.reverse x) right.length (right.length - 1)
      let rightCount := right.length - rightStay
      let merged := (right.take rightCount).reverse ++ y :: merged
      match left, right.drop rightCount with
      | left, [] => return (left.reverse ++ x :: merged, patience)
      | left, [z] => return (z :: left.reverse ++ x :: merged, patience)
      | [], right => return (right.reverse ++ x :: merged, patience)
      | left, right =>
        let (pace, patience) := paceOfStrides patience leftCount rightCount
        mergeBack fuel pace patience (x :: merged) left right

def mergeOverlap (patience : Nat) (left right : List α) : Option (List α × Nat) :=
  let fuel := left.length + right.length
  if left.length ≤ right.length then
    match right with
    | [] => some (left, patience)
    | y :: right => mergeFront below fuel (.steps 0 0) patience [y] left right
  else
    match left.reverse, right with
    | [], right => some (right, patience)
    | left, [] => some (left.reverse, patience)
    | x :: left, right => mergeBack below fuel (.steps 0 0) patience [x] left right.reverse

-- What of the left stays in front of all and what of the right stays behind all is set aside first.
def mergeRuns (patience : Nat) (left right : List α) : Option (List α × Nat) :=
  match right with
  | [] => some (left, patience)
  | y :: _ => do
    let front ← boundary (staysBefore below left y) left.length 0
    match (left.drop front).getLast? with
    | none => return (left ++ right, patience)
    | some x =>
      let moved ← boundary (goesBefore below right x) right.length (right.length - 1)
      let (merged, patience) ← mergeOverlap below patience (left.drop front) (right.take moved)
      return (left.take front ++ merged ++ right.drop moved, patience)

structure Pending (α : Type) where
  start : Nat
  items : List α
  power : Nat

def digitsToDiffer (size : Nat) : (steps a b : Nat) → Nat
  | 0, _, _ => 0
  | steps + 1, a, b =>
    if size ≤ a then digitsToDiffer size steps (2 * (a - size)) (2 * (b - size)) + 1
    else if size ≤ b then 1
    else digitsToDiffer size steps (2 * a) (2 * b) + 1

-- How the middles of the two runs differ as fractions of the list.
def powerOf (size : Nat) (run : Pending α) (next : Nat) : Nat :=
  let middle := 2 * run.start + run.items.length
  digitsToDiffer size size middle (middle + run.items.length + next)

def settle (power : Nat) : (patience : Nat) → Pending α → List (Pending α) →
    Option (List (Pending α) × Nat)
  | patience, last, [] => some ([{ last with power }], patience)
  | patience, last, earlier :: rest =>
    if power < earlier.power then do
      let (items, patience) ← mergeRuns below patience earlier.items last.items
      settle power patience { earlier with items } rest
    else some ({ last with power } :: earlier :: rest, patience)

def takeUp (size : Nat) : (patience : Nat) → List (Pending α) → (start : Nat) →
    List (List α) → Option (List (Pending α) × Nat)
  | patience, pending, _, [] => some (pending, patience)
  | patience, [], start, run :: rest =>
    takeUp size patience [⟨start, run, 0⟩] (start + run.length) rest
  | patience, last :: earlier, start, run :: rest => do
    let (pending, patience) ←
      settle below (powerOf size last run.length) patience last earlier
    takeUp size patience (⟨start, run, 0⟩ :: pending) (start + run.length) rest

-- A run between a shorter one before it and a longer one behind goes with the shorter.
def collapse : (fuel patience : Nat) → List (Pending α) → Option (List α)
  | _, _, [] => some []
  | _, _, [run] => some run.items
  | 0, _, pending => some (pending.reverse.flatMap (·.items))
  | fuel + 1, patience, [last, middle] => do
    let (items, patience) ← mergeRuns below patience middle.items last.items
    collapse fuel patience [{ middle with items }]
  | fuel + 1, patience, last :: middle :: earlier :: rest =>
    if earlier.items.length < last.items.length then do
      let (items, patience) ← mergeRuns below patience earlier.items middle.items
      collapse fuel patience (last :: { earlier with items } :: rest)
    else do
      let (items, patience) ← mergeRuns below patience middle.items last.items
      collapse fuel patience ({ middle with items } :: earlier :: rest)

def sort? (items : List α) : Option (List α) := do
  let size := items.length
  let found ← runs below (leastRun size false size) size items
  let (pending, patience) ← takeUp below size longStride [] 0 found
  collapse below found.length patience pending

end

end Assignability.Sorting
