import Assignability.Number.Shortest
import Assignability.Schema.Basic

namespace Assignability

def Scalar.interpolated : Scalar → String
  | .bool b => if b then "true" else "false"
  | .int n => toString n
  | .real x => match x.toInt? with
    | some n => toString n
    | none => x.text
  | .text s => s

namespace Template

def addNew (known : List String) : List String → List String
  | [] => known
  | s :: rest => addNew (if known.contains s then known else known ++ [s]) rest

-- All concatenations of a string of the first list with one of the second, the first varying
-- slowest.
def joinAll (heads tails : List String) : List String :=
  heads.flatMap fun head => tails.map fun tail => head ++ tail

mutual

-- The strings a schema stands for inside a template; none when they are not finitely many.
def expand : Schema → Option (List String)
  | .mk _ _ _ shape => expandShape shape

def expandShape : Shape → Option (List String)
  | .literal value => some [value.interpolated]
  | .basic .boolean => some ["true", "false"]
  | .union variants => expandVariants [] variants
  | .template parts => expandParts parts
  | _ => none

def expandVariants (known : List String) : List Schema → Option (List String)
  | [] => some known
  | v :: vs =>
    match expand v with
    | none => none
    | some strings => expandVariants (addNew known strings) vs

def expandParts : List Part → Option (List String)
  | [] => some [""]
  | .text s :: rest => (expandParts rest).map (joinAll [s])
  | .schema v :: rest =>
    match expand v with
    | none => none
    | some strings => (expandParts rest).map (joinAll strings)

end

def resolve (parts : List Part) : Schema :=
  match expandParts parts with
  | none => Schema.basic .string
  | some [s] => Schema.plain (.literal (.text s))
  | some strings =>
    Schema.plain (.union (strings.map fun s => Schema.plain (.literal (.text s))))

end Template

end Assignability
