import Assignability.Number.Shortest
import Assignability.Schema.Basic
import Assignability.Text.Quoted

namespace Assignability

-- Text on its own is bare, text inside other data is quoted.

def Scalar.display : Scalar → String
  | .bool b => if b then "True" else "False"
  | .int n => toString n
  | .real x => x.text
  | .text s => Text.quote s

mutual

def Value.quoted : Value → String
  | .null => "None"
  | .scalar s => s.display
  | .list items => "[" ++ Value.quotedAll items ++ "]"
  | .tuple [item] => "(" ++ Value.quoted item ++ ",)"
  | .tuple items => "(" ++ Value.quotedAll items ++ ")"
  | .table entries => "\x7b" ++ Value.quotedEntries entries ++ "\x7d"
  | .schema s => s.kind.name

def Value.quotedAll : List Value → String
  | [] => ""
  | [v] => Value.quoted v
  | v :: vs => Value.quoted v ++ ", " ++ Value.quotedAll vs

def Value.quotedEntries : List (Value × Value) → String
  | [] => ""
  | [(k, v)] => Value.quoted k ++ ": " ++ Value.quoted v
  | (k, v) :: es => Value.quoted k ++ ": " ++ Value.quoted v ++ ", " ++ Value.quotedEntries es

end

def Value.display : Value → String
  | .scalar (.text s) => s
  | v => v.quoted

end Assignability
