namespace Assignability.Assoc

-- A key that is there keeps its place and takes the new value.
def insertBy {α β : Type} (same : α → α → Bool) (key : α) (value : β) :
    List (α × β) → List (α × β)
  | [] => [(key, value)]
  | (k, v) :: rest =>
    if same k key then (k, value) :: rest else (k, v) :: insertBy same key value rest

def insert {β : Type} (key : String) (value : β) (entries : List (String × β)) :
    List (String × β) :=
  insertBy (· == ·) key value entries

def ofList {β : Type} (pairs : List (String × β)) : List (String × β) :=
  pairs.foldl (fun entries (key, value) => insert key value entries) []

end Assignability.Assoc
