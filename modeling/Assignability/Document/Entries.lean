import Assignability.Assoc
import Assignability.Schema.Key
import Assignability.Schema.Same

namespace Assignability

-- Entries stand in the order in which their keys were first inserted.

abbrev Entries := List (Value × Value)

namespace Entries

def insert (entries : Entries) (key value : Value) : Entries :=
  Assoc.insertBy Value.same key value entries

-- Inserts an entry whose key may be anything; none when it cannot be a key.
def insert? (entries : Entries) (key value : Value) : Option Entries :=
  if key.isKey then some (entries.insert key value) else none

def update (entries added : Entries) : Entries :=
  added.foldl (fun entries (key, value) => entries.insert key value) entries

def find? (entries : Entries) (name : String) : Option Value :=
  (List.find? (fun e => e.1.isText name) entries).map (·.2)

def entry (name : String) (value : Value) : Value × Value := (.text name, value)

end Entries

end Assignability
