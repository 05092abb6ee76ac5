import Assignability.Document.Entries
import Assignability.Fault
import Assignability.Number.Shortest
import Assignability.Number.Word
import Assignability.Sorting.Merge

namespace Assignability.Json

-- Keys that are numbers, truth values or absent are written as text, and tuples as lists. A schema
-- inside the data cannot be written.

structure Format where
  itemSeparator : String := ", "
  -- Absent when what was given is no text; then no text can be put together.
  keySeparator : Option String := some ": "
  -- What a level is indented by; absent, everything stands on one line.
  indent : Option String := none
  sortKeys : Bool := false
  skipKeys : Bool := false
  asciiOnly : Bool := true
  allowNan : Bool := true

namespace Format

-- What is written holds no cycle and a schema in it has no other form, so `check_circular` and
-- `default` change nothing.
def optionNames : List String :=
  ["skipkeys", "ensure_ascii", "check_circular", "allow_nan", "cls", "indent", "separators",
    "default", "sort_keys"]

def checkOptions (options : List (String × Value)) : Except Fault Unit :=
  if options.all fun (name, value) => optionNames.contains name && (name != "cls" || value.isNull)
  then .ok () else .error .wrongType

def switch (options : List (String × Value)) (name : String) (default : Bool) : Bool :=
  ((options.lookup name).map Value.truth).getD default

def separatorsOf : Value → Except Fault (Option (Value × Value))
  | .null => .ok none
  | v => match v.items? with
    | none => .error .wrongType
    | some [item, key] => .ok (some (item, key))
    | some _ => .error .wrongValue

-- A text stands for itself and a number for so many spaces, none below zero.
def indentOf : Value → Except Fault (Option String)
  | .null => .ok none
  | .scalar (.text s) => .ok (some s)
  | .scalar s => match s.int? with
    | none => .error .wrongType
    | some n =>
      if fitsWord n then .ok (some (String.ofList (List.replicate n.toNat ' ')))
      else .error .tooLarge
  | _ => .error .wrongType

-- An indent makes the item separator end a line. On one line both separators must be texts from the
-- start; else the key separator is looked at when the text is put together.
def withSeparators (f : Format) : Option (Value × Value) → Except Fault Format
  | none => .ok { f with itemSeparator := if f.indent.isSome then "," else ", " }
  | some (.scalar (.text item), .scalar (.text key)) =>
    .ok { f with itemSeparator := item, keySeparator := some key }
  | some (.scalar (.text item), _) =>
    if f.indent.isSome then .ok { f with itemSeparator := item, keySeparator := none }
    else .error .wrongType
  | some _ => .error .wrongType

def ofOptions (options : List (String × Value)) : Except Fault Format := do
  checkOptions options
  let separators ← separatorsOf ((options.lookup "separators").getD .null)
  let indent ← indentOf ((options.lookup "indent").getD .null)
  withSeparators
    { indent
      sortKeys := switch options "sort_keys" false
      skipKeys := switch options "skipkeys" false
      asciiOnly := switch options "ensure_ascii" true
      allowNan := switch options "allow_nan" true } separators

end Format

def escapeUnit (n : Nat) : List Char := '\\' :: 'u' :: Text.hex 4 n

-- A character by code, two units for those beyond the first plane.
def escapeCode (c : Char) : List Char :=
  if c.toNat < 0x10000 then escapeUnit c.toNat
  else
    let n := c.toNat - 0x10000
    escapeUnit (0xd800 + n / 0x400) ++ escapeUnit (0xdc00 + n % 0x400)

def escapeChar (asciiOnly : Bool) (c : Char) : List Char :=
  if c == '\"' then ['\\', '\"']
  else if c == '\\' then ['\\', '\\']
  else if c == '\n' then ['\\', 'n']
  else if c == '\r' then ['\\', 'r']
  else if c == '\t' then ['\\', 't']
  else if c == '\x08' then ['\\', 'b']
  else if c == '\x0c' then ['\\', 'f']
  else if c.toNat < 0x20 || (asciiOnly && '~' < c) then escapeCode c
  else [c]

def writeText (asciiOnly : Bool) (s : String) : List Char :=
  '\"' :: (s.toList.flatMap (escapeChar asciiOnly) ++ ['\"'])

def numberLayout : Binary64.Layout :=
  { Binary64.Layout.standard with nan := "NaN", infinity := "Infinity" }

def writeReal (allowNan : Bool) (x : Binary64) : Except Fault (List Char) :=
  match x with
  | .finite .. => .ok (numberLayout.text x).toList
  | _ => if allowNan then .ok (numberLayout.text x).toList else .error .wrongValue

def writeInt (n : Int) : List Char :=
  if n < 0 then '-' :: Nat.toDigits 10 n.natAbs else Nat.toDigits 10 n.natAbs

def writeBool (b : Bool) : List Char := (if b then "true" else "false").toList

def writeScalar (f : Format) : Scalar → Except Fault (List Char)
  | .bool b => .ok (writeBool b)
  | .int n => .ok (writeInt n)
  | .real x => writeReal f.allowNan x
  | .text s => .ok (writeText f.asciiOnly s)

def keyText (f : Format) : Value → Except Fault String
  | .scalar (.text s) => .ok s
  | .scalar s => (writeScalar f s).map String.ofList
  | .null => .ok "null"
  | _ => .error .wrongType

def lineBreak (f : Format) (level : Nat) : List Char :=
  match f.indent with
  | none => []
  | some indent => '\n' :: (List.replicate level indent.toList).flatten

def enclose (f : Format) (level : Nat) (opening closing : Char) (items : List (List Char)) :
    List Char :=
  let separator := f.itemSeparator.toList ++ lineBreak f (level + 1)
  opening :: (lineBreak f (level + 1) ++ separator.intercalate items ++
    lineBreak f level ++ [closing])

def sortMembers {α : Type} (members : List (Value × α)) : Except Fault (List (Value × α)) :=
  match Sorting.sort? (fun a b => a.1.below? b.1) members with
  | some sorted => .ok sorted
  | none => .error .wrongType

def isWritableKey : Value → Bool
  | .null => true
  | .scalar _ => true
  | _ => false

-- One member after another; the first that cannot be written is the fault.
def joinMembers (f : Format) : List (Value × Except Fault (List Char)) →
    Except Fault (List (List Char))
  | [] => .ok []
  | (key, written) :: rest =>
    if f.skipKeys && !isWritableKey key then joinMembers f rest
    else do
      let name ← keyText f key
      let written ← written
      let rest ← joinMembers f rest
      return (writeText f.asciiOnly name ++ (f.keySeparator.getD "").toList ++ written) :: rest

def writeMembers (f : Format) (level : Nat) :
    List (Value × Except Fault (List Char)) → Except Fault (List Char)
  | [] => return ['\x7b', '\x7d']
  | members => do
    let members ← if f.sortKeys then sortMembers members else .ok members
    let items ← joinMembers f members
    return enclose f level '\x7b' '\x7d' items

def writeItems (f : Format) (level : Nat) : List (List Char) → List Char
  | [] => ['[', ']']
  | items => enclose f level '[' ']' items

mutual

def write (f : Format) (level : Nat) : Value → Except Fault (List Char)
  | .null => return "null".toList
  | .scalar s => writeScalar f s
  | .list items => do
    let items ← writeAll f (level + 1) items
    return writeItems f level items
  | .tuple items => do
    let items ← writeAll f (level + 1) items
    return writeItems f level items
  | .table entries => writeMembers f level (writeValues f (level + 1) entries)
  | .schema _ => .error .wrongType
termination_by structural x => x

def writeAll (f : Format) (level : Nat) : List Value → Except Fault (List (List Char))
  | [] => return []
  | v :: rest => do
    let first ← write f level v
    let rest ← writeAll f level rest
    return first :: rest
termination_by structural x => x

def writeValues (f : Format) (level : Nat) : Entries → List (Value × Except Fault (List Char))
  | [] => []
  | (k, v) :: rest => (k, write f level v) :: writeValues f level rest
termination_by structural x => x

end

def render (f : Format) (v : Value) : Except Fault String := do
  let written ← write f 0 v
  if f.keySeparator.isSome then return String.ofList written else .error .wrongType

end Assignability.Json
