import Assignability.Document.Entries
import Assignability.Fault
import Assignability.Number.Reading
import Assignability.Schema.Placement

namespace Assignability.Json

-- A fault says where it arose by the number of characters left there.

-- A fault and how many characters were left.
structure Complaint where
  problem : TextProblem
  left : Nat
deriving DecidableEq, Repr

def complain {α : Type} (problem : TextProblem) (left : Nat) : Except Complaint α :=
  .error ⟨problem, left⟩

def isBlank (c : Char) : Bool := c == ' ' || c == '\t' || c == '\n' || c == '\r'

def skipBlanks (cs : List Char) : List Char := cs.dropWhile isBlank

def hexDigit? (c : Char) : Option Nat :=
  if '0' ≤ c && c ≤ '9' then some (c.toNat - '0'.toNat)
  else if 'a' ≤ c && c ≤ 'f' then some (c.toNat - 'a'.toNat + 10)
  else if 'A' ≤ c && c ≤ 'F' then some (c.toNat - 'A'.toNat + 10)
  else none

def unit? : List Char → Option (Nat × List Char)
  | a :: b :: c :: d :: e :: rest => do
    let a ← hexDigit? a
    let b ← hexDigit? b
    let c ← hexDigit? c
    let d ← hexDigit? d
    return (((a * 16 + b) * 16 + c) * 16 + d, e :: rest)
  | _ => none

def isHighUnit (n : Nat) : Bool := 0xd800 ≤ n && n < 0xdc00

def isLowUnit (n : Nat) : Bool := 0xdc00 ≤ n && n < 0xe000

-- The character of a code unit; half a pair alone has none.
def unitChar (n : Nat) : Char :=
  if isHighUnit n || isLowUnit n then '\ufffd' else Char.ofNat n

def pairChar (high low : Nat) : Char :=
  Char.ofNat (0x10000 + (high - 0xd800) * 0x400 + (low - 0xdc00))

def readPair (high : Nat) (cs : List Char) : Except Complaint (Char × List Char) :=
  match cs with
  | '\\' :: 'u' :: rest =>
    if cs.length < 7 then .ok (unitChar high, cs)
    else
      match unit? rest with
      | none => complain .badCodeEscape (rest.length + 1)
      | some (low, after) =>
        if isLowUnit low then .ok (pairChar high low, after) else .ok (unitChar high, cs)
  | _ => .ok (unitChar high, cs)

def readCode (cs : List Char) : Except Complaint (Char × List Char) :=
  match unit? cs with
  | none => complain .badCodeEscape (cs.length + 1)
  | some (n, after) => if isHighUnit n then readPair n after else .ok (unitChar n, after)

def simpleEscape? : Char → Option Char
  | '\"' => some '\"'
  | '\\' => some '\\'
  | '/' => some '/'
  | 'b' => some '\x08'
  | 'f' => some '\x0c'
  | 'n' => some '\n'
  | 'r' => some '\r'
  | 't' => some '\t'
  | _ => none

-- What follows a backslash, in a text whose quote had `start` characters left.
def readEscape (start : Nat) : List Char → Except Complaint (Char × List Char)
  | [] => complain .unterminated start
  | 'u' :: rest => readCode rest
  | c :: rest => match simpleEscape? c with
    | some e => .ok (e, rest)
    | none => complain .badEscape (rest.length + 2)

def readChars (start : Nat) :
    (steps : Nat) → List Char → Except Complaint (List Char × List Char)
  | 0, _ => complain .unterminated start
  | _ + 1, [] => complain .unterminated start
  | steps + 1, c :: rest =>
    if c == '\"' then .ok ([], rest)
    else if c == '\\' then do
      let (first, rest) ← readEscape start rest
      let (more, rest) ← readChars start steps rest
      return (first :: more, rest)
    else if c.toNat < 0x20 then complain .controlCharacter (rest.length + 1)
    else do
      let (more, rest) ← readChars start steps rest
      return (c :: more, rest)

def readText (cs : List Char) : Except Complaint (String × List Char) := do
  let (chars, rest) ← readChars (cs.length + 1) (cs.length + 1) cs
  return (String.ofList chars, rest)

def words : List (List Char × Value) :=
  [("null".toList, .null), ("true".toList, .bool true), ("false".toList, .bool false),
   ("NaN".toList, .real .sharedNan), ("Infinity".toList, .real (.infinite false)),
   ("-Infinity".toList, .real (.infinite true))]

def word? (cs : List Char) : Option (Value × List Char) :=
  (words.find? fun w => w.1.isPrefixOf cs).map fun w => (w.2, cs.drop w.1.length)

def readAtom (cs : List Char) : Except Complaint (Value × List Char) :=
  match word? cs with
  | some found => .ok found
  | none => match Decimal.scan cs with
    | some (.whole n, rest) => .ok (.int n, rest)
    | some (.scaled x, rest) => .ok (.real x, rest)
    | none => complain .expectedValue cs.length

mutual

def read : (steps : Nat) → List Char → Except Complaint (Value × List Char)
  | 0, cs => complain .expectedValue cs.length
  | steps + 1, cs =>
    match cs with
    | '\"' :: rest => do
      let (s, rest) ← readText rest
      return (.text s, rest)
    | '[' :: rest =>
      match skipBlanks rest with
      | ']' :: rest => .ok (.list [], rest)
      | rest => do
        let (items, rest) ← readItems steps rest
        return (.list items, rest)
    | '\x7b' :: rest =>
      match skipBlanks rest with
      | '\x7d' :: rest => .ok (.table [], rest)
      | rest => do
        let (entries, rest) ← readMembers steps rest
        return (.table (Entries.update [] entries), rest)
    | _ => readAtom cs

-- Items up to the closing bracket; at least one.
def readItems : (steps : Nat) → List Char → Except Complaint (List Value × List Char)
  | 0, cs => complain .expectedValue cs.length
  | steps + 1, cs => do
    let (first, rest) ← read steps cs
    match skipBlanks rest with
    | ']' :: rest => return ([first], rest)
    | ',' :: rest => do
      let (more, rest) ← readItems steps (skipBlanks rest)
      return (first :: more, rest)
    | rest => complain .expectedComma rest.length

-- Members up to the closing brace; at least one.
def readMembers : (steps : Nat) → List Char → Except Complaint (Entries × List Char)
  | 0, cs => complain .expectedValue cs.length
  | steps + 1, cs =>
    match cs with
    | '\"' :: rest => do
      let (name, rest) ← readText rest
      match skipBlanks rest with
      | ':' :: rest => do
        let (value, rest) ← read steps (skipBlanks rest)
        match skipBlanks rest with
        | '\x7d' :: rest => return ([(.text name, value)], rest)
        | ',' :: rest => do
          let (more, rest) ← readMembers steps (skipBlanks rest)
          return ((.text name, value) :: more, rest)
        | rest => complain .expectedComma rest.length
      | rest => complain .expectedColon rest.length
    | cs => complain .expectedName cs.length

end

-- A value with nothing but blanks around it. Every second step takes a character off the text, so
-- its length bounds the steps.
def readWhole (cs : List Char) : Except Complaint Value :=
  match cs with
  | '\ufeff' :: _ => complain .byteOrderMark cs.length
  | _ => do
    let (value, rest) ← read (2 * cs.length + 2) (skipBlanks cs)
    match skipBlanks rest with
    | [] => return value
    | rest => complain .extraData rest.length

def parse (text : String) : Except Fault Value :=
  let cs := text.toList
  match readWhole cs with
  | .ok value => .ok value
  | .error ⟨problem, left⟩ =>
    .error (.malformed problem (Position.ofOffset cs (cs.length - left)))

end Assignability.Json
