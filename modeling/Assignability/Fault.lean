import Assignability.Schema.Display

namespace Assignability

inductive TextProblem where
  | expectedValue
  | expectedName
  | expectedColon
  | expectedComma
  | controlCharacter
  | unterminated
  | badEscape
  | badCodeEscape
  | extraData
  | byteOrderMark
deriving DecidableEq, Repr

def TextProblem.message : TextProblem → String
  | .expectedValue => "Expecting value"
  | .expectedName => "Expecting property name enclosed in double quotes"
  | .expectedColon => "Expecting ':' delimiter"
  | .expectedComma => "Expecting ',' delimiter"
  | .controlCharacter => "Invalid control character at"
  | .unterminated => "Unterminated string starting at"
  | .badEscape => "Invalid \\escape"
  | .badCodeEscape => "Invalid \\uXXXX escape"
  | .extraData => "Extra data"
  | .byteOrderMark => "Unexpected UTF-8 BOM (decode using utf-8-sig)"

structure Position where
  offset : Nat
  line : Nat
  column : Nat
deriving DecidableEq, Repr

def Position.ofOffset (text : List Char) (offset : Nat) : Position :=
  let before := text.take offset
  { offset
    line := before.count '\n' + 1
    column := (before.reverse.takeWhile (· != '\n')).length + 1 }

inductive SettingProblem where
  | notTruth
  | notWord
  | unexpected
deriving DecidableEq, Repr

inductive Fault where
  | unresolved (target : Value)
  | endlessChain (target : Value)
  | unknownKind (kind : Value)
  | unhandledKind (traversal : String) (kind : Kind)
  | missingKey (key : String)
  | malformed (problem : TextProblem) (position : Position)
  | raised (message : String)
  | notLiteral (typeName : String)
  | missingKind (data : Value)
  | kindTaken (kind holder : String)
  | kindBuiltin (kind : String)
  | noId
  | invalidSettings (problems : List (String × SettingProblem))
  -- Data of a form that the operation does not take.
  | wrongType
  -- Data of the right form with a value that the operation does not take.
  | wrongValue
  -- Data without the part that the operation asks for.
  | noAttribute
  -- A text that is no name where a name is needed.
  | badName
  -- A number beyond what a length can be.
  | tooLarge
  -- Nested beyond the depth allowed.
  | tooDeep

instance : Inhabited Fault := ⟨.wrongType⟩

namespace Fault

def message? : Fault → Option String
  | .unresolved target =>
    some ("Unable to dereference schema with $id '" ++ target.display ++ "'")
  | .endlessChain target =>
    some ("Unable to dereference schema with $id '" ++ target.display ++
      "': reference chain does not reach a schema")
  | .unknownKind kind => some ("Unknown type '" ++ kind.display ++ "'")
  | .unhandledKind traversal kind =>
    some (traversal ++ " does not handle kind '" ++ kind.name ++ "'")
  | .missingKey key => some (Text.quote key)
  | .malformed problem position =>
    some (problem.message ++ ": line " ++ toString position.line ++ " column " ++
      toString position.column ++ " (char " ++ toString position.offset ++ ")")
  | .raised message => some message
  | .notLiteral typeName =>
    some ("Literal values must be str, int, float or bool, got <class '" ++ typeName ++ "'>")
  | .missingKind data => some ("Missing 'kind' in schema data: " ++ data.quoted)
  | .kindTaken kind holder =>
    some ("Kind '" ++ kind ++ "' already registered to <class '" ++ holder ++
      "'>. Choose a different kind.")
  | .kindBuiltin kind => some ("Kind '" ++ kind ++ "' is built in and cannot be registered")
  | .noId => some "Reference target schema must specify an id"
  | .invalidSettings _ => none
  | .wrongType => none
  | .wrongValue => none
  | .noAttribute => none
  | .badName => none
  | .tooLarge => none
  | .tooDeep => none

end Fault

end Assignability
