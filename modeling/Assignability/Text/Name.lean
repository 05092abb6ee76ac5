import Assignability.Text.Printable

namespace Assignability.Text

-- Beyond ASCII every printable character counts as a letter.

def isNameStart (c : Char) : Bool :=
  c.isAlpha || c == '_' || ('\x7f' < c && isPrintable c)

def isNamePart (c : Char) : Bool := isNameStart c || c.isDigit

def reservedWords : List String :=
  ["False", "None", "True", "and", "as", "assert", "async", "await", "break", "class", "continue",
    "def", "del", "elif", "else", "except", "finally", "for", "from", "global", "if", "import",
    "in", "is", "lambda", "nonlocal", "not", "or", "pass", "raise", "return", "try", "while",
    "with", "yield", "__debug__"]

def isName (s : String) : Bool :=
  match s.toList with
  | [] => false
  | c :: rest => isNameStart c && rest.all isNamePart && !reservedWords.contains s

def isBlank (c : Char) : Bool := [' ', '\t', '\n', '\r', '\x0c'].contains c

def trimEnd (s : String) : String :=
  String.ofList (s.toList.reverse.dropWhile isBlank).reverse

end Assignability.Text
