import ClientTypes.Text.Char

/-!
# Identifiers and property keys

How names become property keys, import aliases and field names.

## Main definitions

* `propertyKey` — a name as a key of an object type, quoted unless it is an identifier
* `sanitize` — any text as an identifier that may be bound
* `capitalize`, `lowerLeading` — the exported and the wire spelling of a name
-/

namespace ClientTypes.Text

/-- May stand first in an unquoted property key. -/
def isKeyStart (c : Char) : Bool := c.isAlpha || c == '_' || c == '$'

/-- May stand in an unquoted property key. -/
def isKeyPart (c : Char) : Bool := c.isAlphanum || c == '_' || c == '$'

/-- A key must be quoted unless it is a non-empty ASCII identifier. -/
def needsQuotes (name : String) : Bool :=
  match name.toList with
  | [] => true
  | c :: cs => !(isKeyStart c && (c :: cs).all isKeyPart)

/-- Writes a backslash before every backslash and every double quote. -/
def escapeChars : List Char → List Char
  | [] => []
  | c :: cs => if c = '\\' ∨ c = '"' then '\\' :: c :: escapeChars cs else c :: escapeChars cs

/-- Writes a backslash before every backslash and every double quote. -/
def escape (s : String) : String := String.ofList (escapeChars s.toList)

/-- A name as a property key. -/
def propertyKey (name : String) : String :=
  if needsQuotes name then "\"" ++ escape name ++ "\"" else name

/-- Words that cannot be bound as the alias of an import. -/
def reservedWords : List String :=
  ["await", "break", "case", "catch", "class", "const", "continue", "debugger", "default",
   "delete", "do", "else", "enum", "export", "extends", "false", "finally", "for", "function",
   "if", "implements", "import", "in", "instanceof", "interface", "let", "new", "null",
   "package", "private", "protected", "public", "return", "static", "super", "switch", "this",
   "throw", "true", "try", "typeof", "var", "void", "while", "with", "yield"]

/-- Text as an identifier: every other character becomes an underscore, a leading digit and a
reserved word get one in front. -/
def sanitize (text : String) : String :=
  match text.toList.map fun c => if c.isAlphanum then c else '_' with
  | [] => "_empty"
  | c :: cs =>
    let word := String.ofList (if c.isDigit then '_' :: c :: cs else c :: cs)
    if word ∈ reservedWords then "_" ++ word else word

/-- The name with its first character in upper case. -/
def capitalize (name : String) : String :=
  match name.toList with
  | [] => ""
  | c :: cs => String.ofList (upper c ++ cs)

/-- How many characters of a name are lowered: its leading capitals, without the last of several
when that one starts the next word. -/
def leadingCapitals (cs : List Char) : Nat :=
  let run := (cs.takeWhile isUppercase).length
  if run = cs.length ∨ run ≤ 1 then run else run - 1

/-- The name with its leading capitals in lower case: `ID` is `id`, `UserID` is `userID` and
`HTTPServer` is `httpServer`. -/
def lowerLeading (name : String) : String :=
  let cs := name.toList
  let n := leadingCapitals cs
  String.ofList ((cs.take n).flatMap lower ++ cs.drop n)

end ClientTypes.Text
