import ClientTypes.Json.Basic

/-!
# Writing JSON text

`compact` writes a value on one line without blanks. `pretty` writes one member or item per line,
indented by two blanks per level; an empty container stays on its line.
-/

namespace ClientTypes.Json

/-- A hexadecimal digit in lower case. -/
private def lowerHex (n : Nat) : Char := (Nat.toDigits 16 n).headD '0'

/-- The written form of a character inside a string. -/
def writtenChar (c : Char) : List Char :=
  match c with
  | '"' => ['\\', '"']
  | '\\' => ['\\', '\\']
  | '\n' => ['\\', 'n']
  | '\r' => ['\\', 'r']
  | '\t' => ['\\', 't']
  | '\x08' => ['\\', 'b']
  | '\x0c' => ['\\', 'f']
  | c =>
    if c.toNat < 0x20 then
      ['\\', 'u', '0', '0', lowerHex (c.toNat / 16), lowerHex (c.toNat % 16)]
    else [c]

/-- Text between double quotes. -/
def quoted (s : String) : String := "\"" ++ String.ofList (s.toList.flatMap writtenChar) ++ "\""

private def quotedKey (key : Option String) : String := quoted (key.getD "")

/-- Pieces of text with a separator between them. -/
private def joined (sep : String) : List String → String
  | [] => ""
  | s :: rest => rest.foldl (fun out s => out ++ sep ++ s) s

mutual

/-- The value on one line. -/
def compact : Json → String
  | .null => "null"
  | .bool true => "true"
  | .bool false => "false"
  | .number literal => literal
  | .string text => quotedKey text
  | .array items => "[" ++ joined "," (compactItems items) ++ "]"
  | .object members => "\x7b" ++ joined "," (compactMembers members) ++ "\x7d"

def compactItems : List Json → List String
  | [] => []
  | value :: values => value.compact :: compactItems values

def compactMembers : List (Option String × Json) → List String
  | [] => []
  | (key, value) :: members => (quotedKey key ++ ":" ++ value.compact) :: compactMembers members

end

/-- Parts of a container on lines of their own, one level deeper than its brackets. -/
private def spread (indent : String) (opening closing : String) : List String → String
  | [] => opening ++ closing
  | parts =>
    opening ++ "\n" ++ joined ",\n" (parts.map (indent ++ "  " ++ ·)) ++ "\n" ++ indent ++ closing

mutual

/-- The value over several lines; its first line is not indented. -/
def prettyFrom (indent : String) : Json → String
  | .array items => spread indent "[" "]" (prettyItems (indent ++ "  ") items)
  | .object members => spread indent "\x7b" "\x7d" (prettyMembers (indent ++ "  ") members)
  | .null => "null"
  | .bool true => "true"
  | .bool false => "false"
  | .number literal => literal
  | .string text => quotedKey text

def prettyItems (indent : String) : List Json → List String
  | [] => []
  | value :: values => prettyFrom indent value :: prettyItems indent values

def prettyMembers (indent : String) : List (Option String × Json) → List String
  | [] => []
  | (key, value) :: members =>
    (quotedKey key ++ ": " ++ prettyFrom indent value) :: prettyMembers indent members

end

def pretty (value : Json) : String := prettyFrom "" value

end ClientTypes.Json
