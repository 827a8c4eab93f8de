import ClientTypes.Text.Split
import ClientTypes.Toml.Document
import ClientTypes.Toml.Token
import ClientTypes.Toml.Word

/-!
# Reading TOML

Lines are read from tokens and added to the document one by one. Every call of a reader consumes a
token, so the number of tokens bounds the work; nesting is bounded besides.

## Main definitions

* `readKey?`, `readValue?` — a dotted key and a value at the front of some tokens
* `Toml.parse?` — the contents of a document
-/

namespace ClientTypes.Toml

/-- How many parts a key has at most, and how many containers may be nested at most. -/
def nestingLimit : Nat := 79

/-! ## Keys -/

/-- A part of a key, or the point between two parts. -/
inductive KeyPiece where
  | part (text : String)
  | point
deriving DecidableEq, Repr

def isBareKeyChar (c : Char) : Bool := c.isAlphanum || c == '_' || c == '-'

/-- Takes a word apart at its points. -/
def wordPieces (cs : List Char) : Option (List KeyPiece) :=
  let parts := Text.split '.' cs
  if parts.all (·.all isBareKeyChar) then
    some <| ((parts.map fun p => [KeyPiece.part (String.ofList p)]).intersperse [.point]).flatten
      |>.filter (· ≠ .part "")
  else none

/-- The pieces at the front of some tokens, and what follows them. -/
def keyPieces? : List Token → Option (List KeyPiece × List Token)
  | .word cs :: ts => do
    let pieces ← wordPieces cs
    let (more, rest) ← keyPieces? ts
    return (pieces ++ more, rest)
  | .quoted text long :: ts => do
    if long then none
    let (more, rest) ← keyPieces? ts
    return (.part text :: more, rest)
  | ts => some ([], ts)

/-- The parts of a key: one, or several with a point between each two. -/
def keyParts? : List KeyPiece → Option (List String)
  | [.part text] => some [text]
  | .part text :: .point :: pieces => (keyParts? pieces).map (text :: ·)
  | _ => none

/-- Reads a dotted key. -/
def readKey? (ts : List Token) : Option (List String × List Token) := do
  let (pieces, rest) ← keyPieces? ts
  let path ← keyParts? pieces
  if path.length ≤ nestingLimit then some (path, rest) else none

/-! ## Values -/

def skipLineEnds (ts : List Token) : List Token := ts.dropWhile (· = .lineEnd)

mutual

/-- Reads a value in which `room` containers may be nested. -/
def readValue? (fuel room : Nat) (ts : List Token) : Option (Toml × List Token) :=
  match fuel, ts with
  | 0, _ => none
  | _, .word cs :: ts => (word? cs).map (·, ts)
  | _, .quoted text _ :: ts => some (.string text, ts)
  | fuel + 1, .openBracket _ :: ts =>
    if room = 0 then none else readItems? fuel (room - 1) [] (skipLineEnds ts)
  | fuel + 1, .openBrace :: ts =>
    if room = 0 then none
    else match ts with
      | .closeBrace :: ts => some (.table .inline [], ts)
      | ts => readEntries? fuel (room - 1) [] ts
  | _, _ => none

/-- Reads the items of an array after those that are done; a comma may follow the last one. -/
def readItems? (fuel room : Nat) (done : List Toml) (ts : List Token) :
    Option (Toml × List Token) :=
  match fuel, ts with
  | 0, _ => none
  | _, .closeBracket _ :: ts => some (.array done, ts)
  | fuel + 1, ts => do
    let (value, rest) ← readValue? fuel room ts
    match skipLineEnds rest with
    | .comma :: rest => readItems? fuel room (done ++ [value]) (skipLineEnds rest)
    | .closeBracket _ :: rest => return (.array (done ++ [value]), rest)
    | _ => none

/-- Reads the entries of an inline table after those that are done. -/
def readEntries? (fuel room : Nat) (done : Entries) (ts : List Token) :
    Option (Toml × List Token) :=
  match fuel with
  | 0 => none
  | fuel + 1 => do
    match ← readKey? ts with
    | (path, .equals :: rest) =>
      let (value, rest) ← readValue? fuel room rest
      let entries ← insert? done value path
      match rest with
      | .comma :: rest => readEntries? fuel room entries rest
      | .closeBrace :: rest => return (.table .inline entries, rest)
      | _ => none
    | _ => none

end

/-! ## Lines -/

/-- What follows the end of a line. -/
def afterLine? : List Token → Option (List Token)
  | [] => some []
  | .lineEnd :: ts => some ts
  | _ => none

/-- Reads a header after its opening brackets and opens its table. -/
def readHeader? (ts : List Token) (root : Entries) :
    Option (List String × Entries × List Token) := do
  let (path, rest) ← readKey? ts
  match rest with
  | .closeBracket _ :: rest => return (path, ← openTable? root path, ← afterLine? rest)
  | _ => none

/-- Reads a header in double brackets and opens its element. -/
def readElementHeader? (ts : List Token) (root : Entries) :
    Option (List String × Entries × List Token) := do
  let (path, rest) ← readKey? ts
  match rest with
  | .closeBracket true :: .closeBracket _ :: rest =>
    return (path, ← openElement? root path, ← afterLine? rest)
  | _ => none

/-- Reads a line that sets a key in the table at the path `here`. -/
def readSetting? (ts : List Token) (here : List String) (root : Entries) :
    Option (Entries × List Token) := do
  match ← readKey? ts with
  | (path, .equals :: rest) =>
    let (value, rest) ← readValue? ts.length nestingLimit rest
    return (← update? (insert? · value path) root here, ← afterLine? rest)
  | _ => none

/-- Reads the lines of a document, the settings among them in the table at the path `here`. -/
def readLines? (fuel : Nat) (here : List String) (root : Entries) (ts : List Token) :
    Option Entries :=
  match fuel, ts with
  | _, [] => some root
  | 0, _ => none
  | fuel + 1, .lineEnd :: ts => readLines? fuel here root ts
  | fuel + 1, .openBracket true :: .openBracket _ :: ts => do
    let (path, root, rest) ← readElementHeader? ts root
    readLines? fuel path root rest
  | fuel + 1, .openBracket _ :: ts => do
    let (path, root, rest) ← readHeader? ts root
    readLines? fuel path root rest
  | fuel + 1, ts => do
    let (root, rest) ← readSetting? ts here root
    readLines? fuel here root rest

/-- The contents of a document. -/
def parse? (text : String) : Option Entries := do
  let tokens ← scan? text
  readLines? tokens.length [] [] tokens

end ClientTypes.Toml
