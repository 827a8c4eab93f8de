import ClientTypes.Toml.Text

/-!
# Tokens of TOML text

`scan?` cuts a document into words, strings, punctuation and line ends; blanks and comments fall
away. A run of key characters, points and signs is one word, which is taken apart where a key is
read. A bracket knows whether the same bracket follows it at once.
-/

namespace ClientTypes.Toml

inductive Token where
  | word (chars : List Char)
  | quoted (text : String) (long : Bool)
  | openBracket (doubled : Bool)
  | closeBracket (doubled : Bool)
  | openBrace
  | closeBrace
  | comma
  | equals
  | lineEnd
deriving DecidableEq, Repr, Inhabited

/-- May occur in a word. -/
def isWordChar (c : Char) : Bool :=
  c.isAlphanum || c == '_' || c == '-' || c == '+' || c == '.' || c == ':'

/-- Whether a word has the form of a date, so that a time may follow after one blank. -/
def isDateLike (cs : List Char) : Bool :=
  match cs with
  | [a, b, c, d, '-', e, f, '-', g, h] => [a, b, c, d, e, f, g, h].all Char.isDigit
  | _ => false

/-- Cuts a word, and with a date the time after it. -/
def cutWord (cs : List Char) : List Char × List Char :=
  let word := cs.takeWhile isWordChar
  let rest := cs.dropWhile isWordChar
  match rest with
  | ' ' :: d :: more =>
    if isDateLike word && d.isDigit then
      (word ++ ' ' :: (d :: more).takeWhile isWordChar, (d :: more).dropWhile isWordChar)
    else (word, rest)
  | _ => (word, rest)

/-- A string at the front of some text, from its first quote on. -/
def cutString? (cs : List Char) : Option (Token × List Char) :=
  let token (long : Bool) : List Char × List Char → Token × List Char := fun (content, rest) =>
    (.quoted (String.ofList content) long, rest)
  let skipBreak (cs : List Char) : List Char := (afterLineBreak? cs).getD cs
  match cs with
  | '"' :: '"' :: '"' :: cs => (scanLongBasic cs.length (skipBreak cs)).map (token true)
  | '"' :: cs => (scanBasic cs.length cs).map (token false)
  | '\'' :: '\'' :: '\'' :: cs => (scanLongLiteral cs.length (skipBreak cs)).map (token true)
  | '\'' :: cs => (scanLiteral cs).map (token false)
  | _ => none

/-- The token at the front of some text, if it begins with one. -/
def cutToken? (cs : List Char) : Option (Token × List Char) :=
  match cs with
  | '[' :: cs => some (.openBracket (cs.head? == some '['), cs)
  | ']' :: cs => some (.closeBracket (cs.head? == some ']'), cs)
  | '{' :: cs => some (.openBrace, cs)
  | '}' :: cs => some (.closeBrace, cs)
  | ',' :: cs => some (.comma, cs)
  | '=' :: cs => some (.equals, cs)
  | '"' :: _ | '\'' :: _ => cutString? cs
  | c :: _ =>
    match afterLineBreak? cs with
    | some rest => some (.lineEnd, rest)
    | none =>
      if isWordChar c then
        let (word, rest) := cutWord cs
        some (.word word, rest)
      else none
  | [] => none

/-- The tokens of a text of at most `fuel` characters. -/
def scanFrom? (fuel : Nat) (cs : List Char) : Option (List Token) :=
  match fuel, cs with
  | _, [] => some []
  | 0, _ => none
  | fuel + 1, c :: rest =>
    if isSpace c then scanFrom? fuel rest
    else if c = '#' then scanFrom? fuel (rest.dropWhile isTextChar)
    else (cutToken? (c :: rest)).bind fun (token, rest) => (scanFrom? fuel rest).map (token :: ·)

/-- The tokens of a document. A byte order mark at its front does not count. -/
def scan? (text : String) : Option (List Token) :=
  match text.toList with
  | '\ufeff' :: cs => scanFrom? cs.length cs
  | cs => scanFrom? cs.length cs

end ClientTypes.Toml
