/-!
# Characters and strings of TOML

Readers of the four kinds of strings. Each takes the text after the opening quotes and returns the
content and what follows the closing quotes.
-/

namespace ClientTypes.Toml

/-- May stand in a comment or string: anything but control characters, tab excepted. -/
def isTextChar (c : Char) : Bool := c == '\t' || (' ' ≤ c && c != '\x7f')

def isSpace (c : Char) : Bool := c == ' ' || c == '\t'

/-- The character of a hexadecimal escape, if the code is one of a character. -/
def codePoint? (digits : List Char) : Option Char :=
  let step (n : Option Nat) (c : Char) : Option Nat :=
    n.bind fun n =>
      if c.isDigit then some (16 * n + (c.toNat - '0'.toNat))
      else if 'a' ≤ c && c ≤ 'f' then some (16 * n + (c.toNat - 'a'.toNat + 10))
      else if 'A' ≤ c && c ≤ 'F' then some (16 * n + (c.toNat - 'A'.toNat + 10))
      else none
  (digits.foldl step (some 0)).bind fun n => if n.isValidChar then some (Char.ofNat n) else none

/-- The character of a one-letter escape. -/
def escapedChar? : Char → Option Char
  | 'b' => some '\x08'
  | 't' => some '\t'
  | 'n' => some '\n'
  | 'f' => some '\x0c'
  | 'r' => some '\r'
  | '"' => some '"'
  | '\\' => some '\\'
  | _ => none

/-- The character that an escape stands for, and what follows it; the backslash is read already. -/
def scanEscape : List Char → Option (Char × List Char)
  | 'u' :: a :: b :: c :: d :: cs => (codePoint? [a, b, c, d]).map (·, cs)
  | 'U' :: a :: b :: c :: d :: e :: f :: g :: h :: cs =>
    (codePoint? [a, b, c, d, e, f, g, h]).map (·, cs)
  | e :: cs => (escapedChar? e).map (·, cs)
  | [] => none

/-- Content and rest with a character in front of the content. -/
def withChar (c : Char) : Option (List Char × List Char) → Option (List Char × List Char) :=
  Option.map fun (content, rest) => (c :: content, rest)

/-- A string on one line with escapes; at most `fuel` characters are read. -/
def scanBasic (fuel : Nat) (cs : List Char) : Option (List Char × List Char) :=
  match fuel, cs with
  | 0, _ | _, [] => none
  | _, '"' :: cs => some ([], cs)
  | fuel + 1, '\\' :: cs => (scanEscape cs).bind fun (c, rest) => withChar c (scanBasic fuel rest)
  | fuel + 1, c :: cs => if isTextChar c then withChar c (scanBasic fuel cs) else none

/-- A string on one line without escapes. -/
def scanLiteral : List Char → Option (List Char × List Char)
  | [] => none
  | '\'' :: cs => some ([], cs)
  | c :: cs => if isTextChar c then withChar c (scanLiteral cs) else none

/-- What follows one line break. -/
def afterLineBreak? : List Char → Option (List Char)
  | '\n' :: cs => some cs
  | '\r' :: '\n' :: cs => some cs
  | _ => none

/-- Drops blanks and line breaks. -/
def dropLines : List Char → List Char
  | ' ' :: cs => dropLines cs
  | '\t' :: cs => dropLines cs
  | '\n' :: cs => dropLines cs
  | '\r' :: '\n' :: cs => dropLines cs
  | cs => cs

/-- A string over several lines with escapes. A backslash at the end of a line joins the lines. Up
to two quotes may stand right before the closing ones. -/
def scanLongBasic (fuel : Nat) (cs : List Char) : Option (List Char × List Char) :=
  match fuel, cs with
  | 0, _ | _, [] => none
  | _, '"' :: '"' :: '"' :: '"' :: '"' :: cs => some (['"', '"'], cs)
  | _, '"' :: '"' :: '"' :: '"' :: cs => some (['"'], cs)
  | _, '"' :: '"' :: '"' :: cs => some ([], cs)
  | fuel + 1, '\\' :: cs =>
    if (afterLineBreak? (cs.dropWhile isSpace)).isSome then scanLongBasic fuel (dropLines cs)
    else (scanEscape cs).bind fun (c, rest) => withChar c (scanLongBasic fuel rest)
  | fuel + 1, c :: cs =>
    match afterLineBreak? (c :: cs) with
    | some rest => withChar '\n' (scanLongBasic fuel rest)
    | none => if isTextChar c then withChar c (scanLongBasic fuel cs) else none

/-- A string over several lines without escapes. -/
def scanLongLiteral (fuel : Nat) (cs : List Char) : Option (List Char × List Char) :=
  match fuel, cs with
  | 0, _ | _, [] => none
  | _, '\'' :: '\'' :: '\'' :: '\'' :: '\'' :: cs => some (['\'', '\''], cs)
  | _, '\'' :: '\'' :: '\'' :: '\'' :: cs => some (['\''], cs)
  | _, '\'' :: '\'' :: '\'' :: cs => some ([], cs)
  | fuel + 1, c :: cs =>
    match afterLineBreak? (c :: cs) with
    | some rest => withChar '\n' (scanLongLiteral fuel rest)
    | none => if isTextChar c then withChar c (scanLongLiteral fuel cs) else none

end ClientTypes.Toml
