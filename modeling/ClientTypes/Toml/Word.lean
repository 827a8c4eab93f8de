import ClientTypes.Decimal
import ClientTypes.Text.Split
import ClientTypes.Toml.Basic

/-!
# Words of TOML

Values that are written without quotes: booleans, integers of 64 bits in four bases, floats, dates
and times.
-/

namespace ClientTypes.Toml

/-- Digits of a base with single underscores between them; returns them without underscores. -/
def digits? (isDigit : Char → Bool) (cs : List Char) : Option (List Char) :=
  let groups := Text.split '_' cs
  if groups.all fun g => !g.isEmpty && g.all isDigit then some groups.flatten else none

private def digitValue (c : Char) : Nat :=
  if c.isDigit then c.toNat - '0'.toNat
  else if 'a' ≤ c then c.toNat - 'a'.toNat + 10
  else c.toNat - 'A'.toNat + 10

private def valueIn (base : Nat) (ds : List Char) : Nat :=
  ds.foldl (fun n d => base * n + digitValue d) 0

private def isHexDigit (c : Char) : Bool :=
  c.isDigit || ('a' ≤ c && c ≤ 'f') || ('A' ≤ c && c ≤ 'F')

/-- The sign of a number and what follows it. -/
def cutSign : List Char → Bool × List Char
  | '-' :: cs => (true, cs)
  | '+' :: cs => (false, cs)
  | cs => (false, cs)

/-- Decimal digits without a leading zero. -/
def whole? (cs : List Char) : Option (List Char) :=
  (digits? Char.isDigit cs).filter fun ds => ds.length == 1 || ds.head? != some '0'

/-- The integer that a word spells, whatever its size. -/
def integer? : List Char → Option Int
  | '0' :: 'x' :: cs => (digits? isHexDigit cs).map fun ds => (valueIn 16 ds : Int)
  | '0' :: 'o' :: cs =>
    (digits? (fun c => '0' ≤ c && c ≤ '7') cs).map fun ds => (valueIn 8 ds : Int)
  | '0' :: 'b' :: cs =>
    (digits? (fun c => c == '0' || c == '1') cs).map fun ds => (valueIn 2 ds : Int)
  | cs =>
    let (negative, cs) := cutSign cs
    (whole? cs).map fun ds => if negative then -(valueIn 10 ds : Int) else valueIn 10 ds

/-- Whether an integer has 64 bits. -/
def fits (n : Int) : Bool := -9223372036854775808 ≤ n && n ≤ 9223372036854775807

/-- The float that a word spells, sign aside; it has a fraction or an exponent. -/
def decimal? (cs : List Char) : Option Decimal := do
  let isPart (c : Char) : Bool := c.isDigit || c == '_'
  let whole ← whole? (cs.takeWhile isPart)
  let (fraction, rest) ← match cs.dropWhile isPart with
    | '.' :: cs => (digits? Char.isDigit (cs.takeWhile isPart)).map (·, cs.dropWhile isPart)
    | rest => some ([], rest)
  let exponent ← match rest with
    | [] => if fraction.isEmpty then none else some 0
    | c :: cs =>
      if c == 'e' || c == 'E' then
        let (negative, cs) := cutSign cs
        (digits? Char.isDigit cs).map fun ds =>
          if negative then -(digitsValue ds : Int) else digitsValue ds
      else none
  return { whole, fraction, exponent }

/-- Whether a word is a float. One that is too large is none, unless it is negative. -/
def isFloat (cs : List Char) : Bool :=
  let (negative, body) := cutSign cs
  if body = ['i', 'n', 'f'] ∨ body = ['n', 'a', 'n'] then true
  else (decimal? body).any fun d => negative || d.isFinite

/-! ## Dates and times -/

/-- The number that two digits spell, if it lies between two bounds. -/
def twoDigits? (low high : Nat) (a b : Char) : Option Nat :=
  if a.isDigit && b.isDigit then
    let n := 10 * digitValue a + digitValue b
    if low ≤ n && n ≤ high then some n else none
  else none

def daysIn (year month : Nat) : Nat :=
  if month = 2 then
    if year % 4 = 0 ∧ (year % 100 ≠ 0 ∨ year % 400 = 0) then 29 else 28
  else if month = 4 ∨ month = 6 ∨ month = 9 ∨ month = 11 then 30
  else 31

/-- What follows a date. -/
def afterDate? : List Char → Option (List Char)
  | a :: b :: c :: d :: '-' :: m :: n :: '-' :: x :: y :: cs => do
    if [a, b, c, d].any (!·.isDigit) then none
    let month ← twoDigits? 1 12 m n
    let day ← twoDigits? 1 31 x y
    if day ≤ daysIn (valueIn 10 [a, b, c, d]) month then some cs else none
  | _ => none

/-- What follows a time of day. -/
def afterTime? : List Char → Option (List Char)
  | a :: b :: ':' :: c :: d :: ':' :: e :: f :: cs => do
    let _ ← twoDigits? 0 23 a b
    let _ ← twoDigits? 0 59 c d
    let _ ← twoDigits? 0 60 e f
    match cs with
    | '.' :: x :: cs => if x.isDigit then some (cs.dropWhile Char.isDigit) else none
    | cs => some cs
  | _ => none

/-- Whether the text is nothing or the offset of a time zone. -/
def isOffset : List Char → Bool
  | [] | ['Z'] | ['z'] => true
  | [s, a, b, ':', c, d] =>
    (s == '+' || s == '-') && (twoDigits? 0 23 a b).isSome && (twoDigits? 0 59 c d).isSome
  | _ => false

/-- Whether a word is a date, a time, or both with or without an offset. -/
def isDateTime (cs : List Char) : Bool :=
  match afterDate? cs with
  | some [] => true
  | some (c :: rest) =>
    (c == 'T' || c == 't' || c == ' ') && (afterTime? rest).any isOffset
  | none => afterTime? cs == some []

/-- The value of a word. -/
def word? (cs : List Char) : Option Toml :=
  let text := String.ofList cs
  if text = "true" then some (.boolean true)
  else if text = "false" then some (.boolean false)
  else match integer? cs with
    | some n => if fits n then some (.integer n) else none
    | none =>
      if isFloat cs then some (.float text)
      else if isDateTime cs then some (.dateTime text)
      else none

end ClientTypes.Toml
