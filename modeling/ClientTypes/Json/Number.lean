import ClientTypes.Decimal
import ClientTypes.Json.Basic

/-!
# Number literals

The grammar of JSON numbers and the two things that are asked of a literal: which natural number
it spells, and whether it can be read at all, which takes a finite double.
-/

namespace ClientTypes.Json

/-- May occur in a number. -/
def isNumberPart (c : Char) : Bool :=
  c.isDigit || c == '-' || c == '+' || c == '.' || c == 'e' || c == 'E'

private def isWhole : List Char → Bool
  | [] => false
  | ['0'] => true
  | c :: _ => c != '0'

private def dropSign : List Char → List Char
  | '+' :: cs => cs
  | '-' :: cs => cs
  | cs => cs

/-- A number cut at its point and its exponent mark. -/
structure NumberParts where
  negative : Bool
  whole : List Char
  fraction : Option (List Char)
  exponent : Option (List Char)

/-- Cuts a literal; `none` unless it is a JSON number. -/
def numberParts? (cs : List Char) : Option NumberParts :=
  let negative := cs.head? == some '-'
  let body := if negative then cs.tail else cs
  let whole := body.takeWhile Char.isDigit
  let (fraction, rest) := match body.dropWhile Char.isDigit with
    | '.' :: cs => (some (cs.takeWhile Char.isDigit), cs.dropWhile Char.isDigit)
    | cs => (none, cs)
  let exponent := match rest with
    | [] => some none
    | e :: cs =>
      let digits := dropSign cs
      if (e == 'e' || e == 'E') && !digits.isEmpty && digits.all Char.isDigit then some (some cs)
      else none
  if isWhole whole && fraction != some [] then
    exponent.map fun exponent => ⟨negative, whole, fraction, exponent⟩
  else none

/-- The natural number that a literal spells with digits alone. -/
def natural? (literal : String) : Option Nat :=
  match numberParts? literal.toList with
  | some ⟨false, whole, none, none⟩ => some (digitsValue whole)
  | _ => none

/-- The whole number that an exponent spells. -/
def exponentValue : List Char → Int
  | '-' :: ds => -(digitsValue ds : Int)
  | ds => digitsValue (dropSign ds)

/-- The number without its sign. -/
def NumberParts.decimal (p : NumberParts) : Decimal where
  whole := p.whole
  fraction := p.fraction.getD []
  exponent := (p.exponent.map exponentValue).getD 0

/-- Whether a literal can be read as a number. -/
def isReadableNumber (literal : String) : Bool :=
  (numberParts? literal.toList).any (·.decimal.isFiniteStepwise)

end ClientTypes.Json
