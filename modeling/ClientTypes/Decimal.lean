/-!
# Decimal numbers as doubles

Whether a decimal number can be read as a finite double. There are two readers. The exact one rounds
the number to the nearest double. The stepwise one keeps the leading digits that fit a word of 64
bits, and rounds three times: that word, the power of ten, and their product. The two differ next to
the largest double.

## Main definitions

* `roundToDouble` — the nearest double of a natural number
* `Decimal.isFinite` — whether the exact reader ends with a finite double
* `Decimal.isFiniteStepwise` — whether the stepwise reader does
-/

namespace ClientTypes

/-- The value of a digit. -/
def decimalDigit (d : Char) : Nat := d.toNat - '0'.toNat

/-- The value of a run of digits. -/
def digitsValue (ds : List Char) : Nat := ds.foldl (fun n d => 10 * n + decimalDigit d) 0

/-- The nearest number of at most 53 binary digits before zeros; of two the even one. -/
def roundToDouble (n : Nat) : Nat :=
  let unit := Nat.pow 2 (n.log2 + 1 - 53)
  let quotient := n / unit
  let twice := 2 * (n % unit)
  if unit < twice || (twice == unit && quotient % 2 == 1) then (quotient + 1) * unit
  else quotient * unit

theorem roundToDouble_of_lt {n : Nat} (h : n < Nat.pow 2 53) : roundToDouble n = n := by
  have hlog : n.log2 + 1 - 53 = 0 := by
    rcases Nat.eq_zero_or_pos n with rfl | hpos
    · simp
    · have := (Nat.log2_lt (by omega)).2 h
      omega
  simp [roundToDouble, hlog, Nat.mod_one]

/-- Above every finite double. -/
def doubleBound : Nat := Nat.pow 2 1024

/-- The least number whose nearest double is infinite: half a unit below `doubleBound`. -/
def overflowBound : Nat := doubleBound - Nat.pow 2 970

/-- A decimal number without its sign: the digits before and after the point, and the power of ten
that it is multiplied by. -/
structure Decimal where
  whole : List Char
  fraction : List Char
  exponent : Int
deriving DecidableEq, Repr, Inhabited

namespace Decimal

/-- Whether the nearest double is finite. Only numbers of 309 digits before the point need their
value for that. -/
def isFinite (d : Decimal) : Bool :=
  let digits := (d.whole ++ d.fraction).dropWhile (· == '0')
  let power := d.exponent - d.fraction.length
  let top := digits.length + power
  if digits.isEmpty || top ≤ 308 then true
  else if 309 < top then false
  else if 0 ≤ power then decide (digitsValue digits * Nat.pow 10 power.toNat < overflowBound)
  else decide (digitsValue digits < overflowBound * Nat.pow 10 (-power).toNat)

/-- Appends digits to a number as long as it fits a word, and counts them. -/
def appendDigits (word : Nat) : List Char → Nat × Nat
  | [] => (word, 0)
  | d :: ds =>
    let next := 10 * word + decimalDigit d
    if next < Nat.pow 2 64 then
      let (longer, count) := appendDigits next ds
      (longer, count + 1)
    else (word, 0)

/-- The leading digits as a word, and the power of ten that goes with it. Digits before the point
that do not fit count for the power; those after it are dropped. -/
def leading (d : Decimal) : Nat × Int :=
  let (word, kept) := appendDigits 0 d.whole
  let (word, appended) := appendDigits word d.fraction
  (word, d.exponent + (d.whole.length - kept : Nat) - appended)

/-- Whether the stepwise reader ends with a finite double. A negative power divides and cannot
overflow; the powers from 309 on are infinite themselves. -/
def isFiniteStepwise (d : Decimal) : Bool :=
  let (word, power) := d.leading
  if word == 0 || power ≤ 0 then true
  else if 308 < power then false
  else
    let product := roundToDouble word * roundToDouble (Nat.pow 10 power.toNat)
    decide (roundToDouble product < doubleBound)

end Decimal

end ClientTypes
