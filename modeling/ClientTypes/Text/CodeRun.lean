/-!
# Runs of code points

A property of characters is tabled as a list of runs: code points from a first to a last one at a
fixed distance. A case map is tabled as runs whose members all move by the same amount.
-/

namespace ClientTypes.Text

/-- The code points `first`, `first + step`, … up to `last`. -/
structure CodeRun where
  first : Nat
  last : Nat
  step : Nat
deriving DecidableEq, Repr

/-- Membership of a code point in a run. -/
def CodeRun.contains (run : CodeRun) (code : Nat) : Bool :=
  run.first ≤ code && code ≤ run.last && (code - run.first) % run.step == 0

/-- A run of code points that a case map moves by `shift`. -/
structure CaseShift where
  run : CodeRun
  shift : Int
deriving DecidableEq, Repr

/-- Membership of a character in one of several runs. -/
def inRuns (runs : List CodeRun) (c : Char) : Bool := runs.any (·.contains c.toNat)

/-- The image of a character under a case map: an expansion if it has one, else the shift of its
run, else the character itself. -/
def mapCase (shifts : List CaseShift) (expansions : List (Nat × List Nat)) (c : Char) : List Char :=
  match expansions.find? (·.1 == c.toNat) with
  | some (_, codes) => codes.map Char.ofNat
  | none =>
    match shifts.find? (·.run.contains c.toNat) with
    | some s => [Char.ofNat (c.toNat + s.shift).toNat]
    | none => [c]

end ClientTypes.Text
