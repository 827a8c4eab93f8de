import ClientTypes.Text.UppercaseTable
import ClientTypes.Text.AlphanumericTable
import ClientTypes.Text.CaseTable

/-!
# Classes and case of characters

The character classes that names and tags are read with, the full case maps of single characters,
and the trimming of blanks. All of them range over the whole of Unicode.
-/

namespace ClientTypes.Text

/-- The property `White_Space`. -/
def blankRuns : List CodeRun :=
  [⟨9, 13, 1⟩, ⟨32, 32, 1⟩, ⟨133, 133, 1⟩, ⟨160, 160, 1⟩, ⟨5760, 5760, 1⟩, ⟨8192, 8202, 1⟩,
   ⟨8232, 8233, 1⟩, ⟨8239, 8239, 1⟩, ⟨8287, 8287, 1⟩, ⟨12288, 12288, 1⟩]

def isBlank (c : Char) : Bool := inRuns blankRuns c

def isUppercase (c : Char) : Bool := inRuns uppercaseRuns c

def isAlphanumeric (c : Char) : Bool := inRuns alphanumericRuns c

/-- Full uppercase of one character; a sharp s becomes two letters. -/
def upper (c : Char) : List Char := mapCase upperShifts upperExpansions c

/-- Full lowercase of one character, whatever its neighbours are. -/
def lower (c : Char) : List Char := mapCase lowerShifts lowerExpansions c

/-- Drops the blanks at the front. -/
def trimFront (cs : List Char) : List Char := cs.dropWhile isBlank

/-- Drops the blanks at both ends. -/
def trim (cs : List Char) : List Char := (trimFront (trimFront cs).reverse).reverse

theorem length_trimFront_le (cs : List Char) : (trimFront cs).length ≤ cs.length :=
  (List.dropWhile_sublist _).length_le

theorem length_trim_le (cs : List Char) : (trim cs).length ≤ cs.length := by
  have := length_trimFront_le cs
  have := length_trimFront_le (trimFront cs).reverse
  simp only [trim, List.length_reverse] at *
  omega

/-- The text without the blanks at both ends. -/
def trimmed (s : String) : String := String.ofList (trim s.toList)

end ClientTypes.Text
